import Mathlib.Data.Set.Card

/-!
# Counting references

Places refer to cells, and every cell has a count that is at least the number of places that refer to it. A batch
of places that let go of their cells lowers the counts by one each, except for the cells whose count is one: those
are left without a reference. A batch of places that take cells of others raises the counts.
-/

namespace RefCount

open Set

variable {ι β : Type*} {refers refers' : ι → Option β} {refs refs' : β → Nat} {D : Set ι}

/-- The places that refer to a cell. -/
def holders (refers : ι → Option β) (b : β) : Set ι := {x | refers x = some b}

def Counted (refers : ι → Option β) (refs : β → Nat) : Prop := ∀ b, (holders refers b).encard ≤ refs b

theorem Counted.only (h : Counted refers refs) {b : β} (hb : refs b = 1) {x y : ι} (hx : refers x = some b)
    (hy : refers y = some b) : x = y := by
  have hone : (holders refers b).encard ≤ 1 := by
    have hcnt := h b
    rw [hb] at hcnt
    exact_mod_cast hcnt
  exact encard_le_one_iff.mp hone x y hx hy

variable (h : Counted refers refs) (hkeep : ∀ x, x ∉ D → refers' x = refers x)

include h hkeep

omit h in
theorem holders_subset {b : β} (hb : ¬∃ x ∈ D, refers' x = some b) : holders refers' b ⊆ holders refers b := by
  intro y hy
  by_cases hyD : y ∈ D
  · exact absurd ⟨y, hyD, hy⟩ hb
  · exact (hkeep y hyD).symm.trans hy

theorem Counted.drop (hgone : ∀ x ∈ D, refers' x = none) (hdist : ∀ x ∈ D, ∀ y ∈ D, ∀ b, refers x = some b → refers y = some b → x = y)
    (hdropped : ∀ b, (∃ x ∈ D, refers x = some b) → refs b ≠ 1 → refs b ≤ refs' b + 1)
    (hothers : ∀ b, ¬(∃ x ∈ D, refers x = some b) → refs b ≤ refs' b) :
    Counted refers' refs' ∧ ∀ b, (∃ x ∈ D, refers x = some b) → refs b = 1 → holders refers' b = ∅ := by
  have hgiven : ∀ b x, x ∈ D → refers x = some b → holders refers' b = holders refers b \ {x} := by
    intro b x hx hb
    ext y
    simp only [holders, mem_ofPred_eq, mem_sdiff, mem_singleton_iff]
    by_cases hy : y ∈ D
    · rw [hgone y hy]
      constructor
      · intro hnone
        cases hnone
      · rintro ⟨hyb, hne⟩
        exact absurd (hdist y hy x hx b hyb hb) hne
    · rw [hkeep y hy]
      exact ⟨fun hyb => ⟨hyb, fun heq => hy (heq ▸ hx)⟩, fun hyb => hyb.1⟩
  have hempty : ∀ b, (∃ x ∈ D, refers x = some b) → refs b = 1 → holders refers' b = ∅ := by
    rintro b ⟨x, hx, hxb⟩ hone
    rw [hgiven b x hx hxb, sdiff_eq_empty]
    intro y hy
    exact h.only hone hy hxb
  refine ⟨fun b => ?_, hempty⟩
  by_cases hb : ∃ x ∈ D, refers x = some b
  · by_cases hone : refs b = 1
    · rw [hempty b hb hone, encard_empty]
      exact zero_le
    · obtain ⟨x, hx, hxb⟩ := hb
      have hmem : x ∈ holders refers b := hxb
      have hsum := encard_sdiff_singleton_add_one hmem
      have hcnt := h b
      rw [← hsum, ← hgiven b x hx hxb] at hcnt
      have hle : ((refs b : Nat) : ℕ∞) ≤ (refs' b : Nat) + 1 := by exact_mod_cast hdropped b ⟨x, hx, hxb⟩ hone
      exact (ENat.add_le_add_iff_right (by decide)).mp (hcnt.trans hle)
  · have hsub : holders refers' b ⊆ holders refers b :=
      holders_subset hkeep fun ⟨x, hx, hxb⟩ => Option.some_ne_none b (hxb.symm.trans (hgone x hx))
    exact (encard_le_encard hsub).trans ((h b).trans (by exact_mod_cast hothers b hb))

variable (hdist : ∀ x ∈ D, ∀ y ∈ D, ∀ b, refers' x = some b → refers' y = some b → x = y)

include hdist

theorem Counted.take
    (htaken : ∀ x ∈ D, ∀ b, refers' x = some b → refs b + 1 ≤ refs' b) (hothers : ∀ b, refs b ≤ refs' b) :
    Counted refers' refs' := by
  intro b
  by_cases hb : ∃ x ∈ D, refers' x = some b
  · obtain ⟨x, hx, hxb⟩ := hb
    have hsub : holders refers' b ⊆ insert x (holders refers b) := by
      intro y hy
      by_cases hyD : y ∈ D
      · exact .inl (hdist y hyD x hx b hy hxb)
      · exact .inr ((hkeep y hyD).symm.trans hy)
    calc (holders refers' b).encard ≤ (insert x (holders refers b)).encard := encard_le_encard hsub
      _ ≤ (holders refers b).encard + 1 := encard_insert_le _ _
      _ ≤ refs b + 1 := by gcongr; exact h b
      _ ≤ refs' b := by exact_mod_cast htaken x hx b hxb
  · exact (encard_le_encard (holders_subset hkeep hb)).trans ((h b).trans (by exact_mod_cast hothers b))

theorem Counted.fresh (hunused : ∀ x ∈ D, ∀ b, refers' x = some b → holders refers b = ∅) (hpos : ∀ b, 1 ≤ refs b) :
    Counted refers' refs := by
  intro b
  by_cases hb : ∃ x ∈ D, refers' x = some b
  · obtain ⟨x, hx, hxb⟩ := hb
    have hsub : holders refers' b ⊆ {x} := by
      intro y hy
      by_cases hyD : y ∈ D
      · exact hdist y hyD x hx b hy hxb
      · have hold : y ∈ holders refers b := (hkeep y hyD).symm.trans hy
        rw [hunused x hx b hxb] at hold
        cases hold
    calc (holders refers' b).encard ≤ ({x} : Set ι).encard := encard_le_encard hsub
      _ = 1 := encard_singleton x
      _ ≤ refs b := by exact_mod_cast hpos b
  · exact (encard_le_encard (holders_subset hkeep hb)).trans (h b)

end RefCount
