import Mathlib.Order.Interval.Finset.Nat
import Mathlib.Algebra.GroupWithZero.Nat

/-!
# Labelled runs

A function on the natural numbers that is constant on a few stretches and has one fixed value
everywhere else is written down as a set of runs: half-open intervals that do not overlap, each with its
label. The set is canonical when no run could be longer, and a function has one canonical set.
-/

class Run (ρ : Type*) (α : outParam Type*) where
  start : ρ → Nat
  stop : ρ → Nat
  label : ρ → α

namespace Runs

open Run
open List hiding max insert

variable {ρ α : Type*} [Run ρ α] {S T : Set ρ} {f g : Nat → α} {rest : α} {r q : ρ} {n : Nat}

def Covers (r : ρ) (n : Nat) : Prop := start r ≤ n ∧ n < stop r

instance (r : ρ) (n : Nat) : Decidable (Covers r n) := inferInstanceAs (Decidable (_ ∧ _))

/-- One of the two ends before the other begins. -/
def Apart (r q : ρ) : Prop := stop r ≤ start q ∨ stop q ≤ start r

structure Layout (S : Set ρ) : Prop where
  proper : ∀ r ∈ S, start r < stop r
  apart : ∀ r ∈ S, ∀ q ∈ S, r ≠ q → Apart r q

/-- `S` writes down `f`, which is `rest` outside the runs. -/
structure Shows (S : Set ρ) (f : Nat → α) (rest : α) : Prop where
  inside : ∀ r ∈ S, ∀ n, Covers r n → f n = label r
  outside : ∀ n, (∀ r ∈ S, ¬Covers r n) → f n = rest

def Maximal (S : Set ρ) : Prop := ∀ r ∈ S, ∀ q ∈ S, stop r = start q → label r ≠ label q

structure Canonical (S : Set ρ) (f : Nat → α) (rest : α) : Prop where
  layout : Layout S
  shows : Shows S f rest
  maximal : Maximal S
  marked : ∀ r ∈ S, label r ≠ rest

theorem Layout.eq_of_covers (h : Layout S) (hr : r ∈ S) (hq : q ∈ S) (hcr : Covers r n)
    (hcq : Covers q n) : r = q := by
  by_contra hne
  obtain hle | hle := h.apart r hr q hq hne
  · exact absurd (hcr.2.trans_le hle) (not_lt.mpr hcq.1)
  · exact absurd (hcq.2.trans_le hle) (not_lt.mpr hcr.1)

theorem Layout.mono (h : Layout S) (hsub : T ⊆ S) : Layout T :=
  ⟨fun r hr => h.proper r (hsub hr), fun r hr q hq => h.apart r (hsub hr) q (hsub hq)⟩

theorem Layout.covers_start (h : Layout S) (hr : r ∈ S) : Covers r (start r) :=
  ⟨le_rfl, h.proper r hr⟩

theorem Layout.eq_of_start (h : Layout S) (hr : r ∈ S) (hq : q ∈ S) (hstart : start r = start q) : r = q :=
  h.eq_of_covers hr hq (h.covers_start hr) (hstart ▸ h.covers_start hq)

theorem Layout.stop_le_start (h : Layout S) (hr : r ∈ S) (hq : q ∈ S) (hlt : start r < start q) :
    stop r ≤ start q := by
  have hne : r ≠ q := fun heq => lt_irrefl _ (heq ▸ hlt)
  have hproper := h.proper q hq
  obtain hle | hle := h.apart r hr q hq hne
  · exact hle
  · omega

theorem Layout.covers_last (h : Layout S) (hr : r ∈ S) : Covers r (stop r - 1) := by
  have hproper := h.proper r hr
  exact ⟨by omega, by omega⟩

theorem Shows.exists_covers (h : Shows S f rest) (hn : f n ≠ rest) : ∃ r ∈ S, Covers r n ∧ label r = f n := by
  by_contra hnone
  push Not at hnone
  refine hn (h.outside n fun r hr hcov => ?_)
  exact hnone r hr hcov (h.inside r hr n hcov).symm

theorem Layout.insert (h : Layout S) (hproper : start r < stop r) (hapart : ∀ q ∈ S, Apart r q) :
    Layout (insert r S) := by
  refine ⟨?_, ?_⟩
  · rintro p (rfl | hp)
    · exact hproper
    · exact h.proper p hp
  · rintro p (rfl | hp) q (rfl | hq) hne
    · exact absurd rfl hne
    · exact hapart q hq
    · exact (hapart p hp).symm
    · exact h.apart p hp q hq hne

theorem Shows.insert (h : Shows S f rest) (hsame : ∀ n, ¬Covers r n → g n = f n)
    (hlabel : ∀ n, Covers r n → g n = label r)
    (hapart : ∀ q ∈ S, ∀ n, Covers q n → ¬Covers r n) : Shows (insert r S) g rest := by
  refine ⟨?_, ?_⟩
  · rintro p (rfl | hp) n hn
    · exact hlabel n hn
    · rw [hsame n (hapart p hp n hn)]
      exact h.inside p hp n hn
  · intro n hn
    rw [hsame n (hn r (Set.mem_insert r S))]
    exact h.outside n fun p hp => hn p (Set.mem_insert_of_mem r hp)

/-- `S` with the run `r` exchanged for pieces of it. -/
def exchange (S : Set ρ) (r : ρ) (pieces : Set ρ) : Set ρ := { q ∈ S | q ≠ r } ∪ pieces

theorem Layout.exchange (h : Layout S) (hr : r ∈ S) {pieces : Set ρ} (hpieces : Layout pieces)
    (hwithin : ∀ p ∈ pieces, start r ≤ start p ∧ stop p ≤ stop r) : Layout (exchange S r pieces) := by
  have hoth : ∀ p ∈ pieces, ∀ q ∈ S, q ≠ r → Apart p q := by
    intro p hp q hq hne
    obtain ⟨hlow, hhigh⟩ := hwithin p hp
    exact (h.apart r hr q hq (Ne.symm hne)).imp hhigh.trans (fun hle => hle.trans hlow)
  refine ⟨?_, ?_⟩
  · rintro p (⟨hp, -⟩ | hp)
    · exact h.proper p hp
    · exact hpieces.proper p hp
  · rintro p (⟨hp, hpr⟩ | hp) q (⟨hq, hqr⟩ | hq) hne
    · exact h.apart p hp q hq hne
    · exact (hoth q hq p hp hpr).symm
    · exact hoth p hp q hq hqr
    · exact hpieces.apart p hp q hq hne

theorem Shows.exchange (h : Shows S f rest) (hlay : Layout S) (hr : r ∈ S) {pieces : Set ρ}
    (hsame : ∀ n, ¬Covers r n → g n = f n) (hlabel : ∀ p ∈ pieces, ∀ n, Covers p n → g n = label p)
    (hgap : ∀ n, Covers r n → (∀ p ∈ pieces, ¬Covers p n) → g n = rest) : Shows (exchange S r pieces) g rest := by
  refine ⟨?_, ?_⟩
  · rintro p (⟨hp, hpr⟩ | hp) n hn
    · have hnot : ¬Covers r n := fun hcov => hpr (hlay.eq_of_covers hp hr hn hcov)
      rw [hsame n hnot]
      exact h.inside p hp n hn
    · exact hlabel p hp n hn
  · intro n hn
    by_cases hcov : Covers r n
    · exact hgap n hcov fun p hp => hn p (.inr hp)
    · rw [hsame n hcov]
      refine h.outside n fun p hp hpn => ?_
      by_cases hpr : p = r
      · exact hcov (hpr ▸ hpn)
      · exact hn p (.inl ⟨hp, hpr⟩) hpn

section

variable (hS : Canonical S f rest) (hT : Canonical T f rest) (hr : r ∈ S) (hq : q ∈ T)
  (hcr : Covers r n) (hcq : Covers q n)

include hS hT hr hq hcr hcq

theorem Canonical.exists_covers {m : Nat} (hm : Covers q m) : ∃ p ∈ S, Covers p m ∧ label p = label r := by
  have hlabels : label q = label r := by
    rw [← hT.shows.inside q hq n hcq, hS.shows.inside r hr n hcr]
  have hvalue := hT.shows.inside q hq _ hm
  have hmarked : f m ≠ rest := by
    rw [hvalue]
    exact hT.marked q hq
  obtain ⟨p, hp, hcp, hlabel⟩ := hS.shows.exists_covers hmarked
  exact ⟨p, hp, hcp, by rw [hlabel, hvalue, hlabels]⟩

/-- Where two canonical sets write down the same function, the run of one at a place starts no later
than the run of the other. -/
theorem Canonical.start_le : start r ≤ start q := by
  by_contra hlt
  push Not at hlt
  have hbefore : Covers q (start r - 1) := ⟨by omega, by have := hcq.2; have := hcr.1; omega⟩
  obtain ⟨p, hp, hcp, hlabel⟩ := hS.exists_covers hT hr hq hcr hcq hbefore
  have hlow := hcp.1
  have hhigh := hcp.2
  have hle := hS.layout.stop_le_start hp hr (by omega)
  exact hS.maximal p hp r hr (by omega) hlabel

theorem Canonical.stop_le : stop q ≤ stop r := by
  by_contra hlt
  push Not at hlt
  have hbehind : Covers q (stop r) := ⟨by have := hcq.1; have := hcr.2; omega, hlt⟩
  obtain ⟨p, hp, hcp, hlabel⟩ := hS.exists_covers hT hr hq hcr hcq hbehind
  have hne : r ≠ p := by
    rintro rfl
    exact lt_irrefl _ hcp.2
  obtain hle | hle := hS.layout.apart r hr p hp hne
  · exact hS.maximal r hr p hp (le_antisymm hle hcp.1) hlabel.symm
  · have := hcp.2
    have := hS.layout.proper r hr
    omega

end

/-- Runs with the same ends and label being the same run, a function has one canonical set. -/
theorem Canonical.unique (hS : Canonical S f rest) (hT : Canonical T f rest)
    (hext : ∀ r ∈ S, ∀ q ∈ T, start r = start q → stop r = stop q → label r = label q → r = q) : S = T := by
  have hsame : ∀ r ∈ S, ∀ q ∈ T, ∀ n, Covers r n → Covers q n → r = q := by
    intro r hr q hq n hcr hcq
    refine hext r hr q hq (le_antisymm (hS.start_le hT hr hq hcr hcq) (hT.start_le hS hq hr hcq hcr))
      (le_antisymm (hT.stop_le hS hq hr hcq hcr) (hS.stop_le hT hr hq hcr hcq)) ?_
    rw [← hS.shows.inside r hr n hcr, hT.shows.inside q hq n hcq]
  ext r
  constructor
  · intro hr
    have hcov := hS.layout.covers_start hr
    have hmarked : f (start r) ≠ rest := by
      rw [hS.shows.inside r hr _ hcov]
      exact hS.marked r hr
    obtain ⟨q, hq, hcq, -⟩ := hT.shows.exists_covers hmarked
    rw [hsame r hr q hq _ hcov hcq]
    exact hq
  · intro hr
    have hcov := hT.layout.covers_start hr
    have hmarked : f (start r) ≠ rest := by
      rw [hT.shows.inside r hr _ hcov]
      exact hT.marked r hr
    obtain ⟨q, hq, hcq, -⟩ := hS.shows.exists_covers hmarked
    rw [← hsame q hq r hr _ hcq hcov]
    exact hq

/-! ### A part of a layout edited on its own -/

section Splice

variable {O C : Set ρ} {h : Nat → α} {edited : Set Nat}

theorem apart_of_disjoint (hr : start r < stop r) (hq : start q < stop q)
    (hdisj : ∀ n, Covers r n → ¬Covers q n) : Apart r q := by
  by_contra hover
  have hleft : start q < stop r := not_le.mp fun hle => hover (.inl hle)
  have hright : start r < stop q := not_le.mp fun hle => hover (.inr hle)
  refine hdisj (max (start r) (start q)) ⟨le_max_left .., ?_⟩ ⟨le_max_right .., ?_⟩
  · exact max_lt hr hleft
  · exact max_lt hright hq

open Classical in
/-- What the runs of `S` say, and `rest` elsewhere. -/
noncomputable def restrict (S : Set ρ) (f : Nat → α) (rest : α) (n : Nat) : α :=
  if ∃ r ∈ S, Covers r n then f n else rest

theorem restrict_of_covers (hr : r ∈ S) (hn : Covers r n) : restrict S f rest n = f n :=
  if_pos ⟨r, hr, hn⟩

theorem restrict_of_not_covers (hnone : ∀ r ∈ S, ¬Covers r n) : restrict S f rest n = rest :=
  if_neg fun ⟨r, hr, hn⟩ => hnone r hr hn

theorem exists_covers_of_restrict (h : restrict S f rest n ≠ rest) : ∃ r ∈ S, Covers r n := by
  by_contra hnone
  exact h (if_neg hnone)

theorem Canonical.mono (hS : Canonical S f rest) (hsub : O ⊆ S) : Canonical O (restrict O f rest) rest := by
  refine ⟨hS.layout.mono hsub, ⟨fun r hr n hn => ?_, fun n hnone => restrict_of_not_covers hnone⟩,
    fun r hr q hq => hS.maximal r (hsub hr) q (hsub hq), fun r hr => hS.marked r (hsub hr)⟩
  rw [restrict_of_covers hr hn]
  exact hS.shows.inside r (hsub hr) n hn

/-- Where a part edited on its own is as before, its runs are those of the part. -/
theorem Canonical.kept (hS : Canonical S f rest) (hsub : O ⊆ S) (hC : Canonical C g rest)
    (hsame : ∀ n, n ∉ edited → g n = restrict O f rest n) :
    ∀ c ∈ C, ∀ n, Covers c n → n ∉ edited → ∃ o ∈ O, Covers o n ∧ label o = label c := by
  intro c hc n hn hout
  have hvalue := hC.shows.inside c hc n hn
  have hmarked := hC.marked c hc
  rw [← hvalue, hsame n hout] at hmarked
  obtain ⟨o, ho, hcov⟩ := exists_covers_of_restrict hmarked
  refine ⟨o, ho, hcov, ?_⟩
  rw [← hvalue, hsame n hout, restrict_of_covers ho hcov, hS.shows.inside o (hsub ho) n hcov]

/-- The runs `O` of a canonical set are taken out, edited on the places of `edited`, and put back in
canonical form. What stayed outside lies away from those places, so the whole is canonical again. -/
theorem Canonical.splice (hS : Canonical S f rest) (hsub : O ⊆ S) (hC : Canonical C g rest)
    (hfar : ∀ r ∈ S, r ∉ O → ∀ n ∈ edited, n + 1 < start r ∨ stop r < n)
    (hkept : ∀ c ∈ C, ∀ n, Covers c n → n ∉ edited → ∃ o ∈ O, Covers o n ∧ label o = label c)
    (hinside : ∀ n, (∃ r ∈ S \ O, Covers r n) → h n = f n)
    (houtside : ∀ n, (∀ r ∈ S \ O, ¬Covers r n) → h n = g n) : Canonical (C ∪ S \ O) h rest := by
  have hdisj : ∀ c ∈ C, ∀ u ∈ S \ O, ∀ n, Covers c n → ¬Covers u n := by
    intro c hc u hu n hcn hun
    by_cases hin : n ∈ edited
    · have hlow := hun.1
      have hhigh := hun.2
      have := hfar u hu.1 hu.2 n hin
      omega
    · obtain ⟨o, ho, hcov, -⟩ := hkept c hc n hcn hin
      exact hu.2 (hS.layout.eq_of_covers (hsub ho) hu.1 hcov hun ▸ ho)
  have hapart : ∀ c ∈ C, ∀ u ∈ S \ O, Apart c u := fun c hc u hu =>
    apart_of_disjoint (hC.layout.proper c hc) (hS.layout.proper u hu.1) (hdisj c hc u hu)
  refine ⟨⟨?_, ?_⟩, ⟨?_, ?_⟩, ?_, ?_⟩
  · rintro r (hr | hr)
    · exact hC.layout.proper r hr
    · exact hS.layout.proper r hr.1
  · rintro r (hr | hr) q (hq | hq) hne
    · exact hC.layout.apart r hr q hq hne
    · exact hapart r hr q hq
    · exact (hapart q hq r hr).symm
    · exact hS.layout.apart r hr.1 q hq.1 hne
  · rintro r (hr | hr) n hn
    · rw [houtside n fun u hu hun => hdisj r hr u hu n hn hun]
      exact hC.shows.inside r hr n hn
    · rw [hinside n ⟨r, hr, hn⟩]
      exact hS.shows.inside r hr.1 n hn
  · intro n hnone
    rw [houtside n fun u hu => hnone u (.inr hu)]
    exact hC.shows.outside n fun c hc => hnone c (.inl hc)
  · rintro r (hr | hr) q (hq | hq) htouch hequal
    · exact hC.maximal r hr q hq htouch hequal
    · -- `r` ends where the kept run `q` begins: its last place was not edited
      have hlast := hC.layout.covers_last hr
      have hlong := hC.layout.proper r hr
      have hlongq := hS.layout.proper q hq.1
      have hout : stop r - 1 ∉ edited := fun hin => by
        have := hfar q hq.1 hq.2 _ hin
        omega
      obtain ⟨o, ho, hcov, hlabel⟩ := hkept r hr _ hlast hout
      have hend := hcov.2
      have hbegin := hcov.1
      have hle := hS.layout.stop_le_start (hsub ho) hq.1 (by omega)
      exact hS.maximal o (hsub ho) q hq.1 (by omega) (hlabel.trans hequal)
    · have hfirst := hC.layout.covers_start hq
      have hlong := hC.layout.proper q hq
      have hlongr := hS.layout.proper r hr.1
      have hout : start q ∉ edited := fun hin => by
        have := hfar r hr.1 hr.2 _ hin
        omega
      obtain ⟨o, ho, hcov, hlabel⟩ := hkept q hq _ hfirst hout
      have hne : r ≠ o := fun heq => hr.2 (heq ▸ ho)
      have hend := hcov.2
      have hbegin := hcov.1
      obtain hle | hle := hS.layout.apart r hr.1 o (hsub ho) hne
      · exact hS.maximal r hr.1 o (hsub ho) (by omega) (hequal.trans hlabel.symm)
      · omega
    · exact hS.maximal r hr.1 q hq.1 htouch hequal
  · rintro r (hr | hr)
    · exact hC.marked r hr
    · exact hS.marked r hr.1

end Splice

def labelAt (runs : List ρ) (rest : α) (n : Nat) : α :=
  ((runs.find? fun r => Covers r n).map label).getD rest

variable {runs : List ρ}

theorem Layout.shows_labelAt (h : Layout { r | r ∈ runs }) (rest : α) :
    Shows { r | r ∈ runs } (labelAt runs rest) rest := by
  refine ⟨fun r hr n hn => ?_, fun n hn => ?_⟩
  · cases hfind : runs.find? fun r => Covers r n with
    | none => exact absurd hn (by simpa using find?_eq_none.mp hfind r hr)
    | some q =>
      have hq : Covers q n := by simpa using find?_some hfind
      rw [labelAt, hfind, ← h.eq_of_covers (mem_of_find?_eq_some hfind) hr hq hn]
      rfl
  · have hnone : runs.find? (fun r => Covers r n) = none :=
      find?_eq_none.mpr fun r hr => by simpa using hn r hr
    rw [labelAt, hnone]
    rfl

theorem Shows.eq_labelAt (h : Shows { r | r ∈ runs } f rest)
    (hlay : Layout { r | r ∈ runs }) : labelAt runs rest = f := by
  have hlist := hlay.shows_labelAt rest
  funext n
  by_cases hcovered : ∃ r ∈ runs, Covers r n
  · obtain ⟨r, hr, hn⟩ := hcovered
    rw [hlist.inside r hr n hn, h.inside r hr n hn]
  · push Not at hcovered
    rw [hlist.outside n hcovered, h.outside n hcovered]

theorem layout_of_pairwise (hproper : ∀ r ∈ runs, start r < stop r)
    (hsort : runs.Pairwise fun r q => stop r ≤ start q) : Layout { r | r ∈ runs } := by
  have hpair : runs.Pairwise Apart := hsort.imp .inl
  have : Std.Symm (Apart : ρ → ρ → Prop) := ⟨fun _ _ => Or.symm⟩
  exact ⟨hproper, fun r hr q hq hne => hpair.forall hr hq hne⟩

theorem Layout.pairwise (h : Layout { r | r ∈ runs }) (hsort : runs.Pairwise fun r q => start r < start q) :
    runs.Pairwise fun r q => stop r ≤ start q :=
  hsort.imp_of_mem fun hr hq hlt => h.stop_le_start hr hq hlt

def places : List ρ → Finset Nat
  | [] => ∅
  | r :: runs => Finset.Ico (start r) (stop r) ∪ places runs

theorem mem_places : n ∈ places runs ↔ ∃ r ∈ runs, Covers r n := by
  induction runs with
  | nil => simp [places]
  | cons r runs ih =>
    rw [places, Finset.mem_union, Finset.mem_Ico, ih, exists_mem_cons_iff]
    rfl

theorem card_places (hsort : runs.Pairwise fun r q => stop r ≤ start q) :
    (places runs).card = (runs.map fun r => stop r - start r).sum := by
  induction runs with
  | nil => rfl
  | cons r runs ih =>
    obtain ⟨hfirst, hrest⟩ := pairwise_cons.mp hsort
    have hdisj : Disjoint (Finset.Ico (start r) (stop r)) (places runs) := by
      rw [Finset.disjoint_left]
      intro n hn hrestn
      obtain ⟨q, hq, hcov⟩ := mem_places.mp hrestn
      have hlow := hcov.1
      have hbehind := hfirst q hq
      rw [Finset.mem_Ico] at hn
      omega
    rw [places, Finset.card_union_of_disjoint hdisj, Nat.card_Ico, ih hrest, map_cons, sum_cons]

/-! ### Merging neighbours -/

/-- `merged` writes down what `runs` does, and no two of its runs could be one. -/
structure Merged (runs merged : List ρ) : Prop where
  proper : ∀ r ∈ merged, start r < stop r
  sorted : merged.Pairwise fun r q => stop r ≤ start q
  maximal : Maximal { r | r ∈ merged }
  covers : ∀ n a, (∃ r ∈ merged, Covers r n ∧ label r = a) ↔ ∃ r ∈ runs, Covers r n ∧ label r = a

theorem maximal_singleton (hr : start r < stop r) : Maximal { p | p ∈ [r] } := by
  intro a ha b hb htouch
  rw [mem_singleton.mp ha, mem_singleton.mp hb] at htouch
  exact absurd htouch hr.ne'

theorem maximal_cons (hproper : ∀ p ∈ r :: q :: runs, start p < stop p)
    (hsort : (r :: q :: runs).Pairwise fun a b => stop a ≤ start b) :
    Maximal { p | p ∈ r :: q :: runs } ↔ (stop r = start q → label r ≠ label q) ∧ Maximal { p | p ∈ q :: runs } := by
  obtain ⟨hall, hrest⟩ := pairwise_cons.mp hsort
  have hlong := hproper r (mem_cons_self ..)
  constructor
  · intro hmaximal
    refine ⟨hmaximal r (mem_cons_self ..) q (by simp), fun a ha b hb => ?_⟩
    exact hmaximal a (mem_cons_of_mem _ ha) b (mem_cons_of_mem _ hb)
  · rintro ⟨hneighbour, hmaximal⟩ a ha b hb htouch
    obtain rfl | ha' := mem_cons.mp ha
    · obtain rfl | hb' := mem_cons.mp hb
      · exact absurd htouch hlong.ne'
      obtain rfl | hb' := mem_cons.mp hb'
      · exact hneighbour htouch
      · have := (pairwise_cons.mp hrest).1 b hb'
        have := hall q (mem_cons_self ..)
        have := hproper q (by simp)
        omega
    · obtain rfl | hb' := mem_cons.mp hb
      · have := hall a ha'
        have := hproper a ha
        omega
      · exact hmaximal a ha' b hb' htouch

theorem Merged.singleton (hr : start r < stop r) : Merged [r] [r] :=
  ⟨forall_mem_singleton.mpr hr, pairwise_singleton .., maximal_singleton hr, fun _ _ => Iff.rfl⟩

theorem Merged.join {joined : ρ} {runs merged : List ρ} (h : Merged (joined :: runs) merged)
    (hr : start r < stop r) (hq : start q < stop q) (htouch : stop r = start q)
    (hlabel : label r = label q) (hstart : start joined = start r) (hstop : stop joined = stop q)
    (hjoined : label joined = label r) : Merged (r :: q :: runs) merged := by
  refine ⟨h.proper, h.sorted, h.maximal, fun n a => ?_⟩
  have hsplit : Covers joined n ↔ Covers r n ∨ Covers q n := by
    show start joined ≤ n ∧ n < stop joined ↔ (start r ≤ n ∧ n < stop r) ∨ (start q ≤ n ∧ n < stop q)
    omega
  rw [h.covers, exists_mem_cons_iff, exists_mem_cons_iff, exists_mem_cons_iff, ← or_assoc,
    hsplit, hjoined, ← hlabel, or_and_right]

theorem Merged.cons {first : ρ} {runs others : List ρ} (h : Merged (q :: runs) (first :: others))
    (hr : start r < stop r) (hle : stop r ≤ start q) (hne : stop r = start q → label r ≠ label q)
    (hstart : start first = start q) (hlabel : label first = label q) :
    Merged (r :: q :: runs) (r :: first :: others) := by
  have hfirst := h.proper first (mem_cons_self ..)
  have hbehind : ∀ p ∈ first :: others, stop r ≤ start p := by
    refine forall_mem_cons.mpr ⟨hstart ▸ hle, fun p hp => ?_⟩
    have := (pairwise_cons.mp h.sorted).1 p hp
    omega
  have hproper : ∀ p ∈ r :: first :: others, start p < stop p := forall_mem_cons.mpr ⟨hr, h.proper⟩
  have hsort := pairwise_cons.mpr ⟨hbehind, h.sorted⟩
  refine ⟨hproper, hsort, (maximal_cons hproper hsort).mpr ⟨fun htouch => ?_, h.maximal⟩, ?_⟩
  · rw [hlabel]
    exact hne (htouch.trans hstart)
  · intro n a
    rw [exists_mem_cons_iff, h.covers, exists_mem_cons_iff _ r (q :: runs)]

theorem Merged.shows {runs merged : List ρ} (h : Merged runs merged)
    (hruns : Shows { r | r ∈ runs } f rest) : Shows { r | r ∈ merged } f rest := by
  refine ⟨fun r hr n hn => ?_, fun n hnone => ?_⟩
  · obtain ⟨q, hq, hcov, hlabel⟩ := (h.covers n (label r)).mp ⟨r, hr, hn, rfl⟩
    rw [hruns.inside q hq n hcov, hlabel]
  · refine hruns.outside n fun q hq hcov => ?_
    obtain ⟨r, hr, hn, -⟩ := (h.covers n (label q)).mpr ⟨q, hq, hcov, rfl⟩
    exact hnone r hr hn

end Runs
