import Afsplus.Core.FileData
import Afsplus.Lib.RefCount

/-!
# Who holds which block

Places of files hold cells of the volume. A ledger is right when every cell that is held is in use for data and
counted often enough, a cell that is not marked as shared is held once, and a block that is not in use for data has no
record. Each thing a transaction does to blocks keeps a ledger right, for any set of places: the staged extents of a
call are places of their own until they take the place of the ones they replace.
-/

namespace Afsplus.FileData

open Fallible Extents RefCount Function

section Ledger

variable {ι κ : Type*} {cells cells' : ι → Option Cell} {tx tx' : FileTx}

structure Held (cells : ι → Option Cell) (tx : FileTx) : Prop where
  counted : Counted (fun x => (cells x).map Cell.block) tx.refs
  positive : ∀ b, 1 ≤ tx.refs b
  alone : ∀ x c, cells x = some c → c.shared = false → tx.refs c.block = 1
  owned : ∀ x c, cells x = some c → tx.use c.block = .data
  idle : ∀ b, tx.use b ≠ .data → tx.refs b = 1

variable (h : Held cells tx)

include h

theorem Held.eq_of_alone {x y : ι} {c c' : Cell} (hx : cells x = some c) (hy : cells y = some c')
    (hblk : c'.block = c.block) (halone : c.shared = false) : x = y := by
  apply h.counted.only (h.alone x c hx halone)
  · simp [hx]
  · simp [hy, hblk]

theorem Held.not_free {x : ι} {c : Cell} (hx : cells x = some c) : tx.use c.block ≠ .free := by
  rw [h.owned x c hx]
  decide

theorem Held.comap {cells' : κ → Option Cell} {g : κ → ι} (hg : Injective g)
    (hsub : ∀ x c', cells' x = some c' →
      ∃ c, cells (g x) = some c ∧ c.block = c'.block ∧ (c.shared = true → c'.shared = true)) : Held cells' tx := by
  refine ⟨?_, h.positive, ?_, ?_, h.idle⟩
  · intro b
    refine le_trans ?_ (h.counted b)
    rw [← hg.encard_image]
    apply Set.encard_le_encard
    rintro _ ⟨x, hx, rfl⟩
    obtain ⟨c', hc', rfl⟩ := Option.map_eq_some_iff.mp hx
    obtain ⟨c, hc, hblk, -⟩ := hsub x c' hc'
    exact Option.map_eq_some_iff.mpr ⟨c, hc, hblk⟩
  · intro x c' hc' halone
    obtain ⟨c, hc, hblk, hshared⟩ := hsub x c' hc'
    rw [← hblk]
    apply h.alone (g x) c hc
    cases hc' : c.shared with
    | false => rfl
    | true => exact absurd (hshared hc') (by simp [halone])
  · intro x c' hc'
    obtain ⟨c, hc, hblk, -⟩ := hsub x c' hc'
    rw [← hblk]
    exact h.owned (g x) c hc

theorem Held.mono (hsub : ∀ x c', cells' x = some c' →
      ∃ c, cells x = some c ∧ c.block = c'.block ∧ (c.shared = true → c'.shared = true)) : Held cells' tx :=
  h.comap injective_id hsub

theorem Held.extend : Held (Sum.elim cells fun _ : κ => none) tx := by
  refine ⟨fun b => ?_, h.positive, ?_, ?_, h.idle⟩
  · have himage : holders (fun x : ι ⊕ κ => (Sum.elim cells (fun _ => none) x).map Cell.block) b =
        Sum.inl '' holders (fun x => (cells x).map Cell.block) b := by
      ext x
      cases x with
      | inl x => simp [holders]
      | inr x => simp [holders]
    rw [himage, Sum.inl_injective.encard_image]
    exact h.counted b
  · rintro (x | x) c hc halone
    · exact h.alone x c hc halone
    · cases hc
  · rintro (x | x) c hc
    · exact h.owned x c hc
    · cases hc

omit h in
theorem Held.begin {v : FileVolume} (h : Held cells ⟨v.use, v.refs⟩) (a : Answers) : Held cells (begin v a) where
  counted := h.counted
  positive := h.positive
  alone := h.alone
  owned x c hc := by
    show turned a c.block (v.use c.block) = .data
    rw [show v.use c.block = .data from h.owned x c hc]
    rfl
  idle b hb := by
    apply h.idle b
    rintro (hdata : v.use b = .data)
    apply hb
    show turned a b (v.use b) = .data
    rw [hdata]
    rfl

theorem Held.allocate {D : Set ι}
    (hframe : ∀ b, tx'.use b = tx.use b ∨ tx.use b = .free ∧ tx'.use b = .data) (hrefs : tx'.refs = tx.refs)
    (hkeep : ∀ x, x ∉ D → cells' x = cells x)
    (hfree : ∀ x ∈ D, ∀ c, cells' x = some c → tx.use c.block = .free ∧ tx'.use c.block = .data)
    (hdist : ∀ x ∈ D, ∀ y ∈ D, ∀ c c', cells' x = some c → cells' y = some c' → c.block = c'.block → x = y) :
    Held cells' tx' := by
  refine ⟨?_, ?_, ?_, ?_, ?_⟩
  · rw [hrefs]
    apply h.counted.fresh (D := D)
    · intro x hx
      simp only [hkeep x hx]
    · intro x hx y hy b hxb hyb
      obtain ⟨c, hc, hblk⟩ := Option.map_eq_some_iff.mp hxb
      obtain ⟨c', hc', hblock'⟩ := Option.map_eq_some_iff.mp hyb
      exact hdist x hx y hy c c' hc hc' (hblk.trans hblock'.symm)
    · intro x hx b hxb
      obtain ⟨c, hc, hblk⟩ := Option.map_eq_some_iff.mp hxb
      apply Set.eq_empty_of_forall_notMem
      intro y hy
      obtain ⟨c', hc', hblock'⟩ := Option.map_eq_some_iff.mp hy
      apply h.not_free hc'
      rw [hblock', ← hblk]
      exact (hfree x hx c hc).1
    · exact h.positive
  · rw [hrefs]
    exact h.positive
  · intro x c hc halone
    rw [hrefs]
    by_cases hx : x ∈ D
    · apply h.idle
      rw [(hfree x hx c hc).1]
      decide
    · rw [hkeep x hx] at hc
      exact h.alone x c hc halone
  · intro x c hc
    by_cases hx : x ∈ D
    · exact (hfree x hx c hc).2
    · rw [hkeep x hx] at hc
      have hdata := h.owned x c hc
      rcases hframe c.block with hsame | ⟨-, hnow⟩
      · rw [hsame, hdata]
      · exact hnow
  · intro b hb
    rw [hrefs]
    apply h.idle
    rcases hframe b with hsame | ⟨-, hnow⟩
    · rwa [← hsame]
    · exact absurd hnow hb

end Ledger

/-! ### Releasing and acquiring runs -/

section Runs

variable {ι : Type*} {cells : ι → Option Cell} {tx tx' : FileTx} {place : Nat → ι} {e : Extent}

def InRun (e : Extent) (b : Nat) : Prop := e.physicalStart ≤ b ∧ b < e.physicalStart + e.blockCount

theorem inRun_cell {n : Nat} (h : e.Covers n) : InRun e (e.cell n).block := by
  have hstop := e.stop_eq
  obtain ⟨hlow, hhigh⟩ := h
  show e.physicalStart ≤ e.physicalStart + (n - e.logicalStart) ∧ _ < _
  constructor
  · omega
  · show e.physicalStart + (n - e.logicalStart) < _
    omega

theorem exists_covers {b : Nat} (h : InRun e b) : ∃ n, e.Covers n ∧ (e.cell n).block = b := by
  have hstop := e.stop_eq
  obtain ⟨hlow, hhigh⟩ := h
  refine ⟨e.logicalStart + (b - e.physicalStart), ⟨by omega, by omega⟩, ?_⟩
  show e.physicalStart + (e.logicalStart + (b - e.physicalStart) - e.logicalStart) = b
  omega

theorem eq_of_block_eq {n m : Nat} (hn : e.Covers n) (hm : e.Covers m) (h : (e.cell n).block = (e.cell m).block) :
    n = m := by
  have hlow := hn.1
  have hlow' := hm.1
  change e.physicalStart + (n - e.logicalStart) = e.physicalStart + (m - e.logicalStart) at h
  omega

noncomputable def without (cells : ι → Option Cell) (place : Nat → ι) (e : Extent) (x : ι) : Option Cell :=
  open Classical in if ∃ n, e.Covers n ∧ place n = x then none else cells x

variable {u : Unit} {v : FileVolume}

/-- What releasing an extent leaves: its blocks that nothing else counts are retired, the others count once less. -/
theorem releaseDataRun_eq_ok (h : releaseDataRun v e tx = .ok u tx')
    (hprivate : e.shared = false → ∀ b, InRun e b → tx.refs b = 1) :
    (∀ b, InRun e b → tx.refs b = 1 → tx'.use b = .quarantined ∧ tx'.refs b = 1) ∧
      (∀ b, InRun e b → tx.refs b ≠ 1 → 1 ≤ tx.refs b → tx'.use b = tx.use b ∧ tx.refs b = tx'.refs b + 1) ∧
      ∀ b, ¬InRun e b → tx'.use b = tx.use b ∧ tx'.refs b = tx.refs b := by
  cases hshared : e.shared with
  | true =>
    rw [releaseDataRun, if_pos hshared] at h
    obtain ⟨-, h⟩ := require_bind_eq_ok.mp h
    obtain ⟨-, h⟩ := require_bind_eq_ok.mp h
    obtain rfl := modify_eq_ok.mp h
    refine ⟨?_, ?_, ?_⟩
    · intro b hb hone
      have htwo : tx.refs b < minReferenceCount := by rw [hone]; decide
      exact ⟨if_pos ⟨hb, htwo⟩, (if_neg fun hin => absurd hin.2.2 (not_le.mpr htwo)).trans hone⟩
    · intro b hb hone hpos
      have htwo : minReferenceCount ≤ tx.refs b := by
        show 2 ≤ tx.refs b
        omega
      refine ⟨if_neg fun hin => absurd htwo (not_le.mpr hin.2), ?_⟩
      show tx.refs b = RefEdit.lowered tx.refs e.physicalStart (e.physicalStart + e.blockCount) b + 1
      rw [RefEdit.lowered, if_pos ⟨hb.1, hb.2, htwo⟩]
      omega
    · intro b hb
      exact ⟨if_neg fun hin => hb hin.1, if_neg fun hin => hb ⟨hin.1, hin.2.1⟩⟩
  | false =>
    rw [releaseDataRun, if_neg (by simp [hshared])] at h
    obtain rfl := modify_eq_ok.mp h
    refine ⟨?_, ?_, ?_⟩
    · intro b hb hone
      exact ⟨if_pos hb, hone⟩
    · intro b hb hone
      exact absurd (hprivate hshared b hb) hone
    · intro b hb
      exact ⟨if_neg hb, rfl⟩

theorem releaseDataRun_frame (h : releaseDataRun v e tx = .ok u tx') (b : Nat) :
    tx'.use b = tx.use b ∨ tx'.use b = .quarantined := by
  cases hshared : e.shared with
  | true =>
    rw [releaseDataRun, if_pos hshared] at h
    obtain ⟨-, h⟩ := require_bind_eq_ok.mp h
    obtain ⟨-, h⟩ := require_bind_eq_ok.mp h
    obtain rfl := modify_eq_ok.mp h
    exact (ite_eq_or_eq _ _ _).symm
  | false =>
    rw [releaseDataRun, if_neg (by simp [hshared])] at h
    obtain rfl := modify_eq_ok.mp h
    exact (ite_eq_or_eq _ _ _).symm

theorem Held.release (h : Held cells tx)
    (hcells : ∀ n, e.Covers n → cells (place n) = some (e.cell n)) (hrun : releaseDataRun v e tx = .ok u tx') :
    Held (without cells place e) tx' := by
  have hheld : ∀ b, InRun e b → ∃ n, e.Covers n ∧ cells (place n) = some (e.cell n) ∧ (e.cell n).block = b := by
    intro b hb
    obtain ⟨n, hn, hblk⟩ := exists_covers hb
    exact ⟨n, hn, hcells n hn, hblk⟩
  have hprivate : e.shared = false → ∀ b, InRun e b → tx.refs b = 1 := by
    intro hshared b hb
    obtain ⟨n, -, hc, rfl⟩ := hheld b hb
    exact h.alone _ _ hc hshared
  obtain ⟨hlast, hlower, hoth⟩ := releaseDataRun_eq_ok hrun hprivate
  have hgone : ∀ x, (∃ n, e.Covers n ∧ place n = x) → without cells place e x = none := fun x hx => if_pos hx
  have hkeep : ∀ x, ¬(∃ n, e.Covers n ∧ place n = x) → without cells place e x = cells x := fun x hx => if_neg hx
  -- A block of the run is held by exactly one place of the extent.
  have hinRun : ∀ b, (∃ x ∈ {x | ∃ n, e.Covers n ∧ place n = x}, (cells x).map Cell.block = some b) ↔ InRun e b := by
    intro b
    constructor
    · rintro ⟨_, ⟨n, hn, rfl⟩, hb⟩
      rw [hcells n hn] at hb
      obtain rfl := Option.some.inj hb
      exact inRun_cell hn
    · intro hb
      obtain ⟨n, hn, hc, hblk⟩ := hheld b hb
      exact ⟨place n, ⟨n, hn, rfl⟩, by rw [hc, Option.map_some, hblk]⟩
  have hpos : ∀ b, 1 ≤ tx'.refs b := by
    intro b
    have hbefore := h.positive b
    by_cases hb : InRun e b
    · by_cases hone : tx.refs b = 1
      · exact (hlast b hb hone).2.ge
      · have := (hlower b hb hone hbefore).2
        omega
    · rw [(hoth b hb).2]
      exact hbefore
  have hdrop : Counted (fun x => (without cells place e x).map Cell.block) tx'.refs ∧
      ∀ b, (∃ x ∈ {x | ∃ n, e.Covers n ∧ place n = x}, (cells x).map Cell.block = some b) → tx.refs b = 1 →
        holders (fun x => (without cells place e x).map Cell.block) b = ∅ := by
    apply h.counted.drop
    · intro x hx
      simp only [hkeep x hx]
    · intro x hx
      simp only [hgone x hx, Option.map_none]
    · rintro _ ⟨n, hn, rfl⟩ _ ⟨m, hm, rfl⟩ b hb hb'
      rw [hcells n hn] at hb
      rw [hcells m hm] at hb'
      rw [eq_of_block_eq hn hm (Option.some.inj (hb.trans hb'.symm))]
    · exact fun b hb hone => (hlower b ((hinRun b).mp hb) hone (h.positive b)).2.le
    · exact fun b hb => (hoth b fun hin => hb ((hinRun b).mpr hin)).2.ge
  obtain ⟨hcounted, hempty⟩ := hdrop
  have hrest : ∀ x c, without cells place e x = some c → cells x = some c := by
    intro x c hc
    by_cases hx : ∃ n, e.Covers n ∧ place n = x
    · rw [hgone x hx] at hc
      cases hc
    · rwa [hkeep x hx] at hc
  refine ⟨hcounted, hpos, ?_, ?_, ?_⟩
  · intro x c hc halone
    have hone := h.alone x c (hrest x c hc) halone
    by_cases hb : InRun e c.block
    · exact (hlast _ hb hone).2
    · rw [(hoth _ hb).2, hone]
  · intro x c hc
    have hdata := h.owned x c (hrest x c hc)
    by_cases hb : InRun e c.block
    · by_cases hone : tx.refs c.block = 1
      · have hnone : x ∈ holders (fun x => (without cells place e x).map Cell.block) c.block := by
          show (without cells place e x).map Cell.block = some c.block
          rw [hc, Option.map_some]
        rw [hempty c.block ((hinRun _).mpr hb) hone] at hnone
        cases hnone
      · rw [(hlower _ hb hone (h.positive _)).1, hdata]
    · rw [(hoth _ hb).1, hdata]
  · intro b hb
    by_cases hin : InRun e b
    · by_cases hone : tx.refs b = 1
      · exact (hlast b hin hone).2
      · rw [(hlower b hin hone (h.positive b)).1] at hb
        exact absurd (h.idle b hb) hone
    · rw [(hoth b hin).2]
      rw [(hoth b hin).1] at hb
      exact h.idle b hb

variable {extents : List Extent}

theorem Held.releaseAll (h : Held cells tx) (hexts : Apart extents)
    (hplace : Injective place) (hcells : ∀ n c, Gives extents n c → cells (place n) = some c)
    (hrun : extents.forM (releaseDataRun v) tx = .ok u tx') :
    (∃ cells', Held cells' tx' ∧ (∀ n c, Gives extents n c → cells' (place n) = none) ∧
      ∀ x, (∀ n c, Gives extents n c → place n ≠ x) → cells' x = cells x) ∧
    ∀ b, tx'.use b = tx.use b ∨ tx'.use b = .quarantined := by
  induction extents generalizing cells tx with
  | nil =>
    obtain ⟨-, rfl⟩ := pure_eq_ok.mp hrun
    exact ⟨⟨cells, h, fun n c hgives => absurd hgives gives_nil, fun _ _ => rfl⟩, fun _ => .inl rfl⟩
  | cons e rest ih =>
    obtain ⟨_, tx₁, hfirst, hrest⟩ := bind_eq_ok.mp hrun
    have hcov : ∀ n, e.Covers n → cells (place n) = some (e.cell n) :=
      fun n hn => hcells n _ (gives_cons.mpr (.inl ⟨hn, rfl⟩))
    obtain ⟨hfirstApart, hrestApart⟩ := List.pairwise_cons.mp hexts
    have happart : ∀ n c, Gives rest n c → ¬e.Covers n := by
      rintro n c ⟨other, hoth, hn, -⟩ he
      exact hfirstApart other hoth n he hn
    have hwithout : ∀ n c, Gives rest n c → without cells place e (place n) = cells (place n) := by
      intro n c hgives
      refine if_neg ?_
      rintro ⟨m, hm, heq⟩
      exact happart n c hgives (hplace heq ▸ hm)
    obtain ⟨⟨cells', hheld, hgone, hkeep⟩, hframe⟩ := ih (h.release hcov hfirst) hrestApart
      (fun n c hgives => (hwithout n c hgives).trans (hcells n c (gives_cons.mpr (.inr hgives)))) hrest
    refine ⟨⟨cells', hheld, ?_, ?_⟩, ?_⟩
    · intro n c hgives
      rcases gives_cons.mp hgives with ⟨hn, -⟩ | hgives
      · rw [hkeep (place n)]
        · exact if_pos ⟨n, hn, rfl⟩
        · intro m c' hm heq
          exact happart m c' hm (hplace heq ▸ hn)
      · exact hgone n c hgives
    · intro x hx
      rw [hkeep x fun n c hgives => hx n c (gives_cons.mpr (.inr hgives))]
      refine if_neg ?_
      rintro ⟨n, hn, heq⟩
      exact hx n _ (gives_cons.mpr (.inl ⟨hn, rfl⟩)) heq
    · intro b
      rcases hframe b with hsame | hnow
      · rw [hsame]
        exact releaseDataRun_frame hfirst b
      · exact .inr hnow

theorem acquire_eq_ok {start count : Nat} (h : acquire start count tx = .ok u tx') :
    tx'.use = tx.use ∧ (∀ b, start ≤ b → b < start + count → tx'.refs b = tx.refs b + 1) ∧
      ∀ b, ¬(start ≤ b ∧ b < start + count) → tx'.refs b = tx.refs b := by
  rw [acquire, get_bind_apply] at h
  obtain ⟨hroom, h⟩ := require_bind_eq_ok.mp h
  obtain rfl := set_eq_ok.mp h
  refine ⟨rfl, ?_, ?_⟩
  · intro b hlow hhigh
    refine if_pos ⟨hlow, hhigh, fun other hoth hfirst => hroom other ?_ hfirst⟩
    omega
  · intro b hb
    exact if_neg fun hin => hb ⟨hin.1, hin.2.1⟩

theorem Held.acquire (h : Held cells tx) (hplace : Injective place) (hshared : e.shared = true)
    (hholder : ∀ n, e.Covers n → ∃ y c, cells y = some c ∧ c.block = (e.cell n).block ∧ c.shared = true)
    (hrun : FileData.acquire e.physicalStart e.blockCount tx = .ok u tx') :
    ∃ cells', Held cells' tx' ∧ (∀ n, e.Covers n → cells' (place n) = some (e.cell n)) ∧
      ∀ x, (∀ n, e.Covers n → place n ≠ x) → cells' x = cells x := by
  classical
  obtain ⟨huse, hraised, hsame⟩ := acquire_eq_ok hrun
  let cells' : ι → Option Cell := fun x =>
    if hx : ∃ n, e.Covers n ∧ place n = x then some (e.cell hx.choose) else cells x
  have hnew : ∀ n, e.Covers n → cells' (place n) = some (e.cell n) := by
    intro n hn
    have hx : ∃ m, e.Covers m ∧ place m = place n := ⟨n, hn, rfl⟩
    show dite _ _ _ = _
    rw [dif_pos hx, hplace hx.choose_spec.2]
  have hkeep : ∀ x, ¬(∃ n, e.Covers n ∧ place n = x) → cells' x = cells x := fun x hx => dif_neg hx
  refine ⟨cells', ?_, hnew, fun x hx => hkeep x fun ⟨n, hn, heq⟩ => hx n hn heq⟩
  have hle : ∀ b, tx.refs b ≤ tx'.refs b := by
    intro b
    by_cases hb : InRun e b
    · rw [hraised b hb.1 hb.2]
      omega
    · rw [hsame b hb]
  have hdata : ∀ b, InRun e b → tx.use b = .data := by
    intro b hb
    obtain ⟨n, hn, rfl⟩ := exists_covers hb
    obtain ⟨y, c, hc, hblk, -⟩ := hholder n hn
    rw [← hblk]
    exact h.owned y c hc
  refine ⟨?_, fun b => (h.positive b).trans (hle b), ?_, ?_, ?_⟩
  · apply h.counted.take (D := {x | ∃ n, e.Covers n ∧ place n = x})
    · intro x hx
      simp only [hkeep x hx]
    · rintro _ ⟨n, hn, rfl⟩ _ ⟨m, hm, rfl⟩ b hb hb'
      rw [hnew n hn] at hb
      rw [hnew m hm] at hb'
      rw [eq_of_block_eq hn hm (Option.some.inj (hb.trans hb'.symm))]
    · rintro _ ⟨n, hn, rfl⟩ b hb
      rw [hnew n hn] at hb
      obtain rfl := Option.some.inj hb
      obtain ⟨hlow, hhigh⟩ := inRun_cell hn
      exact (hraised _ hlow hhigh).ge
    · exact hle
  · intro x c hc halone
    by_cases hx : ∃ n, e.Covers n ∧ place n = x
    · obtain ⟨n, hn, rfl⟩ := hx
      rw [hnew n hn] at hc
      obtain rfl := Option.some.inj hc
      exact absurd (hshared.symm.trans halone) (by decide)
    · rw [hkeep x hx] at hc
      have hout : ¬InRun e c.block := by
        intro hb
        obtain ⟨n, hn, hblk⟩ := exists_covers hb
        obtain ⟨y, c', hc', hblock', hshared'⟩ := hholder n hn
        obtain rfl := h.eq_of_alone hc hc' (hblock'.trans hblk) halone
        rw [hc] at hc'
        obtain rfl := Option.some.inj hc'
        exact absurd halone (by simp [hshared'])
      rw [hsame _ hout]
      exact h.alone x c hc halone
  · intro x c hc
    rw [huse]
    by_cases hx : ∃ n, e.Covers n ∧ place n = x
    · obtain ⟨n, hn, rfl⟩ := hx
      rw [hnew n hn] at hc
      obtain rfl := Option.some.inj hc
      exact hdata _ (inRun_cell hn)
    · rw [hkeep x hx] at hc
      exact h.owned x c hc
  · intro b hb
    rw [huse] at hb
    have hout : ¬InRun e b := fun hin => hb (hdata b hin)
    rw [hsame b hout]
    exact h.idle b hb

theorem Held.acquireAll (h : Held cells tx) (hexts : Apart extents)
    (hplace : Injective place) (hshared : ∀ e ∈ extents, e.shared = true)
    (hholder : ∀ n c, Gives extents n c → ∃ y c', cells y = some c' ∧ c'.block = c.block ∧ c'.shared = true)
    (hempty : ∀ n c, Gives extents n c → cells (place n) = none)
    (hrun : extents.forM (fun e => FileData.acquire e.physicalStart e.blockCount) tx = .ok u tx') :
    tx'.use = tx.use ∧ ∃ cells', Held cells' tx' ∧ (∀ n c, Gives extents n c → cells' (place n) = some c) ∧
      ∀ x, (∀ n c, Gives extents n c → place n ≠ x) → cells' x = cells x := by
  induction extents generalizing cells tx with
  | nil =>
    obtain ⟨-, rfl⟩ := pure_eq_ok.mp hrun
    exact ⟨rfl, cells, h, fun n c hgives => absurd hgives gives_nil, fun _ _ => rfl⟩
  | cons e rest ih =>
    obtain ⟨_, tx₁, hfirst, hrest⟩ := bind_eq_ok.mp hrun
    obtain ⟨hfirstApart, hrestApart⟩ := List.pairwise_cons.mp hexts
    have happart : ∀ n c, Gives rest n c → ¬e.Covers n := by
      rintro n c ⟨other, hoth, hn, -⟩ he
      exact hfirstApart other hoth n he hn
    have hcov : ∀ n, e.Covers n → Gives (e :: rest) n (e.cell n) := fun n hn => gives_cons.mpr (.inl ⟨hn, rfl⟩)
    obtain ⟨cells₁, hheld₁, hnew₁, hkeep₁⟩ := h.acquire hplace (hshared e List.mem_cons_self)
      (fun n hn => hholder n _ (hcov n hn)) hfirst
    have hfree : ∀ n c, Gives rest n c → ∀ m, e.Covers m → place m ≠ place n := by
      intro n c hgives m hm heq
      exact happart n c hgives (hplace heq ▸ hm)
    obtain ⟨huse, cells', hheld, hnew, hkeep⟩ := ih hheld₁ hrestApart
      (fun other hoth => hshared other (List.mem_cons_of_mem _ hoth))
      (by
        intro n c hgives
        obtain ⟨y, c', hc', hblk, hmark⟩ := hholder n c (gives_cons.mpr (.inr hgives))
        refine ⟨y, c', ?_, hblk, hmark⟩
        rw [hkeep₁ y, hc']
        rintro m hm rfl
        rw [hempty m _ (hcov m hm)] at hc'
        cases hc')
      (fun n c hgives => (hkeep₁ _ (hfree n c hgives)).trans (hempty n c (gives_cons.mpr (.inr hgives)))) hrest
    refine ⟨huse.trans (acquire_eq_ok hfirst).1, cells', hheld, ?_, ?_⟩
    · intro n c hgives
      rcases gives_cons.mp hgives with ⟨hn, rfl⟩ | hgives
      · rw [hkeep (place n), hnew₁ n hn]
        intro m c' hm heq
        exact happart m c' hm (hplace heq ▸ hn)
      · exact hnew n c hgives
    · intro x hx
      rw [hkeep x fun n c hgives => hx n c (gives_cons.mpr (.inr hgives)),
        hkeep₁ x fun n hn => hx n _ (hcov n hn)]

end Runs

end Afsplus.FileData
