import Afsplus.Core.FileLedger

/-!
# Allocating runs

The loops that find blocks for an edit. What they find is described by what they do to the use of the blocks and by
the map of the extents they return.
-/

namespace Afsplus.FileData

open Fallible Extents
open List hiding min

/-- The extents cover `first..stop` in order and without gaps. -/
def Tiles : Nat → Nat → List Extent → Prop
  | first, stop, [] => first = stop
  | first, stop, e :: rest => e.logicalStart = first ∧ 0 < e.blockCount ∧ Tiles e.stop stop rest

section Tilings

variable {first middle stop n : Nat} {extents others : List Extent} {c : Cell}

theorem Tiles.append (h : Tiles first middle extents) (h' : Tiles middle stop others) :
    Tiles first stop (extents ++ others) := by
  induction extents generalizing first with
  | nil =>
    obtain rfl : first = middle := h
    exact h'
  | cons e rest ih => exact ⟨h.1, h.2.1, ih h.2.2⟩

variable (h : Tiles first stop extents)

include h

theorem Tiles.le : first ≤ stop := by
  induction extents generalizing first with
  | nil => exact Nat.le_of_eq h
  | cons e rest ih =>
    have hstop := e.stop_eq
    have hrest := ih h.2.2
    have hstart := h.1
    omega

theorem Tiles.mem_range (hc : Gives extents n c) : first ≤ n ∧ n < stop := by
  induction extents generalizing first with
  | nil => exact absurd hc gives_nil
  | cons e rest ih =>
    have hstop := e.stop_eq
    have hstart := h.1
    have hle := h.2.2.le
    rcases gives_cons.mp hc with ⟨⟨hlow, hhigh⟩, -⟩ | hc
    · omega
    · have hrest := ih h.2.2 hc
      omega

theorem Tiles.exists_gives (hlow : first ≤ n) (hhigh : n < stop) : ∃ c, Gives extents n c := by
  induction extents generalizing first with
  | nil =>
    have heq : first = stop := h
    omega
  | cons e rest ih =>
    by_cases hn : n < e.stop
    · exact ⟨e.cell n, gives_cons.mpr (.inl ⟨⟨h.1 ▸ hlow, hn⟩, rfl⟩)⟩
    · obtain ⟨c, hc⟩ := ih h.2.2 (not_lt.mp hn)
      exact ⟨c, gives_cons.mpr (.inr hc)⟩

theorem Tiles.proper : ∀ e ∈ extents, 0 < e.blockCount := by
  induction extents generalizing first with
  | nil => simp
  | cons e rest ih =>
    intro other hoth
    rcases mem_cons.mp hoth with rfl | hoth
    · exact h.2.1
    · exact ih h.2.2 other hoth

theorem Tiles.start_le : ∀ e ∈ extents, first ≤ e.logicalStart := by
  intro e he
  exact (h.mem_range ⟨e, he, ⟨le_rfl, Nat.lt_add_of_pos_right (h.proper e he)⟩, rfl⟩).1

theorem Tiles.sorted : Sorted extents := by
  refine ⟨h.proper, ?_⟩
  induction extents generalizing first with
  | nil => exact .nil
  | cons e rest ih => exact pairwise_cons.mpr ⟨h.2.2.start_le, ih h.2.2⟩

omit h in
theorem tiles_of_sorted (hsort : Sorted extents) (hle : first ≤ stop)
    (hcov : ∀ n, (∃ c, Gives extents n c) ↔ first ≤ n ∧ n < stop) : Tiles first stop extents := by
  induction extents generalizing first with
  | nil =>
    by_contra hne
    obtain ⟨c, hc⟩ := (hcov first).mpr ⟨le_rfl, Nat.lt_of_le_of_ne hle hne⟩
    exact gives_nil hc
  | cons e rest ih =>
    have hstop := e.stop_eq
    have hproper := hsort.proper e mem_cons_self
    have hord := (pairwise_cons.mp hsort.ordered).1
    have hown : ∀ n, e.Covers n → first ≤ n ∧ n < stop := fun n hn => (hcov n).mp ⟨_, gives_cons.mpr (.inl ⟨hn, rfl⟩)⟩
    have hlower := hown e.logicalStart ⟨le_rfl, by omega⟩
    have hupper := hown (e.stop - 1) ⟨by omega, by omega⟩
    have hlater : ∀ n c, Gives rest n c → e.stop ≤ n := by
      rintro n c ⟨other, hoth, hn, -⟩
      exact (hord other hoth).trans hn.1
    have hstart : e.logicalStart = first := by
      obtain ⟨c, hc⟩ := (hcov first).mpr ⟨le_rfl, by omega⟩
      rcases gives_cons.mp hc with ⟨hn, -⟩ | hc
      · have := hn.1
        omega
      · have := hlater first c hc
        omega
    refine ⟨hstart, hproper, ih hsort.tail (by omega) fun n => ?_⟩
    constructor
    · rintro ⟨c, hc⟩
      have hrng := (hcov n).mp ⟨c, gives_cons.mpr (.inr hc)⟩
      exact ⟨hlater n c hc, hrng.2⟩
    · rintro ⟨hlow, hhigh⟩
      obtain ⟨c, hc⟩ := (hcov n).mpr ⟨by omega, hhigh⟩
      rcases gives_cons.mp hc with ⟨hn, -⟩ | hc
      · have := hn.2
        omega
      · exact ⟨c, hc⟩

theorem Tiles.physicalBlocks {f : Nat → Nat} (hf : ∀ n c, Gives extents n c → f n = c.block) :
    physicalBlocks extents = (List.range' first (stop - first)).map f := by
  induction extents generalizing first with
  | nil =>
    obtain rfl : first = stop := h
    rw [Nat.sub_self]
    rfl
  | cons e rest ih =>
    have hstop := e.stop_eq
    have hle := h.2.2.le
    have hstart := h.1
    have hsplit : stop - first = e.blockCount + (stop - e.stop) := by omega
    rw [FileData.physicalBlocks, flatMap_cons, ← FileData.physicalBlocks,
      ih h.2.2 fun n c hc => hf n c (gives_cons.mpr (.inr hc)), hsplit, ← range'_append_1, map_append]
    congr 1
    · apply ext_getElem
      · simp
      · intro j hj hj'
        have hlt : j < e.blockCount := by simpa using hj
        rw [getElem_range', getElem_map, getElem_range']
        have hcov : e.Covers (first + 1 * j) := ⟨by omega, by omega⟩
        rw [hf _ _ (gives_cons.mpr (.inl ⟨hcov, rfl⟩))]
        show e.physicalStart + 1 * j = e.physicalStart + (first + 1 * j - e.logicalStart)
        omega
    · rw [show first + e.blockCount = e.stop by omega]

end Tilings

/-! ### Finding runs -/

section Searches

variable {a : Answers} {tx tx₁ tx₂ : FileTx} {first middle stop : Nat} {extents others : List Extent}
  {unwritten : Bool}

/-- Blocks were put to use for data, and nothing else happened. -/
structure Takes (tx tx' : FileTx) : Prop where
  refs : tx'.refs = tx.refs
  use : ∀ b, tx'.use b = tx.use b ∨ tx.use b = .free ∧ tx'.use b = .data

theorem Takes.refl (tx : FileTx) : Takes tx tx := ⟨rfl, fun _ => .inl rfl⟩

theorem Takes.trans (h : Takes tx tx₁) (h' : Takes tx₁ tx₂) : Takes tx tx₂ := by
  refine ⟨h'.refs.trans h.refs, fun b => ?_⟩
  rcases h'.use b with hsame | ⟨hfree, hdata⟩
  · rw [hsame]
    exact h.use b
  · rcases h.use b with hsame | ⟨-, hdata'⟩
    · exact .inr ⟨hsame ▸ hfree, hdata⟩
    · rw [hdata'] at hfree
      cases hfree

theorem Takes.data (h : Takes tx tx₁) {b : Nat} (hb : tx.use b = .data) : tx₁.use b = .data := by
  rcases h.use b with hsame | ⟨-, hdata⟩
  · rw [hsame, hb]
  · exact hdata

theorem Takes.free (h : Takes tx tx₁) {b : Nat} (hb : tx₁.use b = .free) : tx.use b = .free := by
  rcases h.use b with hsame | ⟨hfree, -⟩
  · rw [← hsame, hb]
  · exact hfree

theorem Held.takes {ι κ : Type*} {cells : ι → Option Cell} {new : κ → Option Cell} (h : Held cells tx)
    (htakes : Takes tx tx₁) (hnew : ∀ x c, new x = some c → tx.use c.block = .free ∧ tx₁.use c.block = .data)
    (hdist : ∀ x y c c', new x = some c → new y = some c' → c.block = c'.block → x = y) :
    Held (Sum.elim cells new) tx₁ := by
  apply (h.extend (κ := κ)).allocate (D := Set.range .inr) htakes.use htakes.refs
  · rintro (x | x) hx
    · rfl
    · exact absurd ⟨x, rfl⟩ hx
  · rintro _ ⟨x, rfl⟩ c hc
    exact hnew x c hc
  · rintro _ ⟨x, rfl⟩ _ ⟨y, rfl⟩ c c' hc hc' hblk
    rw [hdist x y c c' hc hc' hblk]

/-- The cells of the extents were free and are now in use, each of them once. -/
structure Fresh (tx tx' : FileTx) (unwritten : Bool) (extents : List Extent) : Prop where
  takes : Takes tx tx'
  gives : ∀ n c, Gives extents n c →
    c.unwritten = unwritten ∧ c.shared = false ∧ tx.use c.block = .free ∧ tx'.use c.block = .data
  distinct : ∀ n m c c', Gives extents n c → Gives extents m c' → c.block = c'.block → n = m

theorem Held.takesFresh {ι : Type*} {cells : ι → Option Cell} {new : Nat → Option Cell} (h : Held cells tx)
    (hfresh : Fresh tx tx₁ unwritten extents) (hnew : ∀ n c, new n = some c → Gives extents n c) :
    Held (Sum.elim cells new) tx₁ := by
  apply h.takes hfresh.takes
  · exact fun n c hc => (hfresh.gives n c (hnew n c hc)).2.2
  · exact fun n m c c' hc hc' => hfresh.distinct n m c c' (hnew n c hc) (hnew m c' hc')

theorem Fresh.nil (tx : FileTx) : Fresh tx tx unwritten [] :=
  ⟨.refl tx, fun _ _ h => absurd h gives_nil, fun _ _ _ _ h => absurd h gives_nil⟩

theorem Fresh.append (h : Fresh tx tx₁ unwritten extents) (h' : Fresh tx₁ tx₂ unwritten others) :
    Fresh tx tx₂ unwritten (extents ++ others) := by
  -- What the first extents took is in use when the others are looked for.
  have happart : ∀ n m c c', Gives extents n c → Gives others m c' → c.block ≠ c'.block := by
    intro n m c c' hc hc' heq
    have hdata := (h.gives n c hc).2.2.2
    rw [heq, (h'.gives m c' hc').2.2.1] at hdata
    cases hdata
  refine ⟨h.takes.trans h'.takes, ?_, ?_⟩
  · intro n c hc
    rcases gives_append.mp hc with hc | hc
    · obtain ⟨hunwr, hshared, hfree, hdata⟩ := h.gives n c hc
      exact ⟨hunwr, hshared, hfree, h'.takes.data hdata⟩
    · obtain ⟨hunwr, hshared, hfree, hdata⟩ := h'.gives n c hc
      exact ⟨hunwr, hshared, h.takes.free hfree, hdata⟩
  · intro n m c c' hc hc' heq
    rcases gives_append.mp hc with hc | hc <;> rcases gives_append.mp hc' with hc' | hc'
    · exact h.distinct n m c c' hc hc' heq
    · exact absurd heq (happart n m c c' hc hc')
    · exact absurd heq.symm (happart m n c' c hc' hc)
    · exact h'.distinct n m c c' hc hc' heq

theorem Fresh.coalesced (h : Fresh tx tx₁ unwritten extents) (hsame : Coalesced extents others) :
    Fresh tx tx₁ unwritten others :=
  ⟨h.takes, fun n c hc => h.gives n c ((hsame.gives n c).mp hc),
    fun n m c c' hc hc' => h.distinct n m c c' ((hsame.gives n c).mp hc) ((hsame.gives m c').mp hc')⟩

variable {count : Nat} {result found : List Extent}

theorem allocateRun_fresh {start : Nat} (h : allocateRun a count tx = .ok start tx₁) (logical : Nat)
    (unwritten : Bool) : Fresh tx tx₁ unwritten [⟨logical, start, count, unwritten, false⟩] := by
  rw [allocateRun] at h
  split at h
  · rename_i start' hpick
    obtain ⟨rfl, rfl⟩ := EStateM.Result.ok.inj h
    have hfree := a.pick_free _ _ _ hpick
    refine ⟨⟨rfl, fun b => ?_⟩, ?_, ?_⟩
    · by_cases hb : start' ≤ b ∧ b < start' + count
      · exact .inr ⟨hfree b hb.1 hb.2, if_pos hb⟩
      · exact .inl (if_neg hb)
    · intro n c hc
      obtain ⟨hn, rfl⟩ := gives_singleton.mp hc
      have hrun := inRun_cell hn
      exact ⟨rfl, rfl, hfree _ hrun.1 hrun.2, if_pos hrun⟩
    · intro n m c c' hc hc' heq
      obtain ⟨hn, rfl⟩ := gives_singleton.mp hc
      obtain ⟨hm, rfl⟩ := gives_singleton.mp hc'
      exact eq_of_block_eq hn hm heq
  · cases h

theorem searchRun_fresh {candidate maxRun start maxRun' : Nat}
    (h : searchRun a candidate maxRun tx = .ok (start, count, maxRun') tx₁) (hcand : 0 < candidate)
    (hmaxRun : 0 < maxRun) (logical : Nat) (unwritten : Bool) :
    Fresh tx tx₁ unwritten [⟨logical, start, count, unwritten, false⟩] ∧ 0 < count ∧ count ≤ candidate ∧ 0 < maxRun' := by
  induction candidate using Nat.strong_induction_on generalizing maxRun tx with
  | _ candidate ih =>
    rw [searchRun] at h
    split at h
    · rename_i start' tx' hrun
      obtain ⟨hresult, rfl⟩ := EStateM.Result.ok.inj h
      simp only [Prod.mk.injEq] at hresult
      obtain ⟨rfl, rfl, rfl⟩ := hresult
      exact ⟨allocateRun_fresh hrun logical unwritten, hcand, le_rfl, hmaxRun⟩
    · rename_i e tx' hrun
      have hstate : tx' = tx := by
        rw [allocateRun] at hrun
        split at hrun
        · cases hrun
        · exact (EStateM.Result.error.inj hrun).2.symm
      subst hstate
      split at h
      · rename_i hretry
        obtain ⟨hfresh, hpos, hle, hmax⟩ := ih _ (by omega) h (by omega) (by omega)
        exact ⟨hfresh, hpos, by omega, hmax⟩
      · cases h

theorem allocateRounds_fresh {maxRuns rounds maxRun logical : Nat} {tx₀ : FileTx}
    (h : allocateRounds a unwritten maxRuns rounds maxRun logical count found tx = .ok result tx₁)
    (hrounds : count ≤ rounds) (hmaxRun : 0 < maxRun) (hfound : Fresh tx₀ tx unwritten found)
    (htiles : Tiles first logical found) : Fresh tx₀ tx₁ unwritten result ∧ Tiles first (logical + count) result := by
  induction rounds generalizing maxRun logical count found tx with
  | zero =>
    obtain ⟨rfl, rfl⟩ := pure_eq_ok.mp h
    obtain rfl : count = 0 := Nat.le_zero.mp hrounds
    exact ⟨hfound, htiles⟩
  | succ rounds ih =>
    rw [allocateRounds] at h
    split at h
    · rename_i hcnt
      obtain ⟨rfl, rfl⟩ := pure_eq_ok.mp h
      obtain rfl := hcnt
      exact ⟨hfound, htiles⟩
    · rename_i hcnt
      obtain ⟨-, h⟩ := require_bind_eq_ok.mp h
      obtain ⟨⟨start, candidate, maxRun'⟩, tx', hsearch, h⟩ := bind_eq_ok.mp h
      obtain ⟨-, h⟩ := require_bind_eq_ok.mp h
      obtain ⟨hfresh, hpos, hle, hmax⟩ := searchRun_fresh hsearch (by omega) hmaxRun logical unwritten
      have htile : Tiles logical (logical + candidate) [⟨logical, start, candidate, unwritten, false⟩] :=
        ⟨rfl, hpos, rfl⟩
      obtain ⟨hresult, hcov⟩ := ih h (by omega) hmax (hfound.append hfresh) (htiles.append htile)
      exact ⟨hresult, by rwa [show logical + candidate + (count - candidate) = logical + count by omega] at hcov⟩

theorem Tiles.coalesced (h : Tiles first stop extents) (hsame : Coalesced extents others) : Tiles first stop others := by
  apply tiles_of_sorted hsame.sorted h.le
  intro n
  constructor
  · rintro ⟨c, hc⟩
    exact h.mem_range ((hsame.gives n c).mp hc)
  · rintro ⟨hlow, hhigh⟩
    obtain ⟨c, hc⟩ := h.exists_gives hlow hhigh
    exact ⟨c, (hsame.gives n c).mpr hc⟩

theorem allocateExtentRuns_fresh {v : FileVolume} {logical maxRuns : Nat}
    (h : allocateExtentRuns v a logical count unwritten maxRuns tx = .ok result tx₁) :
    Fresh tx tx₁ unwritten result ∧ Tiles logical (logical + count) result := by
  obtain ⟨hmaxRun, h⟩ := require_bind_eq_ok.mp h
  obtain ⟨found, tx', hrounds, h⟩ := bind_eq_ok.mp h
  obtain ⟨hcoalesced, rfl⟩ := lift_eq_ok.mp h
  obtain ⟨hfresh, htiles⟩ :=
    allocateRounds_fresh hrounds le_rfl (Nat.pos_of_ne_zero hmaxRun) (.nil tx) (rfl : Tiles logical logical [])
  have hsame := coalesceExtents_spec htiles.proper hcoalesced
  exact ⟨hfresh.coalesced hsame, htiles.coalesced hsame⟩

theorem allocateBoundary_fresh {boundary : List (Nat × Bytes)} {result : List Extent × List (Nat × Bytes)}
    (h : allocateBoundary a boundary tx = .ok result tx₁) :
    Fresh tx tx₁ false result.1 ∧ (∀ e ∈ result.1, 0 < e.blockCount) ∧
      (∀ n c, Gives result.1 n c → ∃ block, (n, block) ∈ boundary ∧ (c.block, block) ∈ result.2) ∧
      (∀ n block, (n, block) ∈ boundary → ∃ c, Gives result.1 n c) ∧
      (∀ b block, (b, block) ∈ result.2 → ∃ n c, Gives result.1 n c ∧ c.block = b ∧ (n, block) ∈ boundary) ∧
      (result.2.map Prod.fst).Nodup := by
  induction boundary generalizing tx result with
  | nil =>
    obtain ⟨rfl, rfl⟩ := pure_eq_ok.mp h
    exact ⟨.nil _, by simp, fun n c hc => absurd hc gives_nil, by simp, by simp, by simp⟩
  | cons head rest ih =>
    obtain ⟨n, block⟩ := head
    obtain ⟨start, tx', hrun, h⟩ := bind_eq_ok.mp h
    obtain ⟨⟨extents, writes⟩, tx'', hrest, h⟩ := bind_eq_ok.mp h
    obtain ⟨rfl, rfl⟩ := pure_eq_ok.mp h
    obtain ⟨hfresh, hproper, hgives, htotal, hwrites, hnodup⟩ := ih hrest
    have hfirst : ∀ m c, ((⟨n, start, 1, false, false⟩ : Extent).Covers m ∧
        (⟨n, start, 1, false, false⟩ : Extent).cell m = c) ↔ m = n ∧ c = ⟨start, false, false⟩ := by
      intro m c
      simp only [Extent.Covers, Extent.stop, Extent.cell]
      constructor
      · rintro ⟨⟨hlow, hhigh⟩, rfl⟩
        obtain rfl : m = n := by omega
        simp
      · rintro ⟨rfl, rfl⟩
        simp
    have howned : tx'.use start = .data :=
      ((allocateRun_fresh hrun n false).gives n _ (gives_singleton.mpr ((hfirst n _).mpr ⟨rfl, rfl⟩))).2.2.2
    refine ⟨(allocateRun_fresh hrun n false).append hfresh, ?_, ?_, ?_, ?_, ?_⟩
    · intro e he
      rcases mem_cons.mp he with rfl | he
      · exact Nat.one_pos
      · exact hproper e he
    · intro m c hc
      rcases gives_cons.mp hc with hown | hc
      · obtain ⟨rfl, rfl⟩ := (hfirst m c).mp hown
        exact ⟨block, mem_cons_self, mem_cons_self⟩
      · obtain ⟨block', hmem, hwrite⟩ := hgives m c hc
        exact ⟨block', mem_cons_of_mem _ hmem, mem_cons_of_mem _ hwrite⟩
    · intro m block' hmem
      rcases mem_cons.mp hmem with heq | hmem
      · obtain ⟨rfl, rfl⟩ := Prod.mk.inj heq
        exact ⟨_, gives_cons.mpr (.inl ((hfirst m _).mpr ⟨rfl, rfl⟩))⟩
      · obtain ⟨c, hc⟩ := htotal m block' hmem
        exact ⟨c, gives_cons.mpr (.inr hc)⟩
    · intro b block' hmem
      rcases mem_cons.mp hmem with heq | hmem
      · obtain ⟨rfl, rfl⟩ := Prod.mk.inj heq
        exact ⟨n, _, gives_cons.mpr (.inl ((hfirst n _).mpr ⟨rfl, rfl⟩)), rfl, mem_cons_self⟩
      · obtain ⟨m, c, hc, hblk, hmem⟩ := hwrites b block' hmem
        exact ⟨m, c, gives_cons.mpr (.inr hc), hblk, mem_cons_of_mem _ hmem⟩
    · apply nodup_cons.mpr ⟨_, hnodup⟩
      intro hmem
      obtain ⟨⟨b, block'⟩, hwrite, heq⟩ := mem_map.mp hmem
      obtain ⟨m, c, hc, hblk, -⟩ := hwrites b block' hwrite
      have hfree := (hfresh.gives m c hc).2.2.1
      rw [hblk.trans heq, howned] at hfree
      cases hfree

theorem allocateHoles_fresh {v : FileVolume} {maxRecords : Nat} {holes : List (Nat × Nat)}
    {tx₀ : FileTx} (h : allocateHoles v a maxRecords holes found tx = .ok result tx₁)
    (hfound : Fresh tx₀ tx true found) (hproper : ∀ e ∈ found, 0 < e.blockCount) :
    Fresh tx₀ tx₁ true result ∧ (∀ e ∈ result, 0 < e.blockCount) ∧
      ∀ n, (∃ c, Gives result n c) ↔ (∃ c, Gives found n c) ∨ ∃ hole ∈ holes, hole.1 ≤ n ∧ n < hole.2 := by
  induction holes generalizing tx found with
  | nil =>
    obtain ⟨rfl, rfl⟩ := pure_eq_ok.mp h
    exact ⟨hfound, hproper, by simp⟩
  | cons hole holes ih =>
    obtain ⟨start, stop⟩ := hole
    obtain ⟨extents, tx', hruns, h⟩ := bind_eq_ok.mp h
    obtain ⟨hfresh, htiles⟩ := allocateExtentRuns_fresh hruns
    obtain ⟨hresult, hproper', hgives⟩ := ih h (hfound.append hfresh) (by
      intro e he
      rcases mem_append.mp he with he | he
      · exact hproper e he
      · exact htiles.proper e he)
    refine ⟨hresult, hproper', fun n => ?_⟩
    have hown : (∃ c, Gives extents n c) ↔ start ≤ n ∧ n < stop := by
      constructor
      · rintro ⟨c, hc⟩
        have hrng := htiles.mem_range hc
        omega
      · rintro ⟨hlow, hhigh⟩
        exact htiles.exists_gives hlow (by omega)
    rw [hgives, exists_mem_cons_iff]
    simp only [gives_append, exists_or, hown, or_assoc]

end Searches

/-! ### The extents of a write -/

section Additions

variable {v : FileVolume} {a : Answers} {tx tx₁ tx₂ : FileTx} {first middle stop : Nat}
  {old extents others : List Extent}

/-- The extents a write puts in: a private reservation keeps its block, the other blocks were free. -/
structure Additions (tx tx' : FileTx) (old : List Extent) (first stop : Nat) (additions : List Extent) : Prop where
  takes : Takes tx tx'
  tiles : Tiles first stop additions
  gives : ∀ n c, Gives additions n c → c.unwritten = false ∧ c.shared = false ∧
    (cellAt old n = some ⟨c.block, true, false⟩ ∨
      (∀ b, cellAt old n ≠ some ⟨b, true, false⟩) ∧ tx.use c.block = .free ∧ tx'.use c.block = .data)
  distinct : ∀ n m c c', Gives additions n c → Gives additions m c' → c.block = c'.block →
    tx.use c.block = .free → tx.use c'.block = .free → n = m

theorem mem_dropWhile_iff (h : Sorted extents) {n : Nat} {e : Extent} :
    e ∈ extents.dropWhile (fun e => e.logicalStart ≤ n) ↔ e ∈ extents ∧ n < e.logicalStart := by
  induction extents with
  | nil => simp
  | cons head rest ih =>
    obtain ⟨hfirst, -⟩ := pairwise_cons.mp h.ordered
    by_cases hhead : head.logicalStart ≤ n
    · rw [dropWhile_cons_of_pos (by simpa using hhead), ih h.tail, mem_cons]
      constructor
      · rintro ⟨hmem, hlt⟩
        exact ⟨.inr hmem, hlt⟩
      · rintro ⟨rfl | hmem, hlt⟩
        · omega
        · exact ⟨hmem, hlt⟩
    · rw [dropWhile_cons_of_neg (by simpa using hhead), mem_cons]
      constructor
      · rintro (rfl | hmem)
        · exact ⟨.inl rfl, not_le.mp hhead⟩
        · have hle := hfirst e hmem
          have hstop := head.stop_eq
          exact ⟨.inr hmem, by omega⟩
      · exact fun hmem => hmem.1

theorem not_reserved_before_next (hold : Sorted old) {logical : Nat} (hlt : logical < stop)
    (hnone : (extentAt old logical).filter (fun e => e.Reserved) = none) {next : Nat}
    (hnext : next = ((old.dropWhile fun e => e.logicalStart ≤ logical).find? fun e => e.Reserved).elim stop
      fun e => min e.logicalStart stop) :
    (logical < next ∧ next ≤ stop) ∧ ∀ n, logical ≤ n → n < next → ∀ b, cellAt old n ≠ some ⟨b, true, false⟩ := by
  have hhere : ∀ e, e ∈ old → e.Covers logical → ¬e.Reserved := by
    intro e he hcov hres
    rw [(extentAt_eq_some hold).mpr ⟨he, hcov⟩, Option.filter_some, if_pos (by simpa using hres)] at hnone
    cases hnone
  -- An extent that begins later and is reserved bounds the search.
  have hbound : ∀ e, e ∈ old → logical < e.logicalStart → e.Reserved → next ≤ e.logicalStart := by
    intro e he hlater hres
    have hmem := (mem_dropWhile_iff hold).mpr ⟨he, hlater⟩
    cases hfind : (old.dropWhile fun e => e.logicalStart ≤ logical).find? fun e => e.Reserved with
    | none => exact absurd (find?_eq_none.mp hfind e hmem) (by simpa using hres)
    | some found =>
      obtain ⟨-, front, back, hsplit, hfront⟩ := find?_eq_some_iff_append.mp hfind
      rw [hfind] at hnext
      have hle : found.logicalStart ≤ e.logicalStart := by
        rw [hsplit] at hmem
        rcases mem_append.mp hmem with hmem | hmem
        · exact absurd hres (by simpa using hfront e hmem)
        · rcases mem_cons.mp hmem with rfl | hmem
          · exact le_rfl
          · have hord := (hold.ordered.sublist (dropWhile_sublist fun e => decide (e.logicalStart ≤ logical)))
            rw [hsplit] at hord
            have hpair := (pairwise_cons.mp (pairwise_append.mp hord).2.1).1 e hmem
            have hstop := found.stop_eq
            omega
      rw [hnext]
      exact (min_le_left _ _).trans hle
  constructor
  · cases hfind : (old.dropWhile fun e => e.logicalStart ≤ logical).find? fun e => e.Reserved with
    | none =>
      rw [hfind] at hnext
      exact ⟨hnext ▸ hlt, hnext.le⟩
    | some found =>
      rw [hfind] at hnext
      have hlater := ((mem_dropWhile_iff hold).mp (mem_of_find?_eq_some hfind)).2
      rw [hnext]
      exact ⟨lt_min hlater hlt, min_le_right _ _⟩
  · intro n hlow hhigh b hcell
    obtain ⟨e, he, hcov, hc⟩ := (cellAt_eq_some hold).mp hcell
    have hres : e.Reserved := ⟨congrArg Cell.unwritten hc, congrArg Cell.shared hc⟩
    by_cases hstart : e.logicalStart ≤ logical
    · have hstop := hcov.2
      exact hhere e he ⟨hstart, by omega⟩ hres
    · have hle := hbound e he (not_le.mp hstart) hres
      have hfirst := hcov.1
      omega

theorem Additions.nil (tx : FileTx) (old : List Extent) (first : Nat) : Additions tx tx old first first [] :=
  ⟨.refl tx, rfl, fun _ _ h => absurd h gives_nil, fun _ _ _ _ h => absurd h gives_nil⟩

theorem Additions.keep (h : Additions tx tx₁ old first middle extents) (hold : Sorted old)
    (hused : ∀ n c, cellAt old n = some c → tx.use c.block = .data) {e : Extent}
    (he : e ∈ old) (hres : e.Reserved) (hstart : e.logicalStart ≤ middle) (hlt : middle < stop) (hstop : stop ≤ e.stop) :
    Additions tx tx₁ old first stop
      (extents ++ [⟨middle, e.physicalStart + (middle - e.logicalStart), stop - middle, false, false⟩]) := by
  have hown : ∀ n c, Gives [(⟨middle, e.physicalStart + (middle - e.logicalStart), stop - middle, false, false⟩ : Extent)] n c →
      c.unwritten = false ∧ c.shared = false ∧ cellAt old n = some ⟨c.block, true, false⟩ := by
    intro n c hc
    obtain ⟨⟨hlow, hhigh⟩, rfl⟩ := gives_singleton.mp hc
    refine ⟨rfl, rfl, (cellAt_eq_some hold).mpr ⟨e, he, ?_, ?_⟩⟩
    · simp only [Extent.Covers, Extent.stop] at *
      omega
    · simp only [Extent.cell, Extent.stop, hres.1, hres.2, Cell.mk.injEq, and_self, and_true] at *
      omega
  refine ⟨h.takes, h.tiles.append ⟨rfl, by simp only; omega, ?_⟩, ?_, ?_⟩
  · simp only [Tiles, Extent.stop]
    omega
  · intro n c hc
    rcases gives_append.mp hc with hc | hc
    · exact h.gives n c hc
    · obtain ⟨hwritten, hshared, hcell⟩ := hown n c hc
      exact ⟨hwritten, hshared, .inl hcell⟩
  · intro n m c c' hc hc' heq hfree hfree'
    have hused' : ∀ n c, Gives [(⟨middle, e.physicalStart + (middle - e.logicalStart), stop - middle, false, false⟩ : Extent)] n c →
        tx.use c.block ≠ .free := by
      intro n c hc
      rw [hused n _ (hown n c hc).2.2]
      decide
    rcases gives_append.mp hc with hc | hc
    · rcases gives_append.mp hc' with hc' | hc'
      · exact h.distinct n m c c' hc hc' heq hfree hfree'
      · exact absurd hfree' (hused' m c' hc')
    · exact absurd hfree (hused' n c hc)

theorem Additions.allocate (h : Additions tx tx₁ old first middle extents) (hfresh : Fresh tx₁ tx₂ false others)
    (htiles : Tiles middle stop others)
    (hnone : ∀ n, middle ≤ n → n < stop → ∀ b, cellAt old n ≠ some ⟨b, true, false⟩)
    (hused : ∀ n c, cellAt old n = some c → tx.use c.block = .data) :
    Additions tx tx₂ old first stop (extents ++ others) := by
  refine ⟨h.takes.trans hfresh.takes, h.tiles.append htiles, ?_, ?_⟩
  · intro n c hc
    rcases gives_append.mp hc with hc | hc
    · obtain ⟨hwritten, hshared, hcell | ⟨hnot, hfree, hdata⟩⟩ := h.gives n c hc
      · exact ⟨hwritten, hshared, .inl hcell⟩
      · exact ⟨hwritten, hshared, .inr ⟨hnot, hfree, hfresh.takes.data hdata⟩⟩
    · obtain ⟨hwritten, hshared, hfree, hdata⟩ := hfresh.gives n c hc
      obtain ⟨hlow, hhigh⟩ := htiles.mem_range hc
      exact ⟨hwritten, hshared, .inr ⟨hnone n hlow hhigh, h.takes.free hfree, hdata⟩⟩
  · -- What was taken so far is in use, so the new blocks are others.
    have happart : ∀ n m c c', Gives extents n c → Gives others m c' → c.block ≠ c'.block := by
      intro n m c c' hc hc' heq
      have hfree := (hfresh.gives m c' hc').2.2.1
      obtain ⟨-, -, hcell | ⟨-, -, hdata⟩⟩ := h.gives n c hc
      · have hdata := h.takes.data (hused n _ hcell)
        rw [← heq] at hfree
        rw [hfree] at hdata
        cases hdata
      · rw [← heq, hdata] at hfree
        cases hfree
    intro n m c c' hc hc' heq hfree hfree'
    rcases gives_append.mp hc with hc | hc <;> rcases gives_append.mp hc' with hc' | hc'
    · exact h.distinct n m c c' hc hc' heq hfree hfree'
    · exact absurd heq (happart n m c c' hc hc')
    · exact absurd heq.symm (happart m n c' c hc' hc)
    · exact hfresh.distinct n m c c' hc hc' heq

theorem writeRounds_additions {limits : Option FileEditLimits} {rounds logical : Nat} {found result : List Extent}
    {tx₀ : FileTx} (h : writeRounds v a old limits stop rounds logical found tx = .ok result tx₁)
    (hold : Sorted old) (hused : ∀ n c, cellAt old n = some c → tx₀.use c.block = .data)
    (hrounds : stop - logical ≤ rounds) (hle : logical ≤ stop) (hfound : Additions tx₀ tx old first logical found) :
    Additions tx₀ tx₁ old first stop result := by
  induction rounds generalizing logical found tx with
  | zero =>
    obtain ⟨rfl, rfl⟩ := pure_eq_ok.mp h
    obtain rfl : logical = stop := by omega
    exact hfound
  | succ rounds ih =>
    rw [writeRounds] at h
    split at h
    · obtain ⟨rfl, rfl⟩ := pure_eq_ok.mp h
      obtain rfl : logical = stop := by omega
      exact hfound
    · rename_i hlt
      cases hfilter : (extentAt old logical).filter fun e => e.Reserved with
      | some e =>
        rw [hfilter] at h
        obtain ⟨hextent, hres⟩ := Option.filter_eq_some_iff.mp hfilter
        obtain ⟨he, hcov⟩ := (extentAt_eq_some hold).mp hextent
        obtain ⟨extentEnd, hend, h⟩ := lift_bind_eq_ok.mp h
        obtain ⟨rfl, -⟩ := logicalEnd_eq_ok hend
        rw [get_bind_apply] at h
        obtain ⟨-, h⟩ := require_bind_eq_ok.mp h
        obtain ⟨-, h⟩ := require_bind_eq_ok.mp h
        have hstart := hcov.1
        have hbehind := hcov.2
        have hcnt : logical + (min e.stop stop - logical) = min e.stop stop := by omega
        rw [hcnt] at h
        exact ih h (by omega) (by omega)
          (hfound.keep hold hused he (by simpa using hres) hstart (by omega) (by omega))
      | none =>
        rw [hfilter] at h
        obtain ⟨extents, tx', hruns, h⟩ := bind_eq_ok.mp h
        obtain ⟨⟨hnext, hnextLe⟩, hnot⟩ := not_reserved_before_next hold (not_le.mp hlt) hfilter rfl
        obtain ⟨hfresh, htiles⟩ := allocateExtentRuns_fresh hruns
        rw [Nat.add_sub_cancel' hnext.le] at htiles
        exact ih h (by omega) hnextLe (hfound.allocate hfresh htiles hnot hused)

end Additions

end Afsplus.FileData
