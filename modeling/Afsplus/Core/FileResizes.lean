import Afsplus.Core.FileWrites

/-!
# Resizing and reserving

Truncation keeps the bytes before the new end and leaves zeros behind it. Preallocation gives the holes of a range
blocks and leaves every byte as it was.
-/

namespace Afsplus.FileData

open Fallible Extents ByteImage List

section Resizes

variable {v v' : FileVolume} {a : Answers} {id : ObjectId} {object staged : FileObject}
  {old kept cut new replaced added : List Extent} {newSize n : Nat} {tail : Option (Nat × Bytes)} {tx tx' : FileTx}
  {writes : List (Nat × Bytes)}

theorem reserve_edits (hv : Valid v) (hobj : v.objects id = some object) (hfile : object.record.objectType = .file)
    (hstaged : staged.Shaped) (hstagedFile : staged.record.objectType = .file)
    (hfresh : Fresh (begin v a) tx true added)
    (hgives : ∀ n c, Gives staged.layout n c ↔ Gives object.layout n c ∨ Gives added n c)
    (hzero : ∀ i, staged.record.sizeBytes ≤ i → byteAt v id i = 0)
    (hcommit : commit v a tx [] [(id, staged)] = .ok v') : Edits v v' id staged (byteAt v id) := by
  obtain ⟨hcomm, -, -⟩ := commit_eq_ok hcommit
  have hshaped := hv.shaped id object hobj hfile
  have hcell := cellOf_file hobj hfile
  have hbegin := hv.held.begin a
  have hkeep : ∀ n c, cellOf v (id, n) = some c → cellAt staged.layout n = some c := by
    intro n c hc
    rw [hcell, cellAt_eq_some hshaped.sorted] at hc
    exact (cellAt_eq_some hstaged.sorted).mpr ((hgives n c).mpr (.inl hc))
  have hnew : ∀ n c, cellOf v (id, n) = none → cellAt staged.layout n = some c → Gives added n c := by
    intro n c hnone hc
    rcases (hgives n c).mp ((cellAt_eq_some hstaged.sorted).mp hc) with hc | hc
    · rw [hcell, (cellAt_eq_some hshaped.sorted).mpr hc] at hnone
      cases hnone
    · exact hc
  let fresh : Nat → Option Cell := fun n => if cellOf v (id, n) = none then cellAt staged.layout n else none
  have hfreshCell : ∀ n c, fresh n = some c → Gives added n c := by
    intro n c hc
    change (if cellOf v (id, n) = none then cellAt staged.layout n else none) = some c at hc
    split_ifs at hc with hnone
    exact hnew n c hnone hc
  have hheld : Held (Sum.elim (cellOf v) fresh) tx := hbegin.takesFresh hfresh hfreshCell
  have hkeptData : DataKept v tx := (dataKept_begin v a).takes hfresh.takes
  have hdisk : ∀ n c, cellOf v (id, n) = some c → v'.disk c.block = v.disk c.block :=
    fun n c hc => hcomm.disk_eq hv hkeptData hc (by simp)
  refine edits_of_commit hv hstagedFile hstaged hkeptData ?_ ?_ ⟨?_, ?_, ?_⟩ hobj hcommit
  · have hrun : ([] : List Extent).forM (releaseDataRun v) tx = .ok () tx := rfl
    refine (hheld.exchange List.Pairwise.nil (fun n c hc => absurd hc gives_nil) hrun ?_).1
    intro n c hc
    cases hold : cellOf v (id, n) with
    | none => exact .inl ((if_pos hold).trans hc)
    | some c' =>
      obtain rfl := Option.some.inj ((hkeep n c' hold).symm.trans hc)
      exact .inr ⟨fun _ => gives_nil, c', rfl, rfl, fun hmark => hmark⟩
  · simp
  · intro n j hj
    rw [byteAt_eq hv.blockSize hj]
    cases hold : cellOf v (id, n) with
    | some c =>
      rw [hkeep n c hold]
      exact cellByte_congr rfl (hdisk n c hold) j
    | none =>
      cases hc : cellAt staged.layout n with
      | none => rfl
      | some c =>
        have hunwr := (hfresh.gives n c (hnew n c hold hc)).1
        simp [cellByte, hunwr]
  · intro n c hc hwritten
    cases hold : cellOf v (id, n) with
    | some c' =>
      obtain rfl := Option.some.inj ((hkeep n c' hold).symm.trans hc)
      rw [hdisk n c' hold]
      exact hv.lengths (id, n) c' hold hwritten
    | none =>
      rw [(hfresh.gives n c (hnew n c hold hc)).1] at hwritten
      cases hwritten
  · exact hzero

theorem divCeil_of_mod_ne_zero (hsize : 0 < v.blockSize) (h : newSize % v.blockSize ≠ 0) :
    divCeil newSize v.blockSize = newSize / v.blockSize + 1 := by
  have hdiv := Nat.div_add_mod newSize v.blockSize
  have hmod := Nat.mod_lt newSize hsize
  have hlow := le_divCeil_mul_blockSize hsize newSize
  have hhigh := divCeil_mul_blockSize_lt hsize newSize
  rw [Nat.mul_comm] at hdiv
  apply Nat.le_antisymm
  · apply Nat.le_of_lt_succ
    apply Nat.lt_of_mul_lt_mul_right (a := v.blockSize)
    rw [Nat.succ_mul, Nat.succ_mul]
    omega
  · apply Nat.succ_le_of_lt
    apply Nat.lt_of_mul_lt_mul_right (a := v.blockSize)
    omega

theorem Full.of_gives (hfull : Full v old) (hold : Sorted old) (hkept : Sorted kept)
    (hsub : ∀ n c, Gives kept n c → Gives old n c) : Full v kept := by
  intro n c hc
  exact hfull n c ((cellAt_eq_some hold).mpr (hsub n c ((cellAt_eq_some hkept).mp hc)))

theorem length_zeroTail {block : Bytes} {size count : Nat} (hlen : block.length = size) (hle : count ≤ size) :
    (block.take count ++ List.replicate (block.length - (block.take count).length) 0).length = size := by
  simp only [length_append, length_take, length_replicate]
  omega

theorem getD_zeroTail {block : Bytes} {size count j : Nat} (hlen : block.length = size) (hle : count ≤ size)
    (hj : j < size) : (block.take count ++ List.replicate (block.length - (block.take count).length) 0).getD j 0 =
      if j < count then block.getD j 0 else 0 := by
  have htake : (block.take count).length = count := by
    rw [length_take]
    omega
  simp only [getD_eq_getElem?_getD]
  split_ifs with hin
  · rw [getElem?_append_left (by omega), getElem?_take, if_pos hin]
  · rw [getElem?_append_right (by omega), getElem?_replicate, if_pos (by omega)]
    rfl

/-- The block a shrinking file rewrites: the last one kept, if it is cut and written. -/
structure TailBlock (v : FileVolume) (kept : List Extent) (newSize : Nat) (tail : Option (Nat × Bytes)) : Prop where
  none : tail = none → newSize % v.blockSize ≠ 0 → ∀ j, cellByte v.disk (cellAt kept (newSize / v.blockSize)) j = 0
  some : ∀ n block, tail = some (n, block) → n = newSize / v.blockSize ∧ n + 1 = divCeil newSize v.blockSize ∧
    (∃ c, cellAt kept n = some c) ∧ block.length = v.blockSize ∧
    ∀ j < v.blockSize, block.getD j 0 = if j < newSize % v.blockSize then cellByte v.disk (cellAt kept n) j else 0

theorem shrink_eq_ok (hsize : 0 < v.blockSize) (hold : Sorted old) (hfull : Full v old)
    (h : shrink v old newSize = .ok (kept, cut, tail)) :
    Replaced old (divCeil newSize v.blockSize) (2 ^ 64 - 1) [] kept cut ∧ TailBlock v kept newSize tail := by
  obtain ⟨⟨kept', cut'⟩, hrepl, h⟩ := of_bind h
  have hreplaced := replaceLogicalRange_spec hold (by simp) hrepl
  have hfull' : Full v kept' := hfull.of_gives hold hreplaced.sorted fun n c hc => by
    rcases (hreplaced.gives n c).mp hc with hc | hc
    · exact hc.1
    · exact absurd hc gives_nil
  by_cases htail : newSize % v.blockSize ≠ 0 ∧
      (extentAt kept' (divCeil newSize v.blockSize - 1)).any (fun e => !e.unwritten) = true
  · have hlast := divCeil_of_mod_ne_zero hsize htail.1
    dsimp only at h
    rw [if_pos htail] at h
    obtain ⟨block, hblk, h⟩ := of_bind h
    obtain rfl := readLayoutBlock_eq_ok hfull' hblk
    have heq := pure_ok.mp h
    simp only [Prod.mk.injEq] at heq
    obtain ⟨rfl, rfl, rfl⟩ := heq
    rw [hlast, Nat.add_sub_cancel] at htail ⊢
    refine ⟨hlast ▸ hreplaced, by simp, ?_⟩
    intro n block hsome
    obtain ⟨rfl, rfl⟩ := Prod.mk.inj (Option.some.inj hsome)
    refine ⟨rfl, hlast.symm, ?_, ?_, fun j hj => ?_⟩
    · cases he : extentAt kept (newSize / v.blockSize) with
      | none =>
        rw [he] at htail
        cases htail.2
      | some e => exact ⟨_, by rw [cellAt, he, Option.map_some]⟩
    · exact (length_zeroTail (by simp [cellBlock]) (Nat.mod_lt newSize hsize).le)
    · rw [getD_zeroTail (by simp [cellBlock]) (Nat.mod_lt newSize hsize).le hj, getD_cellBlock hj]
  · dsimp only at h
    rw [if_neg htail] at h
    have heq := pure_ok.mp h
    simp only [Prod.mk.injEq] at heq
    obtain ⟨rfl, rfl, rfl⟩ := heq
    refine ⟨hreplaced, ?_, by simp⟩
    intro _ hmod j
    rw [divCeil_of_mod_ne_zero hsize hmod, Nat.add_sub_cancel] at htail
    cases he : extentAt kept (newSize / v.blockSize) with
    | none => rw [cellAt, he, Option.map_none, cellByte]
    | some e =>
      have hunwr : e.unwritten = true := by
        by_contra hwritten
        exact htail ⟨hmod, by simp [he, hwritten]⟩
      rw [cellAt, he, Option.map_some]
      simp [cellByte, Extent.cell, hunwr]

structure TailMoved (tx tx' : FileTx) (kept : List Extent) (tail : Option (Nat × Bytes)) (new replaced added : List Extent)
    (writes : List (Nat × Bytes)) : Prop where
  fresh : Fresh tx tx' false added
  sorted : Sorted new
  added_sorted : Sorted added
  replaced_apart : Apart replaced
  gives : ∀ n c, Gives new n c ↔ (Gives kept n c ∧ ¬∃ block, tail = some (n, block)) ∨ Gives added n c
  replaced_gives : ∀ n c, Gives replaced n c → Gives kept n c ∧ ∃ block, tail = some (n, block)
  place : ∀ n c, Gives added n c → ∃ block, tail = some (n, block) ∧ writes = [(c.block, block)]
  total : ∀ n block, tail = some (n, block) → ∃ c, Gives added n c
  none : tail = none → writes = []

theorem rewriteTail_eq_ok {result : List Extent × List Extent × List (Nat × Bytes)} (hkept : Sorted kept)
    (h : rewriteTail a kept tail tx = .ok result tx') :
    ∃ added, TailMoved tx tx' kept tail result.1 result.2.1 added result.2.2 := by
  cases tail with
  | none =>
    obtain ⟨rfl, rfl⟩ := pure_eq_ok.mp h
    exact ⟨[], .nil _, hkept, sorted_nil, List.Pairwise.nil, by simp [gives_nil],
      fun n c hc => absurd hc gives_nil, fun n c hc => absurd hc gives_nil, by simp, fun _ => rfl⟩
  | some place =>
    obtain ⟨n, block⟩ := place
    obtain ⟨physical, tx₁, hrun, h⟩ := bind_eq_ok.mp h
    obtain ⟨⟨rewritten, removed⟩, hrepl, h⟩ := lift_bind_eq_ok.mp h
    obtain ⟨rfl, rfl⟩ := pure_eq_ok.mp h
    have hreplaced := replaceLogicalRange_spec hkept (by simp) hrepl
    have hone : ∀ m c, Gives [(⟨n, physical, 1, false, false⟩ : Extent)] m c ↔ m = n ∧ c = ⟨physical, false, false⟩ := by
      intro m c
      rw [gives_singleton]
      simp only [Extent.Covers, Extent.stop, Extent.cell]
      constructor
      · rintro ⟨⟨hlow, hhigh⟩, rfl⟩
        obtain rfl : m = n := by omega
        simp
      · rintro ⟨rfl, rfl⟩
        simp
    have hin : ∀ m, (n ≤ m ∧ m < n + 1) ↔ ∃ block', some (n, block) = some (m, block') := by
      intro m
      constructor
      · intro hm
        obtain rfl : m = n := by omega
        exact ⟨block, rfl⟩
      · rintro ⟨block', heq⟩
        obtain ⟨rfl, -⟩ := Prod.mk.inj (Option.some.inj heq)
        omega
    refine ⟨[⟨n, physical, 1, false, false⟩], allocateRun_fresh hrun n false, hreplaced.sorted, ?_,
      hreplaced.removed_sorted.apart, ?_, ?_, ?_, ?_, by simp⟩
    · exact ⟨by simp, pairwise_singleton _ _⟩
    · intro m c
      rw [hreplaced.gives, hin]
      rfl
    · intro m c hc
      obtain ⟨hc, hm⟩ := (hreplaced.removed_gives m c).mp hc
      exact ⟨hc, (hin m).mp hm⟩
    · intro m c hc
      obtain ⟨rfl, rfl⟩ := (hone m c).mp hc
      exact ⟨block, rfl, rfl⟩
    · intro m block' heq
      obtain ⟨rfl, rfl⟩ := Prod.mk.inj (Option.some.inj heq)
      exact ⟨_, (hone _ _).mpr ⟨rfl, rfl⟩⟩

def cutBytes (bytes : Nat → UInt8) (size i : Nat) : UInt8 := if i < size then bytes i else 0

theorem shrink_edits {u : Unit} (hv : Valid v) (hobj : v.objects id = some object)
    (hfile : object.record.objectType = .file) (hstaged : staged.Shaped) (hstagedFile : staged.record.objectType = .file)
    (hsize : staged.record.sizeBytes = newSize)
    (hinside : ∀ n c, newSize / v.blockSize ≤ n → (Gives object.layout n c ↔ Gives old n c))
    (hcut : Replaced old (divCeil newSize v.blockSize) (2 ^ 64 - 1) [] kept cut)
    (htail : TailBlock v kept newSize tail) (hmoved : TailMoved (begin v a) tx kept tail new replaced added writes)
    (hgives : ∀ n c, Gives staged.layout n c ↔
      (Gives object.layout n c ∧ ¬(divCeil newSize v.blockSize ≤ n ∨ ∃ block, tail = some (n, block))) ∨ Gives added n c)
    (hrun : (cut ++ replaced).forM (releaseDataRun v) tx = .ok u tx')
    (hcommit : commit v a tx' writes [(id, staged)] = .ok v') :
    Edits v v' id staged (cutBytes (byteAt v id) newSize) := by
  obtain ⟨hcomm, -, -⟩ := commit_eq_ok hcommit
  have hshaped := hv.shaped id object hobj hfile
  have hcell := cellOf_file hobj hfile
  have hbegin := hv.held.begin a
  have hret := le_divCeil_mul_blockSize hv.blockSize newSize
  have hle : newSize / v.blockSize ≤ divCeil newSize v.blockSize := div_le_divCeil hv.blockSize le_rfl
  have hkept := hcut.kept_gives
  have htailCell : ∀ n block, tail = some (n, block) → cellAt kept n = cellAt object.layout n := by
    intro n block hsome
    obtain ⟨hn, hnext, -⟩ := htail.some n block hsome
    apply cellAt_eq_of_gives hcut.sorted hshaped.sorted
    intro c
    rw [hkept, hinside n c hn.ge]
    exact and_iff_left (by omega)
  have hlastCell : newSize % v.blockSize ≠ 0 → cellAt kept (newSize / v.blockSize) = cellAt object.layout (newSize / v.blockSize) := by
    intro hmod
    apply cellAt_eq_of_gives hcut.sorted hshaped.sorted
    intro c
    rw [hkept, hinside _ c le_rfl, divCeil_of_mod_ne_zero hv.blockSize hmod]
    exact and_iff_left (by omega)
  -- The old extents that go are those of the blocks cut off and of the rewritten tail.
  have hgone : ∀ n c, Gives (cut ++ replaced) n c →
      cellOf v (id, n) = some c ∧ (divCeil newSize v.blockSize ≤ n ∨ ∃ block, tail = some (n, block)) := by
    intro n c hc
    rw [hcell, cellAt_eq_some hshaped.sorted]
    rcases gives_append.mp hc with hc | hc
    · obtain ⟨hc, hlow, -⟩ := (hcut.removed_gives n c).mp hc
      exact ⟨(hinside n c (hle.trans hlow)).mpr hc, .inl hlow⟩
    · obtain ⟨hc, block, hsome⟩ := hmoved.replaced_gives n c hc
      exact ⟨(hinside n c (htail.some n block hsome).1.ge).mpr ((hkept n c).mp hc).1, .inr ⟨block, hsome⟩⟩
  have hapart : Apart (cut ++ replaced) := by
    refine pairwise_append.mpr ⟨hcut.removed_sorted.apart, hmoved.replaced_apart, ?_⟩
    intro e he e' he' n hn hn'
    obtain ⟨-, hlow, -⟩ := (hcut.removed_gives n _).mp ⟨e, he, hn, rfl⟩
    obtain ⟨-, block, hsome⟩ := hmoved.replaced_gives n _ ⟨e', he', hn', rfl⟩
    have hnext := (htail.some n block hsome).2.1
    omega
  have hstagedHeld : Held (Sum.elim (cellOf v) (cellAt added)) tx :=
    hbegin.takesFresh hmoved.fresh fun n c hc => (cellAt_eq_some hmoved.added_sorted).mp hc
  obtain ⟨hheld, hframe⟩ : Held (recelled (cellOf v) id staged.layout) tx' ∧ ∀ b, tx'.use b = tx.use b ∨ tx'.use b = .quarantined := by
    refine hstagedHeld.exchange hapart (fun n c hc => (hgone n c hc).1) hrun ?_
    intro n c' hc'
    rcases (hgives n c').mp ((cellAt_eq_some hstaged.sorted).mp hc') with ⟨hc, hnot⟩ | hc
    · right
      refine ⟨fun c hc => hnot (hgone n c hc).2, c', ?_, rfl, fun hmark => hmark⟩
      rw [hcell]
      exact (cellAt_eq_some hshaped.sorted).mpr hc
    · exact .inl ((cellAt_eq_some hmoved.added_sorted).mpr hc)
  have hnewBlock : ∀ b, b ∈ writes.map Prod.fst → (begin v a).use b = .free := by
    intro b hb
    cases hcase : tail with
    | none =>
      rw [hmoved.none hcase] at hb
      cases hb
    | some place =>
      obtain ⟨n, block⟩ := place
      obtain ⟨c, hc⟩ := hmoved.total n block hcase
      obtain ⟨block', -, hwrites⟩ := hmoved.place n c hc
      rw [hwrites] at hb
      obtain rfl : b = c.block := by simpa using hb
      exact (hmoved.fresh.gives n c hc).2.2.1
  have hkeptData : DataKept v tx' := ((dataKept_begin v a).takes hmoved.fresh.takes).release hframe
  have hdisk : ∀ x c, cellOf v x = some c → v'.disk c.block = v.disk c.block :=
    fun x c hc => hcomm.disk_eq hv hkeptData hc fun hb => hbegin.not_free hc (hnewBlock _ hb)
  have htailDisk : ∀ n block c, tail = some (n, block) → Gives added n c → v'.disk c.block = block := by
    intro n block c hsome hc
    obtain ⟨block', hsome', hwrites⟩ := hmoved.place n c hc
    obtain ⟨-, rfl⟩ := Prod.mk.inj (Option.some.inj (hsome.symm.trans hsome'))
    exact hcomm.written (by simp [hwrites]) _ _ (by simp [hwrites])
  have hsame : ∀ n, ¬(∃ block, tail = some (n, block)) → n < divCeil newSize v.blockSize →
      cellAt staged.layout n = cellAt object.layout n := by
    intro n hnot hlt
    apply cellAt_eq_of_gives hstaged.sorted hshaped.sorted
    intro c
    rw [hgives]
    constructor
    · rintro (⟨hc, -⟩ | hc)
      · exact hc
      · obtain ⟨block, hsome, -⟩ := hmoved.place n c hc
        exact absurd ⟨block, hsome⟩ hnot
    · refine fun hc => .inl ⟨hc, ?_⟩
      rintro (hlow | hsome)
      · omega
      · exact hnot hsome
  have hnone : ∀ n, ¬(∃ block, tail = some (n, block)) → divCeil newSize v.blockSize ≤ n → cellAt staged.layout n = none := by
    intro n hnot hlow
    rw [Option.eq_none_iff_forall_ne_some]
    intro c hc
    rcases (hgives n c).mp ((cellAt_eq_some hstaged.sorted).mp hc) with ⟨-, hout⟩ | hc
    · exact hout (.inl hlow)
    · obtain ⟨block, hsome, -⟩ := hmoved.place n c hc
      exact hnot ⟨block, hsome⟩
  have hdivMod := Nat.div_add_mod newSize v.blockSize
  rw [Nat.mul_comm] at hdivMod
  refine edits_of_commit hv hstagedFile hstaged hkeptData hheld ?_ ⟨?_, ?_, ?_⟩ hobj hcommit
  · intro other _ n c hc hb
    exact hbegin.not_free hc (hnewBlock _ hb)
  · intro n j hj
    by_cases hmovedTail : ∃ block, tail = some (n, block)
    · obtain ⟨block, hsome⟩ := hmovedTail
      obtain ⟨hn, -, -, -, hbytes⟩ := htail.some n block hsome
      obtain ⟨c, hc⟩ := hmoved.total n block hsome
      have hwritten := (hmoved.fresh.gives n c hc).1
      have hbyte : cellByte v'.disk (cellAt staged.layout n) j = block.getD j 0 := by
        rw [(cellAt_eq_some hstaged.sorted).mpr ((hgives n c).mpr (.inr hc)), ← htailDisk n block c hsome hc]
        simp [cellByte, hwritten]
      rw [hbyte, hbytes j hj, cutBytes, byteAt_eq hv.blockSize hj, hcell, htailCell n block hsome, hn]
      exact if_congr (by omega) rfl rfl
    · by_cases hlow : divCeil newSize v.blockSize ≤ n
      · have hbeyond := Nat.mul_le_mul_right v.blockSize hlow
        rw [hnone n hmovedTail hlow, cutBytes, if_neg (by omega)]
        rfl
      · have hbyte : cellByte v'.disk (cellAt staged.layout n) j = cellByte v.disk (cellAt object.layout n) j := by
          rw [hsame n hmovedTail (not_le.mp hlow), ← hcell]
          cases hc : cellOf v (id, n) with
          | none => rfl
          | some c => exact cellByte_congr rfl (hdisk _ c hc) j
        rw [hbyte, cutBytes, byteAt_eq hv.blockSize hj, hcell]
        split_ifs with hin
        · rfl
        · -- Only the last block is cut, and it was empty if it was not rewritten.
          have hbefore := divCeil_mul_blockSize_lt hv.blockSize newSize
          have hup := Nat.mul_le_mul_right v.blockSize (Nat.succ_le_of_lt (not_le.mp hlow))
          rw [Nat.succ_mul] at hup
          have hn : n = newSize / v.blockSize := by
            symm
            rw [Nat.div_eq_iff hv.blockSize]
            omega
          have hmod : newSize % v.blockSize ≠ 0 := by
            rw [← hn] at hdivMod
            omega
          have hnoTail : tail = none := by
            cases hcase : tail with
            | none => rfl
            | some place =>
              obtain ⟨m, block⟩ := place
              have hm := (htail.some m block hcase).1
              exact absurd ⟨block, by rw [hcase, hm, hn]⟩ hmovedTail
          rw [hn, ← hlastCell hmod]
          exact htail.none hnoTail hmod j
  · intro n c hc hwritten
    by_cases hmovedTail : ∃ block, tail = some (n, block)
    · obtain ⟨block, hsome⟩ := hmovedTail
      obtain ⟨c', hc'⟩ := hmoved.total n block hsome
      obtain rfl := Option.some.inj (hc.symm.trans ((cellAt_eq_some hstaged.sorted).mpr ((hgives n c').mpr (.inr hc'))))
      rw [htailDisk n block c hsome hc']
      exact (htail.some n block hsome).2.2.2.1
    · by_cases hlow : divCeil newSize v.blockSize ≤ n
      · rw [hnone n hmovedTail hlow] at hc
        cases hc
      · rw [hsame n hmovedTail (not_le.mp hlow), ← hcell] at hc
        rw [hdisk _ c hc]
        exact hv.lengths _ c hc hwritten
  · intro i hi
    rw [hsize] at hi
    rw [cutBytes, if_neg (not_lt.mpr hi)]

/-- The blocks mapped after a resize are those that were, up to the new end when the file shrinks. -/
def resizedMap (v : FileVolume) (object : FileObject) (newSize n : Nat) : Prop :=
  (∃ c, cellAt object.layout n = some c) ∧ (newSize < object.record.sizeBytes → n < divCeil newSize v.blockSize)

theorem cutBytes_of_le (hv : Valid v) (hobj : v.objects id = some object) (hfile : object.record.objectType = .file)
    (hle : object.record.sizeBytes ≤ newSize) : cutBytes (byteAt v id) newSize = byteAt v id := by
  funext i
  rw [cutBytes]
  split_ifs with hi
  · rfl
  · exact (hv.tail id object hobj hfile i (hle.trans (not_lt.mp hi))).symm

variable {now : Timespec}

theorem grow_applied (hv : Valid v) (hobj : v.objects id = some object)
    (hfile : object.record.objectType = .file) (hlt : object.record.sizeBytes < newSize)
    (hrec : Staged v object newSize true now now staged)
    (hgives : ∀ n c, Gives staged.layout n c ↔ Gives object.layout n c)
    (hcommit : commit v a (begin v a) [] [(id, staged)] = .ok v') :
    Applied v v' id now newSize (cutBytes (byteAt v id) newSize) (resizedMap v object newSize) object staged := by
  have hshaped := hv.shaped id object hobj hfile
  refine ⟨hobj, hfile, ?_, hrec, fun n => ?_⟩
  · rw [cutBytes_of_le hv hobj hfile hlt.le]
    have hnone : Fresh (begin v a) (begin v a) true [] := .nil _
    apply reserve_edits hv hobj hfile hrec.shaped (hrec.objectType.trans hfile) hnone
      (by simpa [gives_nil] using hgives) _ hcommit
    intro i hi
    rw [hrec.sizeBytes] at hi
    exact hv.tail id object hobj hfile i (hlt.le.trans hi)
  · rw [cellAt_eq_of_gives hrec.shaped.sorted hshaped.sorted (hgives n), resizedMap]
    exact (and_iff_left fun hless => absurd hless hlt.le.not_gt).symm

variable {limits : Option FileEditLimits}

theorem shrink_gives {generation : Nat} (hv : Valid v) (hshaped : object.Shaped)
    (hload : loadForEdit object (newSize / v.blockSize) (2 ^ 64 - 1) limits = .ok old)
    (hcut : Replaced old (divCeil newSize v.blockSize) (2 ^ 64 - 1) [] kept cut)
    (htail : TailBlock v kept newSize tail) (hmoved : TailMoved (begin v a) tx kept tail new replaced added writes)
    (hstage : stageEdit v a id object limits old new newSize now generation = .ok staged) :
    Staged v object newSize true now now staged ∧
      (∀ n c, newSize / v.blockSize ≤ n → (Gives object.layout n c ↔ Gives old n c)) ∧
      (∀ n c, Gives staged.layout n c ↔
        (Gives object.layout n c ∧ ¬(divCeil newSize v.blockSize ≤ n ∨ ∃ block, tail = some (n, block))) ∨
          Gives added n c) ∧ staged.record.protection = protectionAfter object limits := by
  obtain ⟨front, back, hloaded⟩ := loadForEdit_eq_ok hshaped hload
  have hold := hloaded.sorted hshaped
  have hle : newSize / v.blockSize ≤ divCeil newSize v.blockSize := div_le_divCeil hv.blockSize le_rfl
  have hbound : ∀ n c, Gives object.layout n c → n < 2 ^ 64 - 1 := by
    rintro n c ⟨e, he, hn, -⟩
    have := hshaped.bounded e he
    have := hn.2
    omega
  have hsub : ∀ n c, Gives old n c → Gives object.layout n c := by
    intro n c hc
    rw [hloaded.layout, gives_append, gives_append]
    exact .inr (.inl hc)
  have hkept := hcut.kept_gives
  have htailIn : ∀ n block, tail = some (n, block) → newSize / v.blockSize ≤ n ∧ n < 2 ^ 64 - 1 := by
    intro n block hsome
    obtain ⟨hn, -, ⟨c, hc⟩, -⟩ := htail.some n block hsome
    have hc := ((hkept n c).mp ((cellAt_eq_some hcut.sorted).mp hc)).1
    exact ⟨hn.ge, hbound n c (hsub n c hc)⟩
  obtain ⟨hrec, hgives, hprot⟩ := stageEdit_eq_ok
    (fun n => (divCeil newSize v.blockSize ≤ n ∧ n < 2 ^ 64 - 1) ∨ ∃ block, tail = some (n, block)) added hshaped hload
    hmoved.sorted
    (by
      rintro n (hn | ⟨block, hsome⟩)
      · exact ⟨hle.trans hn.1, hn.2⟩
      · exact htailIn n block hsome)
    (by
      intro n c hc
      obtain ⟨block, hsome, -⟩ := hmoved.place n c hc
      exact htailIn n block hsome)
    (by
      intro n c
      rw [hmoved.gives, hkept, not_or, and_assoc])
    hstage
  refine ⟨hrec, ?_, ?_, hprot⟩
  · intro n c hlow
    constructor
    · exact fun hc => (hloaded.gives_iff hlow (hbound n c hc)).mp hc
    · exact hsub n c
  · intro n c
    rw [hgives]
    apply or_congr_left
    apply and_congr_right
    intro hc
    have := hbound n c hc
    apply not_congr
    apply or_congr_left
    omega

theorem truncateFileWithLimits_eq_ok (hv : Valid v)
    (h : truncateFileWithLimits v a id newSize now limits = .ok v') :
    ∃ object, v.objects id = some object ∧ object.record.objectType = .file ∧
      if newSize = object.record.sizeBytes then v' = v else ∃ staged,
        Applied v v' id now newSize (cutBytes (byteAt v id) newSize) (resizedMap v object newSize) object staged ∧
        staged.record.protection =
          if object.record.sizeBytes < newSize ∧ object.record.extentTree = true then object.record.protection
          else protectionAfter object limits := by
  replace h := after_check h
  obtain ⟨object, hobj, h⟩ := of_bind h
  obtain ⟨hobj, hfile⟩ := fileObject_eq_ok hobj
  have hshaped := hv.shaped id object hobj hfile
  refine ⟨object, hobj, hfile, ?_⟩
  dsimp only at h
  split_ifs at h ⊢ with hsame htree hless
  · exact pure_ok.mp h
  · -- A longer extent tree: only the record changes.
    obtain ⟨generation, -, h⟩ := of_bind h
    obtain ⟨staged, hstage, h⟩ := of_bind h
    have hempty : object.layout = object.layout ++ ([] ++ []) := by simp
    obtain ⟨hrec, hlay, hprot⟩ := stageExtentDelta_eq_ok hshaped htree.2 hempty (by simpa using hshaped.sorted)
      hstage
    exact ⟨staged, grow_applied hv hobj hfile htree.1 hrec (by simp [hlay]) h, hprot⟩
  · obtain ⟨old, hload, h⟩ := of_bind h
    obtain ⟨⟨kept, cut, tail⟩, hshrink, h⟩ := of_bind h
    replace h := after_check h
    replace h := after_check h
    obtain ⟨generation, -, h⟩ := of_bind h
    obtain ⟨⟨⟨new, replaced, writes⟩, tx⟩, hrewrite, h⟩ := of_bind h
    replace h := after_check h
    obtain ⟨staged, hstage, h⟩ := of_bind h
    obtain ⟨⟨u, tx'⟩, hrelease, h⟩ := of_bind h
    obtain ⟨front, back, hloaded⟩ := loadForEdit_eq_ok hshaped hload
    have hold := hloaded.sorted hshaped
    obtain ⟨hcut, htail⟩ := shrink_eq_ok hv.blockSize hold (hloaded.full hv hobj hfile) hshrink
    obtain ⟨added, hmoved⟩ := rewriteTail_eq_ok hcut.sorted (runTx_eq_ok hrewrite)
    obtain ⟨hrec, hinside, hgives, hprot⟩ := shrink_gives hv hshaped hload hcut htail hmoved hstage
    have hedits := shrink_edits hv hobj hfile hrec.shaped (hrec.objectType.trans hfile) hrec.sizeBytes hinside
      hcut htail hmoved hgives (runTx_eq_ok hrelease) h
    refine ⟨staged, ⟨hobj, hfile, hedits, hrec, fun n => ?_⟩, hprot⟩
    simp only [resizedMap, cellAt_eq_some hrec.shaped.sorted, cellAt_eq_some hshaped.sorted, hgives]
    constructor
    · rintro ⟨c, ⟨hc, hout⟩ | hc⟩
      · exact ⟨⟨c, hc⟩, fun _ => not_le.mp fun hlow => hout (.inl hlow)⟩
      · obtain ⟨block, hsome, -⟩ := hmoved.place n c hc
        obtain ⟨hn, hnext, ⟨c', hc'⟩, -⟩ := htail.some n block hsome
        have hkept := (hcut.gives n c').mp ((cellAt_eq_some hcut.sorted).mp hc')
        simp only [gives_nil, or_false] at hkept
        exact ⟨⟨c', (hinside n c' hn.ge).mpr hkept.1⟩, fun _ => by omega⟩
    · rintro ⟨⟨c, hc⟩, hlt⟩
      by_cases hrewritten : ∃ block, tail = some (n, block)
      · obtain ⟨block, hsome⟩ := hrewritten
        obtain ⟨c', hc'⟩ := hmoved.total n block hsome
        exact ⟨c', .inr hc'⟩
      · refine ⟨c, .inl ⟨hc, ?_⟩⟩
        have := hlt hless
        rintro (hlow | hsome)
        · omega
        · exact hrewritten hsome
  · -- A longer direct layout is staged again as it is.
    obtain ⟨old, hload, h⟩ := of_bind h
    obtain ⟨⟨kept, cut, tail⟩, hshrink, h⟩ := of_bind h
    replace h := after_check h
    replace h := after_check h
    obtain ⟨generation, -, h⟩ := of_bind h
    obtain ⟨⟨⟨new, replaced, writes⟩, tx⟩, hrewrite, h⟩ := of_bind h
    replace h := after_check h
    obtain ⟨staged, hstage, h⟩ := of_bind h
    obtain ⟨⟨u, tx'⟩, hrelease, h⟩ := of_bind h
    obtain ⟨front, back, hloaded⟩ := loadForEdit_eq_ok hshaped hload
    have hlt : object.record.sizeBytes < newSize := by omega
    obtain ⟨rfl, rfl, rfl⟩ : kept = old ∧ cut = [] ∧ tail = none := by simpa using pure_ok.mp hshrink
    obtain ⟨hnew, rfl⟩ := pure_eq_ok.mp (runTx_eq_ok hrewrite)
    obtain ⟨rfl, rfl, rfl⟩ : new = kept ∧ replaced = [] ∧ writes = [] := by simpa using hnew
    obtain ⟨-, rfl⟩ := pure_eq_ok.mp (runTx_eq_ok hrelease)
    obtain ⟨hrec, hgives, hprot⟩ := stageEdit_eq_ok (fun _ => False) [] hshaped hload (hloaded.sorted hshaped)
      (by simp) (fun n c hc => absurd hc gives_nil) (by simp [gives_nil]) hstage
    exact ⟨staged, grow_applied hv hobj hfile hlt hrec (by simpa [gives_nil] using hgives) h, hprot⟩

end Resizes

/-! ### Reserving -/

section Reserving

variable {v v' : FileVolume} {a : Answers} {id : ObjectId}

theorem preallocateFileBounded_eq_ok {offset length : Nat} {now : Timespec} {limits : FileEditLimits} (hv : Valid v)
    (h : preallocateFileBounded v a id offset length now limits = .ok v') :
    v' = v ∨ ∃ object staged, v.objects id = some object ∧ object.record.objectType = .file ∧
      Edits v v' id staged (byteAt v id) ∧ staged.record.sizeBytes = object.record.sizeBytes := by
  replace h := after_check h
  replace h := after_check h
  split_ifs at h with hlen
  · exact .inl (pure_ok.mp h)
  · obtain ⟨object, hobj, h⟩ := of_bind h
    obtain ⟨hobj, hfile⟩ := fileObject_eq_ok hobj
    replace h := after_check h
    replace h := after_check h
    obtain ⟨old, hload, h⟩ := of_bind h
    obtain ⟨holes, hholes, h⟩ := of_bind h
    by_cases hnone : holes = []
    · rw [if_pos hnone] at h
      exact .inl (pure_ok.mp h)
    · rw [if_neg hnone] at h
      right
      obtain ⟨generation, -, h⟩ := of_bind h
      obtain ⟨⟨additions, tx⟩, hrounds, h⟩ := of_bind h
      obtain ⟨new, hnew, h⟩ := of_bind h
      replace h := after_check h
      have hlocal : localTree object (some limits) = object.record.extentTree := Bool.true_and _
      obtain ⟨staged, hstage, h⟩ : ∃ staged, (if localTree object (some limits) then
            stageExtentDelta v a id object old new object.record.sizeBytes false now generation
          else stageFileLayout v a id object old new object.record.sizeBytes false now now generation) = .ok staged ∧
          commit v a tx [] [(id, staged)] = .ok v' := by
        rw [hlocal]
        split_ifs at h ⊢
        · exact of_bind h
        · exact of_bind h
      have hshaped := hv.shaped id object hobj hfile
      obtain ⟨front, back, hloaded⟩ := loadForEdit_eq_ok hshaped hload
      have hold := hloaded.sorted hshaped
      obtain ⟨hfresh, hproper, hfilled⟩ := allocateHoles_fresh (runTx_eq_ok hrounds) (.nil _) (by simp)
      have hjoined : Coalesced (old ++ additions) new := by
        apply coalesceExtents_spec _ hnew
        intro e he
        rcases mem_append.mp he with he | he
        · exact hold.proper e he
        · exact hproper e he
      have hin : ∀ n c, Gives additions n c →
          offset / v.blockSize ≤ n ∧ n < divCeil (offset + length) v.blockSize := by
        intro n c hc
        rcases (hfilled n).mp ⟨c, hc⟩ with ⟨_, hc⟩ | hhole
        · exact absurd hc gives_nil
        · exact ((logicalHoles_spec hold hholes n).mp hhole).1
      have hwindow : ∀ n c, Gives new n c ↔ (Gives old n c ∧ ¬False) ∨ Gives additions n c := by
        intro n c
        rw [hjoined.gives, gives_append]
        simp
      obtain ⟨hrec, hgives, -⟩ := spliced_eq_ok (fun _ => False) additions hshaped hload hjoined.sorted (by simp) hin
        hwindow hstage
      refine ⟨object, staged, hobj, hfile, ?_, hrec.sizeBytes⟩
      apply reserve_edits hv hobj hfile hrec.shaped (hrec.objectType.trans hfile) hfresh (by simpa using hgives) _ h
      rw [hrec.sizeBytes]
      exact hv.tail id object hobj hfile

end Reserving

end Afsplus.FileData
