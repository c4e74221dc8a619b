import Afsplus.Core.FileContent

/-!
# Writing

An edit of one file is described by the bytes of the file afterwards. The blocks of the new extents are places of their
own in the ledger until the old ones are released. A write, with or without limits, is such an edit.
-/

namespace Afsplus.FileData

open Fallible Extents ByteImage Function
open List hiding min max

section Blocks

variable {block piece bytes : Bytes} {start low high j : Nat}

theorem length_overlayBlock (hfit : start + piece.length ≤ block.length) :
    (overlayBlock block start piece).length = block.length := by
  simp only [overlayBlock, length_append, length_take, length_drop]
  omega

theorem getD_overlayBlock (hfit : start + piece.length ≤ block.length) :
    (overlayBlock block start piece).getD j 0 =
      if start ≤ j ∧ j < start + piece.length then piece.getD (j - start) 0 else block.getD j 0 := by
  have htake : (block.take start).length = start := by
    rw [length_take]
    omega
  simp only [getD_eq_getElem?_getD, overlayBlock]
  by_cases hlow : j < start
  · rw [append_assoc, getElem?_append_left (by omega), getElem?_take, if_pos hlow, if_neg (by omega)]
  · by_cases hin : j < start + piece.length
    · rw [getElem?_append_left (by simp only [length_append]; omega), getElem?_append_right (by omega), htake,
        if_pos ⟨not_lt.mp hlow, hin⟩]
    · rw [getElem?_append_right (by simp only [length_append]; omega), getElem?_drop, if_neg (by omega)]
      congr 2
      simp only [length_append]
      omega

theorem length_slice (hhigh : high ≤ bytes.length) : (slice bytes low high).length = high - low := by
  simp only [slice, length_take, length_drop]
  omega

theorem getD_slice (hj : j < high - low) : (slice bytes low high).getD j 0 = bytes.getD (low + j) 0 := by
  simp only [slice, getD_eq_getElem?_getD, getElem?_take, if_pos hj, getElem?_drop]

theorem getD_cellBlock {v : FileVolume} {cell : Option Cell} (hj : j < v.blockSize) :
    (cellBlock v cell).getD j 0 = cellByte v.disk cell j := by
  rw [cellBlock, getD_eq_getElem?_getD, getElem?_image hj]
  rfl

end Blocks

section Edits

variable {v v' : FileVolume} {a : Answers} {id : ObjectId} {object staged : FileObject} {tx : FileTx}
  {writes : List (Nat × Bytes)} {bytes : Nat → UInt8}

/-- One file has new bytes; the others are as before. -/
structure Edits (v v' : FileVolume) (id : ObjectId) (staged : FileObject) (bytes : Nat → UInt8) : Prop where
  valid : Valid v'
  blockSize : v'.blockSize = v.blockSize
  next : v'.nextObjectId = v.nextObjectId
  object : v'.objects id = some staged
  file : staged.record.objectType = .file
  others : ∀ other, other ≠ id → v'.objects other = v.objects other
  content : ∀ i, byteAt v' id i = bytes i
  kept : ∀ other, other ≠ id → ∀ i, byteAt v' other i = byteAt v other i

def recelled (cells : ObjectId × Nat → Option Cell) (id : ObjectId) (layout : List Extent) (x : ObjectId × Nat) :
    Option Cell :=
  if x.1 = id then cellAt layout x.2 else cells x

theorem recelled_self (cells : ObjectId × Nat → Option Cell) (id : ObjectId) (layout : List Extent) (n : Nat) :
    recelled cells id layout (id, n) = cellAt layout n := if_pos rfl

/-- On the disk of `v'` the staged file reads as these bytes. -/
structure Stored (v v' : FileVolume) (staged : FileObject) (bytes : Nat → UInt8) : Prop where
  cells : ∀ n j, j < v.blockSize → cellByte v'.disk (cellAt staged.layout n) j = bytes (n * v.blockSize + j)
  lengths : ∀ n c, cellAt staged.layout n = some c → c.unwritten = false → (v'.disk c.block).length = v.blockSize
  zero : ∀ i, staged.record.sizeBytes ≤ i → bytes i = 0

theorem Stored.byteAt_eq (h : Stored v v' staged bytes) (hv : Valid v) (hcomm : Committed v v' tx writes)
    (hcell : ∀ n, cellOf v' (id, n) = cellAt staged.layout n) (i : Nat) : byteAt v' id i = bytes i := by
  have hlt := Nat.mod_lt i hv.blockSize
  rw [byteAt, hcomm.blockSize, hcell, h.cells _ _ hlt, Nat.mul_comm, Nat.div_add_mod]

variable (hv : Valid v) (hfile : staged.record.objectType = .file) (hshaped : staged.Shaped) (hkept : DataKept v tx)
  (hheld : Held (recelled (cellOf v) id staged.layout) tx)
  (huntouched : ∀ other, other ≠ id → ∀ n c, cellOf v (other, n) = some c → c.block ∉ writes.map Prod.fst)
  (hstored : Stored v v' staged bytes)

include hv hfile hshaped hkept hheld huntouched hstored

theorem valid_of_committed (hcomm : Committed v v' tx writes)
    (hobjs : v'.objects = update v.objects id (some staged))
    (hnext : ∀ other, v'.nextObjectId ≤ other → other ≠ id ∧ v.nextObjectId ≤ other) :
    Valid v' ∧ (∀ i, byteAt v' id i = bytes i) ∧ (∀ other, other ≠ id → v'.objects other = v.objects other) ∧
      ∀ other, other ≠ id → ∀ i, byteAt v' other i = byteAt v other i := by
  have hstaged : v'.objects id = some staged := by
    rw [hobjs, update_self]
  have hothers : ∀ other, other ≠ id → v'.objects other = v.objects other := by
    intro other hoth
    rw [hobjs, update_of_ne hoth]
  have hcell := cellOf_file hstaged hfile
  have hcells : cellOf v' = recelled (cellOf v) id staged.layout := by
    funext key
    obtain ⟨other, n⟩ := key
    by_cases hoth : other = id
    · rw [hoth, hcell, recelled_self]
    · rw [cellOf_congr (hothers other hoth), recelled, if_neg hoth]
  have hcont := hstored.byteAt_eq hv hcomm hcell
  have hedited : ∀ x ∈ ({id} : Set ObjectId), ∃ object, v'.objects x = some object ∧ object.Shaped ∧
      (∀ i, object.record.sizeBytes ≤ i → byteAt v' x i = 0) ∧
      ∀ n c, cellOf v' (x, n) = some c → c.unwritten = false → (v'.disk c.block).length = v.blockSize := by
    rintro _ rfl
    refine ⟨staged, hstaged, hshaped, fun i hi => ?_, fun n c hc => ?_⟩
    · rw [hcont, hstored.zero i hi]
    · rw [hcell] at hc
      exact hstored.lengths n c hc
  obtain ⟨hval, hsame⟩ := edited_valid hv hcomm hkept (hcells ▸ hheld) hothers huntouched hedited (by
    intro other hoth
    obtain ⟨hne, hold⟩ := hnext other hoth
    rw [hothers other hne]
    exact hv.fresh other hold)
  exact ⟨hval, hcont, hothers, hsame⟩

theorem edits_of_commit (hobj : v.objects id = some object)
    (hcommit : commit v a tx writes [(id, staged)] = .ok v') : Edits v v' id staged bytes := by
  obtain ⟨hcomm, hnext, hobjs⟩ := commit_eq_ok hcommit
  have hused : ∀ other, v'.nextObjectId ≤ other → other ≠ id ∧ v.nextObjectId ≤ other := by
    intro other hoth
    rw [hnext] at hoth
    refine ⟨?_, hoth⟩
    rintro rfl
    rw [hv.fresh other hoth] at hobj
    cases hobj
  obtain ⟨hval, hcont, hothers, hsame⟩ := valid_of_committed hv hfile hshaped hkept hheld huntouched
    hstored hcomm hobjs hused
  have hstaged : v'.objects id = some staged := by
    rw [hobjs]
    exact update_self _ _ _
  exact ⟨hval, hcomm.blockSize, hnext, hstaged, hfile, hothers, hcont, hsame⟩

omit hv hfile hshaped hkept hheld huntouched hstored

theorem Held.exchange {cells : ObjectId × Nat → Option Cell} {fresh : Nat → Option Cell} {tx' : FileTx} {u : Unit}
    {removed layout : List Extent} (h : Held (Sum.elim cells fresh) tx) (hapart : Apart removed)
    (hrem : ∀ n c, Gives removed n c → cells (id, n) = some c) (hrun : removed.forM (releaseDataRun v) tx = .ok u tx')
    (hlay : ∀ n c', cellAt layout n = some c' → fresh n = some c' ∨ (∀ c, ¬Gives removed n c) ∧
        ∃ c, cells (id, n) = some c ∧ c.block = c'.block ∧ (c.shared = true → c'.shared = true)) :
    Held (recelled cells id layout) tx' ∧ ∀ b, tx'.use b = tx.use b ∨ tx'.use b = .quarantined := by
  have hplace : Injective fun n : Nat => (Sum.inl (id, n) : (ObjectId × Nat) ⊕ Nat) := by
    intro n m heq
    exact (Prod.mk.inj (Sum.inl.inj heq)).2
  obtain ⟨⟨cells', hheld, -, hkeep⟩, hframe⟩ := h.releaseAll hapart hplace hrem hrun
  refine ⟨?_, hframe⟩
  let g : ObjectId × Nat → (ObjectId × Nat) ⊕ Nat := fun x =>
    if x.1 = id ∧ (fresh x.2).isSome ∧ fresh x.2 = cellAt layout x.2 then .inr x.2 else .inl x
  have hg : Injective g := by
    intro x y heq
    simp only [g] at heq
    split_ifs at heq with hx hy hy
    · exact Prod.ext (hx.1.trans hy.1.symm) (Sum.inr.inj heq)
    · exact Sum.inl.inj heq
  apply hheld.comap hg
  rintro ⟨i, n⟩ c' hc'
  by_cases hi : i = id
  · subst hi
    rw [recelled, if_pos rfl] at hc'
    by_cases hfresh : (fresh n).isSome ∧ fresh n = cellAt layout n
    · have hgx : g (i, n) = .inr n := if_pos ⟨rfl, hfresh⟩
      refine ⟨c', ?_, rfl, fun hmark => hmark⟩
      rw [hgx, hkeep _ (by intro m c _ heq; cases heq)]
      exact hfresh.2.trans hc'
    · have hgx : g (i, n) = .inl (i, n) := if_neg fun hin => hfresh hin.2
      rcases hlay n c' hc' with hnew | ⟨hnot, c, hc, hblk, hshared⟩
      · exact absurd ⟨by simp [hnew], hnew.trans hc'.symm⟩ hfresh
      · refine ⟨c, ?_, hblk, hshared⟩
        rw [hgx, hkeep]
        · exact hc
        · intro m c₀ hgives heq
          obtain rfl := (Prod.mk.inj (Sum.inl.inj heq)).2
          exact hnot c₀ hgives
  · rw [recelled, if_neg hi] at hc'
    have hgx : g (i, n) = .inl (i, n) := if_neg fun hin => hi hin.1
    refine ⟨c', ?_, rfl, fun hmark => hmark⟩
    rw [hgx, hkeep]
    · exact hc'
    · intro m c _ heq
      exact hi (Prod.mk.inj (Sum.inl.inj heq)).1.symm

end Edits

/-! ### Writing -/

section Writes

variable {v v' : FileVolume} {a : Answers} {id : ObjectId} {object : FileObject} {old additions kept removed new : List Extent}
  {offset n : Nat} {content block : Bytes} {tx tx' : FileTx}

theorem touched (hsize : 0 < v.blockSize) {stop : Nat} (hlow : offset / v.blockSize ≤ n) (hhigh : n < divCeil stop v.blockSize) :
    offset < n * v.blockSize + v.blockSize ∧ n * v.blockSize < stop := by
  have hdiv := Nat.div_add_mod offset v.blockSize
  have hmod := Nat.mod_lt offset hsize
  have hstart := Nat.mul_le_mul_right v.blockSize hlow
  have hstop := divCeil_mul_blockSize_lt hsize stop
  have hend := Nat.mul_le_mul_right v.blockSize (Nat.succ_le_of_lt hhigh)
  rw [Nat.succ_mul] at hend
  rw [Nat.mul_comm] at hdiv
  omega

theorem touched_of_mem {stop j : Nat} (hj : j < v.blockSize) (hlow : offset ≤ n * v.blockSize + j)
    (hhigh : n * v.blockSize + j < stop) : offset / v.blockSize ≤ n ∧ n < divCeil stop v.blockSize := by
  have hsize : 0 < v.blockSize := by omega
  constructor
  · apply Nat.le_of_lt_succ
    apply Nat.div_lt_of_lt_mul
    rw [Nat.mul_comm, Nat.succ_mul]
    omega
  · have hstop := le_divCeil_mul_blockSize hsize stop
    apply Nat.lt_of_mul_lt_mul_right (a := v.blockSize)
    omega

def patched (bytes : Nat → UInt8) (offset : Nat) (content : Bytes) (i : Nat) : UInt8 :=
  if offset ≤ i ∧ i < offset + content.length then content.getD (i - offset) 0 else bytes i

def mergedBytes (v : FileVolume) (old : List Extent) (offset : Nat) (content : Bytes) (n : Nat) : Bytes :=
  overlayBlock (cellBlock v (cellAt old n)) (max offset (n * v.blockSize) - n * v.blockSize)
    (slice content (max offset (n * v.blockSize) - offset)
      (min (offset + content.length) (n * v.blockSize + v.blockSize) - offset))

theorem mergedBlock_eq_ok (hfull : Full v old) (h : mergedBlock v old offset content n = .ok block) :
    True ∧ block = mergedBytes v old offset content n := by
  obtain ⟨base, hbase, h⟩ := of_bind h
  obtain rfl := readLayoutBlock_eq_ok hfull hbase
  exact ⟨trivial, pure_ok.mp h⟩

theorem mergedBytes_spec (hlow : offset < n * v.blockSize + v.blockSize) (hhigh : n * v.blockSize < offset + content.length) :
    (mergedBytes v old offset content n).length = v.blockSize ∧ ∀ j < v.blockSize,
      (mergedBytes v old offset content n).getD j 0 =
        patched (fun _ => cellByte v.disk (cellAt old n) j) offset content (n * v.blockSize + j) := by
  have hlen : (cellBlock v (cellAt old n)).length = v.blockSize := by simp [cellBlock]
  set low := max offset (n * v.blockSize) - offset
  set high := min (offset + content.length) (n * v.blockSize + v.blockSize) - offset
  have hpiece : (slice content low high).length = high - low := length_slice (by omega)
  have hfit : max offset (n * v.blockSize) - n * v.blockSize + (slice content low high).length ≤
      (cellBlock v (cellAt old n)).length := by
    rw [hpiece, hlen]
    omega
  refine ⟨(length_overlayBlock hfit).trans hlen, fun j hj => ?_⟩
  rw [mergedBytes, getD_overlayBlock hfit, hpiece, patched]
  by_cases hin : offset ≤ n * v.blockSize + j ∧ n * v.blockSize + j < offset + content.length
  · rw [if_pos hin, if_pos (by omega), getD_slice (by omega)]
    congr 1
    omega
  · rw [if_neg hin, if_neg (by omega), getD_cellBlock hj]

variable {first stop : Nat} {staged : FileObject}

theorem gives_filter {p : Extent → Bool} {c : Cell} {extents : List Extent} (h : Gives (extents.filter p) n c) :
    ∃ e ∈ extents, p e = true ∧ e.Covers n ∧ e.cell n = c := by
  obtain ⟨e, he, hn, hc⟩ := h
  obtain ⟨he, hp⟩ := mem_filter.mp he
  exact ⟨e, he, hp, hn, hc⟩

theorem Loaded.full {low high : Nat} {whole : Bool} {front back : List Extent} (hv : Valid v)
    (hobj : v.objects id = some object) (hfile : object.record.objectType = .file)
    (h : Loaded object low high whole old front back) : Full v old := by
  have hshaped := hv.shaped id object hobj hfile
  intro n c hc hwritten
  apply hv.lengths (id, n) c _ hwritten
  rw [cellOf_file hobj hfile, cellAt_eq_some hshaped.sorted, h.layout, gives_append, gives_append]
  exact .inr (.inl ((cellAt_eq_some (h.sorted hshaped)).mp hc))

/-- The cells a write puts in, where they are not reservations the file has already. -/
noncomputable def freshCells (old additions : List Extent) (n : Nat) : Option Cell :=
  open Classical in if ∃ b, cellAt old n = some ⟨b, true, false⟩ then none else cellAt additions n

theorem write_held {u : Unit} {layout : List Extent} (hv : Valid v)
    (hobj : v.objects id = some object) (hfile : object.record.objectType = .file)
    (hinside : ∀ n, first ≤ n → n < stop → cellAt object.layout n = cellAt old n)
    (hadd : Additions (begin v a) tx old first stop additions) (hrem : Replaced old first stop [] kept removed)
    (hlay : Sorted layout)
    (hgives : ∀ n c, Gives layout n c ↔ (Gives object.layout n c ∧ ¬(first ≤ n ∧ n < stop)) ∨ Gives additions n c)
    (hold : Sorted old) (hrun : (removed.filter fun e => ¬e.Reserved).forM (releaseDataRun v) tx = .ok u tx') :
    Held (recelled (cellOf v) id layout) tx' ∧ ∀ b, tx'.use b = tx.use b ∨ tx'.use b = .quarantined := by
  have hshaped := hv.shaped id object hobj hfile
  have hcell := cellOf_file hobj hfile
  have hbefore : Held (cellOf v) (begin v a) := hv.held.begin a
  have hadditions := hadd.tiles.sorted
  -- The new blocks are held by places of their own.
  have hstaged : Held (Sum.elim (cellOf v) (freshCells old additions)) tx := by
    apply hbefore.takes hadd.takes
    · intro n c hc
      rw [freshCells] at hc
      split_ifs at hc with hres
      obtain ⟨-, -, hcase⟩ := hadd.gives n c ((cellAt_eq_some hadditions).mp hc)
      rcases hcase with hkeep | ⟨-, hfree⟩
      · exact absurd ⟨_, hkeep⟩ hres
      · exact hfree
    · intro n m c c' hc hc' hblk
      rw [freshCells] at hc hc'
      split_ifs at hc hc' with hres hres'
      have hgives₁ := (cellAt_eq_some hadditions).mp hc
      have hgives₂ := (cellAt_eq_some hadditions).mp hc'
      have hfree : ∀ n c, Gives additions n c → (¬∃ b, cellAt old n = some ⟨b, true, false⟩) → (begin v a).use c.block = .free := by
        intro n c hc hnot
        rcases (hadd.gives n c hc).2.2 with hkeep | ⟨-, hfree, -⟩
        · exact absurd ⟨_, hkeep⟩ hnot
        · exact hfree
      exact hadd.distinct n m c c' hgives₁ hgives₂ hblk (hfree n c hgives₁ hres) (hfree m c' hgives₂ hres')
  have hout : ∀ n c, Gives (removed.filter fun e => ¬e.Reserved) n c →
      (Gives old n c ∧ first ≤ n ∧ n < stop) ∧ ¬(c.unwritten = true ∧ c.shared = false) := by
    intro n c hc
    obtain ⟨e, he, hp, hn, rfl⟩ := gives_filter hc
    exact ⟨(hrem.removed_gives n _).mp ⟨e, he, hn, rfl⟩, of_decide_eq_true hp⟩
  have hapart : Apart (removed.filter fun e => ¬e.Reserved) := hrem.removed_sorted.apart.filter _
  refine hstaged.exchange hapart ?_ hrun ?_
  · intro n c hc
    obtain ⟨⟨hc, hlow, hhigh⟩, -⟩ := hout n c hc
    rw [hcell, hinside n hlow hhigh]
    exact (cellAt_eq_some hold).mpr hc
  · intro n c' hc'
    rcases (hgives n c').mp ((cellAt_eq_some hlay).mp hc') with ⟨hc, hnot⟩ | hc
    · right
      constructor
      · exact fun c hgone => hnot (hout n c hgone).1.2
      · exact ⟨c', by rw [hcell]; exact (cellAt_eq_some hshaped.sorted).mpr hc, rfl, fun hmark => hmark⟩
    · obtain ⟨hlow, hhigh⟩ := hadd.tiles.mem_range hc
      obtain ⟨-, hshared, hcase⟩ := hadd.gives n c' hc
      by_cases hres : ∃ b, cellAt old n = some ⟨b, true, false⟩
      · -- The reservation's block stays where it is.
        right
        obtain ⟨b, hb⟩ := hres
        have hkeep : cellAt old n = some ⟨c'.block, true, false⟩ := by
          rcases hcase with hkeep | ⟨hnot, -⟩
          · exact hkeep
          · exact absurd hb (hnot b)
        constructor
        · intro c hgone
          obtain ⟨⟨hc, -⟩, hflags⟩ := hout n c hgone
          obtain rfl := Option.some.inj (((cellAt_eq_some hold).mpr hc).symm.trans hkeep)
          exact hflags ⟨rfl, rfl⟩
        · refine ⟨⟨c'.block, true, false⟩, ?_, rfl, by simp⟩
          rw [hcell, hinside n hlow hhigh, hkeep]
      · left
        rw [freshCells, if_neg hres]
        exact (cellAt_eq_some hadditions).mpr hc

structure Applied (v v' : FileVolume) (id : ObjectId) (now : Timespec) (newSize : Nat) (bytes : Nat → UInt8)
    (mapped : Nat → Prop) (object staged : FileObject) : Prop where
  found : v.objects id = some object
  file : object.record.objectType = .file
  edits : Edits v v' id staged bytes
  record : Staged v object newSize true now now staged
  mapped_iff : ∀ n, (∃ c, cellAt staged.layout n = some c) ↔ mapped n

def protectionAfter (object : FileObject) (limits : Option FileEditLimits) : Nat :=
  if localTree object limits then object.record.protection else Names.archiveCleared object.record.protection

theorem overwriteInPlace_eq_true {first stop endOffset : Nat} (h : overwriteInPlace v object old first stop endOffset = true) :
    endOffset ≤ object.record.sizeBytes ∧
      ∀ n, first ≤ n → n < stop → ∃ c, cellAt old n = some c ∧ c.unwritten = false ∧ c.shared = false := by
  rw [overwriteInPlace, decide_eq_true_eq] at h
  obtain ⟨-, -, hsize, hall⟩ := h
  refine ⟨hsize, fun n hlow hhigh => ?_⟩
  have hany := hall n (mem_range'_1.mpr ⟨hlow, by omega⟩)
  cases he : extentAt old n with
  | none =>
    rw [he] at hany
    cases hany
  | some e =>
    rw [he] at hany
    have hplain : e.Plain := of_decide_eq_true hany
    exact ⟨e.cell n, by rw [cellAt, he, Option.map_some], hplain⟩

theorem runTx_eq_ok {α : Type} {x : TxM α} {result : α × FileTx} (h : runTx x tx = .ok result) :
    x tx = .ok result.1 result.2 := by
  rw [runTx] at h
  split at h
  · rename_i hx
    rw [← Except.ok.inj h]
    exact hx
  · cases h

section Ranges

variable (hv : Valid v) (hobj : v.objects id = some object) (hfile : object.record.objectType = .file)
  (hfirst : first = offset / v.blockSize) (hstop : stop = divCeil (offset + content.length) v.blockSize)
  (hinside : ∀ n, first ≤ n → n < stop → cellAt object.layout n = cellAt old n)

include hv hobj hfile hfirst hstop hinside

/-- A write whose blocks go to cells that only this file holds, one for each block it touches. -/
theorem overwrite_edits {f : Nat → Nat}
    (hcommit : commit v a tx ((List.range' first (stop - first)).map fun n => (f n, mergedBytes v old offset content n))
      [(id, staged)] = .ok v') (hstaged : staged.Shaped) (hstagedFile : staged.record.objectType = .file)
    (hsize : staged.record.sizeBytes = max object.record.sizeBytes (offset + content.length))
    (hkept : DataKept v tx) (hheld : Held (recelled (cellOf v) id staged.layout) tx)
    (hcells : ∀ n, first ≤ n → n < stop → ∃ c, cellAt staged.layout n = some c ∧ c.unwritten = false ∧ c.block = f n)
    (hout : ∀ n, ¬(first ≤ n ∧ n < stop) → cellAt staged.layout n = cellAt object.layout n)
    (hown : ∀ x c, cellOf v x = some c → ∀ m, first ≤ m → m < stop → c.block = f m → x = (id, m))
    (hinj : ∀ n m, first ≤ n → n < stop → first ≤ m → m < stop → f n = f m → n = m) :
    Edits v v' id staged (patched (byteAt v id) offset content) := by
  obtain ⟨hcomm, -, -⟩ := commit_eq_ok hcommit
  have hcell := cellOf_file hobj hfile
  have hmem : ∀ b, b ∈ ((List.range' first (stop - first)).map fun n =>
      (f n, mergedBytes v old offset content n)).map Prod.fst ↔ ∃ n, (first ≤ n ∧ n < stop) ∧ f n = b := by
    intro b
    simp only [map_map, mem_map, mem_range'_1, comp_apply]
    constructor
    · rintro ⟨n, hn, hb⟩
      exact ⟨n, ⟨hn.1, by omega⟩, hb⟩
    · rintro ⟨n, hn, hb⟩
      exact ⟨n, ⟨hn.1, by omega⟩, hb⟩
  have hnodup : (((List.range' first (stop - first)).map fun n =>
      (f n, mergedBytes v old offset content n)).map Prod.fst).Nodup := by
    rw [map_map]
    apply List.Nodup.map_on _ (nodup_range' ..)
    intro n hn m hm heq
    rw [mem_range'_1] at hn hm
    exact hinj n m hn.1 (by omega) hm.1 (by omega) heq
  have hdisk : ∀ n, first ≤ n → n < stop → v'.disk (f n) = mergedBytes v old offset content n := by
    intro n hlow hhigh
    apply hcomm.written hnodup
    exact mem_map.mpr ⟨n, mem_range'_1.mpr ⟨hlow, by omega⟩, rfl⟩
  have htouched : ∀ n, first ≤ n → n < stop →
      offset < n * v.blockSize + v.blockSize ∧ n * v.blockSize < offset + content.length := by
    intro n hlow hhigh
    exact touched hv.blockSize (hfirst ▸ hlow) (hstop ▸ hhigh)
  have hsame : ∀ n c, ¬(first ≤ n ∧ n < stop) → cellAt object.layout n = some c → v'.disk c.block = v.disk c.block := by
    intro n c hn hc
    rw [← hcell] at hc
    refine hcomm.disk_eq hv hkept hc fun hwritten => ?_
    obtain ⟨m, hm, hblk⟩ := (hmem _).mp hwritten
    have heq := hown (id, n) c hc m hm.1 hm.2 hblk.symm
    exact hn ((Prod.mk.inj heq).2 ▸ hm)
  refine edits_of_commit hv hstagedFile hstaged hkept hheld ?_ ⟨?_, ?_, ?_⟩ hobj hcommit
  · intro other hoth n c hc hwritten
    obtain ⟨m, hm, hblk⟩ := (hmem _).mp hwritten
    exact hoth (Prod.mk.inj (hown (other, n) c hc m hm.1 hm.2 hblk.symm)).1
  · intro n j hj
    by_cases hn : first ≤ n ∧ n < stop
    · obtain ⟨c, hc, hwritten, hblk⟩ := hcells n hn.1 hn.2
      obtain ⟨hlow, hhigh⟩ := htouched n hn.1 hn.2
      have hbyte : cellByte v'.disk (cellAt staged.layout n) j = (mergedBytes v old offset content n).getD j 0 := by
        rw [hc, ← hdisk n hn.1 hn.2, ← hblk]
        simp [cellByte, hwritten]
      rw [hbyte, (mergedBytes_spec hlow hhigh).2 j hj, patched, patched, byteAt_eq hv.blockSize hj, hcell,
        hinside n hn.1 hn.2]
    · have houtside : ¬(offset ≤ n * v.blockSize + j ∧ n * v.blockSize + j < offset + content.length) := by
        rintro ⟨hlow, hhigh⟩
        have hin := touched_of_mem hj hlow hhigh
        rw [← hfirst, ← hstop] at hin
        exact hn hin
      rw [hout n hn, patched, if_neg houtside, byteAt_eq hv.blockSize hj, hcell]
      cases hc : cellAt object.layout n with
      | none => rfl
      | some c => exact cellByte_congr rfl (hsame n c hn hc) j
  · intro n c hc hwritten
    by_cases hn : first ≤ n ∧ n < stop
    · obtain ⟨c', hc', -, hblk⟩ := hcells n hn.1 hn.2
      obtain ⟨hlow, hhigh⟩ := htouched n hn.1 hn.2
      obtain rfl := Option.some.inj (hc.symm.trans hc')
      rw [hblk, hdisk n hn.1 hn.2]
      exact (mergedBytes_spec hlow hhigh).1
    · rw [hout n hn] at hc
      rw [hsame n c hn hc]
      exact hv.lengths (id, n) c ((hcell n).trans hc) hwritten
  · intro i hi
    rw [hsize] at hi
    rw [patched, if_neg (by omega)]
    exact hv.tail id object hobj hfile i (by omega)

theorem write_in_place (hplace : overwriteInPlace v object old first stop (offset + content.length) = true)
    (hstaged : staged.Shaped) (hstagedFile : staged.record.objectType = .file)
    (hsize : staged.record.sizeBytes = object.record.sizeBytes)
    (hgives : ∀ n c, Gives staged.layout n c ↔ Gives object.layout n c) (hcommit : commit v a (begin v a)
      (((List.range' first (stop - first)).map fun n => ((cellAt old n).map Cell.block).getD 0).zip
        ((List.range' first (stop - first)).map (mergedBytes v old offset content))) [(id, staged)] = .ok v') :
    Edits v v' id staged (patched (byteAt v id) offset content) ∧
      ∀ n, first ≤ n → n < stop → ∃ c, cellAt object.layout n = some c := by
  obtain ⟨hend, hplain⟩ := overwriteInPlace_eq_true hplace
  have hshaped := hv.shaped id object hobj hfile
  have hcell := cellOf_file hobj hfile
  have hsame : ∀ n, cellAt staged.layout n = cellAt object.layout n :=
    fun n => cellAt_eq_of_gives hstaged.sorted hshaped.sorted (hgives n)
  have hcells : recelled (cellOf v) id staged.layout = cellOf v := by
    funext key
    obtain ⟨other, n⟩ := key
    rw [recelled]
    split_ifs with hoth
    · rw [hsame, ← hcell, ← hoth]
    · rfl
  -- Every block of the range is private to this file.
  have hprivate : ∀ n, first ≤ n → n < stop → ∃ c, cellOf v (id, n) = some c ∧ c.unwritten = false ∧ c.shared = false ∧
      c.block = ((cellAt old n).map Cell.block).getD 0 := by
    intro n hlow hhigh
    obtain ⟨c, hc, hwritten, hshared⟩ := hplain n hlow hhigh
    refine ⟨c, ?_, hwritten, hshared, ?_⟩
    · rw [hcell, hinside n hlow hhigh, hc]
    · rw [hc]
      rfl
  have hown : ∀ x c, cellOf v x = some c → ∀ m, first ≤ m → m < stop →
      c.block = ((cellAt old m).map Cell.block).getD 0 → x = (id, m) := by
    intro x c hc m hlow hhigh hblk
    obtain ⟨c', hc', -, hshared, hblock'⟩ := hprivate m hlow hhigh
    exact (hv.held.eq_of_alone hc' hc (hblk.trans hblock'.symm) hshared).symm
  rw [zip_map'] at hcommit
  refine ⟨?_, fun n hlow hhigh => ?_⟩
  · apply overwrite_edits hv hobj hfile hfirst hstop hinside hcommit hstaged hstagedFile
    · rw [hsize]
      omega
    · exact dataKept_begin v a
    · rw [hcells]
      exact hv.held.begin a
    · intro n hlow hhigh
      obtain ⟨c, hc, hwritten, -, hblk⟩ := hprivate n hlow hhigh
      exact ⟨c, by rw [hsame, ← hcell, hc], hwritten, hblk⟩
    · exact fun n _ => hsame n
    · exact hown
    · intro n m hlow hhigh hlow' hhigh' heq
      obtain ⟨c, hc, -, -, hblk⟩ := hprivate n hlow hhigh
      exact (Prod.mk.inj (hown (id, n) c hc m hlow' hhigh' (hblk.trans heq))).2
  · obtain ⟨c, hc, -⟩ := hprivate n hlow hhigh
    exact ⟨c, by rw [← hcell, hc]⟩

theorem write_cow {u : Unit} (hold : Sorted old)
    (hadd : Additions (begin v a) tx old first stop additions) (hrem : Replaced old first stop [] kept removed)
    (hstaged : staged.Shaped) (hstagedFile : staged.record.objectType = .file)
    (hsize : staged.record.sizeBytes = max object.record.sizeBytes (offset + content.length))
    (hgives : ∀ n c, Gives staged.layout n c ↔
      (Gives object.layout n c ∧ ¬(first ≤ n ∧ n < stop)) ∨ Gives additions n c)
    (hrun : (removed.filter fun e => ¬e.Reserved).forM (releaseDataRun v) tx = .ok u tx')
    (hcommit : commit v a tx' ((physicalBlocks additions).zip
      ((List.range' first (stop - first)).map (mergedBytes v old offset content))) [(id, staged)] = .ok v') :
    Edits v v' id staged (patched (byteAt v id) offset content) := by
  have hshaped := hv.shaped id object hobj hfile
  have hcell := cellOf_file hobj hfile
  have hbegin := hv.held.begin a
  have hadditions := hadd.tiles.sorted
  obtain ⟨hheld, hframe⟩ := write_held hv hobj hfile hinside hadd hrem hstaged.sorted hgives hold hrun
  have hf : ∀ n c, Gives additions n c → ((cellAt additions n).map Cell.block).getD 0 = c.block := by
    intro n c hc
    rw [(cellAt_eq_some hadditions).mpr hc]
    rfl
  rw [hadd.tiles.physicalBlocks hf, zip_map'] at hcommit
  -- A block the write puts in is new, or a reservation that this place alone holds.
  have hown : ∀ x c, cellOf v x = some c → ∀ m, first ≤ m → m < stop →
      c.block = ((cellAt additions m).map Cell.block).getD 0 → x = (id, m) := by
    intro x c hc m hlow hhigh hblk
    obtain ⟨c', hc'⟩ := hadd.tiles.exists_gives hlow hhigh
    rw [hf m c' hc'] at hblk
    obtain ⟨-, -, hkeep | ⟨-, hfree, -⟩⟩ := hadd.gives m c' hc'
    · have hplace : cellOf v (id, m) = some ⟨c'.block, true, false⟩ := by rw [hcell, hinside m hlow hhigh, hkeep]
      exact (hv.held.eq_of_alone hplace hc hblk rfl).symm
    · rw [← hblk] at hfree
      exact absurd hfree (hbegin.not_free hc)
  apply overwrite_edits hv hobj hfile hfirst hstop hinside hcommit hstaged hstagedFile hsize
  · exact ((dataKept_begin v a).takes hadd.takes).release hframe
  · exact hheld
  · intro n hlow hhigh
    obtain ⟨c, hc⟩ := hadd.tiles.exists_gives hlow hhigh
    refine ⟨c, (cellAt_eq_some hstaged.sorted).mpr ((hgives n c).mpr (.inr hc)), (hadd.gives n c hc).1, ?_⟩
    rw [hf n c hc]
  · intro n hn
    apply cellAt_eq_of_gives hstaged.sorted hshaped.sorted
    intro c
    rw [hgives]
    constructor
    · rintro (⟨hc, -⟩ | hc)
      · exact hc
      · exact absurd (hadd.tiles.mem_range hc) hn
    · exact fun hc => .inl ⟨hc, hn⟩
  · exact hown
  · intro n m hlow hhigh hlow' hhigh' heq
    obtain ⟨c, hc⟩ := hadd.tiles.exists_gives hlow hhigh
    obtain ⟨c', hc'⟩ := hadd.tiles.exists_gives hlow' hhigh'
    rw [hf n c hc, hf m c' hc'] at heq
    have hres : ∀ n c, Gives additions n c → first ≤ n → n < stop →
        cellOf v (id, n) = some ⟨c.block, true, false⟩ ∨ (begin v a).use c.block = .free := by
      intro n c hc hlow hhigh
      obtain ⟨-, -, hkeep | ⟨-, hfree, -⟩⟩ := hadd.gives n c hc
      · exact .inl (by rw [hcell, hinside n hlow hhigh, hkeep])
      · exact .inr hfree
    rcases hres n c hc hlow hhigh with hplace | hfree
    · have hpair := hown (id, n) _ hplace m hlow' hhigh' (by rw [hf m c' hc', ← heq])
      exact (Prod.mk.inj hpair).2
    · rcases hres m c' hc' hlow' hhigh' with hplace | hfree'
      · have hpair := hown (id, m) _ hplace n hlow hhigh (by rw [hf n c hc, heq])
        exact (Prod.mk.inj hpair).2.symm
      · exact hadd.distinct n m c c' hc hc' heq hfree hfree'

end Ranges

theorem writeFileAtWithLimits_eq_ok {now : Timespec} {limits : Option FileEditLimits} (hv : Valid v) (hcont : content ≠ [])
    (h : writeFileAtWithLimits v a id offset content now limits = .ok v') :
    ∃ object staged, Applied v v' id now (max object.record.sizeBytes (offset + content.length))
        (patched (byteAt v id) offset content)
        (fun n => (offset / v.blockSize ≤ n ∧ n < divCeil (offset + content.length) v.blockSize) ∨
          ∃ c, cellAt object.layout n = some c) object staged ∧
      staged.record.protection = protectionAfter object limits := by
  replace h := after_check h
  rw [if_neg hcont] at h
  obtain ⟨object, hobj, h⟩ := of_bind h
  obtain ⟨hobj, hfile⟩ := fileObject_eq_ok hobj
  replace h := after_check h
  replace h := after_check h
  obtain ⟨old, hload, h⟩ := of_bind h
  obtain ⟨blocks, hblks, h⟩ := of_bind h
  obtain ⟨generation, -, h⟩ := of_bind h
  have hshaped := hv.shaped id object hobj hfile
  obtain ⟨front, back, hloaded⟩ := loadForEdit_eq_ok hshaped hload
  have hfull := hloaded.full hv hobj hfile
  have hold := hloaded.sorted hshaped
  obtain ⟨-, rfl⟩ := mapM_eq_map (fun n block => mergedBlock_eq_ok hfull) hblks
  have hinside : ∀ n, offset / v.blockSize ≤ n → n < divCeil (offset + content.length) v.blockSize →
      cellAt object.layout n = cellAt old n := fun n hlow hhigh => hloaded.cellAt_eq hshaped hlow hhigh
  have hcell := cellOf_file hobj hfile
  split_ifs at h with hplace
  · -- The blocks are overwritten where they are.
    obtain ⟨staged, hstage, h⟩ := of_bind h
    obtain ⟨hend, -⟩ := overwriteInPlace_eq_true hplace
    obtain ⟨hrec, hgives, hprot⟩ := stageEdit_eq_ok (fun _ => False) [] hshaped hload hold
      (by simp) (fun n c hc => absurd hc gives_nil) (by simp [gives_nil]) hstage
    have hlay : ∀ n c, Gives staged.layout n c ↔ Gives object.layout n c := by
      intro n c
      rw [hgives]
      simp [gives_nil]
    obtain ⟨hedits, hmapped⟩ := write_in_place hv hobj hfile rfl rfl hinside hplace hrec.shaped
      (hrec.objectType.trans hfile) hrec.sizeBytes hlay h
    refine ⟨object, staged, ⟨hobj, hfile, hedits, ?_, ?_⟩, hprot⟩
    · rw [max_eq_left hend]
      exact hrec
    · intro n
      rw [cellAt_eq_of_gives hrec.shaped.sorted hshaped.sorted (hlay n)]
      constructor
      · exact .inr
      · rintro (hn | hc)
        · exact hmapped n hn.1 hn.2
        · exact hc
  · obtain ⟨⟨additions, tx⟩, hrounds, h⟩ := of_bind h
    replace h := after_check h
    obtain ⟨⟨kept, removed⟩, hrepl, h⟩ := of_bind h
    obtain ⟨new, hnew, h⟩ := of_bind h
    replace h := after_check h
    obtain ⟨staged, hstage, h⟩ := of_bind h
    obtain ⟨⟨u, tx'⟩, hrelease, h⟩ := of_bind h
    have hused : ∀ n c, cellAt old n = some c → (begin v a).use c.block = .data := by
      intro n c hc
      apply (hv.held.begin a).owned (id, n) c
      rw [hcell, cellAt_eq_some hshaped.sorted, hloaded.layout, gives_append, gives_append]
      exact .inr (.inl ((cellAt_eq_some hold).mp hc))
    have hle : offset / v.blockSize ≤ divCeil (offset + content.length) v.blockSize :=
      div_le_divCeil hv.blockSize (Nat.le_add_right _ _)
    have hadd := writeRounds_additions (runTx_eq_ok hrounds) hold hused le_rfl hle (.nil _ old _)
    have hrem := replaceLogicalRange_spec hold (by simp) hrepl
    have hjoined : Coalesced (kept ++ additions) new := by
      apply coalesceExtents_spec _ hnew
      intro e he
      rcases mem_append.mp he with he | he
      · exact hrem.sorted.proper e he
      · exact hadd.tiles.proper e he
    have hwindow : ∀ n c, Gives new n c ↔ (Gives old n c ∧
        ¬(offset / v.blockSize ≤ n ∧ n < divCeil (offset + content.length) v.blockSize)) ∨ Gives additions n c := by
      intro n c
      rw [hjoined.gives, gives_append, hrem.kept_gives]
    obtain ⟨hrec, hgives, hprot⟩ := stageEdit_eq_ok _ additions hshaped hload hjoined.sorted
      (fun n hn => hn) (fun n c hc => hadd.tiles.mem_range hc) hwindow hstage
    have hedits := write_cow hv hobj hfile rfl rfl hinside hold hadd hrem hrec.shaped
      (hrec.objectType.trans hfile) hrec.sizeBytes hgives (runTx_eq_ok hrelease) h
    refine ⟨object, staged, ⟨hobj, hfile, hedits, hrec, fun n => ?_⟩, hprot⟩
    simp only [cellAt_eq_some hrec.shaped.sorted, cellAt_eq_some hshaped.sorted, hgives]
    constructor
    · rintro ⟨c, ⟨hc, -⟩ | hc⟩
      · exact .inr ⟨c, hc⟩
      · exact .inl (hadd.tiles.mem_range hc)
    · rintro (hn | ⟨c, hc⟩)
      · obtain ⟨c, hc⟩ := hadd.tiles.exists_gives hn.1 hn.2
        exact ⟨c, .inr hc⟩
      · by_cases hn : offset / v.blockSize ≤ n ∧ n < divCeil (offset + content.length) v.blockSize
        · obtain ⟨c, hc⟩ := hadd.tiles.exists_gives hn.1 hn.2
          exact ⟨c, .inr hc⟩
        · exact ⟨c, .inl ⟨hc, hn⟩⟩

end Writes

end Afsplus.FileData
