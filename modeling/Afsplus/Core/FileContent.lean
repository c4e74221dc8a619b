import Afsplus.Core.FileLayout
import Afsplus.Core.FileRuns

/-!
# The content of files

A byte of a file is a byte of the cell its block lies in; holes and unwritten cells are zeros. A volume is valid when
its ledger of cells is right, its layouts are well formed and every byte behind the end of a file is zero. An edit of
one file that keeps the ledger right and writes only to blocks nobody else holds leaves a valid volume in which the
other files read as before.
-/

namespace Afsplus.FileData

open Fallible Extents ByteImage
open List hiding min max

def cellOf (v : FileVolume) (x : ObjectId × Nat) : Option Cell :=
  match v.objects x.1 with
  | some object => if object.record.objectType = .file then cellAt object.layout x.2 else none
  | none => none

def cellByte (disk : Nat → Bytes) (cell : Option Cell) (j : Nat) : UInt8 :=
  match cell with
  | some c => if c.unwritten then 0 else (disk c.block).getD j 0
  | none => 0

def byteAt (v : FileVolume) (id : ObjectId) (i : Nat) : UInt8 :=
  cellByte v.disk (cellOf v (id, i / v.blockSize)) (i % v.blockSize)

def fileBytes (v : FileVolume) (id : ObjectId) : Option Bytes :=
  match v.objects id with
  | some object => if object.record.objectType = .file then some (image (byteAt v id) object.record.sizeBytes) else none
  | none => none

structure Valid (v : FileVolume) : Prop where
  blockSize : 0 < v.blockSize
  held : Held (cellOf v) ⟨v.use, v.refs⟩
  shaped : ∀ id object, v.objects id = some object → object.record.objectType = .file → object.Shaped
  tail : ∀ id object, v.objects id = some object → object.record.objectType = .file →
    ∀ i, object.record.sizeBytes ≤ i → byteAt v id i = 0
  lengths : ∀ x c, cellOf v x = some c → c.unwritten = false → (v.disk c.block).length = v.blockSize
  fresh : ∀ id, v.nextObjectId ≤ id → v.objects id = none

section Cells

variable {v : FileVolume} {id : ObjectId} {object : FileObject} {n : Nat} {extents : List Extent} {block : Bytes}
  {cell : Option Cell}

theorem cellOf_file (hobj : v.objects id = some object) (hfile : object.record.objectType = .file) (n : Nat) :
    cellOf v (id, n) = cellAt object.layout n := by
  simp [cellOf, hobj, hfile]

theorem fileBytes_file (hobj : v.objects id = some object) (hfile : object.record.objectType = .file) :
    fileBytes v id = some (image (byteAt v id) object.record.sizeBytes) := by
  simp [fileBytes, hobj, hfile]

theorem fileBytes_congr {v' : FileVolume} (hobj : v'.objects id = v.objects id)
    (hbytes : ∀ i, byteAt v' id i = byteAt v id i) : fileBytes v' id = fileBytes v id := by
  have heq : byteAt v' id = byteAt v id := funext hbytes
  simp only [fileBytes, hobj, heq]

theorem cellByte_congr {disk disk' : Nat → Bytes} {c c' : Cell} (hunwr : c'.unwritten = c.unwritten)
    (hblk : disk' c'.block = disk c.block) (j : Nat) : cellByte disk' (some c') j = cellByte disk (some c) j := by
  simp only [cellByte, hunwr, hblk]

def cellBlock (v : FileVolume) (cell : Option Cell) : Bytes := image (cellByte v.disk cell) v.blockSize

theorem zeroBlock_eq (hzero : ∀ j, cellByte v.disk cell j = 0) : zeroBlock v.blockSize = cellBlock v cell := by
  rw [zeroBlock, cellBlock, image]
  apply ext_getElem
  · simp
  · intro j hj hj'
    simp [hzero]

theorem cellBlock_written {c : Cell} (hwritten : c.unwritten = false) (hlen : (v.disk c.block).length = v.blockSize) :
    v.disk c.block = cellBlock v (some c) := by
  apply ext_getElem?
  intro j
  by_cases hj : j < v.blockSize
  · rw [cellBlock, getElem?_image hj, getElem?_eq_getElem (by omega)]
    simp [cellByte, hwritten, List.getD, getElem?_eq_getElem (hlen ▸ hj)]
  · rw [getElem?_eq_none (by omega), getElem?_eq_none (by simpa [cellBlock] using hj)]

/-- The blocks of a layout that are written have the size of a block. -/
def Full (v : FileVolume) (extents : List Extent) : Prop :=
  ∀ n c, cellAt extents n = some c → c.unwritten = false → (v.disk c.block).length = v.blockSize

theorem readLayoutBlock_eq_ok (hfull : Full v extents) (h : readLayoutBlock v extents n = .ok block) :
    block = cellBlock v (cellAt extents n) := by
  rw [readLayoutBlock] at h
  cases hlast : (extents.takeWhile fun e => e.logicalStart ≤ n).getLast? with
  | none =>
    rw [hlast] at h
    obtain rfl := Except.ok.inj h
    apply zeroBlock_eq
    simp [cellByte, cellAt, extentAt, hlast]
  | some e =>
    rw [hlast] at h
    obtain ⟨stop, hstop, h⟩ := of_bind h
    obtain ⟨rfl, -⟩ := logicalEnd_eq_ok hstop
    have hcell : cellAt extents n = if n < e.stop then some (e.cell n) else none := by
      rw [cellAt, extentAt, hlast, Option.filter_some]
      by_cases hn : n < e.stop <;> simp [hn]
    split_ifs at h with hout
    · obtain rfl := pure_ok.mp h
      apply zeroBlock_eq
      intro j
      rw [hcell]
      split_ifs with hn
      · have hunwr : e.unwritten = true := hout.resolve_left (not_le.mpr hn)
        simp [cellByte, Extent.cell, hunwr]
      · rfl
    · replace h := after_check h
      obtain rfl := pure_ok.mp h
      simp only [not_or, not_le, Bool.not_eq_true] at hout
      rw [if_pos hout.1] at hcell
      rw [hcell]
      exact cellBlock_written hout.2 (hfull n _ hcell hout.2)

theorem filter_eq_takeWhile (h : Sorted extents) (n : Nat) :
    (extents.filter fun e => ¬n < e.logicalStart) = extents.takeWhile fun e => e.logicalStart ≤ n := by
  induction extents with
  | nil => rfl
  | cons e rest ih =>
    by_cases he : e.logicalStart ≤ n
    · rw [takeWhile_cons_of_pos (by simpa using he), filter_cons_of_pos (by simpa using he), ih h.tail]
    · rw [takeWhile_cons_of_neg (by simpa using he), filter_cons_of_neg (by simpa using he),
        filter_eq_nil_iff]
      intro other hoth
      have hlt := (pairwise_cons.mp h.start_lt).1 other hoth
      simp only [not_lt, decide_eq_true_eq, not_le]
      omega

theorem floor_eq {tree : SortedMap Nat Extent} (hstores : Stores tree tree.values) (hsort : Sorted tree.values) (n : Nat) :
    (tree.floor? n).map Prod.snd = (tree.values.takeWhile fun e => e.logicalStart ≤ n).getLast? := by
  rw [SortedMap.floor?, hstores, filter_map, getLast?_map, Option.map_map, ← filter_eq_takeWhile hsort]
  exact congrFun Option.map_id _

theorem mappedBlock_eq_ok (hv : Valid v) (hobj : v.objects id = some object)
    (hfile : object.record.objectType = .file) (h : mappedBlock v id object n = .ok block) :
    block = cellBlock v (cellOf v (id, n)) := by
  have hshaped := hv.shaped id object hobj hfile
  have hlens := hv.lengths (id, n)
  rw [cellOf_file hobj hfile] at hlens ⊢
  rw [mappedBlock] at h
  split_ifs at h with htree hmapped
  · have hlay := layout_of_tree htree
    have hfloor := floor_eq hshaped.keyed (hlay ▸ hshaped.sorted) n
    cases hfound : object.tree.floor? n with
    | none =>
      rw [hfound] at h hfloor
      obtain rfl := Except.ok.inj h
      apply zeroBlock_eq
      simp [cellByte, cellAt, extentAt, hlay, ← hfloor]
    | some entry =>
      obtain ⟨key, e⟩ := entry
      rw [hfound] at h hfloor
      obtain ⟨stop, hstop, h⟩ := of_bind h
      obtain ⟨rfl, -⟩ := logicalEnd_eq_ok hstop
      obtain rfl := pure_ok.mp h
      have hcell : cellAt object.layout n = if n < e.stop then some (e.cell n) else none := by
        rw [cellAt, extentAt, hlay, ← hfloor, Option.map_some, Option.filter_some]
        by_cases hn : n < e.stop <;> simp [hn]
      rw [hcell] at hlens ⊢
      split_ifs at hlens ⊢ with hwritten hn hn
      · exact cellBlock_written hwritten.2 (hlens _ rfl hwritten.2)
      · exact absurd hwritten.1 hn
      · apply zeroBlock_eq
        have hunwr : e.unwritten = true := by
          by_contra hfalse
          exact hwritten ⟨hn, by simpa using hfalse⟩
        simp [cellByte, Extent.cell, hunwr]
      · apply zeroBlock_eq
        simp [cellByte]
  · replace h := after_check h
    obtain rfl := pure_ok.mp h
    have hlay := layout_of_direct (by simpa using htree) rfl
    have hcell : cellAt object.layout n = some ⟨object.record.dataRoot + n, false, false⟩ := by
      rw [cellAt_eq_some hshaped.sorted, hlay, if_neg (by omega)]
      refine gives_singleton.mpr ⟨⟨Nat.zero_le n, ?_⟩, rfl⟩
      simpa [Extent.stop] using hmapped
    rw [hcell] at hlens ⊢
    exact cellBlock_written rfl (hlens _ rfl rfl)
  · obtain rfl := Except.ok.inj h
    have hlay := layout_of_direct (by simpa using htree) rfl
    have hcell : cellAt object.layout n = none := by
      rw [Option.eq_none_iff_forall_ne_some]
      intro c hc
      rw [cellAt_eq_some hshaped.sorted, hlay] at hc
      split_ifs at hc with hempty
      · exact gives_nil hc
      · obtain ⟨⟨-, hlt⟩, -⟩ := gives_singleton.mp hc
        exact hmapped (by simpa [Extent.stop] using hlt)
    rw [hcell]
    exact zeroBlock_eq (by simp [cellByte])

variable (hsize : 0 < v.blockSize)

include hsize

theorem le_divCeil_mul_blockSize (i : Nat) : i ≤ divCeil i v.blockSize * v.blockSize := by
  have hdiv := Nat.div_add_mod (i + v.blockSize - 1) v.blockSize
  have hmod := Nat.mod_lt (i + v.blockSize - 1) hsize
  rw [Nat.mul_comm] at hdiv
  rw [divCeil]
  omega

theorem divCeil_mul_blockSize_lt (i : Nat) : divCeil i v.blockSize * v.blockSize < i + v.blockSize := by
  have hdiv := Nat.div_mul_le_self (i + v.blockSize - 1) v.blockSize
  rw [divCeil]
  omega

theorem div_le_divCeil {offset stop : Nat} (hle : offset ≤ stop) :
    offset / v.blockSize ≤ divCeil stop v.blockSize := by
  have hfirst := Nat.div_mul_le_self offset v.blockSize
  have hlast := le_divCeil_mul_blockSize hsize stop
  apply Nat.le_of_mul_le_mul_right _ hsize
  omega

theorem byteAt_eq {j : Nat} (hj : j < v.blockSize) :
    byteAt v id (n * v.blockSize + j) = cellByte v.disk (cellOf v (id, n)) j := by
  rw [byteAt, Nat.mul_comm, Nat.mul_add_div hsize, Nat.div_eq_of_lt hj, Nat.add_zero, Nat.mul_add_mod,
    Nat.mod_eq_of_lt hj]

theorem slice_cellBlock {low high : Nat} (hlow : n * v.blockSize ≤ low)
    (hhigh : high ≤ n * v.blockSize + v.blockSize) :
    slice (cellBlock v (cellOf v (id, n))) (low - n * v.blockSize) (high - n * v.blockSize) =
      (List.range' low (high - low)).map (byteAt v id) := by
  rw [cellBlock, slice_image (by omega)]
  apply ext_getElem
  · simp only [length_map, length_range']
    omega
  · intro j hj hj'
    simp only [length_map, length_range'] at hj hj'
    simp only [getElem_map, getElem_range']
    rw [← byteAt_eq hsize (by omega)]
    congr 1
    omega

omit hsize

theorem readObject_eq_ok (h : readObject v id = .ok object) : v.objects id = some object := by
  rw [readObject] at h
  split at h
  · cases h
  · rename_i found hfound
    rw [hfound, Except.ok.inj h]

theorem fileObject_eq_ok (h : fileObject v id = .ok object) :
    v.objects id = some object ∧ object.record.objectType = .file := by
  obtain ⟨object', hread, h⟩ := of_bind h
  obtain ⟨hfile, h⟩ := of_refuse h
  obtain rfl := pure_ok.mp h
  exact ⟨readObject_eq_ok hread, not_not.mp hfile⟩

theorem readFileAt_eq_ok {offset wanted : Nat} {bytes : Bytes} (hv : Valid v)
    (h : readFileAt v id offset wanted = .ok bytes) :
    ∃ object, v.objects id = some object ∧ object.record.objectType = .file ∧
      bytes = ((image (byteAt v id) object.record.sizeBytes).drop offset).take wanted := by
  obtain ⟨object, hobj, h⟩ := of_bind h
  obtain ⟨hobj, hfile⟩ := fileObject_eq_ok hobj
  refine ⟨object, hobj, hfile, ?_⟩
  rw [take_drop_image]
  split_ifs at h with hempty
  · obtain rfl := pure_ok.mp h
    rw [show min (object.record.sizeBytes - offset) wanted = 0 by omega]
    rfl
  · obtain ⟨parts, hparts, h⟩ := of_bind h
    obtain rfl := pure_ok.mp h
    generalize hstop : offset + min (object.record.sizeBytes - offset) wanted = stop at hparts
    have hcnt : min (object.record.sizeBytes - offset) wanted = stop - offset := by omega
    have hpart : ∀ n part, readBlockPart v id object offset stop n = .ok part → True ∧ part =
        (List.range' (max offset (n * v.blockSize))
          (min stop (n * v.blockSize + v.blockSize) - max offset (n * v.blockSize))).map (byteAt v id) := by
      intro n part hpart
      obtain ⟨block, hblk, hpart⟩ := of_bind hpart
      obtain rfl := mappedBlock_eq_ok hv hobj hfile hblk
      obtain rfl := pure_ok.mp hpart
      exact ⟨trivial, slice_cellBlock hv.blockSize (le_max_right _ _) (min_le_right _ _)⟩
    obtain ⟨-, rfl⟩ := mapM_eq_map hpart hparts
    rw [flatten_blocks, hcnt]
    have hfirst := Nat.div_mul_le_self offset v.blockSize
    have hlast := le_divCeil_mul_blockSize hv.blockSize stop
    have hle : offset / v.blockSize ≤ divCeil stop v.blockSize := div_le_divCeil hv.blockSize (by omega)
    rw [Nat.add_sub_cancel' hle, max_eq_left hfirst, min_eq_left hlast]

end Cells

/-! ### Committing -/

section Commits

variable {v v' : FileVolume} {a : Answers} {tx tx' : FileTx} {writes : List (Nat × Bytes)}
  {updates : List (ObjectId × FileObject)}

variable {b : Nat} {disk : Nat → Bytes}

theorem writeAll_of_notMem (h : b ∉ writes.map Prod.fst) : writeAll disk writes b = disk b := by
  induction writes generalizing disk with
  | nil => rfl
  | cons write rest ih =>
    rw [map_cons, mem_cons, not_or] at h
    exact (ih h.2).trans (Function.update_of_ne h.1 _ _)

theorem writeAll_of_mem {block : Bytes}
    (hdist : (writes.map Prod.fst).Nodup) (h : (b, block) ∈ writes) : writeAll disk writes b = block := by
  induction writes generalizing disk with
  | nil => cases h
  | cons write rest ih =>
    obtain ⟨hfirst, hrest⟩ := nodup_cons.mp hdist
    rcases mem_cons.mp h with rfl | h
    · exact (writeAll_of_notMem hfirst).trans (Function.update_self _ _ _)
    · exact ih hrest h

structure Committed (v v' : FileVolume) (tx : FileTx) (writes : List (Nat × Bytes)) : Prop where
  blockSize : v'.blockSize = v.blockSize
  use : v'.use = tx.use
  refs : v'.refs = tx.refs
  kept : ∀ b, v.use b = .data → tx.use b ≠ .metadata → b ∉ writes.map Prod.fst → v'.disk b = v.disk b
  written : (writes.map Prod.fst).Nodup → ∀ b block, (b, block) ∈ writes → v'.disk b = block

theorem commit_eq_ok (h : commit v a tx writes updates = .ok v') :
    Committed v v' tx writes ∧ v'.nextObjectId = v.nextObjectId ∧ v'.objects = install v.objects updates := by
  rw [commit] at h
  split at h
  · cases h
  · obtain rfl := Except.ok.inj h
    refine ⟨⟨rfl, rfl, rfl, ?_, ?_⟩, rfl, rfl⟩
    · intro b _ hnot hout
      exact (writeAll_of_notMem hout).trans (if_neg fun htaken => hnot htaken.2)
    · exact fun hdist b block hmem => writeAll_of_mem hdist hmem

/-- Blocks in use for data stay so or are retired. -/
def DataKept (v : FileVolume) (tx : FileTx) : Prop := ∀ b, v.use b = .data → tx.use b = .data ∨ tx.use b = .quarantined

theorem dataKept_begin (v : FileVolume) (a : Answers) : DataKept v (begin v a) := by
  intro b hb
  left
  show turned a b (v.use b) = .data
  rw [hb]
  rfl

theorem DataKept.takes (h : DataKept v tx) (htakes : Takes tx tx') : DataKept v tx' := by
  intro b hb
  rcases htakes.use b with hsame | ⟨-, hdata⟩
  · rw [hsame]
    exact h b hb
  · exact .inl hdata

theorem DataKept.release (h : DataKept v tx) (hframe : ∀ b, tx'.use b = tx.use b ∨ tx'.use b = .quarantined) :
    DataKept v tx' := by
  intro b hb
  rcases hframe b with hsame | hretired
  · rw [hsame]
    exact h b hb
  · exact .inr hretired

theorem DataKept.not_metadata (h : DataKept v tx) (hb : v.use b = .data) : tx.use b ≠ .metadata := by
  rcases h b hb with hdata | hretired
  · rw [hdata]
    decide
  · rw [hretired]
    decide

theorem cellOf_congr {id : ObjectId} (h : v'.objects id = v.objects id) (n : Nat) : cellOf v' (id, n) = cellOf v (id, n) := by
  simp only [cellOf, h]

theorem Committed.disk_eq (hcomm : Committed v v' tx writes) (hv : Valid v) (hkept : DataKept v tx)
    {x : ObjectId × Nat} {c : Cell} (hc : cellOf v x = some c) (hout : c.block ∉ writes.map Prod.fst) :
    v'.disk c.block = v.disk c.block := by
  have hdata : v.use c.block = .data := hv.held.owned x c hc
  exact hcomm.kept _ hdata (hkept.not_metadata hdata) hout

theorem edited_valid (hv : Valid v) (hcommit : Committed v v' tx writes) (hkept : DataKept v tx)
    (hheld : Held (cellOf v') tx) {S : Set ObjectId} (hout : ∀ id, id ∉ S → v'.objects id = v.objects id)
    (huntouched : ∀ id, id ∉ S → ∀ n c, cellOf v (id, n) = some c → c.block ∉ writes.map Prod.fst)
    (hin : ∀ id ∈ S, ∃ object, v'.objects id = some object ∧ object.Shaped ∧
      (∀ i, object.record.sizeBytes ≤ i → byteAt v' id i = 0) ∧
      ∀ n c, cellOf v' (id, n) = some c → c.unwritten = false → (v'.disk c.block).length = v.blockSize)
    (hfresh : ∀ id, v'.nextObjectId ≤ id → v'.objects id = none) :
    Valid v' ∧ ∀ id, id ∉ S → ∀ i, byteAt v' id i = byteAt v id i := by
  have hdisk : ∀ id, id ∉ S → ∀ n c, cellOf v (id, n) = some c → v'.disk c.block = v.disk c.block :=
    fun id hid n c hc => hcommit.disk_eq hv hkept hc (huntouched id hid n c hc)
  have hbytes : ∀ id, id ∉ S → ∀ i, byteAt v' id i = byteAt v id i := by
    intro id hid i
    rw [byteAt, byteAt, hcommit.blockSize, cellOf_congr (hout id hid)]
    cases hc : cellOf v (id, i / v.blockSize) with
    | none => rfl
    | some c => exact cellByte_congr rfl (hdisk id hid _ c hc) _
  refine ⟨⟨?_, ?_, ?_, ?_, ?_, hfresh⟩, hbytes⟩
  · rw [hcommit.blockSize]
    exact hv.blockSize
  · rw [hcommit.use, hcommit.refs]
    exact hheld
  · intro id object hobj hfile
    by_cases hid : id ∈ S
    · obtain ⟨object', hobj', hshaped, -, -⟩ := hin id hid
      obtain rfl := Option.some.inj (hobj'.symm.trans hobj)
      exact hshaped
    · exact hv.shaped id object ((hout id hid).symm.trans hobj) hfile
  · intro id object hobj hfile i hi
    by_cases hid : id ∈ S
    · obtain ⟨object', hobj', -, htail, -⟩ := hin id hid
      obtain rfl := Option.some.inj (hobj'.symm.trans hobj)
      exact htail i hi
    · rw [hbytes id hid]
      exact hv.tail id object ((hout id hid).symm.trans hobj) hfile i hi
  · rintro ⟨id, n⟩ c hc hwritten
    rw [hcommit.blockSize]
    by_cases hid : id ∈ S
    · obtain ⟨_, -, -, -, hlens⟩ := hin id hid
      exact hlens n c hc hwritten
    · rw [cellOf_congr (hout id hid)] at hc
      rw [hdisk id hid n c hc]
      exact hv.lengths _ c hc hwritten

end Commits

end Afsplus.FileData
