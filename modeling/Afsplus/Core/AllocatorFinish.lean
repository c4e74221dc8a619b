import Afsplus.Core.AllocatorCalls

/-!
# What the allocator publishes

`finish` writes every dirty page and the descriptors of the regions they are in, each to a slot the
committed state does not use, and hands out the records that select them. Read back from a device with
these writes on it, the allocation state agrees again, with the transaction's bits.
-/

namespace Afsplus

open Fallible BitmapPage Geometry RegionDescriptor
open List hiding set
open Bitmaps (loadRegionDescriptor loadBitmapPage loadRegionDescriptor_eq_ok loadBitmapPage_eq_ok)

namespace TxAllocator

variable {tx : TxAllocator}

private theorem chooseSlot_eq_some {slotCount current slot : Nat} {other : Option Nat}
    (h : chooseSlot slotCount current other = some slot) : slot < slotCount ∧ slot ≠ current := by
  have hmem := List.mem_range.mp (mem_of_find?_eq_some h)
  have hfound := find?_some h
  simp only [decide_eq_true_eq] at hfound
  exact ⟨hmem, hfound.1⟩

def bitmapSlot (tx : TxAllocator) (region page : Nat) (binding : BitmapBinding) : Option Nat :=
  chooseSlot bitmapSlots binding.slot (tx.committed.otherDescriptors.bind fun descriptors =>
    (descriptors region).pages[page]?.map BitmapBinding.slot)

variable {region page : Nat}

private theorem finishPage_eq_ok {binding binding' : BitmapBinding} {writes : List (Nat × Bytes)}
    (h : tx.finishPage region page binding = .ok (binding', writes)) :
    ((region, page) ∉ tx.dirtyPages ∧ binding' = binding ∧ writes = []) ∨
      ((region, page) ∈ tx.dirtyPages ∧ ∃ slot block, tx.bitmapSlot region page binding = some slot ∧
        (tx.workingPage region page).encode tx.geo.blockSize tx.newGeneration = .ok block ∧
        binding' = ⟨slot, (tx.workingPage region page).freeBlocks, tx.newGeneration⟩ ∧
        writes = [(tx.geo.bitmapSlotLba region page slot, block)]) := by
  unfold finishPage at h
  by_cases hdirty : (region, page) ∈ tx.dirtyPages
  · rw [if_pos hdirty] at h
    dsimp only at h
    refine .inr ⟨hdirty, ?_⟩
    cases hslot : tx.bitmapSlot region page binding with
    | none =>
      rw [bitmapSlot] at hslot
      rw [hslot] at h
      cases h
    | some slot =>
      rw [bitmapSlot] at hslot
      rw [hslot] at h
      obtain ⟨block, hblk, h⟩ := of_bind h
      cases h
      exact ⟨slot, block, rfl, mapError_eq_ok.mp hblk, rfl, rfl⟩
  · rw [if_neg hdirty] at h
    cases h
    exact .inl ⟨hdirty, rfl, rfl⟩

private theorem finishPages_eq_ok {bindings bindings' : List BitmapBinding} {writes : List (Nat × Bytes)}
    (h : tx.finishPages region page bindings = .ok (bindings', writes)) :
    bindings'.length = bindings.length ∧
      (∀ i binding, bindings[i]? = some binding → ∃ binding' ws, bindings'[i]? = some binding' ∧
        tx.finishPage region (page + i) binding = .ok (binding', ws) ∧ ∀ w ∈ ws, w ∈ writes) ∧
      ∀ w ∈ writes, ∃ i binding binding' ws, bindings[i]? = some binding ∧
        tx.finishPage region (page + i) binding = .ok (binding', ws) ∧ w ∈ ws := by
  induction bindings generalizing page bindings' writes with
  | nil =>
    cases h
    simp
  | cons binding rest ih =>
    obtain ⟨⟨binding', ws⟩, hfirst, h⟩ := of_bind h
    obtain ⟨⟨tail, more⟩, htail, h⟩ := of_bind h
    cases h
    obtain ⟨hlen, hall, hfrom⟩ := ih htail
    refine ⟨by rw [length_cons, length_cons, hlen], fun i b hb => ?_, fun w hw => ?_⟩
    · cases i with
      | zero =>
        cases hb
        exact ⟨binding', ws, rfl, hfirst, fun w hw => mem_append_left _ hw⟩
      | succ i =>
        obtain ⟨b', ws', hb', hpage, hsub⟩ := hall i b (by simpa using hb)
        refine ⟨b', ws', by simpa using hb', ?_, fun w hw => mem_append_right _ (hsub w hw)⟩
        rwa [Nat.add_right_comm, Nat.add_assoc] at hpage
    · rcases mem_append.mp hw with hw | hw
      · exact ⟨0, binding, binding', ws, rfl, hfirst, hw⟩
      · obtain ⟨i, b, b', ws', hb, hpage, hmem⟩ := hfrom w hw
        rw [Nat.add_right_comm, Nat.add_assoc] at hpage
        exact ⟨i + 1, b, b', ws', by simpa using hb, hpage, hmem⟩

def descriptorSlot (tx : TxAllocator) (region : Nat) : Option Nat :=
  chooseSlot descriptorSlots (tx.committed.records region).descriptorSlot
    (tx.committed.otherRecords.map fun records => (records region).descriptorSlot)

/-- What a region's turn leaves: new bindings, and the descriptor and record that say the same. -/
structure RegionDone (tx : TxAllocator) (region : Nat) (finished : FinishedRegion) where
  pages : List BitmapBinding
  slot : Nat
  block : Bytes
  finishPages : tx.finishPages region 0 (tx.committed.descriptors region).pages
    = .ok (pages, finished.bitmapWrites)
  chosen : tx.descriptorSlot region = some slot
  encode : { tx.committed.descriptors region with
      pages, freeBlocks := (pages.map BitmapBinding.freeBlocks).sum : RegionDescriptor }.encode
        tx.geo.blockSize tx.newGeneration = .ok block
  record : finished.record = ⟨slot, (pages.map BitmapBinding.freeBlocks).sum, tx.newGeneration⟩
  write : finished.descriptorWrite = (tx.geo.descriptorSlotLba region slot, block)

def RegionDone.descriptor {region : Nat} {finished : FinishedRegion}
    (d : RegionDone tx region finished) : RegionDescriptor :=
  { tx.committed.descriptors region with
    pages := d.pages, freeBlocks := (d.pages.map BitmapBinding.freeBlocks).sum }

private theorem finishRegion_eq_ok {finished : FinishedRegion}
    (h : tx.finishRegion region = .ok finished) : Nonempty (RegionDone tx region finished) := by
  obtain ⟨⟨pages, writes⟩, hpages, h⟩ := of_bind h
  cases hslot : tx.descriptorSlot region with
  | none =>
    dsimp only at h
    rw [descriptorSlot] at hslot
    rw [hslot] at h
    cases h
  | some slot =>
    dsimp only at h
    rw [descriptorSlot] at hslot
    rw [hslot] at h
    obtain ⟨block, hblk, h⟩ := of_bind h
    cases h
    exact ⟨⟨pages, slot, block, hpages, hslot, mapError_eq_ok.mp hblk, rfl, rfl⟩⟩

theorem finishRegions_eq_ok {list : List Nat} {total total' : Nat}
    {regions : List (Nat × FinishedRegion)} (h : tx.finishRegions list total = .ok (regions, total')) :
    regions.map Prod.fst = list ∧ (∀ entry ∈ regions, tx.finishRegion entry.1 = .ok entry.2) ∧
      total' + (list.map fun region => (tx.committed.records region).freeBlocks).sum
        = total + (regions.map fun entry => entry.2.record.freeBlocks).sum := by
  induction list generalizing total regions with
  | nil =>
    cases h
    simp
  | cons region rest ih =>
    obtain ⟨finished, hfin, h⟩ := of_bind h
    replace h := after_check h
    obtain ⟨hunder, h⟩ := of_refuse h
    obtain ⟨⟨more, last⟩, hmore, h⟩ := of_bind h
    cases h
    obtain ⟨hmap, hall, hsum⟩ := ih hmore
    refine ⟨by rw [map_cons, hmap], forall_mem_cons.mpr ⟨hfin, hall⟩, ?_⟩
    simp only [map_cons, sum_cons]
    omega

def packedPage (tx : TxAllocator) (region page : Nat) : BitmapPage :=
  ⟨region, page, page * bitmapPageBlocks, tx.geo.bitmapPageValidBlocks region page,
    Bits.pack (fun i => tx.bits (tx.geo.regionBase region + page * bitmapPageBlocks + i))
      (divCeil (tx.geo.bitmapPageValidBlocks region page) 8)⟩

private theorem workingPage_eq (tx : TxAllocator) (region page : Nat) :
    tx.workingPage region page = (tx.packedPage region page).sealTrailingBits := rfl

private theorem workingPage_isAllocated {i : Nat} (hi : i < tx.geo.bitmapPageValidBlocks region page) :
    (tx.workingPage region page).isAllocated i
      = tx.bits (tx.geo.regionBase region + page * bitmapPageBlocks + i) := by
  have hroom := le_divCeil_mul (tx.geo.bitmapPageValidBlocks region page)
  rw [workingPage_eq, isAllocated_inside hi, BitmapPage.isAllocated, packedPage, Bits.getBit_pack (by omega)]

private theorem workingPage_sealed (tx : TxAllocator) (region page : Nat) : (tx.workingPage region page).Sealed := by
  rw [workingPage_eq]
  refine sealed_sealTrailingBits ?_
  rw [packedPage, Bits.length_pack]
  exact le_divCeil_mul _

private theorem freeBlocks_sealTrailingBits {page : BitmapPage} (h : page.Sealed) :
    page.sealTrailingBits.freeBlocks = page.freeBlocks := by
  rw [freeBlocks_of_sealed (sealed_sealTrailingBits h.1), freeBlocks_of_sealed h]
  refine Finset.sum_congr rfl fun i hi => ?_
  rw [isAllocated_inside (Finset.mem_range.mp hi)]

private theorem pageOf_eq {geo : Geometry} {i : Nat} (hi : i < geo.bitmapPageValidBlocks region page) :
    pageOf geo (geo.regionBase region + page * bitmapPageBlocks + i) = (region, page) := by
  rw [Geometry.bitmapPageValidBlocks, Geometry.regionValidBlocks] at hi
  have hreg : geo.regionOf (geo.regionBase region + (page * bitmapPageBlocks + i)) = region :=
    regionOf_add (by omega)
  rw [pageOf, Nat.add_assoc, hreg, Nat.add_sub_cancel_left, Nat.mul_comm,
    Nat.mul_add_div (by decide), Nat.div_eq_of_lt (by omega), Nat.add_zero]

/-! ### The device with the writes on it -/

structure Finishing (tx : TxAllocator) (dev : Device) (generation : Nat)
    (regions : List (Nat × FinishedRegion)) : Prop where
  valid : tx.geo.Valid
  agree : Bitmaps.Agree dev tx.geo generation tx.currentFreeBlocksTotal tx.committed.records
    tx.committed.descriptors tx.committed.bits
  newer : generation ≤ tx.newGeneration
  width : tx.newGeneration < 2 ^ 64
  sound : Sound tx
  dirty : regions.map Prod.fst
    = (List.range tx.geo.regionCount).filter fun region => region ∈ tx.dirtyRegions
  done : ∀ entry ∈ regions, tx.finishRegion entry.1 = .ok entry.2

/-- The page loads from the device, with the transaction's bits. -/
abbrev PageReads (tx : TxAllocator) (dev : Device) (region page : Nat) (descriptor : RegionDescriptor) : Prop :=
  ∃ loaded, loadBitmapPage dev tx.geo region page descriptor = .ok loaded ∧ ∀ i < loaded.validBlocks,
    loaded.isAllocated i = tx.bits (tx.geo.regionBase region + page * bitmapPageBlocks + i)

namespace Finishing

variable {dev : Device} {generation : Nat} {regions : List (Nat × FinishedRegion)}

def writes (regions : List (Nat × FinishedRegion)) : List (Nat × Bytes) :=
  regions.flatMap (fun region => region.2.bitmapWrites) ++
    regions.map fun region => region.2.descriptorWrite

variable {region : Nat}

variable (h : Finishing tx dev generation regions)

include h

private theorem mem_dirty :
    (∃ finished, (region, finished) ∈ regions) ↔ region < tx.geo.regionCount ∧ region ∈ tx.dirtyRegions := by
  have hmem : region ∈ regions.map Prod.fst ↔ region < tx.geo.regionCount ∧ region ∈ tx.dirtyRegions := by
    rw [h.dirty, mem_filter, List.mem_range, decide_eq_true_eq]
  rw [← hmem, mem_map]
  constructor
  · rintro ⟨finished, hmem⟩
    exact ⟨_, hmem, rfl⟩
  · rintro ⟨⟨_, finished⟩, hentry, rfl⟩
    exact ⟨finished, hentry⟩

private theorem pages_length (hreg : region < tx.geo.regionCount) :
    (tx.committed.descriptors region).pages.length = tx.geo.bitmapPageCount region := by
  obtain ⟨-, -, hvalidate, -⟩ := loadRegionDescriptor_eq_ok.mp (h.agree.descriptor region hreg)
  exact (validate_eq_ok.mp hvalidate).2.2.1

variable {write : Nat × Bytes} {finished : FinishedRegion}

private theorem of_bitmapWrite (hentry : (region, finished) ∈ regions) (hwrite : write ∈ finished.bitmapWrites) :
    region < tx.geo.regionCount ∧ ∃ page binding slot, page < tx.geo.bitmapPageCount region ∧
      (tx.committed.descriptors region).pages[page]? = some binding ∧
      (region, page) ∈ tx.dirtyPages ∧ tx.bitmapSlot region page binding = some slot ∧
      write.1 = tx.geo.bitmapSlotLba region page slot ∧
      (tx.workingPage region page).encode tx.geo.blockSize tx.newGeneration = .ok write.2 := by
  obtain ⟨hreg, -⟩ := h.mem_dirty.mp ⟨finished, hentry⟩
  refine ⟨hreg, ?_⟩
  obtain ⟨d⟩ := finishRegion_eq_ok (h.done _ hentry)
  obtain ⟨-, -, hfrom⟩ := finishPages_eq_ok d.finishPages
  obtain ⟨page, binding, binding', ws, hbind, hpage, hmem⟩ := hfrom write hwrite
  rw [Nat.zero_add] at hpage
  obtain ⟨-, -, rfl⟩ | ⟨hdirty, slot, block, hslot, henc, -, rfl⟩ := finishPage_eq_ok hpage
  · cases hmem
  · obtain rfl := mem_singleton.mp hmem
    have hlt : page < (tx.committed.descriptors region).pages.length := (List.getElem?_eq_some_iff.mp hbind).1
    rw [h.pages_length hreg] at hlt
    exact ⟨page, binding, slot, hlt, hbind, hdirty, hslot, rfl, henc⟩

private theorem of_descriptorWrite (hentry : (region, finished) ∈ regions) :
    region < tx.geo.regionCount ∧ ∃ slot, tx.descriptorSlot region = some slot ∧
      finished.descriptorWrite.1 = tx.geo.descriptorSlotLba region slot := by
  obtain ⟨hreg, -⟩ := h.mem_dirty.mp ⟨finished, hentry⟩
  obtain ⟨d⟩ := finishRegion_eq_ok (h.done _ hentry)
  exact ⟨hreg, d.slot, d.chosen, by rw [d.write]⟩

omit h in
private theorem mem_writes (hwrite : write ∈ writes regions) :
    ∃ region finished, (region, finished) ∈ regions ∧
      (write ∈ finished.bitmapWrites ∨ write = finished.descriptorWrite) := by
  rcases mem_append.mp hwrite with hmem | hmem
  · obtain ⟨⟨region, finished⟩, hentry, hmem⟩ := mem_flatMap.mp hmem
    exact ⟨region, finished, hentry, .inl hmem⟩
  · obtain ⟨⟨region, finished⟩, hentry, rfl⟩ := mem_map.mp hmem
    exact ⟨region, finished, hentry, .inr rfl⟩

private theorem descriptorSlot_written {region slot : Nat}
    (hreg : region < tx.geo.regionCount) (hslot : slot < descriptorSlots) (hwrite : write ∈ writes regions)
    (haddr : write.1 = tx.geo.descriptorSlotLba region slot) :
    tx.descriptorSlot region = some slot ∧
      ∃ finished, (region, finished) ∈ regions ∧ write = finished.descriptorWrite := by
  obtain ⟨other, finished, hentry, hmem | rfl⟩ := mem_writes hwrite
  · obtain ⟨hoth, page, binding, otherSlot, hpage, -, -, hchosen, hlba, -⟩ := h.of_bitmapWrite hentry hmem
    rw [hlba] at haddr
    exact absurd haddr (bitmapSlotLba_ne_descriptorSlotLba h.valid hoth hreg hpage
      (chooseSlot_eq_some hchosen).1 hslot)
  · obtain ⟨hoth, otherSlot, hchosen, hlba⟩ := h.of_descriptorWrite hentry
    rw [hlba] at haddr
    obtain ⟨rfl, rfl⟩ := descriptorSlotLba_inj h.valid hoth hreg (chooseSlot_eq_some hchosen).1 hslot haddr
    exact ⟨hchosen, finished, hentry, rfl⟩

private theorem keeps_descriptor (hreg : region < tx.geo.regionCount) :
    (dev.writeAll (writes regions)).blocks
        (tx.geo.descriptorSlotLba region (tx.committed.records region).descriptorSlot)
      = dev.blocks (tx.geo.descriptorSlotLba region (tx.committed.records region).descriptorSlot) := by
  refine Disk.applyWrites_of_not_mem fun write hwrite haddr => ?_
  obtain ⟨hchosen, -⟩ := h.descriptorSlot_written hreg (h.agree.slot region hreg) hwrite haddr
  exact (chooseSlot_eq_some hchosen).2 rfl

private theorem region_lt (hreg : region < tx.geo.regionCount) : region < 256 ^ 4 := by
  have hcnt : tx.geo.regionCount ≤ 2 ^ 32 - 1 := h.valid.regionCount
  omega

private theorem blockSize_lt : tx.geo.blockSize < 256 ^ 4 := by
  rw [h.valid.blockSize]
  decide

section Page

variable {region page : Nat} (hreg : region < tx.geo.regionCount) (hpage : page < tx.geo.bitmapPageCount region)

include hreg hpage

private theorem bitmapSlot_written {slot : Nat} (hslot : slot < bitmapSlots) (hwrite : write ∈ writes regions)
    (haddr : write.1 = tx.geo.bitmapSlotLba region page slot) :
    ∃ binding, (tx.committed.descriptors region).pages[page]? = some binding ∧
      (region, page) ∈ tx.dirtyPages ∧ tx.bitmapSlot region page binding = some slot ∧
      (tx.workingPage region page).encode tx.geo.blockSize tx.newGeneration = .ok write.2 := by
  obtain ⟨other, finished, hentry, hmem | rfl⟩ := mem_writes hwrite
  · obtain ⟨hoth, otherPage, binding, otherSlot, hotherPage, hbind, hdirty, hchosen, hlba,
      henc⟩ := h.of_bitmapWrite hentry hmem
    rw [hlba] at haddr
    obtain ⟨rfl, rfl, rfl⟩ := bitmapSlotLba_inj h.valid hoth hreg hotherPage hpage
      (chooseSlot_eq_some hchosen).1 hslot haddr
    exact ⟨binding, hbind, hdirty, hchosen, henc⟩
  · obtain ⟨hoth, otherSlot, hchosen, hlba⟩ := h.of_descriptorWrite hentry
    rw [hlba] at haddr
    exact absurd haddr.symm (bitmapSlotLba_ne_descriptorSlotLba h.valid hreg hoth
      hpage hslot (chooseSlot_eq_some hchosen).1)

variable {binding : BitmapBinding} {descriptor : RegionDescriptor}

private theorem keeps_bitmap (hbind : (tx.committed.descriptors region).pages[page]? = some binding)
    (hslot : binding.slot < bitmapSlots) :
    (dev.writeAll (writes regions)).blocks (tx.geo.bitmapSlotLba region page binding.slot)
      = dev.blocks (tx.geo.bitmapSlotLba region page binding.slot) := by
  refine Disk.applyWrites_of_not_mem fun write hwrite haddr => ?_
  obtain ⟨other, hoth, -, hchosen, -⟩ := h.bitmapSlot_written hreg hpage hslot hwrite haddr
  rw [hbind] at hoth
  cases hoth
  exact (chooseSlot_eq_some hchosen).2 rfl

private theorem oldBinding :
    ∃ binding, (tx.committed.descriptors region).pages[page]? = some binding ∧
      BindingOk tx.geo region (tx.committed.records region).descriptorGeneration page binding := by
  obtain ⟨-, -, hvalidate, -⟩ := loadRegionDescriptor_eq_ok.mp (h.agree.descriptor region hreg)
  obtain ⟨-, -, hlen, hok, -⟩ := validate_eq_ok.mp hvalidate
  have hlt : page < (tx.committed.descriptors region).pages.length := by omega
  exact ⟨_, getElem?_eq_getElem hlt, hok page _ (getElem?_eq_getElem hlt)⟩

private theorem cleanPage (hclean : (region, page) ∉ tx.dirtyPages)
    (hsame : descriptor.pages[page]? = (tx.committed.descriptors region).pages[page]?) :
    tx.PageReads (dev.writeAll (writes regions)) region page descriptor := by
  obtain ⟨loaded, hload, hbits⟩ := h.agree.page region hreg page hpage
  obtain ⟨binding, hbind, hlba, hdec, hfields⟩ := loadBitmapPage_eq_ok.mp hload
  obtain ⟨found, hfound, hok⟩ := h.oldBinding hreg hpage
  rw [hbind] at hfound
  cases hfound
  refine ⟨loaded, loadBitmapPage_eq_ok.mpr ⟨binding, hsame.trans hbind, hlba, ?_, hfields⟩, ?_⟩
  · rw [h.keeps_bitmap hreg hpage hbind hok.1]
    exact hdec
  · intro i hi
    rw [hbits i hi]
    have hi' : i < tx.geo.bitmapPageValidBlocks region page := hfields.2.2.1 ▸ hi
    refine (h.sound.clean _ ?_).symm
    rw [pageOf_eq hi']
    exact hclean

private theorem dirtyPage {slot : Nat} {block : Bytes}
    (hchosen : tx.bitmapSlot region page binding = some slot)
    (henc : (tx.workingPage region page).encode tx.geo.blockSize tx.newGeneration = .ok block)
    (hwritten : (tx.geo.bitmapSlotLba region page slot, block) ∈ writes regions)
    (hnew : descriptor.pages[page]?
      = some ⟨slot, (tx.workingPage region page).freeBlocks, tx.newGeneration⟩) :
    tx.PageReads (dev.writeAll (writes regions)) region page descriptor := by
  have hslot := (chooseSlot_eq_some hchosen).1
  have hblk : (dev.writeAll (writes regions)).blocks (tx.geo.bitmapSlotLba region page slot) = block := by
    refine Disk.applyWrites_of_unique (fun write hwrite haddr => ?_) ⟨_, hwritten, rfl⟩
    obtain ⟨-, -, -, -, hoth⟩ := h.bitmapSlot_written hreg hpage hslot hwrite haddr
    rw [henc] at hoth
    cases hoth
    rfl
  have hpages := bitmapPageCount_le tx.geo h.valid region
  have hindex : (tx.workingPage region page).pageIndex < 256 ^ 4 := by
    show page < 256 ^ 4
    omega
  have hdec := BitmapPage.decode_encode (h.region_lt hreg) hindex h.width henc
  have hlba : tx.geo.bitmapSlotLba region page slot < dev.totalBlocks := by
    rw [bitmapSlotLba_eq]
    exact lt_of_lt_of_le (headLba_lt h.valid hreg (bitmapSlot_lt hpage hslot)) h.agree.size
  refine ⟨(tx.workingPage region page).sealTrailingBits, loadBitmapPage_eq_ok.mpr
    ⟨_, hnew, hlba, ?_, rfl, rfl, rfl, ?_⟩, fun i hi => ?_⟩
  · dsimp only
    rw [hblk]
    exact hdec
  · exact freeBlocks_sealTrailingBits (tx.workingPage_sealed region page)
  · have hi' : i < (tx.workingPage region page).validBlocks := hi
    rw [isAllocated_inside hi']
    exact workingPage_isAllocated hi'

end Page

omit h

section Region

variable {region : Nat} {finished : FinishedRegion} (d : RegionDone tx region finished)

variable (h : Finishing tx dev generation regions)

include h

private theorem pageAfter (hentry : (region, finished) ∈ regions)
    {page : Nat} (hpage : page < tx.geo.bitmapPageCount region) :
    tx.PageReads (dev.writeAll (writes regions)) region page d.descriptor := by
  obtain ⟨hreg, -⟩ := h.mem_dirty.mp ⟨finished, hentry⟩
  obtain ⟨binding, hbind, -⟩ := h.oldBinding hreg hpage
  obtain ⟨-, hall, -⟩ := finishPages_eq_ok d.finishPages
  obtain ⟨binding', ws, hnew, hfinish, hsub⟩ := hall page binding hbind
  rw [Nat.zero_add] at hfinish
  obtain ⟨hclean, rfl, -⟩ | ⟨-, slot, block, hchosen, henc, rfl, rfl⟩ := finishPage_eq_ok hfinish
  · exact h.cleanPage hreg hpage hclean (hnew.trans hbind.symm)
  · refine h.dirtyPage hreg hpage hchosen henc ?_ hnew
    exact mem_append_left _ (mem_flatMap.mpr ⟨_, hentry, hsub _ (by simp)⟩)

private theorem bindingAfter (hentry : (region, finished) ∈ regions)
    {page : Nat} {binding : BitmapBinding} (hbind : d.pages[page]? = some binding) :
    BindingOk tx.geo region tx.newGeneration page binding := by
  obtain ⟨hreg, -⟩ := h.mem_dirty.mp ⟨finished, hentry⟩
  obtain ⟨hlen, hall, -⟩ := finishPages_eq_ok d.finishPages
  have hpage : page < tx.geo.bitmapPageCount region := by
    have hlt := (List.getElem?_eq_some_iff.mp hbind).1
    rw [hlen, h.pages_length hreg] at hlt
    exact hlt
  obtain ⟨old, hold, hok⟩ := h.oldBinding hreg hpage
  obtain ⟨new, ws, hnew, hfinish, -⟩ := hall page old hold
  rw [hbind] at hnew
  cases hnew
  rw [Nat.zero_add] at hfinish
  have hnewer := h.newer
  have hgen := h.agree.generation region hreg
  obtain ⟨-, rfl, -⟩ | ⟨-, slot, block, hchosen, -, rfl, -⟩ := finishPage_eq_ok hfinish
  · obtain ⟨hslot, hpos, hle, hfree⟩ := hok
    exact ⟨hslot, hpos, by omega, hfree⟩
  · obtain ⟨-, hpos, hle, -⟩ := hok
    refine ⟨(chooseSlot_eq_some hchosen).1, ?_, le_refl _, freeBlocks_le _⟩
    show 0 < tx.newGeneration
    omega

private theorem descriptorAfter (hentry : (region, finished) ∈ regions) :
    loadRegionDescriptor (dev.writeAll (writes regions)) tx.geo region finished.record = .ok d.descriptor := by
  obtain ⟨hreg, -⟩ := h.mem_dirty.mp ⟨finished, hentry⟩
  obtain ⟨-, -, hvalidate, -⟩ := loadRegionDescriptor_eq_ok.mp (h.agree.descriptor region hreg)
  obtain ⟨hfield, hval, hpages, -⟩ := validate_eq_ok.mp hvalidate
  obtain ⟨hlen, -, -⟩ := finishPages_eq_ok d.finishPages
  have hslot := (chooseSlot_eq_some d.chosen).1
  have hblk : (dev.writeAll (writes regions)).blocks (tx.geo.descriptorSlotLba region d.slot) = d.block := by
    refine Disk.applyWrites_of_unique (fun write hwrite haddr => ?_)
      ⟨(tx.geo.descriptorSlotLba region d.slot, d.block), ?_, rfl⟩
    · obtain ⟨-, other, hoth, rfl⟩ := h.descriptorSlot_written hreg hslot hwrite haddr
      have hsame := h.done _ hoth
      rw [h.done _ hentry] at hsame
      cases hsame
      rw [d.write]
    · exact mem_append_right _ (mem_map.mpr ⟨_, hentry, d.write⟩)
  have hwidth : tx.geo.regionValidBlocks region < 256 ^ 4 := by
    have hmax := h.valid.maxRegion
    have hle : tx.geo.regionValidBlocks region ≤ tx.geo.regionSize := Nat.min_le_right _ _
    omega
  have hnumber : d.descriptor.region < 256 ^ 4 := by
    show (tx.committed.descriptors region).region < 256 ^ 4
    rw [hfield]
    exact h.region_lt hreg
  have hdec := decode_encode hnumber
    (show d.descriptor.validBlocks < 256 ^ 4 from hval ▸ hwidth) h.blockSize_lt h.width d.encode
  have hlt : (d.pages.map BitmapBinding.freeBlocks).sum < 2 ^ 32 := by
    obtain ⟨-, henc⟩ := of_refuse d.encode
    replace henc := after_check henc
    obtain ⟨hsum, -⟩ := of_refuse henc
    exact not_le.mp hsum
  have hlba : tx.geo.descriptorSlotLba region d.slot < dev.totalBlocks := by
    rw [descriptorSlotLba_eq]
    exact lt_of_lt_of_le (headLba_lt h.valid hreg (descriptorSlot_lt hslot)) h.agree.size
  rw [d.record]
  refine loadRegionDescriptor_eq_ok.mpr ⟨hlba, ?_, ?_, rfl⟩
  · dsimp only
    rw [hblk]
    exact hdec
  · refine validate_eq_ok.mpr ⟨hfield, hval, ?_, fun page binding hbind => ?_,
      rfl, hlt⟩
    · exact hlen.trans hpages
    · exact h.bindingAfter d hentry hbind

end Region

/-! ### The published state -/

def published (records : Nat → RegionRecord) (dirtyRecords : List (Nat × RegionRecord)) (region : Nat) :
    RegionRecord :=
  (dirtyRecords.lookup region).getD (records region)

variable (h : Finishing tx dev generation regions)

include h

private theorem published_of_mem (hentry : (region, finished) ∈ regions) :
    published tx.committed.records (regions.map fun entry => (entry.1, entry.2.record)) region = finished.record := by
  have hlookup : ∀ (list : List (Nat × FinishedRegion)), (∀ entry ∈ list, entry ∈ regions) →
      (region, finished) ∈ list →
      (list.map fun entry => (entry.1, entry.2.record)).lookup region = some finished.record := by
    intro list hsub hmem
    induction list with
    | nil => cases hmem
    | cons entry rest ih =>
      obtain ⟨other, found⟩ := entry
      rw [map_cons, lookup_cons]
      by_cases hsame : region = other
      · subst hsame
        have hfirst := h.done _ (hsub (region, found) (by simp))
        rw [h.done _ hentry] at hfirst
        cases hfirst
        simp
      · have hrest : (region, finished) ∈ rest := by
          rcases mem_cons.mp hmem with heq | hrest
          · cases heq
            exact absurd rfl hsame
          · exact hrest
        rw [beq_false_of_ne hsame]
        exact ih (fun e he => hsub e (mem_cons_of_mem _ he)) hrest
  rw [published, hlookup regions (fun _ hmem => hmem) hentry]
  rfl

omit h in
private theorem published_of_not_mem {records : Nat → RegionRecord} (hclean : ¬∃ finished, (region, finished) ∈ regions) :
    published records (regions.map fun entry => (entry.1, entry.2.record)) region = records region := by
  have hlookup : (regions.map fun entry => (entry.1, entry.2.record)).lookup region = none := by
    rw [lookup_eq_none_iff]
    intro entry hmem
    obtain ⟨⟨other, finished⟩, hentry, rfl⟩ := mem_map.mp hmem
    rw [bne_iff_ne]
    rintro rfl
    exact hclean ⟨finished, hentry⟩
  rw [published, hlookup]
  rfl

omit h in
private theorem sum_filter_range (p : Nat → Bool) (f : Nat → Nat) (n : Nat) :
    (((List.range n).filter p).map f).sum = ∑ i ∈ Finset.range n, if p i then f i else 0 := by
  induction n with
  | zero => rfl
  | succ n ih =>
    rw [range_succ, filter_append, map_append, sum_append, ih, Finset.sum_range_succ]
    cases hp : p n <;> simp [hp]

variable {total : Nat} (htotal : total + ((regions.map Prod.fst).map fun region =>
        (tx.committed.records region).freeBlocks).sum
      = tx.currentFreeBlocksTotal + (regions.map fun entry => entry.2.record.freeBlocks).sum)
include htotal

private theorem total_after :
    total = ∑ region ∈ Finset.range tx.geo.regionCount,
      (published tx.committed.records (regions.map fun entry => (entry.1, entry.2.record)) region).freeBlocks := by
  set after := published tx.committed.records (regions.map fun entry => (entry.1, entry.2.record))
    with hafter
  have hnew : (regions.map fun entry => entry.2.record.freeBlocks)
      = (regions.map Prod.fst).map fun region => (after region).freeBlocks := by
    rw [map_map]
    refine map_congr_left fun entry hmem => ?_
    rw [Function.comp_apply, hafter, h.published_of_mem (show (entry.1, entry.2) ∈ regions from hmem)]
  rw [hnew, h.dirty, sum_filter_range, sum_filter_range, h.agree.total] at htotal
  have hpoint : ∀ region ∈ Finset.range tx.geo.regionCount, (after region).freeBlocks +
      (if decide (region ∈ tx.dirtyRegions) then (tx.committed.records region).freeBlocks else 0)
      = (tx.committed.records region).freeBlocks +
        if decide (region ∈ tx.dirtyRegions) then (after region).freeBlocks else 0 := by
    intro region hmem
    by_cases hdirty : region ∈ tx.dirtyRegions
    · simp only [hdirty, decide_true, if_true]
      omega
    · have hclean : ¬∃ finished, (region, finished) ∈ regions := fun hex =>
        hdirty (h.mem_dirty.mp hex).2
      rw [hafter, published_of_not_mem hclean]
  have hsum := Finset.sum_congr rfl hpoint
  rw [Finset.sum_add_distrib, Finset.sum_add_distrib] at hsum
  omega

theorem agreeAfter :
    ∃ descriptors, Bitmaps.Agree (dev.writeAll (writes regions)) tx.geo tx.newGeneration total
      (published tx.committed.records (regions.map fun entry => (entry.1, entry.2.record))) descriptors tx.bits := by
  set after := published tx.committed.records (regions.map fun entry => (entry.1, entry.2.record))
    with hafter
  -- region by region: a dirty one is read from its new descriptor, a clean one as before
  have hregs : ∀ region, ∃ descriptor, region < tx.geo.regionCount → (after region).descriptorSlot < descriptorSlots ∧
      (after region).descriptorGeneration ≤ tx.newGeneration ∧
      loadRegionDescriptor (dev.writeAll (writes regions)) tx.geo region (after region) = .ok descriptor ∧
      ∀ page < tx.geo.bitmapPageCount region,
        tx.PageReads (dev.writeAll (writes regions)) region page descriptor := by
    intro region
    by_cases hdirty : ∃ finished, (region, finished) ∈ regions
    · obtain ⟨finished, hentry⟩ := hdirty
      obtain ⟨d⟩ := finishRegion_eq_ok (h.done _ hentry)
      refine ⟨d.descriptor, fun hreg => ?_⟩
      rw [hafter, h.published_of_mem hentry]
      refine ⟨?_, ?_, h.descriptorAfter d hentry, fun page hpage => h.pageAfter d hentry hpage⟩
      · rw [d.record]
        exact (chooseSlot_eq_some d.chosen).1
      · rw [d.record]
    · refine ⟨tx.committed.descriptors region, fun hreg => ?_⟩
      rw [hafter, published_of_not_mem hdirty]
      obtain ⟨hlba, hdec, hvalidate, hfree⟩ := loadRegionDescriptor_eq_ok.mp (h.agree.descriptor region hreg)
      refine ⟨h.agree.slot region hreg, (h.agree.generation region hreg).trans h.newer, ?_, fun page hpage => ?_⟩
      · refine loadRegionDescriptor_eq_ok.mpr ⟨hlba, ?_, hvalidate, hfree⟩
        rw [h.keeps_descriptor hreg]
        exact hdec
      · refine h.cleanPage hreg hpage (fun hpageDirty => hdirty ?_) rfl
        exact h.mem_dirty.mpr ⟨hreg, h.sound.regions _ hpageDirty⟩
  choose descriptors hdescriptors using hregs
  exact ⟨descriptors, h.agree.size, fun region hreg => (hdescriptors region hreg).1,
    fun region hreg => (hdescriptors region hreg).2.1,
    fun region hreg => (hdescriptors region hreg).2.2.1,
    fun region hreg => (hdescriptors region hreg).2.2.2, h.total_after htotal, h.sound.reserved⟩

end Finishing

end TxAllocator

end Afsplus
