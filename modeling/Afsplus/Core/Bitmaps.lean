import Mathlib.Algebra.BigOperators.Fin
import Afsplus.Core.Device
import Afsplus.Format.Region

/-!
# Reading the allocation state

A region record selects a descriptor, the descriptor selects the bitmap pages, and each level repeats
the free count of the one below. A volume's allocation state agrees when every level loads and says
the same, and the checkpoint's total is their sum; the total is then the number of clear bits.
-/

namespace Afsplus

open Fallible Finset

namespace Bitmaps

def loadRegionDescriptor (dev : Device) (geo : Geometry) (region : Nat) (record : RegionRecord) :
    Except CoreError RegionDescriptor := do
  let block ← dev.read (geo.descriptorSlotLba region record.descriptorSlot)
  let (descriptor, generation) ← (RegionDescriptor.decode block).mapError fun _ =>
    .corrupt s!"region {region} descriptor"
  refuseIf (generation ≠ record.descriptorGeneration)
    (.corrupt s!"region {region} descriptor generation {generation} does not match checkpoint record")
  (descriptor.validate geo region generation).mapError fun _ => .corrupt s!"region {region} descriptor"
  refuseIf (descriptor.freeBlocks ≠ record.freeBlocks) (.corrupt s!"region {region} free count mismatch")
  pure descriptor

def loadBitmapPage (dev : Device) (geo : Geometry) (region pageIndex : Nat)
    (descriptor : RegionDescriptor) : Except CoreError BitmapPage :=
  match descriptor.pages[pageIndex]? with
  | none => .error (.corrupt s!"region {region} missing bitmap page {pageIndex}")
  | some binding => do
    let block ← dev.read (geo.bitmapSlotLba region pageIndex binding.slot)
    let (page, generation) ← (BitmapPage.decode block).mapError fun _ =>
      .corrupt s!"region {region} bitmap page {pageIndex}"
    refuseIf (page.region ≠ region ∨ page.pageIndex ≠ pageIndex ∨
        page.validBlocks ≠ geo.bitmapPageValidBlocks region pageIndex)
      (.corrupt s!"region {region} bitmap page {pageIndex} geometry mismatch")
    refuseIf (generation ≠ binding.generation)
      (.corrupt s!"region {region} bitmap page {pageIndex} generation does not match its binding")
    refuseIf (page.freeBlocks ≠ binding.freeBlocks)
      (.corrupt s!"region {region} bitmap page {pageIndex} free count mismatch")
    pure page

variable {dev : Device} {geo : Geometry} {descriptor : RegionDescriptor}

theorem loadRegionDescriptor_eq_ok {region : Nat} {record : RegionRecord} :
    loadRegionDescriptor dev geo region record = .ok descriptor ↔
      geo.descriptorSlotLba region record.descriptorSlot < dev.totalBlocks ∧
      RegionDescriptor.decode (dev.blocks (geo.descriptorSlotLba region record.descriptorSlot))
        = .ok (descriptor, record.descriptorGeneration) ∧
      descriptor.validate geo region record.descriptorGeneration = .ok () ∧
      descriptor.freeBlocks = record.freeBlocks := by
  rw [loadRegionDescriptor, Device.read_decode_eq_ok]
  simp only [Prod.exists, check_ok, mapError_eq_ok, refuseIf_eq_ok, pure_ok, not_not]
  constructor
  · rintro ⟨hlba, _, _, hdec, rfl, hvalidate, hfree, rfl⟩
    exact ⟨hlba, hdec, hvalidate, hfree⟩
  · rintro ⟨hlba, hdec, hvalidate, hfree⟩
    exact ⟨hlba, _, _, hdec, rfl, hvalidate, hfree, rfl⟩

theorem loadBitmapPage_eq_ok {region pageIndex : Nat} {page : BitmapPage} :
    loadBitmapPage dev geo region pageIndex descriptor = .ok page ↔
      ∃ binding, descriptor.pages[pageIndex]? = some binding ∧
        geo.bitmapSlotLba region pageIndex binding.slot < dev.totalBlocks ∧
        BitmapPage.decode (dev.blocks (geo.bitmapSlotLba region pageIndex binding.slot))
          = .ok (page, binding.generation) ∧ page.region = region ∧ page.pageIndex = pageIndex ∧
        page.validBlocks = geo.bitmapPageValidBlocks region pageIndex ∧ page.freeBlocks = binding.freeBlocks := by
  unfold loadBitmapPage
  cases hbind : descriptor.pages[pageIndex]? with
  | none => simp
  | some binding =>
    dsimp only
    rw [Device.read_decode_eq_ok]
    simp only [Prod.exists, refuseIf_ok, pure_ok, not_or, not_not]
    constructor
    · rintro ⟨hlba, _, _, hdec, ⟨hreg, hindex, hval⟩, rfl, hfree, rfl⟩
      exact ⟨binding, rfl, hlba, hdec, hreg, hindex, hval, hfree⟩
    · rintro ⟨_, hsome, hlba, hdec, hreg, hindex, hval, hfree⟩
      cases hsome
      exact ⟨hlba, _, _, hdec, ⟨hreg, hindex, hval⟩, rfl, hfree, rfl⟩

def freeSet (geo : Geometry) (bits : Nat → Bool) : Finset Nat :=
  (range geo.totalBlocks).filter fun lba => geo.isAllocatable lba = true ∧ bits lba = false

/-- Records, descriptors and bitmap pages load from the device and say the same as `bits`; the total
is the sum of the records' counts, and the reserved heads are marked in use. -/
structure Agree (dev : Device) (geo : Geometry) (generation total : Nat)
    (records : Nat → RegionRecord) (descriptors : Nat → RegionDescriptor) (bits : Nat → Bool) :
    Prop where
  size : geo.totalBlocks ≤ dev.totalBlocks
  slot : ∀ region < geo.regionCount, (records region).descriptorSlot < descriptorSlots
  generation : ∀ region < geo.regionCount, (records region).descriptorGeneration ≤ generation
  descriptor : ∀ region < geo.regionCount,
    loadRegionDescriptor dev geo region (records region) = .ok (descriptors region)
  page : ∀ region < geo.regionCount, ∀ pageIndex < geo.bitmapPageCount region, ∃ page,
    loadBitmapPage dev geo region pageIndex (descriptors region) = .ok page ∧
      ∀ i < page.validBlocks, page.isAllocated i
        = bits (geo.regionBase region + pageIndex * bitmapPageBlocks + i)
  total : total = ∑ region ∈ range geo.regionCount, (records region).freeBlocks
  reserved : ∀ lba, geo.isReserved lba = true → bits lba = true

def clear (bits : Nat → Bool) (lba : Nat) : Nat := (!bits lba).toNat

theorem isReserved_eq {lba : Nat} (h : lba < geo.totalBlocks) : geo.isReserved lba = !geo.isAllocatable lba := by
  rw [Geometry.isReserved, Geometry.isAllocatable, decide_eq_true h, Bool.true_and, Bool.true_and, ← decide_not]
  exact decide_eq_decide.mpr (not_le.symm)

theorem card_freeSet {bits : Nat → Bool} (hres : ∀ lba, geo.isReserved lba = true → bits lba = true) :
    (freeSet geo bits).card = ∑ lba ∈ range geo.totalBlocks, clear bits lba := by
  rw [freeSet, card_filter]
  refine sum_congr rfl fun lba hmem => ?_
  have hlba := mem_range.mp hmem
  cases hbit : bits lba with
  | true => simp [clear, hbit]
  | false =>
    have halloc : geo.isAllocatable lba = true := by
      by_contra hnot
      rw [Bool.not_eq_true] at hnot
      have hset := hres lba (by rw [isReserved_eq hlba, hnot]; rfl)
      rw [hbit] at hset
      cases hset
    simp [clear, hbit, halloc]

theorem regionValidBlocks_le_pages (geo : Geometry) (region : Nat) :
    geo.regionValidBlocks region ≤ geo.bitmapPageCount region * bitmapPageBlocks := by
  have hpage : bitmapPageBlocks = 32384 := rfl
  rw [Geometry.bitmapPageCount, divCeil, hpage]
  omega

theorem totalBlocks_le_regions (hval : geo.Valid) : geo.totalBlocks ≤ geo.regionCount * geo.regionSize := by
  have hsize := hval.minRegion
  have hlt := Nat.lt_div_mul_add (a := geo.totalBlocks + geo.regionSize - 1) (show 0 < geo.regionSize by omega)
  rw [Geometry.regionCount, divCeil]
  omega

namespace Agree

variable {generation total : Nat} {records : Nat → RegionRecord}
  {descriptors : Nat → RegionDescriptor} {bits : Nat → Bool}

theorem pageFree (h : Agree dev geo generation total records descriptors bits) {region : Nat}
    (hreg : region < geo.regionCount) {pageIndex : Nat}
    (hpage : pageIndex < geo.bitmapPageCount region) {binding : BitmapBinding}
    (hbind : (descriptors region).pages[pageIndex]? = some binding) :
    binding.freeBlocks = ∑ i ∈ range (geo.bitmapPageValidBlocks region pageIndex),
      clear bits (geo.regionBase region + (pageIndex * bitmapPageBlocks + i)) := by
  obtain ⟨page, hload, hbits⟩ := h.page region hreg pageIndex hpage
  obtain ⟨found, hfound, -, hdec, -, -, hval, hfree⟩ := loadBitmapPage_eq_ok.mp hload
  rw [hbind] at hfound
  cases hfound
  rw [← hfree, BitmapPage.freeBlocks_of_sealed (BitmapPage.decode_eq_ok hdec), ← hval]
  refine sum_congr rfl fun i hi => ?_
  rw [hbits i (mem_range.mp hi), clear, Nat.add_assoc]

theorem regionFree (h : Agree dev geo generation total records descriptors bits) {region : Nat}
    (hreg : region < geo.regionCount) :
    (records region).freeBlocks = ∑ i ∈ range (geo.regionValidBlocks region),
      clear bits (geo.regionBase region + i) := by
  obtain ⟨-, -, hvalidate, hfree⟩ := loadRegionDescriptor_eq_ok.mp (h.descriptor region hreg)
  obtain ⟨-, -, hlen, -, hsum, -⟩ := RegionDescriptor.validate_eq_ok.mp hvalidate
  have hpages : ((descriptors region).pages.map BitmapBinding.freeBlocks).sum
      = ∑ k ∈ range (geo.bitmapPageCount region),
        ∑ i ∈ range (min (geo.regionValidBlocks region - k * bitmapPageBlocks) bitmapPageBlocks),
          clear bits (geo.regionBase region + (k * bitmapPageBlocks + i)) := by
    rw [← hlen, sum_range, ← List.sum_ofFn]
    congr 1
    apply List.ext_getElem
    · simp
    · intro k hk _
      have hk' : k < (descriptors region).pages.length := by simpa using hk
      simp only [List.getElem_map, List.getElem_ofFn]
      exact h.pageFree hreg (by omega) (List.getElem?_eq_getElem hk')
  have hpieces := Bits.sum_pieces (fun i => clear bits (geo.regionBase region + i))
    (geo.regionValidBlocks region) bitmapPageBlocks (geo.bitmapPageCount region)
  rw [Nat.min_eq_left (regionValidBlocks_le_pages geo region)] at hpieces
  rw [← hfree, hsum, hpages, hpieces]

theorem total_eq (hval : geo.Valid) (h : Agree dev geo generation total records descriptors bits) :
    total = (freeSet geo bits).card := by
  have hregs : ∑ region ∈ range geo.regionCount, (records region).freeBlocks
      = ∑ region ∈ range geo.regionCount, ∑ i ∈ range
          (min (geo.totalBlocks - region * geo.regionSize) geo.regionSize),
          clear bits (region * geo.regionSize + i) :=
    sum_congr rfl fun region hmem => h.regionFree (mem_range.mp hmem)
  rw [h.total, hregs, Bits.sum_pieces, Nat.min_eq_left (totalBlocks_le_regions hval), card_freeSet h.reserved]

end Agree

end Bitmaps

end Afsplus
