import Afsplus.Portable.Namespace

/-!
# The portable writer's choice of a data block

A block write needs one block that the committed bitmaps call free and that no accepted record has
taken. The C code loads the bitmaps region by region and page by page, checks on the way that every
logged extent is still free in them, and takes the first candidate no logged extent covers.
-/

namespace Afsplus.Portable

open Wire Fallible

def regionDescriptorFixed : Nat := 16

def allocationValueSize : Nat := 16

def maxBitmapPages : Nat := divCeil maxRegionBlocks bitmapPageBlocks

structure BitmapBinding where
  slot : Nat
  freeBlocks : Nat
  generation : Nat

structure AllocationRegion where
  freeBlocks : Nat
  pages : List BitmapBinding

def bitClear (bits : Bytes) (index : Nat) : Bool :=
  !(bits.getD (index / 8) 0).toNat.testBit (index % 8)

def bitmapPageValidBlocks (volume : Volume) (region page : Nat) : Nat :=
  min (volume.geo.regionValidBlocks region - page * bitmapPageBlocks) bitmapPageBlocks

section

variable (trees : CommittedTrees) (dev : Device) (volume : Volume)

/-- Descriptor slot, free blocks and descriptor generation of a region. -/
def lookupAllocationRegion (region : Nat) : Except Status (Nat × Nat × Nat) := do
  match ← trees.allocationEntry dev volume region with
  | none => throw .corrupt
  | some value =>
    refuseIf (value.length ≠ allocationValueSize) .corrupt
    let (slot, p) := readLe 1 value
    let (reserved, p) := readLe 3 p
    let (freeBlocks, p) := readLe 4 p
    let (generation, _) := readLe 8 p
    refuseIf (reserved ≠ 0 ∨ slot ≥ descriptorSlots) .corrupt
    refuseIf (freeBlocks > volume.geo.regionValidBlocks region ∨ generation = 0 ∨
      generation > volume.generation) .corrupt
    pure (slot, freeBlocks, generation)

def readBindings (volume : Volume) (region descriptorGeneration : Nat) :
    (count page : Nat) → Bytes → Except Status (List BitmapBinding)
  | 0, _, _ => .ok []
  | count + 1, page, p => do
    let (slot, p) := readLe 1 p
    let (_, p) := readLe 3 p
    let (freeBlocks, p) := readLe 4 p
    let (generation, p) := readLe 8 p
    refuseIf (slot ≥ bitmapSlots ∨ freeBlocks > bitmapPageValidBlocks volume region page ∨
      generation = 0 ∨ generation > descriptorGeneration) .corrupt
    let rest ← readBindings volume region descriptorGeneration count (page + 1) p
    pure (⟨slot, freeBlocks, generation⟩ :: rest)

/-- A block of the given type, owner and generation whose payload has the expected length. -/
def loadBlock (lba : Lba) (blockType owner generation payloadLen : Nat) : Except Status Bytes := do
  let block ← dev.readOne lba
  match BlockHeader.verify block blockType with
  | .error (.unsupportedHeaderVersion _) => throw .unsupported
  | .error _ => throw .corrupt
  | .ok header => do
    refuseIf (header.flags ≠ 0 ∨ header.owner ≠ owner ∨ header.generation ≠ generation ∨
      header.payloadLen ≠ payloadLen) .corrupt
    pure (header.payload block)

def loadAllocationRegion (region : Nat) : Except Status AllocationRegion := do
  let (slot, recordedFree, recordedGeneration) ← lookupAllocationRegion trees dev volume region
  let expectedPages := volume.geo.bitmapPageCount region
  refuseIf (expectedPages = 0 ∨ expectedPages > maxBitmapPages) .corrupt
  let p ← loadBlock dev (volume.geo.descriptorSlotLba region slot) BlockType.regionDescriptor
    region recordedGeneration (regionDescriptorFixed + expectedPages * 16)
  let (recordedRegion, p) := readLe 4 p
  let (validBlocks, p) := readLe 4 p
  let (freeBlocks, p) := readLe 4 p
  let (pageCount, p) := readLe 4 p
  refuseIf (recordedRegion ≠ region ∨ validBlocks ≠ volume.geo.regionValidBlocks region ∨
    freeBlocks ≠ recordedFree ∨ pageCount ≠ expectedPages) .corrupt
  let pages ← readBindings volume region recordedGeneration expectedPages 0 p
  refuseIf ((pages.map BitmapBinding.freeBlocks).sum ≠ recordedFree) .corrupt
  pure ⟨recordedFree, pages⟩

/-- The bits of one page, with the number of blocks they stand for. -/
def loadAllocationBitmap (region page : Nat) (binding : BitmapBinding) :
    Except Status (Bytes × Nat) := do
  let expectedValid := bitmapPageValidBlocks volume region page
  let byteLen := (expectedValid + 7) / 8
  let p ← loadBlock dev (volume.geo.bitmapSlotLba region page binding.slot) BlockType.bitmap region
    binding.generation (bitmapFixedPayload + byteLen)
  let (recordedRegion, p) := readLe 4 p
  let (recordedPage, p) := readLe 4 p
  let (firstBlock, p) := readLe 4 p
  let (validBlocks, bits) := readLe 4 p
  refuseIf (recordedRegion ≠ region ∨ recordedPage ≠ page ∨ firstBlock ≠ page * bitmapPageBlocks ∨
    validBlocks ≠ expectedValid ∨ expectedValid = 0) .corrupt
  refuseIf ((List.range' expectedValid (byteLen * 8 - expectedValid)).any (bitClear bits)) .corrupt
  refuseIf (((List.range expectedValid).filter (bitClear bits)).length ≠ binding.freeBlocks)
    .corrupt
  pure (bits, expectedValid)

/-- The committed bitmaps, as the reader loads them, have the block's bit clear. -/
def CommittedFree (lba : Lba) : Prop :=
  ∃ region page index allocation binding bits valid,
    lba = volume.geo.regionBase region + page * bitmapPageBlocks + index ∧ index < valid ∧
    loadAllocationRegion trees dev volume region = .ok allocation ∧
    allocation.pages[page]? = some binding ∧
    loadAllocationBitmap dev volume region page binding = .ok (bits, valid) ∧
    bitClear bits index = true

/-- Every block of a logged extent must be clear in the bitmaps; `count` blocks from `first` on. -/
def validateRunIsFree (region : Nat) (allocation : AllocationRegion) :
    (count first : Nat) → Except Status Unit
  | 0, _ => .ok ()
  | count + 1, first => do
    let page := first / bitmapPageBlocks
    match allocation.pages[page]? with
    | none => throw .corrupt
    | some binding =>
      let (bits, _) ← loadAllocationBitmap dev volume region page binding
      refuseIf (bitClear bits (first - page * bitmapPageBlocks) = false) .corrupt
      validateRunIsFree region allocation count (first + 1)

def validateLogExtentIsFree (e : LogExtent) : Except Status Unit := do
  let region := volume.geo.regionOf e.1
  let allocation ← loadAllocationRegion trees dev volume region
  validateRunIsFree dev volume region allocation e.2 (e.1 - volume.geo.regionBase region)

def validateLogReservations : List LogExtent → Nat → Except Status Nat
  | [], total => .ok total
  | e :: rest, total => do
    refuseIf (logExtentValid volume e = false) .corrupt
    refuseIf (total + e.2 ≥ 2 ^ 64) .corrupt
    validateLogExtentIsFree trees dev volume e
    validateLogReservations rest (total + e.2)

/-- The end of the logged extent over a candidate, or the candidate itself. -/
def loggedExtentCovering (extents : List LogExtent) (candidate : Nat) : Nat :=
  match extents.find? fun e => e.1 ≤ candidate && candidate - e.1 < e.2 with
  | some e => e.1 + e.2
  | none => candidate

/-! ### The search -/

/-- The search within one page from `index` on. Every step moves forward, so `fuel` of the page's
size is never used up. -/
def findInPage (extents : List LogExtent) (pageBase valid : Nat) (bits : Bytes) :
    (fuel index : Nat) → Option Lba
  | 0, _ => none
  | fuel + 1, index =>
    if index ≥ valid then none
    else
      let candidate := pageBase + index
      if bitClear bits index ∧ volume.geo.isAllocatable candidate then
        let coveredUntil := loggedExtentCovering extents candidate
        if coveredUntil = candidate then some candidate
        else if coveredUntil > pageBase + valid then none
        else findInPage extents pageBase valid bits fuel (coveredUntil - pageBase)
      else findInPage extents pageBase valid bits fuel (index + 1)

def findInPages (extents : List LogExtent) (region : Nat) :
    (page : Nat) → List BitmapBinding → Except Status (Option Lba)
  | _, [] => .ok none
  | page, binding :: rest =>
    if binding.freeBlocks = 0 then findInPages extents region (page + 1) rest
    else do
      let (bits, valid) ← loadAllocationBitmap dev volume region page binding
      match findInPage volume extents (volume.geo.regionBase region + page * bitmapPageBlocks) valid
          bits (valid + 1) 0 with
      | some lba => pure (some lba)
      | none => findInPages extents region (page + 1) rest

def findInRegions (extents : List LogExtent) : (left region : Nat) → Except Status (Option Lba)
  | 0, _ => .ok none
  | left + 1, region => do
    let allocation ← loadAllocationRegion trees dev volume region
    if allocation.freeBlocks = 0 then findInRegions extents left (region + 1)
    else match ← findInPages dev volume extents region 0 allocation.pages with
      | some lba => pure (some lba)
      | none => findInRegions extents left (region + 1)

def findLogDataBlock (view : View) (freeBlockFloor : Nat) : Except Status Lba := do
  prepareOperation dev volume
  refuseIf (freeBlockFloor > volume.geo.totalBlocks) .invalidArgument
  refuseIf (view.validRecords > volume.logSlots ∨ view.keysKnown = false ∨
    view.lastSequence ≠ view.validRecords) .corrupt
  let extents := view.operations.flatMap LogOp.dataExtents
  let reserved ← validateLogReservations trees dev volume extents 0
  refuseIf (reserved > volume.freeBlocksTotal) .corrupt
  refuseIf (volume.freeBlocksTotal - reserved ≤ freeBlockFloor) .notFound
  match ← findInRegions trees dev volume extents volume.geo.regionCount 0 with
  | some lba => pure lba
  | none => throw .notFound

/-- A block a new logged write may take. -/
structure FreeForLog (extents : List LogExtent) (lba : Lba) : Prop where
  allocatable : volume.geo.isAllocatable lba = true
  committedFree : CommittedFree trees dev volume lba
  unlogged : ∀ e ∈ extents, ¬(e.1 ≤ lba ∧ lba < e.1 + e.2)

variable {extents : List LogExtent}

theorem unlogged_of_covering {lba : Nat} (h : loggedExtentCovering extents lba = lba) :
    ∀ e ∈ extents, ¬(e.1 ≤ lba ∧ lba < e.1 + e.2) := by
  unfold loggedExtentCovering at h
  split at h
  · rename_i e hfind
    have hover := List.find?_some hfind
    simp only [Bool.and_eq_true, decide_eq_true_eq] at hover
    omega
  · rename_i hnone
    intro e he hover
    have hnot := List.find?_eq_none.mp hnone e he
    simp only [Bool.and_eq_true, decide_eq_true_eq] at hnot
    omega

variable {dev volume} {lba : Lba}

theorem findInPage_spec {pageBase valid : Nat} {bits : Bytes} {fuel index : Nat}
    (h : findInPage volume extents pageBase valid bits fuel index = some lba) :
    ∃ i < valid, lba = pageBase + i ∧ bitClear bits i = true ∧
      volume.geo.isAllocatable lba = true ∧ loggedExtentCovering extents lba = lba := by
  induction fuel generalizing index with
  | zero => cases h
  | succ fuel ih =>
    rw [findInPage] at h
    split at h
    · cases h
    · rename_i hindex
      dsimp only at h
      split at h
      · rename_i hfree
        split at h
        · rename_i hcovered
          cases h
          exact ⟨index, by omega, rfl, hfree.1, hfree.2, hcovered⟩
        · split at h
          · cases h
          · exact ih h
      · exact ih h

theorem findInPages_spec {region page : Nat} {bindings : List BitmapBinding}
    (h : findInPages dev volume extents region page bindings = .ok (some lba)) :
    ∃ i binding bits valid index, bindings[i]? = some binding ∧
      loadAllocationBitmap dev volume region (page + i) binding = .ok (bits, valid) ∧ index < valid ∧
      lba = volume.geo.regionBase region + (page + i) * bitmapPageBlocks + index ∧
      bitClear bits index = true ∧ volume.geo.isAllocatable lba = true ∧ loggedExtentCovering extents lba = lba := by
  induction bindings generalizing page with
  | nil => cases h
  | cons binding rest ih =>
    by_cases hlater : findInPages dev volume extents region (page + 1) rest = .ok (some lba)
    · -- A page found further on is one place earlier in the rest of the list.
      obtain ⟨i, binding', bits, valid, index, hget, hload, hfound⟩ := ih hlater
      rw [show page + 1 + i = page + (i + 1) by omega] at hload hfound
      exact ⟨i + 1, binding', bits, valid, index, hget, hload, hfound⟩
    · rw [findInPages] at h
      split at h
      · exact absurd h hlater
      · obtain ⟨⟨bits, valid⟩, hload, h⟩ := of_bind h
        dsimp only at h
        split at h
        · rename_i found hfind
          cases pure_ok.mp h
          obtain ⟨index, hindex, hlba, hclear, halloc, hcovered⟩ := findInPage_spec hfind
          exact ⟨0, binding, bits, valid, index, rfl, hload, hindex, hlba, hclear, halloc, hcovered⟩
        · exact absurd h hlater

variable {trees}

theorem findInRegions_spec {left region : Nat}
    (h : findInRegions trees dev volume extents left region = .ok (some lba)) :
    FreeForLog trees dev volume extents lba := by
  induction left generalizing region with
  | zero => cases h
  | succ left ih =>
    rw [findInRegions] at h
    obtain ⟨allocation, hallocn, h⟩ := of_bind h
    split at h
    · exact ih h
    · obtain ⟨found, hfound, h⟩ := of_bind h
      split at h
      · cases pure_ok.mp h
        obtain ⟨page, binding, bits, valid, index, hget, hload, hindex, hlba, hclear,
          halloc, hcovered⟩ := findInPages_spec hfound
        rw [Nat.zero_add] at hload hlba
        exact ⟨halloc, ⟨region, page, index, allocation, binding, bits, valid, hlba, hindex,
          hallocn, hget, hload, hclear⟩, unlogged_of_covering hcovered⟩
      · exact ih h

theorem findLogDataBlock_spec {view : View} {freeBlockFloor : Nat}
    (h : findLogDataBlock trees dev volume view freeBlockFloor = .ok lba) :
    FreeForLog trees dev volume (view.operations.flatMap LogOp.dataExtents) lba := by
  obtain ⟨_, -, h⟩ := of_bind h
  replace h := after_check h
  replace h := after_check h
  obtain ⟨reserved, -, h⟩ := of_bind h
  replace h := after_check h
  replace h := after_check h
  obtain ⟨found, hfound, h⟩ := of_bind h
  split at h
  · cases pure_ok.mp h
    exact findInRegions_spec hfound
  · cases h

end

end Afsplus.Portable
