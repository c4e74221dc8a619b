import Mathlib.Algebra.Order.BigOperators.Group.List
import Afsplus.Format.Geometry
import Afsplus.Lib.Bits

/-!
# Bitmap pages and region descriptors

A region's allocation state: bitmap pages with one bit per block, least significant bit first, and the
descriptor that binds the slot and generation of each page.
-/

namespace Afsplus

open Wire Fallible Bits BlockHeader
open List hiding set

structure BitmapPage where
  region : Nat
  pageIndex : Nat
  firstBlock : Nat
  validBlocks : Nat
  bits : Bytes
  deriving DecidableEq, Repr

namespace BitmapPage

def isAllocated (page : BitmapPage) (localIndex : Nat) : Bool := getBit page.bits localIndex

/-- Bits past the page's last block are stored as ones. -/
def sealTrailingBits (page : BitmapPage) : BitmapPage :=
  let trailing := List.range' page.validBlocks (page.bits.length * 8 - page.validBlocks)
  { page with bits := trailing.foldl setBit page.bits }

def allFree (region pageIndex firstBlock validBlocks : Nat) : BitmapPage :=
  sealTrailingBits
    ⟨region, pageIndex, firstBlock, validBlocks, List.replicate (divCeil validBlocks 8) 0⟩

/-- `set_allocated(index, true)`; the formatter never clears a bit. -/
def setAllocated (page : BitmapPage) (localIndex : Nat) : BitmapPage :=
  { page with bits := setBit page.bits localIndex }

def freeBlocks (page : BitmapPage) : Nat :=
  page.validBlocks - ((page.bits.map countOnes).sum - (page.bits.length * 8 - page.validBlocks))

def payload (page : BitmapPage) : Bytes :=
  leBytes 4 page.region ++ leBytes 4 page.pageIndex ++ leBytes 4 page.firstBlock ++
    leBytes 4 page.validBlocks ++ page.sealTrailingBits.bits

def header (page : BitmapPage) (generation : Nat) : BlockHeader :=
  ⟨BlockType.bitmap, 0, page.region, generation, bitmapFixedPayload + page.bits.length⟩

def encode (page : BitmapPage) (blockSize generation : Nat) : Except FormatError Bytes := do
  refuseIf (page.validBlocks = 0 ∨ page.validBlocks > bitmapPageBlocks)
    (.invalid "bitmap page valid block count out of range")
  refuseIf (page.pageIndex * bitmapPageBlocks ≥ 2 ^ 32) (.overflow "bitmap page first block")
  refuseIf (page.firstBlock ≠ page.pageIndex * bitmapPageBlocks)
    (.invalid "bitmap page offset does not match page index")
  refuseIf (page.bits.length ≠ divCeil page.validBlocks 8) (.invalid "bitmap byte length mismatch")
  refuseIf (blockSize < headerSize ∨ bitmapFixedPayload + page.bits.length > blockSize - headerSize)
    (.overflow "region bitmap page exceeds one block")
  pure ((page.header generation).sealPayload blockSize page.payload)

theorem freeBlocks_le (page : BitmapPage) : page.freeBlocks ≤ page.validBlocks :=
  Nat.sub_le _ _

def decode (block : Bytes) : Except FormatError (BitmapPage × Nat) := do
  let header ← BlockHeader.verify block BlockType.bitmap
  let p := header.payload block
  let length := p.length
  refuseIf (header.flags ≠ 0) (.invalid "bitmap header flags are nonzero")
  refuseIf (length < bitmapFixedPayload) (.invalid "bitmap payload too short")
  let (region, p) := readLe 4 p
  let (pageIndex, p) := readLe 4 p
  let (firstBlock, p) := readLe 4 p
  let (validBlocks, p) := readLe 4 p
  refuseIf (validBlocks = 0 ∨ validBlocks > bitmapPageBlocks)
    (.invalid "bitmap page valid block count out of range")
  refuseIf (pageIndex * bitmapPageBlocks ≥ 2 ^ 32) (.overflow "bitmap page first block")
  refuseIf (firstBlock ≠ pageIndex * bitmapPageBlocks)
    (.invalid "bitmap page offset does not match page index")
  refuseIf (length ≠ bitmapFixedPayload + divCeil validBlocks 8)
    (.invalid "bitmap payload length mismatch")
  refuseIf (region ≠ header.owner) (.invalid "bitmap region does not match block owner")
  let page : BitmapPage := ⟨region, pageIndex, firstBlock, validBlocks, p⟩
  refuseIf ((List.range' validBlocks (p.length * 8 - validBlocks)).any fun index =>
      !page.isAllocated index) (.invalid "bitmap trailing bits not sealed")
  pure (page, header.generation)

variable {page : BitmapPage}

theorem trailing_lt {index : Nat}
    (h : index ∈ List.range' page.validBlocks (page.bits.length * 8 - page.validBlocks)) :
    index < page.bits.length * 8 := by
  rw [mem_range'_1] at h
  omega

@[simp] theorem length_sealTrailingBits (page : BitmapPage) : page.sealTrailingBits.bits.length = page.bits.length :=
  length_foldl_setBit _ _

theorem isAllocated_sealTrailingBits (page : BitmapPage) (index : Nat) :
    page.sealTrailingBits.isAllocated index = (page.isAllocated index ||
      decide (page.validBlocks ≤ index ∧ index < page.bits.length * 8)) := by
  have htrailing : (index ∈ List.range' page.validBlocks (page.bits.length * 8 - page.validBlocks)) ↔
      page.validBlocks ≤ index ∧ index < page.bits.length * 8 := by
    rw [mem_range'_1]
    omega
  rw [isAllocated, sealTrailingBits, getBit_foldl_setBit fun _ h => trailing_lt h, isAllocated]
  simp only [htrailing]

/-- Every bit past the page's last block is set. -/
def Sealed (page : BitmapPage) : Prop :=
  page.validBlocks ≤ page.bits.length * 8 ∧
    ∀ index, page.validBlocks ≤ index → index < page.bits.length * 8 → page.isAllocated index = true

theorem sum_trailing (h : page.Sealed) : ∑ i ∈ Finset.range (page.bits.length * 8 - page.validBlocks),
    (getBit page.bits (page.validBlocks + i)).toNat = page.bits.length * 8 - page.validBlocks := by
  have hone : ∀ i ∈ Finset.range (page.bits.length * 8 - page.validBlocks),
      (getBit page.bits (page.validBlocks + i)).toNat = 1 := by
    intro i hi
    have hi := Finset.mem_range.mp hi
    have hbit := h.2 (page.validBlocks + i) (by omega) (by omega)
    rw [isAllocated] at hbit
    rw [hbit]
    rfl
  rw [Finset.sum_congr rfl hone]
  simp

theorem freeBlocks_of_sealed (h : page.Sealed) :
    page.freeBlocks = ∑ i ∈ Finset.range page.validBlocks, (!page.isAllocated i).toNat := by
  obtain ⟨hlen, htrailing⟩ := h
  have hones := sum_countOnes page.bits
  have hsplit : page.bits.length * 8 = page.validBlocks + (page.bits.length * 8 - page.validBlocks) := by
    omega
  have hrest := sum_trailing ⟨hlen, htrailing⟩
  have hboth : ∑ i ∈ Finset.range page.validBlocks, (page.isAllocated i).toNat +
      ∑ i ∈ Finset.range page.validBlocks, (!page.isAllocated i).toNat = page.validBlocks := by
    have hone : ∀ i ∈ Finset.range page.validBlocks,
        (page.isAllocated i).toNat + (!page.isAllocated i).toNat = 1 := by
      intro i _
      cases page.isAllocated i <;> rfl
    rw [← Finset.sum_add_distrib, Finset.sum_congr rfl hone]
    simp
  rw [hsplit, Finset.sum_range_add, hrest] at hones
  simp only [isAllocated] at hboth ⊢
  rw [freeBlocks, hones]
  omega

theorem sealed_sealTrailingBits (hlen : page.validBlocks ≤ page.bits.length * 8) : page.sealTrailingBits.Sealed := by
  refine ⟨by rw [length_sealTrailingBits]; exact hlen, fun index hlow hhigh => ?_⟩
  rw [length_sealTrailingBits] at hhigh
  rw [isAllocated_sealTrailingBits, decide_eq_true ⟨hlow, hhigh⟩, Bool.or_true]

theorem isAllocated_inside {index : Nat} (h : index < page.validBlocks) :
    page.sealTrailingBits.isAllocated index = page.isAllocated index := by
  rw [isAllocated_sealTrailingBits, decide_eq_false (by omega), Bool.or_false]

theorem le_divCeil_mul (n : Nat) : n ≤ divCeil n 8 * 8 := by
  rw [divCeil]
  omega

theorem decode_encode {blockSize generation : Nat} (hreg : page.region < 256 ^ 4)
    (hindex : page.pageIndex < 256 ^ 4) (hgen : generation < 256 ^ 8) {block : Bytes}
    (henc : page.encode blockSize generation = .ok block) :
    decode block = .ok (page.sealTrailingBits, generation) := by
  obtain ⟨hval, henc⟩ := of_refuse henc
  obtain ⟨hoverflow, henc⟩ := of_refuse henc
  obtain ⟨hfirst, henc⟩ := of_refuse henc
  obtain ⟨hlen, henc⟩ := of_refuse henc
  obtain ⟨hroom, henc⟩ := of_refuse henc
  cases henc
  have hfirst' : page.firstBlock < 256 ^ 4 := by
    rw [not_not] at hfirst
    rw [hfirst]
    omega
  have hvalid' : page.validBlocks < 256 ^ 4 := by
    rw [not_or, not_lt] at hval
    exact lt_of_le_of_lt hval.2 (by decide)
  have hpay : page.payload.length = bitmapFixedPayload + page.bits.length := by
    simp only [payload, length_append, length_leBytes, length_sealTrailingBits, bitmapFixedPayload]
  have hsmall : bitmapFixedPayload + page.bits.length < 256 ^ 4 := by
    rw [not_or, not_lt] at hval
    rw [not_not] at hlen
    have hpage : bitmapPageBlocks = 32384 := rfl
    rw [hlen, divCeil, bitmapFixedPayload]
    omega
  have hhdr : (page.header generation).InRange := inRange_mk (hreg.trans (by decide)) hgen hsmall
  unfold decode
  refine bind_ok.mpr ⟨_, verify_sealPayload hhdr hpay.symm _, ?_⟩
  rw [payload_sealPayload hpay.symm]
  dsimp only
  rw [refuseIf_bind (by simp [header]), hpay, refuseIf_bind (by omega)]
  unfold payload
  simp (disch := assumption) only [append_assoc, readLe_append]
  rw [refuseIf_bind hval, refuseIf_bind hoverflow, refuseIf_bind hfirst,
    refuseIf_bind (by rw [not_not] at hlen; rw [hlen]; simp), refuseIf_bind (by simp [header]),
    refuseIf_bind]
  · rfl
  · intro hany
    obtain ⟨index, hmem, hclear⟩ := any_eq_true.mp hany
    have hbit := isAllocated_sealTrailingBits page index
    rw [length_sealTrailingBits, mem_range'_1] at hmem
    rw [decide_eq_true (by omega), Bool.or_true] at hbit
    rw [isAllocated] at hbit hclear
    rw [hbit] at hclear
    cases hclear

attribute [local irreducible] readLe in
theorem decode_eq_ok {block : Bytes} {generation : Nat}
    (h : decode block = .ok (page, generation)) : page.Sealed := by
  obtain ⟨header, -, h⟩ := of_bind h
  replace h := after_check h
  obtain ⟨hshort, h⟩ := of_refuse h
  iterate 3 replace h := after_check h
  obtain ⟨hlen, h⟩ := of_refuse h
  replace h := after_check h
  obtain ⟨htrailing, h⟩ := of_refuse h
  cases h
  rw [not_not] at hlen
  set p := header.payload block
  set validBlocks := (readLe 4 (readLe 4 (readLe 4 (readLe 4 p).2).2).2).1
  set bits := (readLe 4 (readLe 4 (readLe 4 (readLe 4 p).2).2).2).2 with hbits
  have hbytes : bits.length = divCeil validBlocks 8 := by
    rw [hbits, length_readLe, length_readLe, length_readLe, length_readLe, hlen, bitmapFixedPayload]
    omega
  refine ⟨?_, fun index hlow hhigh => ?_⟩
  · show validBlocks ≤ bits.length * 8
    rw [hbytes]
    exact le_divCeil_mul validBlocks
  · by_contra hclear
    refine htrailing (any_eq_true.mpr ⟨index, ?_, ?_⟩)
    · rw [mem_range'_1]
      have hlow : validBlocks ≤ index := hlow
      have hhigh : index < bits.length * 8 := hhigh
      omega
    · simpa using hclear

end BitmapPage

structure BitmapBinding where
  slot : Nat
  freeBlocks : Nat
  generation : Nat
  deriving DecidableEq, Repr

structure RegionDescriptor where
  region : Nat
  validBlocks : Nat
  freeBlocks : Nat
  pages : List BitmapBinding
  deriving DecidableEq, Repr

namespace RegionDescriptor

def fixedPayload : Nat := 16

def pageBindingSize : Nat := 16

def payload (descriptor : RegionDescriptor) : Bytes :=
  leBytes 4 descriptor.region ++ leBytes 4 descriptor.validBlocks ++
    leBytes 4 descriptor.freeBlocks ++ leBytes 4 descriptor.pages.length ++
    descriptor.pages.flatMap fun binding =>
      leBytes 1 binding.slot ++ leBytes 3 0 ++ leBytes 4 binding.freeBlocks ++
        leBytes 8 binding.generation

def payloadLen (descriptor : RegionDescriptor) : Nat :=
  fixedPayload + descriptor.pages.length * pageBindingSize

def header (descriptor : RegionDescriptor) (generation : Nat) : BlockHeader :=
  ⟨BlockType.regionDescriptor, 0, descriptor.region, generation, descriptor.payloadLen⟩

def encode (descriptor : RegionDescriptor) (blockSize generation : Nat) :
    Except FormatError Bytes := do
  refuseIf (descriptor.pages.length > 2 ^ 32 - 1) (.overflow "region descriptor page count")
  refuseIf (blockSize < headerSize ∨ descriptor.payloadLen > blockSize - headerSize)
    (.overflow "region descriptor exceeds one block")
  let sum := (descriptor.pages.map BitmapBinding.freeBlocks).sum
  refuseIf (sum ≥ 2 ^ 32) (.overflow "region free count")
  refuseIf (sum ≠ descriptor.freeBlocks) (.invalid "region descriptor free count mismatch")
  refuseIf (∃ page ∈ descriptor.pages,
      page.slot ≥ bitmapSlots ∨ page.generation = 0 ∨ page.generation > generation)
    (.invalid "region bitmap binding out of range")
  pure ((descriptor.header generation).sealPayload blockSize descriptor.payload)

/-- The three bytes behind a binding's slot are not looked at. -/
def readBindings : Nat → Bytes → List BitmapBinding
  | 0, _ => []
  | count + 1, p =>
    let (slot, p) := readLe 1 p
    let (_, p) := readLe 3 p
    let (freeBlocks, p) := readLe 4 p
    let (generation, p) := readLe 8 p
    ⟨slot, freeBlocks, generation⟩ :: readBindings count p

def decode (block : Bytes) : Except FormatError (RegionDescriptor × Nat) := do
  let header ← BlockHeader.verify block BlockType.regionDescriptor
  let p := header.payload block
  let length := p.length
  refuseIf (header.flags ≠ 0) (.invalid "region descriptor header flags are nonzero")
  refuseIf (length < fixedPayload) (.invalid "region descriptor payload too short")
  let (region, p) := readLe 4 p
  let (validBlocks, p) := readLe 4 p
  let (freeBlocks, p) := readLe 4 p
  let (pageCount, p) := readLe 4 p
  refuseIf (region ≠ header.owner) (.invalid "descriptor region does not match block owner")
  refuseIf (pageCount > (length - fixedPayload) / pageBindingSize ∨
      length ≠ fixedPayload + pageCount * pageBindingSize)
    (.invalid "region descriptor page count exceeds payload")
  pure (⟨region, validBlocks, freeBlocks, readBindings pageCount p⟩, header.generation)

/-- The bindings' own limits, and their running total of free blocks. -/
def validateBindings (geo : Geometry) (region generation : Nat) :
    (page total : Nat) → List BitmapBinding → Except FormatError Nat
  | _, total, [] => .ok total
  | page, total, binding :: rest => do
    refuseIf (binding.slot ≥ bitmapSlots ∨ binding.generation = 0 ∨ binding.generation > generation ∨
        binding.freeBlocks > geo.bitmapPageValidBlocks region page)
      (.invalid "region bitmap binding out of range")
    refuseIf (total + binding.freeBlocks ≥ 2 ^ 32) (.overflow "region free count")
    validateBindings geo region generation (page + 1) (total + binding.freeBlocks) rest

def validate (descriptor : RegionDescriptor) (geo : Geometry) (expectedRegion generation : Nat) :
    Except FormatError Unit := do
  refuseIf (descriptor.region ≠ expectedRegion ∨
      descriptor.validBlocks ≠ geo.regionValidBlocks expectedRegion ∨
      descriptor.pages.length ≠ geo.bitmapPageCount expectedRegion)
    (.invalid "region descriptor geometry mismatch")
  let free ← validateBindings geo expectedRegion generation 0 0 descriptor.pages
  refuseIf (free ≠ descriptor.freeBlocks) (.invalid "region descriptor free count mismatch")

variable {region : Nat} {pages : List BitmapBinding}

theorem readBindings_append
    (hrng : ∀ binding ∈ pages, binding.slot < 256 ^ 1 ∧ binding.freeBlocks < 256 ^ 4 ∧
      binding.generation < 256 ^ 8) :
    readBindings pages.length (pages.flatMap fun binding => leBytes 1 binding.slot ++ leBytes 3 0 ++
      leBytes 4 binding.freeBlocks ++ leBytes 8 binding.generation) = pages := by
  induction pages with
  | nil => rfl
  | cons binding rest ih =>
    obtain ⟨hslot, hfree, hgen⟩ := hrng binding (by simp)
    have htail := ih fun x hx => hrng x (by simp [hx])
    rw [flatMap_cons, length_cons, readBindings]
    simp (disch := first | assumption | decide) only [append_assoc, readLe_append, List.cons.injEq, true_and]
    simp only [append_assoc] at htail
    exact htail

theorem length_payload (descriptor : RegionDescriptor) : descriptor.payload.length = descriptor.payloadLen := by
  rw [payload, payloadLen, length_append, length_flatMap]
  simp [length_leBytes, fixedPayload, pageBindingSize]

/-- The payload with any bytes in place of the bindings. -/
def payloadWith (descriptor : RegionDescriptor) (bindings : Bytes) : Bytes :=
  leBytes 4 descriptor.region ++ leBytes 4 descriptor.validBlocks ++
    leBytes 4 descriptor.freeBlocks ++ leBytes 4 descriptor.pages.length ++ bindings

/-- The field values in front of the bindings fit their widths, and the payload its length field. -/
structure InRange (descriptor : RegionDescriptor) (generation : Nat) : Prop where
  region : descriptor.region < 256 ^ 4
  validBlocks : descriptor.validBlocks < 256 ^ 4
  freeBlocks : descriptor.freeBlocks < 256 ^ 4
  pageCount : descriptor.pages.length < 256 ^ 4
  generation : generation < 256 ^ 8
  payloadLen : descriptor.payloadLen < 256 ^ 4

variable {descriptor : RegionDescriptor}

theorem InRange.header {generation : Nat}
    (hrng : descriptor.InRange generation) : (descriptor.header generation).InRange :=
  inRange_mk (hrng.region.trans (by decide)) hrng.generation hrng.payloadLen

variable {bindings : Bytes}

theorem length_payloadWith (hbinds : bindings.length = descriptor.pages.length * pageBindingSize) :
    (descriptor.payloadWith bindings).length = descriptor.payloadLen := by
  simp only [payloadWith, payloadLen, length_append, length_leBytes, hbinds, fixedPayload]

theorem decode_sealed {generation : Nat} (hrng : descriptor.InRange generation)
    (hbinds : bindings.length = descriptor.pages.length * pageBindingSize)
    (hread : readBindings descriptor.pages.length bindings = descriptor.pages) (blockSize : Nat) :
    decode ((descriptor.header generation).sealPayload blockSize (descriptor.payloadWith bindings)) =
      .ok (descriptor, generation) := by
  have hlen := length_payloadWith hbinds
  unfold decode
  refine bind_ok.mpr ⟨_, verify_sealPayload hrng.header hlen.symm _, ?_⟩
  rw [payload_sealPayload hlen.symm]
  dsimp only
  rw [refuseIf_bind (by simp [header]), hlen, refuseIf_bind (by rw [payloadLen]; omega)]
  unfold payloadWith
  cases hrng
  simp (disch := assumption) only [append_assoc, readLe_append]
  rw [refuseIf_bind (by simp [header]), refuseIf_bind, hread]
  · rfl
  · simp only [not_or, not_lt, not_not, payloadLen, Nat.add_sub_cancel_left, and_true]
    rw [Nat.mul_div_cancel _ (by decide)]

variable {blockSize generation : Nat} {block : Bytes}

theorem encode_eq_ok :
    descriptor.encode blockSize generation = .ok block ↔ descriptor.pages.length ≤ 2 ^ 32 - 1 ∧
      (headerSize ≤ blockSize ∧ descriptor.payloadLen ≤ blockSize - headerSize) ∧
      (descriptor.pages.map BitmapBinding.freeBlocks).sum < 2 ^ 32 ∧
      (descriptor.pages.map BitmapBinding.freeBlocks).sum = descriptor.freeBlocks ∧ (∀ page ∈ descriptor.pages,
        page.slot < bitmapSlots ∧ page.generation ≠ 0 ∧ page.generation ≤ generation) ∧
      block = (descriptor.header generation).sealPayload blockSize descriptor.payload := by
  unfold encode
  rw [refuseIf_ok, refuseIf_ok, refuseIf_ok, refuseIf_ok, refuseIf_ok, pure_ok]
  simp only [not_or, not_lt, not_le, not_not, not_exists, not_and, ne_eq, ge_iff_le, gt_iff_lt]

theorem decode_of_fits (hreg : descriptor.region < 256 ^ 4) (hval : descriptor.validBlocks < 256 ^ 4)
    (hgen : generation < 256 ^ 8) (hfits : descriptor.payloadLen < 256 ^ 4)
    (henc : descriptor.encode blockSize generation = .ok block) : decode block = .ok (descriptor, generation) := by
  obtain ⟨hpages, -, hoverflow, hsum, hbinds, rfl⟩ := encode_eq_ok.mp henc
  have hrng : ∀ binding ∈ descriptor.pages, binding.slot < 256 ^ 1 ∧
      binding.freeBlocks < 256 ^ 4 ∧ binding.generation < 256 ^ 8 := by
    intro binding hmem
    have hle : binding.freeBlocks ≤ (descriptor.pages.map BitmapBinding.freeBlocks).sum :=
      le_sum_of_mem (mem_map_of_mem hmem)
    obtain ⟨hslot, -, hbound⟩ := hbinds binding hmem
    rw [bitmapSlots] at hslot
    omega
  have hlen := length_payload descriptor
  apply decode_sealed ⟨hreg, hval, by rw [← hsum]; exact hoverflow, by omega, hgen, hfits⟩
  · rw [payload, length_append] at hlen
    simp only [length_append, length_leBytes, payloadLen, fixedPayload] at hlen
    omega
  · exact readBindings_append hrng

theorem decode_encode (hreg : descriptor.region < 256 ^ 4) (hval : descriptor.validBlocks < 256 ^ 4)
    (hsize : blockSize < 256 ^ 4) (hgen : generation < 256 ^ 8)
    (henc : descriptor.encode blockSize generation = .ok block) : decode block = .ok (descriptor, generation) := by
  obtain ⟨-, hroom, -⟩ := encode_eq_ok.mp henc
  exact decode_of_fits hreg hval hgen (by omega) henc

/-! ### What a valid descriptor says -/

def BindingOk (geo : Geometry) (region generation page : Nat) (binding : BitmapBinding) : Prop :=
  binding.slot < bitmapSlots ∧ 0 < binding.generation ∧ binding.generation ≤ generation ∧
    binding.freeBlocks ≤ geo.bitmapPageValidBlocks region page

variable {geo : Geometry}

theorem validateBindings_eq_ok {generation page total free : Nat}
    (htotal : total < 2 ^ 32) :
    validateBindings geo region generation page total pages = .ok free ↔
      (∀ i binding, pages[i]? = some binding → BindingOk geo region generation (page + i) binding) ∧
      free = total + (pages.map BitmapBinding.freeBlocks).sum ∧ free < 2 ^ 32 := by
  induction pages generalizing page total with
  | nil =>
    simp only [validateBindings, Except.ok.injEq, getElem?_nil, reduceCtorEq, false_implies,
      implies_true, map_nil, sum_nil, true_and]
    omega
  | cons binding rest ih =>
    rw [validateBindings, refuseIf_ok, refuseIf_ok]
    have hfirst : (¬(binding.slot ≥ bitmapSlots ∨ binding.generation = 0 ∨ binding.generation > generation ∨
        binding.freeBlocks > geo.bitmapPageValidBlocks region page)) ↔
        BindingOk geo region generation page binding := by
      rw [BindingOk]
      omega
    have hsplit : (∀ i b, (binding :: rest)[i]? = some b → BindingOk geo region generation (page + i) b) ↔
        BindingOk geo region generation page binding ∧ ∀ i b, rest[i]? = some b →
          BindingOk geo region generation (page + 1 + i) b := by
      constructor
      · intro h
        refine ⟨h 0 binding rfl, fun i b hb => ?_⟩
        have hlater := h (i + 1) b (by simpa using hb)
        rwa [Nat.add_right_comm, Nat.add_assoc]
      · rintro ⟨hzero, hrest⟩ i b hb
        cases i with
        | zero =>
          cases hb
          exact hzero
        | succ i =>
          have hlater := hrest i b (by simpa using hb)
          rwa [Nat.add_right_comm, Nat.add_assoc] at hlater
    rw [hfirst, hsplit, map_cons, sum_cons]
    constructor
    · rintro ⟨hok, hsum, h⟩
      obtain ⟨hrest, hfree, hlt⟩ := (ih (by omega)).mp h
      exact ⟨⟨hok, hrest⟩, by omega, hlt⟩
    · rintro ⟨⟨hok, hrest⟩, hfree, hlt⟩
      exact ⟨hok, by omega, (ih (by omega)).mpr ⟨hrest, by omega, hlt⟩⟩

theorem validate_eq_ok {generation : Nat} :
    descriptor.validate geo region generation = .ok () ↔ descriptor.region = region ∧
      descriptor.validBlocks = geo.regionValidBlocks region ∧ descriptor.pages.length = geo.bitmapPageCount region ∧
      (∀ page binding, descriptor.pages[page]? = some binding → BindingOk geo region generation page binding) ∧
      descriptor.freeBlocks = (descriptor.pages.map BitmapBinding.freeBlocks).sum ∧
      descriptor.freeBlocks < 2 ^ 32 := by
  rw [validate, refuseIf_ok, bind_ok, not_or, not_or, not_not, not_not, not_not, and_assoc, and_assoc]
  simp only [validateBindings_eq_ok (show 0 < 2 ^ 32 by decide), refuseIf_eq_ok, not_not, Nat.zero_add]
  constructor
  · rintro ⟨hreg, hval, hlen, free, ⟨hok, hfree, hlt⟩, rfl⟩
    exact ⟨hreg, hval, hlen, hok, hfree, hlt⟩
  · rintro ⟨hreg, hval, hlen, hok, hfree, hlt⟩
    exact ⟨hreg, hval, hlen, _, ⟨hok, hfree, hlt⟩, rfl⟩

def bindingField (binding : BitmapBinding) (gap : Nat) : Bytes :=
  leBytes 1 binding.slot ++ leBytes 3 gap ++ leBytes 4 binding.freeBlocks ++
    leBytes 8 binding.generation

/-- The three bytes behind the slot of each binding. -/
def gaps : Nat → Bytes → List Nat
  | 0, _ => []
  | count + 1, p => leNat ((p.drop 1).take 3) :: gaps count (p.drop pageBindingSize)

theorem length_bindingField (binding : BitmapBinding) (gap : Nat) :
    (bindingField binding gap).length = pageBindingSize := by
  simp only [bindingField, length_append, length_leBytes]
  rfl

theorem readBindings_cons {binding : BitmapBinding} {gap : Nat} (hslot : binding.slot < 256 ^ 1)
    (hgap : gap < 256 ^ 3) (hfree : binding.freeBlocks < 256 ^ 4)
    (hgen : binding.generation < 256 ^ 8) (count : Nat) (rest : Bytes) :
    readBindings (count + 1) (bindingField binding gap ++ rest) = binding :: readBindings count rest := by
  rw [readBindings, bindingField]
  simp (disch := assumption) only [append_assoc, readLe_append]

theorem gaps_cons (binding : BitmapBinding) {gap : Nat} (hgap : gap < 256 ^ 3) (count : Nat)
    (rest : Bytes) : gaps (count + 1) (bindingField binding gap ++ rest) = gap :: gaps count rest := by
  rw [gaps, drop_left' (length_bindingField _ _), bindingField, append_assoc,
    append_assoc, append_assoc, drop_left' (length_leBytes _ _),
    take_left' (length_leBytes _ _), leNat_leBytes hgap]

theorem flatMap_readBindings {count : Nat} (hlen : bindings.length = count * pageBindingSize) (tail : Bytes) :
    (readBindings count bindings).length = count ∧
      (((readBindings count bindings).flatMap (bindingField · 0) = bindings) ↔
        ∀ gap ∈ gaps count (bindings ++ tail), gap = 0) := by
  induction count generalizing bindings with
  | zero =>
    have hnil : bindings = [] := by simpa using hlen
    simp [readBindings, gaps, hnil]
  | succ count ih =>
    have hlen : bindings.length = count * 16 + 16 := by
      rw [hlen, Nat.succ_mul, pageBindingSize]
    obtain ⟨slot, p₁, hslot, hlen₁, hp⟩ := exists_field 1 hlen
    obtain ⟨gap, p₂, hgap, hlen₂, rfl⟩ := exists_field 3 hlen₁
    obtain ⟨freeBlocks, p₃, hfree, hlen₃, rfl⟩ := exists_field 4 hlen₂
    obtain ⟨generation, rest, hgen, hrest, rfl⟩ := exists_field 8 hlen₃
    have hsplit : bindings = bindingField ⟨slot, freeBlocks, generation⟩ gap ++ rest := by
      simp only [hp, bindingField, append_assoc]
    obtain ⟨hcnt, hiff⟩ := ih hrest
    rw [hsplit, readBindings_cons hslot hgap hfree hgen, append_assoc,
      gaps_cons _ hgap, length_cons, hcnt, flatMap_cons, forall_mem_cons, ← hiff]
    refine ⟨rfl, ?_⟩
    constructor
    · intro h
      obtain ⟨hfirst, hrest⟩ := append_inj h ((length_bindingField _ _).trans (length_bindingField _ _).symm)
      rw [bindingField, bindingField] at hfirst
      simp only [append_assoc, append_cancel_left_eq] at hfirst
      exact ⟨(leBytes_append_inj (by decide) hgap hfirst).1.symm, hrest⟩
    · intro h
      obtain ⟨rfl, hrest⟩ := h
      rw [hrest]

attribute [local irreducible] readLe in
theorem sealed_of_decode {generation : Nat} (hdec : decode block = .ok (descriptor, generation)) :
    descriptor.InRange generation ∧ headerSize + descriptor.payloadLen ≤ block.length ∧
      ∃ bindings : Bytes, bindings.length = descriptor.pages.length * pageBindingSize ∧
        readBindings descriptor.pages.length bindings = descriptor.pages ∧
        block = (descriptor.header generation).sealPayload block.length (descriptor.payloadWith bindings) := by
  obtain ⟨header, hadm, h⟩ := admitted_of_bind hdec
  obtain ⟨hflags, h⟩ := of_refuse h
  obtain ⟨hshort, h⟩ := of_refuse h
  have hpay := hadm.length_payload
  have hsealed := hadm.sealed
  generalize header.payload block = p at hpay hsealed hshort h
  obtain ⟨howner, h⟩ := of_refuse h
  obtain ⟨hpages, h⟩ := of_refuse h
  obtain ⟨hdesc, rfl⟩ := pure_pair_eq_ok.mp h
  simp only [not_or, not_not, not_lt, ne_eq, fixedPayload] at hflags hshort howner hpages
  set bindings := (readLe 4 (readLe 4 (readLe 4 (readLe 4 p).2).2).2).2 with hbinds
  have hfits : bindings.length = (readLe 4 (readLe 4 (readLe 4 (readLe 4 p).2).2).2).1 * pageBindingSize := by
    simp only [hbinds, length_readLe]
    omega
  have hread := (flatMap_readBindings hfits []).1
  have hcnt := (congrArg (List.length ∘ pages) hdesc).trans hread
  rw [Function.comp_apply] at hcnt
  rw [← hcnt] at hfits
  have hwritten : descriptor.payloadWith bindings = p := by
    rw [payloadWith, hcnt, hdesc]
    simp (disch := first | rfl | omega | simp only [length_readLe]; omega) only [append_assoc,
      leBytes_readLe_append, hbinds]
  have hplen : header.payloadLen = descriptor.payloadLen := by
    rw [← length_payloadWith hfits, hwritten, hpay]
  have hhdr : header = descriptor.header header.generation := by
    apply hadm.eq_mk hflags _ rfl hplen
    rw [hdesc]
    exact howner.symm
  refine ⟨⟨?_, ?_, ?_, hcnt ▸ readLe_lt .., hadm.inRange.generation,
    hplen ▸ hadm.inRange.payloadLen⟩, hplen ▸ hadm.room, bindings, hfits, ?_, ?_⟩
  case refine_4 => rw [hcnt, hdesc]
  case refine_5 => rwa [← hhdr, hwritten]
  all_goals
    rw [hdesc]
    exact readLe_lt ..

/-- A canonical descriptor block has nothing between the fields of its bindings. -/
def Canonical (block : Bytes) : Prop :=
  ∀ gap ∈ gaps (leNat ((block.drop 44).take 4)) (block.drop 48), gap = 0

instance (block : Bytes) : Decidable (Canonical block) :=
  inferInstanceAs (Decidable (∀ gap ∈ _, gap = 0))

theorem canonical_sealed {generation : Nat} (hrng : descriptor.InRange generation) {bindings block : Bytes}
    (hbinds : bindings.length = descriptor.pages.length * pageBindingSize)
    (hread : readBindings descriptor.pages.length bindings = descriptor.pages)
    (hblk : block = (descriptor.header generation).sealPayload block.length (descriptor.payloadWith bindings)) :
    Canonical block ↔ descriptor.pages.flatMap (bindingField · 0) = bindings := by
  have hlen := (length_payloadWith hbinds).symm
  have hadm := admitted_of_verify (verify_sealPayload hrng.header hlen block.length)
  rw [← hblk] at hadm
  have hbody := hadm.body
  have hpay : (descriptor.header generation).payload block = descriptor.payloadWith bindings := by
    rw [hblk]
    exact payload_sealPayload hlen _
  rw [hpay, payloadWith, append_assoc, append_assoc] at hbody
  have hdrop : block.drop 44 = leBytes 4 descriptor.pages.length ++ (bindings ++ List.replicate
      (block.length - headerSize - (descriptor.header generation).payloadLen) 0) := by
    rw [show 44 = headerSize + 12 from rfl, ← drop_drop, hbody]
    apply drop_left'
    simp only [length_append, length_leBytes]
  have hcnt : leNat ((block.drop 44).take 4) = descriptor.pages.length := by
    rw [hdrop, take_left' (length_leBytes _ _), leNat_leBytes hrng.pageCount]
  have hrest : block.drop 48 = bindings ++ List.replicate
      (block.length - headerSize - (descriptor.header generation).payloadLen) 0 := by
    rw [show 48 = 44 + 4 from rfl, ← drop_drop, hdrop, drop_left' (length_leBytes _ _)]
  rw [Canonical, hcnt, hrest, ← (flatMap_readBindings hbinds _).2, hread]

theorem encode_decode_iff {generation : Nat} (hdec : decode block = .ok (descriptor, generation))
    (hval : descriptor.validate geo region generation = .ok ()) :
    descriptor.encode block.length generation = .ok block ↔ Canonical block := by
  obtain ⟨hrng, hroom, bindings, hbinds, hread, hblk⟩ := sealed_of_decode hdec
  obtain ⟨-, -, -, hok, hsum, hfree⟩ := validate_eq_ok.mp hval
  have hpages : ∀ page ∈ descriptor.pages,
      page.slot < bitmapSlots ∧ page.generation ≠ 0 ∧ page.generation ≤ generation := by
    intro page hmem
    obtain ⟨i, hi⟩ := mem_iff_getElem?.mp hmem
    obtain ⟨hslot, hpos, hle, -⟩ := hok i page hi
    exact ⟨hslot, Nat.ne_of_gt hpos, hle⟩
  have hpay : descriptor.payload = descriptor.payloadWith (descriptor.pages.flatMap (bindingField · 0)) := rfl
  rw [canonical_sealed hrng hbinds hread hblk, encode_eq_ok]
  constructor
  · intro h
    obtain ⟨-, -, -, -, -, heq⟩ := h
    have hsame := (sealPayload_inj hrng.header hrng.header
      (length_payloadWith hbinds).symm (length_payload descriptor).symm
      (hblk.symm.trans heq)).2
    rw [hpay, payloadWith, payloadWith, append_cancel_left_eq] at hsame
    exact hsame.symm
  · intro hgaps
    have hcnt := hrng.pageCount
    refine ⟨by omega, ⟨by omega, by omega⟩, hsum ▸ hfree, hsum.symm, hpages, ?_⟩
    rw [hpay, hgaps]
    exact hblk

/-- How far the codec is exact: the encoder does not look whether the payload length fits its header
field, the decoder does not look between the fields of a binding. -/
theorem region_descriptor_codec_exact_iff (descriptor : RegionDescriptor) (generation : Nat) (block : Bytes) :
    (∀ blockSize : Nat, descriptor.region < 256 ^ 4 → descriptor.validBlocks < 256 ^ 4 →
      generation < 256 ^ 8 → descriptor.encode blockSize generation = .ok block →
      (decode block = .ok (descriptor, generation) ↔ descriptor.payloadLen < 256 ^ 4)) ∧
    ∀ (region : Nat) (geo : Geometry), decode block = .ok (descriptor, generation) →
      descriptor.validate geo region generation = .ok () →
      (descriptor.encode block.length generation = .ok block ↔ Canonical block) := by
  constructor
  · intro blockSize hregion hvalid hgeneration hencode
    constructor
    · intro hdecode
      exact (sealed_of_decode hdecode).1.payloadLen
    · intro hfits
      exact decode_of_fits hregion hvalid hgeneration hfits hencode
  · intro region geo hdecode hvalid
    exact encode_decode_iff hdecode hvalid

def sample : RegionDescriptor := ⟨0, 16, 7, [⟨1, 7, 2⟩]⟩

theorem sample_inRange : sample.InRange 3 :=
  by constructor <;> decide

theorem sample_validate : sample.validate ⟨4096, 16, 16⟩ 0 3 = .ok () := by decide

theorem region_descriptor_codec_exact_iff_sample :
    ∃ block, sample.encode 4096 3 = .ok block ∧ decode block = .ok (sample, 3) ∧
      sample.validate ⟨4096, 16, 16⟩ 0 3 = .ok () ∧ (sample.encode block.length 3 = .ok block ↔ Canonical block) := by
  have hencode : sample.encode 4096 3 = .ok ((sample.header 3).sealPayload 4096 sample.payload) :=
    encode_eq_ok.mpr ⟨by decide, by decide, by decide, by decide, by decide, rfl⟩
  obtain ⟨hwritten, hread⟩ := region_descriptor_codec_exact_iff sample 3
    ((sample.header 3).sealPayload 4096 sample.payload)
  have hdecode := (hwritten 4096 (by decide) (by decide) (by decide) hencode).mpr (by decide)
  exact ⟨_, hencode, hdecode, sample_validate, hread _ _ hdecode sample_validate⟩

/-- A byte behind a binding's slot is read past, and lost when the descriptor is written again. -/
theorem region_descriptor_codec_inexact :
    ∃ block, decode block = .ok (sample, 3) ∧ sample.validate ⟨4096, 16, 16⟩ 0 3 = .ok () ∧
      sample.encode block.length 3 ≠ .ok block := by
  have hlength : (bindingField ⟨1, 7, 2⟩ 1).length = sample.pages.length * pageBindingSize := length_bindingField _ _
  have hread : readBindings sample.pages.length (bindingField ⟨1, 7, 2⟩ 1) = sample.pages := by
    decide
  have hpayload := length_payloadWith hlength
  have hsize : ((sample.header 3).sealPayload 4096
      (sample.payloadWith (bindingField ⟨1, 7, 2⟩ 1))).length = 4096 := by
    apply length_sealPayload
    rw [hpayload]
    decide
  have hdecode := decode_sealed sample_inRange hlength hread 4096
  refine ⟨_, hdecode, sample_validate, ?_⟩
  intro hencode
  have hcanonical := (encode_decode_iff hdecode sample_validate).mp hencode
  have hgaps := (canonical_sealed sample_inRange hlength hread (by rw [hsize])).mp hcanonical
  exact absurd hgaps (by decide)

end RegionDescriptor

/-- What the allocation root says about a region. -/
structure RegionRecord where
  descriptorSlot : Nat
  freeBlocks : Nat
  descriptorGeneration : Nat
  deriving DecidableEq, Repr

end Afsplus
