import Mathlib.Data.List.Nodup
import Afsplus.Format.Header

/-!
# Region geometry and reserved areas

Each region starts with three descriptor slots and three slots for every bitmap page; region 0 has the
identification block and the two checkpoint slots in front of them. The bootstrap metadata, the
allocation-root pool and the intent-log slots follow, in this order, as the first allocatable blocks
of the volume, so every implementation derives their addresses from the geometry alone.
-/

namespace Afsplus

open List hiding min

def bitmapFixedPayload : Nat := 16

def bitmapPageBlocks : Nat := (4096 - headerSize - bitmapFixedPayload) * 8

def bitmapSlots : Nat := 3

def descriptorSlots : Nat := 3

def bootstrapBlocks : Nat := 3

def bootstrapMetadataBlocks : Nat := 4

def maxRegionBlocks : Nat := 262144

def minRegionBlocks : Nat := 16

def divCeil (a b : Nat) : Nat := (a + b - 1) / b

structure Geometry where
  blockSize : Nat
  totalBlocks : Nat
  regionSize : Nat
  deriving DecidableEq, Repr

namespace Geometry

variable (geo : Geometry)

def regionCount : Nat := divCeil geo.totalBlocks geo.regionSize

def regionBase (region : Nat) : Nat := region * geo.regionSize

def regionValidBlocks (region : Nat) : Nat :=
  min (geo.totalBlocks - geo.regionBase region) geo.regionSize

def regionOf (lba : Nat) : Nat := lba / geo.regionSize

def bitmapPageCount (region : Nat) : Nat := divCeil (geo.regionValidBlocks region) bitmapPageBlocks

def bitmapPageValidBlocks (region page : Nat) : Nat :=
  min (geo.regionValidBlocks region - page * bitmapPageBlocks) bitmapPageBlocks

def regionReservedBlocks (region : Nat) : Nat :=
  descriptorSlots + geo.bitmapPageCount region * bitmapSlots

/-- Identification and checkpoints stand in front of region 0's own metadata. -/
def regionHead (region : Nat) : Nat := if region = 0 then bootstrapBlocks else 0

def regionHasAllocatableBlocks (region : Nat) : Bool :=
  geo.regionValidBlocks region > geo.regionReservedBlocks region + regionHead region

def validate : Except FormatError Unit :=
  if geo.blockSize ≠ 4096 then .error (.invalid "prototype supports only 4 KiB blocks")
  else if ¬geo.regionSize.isPowerOfTwo ∨ geo.regionSize < minRegionBlocks ∨
      geo.regionSize > maxRegionBlocks then
    .error (.invalid "region size out of prototype range")
  else if geo.totalBlocks = 0 then .error (.invalid "total_blocks is zero")
  else if divCeil geo.totalBlocks geo.regionSize > 2 ^ 32 - 1 then
    .error (.invalid "too many allocation regions")
  else if ¬geo.regionHasAllocatableBlocks 0 ∨
      (geo.regionCount - 1 ≠ 0 ∧ ¬geo.regionHasAllocatableBlocks (geo.regionCount - 1)) then
    .error (.invalid "allocation region is all reserved metadata")
  else .ok ()

def region0ReservedBlocks : Nat := bootstrapBlocks + geo.regionReservedBlocks 0

def descriptorSlotLba (region slot : Nat) : Nat := geo.regionBase region + regionHead region + slot

def bitmapSlotLba (region page slot : Nat) : Nat :=
  geo.regionBase region + regionHead region + descriptorSlots + page * bitmapSlots + slot

def isReserved (lba : Nat) : Bool :=
  lba < geo.totalBlocks && lba - geo.regionBase (geo.regionOf lba) <
    geo.regionReservedBlocks (geo.regionOf lba) + regionHead (geo.regionOf lba)

def isAllocatable (lba : Nat) : Bool :=
  lba < geo.totalBlocks && lba - geo.regionBase (geo.regionOf lba) ≥
    geo.regionReservedBlocks (geo.regionOf lba) + regionHead (geo.regionOf lba)

def fixedItemCapacity (blockSize keyLen valueLen : Nat) : Nat :=
  (blockSize - (headerSize + 32)) / (8 + keyLen + valueLen)

/-- Levels of internal nodes over `level` nodes, each of full fanout, up to a single root. -/
def logicalNodesAbove (fanout : Nat) : (fuel level total : Nat) → Nat
  | 0, _, total => total
  | fuel + 1, level, total =>
    if level > 1 then
      logicalNodesAbove fanout fuel (divCeil level fanout) (total + divCeil level fanout)
    else total

/-- Logical nodes of the bulk-packed allocation-root tree: four-byte region keys, 16-byte values. -/
def allocationRootLogicalNodes : Except FormatError Nat :=
  let leafCapacity := fixedItemCapacity geo.blockSize 4 16
  let fanout := fixedItemCapacity geo.blockSize 4 16 + 1
  if geo.blockSize < headerSize + 32 then .error (.overflow "tree node fixed payload")
  else if leafCapacity = 0 ∨ fanout < 2 then
    .error (.invalid "block cannot hold an allocation-root node")
  else
    let level := divCeil geo.regionCount leafCapacity
    .ok (logicalNodesAbove fanout level level level)

def allocatableBlocks : List Nat :=
  (List.range' geo.region0ReservedBlocks (geo.totalBlocks - geo.region0ReservedBlocks)).filter
    fun lba => geo.isAllocatable lba

/-- The `count` allocatable blocks after the first `skip`. -/
def reservedRun (skip count : Nat) : Except FormatError (List Nat) :=
  let run := (geo.allocatableBlocks.drop skip).take count
  if run.length = count then .ok run
  else .error (.invalid "volume cannot hold its reserved metadata areas")

def allocationRootPoolLbas : Except FormatError (List Nat) := do
  let nodes ← geo.allocationRootLogicalNodes
  geo.reservedRun bootstrapMetadataBlocks (nodes * 3)

def intentLogSlotLbas (logSlots : Nat) : Except FormatError (List Nat) :=
  if logSlots = 0 then .ok []
  else do
    let nodes ← geo.allocationRootLogicalNodes
    geo.reservedRun (bootstrapMetadataBlocks + nodes * 3) logSlots

structure Valid (geo : Geometry) : Prop where
  blockSize : geo.blockSize = 4096
  powerOfTwo : geo.regionSize.isPowerOfTwo
  minRegion : 16 ≤ geo.regionSize
  maxRegion : geo.regionSize ≤ 262144
  totalBlocks : 0 < geo.totalBlocks
  regionCount : divCeil geo.totalBlocks geo.regionSize ≤ 2 ^ 32 - 1
  firstRegion : geo.regionHasAllocatableBlocks 0 = true
  lastRegion : geo.regionCount - 1 ≠ 0 → geo.regionHasAllocatableBlocks (geo.regionCount - 1) = true

variable {geo} in
theorem valid_of_validate {u : Unit} (h : geo.validate = .ok u) : geo.Valid := by
  unfold validate at h
  split at h
  · cases h
  rename_i hsize
  split at h
  · cases h
  rename_i hreg
  split at h
  · cases h
  rename_i htotal
  split at h
  · cases h
  rename_i hcnt
  split at h
  · cases h
  rename_i halloc
  simp only [not_or, not_not, minRegionBlocks, maxRegionBlocks] at hreg
  simp only [not_or, not_and, not_not] at halloc
  exact ⟨not_not.mp hsize, hreg.1, by omega, by omega, by omega, by omega, halloc.1, halloc.2⟩

theorem bitmapPageCount_le (hvalid : geo.Valid) (region : Nat) : geo.bitmapPageCount region ≤ 9 := by
  have hmax := hvalid.maxRegion
  have hblks : geo.regionValidBlocks region ≤ geo.regionSize := Nat.min_le_right _ _
  have hpage : bitmapPageBlocks = 32384 := rfl
  rw [bitmapPageCount, divCeil, hpage]
  omega

theorem region0ReservedBlocks_le (hvalid : geo.Valid) : geo.region0ReservedBlocks ≤ 33 := by
  have hpages := bitmapPageCount_le geo hvalid 0
  simp only [region0ReservedBlocks, regionReservedBlocks, bootstrapBlocks, descriptorSlots, bitmapSlots]
  omega

/-! ### What the areas guarantee -/

variable {lba : Nat}

theorem mem_allocatableBlocks (h : lba ∈ geo.allocatableBlocks) : geo.isAllocatable lba = true :=
  (mem_filter.mp h).2

theorem nodup_allocatableBlocks : geo.allocatableBlocks.Nodup :=
  (nodup_range' ..).filter _

variable {geo} {skip count : Nat} {run : List Nat}

theorem reservedRun_eq_ok :
    geo.reservedRun skip count = .ok run ↔
      run = (geo.allocatableBlocks.drop skip).take count ∧ run.length = count := by
  unfold reservedRun
  dsimp only
  split
  · rename_i hlen
    constructor
    · intro h
      cases h
      exact ⟨rfl, hlen⟩
    · rintro ⟨rfl, -⟩
      rfl
  · rename_i hlen
    constructor
    · intro h
      cases h
    · rintro ⟨rfl, h⟩
      exact absurd h hlen

theorem allocatable_of_mem_reservedRun (hrun : geo.reservedRun skip count = .ok run) (h : lba ∈ run) :
    geo.isAllocatable lba = true := by
  obtain ⟨rfl, -⟩ := reservedRun_eq_ok.mp hrun
  exact geo.mem_allocatableBlocks (mem_of_mem_drop (mem_of_mem_take h))

variable {slots : List Nat} {logSlots : Nat}

variable (hslots : geo.intentLogSlotLbas logSlots = .ok slots)

include hslots

theorem intentLogSlotLbas_eq_ok :
    (slots = [] ∧ logSlots = 0) ∨ ∃ nodes, geo.allocationRootLogicalNodes = .ok nodes ∧
      geo.reservedRun (bootstrapMetadataBlocks + nodes * 3) logSlots = .ok slots := by
  unfold intentLogSlotLbas at hslots
  split at hslots
  · rename_i hzero
    cases hslots
    exact .inl ⟨rfl, hzero⟩
  · cases hnodes : geo.allocationRootLogicalNodes with
    | error e => simp [hnodes, bind, Except.bind] at hslots
    | ok nodes =>
      rw [hnodes] at hslots
      exact .inr ⟨nodes, rfl, hslots⟩

theorem allocatable_of_mem_logSlots (h : lba ∈ slots) : geo.isAllocatable lba = true := by
  obtain ⟨rfl, -⟩ | ⟨nodes, -, hrun⟩ := intentLogSlotLbas_eq_ok hslots
  · cases h
  · exact allocatable_of_mem_reservedRun hrun h

theorem length_logSlots : slots.length = logSlots := by
  obtain ⟨rfl, rfl⟩ | ⟨nodes, -, hrun⟩ := intentLogSlotLbas_eq_ok hslots
  · rfl
  · exact (reservedRun_eq_ok.mp hrun).2

omit hslots

theorem regionValidBlocks_zero (geo : Geometry) :
    geo.regionValidBlocks 0 = min geo.totalBlocks geo.regionSize := by
  simp [regionValidBlocks, regionBase]

theorem region0ReservedBlocks_add_le (hvalid : geo.Valid) (hmin : 16 ≤ geo.totalBlocks) :
    geo.region0ReservedBlocks + 4 ≤ geo.regionValidBlocks 0 := by
  have hreg := hvalid.minRegion
  have hpage : bitmapPageBlocks = 32384 := rfl
  have hblks := regionValidBlocks_zero geo
  have hpages : geo.bitmapPageCount 0 = (geo.regionValidBlocks 0 + 32384 - 1) / 32384 := by
    rw [bitmapPageCount, divCeil, hpage]
  simp only [region0ReservedBlocks, regionReservedBlocks, bootstrapBlocks, descriptorSlots, bitmapSlots, hpages]
  omega

theorem isAllocatable_bootstrap (hvalid : geo.Valid) (hmin : 16 ≤ geo.totalBlocks) {i : Nat}
    (hi : i < 4) : geo.isAllocatable (geo.region0ReservedBlocks + i) = true := by
  have hroom := region0ReservedBlocks_add_le hvalid hmin
  have hblks := regionValidBlocks_zero geo
  have hreg : geo.regionOf (geo.region0ReservedBlocks + i) = 0 := Nat.div_eq_of_lt (by omega)
  have hhead : geo.regionReservedBlocks 0 + regionHead 0 = geo.region0ReservedBlocks := by
    rw [region0ReservedBlocks, regionHead, if_pos rfl, Nat.add_comm]
  simp only [isAllocatable, hreg, hhead, regionBase, Bool.and_eq_true, decide_eq_true_eq]
  omega

theorem allocatableBlocks_eq (hvalid : geo.Valid) (hmin : 16 ≤ geo.totalBlocks) :
    ∃ rest, geo.allocatableBlocks = List.range' geo.region0ReservedBlocks 4 ++ rest := by
  have hroom := region0ReservedBlocks_add_le hvalid hmin
  have hblks := regionValidBlocks_zero geo
  have hsplit : geo.totalBlocks - geo.region0ReservedBlocks
      = 4 + (geo.totalBlocks - geo.region0ReservedBlocks - 4) := by omega
  have hfirst : (List.range' geo.region0ReservedBlocks 4).filter (fun lba => geo.isAllocatable lba)
      = List.range' geo.region0ReservedBlocks 4 := by
    rw [filter_eq_self]
    intro lba hmem
    obtain ⟨i, hi, rfl⟩ := mem_range'.mp hmem
    rw [Nat.one_mul]
    exact isAllocatable_bootstrap hvalid hmin hi
  rw [allocatableBlocks, hsplit, ← range'_append_1, filter_append, hfirst]
  exact ⟨_, rfl⟩

theorem bootstrap_mem_take (hvalid : geo.Valid) (hmin : 16 ≤ geo.totalBlocks) {i : Nat}
    (hi : i < 4) : geo.region0ReservedBlocks + i ∈ geo.allocatableBlocks.take 4 := by
  obtain ⟨rest, hrest⟩ := allocatableBlocks_eq hvalid hmin
  rw [hrest, take_left' (by simp)]
  exact mem_range'.mpr ⟨i, hi, by omega⟩

theorem mem_reservedRun (hrun : geo.reservedRun skip count = .ok run) (h : lba ∈ run) :
    lba ∈ geo.allocatableBlocks.drop skip ∧ lba ∈ geo.allocatableBlocks.take (skip + count) := by
  obtain ⟨rfl, -⟩ := reservedRun_eq_ok.mp hrun
  refine ⟨mem_of_mem_take h, ?_⟩
  rw [take_drop] at h
  exact mem_of_mem_drop h

theorem ne_of_mem_take_drop {k : Nat} {a b : Nat} (ha : a ∈ geo.allocatableBlocks.take k)
    (hb : b ∈ geo.allocatableBlocks.drop k) : a ≠ b := by
  intro hab
  exact disjoint_take_drop geo.nodup_allocatableBlocks (le_refl k) ha (hab ▸ hb)

variable (hvalid : geo.Valid)

include hvalid

theorem regionCount_pos : 0 < geo.regionCount := by
  have htotal := hvalid.totalBlocks
  have hreg := hvalid.minRegion
  exact Nat.div_pos (by omega) (by omega)

variable {region : Nat}

omit hvalid in
theorem mul_regionSize_lt (h : region < geo.regionCount) (hvalid : geo.Valid) :
    region * geo.regionSize < geo.totalBlocks := by
  have hreg := hvalid.minRegion
  have htotal := hvalid.totalBlocks
  have hle : (region + 1) * geo.regionSize ≤ geo.totalBlocks + geo.regionSize - 1 :=
    (Nat.le_div_iff_mul_le (by omega)).mp h
  rw [Nat.add_mul] at hle
  omega

theorem reservedHead_lt_valid (h : region < geo.regionCount) :
    geo.regionReservedBlocks region + regionHead region < geo.regionValidBlocks region := by
  by_cases hzero : region = 0
  · subst hzero
    exact of_decide_eq_true hvalid.firstRegion
  · by_cases hlast : region = geo.regionCount - 1
    · subst hlast
      exact of_decide_eq_true (hvalid.lastRegion hzero)
    · -- a region in the middle is full
      have hnext := mul_regionSize_lt (show region + 1 < geo.regionCount by omega) hvalid
      have hreg := hvalid.minRegion
      have hfull : geo.regionValidBlocks region = geo.regionSize := by
        rw [Nat.add_mul] at hnext
        rw [regionValidBlocks, regionBase]
        omega
      have hpage : bitmapPageBlocks = 32384 := rfl
      simp only [regionHead, if_neg hzero, regionReservedBlocks, bitmapPageCount, divCeil, hpage,
        descriptorSlots, bitmapSlots, hfull]
      omega

theorem reservedHead_lt (h : region < geo.regionCount) :
    geo.regionReservedBlocks region + regionHead region < geo.regionSize :=
  lt_of_lt_of_le (reservedHead_lt_valid hvalid h) (Nat.min_le_right _ _)

variable {offset slot page other otherSlot : Nat}

omit hvalid in
theorem regionOf_add {region : Nat} (h : offset < geo.regionSize) :
    geo.regionOf (geo.regionBase region + offset) = region := by
  rw [regionOf, regionBase, Nat.mul_comm, Nat.mul_add_div (by omega), Nat.div_eq_of_lt h,
    Nat.add_zero]

/-- The block at an offset of a region's own metadata. -/
def headLba (geo : Geometry) (region offset : Nat) : Nat := geo.regionBase region + regionHead region + offset

section

variable (h : region < geo.regionCount) (hoff : offset < geo.regionReservedBlocks region)

include h hoff

theorem regionOf_headLba : geo.regionOf (geo.headLba region offset) = region := by
  have hhead := reservedHead_lt hvalid h
  rw [headLba, Nat.add_assoc]
  exact regionOf_add (by omega)

theorem headLba_lt : geo.headLba region offset < geo.totalBlocks := by
  have hhead := reservedHead_lt_valid hvalid h
  rw [regionValidBlocks] at hhead
  rw [headLba]
  omega

theorem head_not_allocatable : geo.isAllocatable (geo.headLba region offset) = false ∧ 3 ≤ geo.headLba region offset := by
  have hreg := regionOf_headLba hvalid h hoff
  constructor
  · simp only [isAllocatable, hreg, Bool.and_eq_false_iff, decide_eq_false_iff_not]
    rw [headLba]
    omega
  · by_cases hzero : region = 0
    · rw [headLba, hzero, regionHead, if_pos rfl, bootstrapBlocks]
      omega
    · have hsize := hvalid.minRegion
      have hbase : geo.regionSize ≤ geo.regionBase region := Nat.le_mul_of_pos_left _ (Nat.pos_of_ne_zero hzero)
      rw [headLba]
      omega

end

omit hvalid

theorem descriptorSlotLba_eq (geo : Geometry) (region slot : Nat) :
    geo.descriptorSlotLba region slot = geo.headLba region slot := rfl

theorem bitmapSlotLba_eq (geo : Geometry) (region page slot : Nat) :
    geo.bitmapSlotLba region page slot = geo.headLba region (descriptorSlots + page * bitmapSlots + slot) := by
  rw [bitmapSlotLba, headLba]
  omega

theorem descriptorSlot_lt {region : Nat} (hslot : slot < descriptorSlots) :
    slot < geo.regionReservedBlocks region := by
  rw [regionReservedBlocks]
  omega

theorem bitmapSlot_lt {region : Nat} (hpage : page < geo.bitmapPageCount region)
    (hslot : slot < bitmapSlots) : descriptorSlots + page * bitmapSlots + slot < geo.regionReservedBlocks region := by
  rw [bitmapSlots] at hslot
  rw [regionReservedBlocks, bitmapSlots]
  omega

/-- The two checkpoint slots and the identification block are not allocatable. -/
theorem three_le_of_allocatable (h : geo.isAllocatable lba = true) : 3 ≤ lba := by
  by_contra hlt
  simp only [isAllocatable, Bool.and_eq_true, decide_eq_true_eq] at h
  obtain ⟨-, h⟩ := h
  by_cases hzero : geo.regionOf lba = 0
  · rw [hzero, regionHead, if_pos rfl, bootstrapBlocks] at h
    omega
  · rw [regionReservedBlocks, descriptorSlots] at h
    omega

theorem totalBlocks_le_regionBase (hvalid : geo.Valid) : geo.totalBlocks ≤ geo.regionBase geo.regionCount := by
  have hsize := hvalid.minRegion
  have hdiv := Nat.lt_div_mul_add (a := geo.totalBlocks + geo.regionSize - 1) (show 0 < geo.regionSize by omega)
  rw [regionBase, regionCount, divCeil]
  omega

theorem regionOf_lt (hvalid : geo.Valid) {lba : Nat} (h : lba < geo.totalBlocks) : geo.regionOf lba < geo.regionCount := by
  have htotal := totalBlocks_le_regionBase hvalid
  rw [regionBase, Nat.mul_comm] at htotal
  exact Nat.div_lt_of_lt_mul (by omega)

theorem isAllocatable_offset {region : Nat} (h : offset < geo.regionValidBlocks region) :
    geo.isAllocatable (geo.regionBase region + offset) = true ↔
      geo.regionReservedBlocks region + regionHead region ≤ offset := by
  have hsize : offset < geo.regionSize := lt_of_lt_of_le h (Nat.min_le_right _ _)
  rw [regionValidBlocks] at h
  simp only [isAllocatable, regionOf_add hsize, Bool.and_eq_true, decide_eq_true_eq,
    Nat.add_sub_cancel_left, ge_iff_le, and_iff_right_iff_imp]
  omega

/-! ### The partition -/

/-- What a block of the volume is for. -/
inductive Use where
  | bootstrap (index : Nat)
  | descriptor (region slot : Nat)
  | bitmap (region page slot : Nat)
  | allocatable (lba : Nat)
  deriving DecidableEq

namespace Use

def address (geo : Geometry) : Use → Nat
  | bootstrap index => index
  | descriptor region slot => geo.descriptorSlotLba region slot
  | bitmap region page slot => geo.bitmapSlotLba region page slot
  | allocatable lba => lba

def Present (geo : Geometry) : Use → Prop
  | bootstrap index => index < bootstrapBlocks
  | descriptor region slot => region < geo.regionCount ∧ slot < descriptorSlots
  | bitmap region page slot => region < geo.regionCount ∧ page < geo.bitmapPageCount region ∧ slot < bitmapSlots
  | allocatable lba => geo.isAllocatable lba = true

/-- The use of an offset behind a region's bootstrap blocks. -/
def ofHead (region offset : Nat) : Use :=
  if offset < descriptorSlots then descriptor region offset
  else bitmap region ((offset - descriptorSlots) / bitmapSlots) ((offset - descriptorSlots) % bitmapSlots)

def ofLba (geo : Geometry) (lba : Nat) : Use :=
  let region := geo.regionOf lba
  let offset := lba - geo.regionBase region
  if geo.isAllocatable lba then allocatable lba
  else if offset < regionHead region then bootstrap lba
  else ofHead region (offset - regionHead region)

variable (hvalid : geo.Valid)

include hvalid

theorem ofLba_headLba {region offset : Nat} (h : region < geo.regionCount)
    (hoff : offset < geo.regionReservedBlocks region) : ofLba geo (geo.headLba region offset) = ofHead region offset := by
  have hbase : geo.headLba region offset - geo.regionBase region = regionHead region + offset := by
    rw [headLba]
    omega
  simp only [ofLba, regionOf_headLba hvalid h hoff, (head_not_allocatable hvalid h hoff).1, hbase]
  rw [if_neg (by decide), if_neg (by omega), Nat.add_sub_cancel_left]

theorem ofLba_address {use : Use} (h : use.Present geo) : use.address geo < geo.totalBlocks ∧ ofLba geo (use.address geo) = use := by
  cases use with
  | bootstrap index =>
    have hroom := reservedHead_lt_valid hvalid (regionCount_pos hvalid)
    have hsize := hvalid.minRegion
    have hlow : index < 3 := h
    have hreg : geo.regionOf index = 0 := Nat.div_eq_of_lt (by omega)
    have hnot : geo.isAllocatable index = false := by
      by_contra halloc
      have := three_le_of_allocatable (Bool.eq_true_of_not_eq_false halloc)
      omega
    constructor
    · rw [regionHead, if_pos rfl, bootstrapBlocks, regionValidBlocks] at hroom
      exact Nat.lt_of_lt_of_le hlow (by omega)
    · simp only [ofLba, address, hreg, hnot, regionBase]
      rw [if_neg (by decide), Nat.zero_mul]
      exact if_pos h
  | descriptor region slot =>
    have hoff : slot < geo.regionReservedBlocks region := descriptorSlot_lt h.2
    rw [address, descriptorSlotLba_eq, ofLba_headLba hvalid h.1 hoff]
    exact ⟨headLba_lt hvalid h.1 hoff, if_pos h.2⟩
  | bitmap region page slot =>
    have hoff := bitmapSlot_lt h.2.1 h.2.2
    rw [address, bitmapSlotLba_eq, ofLba_headLba hvalid h.1 hoff, ofHead, if_neg (by omega)]
    refine ⟨headLba_lt hvalid h.1 hoff, ?_⟩
    have hslot : slot < 3 := h.2.2
    rw [bitmap.injEq, bitmapSlots]
    omega
  | allocatable lba =>
    exact ⟨of_decide_eq_true (Bool.and_eq_true_iff.mp h).1, if_pos h⟩

theorem address_ofLba {block : Nat} (h : block < geo.totalBlocks) :
    (ofLba geo block).Present geo ∧ (ofLba geo block).address geo = block := by
  have hsize := hvalid.minRegion
  have hreg := regionOf_lt hvalid h
  have hbase : geo.regionBase (geo.regionOf block) ≤ block := Nat.div_mul_le_self _ _
  unfold ofLba
  dsimp only
  split
  · rename_i halloc
    exact ⟨halloc, rfl⟩
  rename_i hnot
  have hoff : block - geo.regionBase (geo.regionOf block) <
      geo.regionReservedBlocks (geo.regionOf block) + regionHead (geo.regionOf block) := by
    simpa [isAllocatable, h] using hnot
  generalize geo.regionOf block = region at *
  split
  · rename_i hlow
    by_cases hzero : region = 0
    · subst hzero
      rw [regionBase, Nat.zero_mul] at hlow
      exact ⟨hlow, rfl⟩
    · rw [regionHead, if_neg hzero] at hlow
      omega
  rename_i hhead
  rw [ofHead]
  split
  · rename_i hslot
    refine ⟨⟨hreg, hslot⟩, ?_⟩
    rw [address, descriptorSlotLba]
    omega
  · rename_i hslot
    rw [regionReservedBlocks, descriptorSlots, bitmapSlots] at hoff
    rw [descriptorSlots] at hslot ⊢
    refine ⟨⟨hreg, ?_, Nat.mod_lt _ (by decide)⟩, ?_⟩
    · rw [bitmapSlots]
      omega
    · rw [address, bitmapSlotLba, descriptorSlots, bitmapSlots]
      omega

theorem address_inj {use other : Use} (h : use.Present geo) (hoth : other.Present geo)
    (heq : use.address geo = other.address geo) : use = other := by
  rw [← (ofLba_address hvalid h).2, heq, (ofLba_address hvalid hoth).2]

end Use

variable (hvalid : geo.Valid)

include hvalid

theorem descriptorSlotLba_inj {region : Nat}
    (h : region < geo.regionCount) (hoth : other < geo.regionCount) (hslot : slot < descriptorSlots)
    (hotherSlot : otherSlot < descriptorSlots)
    (heq : geo.descriptorSlotLba region slot = geo.descriptorSlotLba other otherSlot) :
    region = other ∧ slot = otherSlot :=
  Use.descriptor.inj (@Use.address_inj _ hvalid (.descriptor ..) (.descriptor ..) ⟨h, hslot⟩ ⟨hoth, hotherSlot⟩ heq)

theorem bitmapSlotLba_inj {region otherPage : Nat} (h : region < geo.regionCount) (hoth : other < geo.regionCount)
    (hpage : page < geo.bitmapPageCount region) (hotherPage : otherPage < geo.bitmapPageCount other)
    (hslot : slot < bitmapSlots) (hotherSlot : otherSlot < bitmapSlots)
    (heq : geo.bitmapSlotLba region page slot = geo.bitmapSlotLba other otherPage otherSlot) :
    region = other ∧ page = otherPage ∧ slot = otherSlot :=
  Use.bitmap.inj (@Use.address_inj _ hvalid (.bitmap ..) (.bitmap ..) ⟨h, hpage, hslot⟩ ⟨hoth, hotherPage, hotherSlot⟩ heq)

theorem bitmapSlotLba_ne_descriptorSlotLba {region : Nat} (h : region < geo.regionCount)
    (hoth : other < geo.regionCount) (hpage : page < geo.bitmapPageCount region)
    (hslot : slot < bitmapSlots) (hotherSlot : otherSlot < descriptorSlots) :
    geo.bitmapSlotLba region page slot ≠ geo.descriptorSlotLba other otherSlot :=
  fun heq => Use.noConfusion (@Use.address_inj _ hvalid (.bitmap ..) (.descriptor ..) ⟨h, hpage, hslot⟩ ⟨hoth, hotherSlot⟩ heq)

theorem descriptorSlotLba_reserved (h : region < geo.regionCount) :
    geo.isAllocatable (geo.descriptorSlotLba region 0) = false ∧ 3 ≤ geo.descriptorSlotLba region 0 :=
  head_not_allocatable hvalid h (descriptorSlot_lt (by decide))

theorem bitmapSlotLba_reserved {region : Nat}
    (h : region < geo.regionCount) (hpage : page < geo.bitmapPageCount region) :
    geo.isAllocatable (geo.bitmapSlotLba region page 0) = false ∧ 3 ≤ geo.bitmapSlotLba region page 0 := by
  rw [bitmapSlotLba_eq]
  exact head_not_allocatable hvalid h (bitmapSlot_lt hpage (by decide))

omit hvalid

/-! ### Counting blocks -/

theorem sum_pieces_le (total size count : Nat) :
    ((List.range count).map fun i => min (total - i * size) size).sum ≤ total := by
  have hexact : ((List.range count).map fun i => min (total - i * size) size).sum
      = min total (count * size) := by
    induction count with
    | zero => simp
    | succ count ih =>
      rw [range_succ, map_append, sum_append, ih, Nat.succ_mul]
      simp only [map_cons, map_nil, sum_cons, sum_nil]
      omega
  omega

theorem sum_bitmapPageValidBlocks_le (region : Nat) :
    ((List.range (geo.bitmapPageCount region)).map (geo.bitmapPageValidBlocks region)).sum
      ≤ geo.regionValidBlocks region :=
  sum_pieces_le (geo.regionValidBlocks region) bitmapPageBlocks (geo.bitmapPageCount region)

theorem sum_regionValidBlocks_le : ((List.range geo.regionCount).map geo.regionValidBlocks).sum ≤ geo.totalBlocks :=
  sum_pieces_le geo.totalBlocks geo.regionSize geo.regionCount

/-- A number of `bits` bits. -/
def word (bits n : Nat) : Option Nat := if n < 2 ^ bits then some n else none

def wordSub (a b : Nat) : Option Nat := if b ≤ a then some (a - b) else none

namespace Checked

/-! The functions over words of the widths that the source has: `none` where one overflows or a cast cuts off. -/

def regionCount (geo : Geometry) : Option Nat := word 32 (divCeil geo.totalBlocks geo.regionSize)

def regionBase (geo : Geometry) (region : Nat) : Option Nat := word 64 (region * geo.regionSize)

def regionValidBlocks (geo : Geometry) (region : Nat) : Option Nat := do
  let base ← regionBase geo region
  let left ← wordSub geo.totalBlocks base
  word 32 (min left geo.regionSize)

def bitmapPageValidBlocks (geo : Geometry) (region page : Nat) : Option Nat := do
  let first ← word 32 (page * bitmapPageBlocks)
  let valid ← regionValidBlocks geo region
  pure (min (valid - first) bitmapPageBlocks)

def regionReservedBlocks (geo : Geometry) (region : Nat) : Option Nat := do
  let valid ← regionValidBlocks geo region
  let slots ← word 32 (divCeil valid bitmapPageBlocks * bitmapSlots)
  word 32 (descriptorSlots + slots)

def reservedHead (geo : Geometry) (region : Nat) : Option Nat := do
  let reserved ← regionReservedBlocks geo region
  word 32 (reserved + regionHead region)

def descriptorSlotLba (geo : Geometry) (region slot : Nat) : Option Nat := do
  let base ← regionBase geo region
  let head ← word 64 (base + regionHead region)
  word 64 (head + slot)

def bitmapSlotLba (geo : Geometry) (region page slot : Nat) : Option Nat := do
  let base ← regionBase geo region
  let head ← word 64 (base + regionHead region)
  let first ← word 64 (head + descriptorSlots)
  let slots ← word 64 (page * bitmapSlots)
  let pageSlots ← word 64 (first + slots)
  word 64 (pageSlots + slot)

/-- What `is_reserved` and `is_allocatable` compare: the offset in the region and the length of its head. -/
def offsetAndHead (geo : Geometry) (lba : Nat) : Option (Nat × Nat) := do
  let region ← word 32 (lba / geo.regionSize)
  let base ← regionBase geo region
  let left ← wordSub lba base
  let offset ← word 32 left
  let head ← reservedHead geo region
  pure (offset, head)

end Checked

theorem word_of {bits n : Nat} (h : n < 2 ^ bits) : word bits n = some n := if_pos h

theorem wordSub_of {a b : Nat} (h : b ≤ a) : wordSub a b = some (a - b) := if_pos h

section

variable (hvalid : geo.Valid)

include hvalid

theorem totalBlocks_lt : geo.totalBlocks < 2 ^ 64 := by
  have htotal := totalBlocks_le_regionBase hvalid
  have hcnt : geo.regionCount ≤ 2 ^ 32 - 1 := hvalid.regionCount
  have hmul : geo.regionCount * geo.regionSize ≤ (2 ^ 32 - 1) * 262144 := Nat.mul_le_mul hcnt hvalid.maxRegion
  rw [regionBase] at htotal
  omega

variable {region : Nat} (h : region < geo.regionCount)

include h

theorem checked_regionBase : Checked.regionBase geo region = some (geo.regionBase region) := by
  have htotal := totalBlocks_lt hvalid
  have hbase := mul_regionSize_lt h hvalid
  exact word_of (by omega)

theorem checked_regionValidBlocks : Checked.regionValidBlocks geo region = some (geo.regionValidBlocks region) := by
  have hbase := mul_regionSize_lt h hvalid
  have hsize := hvalid.maxRegion
  simp only [Checked.regionValidBlocks, checked_regionBase hvalid h, Option.bind_eq_bind, Option.bind_some,
    wordSub_of (show geo.regionBase region ≤ geo.totalBlocks from hbase.le)]
  exact word_of (by omega)

theorem checked_reservedHead :
    Checked.reservedHead geo region = some (geo.regionReservedBlocks region + regionHead region) := by
  have hhead := reservedHead_lt hvalid h
  have hsize := hvalid.maxRegion
  have hreserved : geo.regionReservedBlocks region
      = descriptorSlots + divCeil (geo.regionValidBlocks region) bitmapPageBlocks * bitmapSlots := rfl
  simp only [Checked.reservedHead, Checked.regionReservedBlocks, checked_regionValidBlocks hvalid h,
    Option.bind_eq_bind, Option.bind_some]
  rw [word_of (by omega), Option.bind_some, word_of (by omega), Option.bind_some, ← hreserved]
  exact word_of (by omega)

end

/-- Over the words of the source every function gives what it gives over numbers. -/
structure NoOverflow (geo : Geometry) : Prop where
  regionCount : Checked.regionCount geo = some geo.regionCount
  regionValidBlocks : ∀ region < geo.regionCount,
    Checked.regionValidBlocks geo region = some (geo.regionValidBlocks region)
  bitmapPageValidBlocks : ∀ region < geo.regionCount, ∀ page < geo.bitmapPageCount region,
    Checked.bitmapPageValidBlocks geo region page = some (geo.bitmapPageValidBlocks region page)
  reservedHead : ∀ region < geo.regionCount,
    Checked.reservedHead geo region = some (geo.regionReservedBlocks region + regionHead region)
  descriptorSlotLba : ∀ region < geo.regionCount, ∀ slot < descriptorSlots,
    Checked.descriptorSlotLba geo region slot = some (geo.descriptorSlotLba region slot)
  bitmapSlotLba : ∀ region < geo.regionCount, ∀ page < geo.bitmapPageCount region, ∀ slot < bitmapSlots,
    Checked.bitmapSlotLba geo region page slot = some (geo.bitmapSlotLba region page slot)
  offsetAndHead : ∀ lba < geo.totalBlocks, Checked.offsetAndHead geo lba =
    some (lba - geo.regionBase (geo.regionOf lba),
      geo.regionReservedBlocks (geo.regionOf lba) + regionHead (geo.regionOf lba))

theorem noOverflow (hvalid : geo.Valid) : geo.NoOverflow := by
  have htotal := totalBlocks_lt hvalid
  have hcnt : geo.regionCount ≤ 2 ^ 32 - 1 := hvalid.regionCount
  constructor
  · exact word_of (by rw [← regionCount]; omega)
  · exact fun region => checked_regionValidBlocks hvalid
  · intro region h page hpage
    have hpages := bitmapPageCount_le geo hvalid region
    have hfirst : page * bitmapPageBlocks < 2 ^ 32 :=
      lt_of_le_of_lt (Nat.mul_le_mul_right _ (show page ≤ 9 by omega)) (by decide)
    simp only [Checked.bitmapPageValidBlocks, checked_regionValidBlocks hvalid h, word_of hfirst]
    rfl
  · exact fun region => checked_reservedHead hvalid
  · intro region h slot hslot
    have hlba := headLba_lt hvalid h (descriptorSlot_lt hslot)
    rw [headLba] at hlba
    simp only [Checked.descriptorSlotLba, checked_regionBase hvalid h, Option.bind_eq_bind, Option.bind_some]
    rw [word_of (by omega), Option.bind_some]
    exact word_of (by omega)
  · intro region h page hpage slot hslot
    have hlba := headLba_lt hvalid h (bitmapSlot_lt hpage hslot)
    rw [headLba] at hlba
    simp only [Checked.bitmapSlotLba, checked_regionBase hvalid h, Option.bind_eq_bind, Option.bind_some]
    rw [word_of (by omega), Option.bind_some, word_of (by omega), Option.bind_some, word_of (by omega),
      Option.bind_some, word_of (by omega), Option.bind_some]
    exact word_of (by omega)
  · intro lba h
    have hreg := regionOf_lt hvalid h
    have hsize := hvalid.maxRegion
    have hmin := hvalid.minRegion
    have hbase : geo.regionBase (geo.regionOf lba) ≤ lba := Nat.div_mul_le_self _ _
    have hoff : lba < geo.regionBase (geo.regionOf lba) + geo.regionSize := Nat.lt_div_mul_add (by omega)
    unfold Checked.offsetAndHead
    rw [← regionOf, word_of (by omega)]
    simp only [Option.bind_eq_bind, Option.bind_some, checked_regionBase hvalid hreg, wordSub_of hbase,
      checked_reservedHead hvalid hreg]
    rw [word_of (by omega)]
    rfl

/-- Every block of an accepted volume has exactly one use, and every use stands at a block of it. -/
theorem geometry_partition {u : Unit} (h : geo.validate = .ok u) :
    (∀ use : Use, use.Present geo → use.address geo < geo.totalBlocks) ∧
      (∀ lba < geo.totalBlocks, ∃! use : Use, use.Present geo ∧ use.address geo = lba) ∧
      (∀ region < geo.regionCount, ∃ lba, geo.isAllocatable lba = true ∧ geo.regionOf lba = region) ∧
      geo.NoOverflow := by
  have hvalid := valid_of_validate h
  refine ⟨fun use huse => (Use.ofLba_address hvalid huse).1, fun lba hlba => ?_, fun region hreg => ?_, noOverflow hvalid⟩
  · refine ⟨Use.ofLba geo lba, Use.address_ofLba hvalid hlba, ?_⟩
    rintro use ⟨huse, rfl⟩
    exact (Use.ofLba_address hvalid huse).2.symm
  · have hhead := reservedHead_lt_valid hvalid hreg
    exact ⟨geo.regionBase region + (geo.regionReservedBlocks region + regionHead region),
      (isAllocatable_offset hhead).mpr (le_refl _), regionOf_add (reservedHead_lt hvalid hreg)⟩

theorem geometry_partition_small : ∃! use : Use, use.Present ⟨4096, 40, 16⟩ ∧ use.address ⟨4096, 40, 16⟩ = 33 :=
  (@geometry_partition ⟨4096, 40, 16⟩ () (by decide)).2.1 33 (by decide)

/-- One region; blocks 9 and up are allocatable. -/
def sample : Geometry := ⟨4096, 32, 32⟩

end Geometry

end Afsplus
