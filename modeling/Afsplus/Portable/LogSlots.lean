import Mathlib.Data.Nat.Count
import Afsplus.Portable.Reader

/-!
# The portable reader: where the log slots stand

The Rust side lists the allocatable blocks and takes the log area out of the list; the C library
computes the block of a slot from its ordinal. The two meet in the count of allocatable blocks below
an address: a block of the list stands at the position that the count gives.
-/

namespace Afsplus

open List

namespace Geometry

variable {geo : Geometry}

def regionAvailable (geo : Geometry) (region : Nat) : Nat :=
  geo.regionValidBlocks region - (geo.regionReservedBlocks region + regionHead region)

def allocatableBelow (geo : Geometry) (lba : Nat) : Nat := Nat.count (geo.isAllocatable ·) lba

theorem allocatableBelow_offset {region offset : Nat} (h : offset ≤ geo.regionValidBlocks region) :
    geo.allocatableBelow (geo.regionBase region + offset) = geo.allocatableBelow (geo.regionBase region) +
        (offset - (geo.regionReservedBlocks region + regionHead region)) := by
  induction offset with
  | zero => simp
  | succ offset ih =>
    have hstep := isAllocatable_offset (Nat.lt_of_succ_le h)
    have hcnt := ih (Nat.le_of_succ_le h)
    rw [allocatableBelow] at hcnt ⊢
    rw [← Nat.add_assoc, Nat.count_succ, hcnt]
    split
    · rename_i hmem
      have hhead := hstep.mp hmem
      omega
    · rename_i hmem
      have hhead := mt hstep.mpr hmem
      omega

theorem regionAvailable_zero (geo : Geometry) : geo.regionAvailable 0
    = geo.regionValidBlocks 0 - (geo.regionReservedBlocks 0 + bootstrapBlocks) := rfl

/-- Blocks that a whole region past the first has behind its head. -/
def fullAvailable (geo : Geometry) : Nat :=
  geo.regionSize - (descriptorSlots + divCeil geo.regionSize bitmapPageBlocks * bitmapSlots)

variable {region : Nat}

variable (h : geo.regionBase (region + 1) ≤ geo.totalBlocks)

include h

theorem regionValidBlocks_of_full : geo.regionValidBlocks region = geo.regionSize := by
  rw [regionBase, Nat.add_mul] at h
  rw [regionValidBlocks, regionBase]
  omega

omit h in
theorem regionHead_of_pos (h : 0 < region) : regionHead region = 0 :=
  if_neg (by omega)

theorem regionReservedBlocks_of_full :
    geo.regionReservedBlocks region = descriptorSlots + divCeil geo.regionSize bitmapPageBlocks * bitmapSlots := by
  rw [regionReservedBlocks, bitmapPageCount, regionValidBlocks_of_full h]

omit h in
theorem regionAvailable_of_full (hpos : 0 < region) (h : geo.regionBase (region + 1) ≤ geo.totalBlocks) :
    geo.regionAvailable region = geo.fullAvailable := by
  rw [regionAvailable, regionValidBlocks_of_full h, regionReservedBlocks_of_full h, regionHead_of_pos hpos, fullAvailable]
  omega

theorem allocatableBelow_regionBase_succ :
    geo.allocatableBelow (geo.regionBase (region + 1))
      = geo.allocatableBelow (geo.regionBase region) + geo.regionAvailable region := by
  have hfull := regionValidBlocks_of_full h
  have hbase : geo.regionBase (region + 1) = geo.regionBase region + geo.regionValidBlocks region := by
    rw [hfull, regionBase, regionBase, Nat.add_mul, Nat.one_mul]
  rw [hbase, allocatableBelow_offset (le_refl _), regionAvailable]

omit h in
theorem allocatableBelow_zero (geo : Geometry) : geo.allocatableBelow (geo.regionBase 0) = 0 := by
  rw [regionBase, Nat.zero_mul]
  exact Nat.count_zero _

theorem allocatableBelow_regionBase :
    geo.allocatableBelow (geo.regionBase (region + 1)) = geo.regionAvailable 0 + region * geo.fullAvailable := by
  induction region with
  | zero => rw [allocatableBelow_regionBase_succ h, allocatableBelow_zero]; omega
  | succ region ih =>
    have hprev : geo.regionBase (region + 1) ≤ geo.totalBlocks := le_trans (Nat.mul_le_mul_right _ (Nat.le_succ _)) h
    rw [allocatableBelow_regionBase_succ h, ih hprev,
      regionAvailable_of_full (Nat.succ_pos _) h, Nat.add_mul, Nat.one_mul, Nat.add_assoc]

omit h

variable (hvalid : geo.Valid)

include hvalid

theorem totalBlocks_eq : geo.totalBlocks
    = geo.regionBase (geo.regionCount - 1) + geo.regionValidBlocks (geo.regionCount - 1) := by
  have hcnt := regionCount_pos hvalid
  have hlast := mul_regionSize_lt (show geo.regionCount - 1 < geo.regionCount by omega) hvalid
  have hend := totalBlocks_le_regionBase hvalid
  have hbase : geo.regionBase geo.regionCount = (geo.regionCount - 1) * geo.regionSize + geo.regionSize := by
    rw [regionBase, ← Nat.succ_mul, Nat.succ_eq_add_one, Nat.sub_add_cancel hcnt]
  rw [regionValidBlocks, regionBase]
  omega

/-- Whole regions: all but a last one that the volume cuts short. -/
theorem regionBase_wholeRegions_le :
    geo.regionBase (geo.regionCount - (geo.totalBlocks % geo.regionSize != 0).toNat) ≤ geo.totalBlocks := by
  have hsize := hvalid.minRegion
  have hcnt := regionCount_pos hvalid
  by_cases hwhole : geo.totalBlocks % geo.regionSize = 0
  · -- the rounding up of the region count adds nothing
    have hdiv : geo.regionCount = geo.totalBlocks / geo.regionSize := by
      obtain ⟨whole, hmul⟩ := Nat.dvd_of_mod_eq_zero hwhole
      rw [regionCount, divCeil, Nat.add_sub_assoc (by omega), hmul, Nat.mul_add_div (by omega),
        Nat.div_eq_of_lt (by omega), Nat.add_zero, Nat.mul_div_cancel_left _ (by omega)]
    simp only [hwhole, bne_self_eq_false, Bool.toNat_false, Nat.sub_zero, regionBase, hdiv]
    exact Nat.div_mul_le_self _ _
  · rw [bne_iff_ne.mpr hwhole]
    exact (mul_regionSize_lt (show geo.regionCount - 1 < geo.regionCount by omega) hvalid).le

theorem allocatableBelow_totalBlocks : geo.allocatableBelow geo.totalBlocks
    = geo.allocatableBelow (geo.regionBase (geo.regionCount - 1)) + geo.regionAvailable (geo.regionCount - 1) := by
  conv_lhs => rw [totalBlocks_eq hvalid]
  rw [allocatableBelow_offset (le_refl _), regionAvailable]

omit hvalid in
theorem getElem?_filter_range {p : Nat → Bool} {x n : Nat} (hx : x < n) (hp : p x = true) :
    ((List.range n).filter p)[Nat.count (p ·) x]? = some x := by
  have hlen : ((List.range x).filter p).length = Nat.count (p ·) x := by
    rw [Nat.count, countP_eq_length_filter]
    simp
  have hsplit : List.range n = List.range x ++ x :: List.range' (x + 1) (n - x - 1) := by
    have happend := range'_append_1 (s := 0) (m := x) (n := n - x - 1 + 1)
    rw [range'_succ, Nat.zero_add, show x + (n - x - 1 + 1) = n by omega] at happend
    rw [range_eq_range', range_eq_range', happend]
  rw [hsplit, filter_append, filter_cons_of_pos hp, ← hlen,
    getElem?_append_right (le_refl _), Nat.sub_self, getElem?_cons_zero]

theorem allocatableBlocks_eq_filter :
    geo.allocatableBlocks = (List.range geo.totalBlocks).filter geo.isAllocatable := by
  have hroom := reservedHead_lt_valid hvalid (regionCount_pos hvalid)
  have hhead : geo.region0ReservedBlocks = geo.regionReservedBlocks 0 + regionHead 0 := Nat.add_comm _ _
  have htotal : geo.regionValidBlocks 0 ≤ geo.totalBlocks := by
    rw [regionValidBlocks]
    omega
  have happend := range'_append_1 (s := 0) (m := geo.region0ReservedBlocks)
    (n := geo.totalBlocks - geo.region0ReservedBlocks)
  rw [Nat.zero_add, Nat.add_sub_cancel' (by omega)] at happend
  rw [allocatableBlocks, range_eq_range', ← happend, filter_append]
  have hnone : (List.range' 0 geo.region0ReservedBlocks).filter geo.isAllocatable = [] := by
    rw [filter_eq_nil_iff]
    intro lba hmem halloc
    obtain ⟨offset, hoff, rfl⟩ := mem_range'.mp hmem
    rw [Nat.one_mul, show (0 : Nat) = geo.regionBase 0 by rw [regionBase, Nat.zero_mul],
      isAllocatable_offset (by omega)] at halloc
    omega
  rw [hnone, nil_append]

theorem getElem?_allocatableBlocks {lba : Nat} (h : geo.isAllocatable lba = true) :
    geo.allocatableBlocks[geo.allocatableBelow lba]? = some lba := by
  have hlt : lba < geo.totalBlocks := of_decide_eq_true (Bool.and_eq_true_iff.mp h).1
  rw [allocatableBlocks_eq_filter hvalid]
  exact getElem?_filter_range hlt h

theorem getElem?_region {region offset : Nat} (h : offset < geo.regionAvailable region) :
    geo.allocatableBlocks[geo.allocatableBelow (geo.regionBase region) + offset]?
      = some (geo.regionBase region + (geo.regionReservedBlocks region + regionHead region + offset)) := by
  rw [regionAvailable] at h
  have hbelow := @allocatableBelow_offset geo region
    (geo.regionReservedBlocks region + regionHead region + offset) (by omega)
  rw [Nat.add_sub_cancel_left] at hbelow
  rw [← hbelow]
  exact getElem?_allocatableBlocks hvalid ((isAllocatable_offset (by omega)).mpr (by omega))

theorem fullAvailable_pos : 0 < geo.fullAvailable := by
  have hsize := hvalid.minRegion
  have hpage : bitmapPageBlocks = 32384 := rfl
  simp only [fullAvailable, divCeil, hpage, descriptorSlots, bitmapSlots]
  omega

/-- A last region that the volume cuts short has no more room than a whole one. -/
theorem regionAvailable_le (hpos : 0 < region) : geo.regionAvailable region ≤ geo.fullAvailable := by
  have hle : geo.regionValidBlocks region ≤ geo.regionSize := Nat.min_le_right _ _
  have hpage : bitmapPageBlocks = 32384 := rfl
  -- pages and regions both have multiples of 16 blocks
  have hdvd : 2 ^ 4 ∣ geo.regionSize := by
    obtain ⟨k, hk⟩ := hvalid.powerOfTwo
    have hmin := hvalid.minRegion
    rw [hk] at hmin ⊢
    exact pow_dvd_pow 2 ((Nat.pow_le_pow_iff_right Nat.one_lt_two).mp hmin)
  rw [regionAvailable, fullAvailable, regionHead_of_pos hpos, regionReservedBlocks, bitmapPageCount]
  simp only [divCeil, hpage, descriptorSlots, bitmapSlots]
  omega

theorem length_allocatableBlocks : geo.allocatableBlocks.length = geo.allocatableBelow geo.totalBlocks := by
  rw [allocatableBlocks_eq_filter hvalid, ← countP_eq_length_filter, allocatableBelow, Nat.count]
  simp

/-- Past the first region positions divide by the room of a whole region, up to the end of the last one. -/
theorem getElem?_behind (index : Nat) : geo.allocatableBlocks[geo.regionAvailable 0 + index]? =
    if index / geo.fullAvailable + 1 < geo.regionCount ∧
        index % geo.fullAvailable < geo.regionAvailable (index / geo.fullAvailable + 1) then
      some (geo.regionBase (index / geo.fullAvailable + 1) +
        geo.regionReservedBlocks (index / geo.fullAvailable + 1) + index % geo.fullAvailable)
    else none := by
  have hoff := Nat.mod_lt index (fullAvailable_pos hvalid)
  have hdiv := Nat.div_add_mod' index geo.fullAvailable
  generalize index / geo.fullAvailable = quotient at hdiv ⊢
  generalize index % geo.fullAvailable = offset at hdiv hoff ⊢
  rw [← hdiv, ← Nat.add_assoc]
  split
  · rename_i hin
    have hbase : geo.regionBase (quotient + 1) < geo.totalBlocks := mul_regionSize_lt hin.1 hvalid
    rw [← allocatableBelow_regionBase hbase.le, getElem?_region hvalid hin.2, regionHead_of_pos (Nat.succ_pos quotient)]
    exact congrArg some (by omega)
  rename_i hout
  refine getElem?_eq_none ?_
  have hcnt := regionCount_pos hvalid
  rw [length_allocatableBlocks hvalid, allocatableBelow_totalBlocks hvalid]
  by_cases hone : geo.regionCount = 1
  · rw [hone, Nat.sub_self, allocatableBelow_zero]
    omega
  obtain ⟨middle, hmiddle⟩ : ∃ middle, geo.regionCount = middle + 2 := ⟨geo.regionCount - 2, by omega⟩
  have hlast := mul_regionSize_lt (show middle + 1 < geo.regionCount by omega) hvalid
  have hroom := regionAvailable_le hvalid (show 0 < middle + 1 by omega)
  rw [hmiddle, show middle + 2 - 1 = middle + 1 from rfl, allocatableBelow_regionBase hlast.le]
  obtain hlt | rfl | hgt := lt_trichotomy quotient middle
  · -- a region in front of the last one is whole
    have hbase : geo.regionBase (quotient + 1 + 1) < geo.totalBlocks := mul_regionSize_lt (by omega) hvalid
    rw [regionAvailable_of_full (Nat.succ_pos _) hbase.le] at hout
    omega
  · omega
  · have hmul := Nat.mul_le_mul_right geo.fullAvailable hgt
    rw [Nat.succ_mul] at hmul
    omega

end Geometry

namespace Portable

open Afsplus.Geometry

variable {volume : Volume}

/-- The ordinal of a log slot among the allocatable blocks. -/
def slotOrdinal (nodes slot : Nat) : Nat := bootstrapMetadataBlocks + nodes * 3 + slot

variable (hvalid : volume.geo.Valid)

include hvalid

variable {slot : Nat}

/-- The computed block is the listed one, and the computation fails where the list ends. -/
theorem logSlotLba_eq {nodes : Nat}
    (hnodes : volume.geo.allocationRootLogicalNodes = .ok nodes) (hslot : slot < volume.logSlots) :
    logSlotLba volume slot
      = match volume.geo.allocatableBlocks[slotOrdinal nodes slot]? with
        | some lba => .ok lba
        | none => .error .corrupt := by
  have hcnt := regionCount_pos hvalid
  unfold logSlotLba
  dsimp only
  rw [if_neg (by omega), hnodes]
  dsimp only
  rw [← slotOrdinal, ← regionAvailable_zero, ← fullAvailable]
  generalize slotOrdinal nodes slot = ordinal
  split
  · -- in the first region
    rename_i hfirst
    have hblk := getElem?_region hvalid hfirst
    rw [allocatableBelow_zero, Nat.zero_add] at hblk
    rw [hblk, regionBase, Nat.zero_mul, Nat.zero_add]
    rfl
  rename_i hfirst
  obtain ⟨index, rfl⟩ := Nat.exists_eq_add_of_le (not_lt.mp hfirst)
  have hblk := getElem?_behind hvalid index
  rw [Nat.add_sub_cancel_left]
  split
  · rename_i hone
    rw [hblk, if_neg (by simp [hone])]
  obtain ⟨middle, hregs⟩ : ∃ middle, volume.geo.regionCount = middle + 2 := ⟨volume.geo.regionCount - 2, by omega⟩
  have hfull := fullAvailable_pos hvalid
  have hle : ∀ regions, regions ≤ index / volume.geo.fullAvailable ↔ regions * volume.geo.fullAvailable ≤ index :=
    fun _ => Nat.le_div_iff_mul_le hfull
  have hwhole := regionBase_wholeRegions_le hvalid
  generalize (volume.geo.totalBlocks % volume.geo.regionSize != 0) = cut at hwhole ⊢
  have hcutLe := Bool.toNat_le cut
  rw [hregs] at hwhole hblk ⊢
  rw [show middle + 2 - 1 = middle + 1 from rfl]
  split
  · -- in a whole region
    rename_i hspan
    have hreg := mt (hle _).mp (not_le.mpr hspan)
    have hbase := le_trans (Nat.mul_le_mul_right volume.geo.regionSize
      (show index / volume.geo.fullAvailable + 1 + 1 ≤ middle + 2 - cut.toNat by omega)) hwhole
    rw [regionReservedBlocks_of_full hbase, regionAvailable_of_full (Nat.succ_pos _) hbase,
      if_pos ⟨by omega, Nat.mod_lt _ hfull⟩, Nat.add_comm _ 1] at hblk
    have halloc := mem_allocatableBlocks _ (mem_of_getElem? hblk)
    rw [hblk]
    exact if_pos (of_decide_eq_true (Bool.and_eq_true_iff.mp halloc).1)
  rename_i hspan
  have hreg := (hle _).mpr (not_lt.mp hspan)
  rw [hblk]
  cases cut with
  | true =>
    -- in a last region that the volume cuts short
    rw [show middle + 1 - true.toNat = middle from rfl] at hspan hreg ⊢
    have hroom := regionAvailable_le hvalid (show 0 < middle + 1 by omega)
    have havailable : volume.geo.regionValidBlocks (middle + 1)
        - volume.geo.regionReservedBlocks (middle + 1) = volume.geo.regionAvailable (middle + 1) := by
      rw [regionAvailable, regionHead_of_pos (Nat.succ_pos _)]
      omega
    have hdiv := Nat.div_add_mod' index volume.geo.fullAvailable
    have hmod := Nat.mod_lt index hfull
    rw [if_pos rfl, havailable]
    by_cases hend : index / volume.geo.fullAvailable = middle
    · rw [hend] at hdiv ⊢
      have hoff : index - middle * volume.geo.fullAvailable = index % volume.geo.fullAvailable := by omega
      rw [hoff]
      by_cases hin : index % volume.geo.fullAvailable < volume.geo.regionAvailable (middle + 1)
      · rw [if_pos hin, if_pos ⟨by omega, hin⟩]
        rfl
      · rw [if_neg hin, if_neg (fun h => hin h.2)]
    · have hbehind := (hle (middle + 1)).mp (by omega)
      rw [Nat.succ_mul] at hbehind
      rw [if_neg (by omega), if_neg (by omega)]
  | false =>
    rw [show middle + 1 - false.toNat = middle + 1 from rfl] at hreg
    rw [if_neg (by decide), if_neg (by omega)]

/-! ### The log area -/

omit hvalid in
theorem exists_logicalNodes {geo : Geometry} (hvalid : geo.Valid) :
    ∃ nodes, geo.allocationRootLogicalNodes = .ok nodes := by
  unfold allocationRootLogicalNodes
  rw [hvalid.blockSize]
  exact ⟨_, rfl⟩

/-- The log area fits the volume, so that the Rust side has a block for every slot. -/
def LogFits (volume : Volume) : Prop :=
  ∃ slots, volume.geo.intentLogSlotLbas volume.logSlots = .ok slots

variable {lba : Lba}

theorem logSlotLba_eq_ok {nodes : Nat}
    (hnodes : volume.geo.allocationRootLogicalNodes = .ok nodes) (hslot : slot < volume.logSlots) :
    logSlotLba volume slot = .ok lba ↔ volume.geo.allocatableBlocks[slotOrdinal nodes slot]? = some lba := by
  rw [logSlotLba_eq hvalid hnodes hslot]
  cases volume.geo.allocatableBlocks[slotOrdinal nodes slot]? <;> simp

omit hvalid in
theorem slot_lt_of_logSlotLba (h : logSlotLba volume slot = .ok lba) : slot < volume.logSlots := by
  by_contra hslot
  unfold logSlotLba at h
  dsimp only at h
  rw [if_pos (.inl (by omega))] at h
  cases h

theorem logSlotLba_lt (h : logSlotLba volume slot = .ok lba) : lba < volume.geo.totalBlocks := by
  obtain ⟨nodes, hnodes⟩ := exists_logicalNodes hvalid
  rw [logSlotLba_eq_ok hvalid hnodes (slot_lt_of_logSlotLba h)] at h
  have halloc := mem_allocatableBlocks _ (mem_of_getElem? h)
  exact of_decide_eq_true (Bool.and_eq_true_iff.mp halloc).1

section Listed

variable {nodes count : Nat} {slots : List Nat} (hnodes : volume.geo.allocationRootLogicalNodes = .ok nodes)

include hnodes

omit hvalid in
theorem getElem?_slots (h : volume.geo.intentLogSlotLbas count = .ok slots) (hslot : slot < count) :
    slots[slot]? = volume.geo.allocatableBlocks[slotOrdinal nodes slot]? := by
  obtain ⟨-, rfl⟩ | ⟨nodes', hnodes', hrun⟩ := intentLogSlotLbas_eq_ok h
  · omega
  obtain rfl := Except.ok.inj (hnodes.symm.trans hnodes')
  obtain ⟨rfl, -⟩ := reservedRun_eq_ok.mp hrun
  rw [getElem?_take_of_lt hslot, getElem?_drop, slotOrdinal]

omit hvalid in
theorem exists_slots (h : volume.geo.allocatableBlocks[slotOrdinal nodes slot]? = some lba) :
    ∃ slots, volume.geo.intentLogSlotLbas (slot + 1) = .ok slots := by
  obtain ⟨hlast, -⟩ := List.getElem?_eq_some_iff.mp h
  rw [slotOrdinal] at hlast
  refine ⟨(volume.geo.allocatableBlocks.drop (bootstrapMetadataBlocks + nodes * 3)).take (slot + 1), ?_⟩
  rw [intentLogSlotLbas, if_neg (by omega), hnodes]
  refine reservedRun_eq_ok.mpr ⟨rfl, ?_⟩
  rw [length_take, length_drop]
  omega

end Listed

/-- Both sides give a slot of a log area that fits the same block. -/
theorem logSlotLba_of_slots {slots : List Nat}
    (hslots : volume.geo.intentLogSlotLbas volume.logSlots = .ok slots)  :
    logSlotLba volume slot = .ok lba ↔ slots[slot]? = some lba := by
  obtain ⟨nodes, hnodes⟩ := exists_logicalNodes hvalid
  by_cases hslot : slot < volume.logSlots
  · rw [logSlotLba_eq_ok hvalid hnodes hslot, getElem?_slots hnodes hslots hslot]
  · refine iff_of_false (fun h => hslot (slot_lt_of_logSlotLba h)) ?_
    rw [getElem?_eq_none (by rw [length_logSlots hslots]; omega)]
    simp

theorem logFits_of_logSlotLba (h : logSlotLba volume (volume.logSlots - 1) = .ok lba) : LogFits volume := by
  obtain ⟨nodes, hnodes⟩ := exists_logicalNodes hvalid
  have hslot := slot_lt_of_logSlotLba h
  rw [logSlotLba_eq_ok hvalid hnodes hslot] at h
  have hfits := exists_slots hnodes h
  rwa [Nat.sub_add_cancel (by omega)] at hfits

omit hvalid

/-! ### The slot address over machine words -/

namespace Checked

/-- The node count of the C library, which stops before a sum of 64 bits overflows. -/
def logicalNodesAbove (fanout : Nat) : (fuel level total : Nat) → Option Nat
  | 0, _, total => some total
  | fuel + 1, level, total =>
    if level > 1 then
      if 2 ^ 64 - 1 - total < divCeil level fanout then none
      else logicalNodesAbove fanout fuel (divCeil level fanout) (total + divCeil level fanout)
    else some total

/-- `afspr_log_slot_lba` over machine words: `none` where a value leaves its width. -/
def logSlotLba (volume : Volume) (slot : Nat) : Option (Except Status Lba) :=
  let geo := volume.geo
  let regions := geo.regionCount
  let leafCapacity := fixedItemCapacity defaultBlockSize 4 16
  let levelNodes := divCeil regions leafCapacity
  if slot ≥ volume.logSlots ∨ regions = 0 then some (.error .invalidArgument)
  else match logicalNodesAbove (leafCapacity + 1) levelNodes levelNodes levelNodes with
    | none => some (.error .corrupt)
    | some logicalNodes =>
      if logicalNodes > (2 ^ 64 - 1 - 4 - slot) / 3 then some (.error .corrupt)
      else do
        let ordinal ← word 64 (4 + logicalNodes * 3 + slot)
        let validZero ← Geometry.Checked.regionValidBlocks geo 0
        let reservedZero ← Geometry.Checked.reservedHead geo 0
        let regionZeroAvailable ← wordSub validZero reservedZero
        if ordinal < regionZeroAvailable then .ok <$> word 64 (reservedZero + ordinal)
        else if regions = 1 then some (.error .corrupt)
        else do
          let index ← wordSub ordinal regionZeroAvailable
          let fullReserved ← word 64 (descriptorSlots + divCeil geo.regionSize bitmapPageBlocks * bitmapSlots)
          let fullAvailable ← wordSub geo.regionSize fullReserved
          let partialLast : Bool := geo.totalBlocks % geo.regionSize != 0
          let fullAfterZero ← wordSub (regions - 1) partialLast.toNat
          let fullSpan ← word 64 (fullAfterZero * fullAvailable)
          if index < fullSpan then do
            let lba ← word 64 ((1 + index / fullAvailable) * geo.regionSize + fullReserved + index % fullAvailable)
            some (if lba < geo.totalBlocks then .ok lba else .error .corrupt)
          else do
            let index ← wordSub index fullSpan
            if partialLast then do
              let last ← word 32 (regions - 1)
              let reserved ← Geometry.Checked.reservedHead geo last
              let validLast ← Geometry.Checked.regionValidBlocks geo last
              let available ← wordSub validLast reserved
              if index < available then .ok <$> word 64 (last * geo.regionSize + reserved + index)
              else some (.error .corrupt)
            else some (.error .corrupt)

end Checked

theorem checked_logicalNodesAbove {fuel level total : Nat} (h : total + 2 * level < 2 ^ 40) :
    ∃ nodes < 2 ^ 40, Checked.logicalNodesAbove 145 fuel level total = some nodes ∧
      Geometry.logicalNodesAbove 145 fuel level total = nodes := by
  induction fuel generalizing level total with
  | zero => exact ⟨total, by omega, rfl, rfl⟩
  | succ fuel ih =>
    rw [Checked.logicalNodesAbove, Geometry.logicalNodesAbove]
    split
    · have hup : divCeil level 145 = (level + 145 - 1) / 145 := rfl
      rw [if_neg (by omega)]
      exact ih (by omega)
    · exact ⟨total, by omega, rfl, rfl⟩

theorem some_bind {α β : Type} {a : α} {f : α → Option β} : (some a >>= f) = f a := rfl

theorem checked_logSlotLba (hvalid : volume.geo.Valid) (hslot : slot < volume.logSlots)
    (hslots : volume.logSlots < 2 ^ 16) :
    Checked.logSlotLba volume slot = some (logSlotLba volume slot) := by
  have hcnt := regionCount_pos hvalid
  have hregions : volume.geo.regionCount ≤ 2 ^ 32 - 1 := hvalid.regionCount
  have hsize := hvalid.maxRegion
  have htotal := totalBlocks_lt hvalid
  have hup : divCeil volume.geo.regionCount 144 = (volume.geo.regionCount + 144 - 1) / 144 := rfl
  obtain ⟨nodes, hlt, hchecked, hnodes⟩ := @checked_logicalNodesAbove (divCeil volume.geo.regionCount 144)
    (divCeil volume.geo.regionCount 144) (divCeil volume.geo.regionCount 144) (by omega)
  have hroot : volume.geo.allocationRootLogicalNodes = .ok nodes := by
    unfold allocationRootLogicalNodes
    rw [hvalid.blockSize]
    exact congrArg _ hnodes
  have hzero := reservedHead_lt_valid hvalid hcnt
  have hlast := reservedHead_lt_valid hvalid (show volume.geo.regionCount - 1 < volume.geo.regionCount by omega)
  unfold Checked.logSlotLba logSlotLba
  dsimp only
  rw [if_neg (by omega), if_neg (by omega), hroot]
  rw [show fixedItemCapacity defaultBlockSize 4 16 = 144 from rfl, hchecked]
  dsimp only
  rw [if_neg (by omega), word_of (by omega), checked_regionValidBlocks hvalid hcnt, checked_reservedHead hvalid hcnt]
  rw [show regionHead 0 = bootstrapBlocks from rfl] at hzero ⊢
  iterate 3 rw [some_bind]
  rw [wordSub_of hzero.le, some_bind, show bootstrapMetadataBlocks = 4 from rfl]
  have hvalidZero : volume.geo.regionValidBlocks 0 ≤ volume.geo.regionSize := Nat.min_le_right _ _
  split
  · rw [word_of (by omega)]
    rfl
  split
  · rfl
  have hhead := (reservedHead_lt hvalid hcnt).le
  have hfull := mul_regionSize_lt (show 1 < volume.geo.regionCount by omega) hvalid
  rw [regionReservedBlocks_of_full hfull.le] at hhead
  generalize descriptorSlots + divCeil volume.geo.regionSize bitmapPageBlocks * bitmapSlots = fullReserved at hhead ⊢
  have hcut := Bool.toNat_le (volume.geo.totalBlocks % volume.geo.regionSize != 0)
  rw [wordSub_of (by omega), some_bind, word_of (by omega), some_bind, wordSub_of (by omega), some_bind,
    wordSub_of (by omega), some_bind]
  generalize hindex : 4 + nodes * 3 + slot - _ = index
  generalize hroom : volume.geo.regionSize - fullReserved = fullAvailable
  generalize (volume.geo.totalBlocks % volume.geo.regionSize != 0) = cut
  generalize hwhole : volume.geo.regionCount - 1 - cut.toNat = whole
  have hspan : whole * fullAvailable ≤ 2 ^ 32 * 262144 := Nat.mul_le_mul (by omega) (by omega)
  rw [word_of (by omega), some_bind]
  split
  · rename_i hinside
    have hreg : index / fullAvailable < whole := Nat.div_lt_of_lt_mul (by rwa [Nat.mul_comm])
    have hbase := Nat.mul_le_mul (show 1 + index / fullAvailable ≤ 2 ^ 32 by omega) hsize
    have hmod := Nat.mod_le index fullAvailable
    rw [word_of (by omega), some_bind]
  · rw [wordSub_of (by omega), some_bind]
    split
    · have hbase := Nat.mul_le_mul (show volume.geo.regionCount - 1 ≤ 2 ^ 32 by omega) hsize
      have hvalidLast : volume.geo.regionValidBlocks (volume.geo.regionCount - 1) ≤ volume.geo.regionSize :=
        Nat.min_le_right _ _
      rw [word_of (by omega), some_bind, checked_reservedHead hvalid (by omega), some_bind,
        checked_regionValidBlocks hvalid (by omega), some_bind, wordSub_of hlast.le, some_bind,
        regionHead_of_pos (by omega), Nat.add_zero]
      split
      · rw [word_of (by omega)]
        rfl
      · rfl
    · rfl

/-- The C library gives a slot the block that the walk over the allocatable blocks gives it, and fails where that
walk runs out. -/
theorem slot_address_eq_walk (hgeometry : volume.geo.validate = .ok ()) (hslots : volume.logSlots < 2 ^ 16)
    (hslot : slot < volume.logSlots) :
    (∀ count slots, slot < count → volume.geo.intentLogSlotLbas count = .ok slots →
      ∃ lba, slots[slot]? = some lba ∧ Checked.logSlotLba volume slot = some (.ok lba)) ∧
    ((∀ slots, volume.geo.intentLogSlotLbas (slot + 1) ≠ .ok slots) →
      Checked.logSlotLba volume slot = some (.error .corrupt)) := by
  have hvalid := valid_of_validate hgeometry
  obtain ⟨nodes, hnodes⟩ := exists_logicalNodes hvalid
  rw [checked_logSlotLba hvalid hslot hslots, logSlotLba_eq hvalid hnodes hslot]
  cases hget : volume.geo.allocatableBlocks[slotOrdinal nodes slot]? with
  | none =>
    refine ⟨fun count slots hlt h => ?_, fun _ => rfl⟩
    rw [← getElem?_slots hnodes h hlt, getElem?_eq_none_iff, length_logSlots h] at hget
    omega
  | some lba =>
    refine ⟨fun count slots hlt h => ⟨lba, ?_, rfl⟩, fun hnone => ?_⟩
    · rw [getElem?_slots hnodes h hlt, hget]
    · obtain ⟨slots, h⟩ := exists_slots hnodes hget
      exact absurd h (hnone slots)

theorem slot_address_eq_walk_first : ∃ volume, Checked.logSlotLba volume 0 = some (.ok 16) := by
  let volume : Volume := ⟨⟨4096, 64, 64⟩, 9, [], 5, 4, 17, 40, 0, true, true, true, false⟩
  obtain ⟨hwalk, -⟩ := @slot_address_eq_walk volume 0 (by decide) (by decide) (by decide)
  obtain ⟨lba, hlba, hslot⟩ := hwalk 1 [16] (by decide) (by decide)
  cases hlba
  exact ⟨volume, hslot⟩

end Portable

end Afsplus
