import Afsplus.Core.Snapshot
import Afsplus.Portable.LogSlots

/-!
# The bounds of the allocation-root pool

The pool's blocks can be listed, or its two ends computed from the ordinals of its first and last
block by division over the regions. Both read the same list of allocatable blocks, and that list is
ascending.
-/

namespace Afsplus.AllocationRoot

open Fallible Geometry List

variable {geo : Geometry}

theorem le_logicalNodesAbove {fanout fuel level total : Nat} : total ≤ logicalNodesAbove fanout fuel level total := by
  induction fuel generalizing level total with
  | zero => exact le_refl _
  | succ fuel ih =>
    rw [logicalNodesAbove]
    split
    · exact le_trans (Nat.le_add_right ..) ih
    · exact le_refl _

variable (hvalid : geo.Valid)

include hvalid

theorem exists_logicalNodes_pos : ∃ nodes, geo.allocationRootLogicalNodes = .ok nodes ∧ 0 < nodes := by
  have hcnt := regionCount_pos hvalid
  have hleaves : 0 < divCeil geo.regionCount 144 := by
    rw [divCeil]
    omega
  unfold allocationRootLogicalNodes
  rw [hvalid.blockSize]
  exact ⟨_, rfl, hleaves.trans_le le_logicalNodesAbove⟩

theorem allocatableAt_eq_ok {ordinal lba : Nat} :
    allocatableAt geo ordinal = .ok lba ↔ geo.allocatableBlocks[ordinal]? = some lba := by
  have hlisted : ∀ {lba}, geo.allocatableBlocks[ordinal]? = some lba → geo.isAllocatable lba = true :=
    fun h => mem_allocatableBlocks _ (mem_of_getElem? h)
  have hhead : geo.region0ReservedBlocks = geo.regionReservedBlocks 0 + regionHead 0 := Nat.add_comm _ _
  unfold allocatableAt ordinalLba
  dsimp only
  rw [hhead, ← regionAvailable, ← fullAvailable]
  split
  · rename_i hfirst
    have hblk := getElem?_region hvalid hfirst
    rw [allocatableBelow_zero, Nat.zero_add, regionBase, Nat.zero_mul, Nat.zero_add] at hblk
    rw [hblk, ok_bind, refuseIf_bind (not_not.mpr (hlisted hblk)), pure_ok, Option.some.injEq, eq_comm]
  rename_i hfirst
  obtain ⟨index, rfl⟩ := Nat.exists_eq_add_of_le (not_lt.mp hfirst)
  have hblk := getElem?_behind hvalid index
  have hoff := Nat.mod_lt index (fullAvailable_pos hvalid)
  rw [bind_assoc, Nat.add_sub_cancel_left]
  generalize index / geo.fullAvailable = quotient at hblk ⊢
  generalize index % geo.fullAvailable = offset at hblk hoff ⊢
  by_cases hreg : 1 + quotient ≥ geo.regionCount
  · rw [refuseIf_bind_error hreg, hblk, if_neg (by omega)]
    simp
  rw [refuseIf_bind hreg, pure_bind, Nat.add_comm 1]
  by_cases hin : offset < geo.regionAvailable (quotient + 1)
  · rw [if_pos ⟨by omega, hin⟩] at hblk
    rw [hblk, refuseIf_bind (not_not.mpr (hlisted hblk)), pure_ok, Option.some.injEq, eq_comm]
  · -- only the last region has so little room, and its blocks end with the volume
    have hlast : geo.regionCount - 1 = quotient + 1 := by
      by_contra hne
      have hbase : geo.regionBase (quotient + 1 + 1) < geo.totalBlocks := mul_regionSize_lt (by omega) hvalid
      exact hin (by rwa [regionAvailable_of_full (Nat.succ_pos _) hbase.le])
    have htotal := totalBlocks_eq hvalid
    rw [hlast] at htotal
    rw [regionAvailable, regionHead_of_pos (Nat.succ_pos _)] at hin
    have hnot : ¬geo.isAllocatable (geo.regionBase (quotient + 1) + geo.regionReservedBlocks (quotient + 1) + offset) := by
      intro halloc
      have hlt := of_decide_eq_true (Bool.and_eq_true_iff.mp halloc).1
      omega
    rw [refuseIf_bind_error hnot, hblk, if_neg fun h => hnot (hlisted (hblk.trans (if_pos h)))]
    simp

omit hvalid in
theorem le_of_allocatableBlocks {i j a b : Nat} (hij : i ≤ j) (ha : geo.allocatableBlocks[i]? = some a)
    (hb : geo.allocatableBlocks[j]? = some b) : a ≤ b := by
  have hsort : geo.allocatableBlocks.Pairwise (· < ·) := (pairwise_lt_range' ..).filter _
  obtain ⟨hi, rfl⟩ := List.getElem?_eq_some_iff.mp ha
  obtain ⟨hj, rfl⟩ := List.getElem?_eq_some_iff.mp hb
  rcases Nat.lt_or_eq_of_le hij with hlt | rfl
  · exact (pairwise_iff_getElem.mp hsort i j hi hj hlt).le
  · exact le_refl _

omit hvalid

theorem reservedPoolBounds_eq_ok {u : Unit} (h : geo.validate = .ok u) {nodes : Nat}
    (hnodes : geo.allocationRootLogicalNodes = .ok nodes) {first stop : Nat} :
    reservedPoolBounds geo = .ok (first, stop) ↔ nodes * 3 < 2 ^ 64 ∧
      geo.allocatableBlocks[4]? = some first ∧
        ∃ last, geo.allocatableBlocks[4 + nodes * 3 - 1]? = some last ∧ stop = last + 1 := by
  have hvalid := valid_of_validate h
  rw [reservedPoolBounds, h, hnodes, bootstrapMetadataBlocks]
  simp only [Except.mapError, ok_bind, refuseIf_ok, not_le, ge_iff_le]
  simp only [bind_ok, allocatableAt_eq_ok hvalid, pure_pair_eq_ok]
  constructor
  · rintro ⟨hfit, first', hfirst, last, hlast, rfl, rfl⟩
    exact ⟨hfit, hfirst, last, hlast, rfl⟩
  · rintro ⟨hfit, hfirst, last, hlast, rfl⟩
    exact ⟨hfit, first, hfirst, last, hlast, rfl, rfl⟩

theorem pool_nonempty {pool : Lba × Lba} (h : reservedPoolBounds geo = .ok pool) : pool.1 < pool.2 := by
  obtain ⟨hvalidate, -⟩ := check_ok.mp h
  have hval := mapError_eq_ok.mp hvalidate
  obtain ⟨nodes, hnodes, hpos⟩ := exists_logicalNodes_pos (valid_of_validate hval)
  obtain ⟨-, hfirst, last, hlast, hstop⟩ := (reservedPoolBounds_eq_ok hval hnodes).mp h
  rw [hstop]
  exact Nat.lt_succ_of_le (le_of_allocatableBlocks (by omega) hfirst hlast)

theorem reservedPoolBounds_eq_enumeration {u : Unit} (h : geo.validate = .ok u) :
    ((∃ bounds, reservedPoolBounds geo = .ok bounds) ↔ ∃ pool, geo.allocationRootPoolLbas = .ok pool) ∧
      ∀ first stop pool, reservedPoolBounds geo = .ok (first, stop) → geo.allocationRootPoolLbas = .ok pool →
        pool.min? = some first ∧ pool.max?.map (· + 1) = some stop := by
  have hvalid := valid_of_validate h
  obtain ⟨nodes, hnodes, hpos⟩ := exists_logicalNodes_pos hvalid
  have hpool : ∀ pool, geo.allocationRootPoolLbas = .ok pool ↔
      pool = (geo.allocatableBlocks.drop 4).take (nodes * 3) ∧ pool.length = nodes * 3 := by
    intro pool
    rw [allocationRootPoolLbas, hnodes, ok_bind, reservedRun_eq_ok, bootstrapMetadataBlocks]
  have hat : ∀ i, i < nodes * 3 →
      ((geo.allocatableBlocks.drop 4).take (nodes * 3))[i]? = geo.allocatableBlocks[4 + i]? := by
    intro i hi
    rw [getElem?_take_of_lt hi, getElem?_drop]
  refine ⟨⟨?_, ?_⟩, ?_⟩
  · rintro ⟨⟨first, stop⟩, hok⟩
    obtain ⟨-, -, last, hlast, -⟩ := (reservedPoolBounds_eq_ok h hnodes).mp hok
    obtain ⟨hlen, -⟩ := List.getElem?_eq_some_iff.mp hlast
    refine ⟨_, (hpool _).mpr ⟨rfl, ?_⟩⟩
    rw [length_take, length_drop]
    omega
  · rintro ⟨pool, hok⟩
    obtain ⟨rfl, hlen⟩ := (hpool pool).mp hok
    rw [length_take, length_drop] at hlen
    have htotal := totalBlocks_lt hvalid
    have hlisted : geo.allocatableBlocks.length ≤ geo.totalBlocks := by
      rw [length_allocatableBlocks hvalid]
      exact Nat.count_le _
    exact ⟨_, (reservedPoolBounds_eq_ok h hnodes).mpr ⟨by omega, getElem?_eq_getElem (by omega), _, getElem?_eq_getElem (by omega), rfl⟩⟩
  · intro first stop pool hok hlisted
    obtain ⟨-, hfirst, last, hlast, rfl⟩ := (reservedPoolBounds_eq_ok h hnodes).mp hok
    obtain ⟨rfl, -⟩ := (hpool pool).mp hlisted
    have hmem : ∀ lba ∈ (geo.allocatableBlocks.drop 4).take (nodes * 3), first ≤ lba ∧ lba ≤ last := by
      intro lba hlba
      obtain ⟨i, hi⟩ := mem_iff_getElem?.mp hlba
      have hlt := (List.getElem?_eq_some_iff.mp hi).1
      rw [length_take] at hlt
      rw [hat i (by omega)] at hi
      exact ⟨le_of_allocatableBlocks (by omega) hfirst hi, le_of_allocatableBlocks (by omega) hi hlast⟩
    constructor
    · rw [min?_eq_some_iff]
      exact ⟨mem_of_getElem? ((hat 0 (by omega)).trans hfirst), fun lba hlba => (hmem lba hlba).1⟩
    · rw [Option.map_eq_some_iff]
      refine ⟨last, max?_eq_some_iff.mpr ⟨?_, fun lba hlba => (hmem lba hlba).2⟩, rfl⟩
      have hindex : 4 + nodes * 3 - 1 = 4 + (nodes * 3 - 1) := by omega
      rw [hindex, ← hat _ (by omega)] at hlast
      exact mem_of_getElem? hlast

theorem reservedPoolBounds_small : ∃ pool, (⟨4096, 40, 16⟩ : Geometry).allocationRootPoolLbas = .ok pool :=
  (@reservedPoolBounds_eq_enumeration ⟨4096, 40, 16⟩ () (by decide)).1.mp ⟨(13, 16), by decide⟩

end Afsplus.AllocationRoot
