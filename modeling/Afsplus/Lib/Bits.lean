import Mathlib.Algebra.BigOperators.Intervals
import Mathlib.Data.Nat.Bitwise

/-!
# Bits packed into bytes

A bitmap is a function from positions to bits. Packed into bytes, least significant bit first, it can
be read back, updated bit by bit and counted byte by byte. A bitmap kept in pieces of equal size is
counted piece by piece.
-/

namespace Bits

open List hiding min

/-- The bit at a position; positions past the end read as clear. -/
def getBit (bytes : List UInt8) (index : Nat) : Bool :=
  (bytes.getD (index / 8) 0).toNat.testBit (index % 8)

def setBit (bytes : List UInt8) (index : Nat) : List UInt8 :=
  bytes.modify (index / 8) fun byte => byte ||| UInt8.ofNat (2 ^ (index % 8))

def clearBit (bytes : List UInt8) (index : Nat) : List UInt8 :=
  bytes.modify (index / 8) fun byte => byte &&& ~~~UInt8.ofNat (2 ^ (index % 8))

def writeBit (bytes : List UInt8) (index : Nat) (value : Bool) : List UInt8 :=
  if value then setBit bytes index else clearBit bytes index

def countOnes (byte : UInt8) : Nat := ((List.range 8).filter fun i => byte.toNat.testBit i).length

/-- `count` bytes of a bitmap. -/
def pack (bit : Nat → Bool) (count : Nat) : List UInt8 :=
  (List.range count).map fun byte => UInt8.ofNat (Nat.ofBits fun i : Fin 8 => bit (byte * 8 + i))

@[simp] theorem length_pack (bit : Nat → Bool) (count : Nat) : (pack bit count).length = count := by
  simp [pack]

@[simp] theorem length_setBit (bytes : List UInt8) (index : Nat) : (setBit bytes index).length = bytes.length := by
  simp [setBit]

theorem getBit_pack {bit : Nat → Bool} {count index : Nat} (h : index < count * 8) :
    getBit (pack bit count) index = bit index := by
  have hbyte : index / 8 < count := by omega
  have hlt := Nat.ofBits_lt_two_pow fun i : Fin 8 => bit (index / 8 * 8 + i)
  have hpstn : index / 8 * 8 + index % 8 = index := by omega
  rw [getBit, pack, getD_eq_getElem _ _ (by simpa using hbyte), getElem_map,
    getElem_range, UInt8.toNat_ofNat', Nat.mod_eq_of_lt hlt,
    Nat.testBit_ofBits_lt _ _ (Nat.mod_lt _ (by decide)), hpstn]

theorem toNat_or_two_pow (byte : UInt8) {i : Nat} (hi : i < 8) :
    (byte ||| UInt8.ofNat (2 ^ i)).toNat = byte.toNat ||| 2 ^ i := by
  have hpow : 2 ^ i < 2 ^ 8 := Nat.pow_lt_pow_right (by decide) hi
  rw [UInt8.toNat_or, UInt8.toNat_ofNat', Nat.mod_eq_of_lt hpow]

variable {bytes : List UInt8}

section

variable {index : Nat} (h : index < bytes.length * 8) (other : Nat)

include h

theorem getBit_modify (f : UInt8 → UInt8) :
    getBit (bytes.modify (index / 8) f) other = if other / 8 = index / 8 then
        (f (bytes.getD (other / 8) 0)).toNat.testBit (other % 8) else getBit bytes other := by
  split
  · rename_i hbyte
    have hoth : other / 8 < bytes.length := by omega
    rw [getBit, getD_eq_getElem _ _ (by simpa using hoth), getD_eq_getElem _ _ hoth, getElem_modify,
      if_pos hbyte.symm]
  · rename_i hbyte
    rw [getBit, getBit, getD_eq_getElem?_getD, getD_eq_getElem?_getD, getElem?_modify_ne _ _ (Ne.symm hbyte)]

theorem getBit_setBit : getBit (setBit bytes index) other = (getBit bytes other || decide (other = index)) := by
  rw [setBit, getBit_modify h]
  split
  · rename_i hbyte
    have hsame : (other = index) ↔ index % 8 = other % 8 := by omega
    rw [toNat_or_two_pow _ (Nat.mod_lt _ (by decide)), Nat.testBit_or, Nat.testBit_two_pow,
      decide_eq_decide.mpr hsame]
    rfl
  · rename_i hbyte
    have hne : other ≠ index := fun heq => hbyte (by rw [heq])
    rw [decide_eq_false hne, Bool.or_false]

omit h in
theorem testBit_and_not_two_pow (byte : UInt8) {i : Nat} (hi : i < 8) (j : Nat) :
    (byte &&& ~~~UInt8.ofNat (2 ^ i)).toNat.testBit j = (byte.toNat.testBit j && decide (j ≠ i)) := by
  have hpow : 2 ^ i < 2 ^ 8 := Nat.pow_lt_pow_right (by decide) hi
  rw [UInt8.toNat_and, UInt8.toNat_not, UInt8.toNat_ofNat', Nat.mod_eq_of_lt hpow, Nat.testBit_and]
  by_cases hj : j < 8
  · have hnot : (UInt8.size - 1 - 2 ^ i).testBit j = decide (j ≠ i) := by
      rw [show UInt8.size - 1 - 2 ^ i = 2 ^ 8 - (2 ^ i + 1) by simp [UInt8.size],
        Nat.testBit_two_pow_sub_succ hpow, Nat.testBit_two_pow]
      simp [hj, eq_comm]
    rw [hnot]
  · have hhigh : byte.toNat.testBit j = false :=
      Nat.testBit_lt_two_pow (lt_of_lt_of_le byte.toNat_lt (Nat.pow_le_pow_right (by decide) (not_lt.mp hj)))
    rw [hhigh, Bool.false_and, Bool.false_and]

omit h in
@[simp] theorem length_clearBit (bytes : List UInt8) (index : Nat) :
    (clearBit bytes index).length = bytes.length := by
  simp [clearBit]

theorem getBit_clearBit : getBit (clearBit bytes index) other = (getBit bytes other && decide (other ≠ index)) := by
  rw [clearBit, getBit_modify h]
  split
  · rename_i hbyte
    have hsame : (other ≠ index) ↔ other % 8 ≠ index % 8 := by omega
    rw [testBit_and_not_two_pow _ (Nat.mod_lt _ (by decide)), decide_eq_decide.mpr hsame]
    rfl
  · rename_i hbyte
    have hne : other ≠ index := fun heq => hbyte (by rw [heq])
    rw [decide_eq_true hne, Bool.and_true]

end

@[simp] theorem length_writeBit (bytes : List UInt8) (index : Nat) (value : Bool) :
    (writeBit bytes index value).length = bytes.length := by
  cases value <;> simp [writeBit]

theorem getBit_writeBit {index : Nat} (h : index < bytes.length * 8) (value : Bool) (other : Nat) :
    getBit (writeBit bytes index value) other = if other = index then value else getBit bytes other := by
  cases value with
  | true =>
    rw [writeBit, if_pos rfl, getBit_setBit h]
    split_ifs with heq
    · simp [heq]
    · simp [heq]
  | false =>
    rw [writeBit, if_neg Bool.false_ne_true, getBit_clearBit h]
    split_ifs with heq
    · simp [heq]
    · simp [heq]

theorem length_foldl_setBit (indices : List Nat) (bytes : List UInt8) :
    (indices.foldl setBit bytes).length = bytes.length := by
  induction indices generalizing bytes with
  | nil => rfl
  | cons index rest ih => rw [foldl_cons, ih, length_setBit]

theorem getBit_foldl_setBit {indices : List Nat} (h : ∀ index ∈ indices, index < bytes.length * 8) (other : Nat) :
    getBit (indices.foldl setBit bytes) other = (getBit bytes other || decide (other ∈ indices)) := by
  induction indices generalizing bytes with
  | nil => simp
  | cons index rest ih =>
    have hrest : ∀ i ∈ rest, i < (setBit bytes index).length * 8 := by
      intro i hi
      rw [length_setBit]
      exact h i (mem_cons_of_mem _ hi)
    rw [foldl_cons, ih hrest, getBit_setBit (h index (by simp)), Bool.or_assoc,
      ← Bool.decide_or]
    simp only [mem_cons]

/-! ### Counting -/

theorem length_filter_range (bit : Nat → Bool) (count : Nat) :
    ((List.range count).filter bit).length = ∑ i ∈ Finset.range count, (bit i).toNat := by
  induction count with
  | zero => rfl
  | succ count ih =>
    rw [range_succ, filter_append, length_append, ih, Finset.sum_range_succ]
    cases hbit : bit count <;> simp [hbit]

theorem getBit_cons (byte : UInt8) (bytes : List UInt8) (index : Nat) :
    getBit (byte :: bytes) (8 + index) = getBit bytes index := by
  have hbyte : (8 + index) / 8 = index / 8 + 1 := by omega
  have hbit : (8 + index) % 8 = index % 8 := by omega
  rw [getBit, getBit, hbyte, hbit, getD_cons_succ]

theorem sum_countOnes (bytes : List UInt8) :
    (bytes.map countOnes).sum = ∑ i ∈ Finset.range (bytes.length * 8), (getBit bytes i).toNat := by
  induction bytes with
  | nil => rfl
  | cons byte rest ih =>
    have hlen : (byte :: rest).length * 8 = 8 + rest.length * 8 := by
      rw [length_cons]
      omega
    have hfirst : ∀ i ∈ Finset.range 8, (byte.toNat.testBit i).toNat = (getBit (byte :: rest) i).toNat := by
      intro i hi
      have hi := Finset.mem_range.mp hi
      rw [getBit, Nat.div_eq_of_lt hi, Nat.mod_eq_of_lt hi, getD_cons_zero]
    rw [map_cons, sum_cons, ih, hlen, Finset.sum_range_add, countOnes,
      length_filter_range, Finset.sum_congr rfl hfirst]
    simp only [getBit_cons]

theorem sum_pieces (f : Nat → Nat) (total size count : Nat) :
    ∑ k ∈ Finset.range count, ∑ i ∈ Finset.range (min (total - k * size) size), f (k * size + i)
      = ∑ i ∈ Finset.range (min total (count * size)), f i := by
  induction count with
  | zero => simp
  | succ count ih =>
    rw [Finset.sum_range_succ, ih]
    by_cases hmore : count * size ≤ total
    · have hsplit : min total ((count + 1) * size) = count * size + min (total - count * size) size := by
        rw [Nat.add_mul]
        omega
      rw [Nat.min_eq_right hmore, hsplit, Finset.sum_range_add]
    · have hdone : min (total - count * size) size = 0 := by omega
      have hall : min total ((count + 1) * size) = min total (count * size) := by
        rw [Nat.add_mul]
        omega
      rw [hdone, hall, Finset.sum_range_zero, Nat.add_zero]

end Bits
