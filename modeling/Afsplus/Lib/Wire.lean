import Mathlib.Data.List.Basic
import Mathlib.Tactic.Ring
import Mathlib.Tactic.NormNum

/-!
# Little-endian fields

Fixed-width integers as byte lists and the two ways of reading a byte string: a field taken from the
front of what is left, and what remains after it. Writing a field and reading it back cancel in both
directions, so a codec's round trips reduce to the order of its fields.
-/

namespace Wire

open List hiding min

/-- The `width` low bytes of `n`, least significant first. -/
def leBytes : (width : Nat) → (n : Nat) → List UInt8
  | 0, _ => []
  | width + 1, n => UInt8.ofNat (n % 256) :: leBytes width (n / 256)

def leNat : List UInt8 → Nat
  | [] => 0
  | b :: rest => b.toNat + 256 * leNat rest

variable {width n : Nat}

@[simp] theorem length_leBytes (width n : Nat) : (leBytes width n).length = width := by
  induction width generalizing n with
  | zero => rfl
  | succ width ih => simp [leBytes, ih]

theorem leNat_leBytes (hn : n < 256 ^ width) : leNat (leBytes width n) = n := by
  induction width generalizing n with
  | zero =>
    have : n = 0 := by simpa using hn
    simp [leBytes, leNat, this]
  | succ width ih =>
    have hdiv : n / 256 < 256 ^ width := by
      rw [Nat.div_lt_iff_lt_mul (by norm_num)]
      rwa [pow_succ] at hn
    have hbyte : (UInt8.ofNat (n % 256)).toNat = n % 256 := by
      rw [UInt8.toNat_ofNat']
      omega
    rw [leBytes, leNat, ih hdiv, hbyte]
    omega

theorem leNat_lt (bytes : List UInt8) : leNat bytes < 256 ^ bytes.length := by
  induction bytes with
  | nil => simp [leNat]
  | cons b rest ih =>
    have hb : b.toNat < 256 := b.toNat_lt
    rw [leNat, length_cons, pow_succ]
    omega

theorem leBytes_leNat (bytes : List UInt8) : leBytes bytes.length (leNat bytes) = bytes := by
  induction bytes with
  | nil => rfl
  | cons b rest ih =>
    have hb : b.toNat < 256 := b.toNat_lt
    have hlow : (b.toNat + 256 * leNat rest) % 256 = b.toNat := by omega
    have hhigh : (b.toNat + 256 * leNat rest) / 256 = leNat rest := by omega
    rw [length_cons, leBytes, leNat, hlow, hhigh, ih, UInt8.ofNat_toNat]

theorem leNat_replicate_zero (n : Nat) : leNat (List.replicate n 0) = 0 := by
  induction n with
  | zero => rfl
  | succ n ih => rw [replicate_succ, leNat, ih]; rfl

/-- An integer field and what follows it. -/
def readLe (width : Nat) (bytes : List UInt8) : Nat × List UInt8 :=
  (leNat (bytes.take width), bytes.drop width)

/-- A byte string of known length and what follows it. -/
def readBytes (length : Nat) (bytes : List UInt8) : List UInt8 × List UInt8 :=
  (bytes.take length, bytes.drop length)

theorem readLe_append (hn : n < 256 ^ width) (rest : List UInt8) :
    readLe width (leBytes width n ++ rest) = (n, rest) := by
  rw [readLe, take_left' (length_leBytes _ _), drop_left' (length_leBytes _ _), leNat_leBytes hn]

theorem readLe_lt (width : Nat) (bytes : List UInt8) : (readLe width bytes).1 < 256 ^ width :=
  lt_of_lt_of_le (leNat_lt _) (Nat.pow_le_pow_right (by norm_num) (length_take_le _ _))

theorem length_readLe (width : Nat) (bytes : List UInt8) : (readLe width bytes).2.length = bytes.length - width :=
  length_drop

theorem readBytes_append (bytes rest : List UInt8) : readBytes bytes.length (bytes ++ rest) = (bytes, rest) := by
  rw [readBytes, take_left, drop_left]

variable {bytes : List UInt8}

theorem readBytes_of_length {length : Nat} (hlen : bytes.length = length)
    (rest : List UInt8) : readBytes length (bytes ++ rest) = (bytes, rest) := by
  rw [← hlen, readBytes_append]

theorem leBytes_readLe {width : Nat} (hwidth : width ≤ bytes.length) :
    leBytes width (readLe width bytes).1 ++ (readLe width bytes).2 = bytes := by
  have hlen : (bytes.take width).length = width := by
    rw [length_take]
    omega
  have hfield := leBytes_leNat (bytes.take width)
  rw [hlen] at hfield
  rw [readLe, hfield, take_append_drop]

/-! ### Writing back

A codec that has read its fields one after another gets its bytes back by these, from the last field on. -/

theorem leBytes_readLe_append {width value : Nat} (hwidth : width ≤ bytes.length)
    (hvalue : (readLe width bytes).1 = value) : leBytes width value ++ (readLe width bytes).2 = bytes :=
  hvalue ▸ leBytes_readLe hwidth

theorem leBytes_readLe_last {width : Nat} (hwidth : bytes.length = width) :
    leBytes width (readLe width bytes).1 = bytes := by
  have hrest : (readLe width bytes).2 = [] := eq_nil_of_length_eq_zero (by rw [length_readLe]; omega)
  rw [← append_nil (leBytes ..), ← hrest, leBytes_readLe hwidth.ge]

theorem readBytes_fst_append (length : Nat) (bytes : List UInt8) :
    (readBytes length bytes).1 ++ (readBytes length bytes).2 = bytes :=
  take_append_drop ..

theorem length_readBytes_fst (length : Nat) (bytes : List UInt8) :
    (readBytes length bytes).1.length = min length bytes.length :=
  length_take

theorem length_readBytes (length : Nat) (bytes : List UInt8) :
    (readBytes length bytes).2.length = bytes.length - length :=
  length_drop

theorem exists_bytes (length : Nat) {n : Nat} (hlen : bytes.length = n + length) :
    ∃ front rest, front.length = length ∧ rest.length = n ∧ bytes = front ++ rest := by
  refine ⟨bytes.take length, bytes.drop length, ?_, ?_, (take_append_drop _ _).symm⟩
  · rw [length_take]
    omega
  · rw [length_drop]
    omega

theorem exists_field (width : Nat) {n : Nat} (hlen : bytes.length = n + width) :
    ∃ value rest, value < 256 ^ width ∧ rest.length = n ∧ bytes = leBytes width value ++ rest := by
  refine ⟨(readLe width bytes).1, (readLe width bytes).2, readLe_lt _ _, ?_, ?_⟩
  · rw [length_readLe]
    omega
  · rw [leBytes_readLe (by omega)]

theorem leBytes_append_inj {width n m : Nat} (hn : n < 256 ^ width) (hm : m < 256 ^ width)
    {x y : List UInt8} (h : leBytes width n ++ x = leBytes width m ++ y) : n = m ∧ x = y := by
  obtain ⟨hfield, hrest⟩ := append_inj h (by simp)
  refine ⟨?_, hrest⟩
  rw [← leNat_leBytes hn, hfield, leNat_leBytes hm]

theorem leNat_eq_zero : leNat bytes = 0 ↔ ∀ b ∈ bytes, b = 0 := by
  induction bytes with
  | nil => simp [leNat]
  | cons b rest ih =>
    have hb : b.toNat = 0 ↔ b = 0 := by
      rw [← UInt8.toNat_inj]
      rfl
    rw [leNat, forall_mem_cons, ← ih, ← hb]
    omega

/-! ### Most significant byte first -/

theorem append_singleton_lt {x y : List UInt8} (hlen : x.length = y.length) {a b : UInt8} :
    x ++ [a] < y ++ [b] ↔ x < y ∨ x = y ∧ a < b := by
  induction x generalizing y with
  | nil =>
    have hy : y = [] := eq_nil_of_length_eq_zero hlen.symm
    simp [hy, cons_lt_cons_iff]
  | cons c x ih =>
    obtain ⟨d, y, rfl⟩ := exists_cons_of_length_eq_add_one hlen.symm
    have hlen' : x.length = y.length := by simpa using hlen
    rw [cons_append, cons_append, cons_lt_cons_iff, cons_lt_cons_iff, ih hlen', List.cons.injEq]
    tauto

theorem leBytes_injective {width n m : Nat} (hn : n < 256 ^ width) (hm : m < 256 ^ width)
    (h : leBytes width n = leBytes width m) : n = m := by
  rw [← leNat_leBytes hn, h, leNat_leBytes hm]

/-- Written most significant byte first, numbers are ordered like their bytes. -/
theorem reverse_leBytes_lt {width n m : Nat} (hn : n < 256 ^ width) (hm : m < 256 ^ width) :
    (leBytes width n).reverse < (leBytes width m).reverse ↔ n < m := by
  induction width generalizing n m with
  | zero =>
    rw [pow_zero] at hn hm
    simp [leBytes]
    omega
  | succ width ih =>
    rw [pow_succ] at hn hm
    have hdivn : n / 256 < 256 ^ width := (Nat.div_lt_iff_lt_mul (by norm_num)).mpr hn
    have hdivm : m / 256 < 256 ^ width := (Nat.div_lt_iff_lt_mul (by norm_num)).mpr hm
    have hbytes : (leBytes width (n / 256)).reverse = (leBytes width (m / 256)).reverse ↔ n / 256 = m / 256 :=
      ⟨fun h => leBytes_injective hdivn hdivm (reverse_inj.mp h), fun h => by rw [h]⟩
    have hlast : UInt8.ofNat (n % 256) < UInt8.ofNat (m % 256) ↔ n % 256 < m % 256 := by
      rw [UInt8.lt_iff_toNat_lt, UInt8.toNat_ofNat', UInt8.toNat_ofNat']
      omega
    rw [leBytes, leBytes, reverse_cons, reverse_cons, append_singleton_lt (by simp),
      ih hdivn hdivm, hbytes, hlast]
    omega

/-- Two's complement in `width` bytes. -/
def leBytesInt (width : Nat) (z : Int) : List UInt8 :=
  leBytes width (z % (256 ^ width : Nat)).toNat

def toSigned (width n : Nat) : Int :=
  if 2 * n < 256 ^ width then n else (n : Int) - (256 ^ width : Nat)

theorem toSigned_leBytesInt {width : Nat} {z : Int}
    (hlow : -(256 ^ width : Nat) ≤ 2 * z) (hhigh : 2 * z < (256 ^ width : Nat)) (rest : List UInt8) :
    readLe width (leBytesInt width z ++ rest) = ((z % (256 ^ width : Nat)).toNat, rest) ∧
      toSigned width (z % (256 ^ width : Nat)).toNat = z := by
  have hpos : (0 : Int) < (256 ^ width : Nat) := by
    have : 0 < 256 ^ width := Nat.pow_pos (by norm_num)
    omega
  have hnonneg := Int.emod_nonneg z hpos.ne'
  have hlt := Int.emod_lt_of_pos z hpos
  refine ⟨readLe_append (by omega) rest, ?_⟩
  rw [toSigned]
  by_cases hz : 0 ≤ z
  · have hmod : z % (256 ^ width : Nat) = z := Int.emod_eq_of_lt hz (by omega)
    rw [if_pos (by omega)]
    omega
  · have hmod : z % (256 ^ width : Nat) = z + (256 ^ width : Nat) := by
      rw [← Int.add_emod_right]
      exact Int.emod_eq_of_lt (by omega) (by omega)
    rw [if_neg (by omega)]
    omega

/-- Every field is the two's complement of the number it is read as. -/
theorem leBytesInt_toSigned (hn : n < 256 ^ width) : leBytesInt width (toSigned width n) = leBytes width n := by
  have hpos : (0 : Int) < (256 ^ width : Nat) := by omega
  rw [leBytesInt, toSigned]
  split
  · rw [Int.emod_eq_of_lt (by omega) (by omega), Int.toNat_natCast]
  · rw [← Int.add_emod_right, Int.sub_add_cancel, Int.emod_eq_of_lt (by omega) (by omega),
      Int.toNat_natCast]

theorem toSigned_range (hn : n < 256 ^ width) :
    -(256 ^ width : Nat) ≤ 2 * toSigned width n ∧ 2 * toSigned width n < (256 ^ width : Nat) := by
  rw [toSigned]
  split <;> omega

end Wire
