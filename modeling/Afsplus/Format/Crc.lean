import Afsplus.Format.Header

/-!
# The sliced checksum

The source takes eight bytes a step through eight tables. A step of one bit is linear over exclusive
or, so is a step of one byte, and a table entry is a byte taken through as many steps as the table says.
-/

namespace Afsplus.Crc32c

open Wire Function

def bitStep (crc : UInt32) : UInt32 := if crc &&& 1 != 0 then (crc >>> 1) ^^^ polyReflected else crc >>> 1

/-- The definition: a byte enters at the low end and eight bits leave. -/
def updateBits (state : UInt32) (data : Bytes) : UInt32 :=
  data.foldl (fun crc b => bitStep^[8] (crc ^^^ b.toUInt32)) state

/-- Entry `i` of table `k`: byte `i` and `k` zero bytes after it. -/
def tables : Nat → UInt32 → UInt32
  | 0, i => tableEntry i
  | k + 1, i => (tables k i >>> 8) ^^^ tableEntry (tables k i &&& 0xFF)

def word (b₀ b₁ b₂ b₃ : UInt8) : UInt32 := UInt32.ofNat (leNat [b₀, b₁, b₂, b₃])

/-- Eight bytes a step, then byte by byte. -/
def updateTables (crc : UInt32) : Bytes → UInt32
  | b₀ :: b₁ :: b₂ :: b₃ :: b₄ :: b₅ :: b₆ :: b₇ :: rest =>
    let low := word b₀ b₁ b₂ b₃ ^^^ crc
    let high := word b₄ b₅ b₆ b₇
    updateTables (tables 7 (low &&& 0xFF) ^^^ tables 6 ((low >>> 8) &&& 0xFF) ^^^ tables 5 ((low >>> 16) &&& 0xFF) ^^^
      tables 4 (low >>> 24) ^^^ tables 3 (high &&& 0xFF) ^^^ tables 2 ((high >>> 8) &&& 0xFF) ^^^
      tables 1 ((high >>> 16) &&& 0xFF) ^^^ tables 0 (high >>> 24)) rest
  | rest => rest.foldl updateByte crc

theorem bitStep_eq (a : UInt32) :
    bitStep a = if a.toNat.testBit 0 then (a >>> 1) ^^^ polyReflected else a >>> 1 := by
  have hlow : (a &&& 1).toNat = a.toNat % 2 := by simp
  have hbit : (a &&& 1 != 0) = a.toNat.testBit 0 := by
    rw [Bool.eq_iff_iff, bne_iff_ne, Ne, ← UInt32.toNat_inj, hlow, Nat.testBit_zero, decide_eq_true_eq]
    exact Nat.mod_two_ne_zero
  rw [bitStep, hbit]

theorem bitStep_xor (a b : UInt32) : bitStep (a ^^^ b) = bitStep a ^^^ bitStep b := by
  rw [bitStep_eq, bitStep_eq, bitStep_eq, UInt32.toNat_xor, Nat.testBit_xor, UInt32.shiftRight_xor]
  cases a.toNat.testBit 0 <;> cases b.toNat.testBit 0
  · rfl
  · exact UInt32.xor_assoc ..
  · simp only [Bool.xor_false, if_true, Bool.false_eq_true, if_false]
    ac_rfl
  · simp only [Bool.xor_self, if_true, Bool.false_eq_true, if_false]
    rw [UInt32.xor_assoc, ← UInt32.xor_assoc polyReflected, UInt32.xor_comm polyReflected, UInt32.xor_assoc,
      UInt32.xor_self, UInt32.xor_zero]

theorem iterate_xor {f : UInt32 → UInt32} (h : ∀ a b, f (a ^^^ b) = f a ^^^ f b) (k : Nat) (a b : UInt32) :
    f^[k] (a ^^^ b) = f^[k] a ^^^ f^[k] b := by
  induction k generalizing a b with
  | zero => rfl
  | succ k ih => rw [iterate_succ_apply, iterate_succ_apply, iterate_succ_apply, h, ih]

/-- Eight bits. -/
def byteStep : UInt32 → UInt32 := bitStep^[8]

theorem byteStep_xor (a b : UInt32) : byteStep (a ^^^ b) = byteStep a ^^^ byteStep b := iterate_xor bitStep_xor 8 a b

theorem toNat_iterate_bitStep {k : Nat} {a : UInt32} (h : 2 ^ k ∣ a.toNat) :
    (bitStep^[k] a).toNat = a.toNat / 2 ^ k := by
  induction k with
  | zero => simp
  | succ k ih =>
    obtain ⟨m, hm⟩ := h
    have hk := ih ⟨2 * m, by rw [hm, pow_succ, Nat.mul_assoc]⟩
    have heven : (bitStep^[k] a).toNat = 2 * m := by
      rw [hk, hm, pow_succ, Nat.mul_assoc, Nat.mul_div_cancel_left _ (Nat.two_pow_pos k)]
    rw [iterate_succ_apply', bitStep_eq, heven, if_neg (by simp [Nat.testBit_zero]),
      UInt32.toNat_shiftRight, heven, hm]
    simp [Nat.shiftRight_eq_div_pow]

theorem toNat_and_ff (a : UInt32) : (a &&& 0xFF).toNat = a.toNat % 256 := by
  rw [UInt32.toNat_and]
  exact Nat.and_two_pow_sub_one_eq_mod _ 8

theorem toNat_shift_byte (a : UInt32) : (a >>> 8).toNat = a.toNat / 256 := by
  simp [Nat.shiftRight_eq_div_pow]

/-- The low byte goes through the table, the rest moves down. -/
theorem byteStep_eq (a : UInt32) : byteStep a = (a >>> 8) ^^^ tableEntry (a &&& 0xFF) := by
  have hsplit : a = (a ^^^ (a &&& 0xFF)) ^^^ (a &&& 0xFF) := by
    rw [UInt32.xor_assoc, UInt32.xor_self, UInt32.xor_zero]
  have hhigh : (a ^^^ (a &&& 0xFF)).toNat = a.toNat / 256 * 256 := by
    rw [UInt32.toNat_xor, toNat_and_ff, Nat.mul_comm]
    apply Nat.eq_of_testBit_eq
    intro i
    rw [Nat.testBit_xor, Nat.testBit_mod_two_pow _ 8, Nat.testBit_two_pow_mul (i := 8),
      Nat.testBit_div_two_pow (n := 8)]
    by_cases hi : i < 8
    · simp [hi]
    · simp [hi, Nat.sub_add_cancel (not_lt.mp hi), not_lt.mp hi]
  conv_lhs => rw [hsplit, byteStep_xor]
  congr 1
  rw [← UInt32.toNat_inj, byteStep, toNat_iterate_bitStep (by rw [hhigh]; exact ⟨_, Nat.mul_comm _ _⟩), hhigh,
    toNat_shift_byte]
  simp

theorem updateByte_eq (state : UInt32) (b : UInt8) : updateByte state b = byteStep (state ^^^ b.toUInt32) := by
  have hb : b.toUInt32 >>> 8 = 0 := by
    rw [← UInt32.toNat_inj, toNat_shift_byte]
    have := b.toNat_lt
    simp
    omega
  rw [byteStep_eq, UInt32.shiftRight_xor, hb, UInt32.xor_zero, updateByte]

theorem tables_eq (k : Nat) (i : UInt32) : tables k i = byteStep^[k + 1] i := by
  induction k with
  | zero => rfl
  | succ k ih => rw [tables, ih, ← byteStep_eq, ← iterate_succ_apply' byteStep]

theorem shift_shift (a : UInt32) : a >>> 16 = a >>> 8 >>> 8 ∧ a >>> 24 = a >>> 8 >>> 8 >>> 8 := by
  constructor <;> rw [← UInt32.toNat_inj] <;> simp [Nat.shiftRight_eq_div_pow, Nat.div_div_eq_div_mul]

/-- Four steps take the four bytes of a word through the tables. -/
theorem iterate_byteStep_four (a : UInt32) : byteStep^[4] a = byteStep^[4] (a &&& 0xFF) ^^^
    byteStep^[3] ((a >>> 8) &&& 0xFF) ^^^ byteStep^[2] ((a >>> 16) &&& 0xFF) ^^^ byteStep (a >>> 24) := by
  have hstep (k : Nat) (x : UInt32) : byteStep^[k + 1] x = byteStep^[k + 1] (x &&& 0xFF) ^^^ byteStep^[k] (x >>> 8) := by
    conv_lhs => rw [iterate_succ_apply, byteStep_eq, UInt32.xor_comm, iterate_xor byteStep_xor]
    rfl
  rw [(shift_shift a).1, (shift_shift a).2, hstep 3, hstep 2 (a >>> 8), hstep 1 (a >>> 8 >>> 8), UInt32.xor_assoc,
    UInt32.xor_assoc]
  rfl

theorem iterate_byteStep_word (b₀ b₁ b₂ b₃ : UInt8) : byteStep^[4] (word b₀ b₁ b₂ b₃) = byteStep^[4] b₀.toUInt32 ^^^
    byteStep^[3] b₁.toUInt32 ^^^ byteStep^[2] b₂.toUInt32 ^^^ byteStep b₃.toUInt32 := by
  have h₀ := b₀.toNat_lt
  have h₁ := b₁.toNat_lt
  have h₂ := b₂.toNat_lt
  have h₃ := b₃.toNat_lt
  have hword : (word b₀ b₁ b₂ b₃).toNat = b₀.toNat + 256 * (b₁.toNat + 256 * (b₂.toNat + 256 * b₃.toNat)) := by
    simp [word, leNat]
    omega
  rw [iterate_byteStep_four, (shift_shift _).1, (shift_shift _).2]
  congr 4
  all_goals
    rw [← UInt32.toNat_inj]
    simp only [toNat_and_ff, toNat_shift_byte, hword, UInt8.toNat_toUInt32]
    omega

theorem four_bytes (c : UInt32) (b₀ b₁ b₂ b₃ : UInt8) :
    byteStep (byteStep (byteStep (byteStep (c ^^^ b₀.toUInt32) ^^^ b₁.toUInt32) ^^^ b₂.toUInt32) ^^^ b₃.toUInt32)
      = byteStep^[4] (c ^^^ word b₀ b₁ b₂ b₃) := by
  rw [iterate_xor byteStep_xor, iterate_byteStep_word]
  simp only [byteStep_xor, iterate_succ_apply, iterate_zero, id]
  ac_rfl

theorem tables_word (k : Nat) (a : UInt32) : tables (k + 3) (a &&& 0xFF) ^^^ tables (k + 2) ((a >>> 8) &&& 0xFF) ^^^
    tables (k + 1) ((a >>> 16) &&& 0xFF) ^^^ tables k (a >>> 24) = byteStep^[k + 4] a := by
  rw [iterate_add_apply, iterate_byteStep_four]
  simp only [tables_eq, iterate_xor byteStep_xor, ← iterate_add_apply, ← iterate_succ_apply]

theorem update_eq_updateBits : update = updateBits := by
  have hstep : updateByte = fun crc b => bitStep^[8] (crc ^^^ b.toUInt32) := by
    funext crc b
    exact updateByte_eq crc b
  unfold update updateBits
  rw [hstep]

theorem updateTables_eq_updateBits : updateTables = updateBits := by
  funext state data
  fun_induction updateTables state data with
  | case1 crc b₀ b₁ b₂ b₃ b₄ b₅ b₆ b₇ rest low high ih =>
    have hbytes : updateBits crc [b₀, b₁, b₂, b₃, b₄, b₅, b₆, b₇]
        = byteStep^[4] (byteStep^[4] (crc ^^^ word b₀ b₁ b₂ b₃) ^^^ high) := by
      rw [← four_bytes, ← four_bytes]
      rfl
    have hlow : crc ^^^ word b₀ b₁ b₂ b₃ = low := UInt32.xor_comm ..
    rw [hlow, iterate_xor byteStep_xor, ← iterate_add_apply, ← tables_word 4, ← tables_word 0] at hbytes
    simp only [← UInt32.xor_assoc] at hbytes
    rw [ih, ← hbytes]
    rfl
  | case2 crc rest => exact congrFun₂ update_eq_updateBits crc rest

/-- Eight bytes a step through the tables compute the definition, whatever the pieces of the string. -/
theorem sliced_crc_eq_definition (state : UInt32) :
    (∀ data, updateTables state data = updateBits state data) ∧
      ∀ pieces : List Bytes, pieces.foldl updateTables state = updateTables state pieces.flatten := by
  rw [updateTables_eq_updateBits]
  refine ⟨fun _ => rfl, fun pieces => ?_⟩
  unfold updateBits
  rw [List.foldl_flatten]

end Afsplus.Crc32c
