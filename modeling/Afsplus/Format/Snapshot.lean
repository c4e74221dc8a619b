import Afsplus.Format.Basic

/-!
# Values of the two snapshot trees

Every value is 32 bytes: a few little-endian words and zeros behind them. Key zero of each tree holds its
control record; the other keys of the registry hold captured views, those of the ledger hold the
lifetimes of runs of blocks.
-/

namespace Afsplus.Snapshot

open Wire Fallible

def valueSize : Nat := 32

def fields (value : Bytes) (used : Nat) : Except FormatError Unit := do
  refuseIf (value.length ≠ valueSize) (.invalid "snapshot value length")
  refuseIf ((value.drop used).any (· ≠ 0)) (.invalid "snapshot reserved bytes")

def decodeKey (key : Bytes) : Except FormatError Nat := do
  refuseIf (key.length ≠ 8) (.invalid "snapshot key length")
  pure (leNat key.reverse)

/-- The words of a value and the zeros behind them. -/
def words (values : List Nat) : Bytes :=
  values.flatMap (leBytes 8) ++ List.replicate (valueSize - 8 * values.length) 0

structure RegistryState where
  nextId : Nat
  deriving DecidableEq, Repr

namespace RegistryState

def encode (state : RegistryState) : Except FormatError Bytes := do
  refuseIf (state.nextId = 0) (.invalid "snapshot next ID is zero")
  pure (words [state.nextId])

def decode (value : Bytes) : Except FormatError RegistryState := do
  fields value 8
  let (nextId, _) := readLe 8 value
  let state : RegistryState := ⟨nextId⟩
  let _ ← state.encode
  pure state

end RegistryState

structure SnapshotRecord where
  generation : Nat
  committedTxId : Nat
  objectMapRoot : Lba
  deriving DecidableEq, Repr

namespace SnapshotRecord

def validate (record : SnapshotRecord) (maxGeneration totalBlocks : Nat) : Except FormatError Unit := do
  refuseIf (record.generation = 0 ∨ record.generation > maxGeneration)
    (.invalid "snapshot captured generation")
  refuseIf (record.committedTxId = 0 ∨ record.committedTxId > record.generation)
    (.invalid "snapshot committed transaction ID")
  refuseIf (record.objectMapRoot = 0 ∨ record.objectMapRoot ≥ totalBlocks)
    (.invalid "snapshot object-map root")

def decode (value : Bytes) (maxGeneration totalBlocks : Nat) : Except FormatError SnapshotRecord := do
  fields value 24
  let (generation, rest) := readLe 8 value
  let (committedTxId, rest) := readLe 8 rest
  let (objectMapRoot, _) := readLe 8 rest
  let record : SnapshotRecord := ⟨generation, committedTxId, objectMapRoot⟩
  record.validate maxGeneration totalBlocks
  pure record

end SnapshotRecord

/-- A retirement of zero means live; any other is the first generation without a live owner. -/
structure LifetimeRecord where
  blocks : Nat
  birth : Nat
  retirement : Nat
  deriving DecidableEq, Repr

namespace LifetimeRecord

def validate (record : LifetimeRecord) (start maxGeneration totalBlocks : Nat) :
    Except FormatError Unit := do
  refuseIf (start = 0 ∨ record.blocks = 0 ∨ start + record.blocks ≥ 2 ^ 64 ∨
      start + record.blocks > totalBlocks)
    (.invalid "snapshot lifetime physical range")
  refuseIf (record.birth = 0 ∨ record.birth > maxGeneration) (.invalid "snapshot lifetime birth")
  refuseIf (record.retirement ≠ 0 ∧
      (record.retirement ≤ record.birth ∨ record.retirement > maxGeneration))
    (.invalid "snapshot lifetime retirement")

def value (record : LifetimeRecord) : Bytes := words [record.blocks, record.birth, record.retirement]

def encode (record : LifetimeRecord) (start maxGeneration totalBlocks : Nat) :
    Except FormatError Bytes := do
  record.validate start maxGeneration totalBlocks
  pure record.value

def decode (value : Bytes) (start maxGeneration totalBlocks : Nat) :
    Except FormatError LifetimeRecord := do
  fields value 24
  let (blocks, rest) := readLe 8 value
  let (birth, rest) := readLe 8 rest
  let (retirement, _) := readLe 8 rest
  let record : LifetimeRecord := ⟨blocks, birth, retirement⟩
  record.validate start maxGeneration totalBlocks
  pure record

def contains (record : LifetimeRecord) (generation : Nat) : Bool :=
  record.birth ≤ generation && (record.retirement = 0 || generation < record.retirement)

end LifetimeRecord

structure LedgerState where
  scanPosition : Nat
  retainedBlocks : Nat
  deriving DecidableEq, Repr

namespace LedgerState

def value (state : LedgerState) : Bytes := words [state.scanPosition, state.retainedBlocks]

def encode (state : LedgerState) (totalBlocks : Nat) : Except FormatError Bytes := do
  refuseIf (totalBlocks = 0 ∨ state.scanPosition ≥ totalBlocks ∨ state.retainedBlocks > totalBlocks)
    (.invalid "snapshot ledger control range")
  pure state.value

def decode (value : Bytes) (totalBlocks : Nat) : Except FormatError LedgerState := do
  fields value 16
  let (scanPosition, rest) := readLe 8 value
  let (retainedBlocks, _) := readLe 8 rest
  let state : LedgerState := ⟨scanPosition, retainedBlocks⟩
  let _ ← state.encode totalBlocks
  pure state

end LedgerState

theorem fields_words {values : List Nat} (hfew : 8 * values.length ≤ valueSize) :
    fields (words values) (8 * values.length) = .ok () := by
  have hlen : (values.flatMap (leBytes 8)).length = 8 * values.length := by
    rw [List.length_flatMap]
    simp [Nat.mul_comm]
  rw [fields, refuseIf_bind, refuseIf_eq_ok]
  · rw [words, List.drop_left' hlen]
    simp
  · rw [words, List.length_append, hlen, List.length_replicate, not_not]
    omega

variable {state : LedgerState}

theorem LedgerState.encode_eq_ok {totalBlocks : Nat} {value : Bytes} :
    state.encode totalBlocks = .ok value ↔ totalBlocks ≠ 0 ∧ state.scanPosition < totalBlocks ∧
      state.retainedBlocks ≤ totalBlocks ∧ value = state.value := by
  rw [encode, refuseIf_ok, pure_ok, not_or, not_or, not_le, not_lt, and_assoc, and_assoc]

theorem LedgerState.value_eq (state : LedgerState) : state.value =
    leBytes 8 state.scanPosition ++ (leBytes 8 state.retainedBlocks ++ List.replicate 16 0) := by
  simp [value, words, valueSize]

theorem LedgerState.decode_value {totalBlocks : Nat}
    (henc : state.encode totalBlocks = .ok state.value) (htotal : totalBlocks < 2 ^ 64) :
    LedgerState.decode state.value totalBlocks = .ok state := by
  obtain ⟨-, hscan, hretained, -⟩ := LedgerState.encode_eq_ok.mp henc
  have hfields : fields state.value 16 = .ok () :=
    @fields_words [state.scanPosition, state.retainedBlocks] (Nat.le_add_right 16 16)
  rw [decode, check_bind hfields, value_eq, readLe_append (by omega)]
  dsimp only
  rw [readLe_append (by omega)]
  dsimp only
  rw [henc, value_eq]
  rfl

namespace LifetimeRecord

variable {record : LifetimeRecord} {start maxGeneration totalBlocks : Nat}

structure InRange (record : LifetimeRecord) (start maxGeneration totalBlocks : Nat) : Prop where
  positive : 0 < start
  nonempty : 0 < record.blocks
  stop : start + record.blocks ≤ totalBlocks
  birth : 0 < record.birth
  birth_le : record.birth ≤ maxGeneration
  retirement : record.retirement ≠ 0 → record.birth < record.retirement ∧
    record.retirement ≤ maxGeneration

theorem validate_eq_ok (htotal : totalBlocks < 2 ^ 64) {u : Unit} :
    record.validate start maxGeneration totalBlocks = .ok u ↔ record.InRange start maxGeneration totalBlocks := by
  rw [validate, refuseIf_ok, refuseIf_ok, refuseIf_eq_ok]
  constructor
  · rintro ⟨hrng, hbirth, hretirement⟩
    exact ⟨by omega, by omega, by omega, by omega, by omega, by omega⟩
  · rintro ⟨hstart, hblks, hstop, hbirth, hbirthLe, hretirement⟩
    exact ⟨by omega, by omega, by omega⟩

theorem value_eq (record : LifetimeRecord) : record.value = leBytes 8 record.blocks ++
    (leBytes 8 record.birth ++ (leBytes 8 record.retirement ++ List.replicate 8 0)) := by
  simp [value, words, valueSize]

theorem decode_value (h : record.InRange start maxGeneration totalBlocks)
    (htotal : totalBlocks < 2 ^ 64) (hgen : maxGeneration < 2 ^ 64) :
    decode record.value start maxGeneration totalBlocks = .ok record := by
  have hfields : fields record.value 24 = .ok () :=
    @fields_words [record.blocks, record.birth, record.retirement] (Nat.le_add_right 24 8)
  have hval : record.validate start maxGeneration totalBlocks = .ok () := (validate_eq_ok htotal).mpr h
  obtain ⟨-, -, hstop, -, hbirth, hretirement⟩ := h
  rw [decode, check_bind hfields, value_eq, readLe_append (by omega)]
  dsimp only
  rw [readLe_append (by omega)]
  dsimp only
  rw [readLe_append (by omega)]
  dsimp only
  rw [check_bind hval]
  rfl

end LifetimeRecord

end Afsplus.Snapshot
