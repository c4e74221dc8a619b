import Afsplus.Format.Geometry
import Afsplus.Format.LogCanonical

/-!
# The portable reader: devices, slots, names and log records

The C library reads through the caller's callbacks and decodes the same records as the Rust side with
its own code. `decodeLogRecord_eq_ok` says the two decoders accept the same blocks with the same
meaning; they differ only in the errors they report for the others.
-/

namespace Afsplus.Portable

open Wire Fallible LogOp

/-- Every status but success. -/
inductive Status where
  | invalidArgument | abi | io | unsupported | corrupt | notFound | notFile | notDirectory
  | logFull | destinationExists | writeUncertain | durabilityUncertain | writeFeature
  | objectIdExhausted | tailRewriteRequired | noSpace | invalidWriteRange | nonzeroTail
  | dataWriteUncertain | dataDurabilityUncertain
  deriving DecidableEq, Repr

/-- The caller's block callbacks. The nth write or flush of a call may fail. -/
structure Device where
  blockCount : Nat
  readBlocks : Lba → Option Bytes
  writeFails : Nat → Bool
  flushFails : Nat → Bool

def Device.readOne (dev : Device) (lba : Lba) : Except Status Bytes :=
  if lba ≥ dev.blockCount then .error .io
  else match dev.readBlocks lba with
    | some block => .ok block
    | none => .error .io

/-- What the probe reports: the identification block and the selected checkpoint. -/
structure Volume where
  geo : Geometry
  metadataStart : Nat
  uuid : Bytes
  generation : Nat
  logSlots : Nat
  nextObjectId : ObjectId
  freeBlocksTotal : Nat
  nameKeyAlgorithm : Nat
  intentLog : Bool
  intentLogDataUpdates : Bool
  orphanDirectory : Bool
  /-- A read-only-compatible feature other than shared extents and the orphan directory. -/
  otherRoCompat : Bool

def geometryValid (volume : Volume) : Bool :=
  volume.geo.validate.isOk && volume.metadataStart == volume.geo.region0ReservedBlocks

def prepareOperation (dev : Device) (volume : Volume) : Except Status Unit :=
  refuseIf (volume.generation = 0 ∨ volume.geo.totalBlocks = 0 ∨
    volume.geo.totalBlocks > dev.blockCount ∨ geometryValid volume = false) .corrupt

/-- The block of a log slot, computed from its ordinal among the allocatable blocks. -/
def logSlotLba (volume : Volume) (slot : Nat) : Except Status Lba :=
  let geo := volume.geo
  let regions := geo.regionCount
  if slot ≥ volume.logSlots ∨ regions = 0 then .error .invalidArgument
  else match geo.allocationRootLogicalNodes with
    | .error _ => .error .corrupt
    | .ok logicalNodes =>
      let reservedZero := geo.regionReservedBlocks 0 + bootstrapBlocks
      let ordinal := bootstrapMetadataBlocks + logicalNodes * 3 + slot
      let regionZeroAvailable := geo.regionValidBlocks 0 - reservedZero
      if ordinal < regionZeroAvailable then .ok (reservedZero + ordinal)
      else if regions = 1 then .error .corrupt
      else
        let index := ordinal - regionZeroAvailable
        let fullReserved := descriptorSlots + divCeil geo.regionSize bitmapPageBlocks * bitmapSlots
        let fullAvailable := geo.regionSize - fullReserved
        let partialLast : Bool := geo.totalBlocks % geo.regionSize != 0
        let fullSpan := (regions - 1 - partialLast.toNat) * fullAvailable
        if index < fullSpan then
          let lba := (1 + index / fullAvailable) * geo.regionSize + fullReserved +
            index % fullAvailable
          if lba < geo.totalBlocks then .ok lba else .error .corrupt
        else if partialLast then
          let last := regions - 1
          let reserved := geo.regionReservedBlocks last
          let available := geo.regionValidBlocks last - reserved
          if index - fullSpan < available then
            .ok (last * geo.regionSize + reserved + (index - fullSpan))
          else .error .corrupt
        else .error .corrupt

def validName (name : Bytes) : Bool :=
  name.length != 0 && name.length ≤ nameMaxUtf8Bytes && utf8Valid name &&
    !name.any fun c => c == 0 || c == 0x2F

def treeMaxKey : Nat := 1020

/-- Byte identity for legacy keys, exact for ASCII under the Unicode profiles and refused beyond. -/
def nameKey (volume : Volume) (name : Bytes) : Except Status Bytes :=
  if validName name = false ∨ name.length > treeMaxKey then .error .corrupt
  else if volume.nameKeyAlgorithm ≠ 0 ∧ name.any (· ≥ 0x80) then .error .unsupported
  else .ok (name.map fun byte =>
    if volume.nameKeyAlgorithm = 2 ∧ 0x41 ≤ byte ∧ byte ≤ 0x5A then byte + 0x20 else byte)

theorem validName_iff {name : Bytes} : validName name = true ↔ validateName name = .ok () := by
  have hnil : name = [] ↔ name.length = 0 := List.length_eq_zero_iff.symm
  unfold validName validateName
  split
  · rename_i hlen
    rw [hnil] at hlen
    simp only [Bool.and_eq_true, bne_iff_ne, decide_eq_true_eq, reduceCtorEq, iff_false]
    omega
  · rename_i hlen
    rw [hnil] at hlen
    have hlen : name.length ≠ 0 ∧ name.length ≤ nameMaxUtf8Bytes := by omega
    split
    · simp [*]
    · split <;> simp [*]

/-- The operation's own checks, past the shape of its entry and its timestamp. -/
def logOperationValid (op : LogOp) : Bool :=
  match validateDataExtentsFrom [] 0 op.dataExtents with
  | .error _ => false
  | .ok extentBlocks =>
    match op with
    | .create _ name expectedObjectId sizeBytes _ _ extents =>
      validName name ∧ expectedObjectId ≠ 0 ∧ ¬(extents = [] ∧ sizeBytes ≠ 0) ∧
        ¬(extents ≠ [] ∧ (sizeBytes = 0 ∨ blocksFor sizeBytes > extentBlocks))
    | .delete _ name _ => validName name
    | .rename _ sourceName _ targetName _ _ => validName sourceName ∧ validName targetName
    | .write u =>
      u.objectId ≠ 0 ∧ extentBlocks ≠ 0 ∧ ¬u.logicalStart + extentBlocks ≥ 2 ^ 64 ∧
        ¬(u.newSizeBytes < u.expectedSizeBytes ∨ u.newSizeBytes = 0) ∧
        ¬(u.logicalStart + extentBlocks > blocksFor u.newSizeBytes ∨
          (u.newSizeBytes > u.expectedSizeBytes ∧
            u.logicalStart + extentBlocks ≠ blocksFor u.newSizeBytes))
    | .truncate u =>
      u.objectId ≠ 0 ∧ u.expectedSizeBytes ≠ u.newSizeBytes ∧ ¬extentBlocks > 1 ∧
        ¬(u.newSizeBytes = 0 ∧ extentBlocks ≠ 0) ∧
        if extentBlocks = 0 then ¬(u.logicalStart ≠ 0 ∨ u.contentCrc ≠ 0)
        else ¬(u.newSizeBytes ≥ u.expectedSizeBytes ∨ u.newSizeBytes % defaultBlockSize = 0 ∨
          u.logicalStart ≠ u.newSizeBytes / defaultBlockSize)

def decodeLogOperation (version : Nat) (p : Bytes) : Except Status (LogOp × Bytes) := do
  refuseIf (p.length < opFixed) .corrupt
  let available := p.length - opFixed
  let (opType, p) := readLe 1 p
  let (replace, p) := readLe 1 p
  let (sourceLen, p) := readLe 2 p
  let (targetLen, p) := readLe 2 p
  let (extentCount, p) := readLe 2 p
  let (first, p) := readLe 8 p
  let (second, p) := readLe 8 p
  let (third, p) := readLe 8 p
  let (fourth, p) := readLe 8 p
  let (contentCrc, p) := readLe 4 p
  let (_, p) := readLe 4 p
  refuseIf (extentCount > maxLogExtents) .corrupt
  let (seconds, p) := readLe 8 p
  let (nanoseconds, p) := readLe 4 p
  refuseIf (nanoseconds ≥ 1000000000) .corrupt
  let (_, p) := readLe 4 p
  match variableLen version opType sourceLen targetLen extentCount with
  | none => throw .corrupt
  | some wanted =>
    refuseIf (wanted > available) .corrupt
    let (extents, p) := readExtents extentCount p
    let (sourceName, p) := readBytes sourceLen p
    let (targetName, p) := readBytes targetLen p
    let op := OpEntry.toOp ⟨opType, replace != 0, sourceName, targetName, extents, first, second,
      third, fourth, contentCrc, ⟨toSigned 8 seconds, nanoseconds⟩⟩
    refuseIf (logOperationValid op = false) .corrupt
    pure (op, p)

def decodeLogOperations (version : Nat) : Nat → Bytes → Except Status (List LogOp × Bytes)
  | 0, p => .ok ([], p)
  | count + 1, p => do
    let (op, p) ← decodeLogOperation version p
    let (ops, p) ← decodeLogOperations version count p
    pure (op :: ops, p)

def decodeLogRecord (block : Bytes) : Except Status LogRecord :=
  match BlockHeader.verify block BlockType.intentLog with
  | .error (.unsupportedHeaderVersion _) => .error .unsupported
  | .error _ => .error .corrupt
  | .ok header => do
    let p := header.payload block
    refuseIf (header.flags ≠ 0 ∨ header.owner ≠ 0 ∨ p.length < logFixedPayload) .corrupt
    let (uuid, p) := readBytes 16 p
    let (baseGeneration, p) := readLe 8 p
    let (sequence, p) := readLe 4 p
    let (operationCount, p) := readLe 2 p
    let (version, p) := readLe 2 p
    refuseIf (baseGeneration = 0 ∨ baseGeneration ≠ header.generation ∨ sequence = 0 ∨
      operationCount = 0 ∨ operationCount > maxLogOps) .corrupt
    refuseIf (version ≠ 2 ∧ version ≠ 3) .unsupported
    let (ops, p) ← decodeLogOperations version operationCount p
    refuseIf (p ≠ []) .corrupt
    pure ⟨uuid, baseGeneration, sequence, ops⟩

/-! ### Both decoders accept the same records -/

theorem length_readExtents (count : Nat) (p : Bytes) : (readExtents count p).1.length = count := by
  induction count generalizing p with
  | zero => rfl
  | succ count ih => simp [readExtents, ih]

private theorem exists_unit_eq_ok {ε : Type} {r : Except ε Unit} {q : Prop} : (∃ u, r = .ok u ∧ q) ↔ r = .ok () ∧ q :=
  ⟨fun ⟨_, hr, hq⟩ => ⟨hr, hq⟩, fun ⟨hr, hq⟩ => ⟨(), hr, hq⟩⟩

theorem validate_iff_logOperationValid {op : LogOp} (hcnt : op.dataExtents.length ≤ maxLogExtents) :
    op.validate = .ok () ↔ op.timestamp.nanoseconds < 1000000000 ∧ logOperationValid op = true := by
  have hexts : validateDataExtents op.dataExtents = validateDataExtentsFrom [] 0 op.dataExtents := by
    rw [validateDataExtents, if_neg (by omega)]
  refine bind_ok.trans ?_
  rw [exists_unit_eq_ok, Timespec.validate_eq_ok]
  refine and_congr_right fun _ => ?_
  cases op with
  | create parentId name expectedObjectId sizeBytes contentCrc timestamp extents =>
    simp only [dataExtents] at hexts
    simp only [bind_ok, exists_unit_eq_ok, refuseIf_eq_ok, hexts, logOperationValid,
      dataExtents, ← validName_iff]
    cases validateDataExtentsFrom [] 0 extents with
    | error e => simp
    | ok total =>
      simp only [Except.ok.injEq, exists_eq_left', decide_eq_true_eq, exists_const]
      tauto
  | delete parentId name timestamp =>
    simp [logOperationValid, dataExtents, validateDataExtentsFrom, validName_iff]
  | rename sourceParentId sourceName targetParentId targetName replace timestamp =>
    simp only [bind_ok, exists_unit_eq_ok]
    simp [logOperationValid, dataExtents, validateDataExtentsFrom, validName_iff]
  | write u =>
    simp only [dataExtents] at hexts
    simp only [FileUpdate.validateWrite, bind_ok, refuseIf_eq_ok, hexts, logOperationValid, dataExtents]
    cases validateDataExtentsFrom [] 0 u.extents with
    | error e => simp
    | ok total => simp only [Except.ok.injEq, exists_eq_left', decide_eq_true_eq, exists_const]
  | truncate u =>
    simp only [dataExtents] at hexts
    simp only [FileUpdate.validateTruncate, bind_ok, refuseIf_eq_ok, hexts, logOperationValid, dataExtents]
    cases validateDataExtentsFrom [] 0 u.extents with
    | error e => simp
    | ok total =>
      simp only [Except.ok.injEq, exists_eq_left', decide_eq_true_eq, exists_const]
      split <;> simp only [refuseIf_eq_ok]

theorem dataExtents_toOp (e : OpEntry) : e.toOp.dataExtents.length ≤ e.extents.length := by
  unfold OpEntry.toOp
  repeat' split
  all_goals simp [dataExtents]

theorem timestamp_toOp (e : OpEntry) : e.toOp.timestamp = e.timestamp := by
  unfold OpEntry.toOp
  repeat' split
  all_goals rfl

private theorem refuseIf_bind_congr {ε ε' α : Type} {p q : Prop} [Decidable p] [Decidable q] {e : ε}
    {e' : ε'} {f : Unit → Except ε α} {g : Unit → Except ε' α} {a : α} (hpq : p ↔ q)
    (hfg : ¬p → (f () = .ok a ↔ g () = .ok a)) : (refuseIf p e >>= f) = .ok a ↔ (refuseIf q e' >>= g) = .ok a := by
  rw [refuseIf_ok, refuseIf_ok, ← hpq]
  exact and_congr_right hfg

theorem decodeLogOperation_eq_ok {version : Nat} {p : Bytes} {res : LogOp × Bytes} :
    decodeLogOperation version p = .ok res ↔ decodeOp version p = .ok res := by
  unfold decodeLogOperation decodeOp readTimespec
  refine refuseIf_bind_congr Iff.rfl fun _ => ?_
  generalize p.length - opFixed = available
  rcases h₁ : readLe 1 p with ⟨opType, p₁⟩
  rcases h₂ : readLe 1 p₁ with ⟨replace, p₂⟩
  rcases h₃ : readLe 2 p₂ with ⟨sourceLen, p₃⟩
  rcases h₄ : readLe 2 p₃ with ⟨targetLen, p₄⟩
  rcases h₅ : readLe 2 p₄ with ⟨extentCount, p₅⟩
  rcases h₆ : readLe 8 p₅ with ⟨first, p₆⟩
  rcases h₇ : readLe 8 p₆ with ⟨second, p₇⟩
  rcases h₈ : readLe 8 p₇ with ⟨third, p₈⟩
  rcases h₉ : readLe 8 p₈ with ⟨fourth, p₉⟩
  rcases h₁₀ : readLe 4 p₉ with ⟨contentCrc, p₁₀⟩
  rcases h₁₁ : readLe 4 p₁₀ with ⟨pad, p₁₁⟩
  rcases h₁₂ : readLe 8 p₁₁ with ⟨seconds, p₁₂⟩
  rcases h₁₃ : readLe 4 p₁₂ with ⟨nanoseconds, p₁₃⟩
  rcases h₁₄ : readLe 4 p₁₃ with ⟨tail, p₁₄⟩
  rcases h₁₅ : readExtents extentCount p₁₄ with ⟨extents, p₁₅⟩
  rcases h₁₆ : readBytes sourceLen p₁₅ with ⟨sourceName, p₁₆⟩
  rcases h₁₇ : readBytes targetLen p₁₆ with ⟨targetName, p₁₇⟩
  simp only [h₂, h₃, h₄, h₅, h₆, h₇, h₈, h₉, h₁₀, h₁₁, h₁₂, h₁₃, h₁₄, h₁₅, h₁₆, h₁₇]
  refine refuseIf_bind_congr Iff.rfl fun hcnt => ?_
  cases variableLen version opType sourceLen targetLen extentCount with
  | none => simp [throw, throwThe, MonadExceptOf.throw, bind_ok]
  | some wanted =>
    have hlen := length_readExtents extentCount p₁₄
    simp only [h₁₅] at hlen
    have hval := fun time => validate_iff_logOperationValid
      (Nat.le_trans (dataExtents_toOp ⟨opType, replace != 0, sourceName, targetName, extents, first,
        second, third, fourth, contentCrc, time⟩) (by rw [hlen]; omega))
    simp only [bind_ok, pure_ok, Timespec.validate_eq_ok, refuseIf_eq_ok,
      exists_const, hval, timestamp_toOp, Bool.not_eq_false, not_lt, ge_iff_le, not_le]
    constructor
    · rintro ⟨hnano, hroom, hop, rfl⟩
      exact ⟨hroom, _, ⟨hnano, rfl⟩, ⟨hnano, hop⟩, rfl⟩
    · rintro ⟨hroom, _, ⟨hnano, rfl⟩, ⟨-, hop⟩, rfl⟩
      exact ⟨hnano, hroom, hop, rfl⟩

theorem decodeLogOperations_eq_ok {version count : Nat} {p : Bytes} {res : List LogOp × Bytes} :
    decodeLogOperations version count p = .ok res ↔ decodeOps version count p = .ok res := by
  induction count generalizing p res with
  | zero => simp [decodeLogOperations, decodeOps]
  | succ count ih =>
    simp only [decodeLogOperations, decodeOps, bind_ok, decodeLogOperation_eq_ok, ih, pure_ok]

theorem decodeLogRecord_eq_ok {block : Bytes} {r : LogRecord} :
    decodeLogRecord block = .ok r ↔ LogRecord.decode block = .ok r := by
  unfold decodeLogRecord LogRecord.decode
  cases BlockHeader.verify block BlockType.intentLog with
  | error e => cases e <;> simp [bind_ok]
  | ok header =>
    rcases h₁ : readBytes 16 (header.payload block) with ⟨uuid, p₁⟩
    rcases h₂ : readLe 8 p₁ with ⟨baseGeneration, p₂⟩
    rcases h₃ : readLe 4 p₂ with ⟨sequence, p₃⟩
    rcases h₄ : readLe 2 p₃ with ⟨operationCount, p₄⟩
    rcases h₅ : readLe 2 p₄ with ⟨version, p₅⟩
    simp only [h₁, h₂, h₃, h₄, h₅, bind_ok, refuseIf_eq_ok, pure_ok,
      exists_const, Except.ok.injEq, exists_eq_left', decodeLogOperations_eq_ok]
    tauto

end Afsplus.Portable
