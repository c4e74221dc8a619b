import Mathlib.Algebra.Order.BigOperators.Group.List
import Afsplus.Format.Header

/-!
# Intent-log records

One block per record, one record per fsync. A record names the checkpoint generation it extends and
carries the whole group; file content is referenced by the extents it was written to and a CRC32C.
Each operation is one 64-byte entry followed by its extents and names, so the five operations share
one entry layout (`OpEntry`) and differ in which of its fields they use.
-/

namespace Afsplus

open Wire Fallible List

def maxLogExtents : Nat := 16

def maxLogOps : Nat := 64

def defaultBlockSize : Nat := 4096

abbrev LogExtent := Nat × Nat

/-- Replacement of part of an existing file, by a write or by a truncate. -/
structure FileUpdate where
  objectId : ObjectId
  logicalStart : Nat
  expectedSizeBytes : Nat
  newSizeBytes : Nat
  contentCrc : Nat
  timestamp : Timespec
  extents : List LogExtent
  deriving DecidableEq, Repr

inductive LogOp where
  | create (parentId : ObjectId) (name : Bytes) (expectedObjectId : ObjectId) (sizeBytes : Nat)
      (contentCrc : Nat) (timestamp : Timespec) (extents : List LogExtent)
  | delete (parentId : ObjectId) (name : Bytes) (timestamp : Timespec)
  | rename (sourceParentId : ObjectId) (sourceName : Bytes) (targetParentId : ObjectId)
      (targetName : Bytes) (replace : Bool) (timestamp : Timespec)
  | write (update : FileUpdate)
  | truncate (update : FileUpdate)
  deriving DecidableEq, Repr

structure LogRecord where
  uuid : Bytes
  baseGeneration : Nat
  sequence : Nat
  ops : List LogOp
  deriving DecidableEq, Repr

namespace LogOp

def timestamp : LogOp → Timespec
  | .create _ _ _ _ _ t _ => t
  | .delete _ _ t => t
  | .rename _ _ _ _ _ t => t
  | .write u => u.timestamp
  | .truncate u => u.timestamp

def dataExtents : LogOp → List LogExtent
  | .create _ _ _ _ _ _ extents => extents
  | .write u => u.extents
  | .truncate u => u.extents
  | _ => []

def names : LogOp → List Bytes
  | .create _ name _ _ _ _ _ => [name]
  | .delete _ name _ => [name]
  | .rename _ sourceName _ targetName _ _ => [sourceName, targetName]
  | _ => []

def contentCrc : LogOp → Nat
  | .create _ _ _ _ contentCrc _ _ => contentCrc
  | .write u => u.contentCrc
  | .truncate u => u.contentCrc
  | _ => 0

/-- Bytes under the checksum: a create's size, the whole blocks of a write or a truncate. -/
def contentBytes : LogOp → Nat
  | .create _ _ _ sizeBytes _ _ _ => sizeBytes
  | op => (op.dataExtents.map Prod.snd).sum * defaultBlockSize

def isExistingFileUpdate : LogOp → Bool
  | .write _ | .truncate _ => true
  | _ => false

end LogOp

open LogOp

def extentsOverlap (a b : LogExtent) : Bool := a.1 < b.1 + b.2 && b.1 < a.1 + a.2

/-- The walk over an operation's extents; `earlier` are those already seen, `total` their blocks. -/
def validateDataExtentsFrom (earlier : List LogExtent) (total : Nat) :
    List LogExtent → Except FormatError Nat
  | [] => .ok total
  | extent :: rest =>
    if extent.2 = 0 then .error (.invalid "logged extent has zero blocks")
    else if extent.1 + extent.2 ≥ 2 ^ 64 then .error (.invalid "logged extent end overflows")
    else if earlier.any (extentsOverlap · extent) then
      .error (.invalid "logged data extents overlap")
    else if total + extent.2 ≥ 2 ^ 64 then .error (.invalid "logged extent total overflows")
    else validateDataExtentsFrom (earlier ++ [extent]) (total + extent.2) rest

def validateDataExtents (extents : List LogExtent) : Except FormatError Nat :=
  if extents.length > maxLogExtents then .error (.invalid "logged operation has too many extents")
  else validateDataExtentsFrom [] 0 extents

def blocksFor (bytes : Nat) : Nat := (bytes + defaultBlockSize - 1) / defaultBlockSize

def FileUpdate.validateWrite (u : FileUpdate) : Except FormatError Unit := do
  refuseIf (u.objectId = 0) (.invalid "logged write without object ID")
  let blocks ← validateDataExtents u.extents
  refuseIf (blocks = 0) (.invalid "logged write without replacement data")
  refuseIf (u.logicalStart + blocks ≥ 2 ^ 64) (.invalid "logged write range overflows")
  refuseIf (u.newSizeBytes < u.expectedSizeBytes ∨ u.newSizeBytes = 0)
    (.invalid "logged write has invalid size transition")
  let fileBlocks := blocksFor u.newSizeBytes
  refuseIf (u.logicalStart + blocks > fileBlocks ∨
      (u.newSizeBytes > u.expectedSizeBytes ∧ u.logicalStart + blocks ≠ fileBlocks))
    (.invalid "logged write range is inconsistent with file size")

def FileUpdate.validateTruncate (u : FileUpdate) : Except FormatError Unit := do
  refuseIf (u.objectId = 0) (.invalid "logged truncate without object ID")
  refuseIf (u.expectedSizeBytes = u.newSizeBytes) (.invalid "logged truncate does not change size")
  let blocks ← validateDataExtents u.extents
  refuseIf (blocks > 1) (.invalid "logged truncate has more than one tail block")
  refuseIf (u.newSizeBytes = 0 ∧ blocks ≠ 0) (.invalid "empty truncate carries tail data")
  if blocks = 0 then
    refuseIf (u.logicalStart ≠ 0 ∨ u.contentCrc ≠ 0)
      (.invalid "data-free truncate carries tail fields")
  else
    refuseIf (u.newSizeBytes ≥ u.expectedSizeBytes ∨ u.newSizeBytes % defaultBlockSize = 0 ∨
        u.logicalStart ≠ u.newSizeBytes / defaultBlockSize)
      (.invalid "logged truncate tail is inconsistent with file size")

def LogOp.validate (op : LogOp) : Except FormatError Unit := do
  op.timestamp.validate
  match op with
  | .create _ name expectedObjectId sizeBytes _ _ extents =>
    validateName name
    refuseIf (expectedObjectId = 0) (.invalid "logged create without object ID")
    let total ← validateDataExtents extents
    refuseIf ((extents = [] ∧ sizeBytes ≠ 0) ∨
        (extents ≠ [] ∧ (sizeBytes = 0 ∨ blocksFor sizeBytes > total)))
      (.invalid "logged size inconsistent with extents")
  | .delete _ name _ => validateName name
  | .rename _ sourceName _ targetName _ _ =>
    validateName sourceName
    validateName targetName
  | .write u => u.validateWrite
  | .truncate u => u.validateTruncate

/-! ### The entry layout -/

/-- One operation as its entry spells it: the 64 fixed bytes, then extents and names. -/
structure OpEntry where
  opType : Nat
  replace : Bool
  sourceName : Bytes
  targetName : Bytes
  extents : List LogExtent
  parentId : Nat
  target : Nat
  expected : Nat
  size : Nat
  contentCrc : Nat
  timestamp : Timespec

def opFixed : Nat := 64

def extentWire : Nat := 12

def encodeExtents (extents : List LogExtent) : Bytes :=
  extents.flatMap fun e => leBytes 8 e.1 ++ leBytes 4 e.2

def OpEntry.encode (e : OpEntry) : Bytes :=
  leBytes 1 e.opType ++ leBytes 1 e.replace.toNat ++ leBytes 2 e.sourceName.length ++
    leBytes 2 e.targetName.length ++ leBytes 2 e.extents.length ++ leBytes 8 e.parentId ++
    leBytes 8 e.target ++ leBytes 8 e.expected ++ leBytes 8 e.size ++ leBytes 4 e.contentCrc ++
    leBytes 4 0 ++ e.timestamp.write ++ leBytes 4 0 ++ encodeExtents e.extents ++ e.sourceName ++
    e.targetName

def LogOp.entry : LogOp → OpEntry
  | .create parentId name expectedObjectId sizeBytes contentCrc timestamp extents =>
    ⟨1, false, name, [], extents, parentId, 0, expectedObjectId, sizeBytes, contentCrc, timestamp⟩
  | .delete parentId name timestamp => ⟨2, false, name, [], [], parentId, 0, 0, 0, 0, timestamp⟩
  | .rename sourceParentId sourceName targetParentId targetName replace timestamp =>
    ⟨3, replace, sourceName, targetName, [], sourceParentId, targetParentId, 0, 0, 0, timestamp⟩
  | .write u =>
    ⟨4, false, [], [], u.extents, u.objectId, u.logicalStart, u.expectedSizeBytes, u.newSizeBytes,
      u.contentCrc, u.timestamp⟩
  | .truncate u =>
    ⟨5, false, [], [], u.extents, u.objectId, u.logicalStart, u.expectedSizeBytes, u.newSizeBytes,
      u.contentCrc, u.timestamp⟩

def LogOp.wireLen (op : LogOp) : Nat :=
  opFixed + op.entry.extents.length * extentWire + op.entry.sourceName.length +
    op.entry.targetName.length

def logFixedPayload : Nat := 32

def LogRecord.version (r : LogRecord) : Nat :=
  if r.ops.any isExistingFileUpdate then 3 else 2

def LogRecord.payload (r : LogRecord) : Bytes :=
  r.uuid ++ leBytes 8 r.baseGeneration ++ leBytes 4 r.sequence ++ leBytes 2 r.ops.length ++
    leBytes 2 r.version ++ r.ops.flatMap fun op => op.entry.encode

def validateOps : List LogOp → Except FormatError Unit
  | [] => .ok ()
  | op :: rest => do
    op.validate
    validateOps rest

def LogRecord.header (r : LogRecord) (payloadLen : Nat) : BlockHeader :=
  ⟨BlockType.intentLog, 0, 0, r.baseGeneration, payloadLen⟩

def LogRecord.encode (r : LogRecord) (blockSize : Nat) : Except FormatError Bytes := do
  refuseIf (r.ops = [] ∨ r.ops.length > maxLogOps)
    (.invalid "log record operation count out of range")
  refuseIf (r.sequence = 0 ∨ r.baseGeneration = 0) (.invalid "log record binding out of range")
  let payloadLen := logFixedPayload + (r.ops.map wireLen).sum
  refuseIf (blockSize < headerSize ∨ payloadLen > blockSize - headerSize)
    (.overflow "fsync group exceeds one log record")
  validateOps r.ops
  pure ((r.header payloadLen).sealBlock
    (r.payload ++ List.replicate (blockSize - headerSize - payloadLen) 0))

def readExtents : Nat → Bytes → List LogExtent × Bytes
  | 0, p => ([], p)
  | count + 1, p =>
    let (start, p) := readLe 8 p
    let (blocks, p) := readLe 4 p
    let (rest, p) := readExtents count p
    ((start, blocks) :: rest, p)

/-- Bytes after the fixed part, by operation type; `none` for a type or a combination of lengths no
operation has. -/
def variableLen (version opType sourceLen targetLen extentCount : Nat) : Option Nat :=
  if opType = 1 ∧ targetLen = 0 then some (extentCount * extentWire + sourceLen)
  else if opType = 2 ∧ targetLen = 0 ∧ extentCount = 0 then some sourceLen
  else if opType = 3 ∧ extentCount = 0 then some (sourceLen + targetLen)
  else if (opType = 4 ∨ opType = 5) ∧ version = 3 ∧ sourceLen = 0 ∧ targetLen = 0 then
    some (extentCount * extentWire)
  else none

def OpEntry.toOp (e : OpEntry) : LogOp :=
  let update : FileUpdate :=
    ⟨e.parentId, e.target, e.expected, e.size, e.contentCrc, e.timestamp, e.extents⟩
  if e.opType = 1 then
    .create e.parentId e.sourceName e.expected e.size e.contentCrc e.timestamp e.extents
  else if e.opType = 2 then .delete e.parentId e.sourceName e.timestamp
  else if e.opType = 3 then
    .rename e.parentId e.sourceName e.target e.targetName e.replace e.timestamp
  else if e.opType = 4 then .write update
  else .truncate update

/-- One operation from the front of the payload, with what follows it. -/
def decodeOp (version : Nat) (p : Bytes) : Except FormatError (LogOp × Bytes) := do
  refuseIf (p.length < opFixed) (.invalid "truncated log operation")
  let available := p.length - opFixed
  let (opType, p) := readLe 1 p
  let (replace, p) := readLe 1 p
  let (sourceLen, p) := readLe 2 p
  let (targetLen, p) := readLe 2 p
  let (extentCount, p) := readLe 2 p
  refuseIf (extentCount > maxLogExtents) (.invalid "logged create has too many extents")
  match variableLen version opType sourceLen targetLen extentCount with
  | none => throw (.invalid "unknown log operation type")
  | some wanted =>
    refuseIf (available < wanted) (.invalid "log operation exceeds payload")
    let (parentId, p) := readLe 8 p
    let (target, p) := readLe 8 p
    let (expected, p) := readLe 8 p
    let (size, p) := readLe 8 p
    let (contentCrc, p) := readLe 4 p
    let (_, p) := readLe 4 p
    let (time, p) := readTimespec p
    let timestamp ← time
    let (_, p) := readLe 4 p
    let (extents, p) := readExtents extentCount p
    let (sourceName, p) := readBytes sourceLen p
    let (targetName, p) := readBytes targetLen p
    let op := OpEntry.toOp ⟨opType, replace != 0, sourceName, targetName, extents, parentId, target,
      expected, size, contentCrc, timestamp⟩
    op.validate
    pure (op, p)

def decodeOps (version : Nat) : Nat → Bytes → Except FormatError (List LogOp × Bytes)
  | 0, p => .ok ([], p)
  | count + 1, p => do
    let (op, p) ← decodeOp version p
    let (ops, p) ← decodeOps version count p
    pure (op :: ops, p)

def LogRecord.decode (block : Bytes) : Except FormatError LogRecord := do
  let header ← BlockHeader.verify block BlockType.intentLog
  let p := header.payload block
  refuseIf (header.flags ≠ 0 ∨ header.owner ≠ 0)
    (.invalid "log record header flags or owner are nonzero")
  refuseIf (p.length < logFixedPayload) (.invalid "log record payload too short")
  let (uuid, p) := readBytes 16 p
  let (baseGeneration, p) := readLe 8 p
  refuseIf (baseGeneration = 0 ∨ baseGeneration ≠ header.generation)
    (.invalid "log record generation inconsistent")
  let (sequence, p) := readLe 4 p
  refuseIf (sequence = 0) (.invalid "log record sequence is zero")
  let (opCount, p) := readLe 2 p
  refuseIf (opCount = 0 ∨ opCount > maxLogOps) (.invalid "log record operation count out of range")
  let (version, p) := readLe 2 p
  refuseIf (version ≠ 2 ∧ version ≠ 3) (.invalid "unsupported intent-log record version")
  let (ops, p) ← decodeOps version opCount p
  refuseIf (p ≠ []) (.invalid "log record payload length mismatch")
  pure ⟨uuid, baseGeneration, sequence, ops⟩

/-! ### Round trip -/

structure LogOp.InRange (op : LogOp) : Prop where
  parentId : op.entry.parentId < 256 ^ 8
  target : op.entry.target < 256 ^ 8
  expected : op.entry.expected < 256 ^ 8
  size : op.entry.size < 256 ^ 8
  contentCrc : op.entry.contentCrc < 256 ^ 4
  timestamp : op.timestamp.InRange
  extents : ∀ e ∈ op.entry.extents, e.1 < 256 ^ 8 ∧ e.2 < 256 ^ 4

structure LogRecord.InRange (r : LogRecord) : Prop where
  uuid : r.uuid.length = 16
  baseGeneration : r.baseGeneration < 256 ^ 8
  sequence : r.sequence < 256 ^ 4
  ops : ∀ op ∈ r.ops, op.InRange

theorem length_encodeExtents (extents : List LogExtent) :
    (encodeExtents extents).length = extents.length * extentWire := by
  induction extents with
  | nil => rfl
  | cons e rest ih =>
    have hcons : encodeExtents (e :: rest) = leBytes 8 e.1 ++ leBytes 4 e.2 ++ encodeExtents rest := rfl
    simp only [hcons, length_append, length_leBytes, ih, length_cons, extentWire]
    omega

theorem length_entryEncode (op : LogOp) : op.entry.encode.length = op.wireLen := by
  simp only [OpEntry.encode, length_append, length_leBytes, length_timespecWrite,
    length_encodeExtents, wireLen, opFixed]

variable {extents : List LogExtent}

theorem readExtents_append
    (hrng : ∀ e ∈ extents, e.1 < 256 ^ 8 ∧ e.2 < 256 ^ 4) (rest : Bytes) :
    readExtents extents.length (encodeExtents extents ++ rest) = (extents, rest) := by
  induction extents with
  | nil => rfl
  | cons e tail ih =>
    obtain ⟨hstart, hblks⟩ := hrng e (by simp)
    have hcons : encodeExtents (e :: tail) ++ rest
        = leBytes 8 e.1 ++ (leBytes 4 e.2 ++ (encodeExtents tail ++ rest)) := by
      simp [encodeExtents]
    rw [hcons, length_cons, readExtents]
    simp only [readLe_append hstart, readLe_append hblks, ih fun x hx => hrng x (by simp [hx])]

theorem validateName_length {name : Bytes} (h : validateName name = .ok ()) : name.length ≤ 255 := by
  unfold validateName at h
  split at h
  · cases h
  · rename_i hlen
    simp only [nameMaxUtf8Bytes] at hlen
    omega

theorem validateDataExtents_length {total : Nat}
    (h : validateDataExtents extents = .ok total) : extents.length ≤ maxLogExtents := by
  unfold validateDataExtents at h
  split at h
  · cases h
  · omega

/-- What the entry layout needs to know of a valid operation. -/
structure LogOp.Fits (op : LogOp) : Prop where
  timestamp : op.timestamp.validate = .ok ()
  sourceName : op.entry.sourceName.length ≤ 255
  targetName : op.entry.targetName.length ≤ 255
  extents : op.entry.extents.length ≤ maxLogExtents

theorem LogOp.fits_of_validate {op : LogOp} (h : op.validate = .ok ()) : op.Fits := by
  obtain ⟨_, htime, hop⟩ := of_bind h
  cases op with
  | create parentId name expectedObjectId sizeBytes contentCrc timestamp extents =>
    obtain ⟨_, hname, hop⟩ := of_bind hop
    obtain ⟨_, hop⟩ := of_refuse hop
    obtain ⟨total, hexts, -⟩ := of_bind hop
    exact ⟨htime, validateName_length hname, Nat.zero_le _, validateDataExtents_length hexts⟩
  | delete parentId name timestamp =>
    exact ⟨htime, validateName_length hop, Nat.zero_le _, Nat.zero_le _⟩
  | rename sourceParentId sourceName targetParentId targetName replace timestamp =>
    obtain ⟨_, hsrc, htarget⟩ := of_bind hop
    exact ⟨htime, validateName_length hsrc, validateName_length htarget, Nat.zero_le _⟩
  | write u =>
    obtain ⟨_, hop⟩ := of_refuse hop
    obtain ⟨total, hexts, -⟩ := of_bind hop
    exact ⟨htime, Nat.zero_le _, Nat.zero_le _, validateDataExtents_length hexts⟩
  | truncate u =>
    obtain ⟨_, hop⟩ := of_refuse hop
    obtain ⟨_, hop⟩ := of_refuse hop
    obtain ⟨total, hexts, -⟩ := of_bind hop
    exact ⟨htime, Nat.zero_le _, Nat.zero_le _, validateDataExtents_length hexts⟩

theorem validateOps_eq_ok {ops : List LogOp} : validateOps ops = .ok () ↔ ∀ op ∈ ops, op.validate = .ok () := by
  induction ops with
  | nil => simp [validateOps]
  | cons op rest ih =>
    rw [validateOps, bind_ok, forall_mem_cons, ← ih]
    exact ⟨fun ⟨_, hop, hrest⟩ => ⟨hop, hrest⟩, fun ⟨hop, hrest⟩ => ⟨(), hop, hrest⟩⟩

variable {r : LogRecord}

theorem length_payload (huuid : r.uuid.length = 16) :
    r.payload.length = logFixedPayload + (r.ops.map wireLen).sum := by
  have hops : (r.ops.flatMap fun op => op.entry.encode).length
      = (r.ops.map wireLen).sum := by
    rw [length_flatMap]
    exact congrArg List.sum (map_congr_left fun op _ => length_entryEncode op)
  simp only [LogRecord.payload, length_append, length_leBytes, huuid, hops, logFixedPayload]

theorem LogRecord.encode_eq_ok {blockSize : Nat} {block : Bytes} :
    r.encode blockSize = .ok block ↔
      (r.ops ≠ [] ∧ r.ops.length ≤ maxLogOps) ∧ (r.sequence ≠ 0 ∧ r.baseGeneration ≠ 0) ∧ (headerSize ≤ blockSize ∧
        logFixedPayload + (r.ops.map wireLen).sum ≤ blockSize - headerSize) ∧
      (∀ op ∈ r.ops, op.validate = .ok ()) ∧
      block = (r.header (logFixedPayload + (r.ops.map wireLen).sum)).sealBlock (r.payload ++ List.replicate
          (blockSize - headerSize - (logFixedPayload + (r.ops.map wireLen).sum)) 0) := by
  unfold LogRecord.encode
  dsimp only
  rw [refuseIf_ok, refuseIf_ok, refuseIf_ok, bind_ok]
  simp only [pure_ok, ← validateOps_eq_ok, not_or, not_lt, ne_eq]
  constructor
  · rintro ⟨hops, hbind, hroom, _, hval, hblk⟩
    exact ⟨hops, hbind, hroom, hval, hblk⟩
  · rintro ⟨hops, hbind, hroom, hval, hblk⟩
    exact ⟨hops, hbind, hroom, (), hval, hblk⟩

/-- A group of at most 64 operations cannot overflow the four-byte payload length. -/
theorem LogRecord.payloadLen_lt (hcnt : r.ops.length ≤ maxLogOps) (hval : ∀ op ∈ r.ops, op.validate = .ok ()) :
    logFixedPayload + (r.ops.map wireLen).sum < 256 ^ 4 := by
  have hsum : (r.ops.map wireLen).sum ≤ (r.ops.map wireLen).length • 766 := by
    apply sum_le_card_nsmul
    intro len hlen
    obtain ⟨op, hop, rfl⟩ := mem_map.mp hlen
    have hfits := fits_of_validate (hval op hop)
    have hsrc := hfits.sourceName
    have htarget := hfits.targetName
    have hexts := hfits.extents
    rw [maxLogExtents] at hexts
    rw [wireLen, opFixed, extentWire]
    omega
  rw [length_map] at hsum
  have hsum : (r.ops.map wireLen).sum ≤ r.ops.length * 766 := hsum
  rw [maxLogOps] at hcnt
  rw [logFixedPayload]
  omega

end Afsplus
