import Afsplus.Format.Header

/-!
# Object records

One record per block. A file's data is one direct extent or, with `objectFlagExtentTree`, an extent
tree; a directory's `dataRoot` is its tree. The references and the comment after the fixed fields are
present exactly when their flags say so, and a record that breaks that rule is refused both ways.
-/

namespace Afsplus

open Wire Fallible List BlockHeader

inductive ObjectType where
  | file
  | directory
  | symlink
  | internal
  deriving DecidableEq, Repr

namespace ObjectType

def toWire : ObjectType → Nat
  | .file => 1
  | .directory => 2
  | .symlink => 3
  | .internal => 4

def fromWire : Nat → Except FormatError ObjectType
  | 1 => .ok .file
  | 2 => .ok .directory
  | 3 => .ok .symlink
  | 4 => .ok .internal
  | _ => .error (.invalid "unknown object type")

theorem fromWire_toWire (objectType : ObjectType) : fromWire objectType.toWire = .ok objectType := by
  cases objectType <;> rfl

theorem toWire_of_fromWire {n : Nat} {objectType : ObjectType} (h : fromWire n = .ok objectType) :
    objectType.toWire = n := by
  unfold fromWire at h
  split at h
  all_goals cases h
  all_goals rfl

end ObjectType

open ObjectType

def objectFlagExtentTree : Nat := 1

def objectFlagDataInPlace : Nat := 2

def objectFlagSecurityRef : Nat := 4

def objectFlagComment : Nat := 8

def objectFlagAttributes : Nat := 16

def hasFlag (flags bit : Nat) : Bool := flags &&& bit != 0

def maxExtentBlocks : Nat := 4096

def commentMaxBytes : Nat := 255

def chainFixedPayload : Nat := 24

def segmentCount (maxBytes totalLen blockSize : Nat) : Option Nat :=
  let capacity := blockSize - (headerSize + chainFixedPayload)
  if totalLen = 0 ∨ totalLen > maxBytes ∨ capacity = 0 then none
  else
    let count := (totalLen + capacity - 1) / capacity
    if count < 2 ^ 16 then some count else none

def maxSecurityDescriptorBytes : Nat := 65536

def maxAttributeSetBytes : Nat := 65536

def securityRefProjectionDiverged : Nat := 1

structure SecurityRef where
  firstBlock : Lba
  totalLen : Nat
  segments : Nat
  flags : Nat
  deriving DecidableEq, Repr

def SecurityRef.validate (ref : SecurityRef) (blockSize : Nat) : Except FormatError Unit :=
  refuseIf (ref.firstBlock = 0 ∨ ref.flags > securityRefProjectionDiverged ∨
      segmentCount maxSecurityDescriptorBytes ref.totalLen blockSize ≠ some ref.segments)
    (.invalid "invalid security reference")

structure AttributeRef where
  firstBlock : Lba
  totalLen : Nat
  segments : Nat
  deriving DecidableEq, Repr

def AttributeRef.validate (ref : AttributeRef) (blockSize : Nat) : Except FormatError Unit :=
  refuseIf (ref.firstBlock = 0 ∨
      segmentCount maxAttributeSetBytes ref.totalLen blockSize ≠ some ref.segments)
    (.invalid "invalid attribute reference")

/-- At most 255 bytes of text without NUL; the empty comment is the absent one. -/
structure Comment where
  text : Utf8
  short : text.1.length ≤ commentMaxBytes
  noNul : 0 ∉ text.1
  deriving DecidableEq

namespace Comment

def empty : Comment := ⟨Utf8.empty, Nat.zero_le _, by simp [Utf8.empty]⟩

def new (text : Utf8) : Except FormatError Comment :=
  if hlong : text.1.length > commentMaxBytes then .error (.overflow "object comment")
  else if hnul : 0 ∈ text.1 then .error (.invalid "object comment contains NUL")
  else .ok ⟨text, not_lt.mp hlong, hnul⟩

def isEmpty (comment : Comment) : Bool := comment.text.1.isEmpty

def wire (comment : Comment) : Bytes :=
  if comment.isEmpty then [] else leBytes 1 comment.text.1.length ++ comment.text.1

theorem new_text (comment : Comment) : new comment.text = .ok comment := by
  rw [new, dif_neg (not_lt.mpr comment.short), dif_neg comment.noNul]

end Comment

structure ObjectRecord where
  objectId : ObjectId
  objectType : ObjectType
  flags : Nat
  linkCount : Nat
  sizeBytes : Nat
  allocatedBytes : Nat
  created : Timespec
  modified : Timespec
  changed : Timespec
  protection : Nat
  ownerUid : Nat
  ownerGid : Nat
  contentGeneration : Nat
  dataRoot : Lba
  dataBlocks : Nat
  security : Option SecurityRef
  attributes : Option AttributeRef
  comment : Comment
  deriving DecidableEq

namespace ObjectRecord

/-! ### Validation -/

def validateSecurity (record : ObjectRecord) (blockSize : Nat) : Except FormatError Unit :=
  match record.security with
  | none => .ok ()
  | some ref => ref.validate blockSize

def validateAttributes (record : ObjectRecord) (blockSize : Nat) : Except FormatError Unit :=
  match record.attributes with
  | none => .ok ()
  | some ref => ref.validate blockSize

def validateCommon (record : ObjectRecord) (blockSize : Nat) : Except FormatError Unit := do
  record.created.validate
  record.modified.validate
  record.changed.validate
  refuseIf (record.objectId = objectInvalid) (.invalid "object ID zero is invalid")
  refuseIf (record.linkCount = 0) (.invalid "link count zero without orphan support")
  refuseIf (record.flags ≥ 32) (.invalid "object has unsupported flags")
  refuseIf (hasFlag record.flags objectFlagSecurityRef ≠ record.security.isSome)
    (.invalid "security reference flag and field disagree")
  record.validateSecurity blockSize
  refuseIf (hasFlag record.flags objectFlagAttributes ≠ record.attributes.isSome)
    (.invalid "attribute reference flag and field disagree")
  record.validateAttributes blockSize
  refuseIf (hasFlag record.flags objectFlagComment = record.comment.isEmpty)
    (.invalid "comment flag and field disagree")

/-- A direct extent holds the file's bytes and not one block more. -/
def validateExtent (record : ObjectRecord) (blockSize : Nat) : Except FormatError Unit :=
  if hasFlag record.flags objectFlagExtentTree then
    refuseIf (record.dataRoot = 0) (.invalid "extent-tree file has no tree root")
  else if record.dataBlocks > maxExtentBlocks then
    .error (.invalid "file extent exceeds prototype cap")
  else if record.dataBlocks = 0 then
    refuseIf (record.dataRoot ≠ 0 ∨ record.sizeBytes ≠ 0) (.invalid "empty file with data references")
  else do
    refuseIf (record.dataRoot + record.dataBlocks ≥ 2 ^ 64)
      (.overflow "file extent end overflows block address")
    refuseIf (record.dataRoot = 0 ∨ record.sizeBytes > record.dataBlocks * blockSize ∨
        record.sizeBytes ≤ (record.dataBlocks - 1) * blockSize)
      (.invalid "file size inconsistent with extent")

def validate (record : ObjectRecord) (blockSize : Nat) : Except FormatError Unit := do
  record.validateCommon blockSize
  match record.objectType with
  | .directory =>
    refuseIf (hasFlag record.flags (objectFlagExtentTree + objectFlagDataInPlace))
      (.invalid "directory has file extent flags")
    refuseIf (record.dataRoot = 0) (.invalid "directory must reference a directory block")
    refuseIf (record.sizeBytes ≠ 0 ∨ record.dataBlocks ≠ 0)
      (.invalid "directory size fields must be zero")
  | .file =>
    refuseIf (record.dataBlocks * blockSize ≥ 2 ^ 64) (.overflow "allocated byte count")
    refuseIf (record.allocatedBytes ≠ record.dataBlocks * blockSize)
      (.invalid "allocated bytes do not match data block count")
    record.validateExtent blockSize
  | .symlink | .internal => .error (.invalid "object type not implemented in prototype")

def objectPayloadLen : Nat := 104

def fixedFields (record : ObjectRecord) : Bytes :=
  leBytes 8 record.objectId ++ leBytes 1 record.objectType.toWire ++ leBytes 1 0 ++
    leBytes 2 record.flags ++ leBytes 4 record.linkCount ++ leBytes 8 record.sizeBytes ++
    leBytes 8 record.allocatedBytes ++ record.created.write ++ record.modified.write ++
    record.changed.write ++ leBytes 4 record.protection ++ leBytes 8 record.contentGeneration ++
    leBytes 8 record.dataRoot ++ leBytes 8 record.dataBlocks ++ leBytes 4 record.ownerUid ++
    leBytes 4 record.ownerGid

def securityField (record : ObjectRecord) : Bytes :=
  match record.security with
  | none => []
  | some ref =>
    leBytes 8 ref.firstBlock ++ leBytes 4 ref.totalLen ++ leBytes 2 ref.segments ++
      leBytes 2 ref.flags

def attributesField (record : ObjectRecord) : Bytes :=
  match record.attributes with
  | none => []
  | some ref =>
    leBytes 8 ref.firstBlock ++ leBytes 4 ref.totalLen ++ leBytes 2 ref.segments ++ leBytes 2 0

/-- Everything before an inline symlink target. -/
def payload (record : ObjectRecord) : Bytes :=
  record.fixedFields ++ record.securityField ++ record.attributesField ++ record.comment.wire

def securityEnd (record : ObjectRecord) : Nat :=
  if record.security.isSome then objectPayloadLen + 16 else objectPayloadLen

def attributesEnd (record : ObjectRecord) : Nat :=
  if record.attributes.isSome then record.securityEnd + 16 else record.securityEnd

def fixedPayloadLen (record : ObjectRecord) : Nat :=
  record.attributesEnd + record.comment.wire.length

def header (record : ObjectRecord) (generation payloadLen : Nat) : BlockHeader :=
  ⟨BlockType.object, 0, record.objectId, generation, payloadLen⟩

def encode (record : ObjectRecord) (blockSize generation : Nat) : Except FormatError Bytes := do
  refuseIf (blockSize < headerSize + record.fixedPayloadLen)
    (.wrongBufferSize (headerSize + record.fixedPayloadLen) blockSize)
  record.validate blockSize
  pure ((record.header generation record.fixedPayloadLen).sealPayload blockSize record.payload)

def readSecurity (flags : Nat) (p : Bytes) : Option SecurityRef × Bytes :=
  if hasFlag flags objectFlagSecurityRef then
    let (firstBlock, p) := readLe 8 p
    let (totalLen, p) := readLe 4 p
    let (segments, p) := readLe 2 p
    let (refFlags, p) := readLe 2 p
    (some ⟨firstBlock, totalLen, segments, refFlags⟩, p)
  else (none, p)

def readAttributes (flags : Nat) (p : Bytes) : Except FormatError (Option AttributeRef × Bytes) :=
  if hasFlag flags objectFlagAttributes then do
    let (firstBlock, p) := readLe 8 p
    let (totalLen, p) := readLe 4 p
    let (segments, p) := readLe 2 p
    let (reserved, p) := readLe 2 p
    refuseIf (reserved ≠ 0) (.invalid "attribute reference reserved field is nonzero")
    pure (some ⟨firstBlock, totalLen, segments⟩, p)
  else pure (none, p)

def readComment (flags : Nat) (p : Bytes) : Except FormatError (Comment × Bytes) :=
  if hasFlag flags objectFlagComment then do
    refuseIf (p = []) (.invalid "object payload length is not exact")
    let (length, p) := readLe 1 p
    refuseIf (p.length < length) (.invalid "object payload length is not exact")
    refuseIf (length = 0) (.invalid "object comment flag without comment")
    let (bytes, p) := readBytes length p
    let text ← toUtf8 bytes
    let comment ← Comment.new text
    pure (comment, p)
  else pure (Comment.empty, p)

/-- Bytes of the references the flags announce. -/
def refsLen (flags : Nat) : Nat :=
  (if hasFlag flags objectFlagSecurityRef then 16 else 0) +
    if hasFlag flags objectFlagAttributes then 16 else 0

/-- The record, its header and what follows the record in the payload: a symlink's target, nothing
for any other type. -/
def decodeFields (block : Bytes) : Except FormatError (ObjectRecord × BlockHeader × Bytes) := do
  let header ← BlockHeader.verify block BlockType.object
  let p := header.payload block
  let length := p.length
  refuseIf (length < objectPayloadLen) (.invalid "object record payload too short")
  refuseIf (header.flags ≠ 0) (.invalid "object header flags are nonzero")
  let (objectId, p) := readLe 8 p
  let (typeCode, p) := readLe 1 p
  let (reserved, p) := readLe 1 p
  refuseIf (reserved ≠ 0) (.invalid "object reserved byte is nonzero")
  let (flags, p) := readLe 2 p
  refuseIf (length < objectPayloadLen + refsLen flags) (.invalid "object payload length is not exact")
  let (linkCount, p) := readLe 4 p
  let (sizeBytes, p) := readLe 8 p
  let (allocatedBytes, p) := readLe 8 p
  let (created, p) := readTimespec p
  let (modified, p) := readTimespec p
  let (changed, p) := readTimespec p
  let (protection, p) := readLe 4 p
  let (contentGeneration, p) := readLe 8 p
  let (dataRoot, p) := readLe 8 p
  let (dataBlocks, p) := readLe 8 p
  let (ownerUid, p) := readLe 4 p
  let (ownerGid, p) := readLe 4 p
  let (security, p) := readSecurity flags p
  let (attributes, p) ← readAttributes flags p
  let (comment, p) ← readComment flags p
  refuseIf (typeCode ≠ symlink.toWire ∧ p ≠ [])
    (.invalid "object payload length is not exact")
  let objectType ← fromWire typeCode
  let created ← created
  let modified ← modified
  let changed ← changed
  let record : ObjectRecord :=
    ⟨objectId, objectType, flags, linkCount, sizeBytes, allocatedBytes, created, modified, changed,
      protection, ownerUid, ownerGid, contentGeneration, dataRoot, dataBlocks, security, attributes,
      comment⟩
  refuseIf (objectId ≠ header.owner) (.invalid "object ID does not match block owner")
  pure (record, header, p)

/-- The checks of an inline symlink, whose target follows the record. -/
def validateSymlink (record : ObjectRecord) (target : Bytes) (blockSize : Nat) :
    Except FormatError Unit := do
  record.validateCommon blockSize
  refuseIf (record.objectType ≠ .symlink ∨
      hasFlag record.flags (objectFlagExtentTree + objectFlagDataInPlace) ∨ record.dataRoot ≠ 0 ∨
      record.dataBlocks ≠ 0 ∨ record.allocatedBytes ≠ 0 ∨ record.sizeBytes ≠ target.length ∨
      target = [] ∨ 0 ∈ target ∨ target.length > blockSize - (headerSize + record.fixedPayloadLen) ∨
      target.length > 2 ^ 32 - 1 - record.fixedPayloadLen)
    (.invalid "invalid inline symlink record")

def decodeWithGeneration (block : Bytes) : Except FormatError (ObjectRecord × Nat) := do
  let (record, header, _) ← decodeFields block
  record.validate block.length
  pure (record, header.generation)

/-- The record with its block's generation; a symlink's target is checked and left behind. -/
def decodeMetadataWithGeneration (block : Bytes) : Except FormatError (ObjectRecord × Nat) := do
  let (record, header, rest) ← decodeFields block
  if record.objectType = .symlink then do
    refuseIf (utf8Valid rest = false) (.invalid "symlink target is not UTF-8")
    record.validateSymlink rest block.length
    pure (record, header.generation)
  else do
    record.validate block.length
    pure (record, header.generation)

/-! ### Round trip -/

structure InRange (record : ObjectRecord) : Prop where
  objectId : record.objectId < 256 ^ 8
  linkCount : record.linkCount < 256 ^ 4
  sizeBytes : record.sizeBytes < 256 ^ 8
  allocatedBytes : record.allocatedBytes < 256 ^ 8
  created : record.created.InRange
  modified : record.modified.InRange
  changed : record.changed.InRange
  protection : record.protection < 256 ^ 4
  ownerUid : record.ownerUid < 256 ^ 4
  ownerGid : record.ownerGid < 256 ^ 4
  contentGeneration : record.contentGeneration < 256 ^ 8
  dataRoot : record.dataRoot < 256 ^ 8
  dataBlocks : record.dataBlocks < 256 ^ 8
  security : ∀ ref ∈ record.security, ref.firstBlock < 256 ^ 8 ∧ ref.totalLen < 256 ^ 4 ∧
    ref.segments < 256 ^ 2 ∧ ref.flags < 256 ^ 2
  attributes : ∀ ref ∈ record.attributes, ref.firstBlock < 256 ^ 8 ∧ ref.totalLen < 256 ^ 4 ∧
    ref.segments < 256 ^ 2

/-- What the layout needs to know of a record that passes the common checks. -/
structure Framed (record : ObjectRecord) : Prop where
  created : record.created.validate = .ok ()
  modified : record.modified.validate = .ok ()
  changed : record.changed.validate = .ok ()
  flags : record.flags < 32
  security : hasFlag record.flags objectFlagSecurityRef = record.security.isSome
  attributes : hasFlag record.flags objectFlagAttributes = record.attributes.isSome
  comment : hasFlag record.flags objectFlagComment = !record.comment.isEmpty

variable {record : ObjectRecord}

theorem framed_of_validateCommon {blockSize : Nat}
    (h : record.validateCommon blockSize = .ok ()) : record.Framed := by
  unfold validateCommon at h
  rw [check_ok, check_ok, check_ok, refuseIf_ok, refuseIf_ok, refuseIf_ok, refuseIf_ok, check_ok,
    refuseIf_ok, check_ok, refuseIf_eq_ok] at h
  obtain ⟨hcreated, hmodified, hchanged, -, -, hflags, hsecurity, -, hattrs, -, hcomment⟩ := h
  refine ⟨hcreated, hmodified, hchanged, not_le.mp hflags, not_not.mp hsecurity, not_not.mp hattrs, ?_⟩
  cases h : hasFlag record.flags objectFlagComment <;> cases h' : record.comment.isEmpty <;> simp_all

theorem length_fixedFields (record : ObjectRecord) : record.fixedFields.length = objectPayloadLen := by
  unfold fixedFields
  simp only [length_append, length_leBytes, length_timespecWrite]
  decide

theorem readSecurity_field (hrng : record.InRange) (hframed : record.Framed) (rest : Bytes) :
    readSecurity record.flags (record.securityField ++ rest) = (record.security, rest) := by
  have hwidth := hrng.security
  rw [readSecurity, hframed.security, securityField]
  cases h : record.security with
  | none => rfl
  | some ref =>
    obtain ⟨hblk, hlen, hsegs, hflags⟩ := hwidth ref (by rw [h]; rfl)
    simp (disch := assumption) only [Option.isSome_some, if_true, append_assoc, readLe_append]

theorem readAttributes_field (hrng : record.InRange) (hframed : record.Framed) (rest : Bytes) :
    readAttributes record.flags (record.attributesField ++ rest) = .ok (record.attributes, rest) := by
  have hwidth := hrng.attributes
  rw [readAttributes, hframed.attributes, attributesField]
  cases h : record.attributes with
  | none => rfl
  | some ref =>
    obtain ⟨hblk, hlen, hsegs⟩ := hwidth ref (by rw [h]; rfl)
    simp (disch := first | assumption | decide) only [Option.isSome_some, if_true, append_assoc, readLe_append]
    rw [refuseIf_bind (by simp)]
    rfl

theorem readComment_wire (hframed : record.Framed) (rest : Bytes) :
    readComment record.flags (record.comment.wire ++ rest) = .ok (record.comment, rest) := by
  rw [readComment, hframed.comment, Comment.wire]
  cases h : record.comment.isEmpty with
  | true =>
    have htext : record.comment.text = Utf8.empty := Subtype.ext (List.isEmpty_iff.mp h)
    have hempty : record.comment = Comment.empty := by
      cases hc : record.comment with
      | mk text short noNul =>
        rw [hc] at htext
        subst htext
        rfl
    rw [hempty]
    rfl
  | false =>
    have hshort := record.comment.short
    have hlen : record.comment.text.1.length < 256 ^ 1 := by
      rw [commentMaxBytes] at hshort
      omega
    have hne : record.comment.text.1 ≠ [] := by
      intro hnil
      rw [Comment.isEmpty, hnil] at h
      cases h
    have hpos : record.comment.text.1.length ≠ 0 := by
      intro hzero
      exact hne (length_eq_zero_iff.mp hzero)
    simp only [Bool.not_false, if_true, Bool.false_eq_true, if_false, append_assoc]
    rw [refuseIf_bind (by
      intro hnil
      have := congrArg List.length hnil
      simp only [length_append, length_leBytes, length_nil] at this
      omega)]
    simp only [readLe_append hlen]
    rw [refuseIf_bind (by simp only [length_append]; omega), refuseIf_bind hpos]
    simp only [readBytes_append]
    refine bind_ok.mpr ⟨_, toUtf8_val _, ?_⟩
    exact bind_ok.mpr ⟨_, Comment.new_text _, rfl⟩

theorem length_payload (record : ObjectRecord) : record.payload.length = record.fixedPayloadLen := by
  have hsecurity : objectPayloadLen + record.securityField.length = record.securityEnd := by
    rw [securityField, securityEnd]
    cases record.security <;> simp [length_leBytes]
  have hattrs : record.securityEnd + record.attributesField.length = record.attributesEnd := by
    rw [attributesField, attributesEnd]
    cases record.attributes <;> simp [length_leBytes]
  rw [payload, length_append, length_append, length_append, length_fixedFields, hsecurity, hattrs, fixedPayloadLen]

theorem refsLen_le (hframed : record.Framed) : objectPayloadLen + refsLen record.flags ≤ record.fixedPayloadLen := by
  rw [refsLen, hframed.security, hframed.attributes, fixedPayloadLen, attributesEnd, securityEnd]
  cases record.security <;> cases record.attributes <;> simp

variable {blockSize generation : Nat} {block : Bytes}

theorem encode_eq_ok :
    record.encode blockSize generation = .ok block ↔
      headerSize + record.fixedPayloadLen ≤ blockSize ∧ record.validate blockSize = .ok () ∧
      block = (record.header generation record.fixedPayloadLen).sealPayload blockSize record.payload := by
  unfold encode
  rw [refuseIf_ok, check_ok, pure_ok, not_lt]

theorem fixedPayloadLen_lt (record : ObjectRecord) : record.fixedPayloadLen < 256 ^ 4 := by
  have hcomment : record.comment.wire.length ≤ 256 := by
    have hshort := record.comment.short
    rw [commentMaxBytes] at hshort
    rw [Comment.wire]
    split
    · exact Nat.zero_le _
    · rw [length_append, length_leBytes]
      omega
  have hrefs : record.attributesEnd ≤ 136 := by
    rw [attributesEnd, securityEnd, objectPayloadLen]
    split <;> split <;> omega
  rw [fixedPayloadLen]
  omega

variable (hrng : record.InRange)

include hrng

theorem decodeFields_seal (hframed : record.Framed) {target : Bytes}
    (htarget : record.objectType = .symlink ∨ target = []) {generation : Nat}
    (hhdr : (record.header generation (record.fixedPayloadLen + target.length)).InRange) (blockSize : Nat) :
    decodeFields ((record.header generation (record.fixedPayloadLen + target.length)).sealPayload
      blockSize (record.payload ++ target)) =
      .ok (record, record.header generation (record.fixedPayloadLen + target.length), target) := by
  have hlen : (record.payload ++ target).length = record.fixedPayloadLen + target.length := by
    rw [length_append, length_payload]
  have htypeRange : record.objectType.toWire < 256 ^ 1 := by
    cases record.objectType <;> decide
  have hflagsRange : record.flags < 256 ^ 2 := lt_trans hframed.flags (by decide)
  have hrefs := refsLen_le hframed
  unfold decodeFields
  refine bind_ok.mpr ⟨_, verify_sealPayload hhdr hlen.symm _, ?_⟩
  rw [payload_sealPayload hlen.symm]
  dsimp only
  rw [hlen, refuseIf_bind (by omega), refuseIf_bind (by simp [header])]
  rw [payload]
  unfold fixedFields
  have hfields := hrng
  have hstamps := hframed
  cases hfields
  cases hstamps
  simp (disch := first | assumption | decide) only [append_assoc, readLe_append, readTimespec_append,
    readSecurity_field]
  rw [refuseIf_bind (by simp), refuseIf_bind (by omega)]
  refine bind_ok.mpr ⟨_, readAttributes_field hrng hframed _, ?_⟩
  refine bind_ok.mpr ⟨_, readComment_wire hframed _, ?_⟩
  rw [refuseIf_bind (by
    intro hrest
    rcases htarget with hsymlink | hnil
    · exact hrest.1 (congrArg toWire hsymlink)
    · exact hrest.2 hnil)]
  refine bind_ok.mpr ⟨_, fromWire_toWire _, ?_⟩
  iterate 3 refine bind_ok.mpr ⟨_, rfl, ?_⟩
  rw [refuseIf_bind (by simp [header])]
  rfl

theorem header_inRange {generation payloadLen : Nat}
    (hgen : generation < 256 ^ 8) (hlen : payloadLen < 256 ^ 4) : (record.header generation payloadLen).InRange :=
  inRange_mk hrng.objectId hgen hlen

theorem decodeFields_encode (hgen : generation < 256 ^ 8) (henc : record.encode blockSize generation = .ok block) :
    block.length = blockSize ∧ record.objectType ≠ .symlink ∧
      decodeFields block = .ok (record, record.header generation record.fixedPayloadLen, []) := by
  obtain ⟨hroom, hval, rfl⟩ := encode_eq_ok.mp henc
  obtain ⟨hcommon, htype⟩ := check_ok.mp hval
  have hframed := framed_of_validateCommon hcommon
  have hread := decodeFields_seal hrng hframed (.inr rfl)
    (header_inRange hrng hgen (fixedPayloadLen_lt record)) blockSize
  refine ⟨length_sealPayload _ ((length_payload record).symm ▸ hroom), ?_, ?_⟩
  · -- a symlink does not pass the checks of `encode`
    intro h
    rw [h] at htype
    cases htype
  · rwa [append_nil] at hread

theorem decode_encode (hgen : generation < 256 ^ 8) (henc : record.encode blockSize generation = .ok block) :
    decodeWithGeneration block = .ok (record, generation) := by
  obtain ⟨hlen, -, hread⟩ := decodeFields_encode hrng hgen henc
  refine bind_ok.mpr ⟨_, hread, ?_⟩
  dsimp only
  rw [hlen]
  exact check_ok.mpr ⟨(encode_eq_ok.mp henc).2.1, rfl⟩

theorem decodeMetadata_encode (hgen : generation < 256 ^ 8) (henc : record.encode blockSize generation = .ok block) :
    decodeMetadataWithGeneration block = .ok (record, generation) := by
  obtain ⟨hlen, hnotSymlink, hread⟩ := decodeFields_encode hrng hgen henc
  refine bind_ok.mpr ⟨_, hread, ?_⟩
  dsimp only
  rw [if_neg hnotSymlink, hlen]
  exact check_ok.mpr ⟨(encode_eq_ok.mp henc).2.1, rfl⟩

omit hrng

/-! ### Accepted records -/

variable {p rest : Bytes} {flags : Nat} {attributes : Option AttributeRef}

theorem readSecurity_eq (hroom : hasFlag flags objectFlagSecurityRef = true → 16 ≤ p.length) :
    (∀ ref ∈ (readSecurity flags p).1, ref.firstBlock < 256 ^ 8 ∧ ref.totalLen < 256 ^ 4 ∧
      ref.segments < 256 ^ 2 ∧ ref.flags < 256 ^ 2) ∧
    ∀ record : ObjectRecord, record.security = (readSecurity flags p).1 →
      record.securityField ++ (readSecurity flags p).2 = p := by
  rw [readSecurity]
  split
  · rename_i hflag
    have hlen := hroom hflag
    refine ⟨?_, ?_⟩
    · rintro ref ⟨⟩
      exact ⟨readLe_lt .., readLe_lt .., readLe_lt .., readLe_lt ..⟩
    · intro record hrec
      rw [securityField, hrec]
      simp (disch := first | omega | simp only [length_readLe]; omega) only [append_assoc, leBytes_readLe]
  · refine ⟨by simp, ?_⟩
    intro record hrec
    rw [securityField, hrec, nil_append]

theorem length_readSecurity (flags : Nat) (p : Bytes) :
    (readSecurity flags p).2.length = p.length - if hasFlag flags objectFlagSecurityRef then 16 else 0 := by
  rw [readSecurity]
  split
  · simp only [length_readLe]
    omega
  · rfl

attribute [local irreducible] readLe in
theorem readAttributes_eq (hroom : hasFlag flags objectFlagAttributes = true → 16 ≤ p.length)
    (h : readAttributes flags p = .ok (attributes, rest)) :
    (∀ ref ∈ attributes, ref.firstBlock < 256 ^ 8 ∧ ref.totalLen < 256 ^ 4 ∧ ref.segments < 256 ^ 2) ∧
    ∀ record : ObjectRecord, record.attributes = attributes → record.attributesField ++ rest = p := by
  rw [readAttributes] at h
  split at h
  · rename_i hflag
    have hlen := hroom hflag
    obtain ⟨hzero, h⟩ := of_refuse h
    obtain ⟨rfl, rfl⟩ := pure_pair_eq_ok.mp h
    have hzero := not_not.mp hzero
    refine ⟨?_, ?_⟩
    · rintro ref ⟨⟩
      exact ⟨readLe_lt .., readLe_lt .., readLe_lt ..⟩
    · intro record hrec
      rw [attributesField, hrec]
      simp (disch := first | rfl | assumption | omega | simp only [length_readLe]; omega) only [append_assoc,
        leBytes_readLe_append]
  · obtain ⟨rfl, rfl⟩ := pure_pair_eq_ok.mp h
    refine ⟨by simp, ?_⟩
    intro record hrec
    rw [attributesField, hrec, nil_append]

theorem references_eq (hroom : refsLen flags ≤ p.length)
    (h : readAttributes flags (readSecurity flags p).2 = .ok (attributes, rest)) :
    (∀ ref ∈ (readSecurity flags p).1, ref.firstBlock < 256 ^ 8 ∧ ref.totalLen < 256 ^ 4 ∧
      ref.segments < 256 ^ 2 ∧ ref.flags < 256 ^ 2) ∧
    (∀ ref ∈ attributes, ref.firstBlock < 256 ^ 8 ∧ ref.totalLen < 256 ^ 4 ∧ ref.segments < 256 ^ 2) ∧
    ∀ record : ObjectRecord, record.security = (readSecurity flags p).1 → record.attributes = attributes →
      record.securityField ++ (record.attributesField ++ rest) = p := by
  rw [refsLen] at hroom
  obtain ⟨hsecurity, hsecurityBytes⟩ := @readSecurity_eq p flags fun hflag => by
    rw [if_pos hflag] at hroom
    omega
  obtain ⟨hattrs, hattributesBytes⟩ := readAttributes_eq (fun hflag => by
    rw [if_pos hflag] at hroom
    rw [length_readSecurity]
    omega) h
  refine ⟨hsecurity, hattrs, fun record hfirst hsecond => ?_⟩
  rw [hattributesBytes record hsecond, hsecurityBytes record hfirst]

theorem readComment_eq {comment : Comment}
    (h : readComment flags p = .ok (comment, rest)) : comment.wire ++ rest = p := by
  rw [readComment] at h
  split at h
  · obtain ⟨hne, h⟩ := of_refuse h
    obtain ⟨k, hlen⟩ := Nat.exists_eq_add_of_le' (length_pos_iff.mpr hne)
    obtain ⟨length, p₁, hlength, hlen₁, rfl⟩ := exists_field 1 hlen
    simp only [readLe_append hlength] at h
    obtain ⟨hroom, h⟩ := of_refuse h
    obtain ⟨hpos, h⟩ := of_refuse h
    obtain ⟨m, hlen₂⟩ := Nat.exists_eq_add_of_le' (not_lt.mp hroom)
    obtain ⟨bytes, p₂, hbytes, -, rfl⟩ := exists_bytes length hlen₂
    simp only [readBytes_of_length hbytes] at h
    obtain ⟨text, htext, h⟩ := of_bind h
    obtain ⟨comment', hcomment, h⟩ := of_bind h
    obtain ⟨rfl, rfl⟩ := pure_pair_eq_ok.mp h
    have hnew : comment.text = text := by
      rw [Comment.new] at hcomment
      split at hcomment
      · cases hcomment
      · split at hcomment
        · cases hcomment
        · cases hcomment
          rfl
    have htextBytes : comment.text.1 = bytes := by
      rw [hnew, toUtf8_eq_ok.mp htext]
    have hnonempty : comment.isEmpty = false := by
      rw [Comment.isEmpty, htextBytes]
      cases bytes with
      | nil => exact absurd hbytes.symm hpos
      | cons b rest => rfl
    rw [Comment.wire, hnonempty, htextBytes, hbytes, if_neg Bool.false_ne_true, append_assoc]
  · obtain ⟨rfl, rfl⟩ := pure_pair_eq_ok.mp h
    rfl

attribute [local irreducible] readLe readTimespec readSecurity in
theorem sealed_of_decodeFields {block rest : Bytes} {header : BlockHeader}
    (hdec : decodeFields block = .ok (record, header, rest)) :
    record.InRange ∧ headerSize + (record.fixedPayloadLen + rest.length) ≤ block.length ∧
      (record.objectType ≠ .symlink → rest = []) ∧
      header = record.header header.generation (record.fixedPayloadLen + rest.length) ∧
      block = header.sealPayload block.length (record.payload ++ rest) := by
  obtain ⟨header', hadm, h⟩ := admitted_of_bind hdec
  obtain ⟨hshort, h⟩ := of_refuse h
  obtain ⟨hheaderFlags, h⟩ := of_refuse h
  have hpay := hadm.length_payload
  have hsealed := hadm.sealed
  generalize header'.payload block = p at hpay hsealed hshort h
  obtain ⟨hzero, h⟩ := of_refuse h
  obtain ⟨hrefs, h⟩ := of_refuse h
  obtain ⟨⟨attributes, p₁⟩, hattrs, h⟩ := of_bind h
  obtain ⟨⟨comment, p₂⟩, hcomment, h⟩ := of_bind h
  obtain ⟨hrest, h⟩ := of_refuse h
  obtain ⟨objectType, htype, h⟩ := of_bind h
  obtain ⟨created, hcreated, h⟩ := of_bind h
  obtain ⟨modified, hmodified, h⟩ := of_bind h
  obtain ⟨changed, hchanged, h⟩ := of_bind h
  obtain ⟨howner, hresult⟩ := of_refuse h
  obtain ⟨hrec, hpair⟩ := pure_pair_eq_ok.mp hresult
  obtain ⟨rfl, rfl⟩ := Prod.mk.inj hpair
  simp only [not_lt, not_not, ne_eq, objectPayloadLen] at hshort hheaderFlags hzero hrefs howner
  obtain ⟨hsecurity, hattributesRange, hreferences⟩ := references_eq
    (by simp only [length_readLe, length_readTimespec]; omega) hattrs
  have hrng : record.InRange := by
    rw [hrec]
    exact ⟨readLe_lt .., readLe_lt .., readLe_lt .., readLe_lt .., inRange_of_readTimespec hcreated,
      inRange_of_readTimespec hmodified, inRange_of_readTimespec hchanged, readLe_lt .., readLe_lt .., readLe_lt ..,
      readLe_lt .., readLe_lt .., readLe_lt .., hsecurity, hattributesRange⟩
  have hbytes : record.payload ++ rest = p := by
    rw [hrec]
    unfold payload fixedFields
    simp (disch := first | rfl | assumption | omega | simp only [length_readLe, length_readTimespec]; omega) only
      [append_assoc, readComment_eq hcomment, hreferences, toWire_of_fromWire htype,
      leBytes_readLe_append, write_readTimespec_append]
  have hplen : header.payloadLen = record.fixedPayloadLen + rest.length := by
    rw [← hpay, ← hbytes, length_append, length_payload]
  have hhdr : header = record.header header.generation header.payloadLen :=
    hadm.eq_mk hheaderFlags (by rw [hrec, howner]) rfl rfl
  rw [← hplen, hbytes]
  refine ⟨hrng, hadm.room, ?_, hhdr, hsealed⟩
  intro hnotSymlink
  by_contra hne
  refine hrest ⟨?_, hne⟩
  intro hcode
  rw [hrec] at hnotSymlink
  rw [hcode] at htype
  exact hnotSymlink (Except.ok.inj htype).symm

theorem encode_decode {generation : Nat} (hdec : decodeWithGeneration block = .ok (record, generation)) :
    record.encode block.length generation = .ok block := by
  obtain ⟨⟨record', header, rest⟩, hfields, h⟩ := of_bind hdec
  obtain ⟨hval, h⟩ := check_ok.mp h
  obtain ⟨rfl, rfl⟩ := pure_pair_eq_ok.mp h
  obtain ⟨-, hroom, hrest, hhdr, hsealed⟩ := sealed_of_decodeFields hfields
  have hnotSymlink : record.objectType ≠ .symlink := by
    intro hsymlink
    obtain ⟨-, htype⟩ := check_ok.mp hval
    rw [hsymlink] at htype
    cases htype
  obtain rfl := hrest hnotSymlink
  rw [append_nil] at hsealed
  rw [length_nil, Nat.add_zero] at hhdr hroom
  refine encode_eq_ok.mpr ⟨hroom, hval, ?_⟩
  rw [← hhdr]
  exact hsealed

end ObjectRecord

open ObjectRecord

/-! ### Symlinks -/

/-- A record with its inline target. -/
structure SymlinkRecord where
  record : ObjectRecord
  target : Utf8
  deriving DecidableEq

namespace SymlinkRecord

def payloadLen (link : SymlinkRecord) : Nat := link.record.fixedPayloadLen + link.target.1.length

def encode (link : SymlinkRecord) (blockSize generation : Nat) : Except FormatError Bytes := do
  link.record.validateSymlink link.target.1 blockSize
  pure ((link.record.header generation link.payloadLen).sealPayload blockSize
    (link.record.payload ++ link.target.1))

/-- The source checks the header flags and the reserved byte once more, which `decodeFields` has
refused by then. -/
def decode (block : Bytes) : Except FormatError (SymlinkRecord × Nat) := do
  let (record, header, rest) ← decodeFields block
  let target ← (toUtf8 rest).mapError fun _ => .invalid "symlink target is not UTF-8"
  record.validateSymlink target.1 block.length
  pure (⟨record, target⟩, header.generation)

theorem validateSymlink_eq_ok {record : ObjectRecord} {target : Bytes} {blockSize : Nat}
    (h : record.validateSymlink target blockSize = .ok ()) :
    record.Framed ∧ record.objectType = .symlink ∧ headerSize + (record.fixedPayloadLen + target.length) ≤ blockSize ∧
      record.fixedPayloadLen + target.length < 256 ^ 4 := by
  obtain ⟨hcommon, h⟩ := check_ok.mp h
  have h := refuseIf_eq_ok.mp h
  simp only [not_or, not_not, ne_eq, not_lt] at h
  obtain ⟨htype, -, -, -, -, -, hnonempty, -, hroom, hwidth⟩ := h
  have hpos := length_pos_iff.mpr hnonempty
  exact ⟨framed_of_validateCommon hcommon, htype, by omega, by omega⟩

variable {link : SymlinkRecord}

theorem decode_encode (hrng : link.record.InRange)
    {blockSize generation : Nat} (hgen : generation < 256 ^ 8) {block : Bytes}
    (henc : link.encode blockSize generation = .ok block) : decode block = .ok (link, generation) := by
  obtain ⟨hval, hblk⟩ := check_ok.mp henc
  obtain rfl := pure_ok.mp hblk
  obtain ⟨hframed, htype, hroom, hwidth⟩ := validateSymlink_eq_ok hval
  have hlen : ((link.record.header generation link.payloadLen).sealPayload blockSize
      (link.record.payload ++ link.target.1)).length = blockSize := by
    apply length_sealPayload
    rw [length_append, ObjectRecord.length_payload]
    exact hroom
  refine bind_ok.mpr ⟨_, decodeFields_seal hrng hframed (.inl htype)
    (header_inRange hrng hgen hwidth) blockSize, ?_⟩
  dsimp only
  refine bind_ok.mpr ⟨link.target, ?_, ?_⟩
  · rw [toUtf8_val]
    rfl
  · rw [hlen]
    exact check_ok.mpr ⟨hval, rfl⟩

theorem encode_decode {block : Bytes} {generation : Nat}
    (hdec : decode block = .ok (link, generation)) : link.encode block.length generation = .ok block := by
  obtain ⟨⟨record, header, rest⟩, hfields, h⟩ := of_bind hdec
  obtain ⟨target, htext, h⟩ := of_bind h
  obtain ⟨hval, h⟩ := check_ok.mp h
  obtain ⟨rfl, rfl⟩ := pure_pair_eq_ok.mp h
  have htarget : target.1 = rest := toUtf8_eq_ok.mp (mapError_eq_ok.mp htext)
  obtain ⟨-, -, -, hhdr, hsealed⟩ := sealed_of_decodeFields hfields
  rw [← htarget] at hhdr hsealed
  refine check_ok.mpr ⟨hval, pure_ok.mpr ?_⟩
  show block = (record.header header.generation (record.fixedPayloadLen + target.1.length)).sealPayload
    block.length (record.payload ++ target.1)
  rw [← hhdr]
  exact hsealed

end SymlinkRecord

/-- Both codecs are exact: what encodes decodes to itself, what decodes encodes to its block. -/
theorem object_record_codecs_exact :
    (∀ (record : ObjectRecord) (blockSize generation : Nat) (block : Bytes), record.InRange →
      generation < 256 ^ 8 → record.encode blockSize generation = .ok block →
      decodeWithGeneration block = .ok (record, generation)) ∧
    (∀ (block : Bytes) (record : ObjectRecord) (generation : Nat),
      decodeWithGeneration block = .ok (record, generation) →
      record.encode block.length generation = .ok block) ∧
    (∀ (link : SymlinkRecord) (blockSize generation : Nat) (block : Bytes), link.record.InRange →
      generation < 256 ^ 8 → link.encode blockSize generation = .ok block →
      SymlinkRecord.decode block = .ok (link, generation)) ∧
    ∀ (block : Bytes) (link : SymlinkRecord) (generation : Nat),
      SymlinkRecord.decode block = .ok (link, generation) → link.encode block.length generation = .ok block := by
  refine ⟨?_, ?_, ?_, ?_⟩
  · intro record blockSize generation block hrange hgeneration hencode
    exact decode_encode hrange hgeneration hencode
  · intro block record generation hdecode
    exact encode_decode hdecode
  · intro link blockSize generation block hrange hgeneration hencode
    exact SymlinkRecord.decode_encode hrange hgeneration hencode
  · intro block link generation hdecode
    exact SymlinkRecord.encode_decode hdecode

/-- A commented file with one direct extent and an attribute reference. -/
def ObjectRecord.sample : ObjectRecord :=
  ⟨16, .file, objectFlagComment + objectFlagAttributes, 1, 10, 4096, ⟨0, 0⟩, ⟨5, 7⟩, ⟨5, 7⟩, 0, 0, 0, 1,
    40, 1, none, some ⟨50, 12, 1⟩, ⟨⟨[104, 105], rfl⟩, by decide, by decide⟩⟩

def SymlinkRecord.sample : SymlinkRecord :=
  ⟨⟨17, .symlink, 0, 1, 2, 0, ⟨0, 0⟩, ⟨5, 7⟩, ⟨5, 7⟩, 0, 0, 0, 1, 0, 0, none, none, .empty⟩,
    ⟨[97, 98], rfl⟩⟩

theorem object_record_codecs_exact_sample :
    (∃ block, sample.encode 4096 1 = .ok block ∧
      decodeWithGeneration block = .ok (sample, 1) ∧
      sample.encode block.length 1 = .ok block) ∧
    ∃ block, SymlinkRecord.sample.encode 4096 1 = .ok block ∧
      SymlinkRecord.decode block = .ok (SymlinkRecord.sample, 1) ∧
      SymlinkRecord.sample.encode block.length 1 = .ok block := by
  have hfile : sample.InRange := by
    constructor
    all_goals first | decide | exact ⟨by decide, by decide⟩
  have hlink : SymlinkRecord.sample.record.InRange := by
    constructor
    all_goals first | decide | exact ⟨by decide, by decide⟩
  have hencode : sample.encode 4096 1 = .ok ((sample.header 1
      sample.fixedPayloadLen).sealPayload 4096 sample.payload) :=
    encode_eq_ok.mpr ⟨by decide, by decide, rfl⟩
  have hencodeLink : SymlinkRecord.sample.encode 4096 1 = .ok ((SymlinkRecord.sample.record.header 1
      SymlinkRecord.sample.payloadLen).sealPayload 4096
      (SymlinkRecord.sample.record.payload ++ SymlinkRecord.sample.target.1)) :=
    check_ok.mpr ⟨by decide, rfl⟩
  have hdecode := object_record_codecs_exact.1 _ 4096 1 _ hfile (by decide) hencode
  have hdecodeLink := object_record_codecs_exact.2.2.1 _ 4096 1 _ hlink (by decide) hencodeLink
  exact ⟨⟨_, hencode, hdecode, object_record_codecs_exact.2.1 _ _ _ hdecode⟩,
    _, hencodeLink, hdecodeLink, object_record_codecs_exact.2.2.2 _ _ _ hdecodeLink⟩

end Afsplus
