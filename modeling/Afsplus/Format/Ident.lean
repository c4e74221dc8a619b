import Afsplus.Format.Geometry

/-!
# The identification block

Written once by the formatter at LBA 0 and never again. It fixes the geometry, the feature bits and
the comparison-key algorithm; everything a mount does starts from what this block decodes to.
-/

namespace Afsplus

open Wire Fallible List BlockHeader

def labelMaxBytes : Nat := 64

def validateLabel (label : Utf8) : Except FormatError Unit := do
  refuseIf (label.1.length > labelMaxBytes) (.overflow "volume label")
  refuseIf (0 ∈ label.1) (.invalid "volume label contains NUL")

variable {label : Utf8}

theorem validateLabel_eq_ok {u : Unit} :
    validateLabel label = .ok u ↔ label.1.length ≤ labelMaxBytes ∧ 0 ∉ label.1 := by
  rw [validateLabel, refuseIf_ok, refuseIf_eq_ok, not_lt]

/-- A label field: the text, zero padded to its 64 bytes. -/
def labelField (label : Utf8) : Bytes :=
  label.1 ++ List.replicate (labelMaxBytes - label.1.length) 0

theorem length_labelField (h : label.1.length ≤ labelMaxBytes) :
    (labelField label).length = labelMaxBytes := by
  rw [labelField, length_append, length_replicate]
  omega

theorem labelField_eq {bytes : Bytes} {n : Nat} (hlen : bytes.length = labelMaxBytes)
    (htext : label.1 = bytes.take n) (hzero : ¬(bytes.drop n).any (· != 0) = true)
    (hn : n ≤ labelMaxBytes) : label.1.length = n ∧ labelField label = bytes := by
  have hlength : label.1.length = n := by
    rw [htext, length_take]
    omega
  have hpad := eq_replicate_of_any hzero
  rw [length_drop, hlen] at hpad
  refine ⟨hlength, ?_⟩
  rw [labelField, hlength, ← hpad, htext, take_append_drop]

def incompatIntentLog : Nat := 1

def incompatIntentLogDataUpdates : Nat := 2

def incompatPersistentSnapshots : Nat := 4

def incompatSecurityDescriptors : Nat := 8

def roCompatSharedExtents : Nat := 1

def roCompatOrphanDirectory : Nat := 2

def compatDataPolicy : Nat := 1

structure FeatureFlags where
  compat : Nat
  roCompat : Nat
  incompat : Nat
  deriving DecidableEq, Repr

inductive NameKeyAlgorithm where
  | legacyIdentity
  | unicodeNfc
  | unicodeNfcCasefold
  deriving DecidableEq, Repr

namespace NameKeyAlgorithm

def toWire : NameKeyAlgorithm → Nat
  | .legacyIdentity => 0
  | .unicodeNfc => 1
  | .unicodeNfcCasefold => 2

def decode : Nat → Except FormatError NameKeyAlgorithm
  | 0 => .ok .legacyIdentity
  | 1 => .ok .unicodeNfc
  | 2 => .ok .unicodeNfcCasefold
  | _ => .error (.invalid "unsupported directory comparison-key algorithm")

theorem decode_toWire (algorithm : NameKeyAlgorithm) : decode algorithm.toWire = .ok algorithm := by
  cases algorithm <;> rfl

theorem toWire_of_decode {n : Nat} {algorithm : NameKeyAlgorithm} (h : decode n = .ok algorithm) :
    algorithm.toWire = n := by
  unfold decode at h
  split at h
  all_goals cases h
  all_goals rfl

end NameKeyAlgorithm

def unicodeVersion1600 : Nat × Nat × Nat := (16, 0, 0)

def identVersion : Nat := 3

def defaultBlockShift : Nat := 12

def checksumCrc32c : Nat := 1

structure Identification where
  uuid : Bytes
  blockShift : Nat
  checksumAlgorithm : Nat
  regionSize : Nat
  logSlots : Nat
  features : FeatureFlags
  nameKeyAlgorithm : NameKeyAlgorithm
  unicodeVersion : Nat × Nat × Nat
  totalBlocks : Nat
  checkpointSlots : Lba × Lba
  metadataStart : Lba
  label : Utf8
  deriving DecidableEq

namespace Identification

def blockSize (ident : Identification) : Nat := 2 ^ ident.blockShift

def geometry (ident : Identification) : Geometry :=
  ⟨ident.blockSize, ident.totalBlocks, ident.regionSize⟩

def dataUpdates (ident : Identification) : Bool :=
  ident.features.incompat &&& incompatIntentLogDataUpdates != 0

def validateNameKey (ident : Identification) : Except FormatError Unit :=
  match ident.nameKeyAlgorithm with
  | .legacyIdentity =>
    refuseIf (ident.unicodeVersion ≠ (0, 0, 0))
      (.invalid "legacy identity key must not declare Unicode tables")
  | .unicodeNfc | .unicodeNfcCasefold =>
    refuseIf (ident.unicodeVersion ≠ unicodeVersion1600)
      (.invalid "unsupported directory Unicode table version")

def validateGeometry (ident : Identification) : Except FormatError Unit := do
  ident.geometry.validate
  refuseIf ((ident.logSlots > 0) ≠ (ident.features.incompat &&& incompatIntentLog ≠ 0))
    (.invalid "intent-log slots and incompatible feature bit disagree")
  refuseIf (ident.features.incompat &&& incompatIntentLogDataUpdates ≠ 0 ∧
      ident.features.incompat &&& incompatIntentLog = 0)
    (.invalid "intent-log data updates require the base intent-log feature")
  ident.validateNameKey
  refuseIf (ident.checkpointSlots ≠ (1, 2))
    (.invalid "prototype requires checkpoint slots at LBA 1 and 2")
  refuseIf (ident.metadataStart ≠ ident.geometry.region0ReservedBlocks)
    (.invalid "metadata start does not match reserved layout")

def identityLen : Nat := 16

def payloadLen : Nat := 73 + labelMaxBytes + 3 * 8 + 4

def payload (ident : Identification) : Bytes :=
  leBytes 8 fsMagic ++ leBytes 4 formatEpoch ++ leBytes 4 identVersion ++ ident.uuid ++
    leBytes 1 ident.blockShift ++ leBytes 1 ident.checksumAlgorithm ++ leBytes 2 ident.logSlots ++
    leBytes 4 ident.regionSize ++ leBytes 8 ident.totalBlocks ++
    leBytes 8 ident.checkpointSlots.1 ++ leBytes 8 ident.checkpointSlots.2 ++
    leBytes 8 ident.metadataStart ++ leBytes 1 ident.label.1.length ++ labelField ident.label ++
    leBytes 8 ident.features.compat ++ leBytes 8 ident.features.roCompat ++
    leBytes 8 ident.features.incompat ++ leBytes 1 ident.nameKeyAlgorithm.toWire ++
    leBytes 1 ident.unicodeVersion.1 ++ leBytes 1 ident.unicodeVersion.2.1 ++
    leBytes 1 ident.unicodeVersion.2.2

def header : BlockHeader := ⟨BlockType.identification, 0, 0, 0, payloadLen⟩

def encode (ident : Identification) (blockSize : Nat) : Except FormatError Bytes := do
  refuseIf (ident.blockShift ≠ defaultBlockShift) (.invalid "prototype supports only 4 KiB blocks")
  refuseIf (blockSize ≠ ident.blockSize) (.wrongBufferSize ident.blockSize blockSize)
  validateLabel ident.label
  ident.validateGeometry
  pure (header.sealPayload blockSize ident.payload)

def decode (block : Bytes) : Except FormatError Identification := do
  let header ← BlockHeader.verify block BlockType.identification
  let p := header.payload block
  let length := p.length
  refuseIf (header.flags ≠ 0 ∨ header.owner ≠ 0)
    (.invalid "identification header flags or owner are nonzero")
  refuseIf (length < identityLen) (.invalid "identification payload too short")
  let (magic, p) := readLe 8 p
  refuseIf (magic ≠ fsMagic) (.invalid "filesystem magic mismatch")
  let (epoch, p) := readLe 4 p
  refuseIf (epoch ≠ formatEpoch) (.invalid "unsupported format epoch")
  let (version, p) := readLe 4 p
  refuseIf (version ≠ identVersion) (.invalid "unsupported identification version")
  refuseIf (length ≠ payloadLen)
    (.invalid "identification payload length is not exact for its version")
  let (uuid, p) := readBytes 16 p
  let (blockShift, p) := readLe 1 p
  refuseIf (blockShift ≠ defaultBlockShift) (.invalid "prototype supports only 4 KiB blocks")
  let (checksumAlgorithm, p) := readLe 1 p
  refuseIf (checksumAlgorithm ≠ checksumCrc32c) (.invalid "unsupported checksum algorithm")
  let (logSlots, p) := readLe 2 p
  let (regionSize, p) := readLe 4 p
  let (totalBlocks, p) := readLe 8 p
  let (slotA, p) := readLe 8 p
  let (slotB, p) := readLe 8 p
  let (metadataStart, p) := readLe 8 p
  let (labelLen, p) := readLe 1 p
  let (labelBytes, p) := readBytes labelMaxBytes p
  let (compat, p) := readLe 8 p
  let (roCompat, p) := readLe 8 p
  let (incompat, p) := readLe 8 p
  let (algorithm, p) := readLe 1 p
  let (major, p) := readLe 1 p
  let (minor, p) := readLe 1 p
  let (patch, _) := readLe 1 p
  let nameKeyAlgorithm ← NameKeyAlgorithm.decode algorithm
  refuseIf (labelLen > labelMaxBytes) (.invalid "label length out of range")
  let label ← toUtf8 (labelBytes.take labelLen)
  validateLabel label
  let ident : Identification :=
    ⟨uuid, blockShift, checksumAlgorithm, regionSize, logSlots, ⟨compat, roCompat, incompat⟩,
      nameKeyAlgorithm, (major, minor, patch), totalBlocks, (slotA, slotB), metadataStart, label⟩
  ident.validateGeometry
  pure ident

/-! ### Round trip -/

structure InRange (ident : Identification) : Prop where
  uuid : ident.uuid.length = 16
  logSlots : ident.logSlots < 256 ^ 2
  regionSize : ident.regionSize < 256 ^ 4
  totalBlocks : ident.totalBlocks < 256 ^ 8
  compat : ident.features.compat < 256 ^ 8
  roCompat : ident.features.roCompat < 256 ^ 8
  incompat : ident.features.incompat < 256 ^ 8

variable {ident : Identification} {block : Bytes}

theorem encode_eq_ok {blockSize : Nat} :
    ident.encode blockSize = .ok block ↔ ident.blockShift = defaultBlockShift ∧ blockSize = ident.blockSize ∧
      validateLabel ident.label = .ok () ∧ ident.validateGeometry = .ok () ∧
      block = header.sealPayload blockSize ident.payload := by
  unfold encode
  rw [refuseIf_ok, refuseIf_ok, check_ok, check_ok, pure_ok, not_not, not_not]

theorem validateGeometry_eq_ok {u : Unit} :
    ident.validateGeometry = .ok u ↔ ident.geometry.validate = .ok () ∧
      ((ident.logSlots > 0) = (ident.features.incompat &&& incompatIntentLog ≠ 0)) ∧
      ¬(ident.features.incompat &&& incompatIntentLogDataUpdates ≠ 0 ∧
        ident.features.incompat &&& incompatIntentLog = 0) ∧
      ident.validateNameKey = .ok () ∧ ident.checkpointSlots = (1, 2) ∧
      ident.metadataStart = ident.geometry.region0ReservedBlocks := by
  unfold validateGeometry
  rw [check_ok, refuseIf_ok, refuseIf_ok, check_ok, refuseIf_ok, refuseIf_eq_ok, not_not, not_not, not_not]

/-- The header with any generation, which the decoder does not look at. -/
def headerAt (generation : Nat) : BlockHeader :=
  ⟨BlockType.identification, 0, 0, generation, payloadLen⟩

variable {generation : Nat}

theorem headerAt_inRange (hgen : generation < 256 ^ 8) : (headerAt generation).InRange :=
  inRange_mk (by decide) hgen (show payloadLen < 256 ^ 4 by decide)

/-- The payload with any bytes behind the label, which it does not look at either. -/
def payloadWith (ident : Identification) (padding : Bytes) : Bytes :=
  leBytes 8 fsMagic ++ leBytes 4 formatEpoch ++ leBytes 4 identVersion ++ ident.uuid ++
    leBytes 1 ident.blockShift ++ leBytes 1 ident.checksumAlgorithm ++ leBytes 2 ident.logSlots ++
    leBytes 4 ident.regionSize ++ leBytes 8 ident.totalBlocks ++
    leBytes 8 ident.checkpointSlots.1 ++ leBytes 8 ident.checkpointSlots.2 ++
    leBytes 8 ident.metadataStart ++ leBytes 1 ident.label.1.length ++ (ident.label.1 ++ padding) ++
    leBytes 8 ident.features.compat ++ leBytes 8 ident.features.roCompat ++
    leBytes 8 ident.features.incompat ++ leBytes 1 ident.nameKeyAlgorithm.toWire ++
    leBytes 1 ident.unicodeVersion.1 ++ leBytes 1 ident.unicodeVersion.2.1 ++
    leBytes 1 ident.unicodeVersion.2.2

variable {padding : Bytes}

theorem length_payloadWith (huuid : ident.uuid.length = 16)
    (hpad : ident.label.1.length + padding.length = labelMaxBytes) :
    (ident.payloadWith padding).length = payloadLen := by
  unfold payloadWith
  simp only [length_append, length_leBytes, huuid, hpad]
  decide

theorem length_payload (huuid : ident.uuid.length = 16)
    (hlabel : ident.label.1.length ≤ labelMaxBytes) : ident.payload.length = payloadLen := by
  apply length_payloadWith huuid
  rw [length_replicate]
  omega

structure Accepted (ident : Identification) : Prop where
  inRange : ident.InRange
  blockShift : ident.blockShift = defaultBlockShift
  checksumAlgorithm : ident.checksumAlgorithm = checksumCrc32c
  label : validateLabel ident.label = .ok ()
  geometry : ident.validateGeometry = .ok ()

/-- The header generation and the bytes behind the label do not matter to the decoder. -/
theorem decode_sealed (hacc : ident.Accepted) (hgen : generation < 256 ^ 8)
    (hpad : ident.label.1.length + padding.length = labelMaxBytes) (blockSize : Nat) :
    decode ((headerAt generation).sealPayload blockSize (ident.payloadWith padding)) = .ok ident := by
  obtain ⟨hrng, hshift, hchecksum, hlabel, hgeom⟩ := hacc
  obtain ⟨hlabelLen, -⟩ := validateLabel_eq_ok.mp hlabel
  obtain ⟨hgeo, -, -, hkey, hslots, hstart⟩ := validateGeometry_eq_ok.mp hgeom
  have hlength := length_payloadWith hrng.uuid hpad
  have hhdr := headerAt_inRange hgen
  have hver : ident.unicodeVersion = (0, 0, 0) ∨ ident.unicodeVersion = (16, 0, 0) := by
    unfold validateNameKey at hkey
    split at hkey
    · exact .inl (not_not.mp (refuseIf_eq_ok.mp hkey))
    all_goals exact .inr (not_not.mp (refuseIf_eq_ok.mp hkey))
  have hmajor : ident.unicodeVersion.1 < 256 ^ 1 := by
    rcases hver with h | h <;> rw [h] <;> decide
  have hminor : ident.unicodeVersion.2.1 < 256 ^ 1 := by
    rcases hver with h | h <;> rw [h] <;> decide
  have hpatch : ident.unicodeVersion.2.2 < 256 ^ 1 := by
    rcases hver with h | h <;> rw [h] <;> decide
  have hshiftRange : ident.blockShift < 256 ^ 1 := by
    rw [hshift]
    decide
  have hchecksumRange : ident.checksumAlgorithm < 256 ^ 1 := by
    rw [hchecksum]
    decide
  have hslotA : ident.checkpointSlots.1 < 256 ^ 8 := by
    rw [hslots]
    decide
  have hslotB : ident.checkpointSlots.2 < 256 ^ 8 := by
    rw [hslots]
    decide
  have hlabelRange : ident.label.1.length < 256 ^ 1 := by
    simp only [labelMaxBytes] at hlabelLen
    omega
  have halgorithm : ident.nameKeyAlgorithm.toWire < 256 ^ 1 := by
    cases ident.nameKeyAlgorithm <;> decide
  have hstartRange : ident.metadataStart < 256 ^ 8 := by
    rw [hstart]
    exact lt_of_le_of_lt (Geometry.region0ReservedBlocks_le _ (Geometry.valid_of_validate hgeo)) (by decide)
  have hfield : (ident.label.1 ++ padding).length = labelMaxBytes := by
    rw [length_append, hpad]
  generalize hlabelBytes : ident.label.1 ++ padding = labelBytes at hfield
  have htext : labelBytes.take ident.label.1.length = ident.label.1 := by
    rw [← hlabelBytes]
    exact take_left
  unfold decode
  refine bind_ok.mpr ⟨_, verify_sealPayload hhdr hlength.symm _, ?_⟩
  rw [payload_sealPayload hlength.symm, refuseIf_bind (by simp [headerAt]),
    refuseIf_bind (by rw [hlength]; decide)]
  generalize hlen : (ident.payloadWith padding).length = len at hlength
  have hpatchRead := readLe_append hpatch []
  rw [append_nil] at hpatchRead
  unfold payloadWith
  rw [hlabelBytes]
  cases hrng
  simp (disch := first | assumption | decide) only [append_assoc, readBytes_of_length, readLe_append, hpatchRead,
    htext]
  iterate 3 rw [refuseIf_bind (by decide)]
  rw [refuseIf_bind (not_not.mpr hlength), refuseIf_bind (not_not.mpr hshift), refuseIf_bind (not_not.mpr hchecksum)]
  refine bind_ok.mpr ⟨_, NameKeyAlgorithm.decode_toWire _, ?_⟩
  rw [refuseIf_bind (by omega)]
  refine bind_ok.mpr ⟨_, toUtf8_val _, ?_⟩
  rw [check_bind hlabel, check_bind hgeom]
  rfl

theorem decode_encode (hrng : ident.InRange) (hchecksum : ident.checksumAlgorithm = checksumCrc32c) {blockSize : Nat}
    (henc : ident.encode blockSize = .ok block) : decode block = .ok ident := by
  obtain ⟨hshift, hsize, hlabel, hgeom, rfl⟩ := encode_eq_ok.mp henc
  have hlabelLen := (validateLabel_eq_ok.mp hlabel).1
  apply decode_sealed ⟨hrng, hshift, hchecksum, hlabel, hgeom⟩ (Nat.two_pow_pos 64)
  rw [length_replicate]
  omega

theorem exists_padding {n : Nat} {field : Bytes} {label : Utf8} (hfield : field.length = labelMaxBytes)
    (hbound : n ≤ labelMaxBytes) (htext : toUtf8 (field.take n) = .ok label) : label.1.length = n ∧
      ∃ padding : Bytes, label.1.length + padding.length = labelMaxBytes ∧ label.1 ++ padding = field := by
  have hlen : label.1.length = n := by
    rw [toUtf8_eq_ok.mp htext, length_take, hfield]
    exact Nat.min_eq_left hbound
  refine ⟨hlen, field.drop n, ?_, ?_⟩
  · rw [hlen, length_drop, hfield]
    exact Nat.add_sub_of_le hbound
  · rw [toUtf8_eq_ok.mp htext, take_append_drop]

attribute [local irreducible] readLe readBytes in
/-- An accepted block is a sealed one; only the generation and the padding of the label are free. -/
theorem sealed_of_decode (hdec : decode block = .ok ident) :
    ident.Accepted ∧ headerSize + payloadLen ≤ block.length ∧
      ∃ (generation : Nat) (padding : Bytes), generation < 256 ^ 8 ∧
        ident.label.1.length + padding.length = labelMaxBytes ∧
        block = (headerAt generation).sealPayload block.length (ident.payloadWith padding) := by
  obtain ⟨header, hadm, h⟩ := admitted_of_bind hdec
  obtain ⟨hres, h⟩ := of_refuse h
  have hpay := hadm.length_payload
  have hsealed := hadm.sealed
  generalize header.payload block = p at hpay hsealed h
  replace h := after_check h
  obtain ⟨hmagic, h⟩ := of_refuse h
  obtain ⟨hepoch, h⟩ := of_refuse h
  obtain ⟨hver, h⟩ := of_refuse h
  obtain ⟨hexact, h⟩ := of_refuse h
  obtain ⟨hshift, h⟩ := of_refuse h
  obtain ⟨hcrc, h⟩ := of_refuse h
  obtain ⟨nameKeyAlgorithm, hkey, h⟩ := of_bind h
  obtain ⟨hbound, h⟩ := of_refuse h
  obtain ⟨label, htext, h⟩ := of_bind h
  obtain ⟨hlabel, h⟩ := check_ok.mp h
  obtain ⟨hgeom, h⟩ := check_ok.mp h
  obtain rfl := pure_ok.mp h
  simp only [not_or, not_not, ne_eq, not_lt] at hres hmagic hepoch hver hexact hshift hcrc hbound
  have hlen : p.length = 165 := hexact
  obtain ⟨hlabelLength, padding, hpad, hfield⟩ := exists_padding
    (by simp only [length_readBytes_fst, length_readLe, length_readBytes, hlen]; decide) hbound htext
  have hhdr : header = headerAt header.generation := hadm.eq_mk hres.1 hres.2 rfl (hpay.symm.trans hexact)
  have hroom := hadm.room
  refine ⟨⟨⟨?_, readLe_lt .., readLe_lt .., readLe_lt .., readLe_lt .., readLe_lt .., readLe_lt ..⟩, hshift, hcrc,
    hlabel, hgeom⟩, ?_, header.generation, padding, hadm.inRange.generation, hpad, ?_⟩
  · simp only [length_readBytes_fst, length_readLe, hlen]
    rfl
  · rw [hhdr] at hroom
    exact hroom
  · rw [← hhdr]
    refine hsealed.trans (congrArg _ (Eq.symm ?_))
    unfold payloadWith
    simp (disch := first | rfl | assumption | simp only [length_readLe, length_readBytes, hlen]; decide) only
      [hfield, hlabelLength, NameKeyAlgorithm.toWire_of_decode hkey, append_assoc, leBytes_readLe_append,
      leBytes_readLe_last, readBytes_fst_append]

/-- What the decoder leaves unchecked: the size of the block, the generation in its header, and the
bytes of the label field behind the label. -/
def Canonical (block : Bytes) : Prop :=
  block.length = 4096 ∧ (BlockHeader.readFields block).2.generation = 0 ∧
    leNat (((block.drop 105).take labelMaxBytes).drop (leNat ((block.drop 104).take 1))) = 0

instance (block : Bytes) : Decidable (Canonical block) :=
  inferInstanceAs (Decidable (_ ∧ _))

theorem payloadWith_label (huuid : ident.uuid.length = 16)
    (padding : Bytes) : ∃ front rest : Bytes, front.length = 72 ∧ ident.payloadWith padding =
        front ++ (leBytes 1 ident.label.1.length ++ (ident.label.1 ++ padding ++ rest)) := by
  refine ⟨leBytes 8 fsMagic ++ leBytes 4 formatEpoch ++ leBytes 4 identVersion ++ ident.uuid ++
    leBytes 1 ident.blockShift ++ leBytes 1 ident.checksumAlgorithm ++ leBytes 2 ident.logSlots ++
    leBytes 4 ident.regionSize ++ leBytes 8 ident.totalBlocks ++
    leBytes 8 ident.checkpointSlots.1 ++ leBytes 8 ident.checkpointSlots.2 ++
    leBytes 8 ident.metadataStart, leBytes 8 ident.features.compat ++
    leBytes 8 ident.features.roCompat ++ leBytes 8 ident.features.incompat ++
    leBytes 1 ident.nameKeyAlgorithm.toWire ++ leBytes 1 ident.unicodeVersion.1 ++
    leBytes 1 ident.unicodeVersion.2.1 ++ leBytes 1 ident.unicodeVersion.2.2, ?_, ?_⟩
  · simp only [length_append, length_leBytes, huuid]
  · unfold payloadWith
    simp only [append_assoc]

theorem canonical_sealed (huuid : ident.uuid.length = 16) (hgen : generation < 256 ^ 8)
    (hpad : ident.label.1.length + padding.length = labelMaxBytes)
    (hblk : block = (headerAt generation).sealPayload block.length (ident.payloadWith padding)) :
    Canonical block ↔ block.length = 4096 ∧ generation = 0 ∧ leNat padding = 0 := by
  have hlen := (length_payloadWith huuid hpad).symm
  have hadm := admitted_of_verify (verify_sealPayload (headerAt_inRange hgen) hlen block.length)
  rw [← hblk] at hadm
  have hpay : (headerAt generation).payload block = ident.payloadWith padding := by
    rw [hblk]
    exact payload_sealPayload hlen _
  have hlabelRange : ident.label.1.length < 256 ^ 1 := by
    rw [labelMaxBytes] at hpad
    omega
  have hfield : (ident.label.1 ++ padding).length = labelMaxBytes := by
    rw [length_append, hpad]
  have hread : (BlockHeader.readFields block).2.generation = generation := by
    rw [hblk, BlockHeader.sealPayload, readFields_sealBlock (headerAt_inRange hgen)]
    rfl
  obtain ⟨front, rest, hfront, hsplit⟩ := payloadWith_label huuid padding
  have hbody := hadm.body
  rw [hpay, hsplit] at hbody
  have hdrop : block.drop 104 = leBytes 1 ident.label.1.length ++ (ident.label.1 ++ padding ++ rest ++
      List.replicate (block.length - headerSize - (headerAt generation).payloadLen) 0) := by
    rw [show 104 = headerSize + 72 from rfl, ← drop_drop, hbody, append_assoc, drop_left' hfront, append_assoc]
  have hlength : leNat ((block.drop 104).take 1) = ident.label.1.length := by
    rw [hdrop, take_left' (length_leBytes _ _), leNat_leBytes hlabelRange]
  have hbytes : (block.drop 105).take labelMaxBytes = ident.label.1 ++ padding := by
    rw [show 105 = 104 + 1 from rfl, ← drop_drop, hdrop, drop_left' (length_leBytes _ _),
      append_assoc, take_left' hfield]
  rw [Canonical, hread, hlength, hbytes, drop_left]

theorem encode_decode_iff (hdec : decode block = .ok ident) :
    ident.encode block.length = .ok block ↔ Canonical block := by
  obtain ⟨hacc, hroom, generation, padding, hgen, hpadding, hblk⟩ := sealed_of_decode hdec
  have huuid := hacc.inRange.uuid
  have hlabelLen := (validateLabel_eq_ok.mp hacc.label).1
  have hsize : ident.blockSize = 4096 := by
    rw [blockSize, hacc.blockShift]
    rfl
  rw [canonical_sealed huuid hgen hpadding hblk, encode_eq_ok, hsize]
  constructor
  · intro h
    obtain ⟨-, hlen, -, -, heq⟩ := h
    obtain ⟨hhdr, hpay⟩ := sealPayload_inj (headerAt_inRange hgen)
      (headerAt_inRange (Nat.two_pow_pos 64)) (length_payloadWith huuid hpadding).symm
      (length_payload huuid hlabelLen).symm (hblk.symm.trans heq)
    refine ⟨hlen, congrArg BlockHeader.generation hhdr, ?_⟩
    unfold payloadWith payload labelField at hpay
    simp only [append_assoc, append_cancel_left_eq] at hpay
    have hzero := (append_inj hpay (by rw [length_replicate]; omega)).1
    rw [hzero, leNat_replicate_zero]
  · intro h
    obtain ⟨hlen, rfl, hzero⟩ := h
    refine ⟨hacc.blockShift, hlen, hacc.label, hacc.geometry, ?_⟩
    have hpad : padding = List.replicate (labelMaxBytes - ident.label.1.length) 0 := by
      rw [eq_replicate_iff]
      exact ⟨by omega, leNat_eq_zero.mp hzero⟩
    rw [hpad] at hblk
    exact hblk

/-- How far the codec is exact. The encoder writes any checksum algorithm, the decoder reads only one;
the decoder reads blocks the encoder would not have written, and these are the ones that are not
canonical. -/
theorem identification_codec_exact_iff (ident : Identification) (block : Bytes) :
    (∀ blockSize : Nat, ident.InRange → ident.encode blockSize = .ok block →
      (decode block = .ok ident ↔ ident.checksumAlgorithm = checksumCrc32c)) ∧
    (decode block = .ok ident → (ident.encode block.length = .ok block ↔ Canonical block)) ∧
    ∀ block' : Bytes, Canonical block → Canonical block' →
      decode block = .ok ident → decode block' = .ok ident → block = block' := by
  refine ⟨?_, encode_decode_iff, ?_⟩
  · intro blockSize hrange hencode
    constructor
    · intro hdecode
      exact (sealed_of_decode hdecode).1.checksumAlgorithm
    · intro hchecksum
      exact decode_encode hrange hchecksum hencode
  · intro block' hcanonical hcanonical' hdecode hdecode'
    have hencode := (encode_decode_iff hdecode).mpr hcanonical
    have hencode' := (encode_decode_iff hdecode').mpr hcanonical'
    rw [hcanonical'.1, ← hcanonical.1, hencode] at hencode'
    exact Except.ok.inj hencode'

def sample : Identification :=
  ⟨List.replicate 16 7, 12, checksumCrc32c, 16, 0, ⟨0, 0, 0⟩, .legacyIdentity, (0, 0, 0), 16, (1, 2), 9,
    workLabel⟩

theorem sample_accepted : sample.Accepted :=
  ⟨by constructor <;> decide, by decide, by decide, by decide, by decide⟩

theorem sample_encode : sample.encode 4096 = .ok (header.sealPayload 4096 sample.payload) :=
  encode_eq_ok.mpr ⟨by decide, by decide, by decide, by decide, rfl⟩

theorem identification_codec_exact_iff_sample :
    ∃ block, sample.encode 4096 = .ok block ∧ decode block = .ok sample ∧
      (sample.encode block.length = .ok block ↔ Canonical block) := by
  obtain ⟨hwritten, hread, -⟩ := identification_codec_exact_iff sample (header.sealPayload 4096 sample.payload)
  have hdecode := (hwritten 4096 sample_accepted.inRange sample_encode).mpr (by decide)
  exact ⟨_, sample_encode, hdecode, hread hdecode⟩

def unreadable : Identification := { sample with checksumAlgorithm := 0 }

theorem unreadable_encode : unreadable.encode 4096 = .ok (header.sealPayload 4096 unreadable.payload) :=
  encode_eq_ok.mpr ⟨by decide, by decide, by decide, by decide, rfl⟩

/-- An identification with an unknown checksum algorithm is written and cannot be read; a block with a
generation in its header is read and not reproduced, and so are two blocks of one identity. -/
theorem identification_codec_inexact :
    (∃ ident : Identification, ident.InRange ∧ ∃ block, ident.encode 4096 = .ok block ∧ decode block ≠ .ok ident) ∧
    (∃ block, decode block = .ok sample ∧ sample.encode block.length ≠ .ok block) ∧
    ∃ block block', block ≠ block' ∧ block.length = 4096 ∧ block'.length = 4096 ∧
      decode block = .ok sample ∧ decode block' = .ok sample := by
  have hpadding : sample.label.1.length + (List.replicate 60 (0 : UInt8)).length = labelMaxBytes := by
    decide
  have hlength := length_payloadWith sample_accepted.inRange.uuid hpadding
  have hsize : ∀ generation, ((headerAt generation).sealPayload 4096
      (sample.payloadWith (List.replicate 60 0))).length = 4096 := by
    intro generation
    apply length_sealPayload
    rw [hlength]
    decide
  have hdecode : ∀ generation, generation < 256 ^ 8 → decode ((headerAt generation).sealPayload 4096
      (sample.payloadWith (List.replicate 60 0))) = .ok sample :=
    fun generation hgeneration => decode_sealed sample_accepted hgeneration hpadding 4096
  have hdiffer : (headerAt 0).sealPayload 4096 (sample.payloadWith (List.replicate 60 0)) ≠
      (headerAt 1).sealPayload 4096 (sample.payloadWith (List.replicate 60 0)) := by
    intro heq
    have hheader := (sealPayload_inj (headerAt_inRange (by decide))
      (headerAt_inRange (by decide)) hlength.symm hlength.symm heq).1
    exact absurd (congrArg BlockHeader.generation hheader) (by decide)
  refine ⟨⟨unreadable, ?_, _, unreadable_encode, ?_⟩, ⟨_, hdecode 1 (by decide), ?_⟩,
    _, _, hdiffer, hsize 0, hsize 1, hdecode 0 (by decide), hdecode 1 (by decide)⟩
  · constructor <;> decide
  · intro hread
    exact absurd (sealed_of_decode hread).1.checksumAlgorithm (by decide)
  · intro hencode
    have hcanonical := (encode_decode_iff (hdecode 1 (by decide))).mp hencode
    have hgeneration := ((canonical_sealed sample_accepted.inRange.uuid
      (show 1 < 256 ^ 8 by decide) hpadding (by rw [hsize 1])).mp hcanonical).2.1
    exact absurd hgeneration (by decide)

end Identification

end Afsplus
