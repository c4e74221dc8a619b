import Afsplus.Format.Ident

/-!
# Checkpoints

A checkpoint is the root of one committed generation. The volume keeps two of them; what a mount can
tell about a slot without following any pointer is `decode` and `validateStructural`, and selection
rests on nothing else.
-/

namespace Afsplus

open Wire Fallible List BlockHeader

structure SnapshotRoots where
  registry : Lba
  lifetimes : Lba
  deriving DecidableEq, Repr

def SnapshotRoots.validate (roots : SnapshotRoots) : Except FormatError Unit :=
  refuseIf (roots.registry = 0 ∨ roots.lifetimes = 0 ∨ roots.registry = roots.lifetimes)
    (.invalid "snapshot roots must be nonzero and distinct")

structure Checkpoint where
  uuid : Bytes
  generation : Nat
  rootObjectId : ObjectId
  objectMapBlock : Lba
  allocationRootBlock : Lba
  reclaimRootBlock : Lba
  nextObjectId : ObjectId
  committedTxId : Nat
  freeBlocksTotal : Nat
  flags : Nat
  sharedExtentRootBlock : Lba
  label : Utf8
  snapshotRoots : Option SnapshotRoots
  deriving DecidableEq

namespace Checkpoint

def fixedPayload : Nat := 96 + 8 + labelMaxBytes

def snapshotPayload : Nat := fixedPayload + 16

/-- The optional tail of the payload and its check. -/
def validateRoots (checkpoint : Checkpoint) : Except FormatError Unit :=
  match checkpoint.snapshotRoots with
  | none => .ok ()
  | some roots => roots.validate

def rootsField (checkpoint : Checkpoint) : Bytes :=
  match checkpoint.snapshotRoots with
  | none => []
  | some roots => leBytes 8 roots.registry ++ leBytes 8 roots.lifetimes

def payload (checkpoint : Checkpoint) : Bytes :=
  checkpoint.uuid ++ leBytes 8 checkpoint.generation ++ leBytes 8 checkpoint.rootObjectId ++
    leBytes 8 checkpoint.objectMapBlock ++ leBytes 8 checkpoint.allocationRootBlock ++
    leBytes 8 checkpoint.reclaimRootBlock ++ leBytes 8 checkpoint.nextObjectId ++
    leBytes 8 checkpoint.committedTxId ++ leBytes 8 checkpoint.freeBlocksTotal ++
    leBytes 8 checkpoint.flags ++ leBytes 8 checkpoint.sharedExtentRootBlock ++
    leBytes 1 checkpoint.label.1.length ++ List.replicate 7 0 ++ labelField checkpoint.label ++
    checkpoint.rootsField

def payloadLen (checkpoint : Checkpoint) : Nat :=
  if checkpoint.snapshotRoots.isSome then snapshotPayload else fixedPayload

def header (checkpoint : Checkpoint) : BlockHeader :=
  ⟨BlockType.checkpoint, 0, 0, checkpoint.generation, checkpoint.payloadLen⟩

def encode (checkpoint : Checkpoint) (blockSize : Nat) : Except FormatError Bytes := do
  refuseIf (checkpoint.generation = 0) (.invalid "checkpoint generation must be nonzero")
  refuseIf (checkpoint.rootObjectId ≠ objectRoot) (.invalid "root object ID is invalid")
  refuseIf (checkpoint.allocationRootBlock = 0) (.invalid "checkpoint requires an allocation root")
  validateLabel checkpoint.label
  checkpoint.validateRoots
  refuseIf (checkpoint.payloadLen > blockSize - headerSize) (.overflow "checkpoint payload")
  pure (checkpoint.header.sealPayload blockSize checkpoint.payload)

/-- The roots after the label field, read when the payload is long enough to hold them. -/
def readRoots (length : Nat) (p : Bytes) : Except FormatError (Option SnapshotRoots) :=
  if length = snapshotPayload then do
    let (registry, p) := readLe 8 p
    let (lifetimes, _) := readLe 8 p
    let roots : SnapshotRoots := ⟨registry, lifetimes⟩
    roots.validate
    pure (some roots)
  else pure none

def decode (block expectedUuid : Bytes) : Except FormatError Checkpoint := do
  let header ← BlockHeader.verify block BlockType.checkpoint
  let p := header.payload block
  let length := p.length
  refuseIf (header.flags ≠ 0 ∨ header.owner ≠ 0)
    (.invalid "checkpoint header reserved fields are nonzero")
  refuseIf ((header.payloadLen ≠ fixedPayload ∧ header.payloadLen ≠ snapshotPayload) ∨
      length < fixedPayload)
    (.invalid "checkpoint payload length mismatch")
  let (uuid, p) := readBytes 16 p
  refuseIf (uuid ≠ expectedUuid) (.invalid "checkpoint UUID does not match volume")
  let (generation, p) := readLe 8 p
  refuseIf (generation = 0 ∨ generation ≠ header.generation)
    (.invalid "checkpoint generation invalid or inconsistent")
  let (rootObjectId, p) := readLe 8 p
  let (objectMapBlock, p) := readLe 8 p
  let (allocationRootBlock, p) := readLe 8 p
  let (reclaimRootBlock, p) := readLe 8 p
  let (nextObjectId, p) := readLe 8 p
  let (committedTxId, p) := readLe 8 p
  let (freeBlocksTotal, p) := readLe 8 p
  let (flags, p) := readLe 8 p
  let (sharedExtentRootBlock, p) := readLe 8 p
  let (labelLen, p) := readLe 1 p
  let (reserved, p) := readBytes 7 p
  let (labelBytes, p) := readBytes labelMaxBytes p
  refuseIf (labelLen > labelMaxBytes ∨ reserved.any (· != 0) ∨
      (labelBytes.drop labelLen).any (· != 0))
    (.invalid "checkpoint label field is not canonical")
  let label ← toUtf8 (labelBytes.take labelLen)
  validateLabel label
  let snapshotRoots ← readRoots length p
  refuseIf (rootObjectId ≠ objectRoot) (.invalid "root object ID is invalid")
  refuseIf (flags ≠ 0) (.invalid "checkpoint payload reserved flags are nonzero")
  pure ⟨uuid, generation, rootObjectId, objectMapBlock, allocationRootBlock, reclaimRootBlock,
    nextObjectId, committedTxId, freeBlocksTotal, flags, sharedExtentRootBlock, label,
    snapshotRoots⟩

def validateSnapshotRoots (checkpoint : Checkpoint) (geo : Geometry) : Except FormatError Unit :=
  match checkpoint.snapshotRoots with
  | none => .ok ()
  | some roots => do
    roots.validate
    refuseIf (¬geo.isAllocatable roots.registry ∨ ¬geo.isAllocatable roots.lifetimes)
      (.invalid "snapshot roots outside allocatable bounds")

/-- Everything checkable without any further I/O. -/
def validateStructural (checkpoint : Checkpoint) (geo : Geometry) : Except FormatError Unit := do
  checkpoint.validateSnapshotRoots geo
  refuseIf (¬geo.isAllocatable checkpoint.allocationRootBlock)
    (.invalid "allocation root block out of allocatable bounds")
  refuseIf (checkpoint.freeBlocksTotal > geo.totalBlocks)
    (.invalid "checkpoint free total exceeds volume size")
  refuseIf (¬geo.isAllocatable checkpoint.objectMapBlock)
    (.invalid "object map block out of allocatable bounds")
  refuseIf (¬geo.isAllocatable checkpoint.reclaimRootBlock)
    (.invalid "reclaim root block out of allocatable bounds")
  refuseIf (checkpoint.sharedExtentRootBlock ≠ 0 ∧
      ¬geo.isAllocatable checkpoint.sharedExtentRootBlock)
    (.invalid "shared-extent root block out of allocatable bounds")
  refuseIf (checkpoint.nextObjectId < objectFirstDynamic)
    (.invalid "next object ID below dynamic range")

/-! ### Round trip -/

structure InRange (checkpoint : Checkpoint) : Prop where
  uuid : checkpoint.uuid.length = 16
  generation : checkpoint.generation < 256 ^ 8
  objectMapBlock : checkpoint.objectMapBlock < 256 ^ 8
  allocationRootBlock : checkpoint.allocationRootBlock < 256 ^ 8
  reclaimRootBlock : checkpoint.reclaimRootBlock < 256 ^ 8
  nextObjectId : checkpoint.nextObjectId < 256 ^ 8
  committedTxId : checkpoint.committedTxId < 256 ^ 8
  freeBlocksTotal : checkpoint.freeBlocksTotal < 256 ^ 8
  sharedExtentRootBlock : checkpoint.sharedExtentRootBlock < 256 ^ 8
  snapshotRoots : ∀ roots ∈ checkpoint.snapshotRoots,
    roots.registry < 256 ^ 8 ∧ roots.lifetimes < 256 ^ 8

variable {checkpoint : Checkpoint}

theorem encode_eq_ok {blockSize : Nat} {block : Bytes} :
    checkpoint.encode blockSize = .ok block ↔ checkpoint.generation ≠ 0 ∧ checkpoint.rootObjectId = objectRoot ∧
      checkpoint.allocationRootBlock ≠ 0 ∧ validateLabel checkpoint.label = .ok () ∧
      checkpoint.validateRoots = .ok () ∧ checkpoint.payloadLen ≤ blockSize - headerSize ∧
      block = checkpoint.header.sealPayload blockSize checkpoint.payload := by
  unfold encode
  rw [refuseIf_ok, refuseIf_ok, refuseIf_ok, check_ok, check_ok, refuseIf_ok, pure_ok, not_not, not_lt]

theorem validateStructural_eq_ok {geo : Geometry} {u : Unit} :
    checkpoint.validateStructural geo = .ok u ↔ checkpoint.validateSnapshotRoots geo = .ok () ∧
      geo.isAllocatable checkpoint.allocationRootBlock = true ∧ checkpoint.freeBlocksTotal ≤ geo.totalBlocks ∧
      geo.isAllocatable checkpoint.objectMapBlock = true ∧ geo.isAllocatable checkpoint.reclaimRootBlock = true ∧
      (checkpoint.sharedExtentRootBlock ≠ 0 → geo.isAllocatable checkpoint.sharedExtentRootBlock = true) ∧
      objectFirstDynamic ≤ checkpoint.nextObjectId := by
  unfold validateStructural
  rw [check_ok, refuseIf_ok, refuseIf_ok, refuseIf_ok, refuseIf_ok, refuseIf_ok, refuseIf_eq_ok]
  simp only [not_not, not_and, not_lt]

theorem length_payload (huuid : checkpoint.uuid.length = 16) (hlabel : checkpoint.label.1.length ≤ labelMaxBytes) :
    checkpoint.payload.length = checkpoint.payloadLen := by
  have hfield := length_labelField hlabel
  unfold payload
  simp only [length_append, length_leBytes, huuid, hfield, length_replicate]
  rw [payloadLen, rootsField]
  cases checkpoint.snapshotRoots with
  | none => decide
  | some roots =>
    simp only [length_append, length_leBytes, Option.isSome_some, if_true]
    decide

theorem readRoots_rootsField (hrng : checkpoint.InRange) (hroots : checkpoint.validateRoots = .ok ()) :
    readRoots checkpoint.payloadLen checkpoint.rootsField = .ok checkpoint.snapshotRoots := by
  have hwidth := hrng.snapshotRoots
  rw [validateRoots] at hroots
  rw [readRoots, payloadLen, rootsField]
  cases h : checkpoint.snapshotRoots with
  | none => rfl
  | some roots =>
    rw [h] at hroots
    obtain ⟨hregistry, hlifetimes⟩ := hwidth roots (by rw [h]; rfl)
    have hlast := readLe_append hlifetimes []
    rw [append_nil] at hlast
    simp only [Option.isSome_some, if_true, readLe_append hregistry, hlast]
    exact check_ok.mpr ⟨hroots, rfl⟩

theorem decode_encode (hrng : checkpoint.InRange) (hflags : checkpoint.flags = 0) {blockSize : Nat} {block : Bytes}
    (henc : checkpoint.encode blockSize = .ok block) : decode block checkpoint.uuid = .ok checkpoint := by
  obtain ⟨hgen, hroot, hallocn, hlabel, hroots, hroom, rfl⟩ := encode_eq_ok.mp henc
  obtain ⟨hlabelLen, -⟩ := validateLabel_eq_ok.mp hlabel
  have hlen := length_payload hrng.uuid hlabelLen
  have hlenCases : checkpoint.payloadLen = fixedPayload ∨ checkpoint.payloadLen = snapshotPayload := by
    rw [payloadLen]
    split
    · exact .inr rfl
    · exact .inl rfl
  have hlenRange : checkpoint.payloadLen < 256 ^ 4 := by
    rcases hlenCases with h | h <;> rw [h] <;> decide
  have hhdr : checkpoint.header.InRange := inRange_mk (by decide) hrng.generation hlenRange
  have hrootRange : checkpoint.rootObjectId < 256 ^ 8 := by
    rw [hroot]
    decide
  have hflagsRange : checkpoint.flags < 256 ^ 8 := by
    rw [hflags]
    decide
  have hlabelRange : checkpoint.label.1.length < 256 ^ 1 := by
    simp only [labelMaxBytes] at hlabelLen
    omega
  have hfield := length_labelField hlabelLen
  have htext : (labelField checkpoint.label).take checkpoint.label.1.length = checkpoint.label.1 := take_left
  have hpad : (labelField checkpoint.label).drop checkpoint.label.1.length
      = List.replicate (labelMaxBytes - checkpoint.label.1.length) 0 := drop_left
  unfold decode
  refine bind_ok.mpr ⟨_, verify_sealPayload hhdr hlen.symm _, ?_⟩
  rw [payload_sealPayload hlen.symm, refuseIf_bind (by simp [header]),
    refuseIf_bind (by
      rw [hlen]
      simp only [header]
      rcases hlenCases with h | h <;> rw [h] <;> decide)]
  rw [hlen]
  unfold payload
  have hfields := hrng
  cases hfields
  simp (disch := first | assumption | exact length_replicate) only [append_assoc, readBytes_of_length,
    readLe_append, htext, hpad]
  rw [refuseIf_bind (by simp), refuseIf_bind (by simp [header, hgen]),
    refuseIf_bind (by simp [hlabelLen])]
  refine bind_ok.mpr ⟨_, toUtf8_val _, ?_⟩
  rw [check_bind hlabel, readRoots_rootsField hrng hroots]
  refine bind_ok.mpr ⟨_, rfl, ?_⟩
  rw [refuseIf_bind (not_not.mpr hroot), refuseIf_bind (not_not.mpr hflags)]
  rfl

theorem readRoots_eq_ok {length : Nat} {p : Bytes} {roots : Option SnapshotRoots}
    (hlen : p.length + fixedPayload = length)
    (hcases : length = fixedPayload ∨ length = snapshotPayload) (h : readRoots length p = .ok roots) :
    (length = if roots.isSome then snapshotPayload else fixedPayload) ∧
      (∀ r ∈ roots, r.validate = .ok () ∧ r.registry < 256 ^ 8 ∧ r.lifetimes < 256 ^ 8) ∧
      p = roots.elim [] fun r => leBytes 8 r.registry ++ leBytes 8 r.lifetimes := by
  rw [readRoots] at h
  split at h
  · rename_i hlong
    have hp : p.length = 16 := by
      rw [hlong, snapshotPayload] at hlen
      omega
    obtain ⟨registry, p₁, hregistry, hlen₁, rfl⟩ := exists_field 8 hp
    obtain ⟨lifetimes, p₂, hlifetimes, hlen₂, rfl⟩ := exists_field 8 hlen₁
    obtain rfl := length_eq_zero_iff.mp hlen₂
    simp only [readLe_append hregistry, readLe_append hlifetimes] at h
    obtain ⟨hval, h⟩ := check_ok.mp h
    obtain rfl := pure_ok.mp h
    refine ⟨hlong, fun r hr => ?_, ?_⟩
    · obtain rfl := Option.mem_some_iff.mp hr
      exact ⟨hval, hregistry, hlifetimes⟩
    · simp only [append_nil, Option.elim_some]
  · rename_i hshort
    have hlength := hcases.resolve_right hshort
    cases h
    refine ⟨hlength, by simp, ?_⟩
    apply length_eq_zero_iff.mp
    omega

theorem rootsField_eq (checkpoint : Checkpoint) : checkpoint.rootsField =
    checkpoint.snapshotRoots.elim [] fun r => leBytes 8 r.registry ++ leBytes 8 r.lifetimes := by
  rw [rootsField]
  cases checkpoint.snapshotRoots <;> rfl

/-- What an accepted block says of its checkpoint. -/
structure Exact (checkpoint : Checkpoint) (block uuid : Bytes) : Prop where
  uuid : checkpoint.uuid = uuid
  verified : BlockHeader.verify block BlockType.checkpoint = .ok checkpoint.header
  payload : checkpoint.header.payload block = checkpoint.payload
  inRange : checkpoint.InRange
  generation : checkpoint.generation ≠ 0
  root : checkpoint.rootObjectId = objectRoot
  label : validateLabel checkpoint.label = .ok ()
  roots : checkpoint.validateRoots = .ok ()

variable {block uuid : Bytes}

attribute [local irreducible] readLe readBytes in
theorem exact_of_decode (hdec : decode block uuid = .ok checkpoint) : checkpoint.Exact block uuid := by
  obtain ⟨header, hverify, h⟩ := of_bind hdec
  have hadm := admitted_of_verify hverify
  obtain ⟨hres, h⟩ := of_refuse h
  obtain ⟨hlength, h⟩ := of_refuse h
  have hpay := hadm.length_payload
  generalize hbytes : header.payload block = p at hpay hlength h
  have hcases : p.length = fixedPayload ∨ p.length = snapshotPayload := by
    rw [hpay]
    tauto
  have hlen : 168 ≤ p.length := not_lt.mp (not_or.mp hlength).2
  obtain ⟨hexpected, h⟩ := of_refuse h
  obtain ⟨hbound, h⟩ := of_refuse h
  obtain ⟨hcanon, h⟩ := of_refuse h
  obtain ⟨label, htext, h⟩ := of_bind h
  obtain ⟨hlabel, h⟩ := check_ok.mp h
  obtain ⟨snapshotRoots, hread, h⟩ := of_bind h
  obtain ⟨hroot, h⟩ := of_refuse h
  obtain ⟨hzero, h⟩ := of_refuse h
  obtain rfl := pure_ok.mp h
  simp only [not_or, not_lt, not_not, ne_eq] at hres hbound hcanon hroot
  obtain ⟨hlabelLength, hfield⟩ := labelField_eq
    (by simp only [length_readBytes_fst, length_readLe, length_readBytes, labelMaxBytes]; omega)
    (toUtf8_eq_ok.mp htext) hcanon.2.2 hcanon.1
  have hreservedZero := eq_replicate_of_any hcanon.2.1
  rw [length_readBytes_fst, Nat.min_eq_left (by simp only [length_readLe, length_readBytes]; omega)] at hreservedZero
  obtain ⟨hplen, hval, hrootsField⟩ := readRoots_eq_ok
    (by simp only [length_readLe, length_readBytes, labelMaxBytes, fixedPayload]; omega) hcases hread
  have hhdr := hadm.eq_mk hres.1 hres.2 hbound.2.symm (hpay.symm.trans hplen)
  rw [hhdr] at hverify hbytes
  refine ⟨not_not.mp hexpected, hverify, hbytes.trans (Eq.symm ?_), ⟨?_, readLe_lt .., readLe_lt .., readLe_lt ..,
    readLe_lt .., readLe_lt .., readLe_lt .., readLe_lt .., readLe_lt .., fun r hr => (hval r hr).2⟩, hbound.1, hroot,
    hlabel, ?_⟩
  · unfold payload
    simp (disch := first | rfl | assumption | simp only [length_readLe, length_readBytes]; omega) only [rootsField_eq,
      hlabelLength, hfield, ← hreservedZero, ← hrootsField, append_assoc, leBytes_readLe_append,
      readBytes_fst_append]
  · rw [length_readBytes_fst]
    exact Nat.min_eq_left (by omega)
  · rw [validateRoots]
    cases snapshotRoots with
    | none => rfl
    | some r => exact (hval r rfl).1

/-- An accepted block is the encoding of what it decodes to, if that has an allocation root. -/
theorem encode_decode (hdec : decode block uuid = .ok checkpoint) (halloc : checkpoint.allocationRootBlock ≠ 0) :
    checkpoint.encode block.length = .ok block := by
  have hexact := exact_of_decode hdec
  have hadm := admitted_of_verify hexact.verified
  refine encode_eq_ok.mpr ⟨hexact.generation, hexact.root, halloc, hexact.label, hexact.roots, ?_, ?_⟩
  · exact Nat.le_sub_of_add_le' hadm.room
  · rw [← hexact.payload]
    exact hadm.sealed

/-- Whether an accepted block has snapshot roots can be read off the bytes behind the label: a
registry is never block zero, and without roots these bytes are the unused tail. -/
theorem Exact.snapshotRoots_eq_none (hexact : checkpoint.Exact block uuid) : checkpoint.snapshotRoots = none ↔
      leNat (((block.drop headerSize).drop fixedPayload).take 8) = 0 := by
  have hadm := admitted_of_verify hexact.verified
  have hbody := hadm.body
  have hfield := length_labelField (validateLabel_eq_ok.mp hexact.label).1
  rw [hexact.payload, Checkpoint.payload] at hbody
  rw [hbody, append_assoc, drop_left' (by
    simp only [length_append, length_leBytes, hexact.inRange.uuid, hfield, length_replicate]
    decide)]
  have hroots := hexact.roots
  rw [validateRoots] at hroots
  rw [rootsField]
  cases hcase : checkpoint.snapshotRoots with
  | none =>
    rw [nil_append, take_replicate]
    simp only [leNat_replicate_zero]
  | some roots =>
    rw [hcase] at hroots
    have hregistry := (not_or.mp (refuseIf_eq_ok.mp hroots)).1
    have hwidth := (hexact.inRange.snapshotRoots roots hcase).1
    simp only [reduceCtorEq, false_iff]
    rwa [append_assoc, take_left' (length_leBytes _ _), leNat_leBytes hwidth]

theorem Exact.block_eq {checkpoint checkpoint' : Checkpoint} {block block' uuid uuid' : Bytes}
    (hexact : checkpoint.Exact block uuid) (hexact' : checkpoint'.Exact block' uuid')
    (hbody : block'.drop headerSize = block.drop headerSize) : block' = block ∧ uuid' = uuid := by
  have hadm := admitted_of_verify hexact.verified
  have hadm' := admitted_of_verify hexact'.verified
  have hroots : checkpoint.snapshotRoots = none ↔ checkpoint'.snapshotRoots = none := by
    rw [hexact.snapshotRoots_eq_none, hexact'.snapshotRoots_eq_none, hbody]
  have hlen : checkpoint'.payloadLen = checkpoint.payloadLen := by
    simp only [payloadLen, ← Option.not_isNone, ← Option.isNone_iff_eq_none] at hroots ⊢
    simp only [Bool.coe_iff_coe.mp hroots]
  have hpay : checkpoint'.payload = checkpoint.payload := by
    rw [← hexact.payload, ← hexact'.payload, BlockHeader.payload, BlockHeader.payload, hbody]
    exact congrArg (fun n => (block.drop headerSize).take n) hlen
  have hfields := hpay
  simp only [Checkpoint.payload, append_assoc] at hfields
  obtain ⟨huuid, hfields⟩ := append_inj hfields (hexact'.inRange.uuid.trans hexact.inRange.uuid.symm)
  have hgen : checkpoint'.generation = checkpoint.generation :=
    (leBytes_append_inj hexact'.inRange.generation hexact.inRange.generation hfields).1
  have hhdr : checkpoint'.header = checkpoint.header := by
    rw [header, header, hgen, hlen]
  have hlength : block'.length = block.length := by
    have hdrop := congrArg List.length hbody
    rw [length_drop, length_drop] at hdrop
    have := hadm.room
    have := hadm'.room
    omega
  refine ⟨?_, hexact'.uuid ▸ hexact.uuid ▸ huuid⟩
  rw [hadm.sealed, hadm'.sealed, hexact.payload, hexact'.payload, hhdr, hpay, hlength]

/-- The codec is exact: a checkpoint that encodes decodes to itself, a structurally valid one that
decodes encodes to the block it came from, and no other length, header or uuid makes anything of the
bytes behind that block's header. -/
theorem checkpoint_codec_exact :
    (∀ (checkpoint : Checkpoint) (blockSize : Nat) (block : Bytes), checkpoint.InRange →
      checkpoint.flags = 0 → checkpoint.encode blockSize = .ok block →
      decode block checkpoint.uuid = .ok checkpoint) ∧
    ∀ (block uuid : Bytes) (checkpoint : Checkpoint) (geo : Geometry),
      decode block uuid = .ok checkpoint → checkpoint.validateStructural geo = .ok () →
      checkpoint.encode block.length = .ok block ∧ ∀ (block' uuid' : Bytes) (checkpoint' : Checkpoint),
        block'.drop headerSize = block.drop headerSize → decode block' uuid' = .ok checkpoint' →
        block' = block ∧ checkpoint' = checkpoint := by
  constructor
  · intro checkpoint blockSize block hrange hflags hencode
    exact decode_encode hrange hflags hencode
  · intro block uuid checkpoint geo hdecode hvalid
    obtain ⟨-, hallocatable, -⟩ := validateStructural_eq_ok.mp hvalid
    have hthree := Geometry.three_le_of_allocatable hallocatable
    refine ⟨encode_decode hdecode ?_, ?_⟩
    · exact Nat.ne_of_gt (Nat.lt_of_lt_of_le (Nat.succ_pos 2) hthree)
    · intro block' uuid' checkpoint' hbody hdecode'
      obtain ⟨rfl, rfl⟩ := (exact_of_decode hdecode).block_eq (exact_of_decode hdecode') hbody
      exact ⟨rfl, Except.ok.inj (hdecode'.symm.trans hdecode)⟩

/-- A labelled checkpoint with snapshot roots on the smallest volume. -/
def sample : Checkpoint :=
  ⟨List.replicate 16 7, 5, objectRoot, 12, 13, 14, 20, 4, 3, 0, 0, workLabel, some ⟨15, 11⟩⟩

theorem checkpoint_codec_exact_sample :
    ∃ block, sample.encode 4096 = .ok block ∧ decode block sample.uuid = .ok sample ∧
      sample.validateStructural ⟨4096, 16, 16⟩ = .ok () ∧ sample.encode block.length = .ok block := by
  have hrange : sample.InRange := by
    constructor
    all_goals decide
  have hencode : sample.encode 4096 = .ok (sample.header.sealPayload 4096 sample.payload) :=
    encode_eq_ok.mpr ⟨by decide, by decide, by decide, by decide, by decide, by decide, rfl⟩
  have hvalid : sample.validateStructural ⟨4096, 16, 16⟩ = .ok () := by decide
  have hdecode := checkpoint_codec_exact.1 sample 4096 _ hrange rfl hencode
  exact ⟨_, hencode, hdecode, hvalid, (checkpoint_codec_exact.2 _ _ _ _ hdecode hvalid).1⟩


end Checkpoint

end Afsplus
