import Afsplus.Format.Geometry
import Afsplus.Format.Object

/-!
# Owned chains

An immutable run of linked blocks that belongs to one object and holds one content. The layout of a segment is
the same for every kind of chain; the block magic, the bound on the content and the messages differ. A segment
says which part of the content it holds, and every field of it is fixed by the content's length and the block
size up to the owner, the format and the link.
-/

namespace Afsplus

open Wire Fallible BlockHeader

structure ChainKind where
  blockType : Nat
  maxBytes : Nat
  lengthOutOfRange : String
  ownerOrFormatZero : String
  positionInconsistent : String
  linkInconsistent : String
  lengthNotExact : String
  flagsNonzero : String
  payloadTooShort : String
  reservedNonzero : String
  deriving DecidableEq, Repr

def attributeChain : ChainKind where
  blockType := BlockType.attributeSet
  maxBytes := maxAttributeSetBytes
  lengthOutOfRange := "attribute set length out of range"
  ownerOrFormatZero := "attribute segment owner or format is zero"
  positionInconsistent := "attribute segment position inconsistent"
  linkInconsistent := "attribute segment chain link inconsistent"
  lengthNotExact := "attribute segment length is not exact"
  flagsNonzero := "attribute segment header flags are nonzero"
  payloadTooShort := "attribute segment payload too short"
  reservedNonzero := "attribute segment reserved field is nonzero"

def securityChain : ChainKind where
  blockType := BlockType.securityDescriptor
  maxBytes := maxSecurityDescriptorBytes
  lengthOutOfRange := "security descriptor length out of range"
  ownerOrFormatZero := "security segment owner or format is zero"
  positionInconsistent := "security segment position inconsistent"
  linkInconsistent := "security segment chain link inconsistent"
  lengthNotExact := "security segment length is not exact"
  flagsNonzero := "security segment header flags are nonzero"
  payloadTooShort := "security segment payload too short"
  reservedNonzero := "security segment reserved field is nonzero"

def chainKinds : List ChainKind := [attributeChain, securityChain]

def segmentCapacity (blockSize : Nat) : Nat := blockSize - (headerSize + chainFixedPayload)

def ChainKind.segmentCount (kind : ChainKind) (totalLen blockSize : Nat) : Option Nat :=
  Afsplus.segmentCount kind.maxBytes totalLen blockSize

structure ChainSegment where
  objectId : Nat
  format : Nat
  version : Nat
  totalLen : Nat
  index : Nat
  count : Nat
  next : Nat
  bytes : Bytes
  deriving DecidableEq, Repr

namespace ChainSegment

structure InRange (segment : ChainSegment) : Prop where
  objectId : segment.objectId < 256 ^ 8
  format : segment.format < 256 ^ 4
  version : segment.version < 256 ^ 2
  totalLen : segment.totalLen < 256 ^ 4
  index : segment.index < 256 ^ 2
  count : segment.count < 256 ^ 2
  next : segment.next < 256 ^ 8

/-- The number of content bytes the segment has to hold: the last one holds what is left. -/
def expectedLen (segment : ChainSegment) (count blockSize : Nat) : Nat :=
  if segment.index + 1 = count then segment.totalLen - segmentCapacity blockSize * (count - 1)
  else segmentCapacity blockSize

def validate (segment : ChainSegment) (kind : ChainKind) (blockSize : Nat) : Except FormatError Unit := do
  match kind.segmentCount segment.totalLen blockSize with
  | none => .error (.invalid kind.lengthOutOfRange)
  | some count =>
      refuseIf (segment.objectId = objectInvalid ∨ segment.format = 0) (.invalid kind.ownerOrFormatZero)
      refuseIf (segment.count ≠ count ∨ segment.index ≥ count) (.invalid kind.positionInconsistent)
      refuseIf (decide (segment.index + 1 = count) ≠ decide (segment.next = 0)) (.invalid kind.linkInconsistent)
      refuseIf (segment.bytes.length ≠ segment.expectedLen count blockSize) (.invalid kind.lengthNotExact)

def payload (segment : ChainSegment) : Bytes :=
  leBytes 4 segment.format ++ leBytes 2 segment.version ++ leBytes 2 0 ++ leBytes 4 segment.totalLen ++
    leBytes 2 segment.index ++ leBytes 2 segment.count ++ leBytes 8 segment.next ++ segment.bytes

def header (segment : ChainSegment) (kind : ChainKind) (generation : Nat) : BlockHeader :=
  ⟨kind.blockType, 0, segment.objectId, generation, (chainFixedPayload + segment.bytes.length) % 2 ^ 32⟩

def encode (segment : ChainSegment) (kind : ChainKind) (blockSize generation : Nat) : Except FormatError Bytes := do
  segment.validate kind blockSize
  pure ((segment.header kind generation).sealPayload blockSize segment.payload)

def decode (kind : ChainKind) (block : Bytes) : Except FormatError (ChainSegment × Nat) := do
  let header ← BlockHeader.verify block kind.blockType
  let p := header.payload block
  let length := p.length
  refuseIf (header.flags ≠ 0) (.invalid kind.flagsNonzero)
  refuseIf (length < chainFixedPayload) (.invalid kind.payloadTooShort)
  let (format, p) := readLe 4 p
  let (version, p) := readLe 2 p
  let (reserved, p) := readLe 2 p
  let (totalLen, p) := readLe 4 p
  let (index, p) := readLe 2 p
  let (count, p) := readLe 2 p
  let (next, p) := readLe 8 p
  refuseIf (reserved ≠ 0) (.invalid kind.reservedNonzero)
  let segment : ChainSegment := ⟨header.owner, format, version, totalLen, index, count, next, p⟩
  segment.validate kind block.length
  pure (segment, header.generation)

/-- What a segment says about its place in the chain is what the content's length makes it. -/
structure Valid (segment : ChainSegment) (kind : ChainKind) (blockSize : Nat) : Prop where
  counted : kind.segmentCount segment.totalLen blockSize = some segment.count
  owned : segment.objectId ≠ objectInvalid ∧ segment.format ≠ 0
  position : segment.index < segment.count
  link : segment.index + 1 = segment.count ↔ segment.next = 0
  exact : segment.bytes.length = segment.expectedLen segment.count blockSize

variable {kind : ChainKind} {segment : ChainSegment} {blockSize generation : Nat}

theorem validate_eq_ok :
    segment.validate kind blockSize = .ok () ↔ segment.Valid kind blockSize := by
  rw [validate]
  cases hcnt : kind.segmentCount segment.totalLen blockSize with
  | none =>
    constructor
    · intro h
      cases h
    · intro h
      rw [h.counted] at hcnt
      cases hcnt
  | some count =>
    constructor
    · intro h
      obtain ⟨howned, h⟩ := of_refuse h
      obtain ⟨hpstn, h⟩ := of_refuse h
      obtain ⟨hlink, h⟩ := of_refuse h
      have hexact := refuseIf_eq_ok.mp h
      simp only [not_or, not_not, ne_eq, not_le, ge_iff_le] at howned hpstn hlink hexact
      obtain ⟨rfl, hindex⟩ := hpstn
      exact ⟨hcnt, howned, hindex, decide_eq_decide.mp hlink, hexact⟩
    · intro h
      obtain rfl : segment.count = count := by
        rw [h.counted] at hcnt
        exact Option.some.inj hcnt
      have hpstn := h.position
      have hlink : decide (segment.index + 1 = segment.count) = decide (segment.next = 0) :=
        decide_eq_decide.mpr h.link
      show (refuseIf _ _ >>= fun _ => refuseIf _ _ >>= fun _ => refuseIf _ _ >>= fun _ => refuseIf _ _) = _
      rw [refuseIf_bind (not_or.mpr h.owned), refuseIf_bind (by simpa using hpstn),
        refuseIf_bind (not_not.mpr hlink), refuseIf_eq_ok]
      exact not_not.mpr h.exact

theorem segmentCount_eq_some {totalLen count : Nat} :
    kind.segmentCount totalLen blockSize = some count ↔
      (totalLen ≠ 0 ∧ totalLen ≤ kind.maxBytes ∧ segmentCapacity blockSize ≠ 0) ∧ count < 2 ^ 16 ∧
        count = divCeil totalLen (segmentCapacity blockSize) := by
  rw [ChainKind.segmentCount, Afsplus.segmentCount]
  dsimp only
  split_ifs with hout hfits
  · simp only [false_iff]
    rintro ⟨⟨hlen, hmax, hcapacity⟩, -⟩
    rcases hout with h | h | h
    · exact hlen h
    · exact absurd hmax (not_le.mpr h)
    · exact hcapacity h
  · simp only [not_or, not_lt, gt_iff_lt] at hout
    constructor
    · intro h
      obtain rfl := Option.some.inj h
      exact ⟨hout, hfits, rfl⟩
    · rintro ⟨-, -, rfl⟩
      rfl
  · simp only [false_iff]
    rintro ⟨-, hlt, rfl⟩
    exact hfits hlt

/-- A content is no longer than its segments, and the last of them is not empty. -/
theorem divCeil_bounds {length capacity : Nat} (hlen : length ≠ 0) (hcapacity : capacity ≠ 0) :
    capacity * (divCeil length capacity - 1) < length ∧ length ≤ capacity * divCeil length capacity := by
  have hdiv := Nat.div_add_mod (length + capacity - 1) capacity
  have hmod := Nat.mod_lt (length + capacity - 1) (Nat.pos_of_ne_zero hcapacity)
  rw [divCeil]
  generalize (length + capacity - 1) / capacity = count at hdiv
  cases count with
  | zero =>
    rw [Nat.mul_zero] at hdiv
    omega
  | succ count =>
    rw [Nat.mul_succ] at hdiv
    rw [Nat.add_sub_cancel, Nat.mul_succ]
    omega

theorem Valid.room (h : segment.Valid kind blockSize) :
    headerSize + (chainFixedPayload + segment.bytes.length) ≤ blockSize ∧
      segment.bytes.length ≤ segment.totalLen ∧ segment.totalLen ≤ kind.maxBytes := by
  obtain ⟨⟨hlen, hmax, hcapacity⟩, -, hcnt⟩ := segmentCount_eq_some.mp h.counted
  obtain ⟨hlow, hhigh⟩ := divCeil_bounds hlen hcapacity
  rw [← hcnt] at hlow hhigh
  have hpstn := h.position
  obtain ⟨count, hsucc⟩ : ∃ count, segment.count = count + 1 := ⟨segment.count - 1, by omega⟩
  have hcapacityEq : segmentCapacity blockSize = blockSize - (headerSize + chainFixedPayload) := rfl
  rw [hsucc, Nat.add_sub_cancel] at hlow
  rw [hsucc, Nat.mul_succ] at hhigh
  have hexact := h.exact
  rw [expectedLen, hsucc, Nat.add_sub_cancel] at hexact
  split_ifs at hexact with hlast
  · omega
  · have hone : segmentCapacity blockSize * 1 ≤ segmentCapacity blockSize * count := Nat.mul_le_mul_left _ (by omega)
    omega

/-! ### The codec -/

theorem length_payload (segment : ChainSegment) :
    segment.payload.length = chainFixedPayload + segment.bytes.length := by
  simp only [payload, List.length_append, length_leBytes, chainFixedPayload]

/-- The header does not cut the payload length short. -/
def Fits (kind : ChainKind) : Prop := kind.blockType < 256 ^ 4 ∧ chainFixedPayload + kind.maxBytes < 2 ^ 32

theorem fits_of_mem (h : kind ∈ chainKinds) : Fits kind := by
  rcases List.mem_pair.mp h with rfl | rfl <;> exact ⟨by decide, by decide⟩

variable {block : Bytes}

theorem decode_encode (hkind : Fits kind) (hrng : segment.InRange) (hgen : generation < 256 ^ 8)
    (henc : segment.encode kind blockSize generation = .ok block) :
    decode kind block = .ok (segment, generation) := by
  obtain ⟨hval, henc⟩ := check_ok.mp henc
  obtain rfl := pure_ok.mp henc
  obtain ⟨hroom, hlong, hmax⟩ := (validate_eq_ok.mp hval).room
  obtain ⟨htype, hbound⟩ := hkind
  have hlen : (segment.header kind generation).payloadLen = segment.payload.length := by
    rw [length_payload]
    exact Nat.mod_eq_of_lt (by omega)
  have hhdr : (segment.header kind generation).InRange := by
    refine ⟨htype, Nat.zero_lt_succ _, hrng.objectId, hgen, ?_⟩
    rw [hlen, length_payload]
    omega
  have hsize : ((segment.header kind generation).sealPayload blockSize segment.payload).length = blockSize := by
    apply length_sealPayload
    rw [length_payload]
    exact hroom
  unfold decode
  refine bind_ok.mpr ⟨_, verify_sealPayload hhdr hlen blockSize, ?_⟩
  rw [payload_sealPayload hlen, hsize]
  dsimp only
  rw [refuseIf_bind (by simp [header]), length_payload, refuseIf_bind (by omega)]
  unfold payload
  cases hrng
  simp (disch := first | assumption | decide) only [List.append_assoc, readLe_append]
  rw [refuseIf_bind (by simp), check_bind]
  · rfl
  · exact hval

attribute [local irreducible] readLe in
theorem encode_decode (hdec : decode kind block = .ok (segment, generation)) :
    segment.encode kind block.length generation = .ok block ∧ segment.InRange ∧ generation < 256 ^ 8 := by
  obtain ⟨header, hadm, h⟩ := admitted_of_bind hdec
  have hpay := hadm.length_payload
  have hblk := hadm.sealed
  obtain ⟨hflags, h⟩ := of_refuse h
  obtain ⟨hshort, h⟩ := of_refuse h
  generalize header.payload block = p at hpay hblk hshort h
  obtain ⟨hzero, h⟩ := of_refuse h
  obtain ⟨hval, h⟩ := check_ok.mp h
  obtain ⟨hseg, rfl⟩ := pure_pair_eq_ok.mp h
  rw [not_not] at hzero
  rw [not_lt, chainFixedPayload] at hshort
  rw [← hseg] at hval
  have hwritten : segment.payload = p := by
    rw [hseg, payload]
    simp (disch := first | rfl | assumption | omega | simp only [length_readLe]; omega) only [List.append_assoc,
      leBytes_readLe_append]
  have hhdr : header = segment.header kind header.generation := by
    apply hadm.eq_mk (not_not.mp hflags) (congrArg objectId hseg).symm rfl
    rw [← length_payload, hwritten, hpay]
    exact (Nat.mod_eq_of_lt hadm.inRange.payloadLen).symm
  refine ⟨?_, ?_, hadm.inRange.generation⟩
  · rw [encode, check_bind hval, hwritten, ← hhdr]
    exact congrArg Except.ok hblk.symm
  · rw [hseg]
    constructor
    case objectId => exact hadm.inRange.owner
    all_goals exact readLe_lt ..

theorem blockType_of_decode {segment segment' : ChainSegment} {kind kind' : ChainKind} {generation' : Nat}
    (h : decode kind block = .ok (segment, generation))
    (h' : decode kind' block = .ok (segment', generation')) : kind.blockType = kind'.blockType := by
  obtain ⟨header, hverify, -⟩ := of_bind h
  obtain ⟨header', hverify', -⟩ := of_bind h'
  have hadm := admitted_of_verify hverify
  have hadm' := admitted_of_verify hverify'
  obtain ⟨rfl, -⟩ := sealPayload_inj hadm.inRange hadm'.inRange
    hadm.length_payload.symm hadm'.length_payload.symm (hadm.sealed.symm.trans hadm'.sealed)
  rw [← hadm.blockType, hadm'.blockType]

theorem kind_of_blockType {kind kind' : ChainKind} (hkind : kind ∈ chainKinds) (hkind' : kind' ∈ chainKinds)
    (heq : kind.blockType = kind'.blockType) : kind' = kind := by
  rcases List.mem_pair.mp hkind with rfl | rfl <;> rcases List.mem_pair.mp hkind' with rfl | rfl
  · rfl
  · exact absurd heq (by decide)
  · exact absurd heq (by decide)
  · rfl

end ChainSegment

end Afsplus
