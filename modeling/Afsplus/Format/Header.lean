import Afsplus.Format.Basic

/-!
# Checksums and the common block header

Every metadata block starts with a 32-byte header and carries a CRC32C of the whole block computed
with the checksum field taken as zero. `sealBlock` is the encoder's last step, `verify` the decoder's
first. The proofs never look inside the checksum: a sealed block verifies because both sides hash the
same bytes.
-/

namespace Afsplus

open Wire List

namespace Crc32c

def polyReflected : UInt32 := 0x82F63B78

/-- One entry of the byte table. -/
def tableEntry (i : UInt32) : UInt32 :=
  Nat.iterate (fun crc => if crc &&& 1 != 0 then (crc >>> 1) ^^^ polyReflected else crc >>> 1) 8 i

def updateByte (state : UInt32) (b : UInt8) : UInt32 :=
  (state >>> 8) ^^^ tableEntry ((state ^^^ b.toUInt32) &&& 0xFF)

/-- The source also takes eight bytes a step through eight tables; this is the byte-wise rule both
ways compute. -/
def update (state : UInt32) (data : Bytes) : UInt32 := data.foldl updateByte state

def finalize (state : UInt32) : Nat := (~~~state).toNat

end Crc32c

def crc32c (data : Bytes) : Nat := Crc32c.finalize (Crc32c.update (~~~0) data)

theorem crc32c_lt (data : Bytes) : crc32c data < 256 ^ 4 :=
  (~~~(Crc32c.update (~~~0) data)).toNat_lt

def headerSize : Nat := 32

def headerVersion : Nat := 1

def asciiMagic (a b c d : Char) : Nat :=
  a.toNat + 256 * (b.toNat + 256 * (c.toNat + 256 * d.toNat))

namespace BlockType

def identification : Nat := asciiMagic 'A' 'F' 'S' 'I'
def checkpoint : Nat := asciiMagic 'A' 'F' 'S' 'C'
def object : Nat := asciiMagic 'A' 'F' 'S' 'O'
def bitmap : Nat := asciiMagic 'A' 'F' 'S' 'B'
def regionDescriptor : Nat := asciiMagic 'A' 'F' 'S' 'G'
def treeNode : Nat := asciiMagic 'A' 'F' 'S' 'T'
def reclaimRoot : Nat := asciiMagic 'A' 'F' 'S' 'H'
def reclaimSegment : Nat := asciiMagic 'A' 'F' 'S' 'S'
def reclaimTable : Nat := asciiMagic 'A' 'F' 'S' 'L'
def intentLog : Nat := asciiMagic 'A' 'F' 'S' 'J'
def securityDescriptor : Nat := asciiMagic 'A' 'F' 'S' 'X'
def attributeSet : Nat := asciiMagic 'A' 'F' 'S' 'A'

end BlockType

structure BlockHeader where
  blockType : Nat
  flags : Nat
  owner : Nat
  generation : Nat
  payloadLen : Nat
  deriving DecidableEq, Repr

namespace BlockHeader

structure InRange (h : BlockHeader) : Prop where
  blockType : h.blockType < 256 ^ 4
  flags : h.flags < 256 ^ 2
  owner : h.owner < 256 ^ 8
  generation : h.generation < 256 ^ 8
  payloadLen : h.payloadLen < 256 ^ 4

theorem inRange_mk {blockType owner generation payloadLen : Nat} (howner : owner < 256 ^ 8)
    (hgen : generation < 256 ^ 8) (hlen : payloadLen < 256 ^ 4) (htype : blockType < 256 ^ 4 := by decide) :
    InRange ⟨blockType, 0, owner, generation, payloadLen⟩ :=
  ⟨htype, Nat.zero_lt_succ _, howner, hgen, hlen⟩

def fields (h : BlockHeader) : Bytes :=
  leBytes 4 h.blockType ++ leBytes 2 headerVersion ++ leBytes 2 h.flags ++ leBytes 8 h.owner ++
    leBytes 8 h.generation ++ leBytes 4 h.payloadLen

theorem length_fields (h : BlockHeader) : h.fields.length = 28 := by
  simp [fields]

/-- `seal`, on the block's bytes after the header: the payload and its zero tail. -/
def sealBlock (h : BlockHeader) (body : Bytes) : Bytes :=
  h.fields ++ leBytes 4 (crc32c (h.fields ++ leBytes 4 0 ++ body)) ++ body

theorem length_sealBlock (h : BlockHeader) (body : Bytes) : (h.sealBlock body).length = headerSize + body.length := by
  simp only [sealBlock, length_append, length_fields, length_leBytes, headerSize]

/-- The stored checksum and the one the bytes give. -/
def checksums (block : Bytes) : Nat × Nat :=
  (leNat ((block.drop 28).take 4), crc32c (block.take 28 ++ leBytes 4 0 ++ block.drop 32))

/-- Reads the fields in front of the checksum. -/
def readFields (block : Bytes) : Nat × BlockHeader :=
  let (blockType, p) := readLe 4 block
  let (version, p) := readLe 2 p
  let (flags, p) := readLe 2 p
  let (owner, p) := readLe 8 p
  let (generation, p) := readLe 8 p
  let (payloadLen, _) := readLe 4 p
  (version, ⟨blockType, flags, owner, generation, payloadLen⟩)

def verify (block : Bytes) (expectedType : Nat) : Except FormatError BlockHeader :=
  if block.length < headerSize then .error (.wrongBufferSize headerSize block.length)
  else
    let (stored, computed) := checksums block
    if stored ≠ computed then .error (.checksumMismatch stored computed)
    else
      let (version, h) := readFields block
      if h.blockType ≠ expectedType then .error (.wrongBlockType expectedType h.blockType)
      else if version ≠ headerVersion then .error (.unsupportedHeaderVersion version)
      else if h.payloadLen > block.length - headerSize then
        .error (.payloadTooLarge h.payloadLen (block.length - headerSize))
      else if (block.drop (headerSize + h.payloadLen)).any (· != 0) then
        .error (.invalid "block unused tail is nonzero")
      else .ok h

def payload (h : BlockHeader) (block : Bytes) : Bytes := (block.drop headerSize).take h.payloadLen

variable {h : BlockHeader}

theorem readFields_sealBlock (hrng : h.InRange) (body : Bytes) :
    readFields (h.sealBlock body) = (headerVersion, h) := by
  cases hrng
  simp (disch := first | assumption | decide) only [readFields, sealBlock, fields, append_assoc, readLe_append]

theorem checksums_sealBlock (h : BlockHeader) (body : Bytes) :
    (checksums (h.sealBlock body)).1 = (checksums (h.sealBlock body)).2 := by
  have hhead := length_fields h
  have hsum : (leBytes 4 (crc32c (h.fields ++ leBytes 4 0 ++ body))).length = 4 := length_leBytes _ _
  have hstored : ((h.sealBlock body).drop 28).take 4 = leBytes 4 (crc32c (h.fields ++ leBytes 4 0 ++ body)) := by
    rw [sealBlock, append_assoc, drop_left' hhead, take_left' hsum]
  have hfront : (h.sealBlock body).take 28 = h.fields := by
    rw [sealBlock, append_assoc, take_left' hhead]
  have hback : (h.sealBlock body).drop 32 = body := by
    rw [sealBlock]
    exact drop_left' (by rw [length_append, hhead, hsum])
  simp only [checksums, hstored, hfront, hback]
  rw [leNat_leBytes (crc32c_lt _)]

theorem verify_sealBlock (hrng : h.InRange) {payload tail : Bytes}
    (hlen : h.payloadLen = payload.length) (htail : ∀ b ∈ tail, b = 0) :
    verify (h.sealBlock (payload ++ tail)) h.blockType = .ok h := by
  have hlength := length_sealBlock h (payload ++ tail)
  have hdrop : (h.sealBlock (payload ++ tail)).drop (headerSize + h.payloadLen) = tail := by
    rw [sealBlock, ← append_assoc]
    refine drop_left' ?_
    simp [length_fields, headerSize, hlen]
    omega
  have hzero : (tail.any (· != 0)) = false := by
    simpa using htail
  have hsum := checksums_sealBlock h (payload ++ tail)
  unfold verify
  rw [if_neg (by omega)]
  simp only [readFields_sealBlock hrng, hdrop, hzero, hsum, ne_eq, not_true_eq_false, if_false]
  rw [if_neg (by simp [hlength, hlen])]
  simp

theorem payload_sealBlock {payload tail : Bytes} (hlen : h.payloadLen = payload.length) :
    h.payload (h.sealBlock (payload ++ tail)) = payload := by
  have hhead : (h.fields ++ leBytes 4 (crc32c (h.fields ++ leBytes 4 0 ++ (payload ++ tail)))).length
      = headerSize := by
    simp [length_fields, headerSize]
  rw [BlockHeader.payload, sealBlock, drop_left' hhead, take_left' hlen.symm]

variable {expectedType blockSize : Nat} {block : Bytes}

theorem verify_zero (htype : expectedType ≠ 0) :
    ∃ e, verify (List.replicate blockSize 0) expectedType = .error e := by
  have hzero : (readFields (List.replicate blockSize 0)).2.blockType = 0 := by
    show leNat ((List.replicate blockSize 0).take 4) = 0
    rw [take_replicate]
    exact leNat_replicate_zero _
  unfold verify
  split
  · exact ⟨_, rfl⟩
  · dsimp only
    split
    · exact ⟨_, rfl⟩
    · rw [if_pos (by rw [hzero]; exact htype.symm)]
      exact ⟨_, rfl⟩

/-! ### Whole blocks -/

/-- The block an encoder returns: header, payload, and zeros up to the block size. -/
def sealPayload (h : BlockHeader) (blockSize : Nat) (payload : Bytes) : Bytes :=
  h.sealBlock (payload ++ List.replicate (blockSize - headerSize - payload.length) 0)

variable {payload : Bytes}

theorem length_sealPayload (h : BlockHeader) (hroom : headerSize + payload.length ≤ blockSize) :
    (h.sealPayload blockSize payload).length = blockSize := by
  rw [sealPayload, length_sealBlock, length_append, length_replicate]
  omega

theorem verify_sealPayload (hrng : h.InRange) (hlen : h.payloadLen = payload.length) (blockSize : Nat) :
    verify (h.sealPayload blockSize payload) h.blockType = .ok h :=
  verify_sealBlock hrng hlen fun _ hb => eq_of_mem_replicate hb

theorem payload_sealPayload (hlen : h.payloadLen = payload.length) (blockSize : Nat) :
    h.payload (h.sealPayload blockSize payload) = payload :=
  payload_sealBlock hlen

theorem sealPayload_inj {h h' : BlockHeader} (hrng : h.InRange) (hrange' : h'.InRange)
    {payload payload' : Bytes} (hlen : h.payloadLen = payload.length) (hlen' : h'.payloadLen = payload'.length)
    (heq : h.sealPayload blockSize payload = h'.sealPayload blockSize payload') : h = h' ∧ payload = payload' := by
  have hhdr : h = h' := by
    have hread := congrArg readFields heq
    rw [sealPayload, sealPayload, readFields_sealBlock hrng, readFields_sealBlock hrange'] at hread
    exact congrArg Prod.snd hread
  refine ⟨hhdr, ?_⟩
  rw [← payload_sealPayload hlen blockSize, heq, hhdr, payload_sealPayload hlen']

structure Admitted (h : BlockHeader) (block : Bytes) (expectedType : Nat) : Prop where
  inRange : h.InRange
  blockType : h.blockType = expectedType
  room : headerSize + h.payloadLen ≤ block.length
  length_payload : (h.payload block).length = h.payloadLen
  sealed : block = h.sealPayload block.length (h.payload block)

theorem eq_replicate_of_any {bytes : Bytes} (h : ¬bytes.any (· != 0) = true) :
    bytes = List.replicate bytes.length 0 := by
  rw [eq_replicate_iff]
  exact ⟨rfl, by simpa using h⟩

theorem checksums_append {front : Bytes} (hfront : front.length = 28) {stored : Nat}
    (hstored : stored < 256 ^ 4) (body : Bytes) :
    checksums (front ++ (leBytes 4 stored ++ body)) = (stored, crc32c (front ++ leBytes 4 0 ++ body)) := by
  have hsum : (leBytes 4 stored).length = 4 := length_leBytes _ _
  have hback : (front ++ (leBytes 4 stored ++ body)).drop 32 = body := by
    rw [← append_assoc]
    apply drop_left'
    rw [length_append, hfront, hsum]
  rw [checksums, hback, take_left' hfront, drop_left' hfront, take_left' hsum, leNat_leBytes hstored]

theorem readFields_append {front : Bytes} (hfront : front.length = 28) :
    ∃ (version : Nat) (h : BlockHeader), h.InRange ∧ (∀ rest, readFields (front ++ rest) = (version, h)) ∧
      (version = headerVersion → front = h.fields) := by
  obtain ⟨blockType, p₁, hblockType, hlen₁, rfl⟩ := exists_field 4 hfront
  obtain ⟨version, p₂, hver, hlen₂, rfl⟩ := exists_field 2 hlen₁
  obtain ⟨flags, p₃, hflags, hlen₃, rfl⟩ := exists_field 2 hlen₂
  obtain ⟨owner, p₄, howner, hlen₄, rfl⟩ := exists_field 8 hlen₃
  obtain ⟨generation, p₅, hgen, hlen₅, rfl⟩ := exists_field 8 hlen₄
  obtain ⟨payloadLen, p₆, hplen, hlen₆, rfl⟩ := exists_field 4 hlen₅
  obtain rfl := length_eq_zero_iff.mp hlen₆
  refine ⟨version, ⟨blockType, flags, owner, generation, payloadLen⟩,
    ⟨hblockType, hflags, howner, hgen, hplen⟩, ?_, ?_⟩
  · intro rest
    simp (disch := assumption) only [readFields, append_assoc, readLe_append]
  · rintro rfl
    simp only [fields, append_assoc, append_nil]

theorem admitted_of_verify {header : BlockHeader}
    (hverify : verify block expectedType = .ok header) : header.Admitted block expectedType := by
  unfold verify at hverify
  split at hverify
  · cases hverify
  rename_i hlong
  obtain ⟨n, hlen⟩ := Nat.exists_eq_add_of_le' (not_lt.mp hlong)
  rw [headerSize] at hlen
  obtain ⟨front, rest, hfront, hrest, rfl⟩ := exists_bytes 28 hlen
  obtain ⟨stored, body, hstored, hbody, rfl⟩ := exists_field 4 hrest
  obtain ⟨version, h, hrng, hread, hfields⟩ := readFields_append hfront
  rw [checksums_append hfront hstored] at hverify
  dsimp only at hverify
  rw [hread] at hverify
  -- The checks in the order of the source.
  split at hverify
  · cases hverify
  rename_i hsum
  split at hverify
  · cases hverify
  rename_i htype
  split at hverify
  · cases hverify
  rename_i hver
  split at hverify
  · cases hverify
  rename_i hroom
  split at hverify
  · cases hverify
  rename_i htail
  cases hverify
  show h.Admitted _ _
  obtain rfl := hfields (not_not.mp hver)
  have hblk : h.fields ++ (leBytes 4 stored ++ body) = h.sealBlock body := by
    rw [sealBlock, ← not_not.mp hsum, append_assoc]
  have hhead : (h.fields ++ leBytes 4 stored).length = headerSize := by
    rw [length_append, hfront, length_leBytes]
    rfl
  have hpay : h.payload (h.fields ++ (leBytes 4 stored ++ body)) = body.take h.payloadLen := by
    rw [payload, ← append_assoc, drop_left' hhead]
  have hrest : (h.fields ++ (leBytes 4 stored ++ body)).drop (headerSize + h.payloadLen)
      = body.drop h.payloadLen := by
    rw [← append_assoc, ← drop_drop, drop_left' hhead]
  have hroom : h.payloadLen ≤ n := by
    rw [hlen, headerSize, Nat.add_sub_cancel] at hroom
    exact not_lt.mp hroom
  have htail : ¬(body.drop h.payloadLen).any (· != 0) = true := hrest ▸ htail
  refine ⟨hrng, not_not.mp htype, by rw [hlen, headerSize]; omega, ?_, ?_⟩
  · rw [hpay, length_take]
    omega
  · have hzero := eq_replicate_of_any htail
    rw [hlen, hpay, sealPayload, length_take, Nat.min_eq_left (by omega), hblk]
    rw [length_drop, hbody] at hzero
    have hsplit := take_append_drop h.payloadLen body
    rw [hzero] at hsplit
    rw [headerSize, Nat.add_sub_cancel, hsplit]

theorem admitted_of_bind {α : Type} {f : BlockHeader → Except FormatError α} {a : α}
    (hdec : (verify block expectedType >>= f) = .ok a) :
    ∃ header : BlockHeader, header.Admitted block expectedType ∧ f header = .ok a := by
  obtain ⟨header, hverify, h⟩ := Fallible.of_bind hdec
  exact ⟨header, admitted_of_verify hverify, h⟩

theorem Admitted.eq_mk {owner generation payloadLen : Nat}
    (hadm : h.Admitted block expectedType) (hflags : h.flags = 0) (howner : h.owner = owner)
    (hgen : h.generation = generation) (hlen : h.payloadLen = payloadLen) :
    h = ⟨expectedType, 0, owner, generation, payloadLen⟩ := by
  obtain ⟨blockType, _, _, _, _⟩ := h
  obtain rfl : blockType = expectedType := hadm.blockType
  subst hflags howner hgen hlen
  rfl

theorem Admitted.body (hadm : h.Admitted block expectedType) :
    block.drop headerSize = h.payload block ++ List.replicate (block.length - headerSize - h.payloadLen) 0 := by
  have hhead : ∀ body : Bytes,
      (h.fields ++ leBytes 4 (crc32c (h.fields ++ leBytes 4 0 ++ body))).length = headerSize := by
    intro body
    rw [length_append, length_fields, length_leBytes]
    rfl
  conv_lhs => rw [hadm.sealed, sealPayload, sealBlock, drop_left' (hhead _)]
  rw [hadm.length_payload]

end BlockHeader

end Afsplus
