import Afsplus.Format.Header

/-!
# The reclaim queue's blocks

Retired runs wait in a queue until no retained checkpoint can reach them. The root block carries the
totals, the consumption cursor, the capacities of its three areas and the areas themselves: refs to
sealed tables, refs to sealed segments, and the newest entries inline. Each area is padded with zeros
to its capacity.
-/

namespace Afsplus

open Wire Fallible List BlockHeader BlockType

def entryWireSize : Nat := 20

def refWireSize : Nat := 12

def reclaimRootFixed : Nat := 64

def segmentEntryCap : Nat := 202

def tableRefCap : Nat := 338

structure ReclaimEntry where
  start : Nat
  blocks : Nat
  retireGeneration : Nat
  deriving DecidableEq, Repr

def ReclaimEntry.validate (entry : ReclaimEntry) : Except FormatError Unit := do
  refuseIf (entry.blocks = 0) (.invalid "reclaim run has zero blocks")
  refuseIf (entry.retireGeneration = 0) (.invalid "reclaim run has zero generation")
  refuseIf (entry.start + entry.blocks ≥ 2 ^ 64) (.invalid "reclaim run end overflows")

/-- A sealed segment with its entries, or a sealed table with its refs. -/
structure SealedRef where
  lba : Nat
  count : Nat
  deriving DecidableEq, Repr

structure ReclaimCaps where
  inlineEntries : Nat
  segmentRefs : Nat
  tableRefs : Nat
  deriving DecidableEq, Repr

namespace ReclaimCaps

def rootPayloadLen (caps : ReclaimCaps) : Nat :=
  reclaimRootFixed + caps.tableRefs * refWireSize + caps.segmentRefs * refWireSize +
    caps.inlineEntries * entryWireSize

def validate (caps : ReclaimCaps) (blockSize : Nat) : Except FormatError Unit := do
  refuseIf (caps.inlineEntries = 0 ∨ caps.segmentRefs = 0 ∨ caps.tableRefs = 0)
    (.invalid "reclaim capacity is zero")
  refuseIf (blockSize < headerSize ∨ caps.rootPayloadLen > blockSize - headerSize)
    (.overflow "reclaim root areas exceed one block")

end ReclaimCaps

open ReclaimCaps

structure ReclaimRoot where
  pendingBlocks : Nat
  appendedBlocksTotal : Nat
  reclaimedBlocksTotal : Nat
  headSegmentOffset : Nat
  headEntryOffset : Nat
  headBlockOffset : Nat
  caps : ReclaimCaps
  tableRefs : List SealedRef
  segmentRefs : List SealedRef
  inlineEntries : List ReclaimEntry
  deriving DecidableEq, Repr

namespace ReclaimRoot

def empty (caps : ReclaimCaps) : ReclaimRoot := ⟨0, 0, 0, 0, 0, 0, caps, [], [], []⟩

/-- The cursor refers to sealed blocks only, in queue order. -/
def validateCursor (root : ReclaimRoot) : Except FormatError Unit := do
  match root.tableRefs with
  | [] => refuseIf (root.headSegmentOffset ≠ 0) (.invalid "reclaim cursor names a missing table")
  | first :: _ =>
    refuseIf (root.headSegmentOffset ≥ first.count) (.invalid "reclaim cursor beyond the first table")
  match root.tableRefs, root.segmentRefs with
  | [], [] =>
    refuseIf (root.headEntryOffset ≠ 0 ∨ root.headBlockOffset ≠ 0)
      (.invalid "reclaim cursor names a missing segment")
  | [], head :: _ =>
    refuseIf (root.headEntryOffset ≥ head.count) (.invalid "reclaim cursor beyond the head segment")
  | _ :: _, _ => .ok ()

def validate (root : ReclaimRoot) (blockSize : Nat) : Except FormatError Unit := do
  root.caps.validate blockSize
  refuseIf (root.tableRefs.length > root.caps.tableRefs ∨
      root.segmentRefs.length > root.caps.segmentRefs ∨
      root.inlineEntries.length > root.caps.inlineEntries)
    (.invalid "reclaim root area count exceeds capacity")
  refuseIf (∃ table ∈ root.tableRefs, table.count = 0 ∨ table.count > tableRefCap)
    (.invalid "reclaim table ref count out of range")
  refuseIf (∃ segment ∈ root.segmentRefs, segment.count = 0 ∨ segment.count > segmentEntryCap)
    (.invalid "reclaim segment ref count out of range")
  root.validateCursor
  refuseIf (root.appendedBlocksTotal < root.reclaimedBlocksTotal)
    (.invalid "reclaimed more blocks than appended")
  refuseIf (root.appendedBlocksTotal - root.reclaimedBlocksTotal ≠ root.pendingBlocks)
    (.invalid "reclaim totals do not match pending count")

def encodeRefs (refs : List SealedRef) : Bytes :=
  refs.flatMap fun ref => leBytes 8 ref.lba ++ leBytes 4 ref.count

def encodeEntries (entries : List ReclaimEntry) : Bytes :=
  entries.flatMap fun entry =>
    leBytes 8 entry.start ++ leBytes 4 entry.blocks ++ leBytes 8 entry.retireGeneration

/-- An area of fixed size, its unused slots zero. -/
def area (size : Nat) (used : Bytes) : Bytes := used ++ List.replicate (size - used.length) 0

def payload (root : ReclaimRoot) : Bytes :=
  leBytes 4 1 ++ leBytes 4 0 ++ leBytes 8 root.pendingBlocks ++ leBytes 8 root.appendedBlocksTotal ++
    leBytes 8 root.reclaimedBlocksTotal ++ leBytes 4 root.headSegmentOffset ++
    leBytes 4 root.headEntryOffset ++ leBytes 4 root.headBlockOffset ++
    leBytes 2 root.caps.inlineEntries ++ leBytes 2 root.caps.segmentRefs ++
    leBytes 2 root.caps.tableRefs ++ leBytes 2 0 ++ leBytes 4 root.tableRefs.length ++
    leBytes 4 root.segmentRefs.length ++ leBytes 4 root.inlineEntries.length ++
    area (root.caps.tableRefs * refWireSize) (encodeRefs root.tableRefs) ++
    area (root.caps.segmentRefs * refWireSize) (encodeRefs root.segmentRefs) ++
    area (root.caps.inlineEntries * entryWireSize) (encodeEntries root.inlineEntries)

def header (root : ReclaimRoot) (generation : Nat) : BlockHeader :=
  ⟨reclaimRoot, 0, 0, generation, root.caps.rootPayloadLen⟩

def encode (root : ReclaimRoot) (blockSize generation : Nat) : Except FormatError Bytes := do
  root.validate blockSize
  pure ((root.header generation).sealPayload blockSize root.payload)

/-- The refs at the front of an area and its unused rest. -/
def readRefs : Nat → Bytes → List SealedRef × Bytes
  | 0, p => ([], p)
  | count + 1, p =>
    let (lba, p) := readLe 8 p
    let (refCount, p) := readLe 4 p
    let (rest, p) := readRefs count p
    (⟨lba, refCount⟩ :: rest, p)

def readEntries : Nat → Bytes → Except FormatError (List ReclaimEntry × Bytes)
  | 0, p => .ok ([], p)
  | count + 1, p => do
    let (start, p) := readLe 8 p
    let (blocks, p) := readLe 4 p
    let (retireGeneration, p) := readLe 8 p
    let entry : ReclaimEntry := ⟨start, blocks, retireGeneration⟩
    entry.validate
    let (rest, p) ← readEntries count p
    pure (entry :: rest, p)

def decode (block : Bytes) : Except FormatError (ReclaimRoot × Nat) := do
  let header ← verify block reclaimRoot
  refuseIf (header.flags ≠ 0 ∨ header.owner ≠ 0)
    (.invalid "reclaim block header flags or owner are nonzero")
  let p := header.payload block
  let length := p.length
  refuseIf (length < reclaimRootFixed) (.invalid "reclaim root payload too short")
  let (version, p) := readLe 4 p
  refuseIf (version ≠ 1) (.invalid "unsupported reclaim root version")
  let (reserved, p) := readLe 4 p
  let (pendingBlocks, p) := readLe 8 p
  let (appendedBlocksTotal, p) := readLe 8 p
  let (reclaimedBlocksTotal, p) := readLe 8 p
  let (headSegmentOffset, p) := readLe 4 p
  let (headEntryOffset, p) := readLe 4 p
  let (headBlockOffset, p) := readLe 4 p
  let (inlineCap, p) := readLe 2 p
  let (segmentCap, p) := readLe 2 p
  let (tableCap, p) := readLe 2 p
  let (reserved', p) := readLe 2 p
  refuseIf (reserved ≠ 0 ∨ reserved' ≠ 0) (.invalid "reclaim root reserved bytes")
  let caps : ReclaimCaps := ⟨inlineCap, segmentCap, tableCap⟩
  caps.validate block.length
  refuseIf (length ≠ caps.rootPayloadLen) (.invalid "reclaim root payload length is not exact")
  let (tableCount, p) := readLe 4 p
  let (segmentCount, p) := readLe 4 p
  let (inlineCount, p) := readLe 4 p
  refuseIf (tableCount > tableCap ∨ segmentCount > segmentCap ∨ inlineCount > inlineCap)
    (.invalid "reclaim root area count exceeds capacity")
  let (tableArea, p) := readBytes (tableCap * refWireSize) p
  let (segmentArea, p) := readBytes (segmentCap * refWireSize) p
  let (tableRefs, tableUnused) := readRefs tableCount tableArea
  let (segmentRefs, segmentUnused) := readRefs segmentCount segmentArea
  let (inlineEntries, inlineUnused) ← readEntries inlineCount p
  refuseIf ((tableUnused ++ segmentUnused ++ inlineUnused).any (· != 0))
    (.invalid "reclaim root unused area slots are nonzero")
  let root : ReclaimRoot :=
    ⟨pendingBlocks, appendedBlocksTotal, reclaimedBlocksTotal, headSegmentOffset, headEntryOffset,
      headBlockOffset, caps, tableRefs, segmentRefs, inlineEntries⟩
  root.validate block.length
  pure (root, header.generation)

/-! ### Round trip -/

/-- The field values of a root fit their widths, whatever its runs are. -/
structure FitsWidths (root : ReclaimRoot) : Prop where
  pendingBlocks : root.pendingBlocks < 256 ^ 8
  appendedBlocksTotal : root.appendedBlocksTotal < 256 ^ 8
  reclaimedBlocksTotal : root.reclaimedBlocksTotal < 256 ^ 8
  headSegmentOffset : root.headSegmentOffset < 256 ^ 4
  headEntryOffset : root.headEntryOffset < 256 ^ 4
  headBlockOffset : root.headBlockOffset < 256 ^ 4
  inlineCap : root.caps.inlineEntries < 256 ^ 2
  segmentCap : root.caps.segmentRefs < 256 ^ 2
  tableCap : root.caps.tableRefs < 256 ^ 2
  refs : ∀ ref ∈ root.tableRefs ++ root.segmentRefs, ref.lba < 256 ^ 8 ∧ ref.count < 256 ^ 4
  entries : ∀ entry ∈ root.inlineEntries, entry.start < 256 ^ 8 ∧ entry.blocks < 256 ^ 4 ∧
    entry.retireGeneration < 256 ^ 8

structure InRange (root : ReclaimRoot) : Prop extends FitsWidths root where
  runs : ∀ entry ∈ root.inlineEntries, entry.validate = .ok ()

theorem length_encodeRefs (refs : List SealedRef) : (encodeRefs refs).length = refs.length * refWireSize := by
  rw [encodeRefs, length_flatMap]
  simp [length_leBytes, refWireSize]

theorem length_encodeEntries (entries : List ReclaimEntry) :
    (encodeEntries entries).length = entries.length * entryWireSize := by
  rw [encodeEntries, length_flatMap]
  simp [length_leBytes, entryWireSize]

theorem length_area {size : Nat} {used : Bytes} (h : used.length ≤ size) : (area size used).length = size := by
  rw [area, length_append, length_replicate]
  omega

theorem readRefs_append {refs : List SealedRef}
    (hrng : ∀ ref ∈ refs, ref.lba < 256 ^ 8 ∧ ref.count < 256 ^ 4) (rest : Bytes) :
    readRefs refs.length (encodeRefs refs ++ rest) = (refs, rest) := by
  induction refs with
  | nil => rfl
  | cons ref tail ih =>
    obtain ⟨hlba, hcnt⟩ := hrng ref (by simp)
    have htail := ih fun x hx => hrng x (by simp [hx])
    have hcons : encodeRefs (ref :: tail) ++ rest
        = leBytes 8 ref.lba ++ (leBytes 4 ref.count ++ (encodeRefs tail ++ rest)) := by
      simp [encodeRefs]
    rw [hcons, length_cons, readRefs]
    simp only [readLe_append hlba, readLe_append hcnt, htail]

variable {entries : List ReclaimEntry}

theorem readEntries_append (hrng : ∀ entry ∈ entries, entry.start < 256 ^ 8 ∧ entry.blocks < 256 ^ 4 ∧
      entry.retireGeneration < 256 ^ 8 ∧ entry.validate = .ok ()) (rest : Bytes) :
    readEntries entries.length (encodeEntries entries ++ rest) = .ok (entries, rest) := by
  induction entries with
  | nil => rfl
  | cons entry tail ih =>
    obtain ⟨hstart, hblks, hgen, hval⟩ := hrng entry (by simp)
    have htail := ih fun x hx => hrng x (by simp [hx])
    have hcons : encodeEntries (entry :: tail) ++ rest = leBytes 8 entry.start ++
        (leBytes 4 entry.blocks ++ (leBytes 8 entry.retireGeneration ++
          (encodeEntries tail ++ rest))) := by
      simp [encodeEntries]
    rw [hcons, length_cons, readEntries]
    simp only [readLe_append hstart, readLe_append hblks, readLe_append hgen]
    rw [check_bind hval]
    exact bind_ok.mpr ⟨_, htail, rfl⟩

theorem readRefs_inRange (count : Nat) (p : Bytes) :
    ∀ ref ∈ (readRefs count p).1, ref.lba < 256 ^ 8 ∧ ref.count < 256 ^ 4 := by
  induction count generalizing p with
  | zero => simp [readRefs]
  | succ count ih =>
    intro ref hmem
    rw [readRefs] at hmem
    rcases mem_cons.mp hmem with rfl | htail
    · exact ⟨readLe_lt _ _, readLe_lt _ _⟩
    · exact ih _ ref htail

theorem length_readRefs (count : Nat) (p : Bytes) : (readRefs count p).1.length = count := by
  induction count generalizing p with
  | zero => rfl
  | succ count ih => rw [readRefs, length_cons, ih]

variable {count : Nat} {p rest : Bytes}

theorem readEntries_inRange (h : readEntries count p = .ok (entries, rest)) :
    ∀ entry ∈ entries, entry.start < 256 ^ 8 ∧ entry.blocks < 256 ^ 4 ∧
      entry.retireGeneration < 256 ^ 8 ∧ entry.validate = .ok () := by
  induction count generalizing p entries rest with
  | zero =>
    cases h
    simp
  | succ count ih =>
    obtain ⟨hval, h⟩ := check_ok.mp h
    obtain ⟨⟨tail, rest'⟩, htail, h⟩ := of_bind h
    cases h
    intro entry hmem
    rcases mem_cons.mp hmem with rfl | hmem
    · exact ⟨readLe_lt _ _, readLe_lt _ _, readLe_lt _ _, hval⟩
    · exact ih htail entry hmem

theorem readEntries_length (h : readEntries count p = .ok (entries, rest)) : entries.length = count := by
  induction count generalizing p entries rest with
  | zero =>
    cases h
    rfl
  | succ count ih =>
    replace h := after_check h
    obtain ⟨⟨tail, rest'⟩, htail, h⟩ := of_bind h
    cases h
    rw [length_cons, ih htail]

/-- The areas hold what the counts say. -/
structure Fits (root : ReclaimRoot) (blockSize : Nat) : Prop where
  caps : root.caps.validate blockSize = .ok ()
  tables : root.tableRefs.length ≤ root.caps.tableRefs
  segments : root.segmentRefs.length ≤ root.caps.segmentRefs
  entries : root.inlineEntries.length ≤ root.caps.inlineEntries

variable {root : ReclaimRoot} {blockSize : Nat}

theorem fits_of_validate (h : root.validate blockSize = .ok ()) : root.Fits blockSize := by
  obtain ⟨hcaps, h⟩ := check_ok.mp h
  obtain ⟨hcnts, -⟩ := of_refuse h
  simp only [not_or, not_lt] at hcnts
  exact ⟨hcaps, hcnts.1, hcnts.2.1, hcnts.2.2⟩

theorem length_areas (hfits : root.Fits blockSize) :
    (area (root.caps.tableRefs * refWireSize) (encodeRefs root.tableRefs)).length
        = root.caps.tableRefs * refWireSize ∧
      (area (root.caps.segmentRefs * refWireSize) (encodeRefs root.segmentRefs)).length
        = root.caps.segmentRefs * refWireSize ∧
      (area (root.caps.inlineEntries * entryWireSize) (encodeEntries root.inlineEntries)).length
        = root.caps.inlineEntries * entryWireSize := by
  refine ⟨length_area ?_, length_area ?_, length_area ?_⟩
  · rw [length_encodeRefs]
    exact Nat.mul_le_mul_right _ hfits.tables
  · rw [length_encodeRefs]
    exact Nat.mul_le_mul_right _ hfits.segments
  · rw [length_encodeEntries]
    exact Nat.mul_le_mul_right _ hfits.entries

theorem length_payload (hfits : root.Fits blockSize) : root.payload.length = root.caps.rootPayloadLen := by
  obtain ⟨htabs, hsegs, hents⟩ := length_areas hfits
  unfold payload
  simp only [length_append, length_leBytes, htabs, hsegs, hents]
  rw [rootPayloadLen, reclaimRootFixed]

/-- Two-byte capacities cannot overflow the four-byte payload length. -/
theorem rootPayloadLen_lt {caps : ReclaimCaps} (hinline : caps.inlineEntries < 256 ^ 2)
    (hseg : caps.segmentRefs < 256 ^ 2) (htable : caps.tableRefs < 256 ^ 2) : caps.rootPayloadLen < 256 ^ 4 := by
  rw [rootPayloadLen, reclaimRootFixed, refWireSize, entryWireSize]
  omega

variable {block : Bytes} {generation : Nat}

theorem decode_encode (hrng : root.InRange) {blockSize : Nat} (hgen : generation < 256 ^ 8)
    (henc : root.encode blockSize generation = .ok block) : decode block = .ok (root, generation) := by
  obtain ⟨hval, hblk⟩ := check_ok.mp henc
  rw [pure_ok] at hblk
  subst hblk
  have hfits := fits_of_validate hval
  have hlen := length_payload hfits
  obtain ⟨htabs, hsegs, -⟩ := length_areas hfits
  obtain ⟨hblockSize, hroom⟩ : headerSize ≤ blockSize ∧ root.caps.rootPayloadLen ≤ blockSize - headerSize := by
    obtain ⟨-, h⟩ := of_refuse hfits.caps
    simpa only [refuseIf_eq_ok, not_or, not_lt] using h
  have hblockLen : ((root.header generation).sealPayload blockSize root.payload).length
      = blockSize := length_sealPayload _ (by omega)
  have hhdr : (root.header generation).InRange :=
    inRange_mk (by decide) hgen (rootPayloadLen_lt hrng.inlineCap hrng.segmentCap hrng.tableCap)
  have htableCount : root.tableRefs.length < 256 ^ 4 :=
    lt_of_le_of_lt hfits.tables (lt_trans hrng.tableCap (by decide))
  have hsegmentCount : root.segmentRefs.length < 256 ^ 4 :=
    lt_of_le_of_lt hfits.segments (lt_trans hrng.segmentCap (by decide))
  have hentryCount : root.inlineEntries.length < 256 ^ 4 :=
    lt_of_le_of_lt hfits.entries (lt_trans hrng.inlineCap (by decide))
  unfold decode
  refine bind_ok.mpr ⟨_, verify_sealPayload hhdr hlen.symm _, ?_⟩
  rw [payload_sealPayload hlen.symm, refuseIf_bind (by simp [header]), hblockLen]
  dsimp only
  rw [hlen, refuseIf_bind (by rw [rootPayloadLen]; omega)]
  unfold payload
  have hfields := hrng.toFitsWidths
  cases hfields
  simp (disch := first | assumption | decide) only [append_assoc, readLe_append, readBytes_of_length]
  simp only [area, readRefs_append fun ref hmem => hrng.refs ref (mem_append_left _ hmem),
    readRefs_append fun ref hmem => hrng.refs ref (mem_append_right _ hmem)]
  rw [refuseIf_bind (by simp), refuseIf_bind (by simp), check_bind hfits.caps,
    refuseIf_bind (by simp), refuseIf_bind (by
      simp only [not_or, not_lt]
      exact ⟨hfits.tables, hfits.segments, hfits.entries⟩)]
  refine bind_ok.mpr ⟨_, readEntries_append (fun entry hmem => ?_) _, ?_⟩
  · obtain ⟨hstart, hblks, hretired⟩ := hrng.entries entry hmem
    exact ⟨hstart, hblks, hretired, hrng.runs entry hmem⟩
  · rw [refuseIf_bind (by simp)]
    exact check_ok.mpr ⟨hval, rfl⟩

-- The fields read so far stand in every later check: they are not to be looked into.
attribute [local irreducible] readLe readBytes readRefs in
theorem decode_eq_ok (h : decode block = .ok (root, generation)) :
    root.InRange ∧ root.validate block.length = .ok () := by
  obtain ⟨header, -, h⟩ := of_bind h
  iterate 7 replace h := after_check h
  obtain ⟨⟨entries, unused⟩, hents, h⟩ := of_bind h
  replace h := after_check h
  obtain ⟨hval, h⟩ := check_ok.mp h
  cases h
  have hentry := readEntries_inRange hents
  refine ⟨⟨⟨readLe_lt _ _, readLe_lt _ _, readLe_lt _ _, readLe_lt _ _, readLe_lt _ _, readLe_lt _ _, readLe_lt _ _,
    readLe_lt _ _, readLe_lt _ _, ?_, fun entry hmem => (hentry entry hmem).imp_right (And.imp_right And.left)⟩,
    fun entry hmem => (hentry entry hmem).2.2.2⟩, hval⟩
  intro ref hmem
  rcases mem_append.mp hmem with htable | hseg
  · exact readRefs_inRange _ _ ref htable
  · exact readRefs_inRange _ _ ref hseg

/-! ### Accepted roots -/

attribute [local irreducible] readLe in
theorem encodeRefs_readRefs {p : Bytes} (hlen : count * refWireSize ≤ p.length) :
    encodeRefs (readRefs count p).1 ++ (readRefs count p).2 = p := by
  induction count generalizing p with
  | zero => rfl
  | succ count ih =>
    rw [refWireSize] at hlen ih
    have htail := @ih (readLe 4 (readLe 8 p).2).2 (by simp only [length_readLe]; omega)
    rw [readRefs, encodeRefs, flatMap_cons, append_assoc, append_assoc, ← encodeRefs, htail,
      leBytes_readLe (by rw [length_readLe]; omega), leBytes_readLe (by omega)]

attribute [local irreducible] readLe in
theorem encodeEntries_readEntries
    (hlen : count * entryWireSize ≤ p.length) (h : readEntries count p = .ok (entries, rest)) :
    encodeEntries entries ++ rest = p := by
  induction count generalizing p entries with
  | zero =>
    cases h
    rfl
  | succ count ih =>
    rw [entryWireSize] at hlen ih
    replace h := after_check h
    obtain ⟨⟨tail, rest'⟩, htail, h⟩ := of_bind h
    cases h
    have hrest := ih (by simp only [length_readLe]; omega) htail
    rw [encodeEntries, flatMap_cons, ← encodeEntries, append_assoc, hrest]
    simp (disch := first | rfl | omega | simp only [length_readLe]; omega) only [append_assoc,
      leBytes_readLe_append]

theorem area_eq {size : Nat} {used unused bytes : Bytes} (hsplit : used ++ unused = bytes)
    (hlen : bytes.length = size) (hzero : ∀ b ∈ unused, b = 0) : area size used = bytes := by
  have hunused : unused = List.replicate (size - used.length) 0 := by
    rw [eq_replicate_iff]
    refine ⟨?_, hzero⟩
    rw [← hlen, ← hsplit, length_append]
    omega
  rw [area, ← hunused, hsplit]

theorem areas_eq {tableCap segmentCap inlineCap tableCount segmentCount inlineCount : Nat} {unused : Bytes}
    (hlen : p.length = tableCap * refWireSize + segmentCap * refWireSize + inlineCap * entryWireSize)
    (hcnts : tableCount ≤ tableCap ∧ segmentCount ≤ segmentCap ∧ inlineCount ≤ inlineCap)
    (hents : readEntries inlineCount (readBytes (segmentCap * refWireSize)
      (readBytes (tableCap * refWireSize) p).2).2 = .ok (entries, unused))
    (hunused : ¬((readRefs tableCount (readBytes (tableCap * refWireSize) p).1).2 ++
      (readRefs segmentCount (readBytes (segmentCap * refWireSize)
        (readBytes (tableCap * refWireSize) p).2).1).2 ++ unused).any (· != 0) = true) :
    area (tableCap * refWireSize) (encodeRefs (readRefs tableCount (readBytes (tableCap * refWireSize) p).1).1) ++
      (area (segmentCap * refWireSize) (encodeRefs (readRefs segmentCount
          (readBytes (segmentCap * refWireSize) (readBytes (tableCap * refWireSize) p).2).1).1) ++
        area (inlineCap * entryWireSize) (encodeEntries entries)) = p := by
  simp only [any_append, Bool.or_eq_true, not_or] at hunused
  obtain ⟨⟨htableUnused, hsegmentUnused⟩, hinlineUnused⟩ := hunused
  have htable : (readBytes (tableCap * refWireSize) p).1.length = tableCap * refWireSize := by
    rw [length_readBytes_fst]
    omega
  have hseg : (readBytes (segmentCap * refWireSize) (readBytes (tableCap * refWireSize) p).2).1.length =
      segmentCap * refWireSize := by
    rw [length_readBytes_fst, length_readBytes]
    omega
  have hinline : (readBytes (segmentCap * refWireSize) (readBytes (tableCap * refWireSize) p).2).2.length =
      inlineCap * entryWireSize := by
    rw [length_readBytes, length_readBytes]
    omega
  rw [area_eq (encodeRefs_readRefs ((Nat.mul_le_mul_right _ hcnts.1).trans_eq htable.symm)) htable (by simpa using htableUnused),
    area_eq (encodeRefs_readRefs ((Nat.mul_le_mul_right _ hcnts.2.1).trans_eq hseg.symm)) hseg (by simpa using hsegmentUnused),
    area_eq (encodeEntries_readEntries ((Nat.mul_le_mul_right _ hcnts.2.2).trans_eq hinline.symm) hents) hinline
      (by simpa using hinlineUnused), readBytes_fst_append, readBytes_fst_append]

attribute [local irreducible] readLe readBytes readRefs in
theorem encode_decode (hdec : decode block = .ok (root, generation)) :
    root.encode block.length generation = .ok block := by
  obtain ⟨header, hadm, h⟩ := admitted_of_bind hdec
  obtain ⟨hres, h⟩ := of_refuse h
  replace h := after_check h
  have hpay := hadm.length_payload
  have hsealed := hadm.sealed
  generalize header.payload block = p at hpay hsealed h
  obtain ⟨hver, h⟩ := of_refuse h
  obtain ⟨hzero, h⟩ := of_refuse h
  obtain ⟨hcaps, h⟩ := check_ok.mp h
  obtain ⟨hexact, h⟩ := of_refuse h
  obtain ⟨hcnts, h⟩ := of_refuse h
  obtain ⟨⟨inlineEntries, inlineUnused⟩, hents, h⟩ := of_bind h
  obtain ⟨hunused, h⟩ := of_refuse h
  obtain ⟨hval, h⟩ := check_ok.mp h
  obtain ⟨rfl, rfl⟩ := pure_pair_eq_ok.mp h
  simp only [not_or, not_lt, not_not, ne_eq] at hres hver hzero hexact hcnts
  refine check_ok.mpr ⟨hval, pure_ok.mpr ?_⟩
  rw [ReclaimRoot.header, ← hadm.eq_mk hres.1 hres.2 rfl (hpay.symm.trans hexact)]
  refine hsealed.trans (congrArg _ (Eq.symm ?_))
  dsimp only [rootPayloadLen, reclaimRootFixed] at hexact
  obtain ⟨hzero, hzero'⟩ := hzero
  have hareas := areas_eq (by simp only [length_readLe]; omega) hcnts hents hunused
  unfold payload
  simp (disch := first | rfl | assumption | omega | simp only [length_readLe]; omega) only [append_assoc,
    length_readRefs, readEntries_length hents, hareas, leBytes_readLe_append]

end ReclaimRoot

open ReclaimRoot

def sealedFixed : Nat := 8

structure ReclaimSegment where
  entries : List ReclaimEntry
  deriving DecidableEq, Repr

/-- Every entry passes its check, the first that does not ends the encoding. -/
def validateEntries : List ReclaimEntry → Except FormatError Unit
  | [] => .ok ()
  | entry :: rest => do
    entry.validate
    validateEntries rest

theorem validateEntries_eq_ok {entries : List ReclaimEntry} :
    validateEntries entries = .ok () ↔ ∀ entry ∈ entries, entry.validate = .ok () := by
  induction entries with
  | nil => simp [validateEntries]
  | cons entry rest ih => rw [validateEntries, check_ok, ih, forall_mem_cons]

variable {header : BlockHeader}

theorem length_items {block : Bytes} {blockType count size : Nat}
    (hadm : header.Admitted block blockType) (hexact : ¬header.payloadLen ≠ sealedFixed + count * size) :
    count * size = (readLe 4 (readLe 4 (header.payload block)).2).2.length := by
  rw [length_readLe, length_readLe, hadm.length_payload, not_not.mp hexact, sealedFixed]
  omega

attribute [local irreducible] readLe in
theorem sealed_of_items {block items unused : Bytes} {blockType count size : Nat}
    (hadm : header.Admitted block blockType) (hres : ¬(header.flags ≠ 0 ∨ header.owner ≠ 0))
    (hcnt : (readLe 4 (header.payload block)).1 = count)
    (hzero : ¬(readLe 4 (readLe 4 (header.payload block)).2).1 ≠ 0)
    (hexact : ¬header.payloadLen ≠ sealedFixed + count * size) (hlen : items.length = count * size)
    (hitems : items ++ unused = (readLe 4 (readLe 4 (header.payload block)).2).2) :
    block = sealPayload ⟨blockType, 0, 0, header.generation, sealedFixed + count * size⟩ block.length
      (leBytes 4 count ++ leBytes 4 0 ++ items) := by
  have hunused : unused = [] := by
    have hsum := congrArg List.length hitems
    rw [length_append, ← length_items hadm hexact] at hsum
    exact length_eq_zero_iff.mp (by omega)
  rw [hunused, append_nil] at hitems
  simp only [not_or, not_not, ne_eq] at hres hzero hexact
  have hpay := hadm.length_payload
  rw [hexact, sealedFixed] at hpay
  rw [← hadm.eq_mk hres.1 hres.2 rfl hexact]
  refine hadm.sealed.trans (congrArg _ (Eq.symm ?_))
  rw [append_assoc, hitems, leBytes_readLe_append (by rw [length_readLe]; omega) hzero,
    leBytes_readLe_append (by omega) hcnt]

namespace ReclaimSegment

def payloadLen (segment : ReclaimSegment) : Nat :=
  sealedFixed + segment.entries.length * entryWireSize

def encode (segment : ReclaimSegment) (blockSize generation : Nat) : Except FormatError Bytes := do
  refuseIf (segment.entries = [] ∨ segment.entries.length > segmentEntryCap)
    (.invalid "reclaim segment entry count out of range")
  refuseIf (segment.payloadLen > blockSize - headerSize)
    (.overflow "reclaim segment exceeds one block")
  validateEntries segment.entries
  let header : BlockHeader := ⟨reclaimSegment, 0, 0, generation, segment.payloadLen⟩
  pure (header.sealPayload blockSize
    (leBytes 4 segment.entries.length ++ leBytes 4 0 ++ ReclaimRoot.encodeEntries segment.entries))

def decode (block : Bytes) : Except FormatError (ReclaimSegment × Nat) := do
  let header ← verify block reclaimSegment
  refuseIf (header.flags ≠ 0 ∨ header.owner ≠ 0)
    (.invalid "reclaim block header flags or owner are nonzero")
  let p := header.payload block
  let length := p.length
  refuseIf (length < sealedFixed) (.invalid "reclaim segment payload too short")
  let (count, p) := readLe 4 p
  let (reserved, p) := readLe 4 p
  refuseIf (reserved ≠ 0) (.invalid "reclaim sealed block reserved bytes")
  refuseIf (count = 0 ∨ count > segmentEntryCap ∨ count > (length - sealedFixed) / entryWireSize)
    (.invalid "reclaim segment entry count out of range")
  refuseIf (header.payloadLen ≠ sealedFixed + count * entryWireSize)
    (.invalid "reclaim segment payload length mismatch")
  let (entries, _) ← ReclaimRoot.readEntries count p
  pure (⟨entries⟩, header.generation)

variable {segment : ReclaimSegment}

theorem payloadLen_lt (hcap : segment.entries.length ≤ segmentEntryCap) : segment.payloadLen < 256 ^ 4 := by
  rw [segmentEntryCap] at hcap
  rw [payloadLen, sealedFixed, entryWireSize]
  omega

variable {block : Bytes} {generation : Nat}

theorem decode_encode (hrng : ∀ entry ∈ segment.entries, entry.start < 256 ^ 8 ∧ entry.blocks < 256 ^ 4 ∧
      entry.retireGeneration < 256 ^ 8) {blockSize : Nat} (hgen : generation < 256 ^ 8)
    (henc : segment.encode blockSize generation = .ok block) : decode block = .ok (segment, generation) := by
  obtain ⟨hcnt, henc⟩ := of_refuse henc
  replace henc := after_check henc
  obtain ⟨hval, henc⟩ := check_ok.mp henc
  cases henc
  rw [not_or, not_lt] at hcnt
  have hlen : (leBytes 4 segment.entries.length ++ leBytes 4 0 ++
      ReclaimRoot.encodeEntries segment.entries).length = segment.payloadLen := by
    simp only [length_append, length_leBytes, length_encodeEntries, payloadLen, sealedFixed]
  have hnonempty : 0 < segment.entries.length := length_pos_iff.mpr hcnt.1
  have hcap : segment.entries.length < 256 ^ 4 := lt_of_le_of_lt hcnt.2 (by decide)
  have hhdr : InRange ⟨reclaimSegment, 0, 0, generation, segment.payloadLen⟩ :=
    inRange_mk (by decide) hgen (payloadLen_lt hcnt.2)
  have hents := readEntries_append
    (fun entry hmem => ⟨(hrng entry hmem).1, (hrng entry hmem).2.1, (hrng entry hmem).2.2,
      validateEntries_eq_ok.mp hval entry hmem⟩) []
  rw [append_nil] at hents
  unfold decode
  refine bind_ok.mpr ⟨_, verify_sealPayload hhdr hlen.symm _, ?_⟩
  rw [payload_sealPayload hlen.symm, refuseIf_bind (by simp)]
  dsimp only
  rw [hlen, refuseIf_bind (by rw [payloadLen]; omega)]
  simp (disch := first | assumption | decide) only [append_assoc, readLe_append]
  rw [refuseIf_bind (by simp), refuseIf_bind, refuseIf_bind (by simp [payloadLen])]
  · exact bind_ok.mpr ⟨_, hents, rfl⟩
  · simp only [not_or, not_lt, payloadLen, Nat.add_sub_cancel_left]
    exact ⟨by omega, hcnt.2, by rw [Nat.mul_div_cancel _ (by decide)]⟩

theorem decode_eq_ok (h : decode block = .ok (segment, generation)) :
    segment.entries ≠ [] ∧ segment.entries.length ≤ segmentEntryCap ∧
      ∀ entry ∈ segment.entries, entry.start < 256 ^ 8 ∧ entry.blocks < 256 ^ 4 ∧
        entry.retireGeneration < 256 ^ 8 ∧ entry.validate = .ok () := by
  obtain ⟨header, -, h⟩ := of_bind h
  iterate 3 replace h := after_check h
  obtain ⟨hcnt, h⟩ := of_refuse h
  replace h := after_check h
  obtain ⟨⟨entries, unused⟩, hents, h⟩ := of_bind h
  cases h
  rw [not_or, not_or, not_lt] at hcnt
  have hlen := readEntries_length hents
  refine ⟨?_, hlen.trans_le hcnt.2.1, readEntries_inRange hents⟩
  rintro rfl
  exact hcnt.1 hlen.symm

attribute [local irreducible] readLe in
theorem encode_decode (hdec : decode block = .ok (segment, generation)) :
    segment.encode block.length generation = .ok block := by
  obtain ⟨hnonempty, hcap, hentriesOk⟩ := decode_eq_ok hdec
  obtain ⟨header, hadm, h⟩ := admitted_of_bind hdec
  obtain ⟨hres, h⟩ := of_refuse h
  replace h := after_check h
  obtain ⟨hzero, h⟩ := of_refuse h
  obtain ⟨hcnt, h⟩ := of_refuse h
  obtain ⟨hexact, h⟩ := of_refuse h
  obtain ⟨⟨entries, unused⟩, hents, h⟩ := of_bind h
  obtain ⟨rfl, rfl⟩ := pure_pair_eq_ok.mp h
  have hlen := readEntries_length hents
  have hsplit := encodeEntries_readEntries (length_items hadm hexact).le hents
  have hsealed := sealed_of_items hadm hres hlen.symm hzero (hlen ▸ hexact) (length_encodeEntries entries) hsplit
  have hroom := hadm.room
  show encode ⟨entries⟩ _ _ = _
  unfold encode
  rw [refuseIf_bind (by rw [not_or, not_lt]; exact ⟨hnonempty, hcap⟩),
    refuseIf_bind (by rw [payloadLen, hlen, ← not_not.mp hexact]; omega),
    check_bind (validateEntries_eq_ok.mpr fun entry hmem => (hentriesOk entry hmem).2.2.2)]
  exact pure_ok.mpr hsealed

end ReclaimSegment

structure ReclaimTable where
  refs : List SealedRef
  deriving DecidableEq, Repr

namespace ReclaimTable

def payloadLen (table : ReclaimTable) : Nat := sealedFixed + table.refs.length * refWireSize

def encode (table : ReclaimTable) (blockSize generation : Nat) : Except FormatError Bytes := do
  refuseIf (table.refs = [] ∨ table.refs.length > tableRefCap)
    (.invalid "reclaim table ref count out of range")
  refuseIf (table.payloadLen > blockSize - headerSize) (.overflow "reclaim table exceeds one block")
  refuseIf (∃ segment ∈ table.refs, segment.count = 0 ∨ segment.count > segmentEntryCap)
    (.invalid "reclaim table segment count out of range")
  let header : BlockHeader := ⟨reclaimTable, 0, 0, generation, table.payloadLen⟩
  pure (header.sealPayload blockSize
    (leBytes 4 table.refs.length ++ leBytes 4 0 ++ ReclaimRoot.encodeRefs table.refs))

def decode (block : Bytes) : Except FormatError (ReclaimTable × Nat) := do
  let header ← verify block reclaimTable
  refuseIf (header.flags ≠ 0 ∨ header.owner ≠ 0)
    (.invalid "reclaim block header flags or owner are nonzero")
  let p := header.payload block
  let length := p.length
  refuseIf (length < sealedFixed) (.invalid "reclaim table payload too short")
  let (count, p) := readLe 4 p
  let (reserved, p) := readLe 4 p
  refuseIf (reserved ≠ 0) (.invalid "reclaim sealed block reserved bytes")
  refuseIf (count = 0 ∨ count > tableRefCap ∨ count > (length - sealedFixed) / refWireSize)
    (.invalid "reclaim table ref count out of range")
  refuseIf (header.payloadLen ≠ sealedFixed + count * refWireSize)
    (.invalid "reclaim table payload length mismatch")
  let (refs, _) := ReclaimRoot.readRefs count p
  refuseIf (∃ segment ∈ refs, segment.count = 0 ∨ segment.count > segmentEntryCap)
    (.invalid "reclaim table segment count out of range")
  pure (⟨refs⟩, header.generation)

variable {table : ReclaimTable}

theorem payloadLen_lt (hcap : table.refs.length ≤ tableRefCap) : table.payloadLen < 256 ^ 4 := by
  rw [tableRefCap] at hcap
  rw [payloadLen, sealedFixed, refWireSize]
  omega

variable {block : Bytes} {generation : Nat}

theorem decode_encode (hrng : ∀ ref ∈ table.refs, ref.lba < 256 ^ 8) {blockSize : Nat}
    (hgen : generation < 256 ^ 8) (henc : table.encode blockSize generation = .ok block) :
    decode block = .ok (table, generation) := by
  obtain ⟨hcnt, henc⟩ := of_refuse henc
  replace henc := after_check henc
  obtain ⟨hsegs, henc⟩ := of_refuse henc
  cases henc
  rw [not_or, not_lt] at hcnt
  have hlen : (leBytes 4 table.refs.length ++ leBytes 4 0 ++
      ReclaimRoot.encodeRefs table.refs).length = table.payloadLen := by
    simp only [length_append, length_leBytes, length_encodeRefs, payloadLen, sealedFixed]
  have hnonempty : 0 < table.refs.length := length_pos_iff.mpr hcnt.1
  have hcap : table.refs.length < 256 ^ 4 := lt_of_le_of_lt hcnt.2 (by decide)
  have hhdr : InRange ⟨reclaimTable, 0, 0, generation, table.payloadLen⟩ :=
    inRange_mk (by decide) hgen (payloadLen_lt hcnt.2)
  have hcnts : ∀ ref ∈ table.refs, ref.count < 256 ^ 4 := by
    intro ref hmem
    have hle : ref.count ≤ segmentEntryCap := by
      by_contra hbig
      exact hsegs ⟨ref, hmem, .inr (not_le.mp hbig)⟩
    exact lt_of_le_of_lt hle (by decide)
  have hrefs := readRefs_append (fun ref hmem => ⟨hrng ref hmem, hcnts ref hmem⟩) []
  rw [append_nil] at hrefs
  unfold decode
  refine bind_ok.mpr ⟨_, verify_sealPayload hhdr hlen.symm _, ?_⟩
  rw [payload_sealPayload hlen.symm, refuseIf_bind (by simp)]
  dsimp only
  rw [hlen, refuseIf_bind (by rw [payloadLen]; omega)]
  simp (disch := first | assumption | decide) only [append_assoc, readLe_append, hrefs]
  rw [refuseIf_bind (by simp), refuseIf_bind, refuseIf_bind (by simp [payloadLen])]
  · rw [refuseIf_bind hsegs]
    rfl
  · simp only [not_or, not_lt, payloadLen, Nat.add_sub_cancel_left]
    exact ⟨by omega, hcnt.2, by rw [Nat.mul_div_cancel _ (by decide)]⟩

theorem decode_eq_ok (h : decode block = .ok (table, generation)) :
    table.refs ≠ [] ∧ table.refs.length ≤ tableRefCap ∧ ∀ ref ∈ table.refs, ref.lba < 256 ^ 8 := by
  obtain ⟨header, -, h⟩ := of_bind h
  iterate 3 replace h := after_check h
  obtain ⟨hcnt, h⟩ := of_refuse h
  replace h := after_check h
  replace h := after_check h
  cases h
  rw [not_or, not_or, not_lt] at hcnt
  refine ⟨fun hnil => ?_, ?_, fun ref hmem => (readRefs_inRange _ _ ref hmem).1⟩
  · have hlen := congrArg List.length hnil
    rw [length_readRefs] at hlen
    exact hcnt.1 hlen
  · rw [length_readRefs]
    exact hcnt.2.1

attribute [local irreducible] readLe ReclaimRoot.readRefs in
theorem encode_decode (hdec : decode block = .ok (table, generation)) :
    table.encode block.length generation = .ok block := by
  have hnonempty := (decode_eq_ok hdec).1
  obtain ⟨header, hadm, h⟩ := admitted_of_bind hdec
  obtain ⟨hres, h⟩ := of_refuse h
  replace h := after_check h
  obtain ⟨hzero, h⟩ := of_refuse h
  obtain ⟨hcnt, h⟩ := of_refuse h
  obtain ⟨hexact, h⟩ := of_refuse h
  obtain ⟨hsegs, h⟩ := of_refuse h
  obtain ⟨rfl, rfl⟩ := pure_pair_eq_ok.mp h
  have hlen := length_readRefs (readLe 4 (header.payload block)).1 (readLe 4 (readLe 4 (header.payload block)).2).2
  have hsplit := encodeRefs_readRefs (length_items hadm hexact).le
  have hsealed := sealed_of_items hadm hres hlen.symm hzero (hlen.symm ▸ hexact) (length_encodeRefs _) hsplit
  have hroom := hadm.room
  unfold encode
  rw [refuseIf_bind (by rw [not_or, not_lt, hlen]; exact ⟨hnonempty, not_lt.mp (not_or.mp (not_or.mp hcnt).2).1⟩),
    refuseIf_bind (by rw [payloadLen, hlen, ← not_not.mp hexact]; omega), refuseIf_bind hsegs]
  exact pure_ok.mpr hsealed

end ReclaimTable

/-! ### The three codecs -/

/-- Segments, tables and accepted roots are reproduced exactly. A root's encoder does not look at its
inline runs as the decoder does, so a root can be read back exactly if all of them are valid. -/
theorem reclaim_codecs_exact_iff (block : Bytes) (generation : Nat) :
    (∀ (root : ReclaimRoot) (blockSize : Nat), root.FitsWidths →
      generation < 256 ^ 8 → root.encode blockSize generation = .ok block →
      (ReclaimRoot.decode block = .ok (root, generation) ↔ ∀ entry ∈ root.inlineEntries, entry.validate = .ok ())) ∧
    (∀ root : ReclaimRoot, ReclaimRoot.decode block = .ok (root, generation) →
      root.encode block.length generation = .ok block) ∧ (∀ (segment : ReclaimSegment) (blockSize : Nat),
      (∀ entry ∈ segment.entries, entry.start < 256 ^ 8 ∧ entry.blocks < 256 ^ 4 ∧ entry.retireGeneration < 256 ^ 8) →
      generation < 256 ^ 8 → segment.encode blockSize generation = .ok block →
      ReclaimSegment.decode block = .ok (segment, generation)) ∧
    (∀ segment : ReclaimSegment, ReclaimSegment.decode block = .ok (segment, generation) →
      segment.encode block.length generation = .ok block) ∧ (∀ (table : ReclaimTable) (blockSize : Nat),
      (∀ ref ∈ table.refs, ref.lba < 256 ^ 8) → generation < 256 ^ 8 →
      table.encode blockSize generation = .ok block → ReclaimTable.decode block = .ok (table, generation)) ∧
    ∀ table : ReclaimTable, ReclaimTable.decode block = .ok (table, generation) →
      table.encode block.length generation = .ok block := by
  refine ⟨?_, fun root => ReclaimRoot.encode_decode, ?_, fun segment => ReclaimSegment.encode_decode, ?_,
    fun table => ReclaimTable.encode_decode⟩
  · intro root blockSize hfits hgeneration hencode
    constructor
    · intro hdecode entry hmem
      exact (ReclaimRoot.decode_eq_ok hdecode).1.runs entry hmem
    · intro hruns
      exact ReclaimRoot.decode_encode ⟨hfits, hruns⟩ hgeneration hencode
  · intro segment blockSize hrange hgeneration hencode
    exact ReclaimSegment.decode_encode hrange hgeneration hencode
  · intro table blockSize hrange hgeneration hencode
    exact ReclaimTable.decode_encode hrange hgeneration hencode

namespace ReclaimRoot

/-- A queue of one inline run. -/
def ofRun (entry : ReclaimEntry) : ReclaimRoot :=
  ⟨0, 0, 0, 0, 0, 0, ⟨1, 1, 1⟩, [], [], [entry]⟩

theorem ofRun_encode (entry : ReclaimEntry) : (ofRun entry).encode 4096 1 =
    .ok (((ofRun entry).header 1).sealPayload 4096 (ofRun entry).payload) :=
  check_ok.mpr ⟨rfl, rfl⟩

end ReclaimRoot

open ReclaimRoot

theorem reclaim_codecs_exact_iff_sample :
    ∃ block, (ofRun ⟨40, 2, 1⟩).encode 4096 1 = .ok block ∧
      decode block = .ok (ofRun ⟨40, 2, 1⟩, 1) ∧
      (ofRun ⟨40, 2, 1⟩).encode block.length 1 = .ok block := by
  have hfits : (ofRun ⟨40, 2, 1⟩).FitsWidths :=
    by constructor <;> decide
  obtain ⟨hwritten, hread, -⟩ := reclaim_codecs_exact_iff
    (((ofRun ⟨40, 2, 1⟩).header 1).sealPayload 4096 (ofRun ⟨40, 2, 1⟩).payload) 1
  have hdecode := (hwritten _ 4096 hfits (by decide) (ofRun_encode _)).mpr (by decide)
  exact ⟨_, ofRun_encode _, hdecode, hread _ hdecode⟩

/-- An empty run is written into a root that cannot be read back. -/
theorem reclaim_root_unreadable :
    ∃ root block, root.FitsWidths ∧ root.encode 4096 1 = .ok block ∧ decode block ≠ .ok (root, 1) := by
  refine ⟨ofRun ⟨40, 0, 1⟩, _, ?_, ofRun_encode _, ?_⟩
  · constructor <;> decide
  · intro hdecode
    have hvalid := (decode_eq_ok hdecode).1.runs ⟨40, 0, 1⟩ (by decide)
    exact absurd hvalid (by decide)

end Afsplus
