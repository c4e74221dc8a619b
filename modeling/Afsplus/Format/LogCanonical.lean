import Afsplus.Format.IntentLog

/-!
# Canonical intent-log blocks

The five operations share one entry layout, and no operation uses all of it. The encoder leaves what an
operation does not use at zero; the decoder does not look at it. A `RawEntry` is an entry with all its
fields, as any accepted block has them: what it decodes to, and when writing that gives the same bytes.
-/

namespace Afsplus

open Wire Fallible BlockHeader OpEntry LogOp
open List hiding set

/-- An entry with the fields no operation reads. -/
@[ext] structure RawEntry where
  opType : Nat
  replace : Nat
  sourceName : Bytes
  targetName : Bytes
  extents : List LogExtent
  parentId : Nat
  target : Nat
  expected : Nat
  size : Nat
  contentCrc : Nat
  reserved : Nat
  timestamp : Timespec
  padding : Nat
  deriving DecidableEq

namespace RawEntry

def encode (e : RawEntry) : Bytes :=
  leBytes 1 e.opType ++ leBytes 1 e.replace ++ leBytes 2 e.sourceName.length ++
    leBytes 2 e.targetName.length ++ leBytes 2 e.extents.length ++ leBytes 8 e.parentId ++
    leBytes 8 e.target ++ leBytes 8 e.expected ++ leBytes 8 e.size ++ leBytes 4 e.contentCrc ++
    leBytes 4 e.reserved ++ e.timestamp.write ++ leBytes 4 e.padding ++ encodeExtents e.extents ++
    e.sourceName ++ e.targetName

def op (e : RawEntry) : LogOp :=
  toOp ⟨e.opType, e.replace != 0, e.sourceName, e.targetName, e.extents, e.parentId, e.target,
    e.expected, e.size, e.contentCrc, e.timestamp⟩

def len (e : RawEntry) : Nat :=
  opFixed + e.extents.length * extentWire + e.sourceName.length + e.targetName.length

structure InRange (e : RawEntry) : Prop where
  opType : e.opType < 256 ^ 1
  replace : e.replace < 256 ^ 1
  sourceName : e.sourceName.length < 256 ^ 2
  targetName : e.targetName.length < 256 ^ 2
  extentCount : e.extents.length ≤ maxLogExtents
  parentId : e.parentId < 256 ^ 8
  target : e.target < 256 ^ 8
  expected : e.expected < 256 ^ 8
  size : e.size < 256 ^ 8
  contentCrc : e.contentCrc < 256 ^ 4
  reserved : e.reserved < 256 ^ 4
  timestamp : e.timestamp.InRange
  padding : e.padding < 256 ^ 4
  extents : ∀ extent ∈ e.extents, extent.1 < 256 ^ 8 ∧ extent.2 < 256 ^ 4

/-- The types, each with the parts its entries may have. -/
inductive Shape (version : Nat) (e : RawEntry) : Prop where
  | create (htype : e.opType = 1) (htarget : e.targetName = [])
  | delete (htype : e.opType = 2) (htarget : e.targetName = []) (hexts : e.extents = [])
  | rename (htype : e.opType = 3) (hexts : e.extents = [])
  | update (htype : e.opType = 4 ∨ e.opType = 5) (hver : version = 3) (hsrc : e.sourceName = [])
      (htarget : e.targetName = [])

theorem length_encode (e : RawEntry) : e.encode.length = e.len := by
  simp only [encode, length_append, length_leBytes, length_timespecWrite, length_encodeExtents, len, opFixed]

variable {version : Nat} {e : RawEntry}

theorem variableLen_of_shape (hshape : e.Shape version) :
    variableLen version e.opType e.sourceName.length e.targetName.length e.extents.length =
      some (e.len - opFixed) := by
  cases hshape with
  | create htype htarget =>
    simp [variableLen, htype, htarget, len]
    omega
  | delete htype htarget hexts => simp [variableLen, htype, htarget, hexts, len]
  | rename htype hexts =>
    simp [variableLen, htype, hexts, len]
    omega
  | update htype hver hsrc htarget =>
    rcases htype with htype | htype <;> simp [variableLen, htype, hver, hsrc, htarget, len]

theorem shape_of_variableLen {version wanted : Nat}
    (h : variableLen version e.opType e.sourceName.length e.targetName.length e.extents.length =
      some wanted) : e.Shape version := by
  unfold variableLen at h
  split at h
  · rename_i hcase
    exact .create hcase.1 (length_eq_zero_iff.mp hcase.2)
  split at h
  · rename_i hcase
    exact .delete hcase.1 (length_eq_zero_iff.mp hcase.2.1) (length_eq_zero_iff.mp hcase.2.2)
  split at h
  · rename_i hcase
    exact .rename hcase.1 (length_eq_zero_iff.mp hcase.2)
  split at h
  · rename_i hcase
    exact .update hcase.1 hcase.2.1 (length_eq_zero_iff.mp hcase.2.2.1) (length_eq_zero_iff.mp hcase.2.2.2)
  · cases h

theorem decodeOp_encode (hrng : e.InRange) (hshape : e.Shape version)
    (hval : e.op.validate = .ok ()) (htime : e.timestamp.validate = .ok ()) (rest : Bytes) :
    decodeOp version (e.encode ++ rest) = .ok (e.op, rest) := by
  have hwire : (e.encode ++ rest).length = e.len + rest.length := by
    rw [length_append, length_encode]
  have hfixed : opFixed ≤ e.len := by
    rw [len]
    omega
  have hcnt : e.extents.length < 256 ^ 2 := by
    have hexts := hrng.extentCount
    rw [maxLogExtents] at hexts
    omega
  have hroom : ¬(e.encode ++ rest).length - opFixed < e.len - opFixed := by omega
  unfold decodeOp
  rw [refuseIf_bind (by omega)]
  generalize hlen : (e.encode ++ rest).length = length at hroom
  cases hrng
  simp (disch := assumption) only [encode, append_assoc, readLe_append,
    refuseIf_bind (show ¬e.extents.length > maxLogExtents from not_lt.mpr ‹_›), variableLen_of_shape hshape,
    readTimespec_append, readExtents_append, readBytes_append, refuseIf_bind hroom]
  refine bind_ok.mpr ⟨e.timestamp, rfl, ?_⟩
  exact check_ok.mpr ⟨hval, rfl⟩

attribute [local irreducible] readLe in
theorem encodeExtents_readExtents {count : Nat} {p : Bytes} (hlen : count * extentWire ≤ p.length) :
    encodeExtents (readExtents count p).1 ++ (readExtents count p).2 = p ∧ (readExtents count p).1.length = count ∧
      ∀ extent ∈ (readExtents count p).1, extent.1 < 256 ^ 8 ∧ extent.2 < 256 ^ 4 := by
  induction count generalizing p with
  | zero => simp [readExtents, encodeExtents]
  | succ count ih =>
    rw [extentWire] at hlen ih
    obtain ⟨hbytes, hcnt, hrng⟩ := @ih (readLe 4 (readLe 8 p).2).2 (by simp only [length_readLe]; omega)
    refine ⟨?_, congrArg (· + 1) hcnt, forall_mem_cons.mpr ⟨⟨readLe_lt .., readLe_lt ..⟩, hrng⟩⟩
    show encodeExtents (_ :: (readExtents count (readLe 4 (readLe 8 p).2).2).1) ++
      (readExtents count (readLe 4 (readLe 8 p).2).2).2 = p
    rw [encodeExtents, flatMap_cons, append_assoc, ← encodeExtents, hbytes, append_assoc,
      leBytes_readLe (by rw [length_readLe]; omega), leBytes_readLe (by omega)]

theorem variableLen_eq {version opType sourceLen targetLen extentCount wanted : Nat}
    (h : variableLen version opType sourceLen targetLen extentCount = some wanted) :
    wanted = extentCount * extentWire + sourceLen + targetLen := by
  unfold variableLen at h
  split at h
  · cases h
    omega
  split at h
  · cases h
    rename_i hcase
    rw [hcase.2.1, hcase.2.2]
    omega
  split at h
  · cases h
    rename_i hcase
    rw [hcase.2]
    omega
  split at h
  · cases h
    omega
  · cases h

variable {op : LogOp}

attribute [local irreducible] readLe readBytes readTimespec readExtents in
theorem raw_of_decodeOp {p rest : Bytes} (h : decodeOp version p = .ok (op, rest)) :
    ∃ e : RawEntry, e.InRange ∧ e.Shape version ∧ e.op.validate = .ok () ∧ op = e.op ∧ p = e.encode ++ rest := by
  obtain ⟨hshort, h⟩ := of_refuse h
  obtain ⟨hfew, h⟩ := of_refuse h
  split at h
  · cases h
  rename_i wanted hvariable
  obtain ⟨hroom, h⟩ := of_refuse h
  obtain ⟨timestamp, htime, h⟩ := of_bind h
  obtain ⟨hval, h⟩ := check_ok.mp h
  obtain ⟨hop, rfl⟩ := pure_pair_eq_ok.mp h
  rw [not_lt, opFixed] at hshort
  rw [not_lt, variableLen_eq hvariable, opFixed] at hroom
  -- The bytes from the reserved field on, and what follows the fixed part.
  set q := (readLe 4 (readLe 8 (readLe 8 (readLe 8 (readLe 8 (readLe 2 (readLe 2 (readLe 2 (readLe 1
    (readLe 1 p).2).2).2).2).2).2).2).2).2).2 with hq
  set tail := (readLe 4 (readTimespec (readLe 4 q).2).2).2 with htail
  have htailLen : tail.length = p.length - 64 := by
    simp only [htail, hq, length_readLe, length_readTimespec]
    omega
  set sourceLen := (readLe 2 (readLe 1 (readLe 1 p).2).2).1
  set targetLen := (readLe 2 (readLe 2 (readLe 1 (readLe 1 p).2).2).2).1
  set extentCount := (readLe 2 (readLe 2 (readLe 2 (readLe 1 (readLe 1 p).2).2).2).2).1
  obtain ⟨hexts, hcnt, hextentRange⟩ := @encodeExtents_readExtents extentCount tail (by omega)
  have hafter := congrArg List.length hexts
  rw [length_append, length_encodeExtents, hcnt] at hafter
  have hsrc := length_readBytes_fst sourceLen (readExtents extentCount tail).2
  rw [Nat.min_eq_left (by omega)] at hsrc
  have htarget := length_readBytes_fst targetLen (readBytes sourceLen (readExtents extentCount tail).2).2
  rw [Nat.min_eq_left (by rw [length_readBytes]; omega)] at htarget
  refine ⟨⟨_, _, _, _, _, _, _, _, _, _, (readLe 4 q).1, _, (readLe 4 (readTimespec (readLe 4 q).2).2).1⟩,
    ?_, ?_, hval, hop, ?_⟩
  · constructor
    case sourceName => exact hsrc.trans_lt (readLe_lt ..)
    case targetName => exact htarget.trans_lt (readLe_lt ..)
    case extentCount => exact hcnt.trans_le (not_lt.mp hfew)
    case timestamp => exact inRange_of_readTimespec htime
    case extents => exact hextentRange
    all_goals exact readLe_lt ..
  · apply shape_of_variableLen
    rw [hsrc, htarget, hcnt]
    exact hvariable
  · rw [encode, hsrc, htarget, hcnt]
    rw [hq] at htime
    simp only [append_assoc, readBytes_fst_append, hexts]
    simp (disch := first | rfl | assumption | omega | simp only [length_readLe, length_readTimespec]; omega) only
      [htail, hq, leBytes_readLe_append, write_readTimespec_append]

/-! ### The entry of an operation -/

def ofOp (op : LogOp) : RawEntry :=
  let o := op.entry
  ⟨o.opType, o.replace.toNat, o.sourceName, o.targetName, o.extents, o.parentId, o.target, o.expected, o.size,
    o.contentCrc, 0, o.timestamp, 0⟩

theorem op_ofOp (op : LogOp) : (ofOp op).op = op := by
  have hflag : ((ofOp op).replace != 0) = op.entry.replace := by
    show (op.entry.replace.toNat != 0) = op.entry.replace
    cases op.entry.replace <;> rfl
  rw [RawEntry.op, hflag]
  cases op <;> simp [ofOp, entry, toOp]

theorem timestamp_ofOp (op : LogOp) : (ofOp op).timestamp = op.timestamp := by
  cases op <;> rfl

theorem ofOp_shape (hver : op.isExistingFileUpdate = true → version = 3) : (ofOp op).Shape version := by
  cases op with
  | create => exact .create rfl rfl
  | delete => exact .delete rfl rfl rfl
  | rename => exact .rename rfl rfl
  | write => exact .update (.inl rfl) (hver rfl) rfl rfl
  | truncate => exact .update (.inr rfl) (hver rfl) rfl rfl

theorem ofOp_inRange (hval : op.validate = .ok ()) (hrng : op.InRange) : (ofOp op).InRange := by
  obtain ⟨-, hsrc, htarget, hexts⟩ := fits_of_validate hval
  refine ⟨?_, ?_, hsrc.trans_lt (by decide), htarget.trans_lt (by decide), hexts, hrng.parentId, hrng.target,
    hrng.expected, hrng.size, hrng.contentCrc, Nat.zero_lt_succ _, ?_, Nat.zero_lt_succ _, hrng.extents⟩
  · cases op <;> simp [ofOp, entry]
  · show op.entry.replace.toNat < 256 ^ 1
    cases op.entry.replace <;> decide
  · rw [timestamp_ofOp]
    exact hrng.timestamp

/-- What the encoder makes of the entry's operation. -/
def normal (e : RawEntry) : RawEntry := ofOp e.op

theorem encode_normal (e : RawEntry) : e.normal.encode = e.op.entry.encode := rfl

/-- The fields the entry's type does not use are zero. -/
def unusedZero (opType replace target expected size contentCrc : Nat) : Bool :=
  match opType with
  | 1 => replace == 0 && target == 0
  | 2 => replace == 0 && target == 0 && expected == 0 && size == 0 && contentCrc == 0
  | 3 => replace ≤ 1 && expected == 0 && size == 0 && contentCrc == 0
  | _ => replace == 0

def canonical (e : RawEntry) : Bool :=
  e.reserved == 0 && e.padding == 0 &&
    unusedZero e.opType e.replace e.target e.expected e.size e.contentCrc

/-- The fields that carry the operation are kept. -/
structure SameOp (e e' : RawEntry) : Prop where
  opType : e.opType = e'.opType
  sourceName : e.sourceName = e'.sourceName
  targetName : e.targetName = e'.targetName
  extents : e.extents = e'.extents
  parentId : e.parentId = e'.parentId
  timestamp : e.timestamp = e'.timestamp

theorem normal_sameOp (hshape : e.Shape version) : e.normal.SameOp e := by
  cases hshape with
  | create htype htarget =>
    constructor <;> simp [normal, ofOp, op, toOp, entry, htype, htarget]
  | delete htype htarget hexts =>
    constructor <;> simp [normal, ofOp, op, toOp, entry, htype, htarget, hexts]
  | rename htype hexts =>
    constructor <;> simp [normal, ofOp, op, toOp, entry, htype, hexts]
  | update htype hver hsrc htarget =>
    rcases htype with htype | htype <;> constructor <;>
      simp [normal, ofOp, op, toOp, entry, htype, hsrc, htarget]

theorem replace_eq_toNat {n : Nat} : (n != 0).toNat = n ↔ n ≤ 1 := by
  cases n with
  | zero => simp
  | succ n => simp

theorem normal_eq_iff (hshape : e.Shape version) : e.normal = e ↔ e.canonical = true := by
  cases hshape with
  | create htype htarget =>
    simp [RawEntry.ext_iff, normal, ofOp, op, toOp, entry, canonical, unusedZero, htype, htarget]
    omega
  | delete htype htarget hexts =>
    simp [RawEntry.ext_iff, normal, ofOp, op, toOp, entry, canonical, unusedZero, htype, htarget, hexts]
    omega
  | rename htype hexts =>
    have hrepl := @replace_eq_toNat e.replace
    simp [RawEntry.ext_iff, normal, ofOp, op, toOp, entry, canonical, unusedZero, htype, hexts, hrepl]
    omega
  | update htype hver hsrc htarget =>
    rcases htype with htype | htype
    all_goals
      simp [RawEntry.ext_iff, normal, ofOp, op, toOp, entry, canonical, unusedZero, htype, hsrc, htarget]
      omega

theorem normal_inRange (hrng : e.InRange) (hshape : e.Shape version) : e.normal.InRange := by
  have hsame := normal_sameOp hshape
  have hrepl : e.normal.replace < 256 ^ 1 := by
    show e.op.entry.replace.toNat < 256 ^ 1
    cases e.op.entry.replace <;> decide
  have hvalues : (e.normal.target = e.target ∨ e.normal.target = 0) ∧
      (e.normal.expected = e.expected ∨ e.normal.expected = 0) ∧
      (e.normal.size = e.size ∨ e.normal.size = 0) ∧
      (e.normal.contentCrc = e.contentCrc ∨ e.normal.contentCrc = 0) := by
    cases hshape with
    | create htype => simp [normal, ofOp, op, toOp, entry, htype]
    | delete htype => simp [normal, ofOp, op, toOp, entry, htype]
    | rename htype => simp [normal, ofOp, op, toOp, entry, htype]
    | update htype =>
      rcases htype with htype | htype <;> simp [normal, ofOp, op, toOp, entry, htype]
  have hkeep : ∀ {value kept width : Nat}, value = kept ∨ value = 0 → kept < 256 ^ width → value < 256 ^ width := by
    intro value kept width hvalue hkept
    rcases hvalue with rfl | rfl
    · exact hkept
    · exact Nat.pow_pos (by decide)
  exact ⟨hsame.opType ▸ hrng.opType, hrepl, hsame.sourceName ▸ hrng.sourceName,
    hsame.targetName ▸ hrng.targetName, hsame.extents ▸ hrng.extentCount,
    hsame.parentId ▸ hrng.parentId, hkeep hvalues.1 hrng.target,
    hkeep hvalues.2.1 hrng.expected, hkeep hvalues.2.2.1 hrng.size,
    hkeep hvalues.2.2.2 hrng.contentCrc, show 0 < 256 ^ 4 by decide,
    hsame.timestamp ▸ hrng.timestamp, show 0 < 256 ^ 4 by decide, hsame.extents ▸ hrng.extents⟩

theorem encode_inj {e e' : RawEntry} (hrng : e.InRange) (hrange' : e'.InRange)
    (hsame : e.SameOp e') (h : e.encode = e'.encode) : e = e' := by
  obtain ⟨hopType, hsrc, htarget, hexts, hparent, htime⟩ := hsame
  simp only [encode, append_assoc, hopType, hsrc, htarget, hexts, hparent, htime, append_cancel_left_eq] at h
  obtain ⟨hrepl, h⟩ := leBytes_append_inj hrng.replace hrange'.replace h
  simp only [append_cancel_left_eq] at h
  obtain ⟨htargetField, h⟩ := leBytes_append_inj hrng.target hrange'.target h
  obtain ⟨hexpected, h⟩ := leBytes_append_inj hrng.expected hrange'.expected h
  obtain ⟨hsize, h⟩ := leBytes_append_inj hrng.size hrange'.size h
  obtain ⟨hcrc, h⟩ := leBytes_append_inj hrng.contentCrc hrange'.contentCrc h
  obtain ⟨hres, h⟩ := leBytes_append_inj hrng.reserved hrange'.reserved h
  simp only [append_cancel_left_eq] at h
  obtain ⟨hpad, -⟩ := leBytes_append_inj hrng.padding hrange'.padding h
  exact RawEntry.ext hopType hrepl hsrc htarget hexts hparent htargetField hexpected hsize hcrc hres htime hpad

theorem entry_encode_eq_iff (hrng : e.InRange)
    (hshape : e.Shape version) : e.op.entry.encode = e.encode ↔ e.canonical = true := by
  rw [← encode_normal, ← normal_eq_iff hshape]
  constructor
  · intro h
    exact encode_inj (normal_inRange hrng hshape) hrng (normal_sameOp hshape) h
  · intro h
    rw [h]

theorem wireLen_op (hshape : e.Shape version) : e.op.wireLen = e.len := by
  have hsame := normal_sameOp hshape
  have hlen : e.op.wireLen = e.normal.len := rfl
  rw [hlen, len, len, hsame.sourceName, hsame.targetName, hsame.extents]

theorem isExistingFileUpdate_op (hshape : e.Shape version) :
    e.op.isExistingFileUpdate = (e.opType == 4 || e.opType == 5) := by
  cases hshape with
  | create htype => simp [op, toOp, isExistingFileUpdate, htype]
  | delete htype => simp [op, toOp, isExistingFileUpdate, htype]
  | rename htype => simp [op, toOp, isExistingFileUpdate, htype]
  | update htype =>
    rcases htype with htype | htype <;> simp [op, toOp, isExistingFileUpdate, htype]

end RawEntry

open RawEntry

/-! ### The entries of a payload -/

/-- The fixed fields of an entry that say how long it is and what the encoder leaves at zero. -/
structure EntryHead where
  opType : Nat
  replace : Nat
  sourceLen : Nat
  targetLen : Nat
  extentCount : Nat
  target : Nat
  expected : Nat
  size : Nat
  contentCrc : Nat
  reserved : Nat
  padding : Nat
  deriving DecidableEq

namespace EntryHead

def read (p : Bytes) : EntryHead :=
  let (opType, p) := readLe 1 p
  let (replace, p) := readLe 1 p
  let (sourceLen, p) := readLe 2 p
  let (targetLen, p) := readLe 2 p
  let (extentCount, p) := readLe 2 p
  let (_, p) := readLe 8 p
  let (target, p) := readLe 8 p
  let (expected, p) := readLe 8 p
  let (size, p) := readLe 8 p
  let (contentCrc, p) := readLe 4 p
  let (reserved, p) := readLe 4 p
  let (_, p) := readBytes 12 p
  let (padding, _) := readLe 4 p
  ⟨opType, replace, sourceLen, targetLen, extentCount, target, expected, size, contentCrc, reserved,
    padding⟩

def len (head : EntryHead) : Nat :=
  opFixed + head.extentCount * extentWire + head.sourceLen + head.targetLen

def canonical (head : EntryHead) : Bool :=
  head.reserved == 0 && head.padding == 0 &&
    RawEntry.unusedZero head.opType head.replace head.target head.expected head.size head.contentCrc

def isUpdate (head : EntryHead) : Bool := head.opType == 4 || head.opType == 5

/-- The heads of the entries from the front of the bytes on. -/
def readAll : Nat → Bytes → List EntryHead
  | 0, _ => []
  | count + 1, p => read p :: readAll count (p.drop (read p).len)

end EntryHead

namespace RawEntry

def head (e : RawEntry) : EntryHead :=
  ⟨e.opType, e.replace, e.sourceName.length, e.targetName.length, e.extents.length, e.target,
    e.expected, e.size, e.contentCrc, e.reserved, e.padding⟩

theorem read_encode {e : RawEntry} (hrng : e.InRange) (rest : Bytes) :
    EntryHead.read (e.encode ++ rest) = e.head := by
  have hcnt : e.extents.length < 256 ^ 2 := lt_of_le_of_lt hrng.extentCount (by decide)
  have htime := length_timespecWrite e.timestamp
  cases hrng
  simp (disch := assumption) only [EntryHead.read, encode, append_assoc, readLe_append, readBytes_of_length, head]

variable {raws : List RawEntry}

theorem readAll_encode (hrng : ∀ e ∈ raws, e.InRange) (rest : Bytes) :
    EntryHead.readAll raws.length (raws.flatMap encode ++ rest) = raws.map head := by
  induction raws with
  | nil => rfl
  | cons e tail ih =>
    have htail := ih fun x hx => hrng x (by simp [hx])
    have hhead := read_encode (hrng e (by simp)) (tail.flatMap encode ++ rest)
    have hdrop : (e.encode ++ (tail.flatMap encode ++ rest)).drop e.head.len =
        tail.flatMap encode ++ rest := drop_left' (length_encode e)
    rw [flatMap_cons, append_assoc, length_cons, EntryHead.readAll, hhead, hdrop, htail, map_cons]

theorem raws_of_decodeOps {version count : Nat} {p rest : Bytes} {ops : List LogOp}
    (h : decodeOps version count p = .ok (ops, rest)) :
    ∃ raws : List RawEntry, raws.length = count ∧
      (∀ e ∈ raws, e.InRange ∧ e.Shape version ∧ e.op.validate = .ok ()) ∧ ops = raws.map op ∧
      p = raws.flatMap encode ++ rest := by
  induction count generalizing p ops with
  | zero =>
    obtain ⟨rfl, rfl⟩ := Prod.mk.inj (Except.ok.inj h)
    exact ⟨[], rfl, by simp, rfl, rfl⟩
  | succ count ih =>
    obtain ⟨⟨first, p₁⟩, hfirst, h⟩ := of_bind h
    obtain ⟨⟨others, p₂⟩, hothers, hresult⟩ := of_bind h
    obtain ⟨rfl, rfl⟩ := pure_pair_eq_ok.mp hresult
    obtain ⟨e, hrng, hshape, hval, hop, hp⟩ := raw_of_decodeOp hfirst
    obtain ⟨raws, hcnt, hraws, hops, hp₁⟩ := ih hothers
    refine ⟨e :: raws, by rw [length_cons, hcnt], ?_, by rw [hop, hops, map_cons], ?_⟩
    · rw [forall_mem_cons]
      exact ⟨⟨hrng, hshape, hval⟩, hraws⟩
    · rw [hp, hp₁, flatMap_cons, append_assoc]

variable {version : Nat}

theorem decodeOps_encode (hraws : ∀ e ∈ raws, e.InRange ∧ e.Shape version ∧ e.op.validate = .ok ())
    (htime : ∀ e ∈ raws, e.timestamp.validate = .ok ()) (rest : Bytes) :
    decodeOps version raws.length (raws.flatMap encode ++ rest) = .ok (raws.map op, rest) := by
  induction raws with
  | nil => rfl
  | cons e tail ih =>
    have htail := ih (fun x hx => hraws x (by simp [hx])) (fun x hx => htime x (by simp [hx]))
    obtain ⟨hrng, hshape, hval⟩ := hraws e (by simp)
    rw [flatMap_cons, append_assoc, length_cons, decodeOps, decodeOp_encode hrng hshape hval (htime e (by simp))]
    simp only [bind, Except.bind, htail]
    rfl

theorem flatMap_entry_encode_iff (hraws : ∀ e ∈ raws, e.InRange ∧ e.Shape version) :
    ((raws.map op).flatMap fun op => op.entry.encode) = raws.flatMap encode ↔ ∀ e ∈ raws, e.canonical = true := by
  induction raws with
  | nil => simp
  | cons e tail ih =>
    obtain ⟨hrng, hshape⟩ := hraws e (by simp)
    have hlen : e.op.entry.encode.length = e.encode.length := by
      rw [length_entryEncode, wireLen_op hshape, length_encode]
    rw [map_cons, flatMap_cons, flatMap_cons, forall_mem_cons,
      ← entry_encode_eq_iff hrng hshape, ← ih fun x hx => hraws x (by simp [hx])]
    exact ⟨fun h => append_inj h hlen, fun h => by rw [h.1, h.2]⟩

theorem sum_wireLen (hshape : ∀ e ∈ raws, e.Shape version) :
    ((raws.map op).map wireLen).sum = (raws.flatMap encode).length := by
  rw [length_flatMap, map_map]
  apply congrArg List.sum
  apply map_congr_left
  intro e he
  exact (wireLen_op (hshape e he)).trans (length_encode e).symm

end RawEntry

namespace LogRecord

/-- The payload with a version and entries of any bytes. -/
def payloadWith (r : LogRecord) (version : Nat) (entries : Bytes) : Bytes :=
  r.uuid ++ leBytes 8 r.baseGeneration ++ leBytes 4 r.sequence ++ leBytes 2 r.ops.length ++
    leBytes 2 version ++ entries

def payloadLen (r : LogRecord) : Nat := logFixedPayload + (r.ops.map wireLen).sum

/-- The record `r` as a block of entries that need not be those the encoder writes. -/
structure Written (r : LogRecord) (version : Nat) (raws : List RawEntry) (block : Bytes) : Prop where
  uuid : r.uuid.length = 16
  generation : r.baseGeneration ≠ 0 ∧ r.baseGeneration < 256 ^ 8
  sequence : r.sequence ≠ 0 ∧ r.sequence < 256 ^ 4
  count : r.ops ≠ [] ∧ r.ops.length ≤ maxLogOps
  known : version = 2 ∨ version = 3
  entries : ∀ e ∈ raws, e.InRange ∧ e.Shape version ∧ e.op.validate = .ok ()
  ops : r.ops = raws.map RawEntry.op
  room : headerSize + r.payloadLen ≤ block.length
  sealed : block = (r.header r.payloadLen).sealPayload block.length
    (r.payloadWith version (raws.flatMap RawEntry.encode))

section Written

variable {r : LogRecord} {version : Nat} {raws : List RawEntry} {block : Bytes}

variable (h : r.Written version raws block)

include h

theorem Written.valid : ∀ op ∈ r.ops, op.validate = .ok () := by
  intro op hop
  rw [h.ops] at hop
  obtain ⟨e, he, rfl⟩ := mem_map.mp hop
  exact (h.entries e he).2.2

theorem Written.header_inRange : (r.header r.payloadLen).InRange :=
  inRange_mk (by decide) h.generation.2 (payloadLen_lt h.count.2 h.valid)

theorem Written.payloadLen_eq : r.payloadLen = logFixedPayload + (raws.flatMap RawEntry.encode).length := by
  rw [payloadLen, h.ops, sum_wireLen fun e he => (h.entries e he).2.1]

theorem Written.length_payloadWith :
    r.payloadLen = (r.payloadWith version (raws.flatMap RawEntry.encode)).length := by
  simp only [h.payloadLen_eq, payloadWith, length_append, length_leBytes, h.uuid, logFixedPayload]

theorem Written.length_raws : raws.length = r.ops.length := by
  rw [h.ops, length_map]

theorem Written.decode (htime : ∀ e ∈ raws, e.timestamp.validate = .ok ()) : LogRecord.decode block = .ok r := by
  have hverify : BlockHeader.verify block BlockType.intentLog = .ok (r.header r.payloadLen) := by
    rw [h.sealed]
    exact verify_sealPayload h.header_inRange h.length_payloadWith _
  have hpay : (r.header r.payloadLen).payload block = r.payloadWith version (raws.flatMap RawEntry.encode) := by
    rw [h.sealed]
    exact payload_sealPayload h.length_payloadWith _
  have hlong : ¬(r.payloadWith version (raws.flatMap RawEntry.encode)).length < logFixedPayload := by
    rw [← h.length_payloadWith, payloadLen]
    omega
  have hcount64 : r.ops.length ≤ 64 := h.count.2
  have hcnt : r.ops.length < 256 ^ 2 := by omega
  have hnonempty : r.ops.length ≠ 0 := fun hzero => h.count.1 (length_eq_zero_iff.mp hzero)
  have hversionRange : version < 256 ^ 2 := by
    rcases h.known with rfl | rfl <;> decide
  have hver := h.known
  have hops := decodeOps_encode h.entries htime []
  rw [append_nil, h.length_raws, ← h.ops] at hops
  unfold LogRecord.decode
  refine bind_ok.mpr ⟨_, hverify, ?_⟩
  rw [hpay, refuseIf_bind (by simp [LogRecord.header]), refuseIf_bind hlong]
  obtain ⟨huuid, ⟨hfirst, hgen⟩, ⟨hpositive, hseq⟩⟩ := h
  simp (disch := assumption) only [payloadWith, append_assoc, readBytes_of_length, readLe_append]
  rw [refuseIf_bind (by simp [hfirst, LogRecord.header]), refuseIf_bind hpositive,
    refuseIf_bind (by rw [maxLogOps]; omega), refuseIf_bind (by omega)]
  refine bind_ok.mpr ⟨_, hops, ?_⟩
  rw [refuseIf_bind (by simp)]
  rfl

end Written

variable {r : LogRecord} {block : Bytes} {blockSize : Nat}

theorem length_of_encode (huuid : r.uuid.length = 16)
    (henc : r.encode blockSize = .ok block) : block.length = blockSize := by
  obtain ⟨-, -, hroom, -, rfl⟩ := encode_eq_ok.mp henc
  rw [length_sealBlock, length_append, length_payload huuid, length_replicate]
  omega

theorem written_of_encode (hrng : r.InRange) (henc : r.encode blockSize = .ok block) :
    r.Written r.version (r.ops.map RawEntry.ofOp) block := by
  obtain ⟨hcnt, ⟨hseq, hgen⟩, hroom, hval, hblk⟩ := encode_eq_ok.mp henc
  have hlen : r.payload.length = r.payloadLen := length_payload hrng.uuid
  rw [← payloadLen] at hroom hblk
  have hsize := length_of_encode hrng.uuid henc
  refine ⟨hrng.uuid, ⟨hgen, hrng.baseGeneration⟩, ⟨hseq, hrng.sequence⟩, hcnt, ?_, ?_, ?_, by omega, ?_⟩
  · unfold LogRecord.version
    split <;> simp
  · refine forall_mem_map.mpr fun op hop => ?_
    refine ⟨ofOp_inRange (hval op hop) (hrng.ops op hop), ofOp_shape ?_, ?_⟩
    · intro hupdate
      exact if_pos (any_eq_true.mpr ⟨op, hop, hupdate⟩)
    · rw [op_ofOp]
      exact hval op hop
  · rw [map_map, show RawEntry.op ∘ RawEntry.ofOp = id from funext op_ofOp, map_id]
  · have hwritten : r.payloadWith r.version ((r.ops.map RawEntry.ofOp).flatMap RawEntry.encode) = r.payload := by
      rw [flatMap_map]
      rfl
    rwa [hsize, hwritten, BlockHeader.sealPayload, hlen]

theorem decode_encode (hrng : r.InRange) (henc : r.encode blockSize = .ok block) :
    LogRecord.decode block = .ok r := by
  refine (written_of_encode hrng henc).decode (forall_mem_map.mpr fun op hop => ?_)
  rw [timestamp_ofOp]
  exact (fits_of_validate ((encode_eq_ok.mp henc).2.2.2.1 op hop)).timestamp

attribute [local irreducible] readLe readBytes in
theorem written_of_decode (hdec : LogRecord.decode block = .ok r) : ∃ version raws, r.Written version raws block := by
  obtain ⟨header, hadm, h⟩ := admitted_of_bind hdec
  obtain ⟨hflags, h⟩ := of_refuse h
  obtain ⟨hshort, h⟩ := of_refuse h
  have hpay := hadm.length_payload
  have hsealed := hadm.sealed
  generalize header.payload block = p at hpay hsealed hshort h
  obtain ⟨hbind, h⟩ := of_refuse h
  obtain ⟨hfirst, h⟩ := of_refuse h
  obtain ⟨hfew, h⟩ := of_refuse h
  obtain ⟨hknown, h⟩ := of_refuse h
  obtain ⟨⟨ops, rest⟩, hops, h⟩ := of_bind h
  obtain ⟨hend, h⟩ := of_refuse h
  obtain rfl := pure_ok.mp h
  obtain rfl := not_not.mp hend
  obtain ⟨raws, hraws, hok, rfl, hents⟩ := raws_of_decodeOps hops
  rw [append_nil] at hents
  have hsum := sum_wireLen fun e he => (hok e he).2.1
  have hlen := (length_map RawEntry.op).trans hraws
  simp only [not_or, not_not, not_lt, ne_eq, logFixedPayload] at hbind hfew hflags hshort
  have hplen : ∀ uuid generation sequence,
      header.payloadLen = payloadLen ⟨uuid, generation, sequence, raws.map RawEntry.op⟩ := by
    intro uuid generation sequence
    rw [payloadLen, hsum, ← hents, ← hpay, logFixedPayload]
    simp only [length_readLe, length_readBytes]
    omega
  refine ⟨_, raws, ?_, ⟨hbind.1, readLe_lt ..⟩, ⟨hfirst, readLe_lt ..⟩, ⟨?_, hlen.trans_le hfew.2⟩, ?_, hok, rfl,
    hplen .. ▸ hadm.room, ?_⟩
  · rw [length_readBytes_fst]
    exact Nat.min_eq_left (by omega)
  · intro hnil
    exact hfew.1 (hlen.symm.trans (congrArg List.length hnil))
  · omega
  · rw [LogRecord.header, ← hadm.eq_mk hflags.1 hflags.2 hbind.2.symm (hplen ..)]
    refine hsealed.trans (congrArg _ (Eq.symm ?_))
    unfold payloadWith
    simp (disch := first | rfl | assumption | simp only [length_readLe, length_readBytes]; omega) only
      [append_assoc, hlen, ← hents, leBytes_readLe_append, readBytes_fst_append]

/-! ### Canonical blocks -/

/-- A canonical block has zero where its entries' types use nothing, and the version its operations
need. -/
def Canonical (block : Bytes) : Prop :=
  let (count, p) := readLe 2 (block.drop (headerSize + 28))
  let (version, p) := readLe 2 p
  (∀ head ∈ EntryHead.readAll count p, head.canonical = true) ∧
    version = if (EntryHead.readAll count p).any EntryHead.isUpdate then 3 else 2

instance (block : Bytes) : Decidable (Canonical block) :=
  inferInstanceAs (Decidable (_ ∧ _))

section Written

variable {r : LogRecord} {version : Nat} {raws : List RawEntry} {block : Bytes}

variable (h : r.Written version raws block)

include h

theorem Written.version_eq : r.version = if (raws.map RawEntry.head).any EntryHead.isUpdate then 3 else 2 := by
  have hany : r.ops.any isExistingFileUpdate = (raws.map RawEntry.head).any EntryHead.isUpdate := by
    rw [h.ops, any_map, any_map, Bool.eq_iff_iff, any_eq_true, any_eq_true]
    apply exists_congr
    intro e
    apply and_congr_right
    intro he
    rw [Function.comp_apply, isExistingFileUpdate_op (h.entries e he).2.1]
    rfl
  rw [LogRecord.version, hany]

theorem Written.canonical_iff : Canonical block ↔ version = r.version ∧ ∀ e ∈ raws, e.canonical = true := by
  have hadm := admitted_of_verify (verify_sealPayload h.header_inRange h.length_payloadWith block.length)
  rw [← h.sealed] at hadm
  have hbody := hadm.body
  have hpay : (r.header r.payloadLen).payload block = r.payloadWith version (raws.flatMap RawEntry.encode) := by
    rw [h.sealed]
    exact payload_sealPayload h.length_payloadWith _
  generalize List.replicate (block.length - headerSize - (r.header r.payloadLen).payloadLen) (0 : UInt8) =
    zeros at hbody
  have hdrop : block.drop (headerSize + 28) = leBytes 2 raws.length ++ (leBytes 2 version ++
      (raws.flatMap RawEntry.encode ++ zeros)) := by
    rw [← drop_drop, hbody, hpay, payloadWith, h.length_raws]
    simp only [append_assoc]
    rw [← append_assoc, ← append_assoc]
    apply drop_left'
    simp only [length_append, length_leBytes, h.uuid]
  have hcnt : raws.length < 256 ^ 2 := by
    rw [h.length_raws]
    exact lt_of_le_of_lt h.count.2 (by decide)
  have hver : version < 256 ^ 2 := by
    rcases h.known with rfl | rfl <;> decide
  have hheads := readAll_encode (fun e he => (h.entries e he).1) zeros
  rw [Canonical, hdrop]
  simp only [readLe_append hcnt, readLe_append hver, hheads, ← h.version_eq, forall_mem_map]
  exact and_comm

theorem Written.payload_eq_iff :
    r.payload = r.payloadWith version (raws.flatMap RawEntry.encode) ↔ Canonical block := by
  have hents := flatMap_entry_encode_iff fun e he => ⟨(h.entries e he).1, (h.entries e he).2.1⟩
  have hver : version < 256 ^ 2 := by
    rcases h.known with rfl | rfl <;> decide
  have hver' : r.version < 256 ^ 2 := by
    unfold LogRecord.version
    split <;> decide
  rw [h.canonical_iff, ← hents, ← h.ops, payload, payloadWith]
  simp only [append_assoc, append_cancel_left_eq]
  constructor
  · intro heq
    obtain ⟨hsame, hrest⟩ := leBytes_append_inj hver' hver heq
    exact ⟨hsame.symm, hrest⟩
  · intro heq
    rw [heq.1, heq.2]

end Written

theorem encode_decode_iff (hdec : LogRecord.decode block = .ok r) :
    r.encode block.length = .ok block ↔ Canonical block := by
  obtain ⟨version, raws, h⟩ := written_of_decode hdec
  have hlen : r.payloadLen = r.payload.length := (length_payload h.uuid).symm
  have hroom := h.room
  have hsealed : (r.header r.payloadLen).sealBlock (r.payload ++
      List.replicate (block.length - headerSize - r.payloadLen) 0) =
      (r.header r.payloadLen).sealPayload block.length r.payload := by
    rw [BlockHeader.sealPayload, ← hlen]
  rw [← h.payload_eq_iff, encode_eq_ok, ← payloadLen, hsealed]
  constructor
  · intro henc
    obtain ⟨-, -, -, -, heq⟩ := henc
    exact (sealPayload_inj h.header_inRange h.header_inRange hlen h.length_payloadWith (heq.symm.trans h.sealed)).2
  · intro hpay
    refine ⟨h.count, ⟨h.sequence.1, h.generation.1⟩, by omega, h.valid, ?_⟩
    rw [hpay]
    exact h.sealed

/-- How far the codec is exact: what is written is read back; what is read is written back, and is the
only block of its size with that record, exactly if it is canonical. -/
theorem intent_log_codec_exact_iff (r : LogRecord) (block : Bytes) :
    (∀ blockSize : Nat, r.InRange → r.encode blockSize = .ok block →
      LogRecord.decode block = .ok r ∧ Canonical block) ∧
    (LogRecord.decode block = .ok r → (r.encode block.length = .ok block ↔ Canonical block)) ∧
    ∀ other : Bytes, LogRecord.decode block = .ok r → LogRecord.decode other = .ok r →
      block.length = other.length → Canonical block → (block = other ↔ Canonical other) := by
  refine ⟨?_, encode_decode_iff, ?_⟩
  · intro blockSize hrange hencode
    have hdecode := decode_encode hrange hencode
    have hlength := length_of_encode hrange.uuid hencode
    exact ⟨hdecode, (encode_decode_iff hdecode).mp (hlength.symm ▸ hencode)⟩
  · intro other hdecode hother hlength hcanonical
    have hencode := (encode_decode_iff hdecode).mpr hcanonical
    rw [← encode_decode_iff hother, ← hlength, hencode, Except.ok.injEq]

def sample : LogRecord := ⟨List.replicate 16 7, 5, 1, [.delete 1 [97] ⟨0, 0⟩]⟩

theorem sample_inRange : sample.InRange := by
  refine ⟨rfl, by decide, by decide, ?_⟩
  intro op hop
  obtain rfl := mem_singleton.mp hop
  exact ⟨by decide, by decide, by decide, by decide, by decide, ⟨by decide, by decide⟩, by simp [entry]⟩

theorem sample_encode : sample.encode 4096 = .ok ((sample.header sample.payloadLen).sealBlock
      (sample.payload ++ List.replicate (4096 - headerSize - sample.payloadLen) 0)) :=
  encode_eq_ok.mpr ⟨by decide, by decide, by decide, by decide, rfl⟩

theorem intent_log_codec_exact_iff_sample :
    ∃ block, sample.InRange ∧ sample.encode 4096 = .ok block ∧ LogRecord.decode block = .ok sample ∧
      (sample.encode block.length = .ok block ↔ Canonical block) ∧ (block = block ↔ Canonical block) := by
  obtain ⟨block, hencode⟩ : ∃ block, sample.encode 4096 = .ok block := ⟨_, sample_encode⟩
  obtain ⟨hwritten, hread, hunique⟩ := intent_log_codec_exact_iff sample block
  obtain ⟨hdecode, hcanonical⟩ := hwritten 4096 sample_inRange hencode
  exact ⟨block, sample_inRange, hencode, hdecode, hread hdecode, hunique _ hdecode hdecode rfl hcanonical⟩

/-- The deletion with a byte in the field behind its checksum. -/
def markedEntry : RawEntry := ⟨2, 0, [97], [], [], 1, 0, 0, 0, 0, 1, ⟨0, 0⟩, 0⟩

/-- The byte is read past: two blocks of one size give the same record, and one of them is lost when
the record is written again. -/
theorem intent_log_codec_inexact :
    ∃ block other : Bytes, LogRecord.decode block = .ok sample ∧ LogRecord.decode other = .ok sample ∧
      block.length = other.length ∧ block ≠ other ∧ sample.encode other.length ≠ .ok other := by
  have hsize : ((sample.header sample.payloadLen).sealPayload 4096
      (sample.payloadWith 2 ([markedEntry].flatMap RawEntry.encode))).length = 4096 := by
    apply length_sealPayload
    decide
  have hwritten : sample.Written 2 [markedEntry] ((sample.header sample.payloadLen).sealPayload 4096
      (sample.payloadWith 2 ([markedEntry].flatMap RawEntry.encode))) := by
    refine ⟨rfl, by decide, by decide, by decide, .inl rfl, ?_, rfl, ?_, by rw [hsize]⟩
    · intro e he
      obtain rfl := mem_singleton.mp he
      exact ⟨⟨by decide, by decide, by decide, by decide, by decide, by decide, by decide, by decide,
        by decide, by decide, by decide, ⟨by decide, by decide⟩, by decide, by simp [markedEntry]⟩,
        .delete rfl rfl rfl, by decide⟩
    · rw [hsize]
      decide
  have hother := hwritten.decode (by decide)
  have hlost : sample.encode 4096 ≠ .ok ((sample.header sample.payloadLen).sealPayload 4096
      (sample.payloadWith 2 ([markedEntry].flatMap RawEntry.encode))) := by
    intro hencode
    have hcanonical := (encode_decode_iff hother).mp (hsize.symm ▸ hencode)
    exact absurd (hwritten.canonical_iff.mp hcanonical).2 (by decide)
  refine ⟨_, _, decode_encode sample_inRange sample_encode, hother, ?_, ?_, hsize.symm ▸ hlost⟩
  · rw [hsize]
    exact length_of_encode rfl sample_encode
  · intro heq
    exact hlost (heq ▸ sample_encode)

end LogRecord

end Afsplus
