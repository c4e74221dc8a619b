import Afsplus.Format.Chain

/-!
# Attribute sets

The whole attribute set of one object as one byte string: a count, then the entries in ascending order of their
names. The codec is described by one predicate on a list of entries and one way of writing it. Both functions
accept what the predicate allows and nothing else, so that each undoes the other.
-/

namespace Afsplus

open Wire Fallible List

namespace AttributeSet

def attributeNameMaxBytes : Nat := 255

/-- `"user."`, `"system."`, `"security."` and `"aros."`. -/
def attributeNamespaces : List Bytes :=
  ["user.", "system.", "security.", "aros."].map fun text => text.toList.map fun c => UInt8.ofNat c.toNat

def setHeader : Nat := 4

def entryHeader : Nat := 4

abbrev Entry : Type := Utf8 × Bytes

def validateAttributeName (name : Utf8) : Except FormatError Unit := do
  refuseIf (name.1.length > attributeNameMaxBytes) (.overflow "attribute name")
  refuseIf (0 ∈ name.1) (.invalid "attribute name contains NUL")
  refuseIf (¬∃ start ∈ attributeNamespaces, name.1.length > start.length ∧ start <+: name.1)
    (.invalid "attribute name outside a namespace")

/-- The name does not come after the one before it. -/
def Misplaced (previous : Option Utf8) (name : Utf8) : Prop := ∃ last ∈ previous, name.1 ≤ last.1

instance (previous : Option Utf8) (name : Utf8) : Decidable (Misplaced previous name) :=
  match previous with
  | none => .isFalse fun ⟨_, h, _⟩ => by cases h
  | some last => decidable_of_iff (name.1 ≤ last.1) ⟨fun h => ⟨last, rfl, h⟩, fun ⟨_, h, hle⟩ => by cases h; exact hle⟩

def writeEntry (entry : Entry) : Bytes :=
  leBytes 1 entry.1.1.length ++ leBytes 1 0 ++ leBytes 2 entry.2.length ++ entry.1.1 ++ entry.2

/-- The loop of `encode_attribute_set`; `out` is what is written so far. -/
def encodeEntries (previous : Option Utf8) (out : Bytes) : List Entry → Except FormatError Bytes
  | [] => .ok out
  | entry :: rest => do
      validateAttributeName entry.1
      refuseIf (Misplaced previous entry.1) (.invalid "attribute names are not ascending")
      refuseIf (entry.2.length ≥ 2 ^ 16) (.overflow "attribute value")
      refuseIf ((out ++ writeEntry entry).length > maxAttributeSetBytes) (.overflow "attribute set")
      encodeEntries (some entry.1) (out ++ writeEntry entry) rest

def encodeAttributeSet (entries : List Entry) : Except FormatError Bytes := do
  refuseIf (entries = []) (.invalid "attribute set is empty")
  refuseIf (entries.length ≥ 2 ^ 16) (.overflow "attribute count")
  encodeEntries none (leBytes 2 entries.length ++ leBytes 2 0) entries

def notExact : FormatError := .invalid "attribute set length is not exact"

/-- One entry from the front of what is left, and what follows it. -/
def decodeEntry (previous : Option Utf8) (p : Bytes) : Except FormatError (Entry × Bytes) := do
  refuseIf (p.length < entryHeader) notExact
  let (nameLen, p) := readLe 1 p
  let (reserved, p) := readLe 1 p
  let (valueLen, p) := readLe 2 p
  refuseIf (nameLen = 0) (.invalid "attribute name is empty")
  refuseIf (reserved ≠ 0) (.invalid "attribute entry reserved byte is nonzero")
  refuseIf (p.length < nameLen) notExact
  let (name, p) := readBytes nameLen p
  refuseIf (p.length < valueLen) notExact
  let (value, p) := readBytes valueLen p
  let name ← toUtf8 name
  validateAttributeName name
  refuseIf (Misplaced previous name) (.invalid "attribute names are not ascending")
  pure ((name, value), p)

def decodeEntries : (count : Nat) → (previous : Option Utf8) → Bytes → Except FormatError (List Entry × Bytes)
  | 0, _, p => .ok ([], p)
  | count + 1, previous, p => do
      let (entry, p) ← decodeEntry previous p
      let (entries, p) ← decodeEntries count (some entry.1) p
      pure (entry :: entries, p)

def decodeAttributeSet (bytes : Bytes) : Except FormatError (List Entry) := do
  refuseIf (bytes.length > maxAttributeSetBytes) (.overflow "attribute set")
  refuseIf (bytes.length < setHeader) (.invalid "attribute set too short")
  let (count, p) := readLe 2 bytes
  refuseIf (count = 0) (.invalid "attribute set is empty")
  let (reserved, p) := readLe 2 p
  refuseIf (reserved ≠ 0) (.invalid "attribute set reserved field is nonzero")
  let (entries, p) ← decodeEntries count none p
  refuseIf (p ≠ []) notExact
  pure entries

def LegalName (name : Utf8) : Prop :=
  name.1.length ≤ attributeNameMaxBytes ∧ 0 ∉ name.1 ∧
    ∃ start ∈ attributeNamespaces, start.length < name.1.length ∧ start <+: name.1

def LegalEntry (entry : Entry) : Prop := LegalName entry.1 ∧ entry.2.length < 2 ^ 16

def write (entries : List Entry) : Bytes :=
  leBytes 2 entries.length ++ leBytes 2 0 ++ entries.flatMap writeEntry

/-- Legal names in ascending order, none twice, and lengths within their limits. -/
structure ValidSet (entries : List Entry) : Prop where
  nonempty : entries ≠ []
  count : entries.length < 2 ^ 16
  legal : ∀ entry ∈ entries, LegalEntry entry
  ascending : entries.Pairwise fun a b => a.1.1 < b.1.1
  fits : (write entries).length ≤ maxAttributeSetBytes

variable {name : Utf8}

theorem validateAttributeName_eq_ok : validateAttributeName name = .ok () ↔ LegalName name := by
  rw [validateAttributeName, refuseIf_ok, refuseIf_ok, refuseIf_eq_ok, not_lt, not_not]
  rfl

variable {previous : Option Utf8}

theorem not_misplaced_iff : ¬Misplaced previous name ↔ ∀ last ∈ previous, last.1 < name.1 := by
  simp only [Misplaced, not_exists, not_and, List.not_le]

/-- The entries may follow `previous`. -/
structure Continues (previous : Option Utf8) (entries : List Entry) : Prop where
  legal : ∀ entry ∈ entries, LegalEntry entry
  after : ∀ last ∈ previous, ∀ entry ∈ entries, last.1 < entry.1.1
  ascending : entries.Pairwise fun a b => a.1.1 < b.1.1

theorem continues_nil (previous : Option Utf8) : Continues previous [] :=
  ⟨by simp, by simp, List.Pairwise.nil⟩

theorem continues_cons {entry : Entry} {rest : List Entry} :
    Continues previous (entry :: rest) ↔
      LegalEntry entry ∧ ¬Misplaced previous entry.1 ∧ Continues (some entry.1) rest := by
  rw [not_misplaced_iff]
  constructor
  · intro h
    obtain ⟨hhead, htail⟩ := pairwise_cons.mp h.ascending
    refine ⟨h.legal entry mem_cons_self, ?_, ?_, ?_, htail⟩
    · intro last hlast
      exact h.after last hlast entry mem_cons_self
    · intro other hoth
      exact h.legal other (mem_cons_of_mem _ hoth)
    · rintro _ ⟨⟩ other hoth
      exact hhead other hoth
  · rintro ⟨hlegal, hafter, hrest⟩
    have hhead : ∀ other ∈ rest, entry.1.1 < other.1.1 := hrest.after entry.1 rfl
    refine ⟨forall_mem_cons.mpr ⟨hlegal, hrest.legal⟩, ?_, pairwise_cons.mpr ⟨hhead, hrest.ascending⟩⟩
    intro last hlast other hoth
    rcases mem_cons.mp hoth with rfl | hoth
    · exact hafter last hlast
    · exact List.lt_trans (hafter last hlast) (hhead other hoth)

/-! ### Encoding -/

variable {entries : List Entry} {bytes : Bytes}

theorem encodeEntries_eq_ok {out : Bytes} (hout : out.length ≤ maxAttributeSetBytes) :
    encodeEntries previous out entries = .ok bytes ↔
      Continues previous entries ∧ bytes = out ++ entries.flatMap writeEntry ∧
        bytes.length ≤ maxAttributeSetBytes := by
  induction entries generalizing previous out with
  | nil =>
    rw [encodeEntries, flatMap_nil, append_nil]
    constructor
    · intro h
      obtain rfl := Except.ok.inj h
      exact ⟨continues_nil _, rfl, hout⟩
    · rintro ⟨-, rfl, -⟩
      rfl
  | cons entry rest ih =>
    rw [encodeEntries, check_ok, refuseIf_ok, refuseIf_ok, refuseIf_ok,
      validateAttributeName_eq_ok, continues_cons, flatMap_cons, ← append_assoc]
    constructor
    · rintro ⟨hname, hafter, hvalue, hroom, h⟩
      obtain ⟨hrest, hbytes, hlen⟩ := (ih (not_lt.mp hroom)).mp h
      exact ⟨⟨⟨hname, not_le.mp hvalue⟩, hafter, hrest⟩, hbytes, hlen⟩
    · rintro ⟨⟨hlegal, hafter, hrest⟩, hbytes, hlen⟩
      have hroom : (out ++ writeEntry entry).length ≤ maxAttributeSetBytes := by
        rw [hbytes, length_append] at hlen
        omega
      exact ⟨hlegal.1, hafter, not_le.mpr hlegal.2, not_lt.mpr hroom, (ih hroom).mpr ⟨hrest, hbytes, hlen⟩⟩

theorem continues_none :
    Continues none entries ↔ (∀ entry ∈ entries, LegalEntry entry) ∧ entries.Pairwise fun a b => a.1.1 < b.1.1 :=
  ⟨fun h => ⟨h.legal, h.ascending⟩, fun h => ⟨h.1, fun _ hlast => (by cases hlast), h.2⟩⟩

theorem encodeAttributeSet_eq_ok :
    encodeAttributeSet entries = .ok bytes ↔ ValidSet entries ∧ bytes = write entries := by
  rw [encodeAttributeSet, refuseIf_ok, refuseIf_ok, encodeEntries_eq_ok (by simp [maxAttributeSetBytes]),
    continues_none]
  constructor
  · rintro ⟨hnonempty, hcnt, ⟨hlegal, hascending⟩, rfl, hfits⟩
    exact ⟨⟨hnonempty, not_le.mp hcnt, hlegal, hascending, hfits⟩, rfl⟩
  · rintro ⟨h, rfl⟩
    exact ⟨h.nonempty, not_le.mpr h.count, ⟨h.legal, h.ascending⟩, rfl, h.fits⟩

theorem LegalName.length_ne_zero (h : LegalName name) : name.1.length ≠ 0 := by
  obtain ⟨-, -, start, -, hlong, -⟩ := h
  omega

attribute [local irreducible] readLe readBytes in
theorem decodeEntry_eq_ok {p rest : Bytes} {entry : Entry} :
    decodeEntry previous p = .ok (entry, rest) ↔
      LegalEntry entry ∧ ¬Misplaced previous entry.1 ∧ p = writeEntry entry ++ rest := by
  constructor
  · intro h
    obtain ⟨hshort, h⟩ := of_refuse h
    replace h := after_check h
    obtain ⟨hzero, h⟩ := of_refuse h
    obtain ⟨hname, h⟩ := of_refuse h
    obtain ⟨hvalue, h⟩ := of_refuse h
    obtain ⟨text, htext, h⟩ := of_bind h
    obtain ⟨hlegal, h⟩ := check_ok.mp h
    obtain ⟨hafter, h⟩ := of_refuse h
    obtain ⟨rfl, rfl⟩ := pure_pair_eq_ok.mp h
    rw [not_lt, entryHeader] at hshort
    rw [not_lt, ← min_eq_left_iff, ← length_readBytes_fst] at hname hvalue
    rw [not_not] at hzero
    refine ⟨⟨validateAttributeName_eq_ok.mp hlegal, hvalue.trans_lt (readLe_lt ..)⟩, hafter, ?_⟩
    simp (disch := first | rfl | assumption | omega | simp only [length_readLe]; omega) only [writeEntry,
      toUtf8_eq_ok.mp htext, hname, hvalue, append_assoc, readBytes_fst_append, leBytes_readLe_append]
  · rintro ⟨⟨hname, hvalue⟩, hafter, rfl⟩
    obtain ⟨name, value⟩ := entry
    have hnameLen : name.1.length < 256 ^ 1 := lt_of_le_of_lt hname.1 (by decide)
    have hvalueLen : value.length < 256 ^ 2 := hvalue
    have hlen : (writeEntry (name, value) ++ rest).length = 4 + name.1.length + value.length + rest.length := by
      simp only [writeEntry, length_append, length_leBytes]
    rw [decodeEntry, refuseIf_bind (by rw [hlen, entryHeader]; omega)]
    simp (disch := first | assumption | decide) only [writeEntry, append_assoc, readLe_append, readBytes_append]
    rw [refuseIf_bind hname.length_ne_zero, refuseIf_bind (by simp), refuseIf_bind (by simp), refuseIf_bind (by simp),
      toUtf8_val, ok_bind, check_bind (validateAttributeName_eq_ok.mpr hname), refuseIf_bind hafter]
    rfl

theorem decodeEntries_eq_ok {count : Nat} {p rest : Bytes} :
    decodeEntries count previous p = .ok (entries, rest) ↔
      entries.length = count ∧ Continues previous entries ∧ p = entries.flatMap writeEntry ++ rest := by
  induction count generalizing previous p entries with
  | zero =>
    rw [decodeEntries, Except.ok.injEq, Prod.mk.injEq, length_eq_zero_iff]
    constructor
    · rintro ⟨rfl, rfl⟩
      exact ⟨rfl, continues_nil _, rfl⟩
    · rintro ⟨rfl, -, rfl⟩
      exact ⟨rfl, rfl⟩
  | succ count ih =>
    rw [decodeEntries, bind_ok]
    constructor
    · rintro ⟨⟨entry, p₁⟩, hentry, h⟩
      obtain ⟨⟨others, p₂⟩, hothers, h⟩ := of_bind h
      obtain ⟨rfl, rfl⟩ := pure_pair_eq_ok.mp h
      obtain ⟨hlegal, hafter, rfl⟩ := decodeEntry_eq_ok.mp hentry
      obtain ⟨hlen, hcontinues, rfl⟩ := ih.mp hothers
      refine ⟨by rw [length_cons, hlen], continues_cons.mpr ⟨hlegal, hafter, hcontinues⟩, ?_⟩
      rw [flatMap_cons, append_assoc]
    · rintro ⟨hlen, hcontinues, rfl⟩
      obtain ⟨entry, others, rfl⟩ := exists_cons_of_length_eq_add_one hlen
      obtain ⟨hlegal, hafter, hrest⟩ := continues_cons.mp hcontinues
      rw [flatMap_cons, append_assoc]
      refine ⟨_, decodeEntry_eq_ok.mpr ⟨hlegal, hafter, rfl⟩, ?_⟩
      exact bind_ok.mpr ⟨_, ih.mpr ⟨Nat.succ.inj hlen, hrest, rfl⟩, rfl⟩

attribute [local irreducible] readLe in
theorem decodeAttributeSet_eq_ok :
    decodeAttributeSet bytes = .ok entries ↔ ValidSet entries ∧ bytes = write entries := by
  constructor
  · intro h
    obtain ⟨hlong, h⟩ := of_refuse h
    obtain ⟨hshort, h⟩ := of_refuse h
    obtain ⟨hnonzero, h⟩ := of_refuse h
    obtain ⟨hzero, h⟩ := of_refuse h
    obtain ⟨⟨others, rest⟩, hents, h⟩ := of_bind h
    obtain ⟨hrest, h⟩ := of_refuse h
    obtain rfl := pure_ok.mp h
    obtain rfl := not_not.mp hrest
    rw [not_not] at hzero
    rw [not_lt, setHeader] at hshort
    obtain ⟨hcnt, hcontinues, htail⟩ := decodeEntries_eq_ok.mp hents
    obtain ⟨hlegal, hascending⟩ := continues_none.mp hcontinues
    have hwrite : write entries = bytes := by
      rw [append_nil] at htail
      simp (disch := first | rfl | assumption | omega | simp only [length_readLe]; omega) only [write, hcnt, ← htail,
        append_assoc, leBytes_readLe_append]
    refine ⟨⟨?_, hcnt.trans_lt (readLe_lt ..), hlegal, hascending, hwrite ▸ not_lt.mp hlong⟩, hwrite.symm⟩
    rintro rfl
    exact hnonzero hcnt.symm
  · rintro ⟨h, rfl⟩
    have hlen : setHeader ≤ (write entries).length := by
      simp only [write, length_append, length_leBytes, setHeader]
      omega
    have hnonzero : entries.length ≠ 0 := fun hzero => h.nonempty (length_eq_zero_iff.mp hzero)
    rw [decodeAttributeSet, refuseIf_bind (not_lt.mpr h.fits), refuseIf_bind (not_lt.mpr hlen)]
    have hcnt : entries.length < 256 ^ 2 := h.count
    simp (disch := first | assumption | decide) only [write, append_assoc, readLe_append]
    rw [refuseIf_bind hnonzero, refuseIf_bind (by simp)]
    refine bind_ok.mpr ⟨(entries, []), decodeEntries_eq_ok.mpr ⟨rfl, ?_, ?_⟩, ?_⟩
    · exact continues_none.mpr ⟨h.legal, h.ascending⟩
    · rw [append_nil]
    · exact refuseIf_bind (not_not.mpr rfl) _ _

/-- Sets and segments: what is encoded is read back, what is accepted is the encoding of what it is read as, and
a block is accepted as a segment of the kind it was written for only. -/
theorem attribute_codec :
    (∀ (entries : List Entry) (bytes : Bytes),
      (encodeAttributeSet entries = .ok bytes ↔ ValidSet entries ∧ bytes = write entries) ∧
      (decodeAttributeSet bytes = .ok entries ↔ encodeAttributeSet entries = .ok bytes)) ∧ ∀ kind ∈ chainKinds,
      (∀ (segment : ChainSegment) (blockSize generation : Nat) (block : Bytes), segment.InRange →
        generation < 2 ^ 64 → segment.encode kind blockSize generation = .ok block →
        ChainSegment.decode kind block = .ok (segment, generation) ∧
          ∀ kind' ∈ chainKinds, ∀ result, ChainSegment.decode kind' block = .ok result → kind' = kind) ∧
      ∀ (block : Bytes) (segment : ChainSegment) (generation : Nat),
        ChainSegment.decode kind block = .ok (segment, generation) →
        segment.encode kind block.length generation = .ok block ∧ segment.Valid kind block.length ∧
          segment.InRange ∧ generation < 2 ^ 64 := by
  refine ⟨fun entries bytes => ⟨encodeAttributeSet_eq_ok, ?_⟩, fun kind hkind => ⟨?_, ?_⟩⟩
  · rw [encodeAttributeSet_eq_ok, decodeAttributeSet_eq_ok]
  · intro segment blockSize generation block hrange hgeneration hencode
    have hdecode := ChainSegment.decode_encode (ChainSegment.fits_of_mem hkind) hrange hgeneration hencode
    refine ⟨hdecode, ?_⟩
    rintro kind' hkind' ⟨segment', generation'⟩ hdecode'
    exact ChainSegment.kind_of_blockType hkind hkind' (ChainSegment.blockType_of_decode hdecode hdecode')
  · intro block segment generation hdecode
    obtain ⟨hencode, hrange, hgeneration⟩ := ChainSegment.encode_decode hdecode
    obtain ⟨hvalid, -⟩ := check_ok.mp hencode
    exact ⟨hencode, ChainSegment.validate_eq_ok.mp hvalid, hrange, hgeneration⟩

/-- `aros.c` with one byte and `user.a` without a value. -/
def twoAttributes : List Entry :=
  [(⟨[97, 114, 111, 115, 46, 99], rfl⟩, [7]), (⟨[117, 115, 101, 114, 46, 97], rfl⟩, [])]

theorem attribute_codec_two :
    decodeAttributeSet (write twoAttributes) = .ok twoAttributes ∧
      ∃ block, (⟨9, 1, 0, 25, 0, 1, 0, write twoAttributes⟩ : ChainSegment).encode attributeChain 128 4 = .ok block ∧
        ChainSegment.decode attributeChain block = .ok (⟨9, 1, 0, 25, 0, 1, 0, write twoAttributes⟩, 4) := by
  have hencode : encodeAttributeSet twoAttributes = .ok (write twoAttributes) := by decide
  obtain ⟨block, hblock⟩ : ∃ block, (⟨9, 1, 0, 25, 0, 1, 0, write twoAttributes⟩ : ChainSegment).encode
      attributeChain 128 4 = .ok block := by
    rw [ChainSegment.encode, check_bind (by decide)]
    exact ⟨_, rfl⟩
  refine ⟨((attribute_codec.1 _ _).2).mpr hencode, block, hblock, ?_⟩
  exact ((attribute_codec.2 attributeChain mem_cons_self).1 _ _ _ _ (by constructor <;> simp) (by decide) hblock).1

end AttributeSet

end Afsplus
