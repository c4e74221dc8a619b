import Afsplus.Format.Tree
import Afsplus.Lib.Slices

/-!
# Tree nodes read by offset

The decoder of the source indexes the block: it slices at offsets it computes from lengths that stand in
the block itself. `decodeIndexed` follows it slice by slice, with a stop where a slice would leave the
block. It never stops, and what it returns is what `TreeNode.decode` says.
-/

namespace Afsplus

open Wire Fallible Slices
open List hiding max

namespace BlockHeader

def verifyIndexed (block : Bytes) (expectedType : Nat) : Guarded FormatError BlockHeader := do
  guarded (refuseIf (block.length < headerSize) (.wrongBufferSize headerSize block.length))
  let stored ← getLe 4 block 28
  let front ← slice block 0 28
  let back ← slice block 32 block.length
  let computed := crc32c (front ++ leBytes 4 0 ++ back)
  guarded (refuseIf (stored ≠ computed) (.checksumMismatch stored computed))
  let blockType ← getLe 4 block 0
  guarded (refuseIf (blockType ≠ expectedType) (.wrongBlockType expectedType blockType))
  let version ← getLe 2 block 4
  guarded (refuseIf (version ≠ headerVersion) (.unsupportedHeaderVersion version))
  let payloadLen ← getLe 4 block 24
  let max ← checkedSub block.length headerSize
  guarded (refuseIf (payloadLen > max) (.payloadTooLarge payloadLen max))
  let tail ← slice block (headerSize + payloadLen) block.length
  guarded (refuseIf (tail.any (· != 0)) (.invalid "block unused tail is nonzero"))
  let flags ← getLe 2 block 6
  let owner ← getLe 8 block 8
  let generation ← getLe 8 block 16
  pure ⟨blockType, flags, owner, generation, payloadLen⟩

theorem verify_eq (block : Bytes) (expectedType : Nat) : verify block expectedType = (do
    refuseIf (block.length < headerSize) (.wrongBufferSize headerSize block.length)
    refuseIf ((checksums block).1 ≠ (checksums block).2)
      (.checksumMismatch (checksums block).1 (checksums block).2)
    let h := (readFields block).2
    refuseIf (h.blockType ≠ expectedType) (.wrongBlockType expectedType h.blockType)
    refuseIf ((readFields block).1 ≠ headerVersion)
      (.unsupportedHeaderVersion (readFields block).1)
    refuseIf (h.payloadLen > block.length - headerSize)
      (.payloadTooLarge h.payloadLen (block.length - headerSize))
    refuseIf ((block.drop (headerSize + h.payloadLen)).any (· != 0))
      (.invalid "block unused tail is nonzero")
    pure h) := by
  unfold verify refuseIf
  dsimp only
  repeat' split
  all_goals rfl

theorem readFields_eq (block : Bytes) : readFields block = ((readLe 2 (block.drop 4)).1,
    ⟨(readLe 4 block).1, (readLe 2 (block.drop 6)).1, (readLe 8 (block.drop 8)).1,
      (readLe 8 (block.drop 16)).1, (readLe 4 (block.drop 24)).1⟩) := by
  simp only [readFields, readLe, drop_drop]

theorem verifyIndexed_eq (block : Bytes) (expectedType : Nat) :
    verifyIndexed block expectedType = guarded (verify block expectedType) := by
  rw [verify_eq, verifyIndexed, readFields_eq]
  refine guarded_bind fun _ hlong => ?_
  have hlong : headerSize ≤ block.length := not_lt.mp (refuseIf_eq_ok.mp hlong)
  have hbytes : 32 ≤ block.length := hlong
  rw [getLe_eq (by omega), guarded_ok_bind, slice_eq (by omega) (by omega), guarded_ok_bind,
    slice_end (by omega), guarded_ok_bind]
  refine guarded_bind fun _ _ => ?_
  rw [getLe_eq (by omega), guarded_ok_bind]
  refine guarded_bind fun _ _ => ?_
  rw [getLe_eq (by omega), guarded_ok_bind]
  refine guarded_bind fun _ _ => ?_
  rw [getLe_eq (by omega), guarded_ok_bind, checkedSub_eq hlong, guarded_ok_bind]
  refine guarded_bind fun _ hroom => ?_
  have hroom := not_lt.mp (refuseIf_eq_ok.mp hroom)
  rw [slice_end (by omega), guarded_ok_bind]
  refine guarded_bind fun _ _ => ?_
  rw [getLe_eq (by omega), guarded_ok_bind, getLe_eq (by omega), guarded_ok_bind,
    getLe_eq (by omega), guarded_ok_bind]
  rfl

theorem payload_indexed {h : BlockHeader} {block : Bytes} (hroom : headerSize + h.payloadLen ≤ block.length) :
    slice block headerSize (headerSize + h.payloadLen) =
      (guarded (.ok (h.payload block)) : Guarded FormatError _) := by
  rw [slice_eq (Nat.le_add_right _ _) hroom, Nat.add_sub_cancel_left, payload]

end BlockHeader

namespace TreeNode

/-- The loop over the items, from an offset on. -/
def decodeItemsIndexed (p : Bytes) : (count offset : Nat) → Guarded FormatError (List TreeItem × Nat)
  | 0, offset => pure ([], offset)
  | count + 1, offset => do
    let room ← checkedSub p.length offset
    guarded (refuseIf (room < treeItemFixed) (.invalid "truncated tree item"))
    let keyLen ← getLe 2 p offset
    let valueLen ← getLe 2 p (offset + 2)
    let reserved ← getLe 4 p (offset + 4)
    guarded (refuseIf (reserved ≠ 0) (.invalid "tree item reserved field is nonzero"))
    let offset := offset + treeItemFixed
    let room ← checkedSub p.length offset
    guarded (refuseIf (keyLen > room ∨ valueLen > room - keyLen)
      (.invalid "tree item lengths exceed payload"))
    let key ← slice p offset (offset + keyLen)
    let offset := offset + keyLen
    let value ← slice p offset (offset + valueLen)
    let offset := offset + valueLen
    let (items, offset) ← decodeItemsIndexed p count offset
    pure (⟨key, value⟩ :: items, offset)

def decodeIndexed (block : Bytes) : Guarded FormatError (TreeNode × Nat) := do
  let header ← BlockHeader.verifyIndexed block BlockType.treeNode
  let p ← slice block headerSize (headerSize + header.payloadLen)
  guarded (refuseIf (p.length < treeFixedPayload) (.invalid "tree node payload too short"))
  let reserved ← getLe 2 p 2
  guarded (refuseIf (header.flags ≠ 0 ∨ header.generation = 0 ∨ reserved ≠ 0)
    (.invalid "tree node header fields are invalid"))
  let count ← getLe 4 p 4
  let room ← checkedSub p.length treeFixedPayload
  guarded (refuseIf (count > room / treeItemFixed) (.invalid "tree item count exceeds payload"))
  let (items, offset) ← decodeItemsIndexed p count treeFixedPayload
  guarded (refuseIf (offset ≠ p.length) (.invalid "tree node payload length mismatch"))
  let kind ← getLe 1 p 0
  let kind ← guarded (TreeKind.fromWire kind)
  let level ← getLe 1 p 1
  let subtreeItems ← getLe 8 p 8
  let leftmostChild ← getLe 8 p 16
  let leftmostItems ← getLe 8 p 24
  let node : TreeNode := ⟨kind, header.owner, level, subtreeItems, leftmostChild, leftmostItems, items⟩
  guarded node.validate
  pure (node, header.generation)

theorem decodeItemsIndexed_eq (p : Bytes) (count : Nat) {offset : Nat} (hoff : offset ≤ p.length) :
    decodeItemsIndexed p count offset = guarded (do
      let result ← decodeItems count (p.drop offset)
      pure (result.1, p.length - result.2.length)) := by
  induction count generalizing offset with
  | zero =>
    show guarded (.ok ([], offset)) = guarded (.ok ([], p.length - (p.drop offset).length))
    rw [length_drop, Nat.sub_sub_self hoff]
  | succ count ih =>
    rw [decodeItemsIndexed, decodeItems, checkedSub_eq hoff, guarded_ok_bind]
    simp only [bind_assoc, length_drop]
    refine guarded_bind fun _ hroom => ?_
    have hroom : 8 ≤ p.length - offset := not_lt.mp (refuseIf_eq_ok.mp hroom)
    have hitem : offset + treeItemFixed ≤ p.length := by
      rw [treeItemFixed]
      omega
    rw [getLe_eq (by omega), guarded_ok_bind, getLe_eq (by omega), guarded_ok_bind,
      getLe_eq (by omega), guarded_ok_bind]
    simp only [readLe, readBytes, drop_drop, length_drop]
    refine guarded_bind fun _ _ => ?_
    rw [checkedSub_eq hitem, guarded_ok_bind]
    refine guarded_bind fun _ hbounds => ?_
    have hbounds := refuseIf_eq_ok.mp hbounds
    rw [not_or, not_lt, not_lt] at hbounds
    rw [slice_eq (by omega) (by omega), guarded_ok_bind, slice_eq (by omega) (by omega),
      guarded_ok_bind, ih (by omega)]
    rw [show offset + 2 + 2 + 4 = offset + treeItemFixed from rfl]
    simp only [Nat.add_sub_cancel_left]
    cases decodeItems count _ with
    | error e => rfl
    | ok result => rfl

variable {count : Nat} {items : List TreeItem}

theorem decodeItems_length {p rest : Bytes}
    (h : decodeItems count p = .ok (items, rest)) : rest.length ≤ p.length := by
  rw [← (flatMap_decodeItems h).1, length_append]
  exact Nat.le_add_left _ _

/-- The decoder stays inside the block, whatever its bytes are. -/
theorem decodeIndexed_eq (block : Bytes) : decodeIndexed block = guarded (decode block) := by
  rw [decodeIndexed, BlockHeader.verifyIndexed_eq, decode]
  refine guarded_bind fun header hverify => ?_
  rw [BlockHeader.payload_indexed (BlockHeader.admitted_of_verify hverify).room, guarded_ok_bind]
  generalize header.payload block = p
  refine guarded_bind fun _ hshort => ?_
  have hlong : treeFixedPayload ≤ p.length := not_lt.mp (refuseIf_eq_ok.mp hshort)
  have hbytes : 32 ≤ p.length := hlong
  rw [getLe_eq (by omega), guarded_ok_bind]
  simp only [readLe, drop_drop, Nat.reduceAdd]
  refine guarded_bind fun _ _ => ?_
  rw [getLe_eq (by omega), guarded_ok_bind, checkedSub_eq hlong, guarded_ok_bind]
  refine guarded_bind fun _ _ => ?_
  rw [decodeItemsIndexed_eq p _ hlong]
  refine guarded_map_bind fun result hitems => ?_
  have hrest := decodeItems_length hitems
  have hend : (p.length - result.2.length ≠ p.length) = (result.2 ≠ []) := by
    rw [length_drop] at hrest
    rw [ne_eq, ne_eq, ← length_eq_zero_iff]
    exact propext ⟨by omega, by omega⟩
  simp only [hend]
  refine guarded_bind fun _ _ => ?_
  rw [getLe_eq (by omega), guarded_ok_bind]
  refine guarded_bind fun kind _ => ?_
  rw [getLe_eq (by omega), guarded_ok_bind, getLe_eq (by omega), guarded_ok_bind,
    getLe_eq (by omega), guarded_ok_bind, getLe_eq (by omega), guarded_ok_bind]
  exact guarded_bind fun _ _ => rfl

/-! ### The codec -/

/-- Nodes are reproduced exactly and read without leaving the block. What the encoder does not check is
that the length of the payload fits the header. -/
theorem tree_node_codec_exact :
    (∀ (node : TreeNode) (blockSize generation : Nat) (block : Bytes), node.InRange →
      generation < 256 ^ 8 → node.encode blockSize generation = .ok block →
      (decode block = .ok (node, generation) ↔ node.encodedLen < 256 ^ 4)) ∧
    (∀ (block : Bytes) (node : TreeNode) (generation : Nat),
      decode block = .ok (node, generation) → node.encode block.length generation = .ok block) ∧
    ∀ block : Bytes, (decodeIndexed block).run = some (decode block) := by
  refine ⟨?_, ?_, ?_⟩
  · intro node blockSize generation block hrange hgeneration hencode
    constructor
    · intro hdecode
      exact (encode_decode hdecode).2
    · intro hfits
      exact decode_of_encode hrange hgeneration hfits hencode
  · intro block node generation hdecode
    exact (encode_decode hdecode).1
  · intro block
    rw [decodeIndexed_eq]
    rfl

/-- A directory node with three children of two entries each. -/
def branch : TreeNode := ⟨.directory, 5, 1, 6, 39, 2,
  [⟨[97], leBytes 8 40 ++ leBytes 8 2⟩, ⟨[98, 99], leBytes 8 41 ++ leBytes 8 2⟩]⟩

theorem tree_node_codec_exact_branch : ∃ block, branch.encode 4096 7 = .ok block ∧
    decode block = .ok (branch, 7) ∧ branch.encode block.length 7 = .ok block := by
  have hencode : branch.encode 4096 7 = .ok ((branch.header 7).sealPayload 4096 branch.payload) :=
    encode_eq_ok.mpr ⟨by decide, by decide, by decide, by decide, by decide, rfl⟩
  have hdecode := (tree_node_codec_exact.1 _ 4096 7 _
    ⟨by decide, by decide, by decide, by decide⟩ (by decide) hencode).mpr (by decide)
  exact ⟨_, hencode, hdecode, tree_node_codec_exact.2.1 _ _ _ hdecode⟩

/-- Items with the keys from `first` on, each with the largest value there is. -/
def largeItems : (count first : Nat) → List TreeItem
  | 0, _ => []
  | count + 1, first => ⟨keyU32 first, List.replicate 65535 0⟩ :: largeItems count (first + 1)

def largeLeaf (count : Nat) : TreeNode := ⟨.directory, 1, 0, count, 0, 0, largeItems count 0⟩

theorem length_largeItems (count first : Nat) : (largeItems count first).length = count := by
  induction count generalizing first with
  | zero => rfl
  | succ count ih => rw [largeItems, length_cons, ih]

theorem mem_largeItems {first : Nat} {item : TreeItem} (h : item ∈ largeItems count first) :
    item.key.length = 4 ∧ item.value.length = 65535 := by
  induction count generalizing first with
  | zero => cases h
  | succ count ih =>
    rcases mem_cons.mp h with rfl | hmem
    · exact ⟨by rw [keyU32, length_reverse, length_leBytes], length_replicate⟩
    · exact ih hmem

theorem keysAscending_largeItems {first : Nat} (h : first + count < 256 ^ 4) :
    keysAscending (largeItems count first) = true := by
  induction count generalizing first with
  | zero => rfl
  | succ count ih =>
    cases count with
    | zero => rfl
    | succ count =>
      have hrest := ih (show first + 1 + (count + 1) < 256 ^ 4 by omega)
      have hlt : keyU32 first < keyU32 (first + 1) :=
        (reverse_leBytes_lt (by omega) (by omega)).mpr (Nat.lt_succ_self first)
      rw [largeItems, largeItems, keysAscending, decide_eq_true hlt, Bool.true_and]
      exact hrest

theorem checkItems_eq_ok (h : ∀ item ∈ items, item.key ≠ [] ∧
    item.key.length ≤ maxTreeKeyBytes ∧ item.value ≠ []) : checkItems items = .ok () := by
  induction items with
  | nil => rfl
  | cons item rest ih =>
    obtain ⟨⟨hkey, hlen, hvalue⟩, hrest⟩ := forall_mem_cons.mp h
    rw [checkItems, refuseIf_bind (not_or.mpr ⟨hkey, not_lt.mpr hlen⟩), refuseIf_bind hvalue]
    exact ih hrest

theorem sum_itemLen_largeItems (count first : Nat) : ((largeItems count first).map itemLen).sum = count * 65547 := by
  induction count generalizing first with
  | zero => rfl
  | succ count ih =>
    rw [largeItems, map_cons, sum_cons, ih, itemLen, keyU32, length_reverse,
      length_leBytes, length_replicate, treeItemFixed]
    omega

theorem validate_largeLeaf (h : count < 256 ^ 4) : (largeLeaf count).validate = .ok () := by
  have hitems : checkItems (largeItems count 0) = .ok () := by
    apply checkItems_eq_ok
    intro item hmem
    obtain ⟨hkey, hvalue⟩ := mem_largeItems hmem
    refine ⟨?_, ?_, ?_⟩
    · exact ne_nil_of_length_pos (by omega)
    · rw [hkey]
      decide
    · exact ne_nil_of_length_pos (by omega)
  have hascending : ¬keysAscending (largeItems count 0) = false := by
    rw [keysAscending_largeItems (by omega)]
    decide
  have hcnts : ¬((largeLeaf count).leftmostChild ≠ 0 ∨ (largeLeaf count).leftmostItems ≠ 0 ∨
      (largeLeaf count).subtreeItems ≠ (largeLeaf count).items.length) := by
    rw [largeLeaf, length_largeItems]
    simp
  unfold validate
  refine refuseIf_ok.mpr ⟨show ¬0 > maxTreeLevel by decide, ?_⟩
  refine check_ok.mpr ⟨hitems, ?_⟩
  refine refuseIf_ok.mpr ⟨hascending, ?_⟩
  exact refuseIf_eq_ok.mpr hcnts

theorem encodedLen_largeLeaf (count : Nat) : (largeLeaf count).encodedLen = 32 + count * 65547 := by
  rw [encodedLen, largeLeaf, sum_itemLen_largeItems, treeFixedPayload]

theorem encode_largeLeaf {blockSize : Nat} (hcnt : count < 256 ^ 4)
    (hroom : 64 + count * 65547 ≤ blockSize) : (largeLeaf count).encode blockSize 1 =
      .ok (((largeLeaf count).header 1).sealPayload blockSize (largeLeaf count).payload) := by
  refine encode_eq_ok.mpr ⟨Nat.one_ne_zero, validate_largeLeaf hcnt, ?_, ?_, ?_, rfl⟩
  · rw [encodedLen_largeLeaf, headerSize]
    omega
  · rw [largeLeaf, length_largeItems]
    omega
  · intro item hmem
    obtain ⟨hkey, hvalue⟩ := mem_largeItems hmem
    omega

theorem decode_largeLeaf (hcnt : 256 ^ 4 ≤ 32 + count * 65547) (block : Bytes) :
    decode block ≠ .ok (largeLeaf count, 1) := by
  intro hdec
  have hfits := (encode_decode hdec).2
  rw [encodedLen_largeLeaf] at hfits
  omega

/-- A leaf of more than four gigabytes is written with its length cut to four bytes. -/
theorem tree_node_unreadable :
    ∃ (node : TreeNode) (block : Bytes), node.InRange ∧ node.encode (2 ^ 33) 1 = .ok block ∧
      decode block ≠ .ok (node, 1) := by
  have hencode := encode_largeLeaf (show 65600 < 256 ^ 4 by decide)
    (show 64 + 65600 * 65547 ≤ 2 ^ 33 by decide)
  have hdecode := decode_largeLeaf (show 256 ^ 4 ≤ 32 + 65600 * 65547 by decide)
  refine ⟨largeLeaf 65600, _, ⟨?_, ?_, ?_, ?_⟩, hencode, hdecode _⟩
  · show 1 < 256 ^ 8
    decide
  · show 65600 < 256 ^ 8
    decide
  · show 0 < 256 ^ 8
    decide
  · show 0 < 256 ^ 8
    decide

end TreeNode

end Afsplus
