import Afsplus.Format.Header

/-!
# Tree nodes

One node format serves every tree of the volume. The typed adapters own the meaning of keys and
values; the node owns order, counts and levels, and nothing that breaks them encodes or decodes.
-/

namespace Afsplus

open Wire Fallible List BlockHeader

def treeFixedPayload : Nat := 32

def treeItemFixed : Nat := 8

def maxTreeLevel : Nat := 15

def maxTreeKeyBytes : Nat := 1020

inductive TreeKind where
  | objectMap
  | directory
  | extentMap
  | allocationRoot
  | sharedExtents
  | snapshotRegistry
  | snapshotLifetimes
  deriving DecidableEq, Repr

namespace TreeKind

def toWire : TreeKind → Nat
  | .objectMap => 1
  | .directory => 2
  | .extentMap => 3
  | .allocationRoot => 4
  | .sharedExtents => 5
  | .snapshotRegistry => 6
  | .snapshotLifetimes => 7

def fromWire : Nat → Except FormatError TreeKind
  | 1 => .ok .objectMap
  | 2 => .ok .directory
  | 3 => .ok .extentMap
  | 4 => .ok .allocationRoot
  | 5 => .ok .sharedExtents
  | 6 => .ok .snapshotRegistry
  | 7 => .ok .snapshotLifetimes
  | _ => .error (.invalid "unknown tree kind")

theorem fromWire_toWire (kind : TreeKind) : fromWire kind.toWire = .ok kind := by
  cases kind <;> rfl

theorem toWire_of_fromWire {n : Nat} {kind : TreeKind} (h : fromWire n = .ok kind) : kind.toWire = n := by
  unfold fromWire at h
  split at h
  all_goals cases h
  all_goals rfl

end TreeKind

structure TreeItem where
  key : Bytes
  /-- Leaf value, or a 16-byte child reference in an internal node. -/
  value : Bytes
  deriving DecidableEq, Repr

structure ChildRef where
  lba : Lba
  subtreeItems : Nat
  deriving DecidableEq, Repr

structure TreeNode where
  kind : TreeKind
  owner : Nat
  level : Nat
  subtreeItems : Nat
  leftmostChild : Lba
  leftmostItems : Nat
  items : List TreeItem
  deriving DecidableEq, Repr

namespace TreeNode

def leaf (kind : TreeKind) (owner : Nat) : TreeNode := ⟨kind, owner, 0, 0, 0, 0, []⟩

def isLeaf (node : TreeNode) : Bool := node.level == 0

def childRef (item : TreeItem) : Except FormatError ChildRef := do
  refuseIf (item.value.length ≠ 16) (.invalid "internal tree child has wrong size")
  let (lba, p) := readLe 8 item.value
  let (subtreeItems, _) := readLe 8 p
  refuseIf (lba = 0 ∨ subtreeItems = 0) (.invalid "internal tree child is zero")
  pure ⟨lba, subtreeItems⟩

def checkItems : List TreeItem → Except FormatError Unit
  | [] => .ok ()
  | item :: rest => do
    refuseIf (item.key = [] ∨ item.key.length > maxTreeKeyBytes)
      (.invalid "tree key length out of range")
    refuseIf (item.value = []) (.invalid "tree value is empty")
    checkItems rest

def keysAscending : List TreeItem → Bool
  | a :: b :: rest => decide (a.key < b.key) && keysAscending (b :: rest)
  | _ => true

/-- Items below an internal node, from its leftmost child on. -/
def countChildren : Nat → List TreeItem → Except FormatError Nat
  | counted, [] => .ok counted
  | counted, item :: rest => do
    let child ← childRef item
    refuseIf (counted + child.subtreeItems ≥ 2 ^ 64) (.overflow "tree subtree item count")
    countChildren (counted + child.subtreeItems) rest

def checkCounts (node : TreeNode) : Except FormatError Unit :=
  if node.isLeaf then
    refuseIf (node.leftmostChild ≠ 0 ∨ node.leftmostItems ≠ 0 ∨
        node.subtreeItems ≠ node.items.length)
      (.invalid "leaf tree accounting is inconsistent")
  else do
    refuseIf (node.leftmostChild = 0 ∨ node.leftmostItems = 0 ∨ node.items = [])
      (.invalid "internal tree node has no children")
    let counted ← countChildren node.leftmostItems node.items
    refuseIf (node.subtreeItems ≠ counted) (.invalid "internal tree item count is inconsistent")

def validate (node : TreeNode) : Except FormatError Unit := do
  refuseIf (node.level > maxTreeLevel) (.invalid "tree level exceeds implementation cap")
  checkItems node.items
  refuseIf (keysAscending node.items = false) (.invalid "tree keys not strictly ordered")
  node.checkCounts

def itemLen (item : TreeItem) : Nat := treeItemFixed + item.key.length + item.value.length

def encodedLen (node : TreeNode) : Nat := treeFixedPayload + (node.items.map itemLen).sum

def encodeItem (item : TreeItem) : Bytes :=
  leBytes 2 item.key.length ++ leBytes 2 item.value.length ++ leBytes 4 0 ++ item.key ++ item.value

def payload (node : TreeNode) : Bytes :=
  leBytes 1 node.kind.toWire ++ leBytes 1 node.level ++ leBytes 2 0 ++
    leBytes 4 node.items.length ++ leBytes 8 node.subtreeItems ++ leBytes 8 node.leftmostChild ++
    leBytes 8 node.leftmostItems ++ node.items.flatMap encodeItem

def header (node : TreeNode) (generation : Nat) : BlockHeader :=
  ⟨BlockType.treeNode, 0, node.owner, generation, node.encodedLen⟩

def encode (node : TreeNode) (blockSize generation : Nat) : Except FormatError Bytes := do
  refuseIf (generation = 0) (.invalid "tree generation must be nonzero")
  node.validate
  refuseIf (node.encodedLen > blockSize - headerSize) (.overflow "tree node exceeds one block")
  refuseIf (node.items.length > 2 ^ 32 - 1) (.overflow "tree node item count")
  refuseIf (∃ item ∈ node.items, item.key.length > 65535 ∨ item.value.length > 65535)
    (.overflow "tree item length")
  pure ((node.header generation).sealPayload blockSize node.payload)

/-! ### Decoding -/

def decodeItems : Nat → Bytes → Except FormatError (List TreeItem × Bytes)
  | 0, p => .ok ([], p)
  | count + 1, p => do
    refuseIf (p.length < treeItemFixed) (.invalid "truncated tree item")
    let (keyLen, p) := readLe 2 p
    let (valueLen, p) := readLe 2 p
    let (reserved, p) := readLe 4 p
    refuseIf (reserved ≠ 0) (.invalid "tree item reserved field is nonzero")
    refuseIf (keyLen > p.length ∨ valueLen > p.length - keyLen)
      (.invalid "tree item lengths exceed payload")
    let (key, p) := readBytes keyLen p
    let (value, p) := readBytes valueLen p
    let (items, p) ← decodeItems count p
    pure (⟨key, value⟩ :: items, p)

def decode (block : Bytes) : Except FormatError (TreeNode × Nat) := do
  let header ← verify block BlockType.treeNode
  let p := header.payload block
  let length := p.length
  refuseIf (length < treeFixedPayload) (.invalid "tree node payload too short")
  let (kind, p) := readLe 1 p
  let (level, p) := readLe 1 p
  let (reserved, p) := readLe 2 p
  refuseIf (header.flags ≠ 0 ∨ header.generation = 0 ∨ reserved ≠ 0)
    (.invalid "tree node header fields are invalid")
  let (count, p) := readLe 4 p
  refuseIf (count > (length - treeFixedPayload) / treeItemFixed)
    (.invalid "tree item count exceeds payload")
  let (subtreeItems, p) := readLe 8 p
  let (leftmostChild, p) := readLe 8 p
  let (leftmostItems, p) := readLe 8 p
  let (items, p) ← decodeItems count p
  refuseIf (p ≠ []) (.invalid "tree node payload length mismatch")
  let kind ← TreeKind.fromWire kind
  let node : TreeNode := ⟨kind, header.owner, level, subtreeItems, leftmostChild, leftmostItems, items⟩
  node.validate
  pure (node, header.generation)

structure InRange (node : TreeNode) : Prop where
  owner : node.owner < 256 ^ 8
  subtreeItems : node.subtreeItems < 256 ^ 8
  leftmostChild : node.leftmostChild < 256 ^ 8
  leftmostItems : node.leftmostItems < 256 ^ 8

theorem length_encodeItem (item : TreeItem) : (encodeItem item).length = itemLen item := by
  simp only [encodeItem, length_append, length_leBytes, itemLen, treeItemFixed]

theorem length_flatMap_encodeItem (items : List TreeItem) :
    (items.flatMap encodeItem).length = (items.map itemLen).sum := by
  rw [length_flatMap]
  exact congrArg List.sum (map_congr_left fun item _ => length_encodeItem item)

theorem length_payload (node : TreeNode) : node.payload.length = node.encodedLen := by
  unfold payload
  simp only [length_append, length_leBytes, length_flatMap_encodeItem, encodedLen, treeFixedPayload]

theorem itemCount_le (items : List TreeItem) : items.length * treeItemFixed ≤ (items.map itemLen).sum := by
  induction items with
  | nil => simp
  | cons item rest ih =>
    simp only [length_cons, map_cons, sum_cons, itemLen, Nat.succ_mul]
    omega

variable {items : List TreeItem}

theorem decodeItems_append
    (hshort : ∀ item ∈ items, item.key.length < 256 ^ 2 ∧ item.value.length < 256 ^ 2) (rest : Bytes) :
    decodeItems items.length (items.flatMap encodeItem ++ rest) = .ok (items, rest) := by
  induction items with
  | nil => rfl
  | cons item tail ih =>
    obtain ⟨hkey, hvalue⟩ := hshort item (by simp)
    have htail := ih fun x hx => hshort x (by simp [hx])
    have hroom : ¬(encodeItem item ++ (tail.flatMap encodeItem ++ rest)).length < treeItemFixed := by
      rw [length_append, length_encodeItem, itemLen]
      omega
    rw [flatMap_cons, append_assoc, length_cons, decodeItems, refuseIf_bind hroom]
    simp (disch := first | assumption | decide) only [encodeItem, append_assoc, readLe_append]
    rw [refuseIf_bind (by simp), refuseIf_bind (by simp only [length_append]; omega)]
    simp only [readBytes_append]
    exact bind_ok.mpr ⟨_, htail, rfl⟩

variable {blockSize generation : Nat} {node : TreeNode} {block : Bytes}

theorem encode_eq_ok :
    node.encode blockSize generation = .ok block ↔
      generation ≠ 0 ∧ node.validate = .ok () ∧ node.encodedLen ≤ blockSize - headerSize ∧
      node.items.length ≤ 2 ^ 32 - 1 ∧ (∀ item ∈ node.items, item.key.length ≤ 65535 ∧ item.value.length ≤ 65535) ∧
      block = (node.header generation).sealPayload blockSize node.payload := by
  unfold encode
  rw [refuseIf_ok, check_ok, refuseIf_ok, refuseIf_ok, refuseIf_ok, pure_ok]
  simp only [not_exists, not_and, not_or, not_lt]

theorem decode_of_encode (hrng : node.InRange)
    (hgenerationRange : generation < 256 ^ 8) (hfits : node.encodedLen < 256 ^ 4)
    (henc : node.encode blockSize generation = .ok block) : decode block = .ok (node, generation) := by
  obtain ⟨hgen, hval, hroom, hcnt, hshort, rfl⟩ := encode_eq_ok.mp henc
  have hlen := length_payload node
  have hlevel : node.level ≤ 15 := by
    obtain ⟨hlevel, -⟩ := of_refuse hval
    simp only [maxTreeLevel] at hlevel
    omega
  have hhdr : (node.header generation).InRange := inRange_mk hrng.owner hgenerationRange hfits
  have hkindRange : node.kind.toWire < 256 ^ 1 := by
    cases node.kind <;> decide
  have hlevelRange : node.level < 256 ^ 1 := by omega
  have hcountRange : node.items.length < 256 ^ 4 := by omega
  have hitems := decodeItems_append (fun item hitem => by
    have := hshort item hitem
    omega) []
  rw [append_nil] at hitems
  unfold decode
  refine bind_ok.mpr ⟨_, verify_sealPayload hhdr hlen.symm _, ?_⟩
  rw [payload_sealPayload hlen.symm, refuseIf_bind (by rw [hlen, encodedLen]; omega), hlen]
  unfold payload
  cases hrng
  simp (disch := first | assumption | decide) only [append_assoc, readLe_append]
  have hfew : node.items.length ≤ (node.encodedLen - treeFixedPayload) / treeItemFixed := by
    have := itemCount_le node.items
    rw [encodedLen, Nat.add_sub_cancel_left]
    exact (Nat.le_div_iff_mul_le (by decide)).mpr this
  rw [refuseIf_bind (by simp [header, hgen]), refuseIf_bind (not_lt.mpr hfew)]
  refine bind_ok.mpr ⟨_, hitems, ?_⟩
  rw [refuseIf_bind (by simp)]
  refine bind_ok.mpr ⟨_, TreeKind.fromWire_toWire _, ?_⟩
  exact check_ok.mpr ⟨hval, rfl⟩

theorem decode_encode (hrng : node.InRange) (hsize : blockSize < 256 ^ 4) (hgenerationRange : generation < 256 ^ 8)
    (henc : node.encode blockSize generation = .ok block) : decode block = .ok (node, generation) := by
  obtain ⟨-, -, hroom, -⟩ := encode_eq_ok.mp henc
  exact decode_of_encode hrng hgenerationRange (by omega) henc

attribute [local irreducible] readLe readBytes in
theorem flatMap_decodeItems {count : Nat} {p rest : Bytes}
    (h : decodeItems count p = .ok (items, rest)) :
    items.flatMap encodeItem ++ rest = p ∧ items.length = count ∧
      ∀ item ∈ items, item.key.length ≤ 65535 ∧ item.value.length ≤ 65535 := by
  induction count generalizing p items with
  | zero =>
    cases h
    simp
  | succ count ih =>
    obtain ⟨hroom, h⟩ := of_refuse h
    have hlen : 8 ≤ p.length := not_lt.mp hroom
    obtain ⟨hzero, h⟩ := of_refuse h
    obtain ⟨hbounds, h⟩ := of_refuse h
    rw [not_or, not_lt, not_lt] at hbounds
    obtain ⟨⟨tail, rest'⟩, htail, h⟩ := of_bind h
    cases h
    obtain ⟨hwritten, hcnt, hshort⟩ := ih htail
    have hkey := Nat.min_eq_left hbounds.1
    have hvalue := Nat.min_eq_left hbounds.2
    rw [← length_readBytes_fst] at hkey
    rw [← length_readBytes, ← length_readBytes_fst] at hvalue
    refine ⟨?_, ?_, ?_⟩
    · rw [flatMap_cons, append_assoc, hwritten, encodeItem]
      simp (disch := first | rfl | exact not_not.mp hzero | omega | simp only [length_readLe]; omega) only
        [append_assoc, hkey, hvalue, leBytes_readLe_append, readBytes_fst_append]
    · rw [length_cons, hcnt]
    · refine forall_mem_cons.mpr ⟨⟨?_, ?_⟩, hshort⟩
      · exact hkey.trans_le (Nat.le_of_lt_succ (readLe_lt ..))
      · exact hvalue.trans_le (Nat.le_of_lt_succ (readLe_lt ..))

attribute [local irreducible] readLe in
theorem encode_decode {generation : Nat} (hdec : decode block = .ok (node, generation)) :
    node.encode block.length generation = .ok block ∧ node.encodedLen < 256 ^ 4 := by
  obtain ⟨header, hadm, h⟩ := admitted_of_bind hdec
  obtain ⟨hshort, h⟩ := of_refuse h
  have hpay := hadm.length_payload
  have hsealed := hadm.sealed
  generalize header.payload block = p at hpay hsealed hshort h
  obtain ⟨hfields, h⟩ := of_refuse h
  replace h := after_check h
  obtain ⟨⟨items, rest⟩, hitems, h⟩ := of_bind h
  obtain ⟨hrest, h⟩ := of_refuse h
  obtain ⟨kind, hkind, h⟩ := of_bind h
  obtain ⟨hval, h⟩ := check_ok.mp h
  obtain ⟨hnode, rfl⟩ := pure_pair_eq_ok.mp h
  simp only [not_or, not_not, not_lt, ne_eq, treeFixedPayload] at hfields hrest hshort
  obtain ⟨hflags, hgen, hzero⟩ := hfields
  obtain ⟨hwritten, hitemCount, hitemShort⟩ := flatMap_decodeItems hitems
  rw [hrest, append_nil] at hwritten
  have hnodePayload : node.payload = p := by
    rw [hnode, payload]
    simp (disch := first | rfl | assumption | omega | simp only [length_readLe]; omega) only [hwritten, hitemCount,
      TreeKind.toWire_of_fromWire hkind, append_assoc, leBytes_readLe_append]
  have hnodeLen : header.payloadLen = node.encodedLen := by
    rw [← length_payload, hnodePayload, hpay]
  have hhdr : header = node.header header.generation :=
    hadm.eq_mk hflags (congrArg TreeNode.owner hnode).symm rfl hnodeLen
  have hroom := hadm.room
  have hcnt := hitemCount.trans_lt (readLe_lt 4 _)
  refine ⟨encode_eq_ok.mpr ⟨hgen, hnode ▸ hval, by omega, ?_, ?_, ?_⟩,
    hnodeLen ▸ hadm.inRange.payloadLen⟩
  · rw [hnode]
    exact Nat.le_of_lt_succ hcnt
  · rw [hnode]
    exact hitemShort
  · rw [← hhdr, hnodePayload]
    exact hsealed

theorem validate_of_decode {generation : Nat} (h : decode block = .ok (node, generation)) : node.validate = .ok () :=
  (encode_eq_ok.mp (encode_decode h).1).2.1

theorem pairwise_of_keysAscending (h : keysAscending items = true) :
    items.Pairwise fun a b => a.key < b.key := by
  induction items with
  | nil => exact List.Pairwise.nil
  | cons a rest ih =>
    cases rest with
    | nil => exact pairwise_singleton _ _
    | cons b rest =>
      rw [keysAscending, Bool.and_eq_true, decide_eq_true_eq] at h
      have hrest := ih h.2
      refine pairwise_cons.mpr ⟨forall_mem_cons.mpr ⟨h.1, fun c hc => ?_⟩, hrest⟩
      exact Std.lt_trans h.1 ((pairwise_cons.mp hrest).1 c hc)

theorem sorted_of_validate (h : node.validate = .ok ()) :
    node.level ≤ maxTreeLevel ∧ node.items.Pairwise fun a b => a.key < b.key := by
  obtain ⟨hlevel, h⟩ := of_refuse h
  have hkeys := (of_refuse (after_check h)).1
  exact ⟨not_lt.mp hlevel, pairwise_of_keysAscending (by simpa using hkeys)⟩

theorem not_lt_of_first (hsorted : items.Pairwise fun a b => a.key < b.key) {low : Bytes}
    (hfirst : ∀ first ∈ items.head?, ¬first.key < low) : ∀ item ∈ items, ¬item.key < low := by
  cases items with
  | nil => exact fun item hitem => nomatch hitem
  | cons first rest =>
    have hfirst := hfirst first rfl
    refine forall_mem_cons.mpr ⟨hfirst, fun item hitem hlt => ?_⟩
    exact hfirst (Std.lt_trans ((pairwise_cons.mp hsorted).1 item hitem) hlt)

theorem lt_of_last (hsorted : items.Pairwise fun a b => a.key < b.key) {high : Bytes}
    (hlast : ∀ last ∈ items.getLast?, last.key < high) : ∀ item ∈ items, item.key < high := by
  cases hend : items.getLast? with
  | none => simp [getLast?_eq_none_iff.mp hend]
  | some last =>
    obtain ⟨front, rfl⟩ := getLast?_eq_some_iff.mp hend
    have hlast := hlast last hend
    refine forall_mem_append.mpr ⟨fun item hitem => ?_, forall_mem_singleton.mpr hlast⟩
    exact Std.lt_trans ((pairwise_append.mp hsorted).2.2 item hitem last (by simp)) hlast

end TreeNode

/-! ### Keys and child references -/

/-- Fixed-width keys are big-endian, so byte order is numeric order. -/
def keyU64 (value : Nat) : Bytes := (leBytes 8 value).reverse

theorem keyU64_lt {n m : Nat} (hn : n < 2 ^ 64) (hm : m < 2 ^ 64) : keyU64 n < keyU64 m ↔ n < m :=
  reverse_leBytes_lt hn hm

theorem keyU64_inj {n m : Nat} (hn : n < 2 ^ 64) (hm : m < 2 ^ 64) : keyU64 n = keyU64 m ↔ n = m := by
  constructor
  · intro h
    exact leBytes_injective hn hm (reverse_inj.mp h)
  · intro h
    rw [h]

def keyU32 (value : Nat) : Bytes := (leBytes 4 value).reverse

def childValue (child : ChildRef) : Except FormatError Bytes := do
  refuseIf (child.lba = 0 ∨ child.subtreeItems = 0) (.invalid "internal tree child is zero")
  pure (leBytes 8 child.lba ++ leBytes 8 child.subtreeItems)

end Afsplus
