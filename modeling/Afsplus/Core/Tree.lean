import Afsplus.Core.Device
import Afsplus.Format.Geometry
import Afsplus.Format.Tree

/-!
# Reading trees

Point lookups descend one path; a listing visits every node. Both check what they read against what
the parent promised: kind and owner, a generation no newer than the checkpoint, the level, the key
range. The object map and the directories are the two trees a mount touches.
-/

namespace Afsplus

open Wire Fallible TreeItem

structure TreeSpec where
  kind : TreeKind
  owner : Nat
  maxGeneration : Nat

namespace Tree

variable (dev : Device) (geo : Geometry) (spec : TreeSpec)

def checkTreeLba (lba : Lba) : Except CoreError Unit :=
  refuseIf (¬geo.isAllocatable lba) (.corrupt s!"tree block {lba} outside allocatable bounds")

def validateNodeIdentity (node : TreeNode) (generation : Nat) (expectedLevel : Option Nat)
    (lba : Lba) : Except CoreError Unit := do
  refuseIf (node.kind ≠ spec.kind ∨ node.owner ≠ spec.owner)
    (.corrupt s!"tree node {lba} kind/owner mismatch")
  refuseIf (generation = 0 ∨ generation > spec.maxGeneration)
    (.corrupt s!"tree node {lba} generation {generation} outside committed range")
  refuseIf (∃ level ∈ expectedLevel, level ≠ node.level) (.corrupt s!"tree node {lba} level mismatch")

def validateLower (node : TreeNode) (lower : Option Bytes) : Except CoreError Unit :=
  match lower, node.items.head? with
  | some lower, some first => do
    refuseIf (first.key < lower) (.corrupt "tree node key below parent range")
    refuseIf (node.isLeaf ∧ first.key ≠ lower) (.corrupt "tree separator does not equal leaf minimum")
  | _, _ => .ok ()

def validateUpper (node : TreeNode) (upper : Option Bytes) : Except CoreError Unit :=
  match upper, node.items.getLast? with
  | some upper, some last =>
    refuseIf (¬last.key < upper) (.corrupt "tree node key above parent range")
  | _, _ => .ok ()

def validateNodeRange (node : TreeNode) (lower upper : Option Bytes) (isRoot : Bool) :
    Except CoreError Unit := do
  refuseIf (isRoot = false ∧ node.items = []) (.corrupt "non-root tree node is empty")
  validateLower node lower
  validateUpper node upper

/-- The node at `lba`, checked against what leads to it. -/
def readNode (lba : Lba) (expectedLevel : Option Nat) (lower upper : Option Bytes) (isRoot : Bool) :
    Except CoreError TreeNode := do
  let block ← dev.read lba
  let (node, generation) ← (TreeNode.decode block).mapError fun _ => .corrupt s!"tree node {lba}"
  validateNodeIdentity spec node generation expectedLevel lba
  validateNodeRange node lower upper isRoot
  pure node

/-- The child of `node` for position `index` among its children, with the range it is held to. -/
def childAt (node : TreeNode) (index : Nat) (lower upper : Option Bytes) :
    Except CoreError (ChildRef × Option Bytes × Option Bytes) := do
  let childUpper := ((node.items[index]?).map key).or upper
  match index with
  | 0 => pure (⟨node.leftmostChild, node.leftmostItems⟩, lower, childUpper)
  | index + 1 =>
    match node.items[index]? with
    | none => .error (.corrupt "internal tree node has no children")
    | some separator =>
      let child ← (TreeNode.childRef separator).mapError .format
      pure (child, some separator.key, childUpper)

/-- One descent. `visited` are the nodes already passed, so it is empty at the root. The fuel is the
maximum height, which the source's loop also counts. -/
def lookupFrom (key : Bytes) :
    (fuel : Nat) → Lba → Option Nat → Option Bytes → Option Bytes → List Lba →
      Except CoreError (Option Bytes)
  | 0, _, _, _, _, _ => .error (.corrupt "tree traversal exceeded maximum depth")
  | fuel + 1, lba, expectedLevel, lower, upper, visited => do
    refuseIf (lba ∈ visited) (.corrupt s!"tree cycle at block {lba}")
    let node ← readNode dev spec lba expectedLevel lower upper visited.isEmpty
    if node.isLeaf then
      -- the source's binary search, on keys that `decode` found strictly ascending
      pure ((node.items.find? fun item => item.key = key).map value)
    else do
      let index := (node.items.takeWhile fun item => ¬key < item.key).length
      let (child, lower, upper) ← childAt node index lower upper
      checkTreeLba geo child.lba
      lookupFrom key fuel child.lba (some (node.level - 1)) lower upper (lba :: visited)

def lookup (rootLba : Lba) (key : Bytes) : Except CoreError (Option Bytes) := do
  refuseIf (key = [] ∨ key.length > maxTreeKeyBytes) (.corrupt "tree lookup key length out of range")
  checkTreeLba geo rootLba
  lookupFrom dev geo spec key (maxTreeLevel + 1) rootLba none none none []

structure CheckedSubtree where
  items : Nat
  nodes : Nat
  level : Nat
  minKey : Option Bytes
  maxKey : Option Bytes

/-- What a visit carries: the blocks it remembers, and the nodes it has called the visitor with. -/
structure Visit where
  visited : List Lba
  nodes : List (Lba × TreeNode)

abbrev Visited := Except CoreError (CheckedSubtree × Visit)

/-- A visit that does not retain the visited blocks remembers the path to the current one only. -/
def Visit.leave (retain : Bool) (lba : Lba) (visit : Visit) : Visit :=
  if retain then visit else { visit with visited := visit.visited.erase lba }

/-- The children of one node from `index` on; `visitChild` is the visit one level down. -/
def visitChildren (node : TreeNode) (lower upper : Option Bytes)
    (visitChild : Lba → Option Bytes → Option Bytes → Visit → Visited) :
    (remaining index : Nat) → CheckedSubtree → Visit → Visited
  | 0, _, total, visit => .ok (total, visit)
  | remaining + 1, index, total, visit => do
    let (child, childLower, childUpper) ← childAt node index lower upper
    checkTreeLba geo child.lba
    let (checked, visit) ← visitChild child.lba childLower childUpper visit
    refuseIf (checked.items ≠ child.subtreeItems)
      (.corrupt s!"tree child {child.lba} count {checked.items}, parent records {child.subtreeItems}")
    refuseIf (index > 0 ∧ checked.minKey ≠ childLower)
      (.corrupt s!"tree separator does not equal minimum key of child {child.lba}")
    refuseIf (total.items + checked.items ≥ 2 ^ 64) (.corrupt "tree item count overflow")
    refuseIf (total.nodes + checked.nodes ≥ 2 ^ 64) (.corrupt "tree node count overflow")
    visitChildren node lower upper visitChild remaining (index + 1)
      ⟨total.items + checked.items, total.nodes + checked.nodes, total.level, total.minKey.or checked.minKey,
        checked.maxKey.or total.maxKey⟩ visit

/-- A child is one level below its parent, so the fuel bounds the height; `exhausted` is never answered. -/
def validateSubtree (retain : Bool) (exhausted : CoreError) :
    (fuel : Nat) → Lba → Option Nat → Option Bytes → Option Bytes → Bool → Visit → Visited
  | 0, _, _, _, _, _, _ => .error exhausted
  | fuel + 1, lba, expectedLevel, lower, upper, isRoot, visit => do
    refuseIf (lba ∈ visit.visited) (.corrupt s!"tree cycle or duplicate child at block {lba}")
    let node ← readNode dev spec lba expectedLevel lower upper isRoot
    let visit : Visit := ⟨lba :: visit.visited, visit.nodes ++ [(lba, node)]⟩
    if node.isLeaf then
      let keys := node.items.map key
      pure (⟨node.subtreeItems, 1, 0, keys.head?, keys.getLast?⟩, visit.leave retain lba)
    else do
      let visitChild := fun child lower upper visit =>
        validateSubtree retain exhausted fuel child (some (node.level - 1)) lower upper false visit
      let (checked, visit) ← visitChildren geo node lower upper visitChild (node.items.length + 1) 0
        ⟨0, 1, node.level, none, none⟩ visit
      refuseIf (checked.items ≠ node.subtreeItems)
        (.corrupt s!"tree node {lba} subtree count {node.subtreeItems}, children total {checked.items}")
      pure (checked, visit.leave retain lba)

structure TreeSummary where
  items : Nat
  nodes : Nat
  height : Nat

def depthError : CoreError := .corrupt "tree traversal exceeded maximum depth"

/-- The summary, and the calls of a visitor that never fails. -/
def visitNodes (retain : Bool) (rootLba : Lba) : Except CoreError (TreeSummary × List (Lba × TreeNode)) := do
  checkTreeLba geo rootLba
  let (checked, visit) ← validateSubtree dev geo spec retain depthError (maxTreeLevel + 1) rootLba none none none true
    ⟨[], []⟩
  pure (⟨checked.items, checked.nodes, checked.level + 1⟩, visit.nodes)

def visitTreeNodes := visitNodes dev geo spec true

def visitTreeNodesBounded := visitNodes dev geo spec false

/-- What a visitor that collects leaf items has at the end. -/
def leafItems (nodes : List (Lba × TreeNode)) : List TreeItem :=
  nodes.flatMap fun visited => if visited.2.isLeaf then visited.2.items else []

/-! ### A tree that is one leaf -/

variable {dev geo spec}

/-- The block holds a leaf that a reader with `spec` accepts as a root. -/
structure LeafAt (dev : Device) (geo : Geometry) (spec : TreeSpec) (lba : Lba) (node : TreeNode) :
    Prop where
  inDevice : lba < dev.totalBlocks
  allocatable : geo.isAllocatable lba = true
  decodes : ∃ generation, TreeNode.decode (dev.blocks lba) = .ok (node, generation) ∧
    generation ≠ 0 ∧ generation ≤ spec.maxGeneration
  kind : node.kind = spec.kind
  owner : node.owner = spec.owner
  leaf : node.isLeaf = true

variable {node : TreeNode} {lba : Lba}

theorem readNode_of_leafAt (h : LeafAt dev geo spec lba node) :
    readNode dev spec lba none none none true = .ok node := by
  obtain ⟨generation, hdec, hpositive, hbound⟩ := h.decodes
  have hrange : validateNodeRange node none none true = .ok () := by
    rw [validateNodeRange, refuseIf_bind (by simp)]
    rfl
  have hidentity : validateNodeIdentity spec node generation none lba = .ok () := by
    rw [validateNodeIdentity, refuseIf_bind (by simp [h.kind, h.owner]),
      refuseIf_bind (by omega), refuseIf_eq_ok]
    simp
  rw [readNode, Device.read_of_lt h.inDevice]
  refine bind_ok.mpr ⟨_, rfl, ?_⟩
  rw [hdec]
  refine bind_ok.mpr ⟨_, rfl, ?_⟩
  dsimp only
  rw [check_bind hidentity, check_bind hrange]
  rfl

theorem lookup_of_leafAt (h : LeafAt dev geo spec lba node)
    {key : Bytes} (hkey : key ≠ []) (hshort : key.length ≤ maxTreeKeyBytes) :
    lookup dev geo spec lba key = .ok ((node.items.find? fun item => item.key = key).map value) := by
  have hlba : checkTreeLba geo lba = .ok () := by
    rw [checkTreeLba, refuseIf_eq_ok]
    simp [h.allocatable]
  rw [lookup, refuseIf_bind (by simp [hkey, hshort]), check_bind hlba, lookupFrom,
    refuseIf_bind (by simp)]
  refine bind_ok.mpr ⟨_, readNode_of_leafAt h, ?_⟩
  rw [if_pos h.leaf]
  rfl

theorem visitTreeNodes_of_leafAt (h : LeafAt dev geo spec lba node) :
    visitTreeNodes dev geo spec lba = .ok (⟨node.subtreeItems, 1, 1⟩, [(lba, node)]) := by
  have hlba : checkTreeLba geo lba = .ok () := by
    rw [checkTreeLba, refuseIf_eq_ok]
    simp [h.allocatable]
  have hvisit : validateSubtree dev geo spec true depthError (maxTreeLevel + 1) lba none none none true ⟨[], []⟩
      = .ok (⟨node.subtreeItems, 1, 0, (node.items.map key).head?, (node.items.map key).getLast?⟩,
        ⟨[lba], [(lba, node)]⟩) := by
    rw [validateSubtree, refuseIf_bind (by simp)]
    refine bind_ok.mpr ⟨_, readNode_of_leafAt h, ?_⟩
    rw [if_pos h.leaf]
    rfl
  rw [visitTreeNodes, visitNodes, check_bind hlba, hvisit]
  rfl

end Tree

namespace ObjectMap

def spec (maxGeneration : Nat) : TreeSpec := ⟨.objectMap, 0, maxGeneration⟩

def value (block : Lba) : Except CoreError Bytes := do
  refuseIf (block = 0) (.corrupt "object map references block zero")
  pure (leBytes 8 block)

def initialLeaf (objectId : ObjectId) (block : Lba) : Except CoreError TreeNode := do
  let value ← value block
  pure ⟨.objectMap, 0, 0, 1, 0, 0, [⟨keyU64 objectId, value⟩]⟩

def decodeValue (encoded : Bytes) (geo : Geometry) (objectId : ObjectId) :
    Except CoreError Lba := do
  refuseIf (encoded.length ≠ 8) (.corrupt s!"object map value for object {objectId} is not eight bytes")
  let block := leNat encoded
  refuseIf (¬geo.isAllocatable block)
    (.corrupt s!"object {objectId} record block {block} outside allocatable bounds")
  pure block

def lookupLba (dev : Device) (geo : Geometry) (rootLba : Lba) (maxGeneration : Nat)
    (objectId : ObjectId) : Except CoreError (Option Lba) := do
  match ← Tree.lookup dev geo (spec maxGeneration) rootLba (keyU64 objectId) with
  | none => pure none
  | some encoded => do
    let block ← decodeValue encoded geo objectId
    pure (some block)

end ObjectMap

structure DirEntry where
  key : Bytes
  name : Bytes
  childTypeHint : Nat
  childId : ObjectId
  deriving DecidableEq, Repr

namespace Directory

def treeEntryFixed : Nat := 16

def spec (owner maxGeneration : Nat) : TreeSpec := ⟨.directory, owner, maxGeneration⟩

def emptyLeaf (owner : ObjectId) : TreeNode := TreeNode.leaf .directory owner

def decodeTreeEntryValue (key value : Bytes) : Except FormatError DirEntry := do
  refuseIf (value.length < treeEntryFixed) (.invalid "directory leaf value is truncated")
  let length := value.length
  let (nameLen, p) := readLe 2 value
  refuseIf (length ≠ treeEntryFixed + nameLen) (.invalid "directory leaf name length mismatch")
  let (childTypeHint, p) := readLe 1 p
  let (reserved, p) := readLe 5 p
  refuseIf (reserved ≠ 0) (.invalid "directory leaf reserved bytes are nonzero")
  let (childId, name) := readLe 8 p
  validateName name
  refuseIf (childId = objectInvalid) (.invalid "directory entry references invalid object")
  refuseIf (childTypeHint < 1 ∨ childTypeHint > 3)
    (.invalid "directory entry has invalid child type hint")
  pure ⟨key, name, childTypeHint, childId⟩

/-- A leaf item as an entry. `comparisonKey` is the volume's key derivation; the Unicode tables
behind it are a library of the source's. -/
def decodeEntry (comparisonKey : Bytes → Except CoreError Bytes) (item : TreeItem) :
    Except CoreError DirEntry := do
  let entry ← (decodeTreeEntryValue item.key item.value).mapError .format
  refuseIf (entry.key.length > maxTreeKeyBytes)
    (.corrupt "directory comparison key length is out of range")
  let key ← comparisonKey entry.name
  refuseIf (entry.key ≠ key) (.corrupt "directory comparison key does not match original name")
  pure entry

def validateRoot (dev : Device) (geo : Geometry) (rootLba : Lba) (owner : ObjectId)
    (maxGeneration : Nat) : Except CoreError Unit := do
  Tree.checkTreeLba geo rootLba
  let _ ← Tree.readNode dev (spec owner maxGeneration) rootLba none none none true
  pure ()

def loadAll (dev : Device) (geo : Geometry) (comparisonKey : Bytes → Except CoreError Bytes)
    (rootLba : Lba) (owner : ObjectId) (maxGeneration : Nat) : Except CoreError (List DirEntry) := do
  let (_, nodes) ← Tree.visitTreeNodes dev geo (spec owner maxGeneration) rootLba
  (Tree.leafItems nodes).mapM (decodeEntry comparisonKey)

end Directory

end Afsplus
