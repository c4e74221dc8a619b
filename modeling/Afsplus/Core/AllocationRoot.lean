import Afsplus.Core.Basic
import Afsplus.Format.Region
import Afsplus.Format.Tree

/-!
# The allocation-root tree as the formatter builds it

One record per region under fixed keys, packed bottom up into nodes that take their addresses in order
from the front of the reserved pool. What callers need is that no node stands anywhere else.
-/

namespace Afsplus.AllocationRoot

open Wire Fallible List

def value (record : RegionRecord) : Except CoreError Bytes := do
  refuseIf (record.descriptorSlot ≥ descriptorSlots)
    (.corrupt "allocation-root descriptor slot out of range")
  refuseIf (record.descriptorGeneration = 0) (.corrupt "allocation-root descriptor generation is zero")
  pure (leBytes 1 record.descriptorSlot ++ leBytes 3 0 ++ leBytes 4 record.freeBlocks ++
    leBytes 8 record.descriptorGeneration)

/-- A built node as its parent refers to it. -/
structure BulkChild where
  lba : Lba
  minKey : Bytes
  items : Nat
  deriving Repr

def balancedGroups (total maximum : Nat) : Except CoreError (List Nat) := do
  refuseIf (total = 0 ∨ maximum = 0) (.corrupt "cannot partition empty allocation-root level")
  let groups := divCeil total maximum
  let base := total / groups
  let remainder := total % groups
  refuseIf (groups > 1 ∧ base < 2)
    (.unsupportedGeometry "allocation-root fanout cannot form valid internal nodes")
  pure ((List.range groups).map fun index => base + if index < remainder then 1 else 0)

/-- One row of the tree under construction: its nodes, what the row above needs of them, and the
addresses left. -/
structure Row where
  nodes : List (Lba × TreeNode)
  children : List BulkChild
  rest : List Lba

def leafItems : (region : Nat) → List RegionRecord → Except CoreError (List TreeItem)
  | _, [] => .ok []
  | region, record :: rest => do
    let value ← value record
    let items ← leafItems (region + 1) rest
    pure (⟨keyU32 region, value⟩ :: items)

def buildLeaves : List Nat → (offset : Nat) → List RegionRecord → List Lba → Except CoreError Row
  | [], _, _, lbas => .ok ⟨[], [], lbas⟩
  | _ :: _, _, _, [] => .error (.corrupt "allocation-root active pool exhausted")
  | groupLen :: groups, offset, records, lba :: lbas => do
    let items ← leafItems offset (records.take groupLen)
    let node : TreeNode := ⟨.allocationRoot, 0, 0, items.length, 0, 0, items⟩
    let minKey := (items.head?.map TreeItem.key).getD []
    let row ← buildLeaves groups (offset + groupLen) (records.drop groupLen) lbas
    pure ⟨(lba, node) :: row.nodes, ⟨lba, minKey, items.length⟩ :: row.children, row.rest⟩

def separators : List BulkChild → Except CoreError (List TreeItem)
  | [] => .ok []
  | child :: rest => do
    let value ← (childValue ⟨child.lba, child.items⟩).mapError .format
    let items ← separators rest
    pure (⟨child.minKey, value⟩ :: items)

def buildInternal (level : Nat) :
    List Nat → List BulkChild → List Lba → Except CoreError Row
  | [], _, lbas => .ok ⟨[], [], lbas⟩
  | _ :: _, _, [] => .error (.corrupt "allocation-root active pool exhausted")
  | groupLen :: groups, children, lba :: lbas =>
    match children.take groupLen with
    | [] => .error (.corrupt "cannot partition empty allocation-root level")
    | first :: others => do
      let items ← separators others
      let total := first.items + (others.map BulkChild.items).sum
      refuseIf (total ≥ 2 ^ 64) (.corrupt "allocation-root item count overflow")
      let node : TreeNode := ⟨.allocationRoot, 0, level, total, first.lba, first.items, items⟩
      let row ← buildInternal level groups (children.drop groupLen) lbas
      pure ⟨(lba, node) :: row.nodes, ⟨lba, first.minKey, total⟩ :: row.children, row.rest⟩

/-- Rows above the leaves until one node is left. Each row has fewer nodes than the one below, so the
number of leaves is fuel enough. -/
def buildUpper (fanout : Nat) :
    (fuel level : Nat) → List BulkChild → List Lba → Except CoreError Row
  | 0, _, children, lbas => .ok ⟨[], children, lbas⟩
  | fuel + 1, level, children, lbas =>
    if children.length > 1 then do
      let groups ← balancedGroups children.length fanout
      let row ← buildInternal (level + 1) groups children lbas
      let above ← buildUpper fanout fuel (level + 1) row.children row.rest
      pure ⟨row.nodes ++ above.nodes, above.children, above.rest⟩
    else .ok ⟨[], children, lbas⟩

structure BuiltAllocationRoot where
  rootLba : Lba
  poolLbas : List Lba
  nodes : List (Lba × TreeNode)

def placementError : FormatError → CoreError
  | .invalid message => .unsupportedGeometry message
  | other => .format other

def bulkBuild (geo : Geometry) (records : List RegionRecord) :
    Except CoreError BuiltAllocationRoot := do
  refuseIf (records.length ≠ geo.regionCount ∨ records = [])
    (.corrupt "allocation-root bulk build record count mismatch")
  let leafCapacity := Geometry.fixedItemCapacity geo.blockSize 4 16
  refuseIf (leafCapacity = 0)
    (.unsupportedGeometry "block cannot hold one allocation-root record")
  let leafGroups ← balancedGroups records.length leafCapacity
  let poolLbas ← geo.allocationRootPoolLbas.mapError placementError
  let logicalNodes := poolLbas.length / 3
  let leaves ← buildLeaves leafGroups 0 records (poolLbas.take logicalNodes)
  let upper ← buildUpper (leafCapacity + 1) leaves.children.length 0 leaves.children leaves.rest
  let nodes := leaves.nodes ++ upper.nodes
  refuseIf (upper.rest ≠ [] ∨ nodes.length ≠ logicalNodes)
    (.corrupt "allocation-root logical node count mismatch")
  match upper.children with
  | [] => .error (.corrupt "cannot partition empty allocation-root level")
  | root :: _ => pure ⟨root.lba, poolLbas, nodes⟩

variable {lbas : List Lba} {row : Row} {records : List RegionRecord} {children : List BulkChild}

theorem buildLeaves_lbas {groups : List Nat} {offset : Nat} (h : buildLeaves groups offset records lbas = .ok row) :
    row.nodes.map Prod.fst ++ row.rest = lbas ∧ row.children.map BulkChild.lba = row.nodes.map Prod.fst := by
  induction groups generalizing offset records lbas row with
  | nil =>
    cases h
    exact ⟨rfl, rfl⟩
  | cons groupLen groups ih =>
    cases lbas with
    | nil => cases h
    | cons lba lbas =>
      obtain ⟨items, -, h⟩ := of_bind h
      obtain ⟨tail, htail, h⟩ := of_bind h
      obtain ⟨hlbas, hchildren⟩ := ih htail
      cases h
      exact ⟨congrArg (lba :: ·) hlbas, congrArg (lba :: ·) hchildren⟩

theorem buildInternal_lbas {level : Nat} {groups : List Nat}
    (h : buildInternal level groups children lbas = .ok row) :
    row.nodes.map Prod.fst ++ row.rest = lbas ∧ row.children.map BulkChild.lba = row.nodes.map Prod.fst := by
  induction groups generalizing children lbas row with
  | nil =>
    cases h
    exact ⟨rfl, rfl⟩
  | cons groupLen groups ih =>
    cases lbas with
    | nil => cases h
    | cons lba lbas =>
      rw [buildInternal] at h
      split at h
      · cases h
      · obtain ⟨items, -, h⟩ := of_bind h
        replace h := after_check h
        obtain ⟨tail, htail, h⟩ := of_bind h
        obtain ⟨hlbas, hchildren⟩ := ih htail
        cases h
        exact ⟨congrArg (lba :: ·) hlbas, congrArg (lba :: ·) hchildren⟩

theorem buildUpper_lbas {fanout fuel level : Nat} (h : buildUpper fanout fuel level children lbas = .ok row) :
    row.nodes.map Prod.fst ++ row.rest = lbas ∧ ∀ child ∈ row.children, child ∈ children ∨ child.lba ∈ lbas := by
  induction fuel generalizing level children lbas row with
  | zero =>
    cases h
    exact ⟨rfl, fun child hchild => .inl hchild⟩
  | succ fuel ih =>
    rw [buildUpper] at h
    split at h
    · obtain ⟨groups, -, h⟩ := of_bind h
      obtain ⟨inner, hinner, h⟩ := of_bind h
      obtain ⟨above, habove, h⟩ := of_bind h
      obtain ⟨hlbas, hchildren⟩ := buildInternal_lbas hinner
      obtain ⟨hlbas', hchildren'⟩ := ih habove
      cases h
      refine ⟨by simp only [map_append, append_assoc, hlbas', hlbas], ?_⟩
      intro child hchild
      refine .inr ?_
      rw [← hlbas, mem_append]
      rcases hchildren' child hchild with hmem | hmem
      · exact .inl (hchildren ▸ mem_map_of_mem hmem)
      · exact .inr hmem
    · cases h
      exact ⟨rfl, fun child hchild => .inl hchild⟩

theorem bulkBuild_lbas {geo : Geometry} {built : BuiltAllocationRoot} (h : bulkBuild geo records = .ok built) :
    geo.allocationRootPoolLbas = .ok built.poolLbas ∧ built.rootLba ∈ built.poolLbas ∧
      ∀ node ∈ built.nodes, node.1 ∈ built.poolLbas := by
  unfold bulkBuild at h
  replace h := after_check h
  replace h := after_check h
  obtain ⟨groups, -, h⟩ := of_bind h
  obtain ⟨pool, hpool, h⟩ := of_bind h
  obtain ⟨leaves, hleaves, h⟩ := of_bind h
  obtain ⟨upper, hupper, h⟩ := of_bind h
  replace h := after_check h
  obtain ⟨hleafLbas, hleafChildren⟩ := buildLeaves_lbas hleaves
  obtain ⟨hupperLbas, hupperChildren⟩ := buildUpper_lbas hupper
  have hpoolOk : geo.allocationRootPoolLbas = .ok pool := by
    cases hp : geo.allocationRootPoolLbas with
    | error e => rw [hp] at hpool; cases hpool
    | ok lbas => rw [hp] at hpool; cases hpool; rfl
  have hleaf : ∀ lba ∈ leaves.nodes.map Prod.fst, lba ∈ pool := by
    intro lba hmem
    refine mem_of_mem_take (i := pool.length / 3) ?_
    rw [← hleafLbas]
    exact mem_append_left _ hmem
  have hrest : ∀ lba ∈ leaves.rest, lba ∈ pool := by
    intro lba hmem
    refine mem_of_mem_take (i := pool.length / 3) ?_
    rw [← hleafLbas]
    exact mem_append_right _ hmem
  have hnodes : ∀ node ∈ leaves.nodes ++ upper.nodes, node.1 ∈ pool := by
    intro node hmem
    rcases mem_append.mp hmem with hmem | hmem
    · exact hleaf _ (mem_map_of_mem hmem)
    · refine hrest _ ?_
      rw [← hupperLbas]
      exact mem_append_left _ (mem_map_of_mem hmem)
  split at h
  · cases h
  · rename_i root others hroot
    cases h
    refine ⟨hpoolOk, ?_, hnodes⟩
    rcases hupperChildren root (by rw [hroot]; simp) with hmem | hmem
    · exact hleaf _ (hleafChildren ▸ mem_map_of_mem hmem)
    · exact hrest _ hmem

end Afsplus.AllocationRoot
