import Afsplus.Core.AllocationRoot
import Afsplus.Format.Snapshot
import Afsplus.Lib.Runs
import Afsplus.Lib.SortedMap

/-!
# Readers of the snapshot trees

The registry lists the captured views, the ledger the lifetimes of the blocks that a view may still need.
A tree is the key/value map of its leaves; a page of it is the entries from a key on.
-/

namespace Afsplus

open Wire Fallible

namespace AllocationRoot

/-- Where the block with `ordinal` allocatable blocks in front of it would be. -/
def ordinalLba (geo : Geometry) (ordinal : Nat) : Except CoreError Lba :=
  let firstCapacity := geo.regionValidBlocks 0 - geo.region0ReservedBlocks
  if ordinal < firstCapacity then .ok (geo.region0ReservedBlocks + ordinal)
  else do
    let fullReserved := descriptorSlots + divCeil geo.regionSize bitmapPageBlocks * bitmapSlots
    let capacity := geo.regionSize - fullReserved
    let remainder := ordinal - firstCapacity
    let region := 1 + remainder / capacity
    refuseIf (region ≥ geo.regionCount) (.unsupportedGeometry "volume cannot hold allocation-root pool")
    pure (geo.regionBase region + geo.regionReservedBlocks region + remainder % capacity)

def allocatableAt (geo : Geometry) (ordinal : Nat) : Except CoreError Lba := do
  let lba ← ordinalLba geo ordinal
  refuseIf (¬geo.isAllocatable lba) (.unsupportedGeometry "volume cannot hold allocation-root pool")
  pure lba

/-- The half-open envelope of the allocation-root pool. -/
def reservedPoolBounds (geo : Geometry) : Except CoreError (Lba × Lba) := do
  geo.validate.mapError .format
  let nodes ← geo.allocationRootLogicalNodes.mapError placementError
  let count := nodes * 3
  refuseIf (count ≥ 2 ^ 64) (.corrupt "allocation-root pool size overflow")
  let first ← allocatableAt geo bootstrapMetadataBlocks
  let last ← allocatableAt geo (bootstrapMetadataBlocks + count - 1)
  pure (first, last + 1)

end AllocationRoot

namespace Snapshot

/-- The trees' reads fail on nothing but a device or a node that is not what its parent says; a map has
neither. -/
def readKeyPage (tree : SortedMap Bytes Bytes) (low : Bytes) (limit : Nat) : List (Bytes × Bytes) :=
  (tree.entries.filter fun entry => ¬entry.1 < low).take limit

/-- The value at key zero and the number of the other records. -/
def control (geo : Geometry) (tree : SortedMap Bytes Bytes) : Except CoreError (Bytes × Nat) := do
  geo.validate.mapError .format
  match (readKeyPage tree (keyU64 0) 1).head? with
  | none => .error (.corrupt "snapshot tree lacks control record")
  | some (key, value) => do
    let key ← (decodeKey key).mapError .format
    refuseIf (key ≠ 0 ∨ tree.entries.length = 0) (.corrupt "snapshot tree lacks key-zero control")
    pure (value, tree.entries.length - 1)

def readRegistryState (geo : Geometry) (tree : SortedMap Bytes Bytes) :
    Except CoreError (RegistryState × Nat) := do
  let (value, count) ← control geo tree
  let state ← (RegistryState.decode value).mapError .format
  refuseIf (count ≥ state.nextId) (.corrupt "snapshot count exceeds allocated IDs")
  pure (state, count)

def readLedgerState (geo : Geometry) (tree : SortedMap Bytes Bytes) :
    Except CoreError (LedgerState × Nat) := do
  let (value, count) ← control geo tree
  let state ← (LedgerState.decode value geo.totalBlocks).mapError .format
  pure (state, count)

def namespaceRange (geo : Geometry) (start blocks : Nat) : Except CoreError Unit := do
  refuseIf (start + blocks ≥ 2 ^ 64) (.corrupt "snapshot range overflow")
  refuseIf (blocks = 0 ∨ ¬geo.isAllocatable start ∨ ¬geo.isAllocatable (start + blocks - 1) ∨
      geo.regionOf start ≠ geo.regionOf (start + blocks - 1))
    (.corrupt "snapshot range intersects reserved geometry")
  let (poolStart, poolEnd) ← AllocationRoot.reservedPoolBounds geo
  refuseIf (start < poolEnd ∧ poolStart < start + blocks)
    (.corrupt "snapshot range intersects allocation-root pool")

structure RegistryPage where
  state : RegistryState
  advertisedCount : Nat
  records : List (Nat × SnapshotRecord)
  nextId : Option Nat

def readView (geo : Geometry) (generation : Nat) (state : RegistryState) (entry : Bytes × Bytes) :
    Except CoreError (Nat × SnapshotRecord) := do
  let id ← (decodeKey entry.1).mapError .format
  refuseIf (id = 0 ∨ id ≥ state.nextId) (.corrupt "snapshot ID outside registry control")
  let record ← (SnapshotRecord.decode entry.2 generation geo.totalBlocks).mapError .format
  namespaceRange geo record.objectMapRoot 1
  pure (id, record)

def readRegistryPage (geo : Geometry) (tree : SortedMap Bytes Bytes) (generation lowId limit : Nat) :
    Except CoreError RegistryPage := do
  refuseIf (limit = 0) (.prototypeLimit "snapshot page limit must be positive")
  let (state, count) ← readRegistryState geo tree
  let records ← (readKeyPage tree (keyU64 (max lowId 1)) limit).mapM (readView geo generation state)
  let nextId := if records.length = limit then
      records.getLast?.bind fun last => if last.1 + 1 < 2 ^ 64 then some (last.1 + 1) else none
    else none
  pure ⟨state, count, records, nextId⟩

/-- A first block and the record of the run that begins there. -/
abbrev LifetimeRun := Nat × LifetimeRecord

/-- What the ledger says of a block: the generation that allocated it and, once no live object uses it,
the first generation without it. -/
structure Lifetime where
  birth : Nat
  retirement : Option Nat
  deriving DecidableEq, Repr

def LifetimeRecord.lifetime (record : LifetimeRecord) : Lifetime :=
  ⟨record.birth, if record.retirement = 0 then none else some record.retirement⟩

instance : Run LifetimeRun (Option Lifetime) :=
  ⟨fun run => run.1, fun run => run.1 + run.2.blocks, fun run => some run.2.lifetime⟩

def lifetime (geo : Geometry) (generation : Nat) (entry : Bytes × Bytes) :
    Except CoreError LifetimeRun := do
  let start ← (decodeKey entry.1).mapError .format
  let record ← (LifetimeRecord.decode entry.2 start generation geo.totalBlocks).mapError .format
  namespaceRange geo start record.blocks
  pure (start, record)

def adjacent (left right : LifetimeRun) : Except CoreError Unit := do
  let stop := left.1 + left.2.blocks
  refuseIf (stop > right.1) (.corrupt "snapshot lifetimes overlap")
  refuseIf (stop = right.1 ∧ left.2.birth = right.2.birth ∧ left.2.retirement = right.2.retirement)
    (.corrupt "adjacent equal snapshot lifetimes are not merged")

end Snapshot

end Afsplus
