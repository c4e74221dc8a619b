import Afsplus.Core.Mount

/-!
# The reclaim queue inside a transaction

A transaction consumes runs from the head of the committed queue, up to a budget and up to the first
run that the older retained checkpoint still protects, and appends the runs it retires. Rebuilding the
queue needs a number of blocks that is known before any of them is allocated.
-/

namespace Afsplus

open Fallible

structure PromotedRun where
  start : Nat
  blocks : Nat
  retireGeneration : Nat
  deriving DecidableEq, Repr

structure ReclaimTx where
  oldestProtectedGeneration : Nat
  committedRootLba : Nat
  newGeneration : Nat
  /-- The working root: consumption already applied to its areas and cursor. -/
  root : ReclaimRoot
  appends : List ReclaimEntry
  promoted : List PromotedRun
  consumedStructure : List Nat
  reclaimedBlocks : Nat
  plannedAllocations : Option Nat

namespace ReclaimTx

def checkEntries (geo : Geometry) (generation : Nat) : List ReclaimEntry → Except CoreError Unit
  | [] => .ok ()
  | entry :: rest => do
    Mount.validateRun geo entry
    refuseIf (entry.retireGeneration > generation)
      (.corrupt "reclaim entry generation is from the future")
    checkEntries geo generation rest

def checkRefs (geo : Geometry) (what : String) : List SealedRef → Except CoreError Unit
  | [] => .ok ()
  | ref :: rest => do
    refuseIf (¬geo.isAllocatable ref.lba) (.corrupt s!"{what} {ref.lba} outside allocatable bounds")
    checkRefs geo what rest

def readRoot (dev : Device) (geo : Geometry) (rootLba generation : Nat) :
    Except CoreError ReclaimRoot := do
  refuseIf (¬geo.isAllocatable rootLba)
    (.corrupt s!"reclaim root block {rootLba} outside allocatable bounds")
  let block ← dev.read rootLba
  let (root, written) ← (ReclaimRoot.decode block).mapError fun _ => .corrupt "reclaim root"
  refuseIf (written > generation) (.corrupt "reclaim root generation is from the future")
  checkEntries geo generation root.inlineEntries
  checkRefs geo "reclaim structure block" (root.tableRefs ++ root.segmentRefs)
  pure root

def readSegment (dev : Device) (geo : Geometry) (ref : SealedRef) (generation : Nat) :
    Except CoreError (List ReclaimEntry) := do
  let block ← dev.read ref.lba
  let (segment, written) ← (ReclaimSegment.decode block).mapError fun _ =>
    .corrupt s!"reclaim segment {ref.lba}"
  refuseIf (written > generation ∨ segment.entries.length ≠ ref.count)
    (.corrupt s!"reclaim segment {ref.lba} does not match its reference")
  checkEntries geo generation segment.entries
  pure segment.entries

def readTable (dev : Device) (geo : Geometry) (ref : SealedRef) (generation : Nat) :
    Except CoreError (List SealedRef) := do
  let block ← dev.read ref.lba
  let (table, written) ← (ReclaimTable.decode block).mapError fun _ =>
    .corrupt s!"reclaim table {ref.lba}"
  refuseIf (written > generation ∨ table.refs.length ≠ ref.count)
    (.corrupt s!"reclaim table {ref.lba} does not match its reference")
  checkRefs geo "reclaim segment block" table.refs
  pure table.refs

def promote (tx : ReclaimTx) (start blocks retireGeneration : Nat) : ReclaimTx :=
  { tx with
    promoted := tx.promoted ++ [⟨start, blocks, retireGeneration⟩]
    reclaimedBlocks := tx.reclaimedBlocks + blocks }

/-- The loop of `consume_segment` over the entries from the cursor on; with the budget left. -/
def consumeEntries : List ReclaimEntry → (budget : Nat) → ReclaimTx →
    Except CoreError (ReclaimTx × Nat)
  | [], budget, tx => .ok (tx, budget)
  | entry :: rest, budget, tx =>
    if budget = 0 then .ok (tx, budget)
    else do
      let offset := tx.root.headBlockOffset
      refuseIf (offset ≥ entry.blocks) (.corrupt "reclaim cursor beyond the head run")
      if entry.retireGeneration > tx.oldestProtectedGeneration then pure (tx, budget)
      else
        let take := min (entry.blocks - offset) budget
        let tx := tx.promote (entry.start + offset) take entry.retireGeneration
        if offset + take = entry.blocks then
          consumeEntries rest (budget - take) { tx with
            root.headEntryOffset := tx.root.headEntryOffset + 1
            root.headBlockOffset := 0 }
        -- the budget is used up inside this run
        else pure ({ tx with root.headBlockOffset := offset + take }, budget - take)

/-- The transaction, whether the segment is used up, and the budget left. -/
def consumeSegment (dev : Device) (geo : Geometry) (ref : SealedRef) (generation budget : Nat)
    (tx : ReclaimTx) : Except CoreError (ReclaimTx × Bool × Nat) := do
  let entries ← readSegment dev geo ref generation
  refuseIf (tx.root.headEntryOffset ≥ entries.length)
    (.corrupt "reclaim cursor beyond the head segment")
  let (tx, budget) ← consumeEntries (entries.drop tx.root.headEntryOffset) budget tx
  pure (tx, tx.root.headEntryOffset == entries.length, budget)

/-- The head of the queue is in the first table, else in the first segment, else inline. Every round
that is followed by another one uses up some of the budget, so the budget bounds the rounds. -/
def consume (dev : Device) (geo : Geometry) (generation : Nat) :
    (rounds budget : Nat) → ReclaimTx → Except CoreError ReclaimTx
  | 0, _, tx => .ok tx
  | rounds + 1, budget, tx =>
    if budget = 0 then .ok tx
    else match tx.root.tableRefs, tx.root.segmentRefs, tx.root.inlineEntries with
      | table :: tables, _, _ => do
        let refs ← readTable dev geo table generation
        match refs[tx.root.headSegmentOffset]? with
        | none => .error (.corrupt "reclaim cursor beyond the first table")
        | some segment => do
          let (tx, finished, budget) ← consumeSegment dev geo segment generation budget tx
          if finished then
            let root := { tx.root with
              headSegmentOffset := tx.root.headSegmentOffset + 1, headEntryOffset := 0
              headBlockOffset := 0 }
            let consumed := tx.consumedStructure ++ [segment.lba]
            let tx := if root.headSegmentOffset = refs.length then
                { tx with
                  root := { root with tableRefs := tables, headSegmentOffset := 0 }
                  consumedStructure := consumed ++ [table.lba] }
              else { tx with root, consumedStructure := consumed }
            consume dev geo generation rounds budget tx
          else pure tx
      | [], segment :: segments, _ => do
        let (tx, finished, budget) ← consumeSegment dev geo segment generation budget tx
        if finished then
          consume dev geo generation rounds budget { tx with
            root := { tx.root with
              segmentRefs := segments, headEntryOffset := 0, headBlockOffset := 0 }
            consumedStructure := tx.consumedStructure ++ [segment.lba] }
        else pure tx
      | [], [], entry :: entries =>
        if entry.retireGeneration > tx.oldestProtectedGeneration then .ok tx
        else
          let take := min entry.blocks budget
          let tx := tx.promote entry.start take entry.retireGeneration
          let rest := if entry.blocks - take = 0 then entries
            else ⟨entry.start + take, entry.blocks - take, entry.retireGeneration⟩ :: entries
          consume dev geo generation rounds (budget - take)
            { tx with root := { tx.root with inlineEntries := rest } }
      | [], [], [] => .ok tx

def begin (dev : Device) (geo : Geometry)
    (committedRootLba committedGeneration newGeneration oldestProtectedGeneration batchBlocks : Nat) :
    Except CoreError ReclaimTx := do
  refuseIf (oldestProtectedGeneration = 0 ∨ oldestProtectedGeneration > committedGeneration)
    (.corrupt "invalid protected checkpoint generation")
  let root ← readRoot dev geo committedRootLba committedGeneration
  consume dev geo committedGeneration batchBlocks batchBlocks
    ⟨oldestProtectedGeneration, committedRootLba, newGeneration, root, [], [], [], 0, none⟩

/-! ### Rebuilding -/

def appendRun (geo : Geometry) (start blocks : Nat) (tx : ReclaimTx) : Except CoreError ReclaimTx := do
  let entry : ReclaimEntry := ⟨start, blocks, tx.newGeneration⟩
  Mount.validateRun geo entry
  pure { tx with appends := tx.appends ++ [entry] }

/-- Rounds of `while len > cap { len -= min(batch, len) }`; a round removes at least one item as long as
the loop runs. -/
def sealRounds (cap batch : Nat) : (fuel len : Nat) → Nat
  | 0, _ => 0
  | fuel + 1, len => if len > cap then sealRounds cap batch fuel (len - min batch len) + 1 else 0

def plan (tx : ReclaimTx) : Except CoreError (ReclaimTx × Nat) := do
  refuseIf tx.plannedAllocations.isSome (.corrupt "reclaim rebuild planned twice")
  let retired := tx.consumedStructure ++ [tx.committedRootLba]
  let appends := tx.appends ++ retired.map fun lba => ⟨lba, 1, tx.newGeneration⟩
  let inlineLen := tx.root.inlineEntries.length + appends.length
  let segmentsSealed := sealRounds tx.root.caps.inlineEntries segmentEntryCap inlineLen inlineLen
  let refsLen := tx.root.segmentRefs.length + segmentsSealed
  let tablesSealed := sealRounds tx.root.caps.segmentRefs tableRefCap refsLen refsLen
  refuseIf (tx.root.tableRefs.length + tablesSealed > tx.root.caps.tableRefs)
    (.prototypeLimit "reclaim backlog exceeds prototype capacity")
  let allocations := segmentsSealed + tablesSealed + 1
  pure ({ tx with consumedStructure := [], appends, plannedAllocations := some allocations }, allocations)

/-- What sealing one area leaves: the items that stay, the refs it appended to, the writes, and the
planned blocks not used yet. -/
structure Sealed (α : Type) where
  remaining : List α
  refs : List SealedRef
  writes : List (Nat × Bytes)
  lbas : List Nat

/-- Seals the oldest `batch` items into one block as long as the area is over its capacity. Running out
of planned blocks is a panic in the source. -/
def sealArea {α : Type} (cap batch : Nat) (encode : List α → Except FormatError Bytes) :
    (fuel : Nat) → List α → List SealedRef → List Nat → Except CoreError (Sealed α)
  | 0, items, refs, lbas => .ok ⟨items, refs, [], lbas⟩
  | fuel + 1, items, refs, lbas =>
    if items.length > cap then
      match lbas with
      | [] => .error (.corrupt "planned sealed-block allocation")
      | lba :: lbas => do
        let oldest := items.take (min batch items.length)
        let block ← (encode oldest).mapError .format
        let rest ← sealArea cap batch encode fuel (items.drop (min batch items.length))
          (refs ++ [⟨lba, oldest.length⟩]) lbas
        pure { rest with writes := (lba, block) :: rest.writes }
    else .ok ⟨items, refs, [], lbas⟩

structure Build where
  rootLba : Nat
  writes : List (Nat × Bytes)
  pendingBlocks : Nat

/-- Segments, then tables, then the new root, in the planned blocks. -/
def build (geo : Geometry) (lbas : List Nat) (tx : ReclaimTx) : Except CoreError Build := do
  refuseIf (tx.plannedAllocations = none) (.corrupt "reclaim rebuild was not planned")
  refuseIf (tx.plannedAllocations ≠ some lbas.length)
    (.corrupt "reclaim rebuild allocation count mismatch")
  let appendedBlocks := (tx.appends.map ReclaimEntry.blocks).sum
  refuseIf (appendedBlocks ≥ 2 ^ 64) (.corrupt "reclaim append total overflows")
  let combined := tx.root.inlineEntries ++ tx.appends
  let segments ← sealArea tx.root.caps.inlineEntries segmentEntryCap
    (fun entries => ReclaimSegment.encode ⟨entries⟩ geo.blockSize tx.newGeneration)
    combined.length combined tx.root.segmentRefs lbas
  let tables ← sealArea tx.root.caps.segmentRefs tableRefCap
    (fun refs => ReclaimTable.encode ⟨refs⟩ geo.blockSize tx.newGeneration)
    segments.refs.length segments.refs tx.root.tableRefs segments.lbas
  let appendedTotal := tx.root.appendedBlocksTotal + appendedBlocks
  refuseIf (appendedTotal ≥ 2 ^ 64) (.corrupt "reclaim appended total overflows")
  let reclaimedTotal := tx.root.reclaimedBlocksTotal + tx.reclaimedBlocks
  refuseIf (reclaimedTotal ≥ 2 ^ 64) (.corrupt "reclaim reclaimed total overflows")
  refuseIf (reclaimedTotal > appendedTotal) (.corrupt "reclaimed more blocks than appended")
  match tables.lbas with
  | [] => .error (.corrupt "planned root allocation")
  | rootLba :: _ => do
    let root : ReclaimRoot := { tx.root with
      pendingBlocks := appendedTotal - reclaimedTotal, appendedBlocksTotal := appendedTotal
      reclaimedBlocksTotal := reclaimedTotal, tableRefs := tables.refs
      segmentRefs := tables.remaining, inlineEntries := segments.remaining }
    let block ← (root.encode geo.blockSize tx.newGeneration).mapError .format
    pure ⟨rootLba, segments.writes ++ tables.writes ++ [(rootLba, block)], root.pendingBlocks⟩

structure LoadedReclaim where
  /-- Every run not consumed yet, without the blocks the cursor has passed. -/
  runs : List ReclaimEntry
  structureBlocks : List Nat
  pendingBlocks : Nat
  deriving DecidableEq, Repr

/-- The first run without the blocks in front of the cursor. -/
def trimHead (offset : Nat) : List ReclaimEntry → List ReclaimEntry
  | [] => []
  | entry :: rest =>
    ⟨entry.start + offset, entry.blocks - offset, entry.retireGeneration⟩ :: rest

def loadSegment (dev : Device) (geo : Geometry) (generation : Nat) (ref : SealedRef)
    (entryOffset blockOffset : Nat) : Except CoreError (List ReclaimEntry) := do
  let entries ← readSegment dev geo ref generation
  refuseIf (entryOffset > entries.length ∨ entryOffset = entries.length ∧ blockOffset ≠ 0)
    (.corrupt "reclaim cursor beyond the head segment")
  refuseIf (∃ entry ∈ (entries.drop entryOffset).head?, blockOffset ≠ 0 ∧ blockOffset ≥ entry.blocks)
    (.corrupt "reclaim cursor beyond the head run")
  pure (trimHead blockOffset (entries.drop entryOffset))

/-- The cursor stands in the first of the segments. -/
def loadSegments (dev : Device) (geo : Geometry) (generation : Nat) :
    List SealedRef → (entryOffset blockOffset : Nat) → Except CoreError (List ReclaimEntry)
  | [], _, _ => .ok []
  | ref :: rest, entryOffset, blockOffset => do
    let runs ← loadSegment dev geo generation ref entryOffset blockOffset
    let more ← loadSegments dev geo generation rest 0 0
    pure (runs ++ more)

/-- The runs behind the tables, and the blocks of the tables and of their segments from the cursor's
on. -/
def loadTables (dev : Device) (geo : Geometry) (generation : Nat) :
    List SealedRef → (segmentOffset entryOffset blockOffset : Nat) →
      Except CoreError (List ReclaimEntry × List Nat)
  | [], _, _, _ => .ok ([], [])
  | table :: rest, segmentOffset, entryOffset, blockOffset => do
    let refs ← readTable dev geo table generation
    let live := refs.drop segmentOffset
    let runs ← loadSegments dev geo generation live entryOffset blockOffset
    let (more, blocks) ← loadTables dev geo generation rest 0 0 0
    pure (runs ++ more, table.lba :: live.map SealedRef.lba ++ blocks)

def loadAll (dev : Device) (geo : Geometry) (rootLba generation : Nat) :
    Except CoreError LoadedReclaim := do
  let root ← readRoot dev geo rootLba generation
  let (tableRuns, tableBlocks) ← loadTables dev geo generation root.tableRefs root.headSegmentOffset
    root.headEntryOffset root.headBlockOffset
  let (entryOffset, blockOffset) :=
    if root.tableRefs = [] then (root.headEntryOffset, root.headBlockOffset) else (0, 0)
  let segmentRuns ← loadSegments dev geo generation root.segmentRefs entryOffset blockOffset
  let runs := tableRuns ++ segmentRuns ++ root.inlineEntries
  let counted := (runs.map ReclaimEntry.blocks).sum
  refuseIf (counted ≥ 2 ^ 64) (.corrupt "reclaim pending total overflows")
  refuseIf (counted ≠ root.pendingBlocks)
    (.corrupt s!"reclaim root claims {root.pendingBlocks} pending blocks, queue holds {counted}")
  pure ⟨runs, rootLba :: tableBlocks ++ root.segmentRefs.map SealedRef.lba, root.pendingBlocks⟩

end ReclaimTx

end Afsplus
