import Afsplus.Core.SharedExtents
import Afsplus.Core.Snapshot

/-!
# Editing the lifetime ledger

A transaction hands in the runs it allocated, the runs that lost their last live owner and the retired
records it takes out of the ledger. Everything these touch, and its neighbours, is read into an overlay;
the overlay is edited, merged and stated as the difference to the committed ledger.
-/

namespace Afsplus.Snapshot

open Wire Fallible
open RefEdit (intervalLe mergeIntervals)

def readPage : Nat := 64

structure LifetimeChanges where
  allocations : List (Nat × Nat)
  retirements : List (Nat × Nat)
  transfers : List LifetimeRun
  nextScanPosition : Option Nat

/-- `tree` is the ledger as the new nodes hold it; nothing of it is published yet. -/
structure LifetimeMutation where
  tree : SortedMap Bytes Bytes
  state : LedgerState
  quarantine : List (Nat × Nat)
  loadedRecords : Nat

def budget : CoreError := .prototypeLimit "lifetime edit record budget exhausted"

def viewBudget : CoreError := .prototypeLimit "snapshot registry scan budget exhausted"

structure Overlay where
  original : SortedMap Nat LifetimeRecord
  current : SortedMap Nat LifetimeRecord
  maxRecords : Nat

namespace Overlay

def remember (run : LifetimeRun) (overlay : Overlay) : Except CoreError Overlay :=
  match overlay.original.get? run.1 with
  | some previous => do
    refuseIf (previous ≠ run.2) (.corrupt "lifetime changed during preparation")
    pure overlay
  | none => do
    refuseIf (overlay.original.entries.length ≥ overlay.maxRecords) budget
    pure { overlay with original := overlay.original.insert run.1 run.2 }

def allocate (generation start blocks : Nat) (overlay : Overlay) : Except CoreError Overlay := do
  -- the last record that begins before the end of the range
  refuseIf ((overlay.current.floor? (start + blocks - 1)).any fun last => last.1 + last.2.blocks > start)
    (.corrupt "new allocation overlaps a tracked lifetime")
  refuseIf (overlay.current.entries.length ≥ overlay.maxRecords) budget
  pure { overlay with current := overlay.current.insert start ⟨blocks, generation, 0⟩ }

/-- The part `[position, high)` of the record that holds `position`, and where it ends. -/
def retireStep (generation stop position : Nat) (overlay : Overlay) : Except CoreError (Nat × Overlay) :=
  match overlay.current.floor? position with
  | none => .error (.corrupt "retirement has no allocation lifetime")
  | some (low, record) => do
    let oldEnd := low + record.blocks
    refuseIf (oldEnd ≤ position ∨ record.retirement ≠ 0 ∨ record.birth ≥ generation)
      (.corrupt "retirement crosses a gap, retired run or uncommitted birth")
    let high := min stop oldEnd
    let needed := (if low < position then 1 else 0) + (if high < oldEnd then 1 else 0)
    refuseIf (overlay.current.entries.length + needed > overlay.maxRecords) budget
    let current := overlay.current.erase low
    let current := if low < position then
        current.insert low { record with blocks := position - low }
      else current
    let current := current.insert position
      { record with blocks := high - position, retirement := generation }
    let current := if high < oldEnd then
        current.insert high { record with blocks := oldEnd - high }
      else current
    pure (high, { overlay with current })

/-- Every step gets further, so the length of the range is fuel enough. -/
def retireFrom (generation stop : Nat) : (fuel position : Nat) → Overlay → Except CoreError Overlay
  | 0, _, overlay => .ok overlay
  | fuel + 1, position, overlay =>
    if position < stop then do
      let (high, overlay) ← overlay.retireStep generation stop position
      retireFrom generation stop fuel high overlay
    else .ok overlay

def retire (generation start blocks : Nat) (overlay : Overlay) : Except CoreError Overlay :=
  retireFrom generation (start + blocks) blocks start overlay

def transfer (run : LifetimeRun) (overlay : Overlay) : Except CoreError Overlay := do
  refuseIf (overlay.original.get? run.1 ≠ some run.2 ∨ overlay.current.get? run.1 ≠ some run.2)
    (.corrupt "transfer differs from committed lifetime or occurs twice")
  pure { overlay with current := overlay.current.erase run.1 }

/-- `previous` is the last merged record so far. -/
def mergeInto : LifetimeRun → List LifetimeRun → Except CoreError (List LifetimeRun)
  | previous, [] => .ok [previous]
  | previous, run :: rest => do
    let stop := previous.1 + previous.2.blocks
    refuseIf (stop > run.1) (.corrupt "edited lifetimes overlap")
    if stop = run.1 ∧ previous.2.birth = run.2.birth ∧ previous.2.retirement = run.2.retirement then
      mergeInto (previous.1, { previous.2 with blocks := previous.2.blocks + run.2.blocks }) rest
    else do
      let merged ← mergeInto run rest
      pure (previous :: merged)

def mergeRuns : List LifetimeRun → Except CoreError (List LifetimeRun)
  | [] => .ok []
  | run :: rest => mergeInto run rest

def canonicalize (overlay : Overlay) : Except CoreError Overlay := do
  let merged ← mergeRuns overlay.current.entries
  pure { overlay with current := merged.foldl (fun map run => map.insert run.1 run.2) .empty }

end Overlay

def retiredBlocks (records : List LifetimeRun) : Nat :=
  ((records.filter fun run => run.2.retirement ≠ 0).map fun run => run.2.blocks).sum

/-- The sums of the front parts grow, so one of them overflows when the whole does. -/
def retiredSum (records : SortedMap Nat LifetimeRecord) : Except CoreError Nat := do
  refuseIf (retiredBlocks records.entries ≥ 2 ^ 64) (.corrupt "retained block sum overflow")
  pure (retiredBlocks records.entries)

section Reading

variable (geo : Geometry) (generation : Nat)

def requestedRange (range : Nat × Nat) : Except CoreError (Nat × Nat) := do
  namespaceRange geo range.1 range.2
  pure (range.1, range.1 + range.2)

def transferRange (run : LifetimeRun) : Except CoreError (Nat × Nat) := do
  (run.2.validate run.1 generation geo.totalBlocks).mapError .format
  namespaceRange geo run.1 run.2.blocks
  refuseIf (run.2.retirement = 0) (.corrupt "cannot transfer a live lifetime")
  pure (run.1, run.1 + run.2.blocks)

def requestedRanges (changes : LifetimeChanges) : Except CoreError (List (Nat × Nat)) := do
  let edited ← (changes.allocations ++ changes.retirements).mapM (requestedRange geo)
  let moved ← changes.transfers.mapM (transferRange geo generation)
  pure (edited ++ moved)

/-- The records of a page up to the first that begins at `stop` or behind it. The cursor for the next
page, unless that record was among them. -/
def rememberPage (stop : Nat) :
    List (Bytes × Bytes) → (cursor : Nat) → Overlay → Except CoreError (Overlay × Option Nat)
  | [], cursor, overlay => .ok (overlay, some cursor)
  | entry :: rest, _, overlay => do
    let run ← lifetime geo generation entry
    let overlay ← overlay.remember run
    if run.1 ≥ stop then pure (overlay, none)
    else rememberPage stop rest (run.1 + 1) overlay

variable (ledger : SortedMap Bytes Bytes)

/-- A page that is not the last one gets the cursor past a record, so the number of records is fuel
enough. -/
def rememberPages (stop : Nat) : (fuel cursor : Nat) → Overlay → Except CoreError Overlay
  | 0, _, overlay => .ok overlay
  | fuel + 1, cursor, overlay => do
    let page := readKeyPage ledger (keyU64 cursor) readPage
    if page = [] then pure overlay
    else do
      let (overlay, next) ← rememberPage geo generation stop page cursor overlay
      match next with
      | none => pure overlay
      | some cursor => rememberPages stop fuel cursor overlay

/-- The last record that begins before `start`; the control record is none. -/
def rememberBefore (start : Nat) (overlay : Overlay) : Except CoreError Overlay :=
  match ledger.floor? (keyU64 (start - 1)) with
  | none => .ok overlay
  | some entry =>
    if entry.1 ≠ keyU64 0 then do
      let run ← lifetime geo generation entry
      overlay.remember run
    else .ok overlay

/-- What lies before the interval, in it, and the first record behind it. -/
def rememberInterval (interval : Nat × Nat) (overlay : Overlay) : Except CoreError Overlay := do
  let overlay ← rememberBefore geo generation ledger interval.1 overlay
  rememberPages geo generation ledger interval.2 (ledger.entries.length + 1) interval.1 overlay

def checkNeighbours : List LifetimeRun → Except CoreError Unit
  | left :: right :: rest => do
    adjacent left right
    checkNeighbours (right :: rest)
  | _ => .ok ()

variable (registry : SortedMap Bytes Bytes)

/-- No registered view lies in a lifetime that is to be given up. Every page but the last adds to `seen`,
so the budget of views is fuel enough, and it is what the scan stops at. -/
def checkViews (maxViews : Nat) (transfers : List LifetimeRun) :
    (fuel low seen : Nat) → Except CoreError Unit
  | 0, _, _ => .error viewBudget
  | fuel + 1, low, seen => do
    let page ← readRegistryPage geo registry generation low readPage
    refuseIf (page.advertisedCount > maxViews) viewBudget
    let seen := seen + page.records.length
    refuseIf (seen > maxViews) viewBudget
    refuseIf (page.nextId = none ∧ seen ≠ page.advertisedCount)
      (.corrupt "snapshot registry traversal count mismatch")
    refuseIf (∃ view ∈ page.records, ∃ run ∈ transfers, run.2.contains view.2.generation)
      (.corrupt "registered snapshot still owns requested transfer")
    match page.nextId with
    | none => pure ()
    | some next => checkViews maxViews transfers fuel next seen

/-- Only a transfer needs the registry. -/
def checkTransfers (maxViews : Nat) (transfers : List LifetimeRun) : Except CoreError Unit :=
  if transfers = [] then .ok () else checkViews geo generation registry maxViews transfers (maxViews + 1) 0 0

end Reading

/-! ### The edit -/

def editOverlay (newGeneration : Nat) (changes : LifetimeChanges) (overlay : Overlay) :
    Except CoreError Overlay := do
  let overlay := { overlay with current := overlay.original }
  let overlay ← changes.allocations.foldlM
    (fun overlay range => overlay.allocate newGeneration range.1 range.2) overlay
  let overlay ← changes.retirements.foldlM
    (fun overlay range => overlay.retire newGeneration range.1 range.2) overlay
  let overlay ← changes.transfers.foldlM (fun overlay run => overlay.transfer run) overlay
  overlay.canonicalize

def changedRecords (overlay : Overlay) : List LifetimeRun :=
  overlay.current.entries.filter fun run => overlay.original.get? run.1 ≠ some run.2

def upsertRecord (geo : Geometry) (newGeneration : Nat) (run : LifetimeRun) :
    Except CoreError (Bytes × Bytes) := do
  let value ← (run.2.encode run.1 newGeneration geo.totalBlocks).mapError .format
  pure (keyU64 run.1, value)

/-- `cow` is what the allocator and the device say while the copy-on-write engine builds the nodes. -/
def mutateLifetimes (geo : Geometry) (registry ledger : SortedMap Bytes Bytes)
    (generation newGeneration : Nat) (changes : LifetimeChanges) (maxRecords maxViews : Nat)
    (cow : Except CoreError Unit) : Except CoreError LifetimeMutation := do
  refuseIf (newGeneration ≤ generation) (.corrupt "lifetime edit generation does not advance")
  let (oldState, _) ← readLedgerState geo ledger
  let state := { oldState with scanPosition := changes.nextScanPosition.getD oldState.scanPosition }
  let _ ← (state.encode geo.totalBlocks).mapError .format
  let ranges ← requestedRanges geo generation changes
  let intervals := mergeIntervals (ranges.insertionSort intervalLe)
  let overlay ← intervals.foldlM
    (fun overlay interval => rememberInterval geo generation ledger interval overlay)
    ⟨.empty, .empty, maxRecords⟩
  checkNeighbours overlay.original.entries
  checkTransfers geo generation registry maxViews changes.transfers
  let overlay ← editOverlay newGeneration changes overlay
  let oldRetired ← retiredSum overlay.original
  let newRetired ← retiredSum overlay.current
  refuseIf (oldState.retainedBlocks < oldRetired ∨
      oldState.retainedBlocks - oldRetired + newRetired ≥ 2 ^ 64)
    (.corrupt "retained block accounting mismatch")
  let state := { state with retainedBlocks := oldState.retainedBlocks - oldRetired + newRetired }
  let controlValue ← (state.encode geo.totalBlocks).mapError .format
  let deletes := (overlay.original.keys.filter fun key => (overlay.current.get? key).isNone).map keyU64
  let upserts ← (changedRecords overlay).mapM (upsertRecord geo newGeneration)
  let upserts := upserts ++ if state ≠ oldState then [(keyU64 0, controlValue)] else []
  cow
  let tree := upserts.foldl (fun tree new => tree.insert new.1 new.2) (deletes.foldl SortedMap.erase ledger)
  pure ⟨tree, state, changes.transfers.map fun run => (run.1, run.2.blocks),
    overlay.original.entries.length⟩

end Afsplus.Snapshot
