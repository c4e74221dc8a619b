import Afsplus.Core.Basic
import Afsplus.Format.Geometry
import Afsplus.Format.Tree
import Afsplus.Lib.Runs
import Afsplus.Lib.SortedMap

/-!
# The shared-extent reference tree and its transactional edit

One record for each physical run that two or more mappings share, keyed by the run's first block. A
transaction edits a window of the records: it fetches what overlaps or touches the blocks it is about to
change, raises and lowers counts there, and at the end merges what has become equal and states the
difference to the committed tree as deletes and upserts. The committed tree is the key/value map of its
leaves.
-/

namespace Afsplus

open Wire Fallible

def valueSize : Nat := 16

def minReferenceCount : Nat := 2

structure SharedRun where
  physicalStart : Nat
  blockCount : Nat
  referenceCount : Nat
  flags : Nat
  deriving DecidableEq, Repr

instance : Run SharedRun Nat :=
  ⟨SharedRun.physicalStart, fun run => run.physicalStart + run.blockCount, SharedRun.referenceCount⟩

/-- A piece of an extent; no count for a private gap. -/
structure SubRun where
  physicalStart : Nat
  blockCount : Nat
  referenceCount : Option Nat
  deriving DecidableEq, Repr

namespace SharedRun

def physicalEnd (run : SharedRun) : Except CoreError Nat := do
  refuseIf (run.physicalStart + run.blockCount ≥ 2 ^ 64) (.corrupt "shared run end overflows")
  pure (run.physicalStart + run.blockCount)

def validateRunShape (run : SharedRun) : Except CoreError Unit := do
  refuseIf (run.blockCount = 0) (.corrupt "zero-length shared run")
  let _ ← run.physicalEnd
  refuseIf (run.referenceCount < minReferenceCount) (.corrupt "shared run with fewer than two references")
  refuseIf (run.flags ≠ 0) (.corrupt "shared-run reserved flags are nonzero")

def value (run : SharedRun) : Bytes :=
  leBytes 8 run.blockCount ++ leBytes 4 run.referenceCount ++ leBytes 4 run.flags

def encodeRun (run : SharedRun) : Except CoreError (Bytes × Bytes) := do
  run.validateRunShape
  pure (keyU64 run.physicalStart, run.value)

def validatePhysicalRange (run : SharedRun) (geo : Geometry) : Except CoreError Unit := do
  let stop ← run.physicalEnd
  refuseIf (stop > geo.totalBlocks ∨ ¬geo.isAllocatable run.physicalStart ∨ ¬geo.isAllocatable (stop - 1) ∨
      geo.regionOf run.physicalStart ≠ geo.regionOf (stop - 1))
    (.corrupt s!"shared run {run.physicalStart}..{stop} is not allocatable")

def decodeRun (geo : Geometry) (key value : Bytes) : Except CoreError SharedRun := do
  refuseIf (key.length ≠ 8) (.corrupt "shared-run key is not eight bytes")
  refuseIf (value.length ≠ valueSize) (.corrupt "shared-run value is not sixteen bytes")
  let (blockCount, rest) := readLe 8 value
  let (referenceCount, rest) := readLe 4 rest
  let (flags, _) := readLe 4 rest
  let run : SharedRun := ⟨leNat key.reverse, blockCount, referenceCount, flags⟩
  run.validateRunShape
  run.validatePhysicalRange geo
  pure run

end SharedRun

namespace SharedExtents

/-- Neighbours in order, apart, and with different counts where they touch. -/
def validateCanonical : List SharedRun → Except CoreError Unit
  | first :: second :: rest => do
    let stop ← first.physicalEnd
    refuseIf (stop > second.physicalStart) (.corrupt "shared runs overlap")
    refuseIf (stop = second.physicalStart ∧ first.referenceCount = second.referenceCount)
      (.corrupt "adjacent shared runs with equal counts are not merged")
    validateCanonical (second :: rest)
  | _ => .ok ()

def loadAll (geo : Geometry) (tree : SortedMap Bytes Bytes) : Except CoreError (List SharedRun) := do
  let records ← tree.entries.mapM fun entry => SharedRun.decodeRun geo entry.1 entry.2
  validateCanonical records
  pure records

/-- The segments of `[cursor, stop)`; `records` are those whose end lies behind the cursor. -/
def resolveFrom (stop : Nat) : Nat → List SharedRun → Except CoreError (List SubRun)
  | cursor, [] => .ok (if cursor < stop then [⟨cursor, stop - cursor, none⟩] else [])
  | cursor, run :: rest =>
    if ¬cursor < stop then .ok []
    else if run.physicalStart ≥ stop then .ok [⟨cursor, stop - cursor, none⟩]
    else do
      let gap : List SubRun := if run.physicalStart > cursor then
        [⟨cursor, run.physicalStart - cursor, none⟩] else []
      let cursor := max cursor run.physicalStart
      let runEnd ← run.physicalEnd
      let segmentEnd := min runEnd stop
      let segments ← resolveFrom stop segmentEnd rest
      pure (gap ++ ⟨cursor, segmentEnd - cursor, some run.referenceCount⟩ :: segments)

def resolveOverlaps (physicalStart blockCount : Nat) (records : List SharedRun) :
    Except CoreError (List SubRun) := do
  refuseIf (blockCount = 0) (.corrupt "zero-length overlap query")
  refuseIf (physicalStart + blockCount ≥ 2 ^ 64) (.corrupt "overlap query end overflows")
  -- the saturated end of a run decides like the exact one: the cursor is below `2 ^ 64 - 1`
  resolveFrom (physicalStart + blockCount) physicalStart
    (records.dropWhile fun run => run.physicalStart + run.blockCount ≤ physicalStart)

end SharedExtents

structure RefEditStats where
  blocksNewlyShared : Nat
  blocksReferenceIncremented : Nat
  blocksReferenceDecremented : Nat
  blocksPrivatized : Nat
  deriving DecidableEq, Repr

structure RefPublication where
  deletes : List Bytes
  upserts : List (Bytes × Bytes)
  records : List SharedRun
  stats : RefEditStats
  rootRequired : Bool

def RefPublication.apply (publication : RefPublication) (tree : SortedMap Bytes Bytes) :
    SortedMap Bytes Bytes :=
  publication.upserts.foldl (fun tree new => tree.insert new.1 new.2)
    (publication.deletes.foldl SortedMap.erase tree)

structure RefEdit where
  original : SortedMap Nat SharedRun
  current : SortedMap Nat SharedRun
  fetched : List (Nat × Nat)
  stats : RefEditStats
  rootRequired : Bool
  deriving DecidableEq

namespace RefEdit

open SharedExtents

abbrev EditM := EStateM CoreError RefEdit

def new : RefEdit := ⟨.empty, .empty, [], ⟨0, 0, 0, 0⟩, false⟩

def markAllFetched (edit : RefEdit) : RefEdit := { edit with fetched := [(0, 2 ^ 64 - 1)] }

/-- The edit a transaction starts with. A volume that has never cloned has no tree, and every range of
it is known to be empty. -/
def opened : Option (SortedMap Bytes Bytes) → RefEdit
  | none => new.markAllFetched
  | some _ => new

def covers (edit : RefEdit) (start stop : Nat) : Bool :=
  edit.fetched.any fun interval => interval.1 ≤ start && stop ≤ interval.2

def noteRecord (edit : RefEdit) (run : SharedRun) : RefEdit :=
  if (edit.original.get? run.physicalStart).isSome then edit
  else { edit with
    original := edit.original.insert run.physicalStart run
    current := edit.current.insert run.physicalStart run }

def intervalLe (a b : Nat × Nat) : Prop := a.1 < b.1 ∨ a.1 = b.1 ∧ a.2 ≤ b.2

instance : DecidableRel intervalLe := fun _ _ => inferInstanceAs (Decidable (_ ∨ _))

/-- `(low, high)` is the interval merged so far. -/
def joinIntervals : Nat → Nat → List (Nat × Nat) → List (Nat × Nat)
  | low, high, [] => [(low, high)]
  | low, high, next :: rest =>
    if next.1 ≤ high then joinIntervals low (max high next.2) rest
    else (low, high) :: joinIntervals next.1 next.2 rest

def mergeIntervals : List (Nat × Nat) → List (Nat × Nat)
  | [] => []
  | first :: rest => joinIntervals first.1 first.2 rest

def noteFetched (start stop : Nat) (records : List SharedRun) (edit : RefEdit) : RefEdit :=
  let edit := records.foldl noteRecord edit
  { edit with fetched := mergeIntervals ((edit.fetched ++ [(start, stop)]).insertionSort intervalLe) }

def ensureCovered (edit : RefEdit) (start stop : Nat) : Except CoreError Unit :=
  refuseIf (edit.covers start stop = false)
    (.corrupt s!"shared-reference edit touches {start}..{stop} without prefetching it")

def resolve (edit : RefEdit) (start count : Nat) : Except CoreError (List SubRun) := do
  refuseIf (start + count ≥ 2 ^ 64) (.corrupt "overlap query end overflows")
  edit.ensureCovered start (start + count)
  resolveOverlaps start count edit.current.values

/-- Replaces `[segmentStart, segmentEnd)` inside the record it lies in. -/
def rewriteSegment (segmentStart segmentEnd : Nat) (newCount : Option Nat)
    (current : SortedMap Nat SharedRun) : Except CoreError (SortedMap Nat SharedRun) :=
  match current.floor? segmentStart with
  | none => .error (.corrupt "shared segment without a record")
  | some (recordStart, record) => do
    let recordEnd ← record.physicalEnd
    refuseIf (segmentStart < recordStart ∨ segmentEnd > recordEnd)
      (.corrupt "shared segment escapes its record")
    let current := current.erase recordStart
    let current := if recordStart < segmentStart then
        current.insert recordStart
          { record with physicalStart := recordStart, blockCount := segmentStart - recordStart }
      else current
    let current := match newCount with
      | some count =>
        current.insert segmentStart ⟨segmentStart, segmentEnd - segmentStart, count, 0⟩
      | none => current
    pure (if segmentEnd < recordEnd then
        current.insert segmentEnd
          { record with physicalStart := segmentEnd, blockCount := recordEnd - segmentEnd }
      else current)

def rewrite (segment : SubRun) (newCount : Option Nat) : EditM Unit := do
  let edit ← get
  let current ← lift (rewriteSegment segment.physicalStart
    (segment.physicalStart + segment.blockCount) newCount edit.current)
  modify fun edit => { edit with current }

def acquireSegment (segment : SubRun) : EditM Unit :=
  match segment.referenceCount with
  | some references => do
    require (references + 1 < 2 ^ 32)
      (.prototypeLimit "shared-extent reference count limit reached")
    rewrite segment (some (references + 1))
    modify fun edit => { edit with stats := { edit.stats with
      blocksReferenceIncremented := edit.stats.blocksReferenceIncremented + segment.blockCount } }
  | none =>
    modify fun edit => { edit with
      current := edit.current.insert segment.physicalStart
        ⟨segment.physicalStart, segment.blockCount, minReferenceCount, 0⟩
      stats := { edit.stats with
        blocksNewlyShared := edit.stats.blocksNewlyShared + segment.blockCount } }

def acquireSegments : List SubRun → EditM Unit
  | [] => pure ()
  | segment :: rest => do
    acquireSegment segment
    acquireSegments rest

def acquire (start count : Nat) : EditM Unit := do
  let edit ← get
  let segments ← lift (edit.resolve start count)
  acquireSegments segments

/-- The private gaps are what the caller may retire. -/
def releaseSegment (segment : SubRun) : EditM (List (Nat × Nat)) :=
  match segment.referenceCount with
  | some references =>
    if references > minReferenceCount then do
      rewrite segment (some (references - 1))
      modify fun edit => { edit with stats := { edit.stats with
        blocksReferenceDecremented := edit.stats.blocksReferenceDecremented + segment.blockCount } }
      pure []
    else do
      rewrite segment none
      modify fun edit => { edit with stats := { edit.stats with
        blocksPrivatized := edit.stats.blocksPrivatized + segment.blockCount } }
      pure []
  | none => pure [(segment.physicalStart, segment.blockCount)]

def releaseSegments : List SubRun → EditM (List (Nat × Nat))
  | [] => pure []
  | segment :: rest => do
    let retired ← releaseSegment segment
    let others ← releaseSegments rest
    pure (retired ++ others)

/-- Drops one reference over the run and returns the parts that had only this one. -/
def release (start count : Nat) : EditM (List (Nat × Nat)) := do
  let edit ← get
  let segments ← lift (edit.resolve start count)
  releaseSegments segments

/-! ### Publication -/

/-- `previous` is the last merged record so far. -/
def mergeInto : SharedRun → List SharedRun → Except CoreError (List SharedRun)
  | previous, [] => .ok [previous]
  | previous, run :: rest => do
    let previousEnd ← previous.physicalEnd
    if previousEnd = run.physicalStart ∧ previous.referenceCount = run.referenceCount then do
      refuseIf (previous.blockCount + run.blockCount ≥ 2 ^ 64) (.corrupt "merged shared run overflows")
      mergeInto { previous with blockCount := previous.blockCount + run.blockCount } rest
    else do
      let merged ← mergeInto run rest
      pure (previous :: merged)

def mergeRuns : List SharedRun → Except CoreError (List SharedRun)
  | [] => .ok []
  | run :: rest => mergeInto run rest

def collect (runs : List SharedRun) : SortedMap Nat SharedRun :=
  runs.foldl (fun map run => map.insert run.physicalStart run) .empty

def finish (edit : RefEdit) : Except CoreError RefPublication := do
  let merged ← mergeRuns edit.current.values
  let current := collect merged
  validateCanonical merged
  let deletes := (edit.original.keys.filter fun start => (current.get? start).isNone).map keyU64
  let changed := current.entries.filter fun entry => edit.original.get? entry.1 ≠ some entry.2
  let upserts ← changed.mapM fun entry => entry.2.encodeRun
  pure ⟨deletes, upserts, merged, edit.stats, edit.rootRequired⟩

/-- Loads what overlaps `[start, start + blocks)`, and its two neighbours. -/
def sharedPrefetch (geo : Geometry) (tree : Option (SortedMap Bytes Bytes)) (start blocks : Nat) :
    EditM Unit := do
  require (start + blocks < 2 ^ 64) (.corrupt "shared prefetch range overflows")
  let edit ← get
  if edit.covers start (start + blocks) then pure ()
  else do
    let committed ← expect tree (.corrupt "tree block 0 outside allocatable bounds")
    -- asked for just before `start`: a record that begins at `start` would hide its left neighbour
    let lowKey := match committed.floor? (keyU64 (start - 1)) with
      | some floor => floor.1
      | none => keyU64 start
    let records ← lift ((committed.range lowKey (keyU64 (start + blocks))).mapM fun entry =>
      SharedRun.decodeRun geo entry.1 entry.2)
    modify (noteFetched start (start + blocks) records)

end RefEdit

end Afsplus
