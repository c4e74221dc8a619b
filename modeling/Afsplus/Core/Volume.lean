import Afsplus.Core.Objects

/-!
# A mounted volume

The committed objects, whether a window collects operations between two commits, how a call publishes a
transaction, and the call that cleans up orphans. A call runs against the answers of the block layer it is
given.
-/

namespace Afsplus.Names

open Fallible

structure Volume where
  committed : Committed
  windowOpen : Bool
  windowPoisoned : Bool

abbrev VolumeM := EStateM CoreError Volume

def maxDirectoryPageEntries : Nat := 4096

section Calls

variable (cfg : Config) (io : Engine)

def ensureWindowClosed (v : Volume) : Except CoreError Unit :=
  if cfg.mode.allowsUserWrites = false then .error .readOnly
  else if v.windowPoisoned = true then .error .windowPoisoned
  else if v.windowOpen = true then .error .windowOpen
  else .ok ()

/-- A commit edits the lifetimes of what the snapshots keep before it writes anything, and is refused
where that takes too much work. An error after checkpoint I/O has begun leaves it open which objects are
the durable ones, and poisons the mount. -/
def publish (next : Committed) : VolumeM Unit := do
  require (cfg.persistentSnapshots = true → io.lifetimesFit = true)
    (.prototypeLimit "lifetime edit record budget exhausted")
  match io.publish with
  | none => modify fun v => { v with committed := next, windowPoisoned := false }
  | some (e, uncertain) => do
    modify fun v => { v with windowPoisoned := v.windowPoisoned || uncertain }
    throw e

/-- A change that is worked out in full, and then published; `none` when there is nothing to publish. -/
def transact {α : Type} (plan : Volume → Except CoreError (α × Option Committed)) : VolumeM α := do
  let v ← get
  let (result, next) ← lift (plan v)
  match next with
  | none => pure result
  | some next => do
    publish cfg io next
    pure result

/-- A transaction at a time, and with no window open. -/
def immediate {α : Type} (now : Timespec)
    (plan : Committed → Except CoreError (α × Option Committed)) : VolumeM α :=
  transact cfg io fun v => do
    validateTime now
    ensureWindowClosed cfg v
    plan v.committed

def readOrphanRecord (c : Committed) (objectId : ObjectId) : Except CoreError Object := do
  let record ← readExisting io c objectId .notFound
  refuseIf (record.objectType ≠ .file ∨ record.linkCount ≠ 1)
    (.corrupt s!"orphan object {objectId} is not a singly-linked regular file")
  pure record

/-- The extents that a step with the given budget leaves, and those it gives up: the tail. -/
def orphanReleaseSet (record : Object) (limit : Nat) : List LogicalExtent × List LogicalExtent :=
  record.extents.splitAt (record.extents.length - limit)

def shrunkSize (record : Object) (kept removed : List LogicalExtent) : Nat :=
  if (kept.map LogicalExtent.blockCount).sum = 0 then 0
  else min record.content.length (((removed.head?.map LogicalExtent.logicalStart).getD 0) * cfg.blockSize)

/-- What a partial step leaves is still a prefix of the file. -/
def stageOrphanShrink (record : Object) (kept removed : List LogicalExtent) (now : Timespec) : Object :=
  { record with
    content := record.content.take (shrunkSize cfg record kept removed)
    extents := kept
    modified := now
    changed := now }

/-- The first page of orphans, without those to be passed over. -/
def orphanCandidates (skip : ObjectId → Bool) : List (Bytes × DirEntry) →
    Except CoreError (List (ObjectId × Bytes))
  | [] => .ok []
  | (key, entry) :: rest => do
    refuseIf (entry.childTypeHint ≠ 1 ∨ entry.name ≠ orphanName entry.childId)
      (.corrupt s!"orphan entry for object {entry.childId} has invalid name or type")
    let others ← orphanCandidates skip rest
    pure (if skip entry.childId then others else (entry.childId, key) :: others)

structure BatchProgress where
  extentsRemoved : Nat
  objectsRemoved : Nat
  objectsAdvanced : Nat
  stillPending : Bool
  deriving DecidableEq, Repr

/-- One transaction's work on orphans: the objects so far, the keys of the entries to delete, the budget
left, and what has been done. -/
structure OrphanWork where
  objects : SortedMap ObjectId Object
  removedKeys : List Bytes
  budget : Nat
  extentsRemoved : Nat
  objectsAdvanced : Nat

/-- Nothing of the object left to release, it leaves the volume; else it is shrunk by what the budget
allows. -/
def cleanCandidate (c : Committed) (now : Timespec) (work : OrphanWork) (candidate : ObjectId × Bytes) :
    Except CoreError OrphanWork :=
  if work.budget = 0 then .ok work
  else do
    let record ← readOrphanRecord io c candidate.1
    answered (io.layout candidate.1)
    let (kept, removed) := orphanReleaseSet record work.budget
    faultless (io.release candidate.1)
    if kept = [] then
      pure { work with
        objects := work.objects.erase candidate.1
        removedKeys := work.removedKeys ++ [candidate.2]
        budget := work.budget - removed.length
        extentsRemoved := work.extentsRemoved + removed.length }
    else
      pure { work with
        objects := work.objects.insert candidate.1 (stageOrphanShrink cfg record kept removed now)
        budget := work.budget - removed.length
        extentsRemoved := work.extentsRemoved + removed.length
        objectsAdvanced := work.objectsAdvanced + 1 }

/-- The objects when the entries of the removed orphans are gone. -/
def finishOrphans (directory : Object) (now : Timespec) (work : OrphanWork) : SortedMap ObjectId Object :=
  if work.removedKeys = [] then work.objects
  else work.objects.insert objectOrphanDirectory
    { directory with
      entries := work.removedKeys.foldl SortedMap.erase directory.entries
      modified := now
      changed := now }

def cleanupOrphansPlan (c : Committed) (maxObjects : Nat) (skip : ObjectId → Bool) (now : Timespec) :
    Except CoreError (BatchProgress × Option Committed) :=
  if maxObjects = 0 ∨ cfg.orphanDirectory = false then .ok (⟨0, 0, 0, false⟩, none)
  else do
    let record ← readObject io c objectOrphanDirectory
    match record with
    | none => pure (⟨0, 0, 0, false⟩, none)
    | some directory => do
      validateOrphanDirectory directory
      faultless (io.entries objectOrphanDirectory)
      let page := directory.entries.entries.take (min maxObjects maxDirectoryPageEntries)
      let candidates ← orphanCandidates skip page
      if candidates = [] then pure (⟨0, 0, 0, decide (directory.entries.entries ≠ [])⟩, none)
      else do
        answered io.begins
        let work ← candidates.foldlM (cleanCandidate cfg io c now)
          ⟨c.objects, [], cfg.orphanCleanupExtentBudget * maxObjects, 0, 0⟩
        let removed := work.removedKeys.length
        pure (⟨work.extentsRemoved, removed, work.objectsAdvanced,
            decide (removed < directory.entries.entries.length)⟩,
          some { c with objects := finishOrphans directory now work })

def cleanupOrphans (maxObjects : Nat) (skip : ObjectId → Bool) (now : Timespec) : VolumeM BatchProgress :=
  immediate cfg io now fun c => cleanupOrphansPlan cfg io c maxObjects skip now

end Calls

end Afsplus.Names
