import Afsplus.Lib.SortedMap
import Afsplus.Core.Tree

/-!
# The VFS over a mounted volume

The state one mount keeps above the engine, and the part of the engine it calls. The VFS is written
once, over any volume that offers these calls; what is left out of its state is the snapshot readers and
the health notes, which decide nothing here. An error that the source turns into text is kept as the
error it was.
-/

namespace Afsplus

abbrev Handle := Nat

inductive NodeKind where
  | file
  | directory
  | symlink
  deriving DecidableEq, Repr

inductive AccessMode where
  | readOnly
  | writeOnly
  | readWrite
  deriving DecidableEq, Repr

namespace AccessMode

def canWrite (access : AccessMode) : Bool := access = .writeOnly || access = .readWrite

end AccessMode

inductive OpenHandle where
  | file (objectId : ObjectId) (access : AccessMode)
  | directory (objectId : ObjectId) (generation : Nat)
  deriving DecidableEq, Repr

def OpenHandle.objectId : OpenHandle → ObjectId
  | .file objectId _ => objectId
  | .directory objectId _ => objectId

inductive Durability where
  | sync
  | delayed (idleMs maxAgeMs : Nat)
  deriving DecidableEq, Repr

inductive VfsError where
  | notFound
  | alreadyExists
  | notDirectory
  | isDirectory
  | directoryNotEmpty
  | invalid
  | readOnly
  | noSpace
  | stale
  | busy
  | notSupported
  | corrupt (e : CoreError)
  | io (e : BlockError)
  | publicationUncertain (objectId : ObjectId) (detail : CoreError)
  | limit (what : String)
  | windowLost (operations : Nat)
  deriving DecidableEq, Repr

def VfsError.ofCore : CoreError → VfsError
  | .alreadyExists => .alreadyExists
  | .notFound => .notFound
  | .notDirectory => .notDirectory
  | .isDirectory => .isDirectory
  | .directoryNotEmpty => .directoryNotEmpty
  | .invalidMove _ | .invalidName _ | .invalidMetadata _ => .invalid
  | .noSpace => .noSpace
  | .readOnly => .readOnly
  | .stale => .stale
  | .windowOpen | .windowPoisoned | .busy => .busy
  | .unsupportedGeometry _ | .unsupportedIncompatFeatures _ | .readOnlyRequiredFeatures _
  | .featureDisabled _ | .securityProjectionRefused => .notSupported
  | .prototypeLimit what => .limit what
  | .block e => .io e
  | .format e => .corrupt (.format e)
  | .noValidCheckpoint a b => .corrupt (.noValidCheckpoint a b)
  | .ambiguousCheckpoints generation => .corrupt (.ambiguousCheckpoints generation)
  | .corrupt what => .corrupt (.corrupt what)

structure OrphanCleanupProgress where
  extentsRemoved : Nat
  objectRemoved : Bool
  stillPending : Bool
  deriving DecidableEq, Repr

structure OrphanBatchProgress where
  extentsRemoved : Nat
  objectsRemoved : Nat
  objectsAdvanced : Nat
  stillPending : Bool
  deriving DecidableEq, Repr

structure EntryPage where
  entries : List DirEntry
  nextOrdinal : Nat
  eof : Bool
  deriving DecidableEq, Repr

/-- The engine calls of a mounted volume with state `V`. Readers leave the state alone. -/
structure VolumeApi (V : Type) where
  mountMode : MountMode
  loggedDataUpdates : Bool
  orphanDirectory : Bool
  persistentSnapshots : Bool
  blockSize : Nat
  totalBlocks : Nat
  comparisonKey : Bytes → Except CoreError Bytes
  windowOpen : V → Bool
  windowChangesDirectory : V → ObjectId → Bool
  generation : V → Nat
  nextObjectId : V → ObjectId
  availableBlocks : V → Nat
  windowAvailableBlocks : V → Nat
  reclaimPendingBlocks : V → Nat
  orphanCount : V → Except CoreError Nat
  firstOrphan : V → Except CoreError (Option ObjectId)
  orphanObject : V → ObjectId → Except CoreError Bool
  visibleKind : V → ObjectId → Except CoreError (Option NodeKind)
  objectAttribute : V → ObjectId → String → Except CoreError (Option Bytes)
  /-- The child and the stored spelling of an entry. -/
  lookupEntry : V → ObjectId → Bytes → Except CoreError (Option (ObjectId × Bytes))
  readDirectoryPage : V → ObjectId → Nat → Nat → Nat → Except CoreError EntryPage
  windowCommit : Timespec → EStateM CoreError V Unit
  windowFsync : EStateM CoreError V Unit
  windowDiscard : V → Nat × V
  sync : EStateM CoreError V Unit
  reclaimStep : Timespec → EStateM CoreError V Nat
  cleanupOrphan : ObjectId → Timespec → EStateM CoreError V OrphanCleanupProgress
  cleanupOrphans : Nat → (ObjectId → Bool) → Timespec → EStateM CoreError V OrphanBatchProgress

structure Vfs (V : Type) where
  volume : V
  handles : SortedMap Handle OpenHandle
  /-- Stored spelling of the entry each directory handle returned last. -/
  directoryResume : SortedMap Handle Bytes
  nextHandle : Handle
  idleMaintenance : Bool
  /-- Generation and backlog an idle reclaim step left behind when it moved nothing. -/
  idleReclaimRest : Option (Nat × Nat)
  inlineMaintenance : Bool
  durability : Durability
  windowFirst : Option Timespec
  windowLast : Option Timespec
  windowChanges : Nat
  windowOpsMax : Nat
  windowDeletes : Nat
  lastChange : Option Timespec

def delayedWindowOpsMax : Nat := 512

def delayedWindowOpsMin : Nat := 16

def Vfs.new {V : Type} (volume : V) : Vfs V where
  volume := volume
  handles := .empty
  directoryResume := .empty
  nextHandle := 1
  idleMaintenance := true
  idleReclaimRest := none
  inlineMaintenance := true
  durability := .sync
  windowFirst := none
  windowLast := none
  windowChanges := 0
  windowOpsMax := delayedWindowOpsMax
  windowDeletes := 0
  lastChange := none

abbrev VfsM (V : Type) := EStateM VfsError (Vfs V)

namespace Vfs

variable {V α : Type}

/-- An engine call, its error as the VFS reports it. -/
def onVolume (x : EStateM CoreError V α) : VfsM V α := fun s =>
  match x s.volume with
  | .ok a v => .ok a { s with volume := v }
  | .error e v => .error (.ofCore e) { s with volume := v }

/-- An engine call whose error the VFS looks at itself. -/
def tryVolume (x : EStateM CoreError V α) : VfsM V (Except CoreError α) := fun s =>
  match x s.volume with
  | .ok a v => .ok (.ok a) { s with volume := v }
  | .error e v => .ok (.error e) { s with volume := v }

def onReader (f : V → Except CoreError α) : VfsM V α := fun s =>
  match f s.volume with
  | .ok a => .ok a s
  | .error e => .error (.ofCore e) s

end Vfs

end Afsplus
