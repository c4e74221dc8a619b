import Afsplus.Vfs.Handles

/-!
# The AROS adapter

The DOS view of one mount: locks, file handles and enumerators over VFS handles, and the write
protection flag. A call that changes the volume passes the flag's guard first; what such a call does
behind the guard is part of the call and left open here. A call that only reads may change the tables
and take handle numbers. Everything else the adapter does to the VFS is spelled out. The caches of
parents, watches, record locks and the health log, which no call below reads, are left out.
-/

namespace Afsplus.Aros

open Fallible

abbrev LockId := Nat

abbrev FileHandleId := Nat

abbrev EnumeratorId := Nat

inductive ArosError where
  | unknown
  | noFreeStore
  | badNumber
  | objectInUse
  | objectExists
  | directoryNotFound
  | objectNotFound
  | objectTooLarge
  | actionNotKnown
  | invalidComponentName
  | invalidLock
  | objectWrongType
  | diskWriteProtected
  | directoryNotEmpty
  | seekError
  | commentTooBig
  | diskFull
  | writeProtected
  | notDosDisk
  | noMoreEntries
  | recordNotLocked
  | lockCollision
  | isSoftLink
  | publicationUncertain
  deriving DecidableEq, Repr

def ArosError.ofVfs : VfsError → ArosError
  | .notFound => .objectNotFound
  | .alreadyExists => .objectExists
  | .notDirectory | .isDirectory => .objectWrongType
  | .directoryNotEmpty => .directoryNotEmpty
  | .invalid => .invalidComponentName
  | .readOnly => .diskWriteProtected
  | .noSpace => .diskFull
  | .stale => .invalidLock
  | .busy => .objectInUse
  | .notSupported => .actionNotKnown
  | .corrupt _ => .notDosDisk
  | .io _ => .unknown
  | .publicationUncertain .. => .publicationUncertain
  | .limit _ => .objectTooLarge
  | .windowLost _ => .unknown

inductive LockAccess where
  | shared
  | exclusive
  deriving DecidableEq, Repr

structure LockCounts where
  shared : Nat
  exclusive : Bool
  deriving DecidableEq, Repr

structure LockState where
  objectId : ObjectId
  parent : Option ObjectId
  name : Bytes
  access : LockAccess
  directoryHandle : Option Handle
  nextCookie : Nat
  deriving DecidableEq, Repr

structure FileState where
  vfsHandle : Handle
  objectId : ObjectId
  parent : ObjectId
  name : Bytes
  position : Nat
  access : LockAccess
  dirty : Bool
  deriving DecidableEq, Repr

structure Enumerator where
  directory : Handle
  cookie : Nat
  lastName : Option Bytes
  finished : Bool
  deriving DecidableEq, Repr

structure Tables where
  locks : SortedMap LockId LockState
  lockCounts : SortedMap ObjectId LockCounts
  files : SortedMap FileHandleId FileState
  enumerators : SortedMap EnumeratorId Enumerator
  snapshotOwners : SortedMap Handle Nat
  nextLock : LockId
  nextFile : FileHandleId
  nextEnumerator : EnumeratorId

/-- Everything of an adapter but the write protection flag. -/
structure Session (V : Type) where
  vfs : Vfs V
  tables : Tables

/-- `writeProtect` is the pass key while the volume is protected. -/
structure Adapter (V : Type) where
  session : Session V
  writeProtect : Option Nat

structure Config where
  decodeComponent : Bytes → Except ArosError Bytes
  encodeName : Bytes → Except ArosError Bytes
  maxFileHandles : Nat
  maxEnumerators : Nat

abbrev SessionM (V : Type) := EStateM ArosError (Session V)

abbrev AdapterM (V : Type) := EStateM ArosError (Adapter V)

section

variable {V α : Type}

def onVfs (x : VfsM V α) : SessionM V α := fun s =>
  match x s.vfs with
  | .ok a vfs => .ok a { s with vfs := vfs }
  | .error e vfs => .error (.ofVfs e) { s with vfs := vfs }

/-- A VFS call whose error the adapter looks at itself. -/
def tryVfs (x : VfsM V α) : SessionM V (Except VfsError α) := fun s =>
  match x s.vfs with
  | .ok a vfs => .ok (.ok a) { s with vfs := vfs }
  | .error e vfs => .ok (.error e) { s with vfs := vfs }

def modifyTables (f : Tables → Tables) : SessionM V Unit :=
  modify fun s => { s with tables := f s.tables }

def onSession (x : SessionM V α) : AdapterM V α := fun a =>
  match x a.session with
  | .ok r session => .ok r { a with session := session }
  | .error e session => .error e { a with session := session }

end

variable {V : Type} (api : VolumeApi V) (turns : Nat) (cfg : Config)

/-! ### Holds on objects -/

def acquireObjectLock (objectId : ObjectId) (access : LockAccess) : SessionM V Unit := do
  let s ← get
  let counts := (s.tables.lockCounts.get? objectId).getD ⟨0, false⟩
  match access with
  | .shared => do
    require (counts.exclusive = false) .objectInUse
    modifyTables fun t => { t with
      lockCounts := t.lockCounts.insert objectId { counts with shared := counts.shared + 1 } }
  | .exclusive => do
    require (counts.exclusive = false ∧ counts.shared = 0) .objectInUse
    modifyTables fun t => { t with lockCounts := t.lockCounts.insert objectId { counts with exclusive := true } }

def LockCounts.released (counts : LockCounts) : LockAccess → LockCounts
  | .shared => { counts with shared := counts.shared - 1 }
  | .exclusive => { counts with exclusive := false }

def releaseObjectLock (objectId : ObjectId) (access : LockAccess) : SessionM V Unit :=
  modifyTables fun t => { t with
    lockCounts := match t.lockCounts.get? objectId with
      | none => t.lockCounts
      | some counts =>
        if counts.released access = ⟨0, false⟩ then t.lockCounts.erase objectId
        else t.lockCounts.insert objectId (counts.released access) }

def lockState (lock : LockId) : SessionM V LockState := do
  let s ← get
  expect (s.tables.locks.get? lock) .invalidLock

def fileState (handle : FileHandleId) : SessionM V FileState := do
  let s ← get
  expect (s.tables.files.get? handle) .invalidLock

def lockObjectOrRoot : Option LockId → SessionM V ObjectId
  | none => pure objectRoot
  | some lock => do
    let state ← lockState lock
    pure state.objectId

def ensureFileCapacity : SessionM V Unit := do
  let s ← get
  require (s.tables.files.entries.length < cfg.maxFileHandles) .noFreeStore

def allocateFileId : SessionM V FileHandleId := do
  let s ← get
  require (s.tables.nextFile + 1 < 2 ^ 64) .noFreeStore
  modifyTables fun t => { t with nextFile := t.nextFile + 1 }
  pure s.tables.nextFile

/-- A handle is writable on a read-write mount; a protected volume refuses the write itself. -/
def mountAccess : AccessMode := if api.mountMode = .readWrite then .readWrite else .readOnly

/-- A number for the handle just opened, which is closed again when the numbers have run out. -/
def fileIdFor (vfsHandle : Handle) : SessionM V FileHandleId := do
  match ← attempt allocateFileId with
  | .ok handle => pure handle
  | .error e => do
    let _ ← attempt (onVfs (Vfs.close api turns vfsHandle))
    throw e

def openLocked (objectId parent : ObjectId) (name : Bytes) : SessionM V FileHandleId := do
  let vfsHandle ← onVfs (Vfs.openFile api objectId (mountAccess api))
  let handle ← fileIdFor api turns vfsHandle
  modifyTables fun t => { t with
    files := t.files.insert handle ⟨vfsHandle, objectId, parent, name, 0, .shared, false⟩ }
  pure handle

/-- `open` with `MODE_OLDFILE`, the mode that needs no guard. -/
def openOldFile (base : Option LockId) (name : Bytes) : SessionM V FileHandleId := do
  ensureFileCapacity cfg
  let parent ← lockObjectOrRoot base
  let decoded ← lift (cfg.decodeComponent name)
  let s ← get
  let (objectId, stored) ← lift ((Vfs.lookupEntry api s.vfs.volume parent decoded).mapError .ofVfs)
  let storedName ← lift (cfg.encodeName stored)
  let kind ← lift ((Vfs.statKind api s.vfs.volume objectId).mapError .ofVfs)
  require (kind ≠ .symlink) .isSoftLink
  require (kind = .file) .objectWrongType
  acquireObjectLock objectId .shared
  match ← attempt (openLocked api turns objectId parent storedName) with
  | .ok handle => pure handle
  | .error e => do
    releaseObjectLock objectId .shared
    throw e

def closeDirectory : Option Handle → SessionM V Unit
  | none => pure ()
  | some directory => do
    let _ ← attempt (onVfs (Vfs.close api turns directory))
    pure ()

/-- The lock becomes the handle, with its hold on the object. -/
def openFromLock (lock : LockId) : SessionM V FileHandleId := do
  ensureFileCapacity cfg
  let state ← lockState lock
  let s ← get
  let kind ← lift ((Vfs.statKind api s.vfs.volume state.objectId).mapError .ofVfs)
  require (kind = .file) .objectWrongType
  let parent ← expect state.parent .objectWrongType
  let vfsHandle ← onVfs (Vfs.openFile api state.objectId (mountAccess api))
  let handle ← fileIdFor api turns vfsHandle
  modifyTables fun t => { t with locks := t.locks.erase lock }
  closeDirectory api turns state.directoryHandle
  modifyTables fun t => { t with
    files := t.files.insert handle ⟨vfsHandle, state.objectId, parent, state.name, 0, state.access, false⟩ }
  pure handle

def close (handle : FileHandleId) : SessionM V Unit := do
  let state ← fileState handle
  modifyTables fun t => { t with files := t.files.erase handle }
  releaseObjectLock state.objectId state.access
  onVfs (Vfs.close api turns state.vfsHandle)

def fsync (handle : FileHandleId) : SessionM V Unit := do
  let state ← fileState handle
  onVfs (Vfs.fsync api turns state.vfsHandle)

def freeLock (lock : LockId) : SessionM V Unit := do
  let state ← lockState lock
  modifyTables fun t => { t with locks := t.locks.erase lock }
  match state.directoryHandle with
  | none => pure ()
  | some directory => onVfs (Vfs.close api turns directory)
  releaseObjectLock state.objectId state.access

def putLock (lock : LockId) (state : LockState) : SessionM V Unit :=
  modifyTables fun t => { t with locks := t.locks.insert lock state }

/-- The directory handle of a lock, opened at the first `ExNext`. -/
def walkHandle (lock : LockId) (state : LockState) : SessionM V Handle :=
  match state.directoryHandle with
  | some directory => pure directory
  | none => do
    let directory ← onVfs (Vfs.openDirectory api state.objectId)
    putLock lock { state with directoryHandle := some directory }
    pure directory

/-- Returns the entry and the cookie behind it. -/
def examineNext (lock : LockId) : SessionM V (DirEntry × Nat) := do
  let state ← lockState lock
  let directory ← walkHandle api lock state
  let page ← onVfs (Vfs.readDirectory api turns directory state.nextCookie 1)
  let entry ← expect page.entries.head? .noMoreEntries
  putLock lock { state with directoryHandle := some directory, nextCookie := page.nextCookie }
  let s ← get
  let _ ← lift ((Vfs.statKind api s.vfs.volume entry.childId).mapError .ofVfs)
  let _ ← lift (cfg.encodeName entry.name)
  pure (entry, page.nextCookie)

def rewindDirectory (lock : LockId) : SessionM V Unit := do
  let state ← lockState lock
  match state.directoryHandle with
  | none => pure ()
  | some directory => onVfs (Vfs.close api turns directory)
  putLock lock { state with directoryHandle := none, nextCookie := 0 }

def openEnumerator (base : Option LockId) : SessionM V EnumeratorId := do
  let s ← get
  require (s.tables.enumerators.entries.length < cfg.maxEnumerators) .noFreeStore
  let object ← lockObjectOrRoot base
  let directory ← onVfs (Vfs.openDirectory api object)
  if s.tables.nextEnumerator + 1 < 2 ^ 64 then do
    modifyTables fun t => { t with
      enumerators := t.enumerators.insert t.nextEnumerator ⟨directory, 0, none, false⟩
      nextEnumerator := t.nextEnumerator + 1 }
    pure s.tables.nextEnumerator
  else do
    let _ ← attempt (onVfs (Vfs.close api turns directory))
    throw .noFreeStore

def maxPageEntries : Nat := 64

/-- A page of an enumerator; a cookie the volume has moved past is replaced by the place behind the
name returned last. -/
def enumeratorPage (state : Enumerator) (limit : Nat) : SessionM V Vfs.DirectoryPage := do
  match ← tryVfs (Vfs.readDirectory api turns state.directory state.cookie limit) with
  | .ok page => pure page
  | .error .stale => do
    match ← tryVfs (Vfs.resumeDirectoryAfter api state.directory state.lastName) with
    | .ok resumed => onVfs (Vfs.readDirectory api turns state.directory resumed limit)
    | .error .notFound | .error .notDirectory => throw .objectNotFound
    | .error e => throw (.ofVfs e)
  | .error e => throw (.ofVfs e)

def readEnumerator (enumerator : EnumeratorId) (limit : Nat) : SessionM V (List DirEntry × Bool) := do
  let s ← get
  let state ← expect (s.tables.enumerators.get? enumerator) .invalidLock
  require (0 < limit ∧ limit ≤ maxPageEntries) .badNumber
  if state.finished then pure ([], true)
  else do
    let page ← enumeratorPage api turns state limit
    let s ← get
    let _ ← lift ((page.entries.mapM fun entry => Vfs.statKind api s.vfs.volume entry.childId).mapError .ofVfs)
    let last := (page.entries.getLast?.map DirEntry.name).or state.lastName
    modifyTables fun t => { t with
      enumerators := t.enumerators.insert enumerator ⟨state.directory, page.nextCookie, last, page.eof⟩ }
    pure (page.entries, page.eof)

def closeEnumerator (enumerator : EnumeratorId) : SessionM V Unit := do
  let s ← get
  let state ← expect (s.tables.enumerators.get? enumerator) .invalidLock
  modifyTables fun t => { t with enumerators := t.enumerators.erase enumerator }
  onVfs (Vfs.close api turns state.directory)

def closeAll : List FileHandleId → SessionM V Unit
  | [] => pure ()
  | handle :: rest => do
    close api turns handle
    closeAll rest

def freeAll : List LockId → SessionM V Unit
  | [] => pure ()
  | lock :: rest => do
    freeLock api turns lock
    freeAll rest

def closeEnumerators : List EnumeratorId → SessionM V Unit
  | [] => pure ()
  | enumerator :: rest => do
    closeEnumerator api turns enumerator
    closeEnumerators rest

/-- `into_vfs`: everything open is closed. -/
def release : SessionM V Unit := do
  let s ← get
  closeAll api turns s.tables.files.keys
  let s ← get
  freeAll api turns s.tables.locks.keys
  let s ← get
  closeEnumerators api turns s.tables.enumerators.keys

/-! ### The guard -/

def ensureWritable : AdapterM V Unit := do
  let a ← get
  require (a.writeProtect = none) .diskWriteProtected

/-- Publishing what was accepted is the last change a protected volume sees. -/
def protect (key : Nat) : AdapterM V Unit := do
  onSession (onVfs (Vfs.setIdleMaintenance false))
  if api.mountMode = .readWrite then do
    match ← attempt (onSession (onVfs (Vfs.syncFilesystem api turns))) with
    | .ok _ => modify fun a => { a with writeProtect := some key }
    | .error e => do
      onSession (onVfs (Vfs.setIdleMaintenance true))
      throw e
  else modify fun a => { a with writeProtect := some key }

def setWriteProtect (on : Bool) (key : Nat) : AdapterM V Unit := do
  let a ← get
  match on, a.writeProtect with
  | true, none => protect api turns key
  | true, some stored => require (stored = key) .diskWriteProtected
  | false, none => pure ()
  | false, some stored => do
    require (stored = 0 ∨ stored = key) .invalidComponentName
    modify fun a => { a with writeProtect := none }
    onSession (onVfs (Vfs.setIdleMaintenance true))

inductive MutatingCall where
  | openNewFile | openReadWrite | write | setFileSize | writeAt | cloneFile | cloneRange | preallocate
  | replace | setVolumeLabel | createDirectory | deleteObject | rename | makeHardLink | setProtection
  | setOwner | setComment | setAttribute | setModified | makeSoftLink | restoreReclaim | snapshotCreate
  | snapshotDelete
  /-- The two restores check who opened the reader before they come to the guard. -/
  | snapshotRestoreFile (reader : Handle) (owner : Nat)
  | snapshotRestoreTree (reader : Handle) (owner : Nat)
  deriving DecidableEq, Repr

def snapshotOwned (reader : Handle) (owner : Nat) : SessionM V Unit := do
  let s ← get
  require (s.tables.snapshotOwners.get? reader = some owner) .invalidLock

def MutatingCall.checkReader : MutatingCall → SessionM V Unit
  | .snapshotRestoreFile reader owner | .snapshotRestoreTree reader owner => snapshotOwned reader owner
  | _ => pure ()

def mutating (call : MutatingCall) (behind : SessionM V Unit) : AdapterM V Unit := do
  onSession call.checkReader
  ensureWritable
  onSession behind

/-- The calls that read: they may change the tables and take handle numbers, and leave the volume and
the switches of the VFS alone. -/
inductive ReadingCall where
  | locate | locatePath | duplicateLock | parentLock | sameLock | changeLockMode | changeFileMode
  | parentOfFile | lockFromFile | read | seek | filePosition | fileSize | readAt | extentMap | advise
  | lookupId | statId | lockRecord | freeRecord | volumeLabel | comment | fileComment | namedAttribute
  | attributeNames | readSoftLink | addWatch | removeWatch | drainWatches | examineLock | examineFile
  | diskInfo | volumePolicy | healthLog | health | infoJson | snapshotList | snapshotOpen | snapshotClose
  | snapshotLookup | snapshotRead | snapshotStat | snapshotDirectoryOpen | snapshotDirectoryRead
  | snapshotDirectoryClose | flightRecorder | securityProbe
  deriving DecidableEq, Repr

def reading (_ : ReadingCall) (answer : Session V → Except ArosError (Tables × Handle)) : SessionM V Unit := do
  let s ← get
  let (tables, nextHandle) ← lift (answer s)
  modify fun s => { s with tables := tables, vfs := { s.vfs with nextHandle := nextHandle } }

inductive Call (V : Type) where
  | setWriteProtect (on : Bool) (key : Nat)
  | mutating (call : MutatingCall) (behind : SessionM V Unit)
  | reading (call : ReadingCall) (answer : Session V → Except ArosError (Tables × Handle))
  | openOldFile (base : Option LockId) (name : Bytes)
  | openFromLock (lock : LockId)
  | close (handle : FileHandleId)
  | freeLock (lock : LockId)
  | examineNext (lock : LockId)
  | rewindDirectory (lock : LockId)
  | openEnumerator (base : Option LockId)
  | readEnumerator (enumerator : EnumeratorId) (limit : Nat)
  | closeEnumerator (enumerator : EnumeratorId)
  | fsync (handle : FileHandleId)
  | flush
  | setDurability (durability : Durability)
  | setWindowOpsMax (ops : Nat)
  | commitIfDue (now : Timespec)
  | release

/-- What a call outside the guard does. -/
def unguarded : Call V → SessionM V Unit
  | .setWriteProtect .. | .mutating .. => pure ()
  | .reading call answer => reading call answer
  | .openOldFile base name => do let _ ← openOldFile api turns cfg base name
  | .openFromLock lock => do let _ ← openFromLock api turns cfg lock
  | .close handle => close api turns handle
  | .freeLock lock => freeLock api turns lock
  | .examineNext lock => do let _ ← examineNext api turns cfg lock
  | .rewindDirectory lock => rewindDirectory api turns lock
  | .openEnumerator base => do let _ ← openEnumerator api turns cfg base
  | .readEnumerator enumerator limit => do let _ ← readEnumerator api turns enumerator limit
  | .closeEnumerator enumerator => closeEnumerator api turns enumerator
  | .fsync handle => fsync api turns handle
  | .flush => onVfs (Vfs.syncFilesystem api turns)
  | .setDurability durability => onVfs (Vfs.setDurability api turns durability)
  | .setWindowOpsMax ops => do let _ ← onVfs (Vfs.setWindowOpsMax ops)
  | .commitIfDue now => do let _ ← onVfs (Vfs.commitIfDue api turns now)
  | .release => release api turns

def perform : Call V → AdapterM V Unit
  | .setWriteProtect on key => setWriteProtect api turns on key
  | .mutating call behind => mutating call behind
  | call => onSession (unguarded api turns cfg call)

def step (a : Adapter V) (call : Call V) : Adapter V := endState (perform api turns cfg call a)

def run (a : Adapter V) (calls : List (Call V)) : Adapter V := calls.foldl (step api turns cfg) a

end Afsplus.Aros
