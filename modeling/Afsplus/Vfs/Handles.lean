import Afsplus.Vfs.Maintenance

/-!
# Handles

Opening and closing of handles, the gate that hides restore stages, the directory walk and fsync. A
close, a listing and an fsync may all have to publish the window first.
-/

namespace Afsplus.Vfs

open Fallible Wire

variable {V : Type} (api : VolumeApi V) (turns : Nat)

def stageAttribute : String := "system.restore.stage"

/-- A marker names a root; the stage is active while the root's own marker names the root. -/
def restoreStagePrivate (v : V) (object : ObjectId) : Except VfsError Bool :=
  if api.persistentSnapshots = false then .ok false
  else match api.objectAttribute v object stageAttribute with
    | .error e => .error (.ofCore e)
    | .ok none => .ok false
    | .ok (some marker) =>
      if marker.length ≠ 8 then .error (.corrupt (.corrupt "invalid restore stage marker"))
      else if ¬(objectFirstDynamic ≤ leNat marker ∧ leNat marker < api.nextObjectId v) then
        .error (.corrupt (.corrupt "restore root identifier was never allocated"))
      else match api.objectAttribute v (leNat marker) stageAttribute with
        | .error .notFound => .ok false
        | .error e => .error (.ofCore e)
        | .ok none => .ok false
        | .ok (some value) =>
          if value = leBytes 8 (leNat marker) then .ok true
          else .error (.corrupt (.corrupt "invalid restore root marker"))

def ordinaryAccess (v : V) (object : ObjectId) : Except VfsError Unit :=
  match restoreStagePrivate api v object with
  | .error e => .error e
  | .ok true => .error .notFound
  | .ok false => .ok ()

def lookupEntry (v : V) (parent : ObjectId) (name : Bytes) : Except VfsError (ObjectId × Bytes) := do
  ordinaryAccess api v parent
  let found ← (api.lookupEntry v parent name).mapError .ofCore
  match found with
  | none => .error .notFound
  | some (objectId, stored) => do
    ordinaryAccess api v objectId
    .ok (objectId, stored)

def statKind (v : V) (object : ObjectId) : Except VfsError NodeKind := do
  ordinaryAccess api v object
  let orphan ← (api.orphanObject v object).mapError .ofCore
  refuseIf (orphan = true) .notFound
  let kind ← (api.visibleKind v object).mapError .ofCore
  match kind with
  | none => .error .notFound
  | some kind => .ok kind

def insertHandle (state : OpenHandle) : VfsM V Handle := do
  let s ← get
  require (s.nextHandle + 1 < 2 ^ 64) (.limit "handle space exhausted")
  modify fun s => { s with nextHandle := s.nextHandle + 1, handles := s.handles.insert s.nextHandle state }
  pure s.nextHandle

def openFile (objectId : ObjectId) (access : AccessMode) : VfsM V Handle := do
  let s ← get
  let kind ← lift (statKind api s.volume objectId)
  require (kind = .file) .isDirectory
  require (access.canWrite = false ∨ api.mountMode = .readWrite) .readOnly
  insertHandle (.file objectId access)

def openDirectory (objectId : ObjectId) : VfsM V Handle := do
  let s ← get
  let kind ← lift (statKind api s.volume objectId)
  require (kind = .directory) .notDirectory
  insertHandle (.directory objectId (api.generation s.volume))

/-- The last close of a file. A delayed mount commits on its own clock, unless the file was unlinked
meanwhile; with maintenance off the orphan stays for later. -/
def closeLast (objectId : ObjectId) : VfsM V Unit := do
  let s ← get
  let unlinked ← if delayed api s then onReader fun v => api.orphanObject v objectId else pure true
  if unlinked = false then pure ()
  else if s.idleMaintenance = false ∨ s.inlineMaintenance = false then checkpointDataWindow api turns noTime
  else do
    checkpointDataWindow api turns noTime
    let _ ← onVolume (api.cleanupOrphan objectId noTime)
    pure ()

def close (handle : Handle) : VfsM V Unit := do
  let s ← get
  let state ← expect (s.handles.get? handle) .stale
  modify fun s => { s with
    handles := s.handles.erase handle, directoryResume := s.directoryResume.erase handle }
  match state with
  | .directory .. => pure ()
  | .file objectId _ =>
    if isOpen (s.handles.erase handle) objectId ∨ api.mountMode ≠ .readWrite ∨ api.orphanDirectory = false then pure ()
    else closeLast api turns objectId

def directoryKeyAt (v : V) (objectId : ObjectId) (generation ordinal : Nat) :
    Except VfsError (Option Bytes) :=
  ((api.readDirectoryPage v objectId generation ordinal 1).map fun page =>
    page.entries.head?.map DirEntry.key).mapError .ofCore

/-- Ordinal and key order agree, so the answer is about every entry up to `ordinal`. -/
def atOrBefore (v : V) (objectId : ObjectId) (generation : Nat) (target : Bytes) (ordinal : Nat) :
    Except VfsError Bool :=
  (directoryKeyAt api v objectId generation ordinal).map fun key => key.any fun key => ¬target < key

/-- Doubling steps from `low`: the ordinals between which the first entry behind `target` lies. The
step doubles, so the ordinals run out before the turns do. -/
def gallop (v : V) (objectId : ObjectId) (generation : Nat) (target : Bytes) :
    Nat → Nat → Nat → Except VfsError (Nat × Nat)
  | 0, _, _ => .error (.corrupt (.corrupt "directory ordinal overflow"))
  | turn + 1, low, step => do
    refuseIf (low + (step - 1) ≥ 2 ^ 64) (.corrupt (.corrupt "directory ordinal overflow"))
    let before ← atOrBefore api v objectId generation target (low + (step - 1))
    if before then gallop v objectId generation target turn (low + (step - 1) + 1) (min (step * 2) (2 ^ 64 - 1))
    else .ok (low, low + (step - 1))

/-- Halving of the interval `gallop` found. -/
def bisect (v : V) (objectId : ObjectId) (generation : Nat) (target : Bytes) :
    Nat → Nat → Nat → Except VfsError Nat
  | 0, low, _ => .ok low
  | turn + 1, low, high =>
    if low < high then do
      let middle := low + (high - low) / 2
      let before ← atOrBefore api v objectId generation target middle
      if before then bisect v objectId generation target turn (middle + 1) high
      else bisect v objectId generation target turn low middle
    else .ok low

def ordinalAfter (v : V) (objectId : ObjectId) (lastName : Bytes) : Except VfsError Nat := do
  let target ← (api.comparisonKey lastName).mapError .ofCore
  let (low, high) ← gallop api v objectId (api.generation v) target 65 0 1
  bisect api v objectId (api.generation v) target (high - low) low high

/-- Binds the handle to the current generation and finds the first entry behind the last one returned. -/
def resumeDirectoryAfter (handle : Handle) (lastName : Option Bytes) : VfsM V Nat := do
  let s ← get
  match s.handles.get? handle with
  | none => throw .stale
  | some (.file ..) => throw .notDirectory
  | some (.directory objectId _) => do
    let kind ← lift (statKind api s.volume objectId)
    require (kind = .directory) .notDirectory
    let bound := OpenHandle.directory objectId (api.generation s.volume)
    modify fun s => { s with handles := s.handles.insert handle bound }
    match lastName with
    | none => pure 0
    | some lastName => lift (ordinalAfter api s.volume objectId lastName)

/-- The entries a caller may see. One whose marker cannot be decoded is left out as well. -/
def visibleEntries (v : V) : List DirEntry → Except VfsError (List DirEntry)
  | [] => .ok []
  | entry :: rest =>
    match restoreStagePrivate api v entry.childId with
    | .ok false => (visibleEntries v rest).map (entry :: ·)
    | .ok true | .error (.corrupt _) => visibleEntries v rest
    | .error e => .error e

structure DirectoryPage where
  entries : List DirEntry
  nextCookie : Nat
  eof : Bool
  deriving DecidableEq, Repr

/-- Pages with nothing to show are skipped. -/
def visiblePage (handle : Handle) (objectId : ObjectId) (maxEntries : Nat) :
    Nat → EntryPage → VfsM V DirectoryPage
  | 0, page => pure ⟨[], page.nextOrdinal, page.eof⟩
  | turn + 1, page => do
    let s ← get
    match page.entries.getLast? with
    | none => pure ()
    | some last => modify fun s => { s with directoryResume := s.directoryResume.insert handle last.name }
    let visible ← lift (visibleEntries api s.volume page.entries)
    if visible ≠ [] ∨ page.eof = true then pure ⟨visible, page.nextOrdinal, page.eof⟩
    else do
      let page ← onReader fun v =>
        api.readDirectoryPage v objectId (api.generation v) page.nextOrdinal maxEntries
      visiblePage handle objectId maxEntries turn page

/-- The page at a cookie; a cookie of an older generation is replaced by the place behind the entry the
handle returned last. -/
def entryPage (handle : Handle) (objectId : ObjectId) (generation cookie maxEntries : Nat) :
    VfsM V EntryPage := do
  let s ← get
  match api.readDirectoryPage s.volume objectId generation cookie maxEntries with
  | .ok page => pure page
  | .error .stale => do
    let ordinal ← resumeDirectoryAfter api handle (s.directoryResume.get? handle)
    onReader fun v => api.readDirectoryPage v objectId (api.generation v) ordinal maxEntries
  | .error e => throw (.ofCore e)

def readDirectory (handle : Handle) (cookie maxEntries : Nat) : VfsM V DirectoryPage := do
  let s ← get
  match s.handles.get? handle with
  | none => throw .stale
  | some (.file ..) => throw .notDirectory
  | some (.directory objectId generation) => do
    lift (ordinaryAccess api s.volume objectId)
    if api.windowChangesDirectory s.volume objectId then commitWindow api turns noTime else pure ()
    if cookie = 0 then
      modify fun s => { s with directoryResume := s.directoryResume.erase handle }
    else pure ()
    let page ← entryPage api handle objectId generation cookie maxEntries
    visiblePage api handle objectId maxEntries turns page

/-! ### Fsync -/

/-- A window the log cannot record is committed instead. -/
def fsync (handle : Handle) : VfsM V Unit := do
  let s ← get
  let state ← expect (s.handles.get? handle) .stale
  lift (ordinaryAccess api s.volume state.objectId)
  if api.mountMode ≠ .readWrite ∨ api.loggedDataUpdates = false then onVolume api.sync
  else do
    keepRoom api turns 0 noTime
    match ← tryVolume api.windowFsync with
    | .ok _ => pure ()
    | .error (.prototypeLimit _) => do
      onVolume (api.windowCommit noTime)
      afterWindowCommit api turns noTime
    | .error e => throw (.ofCore e)

end Afsplus.Vfs
