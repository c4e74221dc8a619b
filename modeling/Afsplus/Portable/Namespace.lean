import Afsplus.Portable.Scan

/-!
# The portable reader: names and file sizes through the log

The C writer never builds the merged state. It resolves one name by walking the accepted operations
backwards, following a rename from its target to its source, down to the committed trees, and one
file's size by walking them forwards. Every admission first checks the whole accepted prefix the same
way. Lookups in the committed trees are what `CommittedTrees` provides.
-/

namespace Afsplus.Portable

open Fallible

inductive ObjectType where
  | file | directory | other
  deriving DecidableEq, Repr

structure ObjectView where
  type : ObjectType
  linkCount : Nat
  sizeBytes : Nat

structure DirectoryEntry where
  typeHint : ObjectType
  objectId : ObjectId
  parentId : ObjectId
  name : Bytes

/-- Probing the device and reading its committed trees. -/
structure CommittedTrees where
  probe : Device → Except Status Volume
  lookupObject : Device → Volume → ObjectId → Except Status ObjectView
  /-- The entry under a key of a directory; fails unless the object is a directory. -/
  lookupDirectoryKey : Device → Volume → ObjectId → Bytes → Except Status DirectoryEntry
  /-- The greatest object id in the object map. -/
  lastObjectId : Device → Volume → Except Status (Option ObjectId)
  /-- The allocation-root value of a region. -/
  allocationEntry : Device → Volume → Nat → Except Status (Option Bytes)

section

variable (trees : CommittedTrees) (dev : Device) (volume : Volume)

/-- Resolves a key against `before`, the latest operation first. The name reported is the one of the
last rename or create that placed the entry; the flag says whether the log created the object. -/
def namespaceResolve (resultParent : ObjectId) :
    (before : List LogOp) → ObjectId → Bytes → Option Bytes → Except Status (DirectoryEntry × Bool)
  | [], directoryId, key, finalName => do
    let committed ← trees.lookupDirectoryKey dev volume directoryId key
    pure (⟨committed.typeHint, committed.objectId, resultParent, finalName.getD committed.name⟩,
      false)
  | .create parentId name objectId _ _ _ _ :: before, directoryId, key, finalName =>
    if parentId ≠ directoryId then namespaceResolve resultParent before directoryId key finalName
    else do
      let operationKey ← nameKey volume name
      if operationKey ≠ key then namespaceResolve resultParent before directoryId key finalName
      else pure (⟨.file, objectId, resultParent, finalName.getD name⟩, true)
  | .delete parentId name _ :: before, directoryId, key, finalName =>
    if parentId ≠ directoryId then namespaceResolve resultParent before directoryId key finalName
    else do
      let operationKey ← nameKey volume name
      if operationKey ≠ key then namespaceResolve resultParent before directoryId key finalName
      else throw .notFound
  | .rename sourceParent sourceName targetParent targetName _ _ :: before, directoryId, key,
      finalName => do
    let targetKey ← nameKey volume targetName
    if targetParent = directoryId ∧ targetKey = key then do
      let sourceKey ← nameKey volume sourceName
      namespaceResolve resultParent before sourceParent sourceKey
        (some (finalName.getD targetName))
    else do
      let sourceKey ← nameKey volume sourceName
      if sourceParent = directoryId ∧ sourceKey = key then throw .notFound
      else namespaceResolve resultParent before directoryId key finalName
  | .write _ :: before, directoryId, key, finalName =>
    namespaceResolve resultParent before directoryId key finalName
  | .truncate _ :: before, directoryId, key, finalName =>
    namespaceResolve resultParent before directoryId key finalName

def namespaceResolveBefore (before : List LogOp) (directoryId : ObjectId) (key : Bytes) :
    Except Status (DirectoryEntry × Bool) :=
  namespaceResolve trees dev volume directoryId before directoryId key none

def namespaceParentIsDirectory (objectId : ObjectId) : Except Status Unit := do
  let object ← trees.lookupObject dev volume objectId
  refuseIf (object.type ≠ .directory) .notDirectory

structure IntentFileState where
  present : Bool
  linkCount : Nat
  sizeBytes : Nat

/-- Links the operation takes away: the name a delete removes, the one a rename displaces. -/
def removedKey (op : LogOp) : Except Status (Option (ObjectId × Bytes)) :=
  match op with
  | .delete parentId name _ => do
    let key ← nameKey volume name
    pure (some (parentId, key))
  | .rename sourceParent sourceName targetParent targetName _ _ => do
    let sourceKey ← nameKey volume sourceName
    let targetKey ← nameKey volume targetName
    if sourceParent = targetParent ∧ sourceKey = targetKey then pure none
    else pure (some (targetParent, targetKey))
  | _ => pure none

def stepFileState (objectId : ObjectId) (before : List LogOp) (op : LogOp)
    (state : IntentFileState) : Except Status IntentFileState :=
  match op with
  | .create _ _ expectedObjectId sizeBytes _ _ _ =>
    if expectedObjectId ≠ objectId then pure state
    else if state.present then throw .corrupt
    else pure ⟨true, 1, sizeBytes⟩
  | .write u | .truncate u =>
    if u.objectId ≠ objectId then pure state
    else if state.present = false ∨ u.expectedSizeBytes ≠ state.sizeBytes then throw .corrupt
    else pure { state with sizeBytes := u.newSizeBytes }
  | .delete .. | .rename .. => do
    match ← removedKey volume op with
    | none => pure state
    | some (parentId, key) =>
      match namespaceResolveBefore trees dev volume before parentId key with
      | .error status =>
        if op matches .rename .. ∧ status = .notFound then pure state else throw .corrupt
      | .ok (removed, _) =>
        if removed.objectId ≠ objectId then pure state
        else if state.present = false ∨ state.linkCount = 0 then throw .corrupt
        else pure ⟨state.linkCount - 1 ≠ 0, state.linkCount - 1, state.sizeBytes⟩

def walkFileState (objectId : ObjectId) :
    (before rest : List LogOp) → IntentFileState → Except Status IntentFileState
  | _, [], state => .ok state
  | before, op :: rest, state => do
    let state ← stepFileState trees dev volume objectId before op state
    walkFileState objectId (op :: before) rest state

/-- The file's state after `ops`, the first operation first. -/
def loadIntentFileState (ops : List LogOp) (objectId : ObjectId) :
    Except Status IntentFileState := do
  let state ← match trees.lookupObject dev volume objectId with
    | .ok object =>
      if object.type ≠ .file then throw .notFile
      else pure ⟨true, object.linkCount, object.sizeBytes⟩
    | .error .notFound => pure ⟨false, 0, 0⟩
    | .error status => throw status
  let state ← walkFileState trees dev volume objectId [] ops state
  refuseIf (state.present = false) .notFound
  pure state

/-! ### The prefix check -/

/-- Statuses the prefix check turns into corruption: the log names what is not there. -/
def corruptOn (absent : List Status) (status : Status) : Status :=
  if status ∈ absent then .corrupt else status

def requireParent (objectId : ObjectId) : Except Status Unit :=
  (namespaceParentIsDirectory trees dev volume objectId).mapError
    (corruptOn [.notFound, .notDirectory])

/-- A resolved entry must name a file, in the committed objects too unless the log created it. -/
def requireFile (entry : DirectoryEntry) (created : Bool) : Except Status Unit := do
  refuseIf (entry.typeHint ≠ .file) .corrupt
  if created then pure ()
  else do
    let object ← (trees.lookupObject dev volume entry.objectId).mapError (corruptOn [.notFound])
    refuseIf (object.type ≠ .file) .corrupt

/-- The check of one accepted operation against those before it; yields the next object id. -/
def validateNamespaceOperation (before : List LogOp) (op : LogOp) (nextObjectId : ObjectId) :
    Except Status ObjectId :=
  match op with
  | .write u | .truncate u => do
    let state ← (loadIntentFileState trees dev volume before.reverse u.objectId).mapError
      (corruptOn [.notFound, .notFile])
    refuseIf (state.sizeBytes ≠ u.expectedSizeBytes) .corrupt
    pure nextObjectId
  | .create parentId name expectedObjectId _ _ _ _ => do
    requireParent trees dev volume parentId
    let key ← nameKey volume name
    match namespaceResolveBefore trees dev volume before parentId key with
    | .error .notFound =>
      refuseIf (expectedObjectId < nextObjectId ∨ expectedObjectId = 2 ^ 64 - 1) .corrupt
      pure (expectedObjectId + 1)
    | _ => throw .corrupt
  | .delete parentId name _ => do
    requireParent trees dev volume parentId
    let key ← nameKey volume name
    let (source, created) ← (namespaceResolveBefore trees dev volume before parentId key).mapError
      (corruptOn [.notFound])
    requireFile trees dev volume source created
    pure nextObjectId
  | .rename sourceParent sourceName targetParent targetName replace _ => do
    requireParent trees dev volume sourceParent
    let sourceKey ← nameKey volume sourceName
    let (source, created) ← (namespaceResolveBefore trees dev volume before sourceParent
      sourceKey).mapError (corruptOn [.notFound])
    requireFile trees dev volume source created
    requireParent trees dev volume targetParent
    let targetKey ← nameKey volume targetName
    if sourceParent = targetParent ∧ sourceKey = targetKey then pure nextObjectId
    else match namespaceResolveBefore trees dev volume before targetParent targetKey with
      | .error .notFound => pure nextObjectId
      | .error status => throw status
      | .ok (target, created) => do
        refuseIf (replace = false) .corrupt
        requireFile trees dev volume target created
        pure nextObjectId

def validateNamespacePrefix :
    (before rest : List LogOp) → ObjectId → Except Status ObjectId
  | _, [], nextObjectId => .ok nextObjectId
  | before, op :: rest, nextObjectId => do
    let nextObjectId ← validateNamespaceOperation trees dev volume before op nextObjectId
    validateNamespacePrefix (op :: before) rest nextObjectId

/-- The size the writer compares a file update with. -/
def intentFileSize (view : View) (objectId : ObjectId) : Except Status Nat := do
  let _ ← validateNamespacePrefix trees dev volume [] view.operations volume.nextObjectId
  let state ← loadIntentFileState trees dev volume view.operations objectId
  pure state.sizeBytes

inductive NamespaceKind where
  | create | delete | renameNoReplace | renameReplace
  deriving DecidableEq, Repr

namespace NamespaceKind

def inspectTarget (kind : NamespaceKind) : Bool :=
  kind = renameNoReplace ∨ kind = renameReplace

def needsOrphan (kind : NamespaceKind) : Bool := kind = delete ∨ kind = renameReplace

end NamespaceKind

structure NamespaceArgs where
  sourceParent : ObjectId
  sourceName : Bytes
  targetParent : ObjectId
  targetName : Bytes
  timestamp : Timespec

structure Preflight where
  destinationConflict : Bool
  destinationIsFile : Bool
  nextObjectId : ObjectId

/-- After the scan, and only when the log is not full. -/
def preflightFileNamespace (view : View) (kind : NamespaceKind) (args : NamespaceArgs) :
    Except Status Preflight := do
  refuseIf (view.keysKnown = false) .unsupported
  let nextObjectId ← validateNamespacePrefix trees dev volume [] view.operations
    volume.nextObjectId
  let before := view.operations.reverse
  let sourceKey ← nameKey volume args.sourceName
  if kind = .create then do
    namespaceParentIsDirectory trees dev volume args.sourceParent
    match namespaceResolveBefore trees dev volume before args.sourceParent sourceKey with
    | .error .notFound => pure ⟨false, false, nextObjectId⟩
    | .error status => throw status
    | .ok _ => pure ⟨true, false, nextObjectId⟩
  else do
    let (source, _) ← namespaceResolveBefore trees dev volume before args.sourceParent sourceKey
    refuseIf (source.typeHint ≠ .file) .notFile
    if kind.inspectTarget = false then pure ⟨false, false, nextObjectId⟩
    else do
      let targetKey ← nameKey volume args.targetName
      match namespaceResolveBefore trees dev volume before args.targetParent targetKey with
      | .error .notFound => pure ⟨false, false, nextObjectId⟩
      | .error status => throw status
      | .ok (target, _) =>
        pure ⟨source.objectId ≠ target.objectId ∨ source.parentId ≠ target.parentId ∨
          source.name ≠ target.name, target.typeHint = .file, nextObjectId⟩

end

end Afsplus.Portable
