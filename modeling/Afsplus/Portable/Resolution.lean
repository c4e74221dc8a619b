import Afsplus.Portable.Namespace

/-!
# The portable reader: names resolved backwards

The C resolver walks the log from a position towards its start, slot by slot, and restarts at a rename
whose target is the key it looks for, with the rename's source as the new key. It restarts at most once
for each operation of the log. What it finds is what a map of names holds after the operations in front
of the position, applied in order. The caller's name buffer is left out here: it decides whether the
name is copied, not which entry is found.
-/

namespace Afsplus.Portable

open Fallible List LogRecord

/-- In front of operation `operation` of the record in `slot`, or the end of the log. -/
structure LogPosition where
  slot : Nat
  operation : Nat
  deriving DecidableEq, Repr

/-- What one operation says about a key. -/
inductive Sighting where
  | passed
  | removed
  | placed (objectId : ObjectId) (name : Bytes)
  | moved (directoryId : ObjectId) (key name : Bytes)
  deriving DecidableEq, Repr

variable (trees : CommittedTrees) (dev : Device) (volume : Volume)

def sighting (directoryId : ObjectId) (key : Bytes) : LogOp → Except Status Sighting
  | .create parentId name objectId _ _ _ _ =>
    if parentId ≠ directoryId then .ok .passed
    else do
      let operationKey ← nameKey volume name
      pure (if operationKey ≠ key then .passed else .placed objectId name)
  | .delete parentId name _ =>
    if parentId ≠ directoryId then .ok .passed
    else do
      let operationKey ← nameKey volume name
      pure (if operationKey ≠ key then .passed else .removed)
  | .rename sourceParent sourceName targetParent targetName _ _ => do
    let targetKey ← nameKey volume targetName
    if targetParent = directoryId ∧ targetKey = key then do
      let sourceKey ← nameKey volume sourceName
      pure (.moved sourceParent sourceKey targetName)
    else do
      let sourceKey ← nameKey volume sourceName
      pure (if sourceParent = directoryId ∧ sourceKey = key then .removed else .passed)
  | .write _ | .truncate _ => .ok .passed

/-- The operations of one record below `limit`, the last one first. -/
def scanRecordBack (ops : List LogOp) (directoryId : ObjectId) (key : Bytes) :
    (limit : Nat) → Except Status (Option (Nat × Sighting))
  | 0 => .ok none
  | limit + 1 =>
    match ops[limit]? with
    | none => .error .corrupt
    | some op => do
      let seen ← sighting volume directoryId key op
      if seen = .passed then scanRecordBack ops directoryId key limit else pure (some (limit, seen))

/-- The records below `slotCursor`. The record of the boundary is read up to the boundary. -/
def scanBack (records : List LogRecord) (boundary : LogPosition) (directoryId : ObjectId) (key : Bytes) :
    (slotCursor : Nat) → Except Status (Option (LogPosition × Sighting))
  | 0 => .ok none
  | slot + 1 =>
    match records[slot]? with
    | none => .error .corrupt
    | some record => do
      let limit := if boundary.slot < records.length ∧ slot = boundary.slot then boundary.operation
        else record.ops.length
      refuseIf (limit > record.ops.length) .corrupt
      match ← scanRecordBack volume record.ops directoryId key limit with
      | none => scanBack records boundary directoryId key slot
      | some (operation, seen) => pure (some (⟨slot, operation⟩, seen))

/-- A name found later in the log is kept; an empty one stands for none. -/
def keptName (finalName name : Bytes) : Bytes := if finalName = [] then name else finalName

/-- One turn for each `chase`; `none` is the limit. -/
def chaseBack (records : List LogRecord) (resultParent : ObjectId) :
    (chases : Nat) → LogPosition → ObjectId → Bytes → Bytes →
      Option (Except Status (DirectoryEntry × Bool))
  | 0, _, _, _, _ => none
  | chases + 1, boundary, directoryId, key, finalName =>
    let slotCursor := if boundary.slot < records.length then boundary.slot + 1 else boundary.slot
    match scanBack volume records boundary directoryId key slotCursor with
    | .error status => some (.error status)
    | .ok none => some do
      let committed ← trees.lookupDirectoryKey dev volume directoryId key
      pure (⟨committed.typeHint, committed.objectId, resultParent, keptName finalName committed.name⟩, false)
    | .ok (some (position, .moved source sourceKey name)) =>
      chaseBack records resultParent chases position source sourceKey (keptName finalName name)
    | .ok (some (_, .placed objectId name)) =>
      some (.ok (⟨.file, objectId, resultParent, keptName finalName name⟩, true))
    | .ok (some (_, .removed)) | .ok (some (_, .passed)) => some (.error .notFound)

def chasesOf (view : View) (boundary : LogPosition) (directoryId : ObjectId) (key : Bytes) :
    Option (Except Status (DirectoryEntry × Bool)) :=
  chaseBack trees dev volume view.records directoryId (view.operations.length + 1) boundary directoryId key []

/-- `afspr_namespace_resolve_before`; the chase limit is reported as corruption. -/
def resolveBefore (view : View) (boundary : LogPosition) (directoryId : ObjectId) (key : Bytes) :
    Except Status (DirectoryEntry × Bool) :=
  (chasesOf trees dev volume view boundary directoryId key).getD (.error .corrupt)

structure Named where
  objectId : ObjectId
  typeHint : ObjectType
  name : Bytes
  created : Bool

/-- What a name stands for in a directory; a name that is not there is `.error .notFound`. -/
abbrev NameMap := ObjectId → Bytes → Except Status Named

def NameMap.set (names : NameMap) (directoryId : ObjectId) (key : Bytes) (value : Except Status Named) :
    NameMap := fun d k => if directoryId = d ∧ key = k then value else names d k

def NameMap.remove (names : NameMap) (directoryId : ObjectId) (key : Bytes) : NameMap :=
  names.set directoryId key (.error .notFound)

def committedNames : NameMap := fun directoryId key =>
  (trees.lookupDirectoryKey dev volume directoryId key).map fun entry =>
    ⟨entry.objectId, entry.typeHint, entry.name, false⟩

def keyOf (name : Bytes) : Bytes := (nameKey volume name).toOption.getD []

/-- A create adds the key, a delete removes it, a rename removes the source and then sets the target. -/
def applyOp (names : NameMap) : LogOp → NameMap
  | .create parentId name objectId _ _ _ _ =>
    names.set parentId (keyOf volume name) (.ok ⟨objectId, .file, name, true⟩)
  | .delete parentId name _ => names.remove parentId (keyOf volume name)
  | .rename sourceParent sourceName targetParent targetName _ _ =>
    (names.remove sourceParent (keyOf volume sourceName)).set targetParent (keyOf volume targetName)
      ((names sourceParent (keyOf volume sourceName)).map fun named => { named with name := targetName })
  | .write _ | .truncate _ => names

def opsBefore (records : List LogRecord) (position : LogPosition) : List LogOp :=
  (records.take position.slot).flatMap ops ++
    ((records[position.slot]?).map fun record => record.ops.take position.operation).getD []

def namesBefore (view : View) (position : LogPosition) : NameMap :=
  (opsBefore view.records position).foldl (applyOp volume) (committedNames trees dev volume)

def LogPosition.In (position : LogPosition) (records : List LogRecord) : Prop :=
  position.slot = records.length ∨
    ∃ record, records[position.slot]? = some record ∧ position.operation ≤ record.ops.length

def Named.entry (named : Named) (parentId : ObjectId) : DirectoryEntry × Bool :=
  (⟨named.typeHint, named.objectId, parentId, named.name⟩, named.created)

/-! ### Single operations -/

section Operations

variable {volume} {directoryId : ObjectId} {key : Bytes} {op : LogOp}

def Keyed (volume : Volume) (op : LogOp) : Prop := ∀ name ∈ op.names, ∃ key, nameKey volume name = .ok key

private theorem keyOf_eq {name : Bytes} (hkey : nameKey volume name = .ok key) : keyOf volume name = key := by
  rw [keyOf, hkey]
  rfl

private theorem ne_nil_of_nameKey {name : Bytes} (hkey : nameKey volume name = .ok key) : name ≠ [] := by
  rintro rfl
  cases hkey

/-- The value of a key after an operation, by what the operation says about it. -/
def Sighting.value (names : NameMap) (directoryId : ObjectId) (key : Bytes) : Sighting → Except Status Named
  | .passed => names directoryId key
  | .removed => .error .notFound
  | .placed objectId name => .ok ⟨objectId, .file, name, true⟩
  | .moved source sourceKey name => (names source sourceKey).map fun named => { named with name := name }

/-- The operation decides the key, and a name it gives is not empty. -/
def Sighting.Tells : Sighting → Prop
  | .passed => False
  | .removed | .placed .. => True
  | .moved _ _ name => name ≠ []

private theorem sighting_spec (hkeyed : Keyed volume op) : ∃ seen, sighting volume directoryId key op = .ok seen ∧
    (seen ≠ .passed → seen.Tells) ∧
    ∀ names, applyOp volume names op directoryId key = seen.value names directoryId key := by
  cases op with
  | create parentId name objectId =>
    obtain ⟨operationKey, hkey⟩ := hkeyed name (mem_singleton_self _)
    refine ⟨if parentId = directoryId ∧ operationKey = key then .placed objectId name else .passed, ?_, ?_, ?_⟩
    · rw [sighting, hkey, ok_bind]
      simp only [ne_eq, ite_not, ite_and]
      split_ifs <;> rfl
    · split_ifs <;> simp [Sighting.Tells]
    · intro names
      rw [applyOp, keyOf_eq hkey, NameMap.set]
      split_ifs <;> rfl
  | delete parentId name =>
    obtain ⟨operationKey, hkey⟩ := hkeyed name (mem_singleton_self _)
    refine ⟨if parentId = directoryId ∧ operationKey = key then .removed else .passed, ?_, ?_, ?_⟩
    · rw [sighting, hkey, ok_bind]
      simp only [ne_eq, ite_not, ite_and]
      split_ifs <;> rfl
    · split_ifs <;> simp [Sighting.Tells]
    · intro names
      rw [applyOp, keyOf_eq hkey, NameMap.remove, NameMap.set]
      split_ifs <;> rfl
  | rename sourceParent sourceName targetParent targetName =>
    obtain ⟨sourceKey, hsrc⟩ := hkeyed sourceName (mem_cons_self ..)
    obtain ⟨targetKey, htarget⟩ := hkeyed targetName (by simp [LogOp.names])
    refine ⟨if targetParent = directoryId ∧ targetKey = key then .moved sourceParent sourceKey targetName
      else if sourceParent = directoryId ∧ sourceKey = key then .removed else .passed, ?_, ?_, ?_⟩
    · rw [sighting, hsrc, htarget, ok_bind]
      by_cases hhit : targetParent = directoryId ∧ targetKey = key
      · rw [if_pos hhit, if_pos hhit]
        rfl
      · rw [if_neg hhit, if_neg hhit]
        rfl
    · split_ifs <;> simp [Sighting.Tells, ne_nil_of_nameKey htarget]
    · intro names
      rw [applyOp, keyOf_eq hsrc, keyOf_eq htarget, NameMap.set, NameMap.remove, NameMap.set]
      split_ifs <;> rfl
  | write update => exact ⟨.passed, rfl, fun h => absurd rfl h, fun _ => rfl⟩
  | truncate update => exact ⟨.passed, rfl, fun h => absurd rfl h, fun _ => rfl⟩

/-- What a walk over `ops` towards the start found, and the operations in front of where it stopped. -/
def Found (volume : Volume) (records : List LogRecord) (directoryId : ObjectId) (key : Bytes) (ops : List LogOp)
    (result : Except Status (Option (LogPosition × Sighting))) : Prop :=
  (result = .ok none ∧ ∀ names, ops.foldl (applyOp volume) names directoryId key = names directoryId key) ∨
    ∃ position seen, result = .ok (some (position, seen)) ∧ position.In records ∧
      (opsBefore records position).length < ops.length ∧ seen.Tells ∧
      ∀ names, ops.foldl (applyOp volume) names directoryId key =
        seen.value ((opsBefore records position).foldl (applyOp volume) names) directoryId key

private theorem scanRecordBack_spec {ops : List LogOp} (hkeyed : ∀ op ∈ ops, Keyed volume op) {limit : Nat}
    (hlimit : limit ≤ ops.length) :
    (scanRecordBack volume ops directoryId key limit = .ok none ∧
      ∀ names, (ops.take limit).foldl (applyOp volume) names directoryId key = names directoryId key) ∨
    ∃ operation seen, scanRecordBack volume ops directoryId key limit = .ok (some (operation, seen)) ∧
      operation < limit ∧ seen.Tells ∧ ∀ names, (ops.take limit).foldl (applyOp volume) names directoryId key =
        seen.value ((ops.take operation).foldl (applyOp volume) names) directoryId key := by
  induction limit with
  | zero => exact .inl ⟨rfl, fun _ => rfl⟩
  | succ limit ih =>
    have hop : ops[limit]? = some ops[limit] := getElem?_eq_getElem hlimit
    have htake : ops.take (limit + 1) = ops.take limit ++ [ops[limit]] := take_succ_eq_append_getElem hlimit
    obtain ⟨seen, hseen, htells, hvalue⟩ :=
      @sighting_spec volume directoryId key _ (hkeyed ops[limit] (getElem_mem hlimit))
    have hlast : ∀ names, (ops.take (limit + 1)).foldl (applyOp volume) names directoryId key =
        seen.value ((ops.take limit).foldl (applyOp volume) names) directoryId key := by
      intro names
      rw [htake, foldl_append]
      exact hvalue _
    rw [scanRecordBack, hop]
    simp only [hseen, ok_bind]
    by_cases hpassed : seen = .passed
    · rw [if_pos hpassed]
      simp only [hlast, hpassed]
      refine (ih (by omega)).imp_right ?_
      rintro ⟨operation, seen, hscan, hlt, hrest⟩
      exact ⟨operation, seen, hscan, by omega, hrest⟩
    · rw [if_neg hpassed]
      exact .inr ⟨limit, seen, rfl, by omega, htells hpassed, hlast⟩

variable {records : List LogRecord} {slot : Nat} {boundary : LogPosition}

private theorem opsBefore_of_getElem? {record : LogRecord} {operation : Nat}
    (hrec : records[slot]? = some record) : opsBefore records ⟨slot, operation⟩ =
      (records.take slot).flatMap ops ++ record.ops.take operation := by
  rw [opsBefore, hrec]
  rfl

theorem Found.record {record : LogRecord}
    (hrest : Found volume records directoryId key ((records.take slot).flatMap ops)
    (scanBack volume records boundary directoryId key slot))
    (hrec : records[slot]? = some record) (hkeyed : ∀ op ∈ record.ops, Keyed volume op) {limit : Nat}
    (hlimit : limit ≤ record.ops.length)
    (hboundary : limit = if boundary.slot < records.length ∧ slot = boundary.slot then boundary.operation
      else record.ops.length) :
    Found volume records directoryId key (opsBefore records ⟨slot, limit⟩)
      (scanBack volume records boundary directoryId key (slot + 1)) := by
  rw [scanBack, hrec, opsBefore_of_getElem? hrec]
  simp only [← hboundary, refuseIf_bind (not_lt.mpr hlimit)]
  obtain ⟨hscan, hsame⟩ | ⟨operation, seen, hscan, hlt, htells, hvalue⟩ :=
    @scanRecordBack_spec volume directoryId key _ hkeyed limit hlimit
  · rw [hscan, ok_bind]
    refine hrest.imp ?_ ?_
    · rintro ⟨hnone, hrest⟩
      refine ⟨hnone, fun names => ?_⟩
      rw [foldl_append, hsame, hrest]
    · rintro ⟨position, seen, hsome, hin, hlen, htells, hrest⟩
      refine ⟨position, seen, hsome, hin, ?_, htells, fun names => ?_⟩
      · rw [length_append]
        omega
      · rw [foldl_append, hsame, hrest]
  · rw [hscan, ok_bind]
    refine .inr ⟨⟨slot, operation⟩, seen, rfl, .inr ⟨record, hrec, by dsimp only; omega⟩, ?_, htells, fun names => ?_⟩
    · rw [opsBefore_of_getElem? hrec, length_append, length_append, length_take, length_take]
      omega
    · rw [foldl_append, hvalue, opsBefore_of_getElem? hrec, foldl_append]

private theorem scanBack_spec (hkeyed : ∀ record ∈ records, ∀ op ∈ record.ops, Keyed volume op) (hslot : slot ≤ boundary.slot)
    (hlen : slot ≤ records.length) :
    Found volume records directoryId key ((records.take slot).flatMap ops)
      (scanBack volume records boundary directoryId key slot) := by
  induction slot with
  | zero => exact .inl ⟨rfl, fun _ => rfl⟩
  | succ slot ih =>
    have hrec : records[slot]? = some records[slot] := getElem?_eq_getElem hlen
    have hfound := (ih (by omega) (by omega)).record hrec (hkeyed _ (getElem_mem hlen)) le_rfl
      (if_neg fun h => by omega).symm
    rwa [opsBefore_of_getElem? hrec, take_length, ← flatMap_singleton (f := ops),
      ← flatMap_append, ← take_succ_eq_append_getElem hlen] at hfound

end Operations

variable {trees dev volume}

private theorem keptName_keptName {name : Bytes} (hname : name ≠ []) (finalName other : Bytes) :
    keptName (keptName finalName name) other = keptName finalName name := by
  unfold keptName
  split_ifs <;> simp_all

/-- Each turn that goes on ends in front of where it began, so one turn for each operation is enough. -/
private theorem chaseBack_eq {records : List LogRecord} (hkeyed : ∀ record ∈ records, ∀ op ∈ record.ops, Keyed volume op)
    (resultParent : ObjectId) {chases : Nat} {boundary : LogPosition} (hin : boundary.In records)
    (hchases : (opsBefore records boundary).length < chases) (directoryId : ObjectId) (key finalName : Bytes) :
    chaseBack trees dev volume records resultParent chases boundary directoryId key finalName =
      some (((opsBefore records boundary).foldl (applyOp volume) (committedNames trees dev volume) directoryId
        key).map fun named => { named with name := keptName finalName named.name }.entry resultParent) := by
  induction chases generalizing boundary directoryId key finalName with
  | zero => exact absurd hchases (Nat.not_lt_zero _)
  | succ chases ih =>
    have hfound : Found volume records directoryId key (opsBefore records boundary)
        (scanBack volume records boundary directoryId key
          (if boundary.slot < records.length then boundary.slot + 1 else boundary.slot)) := by
      obtain hend | ⟨record, hrec, hoperation⟩ := hin
      · rw [if_neg (by omega), opsBefore, getElem?_eq_none hend.ge, Option.map_none, Option.getD_none,
          append_nil]
        exact scanBack_spec hkeyed le_rfl hend.le
      · obtain ⟨hslot, rfl⟩ := List.getElem?_eq_some_iff.mp hrec
        rw [if_pos hslot]
        exact (scanBack_spec hkeyed le_rfl hslot.le).record hrec (hkeyed _ (getElem_mem hslot)) hoperation
          (if_pos ⟨hslot, rfl⟩).symm
    rw [chaseBack]
    obtain ⟨hscan, hvalue⟩ | ⟨position, seen, hscan, hpstn, hshorter, htells, hvalue⟩ := hfound
    · simp only [hscan, hvalue, committedNames]
      cases trees.lookupDirectoryKey dev volume directoryId key <;> rfl
    · simp only [hscan, hvalue]
      cases seen with
      | passed => exact htells.elim
      | removed => rfl
      | placed objectId name => rfl
      | moved source sourceKey name =>
        simp only [ih hpstn (by omega), Sighting.value]
        cases (opsBefore records position).foldl (applyOp volume) (committedNames trees dev volume) source
          sourceKey with
        | error status => rfl
        | ok named => simp only [Except.map, keptName_keptName htells]

/-- The names of an accepted operation have keys, and a rename takes its name from a directory. -/
def Sound (trees : CommittedTrees) (dev : Device) (volume : Volume) (op : LogOp) : Prop :=
  Keyed volume op ∧ ∀ source name target targetName replace time,
    op = .rename source name target targetName replace time →
      namespaceParentIsDirectory trees dev volume source = .ok ()

variable {before : List LogOp} {nextObjectId : ObjectId}

private theorem sound_of_validate {op : LogOp} {next : ObjectId}
    (hacc : validateNamespaceOperation trees dev volume before op nextObjectId = .ok next) :
    Sound trees dev volume op := by
  cases op with
  | create parentId name =>
    obtain ⟨key, hkey, -⟩ := of_bind (after_check hacc)
    exact ⟨forall_mem_singleton.mpr ⟨key, hkey⟩, nofun⟩
  | delete parentId name =>
    obtain ⟨key, hkey, -⟩ := of_bind (after_check hacc)
    exact ⟨forall_mem_singleton.mpr ⟨key, hkey⟩, nofun⟩
  | rename sourceParent sourceName targetParent targetName =>
    obtain ⟨hparent, h⟩ := check_ok.mp hacc
    obtain ⟨sourceKey, hsrc, h⟩ := of_bind h
    obtain ⟨⟨source, created⟩, -, h⟩ := of_bind h
    replace h := after_check h
    replace h := after_check h
    obtain ⟨targetKey, htarget, -⟩ := of_bind h
    refine ⟨forall_mem_cons.mpr ⟨⟨sourceKey, hsrc⟩, forall_mem_singleton.mpr ⟨targetKey, htarget⟩⟩, ?_⟩
    rintro _ _ _ _ _ _ ⟨⟩
    exact mapError_eq_ok.mp hparent
  | write update => exact ⟨fun _ h => absurd h not_mem_nil, nofun⟩
  | truncate update => exact ⟨fun _ h => absurd h not_mem_nil, nofun⟩

private theorem sound_of_validatePrefix {rest : List LogOp} {next : ObjectId}
    (hacc : validateNamespacePrefix trees dev volume before rest nextObjectId = .ok next) :
    ∀ op ∈ rest, Sound trees dev volume op := by
  induction rest generalizing before nextObjectId with
  | nil => exact fun _ h => absurd h not_mem_nil
  | cons op rest ih =>
    obtain ⟨_, hop, hrest⟩ := of_bind hacc
    exact forall_mem_cons.mpr ⟨sound_of_validate hop, ih hrest⟩

private theorem length_opsBefore_le (records : List LogRecord) (position : LogPosition) :
    (opsBefore records position).length ≤ (records.flatMap ops).length := by
  conv_rhs => rw [← take_append_drop position.slot records, flatMap_append, length_append]
  rw [opsBefore, length_append]
  apply Nat.add_le_add_left
  cases hrec : records[position.slot]? with
  | none => exact Nat.zero_le _
  | some record =>
    obtain ⟨hslot, rfl⟩ := List.getElem?_eq_some_iff.mp hrec
    rw [drop_eq_getElem_cons hslot, flatMap_cons, length_append]
    exact (length_take_le' ..).trans (Nat.le_add_right ..)

private theorem chasesOf_eq {view : View} (hsound : ∀ op ∈ view.operations, Sound trees dev volume op) {position : LogPosition}
    (hin : position.In view.records) (directoryId : ObjectId) (key : Bytes) :
    chasesOf trees dev volume view position directoryId key =
      some ((namesBefore trees dev volume view position directoryId key).map fun named => named.entry directoryId) :=
  chaseBack_eq (fun record hrec op hop => (hsound op (mem_flatMap.mpr ⟨record, hrec, hop⟩)).1) directoryId
    hin (Nat.lt_succ_of_le (length_opsBefore_le view.records position)) directoryId key []

private theorem mem_of_mem_opsBefore {records : List LogRecord} {position : LogPosition} {op : LogOp}
    (h : op ∈ opsBefore records position) : op ∈ records.flatMap ops := by
  obtain hfront | hlast := mem_append.mp h
  · obtain ⟨record, hrec, hop⟩ := mem_flatMap.mp hfront
    exact mem_flatMap.mpr ⟨record, mem_of_mem_take hrec, hop⟩
  · cases hrec : records[position.slot]? with
    | none =>
      rw [hrec] at hlast
      exact absurd hlast not_mem_nil
    | some record =>
      rw [hrec] at hlast
      exact mem_flatMap.mpr ⟨record, mem_of_getElem? hrec, mem_of_mem_take hlast⟩

/-- The resolver of the writer goes through one list of operations, the latest first, without positions. -/
private theorem namespaceResolve_eq (hkeyed : ∀ op ∈ before, Keyed volume op) (resultParent directoryId : ObjectId) (key : Bytes)
    (finalName : Option Bytes) : namespaceResolve trees dev volume resultParent before directoryId key finalName =
      (before.foldr (fun op names => applyOp volume names op) (committedNames trees dev volume) directoryId key).map
        fun named => { named with name := finalName.getD named.name }.entry resultParent := by
  induction before generalizing directoryId key finalName with
  | nil =>
    rw [namespaceResolve, foldr_nil, committedNames]
    cases trees.lookupDirectoryKey dev volume directoryId key <;> rfl
  | cons op before ih =>
    obtain ⟨hop, hbefore⟩ := forall_mem_cons.mp hkeyed
    replace ih := ih hbefore
    rw [foldr_cons]
    cases op with
    | create parentId name objectId =>
      obtain ⟨operationKey, hkey⟩ := hop name (mem_singleton_self _)
      rw [namespaceResolve, applyOp, keyOf_eq hkey, NameMap.set, hkey, ok_bind, ih]
      simp only [ne_eq, ite_not, ite_and]
      split_ifs <;> rfl
    | delete parentId name =>
      obtain ⟨operationKey, hkey⟩ := hop name (mem_singleton_self _)
      rw [namespaceResolve, applyOp, keyOf_eq hkey, NameMap.remove, NameMap.set, hkey, ok_bind, ih]
      simp only [ne_eq, ite_not, ite_and]
      split_ifs <;> rfl
    | rename sourceParent sourceName targetParent targetName =>
      obtain ⟨sourceKey, hsrc⟩ := hop sourceName (mem_cons_self ..)
      obtain ⟨targetKey, htarget⟩ := hop targetName (by simp [LogOp.names])
      rw [namespaceResolve, applyOp, keyOf_eq hsrc, keyOf_eq htarget, NameMap.set, NameMap.remove, NameMap.set, hsrc,
        htarget, ok_bind, ok_bind, ok_bind, ih, ih]
      split_ifs
      · cases before.foldr (fun op names => applyOp volume names op) (committedNames trees dev volume) sourceParent
          sourceKey <;> rfl
      · rfl
      · rfl
    | write update => exact ih ..
    | truncate update => exact ih ..

/-- Both resolvers answer the same in front of any position of an accepted log. -/
theorem resolveBefore_eq_namespaceResolveBefore {view : View} {next : ObjectId}
    (haccepted : validateNamespacePrefix trees dev volume [] view.operations volume.nextObjectId = .ok next)
    {position : LogPosition} (hin : position.In view.records) (directoryId : ObjectId) (key : Bytes) :
    resolveBefore trees dev volume view position directoryId key =
      namespaceResolveBefore trees dev volume (opsBefore view.records position).reverse directoryId key := by
  have hsound := sound_of_validatePrefix haccepted
  have hkeyed : ∀ op ∈ (opsBefore view.records position).reverse, Keyed volume op := fun op hop =>
    (hsound op (mem_of_mem_opsBefore (mem_reverse.mp hop))).1
  rw [resolveBefore, chasesOf_eq hsound hin, namespaceResolveBefore, namespaceResolve_eq hkeyed, foldr_reverse]
  rfl

/-- In front of any position of an accepted log the resolver answers what the map of names holds there, and
the limit on its restarts is never met. -/
theorem resolveBefore_eq_names {view : View} {next : ObjectId}
    (haccepted : validateNamespacePrefix trees dev volume [] view.operations volume.nextObjectId = .ok next)
    {position : LogPosition} (hin : position.In view.records) (directoryId : ObjectId) (key : Bytes) :
    (chasesOf trees dev volume view position directoryId key).isSome ∧
      resolveBefore trees dev volume view position directoryId key =
        (namesBefore trees dev volume view position directoryId key).map fun named => named.entry directoryId := by
  rw [resolveBefore, chasesOf_eq (sound_of_validatePrefix haccepted) hin]
  exact ⟨rfl, rfl⟩

/-! ### A log of one rename -/

def renamedVolume : Volume := ⟨⟨4096, 64, 64⟩, 2, [], 5, 1, 17, 40, 0, true, true, true, false⟩

def renamedDevice : Device := ⟨64, fun _ => none, fun _ => false, fun _ => false⟩

/-- Object 1 is a directory that holds file 16 as `a`. -/
def renamedTrees : CommittedTrees where
  probe _ := .ok renamedVolume
  lookupObject _ _ objectId := .ok ⟨if objectId = 1 then .directory else .file, 1, 0⟩
  lookupDirectoryKey _ _ _ key := if key = [97] then .ok ⟨.file, 16, 1, [97]⟩ else .error .notFound
  lastObjectId _ _ := .ok (some 16)
  allocationEntry _ _ _ := .ok none

/-- The log calls it `b`. -/
def renamedView : View := ⟨[⟨[], 5, 1, [.rename 1 [97] 1 [98] false ⟨0, 0⟩]⟩], .none, none, none, true⟩

theorem resolveBefore_eq_names_renamed :
    (chasesOf renamedTrees renamedDevice renamedVolume renamedView ⟨1, 0⟩ 1 [98]).isSome ∧
      resolveBefore renamedTrees renamedDevice renamedVolume renamedView ⟨1, 0⟩ 1 [98]
        = .ok (⟨.file, 16, 1, [98]⟩, false) :=
  @resolveBefore_eq_names renamedTrees renamedDevice renamedVolume renamedView 17 rfl ⟨1, 0⟩ (.inl rfl) 1 [98]

end Afsplus.Portable
