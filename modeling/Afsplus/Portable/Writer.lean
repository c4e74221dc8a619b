import Afsplus.Portable.Allocation

/-!
# The portable writer

Each call of the C writer appends at most one intent-log record. It runs all its checks first, then
writes: for a block write the data block and a flush, and in every case the record and a flush. The
record goes to the block the scan reports for the tail, which is the tail slot's own unless this slot
holds a record whose extents or content do not verify. `writer_touches_only_tail_and_free_space` is
what follows for every device and every call.

Pointers, structure sizes and the scratch buffer are not part of the model.
-/

namespace Afsplus.Portable

open Wire Fallible LogOp List

def encodeLogBlock (volume : Volume) (sequence version : Nat) (entry : OpEntry) :
    Except Status Bytes := do
  let payload := volume.uuid ++ leBytes 8 volume.generation ++ leBytes 4 sequence ++ leBytes 2 1 ++
    leBytes 2 version ++ entry.encode
  refuseIf (payload.length > defaultBlockSize - headerSize) .invalidArgument
  pure ((⟨BlockType.intentLog, 0, 0, volume.generation, payload.length⟩ : BlockHeader).sealBlock
    (payload ++ replicate (defaultBlockSize - headerSize - payload.length) 0))

def encodeNamespace (volume : Volume) (sequence : Nat) (kind : NamespaceKind) (args : NamespaceArgs)
    (createdObjectId : ObjectId) : Except Status Bytes :=
  let opType := match kind with
    | .create => 1
    | .delete => 2
    | .renameNoReplace | .renameReplace => 3
  encodeLogBlock volume sequence 2
    ⟨opType, kind = .renameReplace, args.sourceName, args.targetName, [], args.sourceParent,
      args.targetParent, if kind = .create then createdObjectId else 0, 0, 0, args.timestamp⟩

def encodeTruncate (volume : Volume) (sequence : Nat) (objectId : ObjectId)
    (expectedSize newSize : Nat) (timestamp : Timespec) : Except Status Bytes :=
  encodeLogBlock volume sequence 3
    ⟨5, false, [], [], [], objectId, 0, expectedSize, newSize, 0, timestamp⟩

def encodeWrite (volume : Volume) (sequence : Nat) (objectId : ObjectId)
    (logicalBlock expectedSize newSize contentCrc : Nat) (dataBlock : Lba) (timestamp : Timespec) :
    Except Status Bytes :=
  encodeLogBlock volume sequence 3
    ⟨4, false, [], [], [(dataBlock, 1)], objectId, logicalBlock, expectedSize, newSize, contentCrc,
      timestamp⟩

structure Plan where
  data : Option (Lba × Bytes)
  recordLba : Lba
  record : Bytes

def emergencyHeadroom (totalBlocks : Nat) : Nat :=
  if totalBlocks < 64 then 0 else max 8 (min 64 (divCeil totalBlocks 32))

section

variable (trees : CommittedTrees) (dev : Device)

def prepareVolume (needsOrphan needsDataUpdates : Bool) : Except Status Volume := do
  let volume ← trees.probe dev
  refuseIf (volume.intentLog = false ∨ volume.logSlots = 0 ∨ volume.otherRoCompat = true ∨
    (needsOrphan = true ∧ volume.orphanDirectory = false) ∨
    (needsDataUpdates = true ∧ volume.intentLogDataUpdates = false)) .writeFeature
  pure volume

def logTail (view : View) : Except Status Lba :=
  match view.tailSlot, view.tailBlock with
  | some slot, some block => do
    refuseIf (view.tailState = .full) .logFull
    refuseIf (slot ≠ view.validRecords ∨ view.lastSequence ≠ view.validRecords) .corrupt
    pure block
  | _, _ => throw .logFull

def validateObjectWatermark (volume : Volume) (nextObjectId : ObjectId) : Except Status Unit := do
  prepareOperation dev volume
  refuseIf (nextObjectId = 0) .invalidArgument
  match ← trees.lastObjectId dev volume with
  | none => throw .corrupt
  | some last => refuseIf (last ≥ nextObjectId) .corrupt

/-- Only a create allocates an object id. -/
def checkWatermark (volume : Volume) (kind : NamespaceKind) (nextObjectId : ObjectId) :
    Except Status Unit :=
  if kind = .create then validateObjectWatermark trees dev volume nextObjectId else pure ()

def planNamespace (kind : NamespaceKind) (args : NamespaceArgs) : Except Status Plan := do
  refuseIf (args.sourceParent = 0 ∨ (kind.inspectTarget = true ∧ args.targetParent = 0) ∨
    args.sourceName = [] ∨ args.sourceName.length > nameMaxUtf8Bytes ∨
    (kind.inspectTarget = true ∧
      (args.targetName = [] ∨ args.targetName.length > nameMaxUtf8Bytes)) ∨
    (kind.inspectTarget = false ∧ args.targetName ≠ []) ∨
    args.timestamp.nanoseconds ≥ 1000000000) .invalidArgument
  refuseIf (kind.inspectTarget = true ∧ args.sourceParent = args.targetParent ∧
    args.sourceName = args.targetName) .invalidArgument
  let volume ← prepareVolume trees dev kind.needsOrphan false
  let view ← scanIntentLog dev volume
  refuseIf (view.tailState = .full ∧ view.keysKnown = false) .writeFeature
  refuseIf (view.tailState = .full) .logFull
  let preflight ← preflightFileNamespace trees dev volume view kind args
  let tail ← logTail view
  let sequence := view.validRecords + 1
  refuseIf (kind = .create ∧ preflight.destinationConflict = true) .destinationExists
  refuseIf (kind = .create ∧ preflight.nextObjectId = 2 ^ 64 - 1) .objectIdExhausted
  checkWatermark trees dev volume kind preflight.nextObjectId
  refuseIf (kind = .renameNoReplace ∧ preflight.destinationConflict = true) .destinationExists
  refuseIf (kind = .renameReplace ∧ preflight.destinationConflict = true ∧
    preflight.destinationIsFile = false) .notFile
  let record ← encodeNamespace volume sequence kind args preflight.nextObjectId
  pure ⟨none, tail, record⟩

/-- `none` when the file already has the size: the call succeeds without a record. -/
def planTruncate (objectId : ObjectId) (newSize : Nat) (timestamp : Timespec) :
    Except Status (Option Plan) := do
  refuseIf (objectId = 0 ∨ timestamp.nanoseconds ≥ 1000000000) .invalidArgument
  let volume ← prepareVolume trees dev false true
  let view ← scanIntentLog dev volume
  let currentSize ← intentFileSize trees dev volume view objectId
  if newSize = currentSize then pure none
  else do
    refuseIf (newSize < currentSize ∧ newSize % defaultBlockSize ≠ 0) .tailRewriteRequired
    let tail ← logTail view
    let record ← encodeTruncate volume (view.validRecords + 1) objectId currentSize newSize timestamp
    pure (some ⟨none, tail, record⟩)

def planWrite (objectId : ObjectId) (logicalBlock : Nat) (blockData : Bytes) (newSize : Nat)
    (timestamp : Timespec) : Except Status Plan := do
  refuseIf (objectId = 0 ∨ blockData.length ≠ defaultBlockSize ∨ newSize = 0 ∨
    logicalBlock > (2 ^ 64 - 1) / defaultBlockSize ∨ timestamp.nanoseconds ≥ 1000000000)
    .invalidArgument
  let volume ← prepareVolume trees dev false true
  let view ← scanIntentLog dev volume
  let currentSize ← intentFileSize trees dev volume view objectId
  refuseIf (newSize < currentSize) .invalidWriteRange
  let fileBlocks := blocksFor newSize
  refuseIf (logicalBlock ≥ fileBlocks ∨
    (newSize > currentSize ∧ logicalBlock + 1 ≠ fileBlocks)) .invalidWriteRange
  refuseIf (newSize % defaultBlockSize ≠ 0 ∧ logicalBlock + 1 = fileBlocks ∧
    (blockData.drop (newSize % defaultBlockSize)).any (· != 0)) .nonzeroTail
  let tail ← logTail view
  let dataBlock ← (findLogDataBlock trees dev volume view
    (emergencyHeadroom volume.geo.totalBlocks)).mapError
      fun status => if status = .notFound then .noSpace else status
  let record ← encodeWrite volume (view.validRecords + 1) objectId logicalBlock currentSize newSize
    (crc32c blockData) dataBlock timestamp
  pure ⟨some (dataBlock, blockData), tail, record⟩

inductive Call where
  | createEmptyFile (parentId : ObjectId) (name : Bytes) (timestamp : Timespec)
  | deleteFile (parentId : ObjectId) (name : Bytes) (timestamp : Timespec)
  | renameFileNoReplace (args : NamespaceArgs)
  | renameFileReplace (args : NamespaceArgs)
  | truncateFile (objectId : ObjectId) (newSize : Nat) (timestamp : Timespec)
  | writeFileBlockCow (objectId : ObjectId) (logicalBlock : Nat) (blockData : Bytes) (newSize : Nat)
      (timestamp : Timespec)

def planCall : Call → Except Status (Option Plan)
  | .createEmptyFile parentId name timestamp =>
    some <$> planNamespace trees dev .create ⟨parentId, name, 0, [], timestamp⟩
  | .deleteFile parentId name timestamp =>
    some <$> planNamespace trees dev .delete ⟨parentId, name, 0, [], timestamp⟩
  | .renameFileNoReplace args => some <$> planNamespace trees dev .renameNoReplace args
  | .renameFileReplace args => some <$> planNamespace trees dev .renameReplace args
  | .truncateFile objectId newSize timestamp => planTruncate trees dev objectId newSize timestamp
  | .writeFileBlockCow objectId logicalBlock blockData newSize timestamp =>
    some <$> planWrite trees dev objectId logicalBlock blockData newSize timestamp

def Call.isBlockWrite : Call → Bool
  | .writeFileBlockCow .. => true
  | _ => false

/-- The writes a call has issued, in order. A failed write may still have reached the device. -/
abbrev CallM := EStateM Status (List (Lba × Bytes))

def writeBlock (failure : Status) (lba : Lba) (block : Bytes) : CallM Unit := do
  modify (· ++ [(lba, block)])
  let issued ← get
  require (dev.writeFails (issued.length - 1) = false) failure

def flush (failure : Status) : CallM Unit := do
  let issued ← get
  require (dev.flushFails (issued.length - 1) = false) failure

def writeData (lba : Lba) (block : Bytes) : CallM Unit := do
  writeBlock dev .dataWriteUncertain lba block
  flush dev .dataDurabilityUncertain

def writeRecord (lba : Lba) (block : Bytes) : CallM Unit := do
  writeBlock dev .writeUncertain lba block
  flush dev .durabilityUncertain

def perform (plan : Plan) : CallM Unit :=
  match plan.data with
  | none => writeRecord dev plan.recordLba plan.record
  | some (lba, block) => do
    writeData dev lba block
    writeRecord dev plan.recordLba plan.record

def runCall (call : Call) : CallM Unit := do
  match ← lift (planCall trees dev call) with
  | none => pure ()
  | some plan => perform dev plan

def writesOf (call : Call) : List (Lba × Bytes) :=
  match runCall trees dev call [] with
  | .ok _ issued => issued
  | .error _ issued => issued

/-! ### Where a call writes -/

private theorem writeBlock_run (failure : Status) (lba : Lba) (block : Bytes) (before : List (Lba × Bytes)) :
    writeBlock dev failure lba block before =
      if dev.writeFails before.length = false then .ok () (before ++ [(lba, block)])
      else .error failure (before ++ [(lba, block)]) := by
  have hlen : (before ++ [(lba, block)]).length - 1 = before.length := by simp
  change require (dev.writeFails ((before ++ [(lba, block)]).length - 1) = false) failure
    (before ++ [(lba, block)]) = _
  rw [hlen]
  split
  · rename_i hok
    exact require_of hok failure _
  · rename_i hfails
    exact require_of_not hfails failure _

private theorem flush_run (failure : Status) (before : List (Lba × Bytes)) :
    flush dev failure before =
      if dev.flushFails (before.length - 1) = false then .ok () before else .error failure before := by
  change require (dev.flushFails (before.length - 1) = false) failure before = _
  split
  · rename_i hok
    exact require_of hok failure _
  · rename_i hfails
    exact require_of_not hfails failure _

private theorem writeRecord_issued (lba : Lba) (block : Bytes) (before : List (Lba × Bytes)) :
    (∃ u, writeRecord dev lba block before = .ok u (before ++ [(lba, block)])) ∨
      ∃ status, writeRecord dev lba block before = .error status (before ++ [(lba, block)]) := by
  have hwrite := writeBlock_run dev .writeUncertain lba block before
  have hflush := flush_run dev .durabilityUncertain (before ++ [(lba, block)])
  unfold writeRecord
  split at hwrite
  · rw [bind_of_ok hwrite, hflush]
    split
    · exact .inl ⟨_, rfl⟩
    · exact .inr ⟨_, rfl⟩
  · exact .inr ⟨_, bind_of_error hwrite⟩

/-- The writes a call is meant to issue: the record to the slot after the accepted records, and for a
block write first one block that is allocatable, free in the committed bitmaps and in no accepted
record. -/
inductive Confined (call : Call) : List (Lba × Bytes) → Prop
  | nothing : Confined call []
  | record {volume : Volume} {view : View} {slot : Lba} {record : Bytes}
      (hprobe : trees.probe dev = .ok volume) (hscan : scanIntentLog dev volume = .ok view)
      (hslot : logSlotLba volume view.validRecords = .ok slot) : Confined call [(slot, record)]
  | data {volume : Volume} {view : View} {lba : Lba} {block : Bytes}
      (hprobe : trees.probe dev = .ok volume) (hscan : scanIntentLog dev volume = .ok view)
      (hcall : call.isBlockWrite = true)
      (hfree : FreeForLog trees dev volume (view.operations.flatMap dataExtents) lba) :
      Confined call [(lba, block)]
  | dataAndRecord {volume : Volume} {view : View} {lba slot : Lba} {block record : Bytes}
      (hprobe : trees.probe dev = .ok volume) (hscan : scanIntentLog dev volume = .ok view)
      (hcall : call.isBlockWrite = true)
      (hfree : FreeForLog trees dev volume (view.operations.flatMap dataExtents) lba)
      (hslot : logSlotLba volume view.validRecords = .ok slot) :
      Confined call [(lba, block), (slot, record)]

/-- What admission says of the plan it hands out. -/
structure PlanSpec (call : Call) (plan : Plan) (volume : Volume) (view : View) : Prop where
  probe : trees.probe dev = .ok volume
  scan : scanIntentLog dev volume = .ok view
  tail : view.tailBlock = some plan.recordLba
  kind : call.isBlockWrite = plan.data.isSome
  free : ∀ lba block, plan.data = some (lba, block) →
    FreeForLog trees dev volume (view.operations.flatMap dataExtents) lba

variable {trees dev}

theorem prepareVolume_probe {needsOrphan needsDataUpdates : Bool} {volume : Volume}
    (h : prepareVolume trees dev needsOrphan needsDataUpdates = .ok volume) : trees.probe dev = .ok volume := by
  obtain ⟨probed, hprobe, h⟩ := of_bind h
  replace h := after_check h
  rwa [pure_ok.mp h]

theorem logTail_block {view : View} {block : Lba} (h : logTail view = .ok block) : view.tailBlock = some block := by
  unfold logTail at h
  split at h
  · rename_i hblk
    replace h := after_check h
    replace h := after_check h
    rw [hblk, pure_ok.mp h]
  · cases h

variable {plan : Plan}

theorem planNamespace_spec {kind : NamespaceKind} {args : NamespaceArgs}
    (h : planNamespace trees dev kind args = .ok plan) :
    ∃ volume view, trees.probe dev = .ok volume ∧ scanIntentLog dev volume = .ok view ∧
      view.tailBlock = some plan.recordLba ∧ plan.data = none := by
  replace h := after_check h
  replace h := after_check h
  obtain ⟨volume, hvolume, h⟩ := of_bind h
  obtain ⟨view, hview, h⟩ := of_bind h
  replace h := after_check h
  replace h := after_check h
  obtain ⟨preflight, -, h⟩ := of_bind h
  obtain ⟨tail, htail, h⟩ := of_bind h
  replace h := after_check h
  replace h := after_check h
  obtain ⟨_, -, h⟩ := of_bind h
  replace h := after_check h
  replace h := after_check h
  obtain ⟨record, -, h⟩ := of_bind h
  cases pure_ok.mp h
  exact ⟨volume, view, prepareVolume_probe hvolume, hview, logTail_block htail, rfl⟩

variable {objectId : ObjectId} {timestamp : Timespec}

theorem planTruncate_spec {newSize : Nat}
    (h : planTruncate trees dev objectId newSize timestamp = .ok (some plan)) :
    ∃ volume view, trees.probe dev = .ok volume ∧ scanIntentLog dev volume = .ok view ∧
      view.tailBlock = some plan.recordLba ∧ plan.data = none := by
  replace h := after_check h
  obtain ⟨volume, hvolume, h⟩ := of_bind h
  obtain ⟨view, hview, h⟩ := of_bind h
  obtain ⟨currentSize, -, h⟩ := of_bind h
  split at h
  · cases h
  · replace h := after_check h
    obtain ⟨tail, htail, h⟩ := of_bind h
    obtain ⟨record, -, h⟩ := of_bind h
    cases pure_ok.mp h
    exact ⟨volume, view, prepareVolume_probe hvolume, hview, logTail_block htail, rfl⟩

theorem planWrite_spec {logicalBlock : Nat} {blockData : Bytes} {newSize : Nat}
    (h : planWrite trees dev objectId logicalBlock blockData newSize timestamp = .ok plan) :
    ∃ volume view lba, trees.probe dev = .ok volume ∧ scanIntentLog dev volume = .ok view ∧
      view.tailBlock = some plan.recordLba ∧ plan.data = some (lba, blockData) ∧
      FreeForLog trees dev volume (view.operations.flatMap dataExtents) lba := by
  replace h := after_check h
  obtain ⟨volume, hvolume, h⟩ := of_bind h
  obtain ⟨view, hview, h⟩ := of_bind h
  obtain ⟨currentSize, -, h⟩ := of_bind h
  iterate 3 replace h := after_check h
  obtain ⟨tail, htail, h⟩ := of_bind h
  obtain ⟨dataBlock, hdata, h⟩ := of_bind h
  obtain ⟨record, -, h⟩ := of_bind h
  cases pure_ok.mp h
  exact ⟨volume, view, dataBlock, prepareVolume_probe hvolume, hview, logTail_block htail, rfl,
    findLogDataBlock_spec (mapError_eq_ok.mp hdata)⟩

theorem map_some_eq_ok {ε α : Type} {r : Except ε α} {a : α} : some <$> r = .ok (some a) ↔ r = .ok a := by
  cases r <;> simp [Functor.map, Except.map]

variable {call : Call}

variable (h : planCall trees dev call = .ok (some plan))

include h

theorem planCall_spec : ∃ volume view, PlanSpec trees dev call plan volume view := by
  -- The five calls that write a record only; the block write brings its data block.
  have hrec : call.isBlockWrite = false →
      (∃ volume view, trees.probe dev = .ok volume ∧ scanIntentLog dev volume = .ok view ∧
        view.tailBlock = some plan.recordLba ∧ plan.data = none) →
      ∃ volume view, PlanSpec trees dev call plan volume view := by
    rintro hcall ⟨volume, view, hprobe, hscan, htail, hdata⟩
    exact ⟨volume, view, hprobe, hscan, htail, by rw [hcall, hdata]; rfl, by simp [hdata]⟩
  cases call with
  | createEmptyFile | deleteFile | renameFileNoReplace | renameFileReplace =>
    exact hrec rfl (planNamespace_spec (map_some_eq_ok.mp h))
  | truncateFile => exact hrec rfl (planTruncate_spec h)
  | writeFileBlockCow =>
    obtain ⟨volume, view, lba, hprobe, hscan, htail, hdata, hfree⟩ := planWrite_spec (map_some_eq_ok.mp h)
    refine ⟨volume, view, hprobe, hscan, htail, by rw [hdata]; rfl, ?_⟩
    intro lba' block hplan
    rw [hdata] at hplan
    cases hplan
    exact hfree

omit h in
theorem writesOf_refused (h : ∀ plan, planCall trees dev call ≠ .ok (some plan)) : writesOf trees dev call = [] := by
  unfold writesOf runCall
  cases hplan : planCall trees dev call with
  | error status => rfl
  | ok plan =>
    cases plan with
    | none => rfl
    | some plan => exact absurd hplan (h plan)

theorem writesOf_record (hdata : plan.data = none) : writesOf trees dev call = [(plan.recordLba, plan.record)] := by
  have hrun : runCall trees dev call [] = writeRecord dev plan.recordLba plan.record [] := by
    unfold runCall
    rw [h]
    change perform dev plan [] = _
    rw [perform, hdata]
  unfold writesOf
  rw [hrun]
  obtain ⟨_, hrec⟩ | ⟨_, hrec⟩ := writeRecord_issued dev plan.recordLba plan.record []
  · rw [hrec]
    rfl
  · rw [hrec]
    rfl

theorem writesOf_data {lba : Lba} {block : Bytes} (hdata : plan.data = some (lba, block)) :
    writesOf trees dev call = if dev.writeFails 0 = false ∧ dev.flushFails 0 = false then
        [(lba, block), (plan.recordLba, plan.record)] else [(lba, block)] := by
  have hrun : runCall trees dev call []
      = (writeData dev lba block >>= fun _ => writeRecord dev plan.recordLba plan.record) [] := by
    unfold runCall
    rw [h]
    change perform dev plan [] = _
    rw [perform, hdata]
  have hwrite := writeBlock_run dev .dataWriteUncertain lba block []
  have hflush := flush_run dev .dataDurabilityUncertain [(lba, block)]
  simp only [length_nil, nil_append, length_singleton, Nat.sub_self] at hwrite hflush
  unfold writesOf
  rw [hrun]
  by_cases hwriteOk : dev.writeFails 0 = false
  · rw [if_pos hwriteOk] at hwrite
    have hboth : writeData dev lba block [] = flush dev .dataDurabilityUncertain [(lba, block)] := bind_of_ok hwrite
    by_cases hflushOk : dev.flushFails 0 = false
    · rw [if_pos hflushOk] at hflush
      rw [if_pos ⟨hwriteOk, hflushOk⟩, bind_of_ok (hboth.trans hflush)]
      obtain ⟨_, hrec⟩ | ⟨_, hrec⟩ := writeRecord_issued dev plan.recordLba plan.record [(lba, block)]
      · rw [hrec]
        rfl
      · rw [hrec]
        rfl
    · rw [if_neg hflushOk] at hflush
      rw [if_neg (fun hok => hflushOk hok.2), bind_of_error (hboth.trans hflush)]
  · rw [if_neg hwriteOk] at hwrite
    have hboth : writeData dev lba block [] = .error .dataWriteUncertain [(lba, block)] := bind_of_error hwrite
    rw [if_neg (fun hok => hwriteOk hok.1), bind_of_error hboth]

omit h

/-- The slot behind the accepted records holds no record of this volume, next in sequence, whose
extents or content fail their checks. -/
def TailIntact (trees : CommittedTrees) (dev : Device) : Prop :=
  ∀ volume view slot, trees.probe dev = .ok volume → scanIntentLog dev volume = .ok view →
    logSlotLba volume view.validRecords = .ok slot → ¬BrokenRecord dev volume view.records slot

theorem TailIntact.slot (h : TailIntact trees dev) {volume : Volume} {view : View}
    (hspec : PlanSpec trees dev call plan volume view) :
    logSlotLba volume view.validRecords = .ok plan.recordLba := by
  obtain ⟨slot, hslot, hblk | hbroken⟩ := scanIntentLog_tailInSlot hspec.scan _ hspec.tail
  · rwa [hblk]
  · exact absurd hbroken (h volume view slot hspec.probe hspec.scan hslot)

end

/-! ### A record whose content does not verify -/

def tornVolume : Volume where
  geo := ⟨4096, 64, 64⟩
  metadataStart := 9
  uuid := replicate 16 7
  generation := 5
  logSlots := 4
  nextObjectId := 17
  freeBlocksTotal := 40
  nameKeyAlgorithm := 0
  intentLog := true
  intentLogDataUpdates := true
  orphanDirectory := true
  otherRoCompat := false

def tornTrees : CommittedTrees where
  probe _ := .ok tornVolume
  lookupObject _ _ objectId := if objectId = 16 then .ok ⟨.file, 1, 4096⟩ else .error .notFound
  lookupDirectoryKey _ _ _ _ := .error .notFound
  lastObjectId _ _ := .ok (some 16)
  allocationEntry _ _ _ := .ok none

/-- A logged write of block 40 with any checksum. -/
def tornWrite (contentCrc : Nat) : FileUpdate := ⟨16, 0, 4096, 4096, contentCrc, ⟨0, 0⟩, [(40, 1)]⟩

def tornRecord (contentCrc : Nat) : LogRecord :=
  ⟨replicate 16 7, 5, 1, [.write (tornWrite contentCrc)]⟩

def tornBlock (contentCrc : Nat) : Bytes :=
  ((tornRecord contentCrc).encode 4096).toOption.getD []

/-- The first log slot, block 16, holds the record; every other block holds `block`. -/
def tornDevice (contentCrc : Nat) (block : Bytes) : Device where
  blockCount := 64
  readBlocks lba := some (if lba = 16 then tornBlock contentCrc else block)
  writeFails _ := false
  flushFails _ := false

def tornView : View := ⟨[], .content, some 0, some 40, true⟩

section

variable {crc : Nat} {block : Bytes}

theorem decode_tornBlock (hcrc : crc < 256 ^ 4) : decodeLogRecord (tornBlock crc) = .ok (tornRecord crc) := by
  have hval : ∀ op ∈ (tornRecord crc).ops, op.validate = .ok () := by
    simp only [tornRecord, forall_mem_singleton]
    have hcnt : (write (tornWrite crc)).dataExtents.length ≤ maxLogExtents := show 1 ≤ 16 by decide
    refine (validate_iff_logOperationValid hcnt).mpr ⟨show 0 < 1000000000 by decide, ?_⟩
    simp [logOperationValid, dataExtents, tornWrite, validateDataExtentsFrom, blocksFor, defaultBlockSize]
  have hrng : (tornRecord crc).InRange := by
    refine ⟨rfl, show 5 < 256 ^ 8 by decide, show 1 < 256 ^ 4 by decide, ?_⟩
    simp only [tornRecord, forall_mem_singleton]
    exact ⟨show 16 < 256 ^ 8 by decide, show 0 < 256 ^ 8 by decide, show 4096 < 256 ^ 8 by decide,
      show 4096 < 256 ^ 8 by decide, hcrc, 
      ⟨show -(256 ^ 8 : Nat) ≤ 2 * (0 : Int) by decide, show 2 * (0 : Int) < (256 ^ 8 : Nat) by decide⟩,
      by simp [entry, tornWrite]⟩
  obtain ⟨encoded, henc⟩ : ∃ encoded, (tornRecord crc).encode 4096 = .ok encoded :=
    ⟨_, LogRecord.encode_eq_ok.mpr ⟨⟨by simp [tornRecord], show 1 ≤ 64 by decide⟩,
      ⟨show 1 ≠ 0 by decide, show 5 ≠ 0 by decide⟩,
      ⟨show headerSize ≤ 4096 by decide, show 108 ≤ 4096 - 32 by decide⟩, hval, rfl⟩⟩
  rw [decodeLogRecord_eq_ok, tornBlock, henc]
  exact LogRecord.decode_encode hrng henc

theorem readRun_torn (hblk : block.length = 4096) : readRun (tornDevice crc block) [40] 4096 = .ok (block, 0) := by
  have hread : (tornDevice crc block).readOne 40 = .ok block := rfl
  have htake : block.take 4096 = block := take_of_length_le hblk.le
  rw [readRun, if_neg (by decide), hread]
  refine bind_ok.mpr ⟨([], 0), rfl, ?_⟩
  rw [show min 4096 defaultBlockSize = 4096 from rfl, htake]
  exact congrArg (fun content => Except.ok (content, 0)) (append_nil block)

theorem readExtentContent_torn (hblk : block.length = 4096) :
    readExtentContent (tornDevice crc block) tornVolume [(40, 1)] 4096 = .ok (block, 0) := by
  rw [readExtentContent, if_neg (by decide)]
  refine bind_ok.mpr ⟨_, readRun_torn hblk, bind_ok.mpr ⟨([], 0), rfl, ?_⟩⟩
  exact congrArg (fun content => Except.ok (content, 0)) (append_nil block)

theorem verify_torn (hblk : block.length = 4096) :
    verifyLogOperationContent (tornDevice crc block) tornVolume (.write (tornWrite crc)) =
      if crc32c block = crc then .ok () else .error (some 40) := by
  have hbytes : (write (tornWrite crc)).contentBytes = 4096 := show ([1] : List Nat).sum * 4096 = 4096 by decide
  have hread := @readExtentContent_torn crc block hblk
  simp only [verifyLogOperationContent, hbytes]
  rw [if_neg (by decide)]
  simp only [dataExtents, tornWrite, hread, contentCrc, ne_eq, not_true_eq_false, false_or]
  by_cases hcrc : crc32c block = crc
  · rw [if_neg (not_not.mpr hcrc), if_pos hcrc]
  · rw [if_pos hcrc, if_neg hcrc]
    rfl

theorem scanRecord_torn (hlt : crc < 256 ^ 4) (hblk : block.length = 4096) :
    scanRecord (tornDevice crc block) tornVolume [] 16 true =
      if crc32c block = crc then .ok (tornRecord crc, true) else .error (.tail .content (some 40) true) := by
  have hread : (tornDevice crc block).readOne 16 = .ok (tornBlock crc) := by
    simp [Device.readOne, tornDevice]
  have hfirst : firstBadExtent tornVolume [] (tornWrite crc).extents = none :=
    show firstBadExtent tornVolume [] [(40, 1)] = none by decide
  rw [scanRecord_of_decoded hread (decode_tornBlock hlt) rfl rfl rfl, flatMap_nil, flatMap_nil,
    tornRecord, scanOperations, if_neg (fun h => absurd h.2 (by decide))]
  simp only [names, scanNames, dataExtents, hfirst, verify_torn hblk]
  by_cases hcrc : crc32c block = crc
  · simp only [if_pos hcrc, scanOperations]
  · simp only [if_neg hcrc]

theorem scanIntentLog_torn {view : View}
    (h : scanSlots (tornDevice crc block) tornVolume (3 + 1) [] true = .ok view) :
    scanIntentLog (tornDevice crc block) tornVolume = .ok view := by
  have hprep : prepareOperation (tornDevice crc block) tornVolume = .ok () :=
    refuseIf_eq_ok.mpr (show ¬(5 = 0 ∨ 64 = 0 ∨ 64 > 64 ∨ geometryValid tornVolume = false) by decide)
  refine bind_ok.mpr ⟨(), hprep, ?_⟩
  rw [if_neg (by decide)]
  exact h

theorem slot_torn : logSlotLba tornVolume 0 = .ok 16 := by decide

theorem scan_torn (hlt : crc < 256 ^ 4) (hblk : block.length = 4096) (hcrc : crc32c block ≠ crc) :
    scanIntentLog (tornDevice crc block) tornVolume = .ok tornView := by
  have hrec := @scanRecord_torn crc block hlt hblk
  rw [if_neg hcrc] at hrec
  exact scanIntentLog_torn (scanSlots_of_stop slot_torn hrec)

theorem plan_torn {view : View} {lba : Lba} (hscan : scanIntentLog (tornDevice crc block) tornVolume = .ok view)
    (hsize : intentFileSize tornTrees (tornDevice crc block) tornVolume view 16 = .ok 4096)
    (htail : logTail view = .ok lba) {record : Bytes}
    (hrec : encodeTruncate tornVolume (view.validRecords + 1) 16 4096 8192 ⟨0, 0⟩ = .ok record) :
    planCall tornTrees (tornDevice crc block) (.truncateFile 16 8192 ⟨0, 0⟩)
      = .ok (some ⟨none, lba, record⟩) := by
  have hvolume : prepareVolume tornTrees (tornDevice crc block) false true = .ok tornVolume := rfl
  have hshrink : ¬(8192 < 4096 ∧ 8192 % defaultBlockSize ≠ 0) := by decide
  change planTruncate tornTrees (tornDevice crc block) 16 8192 ⟨0, 0⟩ = _
  unfold planTruncate
  rw [refuseIf_bind (by decide)]
  refine bind_ok.mpr ⟨tornVolume, hvolume, ?_⟩
  refine bind_ok.mpr ⟨view, hscan, ?_⟩
  refine bind_ok.mpr ⟨4096, hsize, ?_⟩
  rw [if_neg (by decide), refuseIf_bind hshrink]
  exact bind_ok.mpr ⟨lba, htail, bind_ok.mpr ⟨record, hrec, rfl⟩⟩

end

/-- The same image with a record that verifies: slot 1, block 17, is empty. -/
def intactView (crc : Nat) : View := ⟨[tornRecord crc], .invalid, some 1, some 17, true⟩

theorem scan_intact {block : Bytes} (hblk : block.length = 4096)
    (hempty : ∀ record, decodeLogRecord block ≠ .ok record) :
    scanIntentLog (tornDevice (crc32c block) block) tornVolume = .ok (intactView (crc32c block)) := by
  have hrec := @scanRecord_torn (crc32c block) block (crc32c_lt block) hblk
  rw [if_pos rfl] at hrec
  have hslot : logSlotLba tornVolume [tornRecord (crc32c block)].length = .ok 17 :=
    show logSlotLba tornVolume 1 = .ok 17 by decide
  have hread : (tornDevice (crc32c block) block).readOne 17 = .ok block := rfl
  have hstop : scanRecord (tornDevice (crc32c block) block) tornVolume [tornRecord (crc32c block)] 17 true
      = .error (.tail .invalid (some 17) true) := by
    cases hdec : decodeLogRecord block with
    | ok record => exact absurd hdec (hempty record)
    | error e => simp only [scanRecord, hread, hdec]
  refine scanIntentLog_torn ?_
  rw [scanSlots, show logSlotLba tornVolume [].length = .ok 16 from slot_torn]
  simp only [hrec]
  exact scanSlots_of_stop hslot hstop

end Afsplus.Portable
