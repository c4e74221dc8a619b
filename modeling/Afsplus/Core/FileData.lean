import Afsplus.Core.Extents
import Afsplus.Core.Objects
import Afsplus.Core.SharedCounts
import Afsplus.Lib.ByteImage

/-!
# The data of files

The committed files of a volume, the blocks their data lies in, and the calls that read and change it. A call is one
transaction: it takes free blocks, gives back the ones it no longer needs and publishes the new extents together with
the reference counts. The device, the block allocator, the trees of metadata and the directories are seen through
`Answers`: what they hand out and where they refuse during one call. An extent tree is the map of its leaves.

No intent-log window is open; its calls are a different interface.
-/

namespace Afsplus.FileData

open Fallible Extents ByteImage

inductive DataUpdatePolicy where
  | fullCow
  | inPlacePrivate
  deriving DecidableEq, Repr

inductive BlockUse where
  | free
  | quarantined
  | metadata
  | data
  deriving DecidableEq, Repr

structure FileEditLimits where
  maxBlocks : Nat
  maxRecords : Nat
  deriving DecidableEq, Repr

structure FileRecord where
  objectType : ObjectType
  extentTree : Bool
  dataInPlace : Bool
  sizeBytes : Nat
  allocatedBytes : Nat
  modified : Timespec
  changed : Timespec
  protection : Nat
  contentGeneration : Nat
  dataRoot : Nat
  dataBlocks : Nat
  deriving DecidableEq

/-- A record with the leaves of its extent tree, if it has one. -/
structure FileObject where
  record : FileRecord
  tree : SortedMap Nat Extent
  deriving DecidableEq

/-- `refs` are the counts of the shared-extent tree; a block without a record counts once. -/
structure FileVolume where
  blockSize : Nat
  maxRun : Nat
  sharedExtents : Bool
  policy : DataUpdatePolicy
  snapshotsRequireCow : Bool
  generation : Nat
  nextObjectId : ObjectId
  sharedRoot : Bool
  disk : Nat → Bytes
  use : Nat → BlockUse
  refs : Nat → Nat
  objects : ObjectId → Option FileObject

/-- What a call meets: the runs the allocator picks among the free blocks, the quarantined blocks it gets back, the
blocks that metadata takes and leaves, with their images, the roots of the trees it writes, and a refusal. -/
structure Answers where
  pick : (Nat → BlockUse) → Nat → Except CoreError Nat
  pick_free : ∀ use count start, pick use count = .ok start → ∀ b, start ≤ b → b < start + count → use b = .free
  reclaims : Nat → Bool
  takes : Nat → Bool
  drops : Nat → Bool
  image : Nat → Bytes
  root : ObjectId → Nat
  refusal : Option CoreError

structure FileTx where
  use : Nat → BlockUse
  refs : Nat → Nat

abbrev TxM := EStateM CoreError FileTx

/-- The use of a block once metadata and the reclaim queue have had their turn. -/
def turned (a : Answers) (b : Nat) : BlockUse → BlockUse
  | .free => if a.takes b then .metadata else .free
  | .quarantined => if a.reclaims b then (if a.takes b then .metadata else .free) else .quarantined
  | .metadata => if a.drops b then .quarantined else .metadata
  | .data => .data

def begin (v : FileVolume) (a : Answers) : FileTx := ⟨fun b => turned a b (v.use b), v.refs⟩

def nextGeneration (v : FileVolume) : Except CoreError Nat := do
  refuseIf (2 ^ 64 ≤ v.generation + 1) (.prototypeLimit "generation counter exhausted")
  pure (v.generation + 1)

def runTx {α : Type} (x : TxM α) (tx : FileTx) : Except CoreError (α × FileTx) :=
  match x tx with
  | .ok result tx' => .ok (result, tx')
  | .error e _ => .error e

/-- The run `start..start + count` put to a use. -/
def assign (use : Nat → BlockUse) (start count : Nat) (kind : BlockUse) (b : Nat) : BlockUse :=
  if start ≤ b ∧ b < start + count then kind else use b

def allocateRun (a : Answers) (count : Nat) : TxM Nat := fun tx =>
  match a.pick tx.use count with
  | .ok start => .ok start { tx with use := assign tx.use start count .data }
  | .error e => .error e tx

/-- The inner loop of `allocate_extent_runs_bounded`: halves the run as long as there is no room for it. Returns the
start, the length found and the greatest length still worth a search. -/
def searchRun (a : Answers) (candidate maxRun : Nat) : TxM (Nat × Nat × Nat) := fun tx =>
  match allocateRun a candidate tx with
  | .ok start tx' => .ok (start, candidate, maxRun) tx'
  | .error e tx' =>
      if e = .noSpace ∧ candidate > 1 then searchRun a ((candidate + 1) / 2) ((candidate + 1) / 2) tx'
      else .error e tx'
termination_by candidate
decreasing_by omega

/-- The outer loop; a run has at least one block, so `count` rounds are enough. -/
def allocateRounds (a : Answers) (unwritten : Bool) (maxRuns : Nat) :
    Nat → Nat → Nat → Nat → List Extent → TxM (List Extent)
  | 0, _, _, _, found => pure found
  | rounds + 1, maxRun, logical, count, found =>
      if count = 0 then pure found
      else do
        require (found.length ≠ maxRuns) (.prototypeLimit "allocation run budget exhausted")
        let (start, candidate, maxRun') ← searchRun a (min count maxRun) maxRun
        require (logical + candidate < 2 ^ 64) (.prototypeLimit "logical extent range overflows")
        allocateRounds a unwritten maxRuns rounds maxRun' (logical + candidate) (count - candidate)
          (found ++ [⟨logical, start, candidate, unwritten, false⟩])

def allocateExtentRuns (v : FileVolume) (a : Answers) (logical count : Nat) (unwritten : Bool) (maxRuns : Nat) :
    TxM (List Extent) := do
  require (v.maxRun ≠ 0) (.corrupt "validated geometry has no allocatable run")
  let extents ← allocateRounds a unwritten maxRuns count v.maxRun logical count []
  lift (coalesceExtents extents)

def acquire (start count : Nat) : TxM Unit := do
  let tx ← get
  require (∀ b < start + count, start ≤ b → tx.refs b ≠ RefEdit.maxReferenceCount) RefEdit.limitReached
  set { tx with refs := RefEdit.raised tx.refs start (start + count) }

/-- Drops a mapping's reference and retires what nothing else maps. -/
def releaseDataRun (v : FileVolume) (e : Extent) : TxM Unit :=
  if e.shared then do
    require (v.sharedExtents = true) (.corrupt "extent carries EXTENT_SHARED without the shared-extents feature")
    require (v.sharedRoot = true) (.corrupt "extent carries EXTENT_SHARED but the volume has no reference tree")
    modify fun tx =>
      { use := fun b =>
          if (e.physicalStart ≤ b ∧ b < e.physicalStart + e.blockCount) ∧ tx.refs b < minReferenceCount
          then .quarantined else tx.use b
        refs := RefEdit.lowered tx.refs e.physicalStart (e.physicalStart + e.blockCount) }
  else
    modify fun tx => { tx with use := assign tx.use e.physicalStart e.blockCount .quarantined }

section References

/-! The counts of a transaction are those that an edit of the reference tree tracks. -/

variable {records : List SharedRun} (hrecs : Runs.Layout { run | run ∈ records }) {edit : RefEdit} {tx : FileTx}
  (htracks : RefEdit.Tracks records edit tx.refs)

include hrecs htracks

theorem acquire_tracks {start count : Nat} (hadmits : edit.Admits start count) :
    (∃ tx' edit', acquire start count tx = .ok () tx' ∧ RefEdit.acquire start count edit = .ok () edit' ∧
      RefEdit.Tracks records edit' tx'.refs) ∨
    acquire start count tx = .error RefEdit.limitReached tx ∧
      ∃ edit', RefEdit.acquire start count edit = .error RefEdit.limitReached edit' := by
  obtain ⟨edit', htracks', -, ⟨hrun, hroom⟩ | ⟨hrun, b, hlow, hhigh, hfull⟩⟩ :=
    RefEdit.acquire_spec hrecs htracks hadmits
  · refine .inl ⟨⟨tx.use, _⟩, edit', ?_, hrun, htracks'⟩
    rw [acquire, get_bind_apply, require_bind fun b hhigh hlow => hroom b hlow hhigh]
    rfl
  · refine .inr ⟨?_, edit', hrun⟩
    rw [acquire, get_bind_apply, require_bind_not fun hroom => hroom b hhigh hlow hfull]

/-- What the edit reports as freed is what the transaction retires. -/
theorem releaseDataRun_tracks {v : FileVolume} {e : Extent} (hshared : e.shared = true) (hfeature : v.sharedExtents = true)
    (hroot : v.sharedRoot = true) (hadmits : edit.Admits e.physicalStart e.blockCount) (hheld : ∀ b, tx.refs b ≠ 0) :
    ∃ tx' freed edit', releaseDataRun v e tx = .ok () tx' ∧
      RefEdit.release e.physicalStart e.blockCount edit = .ok freed edit' ∧ RefEdit.Tracks records edit' tx'.refs ∧
      ∀ b, tx'.use b = if b ∈ RefEdit.blocksOf freed then .quarantined else tx.use b := by
  obtain ⟨freed, edit', hrun, htracks', -, hfreed⟩ := RefEdit.release_spec hrecs htracks hadmits
  have hone : ∀ b, tx.refs b = 1 ↔ tx.refs b < minReferenceCount := by
    intro b
    have hpos := hheld b
    rw [minReferenceCount]
    omega
  refine ⟨⟨fun b => if b ∈ RefEdit.blocksOf freed then .quarantined else tx.use b,
    RefEdit.lowered tx.refs e.physicalStart (e.physicalStart + e.blockCount)⟩, freed, edit', ?_, hrun, htracks', fun _ => rfl⟩
  rw [releaseDataRun, if_pos hshared, require_bind hfeature, require_bind hroot]
  simp only [hfreed, List.mem_filter, List.mem_range'_1, decide_eq_true_eq, hone]
  rfl

end References

def writeAll (disk : Nat → Bytes) (writes : List (Nat × Bytes)) : Nat → Bytes :=
  writes.foldl (fun disk write => Function.update disk write.1 write.2) disk

def install (objects : ObjectId → Option FileObject) (updates : List (ObjectId × FileObject)) :
    ObjectId → Option FileObject :=
  updates.foldl (fun objects entry => Function.update objects entry.1 (some entry.2)) objects

/-- Publishes the transaction: its data and metadata writes, its records and its block accounting. -/
def commit (v : FileVolume) (a : Answers) (tx : FileTx) (writes : List (Nat × Bytes))
    (updates : List (ObjectId × FileObject)) : Except CoreError FileVolume :=
  match a.refusal with
  | some e => .error e
  | none => .ok
      { v with
        generation := v.generation + 1
        disk := writeAll (fun b => if v.use b ≠ .metadata ∧ tx.use b = .metadata then a.image b else v.disk b) writes
        use := tx.use
        refs := tx.refs
        objects := install v.objects updates }

/-! ### Layouts -/

def checkOrder : List Extent → Except CoreError Unit
  | e :: next :: rest => do
      let stop ← e.logicalEnd
      refuseIf (stop > next.logicalStart) (.corrupt "logical extents overlap")
      checkOrder (next :: rest)
  | _ => .ok ()

/-- The extents of the tree, or the one extent of a direct layout. -/
def FileObject.layout (object : FileObject) : List Extent :=
  if object.record.extentTree then object.tree.values
  else if object.record.dataBlocks = 0 then []
  else [⟨0, object.record.dataRoot, object.record.dataBlocks, false, false⟩]

def loadFileLayout (object : FileObject) : Except CoreError (List Extent) := do
  if object.record.extentTree then do
    checkOrder object.tree.values
    refuseIf (2 ^ 64 ≤ blockSum object.tree.values) (.corrupt "extent allocated-block count overflows")
  pure object.layout

def zeroBlock (blockSize : Nat) : Bytes := List.replicate blockSize 0

/-- A block of a file; holes and unwritten blocks are zeros. -/
def readLayoutBlock (v : FileVolume) (extents : List Extent) (n : Nat) : Except CoreError Bytes :=
  match (extents.takeWhile fun e => e.logicalStart ≤ n).getLast? with
  | none => .ok (zeroBlock v.blockSize)
  | some e => do
      let stop ← e.logicalEnd
      if n ≥ stop ∨ e.unwritten then pure (zeroBlock v.blockSize)
      else do
        refuseIf (2 ^ 64 ≤ e.physicalStart + (n - e.logicalStart)) (.corrupt "mapped physical block overflows")
        pure (v.disk (e.physicalStart + (n - e.logicalStart)))

/-- What the codec of an extent item refuses. -/
def checkExtent (e : Extent) : Except CoreError Unit := do
  refuseIf (e.blockCount = 0) (.corrupt "zero-length extent")
  refuseIf (2 ^ 64 ≤ e.logicalStart + e.blockCount) (.corrupt "extent logical end overflows")
  refuseIf (2 ^ 64 ≤ e.physicalStart + e.blockCount) (.corrupt "extent physical end overflows")

def encodeExtents (extents : List Extent) : Except CoreError (List (Nat × Extent)) :=
  extents.mapM fun e => do
    checkExtent e
    pure (e.logicalStart, e)

/-- `mutate_many`: deletes, then upserts. -/
def mutate (tree : SortedMap Nat Extent) (deletes : List Nat) (upserts : List (Nat × Extent)) : SortedMap Nat Extent :=
  upserts.foldl (fun tree entry => tree.insert entry.1 entry.2) (deletes.foldl SortedMap.erase tree)

/-- `bulk_build`: a first tree for these extents. -/
def bulkBuild (extents : List Extent) : Except CoreError (SortedMap Nat Extent) := do
  checkOrder extents
  let encoded ← encodeExtents extents
  pure (mutate .empty [] encoded)

/-- Where the new extents are kept: in the record if they are one plain run, in a tree otherwise. -/
def stageLayout (v : FileVolume) (a : Answers) (id : ObjectId) (object : FileObject) (old new : List Extent)
    (newSize : Nat) : Except CoreError (Bool × Nat × SortedMap Nat Extent) :=
  match directLayout new newSize v.blockSize with
  | some extent => .ok (false, (extent.map Extent.physicalStart).getD 0, .empty)
  | none =>
      if object.record.extentTree ∧ old = new then .ok (true, object.record.dataRoot, object.tree)
      else if object.record.extentTree then do
        let oldEncoded ← encodeExtents old
        let newEncoded ← encodeExtents new
        pure (true, a.root id, mutate object.tree (oldEncoded.map Prod.fst) newEncoded)
      else do
        let tree ← bulkBuild new
        pure (true, a.root id, tree)

/-- The record and the extents of a file whose whole layout is known. -/
def stageFileLayout (v : FileVolume) (a : Answers) (id : ObjectId) (object : FileObject) (old new : List Extent)
    (newSize : Nat) (contentChanged : Bool) (modified changed : Timespec) (generation : Nat) :
    Except CoreError FileObject := do
  refuseIf (2 ^ 64 ≤ blockSum new) (.prototypeLimit "allocated block count overflow")
  let (extentTree, dataRoot, tree) ← stageLayout v a id object old new newSize
  refuseIf (2 ^ 64 ≤ blockSum new * v.blockSize) (.prototypeLimit "allocated byte count overflow")
  let record := object.record
  pure
    { record :=
        { record with
          extentTree, dataRoot
          sizeBytes := newSize
          allocatedBytes := blockSum new * v.blockSize
          modified := if contentChanged then modified else record.modified
          protection := if contentChanged then Names.archiveCleared record.protection else record.protection
          changed
          contentGeneration := if contentChanged then generation else record.contentGeneration
          dataBlocks := blockSum new }
      tree }

/-- The record and the extents of a tree file of which a window is known and changes from `old` to `new`. -/
def stageExtentDelta (v : FileVolume) (a : Answers) (id : ObjectId) (object : FileObject) (old new : List Extent)
    (newSize : Nat) (contentChanged : Bool) (now : Timespec) (generation : Nat) : Except CoreError FileObject := do
  let oldEncoded ← encodeExtents old
  let newEncoded ← encodeExtents new
  let record := object.record
  refuseIf (2 ^ 64 ≤ blockSum old) (.corrupt "extent allocation sum overflow")
  refuseIf (record.dataBlocks < blockSum old) (.corrupt "local extent count exceeds object allocation")
  refuseIf (2 ^ 64 ≤ blockSum new) (.corrupt "extent allocation sum overflow")
  let blocks := record.dataBlocks - blockSum old + blockSum new
  refuseIf (2 ^ 64 ≤ blocks) (.prototypeLimit "allocated blocks overflow")
  refuseIf (2 ^ 64 ≤ blocks * v.blockSize) (.prototypeLimit "allocated bytes overflow")
  pure
    { record :=
        { record with
          dataRoot := a.root id
          dataBlocks := blocks
          allocatedBytes := blocks * v.blockSize
          sizeBytes := newSize
          modified := if contentChanged then now else record.modified
          contentGeneration := if contentChanged then generation else record.contentGeneration
          changed := now }
      tree := mutate object.tree ((oldEncoded.map Prod.fst).filter (· ∉ newEncoded.map Prod.fst))
        (newEncoded.filter (· ∉ oldEncoded)) }

def readObject (v : FileVolume) (id : ObjectId) : Except CoreError FileObject :=
  match v.objects id with
  | none => .error .notFound
  | some object => .ok object

def fileObject (v : FileVolume) (id : ObjectId) : Except CoreError FileObject := do
  let object ← readObject v id
  refuseIf (object.record.objectType ≠ .file) .isDirectory
  pure object

def checkLimits (limits : FileEditLimits) : Except CoreError Unit :=
  refuseIf (limits.maxBlocks = 0 ∨ limits.maxRecords = 0 ∨ limits.maxRecords = 2 ^ 64 - 1)
    (.prototypeLimit "file edit limits invalid")

/-- Whether the edit works on a window of an extent tree. -/
def localTree (object : FileObject) (limits : Option FileEditLimits) : Bool :=
  limits.isSome && object.record.extentTree

/-- The extents an edit of the blocks `start..stop` works on: the whole layout, or with limits on a tree file the
window around these blocks. -/
def loadForEdit (object : FileObject) (start stop : Nat) : Option FileEditLimits → Except CoreError (List Extent)
  | none => loadFileLayout object
  | some limits =>
      if object.record.extentTree then readWindow object.tree.values start stop limits.maxRecords
      else loadFileLayout object

def stageEdit (v : FileVolume) (a : Answers) (id : ObjectId) (object : FileObject) (limits : Option FileEditLimits)
    (old new : List Extent) (newSize : Nat) (now : Timespec) (generation : Nat) : Except CoreError FileObject :=
  if localTree object limits then stageExtentDelta v a id object old new newSize true now generation
  else stageFileLayout v a id object old new newSize true now now generation

/-- `piece` laid over a block from position `start` on. -/
def overlayBlock (block : Bytes) (start : Nat) (piece : Bytes) : Bytes :=
  block.take start ++ piece ++ block.drop (start + piece.length)

/-- A block of the file as a write of `content` at `offset` leaves it. -/
def mergedBlock (v : FileVolume) (old : List Extent) (offset : Nat) (content : Bytes) (n : Nat) :
    Except CoreError Bytes := do
  let block ← readLayoutBlock v old n
  let copyStart := max offset (n * v.blockSize)
  let copyEnd := min (offset + content.length) (n * v.blockSize + v.blockSize)
  pure (overlayBlock block (copyStart - n * v.blockSize) (slice content (copyStart - offset) (copyEnd - offset)))

def overwriteInPlace (v : FileVolume) (object : FileObject) (old : List Extent) (first stop endOffset : Nat) : Bool :=
  (v.policy = .inPlacePrivate ∨ object.record.dataInPlace) ∧ !v.snapshotsRequireCow ∧
    endOffset ≤ object.record.sizeBytes ∧
    ∀ n ∈ List.range' first (stop - first), (extentAt old n).any fun e => e.Plain

/-- The extents a write puts in: private reservations keep their blocks, everything else gets new ones. Every round
advances by a block, so `stop - first` rounds are enough. -/
def writeRounds (v : FileVolume) (a : Answers) (old : List Extent) (limits : Option FileEditLimits) (stop : Nat) :
    Nat → Nat → List Extent → TxM (List Extent)
  | 0, _, additions => pure additions
  | rounds + 1, logical, additions =>
      if logical ≥ stop then pure additions
      else
        match (extentAt old logical).filter fun e => e.Reserved with
        | some e => do
            let extentEnd ← lift e.logicalEnd
            let count := min extentEnd stop - logical
            let physical := e.physicalStart + (logical - e.logicalStart)
            let tx ← get
            require (∀ b < physical + count, physical ≤ b → tx.refs b < minReferenceCount)
              (.corrupt "private unwritten extent overlaps shared references")
            let additions := additions ++ [⟨logical, physical, count, false, false⟩]
            require (limits.all fun limit => additions.length ≤ limit.maxRecords)
              (.prototypeLimit "file edit allocation record budget exhausted")
            writeRounds v a old limits stop rounds (logical + count) additions
        | none => do
            let next := ((old.dropWhile fun e => e.logicalStart ≤ logical).find? fun e => e.Reserved).elim stop
              fun e => min e.logicalStart stop
            let maxRuns := limits.elim (2 ^ 64 - 1) fun limit => limit.maxRecords - additions.length
            let extents ← allocateExtentRuns v a logical (next - logical) false maxRuns
            writeRounds v a old limits stop rounds next (additions ++ extents)

def physicalBlocks (extents : List Extent) : List Nat :=
  extents.flatMap fun e => List.range' e.physicalStart e.blockCount

def writeFileAtWithLimits (v : FileVolume) (a : Answers) (id : ObjectId) (offset : Nat) (content : Bytes)
    (now : Timespec) (limits : Option FileEditLimits) : Except CoreError FileVolume := do
  validateTime now
  if content = [] then pure v
  else do
    let object ← fileObject v id
    let endOffset := offset + content.length
    refuseIf (2 ^ 64 ≤ endOffset) (.prototypeLimit "file size limit reached")
    let first := offset / v.blockSize
    let stop := divCeil endOffset v.blockSize
    refuseIf (limits.any fun limit => limit.maxBlocks < stop - first)
      (.prototypeLimit "file edit block budget exhausted")
    let old ← loadForEdit object first stop limits
    let blocks ← (List.range' first (stop - first)).mapM (mergedBlock v old offset content)
    let generation ← nextGeneration v
    if overwriteInPlace v object old first stop endOffset then do
      let staged ← stageEdit v a id object limits old old object.record.sizeBytes now generation
      let targets := (List.range' first (stop - first)).map fun n => ((cellAt old n).map Cell.block).getD 0
      commit v a (begin v a) (targets.zip blocks) [(id, staged)]
    else do
      let (additions, tx) ← runTx (writeRounds v a old limits stop (stop - first) first []) (begin v a)
      refuseIf ((physicalBlocks additions).length ≠ blocks.length)
        (.corrupt "write extent/data block count mismatch")
      let (kept, removed) ← replaceLogicalRange old first stop none
      let new ← coalesceExtents (kept ++ additions)
      refuseIf (limits.any fun limit => limit.maxRecords < new.length)
        (.prototypeLimit "file edit result record budget exhausted")
      let staged ← stageEdit v a id object limits old new (max object.record.sizeBytes endOffset) now generation
      -- Initialized reservations keep their blocks.
      let (_, tx) ← runTx ((removed.filter fun e => ¬e.Reserved).forM (releaseDataRun v)) tx
      commit v a tx ((physicalBlocks additions).zip blocks) [(id, staged)]

def writeFileAt (v : FileVolume) (a : Answers) (id : ObjectId) (offset : Nat) (content : Bytes) (now : Timespec) :
    Except CoreError FileVolume := writeFileAtWithLimits v a id offset content now none

def writeFileAtBounded (v : FileVolume) (a : Answers) (id : ObjectId) (offset : Nat) (content : Bytes)
    (now : Timespec) (limits : FileEditLimits) : Except CoreError FileVolume := do
  checkLimits limits
  writeFileAtWithLimits v a id offset content now (some limits)

/-- The part of a file that shrinking to `newSize` keeps, what it removes, and the last block it rewrites with a
zeroed tail. -/
def shrink (v : FileVolume) (old : List Extent) (newSize : Nat) :
    Except CoreError (List Extent × List Extent × Option (Nat × Bytes)) := do
  let retained := divCeil newSize v.blockSize
  let (new, removed) ← replaceLogicalRange old retained (2 ^ 64 - 1) none
  if newSize % v.blockSize ≠ 0 ∧ (extentAt new (retained - 1)).any fun e => !e.unwritten then do
    let block ← readLayoutBlock v new (retained - 1)
    let kept := block.take (newSize % v.blockSize)
    pure (new, removed, some (retained - 1, kept ++ List.replicate (block.length - kept.length) 0))
  else pure (new, removed, none)

/-- Moves the rewritten tail to a block of its own. -/
def rewriteTail (a : Answers) (new : List Extent) :
    Option (Nat × Bytes) → TxM (List Extent × List Extent × List (Nat × Bytes))
  | none => pure (new, [], [])
  | some (n, block) => do
      let physical ← allocateRun a 1
      let (rewritten, removed) ← lift (replaceLogicalRange new n (n + 1) (some ⟨n, physical, 1, false, false⟩))
      pure (rewritten, removed, [(physical, block)])

def truncateFileWithLimits (v : FileVolume) (a : Answers) (id : ObjectId) (newSize : Nat) (now : Timespec)
    (limits : Option FileEditLimits) : Except CoreError FileVolume := do
  validateTime now
  let object ← fileObject v id
  let size := object.record.sizeBytes
  if newSize = size then pure v
  else if newSize > size ∧ object.record.extentTree then do
    let generation ← nextGeneration v
    let staged ← stageExtentDelta v a id object [] [] newSize true now generation
    commit v a (begin v a) [] [(id, staged)]
  else do
    let old ← loadForEdit object (newSize / v.blockSize) (2 ^ 64 - 1) limits
    let (kept, cut, tail) ← if newSize < size then shrink v old newSize else pure (old, [], none)
    refuseIf (limits.isSome ∧ 2 ^ 64 ≤ tail.toList.length + blockSum cut)
      (.prototypeLimit "retired block count overflow")
    refuseIf (limits.any fun limit => limit.maxBlocks < tail.toList.length + blockSum cut)
      (.prototypeLimit "file edit retirement block budget exhausted")
    let generation ← nextGeneration v
    let ((new, replaced, writes), tx) ← runTx (rewriteTail a kept tail) (begin v a)
    refuseIf (limits.any fun limit => limit.maxRecords < new.length)
      (.prototypeLimit "file edit result record budget exhausted")
    let staged ← stageEdit v a id object limits old new newSize now generation
    let (_, tx) ← runTx ((cut ++ replaced).forM (releaseDataRun v)) tx
    commit v a tx writes [(id, staged)]

def truncateFile (v : FileVolume) (a : Answers) (id : ObjectId) (newSize : Nat) (now : Timespec) :
    Except CoreError FileVolume := truncateFileWithLimits v a id newSize now none

def truncateFileBounded (v : FileVolume) (a : Answers) (id : ObjectId) (newSize : Nat) (now : Timespec)
    (limits : FileEditLimits) : Except CoreError FileVolume := do
  checkLimits limits
  truncateFileWithLimits v a id newSize now (some limits)

/-! ### Reserving -/

def allocateHoles (v : FileVolume) (a : Answers) (maxRecords : Nat) : List (Nat × Nat) → List Extent → TxM (List Extent)
  | [], additions => pure additions
  | (start, stop) :: holes, additions => do
      let extents ← allocateExtentRuns v a start (stop - start) true (maxRecords - additions.length)
      allocateHoles v a maxRecords holes (additions ++ extents)

def preallocateFileBounded (v : FileVolume) (a : Answers) (id : ObjectId) (offset length : Nat) (now : Timespec)
    (limits : FileEditLimits) : Except CoreError FileVolume := do
  validateTime now
  checkLimits limits
  if length = 0 then pure v
  else do
    let object ← fileObject v id
    let endOffset := offset + length
    refuseIf (2 ^ 64 ≤ endOffset) (.prototypeLimit "preallocation range overflows")
    let first := offset / v.blockSize
    let stop := divCeil endOffset v.blockSize
    refuseIf (limits.maxBlocks < stop - first) (.prototypeLimit "file edit block budget exhausted")
    let old ← loadForEdit object first stop (some limits)
    let holes ← logicalHoles old first stop
    if holes = [] then pure v
    else do
      let generation ← nextGeneration v
      let (additions, tx) ← runTx (allocateHoles v a limits.maxRecords holes []) (begin v a)
      let new ← coalesceExtents (old ++ additions)
      refuseIf (limits.maxRecords < new.length) (.prototypeLimit "file edit result record budget exhausted")
      let staged ←
        if object.record.extentTree then
          stageExtentDelta v a id object old new object.record.sizeBytes false now generation
        else stageFileLayout v a id object old new object.record.sizeBytes false now now generation
      commit v a tx [] [(id, staged)]

def preallocateFile (v : FileVolume) (a : Answers) (id : ObjectId) (offset length : Nat) (now : Timespec) :
    Except CoreError FileVolume := preallocateFileBounded v a id offset length now ⟨2 ^ 64 - 1, 2 ^ 64 - 2⟩

/-- The map of the source once every run of it is shared. A direct layout has no room for the flag and becomes a
tree. -/
def stageCloneSource (a : Answers) (id : ObjectId) (source : FileObject) (shared : List Extent) :
    Except CoreError FileObject :=
  if shared = [] then .ok source
  else if source.record.extentTree then do
    let encoded ← encodeExtents shared
    pure { record := { source.record with dataRoot := a.root id }, tree := mutate source.tree [] encoded }
  else do
    let tree ← bulkBuild shared
    pure { record := { source.record with extentTree := true, dataRoot := a.root id }, tree }

/-- The layout of the clone: nothing for an empty file, a tree of its own otherwise. -/
def stageCloneLayout (a : Answers) (id : ObjectId) (source : FileObject) (shared : List Extent) :
    Except CoreError (Bool × Nat × Nat × SortedMap Nat Extent) :=
  if shared = [] ∧ !source.record.extentTree then .ok (false, 0, 0, .empty)
  else do
    let tree ← bulkBuild shared
    pure (true, a.root id, source.record.dataBlocks, tree)

def cloneFile (v : FileVolume) (a : Answers) (sourceId : ObjectId) (now : Timespec) :
    Except CoreError (FileVolume × ObjectId) := do
  validateTime now
  refuseIf (v.sharedExtents = false) (.featureDisabled "shared-extents feature is not enabled on this volume")
  let source ← fileObject v sourceId
  let extents ← loadFileLayout source
  let generation ← nextGeneration v
  let id := v.nextObjectId
  refuseIf (2 ^ 64 ≤ id + 1) (.prototypeLimit "object ID space exhausted")
  let (_, tx) ← runTx (extents.forM fun e => acquire e.physicalStart e.blockCount) (begin v a)
  let shared := extents.map fun e => { e with shared := true }
  let sourceNew ← stageCloneSource a sourceId source shared
  let (extentTree, dataRoot, dataBlocks, tree) ← stageCloneLayout a id source shared
  let clone : FileObject :=
    { record :=
        { objectType := .file
          extentTree, dataRoot, dataBlocks
          dataInPlace := false
          sizeBytes := source.record.sizeBytes
          allocatedBytes := source.record.allocatedBytes
          modified := source.record.modified
          changed := now
          protection := source.record.protection
          contentGeneration := generation }
      tree }
  let v' ← commit v a tx [] [(sourceId, sourceNew), (id, clone)]
  pure ({ v' with nextObjectId := id + 1, sharedRoot := true }, id)

/-- The bytes of the source up to `copyEnd`, copied over a block of the destination that begins at `logicalByte`.
Every round copies a byte or more. -/
def copySource (v : FileVolume) (source : List Extent) (sourceOffset destinationOffset logicalByte copyEnd : Nat) :
    Nat → Nat → Bytes → Except CoreError Bytes
  | 0, _, block => .ok block
  | rounds + 1, cursor, block =>
      if cursor < copyEnd then do
        let sourceByte := sourceOffset + (cursor - destinationOffset)
        refuseIf (2 ^ 64 ≤ sourceByte) (.prototypeLimit "clone source range overflows")
        let inBlock := sourceByte % v.blockSize
        let count := min (copyEnd - cursor) (v.blockSize - inBlock)
        let bytes ← readLayoutBlock v source (sourceByte / v.blockSize)
        copySource v source sourceOffset destinationOffset logicalByte copyEnd rounds (cursor + count)
          (overlayBlock block (cursor - logicalByte) (slice bytes inBlock (inBlock + count)))
      else .ok block

/-- A block at an end of the cloned range: the destination's, with the source's bytes in the range. -/
def boundaryBlock (v : FileVolume) (source destination : List Extent)
    (sourceOffset destinationOffset destinationEnd n : Nat) : Except CoreError (Nat × Bytes) := do
  refuseIf (2 ^ 64 ≤ n * v.blockSize) (.prototypeLimit "clone block offset overflows")
  let block ← readLayoutBlock v destination n
  refuseIf (2 ^ 64 ≤ n * v.blockSize + v.blockSize) (.prototypeLimit "clone block offset overflows")
  let copyStart := max destinationOffset (n * v.blockSize)
  let copyEnd := min destinationEnd (n * v.blockSize + v.blockSize)
  let merged ← copySource v source sourceOffset destinationOffset (n * v.blockSize) copyEnd (copyEnd - copyStart)
    copyStart block
  pure (n, merged)

/-- One new block for each of the boundary blocks. -/
def allocateBoundary (a : Answers) : List (Nat × Bytes) → TxM (List Extent × List (Nat × Bytes))
  | [] => pure ([], [])
  | (n, block) :: rest => do
      let physical ← allocateRun a 1
      let (extents, writes) ← allocateBoundary a rest
      pure (⟨n, physical, 1, false, false⟩ :: extents, (physical, block) :: writes)

/-- The whole blocks of a cloned range: in the source from `sourceFirst` to `sourceStop`, in the destination from
`first` to `stop`. -/
structure FullBlocks where
  sourceFirst : Nat
  sourceStop : Nat
  first : Nat
  stop : Nat
  deriving DecidableEq, Repr

def leadingBytes (blockSize destinationOffset : Nat) : Nat :=
  if destinationOffset % blockSize = 0 then 0 else blockSize - destinationOffset % blockSize

def fullBlocks (blockSize sourceOffset destinationOffset destinationEnd : Nat) : FullBlocks :=
  let fullStart := min (destinationOffset + leadingBytes blockSize destinationOffset) destinationEnd
  let fullEnd := destinationEnd - destinationEnd % blockSize
  if fullStart < fullEnd then
    let sourceStart := sourceOffset + (fullStart - destinationOffset)
    ⟨sourceStart / blockSize, (sourceStart + (fullEnd - fullStart)) / blockSize, fullStart / blockSize,
      fullEnd / blockSize⟩
  else ⟨0, 0, fullStart / blockSize, fullStart / blockSize⟩

def cloneRange (v : FileVolume) (a : Answers) (sourceId : ObjectId) (sourceOffset : Nat) (destinationId : ObjectId)
    (destinationOffset length : Nat) (now : Timespec) : Except CoreError FileVolume := do
  validateTime now
  refuseIf (v.sharedExtents = false) (.featureDisabled "shared-extents feature is not enabled on this volume")
  let source ← readObject v sourceId
  let destination ← readObject v destinationId
  refuseIf (source.record.objectType ≠ .file ∨ destination.record.objectType ≠ .file) .isDirectory
  refuseIf (sourceId = destinationId) (.prototypeLimit "same-file range cloning is not implemented")
  let sourceEnd := sourceOffset + length
  refuseIf (2 ^ 64 ≤ sourceEnd) (.prototypeLimit "clone source range overflows")
  let destinationEnd := destinationOffset + length
  refuseIf (2 ^ 64 ≤ destinationEnd) (.prototypeLimit "clone destination range overflows")
  refuseIf (sourceEnd > source.record.sizeBytes) (.prototypeLimit "clone source range exceeds the file size")
  if length = 0 then pure v
  else do
    refuseIf (sourceOffset % v.blockSize ≠ destinationOffset % v.blockSize)
      (.prototypeLimit "clone range offsets must have matching block alignment")
    let sourceExtents ← loadFileLayout source
    let destinationExtents ← loadFileLayout destination
    let first := destinationOffset / v.blockSize
    let stop := divCeil destinationEnd v.blockSize
    refuseIf (2 ^ 64 ≤ destinationOffset + leadingBytes v.blockSize destinationOffset)
      (.prototypeLimit "clone destination range overflows")
    let full := fullBlocks v.blockSize sourceOffset destinationOffset destinationEnd
    let sourceNew ← markLogicalRangeShared sourceExtents full.sourceFirst full.sourceStop
    let shared ← remapExtentRange sourceExtents full.sourceFirst full.sourceStop full.first
    let (kept, removed) ← replaceLogicalRange destinationExtents first stop none
    let boundary ← ((List.range' first (stop - first)).filter fun n => ¬(full.first ≤ n ∧ n < full.stop)).mapM
      (boundaryBlock v sourceExtents destinationExtents sourceOffset destinationOffset destinationEnd)
    let generation ← nextGeneration v
    let (_, tx) ← runTx (shared.forM fun e => acquire e.physicalStart e.blockCount) (begin v a)
    let ((additions, writes), tx) ← runTx (allocateBoundary a boundary) tx
    let new ← coalesceExtents (kept ++ additions ++ shared)
    let (_, tx) ← runTx (removed.forM (releaseDataRun v)) tx
    let sourceUpdate ←
      if sourceNew ≠ sourceExtents then do
        let record := source.record
        let staged ← stageFileLayout v a sourceId source sourceExtents sourceNew record.sizeBytes false record.modified
          record.changed generation
        pure [(sourceId, staged)]
      else pure []
    let staged ← stageFileLayout v a destinationId destination destinationExtents new
      (max destination.record.sizeBytes destinationEnd) true now now generation
    let v' ← commit v a tx writes (sourceUpdate ++ [(destinationId, staged)])
    pure { v' with sharedRoot := true }

/-! ### Creating and reading -/

/-- The `index`-th block of a new file. -/
def contentBlock (blockSize : Nat) (content : Bytes) (index : Nat) : Bytes :=
  let piece := slice content (index * blockSize) (index * blockSize + blockSize)
  piece ++ List.replicate (blockSize - piece.length) 0

def createFile (v : FileVolume) (a : Answers) (content : Bytes) (now : Timespec) :
    Except CoreError (FileVolume × ObjectId) := do
  validateTime now
  let generation ← nextGeneration v
  let id := v.nextObjectId
  refuseIf (2 ^ 64 ≤ id + 1) (.prototypeLimit "object ID space exhausted")
  let count := divCeil content.length v.blockSize
  let (start, tx) ← runTx (if count > 0 then allocateRun a count else pure 0) (begin v a)
  let file : FileObject :=
    { record :=
        { objectType := .file
          extentTree := false
          dataInPlace := false
          sizeBytes := content.length
          allocatedBytes := count * v.blockSize
          modified := now
          changed := now
          protection := 0
          contentGeneration := generation
          dataRoot := start
          dataBlocks := count }
      tree := .empty }
  let writes := (List.range count).map fun index => (start + index, contentBlock v.blockSize content index)
  let v' ← commit v a tx writes [(id, file)]
  pure ({ v' with nextObjectId := id + 1 }, id)

def mappedBlock (v : FileVolume) (id : ObjectId) (object : FileObject) (n : Nat) : Except CoreError Bytes :=
  if object.record.extentTree then
    match object.tree.floor? n with
    | none => .ok (zeroBlock v.blockSize)
    | some (_, e) => do
        let stop ← e.logicalEnd
        pure (if n < stop ∧ e.unwritten = false then v.disk (e.physicalStart + (n - e.logicalStart))
          else zeroBlock v.blockSize)
  else if n < object.record.dataBlocks then do
    refuseIf (2 ^ 64 ≤ object.record.dataRoot + n) (.corrupt s!"object {id} extent overflow")
    pure (v.disk (object.record.dataRoot + n))
  else .ok (zeroBlock v.blockSize)

/-- The part of block `n` a read of `offset..stop` returns. -/
def readBlockPart (v : FileVolume) (id : ObjectId) (object : FileObject) (offset stop n : Nat) :
    Except CoreError Bytes := do
  let block ← mappedBlock v id object n
  let blockStart := n * v.blockSize
  pure (slice block (max offset blockStart - blockStart) (min stop (blockStart + v.blockSize) - blockStart))

/-- The bytes a read of up to `wanted` bytes puts into its buffer. -/
def readFileAt (v : FileVolume) (id : ObjectId) (offset wanted : Nat) : Except CoreError Bytes := do
  let object ← fileObject v id
  if wanted = 0 ∨ offset ≥ object.record.sizeBytes then pure []
  else do
    let stop := offset + min (object.record.sizeBytes - offset) wanted
    let first := offset / v.blockSize
    let parts ← (List.range' first (divCeil stop v.blockSize - first)).mapM (readBlockPart v id object offset stop)
    pure parts.flatten

end Afsplus.FileData
