import Afsplus.Core.LogScan
import Afsplus.Core.Tree
import Afsplus.Format.Checkpoint
import Afsplus.Format.Object
import Afsplus.Format.Reclaim

/-!
# Mounting

Selection is structural: decode both slots, check each against the geometry without following a
pointer, take the newest. Loading comes second and reads only the roots. A writable mount then replays
the records of the intent log that extend the selected checkpoint.
-/

namespace Afsplus

open Wire Fallible

namespace Mount

def supportedIncompatFeatures : Nat :=
  incompatIntentLog ||| incompatIntentLogDataUpdates ||| incompatSecurityDescriptors

def supportedRoCompatFeatures : Nat := roCompatSharedExtents ||| roCompatOrphanDirectory

/-- Bits of a 64-bit feature word outside `supported`. -/
def unknownBits (features supported : Nat) : Nat := features &&& (2 ^ 64 - 1 - supported)

def negotiateFeatures (ident : Identification) (mode : MountMode) : Except CoreError Unit := do
  let incompat := unknownBits ident.features.incompat supportedIncompatFeatures
  refuseIf (incompat ≠ 0) (.unsupportedIncompatFeatures incompat)
  let roCompat := unknownBits ident.features.roCompat supportedRoCompatFeatures
  refuseIf (roCompat ≠ 0 ∧ mode.writesDuringMount) (.readOnlyRequiredFeatures roCompat)

/-- One slot as selection sees it: the checkpoint if it is admissible, else why it was refused and
the generation the block still claims for itself. -/
inductive SlotRead where
  | valid (checkpoint : Checkpoint)
  | refused (error : FormatError) (claimed : Option Nat)

def claimedGeneration (block : Bytes) : Option Nat :=
  if block.length < headerSize ∨ leNat (block.take 4) ≠ BlockType.checkpoint then none
  else some (leNat ((block.drop 16).take 8))

def readSlot (block : Bytes) (ident : Identification) : SlotRead :=
  match Checkpoint.decode block ident.uuid with
  | .error e => .refused e (claimedGeneration block)
  | .ok checkpoint =>
    match checkpoint.validateStructural ident.geometry with
    | .error e => .refused e (some checkpoint.generation)
    | .ok _ => .valid checkpoint

structure Selection where
  chosen : Checkpoint
  /-- 0 for slot A, 1 for slot B. -/
  chosenSlot : Nat
  other : Option Checkpoint
  fellBackToOlder : Bool

def select (slotA slotB : SlotRead) : Except CoreError Selection :=
  let newer (claimed : Option Nat) (chosen : Checkpoint) : Bool :=
    claimed.any fun generation => generation > chosen.generation
  match slotA, slotB with
  | .refused errorA _, .refused errorB _ => .error (.noValidCheckpoint errorA errorB)
  | .valid chosen, .refused _ claimed => .ok ⟨chosen, 0, none, newer claimed chosen⟩
  | .refused _ claimed, .valid chosen => .ok ⟨chosen, 1, none, newer claimed chosen⟩
  | .valid a, .valid b =>
    if a.generation = b.generation then .error (.ambiguousCheckpoints a.generation)
    else if a.generation > b.generation then .ok ⟨a, 0, some b, false⟩
    else .ok ⟨b, 1, some a, false⟩

def selectCheckpoint (dev : Device) (ident : Identification) : Except CoreError Selection := do
  let blockA ← dev.read ident.checkpointSlots.1
  let blockB ← dev.read ident.checkpointSlots.2
  let selection ← select (readSlot blockA ident) (readSlot blockB ident)
  refuseIf (selection.chosen.snapshotRoots.isSome ≠
      (ident.features.incompat &&& incompatPersistentSnapshots != 0))
    (.corrupt "selected checkpoint snapshot extension disagrees with incompatible feature")
  pure selection

structure MountState where
  rootRecordLba : Lba
  rootObject : ObjectRecord
  reclaimRoot : ReclaimRoot

def claimRoot (geo : Geometry) (lba : Lba) (roots : List Lba) : Except CoreError (List Lba) := do
  refuseIf (¬geo.isAllocatable lba) (.corrupt s!"mount root block {lba} outside allocatable bounds")
  refuseIf (lba ∈ roots) (.corrupt s!"mount root block {lba} referenced twice")
  pure (lba :: roots)

def validateRun (geo : Geometry) (entry : ReclaimEntry) : Except CoreError Unit := do
  refuseIf (entry.start + entry.blocks > geo.totalBlocks ∨ ¬geo.isAllocatable entry.start)
    (.corrupt s!"reclaim run {entry.start}+{entry.blocks} outside allocatable bounds")
  refuseIf (geo.regionOf entry.start ≠ geo.regionOf (entry.start + entry.blocks - 1))
    (.corrupt s!"reclaim run {entry.start}+{entry.blocks} crosses a region boundary")

def checkInlineEntries (geo : Geometry) (generation : Nat) (roots : List Lba) :
    List ReclaimEntry → Except CoreError Unit
  | [] => .ok ()
  | entry :: rest => do
    validateRun geo entry
    refuseIf (entry.retireGeneration > generation)
      (.corrupt "reclaim entry generation is from the future")
    refuseIf (entry.start ∈ roots)
      (.corrupt s!"quarantined block {entry.start} is still a mounted root")
    checkInlineEntries geo generation roots rest

/-- The root record behind the object map, with the roots claimed so far. -/
def loadRootObject (dev : Device) (geo : Geometry) (checkpoint : Checkpoint) :
    Except CoreError (Lba × ObjectRecord × List Lba) := do
  let roots ← claimRoot geo checkpoint.objectMapBlock []
  let roots ← if checkpoint.sharedExtentRootBlock ≠ 0
    then claimRoot geo checkpoint.sharedExtentRootBlock roots else pure roots
  let rootRecordLba ← ObjectMap.lookupLba dev geo checkpoint.objectMapBlock checkpoint.generation
    objectRoot
  match rootRecordLba with
  | none => .error (.corrupt "root object missing from object map")
  | some rootRecordLba => do
    let roots ← claimRoot geo rootRecordLba roots
    let block ← dev.read rootRecordLba
    let (rootObject, rootGeneration) ←
      (ObjectRecord.decodeMetadataWithGeneration block).mapError .format
    refuseIf (rootGeneration = 0 ∨ rootGeneration > checkpoint.generation)
      (.corrupt s!"root object record block {rootRecordLba} outside committed range")
    refuseIf (rootObject.objectId ≠ objectRoot ∨ rootObject.objectType ≠ .directory)
      (.corrupt "root object is not the root directory")
    pure (rootRecordLba, rootObject, roots)

def loadReclaimRoot (dev : Device) (geo : Geometry) (checkpoint : Checkpoint) (roots : List Lba) :
    Except CoreError ReclaimRoot := do
  let roots ← claimRoot geo checkpoint.reclaimRootBlock roots
  let block ← dev.read checkpoint.reclaimRootBlock
  let (reclaimRoot, generation) ← (ReclaimRoot.decode block).mapError fun _ => .corrupt "reclaim root"
  refuseIf (generation > checkpoint.generation) (.corrupt "reclaim root generation is from the future")
  checkInlineEntries geo checkpoint.generation roots reclaimRoot.inlineEntries
  pure reclaimRoot

/-- `load_mount_state` of a volume without snapshots. -/
def loadMountState (dev : Device) (ident : Identification) (checkpoint : Checkpoint) :
    Except CoreError MountState := do
  let (rootRecordLba, rootObject, roots) ← loadRootObject dev ident.geometry checkpoint
  let roots ← claimRoot ident.geometry rootObject.dataRoot roots
  Directory.validateRoot dev ident.geometry rootObject.dataRoot objectRoot checkpoint.generation
  let reclaimRoot ← loadReclaimRoot dev ident.geometry checkpoint roots
  pure ⟨rootRecordLba, rootObject, reclaimRoot⟩

structure MountedVolume where
  ident : Identification
  selection : Selection
  state : MountState
  mode : MountMode

def mountStages (dev : Device) (mode : MountMode) : Except CoreError MountedVolume := do
  refuseIf (dev.blockSize ≠ defaultBlockSize)
    (.unsupportedGeometry "prototype supports only 4 KiB blocks")
  let block ← dev.read 0
  let ident ← (Identification.decode block).mapError .format
  negotiateFeatures ident mode
  refuseIf (ident.totalBlocks > dev.totalBlocks)
    (.corrupt "identification declares more blocks than the device has")
  let selection ← selectCheckpoint dev ident
  refuseIf (selection.chosen.sharedExtentRootBlock ≠ 0 ∧
      ident.features.roCompat &&& roCompatSharedExtents = 0)
    (.corrupt "shared-extent root present without the shared-extents feature")
  let state ← (loadMountState dev ident selection.chosen).mapError fun _ =>
    .corrupt "checkpoint references invalid state"
  pure ⟨ident, selection, state, mode⟩

/-- Applying the records of a non-empty prefix and committing the result. -/
abbrev Replay := MountedVolume → List LogRecord → EStateM CoreError Device MountedVolume

/-- `recover_intent_log`: the volume after replay and the number of records replayed. -/
def recoverIntentLog (replay : Replay) (volume : MountedVolume) :
    EStateM CoreError Device (MountedVolume × Nat) :=
  if volume.ident.logSlots = 0 then pure (volume, 0)
  else do
    let dev ← get
    let scanned ← lift (IntentLog.scan dev.blocks volume.ident.geometry volume.ident.logSlots
      volume.ident.uuid volume.selection.chosen.generation volume.ident.dataUpdates)
    match scanned.records with
    | [] => pure (volume, 0)
    | first :: rest => do
      let volume ← replay volume (first :: rest)
      pure (volume, (first :: rest).length)

/-- A read-write mount, with the number of intent-log records it replayed. -/
def mount (replay : Replay) : EStateM CoreError Device (MountedVolume × Nat) := do
  let dev ← get
  let volume ← lift (mountStages dev .readWrite)
  recoverIntentLog replay volume

variable {volume : MountedVolume}

theorem mount_of_stages (replay : Replay) {dev : Device}
    (h : mountStages dev .readWrite = .ok volume) : mount replay dev = recoverIntentLog replay volume dev := by
  have hstages : (lift (mountStages dev .readWrite) : EStateM CoreError Device MountedVolume) dev
      = .ok volume dev := by
    rw [h]
    rfl
  exact bind_of_ok hstages

theorem recoverIntentLog_zero_iff (replay : Replay) {dev : Device}
    {scanned : IntentLog.ScannedLog} (hslots : volume.ident.logSlots ≠ 0)
    (hscan : IntentLog.scan dev.blocks volume.ident.geometry volume.ident.logSlots
      volume.ident.uuid volume.selection.chosen.generation volume.ident.dataUpdates = .ok scanned) :
    (scanned.records = [] → recoverIntentLog replay volume dev = .ok (volume, 0) dev) ∧
      (∀ volume' dev', recoverIntentLog replay volume dev = .ok (volume', 0) dev' → scanned.records = []) := by
  have hlift : (lift (IntentLog.scan dev.blocks volume.ident.geometry volume.ident.logSlots
      volume.ident.uuid volume.selection.chosen.generation volume.ident.dataUpdates) :
        EStateM CoreError Device IntentLog.ScannedLog) dev = .ok scanned dev := by
    rw [hscan]
    rfl
  rw [recoverIntentLog, if_neg hslots]
  constructor
  · intro hempty
    refine (bind_of_ok hlift).trans ?_
    rw [hempty]
    rfl
  · intro volume' dev' hrecover
    rw [get_bind_eq_ok] at hrecover
    rw [bind_of_ok hlift] at hrecover
    cases hrecs : scanned.records with
    | nil => rfl
    | cons first rest =>
      rw [hrecs] at hrecover
      obtain ⟨_, _, _, hresult⟩ := bind_eq_ok.mp hrecover
      obtain ⟨hpair, -⟩ := pure_eq_ok.mp hresult
      cases hpair

/-- `list_root`: the names and object ids of the root directory. -/
def listRoot (dev : Device) (comparisonKey : Bytes → Except CoreError Bytes)
    (volume : MountedVolume) : Except CoreError (List (Bytes × ObjectId)) := do
  let record := volume.state.rootObject
  refuseIf (record.objectType ≠ .directory) .notDirectory
  let entries ← Directory.loadAll dev volume.ident.geometry comparisonKey record.dataRoot objectRoot
    volume.selection.chosen.generation
  pure (entries.map fun entry => (entry.name, entry.childId))

end Mount

end Afsplus
