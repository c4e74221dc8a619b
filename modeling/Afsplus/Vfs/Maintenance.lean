import Afsplus.Vfs.Basic

/-!
# The data window and the maintenance behind it

Every place where a VFS call publishes the open window, cleans orphans or returns reclaimed blocks, with
the conditions the source puts in front of each. Two loops run until the volume has room; they are
followed for `turns` turns, and every result is about any number of turns.
-/

namespace Afsplus.Vfs

open Fallible

def roomForMetadataBlocks : Nat := 1024

def roomStepsPerOperation : Nat := 4

def reclaimStepsPerSync : Nat := 256

def orphanStepsPerSync : Nat := 256

def orphansPerBatch : Nat := 32

def delayedOrphansMax : Nat := 4096

def delayedRoomBlocks : Nat := roomForMetadataBlocks + delayedWindowOpsMax

def idleStepsPerTick : Nat := 32

/-- `Timespec::default()`, the clock of calls that are given none. -/
def noTime : Timespec := ⟨0, 0⟩

variable {V : Type} (api : VolumeApi V) (turns : Nat)

def forgetWindow : VfsM V Unit :=
  modify fun s => { s with windowFirst := none, windowLast := none, windowChanges := 0, windowDeletes := 0 }

def handleHolds (handles : SortedMap Handle OpenHandle) (objectId : ObjectId) : Bool :=
  handles.values.any fun handle => handle.objectId = objectId

def isOpen (handles : SortedMap Handle OpenHandle) (objectId : ObjectId) : Bool :=
  handles.values.any fun
    | .file openId _ => openId = objectId
    | .directory .. => false

def delayed (s : Vfs V) : Bool :=
  s.durability != .sync && api.mountMode = .readWrite && api.loggedDataUpdates

/-- One cleanup transaction: the single-orphan steps it did, and whether orphans are left. An orphan it
shrank without finishing counts as the whole batch. -/
def cleanupOrphanBatch (maxObjects : Nat) (now : Timespec) : VfsM V (Nat × Bool) := do
  let s ← get
  let progress ← onVolume (api.cleanupOrphans maxObjects (handleHolds s.handles) now)
  pure (if progress.objectsAdvanced > 0 then maxObjects else progress.objectsRemoved, progress.stillPending)

/-- Every turn that goes on adds a step, so `maxSteps` turns are enough. -/
def cleanupOrphansFrom (maxSteps : Nat) (now : Timespec) : Nat → Nat → VfsM V Nat
  | 0, steps => pure steps
  | turn + 1, steps =>
    if steps < maxSteps then do
      let (done, pending) ← cleanupOrphanBatch api (min (maxSteps - steps) orphansPerBatch) now
      if done = 0 ∨ pending = false then pure (steps + done)
      else cleanupOrphansFrom maxSteps now turn (steps + done)
    else pure steps

def cleanupOrphansInner (maxSteps : Nat) (now : Timespec) : VfsM V Nat :=
  if api.mountMode = .readWrite then cleanupOrphansFrom api maxSteps now maxSteps 0 else pure 0

def reclaimSpaceFrom (now : Timespec) : Nat → Nat → VfsM V Nat
  | 0, returned => pure returned
  | turn + 1, returned => do
    let s ← get
    if api.reclaimPendingBlocks s.volume = 0 then pure returned
    else do
      let step ← onVolume (api.reclaimStep now)
      if step = 0 then pure returned else reclaimSpaceFrom now turn (returned + step)

def reclaimSpaceInner (maxSteps : Nat) (now : Timespec) : VfsM V Nat :=
  if api.mountMode = .readWrite then reclaimSpaceFrom api now maxSteps 0 else pure 0

/-- Orphans past `delayedOrphansMax` are cleaned at once; what fails is left for later. -/
def cleanExcess (now : Timespec) : VfsM V Unit := do
  let s ← get
  match api.orphanCount s.volume with
  | .error _ => pure ()
  | .ok pending =>
    if pending > delayedOrphansMax then do
      let _ ← attempt (cleanupOrphansInner api (2 * (pending - delayedOrphansMax)) now)
      let _ ← attempt (reclaimSpaceInner api (2 * (pending - delayedOrphansMax)) now)
      pure ()
    else pure ()

def roomStep (now : Timespec) : VfsM V Nat := do
  let (done, _) ← cleanupOrphanBatch api orphansPerBatch now
  if done = 0 then reclaimSpaceInner api 1 now else pure done

def makeRoom (now : Timespec) : Nat → VfsM V Unit
  | 0 => pure ()
  | turn + 1 => do
    let s ← get
    if api.availableBlocks s.volume < delayedRoomBlocks then do
      match ← attempt (roomStep api now) with
      | .ok (_ + 1) => makeRoom now turn
      | _ => pure ()
    else pure ()

def afterWindowCommit (now : Timespec) : VfsM V Unit := do
  let s ← get
  forgetWindow
  if s.idleMaintenance && s.inlineMaintenance then do
    if s.windowDeletes > 0 then cleanExcess api now
    makeRoom api now turns
  else pure ()

def discardWindow : VfsM V Nat :=
  modifyGet fun s => ((api.windowDiscard s.volume).1, { s with volume := (api.windowDiscard s.volume).2 })

/-- A window that cannot be published is abandoned, so that the volume stays usable. -/
def checkpointDataWindow (now : Timespec) : VfsM V Unit :=
  if api.mountMode ≠ .readWrite ∨ api.loggedDataUpdates = false then pure ()
  else do
    match ← tryVolume (api.windowCommit now) with
    | .ok _ => afterWindowCommit api turns now
    | .error _ => do
      let lost ← discardWindow api
      forgetWindow
      throw (.windowLost lost)

def commitWindow (now : Timespec) : VfsM V Unit := checkpointDataWindow api turns now

/-- An idle reclaim step that returned nothing and left the backlog where it was starts a rest, which
lasts while neither the generation nor the backlog moves. -/
def restAfter (step : Except VfsError Nat) (backlog generation left : Nat) : Option (Nat × Nat) :=
  if step.toOption = some 0 ∧ left = backlog then some (generation, left) else none

/-- Returns whether it did anything. -/
def idleMaintenanceStep (now : Timespec) : VfsM V Bool := do
  let s ← get
  if s.idleMaintenance && s.inlineMaintenance then do
    let cleaned ← attempt (cleanupOrphansInner api idleStepsPerTick now)
    let s ← get
    let backlog := api.reclaimPendingBlocks s.volume
    if s.idleReclaimRest = some (api.generation s.volume, backlog) then
      pure (0 < cleaned.toOption.getD 0)
    else do
      let step ← attempt (reclaimSpaceInner api idleStepsPerTick now)
      let s ← get
      let rest := restAfter step backlog (api.generation s.volume) (api.reclaimPendingBlocks s.volume)
      modify fun s => { s with idleReclaimRest := rest }
      pure (0 < cleaned.toOption.getD 0 ∨ 0 < step.toOption.getD 0)
  else pure false

def setDurability (durability : Durability) : VfsM V Unit := do
  match durability with
  | .delayed .. => require (api.loggedDataUpdates = true) .notSupported
  | .sync => checkpointDataWindow api turns noTime
  modify fun s => { s with durability := durability }

def setWindowOpsMax (ops : Nat) : VfsM V Nat :=
  modifyGet fun s =>
    let taken := min (max ops delayedWindowOpsMin) delayedWindowOpsMax
    (taken, { s with windowOpsMax := taken })

/-- Milliseconds since `past`; a clock that went back counts as long ago. -/
def elapsedMs (now : Timespec) (past : Option Timespec) : Option Nat :=
  past.map fun past =>
    let elapsed := (now.seconds - past.seconds) * 1000 +
      ((now.nanoseconds : Int) - past.nanoseconds).tdiv 1000000
    if elapsed < 0 then 2 ^ 64 - 1 else elapsed.toNat % 2 ^ 64

def dueAfter (ms : Option Nat) (bound : Nat) : Bool := ms.all fun ms => bound ≤ ms

/-- Deleted files are cleaned and their space returned while nothing else happens. -/
def idleWork (idle : Bool) (now : Timespec) : VfsM V Bool := do
  let s ← get
  if idle && !api.windowOpen s.volume then idleMaintenanceStep api now else pure false

/-- Returns whether work remains. -/
def commitIfDue (now : Timespec) : VfsM V Bool := do
  let s ← get
  match s.durability with
  | .sync => pure (api.windowOpen s.volume)
  | .delayed idleMs maxAgeMs => do
    let idle := dueAfter (elapsedMs now s.lastChange) idleMs
    if api.windowOpen s.volume then
      if idle || dueAfter (elapsedMs now s.windowFirst) maxAgeMs then commitWindow api turns now
      else pure ()
    else forgetWindow
    let working ← idleWork api idle now
    let s ← get
    pure (api.windowOpen s.volume || working)

/-! ### Room before an operation -/

/-- One transaction of maintenance, and whether it got anywhere. -/
def maintenanceStep (now : Timespec) : VfsM V Bool := do
  let s ← get
  if api.mountMode ≠ .readWrite ∨ s.idleMaintenance = false then pure false
  else do
    let first ← onReader api.firstOrphan
    if first = none ∧ api.reclaimPendingBlocks s.volume = 0 then pure false
    else do
      checkpointDataWindow api turns now
      let (done, _) ← cleanupOrphanBatch api orphansPerBatch now
      if done > 0 then pure true
      else do
        let blocks ← reclaimSpaceInner api 1 now
        pure (0 < blocks)

def keepRoomFrom (lowWater needed : Nat) (now : Timespec) : Nat → Nat → VfsM V Unit
  | 0, _ => pure ()
  | turn + 1, steps => do
    let s ← get
    let available := api.windowAvailableBlocks s.volume
    if available ≥ lowWater ∨ available ≥ needed ∧ steps ≥ roomStepsPerOperation then pure ()
    else do
      let progressed ← maintenanceStep api turns now
      if progressed then keepRoomFrom lowWater needed now turn (steps + 1) else pure ()

def keepRoom (bytes : Nat) (now : Timespec) : VfsM V Unit :=
  let blockSize := max api.blockSize 1
  let needed := (bytes + blockSize - 1) / blockSize + roomForMetadataBlocks
  keepRoomFrom api turns (max needed (api.totalBlocks / 32)) needed now turns 0

def publishAccepted : VfsM V Unit :=
  if api.mountMode = .readWrite ∧ api.loggedDataUpdates = true then do
    onVolume (api.windowCommit noTime)
    afterWindowCommit api turns noTime
  else onVolume api.sync

/-- A bounded part of the backlog of orphans and retired blocks. -/
def drainBacklog : VfsM V Unit := do
  let s ← get
  if api.mountMode = .readWrite ∧ s.idleMaintenance = true then do
    let _ ← cleanupOrphansInner api orphanStepsPerSync noTime
    let _ ← reclaimSpaceInner api reclaimStepsPerSync noTime
    pure ()
  else pure ()

def syncFilesystem : VfsM V Unit := do
  publishAccepted api turns
  drainBacklog api

def setIdleMaintenance (enabled : Bool) : VfsM V Unit :=
  modify fun s => { s with idleMaintenance := enabled }

end Afsplus.Vfs
