import Afsplus.Core.Publication
import Afsplus.Vfs.Quiet

/-!
# The VFS over the publication model

The volume here is the one of the publication model, which keeps every block write. What its readers
answer and which blocks its transactions write is left open, so what is proved holds whatever the trees
contain.
-/

namespace Afsplus.Publication

open Fallible

/-- The answers of the readers and the scripts of the writers, for each state of the volume. -/
structure Scripts where
  orphanDirectory : Bool
  persistentSnapshots : Bool
  blockSize : Nat
  totalBlocks : Nat
  comparisonKey : Bytes → Except CoreError Bytes
  pendingDirectory : Volume → ObjectId → Bool
  generation : Volume → Nat
  nextObjectId : Volume → ObjectId
  availableBlocks : Volume → Nat
  windowAvailableBlocks : Volume → Nat
  reclaimPendingBlocks : Volume → Nat
  orphanCount : Volume → Except CoreError Nat
  firstOrphan : Volume → Except CoreError (Option ObjectId)
  orphanObject : Volume → ObjectId → Except CoreError Bool
  visibleKind : Volume → ObjectId → Except CoreError (Option NodeKind)
  objectAttribute : Volume → ObjectId → String → Except CoreError (Option Bytes)
  lookupEntry : Volume → ObjectId → Bytes → Except CoreError (Option (ObjectId × Bytes))
  readDirectoryPage : Volume → ObjectId → Nat → Nat → Nat → Except CoreError EntryPage
  window : Volume → Timespec → Option Transaction
  fsync : Volume → FsyncCall
  reclaimStep : Volume → Except CoreError (List Transaction × Nat)
  cleanupOrphan : Volume → ObjectId → Except CoreError (List Transaction × OrphanCleanupProgress)
  cleanupOrphans : Volume → Nat → (ObjectId → Bool) →
    Except CoreError (List Transaction × OrphanBatchProgress)

/-- A timed operation that commits at once and returns something. -/
def planned {α : Type} (cfg : Config) (now : Timespec)
    (plan : Volume → Except CoreError (List Transaction × α)) : VolumeM α := do
  lift (validateTime now)
  ensureWindowClosed cfg
  let v ← get
  let (ts, result) ← lift (plan v)
  runTransactions cfg ts
  pure result

def discardedWindow (v : Volume) : Nat × Volume :=
  match windowDiscard v with
  | .ok lost v' => (lost, v')
  | .error _ v' => (0, v')

def api (cfg : Config) (scripts : Scripts) : VolumeApi Volume where
  mountMode := cfg.mode
  loggedDataUpdates := cfg.loggedDataUpdates
  orphanDirectory := scripts.orphanDirectory
  persistentSnapshots := scripts.persistentSnapshots
  blockSize := scripts.blockSize
  totalBlocks := scripts.totalBlocks
  comparisonKey := scripts.comparisonKey
  windowOpen v := v.window.isSome
  windowChangesDirectory v objectId := v.window.isSome && scripts.pendingDirectory v objectId
  generation := scripts.generation
  nextObjectId := scripts.nextObjectId
  availableBlocks := scripts.availableBlocks
  windowAvailableBlocks := scripts.windowAvailableBlocks
  reclaimPendingBlocks := scripts.reclaimPendingBlocks
  orphanCount := scripts.orphanCount
  firstOrphan := scripts.firstOrphan
  orphanObject := scripts.orphanObject
  visibleKind := scripts.visibleKind
  objectAttribute := scripts.objectAttribute
  lookupEntry := scripts.lookupEntry
  readDirectoryPage := scripts.readDirectoryPage
  windowCommit now := fun v => windowCommit cfg now (scripts.window v now) v
  windowFsync := fun v => windowFsync cfg (scripts.fsync v) v
  windowDiscard := discardedWindow
  sync := sync cfg
  reclaimStep now := planned cfg now scripts.reclaimStep
  cleanupOrphan objectId now := planned cfg now fun v => scripts.cleanupOrphan v objectId
  cleanupOrphans maxObjects skip now := planned cfg now fun v => scripts.cleanupOrphans v maxObjects skip

/-- On a writable mount, no window is open. -/
def Settled (cfg : Config) (v : Volume) : Prop := cfg.mode = .readWrite → v.window = none

/-- From a settled volume: it stays settled, and no block is written. -/
def Silent (cfg : Config) (v v' : Volume) : Prop :=
  Settled cfg v → Settled cfg v' ∧ v'.dev.issued = v.dev.issued

instance (cfg : Config) : Std.Refl (Silent cfg) := ⟨fun _ hsettled => ⟨hsettled, rfl⟩⟩

instance (cfg : Config) : IsTrans Volume (Silent cfg) := ⟨fun _ _ _ hab hbc hsettled =>
  ⟨(hbc (hab hsettled).1).1, (hbc (hab hsettled).1).2.trans (hab hsettled).2⟩⟩

variable {cfg : Config}

theorem ensureWritable_cases (cfg : Config) (v : Volume) :
    (∃ e, ensureWritable cfg v = .error e v) ∨ ensureWritable cfg v = .ok () v ∧ cfg.mode = .readWrite := by
  unfold ensureWritable
  by_cases hmode : cfg.mode.allowsUserWrites = true
  · rw [require_bind hmode, get_bind_apply]
    by_cases hpoison : v.windowPoisoned = false
    · refine .inr ⟨require_of hpoison _ v, ?_⟩
      simpa [MountMode.allowsUserWrites] using hmode
    · exact .inl ⟨_, require_of_not hpoison _ v⟩
  · exact .inl ⟨_, require_bind_not hmode _ _ v⟩

variable {v : Volume} {u : Unit}

theorem endState_windowCommit (hsettled : Settled cfg v) (now : Timespec)
    (t : Option Transaction) : endState (windowCommit cfg now t v) = v := by
  unfold windowCommit
  cases validateTime now with
  | error e => rfl
  | ok u =>
    obtain ⟨e, he⟩ | ⟨hok, hmode⟩ := ensureWritable_cases cfg v
    · rw [bind_of_ok (lift_eq_ok.mpr ⟨rfl, rfl⟩), bind_of_error he]
      rfl
    · rw [bind_of_ok (lift_eq_ok.mpr ⟨rfl, rfl⟩), bind_of_ok hok, get_bind_apply, hsettled hmode]
      rfl

theorem endState_windowFsync (hsettled : Settled cfg v) (call : FsyncCall) :
    endState (windowFsync cfg call v) = v := by
  unfold windowFsync
  obtain ⟨e, he⟩ | ⟨hok, hmode⟩ := ensureWritable_cases cfg v
  · rw [bind_of_error he]
    rfl
  · rw [bind_of_ok hok, get_bind_apply, hsettled hmode]
    rfl

theorem flush_silent : Moves (Silent cfg) flush := by
  intro v hsettled
  unfold flush
  cases v.dev.outcome v.dev.calls with
  | done => exact ⟨hsettled, rfl⟩
  | lost => exact ⟨hsettled, rfl⟩
  | landed => exact ⟨hsettled, rfl⟩

theorem ensureWindowClosed_silent : Moves (Silent cfg) (ensureWindowClosed cfg) :=
  ((Moves.require _ _).bind fun _ => Moves.get.bind fun _ => Moves.require _ _).bind fun _ =>
    Moves.get.bind fun _ => Moves.require _ _

instance settles (scripts : Scripts) : Vfs.Settles (api cfg scripts) (Silent cfg) where
  commit now v hsettled := by
    show Settled cfg (endState (windowCommit cfg now _ v)) ∧ _
    rw [endState_windowCommit hsettled]
    exact ⟨hsettled, congrArg (·.dev.issued) (endState_windowCommit hsettled now _)⟩
  fsync v hsettled := by
    show Settled cfg (endState (windowFsync cfg _ v)) ∧ _
    rw [endState_windowFsync hsettled]
    exact ⟨hsettled, congrArg (·.dev.issued) (endState_windowFsync hsettled _)⟩
  sync := Moves.ite (ensureWindowClosed_silent.bind fun _ => flush_silent) (Moves.pure ())
  discard v hsettled := by
    show Settled cfg (discardedWindow v).2 ∧ (discardedWindow v).2.dev.issued = _
    unfold discardedWindow windowDiscard
    cases hwindow : v.window with
    | none => exact ⟨fun _ => rfl, rfl⟩
    | some window => exact ⟨fun _ => rfl, rfl⟩

/-! ### What a sync that returned has published -/

def SameWindow (v v' : Volume) : Prop := v'.window = v.window

instance : Std.Refl SameWindow := ⟨fun _ => rfl⟩

instance : IsTrans Volume SameWindow := ⟨fun _ _ _ hab hbc => hbc.trans hab⟩

instance (lba : Lba) (block : Bytes) : Moving SameWindow (writeBlock lba block) := by
  refine ⟨fun v => ?_⟩
  unfold writeBlock
  cases v.dev.outcome v.dev.calls with
  | done => exact refl_of SameWindow _
  | lost => exact refl_of SameWindow _
  | landed => exact refl_of SameWindow _

instance : Moving SameWindow flush := by
  refine ⟨fun v => ?_⟩
  unfold flush
  cases v.dev.outcome v.dev.calls with
  | done => exact refl_of SameWindow _
  | lost => exact refl_of SameWindow _
  | landed => exact refl_of SameWindow _

instance (writes : List (Lba × Bytes)) : Moving SameWindow (writeEach writes) := by
  induction writes with
  | nil => exact inferInstanceAs (Moving SameWindow (pure ()))
  | cons w rest ih => exact .andThen fun _ => ih

instance (o : Option CoreError) : Moving SameWindow (refuse o) := by
  unfold refuse
  split <;> infer_instance

instance (block : Bytes) : Moving SameWindow (publishCheckpoint cfg block) := by
  refine ⟨fun v => ?_⟩
  have hbody : Moving SameWindow (do writeBlock (cfg.checkpointSlots (1 - v.currentSlot)) block; flush : VolumeM Unit) :=
    inferInstance
  have hend := hbody.moves v
  unfold publishCheckpoint
  dsimp only
  cases hrun : (do writeBlock (cfg.checkpointSlots (1 - v.currentSlot)) block; flush : VolumeM Unit) v with
  | ok u v' =>
      rw [hrun] at hend
      exact hend
  | error e v' =>
      rw [hrun] at hend
      exact hend

instance (t : Transaction) : Moving SameWindow (commitTransactionBody cfg t) := by
  have hadopt : ∀ f : Volume → Volume, (∀ v, (f v).window = v.window) →
      Moving SameWindow (modify f : VolumeM Unit) := fun f hf => ⟨Moves.modify hf⟩
  have hpublish : ∀ block, Moving SameWindow (publishAndAdopt cfg block t.adopts) := fun block =>
    @Moving.andThen _ _ _ _ _ _ _ _ (hadopt _ fun _ => rfl) fun _ => .andThen fun _ => .andThen fun _ => hadopt _ fun _ => rfl
  refine .andThen fun _ => .andThen fun _ => .andThen fun _ => ?_
  dsimp only
  split <;> infer_instance

instance {x : VolumeM Unit} [hx : Moving SameWindow x] : Moving SameWindow (poisonOnError x) := by
  refine ⟨fun v => ?_⟩
  have hend := hx.moves v
  unfold poisonOnError
  cases hrun : x v with
  | ok u v' =>
      rw [hrun] at hend
      exact hend
  | error e v' =>
      rw [hrun] at hend
      exact hend

theorem window_of_windowCommit {now : Timespec} {t : Option Transaction} {v' : Volume}
    (hok : windowCommit cfg now t v = .ok u v') : v'.window = none := by
  obtain ⟨_, s, hlift, hrest⟩ := bind_eq_ok.mp hok
  obtain ⟨_, s', hwritable, hrest⟩ := bind_eq_ok.mp hrest
  rw [get_bind_apply] at hrest
  cases hwindow : s'.window with
  | none =>
    rw [hwindow] at hrest
    obtain ⟨-, rfl⟩ := pure_eq_ok.mp hrest
    exact hwindow
  | some window =>
    rw [hwindow] at hrest
    dsimp only at hrest
    rw [modify_bind_apply] at hrest
    cases t with
    | none => exact Moving.of_ok SameWindow hrest
    | some t => exact Moving.of_ok SameWindow hrest

theorem window_of_sync {v' : Volume} (hmode : cfg.mode = .readWrite)
    (hok : sync cfg v = .ok u v') : v'.window = none := by
  have hwrites : cfg.mode.allowsUserWrites = true := by rw [hmode]; rfl
  unfold sync at hok
  rw [if_pos hwrites] at hok
  obtain ⟨_, s, hclosed, hflush⟩ := bind_eq_ok.mp hok
  obtain ⟨_, s', hwritable, hclosed⟩ := bind_eq_ok.mp hclosed
  rw [get_bind_apply] at hclosed
  obtain ⟨hwindow, rfl⟩ := require_eq_ok.mp hclosed
  have hsame : v'.window = s.window := Moving.of_ok SameWindow hflush
  exact hsame.trans hwindow

theorem settled_of_syncFilesystem {scripts : Scripts} {turns : Nat} {s s' : Vfs Volume}
    (hoff : s.idleMaintenance = false) (hmode : cfg.mode = .readWrite)
    (hok : Vfs.syncFilesystem (api cfg scripts) turns s = .ok u s') :
    s'.idleMaintenance = false ∧ Settled cfg s'.volume := by
  obtain ⟨_, t, hpublish, hdrain⟩ := bind_eq_ok.mp hok
  have hclosed : t.idleMaintenance = false ∧ t.volume.window = none := by
    unfold Vfs.publishAccepted at hpublish
    split at hpublish
    · obtain ⟨_, t', hcommit, hafter⟩ := bind_eq_ok.mp hpublish
      have hafter := Moving.of_ok (Vfs.Off SameWindow) hafter
      unfold Vfs.onVolume at hcommit
      split at hcommit
      · rename_i v hrun
        cases hcommit
        obtain ⟨hidle, hsame⟩ := hafter hoff
        exact ⟨hidle, hsame.trans (window_of_windowCommit hrun)⟩
      · cases hcommit
    · unfold Vfs.onVolume at hpublish
      split at hpublish
      · rename_i v hrun
        cases hpublish
        exact ⟨hoff, window_of_sync hmode hrun⟩
      · cases hpublish
  obtain ⟨hidle, hsilent⟩ := Moving.of_ok (Vfs.Off (Silent cfg)) hdrain hclosed.1
  exact ⟨hidle, (hsilent fun _ => hclosed.2).1⟩

end Afsplus.Publication
