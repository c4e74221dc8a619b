import Afsplus.Vfs.Handles

/-!
# The VFS with maintenance off

With idle maintenance off, no call of this layer starts orphan cleanup or reclaim, whatever the inline
switch, the durability and the clock say. What remains are commits, fsyncs, syncs and discards of the
window; a relation these four keep between the volumes before and after is kept by every call.
-/

namespace Afsplus.Vfs

open Fallible Moves

variable {V α : Type}

/-- The engine calls that are left with maintenance off move the volume along `R`. -/
structure Settles (api : VolumeApi V) (R : V → V → Prop) : Prop where
  commit : ∀ now, Moves R (api.windowCommit now)
  fsync : Moves R api.windowFsync
  sync : Moves R api.sync
  discard : ∀ v, R v (api.windowDiscard v).2

attribute [class] Settles

/-- From a state with maintenance off: it stays off, and the volume moves along `R`. -/
def Off (R : V → V → Prop) (s s' : Vfs V) : Prop :=
  s.idleMaintenance = false → s'.idleMaintenance = false ∧ R s.volume s'.volume

variable {R : V → V → Prop} [Std.Refl R] [IsTrans V R]

instance : Std.Refl (Off R) := ⟨fun s hoff => ⟨hoff, refl_of R s.volume⟩⟩

instance : IsTrans (Vfs V) (Off R) := ⟨fun _ _ _ hab hbc hoff =>
  ⟨(hbc (hab hoff).1).1, trans_of R (hab hoff).2 (hbc (hab hoff).1).2⟩⟩

omit [IsTrans V R] in
theorem off_of_volume {s s' : Vfs V} (hidle : s'.idleMaintenance = s.idleMaintenance)
    (hvolume : s'.volume = s.volume) : Off R s s' := by
  intro hoff
  rw [hidle, hvolume]
  exact ⟨hoff, refl_of R s.volume⟩

omit [IsTrans V R] in
theorem modify_off {f : Vfs V → Vfs V} (hidle : ∀ s, (f s).idleMaintenance = s.idleMaintenance)
    (hvolume : ∀ s, (f s).volume = s.volume) : Moving (Off R) (modify f : VfsM V Unit) :=
  ⟨modify fun s => off_of_volume (hidle s) (hvolume s)⟩

instance {x : EStateM CoreError V α} [hx : Moving R x] : Moving (Off R) (onVolume x) where
  moves s hoff := by
    have hend := hx.moves s.volume
    unfold onVolume
    cases hrun : x s.volume with
    | ok a v =>
        rw [hrun] at hend
        exact ⟨hoff, hend⟩
    | error e v =>
        rw [hrun] at hend
        exact ⟨hoff, hend⟩

instance {x : EStateM CoreError V α} [hx : Moving R x] : Moving (Off R) (tryVolume x) where
  moves s hoff := by
    have hend := hx.moves s.volume
    unfold tryVolume
    cases hrun : x s.volume with
    | ok a v =>
        rw [hrun] at hend
        exact ⟨hoff, hend⟩
    | error e v =>
        rw [hrun] at hend
        exact ⟨hoff, hend⟩

instance (f : V → Except CoreError α) : Moving (Off R) (onReader f) where
  moves s := by
    unfold onReader
    cases f s.volume with
    | ok a => exact refl_of (Off R) s
    | error e => exact refl_of (Off R) s

instance : Moving (Off R) (forgetWindow : VfsM V Unit) := modify_off (fun _ => rfl) fun _ => rfl

variable {api : VolumeApi V} (turns : Nat)

instance (now : Timespec) : Moving (Off R) (afterWindowCommit api turns now) := by
  refine ⟨get_bind fun s hoff => ?_⟩
  simp only [hoff, Bool.false_and, Bool.false_eq_true, if_false]
  exact Moving.moves (R := Off R) (x := forgetWindow >>= fun _ => pure ()) s hoff

instance (now : Timespec) : Moving (Off R) (idleMaintenanceStep api now) := by
  refine ⟨get_bind fun s hoff => ?_⟩
  simp only [hoff, Bool.false_and, Bool.false_eq_true, if_false]
  exact pure (R := Off R) false s hoff

instance (ops : Nat) : Moving (Off R) (setWindowOpsMax ops : VfsM V Nat) := ⟨fun _ => off_of_volume rfl rfl⟩

instance (idle : Bool) (now : Timespec) : Moving (Off R) (idleWork api idle now) := by
  unfold idleWork
  infer_instance

instance : Moving (Off R) (drainBacklog api) := by
  refine ⟨get_bind fun s hoff => ?_⟩
  simp only [hoff, Bool.false_eq_true, and_false, if_false]
  exact pure (R := Off R) () s hoff

instance (now : Timespec) : Moving (Off R) (maintenanceStep api turns now) := by
  refine ⟨get_bind fun s hoff => ?_⟩
  rw [if_pos (Or.inr hoff)]
  exact pure (R := Off R) false s hoff

instance (lowWater needed : Nat) (now : Timespec) (turn steps : Nat) :
    Moving (Off R) (keepRoomFrom api turns lowWater needed now turn steps) := by
  induction turn generalizing steps with
  | zero => exact inferInstanceAs (Moving (Off R) (pure ()))
  | succ turn ih =>
      unfold keepRoomFrom
      infer_instance

instance (state : OpenHandle) : Moving (Off R) (insertHandle state : VfsM V Handle) := by
  have : Moving (Off R) (modify fun s => { s with
      nextHandle := s.nextHandle + 1, handles := s.handles.insert s.nextHandle state } : VfsM V Unit) :=
    modify_off (fun _ => rfl) fun _ => rfl
  unfold insertHandle
  infer_instance

instance (objectId : ObjectId) (access : AccessMode) : Moving (Off R) (openFile api objectId access) := by
  unfold openFile
  infer_instance

instance (objectId : ObjectId) : Moving (Off R) (openDirectory api objectId) := by
  unfold openDirectory
  infer_instance

instance (handle : Handle) (lastName : Option Bytes) :
    Moving (Off R) (resumeDirectoryAfter api handle lastName) := by
  have hbind : ∀ bound, Moving (Off R) (modify fun s => { s with
      handles := s.handles.insert handle bound } : VfsM V Unit) := fun _ => modify_off (fun _ => rfl) fun _ => rfl
  refine .andThen fun s => ?_
  split
  · infer_instance
  · infer_instance
  · cases lastName <;> infer_instance

instance (handle : Handle) (objectId : ObjectId) (generation cookie maxEntries : Nat) :
    Moving (Off R) (entryPage api handle objectId generation cookie maxEntries) := by
  refine .andThen fun s => ?_
  split <;> infer_instance

instance (handle : Handle) (objectId : ObjectId) (maxEntries turn : Nat) (page : EntryPage) :
    Moving (Off R) (visiblePage api handle objectId maxEntries turn page) := by
  have hresume : ∀ name, Moving (Off R) (modify fun s => { s with
      directoryResume := s.directoryResume.insert handle name } : VfsM V Unit) :=
    fun _ => modify_off (fun _ => rfl) fun _ => rfl
  induction turn generalizing page with
  | zero => exact inferInstanceAs (Moving (Off R) (pure _))
  | succ turn ih =>
      refine .andThen fun s => ?_
      dsimp only
      split <;> infer_instance

/-! ### Publishing the window -/

variable [hsettles : Settles api R]

instance (now : Timespec) : Moving R (api.windowCommit now) := ⟨hsettles.commit now⟩

instance : Moving R api.windowFsync := ⟨hsettles.fsync⟩

instance : Moving R api.sync := ⟨hsettles.sync⟩

instance : Moving (Off R) (discardWindow api) := ⟨fun s hoff => ⟨hoff, hsettles.discard s.volume⟩⟩

instance (now : Timespec) : Moving (Off R) (checkpointDataWindow api turns now) := by
  have hcommit : Moving (Off R) (do
      match ← tryVolume (api.windowCommit now) with
      | .ok _ => afterWindowCommit api turns now
      | .error _ => do
        let lost ← discardWindow api
        forgetWindow
        throw (.windowLost lost)) := by
    refine .andThen fun outcome => ?_
    split <;> infer_instance
  unfold checkpointDataWindow
  infer_instance

instance (now : Timespec) : Moving (Off R) (commitWindow api turns now) :=
  inferInstanceAs (Moving (Off R) (checkpointDataWindow api turns now))

instance (durability : Durability) : Moving (Off R) (setDurability api turns durability) := by
  have hset : Moving (Off R) (modify fun s => { s with durability := durability } : VfsM V Unit) :=
    modify_off (fun _ => rfl) fun _ => rfl
  cases durability <;> exact .andThen fun _ => hset

instance (now : Timespec) : Moving (Off R) (commitIfDue api turns now) := by
  refine .andThen fun s => ?_
  cases s.durability with
  | sync => infer_instance
  | delayed idleMs maxAgeMs =>
      dsimp only
      split
      · split <;> infer_instance
      · infer_instance

instance : Moving (Off R) (syncFilesystem api turns) := by
  unfold syncFilesystem publishAccepted
  infer_instance

/-- The branch that cleans the orphan is not taken. -/
instance (objectId : ObjectId) : Moving (Off R) (closeLast api turns objectId) := by
  refine ⟨get_bind fun s hoff => ?_⟩
  have hafter : ∀ unlinked, Moving (Off R) (if unlinked = false then pure ()
      else if s.idleMaintenance = false ∨ s.inlineMaintenance = false then
        checkpointDataWindow api turns noTime
      else do
        checkpointDataWindow api turns noTime
        let _ ← onVolume (api.cleanupOrphan objectId noTime)
        pure ()) := by
    intro unlinked
    rw [if_pos (Or.inl hoff)]
    infer_instance
  split
  · exact (Moving.andThen hafter).moves s hoff
  · exact (hafter true).moves s hoff

instance (handle : Handle) : Moving (Off R) (close api turns handle) := by
  have herase : Moving (Off R) (modify fun s => { s with
      handles := s.handles.erase handle, directoryResume := s.directoryResume.erase handle } : VfsM V Unit) :=
    modify_off (fun _ => rfl) fun _ => rfl
  refine .andThen fun s => .andThen fun state => .andThen fun _ => ?_
  split <;> infer_instance

instance (handle : Handle) (cookie maxEntries : Nat) :
    Moving (Off R) (readDirectory api turns handle cookie maxEntries) := by
  have hrewind : Moving (Off R) (modify fun s => { s with
      directoryResume := s.directoryResume.erase handle } : VfsM V Unit) := modify_off (fun _ => rfl) fun _ => rfl
  refine .andThen fun s => ?_
  split
  · infer_instance
  · infer_instance
  · refine .andThen fun _ => ?_
    dsimp only
    split <;> infer_instance

instance (handle : Handle) : Moving (Off R) (fsync api turns handle) := by
  have hlog : Moving (Off R) (do
      match ← tryVolume api.windowFsync with
      | .ok _ => pure ()
      | .error (.prototypeLimit _) => do
        onVolume (api.windowCommit noTime)
        afterWindowCommit api turns noTime
      | .error e => throw (.ofCore e)) := by
    refine .andThen fun outcome => ?_
    split <;> infer_instance
  unfold fsync keepRoom
  infer_instance

end Afsplus.Vfs
