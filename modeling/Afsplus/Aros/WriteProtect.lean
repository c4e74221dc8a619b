import Afsplus.Aros.Adapter
import Afsplus.Vfs.Published

/-!
# Write protection

Protection is a flag of the adapter, and writes start far below it. What makes the flag complete is
what `set_write_protect` leaves behind: no open window and maintenance off. No unguarded call opens a
window or turns maintenance on, so none of them finds anything to write.
-/

namespace Afsplus.Aros

open Fallible

set_option synthInstance.maxSize 2000

variable {V α : Type} {R : V → V → Prop} [Std.Refl R] [IsTrans V R]

/-- The VFS moves along `Off R`. -/
def Rests (R : V → V → Prop) (s s' : Session V) : Prop := Vfs.Off R s.vfs s'.vfs

instance : Std.Refl (Rests R) := ⟨fun s => refl_of (Vfs.Off R) s.vfs⟩

instance : IsTrans (Session V) (Rests R) := ⟨fun _ _ _ hab hbc => trans_of (Vfs.Off R) hab hbc⟩

instance {x : VfsM V α} [hx : Moving (Vfs.Off R) x] : Moving (Rests R) (onVfs x) where
  moves s := by
    have hend := hx.moves s.vfs
    unfold onVfs
    cases hrun : x s.vfs with
    | ok a vfs =>
        rw [hrun] at hend
        exact hend
    | error e vfs =>
        rw [hrun] at hend
        exact hend

instance {x : VfsM V α} [hx : Moving (Vfs.Off R) x] : Moving (Rests R) (tryVfs x) where
  moves s := by
    have hend := hx.moves s.vfs
    unfold tryVfs
    cases hrun : x s.vfs with
    | ok a vfs =>
        rw [hrun] at hend
        exact hend
    | error e vfs =>
        rw [hrun] at hend
        exact hend

instance (f : Tables → Tables) : Moving (Rests R) (modifyTables f : SessionM V Unit) :=
  ⟨Moves.modify fun s => refl_of (Vfs.Off R) s.vfs⟩

instance (lock : LockId) : Moving (Rests R) (lockState lock : SessionM V LockState) := by
  unfold lockState
  infer_instance

instance (handle : FileHandleId) : Moving (Rests R) (fileState handle : SessionM V FileState) := by
  unfold fileState
  infer_instance

instance (base : Option LockId) : Moving (Rests R) (lockObjectOrRoot base : SessionM V ObjectId) := by
  unfold lockObjectOrRoot
  split <;> infer_instance

instance (objectId : ObjectId) (access : LockAccess) :
    Moving (Rests R) (acquireObjectLock objectId access : SessionM V Unit) := by
  refine .andThen fun s => ?_
  cases access <;> infer_instance

instance (objectId : ObjectId) (access : LockAccess) :
    Moving (Rests R) (releaseObjectLock objectId access : SessionM V Unit) := by
  unfold releaseObjectLock
  infer_instance

instance (lock : LockId) (state : LockState) : Moving (Rests R) (putLock lock state : SessionM V Unit) := by
  unfold putLock
  infer_instance

variable (turns : Nat) (cfg : Config)

section Unguarded

variable {api : VolumeApi V} [Vfs.Settles api R]

instance (vfsHandle : Handle) : Moving (Rests R) (fileIdFor api turns vfsHandle) := by
  unfold fileIdFor allocateFileId
  refine .andThen fun outcome => ?_
  split <;> infer_instance

instance (objectId parent : ObjectId) (name : Bytes) : Moving (Rests R) (openLocked api turns objectId parent name) := by
  unfold openLocked
  infer_instance

instance : Moving (Rests R) (ensureFileCapacity cfg : SessionM V Unit) := by
  unfold ensureFileCapacity
  infer_instance

instance (base : Option LockId) (name : Bytes) : Moving (Rests R) (openOldFile api turns cfg base name) := by
  have hopen : ∀ objectId parent stored, Moving (Rests R) (do
      match ← attempt (openLocked api turns objectId parent stored) with
      | .ok handle => pure handle
      | .error e => do
        releaseObjectLock objectId .shared
        throw e) := by
    intro objectId parent stored
    refine .andThen fun outcome => ?_
    split <;> infer_instance
  unfold openOldFile
  infer_instance

instance (directory : Option Handle) : Moving (Rests R) (closeDirectory api turns directory) := by
  unfold closeDirectory
  split <;> infer_instance

instance (lock : LockId) : Moving (Rests R) (openFromLock api turns cfg lock) := by
  unfold openFromLock
  infer_instance

instance (handle : FileHandleId) : Moving (Rests R) (close api turns handle) := by
  unfold close
  infer_instance

instance (handle : FileHandleId) : Moving (Rests R) (fsync api turns handle) := by
  unfold fsync
  infer_instance

instance (lock : LockId) : Moving (Rests R) (freeLock api turns lock) := by
  refine .andThen fun state => .andThen fun _ => ?_
  dsimp only
  split <;> infer_instance

instance (lock : LockId) (state : LockState) : Moving (Rests R) (walkHandle api lock state) := by
  unfold walkHandle
  split <;> infer_instance

instance (lock : LockId) : Moving (Rests R) (examineNext api turns cfg lock) := by
  unfold examineNext
  infer_instance

instance (lock : LockId) : Moving (Rests R) (rewindDirectory api turns lock) := by
  refine .andThen fun state => ?_
  dsimp only
  split <;> infer_instance

instance (base : Option LockId) : Moving (Rests R) (openEnumerator api turns cfg base) := by
  unfold openEnumerator
  infer_instance

instance (state : Enumerator) (limit : Nat) : Moving (Rests R) (enumeratorPage api turns state limit) := by
  refine .andThen fun outcome => ?_
  split
  · infer_instance
  · refine .andThen fun resumed => ?_
    split <;> infer_instance
  · infer_instance

instance (enumerator : EnumeratorId) (limit : Nat) : Moving (Rests R) (readEnumerator api turns enumerator limit) := by
  unfold readEnumerator
  infer_instance

instance (enumerator : EnumeratorId) : Moving (Rests R) (closeEnumerator api turns enumerator) := by
  unfold closeEnumerator
  infer_instance

instance (handles : List FileHandleId) : Moving (Rests R) (closeAll api turns handles) := by
  induction handles with
  | nil => exact inferInstanceAs (Moving (Rests R) (pure ()))
  | cons handle rest ih => exact .andThen fun _ => ih

instance (locks : List LockId) : Moving (Rests R) (freeAll api turns locks) := by
  induction locks with
  | nil => exact inferInstanceAs (Moving (Rests R) (pure ()))
  | cons lock rest ih => exact .andThen fun _ => ih

instance (enumerators : List EnumeratorId) : Moving (Rests R) (closeEnumerators api turns enumerators) := by
  induction enumerators with
  | nil => exact inferInstanceAs (Moving (Rests R) (pure ()))
  | cons enumerator rest ih => exact .andThen fun _ => ih

instance : Moving (Rests R) (release api turns) := by
  unfold release
  infer_instance

instance (call : ReadingCall) (answer : Session V → Except ArosError (Tables × Handle)) :
    Moving (Rests R) (reading call answer) :=
  .andThen fun _ => .andThen fun _ => ⟨Moves.modify fun _ => Vfs.off_of_volume rfl rfl⟩

/-- No call outside the guard moves the volume but by a commit, an fsync, a sync or a discard. -/
instance (call : Call V) : Moving (Rests R) (unguarded api turns cfg call) := by
  unfold unguarded
  split <;> infer_instance

/-! ### The flag -/

theorem onSession_eq (x : SessionM V α) (a : Adapter V) :
    endState (onSession x a) = { a with session := endState (x a.session) } := by
  unfold onSession
  cases x a.session with
  | ok r session => rfl
  | error e session => rfl

def SameFlag (a a' : Adapter V) : Prop := a'.writeProtect = a.writeProtect

instance : Std.Refl (SameFlag (V := V)) := ⟨fun _ => rfl⟩

instance : IsTrans (Adapter V) SameFlag := ⟨fun _ _ _ hab hbc => hbc.trans hab⟩

theorem onSession_flag (x : SessionM V α) : Moves SameFlag (onSession x) := fun a => by
  rw [onSession_eq]
  rfl

variable {a : Adapter V}

/-- Neither the ownership check nor the guard of a protected volume leaves a trace. -/
theorem mutating_of_protected (hprotd : a.writeProtect ≠ none) (call : MutatingCall)
    (behind : SessionM V Unit) : endState (mutating call behind a) = a := by
  have hcheck : ∀ s : Session V, endState (call.checkReader s) = s := by
    intro s
    have howned : ∀ reader owner, endState (snapshotOwned reader owner s) = s := by
      intro reader owner
      unfold snapshotOwned
      rw [get_bind_apply]
      by_cases hp : s.tables.snapshotOwners.get? reader = some owner
      · rw [require_of hp]
        rfl
      · rw [require_of_not hp]
        rfl
    unfold MutatingCall.checkReader
    split
    · exact howned _ _
    · exact howned _ _
    · rfl
  have hguard : ensureWritable a = .error .diskWriteProtected a := by
    unfold ensureWritable
    rw [get_bind_apply, require_of_not hprotd]
  have hfirst := onSession_eq (MutatingCall.checkReader call) a
  rw [hcheck] at hfirst
  unfold mutating
  cases hrun : onSession (MutatingCall.checkReader call) a with
  | error e a' =>
    rw [hrun] at hfirst
    rw [bind_of_error hrun]
    exact hfirst
  | ok u a' =>
    rw [hrun] at hfirst
    obtain rfl : a' = a := hfirst
    rw [bind_of_ok hrun, bind_of_error hguard]
    rfl

def Unprotects (api : VolumeApi V) (turns : Nat) (a : Adapter V) (call : Call V) : Prop :=
  ∃ key a', call = .setWriteProtect false key ∧ setWriteProtect api turns false key a = .ok () a'

def Unbroken (api : VolumeApi V) (turns : Nat) (cfg : Config) : Adapter V → List (Call V) → Prop
  | _, [] => True
  | a, call :: rest => ¬Unprotects api turns a call ∧ Unbroken api turns cfg (step api turns cfg a call) rest

theorem key_of_unprotect {a' : Adapter V} {stored key : Nat} (hstored : a.writeProtect = some stored)
    (hok : setWriteProtect api turns false key a = .ok () a') : stored = 0 ∨ stored = key := by
  unfold setWriteProtect at hok
  rw [get_bind_apply, hstored] at hok
  obtain ⟨hkey, -⟩ := require_bind_eq_ok.mp hok
  exact hkey

theorem unprotect_eq {stored key : Nat} {turns : Nat} (hstored : a.writeProtect = some stored)
    (hkey : stored = 0 ∨ stored = key) :
    setWriteProtect api turns false key a =
      .ok () ⟨{ a.session with vfs := { a.session.vfs with idleMaintenance := true } }, none⟩ := by
  unfold setWriteProtect
  rw [get_bind_apply, hstored]
  exact require_bind hkey _ _ a

end Unguarded

open Publication (api Volume)

section Published

open Publication (Settled Silent)

variable (pub : Publication.Config) (scripts : Publication.Scripts)

/-- Protected with this key, and nothing below has anything to write. -/
structure Held (key : Nat) (a : Adapter Volume) : Prop where
  flag : a.writeProtect = some key
  off : a.session.vfs.idleMaintenance = false
  settled : Settled pub a.session.vfs.volume

variable {pub} {scripts} {turns} {cfg} {key : Nat} {a a' : Adapter Volume}

theorem held_of_protect (hok : protect (api pub scripts) turns key a = .ok () a') : Held pub key a' := by
  obtain ⟨_, b, hoff, hrest⟩ := bind_eq_ok.mp hok
  have hb : b.session.vfs.idleMaintenance = false := by
    cases hoff
    rfl
  split at hrest
  · rename_i hmode
    obtain ⟨outcome, c, hsync, hset⟩ := bind_eq_ok.mp hrest
    unfold attempt onSession onVfs at hsync
    cases hrun : Vfs.syncFilesystem (api pub scripts) turns b.session.vfs with
    | ok u vfs =>
      simp only [hrun] at hsync
      cases hsync
      cases hset
      obtain ⟨hidle, hsettled⟩ := Publication.settled_of_syncFilesystem hb hmode hrun
      exact ⟨rfl, hidle, hsettled⟩
    | error e vfs =>
      simp only [hrun] at hsync
      cases hsync
      obtain ⟨_, d, -, hthrow⟩ := bind_eq_ok.mp hset
      exact (throw_eq_ok.mp hthrow).elim
  · rename_i hmode
    cases hrest
    exact ⟨rfl, hb, fun hwritable => absurd hwritable hmode⟩

theorem flag_of_protect_error {e : ArosError}
    (herror : protect (api pub scripts) turns key a = .error e a') :
    a'.writeProtect = a.writeProtect := by
  obtain hoff | ⟨_, b, hoff, hrest⟩ := bind_eq_error.mp herror
  · cases hoff
  have hb : b.writeProtect = a.writeProtect := by
    cases hoff
    rfl
  split at hrest
  · obtain hsync | ⟨outcome, c, hsync, hset⟩ := bind_eq_error.mp hrest
    · unfold attempt at hsync
      split at hsync <;> cases hsync
    have hc : c.writeProtect = b.writeProtect :=
      (Moves.attempt (onSession_flag (onVfs (Vfs.syncFilesystem _ turns)))).of_ok hsync
    cases outcome with
    | ok u => cases hset
    | error e' =>
      obtain hon | ⟨_, d, hon, hthrow⟩ := bind_eq_error.mp hset
      · cases hon
      · cases hon
        obtain ⟨-, rfl⟩ := throw_eq_error.mp hthrow
        exact hc.trans hb
  · cases hrest

/-- Still protected, and no block written in between. -/
def StaysHeld (pub : Publication.Config) (key : Nat) (a a' : Adapter Volume) : Prop :=
  Held pub key a' ∧ a'.session.vfs.volume.dev.issued = a.session.vfs.volume.dev.issued

variable (scripts turns cfg) in
theorem Held.unguarded (hheld : Held pub key a) (call : Call Volume) :
    StaysHeld pub key a (endState (onSession (unguarded (api pub scripts) turns cfg call) a)) := by
  rw [onSession_eq]
  have hrests : Moving (Rests (Silent pub)) (Aros.unguarded (api pub scripts) turns cfg call) := inferInstance
  obtain ⟨hoff, hsilent⟩ := hrests.moves a.session hheld.off
  obtain ⟨hsettled, hissued⟩ := hsilent hheld.settled
  exact ⟨⟨hheld.flag, hoff, hsettled⟩, hissued⟩

theorem Held.step (hheld : Held pub key a) {call : Call Volume}
    (hcall : ¬Unprotects (api pub scripts) turns a call) :
    StaysHeld pub key a (step (api pub scripts) turns cfg a call) := by
  have hsame : Aros.step (api pub scripts) turns cfg a call = a →
      StaysHeld pub key a (Aros.step (api pub scripts) turns cfg a call) := by
    intro heq
    rw [heq]
    exact ⟨hheld, rfl⟩
  cases call with
  | mutating call behind =>
    apply hsame
    apply mutating_of_protected
    rw [hheld.flag]
    exact Option.some_ne_none key
  | setWriteProtect on k =>
    apply hsame
    show endState (setWriteProtect _ turns on k a) = a
    cases on with
    | true =>
      unfold setWriteProtect
      rw [get_bind_apply, hheld.flag]
      by_cases hkey : key = k
      · exact congrArg endState (require_of hkey _ a)
      · exact congrArg endState (require_of_not hkey _ a)
    | false =>
      by_cases hkey : key = 0 ∨ key = k
      · exact absurd ⟨k, _, rfl, unprotect_eq hheld.flag hkey⟩ hcall
      · unfold setWriteProtect
        rw [get_bind_apply, hheld.flag]
        exact congrArg endState (require_bind_not hkey _ _ a)
  | setWindowOpsMax ops => exact hheld.unguarded turns cfg scripts (.setWindowOpsMax ops)
  | _ => exact hheld.unguarded turns cfg scripts _

theorem Held.run (hheld : Held pub key a) {calls : List (Call Volume)}
    (hcalls : Unbroken (api pub scripts) turns cfg a calls) :
    StaysHeld pub key a (run (api pub scripts) turns cfg a calls) := by
  induction calls generalizing a with
  | nil => exact ⟨hheld, rfl⟩
  | cons call rest ih =>
    obtain ⟨hnext, hissued⟩ := hheld.step hcalls.1
    obtain ⟨hlast, hlater⟩ := ih hnext hcalls.2
    exact ⟨hlast, hlater.trans hissued⟩

/-- A protected adapter is one that a successful `set_write_protect` left, in any run of an adapter that
was not. -/
def Guarded (pub : Publication.Config) (a : Adapter Volume) : Prop :=
  ∀ key, a.writeProtect = some key → Held pub key a

theorem Guarded.step (hguarded : Guarded pub a) (call : Call Volume) :
    Guarded pub (step (api pub scripts) turns cfg a call) := by
  cases hflag : a.writeProtect with
  | some key =>
    by_cases hcall : Unprotects (api pub scripts) turns a call
    · obtain ⟨k, a', rfl, hok⟩ := hcall
      intro other hoth
      have hkey := key_of_unprotect turns hflag hok
      have hend : Aros.step (api pub scripts) turns cfg a (.setWriteProtect false k) = _ :=
        congrArg endState (unprotect_eq hflag hkey)
      rw [hend] at hoth
      cases hoth
    · obtain ⟨hheld, -⟩ := (hguarded key hflag).step hcall
      intro other hoth
      cases hheld.flag.symm.trans hoth
      exact hheld
  | none =>
    have hnone : SameFlag a (Aros.step (api pub scripts) turns cfg a call) →
        Guarded pub (Aros.step (api pub scripts) turns cfg a call) := by
      intro hsame key hkey
      cases (hsame.trans hflag).symm.trans hkey
    cases call with
    | mutating call behind =>
      apply hnone
      refine Moves.bind (onSession_flag _) (fun _ => Moves.bind ?_ fun _ => onSession_flag _) a
      exact Moves.get.bind fun _ => Moves.require _ _
    | setWriteProtect on k =>
      cases on with
      | false =>
        apply hnone
        show SameFlag a (endState (setWriteProtect _ turns false k a))
        unfold setWriteProtect
        rw [get_bind_apply, hflag]
        rfl
      | true =>
        have heq : setWriteProtect (api pub scripts) turns true k a
            = protect (api pub scripts) turns k a := by
          unfold setWriteProtect
          rw [get_bind_apply, hflag]
        have hstep : Aros.step (api pub scripts) turns cfg a (.setWriteProtect true k)
            = endState (protect (api pub scripts) turns k a) := congrArg endState heq
        cases hrun : protect (api pub scripts) turns k a with
        | ok u a' =>
          rw [hstep, hrun]
          have hheld := held_of_protect hrun
          intro other hoth
          cases hheld.flag.symm.trans hoth
          exact hheld
        | error e a' =>
          apply hnone
          rw [hstep, hrun]
          exact flag_of_protect_error hrun
    | setWindowOpsMax ops =>
      exact hnone (onSession_flag (unguarded (api pub scripts) turns cfg (.setWindowOpsMax ops)) a)
    | _ => exact hnone (onSession_flag _ a)

theorem Guarded.run (hguarded : Guarded pub a) (calls : List (Call Volume)) :
    Guarded pub (run (api pub scripts) turns cfg a calls) := by
  induction calls generalizing a with
  | nil => exact hguarded
  | cons call rest ih => exact ih (hguarded.step call)

theorem Guarded.held_of_setWriteProtect (hguarded : Guarded pub a)
    (hok : setWriteProtect (api pub scripts) turns true key a = .ok () a') : Held pub key a' := by
  unfold setWriteProtect at hok
  rw [get_bind_apply] at hok
  cases hflag : a.writeProtect with
  | none =>
    rw [hflag] at hok
    exact held_of_protect hok
  | some stored =>
    rw [hflag] at hok
    obtain ⟨rfl, rfl⟩ := require_eq_ok.mp hok
    exact hguarded stored hflag

/-- Once `set_write_protect(true, key)` has returned, no call writes a block of the device until
protection is turned off, and that needs the key, or any key when `key` is zero. -/
theorem protected_volume_not_written {start : Adapter Volume} (hstart : start.writeProtect = none)
    (before : List (Call Volume)) (hprotect : setWriteProtect (api pub scripts) turns true key
      (run (api pub scripts) turns cfg start before) = .ok () a)
    (calls : List (Call Volume)) (hcalls : Unbroken (api pub scripts) turns cfg a calls) :
    (run (api pub scripts) turns cfg a calls).session.vfs.volume.dev.issued
        = a.session.vfs.volume.dev.issued ∧ ∀ k a', setWriteProtect (api pub scripts) turns false k
        (run (api pub scripts) turns cfg a calls) = .ok () a' → key = 0 ∨ key = k := by
  have hguarded : Guarded pub start := by
    intro stored hstored
    cases hstart.symm.trans hstored
  have hheld := (hguarded.run before).held_of_setWriteProtect hprotect
  obtain ⟨hlast, hissued⟩ := hheld.run hcalls
  exact ⟨hissued, fun k a' hok => key_of_unprotect turns hlast.flag hok⟩

end Published

/-! ### A mount with a change waiting -/

namespace Waiting

/-- Empty trees; the waiting change is one block. -/
def scripts : Publication.Scripts where
  orphanDirectory := true
  persistentSnapshots := false
  blockSize := 4096
  totalBlocks := 64
  comparisonKey := .ok
  pendingDirectory _ _ := false
  generation _ := 1
  nextObjectId _ := objectFirstDynamic
  availableBlocks _ := 40
  windowAvailableBlocks _ := 40
  reclaimPendingBlocks _ := 0
  orphanCount _ := .ok 0
  firstOrphan _ := .ok none
  orphanObject _ _ := .ok false
  visibleKind _ _ := .ok none
  objectAttribute _ _ _ := .ok none
  lookupEntry _ _ _ := .ok none
  readDirectoryPage _ _ _ _ _ := .ok ⟨[], 0, true⟩
  window _ _ := some (Publication.publishing 20 [1] [2])
  fsync _ := ⟨false, none, 10, []⟩
  reclaimStep _ := .ok ([], 0)
  cleanupOrphan _ _ := .ok ([], ⟨0, false, false⟩)
  cleanupOrphans _ _ _ := .ok ([], ⟨0, 0, 0, false⟩)

def volume : Volume where
  dev := ⟨⟨fun _ => [], []⟩, 0, fun _ => .done, []⟩
  currentSlot := ⟨0, Nat.zero_lt_two⟩
  window := some ⟨0, 1, false⟩
  windowPoisoned := false
  uncertain := false

def adapter : Adapter Volume :=
  ⟨⟨.new volume, ⟨.empty, .empty, .empty, .empty, .empty, 1, 1, 1⟩⟩, none⟩

def config : Config := ⟨.ok, .ok, 8, 8⟩

def calls : VolumeApi Volume := api Publication.writableConfig scripts

/-- After `set_write_protect(true, 7)`. -/
def held : Adapter Volume := endState (setWriteProtect calls 4 true 7 adapter)

/-- A write that goes to the device at once. -/
def overwrite : Call Volume :=
  .mutating .write (modify fun s => { s with vfs.volume.dev.issued := s.vfs.volume.dev.issued ++ [(20, [3])] })

def later : Adapter Volume := run calls 4 config held [.flush, overwrite]

end Waiting

/-- Protecting publishes the waiting change; the flush and the write that follow add nothing, and without
protection the write would. -/
theorem protected_volume_not_written_waiting :
    (run Waiting.calls 4 Waiting.config Waiting.adapter [Waiting.overwrite]).session.vfs.volume.dev.issued = [(20, [3])] ∧
    Waiting.held.session.vfs.volume.dev.issued = [(20, [1]), (2, [2])] ∧
      Waiting.later.session.vfs.volume.dev.issued = Waiting.held.session.vfs.volume.dev.issued ∧
      ∀ k a', setWriteProtect Waiting.calls 4 false k Waiting.later = .ok () a' → 7 = 0 ∨ 7 = k := by
  have hstart : Waiting.adapter.writeProtect = none := rfl
  have hprotect : setWriteProtect Waiting.calls 4 true 7
      (run Waiting.calls 4 Waiting.config Waiting.adapter []) = .ok () Waiting.held := rfl
  refine ⟨by decide, by decide, protected_volume_not_written hstart [] hprotect _ ⟨?_, ?_, trivial⟩⟩
  · rintro ⟨key, a', hcall, -⟩
    cases hcall
  · rintro ⟨key, a', hcall, -⟩
    cases hcall

end Afsplus.Aros
