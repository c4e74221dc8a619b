import Afsplus.Lib.Disk
import Afsplus.Core.Basic

/-!
# Publication and the poison flag

What a mounted volume may write, and when. The model keeps of each operation the block writes and
barriers it issues, in order, and every gate in front of them; which blocks and which bytes an
operation chooses is a script the caller supplies, so the results hold whatever the operation
computes. The device answers each call by a fault plan: a failing write or flush may have taken
effect or not.

`uncertain` is a ghost: it records that the write or the flush of a checkpoint block has returned an
error, after which the new checkpoint may or may not be on the medium. The engine itself only has
`windowPoisoned`, which it shares with windows that failed for other reasons.
-/

namespace Afsplus.Publication

open Fallible

inductive IoOutcome where
  | done
  | lost
  | landed
  deriving DecidableEq, Repr

structure Device where
  disk : Disk Bytes
  calls : Nat
  outcome : Nat → IoOutcome
  issued : List (Lba × Bytes)

structure Window where
  loggedRecords : Nat
  unlogged : Nat
  unloggable : Bool
  deriving DecidableEq, Repr

structure Config where
  mode : MountMode
  loggedDataUpdates : Bool
  checkpointSlots : Fin 2 → Lba

structure Volume where
  dev : Device
  currentSlot : Fin 2
  window : Option Window
  windowPoisoned : Bool
  uncertain : Bool

abbrev VolumeM := EStateM CoreError Volume

def finalState {ε α : Type} : EStateM.Result ε Volume α → Volume
  | .ok _ v => v
  | .error _ v => v

def writeBlock (lba : Lba) (block : Bytes) : VolumeM Unit := fun v =>
  let asked := { v.dev with calls := v.dev.calls + 1, issued := v.dev.issued ++ [(lba, block)] }
  let written := { asked with disk := asked.disk.write lba block }
  match v.dev.outcome v.dev.calls with
  | .done => .ok () { v with dev := written }
  | .landed => .error (.block .io) { v with dev := written }
  | .lost => .error (.block .io) { v with dev := asked }

def flush : VolumeM Unit := fun v =>
  let asked := { v.dev with calls := v.dev.calls + 1 }
  let flushed := { asked with disk := asked.disk.flush }
  match v.dev.outcome v.dev.calls with
  | .done => .ok () { v with dev := flushed }
  | .landed => .error (.block .io) { v with dev := flushed }
  | .lost => .error (.block .io) { v with dev := asked }

def writeEach : List (Lba × Bytes) → VolumeM Unit
  | [] => pure ()
  | (lba, block) :: rest => do
    writeBlock lba block
    writeEach rest

def refuse : Option CoreError → VolumeM Unit
  | some e => throw e
  | none => pure ()

/-- What one transaction writes. `early` are the blocks written before the commit's own sequence
(data written ahead, tree images the page cache had to spill), `refusal` any error met before that
sequence starts, `adopts` whether the roots just published load again. -/
structure Transaction where
  early : List (Lba × Bytes)
  refusal : Option CoreError
  data : List (Lba × Bytes)
  metadata : List (Lba × Bytes)
  checkpoint : Except FormatError Bytes
  adopts : Bool

/-- The checkpoint write and its barrier, the point of uncertainty. -/
def publishCheckpoint (cfg : Config) (block : Bytes) : VolumeM Unit := fun v =>
  let body : VolumeM Unit := do
    writeBlock (cfg.checkpointSlots (1 - v.currentSlot)) block
    flush
  match body v with
  | .ok u v' => .ok u v'
  | .error e v' => .error e { v' with uncertain := true }

/-- The end of a commit. The volume counts as poisoned from the moment publication begins until the
new roots are adopted. -/
def publishAndAdopt (cfg : Config) (block : Bytes) (adopts : Bool) : VolumeM Unit := do
  modify fun v => { v with windowPoisoned := true }
  publishCheckpoint cfg block
  require (adopts = true) (.corrupt "published roots do not load")
  modify fun v => { v with currentSlot := 1 - v.currentSlot, windowPoisoned := false }

def commitTransactionBody (cfg : Config) (t : Transaction) : VolumeM Unit := do
  writeEach t.early
  refuse t.refusal
  writeEach t.data
  if t.data ≠ [] then flush
  writeEach t.metadata
  flush
  let block ← lift (t.checkpoint.mapError .format)
  publishAndAdopt cfg block t.adopts

def runTransactions (cfg : Config) : List Transaction → VolumeM Unit
  | [] => pure ()
  | t :: rest => do
    commitTransactionBody cfg t
    runTransactions cfg rest

/-- The two checks every writing method makes first. -/
def ensureWritable (cfg : Config) : VolumeM Unit := do
  require (cfg.mode.allowsUserWrites = true) .readOnly
  let v ← get
  require (v.windowPoisoned = false) .windowPoisoned

def ensureWindowClosed (cfg : Config) : VolumeM Unit := do
  ensureWritable cfg
  let v ← get
  require (v.window = none) .windowOpen

/-- Any operation that commits at once: create, write, rename, clone, attribute, label, orphan and
reclaim methods alike pass the gate and then run their transactions, stopping at the first error. -/
def immediate (cfg : Config) (ts : List Transaction) : VolumeM Unit := do
  ensureWindowClosed cfg
  runTransactions cfg ts

def sync (cfg : Config) : VolumeM Unit := do
  if cfg.mode.allowsUserWrites then
    ensureWindowClosed cfg
    flush

def takeOrOpenWindow (cfg : Config) : VolumeM Window := do
  ensureWritable cfg
  let v ← get
  pure (v.window.getD ⟨0, 0, false⟩)

/-- A change of the namespace (`window_op`), or of a file's data (`window_write_file_at`,
`window_truncate_file`) with whether it has extended a run of the file before it writes. -/
inductive WindowKind where
  | op
  | data (extended : Bool)

/-- A window operation: what refuses it before the window is taken, the blocks it writes, and the
window it leaves or the error it ends with. -/
structure WindowCall where
  kind : WindowKind
  preflight : Option CoreError
  writes : List (Lba × Bytes)
  result : Except CoreError Window

def stageInWindow (call : WindowCall) : VolumeM Window := do
  writeEach call.writes
  lift call.result

/-- Whether an error puts the window back: for a change of the namespace if it is a validation error,
for one of the data if nothing was extended or written. -/
def WindowCall.keepsWindow (call : WindowCall) (e : CoreError) : Bool :=
  match call.kind with
  | .op => e.isValidationError
  | .data extended => !extended && call.writes.isEmpty

/-- An error that does not put the window back drops and poisons it. -/
def settleWindow (window : Window) (keeps : CoreError → Bool) (body : VolumeM Window) : VolumeM Unit := fun v =>
  match body v with
  | .ok window' v' => .ok () { v' with window := some window' }
  | .error e v' =>
    if keeps e then .error e { v' with window := some window }
    else .error e { v' with window := none, windowPoisoned := true }

def windowCall (cfg : Config) (call : WindowCall) : VolumeM Unit := do
  refuse call.preflight
  let window ← takeOrOpenWindow cfg
  settleWindow window call.keepsWindow (stageInWindow call)

/-- What an fsync of a nonempty group does: whether its data needs a barrier first, what refuses it
before the record is written, and the record with its slot. -/
structure FsyncCall where
  dataBarrier : Bool
  refusal : Option CoreError
  slot : Lba
  record : Bytes

def poisonOnError (x : VolumeM Unit) : VolumeM Unit := fun v =>
  match x v with
  | .ok u v' => .ok u v'
  | .error e v' => .error e { v' with windowPoisoned := true }

def windowFsync (cfg : Config) (call : FsyncCall) : VolumeM Unit := do
  ensureWritable cfg
  let v ← get
  match v.window with
  | none => pure ()
  | some window =>
    require (window.unloggable = false)
      (.prototypeLimit "the window holds changes the log cannot record; commit the window")
    if window.unlogged = 0 then flush
    else
      if call.dataBarrier then poisonOnError flush
      refuse call.refusal
      poisonOnError do
        writeBlock call.slot call.record
        flush
      modify fun v =>
        { v with window := some { window with
            loggedRecords := window.loggedRecords + 1, unlogged := 0 } }

/-- Returns how many acknowledged operations were dropped. -/
def windowDiscard : VolumeM Nat := fun v =>
  match v.window with
  | none => .ok 0 { v with windowPoisoned := false }
  | some window =>
    .ok (window.loggedRecords + window.unlogged) { v with window := none, windowPoisoned := false }

/-- `t` is the transaction the staged batch materialises into, `none` when it came to nothing and no
record forces a checkpoint. -/
def windowCommit (cfg : Config) (now : Timespec) (t : Option Transaction) : VolumeM Unit := do
  lift (validateTime now)
  ensureWritable cfg
  let v ← get
  match v.window with
  | none => pure ()
  | some _ =>
    modify fun v => { v with window := none }
    poisonOnError (match t with
      | none => pure ()
      | some t => commitTransactionBody cfg t)

/-- Snapshot creation and deletion close the window themselves before their own transaction. -/
def snapshotChange (cfg : Config) (now : Timespec) (window : Option Transaction)
    (ts : List Transaction) : VolumeM Unit := do
  windowCommit cfg now window
  immediate cfg ts

/-! ### The VFS wrapper -/

/-- Maintenance after a commit: immediate operations whose errors are dropped. -/
def afterWindowCommit (cfg : Config) (maintenance : List (List Transaction)) (v : Volume) :
    Volume :=
  maintenance.foldl (fun v ts => finalState (immediate cfg ts v)) v

inductive VfsError where
  | windowLost (operations : Nat)
  deriving DecidableEq, Repr

def checkpointDataWindow (cfg : Config) (now : Timespec) (t : Option Transaction)
    (maintenance : List (List Transaction)) : EStateM VfsError Volume Unit := fun v =>
  if cfg.mode ≠ .readWrite ∨ cfg.loggedDataUpdates = false then .ok () v
  else match windowCommit cfg now t v with
    | .ok _ v' => .ok () (afterWindowCommit cfg maintenance v')
    | .error _ v' =>
      match windowDiscard v' with
      | .ok lost v'' => .error (.windowLost lost) v''
      | .error _ v'' => .error (.windowLost 0) v''

inductive Call where
  | immediate (ts : List Transaction)
  | sync
  | window (call : WindowCall)
  | fsync (call : FsyncCall)
  | commit (now : Timespec) (t : Option Transaction)
  | discard
  | snapshot (now : Timespec) (window : Option Transaction) (ts : List Transaction)
  | checkpointDataWindow (now : Timespec) (t : Option Transaction)
      (maintenance : List (List Transaction))

def step (cfg : Config) (v : Volume) : Call → Volume
  | .immediate ts => finalState (immediate cfg ts v)
  | .sync => finalState (sync cfg v)
  | .window call => finalState (windowCall cfg call v)
  | .fsync call => finalState (windowFsync cfg call v)
  | .commit now t => finalState (windowCommit cfg now t v)
  | .discard => finalState (windowDiscard v)
  | .snapshot now window ts => finalState (snapshotChange cfg now window ts v)
  | .checkpointDataWindow now t maintenance =>
    finalState (checkpointDataWindow cfg now t maintenance v)

def run (cfg : Config) (v : Volume) (calls : List Call) : Volume := calls.foldl (step cfg) v

/-- The call reaches `window_discard` with a publication already uncertain: directly, or inside the
wrapper once the commit it tried has failed. -/
def discardsUncertain (cfg : Config) (v : Volume) : Call → Bool
  | .discard => v.uncertain
  | .checkpointDataWindow now t _ =>
    decide (cfg.mode = .readWrite) && cfg.loggedDataUpdates &&
      match windowCommit cfg now t v with
      | .ok _ _ => false
      | .error _ v' => v'.uncertain
  | _ => false

/-- No call of the run discards a window while a publication is uncertain. -/
def Careful (cfg : Config) : Volume → List Call → Prop
  | _, [] => True
  | v, c :: rest => discardsUncertain cfg v c = false ∧ Careful cfg (step cfg v c) rest

/-- The call drops the window if nothing in front of that succeeds. -/
def reachesDiscard (cfg : Config) : Call → Bool
  | .discard => true
  | .checkpointDataWindow .. => decide (cfg.mode = .readWrite) && cfg.loggedDataUpdates
  | _ => false

section Refused

variable (cfg : Config) {v : Volume}

theorem ensureWritable_of_poisoned (hpoison : v.windowPoisoned = true) : ∃ e, ensureWritable cfg v = .error e v := by
  unfold ensureWritable
  by_cases hmode : cfg.mode.allowsUserWrites = true
  · refine ⟨.windowPoisoned, ?_⟩
    rw [bind_of_ok (require_of hmode _ v), bind_of_ok (get_eq_ok.mpr ⟨rfl, rfl⟩)]
    exact require_of_not (by simp [hpoison]) _ _
  · exact ⟨.readOnly, bind_of_error (require_of_not hmode _ _)⟩

variable (hgate : ∃ e, ensureWritable cfg v = .error e v)

include hgate

theorem ensureWindowClosed_of_refused : ∃ e, ensureWindowClosed cfg v = .error e v := by
  obtain ⟨e, he⟩ := hgate
  exact ⟨e, bind_of_error he⟩

theorem immediate_of_refused (ts : List Transaction) : ∃ e, immediate cfg ts v = .error e v := by
  obtain ⟨e, he⟩ := ensureWindowClosed_of_refused cfg hgate
  exact ⟨e, bind_of_error he⟩

theorem sync_of_refused : finalState (sync cfg v) = v := by
  unfold sync
  split
  · obtain ⟨e, he⟩ := ensureWindowClosed_of_refused cfg hgate
    rw [bind_of_error he]
    rfl
  · rfl

theorem windowCall_of_refused (call : WindowCall) : finalState (windowCall cfg call v) = v := by
  unfold windowCall
  cases hpre : call.preflight with
  | some e => rfl
  | none =>
    obtain ⟨e, he⟩ := hgate
    have htake : takeOrOpenWindow cfg v = .error e v := bind_of_error he
    rw [bind_of_ok (show refuse none v = .ok () v from rfl), bind_of_error htake]
    rfl

theorem windowFsync_of_refused (call : FsyncCall) : finalState (windowFsync cfg call v) = v := by
  obtain ⟨e, he⟩ := hgate
  exact congrArg finalState (bind_of_error he)

theorem windowCommit_of_refused (now : Timespec)
    (t : Option Transaction) : ∃ e, windowCommit cfg now t v = .error e v := by
  unfold windowCommit
  cases hnow : validateTime now with
  | error e => exact ⟨e, bind_of_error (lift_eq_error.mpr ⟨rfl, rfl⟩)⟩
  | ok u =>
    obtain ⟨e, he⟩ := hgate
    exact ⟨e, (bind_of_ok (lift_eq_ok.mpr ⟨rfl, rfl⟩)).trans (bind_of_error he)⟩

theorem discardsUncertain_of_refused (c : Call) : discardsUncertain cfg v c = (v.uncertain && reachesDiscard cfg c) := by
  cases c with
  | checkpointDataWindow now t maintenance =>
    obtain ⟨e, he⟩ := windowCommit_of_refused cfg hgate now t
    simp only [discardsUncertain, reachesDiscard, he, Bool.and_comm]
  | _ => simp [discardsUncertain, reachesDiscard]

/-- Behind a closed gate a call drops the window or does nothing. -/
theorem step_of_refused (c : Call) :
    step cfg v c = if reachesDiscard cfg c then { v with window := none, windowPoisoned := false } else v := by
  obtain ⟨n, hn⟩ : ∃ n, windowDiscard v = .ok n { v with window := none, windowPoisoned := false } := by
    rcases v with ⟨_, _, _ | _, _, _⟩ <;> exact ⟨_, rfl⟩
  cases c with
  | immediate ts =>
    obtain ⟨e, he⟩ := immediate_of_refused cfg hgate ts
    exact congrArg finalState he
  | sync => exact sync_of_refused cfg hgate
  | window call => exact windowCall_of_refused cfg hgate call
  | fsync call => exact windowFsync_of_refused cfg hgate call
  | commit now t =>
    obtain ⟨e, he⟩ := windowCommit_of_refused cfg hgate now t
    exact congrArg finalState he
  | discard => exact congrArg finalState hn
  | snapshot now window ts =>
    obtain ⟨e, he⟩ := windowCommit_of_refused cfg hgate now window
    exact congrArg finalState (bind_of_error he)
  | checkpointDataWindow now t maintenance =>
    -- With the mode and the feature on, the refused commit leads to the discard.
    obtain ⟨e, he⟩ := windowCommit_of_refused cfg hgate now t
    show finalState (checkpointDataWindow cfg now t maintenance v) = _
    unfold checkpointDataWindow
    by_cases hoff : cfg.mode ≠ .readWrite ∨ cfg.loggedDataUpdates = false
    · rw [if_pos hoff, if_neg (by grind [reachesDiscard])]
      rfl
    · rw [if_neg hoff, if_pos (by grind [reachesDiscard]), he]
      simp only [hn]
      rfl

theorem step_dev_of_refused (c : Call) : (step cfg v c).dev = v.dev := by
  rw [step_of_refused cfg hgate]
  split <;> rfl

end Refused

/-- Every call but an uncertain discard leaves a poisoned, uncertain volume as it is. -/
theorem step_of_poisoned (cfg : Config) {v : Volume} (hpoison : v.windowPoisoned = true) (hunc : v.uncertain = true)
    {c : Call} (hcareful : discardsUncertain cfg v c = false) : step cfg v c = v := by
  have hgate := ensureWritable_of_poisoned cfg hpoison
  rw [discardsUncertain_of_refused cfg hgate, hunc, Bool.true_and] at hcareful
  rw [step_of_refused cfg hgate, hcareful, if_neg Bool.false_ne_true]

/-- Started while no publication is uncertain, the computation keeps it so, or fails with the flag
set. -/
structure Keeps {α : Type} (x : VolumeM α) : Prop where
  ok : ∀ {v a v'}, v.uncertain = false → x v = .ok a v' → v'.uncertain = false
  error : ∀ {v e v'}, v.uncertain = false → x v = .error e v' → v'.uncertain = true →
    v'.windowPoisoned = true

attribute [class] Keeps

namespace Keeps

variable {α β : Type}

theorem andThen {x : VolumeM α} {f : α → VolumeM β} [hx : Keeps x] (hf : ∀ a, Keeps (f a)) : Keeps (x >>= f) where
  ok hv hrun := by
    obtain ⟨a, s, hxs, hfs⟩ := bind_eq_ok.mp hrun
    exact (hf a).ok (hx.ok hv hxs) hfs
  error hv hrun hbad := by
    obtain hxe | ⟨a, s, hxs, hfe⟩ := bind_eq_error.mp hrun
    · exact hx.error hv hxe hbad
    · exact (hf a).error (hx.ok hv hxs) hfe hbad

instance {x : VolumeM α} {f : α → VolumeM β} [Keeps x] [hf : ∀ a, Keeps (f a)] : Keeps (x >>= f) := andThen hf

theorem of_frame {x : VolumeM α} (hframe : ∀ v, (finalState (x v)).uncertain = v.uncertain) :
    Keeps x where
  ok {v a v'} hv hrun := by
    have := hframe v
    rw [hrun] at this
    exact this.trans hv
  error {v e v'} hv hrun hbad := by
    have := hframe v
    rw [hrun] at this
    exact absurd (hbad.symm.trans (this.trans hv)) (by simp)

instance (a : α) : Keeps (Pure.pure a : VolumeM α) := of_frame fun _ => rfl

instance : Keeps (MonadState.get : VolumeM Volume) := of_frame fun _ => rfl

instance (r : Except CoreError α) : Keeps (Fallible.lift r) := of_frame fun _ => by
  cases r <;> rfl

instance (p : Prop) [Decidable p] (e : CoreError) : Keeps (Fallible.require p e) := of_frame fun _ => by
  unfold Fallible.require
  split <;> rfl

instance (o : Option CoreError) : Keeps (Publication.refuse o) := of_frame fun _ => by
  cases o <;> rfl

end Keeps

open Keeps

theorem writeBlock_frame (lba : Lba) (block : Bytes) (v : Volume) :
    (finalState (writeBlock lba block v)).uncertain = v.uncertain ∧
      (finalState (writeBlock lba block v)).windowPoisoned = v.windowPoisoned := by
  unfold writeBlock
  cases v.dev.outcome v.dev.calls <;> exact ⟨rfl, rfl⟩

theorem flush_frame (v : Volume) :
    (finalState (flush v)).uncertain = v.uncertain ∧ (finalState (flush v)).windowPoisoned = v.windowPoisoned := by
  unfold flush
  cases v.dev.outcome v.dev.calls <;> exact ⟨rfl, rfl⟩

instance (lba : Lba) (block : Bytes) : Keeps (writeBlock lba block) :=
  of_frame fun v => (writeBlock_frame lba block v).1

instance : Keeps flush := of_frame fun v => (flush_frame v).1

instance (writes : List (Lba × Bytes)) : Keeps (writeEach writes) := by
  induction writes with
  | nil => exact inferInstanceAs (Keeps (pure ()))
  | cons w rest ih => exact .andThen fun _ => ih

instance {x : VolumeM Unit} [hx : Keeps x] : Keeps (poisonOnError x) where
  ok {v a v'} hv hrun := by
    unfold poisonOnError at hrun
    cases hxv : x v with
    | ok u s =>
        rw [hxv] at hrun
        cases hrun
        exact hx.ok hv hxv
    | error e s =>
        rw [hxv] at hrun
        cases hrun
  error {v e v'} hv hrun _ := by
    unfold poisonOnError at hrun
    cases hxv : x v with
    | ok u s =>
        rw [hxv] at hrun
        cases hrun
    | error e' s =>
        rw [hxv] at hrun
        cases hrun
        rfl

/-- The checkpoint write fails only into an uncertain state, and keeps the flag it found. -/
theorem publishCheckpoint_cases (cfg : Config) (block : Bytes) (v : Volume) :
    (∃ v', publishCheckpoint cfg block v = .ok () v' ∧ v'.uncertain = v.uncertain) ∨
      ∃ e v', publishCheckpoint cfg block v = .error e v' ∧ v'.uncertain = true ∧
        v'.windowPoisoned = v.windowPoisoned := by
  have hw := writeBlock_frame (cfg.checkpointSlots (1 - v.currentSlot)) block v
  unfold publishCheckpoint
  cases hwrite : writeBlock (cfg.checkpointSlots (1 - v.currentSlot)) block v with
  | error e s =>
    rw [hwrite] at hw
    refine .inr ⟨e, { s with uncertain := true }, ?_, rfl, hw.2⟩
    simp only [bind_of_error hwrite]
  | ok u s =>
    rw [hwrite] at hw
    have hf := flush_frame s
    cases hflush : flush s with
    | error e s' =>
      rw [hflush] at hf
      refine .inr ⟨e, { s' with uncertain := true }, ?_, rfl, hf.2.trans hw.2⟩
      simp only [bind_of_ok hwrite, hflush]
    | ok u' s' =>
      rw [hflush] at hf
      refine .inl ⟨s', ?_, hf.1.trans hw.1⟩
      simp only [bind_of_ok hwrite, hflush]

variable (cfg : Config)

instance (block : Bytes) (adopts : Bool) : Keeps (publishAndAdopt cfg block adopts) := by
  have htail : Keeps (do
      require (adopts = true) (.corrupt "published roots do not load")
      modify fun v => { v with currentSlot := 1 - v.currentSlot, windowPoisoned := false } :
        VolumeM Unit) :=
    .andThen fun _ => of_frame fun _ => rfl
  constructor
  · intro v a v' hv hrun
    obtain ⟨_, s, hset, hrest⟩ := bind_eq_ok.mp hrun
    obtain rfl := modify_eq_ok.mp hset
    obtain ⟨_, s', hpub, htl⟩ := bind_eq_ok.mp hrest
    refine htail.ok ?_ htl
    obtain ⟨s'', hok, hs''⟩ | ⟨e, s'', herr, _⟩ :=
      publishCheckpoint_cases cfg block { v with windowPoisoned := true }
    · cases hok.symm.trans hpub
      exact hs''.trans hv
    · cases herr.symm.trans hpub
  · intro v e v' hv hrun hbad
    obtain hset | ⟨_, s, hset, hrest⟩ := bind_eq_error.mp hrun
    · exact (modify_eq_error.mp hset).elim
    obtain rfl := modify_eq_ok.mp hset
    obtain ⟨s'', hok, hs''⟩ | ⟨e', s'', herr, _, hflag⟩ :=
      publishCheckpoint_cases cfg block { v with windowPoisoned := true }
    · rw [bind_of_ok hok] at hrest
      exact htail.error (hs''.trans hv) hrest hbad
    · rw [bind_of_error herr] at hrest
      cases hrest
      exact hflag

instance (t : Transaction) : Keeps (commitTransactionBody cfg t) := by
  refine .andThen fun _ => .andThen fun _ => .andThen fun _ => ?_
  dsimp only
  split <;> infer_instance

instance (ts : List Transaction) : Keeps (runTransactions cfg ts) := by
  induction ts with
  | nil => exact inferInstanceAs (Keeps (pure ()))
  | cons t rest ih => exact .andThen fun _ => ih

instance : Keeps (ensureWritable cfg) := by
  unfold ensureWritable
  infer_instance

instance : Keeps (ensureWindowClosed cfg) := by
  unfold ensureWindowClosed
  infer_instance

instance (ts : List Transaction) : Keeps (immediate cfg ts) := by
  unfold immediate
  infer_instance

instance : Keeps (sync cfg) := by
  unfold sync
  split <;> infer_instance

instance (call : WindowCall) : Keeps (windowCall cfg call) := by
  have hstage : Keeps (stageInWindow call) := .andThen fun _ => inferInstance
  have htake : Keeps (takeOrOpenWindow cfg) := .andThen fun _ => .andThen fun _ => inferInstance
  refine .andThen fun _ => .andThen fun window => ?_
  constructor
  · intro v a v' hv hrun
    unfold settleWindow at hrun
    cases hbody : stageInWindow call v with
    | ok window' s =>
        rw [hbody] at hrun
        cases hrun
        have hcertain := hstage.ok hv hbody
        exact hcertain
    | error e s =>
        simp only [hbody] at hrun
        split at hrun <;> cases hrun
  · intro v e v' hv hrun hbad
    unfold settleWindow at hrun
    cases hbody : stageInWindow call v with
    | ok window' s =>
        rw [hbody] at hrun
        cases hrun
    | error e' s =>
        simp only [hbody] at hrun
        split at hrun <;> cases hrun
        · have hflag := hstage.error hv hbody hbad
          exact hflag
        · rfl

instance (call : FsyncCall) : Keeps (windowFsync cfg call) := by
  have hset : ∀ window, Keeps (modify fun v => { v with window := window } : VolumeM Unit) :=
    fun _ => of_frame fun _ => rfl
  refine .andThen fun _ => .andThen fun v => ?_
  cases v.window with
  | none => infer_instance
  | some window =>
      refine .andThen fun _ => ?_
      dsimp only
      split
      · infer_instance
      · split <;> infer_instance

instance (now : Timespec) (t : Option Transaction) : Keeps (windowCommit cfg now t) := by
  refine .andThen fun _ => .andThen fun _ => .andThen fun v => ?_
  cases v.window with
  | none => infer_instance
  | some window =>
      refine @andThen _ _ _ _ (of_frame fun _ => rfl) fun _ => ?_
      cases t <;> infer_instance

instance (now : Timespec) (window : Option Transaction) (ts : List Transaction) :
    Keeps (snapshotChange cfg now window ts) := .andThen fun _ => inferInstance

/-! ### Runs -/

/-- While a publication is uncertain the flag is set. -/
def Guarded (v : Volume) : Prop := v.uncertain = true → v.windowPoisoned = true

variable {v : Volume}

theorem Keeps.guarded {α : Type} (x : VolumeM α) [hx : Keeps x] (hv : v.uncertain = false) : Guarded (finalState (x v)) := by
  cases hrun : x v with
  | ok a v' =>
    intro hbad
    exact absurd (hbad.symm.trans (hx.ok hv hrun)) (by simp)
  | error e v' => exact hx.error hv hrun

theorem immediate_guarded (ts : List Transaction) (hv : Guarded v) : Guarded (finalState (immediate cfg ts v)) := by
  cases hunc : v.uncertain with
  | false => exact guarded _ hunc
  | true =>
    obtain ⟨e, he⟩ := immediate_of_refused cfg (ensureWritable_of_poisoned cfg (hv hunc)) ts
    rw [he]
    exact hv

theorem afterWindowCommit_guarded (maintenance : List (List Transaction))
    (hv : Guarded v) : Guarded (afterWindowCommit cfg maintenance v) := by
  induction maintenance generalizing v with
  | nil => exact hv
  | cons ts rest ih => exact ih (immediate_guarded cfg ts hv)

theorem checkpointDataWindow_guarded (now : Timespec) (t : Option Transaction)
    (maintenance : List (List Transaction)) (hv : v.uncertain = false)
    (hcareful : discardsUncertain cfg v (.checkpointDataWindow now t maintenance) = false) :
    Guarded (finalState (checkpointDataWindow cfg now t maintenance v)) := by
  unfold checkpointDataWindow
  split
  · intro hbad
    exact absurd (hbad.symm.trans hv) (by simp)
  · rename_i hon
    have hcommit := guarded (windowCommit cfg now t) hv
    cases hrun : windowCommit cfg now t v with
    | ok u v' =>
      rw [hrun] at hcommit
      exact afterWindowCommit_guarded cfg maintenance hcommit
    | error e v' =>
      have hcertain : v'.uncertain = false := by
        push Not at hon
        simpa [discardsUncertain, hrun, hon.1, hon.2] using hcareful
      intro hbad
      unfold windowDiscard at hbad
      cases hwindow : v'.window <;> simp [hwindow, finalState, hcertain] at hbad

variable {cfg}

theorem step_guarded {c : Call} (hv : Guarded v)
    (hcareful : discardsUncertain cfg v c = false) : Guarded (step cfg v c) := by
  cases hunc : v.uncertain with
  | true =>
    rw [step_of_poisoned cfg (hv hunc) hunc hcareful]
    exact hv
  | false =>
    cases c with
    | immediate ts => exact guarded _ hunc
    | sync => exact guarded _ hunc
    | window call => exact guarded _ hunc
    | fsync call => exact guarded _ hunc
    | commit now t => exact guarded _ hunc
    | discard =>
      refine @guarded _ _ _ (of_frame fun v => ?_) hunc
      unfold windowDiscard
      split <;> rfl
    | snapshot now window ts => exact guarded (snapshotChange cfg now window ts) hunc
    | checkpointDataWindow now t maintenance =>
      exact checkpointDataWindow_guarded cfg now t maintenance hunc hcareful

theorem run_guarded {calls : List Call} (hv : Guarded v)
    (hcareful : Careful cfg v calls) : Guarded (run cfg v calls) := by
  induction calls generalizing v with
  | nil => exact hv
  | cons c rest ih => exact ih (step_guarded hv hcareful.1) hcareful.2

theorem run_of_uncertain {calls : List Call} (hv : Guarded v)
    (hunc : v.uncertain = true) (hcareful : Careful cfg v calls) : run cfg v calls = v := by
  induction calls with
  | nil => rfl
  | cons c rest ih =>
    have hstep := step_of_poisoned cfg (hv hunc) hunc hcareful.1
    have hrest := hcareful.2
    rw [hstep] at hrest
    show run cfg (step cfg v c) rest = v
    rw [hstep]
    exact ih hrest

theorem careful_append {first second : List Call} :
    Careful cfg v (first ++ second) ↔ Careful cfg v first ∧ Careful cfg (run cfg v first) second := by
  induction first generalizing v with
  | nil => simp [Careful, run]
  | cons c rest ih =>
    show (_ ∧ Careful cfg (step cfg v c) (rest ++ second)) ↔ (_ ∧ _) ∧ _
    rw [ih, and_assoc]
    rfl

theorem step_of_discardsUncertain (hpoison : v.windowPoisoned = true)
    {c : Call} (hdiscard : discardsUncertain cfg v c = true) :
    step cfg v c = { v with window := none, windowPoisoned := false } := by
  have hgate := ensureWritable_of_poisoned cfg hpoison
  rw [discardsUncertain_of_refused cfg hgate, Bool.and_eq_true] at hdiscard
  rw [step_of_refused cfg hgate, if_pos hdiscard.2]

/-- A transaction that writes one block ahead and is then refused. -/
def probe : Transaction := ⟨[(0, [])], some .noSpace, [], [], .ok [], true⟩

theorem writeBlock_issued (lba : Lba) (block : Bytes) (v : Volume) :
    (finalState (writeBlock lba block v)).dev.issued = v.dev.issued ++ [(lba, block)] := by
  unfold writeBlock
  cases v.dev.outcome v.dev.calls <;> rfl

theorem ensureWindowClosed_of_ready (hmode : cfg.mode = .readWrite)
    (hpoison : v.windowPoisoned = false) (hwindow : v.window = none) : ensureWindowClosed cfg v = .ok () v := by
  have hmode' : cfg.mode.allowsUserWrites = true := by simp [MountMode.allowsUserWrites, hmode]
  have hgate : ensureWritable cfg v = .ok () v := (bind_of_ok (require_of hmode' _ v)).trans
      ((bind_of_ok (get_eq_ok.mpr ⟨rfl, rfl⟩)).trans (require_of hpoison _ v))
  exact (bind_of_ok hgate).trans ((bind_of_ok (get_eq_ok.mpr ⟨rfl, rfl⟩)).trans (require_of hwindow _ v))

theorem step_probe_issued (hmode : cfg.mode = .readWrite)
    (hpoison : v.windowPoisoned = false) (hwindow : v.window = none) :
    (step cfg v (.immediate [probe])).dev.issued = v.dev.issued ++ [(0, [])] := by
  have hgate := ensureWindowClosed_of_ready hmode hpoison hwindow
  have hissued := writeBlock_issued 0 [] v
  have hend : finalState (immediate cfg [probe] v) = finalState (writeBlock 0 [] v) := by
    cases hwrite : writeBlock 0 [] v with
    | error e s =>
      have hrun : immediate cfg [probe] v = .error e s :=
        (bind_of_ok hgate).trans (bind_of_error (bind_of_error (bind_of_error hwrite)))
      rw [hrun]
    | ok u s =>
      have hearly : writeEach probe.early v = .ok () s := bind_of_ok hwrite
      have hrun : immediate cfg [probe] v = .error .noSpace s := (bind_of_ok hgate).trans
          (bind_of_error ((bind_of_ok hearly).trans (bind_of_error rfl)))
      rw [hrun]
      rfl
  show (finalState (immediate cfg [probe] v)).dev.issued = _
  rw [hend, hissued]

/-- Once the write or flush of a checkpoint has failed, a run that never discards a window in that
state issues no further write, and at every point of it the calls after which some operation writes
again are exactly the uncertain discards. -/
theorem uncertain_publication_freezes_volume {cfg : Config} (hmode : cfg.mode = .readWrite)
    {v : Volume} (hfresh : v.uncertain = false) (before later : List Call)
    (hcareful : Careful cfg v (before ++ later)) (huncertain : (run cfg v before).uncertain = true) :
    (run cfg v (before ++ later)).dev.issued = (run cfg v before).dev.issued ∧
      ∀ c, discardsUncertain cfg (run cfg v (before ++ later)) c = true ↔
        ∃ next, (step cfg (step cfg (run cfg v (before ++ later)) c) next).dev.issued ≠
          (run cfg v (before ++ later)).dev.issued := by
  obtain ⟨hbefore, hlater⟩ := careful_append.mp hcareful
  have hstart : Guarded v := fun hbad => absurd (hbad.symm.trans hfresh) (by simp)
  have hguard := run_guarded hstart hbefore
  have hfrozen : run cfg v (before ++ later) = run cfg v before := by
    rw [run, List.foldl_append]
    exact run_of_uncertain hguard huncertain hlater
  have hpoison := hguard huncertain
  rw [hfrozen]
  refine ⟨rfl, fun c => ⟨fun hdiscard => ?_, fun ⟨next, hnext⟩ => ?_⟩⟩
  · refine ⟨.immediate [probe], ?_⟩
    rw [step_of_discardsUncertain hpoison hdiscard, step_probe_issued hmode rfl rfl]
    simp
  · by_contra hkeep
    have hsame := step_of_poisoned cfg hpoison huncertain (Bool.eq_false_iff.mpr hkeep)
    rw [hsame, step_dev_of_refused cfg (ensureWritable_of_poisoned cfg hpoison)] at hnext
    exact hnext rfl

def writableConfig : Config := ⟨.readWrite, true, fun slot => slot.val + 1⟩

/-- A new mount whose device reports an error on one call after carrying it out. -/
def mountFailing (call : Nat) : Volume where
  dev := ⟨⟨fun _ => [], []⟩, 0, fun n => if n = call then .landed else .done, []⟩
  currentSlot := 0
  window := none
  windowPoisoned := false
  uncertain := false

def publishing (lba : Lba) (block checkpoint : Bytes) : Transaction :=
  ⟨[], none, [], [(lba, block)], .ok checkpoint, true⟩

theorem uncertain_publication_freezes_volume_failed_flush :
    (run writableConfig (mountFailing 3) ([.immediate [publishing 21 [2] [9]]] ++
        [.sync])).dev.issued = [(21, [2]), (2, [9])] := by
  have h := (@uncertain_publication_freezes_volume writableConfig rfl
    (mountFailing 3) rfl [.immediate [publishing 21 [2] [9]]] [.sync]
    ⟨rfl, rfl, trivial⟩ rfl).1
  exact h.trans rfl

/-- The wrapper's own path. A staged write is committed, the flush of the new checkpoint fails after
the checkpoint became durable in slot B, the wrapper discards the window, and the next operation
overwrites block 21, which that checkpoint refers to. -/
theorem wrapper_writes_after_uncertain_publication :
    let calls : List Call :=
      [.window ⟨.data false, none, [(20, [1])], .ok ⟨0, 1, false⟩⟩, .checkpointDataWindow ⟨0, 0⟩ (some (publishing 21 [2] [9])) []]
    let v := run writableConfig (mountFailing 4) calls
    v.uncertain = true ∧ v.dev.disk.durable 2 = [9] ∧ v.dev.disk.durable 21 = [2] ∧
      (step writableConfig v (.immediate [publishing 21 [7] [8]])).dev.issued =
        v.dev.issued ++ [(21, [7]), (2, [8])] ∧
      (step writableConfig v (.immediate [publishing 21 [7] [8]])).dev.disk.durable 21 = [7] := by
  decide

end Afsplus.Publication
