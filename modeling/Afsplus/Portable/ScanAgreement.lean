import Mathlib.Data.List.TakeWhile
import Afsplus.Portable.LogSlots
import Afsplus.Portable.ScanContent

/-!
# The portable reader: its log scan against the Rust one

Both scans take the longest prefix of records that decode, are bound to the checkpoint, stand in
sequence and verify. They order the tests of one record differently. The Rust scan looks through the
whole record for updates that the volume has no feature for, and fails, before it checks any content;
the C scan takes the operations one by one, and ends the log at an operation whose content does not
verify without looking at those behind it. They also differ in when they compute the slots: the Rust
scan all of them first, the C scan one at a time. `slotVerdict` says what a slot means to both, and
where the order shows.
-/

namespace Afsplus.Portable

open Wire Fallible List LogRecord

variable {dev : Device} {volume : Volume} {blocks : Lba → Bytes}

inductive SlotVerdict where
  /-- A record of the prefix. -/
  | accepted (record : LogRecord)
  /-- Nothing usable: the log ends here. -/
  | ended
  /-- A record with an update that the volume has no feature for. -/
  | refused
  /-- Such a record, with an operation in front of the update whose content does not verify. -/
  | hidden
  deriving DecidableEq

def usedExtents (records : List LogRecord) : List LogExtent :=
  (records.flatMap ops).flatMap LogOp.dataExtents

/-- The meaning of a slot's block behind the accepted `records`. -/
def slotVerdict (blocks : Lba → Bytes) (volume : Volume) (records : List LogRecord) (lba : Lba) :
    SlotVerdict :=
  match decode (blocks lba) with
  | .error _ => .ended
  | .ok record =>
    if record.uuid ≠ volume.uuid ∨ record.baseGeneration ≠ volume.generation ∨
        record.sequence ≠ records.length + 1 then .ended
    else
      match IntentLog.verifyOps blocks volume.geo record.sequence
          (record.ops.takeWhile (supports volume)) (spans (usedExtents records)),
        record.ops.all (supports volume) with
      | .ok _, true => .accepted record
      | .error _, true => .ended
      | .ok _, false => .refused
      | .error _, false => .hidden

private theorem scanRecord_verdict (hread : Readable dev volume blocks)
    (hsize : volume.geo.blockSize = defaultBlockSize) {lba : Lba}
    (hlba : lba < volume.geo.totalBlocks) (records : List LogRecord) (known : Bool) :
    match slotVerdict blocks volume records lba with
    | .accepted record => ∃ known', scanRecord dev volume records lba known = .ok (record, known')
    | .refused => scanRecord dev volume records lba known = .error (.failed .corrupt)
    | _ => ∃ state block known', scanRecord dev volume records lba known
        = .error (.tail state block known') := by
  unfold scanRecord slotVerdict
  rw [hread lba hlba]
  dsimp only
  cases hdec : decode (blocks lba) with
  | error e =>
    cases hport : decodeLogRecord (blocks lba) with
    | error status => exact ⟨_, _, _, rfl⟩
    | ok record => rw [decodeLogRecord_eq_ok.mp hport] at hdec; cases hdec
  | ok record =>
    rw [decodeLogRecord_eq_ok.mpr hdec]
    dsimp only
    by_cases hbind : record.uuid ≠ volume.uuid ∨ record.baseGeneration ≠ volume.generation
    · rw [if_pos hbind, if_pos (or_assoc.mp (.inl hbind))]
      exact ⟨_, _, _, rfl⟩
    by_cases hseq : record.sequence ≠ records.length + 1
    · rw [if_neg hbind, if_pos hseq, if_pos (.inr (.inr hseq))]
      exact ⟨_, _, _, rfl⟩
    rw [if_neg hbind, if_neg hseq, if_neg (fun h => (or_assoc.mpr h).elim hbind hseq)]
    obtain ⟨known', hscan, hall, hops⟩ | ⟨hscan, hall, _, hops⟩ | ⟨⟨state, block, known', hscan⟩, _, hops⟩ :=
      scanOperations_cases hread hsize (decode_decoded hdec) lba record.sequence (usedExtents records) known
    · rw [hops, hall]
      dsimp only
      rw [← usedExtents, hscan]
      exact ⟨known', rfl⟩
    · rw [hops, hall]
      dsimp only
      rw [← usedExtents, hscan]
    · rw [hops, ← usedExtents, hscan]
      cases record.ops.all (supports volume) <;> exact ⟨_, _, _, rfl⟩

private theorem all_supports_eq_false {ops : List LogOp} : ops.all (supports volume) = false ↔
    volume.intentLogDataUpdates = false ∧ ops.any LogOp.isExistingFileUpdate = true := by
  rw [all_eq_false, any_eq_true]
  simp only [supports, Bool.or_eq_true, Bool.not_eq_true', not_or, Bool.not_eq_false, Bool.not_eq_true]
  constructor
  · rintro ⟨op, hmem, hupdate, hmissing⟩
    exact ⟨hmissing, op, hmem, hupdate⟩
  · rintro ⟨hmissing, op, hmem, hupdate⟩
    exact ⟨op, hmem, hupdate, hmissing⟩

private theorem takeWhile_supports {ops : List LogOp} (h : ops.all (supports volume) = true) :
    ops.takeWhile (supports volume) = ops :=
  takeWhile_eq_self_iff.mpr (all_eq_true.mp h)

private theorem usedExtents_concat (records : List LogRecord) (record : LogRecord) :
    usedExtents (records ++ [record]) = usedExtents records ++ record.ops.flatMap LogOp.dataExtents := by
  simp [usedExtents]

/-- The Rust scan of a volume from a slot on, behind the accepted `records`. -/
def rustScanFrom (blocks : Lba → Bytes) (volume : Volume) (records : List LogRecord)
    (slots : List Lba) : Except CoreError IntentLog.ScannedLog :=
  IntentLog.scanSlots blocks volume.geo volume.uuid volume.generation volume.intentLogDataUpdates
    records.length slots (spans (usedExtents records))

private theorem rustScanFrom_verdict (hread : Readable dev volume blocks)
    (hsize : volume.geo.blockSize = defaultBlockSize) (records : List LogRecord) (lba : Lba) (rest : List Lba) :
    match slotVerdict blocks volume records lba with
    | .accepted record => rustScanFrom blocks volume records (lba :: rest)
        = (rustScanFrom blocks volume (records ++ [record]) rest).map
          fun scanned => ⟨record :: scanned.records, scanned.tailNote⟩
    | .ended => ∃ note, rustScanFrom blocks volume records (lba :: rest) = .ok ⟨[], note⟩
    | _ => ∃ e, rustScanFrom blocks volume records (lba :: rest) = .error e := by
  unfold rustScanFrom slotVerdict
  rw [IntentLog.scanSlots]
  cases hdec : decode (blocks lba) with
  | error e => exact ⟨_, rfl⟩
  | ok record =>
    dsimp only
    by_cases hbind : record.uuid ≠ volume.uuid ∨ record.baseGeneration ≠ volume.generation
    · rw [if_pos hbind, if_pos (or_assoc.mp (.inl hbind))]
      exact ⟨_, rfl⟩
    by_cases hseq : record.sequence ≠ records.length + 1
    · rw [if_neg hbind, if_pos hseq, if_pos (.inr (.inr hseq))]
      exact ⟨_, rfl⟩
    rw [if_neg hbind, if_neg hseq, if_neg (fun h => (or_assoc.mpr h).elim hbind hseq), IntentLog.verifyRecordContents]
    cases hall : record.ops.all (supports volume) with
    | false =>
      rw [if_pos (all_supports_eq_false.mp hall)]
      cases IntentLog.verifyOps blocks volume.geo record.sequence
        (record.ops.takeWhile (supports volume)) (spans (usedExtents records)) <;> exact ⟨_, rfl⟩
    | true =>
      have hfeature : ¬(volume.intentLogDataUpdates = false ∧ record.ops.any LogOp.isExistingFileUpdate = true) := by
        rw [← all_supports_eq_false, hall]
        decide
      rw [if_neg hfeature, takeWhile_supports hall]
      obtain ⟨_, -, -, hops⟩ | ⟨-, hnone, -⟩ | ⟨-, reason, hops⟩ :=
        scanOperations_cases hread hsize (decode_decoded hdec) lba record.sequence
          (usedExtents records) true
      · rw [takeWhile_supports hall] at hops
        rw [hops]
        dsimp only
        rw [length_append, length_singleton, usedExtents_concat]
        cases IntentLog.scanSlots blocks volume.geo volume.uuid volume.generation
          volume.intentLogDataUpdates (records.length + 1) rest
          (spans (usedExtents records ++ record.ops.flatMap LogOp.dataExtents)) <;> rfl
      · rw [hall] at hnone
        cases hnone
      · rw [takeWhile_supports hall] at hops
        rw [hops]
        exact ⟨_, rfl⟩

/-! ### Runs over the slots -/

/-- The records of the slots in front, all accepted. -/
inductive Reached (blocks : Lba → Bytes) (volume : Volume) : List LogRecord → Prop where
  | nil : Reached blocks volume []
  | concat {records : List LogRecord} {lba : Lba} {record : LogRecord}
      (hreached : Reached blocks volume records)
      (hslot : logSlotLba volume records.length = .ok lba)
      (hverdict : slotVerdict blocks volume records lba = .accepted record) :
      Reached blocks volume (records ++ [record])

variable {records : List LogRecord}

theorem Reached.length_le (h : Reached blocks volume records) : records.length ≤ volume.logSlots := by
  induction h with
  | nil => exact Nat.zero_le _
  | concat _ hslot _ _ =>
    rw [length_append]
    exact slot_lt_of_logSlotLba hslot

private theorem exists_last_reached (blocks : Lba → Bytes) (volume : Volume) :
    ∃ records, Reached blocks volume records ∧ ∀ lba, logSlotLba volume records.length = .ok lba →
      ∀ record, slotVerdict blocks volume records lba ≠ .accepted record := by
  suffices hextend : ∀ left records, Reached blocks volume records →
      volume.logSlots - records.length = left → ∃ records', Reached blocks volume records' ∧
        ∀ lba, logSlotLba volume records'.length = .ok lba →
          ∀ record, slotVerdict blocks volume records' lba ≠ .accepted record from
    hextend _ [] .nil rfl
  intro left
  induction left with
  | zero =>
    intro records hreached hleft
    refine ⟨records, hreached, fun lba hslot => ?_⟩
    have hlt := slot_lt_of_logSlotLba hslot
    omega
  | succ left ih =>
    intro records hreached hleft
    by_cases hnext : ∃ lba record, logSlotLba volume records.length = .ok lba ∧
        slotVerdict blocks volume records lba = .accepted record
    · obtain ⟨lba, record, hslot, hverdict⟩ := hnext
      refine ih (records ++ [record]) (hreached.concat hslot hverdict) ?_
      rw [length_append, length_singleton]
      omega
    · exact ⟨records, hreached, fun lba hslot record hverdict =>
        hnext ⟨lba, record, hslot, hverdict⟩⟩

private theorem scanSlots_of_reached (hread : Readable dev volume blocks) (hval : volume.geo.Valid)
    (h : Reached blocks volume records) :
    ∃ known, scanSlots dev volume volume.logSlots [] true
      = scanSlots dev volume (volume.logSlots - records.length) records known := by
  induction h with
  | nil => exact ⟨true, rfl⟩
  | @concat records lba record _ hslot hverdict ih =>
    obtain ⟨known, hscan⟩ := ih
    have hlt := slot_lt_of_logSlotLba hslot
    have hstep := scanRecord_verdict hread hval.blockSize (logSlotLba_lt hval hslot) records known
    rw [hverdict] at hstep
    obtain ⟨known', hrec⟩ := hstep
    refine ⟨known', ?_⟩
    rw [hscan, show volume.logSlots - records.length = volume.logSlots - (records.length + 1) + 1 by
      omega, scanSlots, hslot, length_append, length_singleton]
    dsimp only
    rw [hrec]

variable {slots : List Lba}

private theorem drop_slots (hval : volume.geo.Valid)
    (hslots : volume.geo.intentLogSlotLbas volume.logSlots = .ok slots) {slot : Nat} {lba : Lba}
    (hslot : logSlotLba volume slot = .ok lba) : slots.drop slot = lba :: slots.drop (slot + 1) := by
  obtain ⟨hlt, hget⟩ := List.getElem?_eq_some_iff.mp ((logSlotLba_of_slots hval hslots).mp hslot)
  rw [drop_eq_getElem_cons hlt, hget]

private theorem rustScan_of_reached (hread : Readable dev volume blocks) (hval : volume.geo.Valid)
    (hslots : volume.geo.intentLogSlotLbas volume.logSlots = .ok slots) (h : Reached blocks volume records) :
    rustScanFrom blocks volume [] slots = (rustScanFrom blocks volume records (slots.drop records.length)).map
        fun scanned => ⟨records ++ scanned.records, scanned.tailNote⟩ := by
  induction h with
  | nil =>
    rw [length_nil, drop_zero]
    cases rustScanFrom blocks volume [] slots <;> rfl
  | @concat records lba record _ hslot hverdict ih =>
    have hstep := rustScanFrom_verdict hread hval.blockSize records lba (slots.drop (records.length + 1))
    rw [hverdict] at hstep
    rw [ih, drop_slots hval hslots hslot, hstep, length_append, length_singleton]
    cases rustScanFrom blocks volume (records ++ [record]) (slots.drop (records.length + 1)) with
    | error e => rfl
    | ok scanned => simp only [Except.map, append_assoc, singleton_append]

def rustScan (blocks : Lba → Bytes) (volume : Volume) : Except CoreError IntentLog.ScannedLog :=
  IntentLog.scan blocks volume.geo volume.logSlots volume.uuid volume.generation
    volume.intentLogDataUpdates

/-- Both scans fail, or both accept the same records. -/
def ScansAgree (portable : Except Status View) (rust : Except CoreError IntentLog.ScannedLog) :
    Prop :=
  match portable, rust with
  | .error _, .error _ => True
  | .ok view, .ok scanned => view.records = scanned.records
  | _, _ => False

private theorem not_scansAgree_error {portable : Except Status View}
    {rust : Except CoreError IntentLog.ScannedLog} {view : View} {e : CoreError}
    (hport : portable = .ok view) (hrust : rust = .error e) : ¬ScansAgree portable rust := by
  rw [hport, hrust]
  exact id

private theorem rustScan_of_slots (hslots : volume.geo.intentLogSlotLbas volume.logSlots = .ok slots) :
    rustScan blocks volume = rustScanFrom blocks volume [] slots := by
  rw [rustScan, IntentLog.scan, IntentLog.logSlotLbas, hslots]
  rfl

private theorem rustScan_of_not_fits (h : ¬LogFits volume) : ∃ e, rustScan blocks volume = .error e := by
  rw [rustScan, IntentLog.scan, IntentLog.logSlotLbas]
  cases hslots : volume.geo.intentLogSlotLbas volume.logSlots with
  | error e => exact ⟨_, rfl⟩
  | ok slots => exact absurd ⟨slots, hslots⟩ h

private theorem valid_of_prepare (h : prepareOperation dev volume = .ok ()) : volume.geo.Valid := by
  have hgeom := refuseIf_eq_ok.mp h
  simp only [not_or, Bool.not_eq_false, geometryValid, Bool.and_eq_true] at hgeom
  obtain ⟨u, hvalidate⟩ : ∃ u, volume.geo.validate = .ok u := by
    cases hvalidate : volume.geo.validate with
    | error e =>
      rw [hvalidate] at hgeom
      exact absurd hgeom.2.2.2.1 Bool.false_ne_true
    | ok u => exact ⟨u, rfl⟩
  exact Geometry.valid_of_validate hvalidate

private theorem scanIntentLog_of_slots (hprep : prepareOperation dev volume = .ok ()) (hslots : volume.logSlots ≠ 0) :
    scanIntentLog dev volume = scanSlots dev volume volume.logSlots [] true := by
  rw [scanIntentLog, hprep]
  exact if_neg hslots

section Reached

variable (hprep : prepareOperation dev volume = .ok ()) (hread : Readable dev volume blocks)
  {records : List LogRecord} (hreached : Reached blocks volume records)
include hprep hread hreached

variable {lba : Lba}

private theorem scanIntentLog_at_slot (hslot : logSlotLba volume records.length = .ok lba) :
    match slotVerdict blocks volume records lba with
    | .accepted _ => True
    | .refused => ∃ status, scanIntentLog dev volume = .error status
    | _ => ∃ view, scanIntentLog dev volume = .ok view ∧ view.records = records := by
  have hval := valid_of_prepare hprep
  have hlt := slot_lt_of_logSlotLba hslot
  obtain ⟨known, hscan⟩ := scanSlots_of_reached hread hval hreached
  have hstep := scanRecord_verdict hread hval.blockSize (logSlotLba_lt hval hslot) records known
  rw [scanIntentLog_of_slots hprep (by omega), hscan,
    show volume.logSlots - records.length = volume.logSlots - (records.length + 1) + 1 by omega]
  cases hverdict : slotVerdict blocks volume records lba with
  | accepted record => trivial
  | refused =>
    rw [hverdict] at hstep
    rw [scanSlots, hslot]
    dsimp only
    rw [hstep]
    exact ⟨_, rfl⟩
  | ended | hidden =>
    rw [hverdict] at hstep
    obtain ⟨state, block, known', hrec⟩ := hstep
    exact ⟨_, scanSlots_of_stop hslot hrec, rfl⟩

private theorem scanIntentLog_at_end {status : Status}
    (hslot : logSlotLba volume records.length = .error status) (hslots : volume.logSlots ≠ 0) :
    if records.length = volume.logSlots then
      ∃ view, scanIntentLog dev volume = .ok view ∧ view.records = records
    else ∃ status, scanIntentLog dev volume = .error status := by
  have hle := hreached.length_le
  obtain ⟨known, hscan⟩ := scanSlots_of_reached hread (valid_of_prepare hprep) hreached
  rw [scanIntentLog_of_slots hprep hslots, hscan]
  split
  · rename_i hfull
    rw [hfull, Nat.sub_self]
    exact ⟨_, rfl, rfl⟩
  · rw [show volume.logSlots - records.length = volume.logSlots - (records.length + 1) + 1 by omega,
      scanSlots, hslot]
    exact ⟨_, rfl⟩

private theorem rustScan_at_slot {slots : List Lba}
    (hslots : volume.geo.intentLogSlotLbas volume.logSlots = .ok slots)
    (hslot : logSlotLba volume records.length = .ok lba) :
    match slotVerdict blocks volume records lba with
    | .accepted _ => True
    | .ended => ∃ scanned, rustScan blocks volume = .ok scanned ∧ scanned.records = records
    | _ => ∃ e, rustScan blocks volume = .error e := by
  have hval := valid_of_prepare hprep
  have hstep := rustScanFrom_verdict hread hval.blockSize records lba (slots.drop (records.length + 1))
  rw [rustScan_of_slots hslots, rustScan_of_reached hread hval hslots hreached, drop_slots hval hslots hslot]
  cases hverdict : slotVerdict blocks volume records lba with
  | accepted record => trivial
  | ended =>
    rw [hverdict] at hstep
    obtain ⟨note, hstop⟩ := hstep
    rw [hstop]
    exact ⟨_, rfl, append_nil records⟩
  | refused | hidden =>
    rw [hverdict] at hstep
    obtain ⟨e, hstop⟩ := hstep
    rw [hstop]
    exact ⟨e, rfl⟩

private theorem rustScan_at_unsupported (hslot : logSlotLba volume records.length = .ok lba)
    (hverdict : slotVerdict blocks volume records lba = .refused ∨
      slotVerdict blocks volume records lba = .hidden) : ∃ e, rustScan blocks volume = .error e := by
  by_cases hfits : LogFits volume
  · obtain ⟨slots, hslots⟩ := hfits
    have hrust := rustScan_at_slot hprep hread hreached hslots hslot
    obtain hverdict | hverdict := hverdict
    · rwa [hverdict] at hrust
    · rwa [hverdict] at hrust
  · exact rustScan_of_not_fits hfits

private theorem rustScan_at_end {slots : List Lba} (hslots : volume.geo.intentLogSlotLbas volume.logSlots = .ok slots)
    (hfull : records.length = volume.logSlots) :
    ∃ scanned, rustScan blocks volume = .ok scanned ∧ scanned.records = records := by
  have hdrop : slots.drop records.length = [] := by
    rw [hfull, ← Geometry.length_logSlots hslots, drop_length]
  rw [rustScan_of_slots hslots, rustScan_of_reached hread (valid_of_prepare hprep) hslots hreached, hdrop]
  exact ⟨_, rfl, append_nil records⟩

end Reached

private theorem Reached.logFits (hval : volume.geo.Valid)
    (h : Reached blocks volume records) (hfull : records.length = volume.logSlots)
    (hslots : volume.logSlots ≠ 0) : LogFits volume := by
  cases h with
  | nil => exact absurd hfull.symm hslots
  | @concat records lba record _ hslot _ =>
    rw [length_append, length_singleton] at hfull
    rw [show records.length = volume.logSlots - 1 by omega] at hslot
    exact logFits_of_logSlotLba hval hslot

/-- No reached slot shows the order of the tests: none holds an unsupported update behind an operation
that does not verify, and none ends the log where a later slot would have no block. -/
def OrderUnseen (blocks : Lba → Bytes) (volume : Volume) : Prop :=
  ∀ records lba, Reached blocks volume records → logSlotLba volume records.length = .ok lba →
    slotVerdict blocks volume records lba ≠ .hidden ∧
      (slotVerdict blocks volume records lba = .ended → LogFits volume)

private theorem orderUnseen_of_scansAgree (hprep : prepareOperation dev volume = .ok ()) (hread : Readable dev volume blocks)
    (hagree : ScansAgree (scanIntentLog dev volume) (rustScan blocks volume)) : OrderUnseen blocks volume := by
  intro records lba hreached hslot
  have hport := scanIntentLog_at_slot hprep hread hreached hslot
  constructor
  · intro hverdict
    rw [hverdict] at hport
    obtain ⟨view, hview, -⟩ := hport
    obtain ⟨e, he⟩ := rustScan_at_unsupported hprep hread hreached hslot (.inr hverdict)
    exact not_scansAgree_error hview he hagree
  · intro hverdict
    by_contra hfits
    rw [hverdict] at hport
    obtain ⟨view, hview, -⟩ := hport
    obtain ⟨e, he⟩ := @rustScan_of_not_fits volume blocks hfits
    exact not_scansAgree_error hview he hagree

private theorem scansAgree_of_orderUnseen (hprep : prepareOperation dev volume = .ok ())
    (hread : Readable dev volume blocks) (hunseen : OrderUnseen blocks volume) :
    ScansAgree (scanIntentLog dev volume) (rustScan blocks volume) := by
  have hval := valid_of_prepare hprep
  by_cases hnone : volume.logSlots = 0
  · have hslots : volume.geo.intentLogSlotLbas volume.logSlots = .ok [] := if_pos hnone
    rw [rustScan_of_slots hslots, scanIntentLog, hprep]
    show ScansAgree (if volume.logSlots = 0 then _ else _) _
    rw [if_pos hnone]
    rfl
  -- where the prefix ends decides both
  obtain ⟨records, hreached, hlast⟩ := exists_last_reached blocks volume
  cases hslot : logSlotLba volume records.length with
  | error status =>
    have hport := scanIntentLog_at_end hprep hread hreached hslot hnone
    by_cases hfull : records.length = volume.logSlots
    · obtain ⟨slots, hslots⟩ := hreached.logFits hval hfull hnone
      rw [if_pos hfull] at hport
      obtain ⟨view, hview, hrecs⟩ := hport
      obtain ⟨scanned, hscan, hrecs'⟩ := rustScan_at_end hprep hread hreached hslots hfull
      rw [hview, hscan]
      exact hrecs.trans hrecs'.symm
    · rw [if_neg hfull] at hport
      obtain ⟨status, hstatus⟩ := hport
      have hfits : ¬LogFits volume := by
        rintro ⟨slots, hslots⟩
        have hlt : records.length < slots.length := by
          have hle := hreached.length_le
          rw [Geometry.length_logSlots hslots]
          omega
        rw [(logSlotLba_of_slots hval hslots).mpr (getElem?_eq_getElem hlt)] at hslot
        cases hslot
      obtain ⟨e, he⟩ := @rustScan_of_not_fits volume blocks hfits
      rw [hstatus, he]
      trivial
  | ok lba =>
    obtain ⟨hhidden, hended⟩ := hunseen records lba hreached hslot
    have hport := scanIntentLog_at_slot hprep hread hreached hslot
    cases hverdict : slotVerdict blocks volume records lba with
    | accepted record => exact absurd hverdict (hlast lba hslot record)
    | hidden => exact absurd hverdict hhidden
    | ended =>
      obtain ⟨slots, hslots⟩ := hended hverdict
      have hrust := rustScan_at_slot hprep hread hreached hslots hslot
      rw [hverdict] at hport hrust
      obtain ⟨view, hview, hrecs⟩ := hport
      obtain ⟨scanned, hscan, hrecs'⟩ := hrust
      rw [hview, hscan]
      exact hrecs.trans hrecs'.symm
    | refused =>
      obtain ⟨e, he⟩ := rustScan_at_unsupported hprep hread hreached hslot (.inl hverdict)
      rw [hverdict] at hport
      obtain ⟨status, hstatus⟩ := hport
      rw [hstatus, he]
      trivial

private theorem readable_of_readBlocks (hprep : prepareOperation dev volume = .ok ())
    (hblks : ∀ lba < volume.geo.totalBlocks, dev.readBlocks lba = some (blocks lba)) :
    Readable dev volume blocks := by
  intro lba hlba
  have hdevice := refuseIf_eq_ok.mp hprep
  simp only [not_or, not_lt] at hdevice
  rw [Device.readOne, if_neg (not_le.mpr (lt_of_lt_of_le hlba hdevice.2.2.1)), hblks lba hlba]

/-- On a device whose blocks can be read, the C scan and the Rust scan of an accepted volume fail
together, or accept the same records, exactly when no reached slot shows the order of their tests. -/
theorem scans_agree_iff (hprepare : prepareOperation dev volume = .ok ())
    (hblocks : ∀ lba < volume.geo.totalBlocks, dev.readBlocks lba = some (blocks lba)) :
    ScansAgree (scanIntentLog dev volume) (rustScan blocks volume) ↔ OrderUnseen blocks volume :=
  have hread := readable_of_readBlocks hprepare hblocks
  ⟨orderUnseen_of_scansAgree hprepare hread, scansAgree_of_orderUnseen hprepare hread⟩

/-! ### Where the order shows -/

/-- A volume of one region whose identification has the log without the data updates. -/
def plainVolume (logSlots : Nat) : Volume where
  geo := ⟨4096, 64, 64⟩
  metadataStart := 9
  uuid := List.replicate 16 0
  generation := 5
  logSlots := logSlots
  nextObjectId := 18
  freeBlocksTotal := 20
  nameKeyAlgorithm := 0
  intentLog := true
  intentLogDataUpdates := false
  orphanDirectory := false
  otherRoCompat := false

/-- The volume's blocks: the first log slot, block 16, holds `slot`, the others zeros. -/
def plainBlocks (slot : Bytes) (lba : Lba) : Bytes := if lba = 16 then slot else List.replicate 4096 0

def plainDevice (slot : Bytes) : Device where
  blockCount := 64
  readBlocks lba := some (plainBlocks slot lba)
  writeFails _ := false
  flushFails _ := false

/-- A create whose extent is the identification block, in front of a write. -/
def hidingRecord : LogRecord :=
  ⟨List.replicate 16 0, 5, 1,
    [.create 1 [97] 17 1 0 ⟨0, 0⟩ [(0, 1)], .write ⟨16, 0, 4096, 4096, 0, ⟨0, 0⟩, [(40, 1)]⟩]⟩

private theorem prepare_plain (slot : Bytes) (logSlots : Nat) :
    prepareOperation (plainDevice slot) (plainVolume logSlots) = .ok () :=
  refuseIf_eq_ok.mpr (show ¬(5 = 0 ∨ 64 = 0 ∨ 64 > 64 ∨
    ((⟨4096, 64, 64⟩ : Geometry).validate.isOk && 9 == (⟨4096, 64, 64⟩ : Geometry).region0ReservedBlocks) = false)
    by decide)

private theorem hidingRecord_decode : ∃ slot, decode slot = .ok hidingRecord := by
  have hrng : hidingRecord.InRange := by
    refine ⟨by decide, by decide, by decide, forall_mem_cons.mpr ⟨?_, forall_mem_singleton.mpr ?_⟩⟩
    · exact ⟨by decide, by decide, by decide, by decide, by decide, ⟨by decide, by decide⟩, by decide⟩
    · exact ⟨by decide, by decide, by decide, by decide, by decide, ⟨by decide, by decide⟩, by decide⟩
  obtain ⟨slot, henc⟩ : ∃ slot, hidingRecord.encode 4096 = .ok slot :=
    ⟨_, encode_eq_ok.mpr ⟨by decide, by decide, by decide, by decide, rfl⟩⟩
  exact ⟨slot, decode_encode hrng henc⟩

variable {slot : Bytes}

private theorem verdict_hiding (hslot : decode slot = .ok hidingRecord) :
    slotVerdict (plainBlocks slot) (plainVolume 1) [] 16 = .hidden := by
  have hblk : plainBlocks slot 16 = slot := if_pos rfl
  have hfront : hidingRecord.ops.takeWhile (supports (plainVolume 1))
      = [.create 1 [97] 17 1 0 ⟨0, 0⟩ [(0, 1)]] := by decide
  obtain ⟨reason, hcont⟩ : ∃ reason, IntentLog.verifyOps (plainBlocks slot) (plainVolume 1).geo 1
      [.create 1 [97] 17 1 0 ⟨0, 0⟩ [(0, 1)]] [] = .error reason := by
    have hplace : ¬FreeExtents (plainVolume 1) [] [(0, 1)] := by
      rw [← firstBadExtent_eq_none]
      decide
    obtain ⟨reason, hreason⟩ := @readExtents_of_not_free (plainVolume 1) (plainBlocks slot) []
      [(0, 1)] ⟨by decide, pairwise_singleton ..⟩ hplace 1 1
    refine ⟨reason, ?_⟩
    rw [IntentLog.verifyOps, IntentLog.verifyOpContent.eq_def]
    simp only [LogOp.dataExtents, IntentLog.coveredBytes]
    change IntentLog.readExtents _ _ _ _ [] _ = _ at hreason
    rw [hreason]
    rfl
  rw [slotVerdict, hblk, hslot]
  dsimp only
  rw [if_neg (by decide), hfront]
  show (match IntentLog.verifyOps (plainBlocks slot) (plainVolume 1).geo 1
    [.create 1 [97] 17 1 0 ⟨0, 0⟩ [(0, 1)]] [], false with
      | .ok _, true => SlotVerdict.accepted hidingRecord
      | .error _, true => .ended
      | .ok _, false => .refused
      | .error _, false => .hidden) = .hidden
  rw [hcont]

private theorem decode_zeros : ∃ slot e, decode slot = .error e := by
  obtain ⟨e, he⟩ := BlockHeader.verify_zero (show BlockType.intentLog ≠ 0 by decide)
  refine ⟨List.replicate 4096 0, e, ?_⟩
  rw [decode, he]
  rfl

private theorem verdict_undecodable {e : FormatError} (hslot : decode slot = .error e)
    (volume : Volume) : slotVerdict (plainBlocks slot) volume [] 16 = .ended := by
  have hblk : plainBlocks slot 16 = slot := if_pos rfl
  rw [slotVerdict, hblk, hslot]

private theorem not_fits_plain : ¬LogFits (plainVolume 100) := by
  rintro ⟨slots, hslots⟩
  have hval := valid_of_prepare (prepare_plain [] 100)
  have hlast : 99 < slots.length := by
    rw [Geometry.length_logSlots hslots]
    decide
  have hslot := (logSlotLba_of_slots hval hslots).mpr (getElem?_eq_getElem hlast)
  rw [show logSlotLba (plainVolume 100) 99 = .error .corrupt by decide] at hslot
  cases hslot

/-- On a volume without data updates, a record whose create is out of place and whose write is not
supported ends the log for the C scan and fails the Rust scan; and so does, on a volume with more log
slots than blocks, an empty first slot. -/
theorem scans_disagree :
    (∃ slot view e, scanIntentLog (plainDevice slot) (plainVolume 1) = .ok view ∧
      rustScan (plainBlocks slot) (plainVolume 1) = .error e) ∧
    (∃ slot view e, scanIntentLog (plainDevice slot) (plainVolume 100) = .ok view ∧
      rustScan (plainBlocks slot) (plainVolume 100) = .error e) := by
  constructor
  · obtain ⟨slot, hslot⟩ := hidingRecord_decode
    have hprepare := prepare_plain slot 1
    have hread := readable_of_readBlocks hprepare fun lba _ => rfl
    have haddress : logSlotLba (plainVolume 1) 0 = .ok 16 := by decide
    have hverdict := verdict_hiding hslot
    have hportable := scanIntentLog_at_slot hprepare hread .nil haddress
    rw [hverdict] at hportable
    obtain ⟨view, hview, -⟩ := hportable
    obtain ⟨e, he⟩ := rustScan_at_unsupported hprepare hread .nil haddress (.inr hverdict)
    exact ⟨slot, view, e, hview, he⟩
  · obtain ⟨slot, _, hslot⟩ := decode_zeros
    have hprepare := prepare_plain slot 100
    have hread := readable_of_readBlocks hprepare fun lba _ => rfl
    have haddress : logSlotLba (plainVolume 100) 0 = .ok 16 := by decide
    have hportable := scanIntentLog_at_slot hprepare hread .nil haddress
    rw [verdict_undecodable hslot] at hportable
    obtain ⟨view, hview, -⟩ := hportable
    obtain ⟨e, he⟩ := @rustScan_of_not_fits _ (plainBlocks slot) not_fits_plain
    exact ⟨slot, view, e, hview, he⟩

def deletion : LogRecord := ⟨List.replicate 16 0, 5, 1, [.delete 1 [97] ⟨0, 0⟩]⟩

private theorem deletion_decode : ∃ slot, decode slot = .ok deletion := by
  have hrng : deletion.InRange := by
    refine ⟨by decide, by decide, by decide, forall_mem_singleton.mpr ?_⟩
    exact ⟨by decide, by decide, by decide, by decide, by decide, ⟨by decide, by decide⟩, by decide⟩
  obtain ⟨slot, henc⟩ : ∃ slot, deletion.encode 4096 = .ok slot :=
    ⟨_, encode_eq_ok.mpr ⟨by decide, by decide, by decide, by decide, rfl⟩⟩
  exact ⟨slot, decode_encode hrng henc⟩

private theorem verdict_deletion (hslot : decode slot = .ok deletion) :
    slotVerdict (plainBlocks slot) (plainVolume 1) [] 16 = .accepted deletion := by
  have hblk : plainBlocks slot 16 = slot := if_pos rfl
  rw [slotVerdict, hblk, hslot]
  rfl

private theorem orderUnseen_deletion (hslot : decode slot = .ok deletion) :
    OrderUnseen (plainBlocks slot) (plainVolume 1) := by
  intro records lba hreached haddr
  have hlt : records.length < 1 := slot_lt_of_logSlotLba haddr
  obtain rfl : records = [] := eq_nil_of_length_eq_zero (by omega)
  obtain rfl : 16 = lba :=
    Except.ok.inj ((show logSlotLba (plainVolume 1) 0 = .ok 16 by decide).symm.trans haddr)
  rw [verdict_deletion hslot]
  exact ⟨SlotVerdict.noConfusion, fun h => SlotVerdict.noConfusion h⟩

/-- Both scans accept the record of a deletion. -/
theorem scans_agree_iff_deletion : ∃ slot view, decode slot = .ok deletion ∧
    scanIntentLog (plainDevice slot) (plainVolume 1) = .ok view ∧ view.records = [deletion] ∧
    ScansAgree (scanIntentLog (plainDevice slot) (plainVolume 1))
      (rustScan (plainBlocks slot) (plainVolume 1)) := by
  obtain ⟨slot, hslot⟩ := deletion_decode
  have hprep := prepare_plain slot 1
  have hread := readable_of_readBlocks hprep fun lba _ => rfl
  have hreached := Reached.concat .nil (by decide) (verdict_deletion hslot)
  have hend := scanIntentLog_at_end hprep hread hreached
    (show logSlotLba (plainVolume 1) 1 = .error .invalidArgument by decide) (by decide)
  rw [if_pos (by decide)] at hend
  obtain ⟨view, hview, hrecords⟩ := hend
  exact ⟨slot, view, hslot, hview, hrecords,
    (scans_agree_iff hprep fun _ _ => rfl).mpr (orderUnseen_deletion hslot)⟩

end Afsplus.Portable
