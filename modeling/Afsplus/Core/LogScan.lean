import Afsplus.Core.Basic
import Afsplus.Format.Geometry
import Afsplus.Format.LogCanonical

/-!
# Scanning the intent log

The valid record prefix bound to one base generation. The first slot that fails any test ends the
prefix: barriers keep a durable record from following a lost one, so whatever stands behind the
failure belongs to an fsync that never completed. `blocks` is the content of a device at least as
large as the volume, which every caller has checked.
-/

namespace Afsplus.IntentLog

open Fallible

variable (blocks : Lba → Bytes) (geo : Geometry)

def logSlotLbas (logSlots : Nat) : Except CoreError (List Lba) :=
  (geo.intentLogSlotLbas logSlots).mapError fun
    | .invalid message => .unsupportedGeometry message
    | other => .format other

structure ScannedLog where
  /-- Valid record prefix, sequence order. -/
  records : List LogRecord
  /-- Why the prefix ended, where that is worth a note. -/
  tailNote : Option String

/-- Bytes of `count` blocks from `lba` on, up to `remaining`; with the bytes still missing. -/
def readRun (blockSize : Nat) : (count lba remaining : Nat) → Bytes × Nat
  | 0, _, remaining => ([], remaining)
  | count + 1, lba, remaining =>
    if remaining = 0 then ([], 0)
    else
      let take := min remaining blockSize
      let (rest, remaining) := readRun blockSize count (lba + 1) (remaining - take)
      ((blocks lba).take take ++ rest, remaining)

/-- The walk over one operation's extents. `referenced` are the half-open ranges that earlier extents
named, in this record or in one before it. -/
def readExtents (sequence : Nat) :
    List LogExtent → List (Nat × Nat) → (remaining : Nat) → Except String (Bytes × Nat × List (Nat × Nat))
  | [], referenced, remaining => .ok ([], remaining, referenced)
  | (start, count) :: rest, referenced, remaining => do
    refuseIf (start + count > geo.totalBlocks ∨ ¬geo.isAllocatable start ∨
        geo.regionOf start ≠ geo.regionOf (start + count - 1))
      s!"log record {sequence} references out-of-bounds extent {start}+{count}"
    refuseIf (∃ other ∈ referenced, other.1 < start + count ∧ start < other.2)
      s!"log record {sequence} reuses data extent {start}+{count}"
    let (content, remaining) := readRun blocks geo.blockSize count start remaining
    let (more, remaining, referenced) ←
      readExtents sequence rest (referenced ++ [(start, start + count)]) remaining
    pure (content ++ more, remaining, referenced)

/-- Bytes an operation's checksum covers: a create's size, whole blocks otherwise. -/
def coveredBytes (op : LogOp) : Nat :=
  match op with
  | .create _ _ _ sizeBytes _ _ _ => sizeBytes
  | op => (op.dataExtents.map Prod.snd).sum * geo.blockSize

def verifyOpContent (sequence : Nat) (op : LogOp) (referenced : List (Nat × Nat)) :
    Except String (List (Nat × Nat)) :=
  match op with
  | .delete .. | .rename .. => .ok referenced
  | op => do
    let (content, remaining, referenced) ←
      readExtents blocks geo sequence op.dataExtents referenced (coveredBytes geo op)
    refuseIf (remaining ≠ 0) s!"log record {sequence} content larger than its extents"
    refuseIf (crc32c content ≠ op.contentCrc) s!"log record {sequence} content CRC mismatch (torn data)"
    pure referenced

def verifyOps (sequence : Nat) : List LogOp → List (Nat × Nat) → Except String (List (Nat × Nat))
  | [], referenced => .ok referenced
  | op :: rest, referenced => do
    let referenced ← verifyOpContent blocks geo sequence op referenced
    verifyOps sequence rest referenced

def verifyRecordContents (record : LogRecord) (referenced : List (Nat × Nat)) :
    Except String (List (Nat × Nat)) :=
  verifyOps blocks geo record.sequence record.ops referenced

def scanSlots (uuid : Bytes) (baseGeneration : Nat) (allowDataUpdates : Bool) :
    (index : Nat) → List Lba → List (Nat × Nat) → Except CoreError ScannedLog
  | _, [], _ => .ok ⟨[], none⟩
  | index, lba :: rest, referenced =>
    match LogRecord.decode (blocks lba) with
    | .error _ =>
      .ok ⟨[], if (blocks lba).any (· != 0) then
        some s!"log slot {index} contains an invalid nonzero record" else none⟩
    | .ok record =>
      if record.uuid ≠ uuid ∨ record.baseGeneration ≠ baseGeneration then .ok ⟨[], none⟩
      else if record.sequence ≠ index + 1 then
        .ok ⟨[], some s!"log slot {index} carries another sequence"⟩
      else if allowDataUpdates = false ∧ record.ops.any LogOp.isExistingFileUpdate then
        .error (.corrupt
          "intent-log record uses existing-file data operations without their INCOMPAT feature")
      else match verifyRecordContents blocks geo record referenced with
        | .error reason => .ok ⟨[], some reason⟩
        | .ok referenced => do
          let scanned ← scanSlots uuid baseGeneration allowDataUpdates (index + 1) rest referenced
          pure ⟨record :: scanned.records, scanned.tailNote⟩

def scan (logSlots : Nat) (uuid : Bytes) (baseGeneration : Nat) (allowDataUpdates : Bool) :
    Except CoreError ScannedLog := do
  let slots ← logSlotLbas geo logSlots
  scanSlots blocks geo uuid baseGeneration allowDataUpdates 0 slots []

variable {blocks geo}

/-- The slot's block is a record that the scan takes into the prefix at position `index`. -/
def Accepts (blocks : Lba → Bytes) (geo : Geometry) (uuid : Bytes) (baseGeneration index : Nat)
    (lba : Lba) (record : LogRecord) (referenced referenced' : List (Nat × Nat)) : Prop :=
  LogRecord.decode (blocks lba) = .ok record ∧ record.uuid = uuid ∧
    record.baseGeneration = baseGeneration ∧ record.sequence = index + 1 ∧
    verifyRecordContents blocks geo record referenced = .ok referenced'

variable {uuid : Bytes} {baseGeneration : Nat} {lba : Lba} {referenced : List (Nat × Nat)}

theorem scanSlots_of_accepts {index : Nat} {record : LogRecord} {referenced' : List (Nat × Nat)}
    (h : Accepts blocks geo uuid baseGeneration index lba record referenced referenced') (rest : List Lba) :
    scanSlots blocks geo uuid baseGeneration true index (lba :: rest) referenced
      = (scanSlots blocks geo uuid baseGeneration true (index + 1) rest referenced').map
          fun scanned => ⟨record :: scanned.records, scanned.tailNote⟩ := by
  obtain ⟨hdec, huuid, hgen, hseq, hcont⟩ := h
  rw [scanSlots]
  simp only [hdec, hcont]
  rw [if_neg (by simp [huuid, hgen]), if_neg (not_not.mpr hseq), if_neg (by simp)]
  cases scanSlots blocks geo uuid baseGeneration true (index + 1) rest referenced' <;> rfl

theorem scanSlots_of_not_accepts {index : Nat} (h : ∀ record referenced',
      ¬Accepts blocks geo uuid baseGeneration index lba record referenced referenced') (rest : List Lba) :
    ∃ note, scanSlots blocks geo uuid baseGeneration true index (lba :: rest) referenced = .ok ⟨[], note⟩ := by
  rw [scanSlots]
  cases hdec : LogRecord.decode (blocks lba) with
  | error e => exact ⟨_, rfl⟩
  | ok record =>
    dsimp only
    by_cases hbind : record.uuid ≠ uuid ∨ record.baseGeneration ≠ baseGeneration
    · exact ⟨_, if_pos hbind⟩
    by_cases hseq : record.sequence ≠ index + 1
    · exact ⟨_, by rw [if_neg hbind, if_pos hseq]⟩
    cases hcont : verifyRecordContents blocks geo record referenced with
    | error reason =>
      exact ⟨_, by rw [if_neg hbind, if_neg hseq, if_neg (by simp)]⟩
    | ok referenced' =>
      simp only [not_or, not_not] at hbind hseq
      exact absurd ⟨hdec, hbind.1, hbind.2, hseq, hcont⟩ (h record referenced')

theorem scanSlots_total (uuid : Bytes) (baseGeneration : Nat) (slots : List Lba) (index : Nat)
    (referenced : List (Nat × Nat)) :
    ∃ scanned, scanSlots blocks geo uuid baseGeneration true index slots referenced = .ok scanned := by
  induction slots generalizing index referenced with
  | nil => exact ⟨_, rfl⟩
  | cons lba rest ih =>
    by_cases h : ∃ record referenced', Accepts blocks geo uuid baseGeneration index lba record referenced referenced'
    · obtain ⟨record, referenced', haccepts⟩ := h
      obtain ⟨scanned, hscan⟩ := ih (index + 1) referenced'
      exact ⟨_, by rw [scanSlots_of_accepts haccepts, hscan]; rfl⟩
    · simp only [not_exists] at h
      obtain ⟨note, hnote⟩ := scanSlots_of_not_accepts h rest
      exact ⟨_, hnote⟩

theorem scanSlots_records_eq_nil {rest : List Lba} {scanned : ScannedLog}
    (h : scanSlots blocks geo uuid baseGeneration true 0 (lba :: rest) [] = .ok scanned) :
    scanned.records = [] ↔
      ∀ record referenced', ¬Accepts blocks geo uuid baseGeneration 0 lba record [] referenced' := by
  constructor
  · intro hempty record referenced' haccepts
    rw [scanSlots_of_accepts haccepts] at h
    obtain ⟨tail, htail⟩ := @scanSlots_total blocks geo uuid baseGeneration rest 1 referenced'
    rw [htail] at h
    cases h
    cases hempty
  · intro hnone
    obtain ⟨note, hnote⟩ := scanSlots_of_not_accepts hnone rest
    rw [hnote] at h
    cases h
    rfl

end Afsplus.IntentLog
