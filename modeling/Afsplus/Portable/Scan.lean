import Afsplus.Portable.Reader

/-!
# The portable reader: intent-log scan

The scan walks the log slots in order, decodes each record, checks that it is bound to the volume and
in sequence, and verifies the content its extents name. Where it stops it reports why, in which slot,
and a block: the slot's own for a record it cannot use, but the failing extent for a record whose
content does not verify. A call of the library reads a device nothing else writes meanwhile, so the
records it re-reads by slot are the ones the scan accepted, and the view carries them.
-/

namespace Afsplus.Portable

open Wire Fallible

inductive TailState where
  | none | invalid | stale | sequence | content | full
  deriving DecidableEq, Repr

structure View where
  /-- The accepted records, by slot. -/
  records : List LogRecord
  tailState : TailState
  /-- `none` is the reserved slot number. -/
  tailSlot : Option Nat
  /-- `none` is the reserved block number. -/
  tailBlock : Option Lba
  /-- The file-data and namespace flags, which the scan clears together. -/
  keysKnown : Bool

namespace View

def validRecords (view : View) : Nat := view.records.length

def lastSequence (view : View) : Nat :=
  match view.records.getLast? with
  | some record => record.sequence
  | none => 0

def operations (view : View) : List LogOp := view.records.flatMap LogRecord.ops

end View

/-- Why a slot ends the scan: a failure of the call, or a tail with its state, its block and the flags
as they stood. -/
inductive ScanStop where
  | failed (status : Status)
  | tail (state : TailState) (block : Option Lba) (keysKnown : Bool)

/-- A name outside the reader's key profile clears the flags; one with no key at all ends the scan. -/
def scanNames (volume : Volume) (lba : Lba) : List Bytes → Bool → Except ScanStop Bool
  | [], keysKnown => .ok keysKnown
  | name :: rest, keysKnown =>
    match nameKey volume name with
    | .ok _ => scanNames volume lba rest keysKnown
    | .error .unsupported => scanNames volume lba rest false
    | .error _ => .error (.tail .invalid (some lba) keysKnown)

def logExtentValid (volume : Volume) (e : LogExtent) : Bool :=
  e.2 ≠ 0 ∧ e.1 + e.2 < 2 ^ 64 ∧ e.1 + e.2 ≤ volume.geo.totalBlocks ∧
    volume.geo.isAllocatable e.1 ∧ volume.geo.isAllocatable (e.1 + e.2 - 1) ∧
    volume.geo.regionOf e.1 = volume.geo.regionOf (e.1 + e.2 - 1)

/-- The first extent that is out of place or reuses a block of `used`. -/
def firstBadExtent (volume : Volume) (used : List LogExtent) (extents : List LogExtent) :
    Option LogExtent :=
  extents.find? fun e => !logExtentValid volume e || used.any (extentsOverlap e)

/-- The blocks of one extent, as far as `remaining` bytes reach; the error is the unreadable block. -/
def readRun (dev : Device) : List Lba → Nat → Except Lba (Bytes × Nat)
  | [], remaining => .ok ([], remaining)
  | lba :: rest, remaining =>
    if remaining = 0 then .ok ([], 0)
    else match dev.readOne lba with
      | .error _ => .error lba
      | .ok block => do
        let taken := block.take (min remaining defaultBlockSize)
        let (content, remaining) ← readRun dev rest (remaining - min remaining defaultBlockSize)
        pure (taken ++ content, remaining)

def readExtentContent (dev : Device) (volume : Volume) :
    List LogExtent → Nat → Except Lba (Bytes × Nat)
  | [], remaining => .ok ([], remaining)
  | e :: rest, remaining =>
    if logExtentValid volume e = false then .error e.1
    else do
      let (head, remaining) ← readRun dev (List.range' e.1 e.2) remaining
      let (tail, remaining) ← readExtentContent dev volume rest remaining
      pure (head ++ tail, remaining)

/-- Compares the content with its checksum; the error carries the block reported for a mismatch. -/
def verifyLogOperationContent (dev : Device) (volume : Volume) (op : LogOp) :
    Except (Option Lba) Unit :=
  match op with
  | .delete .. | .rename .. => .ok ()
  | _ =>
    if op.contentBytes ≥ 2 ^ 64 then .error none
    else match readExtentContent dev volume op.dataExtents op.contentBytes with
      | .error lba => .error (some lba)
      | .ok (content, remaining) =>
        if remaining ≠ 0 ∨ crc32c content ≠ op.contentCrc then
          .error (op.dataExtents.head?.map Prod.fst)
        else .ok ()

/-- The checks on the operations of a record; `used` are the extents of the slots before it and of
its earlier operations. -/
def scanOperations (dev : Device) (volume : Volume) (lba : Lba) :
    List LogExtent → List LogOp → Bool → Except ScanStop Bool
  | _, [], keysKnown => .ok keysKnown
  | used, op :: rest, keysKnown =>
    if op.isExistingFileUpdate ∧ volume.intentLogDataUpdates = false then .error (.failed .corrupt)
    else match scanNames volume lba op.names keysKnown with
      | .error stop => .error stop
      | .ok keysKnown =>
        match firstBadExtent volume used op.dataExtents with
        | some e => .error (.tail .content (some e.1) keysKnown)
        | none =>
          match verifyLogOperationContent dev volume op with
          | .error block => .error (.tail .content block keysKnown)
          | .ok () => scanOperations dev volume lba (used ++ op.dataExtents) rest keysKnown

def scanRecord (dev : Device) (volume : Volume) (records : List LogRecord) (lba : Lba)
    (keysKnown : Bool) : Except ScanStop (LogRecord × Bool) :=
  match dev.readOne lba with
  | .error status => .error (.failed status)
  | .ok block =>
    match decodeLogRecord block with
    | .error _ => .error (.tail .invalid (some lba) keysKnown)
    | .ok record =>
      if record.uuid ≠ volume.uuid ∨ record.baseGeneration ≠ volume.generation then
        .error (.tail .stale (some lba) keysKnown)
      else if record.sequence ≠ records.length + 1 then
        .error (.tail .sequence (some lba) keysKnown)
      else
        let used := (records.flatMap LogRecord.ops).flatMap LogOp.dataExtents
        match scanOperations dev volume lba used record.ops keysKnown with
        | .error stop => .error stop
        | .ok keysKnown => .ok (record, keysKnown)

/-- The scan from slot `records.length` on, with `left` slots to go. -/
def scanSlots (dev : Device) (volume : Volume) :
    (left : Nat) → List LogRecord → Bool → Except Status View
  | 0, records, keysKnown => .ok ⟨records, .full, none, none, keysKnown⟩
  | left + 1, records, keysKnown =>
    match logSlotLba volume records.length with
    | .error _ => .error .corrupt
    | .ok lba =>
      match scanRecord dev volume records lba keysKnown with
      | .error (.failed status) => .error status
      | .error (.tail state block keysKnown) =>
        .ok ⟨records, state, some records.length, block, keysKnown⟩
      | .ok (record, keysKnown) => scanSlots dev volume left (records ++ [record]) keysKnown

def scanIntentLog (dev : Device) (volume : Volume) : Except Status View := do
  prepareOperation dev volume
  if volume.logSlots = 0 then pure ⟨[], .none, none, none, true⟩
  else scanSlots dev volume volume.logSlots [] true

/-! ### What a view says -/

variable {volume : Volume} {known : Bool} {block : Option Lba} {state : TailState} {known' : Bool} {lba : Lba}

theorem scanNames_stop {names : List Bytes}
    (h : scanNames volume lba names known = .error (.tail state block known')) :
    block = some lba := by
  induction names generalizing known with
  | nil => cases h
  | cons name rest ih =>
    rw [scanNames] at h
    split at h
    · exact ih h
    · exact ih h
    · cases h
      rfl

/-- An operation names an extent that is out of place or in use, or its content does not match. -/
def FailsContent (dev : Device) (volume : Volume) : (used : List LogExtent) → List LogOp → Prop
  | _, [] => False
  | used, op :: rest =>
    (∃ e ∈ op.dataExtents, logExtentValid volume e = false ∨ used.any (extentsOverlap e) = true) ∨
      verifyLogOperationContent dev volume op ≠ .ok () ∨
      FailsContent dev volume (used ++ op.dataExtents) rest

/-- The block holds a record that is bound to the volume and next in sequence after `records`, with
extents or content that fail their checks. -/
def BrokenRecord (dev : Device) (volume : Volume) (records : List LogRecord) (lba : Lba) : Prop :=
  ∃ block record, dev.readOne lba = .ok block ∧ decodeLogRecord block = .ok record ∧
    record.uuid = volume.uuid ∧ record.baseGeneration = volume.generation ∧
    record.sequence = records.length + 1 ∧
    FailsContent dev volume ((records.flatMap LogRecord.ops).flatMap LogOp.dataExtents) record.ops

variable {dev : Device}

theorem scanOperations_stop {used : List LogExtent} {ops : List LogOp}
    (h : scanOperations dev volume lba used ops known = .error (.tail state block known')) :
    block = some lba ∨ FailsContent dev volume used ops := by
  induction ops generalizing used known with
  | nil => cases h
  | cons op rest ih =>
    rw [scanOperations] at h
    split at h
    · cases h
    · split at h
      · rename_i stop hnames
        cases h
        exact .inl (scanNames_stop hnames)
      · split at h
        · rename_i e hbad
          have hfails := List.find?_some hbad
          rw [Bool.or_eq_true, Bool.not_eq_true'] at hfails
          exact .inr (.inl ⟨e, List.mem_of_find?_eq_some hbad, hfails⟩)
        · split at h
          · rename_i reported hcontent
            refine .inr (.inr (.inl ?_))
            rw [hcontent]
            exact fun hok => nomatch hok
          · exact (ih h).imp_right fun hrest => .inr (.inr hrest)

variable {records : List LogRecord}

theorem scanRecord_stop
    (h : scanRecord dev volume records lba known = .error (.tail state block known')) :
    block = some lba ∨ BrokenRecord dev volume records lba := by
  unfold scanRecord at h
  split at h
  · cases h
  · rename_i bytes hread
    split at h
    · cases h
      exact .inl rfl
    · rename_i record hdec
      split at h
      · cases h
        exact .inl rfl
      · rename_i hbound
        obtain ⟨huuid, hgen⟩ := not_or.mp hbound
        split at h
        · cases h
          exact .inl rfl
        · rename_i hseq
          dsimp only at h
          split at h
          · rename_i stop hops
            cases h
            exact (scanOperations_stop hops).imp_right fun hfails =>
              ⟨bytes, record, hread, hdec, not_not.mp huuid, not_not.mp hgen, not_not.mp hseq, hfails⟩
          · cases h

variable {record : LogRecord}

theorem scanRecord_of_decoded {block : Bytes} (hread : dev.readOne lba = .ok block)
    (hdec : decodeLogRecord block = .ok record) (huuid : record.uuid = volume.uuid)
    (hgen : record.baseGeneration = volume.generation) (hseq : record.sequence = records.length + 1) :
    scanRecord dev volume records lba known =
      match scanOperations dev volume lba
        ((records.flatMap LogRecord.ops).flatMap LogOp.dataExtents) record.ops known with
      | .error stop => .error stop
      | .ok keysKnown => .ok (record, keysKnown) := by
  simp only [scanRecord, hread, hdec, huuid, hgen, hseq, ne_eq, not_true_eq_false, or_self, if_false]

theorem scanSlots_of_stop {left : Nat}
    (hslot : logSlotLba volume records.length = .ok lba)
    (hrec : scanRecord dev volume records lba known = .error (.tail state block known')) :
    scanSlots dev volume (left + 1) records known
      = .ok ⟨records, state, some records.length, block, known'⟩ := by
  rw [scanSlots, hslot]
  simp only [hrec]

/-- The block reported for the tail is that of the slot behind the accepted records, unless this slot
holds a record that fails its checks. -/
def View.TailInSlot (view : View) (dev : Device) (volume : Volume) : Prop :=
  ∀ block, view.tailBlock = some block → ∃ slot, logSlotLba volume view.validRecords = .ok slot ∧
    (block = slot ∨ BrokenRecord dev volume view.records slot)

variable {view : View}

theorem scanSlots_tailInSlot {left : Nat} (h : scanSlots dev volume left records known = .ok view) :
    view.TailInSlot dev volume := by
  induction left generalizing records known with
  | zero =>
    cases h
    exact fun block hblk => nomatch hblk
  | succ left ih =>
    rw [scanSlots] at h
    split at h
    · cases h
    · rename_i lba hslot
      split at h
      · cases h
      · rename_i state block known' hrec
        cases h
        intro b hb
        refine ⟨lba, hslot, (scanRecord_stop hrec).imp_left fun hblk => ?_⟩
        exact Option.some.inj (hb.symm.trans hblk)
      · exact ih h

theorem scanIntentLog_tailInSlot (h : scanIntentLog dev volume = .ok view) :
    view.TailInSlot dev volume := by
  obtain ⟨_, _, h⟩ := of_bind h
  split at h
  · cases h
    exact fun block hblk => nomatch hblk
  · exact scanSlots_tailInSlot h

end Afsplus.Portable
