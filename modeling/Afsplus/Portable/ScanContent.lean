import Mathlib.Algebra.Group.Action.Defs
import Afsplus.Core.LogScan
import Afsplus.Portable.Scan

/-!
# The portable reader: the content a record names

The extents and the checksum of one operation are checked by both sides with their own code. Decoding
has already refused what would tell the two apart: names without a key, extents that wrap or overlap
in one operation, and content beyond the byte counter. So the checks of an operation pass together or
fail together, and the C walk over a record is the Rust walk over the operations up to the first that
the volume does not support.
-/

namespace Afsplus

open Wire Fallible List

variable {p : Bytes} {op : LogOp}

theorem readExtents_lt {count : Nat} {e : LogExtent} (h : e ∈ (readExtents count p).1) :
    e.2 < 2 ^ 32 := by
  induction count generalizing p with
  | zero => cases h
  | succ count ih =>
    rw [readExtents] at h
    obtain heq | hmem := mem_cons.mp h
    · rw [heq]
      exact readLe_lt 4 _
    · exact ih hmem

/-- Sixteen extents of 32-bit lengths and a 64-bit size stay below the checksum's byte limit. -/
theorem OpEntry.contentBytes_toOp {e : OpEntry} (hsize : e.size < 2 ^ 64)
    (hexts : ∀ x ∈ e.extents, x.2 < 2 ^ 32) (hcnt : e.extents.length ≤ maxLogExtents) :
    e.toOp.contentBytes < 2 ^ 64 := by
  have hsum : (e.extents.map Prod.snd).sum * defaultBlockSize < 2 ^ 64 := by
    have hle := sum_le_card_nsmul (e.extents.map Prod.snd) (2 ^ 32) (by
      intro x hx
      obtain ⟨y, hy, rfl⟩ := mem_map.mp hx
      exact (hexts y hy).le)
    rw [length_map, smul_eq_mul] at hle
    rw [maxLogExtents] at hcnt
    rw [defaultBlockSize]
    omega
  unfold toOp
  dsimp only
  split
  · exact hsize
  split
  · exact (by decide : 0 * defaultBlockSize < 2 ^ 64)
  split
  · exact (by decide : 0 * defaultBlockSize < 2 ^ 64)
  split
  · exact hsum
  · exact hsum

/-- What both scans know of an operation before they check its content. -/
structure LogOp.Decoded (op : LogOp) : Prop where
  valid : op.validate = .ok ()
  contentBytes : op.contentBytes < 2 ^ 64

theorem decodeOp_decoded {version : Nat} {rest : Bytes}
    (h : decodeOp version p = .ok (op, rest)) : op.Decoded := by
  unfold decodeOp at h
  replace h := after_check h
  obtain ⟨hcnt, h⟩ := of_refuse h
  split at h
  · cases h
  · replace h := after_check h
    obtain ⟨timestamp, -, h⟩ := of_bind h
    obtain ⟨_, hval, h⟩ := of_bind h
    obtain ⟨rfl, -⟩ := pure_pair_eq_ok.mp h
    refine ⟨hval, OpEntry.contentBytes_toOp (readLe_lt 8 _) (fun x hx => readExtents_lt hx) ?_⟩
    rw [Portable.length_readExtents]
    exact not_lt.mp hcnt

theorem decodeOps_decoded {version count : Nat} {rest : Bytes} {ops : List LogOp}
    (h : decodeOps version count p = .ok (ops, rest)) : ∀ op ∈ ops, op.Decoded := by
  induction count generalizing p ops with
  | zero =>
    cases h
    exact fun _ hmem => absurd hmem not_mem_nil
  | succ count ih =>
    rw [decodeOps] at h
    obtain ⟨⟨op, q⟩, hop, h⟩ := of_bind h
    obtain ⟨⟨tail, r⟩, htail, h⟩ := of_bind h
    cases h
    exact forall_mem_cons.mpr ⟨decodeOp_decoded hop, ih htail⟩

theorem LogRecord.decode_decoded {block : Bytes} {record : LogRecord}
    (h : LogRecord.decode block = .ok record) : ∀ op ∈ record.ops, op.Decoded := by
  unfold LogRecord.decode at h
  obtain ⟨header, -, h⟩ := of_bind h
  iterate 6 replace h := after_check h
  obtain ⟨⟨ops, rest⟩, hops, h⟩ := of_bind h
  replace h := after_check h
  cases h
  exact decodeOps_decoded hops

/-- Extents that are not empty, do not wrap and do not overlap. -/
structure SoundExtents (extents : List LogExtent) : Prop where
  bounds : ∀ e ∈ extents, e.2 ≠ 0 ∧ e.1 + e.2 < 2 ^ 64
  apart : extents.Pairwise fun a b => extentsOverlap a b = false

theorem validateDataExtentsFrom_ok {earlier extents : List LogExtent} {total blocks : Nat}
    (h : validateDataExtentsFrom earlier total extents = .ok blocks) :
    SoundExtents extents ∧ ∀ a ∈ earlier, ∀ b ∈ extents, extentsOverlap a b = false := by
  induction extents generalizing earlier total with
  | nil => exact ⟨⟨by simp, List.Pairwise.nil⟩, by simp⟩
  | cons e rest ih =>
    rw [validateDataExtentsFrom] at h
    split at h
    · cases h
    rename_i hne
    split at h
    · cases h
    rename_i hwrap
    split at h
    · cases h
    rename_i hoverlap
    split at h
    · cases h
    obtain ⟨hsound, hearlier⟩ := ih h
    have hfirst : ∀ a ∈ earlier, extentsOverlap a e = false := fun a ha =>
      Bool.eq_false_iff.mpr fun htrue => hoverlap (any_eq_true.mpr ⟨a, ha, htrue⟩)
    refine ⟨⟨forall_mem_cons.mpr ⟨⟨hne, not_le.mp hwrap⟩, hsound.bounds⟩,
      pairwise_cons.mpr ⟨fun b hb => hearlier e (by simp) b hb, hsound.apart⟩⟩, ?_⟩
    intro a ha b hb
    obtain heq | hmem := mem_cons.mp hb
    · rw [heq]
      exact hfirst a ha
    · exact hearlier a (mem_append_left _ ha) b hmem

theorem LogOp.Decoded.extents (h : op.Decoded) : SoundExtents op.dataExtents := by
  have hcnt : op.dataExtents.length ≤ maxLogExtents := by
    have hfits := (LogOp.fits_of_validate h.valid).extents
    cases op <;> exact hfits
  have hval := ((Portable.validate_iff_logOperationValid hcnt).mp h.valid).2
  unfold Portable.logOperationValid at hval
  split at hval
  · cases hval
  · rename_i blocks hblks
    exact (validateDataExtentsFrom_ok hblks).1

theorem LogOp.Decoded.names (h : op.Decoded) : ∀ name ∈ op.names, validateName name = .ok () := by
  obtain ⟨_, -, hop⟩ := of_bind h.valid
  cases op with
  | create parentId name expectedObjectId sizeBytes contentCrc timestamp extents =>
    obtain ⟨_, hname, -⟩ := of_bind hop
    exact forall_mem_singleton.mpr hname
  | delete parentId name timestamp => exact forall_mem_singleton.mpr hop
  | rename sourceParentId sourceName targetParentId targetName replace timestamp =>
    obtain ⟨_, hsrc, htarget⟩ := of_bind hop
    exact forall_mem_cons.mpr ⟨hsrc, forall_mem_singleton.mpr htarget⟩
  | write u => exact fun _ hmem => absurd hmem not_mem_nil
  | truncate u => exact fun _ hmem => absurd hmem not_mem_nil

namespace Portable

/-! ### The content of one operation -/

def Readable (dev : Device) (volume : Volume) (blocks : Lba → Bytes) : Prop :=
  ∀ lba < volume.geo.totalBlocks, dev.readOne lba = .ok (blocks lba)

/-- Extents as the half-open ranges the Rust scan keeps. -/
def spans (extents : List LogExtent) : List (Nat × Nat) := extents.map fun e => (e.1, e.1 + e.2)

variable {dev : Device} {volume : Volume} {blocks : Lba → Bytes}

theorem readRun_eq (hread : Readable dev volume blocks) {start count remaining : Nat}
    (hend : start + count ≤ volume.geo.totalBlocks) :
    readRun dev (List.range' start count) remaining
      = .ok (IntentLog.readRun blocks defaultBlockSize count start remaining) := by
  induction count generalizing start remaining with
  | zero => rfl
  | succ count ih =>
    rw [range'_succ, readRun, IntentLog.readRun]
    split
    · rfl
    · rw [hread start (by omega)]
      dsimp only
      rw [ih (by omega)]
      rfl

/-- The C scan also asks for the last block to be allocatable, which is so inside one region. -/
theorem logExtentValid_iff {e : LogExtent} (hbounds : e.2 ≠ 0 ∧ e.1 + e.2 < 2 ^ 64) :
    logExtentValid volume e = true ↔ ¬(e.1 + e.2 > volume.geo.totalBlocks ∨ ¬volume.geo.isAllocatable e.1 = true ∨
        volume.geo.regionOf e.1 ≠ volume.geo.regionOf (e.1 + e.2 - 1)) := by
  simp only [logExtentValid, decide_eq_true_eq, not_or, not_not, not_lt]
  constructor
  · rintro ⟨-, -, htotal, hfirst, -, hreg⟩
    exact ⟨htotal, hfirst, hreg⟩
  · rintro ⟨htotal, hfirst, hreg⟩
    refine ⟨hbounds.1, hbounds.2, htotal, hfirst, ?_, hreg⟩
    simp only [Geometry.isAllocatable, Bool.and_eq_true, decide_eq_true_eq, ← hreg] at hfirst ⊢
    omega

/-- The extents of an operation against those of the operations before it. -/
def FreeExtents (volume : Volume) (used extents : List LogExtent) : Prop :=
  ∀ e ∈ extents, logExtentValid volume e = true ∧ ∀ other ∈ used, extentsOverlap e other = false

variable {used extents : List LogExtent}

theorem firstBadExtent_eq_none : firstBadExtent volume used extents = none ↔ FreeExtents volume used extents := by
  simp [firstBadExtent, FreeExtents, find?_eq_none]

theorem spans_overlap {e : LogExtent} {used : List LogExtent} :
    (∃ other ∈ spans used, other.1 < e.1 + e.2 ∧ e.1 < other.2) ↔
      ¬∀ other ∈ used, extentsOverlap e other = false := by
  simp only [spans, mem_map, extentsOverlap, Bool.and_eq_false_iff, decide_eq_false_iff_not,
    not_forall, not_or, not_not]
  constructor
  · rintro ⟨_, ⟨other, hmem, rfl⟩, hleft, hright⟩
    exact ⟨other, hmem, hright, hleft⟩
  · rintro ⟨other, hmem, hright, hleft⟩
    exact ⟨_, ⟨other, hmem, rfl⟩, hleft, hright⟩

theorem spans_concat (used : List LogExtent) (e : LogExtent) :
    spans used ++ [(e.1, e.1 + e.2)] = spans (used ++ [e]) := by
  rw [spans, spans, map_append]
  rfl

theorem extentsOverlap_comm (a b : LogExtent) : extentsOverlap a b = extentsOverlap b a := by
  rw [extentsOverlap, extentsOverlap, Bool.and_comm]

theorem readExtents_of_free (hread : Readable dev volume blocks) (hsize : volume.geo.blockSize = defaultBlockSize)
    (hsound : SoundExtents extents) (hfree : FreeExtents volume used extents) (sequence remaining : Nat) :
    ∃ content rest, readExtentContent dev volume extents remaining = .ok (content, rest) ∧
      IntentLog.readExtents blocks volume.geo sequence extents (spans used) remaining
        = .ok (content, rest, spans (used ++ extents)) := by
  induction extents generalizing used remaining with
  | nil => exact ⟨[], remaining, rfl, by rw [append_nil]; rfl⟩
  | cons e rest ih =>
    obtain ⟨hval, hapart⟩ := hfree e (by simp)
    obtain ⟨hfirst, hpairs⟩ := pairwise_cons.mp hsound.apart
    have hbounds := (logExtentValid_iff (hsound.bounds e (by simp))).mp hval
    have hend : e.1 + e.2 ≤ volume.geo.totalBlocks := not_lt.mp (not_or.mp hbounds).1
    have hlater : FreeExtents volume (used ++ [e]) rest := by
      intro b hb
      obtain ⟨hb', hused⟩ := hfree b (mem_cons_of_mem _ hb)
      refine ⟨hb', fun other hoth => ?_⟩
      obtain hmem | hmem := mem_append.mp hoth
      · exact hused other hmem
      · rw [mem_singleton.mp hmem, extentsOverlap_comm]
        exact hfirst b hb
    have hrun := @readRun_eq dev volume blocks hread e.1 e.2 remaining hend
    rcases hhead : IntentLog.readRun blocks defaultBlockSize e.2 e.1 remaining with ⟨head, left⟩
    rw [hhead] at hrun
    obtain ⟨tail, last, hport, hrust⟩ :=
      ih ⟨fun b hb => hsound.bounds b (mem_cons_of_mem _ hb), hpairs⟩ hlater left
    refine ⟨head ++ tail, last, ?_, ?_⟩
    · rw [readExtentContent, if_neg (by rw [hval]; decide), hrun]
      simp only [bind, Except.bind, hport, pure, Except.pure]
    · rw [IntentLog.readExtents, refuseIf_bind hbounds,
        refuseIf_bind (fun h => spans_overlap.mp h hapart), hsize, hhead, spans_concat]
      dsimp only
      rw [hrust, append_assoc]
      rfl

theorem readExtents_of_not_free (hsound : SoundExtents extents)
    (hfree : ¬FreeExtents volume used extents) (sequence remaining : Nat) :
    ∃ reason, IntentLog.readExtents blocks volume.geo sequence extents (spans used) remaining = .error reason := by
  induction extents generalizing used remaining with
  | nil => exact absurd (fun _ hmem => absurd hmem not_mem_nil) hfree
  | cons e rest ih =>
    have hval := @logExtentValid_iff volume e (hsound.bounds e (by simp))
    rw [IntentLog.readExtents]
    by_cases hbounds : e.1 + e.2 > volume.geo.totalBlocks ∨ ¬volume.geo.isAllocatable e.1 = true ∨
        volume.geo.regionOf e.1 ≠ volume.geo.regionOf (e.1 + e.2 - 1)
    · exact ⟨_, refuseIf_bind_error hbounds _ _⟩
    rw [refuseIf_bind hbounds]
    by_cases hapart : ∀ other ∈ used, extentsOverlap e other = false
    · -- the extent itself is free, so a later one is not
      have hlater : ¬FreeExtents volume (used ++ [e]) rest := by
        intro hrest
        apply hfree
        intro b hb
        obtain heq | hmem := mem_cons.mp hb
        · rw [heq]
          exact ⟨hval.mpr hbounds, hapart⟩
        · obtain ⟨hb', hused⟩ := hrest b hmem
          exact ⟨hb', fun other hoth => hused other (mem_append_left _ hoth)⟩
      rw [refuseIf_bind (fun h => spans_overlap.mp h hapart), spans_concat]
      rcases IntentLog.readRun blocks volume.geo.blockSize e.2 e.1 remaining with ⟨head, left⟩
      obtain ⟨reason, hreason⟩ := ih ⟨fun b hb => hsound.bounds b (mem_cons_of_mem _ hb),
        (pairwise_cons.mp hsound.apart).2⟩ hlater left
      exact ⟨reason, by dsimp only; rw [hreason]; rfl⟩
    · exact ⟨_, refuseIf_bind_error (spans_overlap.mpr hapart) _ _⟩

/-- The two sides' checks of one operation pass together or fail together. -/
def OpAgrees (dev : Device) (volume : Volume) (blocks : Lba → Bytes) (sequence : Nat)
    (used : List LogExtent) (op : LogOp) : Prop :=
  (firstBadExtent volume used op.dataExtents = none ∧
    verifyLogOperationContent dev volume op = .ok () ∧
    IntentLog.verifyOpContent blocks volume.geo sequence op (spans used)
      = .ok (spans (used ++ op.dataExtents))) ∨
  (((∃ e, firstBadExtent volume used op.dataExtents = some e) ∨
      firstBadExtent volume used op.dataExtents = none ∧
        ∃ block, verifyLogOperationContent dev volume op = .error block) ∧
    ∃ reason, IntentLog.verifyOpContent blocks volume.geo sequence op (spans used) = .error reason)

theorem coveredBytes_eq (hsize : volume.geo.blockSize = defaultBlockSize) (op : LogOp) :
    IntentLog.coveredBytes volume.geo op = op.contentBytes := by
  unfold IntentLog.coveredBytes
  rw [hsize]
  cases op <;> rfl

section

variable (hread : Readable dev volume blocks) (hsize : volume.geo.blockSize = defaultBlockSize) {op : LogOp}
  (hop : op.Decoded) (used : List LogExtent) (sequence : Nat)

include hread hsize hop

/-- The operations with content, whose checks both sides write once for all three. -/
theorem opAgrees_of_data (hport : verifyLogOperationContent dev volume op =
      if op.contentBytes ≥ 2 ^ 64 then .error none
      else match readExtentContent dev volume op.dataExtents op.contentBytes with
        | .error lba => .error (some lba)
        | .ok (content, remaining) =>
          if remaining ≠ 0 ∨ crc32c content ≠ op.contentCrc then
            .error (op.dataExtents.head?.map Prod.fst)
          else .ok ()) (hrust : IntentLog.verifyOpContent blocks volume.geo sequence op (spans used) = do
      let (content, remaining, referenced) ← IntentLog.readExtents blocks volume.geo sequence
        op.dataExtents (spans used) (IntentLog.coveredBytes volume.geo op)
      refuseIf (remaining ≠ 0) s!"log record {sequence} content larger than its extents"
      refuseIf (crc32c content ≠ op.contentCrc)
        s!"log record {sequence} content CRC mismatch (torn data)"
      pure referenced) :
    OpAgrees dev volume blocks sequence used op := by
  rw [coveredBytes_eq hsize] at hrust
  by_cases hfree : FreeExtents volume used op.dataExtents
  · have hnone := firstBadExtent_eq_none.mpr hfree
    obtain ⟨content, rest, hcont, hreferenced⟩ :=
      readExtents_of_free hread hsize hop.extents hfree sequence op.contentBytes
    rw [if_neg (not_le.mpr hop.contentBytes), hcont] at hport
    rw [hreferenced] at hrust
    dsimp only at hport
    by_cases hrest : rest ≠ 0
    · rw [if_pos (.inl hrest)] at hport
      exact .inr ⟨.inr ⟨hnone, _, hport⟩, _, hrust.trans (refuseIf_bind_error hrest _ _)⟩
    by_cases hcrc : crc32c content ≠ op.contentCrc
    · rw [if_pos (.inr hcrc)] at hport
      exact .inr ⟨.inr ⟨hnone, _, hport⟩, _, hrust.trans
        ((refuseIf_bind hrest _ _).trans (refuseIf_bind_error hcrc _ _))⟩
    · rw [if_neg (not_or.mpr ⟨hrest, hcrc⟩)] at hport
      exact .inl ⟨hnone, hport, hrust.trans ((refuseIf_bind hrest _ _).trans (refuseIf_bind hcrc _ _))⟩
  · obtain ⟨reason, hreason⟩ :=
      @readExtents_of_not_free volume blocks used _ hop.extents hfree sequence op.contentBytes
    rw [hreason] at hrust
    have hsome : ∃ e, firstBadExtent volume used op.dataExtents = some e :=
      Option.ne_none_iff_exists'.mp (mt firstBadExtent_eq_none.mp hfree)
    exact .inr ⟨.inl hsome, reason, hrust⟩

theorem opAgrees : OpAgrees dev volume blocks sequence used op := by
  cases op with
  | create parentId name expectedObjectId sizeBytes contentCrc timestamp extents =>
    exact opAgrees_of_data hread hsize hop used sequence rfl rfl
  | write u => exact opAgrees_of_data hread hsize hop used sequence rfl rfl
  | truncate u => exact opAgrees_of_data hread hsize hop used sequence rfl rfl
  | delete parentId name timestamp =>
    exact .inl ⟨rfl, rfl, congrArg (Except.ok ∘ spans) (append_nil used).symm⟩
  | rename sourceParentId sourceName targetParentId targetName replace timestamp =>
    exact .inl ⟨rfl, rfl, congrArg (Except.ok ∘ spans) (append_nil used).symm⟩

end

/-! ### The operations of one record -/

theorem scanNames_decoded {lba : Lba} {names : List Bytes}
    (h : ∀ name ∈ names, validateName name = .ok ()) (known : Bool) :
    ∃ known', scanNames volume lba names known = .ok known' := by
  induction names generalizing known with
  | nil => exact ⟨known, rfl⟩
  | cons name rest ih =>
    have hname := h name (by simp)
    have hlen := validateName_length hname
    have hrest := fun known => ih (fun n hn => h n (mem_cons_of_mem _ hn)) known
    have hkey : ¬(validName name = false ∨ name.length > treeMaxKey) := by
      rw [validName_iff.mpr hname, treeMaxKey]
      simp only [Bool.true_eq_false, false_or]
      omega
    rw [scanNames, nameKey, if_neg hkey]
    split
    · exact hrest known
    · exact hrest false
    · rename_i status hstatus hoth
      split at hoth
      · cases hoth
        exact absurd rfl hstatus
      · cases hoth

def supports (volume : Volume) (op : LogOp) : Bool :=
  !op.isExistingFileUpdate || volume.intentLogDataUpdates

theorem scanOperations_cons {lba : Lba} {used : List LogExtent} {op : LogOp} {rest : List LogOp}
    {known : Bool} (hsupports : supports volume op = true) (hnames : ∀ name ∈ op.names, validateName name = .ok ()) :
    ∃ known', scanOperations dev volume lba used (op :: rest) known =
      match firstBadExtent volume used op.dataExtents with
      | some e => .error (.tail .content (some e.1) known')
      | none =>
        match verifyLogOperationContent dev volume op with
        | .error block => .error (.tail .content block known')
        | .ok () => scanOperations dev volume lba (used ++ op.dataExtents) rest known' := by
  obtain ⟨known', hknown⟩ := @scanNames_decoded volume lba _ hnames known
  have hfeature : ¬(op.isExistingFileUpdate = true ∧ volume.intentLogDataUpdates = false) := by
    rintro ⟨hupdate, hmissing⟩
    simp [supports, hupdate, hmissing] at hsupports
  refine ⟨known', ?_⟩
  rw [scanOperations, if_neg hfeature]
  cases firstBadExtent volume used op.dataExtents with
  | some e => rw [hknown]
  | none => cases verifyLogOperationContent dev volume op <;> rw [hknown]

/-- What the C walk over a record's operations says in the terms of the Rust one: the operations up to
the first that the volume does not support decide. -/
theorem scanOperations_cases (hread : Readable dev volume blocks)
    (hsize : volume.geo.blockSize = defaultBlockSize) {ops : List LogOp}
    (hops : ∀ op ∈ ops, op.Decoded) (lba : Lba) (sequence : Nat) (used : List LogExtent) (known : Bool) :
    (∃ known', scanOperations dev volume lba used ops known = .ok known' ∧ ops.all (supports volume) = true ∧
      IntentLog.verifyOps blocks volume.geo sequence (ops.takeWhile (supports volume)) (spans used)
        = .ok (spans (used ++ ops.flatMap LogOp.dataExtents))) ∨
    (scanOperations dev volume lba used ops known = .error (.failed .corrupt) ∧ ops.all (supports volume) = false ∧
      ∃ referenced, IntentLog.verifyOps blocks volume.geo sequence
        (ops.takeWhile (supports volume)) (spans used) = .ok referenced) ∨
    ((∃ state block known', scanOperations dev volume lba used ops known = .error (.tail state block known')) ∧
      ∃ reason, IntentLog.verifyOps blocks volume.geo sequence
        (ops.takeWhile (supports volume)) (spans used) = .error reason) := by
  induction ops generalizing used known with
  | nil => exact .inl ⟨known, rfl, rfl, by rw [flatMap_nil, append_nil]; rfl⟩
  | cons op rest ih =>
    obtain ⟨hop, hrest⟩ := forall_mem_cons.mp hops
    cases hsupports : supports volume op with
    | false =>
      -- the feature check stands in front of everything else
      have hfeature : op.isExistingFileUpdate = true ∧ volume.intentLogDataUpdates = false := by
        simpa [supports] using hsupports
      refine .inr (.inl ⟨by rw [scanOperations, if_pos hfeature], ?_, spans used, ?_⟩)
      · rw [all_cons, hsupports, Bool.false_and]
      · rw [takeWhile_cons_of_neg (by rw [hsupports]; decide)]
        rfl
    | true =>
      obtain ⟨known', hstep⟩ := @scanOperations_cons dev volume lba used op rest known hsupports hop.names
      rw [hstep, takeWhile_cons_of_pos hsupports, all_cons, hsupports, Bool.true_and,
        IntentLog.verifyOps, flatMap_cons, ← append_assoc]
      obtain ⟨hnone, hport, hrust⟩ | ⟨hbad, reason, hrust⟩ := opAgrees hread hsize hop used sequence
      · rw [hnone, hport, hrust]
        exact ih hrest (used ++ op.dataExtents) known'
      · refine .inr (.inr ⟨?_, reason, by rw [hrust]; rfl⟩)
        obtain ⟨e, hsome⟩ | ⟨hnone, block, hport⟩ := hbad
        · rw [hsome]
          exact ⟨_, _, _, rfl⟩
        · rw [hnone, hport]
          exact ⟨_, _, _, rfl⟩

end Portable

end Afsplus
