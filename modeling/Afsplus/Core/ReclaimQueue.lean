import Afsplus.Core.Reclaim

/-!
# The reclaim queue as one list of runs

The queue's runs lie in three tiers, behind a cursor. `queuedRuns` is the list they stand for. A queue
that loads is one whose blocks can be read and whose cursor stands inside its head segment, and
consuming takes blocks from the front of the list, whichever tier the front is in.
-/

namespace Afsplus

open Fallible List ReclaimRoot

namespace ReclaimTx

def takeBlocks : Nat → List ReclaimEntry → List ReclaimEntry
  | _, [] => []
  | n, entry :: rest =>
    if n = 0 then []
    else if entry.blocks ≤ n then entry :: takeBlocks (n - entry.blocks) rest
    else [{ entry with blocks := n }]

def dropBlocks : Nat → List ReclaimEntry → List ReclaimEntry
  | _, [] => []
  | n, entry :: rest =>
    if n = 0 then entry :: rest
    else if entry.blocks ≤ n then dropBlocks (n - entry.blocks) rest
    else { entry with start := entry.start + n, blocks := entry.blocks - n } :: rest

def blockCount (runs : List ReclaimEntry) : Nat := (runs.map ReclaimEntry.blocks).sum

def runBlocks (entry : ReclaimEntry) : List Nat := List.range' entry.start entry.blocks

variable {entry : ReclaimEntry}

@[simp] theorem takeBlocks_zero (runs : List ReclaimEntry) : takeBlocks 0 runs = [] := by
  cases runs <;> rfl

@[simp] theorem dropBlocks_zero (runs : List ReclaimEntry) : dropBlocks 0 runs = runs := by
  cases runs <;> rfl

@[simp] theorem trimHead_zero (runs : List ReclaimEntry) : trimHead 0 runs = runs := by
  cases runs <;> rfl

@[simp] theorem blockCount_append (runs more : List ReclaimEntry) :
    blockCount (runs ++ more) = blockCount runs + blockCount more := by
  simp [blockCount]

theorem takeBlocks_of_whole (hpos : 0 < entry.blocks) (n : Nat) (rest : List ReclaimEntry) :
    takeBlocks (entry.blocks + n) (entry :: rest) = entry :: takeBlocks n rest := by
  rw [takeBlocks, if_neg (by omega), if_pos (by omega), Nat.add_sub_cancel_left]

theorem dropBlocks_of_whole (hpos : 0 < entry.blocks) (n : Nat) (rest : List ReclaimEntry) :
    dropBlocks (entry.blocks + n) (entry :: rest) = dropBlocks n rest := by
  rw [dropBlocks, if_neg (by omega), if_pos (by omega), Nat.add_sub_cancel_left]

variable {n : Nat}

theorem takeBlocks_of_part (hpos : 0 < n) (hn : n < entry.blocks) (rest : List ReclaimEntry) :
    takeBlocks n (entry :: rest) = [{ entry with blocks := n }] := by
  rw [takeBlocks, if_neg (by omega), if_neg (by omega)]

theorem dropBlocks_of_part (hpos : 0 < n) (hn : n < entry.blocks) (rest : List ReclaimEntry) :
    dropBlocks n (entry :: rest)
      = { entry with start := entry.start + n, blocks := entry.blocks - n } :: rest := by
  rw [dropBlocks, if_neg (by omega), if_neg (by omega)]

variable {runs : List ReclaimEntry}

theorem takeBlocks_append (hn : n ≤ blockCount runs)
    (more : List ReclaimEntry) : takeBlocks n (runs ++ more) = takeBlocks n runs := by
  induction runs generalizing n with
  | nil =>
    have hzero : n = 0 := by simpa [blockCount] using hn
    rw [hzero, takeBlocks_zero, takeBlocks_zero]
  | cons entry rest ih =>
    have hrest : n - entry.blocks ≤ blockCount rest := by
      simp only [blockCount, map_cons, sum_cons] at hn ⊢
      omega
    rw [cons_append, takeBlocks, takeBlocks, ih hrest]

theorem dropBlocks_append (hn : n ≤ blockCount runs)
    (more : List ReclaimEntry) : dropBlocks n (runs ++ more) = dropBlocks n runs ++ more := by
  induction runs generalizing n with
  | nil =>
    have hzero : n = 0 := by simpa [blockCount] using hn
    rw [hzero, dropBlocks_zero, dropBlocks_zero]
  | cons entry rest ih =>
    have hrest : n - entry.blocks ≤ blockCount rest := by
      simp only [blockCount, map_cons, sum_cons] at hn ⊢
      omega
    rw [cons_append, dropBlocks, dropBlocks, ih hrest]
    split
    · rfl
    · split <;> rfl

theorem dropBlocks_add (n m : Nat) (runs : List ReclaimEntry) :
    dropBlocks (n + m) runs = dropBlocks m (dropBlocks n runs) := by
  induction runs generalizing n with
  | nil => rfl
  | cons entry rest ih =>
    by_cases hn : n = 0
    · rw [hn, Nat.zero_add, dropBlocks_zero]
    · by_cases hwhole : entry.blocks ≤ n
      · have hsum : n + m - entry.blocks = n - entry.blocks + m := by omega
        rw [dropBlocks, if_neg (by omega), if_pos (by omega), hsum, ih, dropBlocks.eq_2 n,
          if_neg hn, if_pos hwhole]
      · rw [dropBlocks.eq_2 n, if_neg hn, if_neg hwhole, dropBlocks, dropBlocks, if_neg (by omega)]
        by_cases hm : m = 0
        · rw [if_pos hm, if_neg (by omega)]
          simp [hm]
        · rw [if_neg hm]
          split
          case isTrue h =>
            rw [if_pos (show entry.blocks - n ≤ m by omega)]
            congr 1
            show _ = m - (entry.blocks - n)
            omega
          case isFalse h =>
            rw [if_neg (show ¬entry.blocks - n ≤ m by omega)]
            simp only [Nat.add_assoc, Nat.sub_sub]

theorem takeBlocks_add (hwhole : takeBlocks n runs ++ dropBlocks n runs = runs) (m : Nat) :
    takeBlocks (n + m) runs = takeBlocks n runs ++ takeBlocks m (dropBlocks n runs) := by
  induction runs generalizing n with
  | nil => rfl
  | cons entry rest ih =>
    by_cases hn : n = 0
    · rw [hn, Nat.zero_add, takeBlocks_zero, dropBlocks_zero, nil_append]
    · by_cases hfits : entry.blocks ≤ n
      · have hsum : n + m - entry.blocks = n - entry.blocks + m := by omega
        rw [takeBlocks.eq_2, dropBlocks.eq_2, if_neg hn, if_neg hn, if_pos hfits, if_pos hfits,
          cons_append] at hwhole
        rw [takeBlocks, if_neg (by omega), if_pos (by omega), hsum,
          ih (List.cons.inj hwhole).2, takeBlocks.eq_2 n, dropBlocks.eq_2 n, if_neg hn, if_neg hn,
          if_pos hfits, if_pos hfits, cons_append]
      · -- a run cut in two has become two runs
        rw [takeBlocks.eq_2, dropBlocks.eq_2, if_neg hn, if_neg hn, if_neg hfits, if_neg hfits] at hwhole
        have hlen := congrArg List.length hwhole
        simp at hlen

theorem takeBlocks_of_dropBlocks_nil (h : dropBlocks n runs = []) : takeBlocks n runs = runs := by
  induction runs generalizing n with
  | nil => rfl
  | cons entry rest ih =>
    rw [dropBlocks] at h
    split at h
    case isTrue => cases h
    case isFalse hn =>
      split at h
      case isTrue hfits => rw [takeBlocks, if_neg hn, if_pos hfits, ih h]
      case isFalse => cases h

theorem blockCount_takeBlocks (hn : n ≤ blockCount runs) : blockCount (takeBlocks n runs) = n := by
  induction runs generalizing n with
  | nil =>
    have hzero : n = 0 := by simpa [blockCount] using hn
    rw [hzero]
    rfl
  | cons entry rest ih =>
    rw [takeBlocks]
    simp only [blockCount, map_cons, sum_cons] at hn ih ⊢
    split
    · simp [*]
    · split
      case isTrue hfits =>
        rw [map_cons, sum_cons, ih (by omega)]
        omega
      case isFalse => simp

theorem blockCount_dropBlocks (n : Nat) (runs : List ReclaimEntry) :
    blockCount (dropBlocks n runs) = blockCount runs - n := by
  induction runs generalizing n with
  | nil => simp [dropBlocks, blockCount]
  | cons entry rest ih =>
    rw [dropBlocks]
    simp only [blockCount, map_cons, sum_cons] at ih ⊢
    split
    case isTrue hn => simp [hn]
    case isFalse =>
      split
      case isTrue => rw [ih]; omega
      case isFalse => simp only [map_cons, sum_cons]; omega

theorem flatMap_takeBlocks_dropBlocks (n : Nat) (runs : List ReclaimEntry) :
    (takeBlocks n runs).flatMap runBlocks ++ (dropBlocks n runs).flatMap runBlocks = runs.flatMap runBlocks := by
  induction runs generalizing n with
  | nil => rfl
  | cons entry rest ih =>
    rw [takeBlocks, dropBlocks]
    split
    case isTrue => rfl
    case isFalse =>
      split
      case isTrue => rw [flatMap_cons, append_assoc, ih, flatMap_cons]
      case isFalse hn hfits =>
        have hlen : entry.blocks = n + (entry.blocks - n) := by omega
        simp only [flatMap_cons, flatMap_nil, append_nil, runBlocks]
        rw [← append_assoc]
        congr 1
        conv_rhs => rw [hlen, ← range'_append, Nat.one_mul]

/-! ### Sound runs -/

/-- A run that any later load accepts. -/
structure RunOk (geo : Geometry) (generation : Nat) (entry : ReclaimEntry) : Prop where
  valid : entry.validate = .ok ()
  width : entry.blocks < 256 ^ 4
  bounds : Mount.validateRun geo entry = .ok ()
  retired : entry.retireGeneration ≤ generation

theorem validate_eq_ok :
    entry.validate = .ok () ↔ 0 < entry.blocks ∧ 0 < entry.retireGeneration ∧
      entry.start + entry.blocks < 2 ^ 64 := by
  rw [ReclaimEntry.validate, refuseIf_ok, refuseIf_ok, refuseIf_eq_ok]
  omega

theorem validateRun_eq_ok {geo : Geometry} :
    Mount.validateRun geo entry = .ok () ↔ entry.start + entry.blocks ≤ geo.totalBlocks ∧
      geo.isAllocatable entry.start ∧ geo.regionOf entry.start = geo.regionOf (entry.start + entry.blocks - 1) := by
  rw [Mount.validateRun, refuseIf_ok, refuseIf_eq_ok]
  simp only [not_or, not_lt, not_not, ne_eq, and_assoc]

variable {geo : Geometry} {generation : Nat}

theorem RunOk.pos (h : RunOk geo generation entry) : 0 < entry.blocks :=
  (validate_eq_ok.mp h.valid).1

theorem RunOk.mono (h : RunOk geo generation entry) {later : Nat}
    (hle : generation ≤ later) : RunOk geo later entry :=
  ⟨h.valid, h.width, h.bounds, h.retired.trans hle⟩

variable {offset : Nat}

theorem validateRun_trim (h : Mount.validateRun geo entry = .ok ()) (hoff : offset < entry.blocks) :
    Mount.validateRun geo ⟨entry.start + offset, entry.blocks - offset, entry.retireGeneration⟩ = .ok () := by
  obtain ⟨hbound, halloc, hreg⟩ := validateRun_eq_ok.mp h
  have hlow : geo.regionOf entry.start ≤ geo.regionOf (entry.start + offset) := Nat.div_le_div_right (by omega)
  have hhigh : geo.regionOf (entry.start + offset) ≤ geo.regionOf (entry.start + entry.blocks - 1) :=
    Nat.div_le_div_right (by omega)
  have hsame : geo.regionOf (entry.start + offset) = geo.regionOf entry.start := by omega
  have hlast : entry.start + offset + (entry.blocks - offset) = entry.start + entry.blocks := by omega
  refine validateRun_eq_ok.mpr ⟨?_, ?_, ?_⟩
  · rw [hlast]
    exact hbound
  · simp only [Geometry.isAllocatable, Bool.and_eq_true, decide_eq_true_eq] at halloc ⊢
    rw [hsame]
    omega
  · rw [hlast, hsame]
    exact hreg

theorem RunOk.trim (h : RunOk geo generation entry) (hoff : offset < entry.blocks) :
    RunOk geo generation ⟨entry.start + offset, entry.blocks - offset, entry.retireGeneration⟩ := by
  obtain ⟨hpos, hretired, hend⟩ := validate_eq_ok.mp h.valid
  have hlast : entry.start + offset + (entry.blocks - offset) = entry.start + entry.blocks := by omega
  refine ⟨validate_eq_ok.mpr ⟨?_, hretired, ?_⟩, ?_, validateRun_trim h.bounds hoff, h.retired⟩
  · show 0 < entry.blocks - offset
    omega
  · rw [hlast]
    exact hend
  · exact lt_of_le_of_lt (Nat.sub_le _ _) h.width

theorem runOk_trimHead (hruns : ∀ run ∈ runs, RunOk geo generation run)
    (hoff : ∀ run ∈ runs.head?, offset < run.blocks) : ∀ run ∈ trimHead offset runs, RunOk geo generation run := by
  cases runs with
  | nil => simp [trimHead]
  | cons entry rest =>
    intro run hmem
    rcases mem_cons.mp hmem with rfl | hmem
    · exact (hruns entry (by simp)).trim (hoff entry (by simp))
    · exact hruns run (by simp [hmem])

theorem runOk_dropBlocks (hruns : ∀ run ∈ runs, RunOk geo generation run)
    (n : Nat) : ∀ run ∈ dropBlocks n runs, RunOk geo generation run := by
  induction runs generalizing n with
  | nil => simp [dropBlocks]
  | cons entry rest ih =>
    have hrest := fun run hmem => hruns run (mem_cons_of_mem entry hmem)
    rw [dropBlocks]
    split
    case isTrue => exact hruns
    case isFalse =>
      split
      case isTrue => exact ih hrest _
      case isFalse hn hfits =>
        intro run hmem
        rcases mem_cons.mp hmem with rfl | hmem
        · exact (hruns entry (by simp)).trim (by omega)
        · exact hrest run hmem

variable {entries : List ReclaimEntry}

theorem checkEntries_eq_ok :
    checkEntries geo generation entries = .ok () ↔ ∀ entry ∈ entries,
      Mount.validateRun geo entry = .ok () ∧ entry.retireGeneration ≤ generation := by
  induction entries with
  | nil => simp [checkEntries]
  | cons entry rest ih =>
    rw [checkEntries, check_ok, refuseIf_ok, ih, forall_mem_cons, not_lt, and_assoc]

variable {refs : List SealedRef}

theorem checkRefs_eq_ok {what : String} :
    checkRefs geo what refs = .ok () ↔ ∀ ref ∈ refs, geo.isAllocatable ref.lba := by
  induction refs with
  | nil => simp [checkRefs]
  | cons ref rest ih =>
    rw [checkRefs, refuseIf_ok, ih, forall_mem_cons, not_not]

variable {dev : Device} {ref : SealedRef}

theorem readSegment_eq_ok :
    readSegment dev geo ref generation = .ok entries ↔ ref.lba < dev.totalBlocks ∧
      ∃ written, ReclaimSegment.decode (dev.blocks ref.lba) = .ok (⟨entries⟩, written) ∧
        written ≤ generation ∧ entries.length = ref.count ∧ checkEntries geo generation entries = .ok () := by
  rw [readSegment, Device.read_decode_eq_ok]
  simp only [Prod.exists, check_ok, refuseIf_eq_ok, pure_ok, not_or, not_lt, not_not]
  constructor
  · rintro ⟨hlba, ⟨_⟩, written, hdec, ⟨hwritten, hlen⟩, hcheck, rfl⟩
    exact ⟨hlba, written, hdec, hwritten, hlen, hcheck⟩
  · rintro ⟨hlba, written, hdec, hwritten, hlen, hcheck⟩
    exact ⟨hlba, _, written, hdec, ⟨hwritten, hlen⟩, hcheck, rfl⟩

theorem readTable_eq_ok :
    readTable dev geo ref generation = .ok refs ↔ ref.lba < dev.totalBlocks ∧
      ∃ written, ReclaimTable.decode (dev.blocks ref.lba) = .ok (⟨refs⟩, written) ∧
        written ≤ generation ∧ refs.length = ref.count ∧ ∀ segment ∈ refs, geo.isAllocatable segment.lba := by
  rw [readTable, Device.read_decode_eq_ok]
  simp only [Prod.exists, check_ok, refuseIf_eq_ok, pure_ok, not_or, not_lt, not_not, checkRefs_eq_ok]
  constructor
  · rintro ⟨hlba, ⟨_⟩, written, hdec, ⟨hwritten, hlen⟩, hcheck, rfl⟩
    exact ⟨hlba, written, hdec, hwritten, hlen, hcheck⟩
  · rintro ⟨hlba, written, hdec, hwritten, hlen, hcheck⟩
    exact ⟨hlba, _, written, hdec, ⟨hwritten, hlen⟩, hcheck, rfl⟩

theorem readSegment_runOk (h : readSegment dev geo ref generation = .ok entries) :
    entries ≠ [] ∧ ∀ entry ∈ entries, RunOk geo generation entry := by
  obtain ⟨-, written, hdec, -, -, hcheck⟩ := readSegment_eq_ok.mp h
  obtain ⟨hnonempty, -, hrng⟩ := ReclaimSegment.decode_eq_ok hdec
  refine ⟨hnonempty, fun entry hmem => ?_⟩
  obtain ⟨-, hwidth, -, hval⟩ := hrng entry hmem
  obtain ⟨hbounds, hretired⟩ := checkEntries_eq_ok.mp hcheck entry hmem
  exact ⟨hval, hwidth, hbounds, hretired⟩

theorem readTable_nonempty (h : readTable dev geo ref generation = .ok refs) : 0 < refs.length := by
  obtain ⟨-, written, hdec, -⟩ := readTable_eq_ok.mp h
  exact length_pos_iff.mpr (ReclaimTable.decode_eq_ok hdec).1

def segmentEntries (dev : Device) (ref : SealedRef) : List ReclaimEntry :=
  match ReclaimSegment.decode (dev.blocks ref.lba) with
  | .ok (segment, _) => segment.entries
  | .error _ => []

def tableSegments (dev : Device) (ref : SealedRef) : List SealedRef :=
  match ReclaimTable.decode (dev.blocks ref.lba) with
  | .ok (table, _) => table.refs
  | .error _ => []

def sealedSegments (dev : Device) (root : ReclaimRoot) : List SealedRef :=
  (root.tableRefs.flatMap (tableSegments dev)).drop root.headSegmentOffset ++ root.segmentRefs

/-- The runs of sealed segments behind a cursor into the first of them. -/
def runsBehind (dev : Device) (segments : List SealedRef) (entryOffset blockOffset : Nat) :
    List ReclaimEntry :=
  trimHead blockOffset ((segments.flatMap (segmentEntries dev)).drop entryOffset)

def queuedRuns (dev : Device) (root : ReclaimRoot) : List ReclaimEntry :=
  runsBehind dev (sealedSegments dev root) root.headEntryOffset root.headBlockOffset ++
    root.inlineEntries

def sealedBlocks (dev : Device) (root : ReclaimRoot) : List Nat :=
  (root.tableRefs ++ sealedSegments dev root).map SealedRef.lba

theorem segmentEntries_of_read
    (h : readSegment dev geo ref generation = .ok entries) : segmentEntries dev ref = entries := by
  obtain ⟨-, written, hdec, -⟩ := readSegment_eq_ok.mp h
  rw [segmentEntries, hdec]

theorem tableSegments_of_read (h : readTable dev geo ref generation = .ok refs) : tableSegments dev ref = refs := by
  obtain ⟨-, written, hdec, -⟩ := readTable_eq_ok.mp h
  rw [tableSegments, hdec]

/-- Where the cursor may stand in the segments it refers to: in a run of the first one, or at that
segment's end. -/
structure CursorOk (dev : Device) (segments : List SealedRef) (entryOffset blockOffset : Nat) :
    Prop where
  none : segments = [] → entryOffset = 0 ∧ blockOffset = 0
  entry : ∀ ref ∈ segments.head?, entryOffset ≤ (segmentEntries dev ref).length
  atEnd : ∀ ref ∈ segments.head?, entryOffset = (segmentEntries dev ref).length → blockOffset = 0
  inRun : ∀ ref ∈ segments.head?, ∀ run ∈ ((segmentEntries dev ref).drop entryOffset).head?,
    blockOffset < run.blocks

variable {segments : List SealedRef}

theorem cursorOk_start (hread : ∀ ref ∈ segments, ∃ entries, readSegment dev geo ref generation = .ok entries) :
    CursorOk dev segments 0 0 := by
  refine ⟨fun _ => ⟨rfl, rfl⟩, fun _ _ => Nat.zero_le _, fun _ _ _ => rfl, ?_⟩
  intro ref href run hrun
  obtain ⟨entries, hents⟩ := hread ref (mem_of_mem_head? href)
  rw [segmentEntries_of_read hents, drop_zero] at hrun
  exact ((readSegment_runOk hents).2 run (mem_of_mem_head? hrun)).pos

theorem trimHead_append (h : runs = [] → offset = 0)
    (more : List ReclaimEntry) : trimHead offset (runs ++ more) = trimHead offset runs ++ more := by
  cases runs with
  | nil => rw [h rfl, nil_append, trimHead_zero, trimHead_zero, nil_append]
  | cons entry rest => rfl

variable {entryOffset blockOffset : Nat} {more tables : List SealedRef} {segmentOffset : Nat}

theorem runsBehind_cons (hcur : CursorOk dev (ref :: more) entryOffset blockOffset) :
    runsBehind dev (ref :: more) entryOffset blockOffset
      = trimHead blockOffset ((segmentEntries dev ref).drop entryOffset) ++ more.flatMap (segmentEntries dev) := by
  have hentry := hcur.entry ref rfl
  rw [runsBehind, flatMap_cons, drop_append_of_le_length hentry]
  refine trimHead_append (fun hnil => hcur.atEnd ref rfl ?_) _
  exact le_antisymm hentry (drop_eq_nil_iff.mp hnil)

theorem runsBehind_append (hcur : CursorOk dev segments entryOffset blockOffset) (more : List SealedRef) :
    runsBehind dev (segments ++ more) entryOffset blockOffset
      = runsBehind dev segments entryOffset blockOffset ++ more.flatMap (segmentEntries dev) := by
  cases segments with
  | nil =>
    obtain ⟨rfl, rfl⟩ := hcur.none rfl
    simp [runsBehind]
  | cons ref rest =>
    have hmore : CursorOk dev (ref :: (rest ++ more)) entryOffset blockOffset :=
      ⟨(fun h => by cases h), hcur.entry, hcur.atEnd, hcur.inRun⟩
    rw [cons_append, runsBehind_cons hmore, runsBehind_cons hcur, flatMap_append, append_assoc]

/-- A queue whose blocks can be read, with its cursor inside its head segment. -/
structure Loadable (dev : Device) (geo : Geometry) (generation : Nat) (root : ReclaimRoot) : Prop where
  tables : ∀ table ∈ root.tableRefs, ∃ refs, readTable dev geo table generation = .ok refs
  segmentOffset : ∀ table ∈ root.tableRefs.head?,
    root.headSegmentOffset < (tableSegments dev table).length
  noTable : root.tableRefs = [] → root.headSegmentOffset = 0
  segments : ∀ ref ∈ sealedSegments dev root,
    ∃ entries, readSegment dev geo ref generation = .ok entries
  cursor : CursorOk dev (sealedSegments dev root) root.headEntryOffset root.headBlockOffset
  refs : ∀ ref ∈ root.tableRefs ++ root.segmentRefs, geo.isAllocatable ref.lba
  entries : ∀ entry ∈ root.inlineEntries, RunOk geo generation entry

variable {root : ReclaimRoot}

theorem Loadable.runOk_segmentEntries {root : ReclaimRoot}
    (h : Loadable dev geo generation root) {ref : SealedRef} (href : ref ∈ sealedSegments dev root) :
    ∀ entry ∈ segmentEntries dev ref, RunOk geo generation entry := by
  obtain ⟨entries, hents⟩ := h.segments ref href
  rw [segmentEntries_of_read hents]
  exact (readSegment_runOk hents).2

theorem Loadable.runOk (h : Loadable dev geo generation root) :
    ∀ run ∈ queuedRuns dev root, RunOk geo generation run := by
  intro run hmem
  rcases mem_append.mp hmem with hsealed | hinline
  · cases hsegs : sealedSegments dev root with
    | nil =>
      rw [hsegs] at hsealed
      simp [runsBehind, trimHead] at hsealed
    | cons ref more =>
      have hruns := @Loadable.runOk_segmentEntries _ _ _ _ h
      have hcur := h.cursor
      rw [hsegs] at hsealed hcur hruns
      rw [runsBehind_cons hcur] at hsealed
      rcases mem_append.mp hsealed with hhead | hrest
      · refine runOk_trimHead ?_ (hcur.inRun ref rfl) run hhead
        intro entry hentry
        exact hruns (by simp) entry (mem_of_mem_drop hentry)
      · obtain ⟨segment, hseg, hrun⟩ := mem_flatMap.mp hrest
        exact hruns (by simp [hseg]) run hrun
  · exact h.entries run hinline

/-! ### What loading returns -/

variable {rootLba : Nat}

theorem readRoot_eq_ok :
    readRoot dev geo rootLba generation = .ok root ↔ geo.isAllocatable rootLba ∧ rootLba < dev.totalBlocks ∧
      ∃ written, decode (dev.blocks rootLba) = .ok (root, written) ∧
        written ≤ generation ∧ checkEntries geo generation root.inlineEntries = .ok () ∧
        ∀ ref ∈ root.tableRefs ++ root.segmentRefs, geo.isAllocatable ref.lba := by
  rw [readRoot, refuseIf_ok, not_not, Device.read_decode_eq_ok]
  simp only [Prod.exists, check_ok, refuseIf_eq_ok, pure_ok, not_lt, checkRefs_eq_ok]
  constructor
  · rintro ⟨halloc, hlba, _, written, hdec, hwritten, hents, hrefs, rfl⟩
    exact ⟨halloc, hlba, written, hdec, hwritten, hents, hrefs⟩
  · rintro ⟨halloc, hlba, written, hdec, hwritten, hents, hrefs⟩
    exact ⟨halloc, hlba, _, written, hdec, hwritten, hents, hrefs, rfl⟩

theorem loadSegment_eq_ok :
    loadSegment dev geo generation ref entryOffset blockOffset = .ok runs ↔
      (∃ entries, readSegment dev geo ref generation = .ok entries) ∧ CursorOk dev [ref] entryOffset blockOffset ∧
        runs = runsBehind dev [ref] entryOffset blockOffset := by
  have hview : runsBehind dev [ref] entryOffset blockOffset
      = trimHead blockOffset ((segmentEntries dev ref).drop entryOffset) := by
    simp [runsBehind]
  rw [loadSegment, bind_ok, hview]
  constructor
  · rintro ⟨entries, hents, h⟩
    obtain ⟨hseg, h⟩ := of_refuse h
    obtain ⟨hrun, h⟩ := of_refuse h
    cases h
    have hok := (readSegment_runOk hents).2
    obtain rfl := segmentEntries_of_read hents
    rw [not_or, not_lt] at hseg
    refine ⟨⟨_, hents⟩, ⟨(fun h => by cases h), ?_, ?_, ?_⟩, rfl⟩
    · rintro _ ⟨⟩
      exact hseg.1
    · rintro _ ⟨⟩ hend
      by_contra hblk
      exact hseg.2 ⟨hend, hblk⟩
    · rintro _ ⟨⟩ run hhead
      by_contra hblk
      have hpos := (hok run (mem_of_mem_drop (mem_of_mem_head? hhead))).pos
      exact hrun ⟨run, hhead, by omega, not_lt.mp hblk⟩
  · rintro ⟨⟨entries, hents⟩, hcur, rfl⟩
    obtain rfl := segmentEntries_of_read hents
    refine ⟨_, hents, refuseIf_ok.mpr ⟨?_, refuseIf_ok.mpr ⟨?_, rfl⟩⟩⟩
    · rintro (hbeyond | ⟨hend, hblk⟩)
      · exact absurd (hcur.entry ref rfl) (not_le.mpr hbeyond)
      · exact hblk (hcur.atEnd ref rfl hend)
    · rintro ⟨run, hhead, -, hbeyond⟩
      exact absurd (hcur.inRun ref rfl run hhead) (not_lt.mpr hbeyond)

theorem cursorOk_singleton :
    CursorOk dev [ref] entryOffset blockOffset ↔ CursorOk dev (ref :: more) entryOffset blockOffset :=
  ⟨fun h => ⟨(fun h => by cases h), h.entry, h.atEnd, h.inRun⟩,
    fun h => ⟨(fun h => by cases h), h.entry, h.atEnd, h.inRun⟩⟩

theorem loadSegments_eq_ok (hnone : segments = [] → entryOffset = 0 ∧ blockOffset = 0) :
    loadSegments dev geo generation segments entryOffset blockOffset = .ok runs ↔
      (∀ ref ∈ segments, ∃ entries, readSegment dev geo ref generation = .ok entries) ∧
        CursorOk dev segments entryOffset blockOffset ∧ runs = runsBehind dev segments entryOffset blockOffset := by
  induction segments generalizing entryOffset blockOffset runs with
  | nil =>
    obtain ⟨rfl, rfl⟩ := hnone rfl
    have hcur : CursorOk dev [] 0 0 := @cursorOk_start geo 0 dev [] (by simp)
    simp [loadSegments, runsBehind, trimHead, hcur, eq_comm]
  | cons ref rest ih =>
    rw [loadSegments, bind_ok]
    constructor
    · rintro ⟨first, hfirst, h⟩
      obtain ⟨more, hmore, h⟩ := of_bind h
      cases h
      obtain ⟨hread, hcur, rfl⟩ := loadSegment_eq_ok.mp hfirst
      obtain ⟨hrest, -, rfl⟩ := (ih fun _ => ⟨rfl, rfl⟩).mp hmore
      have hcur' : CursorOk dev (ref :: rest) entryOffset blockOffset := cursorOk_singleton.mp hcur
      refine ⟨forall_mem_cons.mpr ⟨hread, hrest⟩, hcur', ?_⟩
      rw [runsBehind_cons hcur, runsBehind_cons hcur']
      simp [runsBehind]
    · rintro ⟨hread, hcur, rfl⟩
      obtain ⟨hhead, hrest⟩ := forall_mem_cons.mp hread
      have hcur' := cursorOk_singleton.mpr hcur
      refine ⟨_, loadSegment_eq_ok.mpr ⟨hhead, hcur', rfl⟩, bind_ok.mpr
        ⟨_, (ih fun _ => ⟨rfl, rfl⟩).mpr ⟨hrest, cursorOk_start hrest, rfl⟩, ?_⟩⟩
      rw [runsBehind_cons hcur, runsBehind_cons hcur']
      simp [runsBehind, pure, Except.pure]

/-- The blocks of the tables and of their segments from the cursor's on. -/
def tableBlocks (dev : Device) : List SealedRef → Nat → List Nat
  | [], _ => []
  | table :: rest, segmentOffset =>
    table.lba :: ((tableSegments dev table).drop segmentOffset).map SealedRef.lba ++
      tableBlocks dev rest 0

theorem CursorOk.append {segments : List SealedRef} (h : CursorOk dev segments entryOffset blockOffset)
    (hmore : ∀ ref ∈ more, ∃ entries, readSegment dev geo ref generation = .ok entries) :
    CursorOk dev (segments ++ more) entryOffset blockOffset := by
  cases segments with
  | nil =>
    obtain ⟨rfl, rfl⟩ := h.none rfl
    exact cursorOk_start hmore
  | cons ref rest => exact cursorOk_singleton.mp (cursorOk_singleton.mpr h)

theorem CursorOk.of_append {segments : List SealedRef} (h : CursorOk dev (segments ++ more) entryOffset blockOffset)
    (hnone : segments = [] → entryOffset = 0 ∧ blockOffset = 0) : CursorOk dev segments entryOffset blockOffset := by
  cases segments with
  | nil =>
    obtain ⟨rfl, rfl⟩ := hnone rfl
    exact @cursorOk_start ⟨0, 0, 0⟩ 0 dev [] (by simp)
  | cons ref rest => exact cursorOk_singleton.mp (cursorOk_singleton.mpr h)

theorem loadTables_eq_ok {entryOffset blockOffset : Nat}
    (hnone : tables = [] → segmentOffset = 0 ∧ entryOffset = 0 ∧ blockOffset = 0)
    (hoff : ∀ table ∈ tables.head?, segmentOffset < table.count ∨
      segmentOffset = 0 ∧ entryOffset = 0 ∧ blockOffset = 0) {runs : List ReclaimEntry} {blocks : List Nat} :
    loadTables dev geo generation tables segmentOffset entryOffset blockOffset = .ok (runs, blocks) ↔
      (∀ table ∈ tables, ∃ refs, readTable dev geo table generation = .ok refs) ∧
        (∀ ref ∈ (tables.flatMap (tableSegments dev)).drop segmentOffset,
          ∃ entries, readSegment dev geo ref generation = .ok entries) ∧
        CursorOk dev ((tables.flatMap (tableSegments dev)).drop segmentOffset) entryOffset blockOffset ∧
        runs = runsBehind dev ((tables.flatMap (tableSegments dev)).drop segmentOffset) entryOffset blockOffset ∧
        blocks = tableBlocks dev tables segmentOffset := by
  induction tables generalizing segmentOffset entryOffset blockOffset runs blocks with
  | nil =>
    obtain ⟨rfl, rfl, rfl⟩ := hnone rfl
    have hcur : CursorOk dev [] 0 0 := @cursorOk_start geo 0 dev [] (by simp)
    simp [loadTables, runsBehind, trimHead, tableBlocks, hcur, eq_comm]
  | cons table rest ih =>
    have hfirst := hoff table rfl
    have hrest := @ih 0 0 0 (fun _ => ⟨rfl, rfl, rfl⟩) (fun _ _ => .inr ⟨rfl, rfl, rfl⟩)
    rw [drop_zero] at hrest
    -- once the first table has been read, the cursor's segment is one of its own
    have hcut : ∀ refs, readTable dev geo table generation = .ok refs →
        ((table :: rest).flatMap (tableSegments dev)).drop segmentOffset
          = refs.drop segmentOffset ++ rest.flatMap (tableSegments dev) ∧
        (refs.drop segmentOffset = [] → entryOffset = 0 ∧ blockOffset = 0) := by
      intro refs hrefs
      obtain ⟨-, -, -, -, hlen, -⟩ := readTable_eq_ok.mp hrefs
      rw [flatMap_cons, tableSegments_of_read hrefs, drop_append_of_le_length (by omega), drop_eq_nil_iff]
      exact ⟨rfl, fun _ => by omega⟩
    rw [loadTables, bind_ok]
    constructor
    · rintro ⟨refs, hrefs, h⟩
      obtain ⟨hlive, hnone⟩ := hcut refs hrefs
      obtain ⟨first, hloaded, h⟩ := of_bind h
      obtain ⟨⟨more, blocks'⟩, hmore, h⟩ := of_bind h
      cases h
      obtain ⟨hread, hcur, rfl⟩ := (loadSegments_eq_ok hnone).mp hloaded
      obtain ⟨htabs, hsegs, -, rfl, rfl⟩ := hrest.mp hmore
      rw [hlive, runsBehind_append hcur, tableBlocks, tableSegments_of_read hrefs]
      refine ⟨forall_mem_cons.mpr ⟨⟨refs, hrefs⟩, htabs⟩,
        forall_mem_append.mpr ⟨hread, hsegs⟩, hcur.append hsegs, ?_, rfl⟩
      simp [runsBehind]
    · rintro ⟨htabs, hsegs, hcur, rfl, rfl⟩
      obtain ⟨⟨refs, hrefs⟩, htabs⟩ := forall_mem_cons.mp htabs
      obtain ⟨hlive, hnone⟩ := hcut refs hrefs
      rw [hlive] at hsegs hcur ⊢
      obtain ⟨hread, hsegs⟩ := forall_mem_append.mp hsegs
      have hfront := hcur.of_append hnone
      refine ⟨refs, hrefs, bind_ok.mpr ⟨_, (loadSegments_eq_ok hnone).mpr ⟨hread, hfront, rfl⟩, bind_ok.mpr
          ⟨_, hrest.mpr ⟨htabs, hsegs, cursorOk_start hsegs, rfl, rfl⟩, ?_⟩⟩⟩
      rw [runsBehind_append hfront, tableBlocks, tableSegments_of_read hrefs]
      simp [runsBehind, pure, Except.pure]

theorem validateCursor_eq_ok :
    root.validateCursor = .ok () ↔ (root.tableRefs = [] → root.headSegmentOffset = 0) ∧
      (∀ first ∈ root.tableRefs.head?, root.headSegmentOffset < first.count) ∧
      (root.tableRefs = [] → root.segmentRefs = [] → root.headEntryOffset = 0 ∧ root.headBlockOffset = 0) ∧
      (root.tableRefs = [] → ∀ head ∈ root.segmentRefs.head?, root.headEntryOffset < head.count) := by
  rw [validateCursor]
  cases htabs : root.tableRefs with
  | nil =>
    cases hsegs : root.segmentRefs with
    | nil => simp [refuseIf_ok, refuseIf_eq_ok]
    | cons head rest => simp [refuseIf_ok, refuseIf_eq_ok]
  | cons first rest => simp [refuseIf_ok]

theorem validateRoot_eq_ok {blockSize : Nat} :
    root.validate blockSize = .ok () ↔ root.caps.validate blockSize = .ok () ∧
      (root.tableRefs.length ≤ root.caps.tableRefs ∧ root.segmentRefs.length ≤ root.caps.segmentRefs ∧
        root.inlineEntries.length ≤ root.caps.inlineEntries) ∧
      (∀ table ∈ root.tableRefs, 0 < table.count ∧ table.count ≤ tableRefCap) ∧
      (∀ segment ∈ root.segmentRefs, 0 < segment.count ∧ segment.count ≤ segmentEntryCap) ∧
      root.validateCursor = .ok () ∧ root.appendedBlocksTotal = root.reclaimedBlocksTotal + root.pendingBlocks := by
  have htotals : ¬root.appendedBlocksTotal < root.reclaimedBlocksTotal ∧
      ¬root.appendedBlocksTotal - root.reclaimedBlocksTotal ≠ root.pendingBlocks ↔
      root.appendedBlocksTotal = root.reclaimedBlocksTotal + root.pendingBlocks := by omega
  rw [validate, check_ok, refuseIf_ok, refuseIf_ok, refuseIf_ok, check_ok, refuseIf_ok, refuseIf_eq_ok,
    htotals]
  simp only [not_or, not_lt, not_exists, not_and, ← Nat.pos_iff_ne_zero]

theorem cursor_of_readRoot (h : readRoot dev geo rootLba generation = .ok root) : root.validateCursor = .ok () := by
  obtain ⟨-, -, written, hdec, -⟩ := readRoot_eq_ok.mp h
  obtain ⟨-, -, -, -, hcur, -⟩ := validateRoot_eq_ok.mp (decode_eq_ok hdec).2
  exact hcur

theorem runOk_of_readRoot (h : readRoot dev geo rootLba generation = .ok root) :
    ∀ entry ∈ root.inlineEntries, RunOk geo generation entry := by
  obtain ⟨-, -, written, hdec, -, hents, -⟩ := readRoot_eq_ok.mp h
  obtain ⟨hrng, -⟩ := decode_eq_ok hdec
  intro entry hmem
  obtain ⟨-, hwidth, -⟩ := hrng.entries entry hmem
  have hval := hrng.runs entry hmem
  obtain ⟨hbounds, hretired⟩ := checkEntries_eq_ok.mp hents entry hmem
  exact ⟨hval, hwidth, hbounds, hretired⟩

def loadedBlocks (dev : Device) (rootLba : Nat) (root : ReclaimRoot) : List Nat :=
  rootLba :: tableBlocks dev root.tableRefs root.headSegmentOffset ++
    root.segmentRefs.map SealedRef.lba

theorem tableBlocks_perm (hnone : tables = [] → segmentOffset = 0)
    (hoff : ∀ table ∈ tables.head?, segmentOffset ≤ (tableSegments dev table).length) :
    (tableBlocks dev tables segmentOffset).Perm (tables.map SealedRef.lba ++
        ((tables.flatMap (tableSegments dev)).drop segmentOffset).map SealedRef.lba) := by
  induction tables generalizing segmentOffset with
  | nil => simp [tableBlocks]
  | cons table rest ih =>
    have hrest := ih (fun _ => rfl) (fun _ _ => Nat.zero_le _)
    rw [tableBlocks, flatMap_cons, drop_append_of_le_length (hoff table rfl),
      map_append, map_cons, cons_append, cons_append]
    refine List.Perm.cons _ ((List.Perm.append_left _ hrest).trans ?_)
    rw [drop_zero]
    exact perm_append_comm_assoc _ _ _

theorem loadedBlocks_perm (h : Loadable dev geo generation root) (rootLba : Nat) :
    (loadedBlocks dev rootLba root).Perm (rootLba :: sealedBlocks dev root) := by
  have hperm := tableBlocks_perm h.noTable fun table htable => (h.segmentOffset table htable).le
  rw [loadedBlocks, sealedBlocks, sealedSegments, map_append, map_append, ← append_assoc]
  exact (hperm.append_right _).cons _

theorem loadable_iff (hroot : readRoot dev geo rootLba generation = .ok root) :
    Loadable dev geo generation root ↔
      (∀ table ∈ root.tableRefs, ∃ refs, readTable dev geo table generation = .ok refs) ∧
      (∀ ref ∈ sealedSegments dev root, ∃ entries, readSegment dev geo ref generation = .ok entries) ∧
      CursorOk dev (sealedSegments dev root) root.headEntryOffset root.headBlockOffset := by
  obtain ⟨hnoTable, hfirst, -⟩ := validateCursor_eq_ok.mp (cursor_of_readRoot hroot)
  obtain ⟨-, -, -, -, -, -, hrefs⟩ := readRoot_eq_ok.mp hroot
  refine ⟨fun h => ⟨h.tables, h.segments, h.cursor⟩, fun ⟨htabs, hsegs, hcur⟩ =>
    ⟨htabs, ?_, hnoTable, hsegs, hcur, hrefs, runOk_of_readRoot hroot⟩⟩
  intro table htable
  obtain ⟨refs, hread⟩ := htabs table (mem_of_mem_head? htable)
  obtain ⟨-, -, -, -, hlen, -⟩ := readTable_eq_ok.mp hread
  rw [tableSegments_of_read hread, hlen]
  exact hfirst table htable

theorem loadAll_eq_ok {loaded : LoadedReclaim} :
    loadAll dev geo rootLba generation = .ok loaded ↔ ∃ root,
      readRoot dev geo rootLba generation = .ok root ∧ Loadable dev geo generation root ∧
      blockCount (queuedRuns dev root) = root.pendingBlocks ∧ root.pendingBlocks < 2 ^ 64 ∧
      loaded = ⟨queuedRuns dev root, loadedBlocks dev rootLba root, root.pendingBlocks⟩ := by
  rw [loadAll, bind_ok]
  refine exists_congr fun root => and_congr_right fun hroot => ?_
  obtain ⟨hnoTable, hfirst, hnothing, -⟩ := validateCursor_eq_ok.mp (cursor_of_readRoot hroot)
  rw [loadable_iff hroot, queuedRuns, loadedBlocks]
  by_cases htabs : root.tableRefs = []
  case pos =>
    have hzero := hnoTable htabs
    have hsealed : sealedSegments dev root = root.segmentRefs := by simp [sealedSegments, htabs]
    rw [hsealed, htabs, loadTables, tableBlocks]
    constructor
    · intro h
      obtain ⟨_, ⟨⟩, h⟩ := of_bind h
      obtain ⟨runs, hruns, h⟩ := of_bind h
      obtain ⟨hread, hcur, rfl⟩ := (loadSegments_eq_ok (hnothing htabs)).mp hruns
      obtain ⟨hwidth, h⟩ := of_refuse h
      obtain ⟨hcnt, h⟩ := of_refuse h
      cases h
      rw [not_not] at hcnt
      rw [not_le, hcnt] at hwidth
      exact ⟨⟨by simp, hread, hcur⟩, hcnt, hwidth, rfl⟩
    · rintro ⟨⟨-, hread, hcur⟩, hcnt, hwidth, rfl⟩
      refine bind_ok.mpr ⟨_, rfl, bind_ok.mpr ⟨_, (loadSegments_eq_ok (hnothing htabs)).mpr ⟨hread, hcur, rfl⟩, ?_⟩⟩
      refine refuseIf_ok.mpr ⟨?_, refuseIf_ok.mpr ⟨?_, rfl⟩⟩
      · rw [not_le, nil_append]
        exact hcnt.trans_lt hwidth
      · rw [not_not, nil_append]
        exact hcnt
  case neg =>
    have hload := @loadTables_eq_ok geo generation dev root.tableRefs root.headSegmentOffset
      root.headEntryOffset root.headBlockOffset (fun h => absurd h htabs)
      fun table htable => .inl (hfirst table htable)
    have hlive : (∀ table ∈ root.tableRefs, ∃ refs, readTable dev geo table generation = .ok refs) →
        (root.tableRefs.flatMap (tableSegments dev)).drop root.headSegmentOffset ≠ [] := by
      intro hread hnil
      obtain ⟨table, rest, hcons⟩ := exists_cons_of_ne_nil htabs
      have hinside := hfirst table (by rw [hcons]; rfl)
      obtain ⟨refs, hrefs⟩ := hread table (by rw [hcons]; simp)
      obtain ⟨-, -, -, -, hlen, -⟩ := readTable_eq_ok.mp hrefs
      rw [hcons, drop_eq_nil_iff, flatMap_cons, length_append, tableSegments_of_read hrefs] at hnil
      omega
    have hstart : runsBehind dev root.segmentRefs 0 0 = root.segmentRefs.flatMap (segmentEntries dev) := by
      simp [runsBehind]
    rw [sealedSegments, if_neg htabs]
    constructor
    · intro h
      obtain ⟨⟨tableRuns, blocks⟩, hruns, h⟩ := of_bind h
      obtain ⟨segmentRuns, hsegs, h⟩ := of_bind h
      obtain ⟨hread, htableSegments, hcur, rfl, rfl⟩ := hload.mp hruns
      obtain ⟨hsegmentRead, -, rfl⟩ := (loadSegments_eq_ok fun _ => ⟨rfl, rfl⟩).mp hsegs
      obtain ⟨hwidth, h⟩ := of_refuse h
      obtain ⟨hcnt, h⟩ := of_refuse h
      cases h
      rw [not_not] at hcnt
      rw [not_le, hcnt] at hwidth
      rw [hstart] at hcnt ⊢
      rw [runsBehind_append hcur]
      exact ⟨⟨hread, forall_mem_append.mpr ⟨htableSegments, hsegmentRead⟩,
        hcur.append hsegmentRead⟩, hcnt, hwidth, rfl⟩
    · rintro ⟨⟨hread, hsegs, hcur⟩, hcnt, hwidth, rfl⟩
      obtain ⟨htableSegments, hsegmentRead⟩ := forall_mem_append.mp hsegs
      have hfront := hcur.of_append fun hnil => absurd hnil (hlive hread)
      rw [runsBehind_append hfront] at hcnt ⊢
      refine bind_ok.mpr ⟨_, hload.mpr ⟨hread, htableSegments, hfront, rfl, rfl⟩,
        bind_ok.mpr ⟨_, (loadSegments_eq_ok fun _ => ⟨rfl, rfl⟩).mpr
          ⟨hsegmentRead, cursorOk_start hsegmentRead, hstart.symm⟩, ?_⟩⟩
      refine refuseIf_ok.mpr ⟨?_, refuseIf_ok.mpr ⟨?_, rfl⟩⟩
      · rw [not_le]
        exact hcnt.trans_lt hwidth
      · rw [not_not]
        exact hcnt

end ReclaimTx

end Afsplus
