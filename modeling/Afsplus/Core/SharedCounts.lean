import Afsplus.Core.SharedRecords

/-!
# Counting references through an edit

The edit holds a window of the committed records. Together with the records it has not fetched, the
window always stands for one assignment of counts to blocks; every call changes that assignment in the
blocks of its run and nowhere else, and the publication turns the committed tree into the canonical
records of the assignment reached.
-/

namespace Afsplus

open Wire Fallible Runs List

namespace RefEdit

open SharedExtents

/-- The blocks an edit may touch. -/
def Known (edit : RefEdit) (block : Nat) : Prop :=
  ∃ interval ∈ edit.fetched, interval.1 ≤ block ∧ block < interval.2

/-- The committed records that are not in the window. -/
def unfetched (records : List SharedRun) (edit : RefEdit) : Set SharedRun :=
  { run | run ∈ records ∧ run ∉ runsOf edit.original }

def view (records : List SharedRun) (edit : RefEdit) : Set SharedRun :=
  runsOf edit.current ∪ edit.unfetched records

/-- The edit stands for `counts`. -/
structure Tracks (records : List SharedRun) (edit : RefEdit) (counts : Nat → Nat) : Prop where
  current : Keyed edit.current
  original : Keyed edit.original
  committed : ∀ run ∈ runsOf edit.original, run ∈ records
  fetched : ∀ interval ∈ edit.fetched, ∀ run ∈ records, run.physicalStart ≤ interval.2 →
    interval.1 ≤ run.stop → run ∈ runsOf edit.original
  untouched : ∀ run ∈ runsOf edit.current, ∀ block, Covers run block → ¬edit.Known block →
    ∃ old ∈ runsOf edit.original, Covers old block ∧ old.referenceCount = run.referenceCount
  ok : ∀ run ∈ runsOf edit.current, run.Ok
  layout : Layout (edit.view records)
  shows : Shows (edit.view records) counts 1

section Tracked

variable {records : List SharedRun} {edit : RefEdit} {counts : Nat → Nat} {run : SharedRun}

theorem Tracks.withStats (h : Tracks records edit counts) (stats : RefEditStats) :
    Tracks records { edit with stats } counts :=
  ⟨h.current, h.original, h.committed, h.fetched, h.untouched, h.ok, h.layout, h.shows⟩

theorem Tracks.layout_current (h : Tracks records edit counts) : Layout (runsOf edit.current) :=
  h.layout.mono Set.subset_union_left

theorem Tracks.not_known (h : Tracks records edit counts) (hrun : run ∈ edit.unfetched records)
    {block : Nat} (hblk : Covers run block) : ¬edit.Known block := by
  rintro ⟨interval, hintv, hlow, hhigh⟩
  have hstart : run.physicalStart ≤ block := hblk.1
  have hstop : block < run.stop := hblk.2
  exact hrun.2 (h.fetched interval hintv run hrun.1 (by omega) (by omega))

variable (hrecs : Layout { run | run ∈ records })
include hrecs

theorem Tracks.not_unfetched (h : Tracks records edit counts) (hrun : run ∈ runsOf edit.current) :
    run ∉ edit.unfetched records := by
  intro hrest
  have hcov := h.layout_current.covers_start hrun
  obtain ⟨old, hold, hcovered, -⟩ := h.untouched run hrun _ hcov (h.not_known hrest hcov)
  have heq := hrecs.eq_of_covers (h.committed old hold) hrest.1 hcovered hcov
  exact hrest.2 (heq ▸ hold)

variable {low : Nat}

theorem Tracks.rewrite (h : Tracks records edit counts) (hrun : run ∈ runsOf edit.current)
    {high : Nat} (hlow : run.physicalStart ≤ low) (hlt : low < high) (hhigh : high ≤ run.stop)
    (hknown : ∀ block, low ≤ block → block < high → edit.Known block) {newCount : Option Nat}
    (hnew : ∀ count ∈ newCount, minReferenceCount ≤ count ∧ count < 2 ^ 32) :
    ∃ current, rewriteSegment low high newCount edit.current = .ok current ∧
      runsOf current = exchange (runsOf edit.current) run (pieces run low high newCount) ∧
      Tracks records { edit with current }
        fun block => if low ≤ block ∧ block < high then newCount.getD 1 else counts block := by
  have hok := h.ok run hrun
  obtain ⟨current, hrewrite, hkeyed, hruns⟩ := rewriteSegment_eq_ok h.current h.layout_current hrun
    hok.bounded hlow hlt hhigh newCount
  refine ⟨current, hrewrite, hruns, ?_⟩
  have hmem : run ∈ edit.view records := .inl hrun
  have hview : view records { edit with current }
      = exchange (edit.view records) run (pieces run low high newCount) := by
    have hrest : run ∉ edit.unfetched records := h.not_unfetched hrecs hrun
    show runsOf current ∪ edit.unfetched records = _
    rw [hruns]
    ext other
    constructor
    · rintro ((⟨hoth, hne⟩ | hpiece) | hoth)
      · exact .inl ⟨.inl hoth, hne⟩
      · exact .inr hpiece
      · exact .inl ⟨.inr hoth, fun heq => hrest (heq ▸ hoth)⟩
    · rintro (⟨hoth | hoth, hne⟩ | hpiece)
      · exact .inl (.inl ⟨hoth, hne⟩)
      · exact .inr hoth
      · exact .inl (.inr hpiece)
  have hwithin : ∀ piece ∈ pieces run low high newCount,
      run.physicalStart ≤ piece.physicalStart ∧ piece.stop ≤ run.stop :=
    fun piece hpiece => pieces_within hlow hlt hhigh hpiece
  refine ⟨hkeyed, h.original, h.committed, h.fetched, ?_, ?_, ?_, ?_⟩
  · show ∀ other ∈ runsOf current, _
    rw [hruns]
    rintro other (⟨hoth, -⟩ | hpiece) block hblk hunknown
    · exact h.untouched other hoth block hblk hunknown
    · obtain ⟨hin, hin', -⟩ | ⟨-, hcov, hcnt⟩ := pieces_covers hlow hlt hhigh hpiece hblk
      · exact absurd (hknown block hin hin') hunknown
      · rw [hcnt]
        exact h.untouched run hrun block hcov hunknown
  · show ∀ other ∈ runsOf current, _
    rw [hruns]
    rintro other (⟨hoth, -⟩ | hpiece)
    · exact h.ok other hoth
    · exact pieces_ok hlow hlt hhigh hok hnew hpiece
  · rw [hview]
    exact h.layout.exchange hmem (pieces_layout hlow hlt hhigh hok hnew) hwithin
  · rw [hview]
    refine h.shows.exchange h.layout hmem ?_ ?_ ?_
    · intro block hout
      rw [if_neg]
      rintro ⟨hin, hin'⟩
      exact hout ⟨hlow.trans hin, lt_of_lt_of_le hin' hhigh⟩
    · intro piece hpiece block hblk
      obtain ⟨hin, hin', hcnt⟩ | ⟨hout, hcov, hcnt⟩ := pieces_covers hlow hlt hhigh hpiece hblk
      · rw [if_pos ⟨hin, hin'⟩, hcnt]
        rfl
      · rw [if_neg (by omega), h.shows.inside run hmem block hcov]
        exact hcnt.symm
    · intro block hcov hnone
      have hinside : low ≤ block ∧ block < high := by
        by_contra hout
        obtain ⟨piece, hpiece, hblk⟩ := @exists_piece run low high newCount hlow hhigh block hcov (by omega)
        exact hnone piece hpiece hblk
      rw [if_pos hinside]
      cases newCount with
      | none => rfl
      | some count =>
        refine absurd ⟨hinside.1, ?_⟩ (hnone ⟨low, high - low, count, 0⟩ (.inl (.inr ⟨count, rfl, rfl⟩)))
        show block < low + (high - low)
        omega

omit hrecs in
theorem Tracks.gap_private (h : Tracks records edit counts) {high : Nat}
    (hgap : ∀ run ∈ runsOf edit.current, run.stop ≤ low ∨ high ≤ run.physicalStart)
    (hknown : ∀ block, low ≤ block → block < high → edit.Known block) {block : Nat}
    (hlow : low ≤ block) (hhigh : block < high) : ∀ run ∈ edit.view records, ¬Covers run block := by
  rintro run (hrun | hrun) hcov
  · have hstart : run.physicalStart ≤ block := hcov.1
    have hstop : block < run.stop := hcov.2
    have := hgap run hrun
    omega
  · exact h.not_known hrun hcov (hknown block hlow hhigh)

omit hrecs in
theorem Tracks.fill (h : Tracks records edit counts) {count : Nat} (hcnt : 0 < count) (hbound : low + count < 2 ^ 64)
    (hgap : ∀ run ∈ runsOf edit.current, run.stop ≤ low ∨ low + count ≤ run.physicalStart)
    (hknown : ∀ block, low ≤ block → block < low + count → edit.Known block) :
    runsOf (edit.current.insert low ⟨low, count, minReferenceCount, 0⟩)
        = insert ⟨low, count, minReferenceCount, 0⟩ (runsOf edit.current) ∧
      Tracks records
        { edit with current := edit.current.insert low ⟨low, count, minReferenceCount, 0⟩ }
        fun block => if low ≤ block ∧ block < low + count then minReferenceCount else counts block := by
  set new : SharedRun := ⟨low, count, minReferenceCount, 0⟩
  have hprivate : ∀ block, Covers new block → ∀ run ∈ edit.view records, ¬Covers run block :=
    fun block hblk => h.gap_private hgap hknown hblk.1 hblk.2
  have hapart : ∀ run ∈ edit.view records, Apart new run := by
    intro run hrun
    have hproper : run.physicalStart < run.stop := h.layout.proper run hrun
    by_contra hover
    have hmeet : low < run.stop ∧ run.physicalStart < low + count :=
      ⟨not_le.mp fun hle => hover (.inr hle), not_le.mp fun hle => hover (.inl hle)⟩
    refine hprivate (max low run.physicalStart) ⟨le_max_left .., ?_⟩ run hrun ⟨le_max_right .., ?_⟩
    · show max low run.physicalStart < low + count
      omega
    · show max low run.physicalStart < run.stop
      omega
  have hruns : runsOf (edit.current.insert new.physicalStart new) = insert new (runsOf edit.current) := by
    refine runsOf_insert h.current fun run hrun hstart => ?_
    have hproper := h.layout_current.covers_start hrun
    refine absurd hproper (hprivate _ ?_ run (.inl hrun))
    show low ≤ run.physicalStart ∧ run.physicalStart < low + count
    have hstart : run.physicalStart = low := hstart
    omega
  have hview : view records { edit with current := edit.current.insert low new }
      = insert new (edit.view records) := by
    show runsOf (edit.current.insert new.physicalStart new) ∪ edit.unfetched records = _
    rw [hruns, Set.insert_union]
    rfl
  refine ⟨hruns, h.current.insert new, h.original, h.committed, h.fetched, ?_, ?_, ?_, ?_⟩
  · show ∀ run ∈ runsOf (edit.current.insert new.physicalStart new), _
    rw [hruns]
    rintro run (rfl | hrun) block hblk hunknown
    · exact absurd (hknown block hblk.1 hblk.2) hunknown
    · exact h.untouched run hrun block hblk hunknown
  · show ∀ run ∈ runsOf (edit.current.insert new.physicalStart new), _
    rw [hruns]
    rintro run (rfl | hrun)
    · exact ⟨hcnt, hbound, le_rfl, (by decide : minReferenceCount < 2 ^ 32), rfl⟩
    · exact h.ok run hrun
  · rw [hview]
    exact h.layout.insert (Nat.lt_add_of_pos_right hcnt) hapart
  · rw [hview]
    refine h.shows.insert ?_ ?_ ?_
    · intro block hout
      exact if_neg hout
    · intro block hin
      exact if_pos hin
    · intro run hrun block hblk hnew
      exact hprivate block hnew run hrun hblk

end Tracked

/-! ### Segments that are still to come -/

section Segments

variable {S : Set SharedRun} {run : SharedRun} {segment : SubRun} {low high : Nat}

theorem segmentOk_exchange {newCount : Option Nat} (hseg : SegmentOk S segment)
    (hcnt : 0 < segment.blockCount) (hrun : run ∈ S) (hlow : run.physicalStart ≤ low)
    (hlt : low < high) (hhigh : high ≤ run.stop) (hlater : high ≤ segment.physicalStart) :
    SegmentOk (exchange S run (pieces run low high newCount)) segment := by
  unfold SegmentOk at hseg ⊢
  cases hrefs : segment.referenceCount with
  | none =>
    rw [hrefs] at hseg
    rintro other (⟨hoth, -⟩ | hpiece)
    · exact hseg other hoth
    · obtain ⟨hstart, hstop⟩ := pieces_within hlow hlt hhigh hpiece
      have := hseg run hrun
      omega
  | some references =>
    rw [hrefs] at hseg
    obtain ⟨other, hoth, hstart, hstop, hequal⟩ := hseg
    by_cases heq : other = run
    · subst heq
      refine ⟨_, .inr (.inr ⟨by omega, rfl⟩), hlater, ?_, hequal⟩
      show segment.physicalStart + segment.blockCount ≤ high + (other.stop - high)
      omega
    · exact ⟨other, .inl ⟨hoth, heq⟩, hstart, hstop, hequal⟩

theorem segmentOk_insert (hseg : SegmentOk S segment) (hlater : run.stop ≤ segment.physicalStart) :
    SegmentOk (insert run S) segment := by
  unfold SegmentOk at hseg ⊢
  cases hrefs : segment.referenceCount with
  | none =>
    rw [hrefs] at hseg
    rintro other (rfl | hoth)
    · exact .inl hlater
    · exact hseg other hoth
  | some references =>
    rw [hrefs] at hseg
    obtain ⟨other, hoth, hinside⟩ := hseg
    exact ⟨other, .inr hoth, hinside⟩

end Segments

def maxReferenceCount : Nat := 2 ^ 32 - 1

/-- One more reference for every block of `[low, high)` before the first that cannot take one. -/
def raised (counts : Nat → Nat) (low high : Nat) (block : Nat) : Nat :=
  if low ≤ block ∧ block < high ∧ ∀ other ≤ block, low ≤ other → counts other ≠ maxReferenceCount
  then counts block + 1 else counts block

/-- One reference less for every block of `[low, high)` that has two or more. -/
def lowered (counts : Nat → Nat) (low high : Nat) (block : Nat) : Nat :=
  if low ≤ block ∧ block < high ∧ minReferenceCount ≤ counts block then counts block - 1
  else counts block

variable {counts : Nat → Nat} {low high : Nat}

theorem raised_raised {middle : Nat} (hle : low ≤ middle) (hle' : middle ≤ high)
    (hroom : ∀ block, low ≤ block → block < middle → counts block ≠ maxReferenceCount) :
    raised (raised counts low middle) middle high = raised counts low high := by
  funext block
  have hbehind : ∀ other, middle ≤ other → raised counts low middle other = counts other := by
    intro other hoth
    exact if_neg fun h => by omega
  by_cases hmiddle : middle ≤ block
  · rw [raised, hbehind block hmiddle, raised]
    refine if_congr ⟨?_, ?_⟩ rfl rfl
    · rintro ⟨-, hhigh, hall⟩
      refine ⟨hle.trans hmiddle, hhigh, fun other hoth hlow => ?_⟩
      by_cases hfirst : other < middle
      · exact hroom other hlow hfirst
      · have := hall other hoth (not_lt.mp hfirst)
        rwa [hbehind other (not_lt.mp hfirst)] at this
    · rintro ⟨-, hhigh, hall⟩
      refine ⟨hmiddle, hhigh, fun other hoth hlow => ?_⟩
      rw [hbehind other hlow]
      exact hall other hoth (hle.trans hlow)
  · rw [raised, if_neg fun h => hmiddle h.1, raised, raised]
    refine if_congr ?_ rfl rfl
    refine and_congr_right fun _ => and_congr_left fun _ => ?_
    omega

theorem raised_eq_of_const {count : Nat}
    (hconst : ∀ block, low ≤ block → block < high → counts block = count) (hroom : count ≠ maxReferenceCount) :
    raised counts low high = fun block => if low ≤ block ∧ block < high then count + 1 else counts block := by
  funext block
  rw [raised]
  by_cases hin : low ≤ block ∧ block < high
  · rw [if_pos hin, if_pos, hconst block hin.1 hin.2]
    refine ⟨hin.1, hin.2, fun other hoth hlow => ?_⟩
    rw [hconst other hlow (lt_of_le_of_lt hoth hin.2)]
    exact hroom
  · rw [if_neg hin, if_neg fun h => hin ⟨h.1, h.2.1⟩]

theorem raised_of_full (hfull : counts low = maxReferenceCount) :
    raised counts low high = counts := by
  funext block
  exact if_neg fun h => h.2.2 low h.1 le_rfl hfull

theorem lowered_lowered {middle : Nat} (hle : low ≤ middle) (hle' : middle ≤ high) :
    lowered (lowered counts low middle) middle high = lowered counts low high := by
  funext block
  by_cases hmiddle : middle ≤ block
  · have hbehind : lowered counts low middle block = counts block := if_neg fun h => by omega
    rw [lowered, hbehind, lowered]
    refine if_congr ⟨?_, ?_⟩ rfl rfl
    · rintro ⟨-, hhigh, hshared⟩
      exact ⟨hle.trans hmiddle, hhigh, hshared⟩
    · rintro ⟨-, hhigh, hshared⟩
      exact ⟨hmiddle, hhigh, hshared⟩
  · rw [lowered, if_neg fun h => hmiddle h.1, lowered, lowered]
    refine if_congr ?_ rfl rfl
    refine and_congr_right fun _ => and_congr_left fun _ => ?_
    omega

theorem lowered_eq_of_const {count : Nat}
    (hconst : ∀ block, low ≤ block → block < high → counts block = count) (hshared : minReferenceCount ≤ count) :
    lowered counts low high = fun block => if low ≤ block ∧ block < high then count - 1 else counts block := by
  funext block
  rw [lowered]
  by_cases hin : low ≤ block ∧ block < high
  · have hcnt := hconst block hin.1 hin.2
    rw [if_pos hin, if_pos ⟨hin.1, hin.2, by omega⟩, hcnt]
  · rw [if_neg hin, if_neg fun h => hin ⟨h.1, h.2.1⟩]

theorem lowered_of_private (hprivate : ∀ block, low ≤ block → block < high → counts block = 1) :
    lowered counts low high = counts := by
  funext block
  refine if_neg fun h => ?_
  have hone := hprivate block h.1 h.2.1
  have htwo := h.2.2
  rw [hone] at htwo
  exact absurd htwo (by decide)

def blocksOf (runs : List (Nat × Nat)) : List Nat := runs.flatMap fun run => range' run.1 run.2

section Calls

variable {records : List SharedRun} {edit : RefEdit} {counts : Nat → Nat}
  (hrecs : Layout { run | run ∈ records })
include hrecs

/-- What one segment's edit leaves for the segments behind it. -/
structure SegmentDone (records : List SharedRun) (edit edit' : RefEdit) (counts : Nat → Nat)
    (high : Nat) : Prop where
  tracks : Tracks records edit' counts
  fetched : edit'.fetched = edit.fetched
  later : ∀ segment, SegmentOk (runsOf edit.current) segment → 0 < segment.blockCount →
    high ≤ segment.physicalStart → SegmentOk (runsOf edit'.current) segment

/-- A segment up to `high` that the edit may change. -/
structure Editable (edit : RefEdit) (segment : SubRun) (high : Nat) : Prop where
  positive : 0 < segment.blockCount
  ok : SegmentOk (runsOf edit.current) segment
  stop : segment.physicalStart + segment.blockCount = high
  known : ∀ block, segment.physicalStart ≤ block → block < high → edit.Known block

variable {segment : SubRun} {high : Nat} (hedit : Editable edit segment high)

include hedit

theorem rewrite_segment (h : Tracks records edit counts) {references : Nat}
    (hrefs : segment.referenceCount = some references) :
    (∀ block, segment.physicalStart ≤ block → block < high → counts block = references) ∧
    minReferenceCount ≤ references ∧ references < 2 ^ 32 ∧
    ∀ newCount : Option Nat, (∀ count ∈ newCount, minReferenceCount ≤ count ∧ count < 2 ^ 32) →
      ∃ edit', rewrite segment newCount edit = .ok () edit' ∧ SegmentDone records edit edit'
        (fun block => if segment.physicalStart ≤ block ∧ block < high then newCount.getD 1 else counts block) high := by
  obtain ⟨hcnt, hseg, rfl, hknown⟩ := hedit
  unfold SegmentOk at hseg
  rw [hrefs] at hseg
  obtain ⟨run, hrun, hlow, hhigh, hequal⟩ := hseg
  have hok := h.ok run hrun
  refine ⟨fun block hin hin' => ?_, hequal ▸ hok.shared, hequal ▸ hok.width, fun newCount hnew => ?_⟩
  · rw [← hequal]
    exact h.shows.inside run (.inl hrun) block ⟨hlow.trans hin, lt_of_lt_of_le hin' hhigh⟩
  · have hlt : segment.physicalStart < segment.physicalStart + segment.blockCount := Nat.lt_add_of_pos_right hcnt
    obtain ⟨current, hrewrite, hruns, htracks⟩ := h.rewrite hrecs hrun hlow hlt hhigh hknown hnew
    refine ⟨{ edit with current }, ?_, htracks, rfl, fun later hlater hpos hbehind => ?_⟩
    · rw [RefEdit.rewrite, get_bind_apply]
      exact lift_bind_eq_ok.mpr ⟨current, hrewrite, rfl⟩
    · show SegmentOk (runsOf current) later
      rw [hruns]
      exact segmentOk_exchange hlater hpos hrun hlow hlt hhigh hbehind

variable {edit' : RefEdit} {segments : List SubRun}

omit hrecs hedit in
theorem SegmentDone.withStats (h : SegmentDone records edit edit' counts high) (stats : RefEditStats) :
    SegmentDone records edit { edit' with stats } counts high :=
  ⟨h.tracks.withStats stats, h.fetched, h.later⟩

omit hrecs hedit in
theorem SegmentDone.rest {stop : Nat}
    (h : SegmentDone records edit edit' counts high) (htiles : Tiles high stop segments)
    (hsegs : ∀ other ∈ segments, SegmentOk (runsOf edit.current) other) :
    ∀ other ∈ segments, SegmentOk (runsOf edit'.current) other := by
  intro other hoth
  obtain ⟨hbehind, hpos⟩ := htiles.later other hoth
  exact h.later other (hsegs other hoth) hpos hbehind

omit hrecs hedit in
theorem SegmentDone.known {block : Nat} (h : SegmentDone records edit edit' counts high)
    (hknown : edit.Known block) : edit'.Known block := by
  rwa [Known, ← h.fetched] at hknown

variable (h : Tracks records edit counts)

include h

omit hrecs in
theorem gap_counts (hrefs : segment.referenceCount = none) :
    (∀ run ∈ runsOf edit.current, run.stop ≤ segment.physicalStart ∨ high ≤ run.physicalStart) ∧
    ∀ block, segment.physicalStart ≤ block → block < high → counts block = 1 := by
  obtain ⟨-, hseg, rfl, hknown⟩ := hedit
  unfold SegmentOk at hseg
  rw [hrefs] at hseg
  exact ⟨hseg, fun block hlow hhigh =>
    h.shows.outside block (h.gap_private hseg hknown hlow hhigh)⟩

def limitReached : CoreError := .prototypeLimit "shared-extent reference count limit reached"

theorem acquireSegment_spec (hbound : high < 2 ^ 64) :
    (∃ edit', acquireSegment segment edit = .ok () edit' ∧
      SegmentDone records edit edit' (raised counts segment.physicalStart high) high ∧
      ∀ block, segment.physicalStart ≤ block → block < high → counts block ≠ maxReferenceCount) ∨
    (acquireSegment segment edit = .error limitReached edit ∧
      counts segment.physicalStart = maxReferenceCount) := by
  have hparts := hedit
  obtain ⟨hcnt, -, rfl, hknown⟩ := hparts
  unfold acquireSegment
  cases hrefs : segment.referenceCount with
  | none =>
    obtain ⟨hgap, hcnts⟩ := gap_counts hedit h hrefs
    obtain ⟨hruns, htracks⟩ := h.fill hcnt hbound hgap hknown
    have hraised := raised_eq_of_const hcnts (by decide)
    refine .inl ⟨_, rfl, ⟨?_, rfl, fun later hlater hpos hbehind => ?_⟩, fun block hlow hhigh => ?_⟩
    · rw [hraised]
      exact htracks.withStats _
    · show SegmentOk (runsOf (edit.current.insert _ _)) later
      rw [hruns]
      exact segmentOk_insert hlater hbehind
    · rw [hcnts block hlow hhigh]
      decide
  | some references =>
    obtain ⟨hcnts, hshared, hwidth, hrewrite⟩ := rewrite_segment hrecs hedit h hrefs
    by_cases hroom : references + 1 < 2 ^ 32
    · obtain ⟨edit', hrun, hdone⟩ := hrewrite (some (references + 1)) (by
        rintro count ⟨⟩
        exact ⟨by omega, hroom⟩)
      have hnotFull : references ≠ maxReferenceCount := by
        rw [maxReferenceCount]
        omega
      refine .inl ⟨_, (require_bind hroom ..).trans ((bind_of_ok hrun).trans rfl), ?_, fun block hlow hhigh => ?_⟩
      · rw [raised_eq_of_const hcnts hnotFull]
        exact hdone.withStats _
      · rw [hcnts block hlow hhigh]
        exact hnotFull
    · refine .inr ⟨require_bind_not hroom .., ?_⟩
      rw [hcnts _ le_rfl (Nat.lt_add_of_pos_right hcnt), maxReferenceCount]
      omega

omit hedit in
theorem acquireSegments_spec {low : Nat} (htiles : Tiles low high segments)
    (hsegs : ∀ segment ∈ segments, SegmentOk (runsOf edit.current) segment)
    (hbound : high < 2 ^ 64) (hknown : ∀ block, low ≤ block → block < high → edit.Known block) :
    ∃ edit', Tracks records edit' (raised counts low high) ∧ edit'.fetched = edit.fetched ∧
      ((acquireSegments segments edit = .ok () edit' ∧
          ∀ block, low ≤ block → block < high → counts block ≠ maxReferenceCount) ∨
        (acquireSegments segments edit = .error limitReached edit' ∧
          ∃ block, low ≤ block ∧ block < high ∧ counts block = maxReferenceCount)) := by
  induction segments generalizing low edit counts with
  | nil =>
    have heq : low = high := htiles
    refine ⟨edit, ?_, rfl, .inl ⟨rfl, fun block hlow hhigh => by omega⟩⟩
    have hsame : raised counts low high = counts := by
      funext block
      exact if_neg fun h => by omega
    rwa [hsame]
  | cons segment rest ih =>
    obtain ⟨hstart, hcnt, hrest⟩ := htiles
    subst hstart
    have hle := hrest.le
    obtain ⟨hfirst, hlater⟩ := forall_mem_cons.mp hsegs
    have hspec := acquireSegment_spec hrecs ⟨hcnt, hfirst, rfl, fun block hin hin' => hknown block hin (by omega)⟩ h
      (by omega)
    rw [acquireSegments]
    obtain ⟨edit', hrun, hdone, hroom⟩ | ⟨hrun, hfull⟩ := hspec
    · obtain ⟨edit'', htracks, hfetched, houtcome⟩ := ih hdone.tracks hrest (hdone.rest hrest hlater)
        (fun block hin hin' => hdone.known (hknown block (by omega) hin'))
      rw [bind_of_ok hrun]
      rw [raised_raised (by omega) hle hroom] at htracks
      refine ⟨edit'', htracks, hfetched.trans hdone.fetched, houtcome.imp ?_ ?_⟩
      · rintro ⟨hok, hroom'⟩
        refine ⟨hok, fun block hin hin' => ?_⟩
        by_cases hfirst : block < segment.physicalStart + segment.blockCount
        · exact hroom block hin hfirst
        · have hoth := hroom' block (not_lt.mp hfirst) hin'
          rwa [raised, if_neg fun h => hfirst h.2.1] at hoth
      · rintro ⟨herror, block, hin, hin', hfull⟩
        rw [raised, if_neg fun h => absurd h.2.1 (not_lt.mpr hin)] at hfull
        exact ⟨herror, block, by omega, hin', hfull⟩
    · refine ⟨edit, ?_, rfl, .inr ⟨bind_of_error hrun, _, le_rfl, by omega, hfull⟩⟩
      rwa [raised_of_full hfull]

theorem releaseSegment_spec :
    ∃ freed edit', releaseSegment segment edit = .ok freed edit' ∧
      SegmentDone records edit edit' (lowered counts segment.physicalStart high) high ∧
      blocksOf freed = (range' segment.physicalStart segment.blockCount).filter
        fun block => counts block = 1 := by
  obtain rfl := hedit.stop
  have hrng : ∀ block ∈ range' segment.physicalStart segment.blockCount,
      segment.physicalStart ≤ block ∧ block < segment.physicalStart + segment.blockCount :=
    fun block hblk => mem_range'_1.mp hblk
  unfold releaseSegment
  cases hrefs : segment.referenceCount with
  | none =>
    obtain ⟨-, hcnts⟩ := gap_counts hedit h hrefs
    refine ⟨_, edit, rfl, ⟨?_, rfl, fun later hlater _ _ => hlater⟩, ?_⟩
    · rwa [lowered_of_private hcnts]
    · rw [blocksOf, flatMap_singleton, filter_eq_self.mpr]
      intro block hblk
      exact decide_eq_true (hcnts block (hrng block hblk).1 (hrng block hblk).2)
  | some references =>
    obtain ⟨hcnts, hshared, hwidth, hrewrite⟩ := rewrite_segment hrecs hedit h hrefs
    have hlowered := lowered_eq_of_const hcnts hshared
    have hnone : (range' segment.physicalStart segment.blockCount).filter
        (fun block => counts block = 1) = [] := by
      refine filter_eq_nil_iff.mpr fun block hblk hone => ?_
      rw [hcnts block (hrng block hblk).1 (hrng block hblk).2] at hone
      rw [of_decide_eq_true hone] at hshared
      exact absurd hshared (by decide)
    rw [hnone, hlowered]
    dsimp only
    by_cases hmany : references > minReferenceCount
    · obtain ⟨edit', hrun, hdone⟩ := hrewrite (some (references - 1)) (by
        rintro count ⟨⟩
        exact ⟨by omega, by omega⟩)
      rw [if_pos hmany, bind_of_ok hrun]
      exact ⟨[], _, rfl, hdone.withStats _, rfl⟩
    · obtain ⟨edit', hrun, hdone⟩ := hrewrite none fun count hnew => absurd hnew (Option.not_mem_none _)
      have htwo : references - 1 = 1 := by
        have hmin : minReferenceCount = 2 := rfl
        omega
      rw [if_neg hmany, bind_of_ok hrun, htwo]
      exact ⟨[], _, rfl, hdone.withStats _, rfl⟩

omit hedit in
theorem releaseSegments_spec {low : Nat} (htiles : Tiles low high segments)
    (hsegs : ∀ segment ∈ segments, SegmentOk (runsOf edit.current) segment)
    (hknown : ∀ block, low ≤ block → block < high → edit.Known block) :
    ∃ freed edit', releaseSegments segments edit = .ok freed edit' ∧
      Tracks records edit' (lowered counts low high) ∧ edit'.fetched = edit.fetched ∧
      blocksOf freed = (range' low (high - low)).filter fun block => counts block = 1 := by
  induction segments generalizing low edit counts with
  | nil =>
    have heq : low = high := htiles
    refine ⟨[], edit, rfl, ?_, rfl, ?_⟩
    · have hsame : lowered counts low high = counts := by
        funext block
        exact if_neg fun h => by omega
      rwa [hsame]
    · rw [heq, Nat.sub_self]
      rfl
  | cons segment rest ih =>
    obtain ⟨hstart, hcnt, hrest⟩ := htiles
    subst hstart
    have hle := hrest.le
    obtain ⟨hfirst, hlater⟩ := forall_mem_cons.mp hsegs
    obtain ⟨freed, edit', hrun, hdone, hfreed⟩ := releaseSegment_spec hrecs
      ⟨hcnt, hfirst, rfl, fun block hin hin' => hknown block hin (by omega)⟩ h
    obtain ⟨others, edit'', hrun', htracks, hfetched, hothers⟩ := ih hdone.tracks hrest (hdone.rest hrest hlater)
      (fun block hin hin' => hdone.known (hknown block (by omega) hin'))
    refine ⟨freed ++ others, edit'', ?_, ?_, hfetched.trans hdone.fetched, ?_⟩
    · rw [releaseSegments, bind_of_ok hrun, bind_of_ok hrun']
      rfl
    · rwa [lowered_lowered (by omega) hle] at htracks
    · have hsplit : range' segment.physicalStart (high - segment.physicalStart)
          = range' segment.physicalStart segment.blockCount ++
            range' (segment.physicalStart + segment.blockCount)
              (high - (segment.physicalStart + segment.blockCount)) := by
        rw [range'_append_1]
        congr 1
        omega
      have hsame : (range' (segment.physicalStart + segment.blockCount)
            (high - (segment.physicalStart + segment.blockCount))).filter
          (fun block => lowered counts segment.physicalStart
            (segment.physicalStart + segment.blockCount) block = 1)
          = (range' (segment.physicalStart + segment.blockCount)
            (high - (segment.physicalStart + segment.blockCount))).filter
          (fun block => counts block = 1) := by
        refine filter_congr fun block hblk => ?_
        have hge := (mem_range'_1.mp hblk).1
        rw [lowered, if_neg fun h => absurd h.2.1 (not_lt.mpr hge)]
      rw [blocksOf, flatMap_append, ← blocksOf, ← blocksOf, hfreed, hothers, hsame, hsplit, filter_append]

end Calls

section Runs

variable {records : List SharedRun} {edit : RefEdit} {counts : Nat → Nat} {start count : Nat}

/-- The edit lets a call on this run in. -/
def Admits (edit : RefEdit) (start count : Nat) : Prop :=
  0 < count ∧ start + count < 2 ^ 64 ∧ edit.covers start (start + count) = true

instance : Decidable (edit.Admits start count) := inferInstanceAs (Decidable (_ ∧ _))

theorem covers_iff {stop : Nat} : edit.covers start stop = true ↔
    ∃ interval ∈ edit.fetched, interval.1 ≤ start ∧ stop ≤ interval.2 := by
  simp [covers]

theorem Tracks.sorted (h : Tracks records edit counts) :
    edit.current.values.Pairwise fun a b => a.stop ≤ b.physicalStart :=
  h.layout_current.pairwise (pairwise_values h.current)

theorem Tracks.resolve (h : Tracks records edit counts) (hadmits : edit.Admits start count) :
    ∃ segments, edit.resolve start count = .ok segments ∧ Tiles start (start + count) segments ∧
      (∀ segment ∈ segments, SegmentOk (runsOf edit.current) segment) ∧
      ∀ block, start ≤ block → block < start + count → edit.Known block := by
  obtain ⟨hcnt, hbound, hcov⟩ := hadmits
  obtain ⟨segments, hresolve, htiles, hsegs⟩ := resolveOverlaps_spec h.ok h.sorted hcnt hbound
  refine ⟨segments, ?_, htiles, hsegs, fun block hlow hhigh => ?_⟩
  · rw [RefEdit.resolve, refuseIf_bind (not_le.mpr hbound), ensureCovered, refuseIf_bind (by rw [hcov]; decide)]
    exact hresolve
  · obtain ⟨interval, hintv, hstart, hstop⟩ := covers_iff.mp hcov
    exact ⟨interval, hintv, hstart.trans hlow, lt_of_lt_of_le hhigh hstop⟩

theorem resolve_refused (hrefused : ¬edit.Admits start count) :
    ∃ reason, edit.resolve start count = .error (.corrupt reason) := by
  rw [RefEdit.resolve]
  by_cases hbound : start + count ≥ 2 ^ 64
  · exact ⟨_, by rw [refuseIf, if_pos hbound]; rfl⟩
  rw [refuseIf_bind hbound, ensureCovered]
  by_cases hcov : edit.covers start (start + count) = false
  · exact ⟨_, by rw [refuseIf, if_pos hcov]; rfl⟩
  rw [refuseIf_bind hcov, resolveOverlaps]
  by_cases hcnt : count = 0
  · exact ⟨_, by rw [refuseIf, if_pos hcnt]; rfl⟩
  · refine absurd ⟨Nat.pos_of_ne_zero hcnt, not_le.mp hbound, ?_⟩ hrefused
    exact Bool.eq_true_of_not_eq_false hcov

variable (hrecs : Layout { run | run ∈ records })
include hrecs

theorem acquire_spec (h : Tracks records edit counts) (hadmits : edit.Admits start count) :
    ∃ edit', Tracks records edit' (raised counts start (start + count)) ∧ edit'.fetched = edit.fetched ∧
      ((acquire start count edit = .ok () edit' ∧
          ∀ block, start ≤ block → block < start + count → counts block ≠ maxReferenceCount) ∨
        (acquire start count edit = .error limitReached edit' ∧
          ∃ block, start ≤ block ∧ block < start + count ∧ counts block = maxReferenceCount)) := by
  obtain ⟨segments, hresolve, htiles, hsegs, hknown⟩ := h.resolve hadmits
  have hrun : acquire start count edit = acquireSegments segments edit := by
    rw [acquire, get_bind_apply, hresolve]
    rfl
  rw [hrun]
  exact acquireSegments_spec hrecs h htiles hsegs hadmits.2.1 hknown

theorem release_spec (h : Tracks records edit counts) (hadmits : edit.Admits start count) :
    ∃ freed edit', release start count edit = .ok freed edit' ∧
      Tracks records edit' (lowered counts start (start + count)) ∧ edit'.fetched = edit.fetched ∧
      blocksOf freed = (range' start count).filter fun block => counts block = 1 := by
  obtain ⟨segments, hresolve, htiles, hsegs, hknown⟩ := h.resolve hadmits
  have hrun : release start count edit = releaseSegments segments edit := by
    rw [release, get_bind_apply, hresolve]
    rfl
  have hspec := releaseSegments_spec hrecs h htiles hsegs hknown
  rw [Nat.add_sub_cancel_left] at hspec
  rwa [hrun]

omit hrecs in
theorem acquire_refused (hrefused : ¬edit.Admits start count) :
    ∃ reason, acquire start count edit = .error (.corrupt reason) edit := by
  obtain ⟨reason, hreason⟩ := resolve_refused hrefused
  refine ⟨reason, ?_⟩
  rw [acquire, get_bind_apply, hreason]
  rfl

omit hrecs in
theorem release_refused (hrefused : ¬edit.Admits start count) :
    ∃ reason, release start count edit = .error (.corrupt reason) edit := by
  obtain ⟨reason, hreason⟩ := resolve_refused hrefused
  refine ⟨reason, ?_⟩
  rw [release, get_bind_apply, hreason]
  rfl

end Runs

end RefEdit

end Afsplus
