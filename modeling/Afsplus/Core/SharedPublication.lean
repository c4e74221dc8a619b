import Afsplus.Core.SharedCounts

/-!
# Fetching and publishing reference edits

A fetch adds records to the window and no count changes. A publication merges the window; what it leaves
out of the tree and what it puts in make the tree the canonical list of the counts the edit stands for.
-/

namespace Afsplus

open Wire Fallible Runs SortedMap
open List hiding max set insert

namespace RefEdit

open SharedExtents

section Intervals

variable {P : Nat × Nat → Prop} {rest : List (Nat × Nat)}

theorem joinIntervals_forall
    (hjoin : ∀ low high next, P (low, high) → P next → next.1 ≤ high → P (low, max high next.2))
    {low high : Nat} (hfirst : P (low, high)) (hrest : ∀ next ∈ rest, P next) :
    ∀ joined ∈ joinIntervals low high rest, P joined := by
  induction rest generalizing low high with
  | nil => exact forall_mem_singleton.mpr hfirst
  | cons next rest ih =>
    obtain ⟨hnext, hrest⟩ := forall_mem_cons.mp hrest
    rw [joinIntervals]
    split
    case isTrue htouch => exact ih (hjoin low high next hfirst hnext htouch) hrest
    case isFalse => exact forall_mem_cons.mpr ⟨hfirst, ih hnext hrest⟩

theorem joinIntervals_covers {low high : Nat}
    (hlow : ∀ next ∈ rest, low ≤ next.1) (hsort : rest.Pairwise fun a b => a.1 ≤ b.1) :
    (∃ joined ∈ joinIntervals low high rest, joined.1 ≤ low ∧ high ≤ joined.2) ∧
      ∀ next ∈ rest, ∃ joined ∈ joinIntervals low high rest, joined.1 ≤ next.1 ∧ next.2 ≤ joined.2 := by
  induction rest generalizing low high with
  | nil => exact ⟨⟨_, mem_singleton_self _, le_rfl, le_rfl⟩, fun _ h => absurd h not_mem_nil⟩
  | cons next rest ih =>
    obtain ⟨hfirst, hrest⟩ := pairwise_cons.mp hsort
    obtain ⟨hnext, hlowRest⟩ := forall_mem_cons.mp hlow
    rw [joinIntervals]
    split
    case isTrue =>
      obtain ⟨⟨joined, hmem, hstart, hstop⟩, hothers⟩ := @ih low (max high next.2) hlowRest hrest
      refine ⟨⟨joined, hmem, hstart, (le_max_left ..).trans hstop⟩, forall_mem_cons.mpr ⟨?_, hothers⟩⟩
      exact ⟨joined, hmem, hstart.trans hnext, (le_max_right ..).trans hstop⟩
    case isFalse =>
      obtain ⟨⟨joined, hmem, hjoined⟩, hothers⟩ := @ih next.1 next.2 hfirst hrest
      refine ⟨⟨_, mem_cons_self .., le_rfl, le_rfl⟩, forall_mem_cons.mpr ⟨?_, ?_⟩⟩
      · exact ⟨joined, mem_cons_of_mem _ hmem, hjoined⟩
      · intro other hoth
        obtain ⟨joined, hmem, hjoined⟩ := hothers other hoth
        exact ⟨joined, mem_cons_of_mem _ hmem, hjoined⟩

instance : Std.Total intervalLe := ⟨fun a b => by unfold intervalLe; omega⟩

instance : IsTrans (Nat × Nat) intervalLe := ⟨fun a b c => by unfold intervalLe; omega⟩

variable (intervals : List (Nat × Nat))

theorem mergeIntervals_forall
    (hjoin : ∀ low high next, P (low, high) → P next → next.1 ≤ high → P (low, max high next.2))
    (hall : ∀ interval ∈ intervals, P interval) :
    ∀ joined ∈ mergeIntervals (intervals.insertionSort intervalLe), P joined := by
  have hperm := perm_insertionSort intervalLe intervals
  cases hsort : intervals.insertionSort intervalLe with
  | nil => exact fun _ h => absurd h not_mem_nil
  | cons first rest =>
    rw [hsort] at hperm
    have hmem : ∀ interval ∈ first :: rest, P interval := fun interval h => hall _ (hperm.mem_iff.mp h)
    obtain ⟨hfirst, hrest⟩ := forall_mem_cons.mp hmem
    exact joinIntervals_forall hjoin hfirst hrest

theorem mergeIntervals_covers :
    ∀ interval ∈ intervals, ∃ joined ∈ mergeIntervals (intervals.insertionSort intervalLe),
      joined.1 ≤ interval.1 ∧ interval.2 ≤ joined.2 := by
  have hperm := perm_insertionSort intervalLe intervals
  have hsorted : (intervals.insertionSort intervalLe).Pairwise fun a b => a.1 ≤ b.1 :=
    (pairwise_insertionSort intervalLe intervals).imp fun h => by unfold intervalLe at h; omega
  intro interval hintv
  have hmem := hperm.mem_iff.mpr hintv
  cases hsort : intervals.insertionSort intervalLe with
  | nil =>
    rw [hsort] at hmem
    cases hmem
  | cons first rest =>
    rw [hsort] at hmem hsorted
    obtain ⟨hfirst, hrest⟩ := pairwise_cons.mp hsorted
    obtain ⟨hown, hothers⟩ := @joinIntervals_covers rest first.1 first.2 hfirst hrest
    obtain rfl | hmem := mem_cons.mp hmem
    · exact hown
    · exact hothers interval hmem

end Intervals

section Fetching

variable {records : List SharedRun} {edit : RefEdit} {counts : Nat → Nat}
  (hrecs : Layout { run | run ∈ records }) (hok : ∀ run ∈ records, run.Ok)
include hrecs hok

theorem noteRecord_spec (h : Tracks records edit counts) {run : SharedRun} (hrun : run ∈ records) :
    Tracks records (edit.noteRecord run) counts ∧ (edit.noteRecord run).fetched = edit.fetched ∧
      runsOf (edit.noteRecord run).original = insert run (runsOf edit.original) := by
  have hsame : ∀ other ∈ records, other.physicalStart = run.physicalStart → other = run :=
    fun other hoth hstart => hrecs.eq_of_start hoth hrun hstart
  rw [noteRecord]
  by_cases hpresent : (edit.original.get? run.physicalStart).isSome
  · rw [if_pos hpresent]
    obtain ⟨other, hoth⟩ := Option.isSome_iff_exists.mp hpresent
    have hentry := get?_eq_some.mp hoth
    have hmem : other ∈ runsOf edit.original := mem_map.mpr ⟨_, hentry, rfl⟩
    have heq := hsame other (h.committed other hmem) (h.original _ hentry).symm
    rw [Set.insert_eq_of_mem (heq ▸ hmem)]
    exact ⟨h, rfl, rfl⟩
  rw [if_neg hpresent]
  have hmissing : run ∉ runsOf edit.original := by
    intro hmem
    have hget := get?_eq_some.mpr ((mem_runsOf h.original).mp hmem)
    exact hpresent (by rw [hget]; rfl)
  have hview : run ∈ edit.view records := .inr ⟨hrun, hmissing⟩
  have horig : runsOf (edit.original.insert run.physicalStart run) = insert run (runsOf edit.original) :=
    runsOf_insert h.original fun other hoth => hsame other (h.committed other hoth)
  have hcurrent : runsOf (edit.current.insert run.physicalStart run) = insert run (runsOf edit.current) := by
    refine runsOf_insert h.current fun other hoth hstart => ?_
    exact h.layout.eq_of_start (.inl hoth) hview hstart
  have hsameView : view records { edit with
      original := edit.original.insert run.physicalStart run
      current := edit.current.insert run.physicalStart run } = edit.view records := by
    ext other
    show other ∈ runsOf (edit.current.insert _ _) ∨ (other ∈ records ∧ other ∉ runsOf (edit.original.insert _ _)) ↔
      other ∈ runsOf edit.current ∨ (other ∈ records ∧ other ∉ runsOf edit.original)
    rw [hcurrent, horig, Set.mem_insert_iff, Set.mem_insert_iff]
    constructor
    · rintro ((rfl | hoth) | ⟨hoth, hout⟩)
      · exact .inr ⟨hrun, hmissing⟩
      · exact .inl hoth
      · exact .inr ⟨hoth, fun hmem => hout (.inr hmem)⟩
    · rintro (hoth | ⟨hoth, hout⟩)
      · exact .inl (.inr hoth)
      · by_cases heq : other = run
        · exact .inl (.inl heq)
        · exact .inr ⟨hoth, fun hmem => hmem.elim heq hout⟩
  refine ⟨⟨h.current.insert run, h.original.insert run, ?_, ?_, ?_, ?_, ?_, ?_⟩, rfl, horig⟩
  · show ∀ other ∈ runsOf (edit.original.insert _ _), _
    rw [horig]
    rintro other (rfl | hoth)
    · exact hrun
    · exact h.committed other hoth
  · intro interval hintv other hoth hlow hhigh
    show other ∈ runsOf (edit.original.insert _ _)
    rw [horig]
    exact .inr (h.fetched interval hintv other hoth hlow hhigh)
  · show ∀ other ∈ runsOf (edit.current.insert _ _), ∀ block, Covers other block → ¬edit.Known block →
      ∃ old ∈ runsOf (edit.original.insert _ _), _
    rw [hcurrent, horig]
    rintro other (rfl | hoth) block hblk hunknown
    · exact ⟨other, .inl rfl, hblk, rfl⟩
    · obtain ⟨old, hold, hcov⟩ := h.untouched other hoth block hblk hunknown
      exact ⟨old, .inr hold, hcov⟩
  · show ∀ other ∈ runsOf (edit.current.insert _ _), _
    rw [hcurrent]
    rintro other (rfl | hoth)
    · exact hok other hrun
    · exact h.ok other hoth
  · rw [hsameView]
    exact h.layout
  · rw [hsameView]
    exact h.shows

variable {found : List SharedRun}

theorem noteRecords_spec (h : Tracks records edit counts) (hfound : ∀ run ∈ found, run ∈ records) :
    Tracks records (found.foldl noteRecord edit) counts ∧ (found.foldl noteRecord edit).fetched = edit.fetched ∧
      ∀ run, run ∈ runsOf edit.original ∨ run ∈ found → run ∈ runsOf (found.foldl noteRecord edit).original := by
  induction found generalizing edit with
  | nil => exact ⟨h, rfl, fun run hrun => hrun.resolve_right not_mem_nil⟩
  | cons first rest ih =>
    obtain ⟨hfirst, hrest⟩ := forall_mem_cons.mp hfound
    obtain ⟨hstep, hfetched, horig⟩ := noteRecord_spec hrecs hok h hfirst
    obtain ⟨htracks, hfetched', hall⟩ := ih hstep hrest
    refine ⟨htracks, hfetched'.trans hfetched, fun run hrun => hall run ?_⟩
    rw [horig]
    obtain hrun | hrun := hrun
    · exact .inl (.inr hrun)
    · exact (mem_cons.mp hrun).imp .inl id

theorem noteFetched_spec {start stop : Nat} (h : Tracks records edit counts) (hfound : ∀ run ∈ found, run ∈ records)
    (hall : ∀ run ∈ records, run.physicalStart ≤ stop → start ≤ run.stop → run ∈ found) :
    Tracks records (edit.noteFetched start stop found) counts ∧
      (edit.noteFetched start stop found).covers start stop = true ∧ ∀ low high, edit.covers low high = true →
        (edit.noteFetched start stop found).covers low high = true := by
  obtain ⟨htracks, hfetched, hkept⟩ := noteRecords_spec hrecs hok h hfound
  set noted := found.foldl noteRecord edit
  have hcov := mergeIntervals_covers (noted.fetched ++ [(start, stop)])
  have hold : ∀ interval ∈ edit.fetched, ∃ joined ∈ (edit.noteFetched start stop found).fetched,
      joined.1 ≤ interval.1 ∧ interval.2 ≤ joined.2 := by
    intro interval hintv
    rw [← hfetched] at hintv
    exact hcov interval (mem_append_left _ hintv)
  have hknown : ∀ block, edit.Known block → (edit.noteFetched start stop found).Known block := by
    rintro block ⟨interval, hintv, hlow, hhigh⟩
    obtain ⟨joined, hjoined, hstart, hstop⟩ := hold interval hintv
    exact ⟨joined, hjoined, hstart.trans hlow, lt_of_lt_of_le hhigh hstop⟩
  refine ⟨⟨htracks.current, htracks.original, htracks.committed, ?_, ?_, htracks.ok, htracks.layout,
    htracks.shows⟩, ?_, ?_⟩
  · refine mergeIntervals_forall _ ?_ ?_
    · intro low high next hfirst hnext htouch run hrun hlow hhigh
      have hproper : run.physicalStart < run.stop := hrecs.proper run hrun
      by_cases hleft : run.physicalStart ≤ high
      · exact hfirst run hrun hleft hhigh
      · exact hnext run hrun (by dsimp only at hlow; omega) (by omega)
    · intro interval hintv run hrun hlow hhigh
      obtain hintv | hintv := mem_append.mp hintv
      · exact htracks.fetched interval hintv run hrun hlow hhigh
      · rw [mem_singleton.mp hintv] at hlow hhigh
        exact hkept run (.inr (hall run hrun hlow hhigh))
  · intro run hrun block hblk hunknown
    refine htracks.untouched run hrun block hblk fun hbefore => hunknown (hknown block ?_)
    rwa [Known, hfetched] at hbefore
  · rw [covers_iff]
    exact hcov (start, stop) (mem_append_right _ (mem_singleton_self _))
  · intro low high hbefore
    obtain ⟨interval, hintv, hlow, hhigh⟩ := covers_iff.mp hbefore
    obtain ⟨joined, hjoined, hstart, hstop⟩ := hold interval hintv
    exact covers_iff.mpr ⟨joined, hjoined, hstart.trans hlow, hhigh.trans hstop⟩

end Fetching

/-! ### Prefetching from the tree -/

section Prefetching

variable {geo : Geometry} {tree : SortedMap Bytes Bytes} {records : List SharedRun}
  (h : Loaded geo tree records)
include h

/-- The keys at and behind which a prefetch of `[start, …)` reads. -/
def prefetchFrom (tree : SortedMap Bytes Bytes) (start : Nat) : Bytes :=
  match tree.floor? (keyU64 (start - 1)) with
  | some floor => floor.1
  | none => keyU64 start

theorem prefetchFrom_le {start : Nat} (hstart : start < 2 ^ 64) {run : SharedRun} (hrun : run ∈ records)
    (hreaches : start ≤ run.stop) : ¬keyU64 run.physicalStart < prefetchFrom tree start := by
  have hrunStart := (h.ok run hrun).start_lt
  have hmem := (h.mem_entries).mpr ⟨run, hrun, rfl⟩
  rw [prefetchFrom]
  cases hfloor : tree.floor? (keyU64 (start - 1)) with
  | none =>
    have habove : keyU64 (start - 1) < keyU64 run.physicalStart := floor?_eq_none hfloor _ hmem
    rw [keyU64_lt (by omega) hrunStart] at habove
    show ¬keyU64 run.physicalStart < keyU64 start
    rw [keyU64_lt hrunStart hstart]
    omega
  | some floor =>
    obtain ⟨hfound, hbelow, hgreatest⟩ := floor?_eq_some hfloor
    obtain ⟨found, hfoundMem, rfl⟩ := h.mem_entries.mp hfound
    have hfoundStart := (h.ok found hfoundMem).start_lt
    have hbelow : ¬keyU64 (start - 1) < keyU64 found.physicalStart := hbelow
    rw [keyU64_lt (by omega) hfoundStart] at hbelow
    show ¬keyU64 run.physicalStart < keyU64 found.physicalStart
    rw [keyU64_lt hrunStart hfoundStart]
    intro hfront
    have hends : run.stop ≤ found.physicalStart := h.layout.stop_le_start hrun hfoundMem hfront
    have hproper : run.physicalStart < run.stop := h.layout.proper run hrun
    omega

theorem prefetched {start stop : Nat} (hle : start ≤ stop) (hstop : stop < 2 ^ 64) :
    ∃ found, (tree.range (prefetchFrom tree start) (keyU64 stop)).mapM
        (fun item => SharedRun.decodeRun geo item.1 item.2) = .ok found ∧ (∀ run ∈ found, run ∈ records) ∧
      ∀ run ∈ records, run.physicalStart ≤ stop → start ≤ run.stop → run ∈ found := by
  set keep : Bytes × Bytes → Bool := fun item =>
    ¬item.1 < prefetchFrom tree start ∧ ¬keyU64 stop < item.1
  refine ⟨records.filter fun run => keep (entry run), ?_, ?_, ?_⟩
  · have hrng : tree.range (prefetchFrom tree start) (keyU64 stop)
        = (records.filter fun run => keep (entry run)).map entry := by
      show tree.entries.filter keep = _
      rw [h.entries, filter_map]
      rfl
    rw [hrng, mapM_eq_ok, forall₂_map_left_iff, forall₂_same]
    intro run hrun
    exact h.decodes run (mem_of_mem_filter hrun)
  · intro run hrun
    exact mem_of_mem_filter hrun
  · intro run hrun hlow hhigh
    refine mem_filter.mpr ⟨hrun, decide_eq_true ⟨?_, ?_⟩⟩
    · exact prefetchFrom_le h (by omega) hrun hhigh
    · show ¬keyU64 stop < keyU64 run.physicalStart
      rw [keyU64_lt hstop (h.ok run hrun).start_lt]
      omega

end Prefetching

structure Merged (runs merged : List SharedRun) : Prop where
  ok : ∀ run ∈ merged, run.Ok
  sorted : merged.Pairwise fun a b => a.stop ≤ b.physicalStart
  maximal : Maximal { run | run ∈ merged }
  covers : ∀ block count, (∃ run ∈ merged, Covers run block ∧ run.referenceCount = count) ↔
    ∃ run ∈ runs, Covers run block ∧ run.referenceCount = count

theorem mergeInto_spec {previous : SharedRun} {rest : List SharedRun} (hprev : previous.Ok)
    (hrest : ∀ run ∈ rest, run.Ok) (hsort : (previous :: rest).Pairwise fun a b => a.stop ≤ b.physicalStart) :
    ∃ first others, mergeInto previous rest = .ok (first :: others) ∧
      first.physicalStart = previous.physicalStart ∧ first.referenceCount = previous.referenceCount ∧
      (∀ run ∈ first :: others, run.Ok) ∧ Runs.Merged (previous :: rest) (first :: others) := by
  induction rest generalizing previous with
  | nil =>
    exact ⟨previous, [], rfl, rfl, rfl, forall_mem_singleton.mpr hprev, .singleton hprev.start_lt_stop⟩
  | cons run rest ih =>
    obtain ⟨hrun, hrest⟩ := forall_mem_cons.mp hrest
    obtain ⟨hfirst, hsortedRest⟩ := pairwise_cons.mp hsort
    rw [mergeInto, SharedRun.physicalEnd_of_lt hprev.bounded]
    by_cases hmerge : previous.stop = run.physicalStart ∧ previous.referenceCount = run.referenceCount
    · set joined : SharedRun := { previous with blockCount := previous.blockCount + run.blockCount }
      have hjoinedStop : joined.stop = run.stop := by
        show previous.physicalStart + (previous.blockCount + run.blockCount) = _
        have hend : previous.physicalStart + previous.blockCount = run.physicalStart := hmerge.1
        have hrunEnd : run.stop = run.physicalStart + run.blockCount := rfl
        omega
      have hjoined : joined.Ok := ⟨Nat.add_pos_left hprev.nonempty _, hjoinedStop ▸ hrun.bounded, hprev.shared,
          hprev.width, hprev.flags⟩
      have hsum : ¬previous.blockCount + run.blockCount ≥ 2 ^ 64 := by
        have hbound := hjoined.bounded
        have hend : joined.stop = previous.physicalStart + (previous.blockCount + run.blockCount) := rfl
        omega
      obtain ⟨first, others, hmerged, hstart, hcnt, hok, hspec⟩ := ih hjoined hrest (by
        refine pairwise_cons.mpr ⟨fun other hoth => ?_, (pairwise_cons.mp hsortedRest).2⟩
        rw [hjoinedStop]
        exact (pairwise_cons.mp hsortedRest).1 other hoth)
      refine ⟨first, others, ?_, hstart, hcnt, hok, hspec.join hprev.start_lt_stop
        hrun.start_lt_stop hmerge.1 hmerge.2 rfl hjoinedStop rfl⟩
      show (if previous.stop = run.physicalStart ∧ _ then _ else _) = _
      rw [if_pos hmerge, refuseIf_bind hsum]
      exact hmerged
    · obtain ⟨first, others, hmerged, hstart, hcnt, hok, hspec⟩ := ih hrun hrest hsortedRest
      refine ⟨previous, first :: others, ?_, rfl, rfl, forall_mem_cons.mpr ⟨hprev, hok⟩,
        hspec.cons hprev.start_lt_stop (hfirst run (mem_cons_self ..)) ?_ hstart hcnt⟩
      · show (if previous.stop = run.physicalStart ∧ _ then _ else _) = _
        rw [if_neg hmerge, hmerged]
        rfl
      · exact fun htouch hequal => hmerge ⟨htouch, hequal⟩

variable {runs : List SharedRun}

theorem mergeRuns_spec (hok : ∀ run ∈ runs, run.Ok) (hsort : runs.Pairwise fun a b => a.stop ≤ b.physicalStart) :
    ∃ merged, mergeRuns runs = .ok merged ∧ Merged runs merged := by
  cases runs with
  | nil =>
    refine ⟨[], rfl, hok, hsort, fun _ h => absurd h not_mem_nil, fun _ _ => Iff.rfl⟩
  | cons first rest =>
    obtain ⟨hfirst, hrest⟩ := forall_mem_cons.mp hok
    obtain ⟨_, _, hmerged, -, -, hokAll, hspec⟩ := mergeInto_spec hfirst hrest hsort
    exact ⟨_, hmerged, hokAll, hspec.sorted, hspec.maximal, hspec.covers⟩

theorem collect_spec (hdist : runs.Pairwise fun a b => a.physicalStart ≠ b.physicalStart) :
    Keyed (collect runs) ∧ runsOf (collect runs) = { run | run ∈ runs } := by
  have hfold : collect runs = (runs.map fun run => (run.physicalStart, run)).foldl
      (fun map new => map.insert new.1 new.2) .empty := by
    rw [foldl_map]
    rfl
  have hmem : ∀ item, item ∈ (collect runs).entries ↔ ∃ run ∈ runs, (run.physicalStart, run) = item := by
    intro item
    rw [hfold, mem_foldl_insert (pairwise_map.mpr hdist), mem_map]
    exact or_iff_left fun h => absurd h.1 not_mem_nil
  have hkeyed : Keyed (collect runs) := by
    intro item hitem
    obtain ⟨run, -, rfl⟩ := (hmem item).mp hitem
    rfl
  refine ⟨hkeyed, ?_⟩
  ext run
  rw [mem_runsOf hkeyed, hmem]
  constructor
  · rintro ⟨other, hoth, heq⟩
    rw [Prod.mk.injEq] at heq
    exact heq.2 ▸ hoth
  · intro hrun
    exact ⟨run, hrun, rfl⟩

/-! ### The published records -/

/-- The canonical record list of an assignment of counts, one reference where there is no record. -/
structure CanonicalRecords (records : List SharedRun) (counts : Nat → Nat) : Prop where
  ok : ∀ run ∈ records, run.Ok
  sorted : records.Pairwise fun a b => a.stop ≤ b.physicalStart
  maximal : Maximal { run | run ∈ records }
  counts : labelAt records 1 = counts

variable {records : List SharedRun} {counts : Nat → Nat}

theorem CanonicalRecords.canonical
    (h : CanonicalRecords records counts) : Canonical { run | run ∈ records } counts 1 := by
  have hlay := layout_of_ok h.ok h.sorted
  refine ⟨hlay, h.counts ▸ hlay.shows_labelAt 1, h.maximal, fun run hrun hone => ?_⟩
  have hshared := (h.ok run hrun).shared
  have hone : run.referenceCount = 1 := hone
  rw [hone] at hshared
  exact absurd hshared (by decide)

theorem starts_lt (hok : ∀ run ∈ records, run.Ok) (hsort : records.Pairwise fun a b => a.stop ≤ b.physicalStart) :
    records.Pairwise fun a b => a.physicalStart < b.physicalStart :=
  List.Pairwise.imp_of_mem (fun ha _ hle => lt_of_lt_of_le (hok _ ha).start_lt_stop hle) hsort

theorem CanonicalRecords.unique {records records' : List SharedRun}
    (h : CanonicalRecords records counts) (h' : CanonicalRecords records' counts) : records = records' := by
  have hsame : { run | run ∈ records } = { run | run ∈ records' } := by
    refine h.canonical.unique h'.canonical fun a ha b hb hstart hstop hlabel => ?_
    have hflags := ((h.ok a ha).flags).trans ((h'.ok b hb).flags).symm
    have hstart : a.physicalStart = b.physicalStart := hstart
    have hstop : a.physicalStart + a.blockCount = b.physicalStart + b.blockCount := hstop
    have hlabel : a.referenceCount = b.referenceCount := hlabel
    have hcnt : a.blockCount = b.blockCount := by omega
    cases a
    cases b
    simp_all
  have hlt := starts_lt h.ok h.sorted
  have hlt' := starts_lt h'.ok h'.sorted
  have hnodup : ∀ {l : List SharedRun}, l.Pairwise (fun a b => a.physicalStart < b.physicalStart) → l.Nodup := by
    intro l hl
    apply hl.imp
    rintro a b hless rfl
    exact lt_irrefl _ hless
  have hperm := (perm_ext_iff_of_nodup (hnodup hlt) (hnodup hlt')).mpr fun run =>
    Set.ext_iff.mp hsame run
  exact hperm.eq_of_pairwise (fun a b _ _ hab hba => absurd (hab.trans hba) (lt_irrefl _)) hlt hlt'

section Published

variable {geo : Geometry} {tree : SortedMap Bytes Bytes} {records merged : List SharedRun}
  {edit : RefEdit} {counts : Nat → Nat} (hload : Loaded geo tree records)
  (h : Tracks records edit counts) (hmerged : Merged edit.current.values merged)

/-- The merged window and the records that were not fetched. -/
def published (records merged : List SharedRun) (edit : RefEdit) : Set SharedRun :=
  { run | run ∈ merged } ∪ edit.unfetched records

include hload h hmerged

theorem published_canonical : Canonical (published records merged edit) counts 1 := by
  have hrecs := (CanonicalRecords.mk hload.ok hload.sorted hload.maximal rfl).canonical
  have hwindow := (CanonicalRecords.mk hmerged.ok hmerged.sorted hmerged.maximal rfl).canonical
  have hfar : ∀ run ∈ records, run ∉ runsOf edit.original → ∀ block ∈ { block | edit.Known block },
      block + 1 < run.physicalStart ∨ run.stop < block := by
    rintro run hrun hout block ⟨interval, hintv, hlow, hhigh⟩
    by_contra hnear
    push Not at hnear
    exact hout (h.fetched interval hintv run hrun (hnear.1.trans hhigh) (hlow.trans hnear.2))
  refine hrecs.splice h.committed hwindow hfar ?_ ?_ ?_
  · intro run hrun block hblk hout
    obtain ⟨current, hcurrent, hcov, hcnt⟩ := (hmerged.covers block run.referenceCount).mp ⟨run, hrun, hblk, rfl⟩
    obtain ⟨old, hold, hcovered, hequal⟩ := h.untouched current hcurrent block hcov hout
    exact ⟨old, hold, hcovered, hequal.trans hcnt⟩
  · rintro block ⟨run, hrun, hblk⟩
    rw [h.shows.inside run (.inr hrun) block hblk, hrecs.shows.inside run hrun.1 block hblk]
  · intro block hnone
    by_cases hsome : ∃ run ∈ merged, Covers run block
    · obtain ⟨run, hrun, hblk⟩ := hsome
      obtain ⟨current, hcurrent, hcov, hcnt⟩ := (hmerged.covers block run.referenceCount).mp ⟨run, hrun, hblk, rfl⟩
      rw [h.shows.inside current (.inl hcurrent) block hcov, hwindow.shows.inside run hrun block hblk]
      exact hcnt
    · push Not at hsome
      rw [hwindow.shows.outside block hsome]
      refine h.shows.outside block ?_
      rintro run (hrun | hrun) hcov
      · obtain ⟨other, hoth, hcovered, -⟩ := (hmerged.covers block run.referenceCount).mpr ⟨run, hrun, hcov, rfl⟩
        exact hsome other hoth hcovered
      · exact hnone run hrun hcov

theorem exists_canonicalRecords : ∃ records', CanonicalRecords records' counts ∧
    ∀ run, run ∈ records' ↔ run ∈ published records merged edit := by
  have hcanon := published_canonical hload h hmerged
  have hlay := hcanon.layout
  set runs := (merged ++ records.filter fun run => run ∉ edit.original.values).dedup
  have hmem : ∀ run, run ∈ runs ↔ run ∈ published records merged edit := by
    intro run
    rw [mem_dedup, mem_append, mem_filter, decide_eq_true_eq]
    rfl
  have hdist : runs.Pairwise fun a b => a.physicalStart ≠ b.physicalStart := by
    refine List.Pairwise.imp_of_mem (fun {a b} ha hb hne hstart => hne ?_) (nodup_dedup _)
    exact hlay.eq_of_start ((hmem a).mp ha) ((hmem b).mp hb) hstart
  obtain ⟨hkeyed, hcollected⟩ := collect_spec hdist
  have hvalues : ∀ run, run ∈ (collect runs).values ↔ run ∈ published records merged edit := fun run =>
    (Set.ext_iff.mp hcollected run).trans (hmem run)
  have hset : { run | run ∈ (collect runs).values } = published records merged edit := Set.ext hvalues
  have hlay' : Layout { run | run ∈ (collect runs).values } := hset ▸ hlay
  refine ⟨(collect runs).values, ⟨?_, hlay'.pairwise (pairwise_values hkeyed), ?_, ?_⟩, hvalues⟩
  · intro run hrun
    obtain hrun | hrun := (hvalues run).mp hrun
    · exact hmerged.ok run hrun
    · exact hload.ok run hrun.1
  · rw [hset]
    exact hcanon.maximal
  · have hshows := hcanon.shows
    rw [← hset] at hshows
    exact hshows.eq_labelAt hlay'

end Published

section Difference

variable {geo : Geometry} {tree : SortedMap Bytes Bytes} {records merged : List SharedRun}
  {edit : RefEdit} {counts : Nat → Nat}

def deletesOf (edit : RefEdit) (merged : List SharedRun) : List Bytes :=
  (edit.original.keys.filter fun start => ((collect merged).get? start).isNone).map keyU64

def upsertsOf (edit : RefEdit) (merged : List SharedRun) : List (Bytes × Bytes) :=
  ((collect merged).entries.filter fun item => edit.original.get? item.1 ≠ some item.2).map fun item =>
    entry item.2

variable (hload : Loaded geo tree records) (h : Tracks records edit counts)
  (hmerged : Merged edit.current.values merged)

include hmerged

theorem collected : Keyed (collect merged) ∧ runsOf (collect merged) = { run | run ∈ merged } :=
  collect_spec ((starts_lt hmerged.ok hmerged.sorted).imp ne_of_lt)

theorem mem_collect {run : SharedRun} : (run.physicalStart, run) ∈ (collect merged).entries ↔ run ∈ merged := by
  obtain ⟨hkeyed, hcollected⟩ := collected hmerged
  rw [← mem_runsOf hkeyed, hcollected]
  rfl

include h hload

theorem mem_apply {item : Bytes × Bytes} {publication : RefPublication}
    (hdeletes : publication.deletes = edit.deletesOf merged)
    (hupserts : publication.upserts = edit.upsertsOf merged) :
    item ∈ (publication.apply tree).entries ↔ ∃ run ∈ published records merged edit, entry run = item := by
  obtain ⟨hkeyed, -⟩ := collected hmerged
  have hpublish : publication.apply tree =
      publish tree edit.original (collect merged) (fun item => entry item.2) keyU64 := by
    rw [RefPublication.apply, hdeletes, hupserts]
    rfl
  have hin : ∀ {start run}, (start, run) ∈ (collect merged).entries → start = run.physicalStart ∧ run ∈ merged := by
    intro start run hrun
    have hkey : start = run.physicalStart := hkeyed _ hrun
    subst hkey
    exact ⟨rfl, (mem_collect hmerged).mp hrun⟩
  have hok : ∀ r, r ∈ (collect merged).entries ∨ r ∈ { r | r.1 = r.2.physicalStart ∧ r.2 ∈ records } →
      r.1 = r.2.physicalStart ∧ r.2.Ok := by
    rintro r (hr | ⟨hr, hrec⟩)
    · exact ⟨(hin hr).1, hmerged.ok _ (hin hr).2⟩
    · exact ⟨hr, hload.ok _ hrec⟩
  have htree : item ∈ tree.entries ↔ item ∈ (∅ : Set (Bytes × Bytes)) ∨
      ∃ r ∈ { r : Nat × SharedRun | r.1 = r.2.physicalStart ∧ r.2 ∈ records }, entry r.2 = item := by
    rw [hload.mem_entries]
    constructor
    · rintro ⟨run, hrun, rfl⟩
      exact .inr ⟨(run.physicalStart, run), ⟨rfl, hrun⟩, rfl⟩
    · rintro (hnone | ⟨r, hr, rfl⟩)
      · cases hnone
      · exact ⟨r.2, hr.2, rfl⟩
  rw [hpublish, mem_publish htree]
  · constructor
    · rintro (hnone | ⟨⟨start, run⟩, hrun | ⟨⟨hstart, hrec⟩, hold⟩, rfl⟩)
      · cases hnone
      · exact ⟨run, .inl (hin hrun).2, rfl⟩
      · refine ⟨run, .inr ⟨hrec, fun hmem => hold ?_⟩, rfl⟩
        rw [show start = run.physicalStart from hstart]
        exact (mem_runsOf h.original).mp hmem
    · rintro ⟨run, hrun | ⟨hrec, hold⟩, rfl⟩
      · exact .inr ⟨_, .inl ((mem_collect hmerged).mpr hrun), rfl⟩
      · exact .inr ⟨(run.physicalStart, run),
          .inr ⟨⟨rfl, hrec⟩, fun hmem => hold ((mem_runsOf h.original).mpr hmem)⟩, rfl⟩
  · exact fun r hr => ⟨h.original r hr, h.committed _ (mem_map.mpr ⟨r, hr, rfl⟩)⟩
  · exact fun r hr => by rw [(hok r hr).1]; rfl
  · intro a b ha hb hkeys
    have hlta := (hok a ha).1 ▸ (hok a ha).2.start_lt
    have hltb := (hok b hb).1 ▸ (hok b hb).2.start_lt
    exact (keyU64_inj hlta hltb).mp hkeys
  · exact fun _ _ _ hnone => by cases hnone
  · intro a ha b hb hstart
    exact Prod.ext hstart (hload.layout.eq_of_start ha.2 hb.2 (ha.1.symm.trans (hstart.trans hb.1)))
  · intro a ha b hb hold hstart
    have hkept : b.2 ∉ runsOf edit.original := by
      intro hmem
      have hmem := (mem_runsOf h.original).mp hmem
      rw [← hb.1] at hmem
      exact hold hmem
    have hpub := (published_canonical hload h hmerged).layout
    refine Prod.ext hstart (hpub.eq_of_start (.inl (hin ha).2) (.inr ⟨hb.2, hkept⟩) ?_)
    exact (hin ha).1.symm.trans (hstart.trans hb.1)

end Difference

/-- The edit can always be published, and makes of the tree the canonical records of its counts. -/
theorem finish_spec {geo : Geometry} {tree : SortedMap Bytes Bytes}
    {edit : RefEdit} (hload : Loaded geo tree records) (h : Tracks records edit counts) :
    ∃ publication records', edit.finish = .ok publication ∧ CanonicalRecords records' counts ∧
      (publication.apply tree).entries = records'.map entry ∧ (records = [] → publication.records = records') := by
  obtain ⟨merged, hmerge, hmerged⟩ := mergeRuns_spec h.ok h.sorted
  obtain ⟨records', hcanon, hmem⟩ := exists_canonicalRecords hload h hmerged
  have hval : validateCanonical merged = .ok () :=
    (validateCanonical_eq_ok hmerged.ok).mpr ⟨hmerged.sorted, hmerged.maximal⟩
  have henc : ((collect merged).entries.filter fun item =>
      edit.original.get? item.1 ≠ some item.2).mapM (fun item => item.2.encodeRun)
        = .ok (edit.upsertsOf merged) := by
    rw [mapM_eq_ok, upsertsOf, forall₂_map_right_iff, forall₂_same]
    intro item hitem
    have hrun : item.2 ∈ runsOf (collect merged) := mem_map.mpr ⟨item, mem_of_mem_filter hitem, rfl⟩
    rw [(collected hmerged).2] at hrun
    exact (hmerged.ok item.2 hrun).encodeRun
  refine ⟨⟨edit.deletesOf merged, edit.upsertsOf merged, merged, edit.stats, edit.rootRequired⟩, records',
    ?_, hcanon, ?_, ?_⟩
  · exact bind_ok.mpr ⟨merged, hmerge, check_ok.mpr ⟨hval, bind_ok.mpr ⟨_, henc, rfl⟩⟩⟩
  · have hsort : (records'.map entry).Pairwise fun a b => a.1 < b.1 := by
      refine pairwise_map.mpr (List.Pairwise.imp_of_mem ?_ (starts_lt hcanon.ok hcanon.sorted))
      intro a b ha hb hlt
      exact (keyU64_lt (hcanon.ok a ha).start_lt (hcanon.ok b hb).start_lt).mpr hlt
    have happly : RefPublication.apply ⟨edit.deletesOf merged, edit.upsertsOf merged, merged, edit.stats,
        edit.rootRequired⟩ tree = ⟨records'.map entry, hsort⟩ := by
      refine ext_mem fun item => ?_
      rw [mem_apply hload h hmerged rfl rfl, mem_map]
      exact exists_congr fun run => and_congr_left fun _ => (hmem run).symm
    rw [happly]
  · intro hempty
    subst hempty
    refine CanonicalRecords.unique ⟨hmerged.ok, hmerged.sorted, hmerged.maximal, ?_⟩ hcanon
    have hset : published [] merged edit = { run | run ∈ merged } := by
      ext run
      exact or_iff_left fun hrun => absurd hrun.1 not_mem_nil
    have hshows := (published_canonical hload h hmerged).shows
    rw [hset] at hshows
    exact hshows.eq_labelAt (layout_of_ok hmerged.ok hmerged.sorted)

end RefEdit

end Afsplus
