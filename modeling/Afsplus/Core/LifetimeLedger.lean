import Afsplus.Core.LifetimeReads

/-!
# A lifetime edit keeps the ledger canonical

The overlay holds what the edit can touch and the ledger keeps the rest. Putting the two together gives
the canonical records of the edited assignment, and the control record counts its retired blocks.
-/

namespace Afsplus.Snapshot

open Wire Fallible Runs Geometry SortedMap LifetimeChanges RefEdit
open List hiding set all

section Edit

variable {geo : Geometry} {generation newGeneration : Nat} {assigned : Nat → Option Lifetime}

variable {block : Nat}

theorem mem_retainedBlocks : block ∈ retainedBlocks geo assigned ↔
    block < geo.totalBlocks ∧ ∃ lifetime ∈ assigned block, lifetime.retirement ≠ none := by
  rw [retainedBlocks, Finset.mem_filter, Finset.mem_range]

theorem card_retainedBlocks_add {left right : Nat → Option Lifetime}
    (h : ∀ block, (assigned block = left block ∧ right block = none) ∨
      (assigned block = right block ∧ left block = none)) :
    (retainedBlocks geo assigned).card = (retainedBlocks geo left).card + (retainedBlocks geo right).card := by
  rw [← Finset.card_union_of_disjoint]
  · congr 1
    ext block
    rw [Finset.mem_union, mem_retainedBlocks, mem_retainedBlocks, mem_retainedBlocks]
    obtain ⟨heq, hnone⟩ | ⟨heq, hnone⟩ := h block
    · rw [heq, hnone]
      simp
    · rw [heq, hnone]
      simp
  · rw [Finset.disjoint_left]
    intro block hleft hright
    obtain ⟨-, lifetime, hlifetime, -⟩ := mem_retainedBlocks.mp hleft
    obtain ⟨-, lifetime', hlifetime', -⟩ := mem_retainedBlocks.mp hright
    obtain ⟨-, hnone⟩ | ⟨-, hnone⟩ := h block
    · rw [hnone] at hlifetime'
      cases hlifetime'
    · rw [hnone] at hlifetime
      cases hlifetime

theorem card_retainedBlocks (geo : Geometry) {runs : List LifetimeRun}
    (hcanon : Canonical { run | run ∈ runs } assigned none)
    (hsort : runs.Pairwise fun a b => Run.stop a ≤ Run.start b)
    (hbound : ∀ run ∈ runs, run.1 + run.2.blocks ≤ geo.totalBlocks) :
    (retainedBlocks geo assigned).card = retiredBlocks runs := by
  have hplaces : retainedBlocks geo assigned = places (runs.filter fun run => run.2.retirement ≠ 0) := by
    ext block
    rw [mem_retainedBlocks, mem_places]
    constructor
    · rintro ⟨-, lifetime, hlifetime, hretired⟩
      have hlifetime : assigned block = some lifetime := hlifetime
      obtain ⟨run, hrun, hcov, hlabel⟩ := hcanon.shows.exists_covers (hlifetime ▸ Option.some_ne_none _)
      refine ⟨run, mem_filter.mpr ⟨hrun, decide_eq_true fun hzero => hretired ?_⟩, hcov⟩
      have hlabel : some run.2.lifetime = some lifetime := hlabel.trans hlifetime
      rw [← Option.some.inj hlabel, LifetimeRecord.lifetime, if_pos hzero]
    · rintro ⟨run, hrun, hcov⟩
      obtain ⟨hrun, hretired⟩ := mem_filter.mp hrun
      have hstop : block < run.1 + run.2.blocks := hcov.2
      refine ⟨lt_of_lt_of_le hstop (hbound run hrun), run.2.lifetime, ?_, ?_⟩
      · exact hcanon.shows.inside run hrun block hcov
      · rw [LifetimeRecord.lifetime, if_neg (of_decide_eq_true hretired)]
        exact Option.some_ne_none _
  rw [hplaces, card_places (hsort.filter _), retiredBlocks]
  congr 2
  funext run
  exact Nat.add_sub_cancel_left ..

variable {changes : LifetimeChanges} {tree : SortedMap Bytes Bytes} {state : LedgerState}
  {runs : List LifetimeRun}

def LifetimeChanges.edited (changes : LifetimeChanges) : Set Nat :=
  { block | changes.Allocates block ∨ changes.Retires block ∨ changes.Transfers block }

theorem LifetimeChanges.applied_of_not_edited (h : block ∉ changes.edited) :
    changes.applied block newGeneration assigned = assigned block := by
  have hnone : ¬changes.Allocates block ∧ ¬changes.Retires block ∧ ¬changes.Transfers block :=
    ⟨fun hin => h (.inl hin), fun hin => h (.inr (.inl hin)), fun hin => h (.inr (.inr hin))⟩
  rw [applied, if_neg hnone.1, if_neg hnone.2.1, if_neg hnone.2.2]

theorem LifetimeChanges.applied_congr {other : Nat → Option Lifetime} (h : assigned block = other block) :
    changes.applied block newGeneration assigned = changes.applied block newGeneration other := by
  rw [applied, applied, h]

variable {ranges : List (Nat × Nat)}

theorem exists_interval
    (hranges : ranges = (changes.allocations ++ changes.retirements).map intervalOf ++
      changes.transfers.map fun run => intervalOf (run.1, run.2.blocks)) (hblk : block ∈ changes.edited) :
    ∃ interval ∈ mergeIntervals (ranges.insertionSort intervalLe),
      interval.1 ≤ block ∧ block < interval.2 := by
  have hrng : ∃ range ∈ ranges, range.1 ≤ block ∧ block < range.2 := by
    rw [hranges]
    obtain ⟨range, hrng, hin⟩ | ⟨range, hrng, hin⟩ | ⟨run, hrun, hin⟩ := hblk
    · refine ⟨intervalOf range, mem_append_left _ (mem_map_of_mem ?_), hin⟩
      exact mem_append_left _ hrng
    · refine ⟨intervalOf range, mem_append_left _ (mem_map_of_mem ?_), hin⟩
      exact mem_append_right _ hrng
    · exact ⟨intervalOf (run.1, run.2.blocks), mem_append_right _ (mem_map.mpr ⟨run, hrun, rfl⟩), hin⟩
  obtain ⟨range, hrng, hlow, hhigh⟩ := hrng
  obtain ⟨interval, hintv, hstart, hstop⟩ := mergeIntervals_covers ranges range hrng
  exact ⟨interval, hintv, hstart.trans hlow, lt_of_lt_of_le hhigh hstop⟩

theorem requested_starts (hval : geo.Valid) (hreq : Requested geo generation changes)
    (hranges : ranges = (changes.allocations ++ changes.retirements).map intervalOf ++
      changes.transfers.map fun run => intervalOf (run.1, run.2.blocks)) :
    ∀ interval ∈ mergeIntervals (ranges.insertionSort intervalLe),
      0 < interval.1 ∧ interval.1 < 2 ^ 64 := by
  refine mergeIntervals_forall ranges (fun low high next hfirst _ _ => hfirst) ?_
  intro interval hintv
  rw [hranges] at hintv
  obtain hintv | hintv := mem_append.mp hintv
  · obtain ⟨range, hrng, rfl⟩ := mem_map.mp hintv
    obtain ⟨hblks, hall⟩ := hreq.edited range hrng
    have hfirst := (hall range.1 ⟨le_rfl, by omega⟩).1
    have hlow : 3 ≤ range.1 := three_le_of_allocatable hfirst
    have hhigh : range.1 < geo.totalBlocks := (isAllocatable_iff.mp hfirst).1
    have := totalBlocks_lt hval
    exact ⟨show 0 < range.1 by omega, show range.1 < 2 ^ 64 by omega⟩
  · obtain ⟨run, hrun, rfl⟩ := mem_map.mp hintv
    obtain ⟨hrec, -⟩ := hreq.transferred run hrun
    exact ⟨hrec.inRange.positive, hrec.start_lt hval⟩

structure Edited (geo : Geometry) (generation newGeneration : Nat) (changes : LifetimeChanges)
    (runs : List LifetimeRun) (assigned : Nat → Option Lifetime) (overlay : Overlay) : Prop where
  requested : Requested geo generation changes
  read : runsIn overlay.original ⊆ { run | run ∈ runs }
  far : ∀ run ∈ runs, run ∉ runsIn overlay.original → ∀ block ∈ changes.edited,
    block + 1 < run.1 ∨ run.1 + run.2.blocks < block
  current : Canonical (runsIn overlay.current)
    (changes.applied · newGeneration (restrict (runsIn overlay.original) assigned none)) none

namespace Edited

variable {overlay : Overlay} (h : Edited geo generation newGeneration changes runs assigned overlay)
  (hledger : Ledger geo generation tree state runs assigned)
include h hledger

variable {run : LifetimeRun} {block : Nat}

omit hledger in
theorem kept_not_edited (hrun : run ∈ { run | run ∈ runs } \ runsIn overlay.original)
    (hblk : Covers run block) : block ∉ changes.edited := by
  intro hin
  have hlow : run.1 ≤ block := hblk.1
  have hhigh : block < run.1 + run.2.blocks := hblk.2
  have := h.far run hrun.1 hrun.2 block hin
  omega

theorem restrict_of_kept (hrun : run ∈ { run | run ∈ runs } \ runsIn overlay.original)
    (hblk : Covers run block) : restrict (runsIn overlay.original) assigned none block = none := by
  refine restrict_of_not_covers fun other hoth hcov => hrun.2 ?_
  rw [hledger.canonical.layout.eq_of_covers hrun.1 (h.read hoth) hblk hcov]
  exact hoth

omit h in
theorem restrict_of_not_kept (hnone : ∀ run ∈ { run | run ∈ runs } \ runsIn overlay.original, ¬Covers run block) :
    restrict (runsIn overlay.original) assigned none block = assigned block := by
  by_cases hcovered : ∃ run ∈ runsIn overlay.original, Covers run block
  · obtain ⟨run, hrun, hcov⟩ := hcovered
    exact restrict_of_covers hrun hcov
  · push Not at hcovered
    rw [restrict_of_not_covers hcovered, hledger.canonical.shows.outside]
    intro run hrun hcov
    by_cases hread : run ∈ runsIn overlay.original
    · exact hcovered run hread hcov
    · exact hnone run ⟨hrun, hread⟩ hcov

theorem canonical : Canonical (runsIn overlay.current ∪ { run | run ∈ runs } \ runsIn overlay.original)
    (changes.applied · newGeneration assigned) none := by
  refine hledger.canonical.splice h.read h.current h.far (hledger.canonical.kept h.read h.current ?_) ?_ ?_
  · exact fun block hout => applied_of_not_edited hout
  · rintro block ⟨run, hrun, hblk⟩
    exact applied_of_not_edited (h.kept_not_edited hrun hblk)
  · intro block hnone
    exact applied_congr (restrict_of_not_kept hledger hnone).symm

theorem current_inNamespace (hrun : run ∈ runsIn overlay.current)
    (hblk : Covers run block) : InNamespace geo block := by
  have hvalue := h.current.shows.inside run hrun block hblk
  have hmarked := h.current.marked run hrun
  by_cases hedit : changes.Allocates block ∨ changes.Retires block
  · have hrng : ∃ range ∈ changes.allocations ++ changes.retirements, InRange range block := by
      obtain ⟨range, hrng, hin⟩ | ⟨range, hrng, hin⟩ := hedit
      · exact ⟨range, mem_append_left _ hrng, hin⟩
      · exact ⟨range, mem_append_right _ hrng, hin⟩
    obtain ⟨range, hrng, hin⟩ := hrng
    exact (h.requested.edited range hrng).2 block hin
  · rw [← hvalue, applied, if_neg fun hin => hedit (.inl hin),
      if_neg fun hin => hedit (.inr hin)] at hmarked
    split at hmarked
    · exact absurd rfl hmarked
    · obtain ⟨old, hold, hcov⟩ := exists_covers_of_restrict hmarked
      exact (hledger.records old (h.read hold)).inNamespace block hcov

theorem current_stop_le (hrun : run ∈ runsIn overlay.current) : run.1 + run.2.blocks ≤ geo.totalBlocks := by
  have hlast := h.current_inNamespace hledger hrun (h.current.layout.covers_last hrun)
  have hbound : run.1 + run.2.blocks - 1 < geo.totalBlocks := (isAllocatable_iff.mp hlast.1).1
  omega

theorem card_retained :
    (retainedBlocks geo (changes.applied · newGeneration assigned)).card + retiredBlocks overlay.original.entries
      = (retainedBlocks geo assigned).card + retiredBlocks overlay.current.entries := by
  set kept : Set LifetimeRun := { run | run ∈ runs } \ runsIn overlay.original
  have horig := hledger.canonical.mono h.read
  have hold := card_retainedBlocks geo horig (horig.layout.pairwise overlay.original.sorted)
    fun run hrun => (hledger.records run (h.read hrun)).inRange.stop
  have hnew := card_retainedBlocks geo h.current (h.current.layout.pairwise overlay.current.sorted)
    fun run hrun => h.current_stop_le hledger hrun
  have hbefore : (retainedBlocks geo assigned).card
      = (retainedBlocks geo (restrict (runsIn overlay.original) assigned none)).card
        + (retainedBlocks geo (restrict kept assigned none)).card := by
    refine card_retainedBlocks_add fun block => ?_
    by_cases hkept : ∃ run ∈ kept, Covers run block
    · obtain ⟨run, hrun, hcov⟩ := hkept
      exact .inr ⟨(restrict_of_covers hrun hcov).symm, h.restrict_of_kept hledger hrun hcov⟩
    · push Not at hkept
      exact .inl ⟨(restrict_of_not_kept hledger hkept).symm, restrict_of_not_covers hkept⟩
  have hafter : (retainedBlocks geo (changes.applied · newGeneration assigned)).card
      = (retainedBlocks geo (changes.applied · newGeneration (restrict (runsIn overlay.original) assigned none))).card
        + (retainedBlocks geo (restrict kept assigned none)).card := by
    refine card_retainedBlocks_add fun block => ?_
    by_cases hkept : ∃ run ∈ kept, Covers run block
    · obtain ⟨run, hrun, hcov⟩ := hkept
      have hout := h.kept_not_edited hrun hcov
      rw [applied_of_not_edited hout, applied_of_not_edited hout]
      exact .inr ⟨(restrict_of_covers hrun hcov).symm, h.restrict_of_kept hledger hrun hcov⟩
    · push Not at hkept
      refine .inl ⟨?_, restrict_of_not_covers hkept⟩
      exact applied_congr (restrict_of_not_kept hledger hkept).symm
  rw [hbefore, hafter, hold, hnew]
  omega

/-! ### What is published -/

theorem start_bounds (hrun : run ∈ runsIn overlay.current ∪ { run | run ∈ runs } \ runsIn overlay.original) :
    0 < run.1 ∧ run.1 < 2 ^ 64 := by
  obtain hrun | hrun := hrun
  · have hfirst := h.current_inNamespace hledger hrun (h.current.layout.covers_start hrun)
    have hlow : 3 ≤ run.1 := three_le_of_allocatable hfirst.1
    have hhigh : run.1 < geo.totalBlocks := (isAllocatable_iff.mp hfirst.1).1
    have := totalBlocks_lt hledger.valid
    omega
  · exact ⟨(hledger.records run hrun.1).inRange.positive, (hledger.records run hrun.1).start_lt hledger.valid⟩

variable {newState : LedgerState}

theorem mem_published {item : Bytes × Bytes} :
    item ∈ (((changedRecords overlay).map entry ++
        if newState ≠ state then [(keyU64 0, newState.value)] else []).foldl (fun tree new => tree.insert new.1 new.2)
          (((overlay.original.keys.filter fun key => (overlay.current.get? key).isNone).map keyU64).foldl
            SortedMap.erase tree)).entries ↔ item = (keyU64 0, newState.value) ∨
        ∃ run ∈ runsIn overlay.current ∪ { run | run ∈ runs } \ runsIn overlay.original, item = entry run := by
  have hbounds : ∀ run, run ∈ overlay.current.entries ∨ run ∈ { run | run ∈ runs } → 0 < run.1 ∧ run.1 < 2 ^ 64 := by
    rintro run (hrun | hrun)
    · exact h.start_bounds hledger (.inl hrun)
    · exact ⟨(hledger.records run hrun).inRange.positive, (hledger.records run hrun).start_lt hledger.valid⟩
  have hzero : ∀ run, run ∈ overlay.current.entries ∨ run ∈ { run | run ∈ runs } → keyU64 0 ≠ (entry run).1 := by
    intro run hrun heq
    have := (keyU64_inj (by omega) (hbounds run hrun).2).mp heq
    have := (hbounds run hrun).1
    omega
  have hpublish : item ∈ (publish tree overlay.original overlay.current entry keyU64).entries ↔
      item = (keyU64 0, state.value) ∨
        ∃ run ∈ runsIn overlay.current ∪ { run | run ∈ runs } \ runsIn overlay.original, item = entry run := by
    have htree : item ∈ tree.entries ↔ item ∈ ({(keyU64 0, state.value)} : Set _) ∨
        ∃ run ∈ { run | run ∈ runs }, entry run = item := by
      rw [hledger.entries, mem_cons, mem_map]
      rfl
    rw [mem_publish htree]
    · refine or_congr Iff.rfl (exists_congr fun run => and_congr Iff.rfl eq_comm)
    · exact fun run hrun => h.read hrun
    · exact fun _ _ => rfl
    · exact fun a b ha hb hkeys => (keyU64_inj (hbounds a ha).2 (hbounds b hb).2).mp hkeys
    · rintro run hrun _ rfl
      exact hzero run hrun
    · exact fun a ha b hb hstart => hledger.canonical.layout.eq_of_start ha hb hstart
    · exact fun a ha b hb hold hstart => (h.canonical hledger).layout.eq_of_start (.inl ha) (.inr ⟨hb, hold⟩) hstart
  rw [foldl_append]
  split
  · rw [foldl_cons, foldl_nil, mem_insert]
    constructor
    · rintro (hitem | ⟨hitem, hne⟩)
      · exact .inl hitem
      · obtain rfl | hitem := hpublish.mp hitem
        · exact absurd rfl hne
        · exact .inr hitem
    · rintro (hitem | ⟨run, hrun, rfl⟩)
      · exact .inl hitem
      · exact .inr ⟨hpublish.mpr (.inr ⟨run, hrun, rfl⟩), (hzero run (hrun.imp_right And.left)).symm⟩
  · next hstate =>
    rw [not_not.mp hstate]
    exact hpublish

theorem ledger (hgen : generation ≤ newGeneration)
    (hcontrol : newState.encode geo.totalBlocks = .ok newState.value)
    (hchanged : ∀ run ∈ changedRecords overlay, run.2.InRange run.1 newGeneration geo.totalBlocks)
    (hcnt : newState.retainedBlocks + retiredBlocks overlay.original.entries
      = state.retainedBlocks + retiredBlocks overlay.current.entries) {published : SortedMap Bytes Bytes}
    (hpub : ∀ item, item ∈ published.entries ↔ item = (keyU64 0, newState.value) ∨
      ∃ run ∈ runsIn overlay.current ∪ { run | run ∈ runs } \ runsIn overlay.original, item = entry run) :
    ∃ runs', Ledger geo newGeneration published newState runs' (changes.applied · newGeneration assigned) := by
  classical
  set all : Set LifetimeRun := runsIn overlay.current ∪ { run | run ∈ runs } \ runsIn overlay.original
  set kept := runs.filter fun run => run ∉ runsIn overlay.original
  set merged := kept.foldl (fun map run => map.insert run.1 run.2) overlay.current
  have hkept : ∀ run, run ∈ kept ↔ run ∈ runs ∧ run ∉ runsIn overlay.original := by simp [kept]
  have hmerged : ∀ run, run ∈ merged.entries ↔ run ∈ all := by
    intro run
    have hdist : kept.Pairwise fun a b => a.1 ≠ b.1 :=
      (hledger.sorted_starts.filter _).imp fun hlt => hlt.ne
    rw [mem_foldl_insert hdist]
    constructor
    · rintro (hrun | ⟨hrun, -⟩)
      · exact .inr ((hkept run).mp hrun)
      · exact .inl hrun
    · rintro (hrun | hrun)
      · by_cases hshared : ∃ other ∈ kept, run.1 = other.1
        · obtain ⟨other, hoth, hstart⟩ := hshared
          have hmem : other ∈ all := .inr ((hkept other).mp hoth)
          rw [(h.canonical hledger).layout.eq_of_start (.inl hrun) hmem hstart]
          exact .inl hoth
        · push Not at hshared
          exact .inr ⟨hrun, hshared⟩
      · exact .inl ((hkept run).mpr hrun)
  have hall : { run | run ∈ merged.entries } = all := Set.ext hmerged
  have hcanon : Canonical { run | run ∈ merged.entries } (changes.applied · newGeneration assigned) none := by
    rw [hall]
    exact h.canonical hledger
  have hbounds : ∀ run ∈ merged.entries, 0 < run.1 ∧ run.1 < 2 ^ 64 := fun run hrun =>
    h.start_bounds hledger ((hmerged run).mp hrun)
  have hsortedKeys : ((keyU64 0, newState.value) :: merged.entries.map entry).Pairwise fun a b => a.1 < b.1 := by
    refine pairwise_cons.mpr ⟨fun item hitem => ?_, pairwise_map.mpr ?_⟩
    · obtain ⟨run, hrun, rfl⟩ := mem_map.mp hitem
      exact (keyU64_lt (by omega) (hbounds run hrun).2).mpr (hbounds run hrun).1
    · refine merged.sorted.imp_of_mem fun {a b} ha hb hlt => ?_
      exact (keyU64_lt (hbounds a ha).2 (hbounds b hb).2).mpr hlt
  have hents : published = ⟨_, hsortedKeys⟩ := by
    refine ext_mem fun item => ?_
    rw [hpub, mem_cons, mem_map]
    refine or_congr_right (exists_congr fun run => ?_)
    rw [hmerged, eq_comm]
  have hrecs : ∀ run ∈ merged.entries, RecordOk geo newGeneration run := by
    intro run hrun
    obtain hrun | hrun := (hmerged run).mp hrun
    · refine ⟨?_, fun block hblk => h.current_inNamespace hledger hrun hblk⟩
      by_cases hsame : overlay.original.get? run.1 = some run.2
      · exact ((hledger.records run (h.read (get?_eq_some.mp hsame))).mono hgen).inRange
      · exact hchanged run (mem_filter.mpr ⟨hrun, decide_eq_true hsame⟩)
    · exact (hledger.records run hrun.1).mono hgen
  refine ⟨merged.entries, hledger.valid, hledger.pool, by rw [hents], hcontrol, hrecs,
    hcanon.layout.pairwise merged.sorted, hcanon, ?_⟩
  have hcard := h.card_retained hledger
  have hold := hledger.retained
  omega

theorem allowed (hallowed : Allowed newGeneration changes
      (restrict (runsIn overlay.original) assigned none)) : Allowed newGeneration changes assigned := by
  have hsame : ∀ block ∈ changes.edited, restrict (runsIn overlay.original) assigned none block = assigned block := by
    intro block hblk
    refine restrict_of_not_kept hledger fun run hrun hcov => ?_
    exact h.kept_not_edited hrun hcov hblk
  refine ⟨fun block hblk => ?_, fun block hblk => ?_, fun run hrun block hblk => ?_⟩
  · rw [← hsame block (.inl hblk)]
    exact hallowed.allocated block hblk
  · rw [← hsame block (.inr (.inl hblk))]
    exact hallowed.retired block hblk
  · rw [← hsame block (.inr (.inr ⟨run, hrun, hblk⟩))]
    exact hallowed.transferred run hrun block hblk

end Edited

/-! ### The whole transaction -/

theorem Ledger.readLedgerState_eq_ok (hledger : Ledger geo generation tree state runs assigned)
    {found : LedgerState} {count : Nat} (h : readLedgerState geo tree = .ok (found, count)) : found = state := by
  obtain ⟨⟨value, total⟩, hcontrol, h⟩ := of_bind h
  obtain ⟨decoded, hdec, h⟩ := of_bind h
  obtain ⟨rfl, -⟩ := pure_pair_eq_ok.mp h
  replace hcontrol := after_check hcontrol
  have hpage : (readKeyPage tree (keyU64 0) 1).head? = some (keyU64 0, state.value) := by
    rw [readKeyPage, hledger.entries, filter_cons_of_pos (by simp)]
    rfl
  rw [hpage] at hcontrol
  obtain ⟨key, -, hcontrol⟩ := of_bind hcontrol
  replace hcontrol := after_check hcontrol
  obtain ⟨rfl, -⟩ := pure_pair_eq_ok.mp hcontrol
  have hdecoded := LedgerState.decode_value hledger.control (totalBlocks_lt hledger.valid)
  exact Except.ok.inj ((mapError_eq_ok.mp hdec).symm.trans hdecoded)

theorem upsertRecord_eq_ok (hval : geo.Valid) {run : LifetimeRun} {item : Bytes × Bytes}
    (h : upsertRecord geo newGeneration run = .ok item) :
    run.2.InRange run.1 newGeneration geo.totalBlocks ∧ item = entry run := by
  obtain ⟨value, hvalue, h⟩ := of_bind h
  obtain ⟨hrec, hvalue⟩ := check_ok.mp (mapError_eq_ok.mp hvalue)
  refine ⟨(LifetimeRecord.validate_eq_ok (totalBlocks_lt hval)).mp hrec, ?_⟩
  rw [pure_ok.mp h, pure_ok.mp hvalue]
  rfl

variable {registry : SortedMap Bytes Bytes} {maxRecords maxViews : Nat} {cow : Except CoreError Unit}
  {mutation : LifetimeMutation}

theorem Ledger.mutateLifetimes_eq_ok (hledger : Ledger geo generation tree state runs assigned)
    (hnew : newGeneration < 2 ^ 64)
    (h : mutateLifetimes geo registry tree generation newGeneration changes maxRecords maxViews cow = .ok mutation) :
    (∃ runs', Ledger geo newGeneration mutation.tree mutation.state runs'
        (changes.applied · newGeneration assigned)) ∧
      Requested geo generation changes ∧ Allowed newGeneration changes assigned := by
  obtain ⟨hadvances, h⟩ := of_refuse h
  obtain ⟨⟨oldState, count⟩, hread, h⟩ := of_bind h
  obtain rfl := hledger.readLedgerState_eq_ok hread
  obtain ⟨-, -, h⟩ := of_bind h
  obtain ⟨ranges, hranges, h⟩ := of_bind h
  obtain ⟨fetched, hfetched, h⟩ := of_bind h
  replace h := after_check h
  replace h := after_check h
  obtain ⟨overlay, hoverlay, h⟩ := of_bind h
  obtain ⟨oldRetired, holdRetired, h⟩ := of_bind h
  obtain ⟨newRetired, hnewRetired, h⟩ := of_bind h
  obtain ⟨hcnt, h⟩ := of_refuse h
  obtain ⟨controlValue, hcontrol, h⟩ := of_bind h
  obtain ⟨upserts, hupserts, h⟩ := of_bind h
  replace h := after_check h
  obtain rfl := pure_ok.mp h
  have hgen : generation < 2 ^ 64 := by omega
  obtain ⟨hreq, hintervals⟩ := requestedRanges_eq_ok hledger.valid hranges
  -- what was read: records of the ledger, among them all that an edited block touches
  have hpositive : ∀ interval ∈ mergeIntervals (ranges.insertionSort intervalLe),
      0 < interval.1 ∧ interval.1 < 2 ^ 64 :=
    requested_starts hledger.valid hreq hintervals
  obtain ⟨⟨-, hfound⟩, htouching⟩ := hledger.rememberIntervals_eq_ok hgen hpositive hfetched
  have hsub : runsIn fetched.original ⊆ { run | run ∈ runs } := fun run hrun =>
    (hfound hrun).resolve_left not_mem_nil
  have horig := hledger.canonical.mono hsub
  obtain ⟨hsame, hallowed, hcurrent⟩ := editOverlay_eq_ok hoverlay ⟨horig.layout, horig.shows⟩
    (fun range hrng => (hreq.edited range (mem_append_left _ hrng)).1)
    (fun run hrun => (hreq.transferred run hrun).2)
  rw [← hsame] at hsub htouching hcurrent hallowed
  have hedited : Edited geo generation newGeneration changes runs assigned overlay := by
    refine ⟨hreq, hsub, fun run hrun hout block hblk => ?_, hcurrent⟩
    obtain ⟨interval, hintv, hlow, hhigh⟩ := exists_interval hintervals hblk
    by_contra hnear
    exact hout (htouching interval hintv run hrun (by omega) (by omega))
  obtain ⟨hinRange, rfl⟩ := mapM_eq_map (fun _ _ => upsertRecord_eq_ok hledger.valid) hupserts
  have henc := mapError_eq_ok.mp hcontrol
  obtain rfl := (LedgerState.encode_eq_ok.mp henc).2.2.2
  replace holdRetired := after_check holdRetired
  replace hnewRetired := after_check hnewRetired
  obtain rfl := pure_ok.mp holdRetired
  obtain rfl := pure_ok.mp hnewRetired
  refine ⟨hedited.ledger hledger (by omega) henc hinRange ?_ fun item => ?_, hreq,
    hedited.allowed hledger hallowed⟩
  · dsimp only
    omega
  · exact hedited.mem_published hledger

/-- An edit fails, or it publishes a canonical ledger: the new generation and no retirement on each
allocated block, the new generation as retirement on each retired one, no record of a transferred one,
and every other block as before, with the retired blocks counted. -/
theorem mutateLifetimes_ledger (hledger : Ledger geo generation tree state runs assigned)
    (hnew : newGeneration < 2 ^ 64) (registry : SortedMap Bytes Bytes) (changes : LifetimeChanges)
    (maxRecords maxViews : Nat) (cow : Except CoreError Unit) :
    (∃ error, mutateLifetimes geo registry tree generation newGeneration changes maxRecords maxViews cow
        = .error error) ∨ ∃ mutation runs' assigned',
        mutateLifetimes geo registry tree generation newGeneration changes maxRecords maxViews cow = .ok mutation ∧
        Ledger geo newGeneration mutation.tree mutation.state runs' assigned' ∧
        (∀ block, changes.Allocates block → assigned' block = some ⟨newGeneration, none⟩) ∧
        (∀ block, changes.Retires block → assigned' block = (assigned block).map (Lifetime.retire newGeneration)) ∧
        (∀ block, changes.Transfers block → assigned' block = none) ∧
        ∀ block, ¬changes.Allocates block → ¬changes.Retires block → ¬changes.Transfers block →
          assigned' block = assigned block := by
  cases h : mutateLifetimes geo registry tree generation newGeneration changes maxRecords maxViews cow with
  | error error => exact .inl ⟨error, rfl⟩
  | ok mutation =>
    obtain ⟨⟨runs', hledger'⟩, hrequested, hallowed⟩ := hledger.mutateLifetimes_eq_ok hnew h
    have hexclusive := hallowed.exclusive fun run hrun => (hrequested.transferred run hrun).2
    refine .inr ⟨mutation, runs', _, rfl, hledger', fun block hin => ?_, fun block hin => ?_,
      fun block hin => ?_, fun block hallocates hretires htransfers => ?_⟩
    · exact if_pos hin
    · rw [applied, if_neg fun hother => (hexclusive block).1 hother hin, if_pos hin]
    · obtain ⟨hallocates, hretires⟩ := (hexclusive block).2 hin
      rw [applied, if_neg hallocates, if_neg hretires, if_pos hin]
    · rw [applied, if_neg hallocates, if_neg hretires, if_neg htransfers]

end Edit

namespace OneView

def geometry : Geometry := ⟨4096, 64, 64⟩

def records : List LifetimeRun := [(20, ⟨4, 1, 0⟩), (30, ⟨2, 1, 2⟩)]

def control : LedgerState := ⟨0, 2⟩

theorem sorted : ((keyU64 0, control.value) :: records.map entry).Pairwise fun a b => a.1 < b.1 := by
  decide

def ledger : SortedMap Bytes Bytes := ⟨_, sorted⟩

def registry : SortedMap Bytes Bytes := ⟨[(keyU64 0, words [1])], pairwise_singleton ..⟩

/-- One run of each kind; the retired one is in the middle of its record. -/
def changes : LifetimeChanges := ⟨[(40, 2)], [(21, 2)], [(30, ⟨2, 1, 2⟩)], none⟩

theorem valid : geometry.Valid := valid_of_validate (u := ()) (by decide)

theorem record_ok : ∀ run ∈ records, RecordOk geometry 2 run := by
  have hrng : ∀ run ∈ records, run.2.validate run.1 2 geometry.totalBlocks = .ok () ∧
      namespaceRange geometry run.1 run.2.blocks = .ok () := by decide
  intro run hrun
  obtain ⟨hvalidate, hnamespace⟩ := hrng run hrun
  exact ⟨(LifetimeRecord.validate_eq_ok (by decide)).mp hvalidate,
    ((namespaceRange_eq_ok valid).mp hnamespace).2.2⟩

theorem ledger_ok : Ledger geometry 2 ledger control records (labelAt records none) := by
  have hsort : records.Pairwise fun a b => a.1 + a.2.blocks ≤ b.1 := by decide
  have hlay : Layout { run | run ∈ records } :=
    layout_of_pairwise (fun run hrun => Nat.lt_add_of_pos_right (record_ok run hrun).inRange.nonempty)
      hsort
  have htouch : ∀ a ∈ records, ∀ b ∈ records, a.1 + a.2.blocks ≠ b.1 := by decide
  have hcanon : Canonical { run | run ∈ records } (labelAt records none) none :=
    ⟨hlay, hlay.shows_labelAt none, fun a ha b hb heq => absurd heq (htouch a ha b hb),
      fun _ _ => Option.some_ne_none _⟩
  refine ⟨valid, ⟨(13, 16), by decide⟩, rfl, by decide, record_ok, hsort, hcanon, ?_⟩
  rw [card_retainedBlocks geometry hcanon hsort fun run hrun => (record_ok run hrun).inRange.stop]
  rfl

end OneView

open OneView

theorem mutateLifetimes_ledger_example : ∃ mutation runs' assigned',
    mutateLifetimes geometry registry ledger 2 3 changes 16 4 (.ok ())
      = .ok mutation ∧ Ledger geometry 3 mutation.tree mutation.state runs' assigned' ∧
    assigned' 40 = some ⟨3, none⟩ ∧ assigned' 21 = some ⟨1, some 3⟩ ∧ assigned' 30 = none ∧
    assigned' 20 = some ⟨1, none⟩ := by
  obtain ⟨error, herror⟩ | ⟨mutation, runs', assigned', hok, hledger, hallocated, hretired, htransferred,
      hother⟩ := mutateLifetimes_ledger ledger_ok (by decide : 3 < 2 ^ 64) registry
        changes 16 4 (.ok ())
  · have hok : (mutateLifetimes geometry registry ledger 2 3 changes 16 4
        (.ok ())).isOk = true := by decide
    rw [herror] at hok
    cases hok
  · refine ⟨mutation, runs', assigned', hok, hledger, hallocated 40 (by decide), ?_,
      htransferred 30 (by decide), ?_⟩
    · rw [hretired 21 (by decide)]
      rfl
    · rw [hother 20 (by decide) (by decide) (by decide)]
      rfl

end Afsplus.Snapshot
