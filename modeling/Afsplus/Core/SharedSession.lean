import Afsplus.Core.SharedPublication

/-!
# Sequences of reference edits

Prefetches, acquires and releases in any order on one edit, next to the counts they ask for. Every call
keeps the two together, so whatever was called, the publication is the canonical list of those counts.
-/

namespace Afsplus

open Fallible Runs

namespace RefEdit

open SharedExtents

def committedRecords (geo : Geometry) : Option (SortedMap Bytes Bytes) → Except CoreError (List SharedRun)
  | none => .ok []
  | some tree => loadAll geo tree

inductive Call where
  | prefetch (start blocks : Nat)
  | acquire (start count : Nat)
  | release (start count : Nat)
  deriving DecidableEq, Repr

/-- An edit and the counts its calls ask for. -/
structure Session where
  edit : RefEdit
  counts : Nat → Nat

namespace Session

variable (geo : Geometry) (tree : Option (SortedMap Bytes Bytes))

def start (records : List SharedRun) : Session := ⟨opened tree, labelAt records 1⟩

def step (s : Session) : Call → Session
  | .prefetch start blocks => ⟨endState (sharedPrefetch geo tree start blocks s.edit), s.counts⟩
  | .acquire start count => ⟨endState (acquire start count s.edit),
      if s.edit.Admits start count then raised s.counts start (start + count) else s.counts⟩
  | .release start count => ⟨endState (release start count s.edit),
      if s.edit.Admits start count then lowered s.counts start (start + count) else s.counts⟩

def run (s : Session) (calls : List Call) : Session := calls.foldl (step geo tree) s

structure Holds (tree : Option (SortedMap Bytes Bytes)) (records : List SharedRun) (s : Session) : Prop where
  tracks : Tracks records s.edit s.counts
  complete : tree = none → s.edit.covers 0 (2 ^ 64 - 1) = true

variable {geo tree} {records : List SharedRun}

theorem loaded (h : committedRecords geo tree = .ok records) :
    Loaded geo (tree.getD .empty) records ∧ (tree = none → records = []) := by
  cases tree with
  | none =>
    cases h
    exact ⟨⟨rfl, fun _ h => absurd h List.not_mem_nil, fun _ h => absurd h List.not_mem_nil, .nil,
      fun _ h => absurd h List.not_mem_nil⟩, fun _ => rfl⟩
  | some tree =>
    exact ⟨loaded_of_loadAll h, fun hnone => by cases hnone⟩

theorem holds_start (hload : Loaded geo (tree.getD .empty) records) (hnone : tree = none → records = []) :
    Holds tree records (start tree records) := by
  have hwindow : runsOf (opened tree).current = ∅ ∧ runsOf (opened tree).original = ∅ := by
    cases tree with
    | none => exact ⟨Set.eq_empty_of_forall_notMem fun _ h => absurd h List.not_mem_nil,
        Set.eq_empty_of_forall_notMem fun _ h => absurd h List.not_mem_nil⟩
    | some tree => exact ⟨Set.eq_empty_of_forall_notMem fun _ h => absurd h List.not_mem_nil,
        Set.eq_empty_of_forall_notMem fun _ h => absurd h List.not_mem_nil⟩
  have hview : view records (opened tree) = { run | run ∈ records } := by
    rw [view, unfetched, hwindow.1, hwindow.2, Set.empty_union]
    ext run
    exact and_iff_left (Set.notMem_empty run)
  refine ⟨⟨?_, ?_, ?_, ?_, ?_, ?_, ?_, ?_⟩, ?_⟩
  · cases tree <;> exact keyed_empty
  · cases tree <;> exact keyed_empty
  · show ∀ run ∈ runsOf (opened tree).original, _
    rw [hwindow.2]
    exact fun run hrun => absurd hrun (Set.notMem_empty run)
  · intro interval hintv run hrun
    cases tree with
    | none =>
      rw [hnone rfl] at hrun
      cases hrun
    | some tree => cases hintv
  · show ∀ run ∈ runsOf (opened tree).current, _
    rw [hwindow.1]
    exact fun run hrun => absurd hrun (Set.notMem_empty run)
  · show ∀ run ∈ runsOf (opened tree).current, _
    rw [hwindow.1]
    exact fun run hrun => absurd hrun (Set.notMem_empty run)
  · show Layout (view records (opened tree))
    rw [hview]
    exact hload.layout
  · show Shows (view records (opened tree)) (labelAt records 1) 1
    rw [hview]
    exact hload.layout.shows_labelAt 1
  · intro htree
    subst htree
    show (opened none).covers 0 (2 ^ 64 - 1) = true
    decide

variable {s : Session}

theorem Holds.prefetch (h : Holds tree records s)
    (hload : Loaded geo (tree.getD .empty) records) {start blocks : Nat} (hbound : start + blocks < 2 ^ 64) :
    ∃ edit', sharedPrefetch geo tree start blocks s.edit = .ok () edit' ∧
      edit'.covers start (start + blocks) = true ∧ Tracks records edit' s.counts ∧
      ∀ low high, s.edit.covers low high = true → edit'.covers low high = true := by
  rw [sharedPrefetch, require_bind hbound, get_bind_apply]
  by_cases hcov : s.edit.covers start (start + blocks) = true
  · rw [if_pos hcov]
    exact ⟨s.edit, rfl, hcov, h.tracks, fun _ _ => id⟩
  rw [if_neg hcov]
  cases tree with
  | none =>
    obtain ⟨interval, hintv, hlow, hhigh⟩ := covers_iff.mp (h.complete rfl)
    exact absurd (covers_iff.mpr ⟨interval, hintv, by omega, by omega⟩) hcov
  | some tree =>
    obtain ⟨found, hfound, hsub, hall⟩ := prefetched hload (Nat.le_add_right start blocks) hbound
    obtain ⟨htracks, hnow, hmono⟩ := noteFetched_spec hload.layout hload.ok h.tracks hsub hall
    refine ⟨_, ?_, hnow, htracks, hmono⟩
    exact bind_eq_ok.mpr ⟨tree, s.edit, rfl, lift_bind_eq_ok.mpr ⟨found, hfound, rfl⟩⟩

theorem covers_of_fetched {edit edit' : RefEdit} (h : edit'.fetched = edit.fetched) (low high : Nat) :
    edit'.covers low high = edit.covers low high := by
  rw [covers, h, covers]

theorem Holds.step (h : Holds tree records s)
    (hload : Loaded geo (tree.getD .empty) records) (call : Call) :
    Holds tree records (s.step geo tree call) ∧
      ∀ low high, s.edit.covers low high = true → (s.step geo tree call).edit.covers low high = true := by
  cases call with
  | prefetch start blocks =>
    by_cases hbound : start + blocks < 2 ^ 64
    · obtain ⟨edit', hrun, -, htracks, hmono⟩ := h.prefetch hload hbound
      rw [Session.step, hrun]
      exact ⟨⟨htracks, fun hnone => hmono _ _ (h.complete hnone)⟩, hmono⟩
    · rw [Session.step, sharedPrefetch, require_bind_not hbound]
      exact ⟨h, fun _ _ => id⟩
  | acquire start count =>
    rw [Session.step]
    by_cases hadmits : s.edit.Admits start count
    · obtain ⟨edit', htracks, hfetched, houtcome⟩ := acquire_spec hload.layout h.tracks hadmits
      have hend : endState (acquire start count s.edit) = edit' := by
        obtain ⟨hrun, -⟩ | ⟨hrun, -⟩ := houtcome
        · rw [hrun]
          rfl
        · rw [hrun]
          rfl
      rw [if_pos hadmits, hend]
      refine ⟨⟨htracks, fun hnone => ?_⟩, fun low high hcov => ?_⟩
      · rw [covers_of_fetched hfetched]
        exact h.complete hnone
      · rwa [covers_of_fetched hfetched]
    · obtain ⟨reason, hrun⟩ := acquire_refused hadmits
      rw [if_neg hadmits, hrun]
      exact ⟨h, fun _ _ => id⟩
  | release start count =>
    rw [Session.step]
    by_cases hadmits : s.edit.Admits start count
    · obtain ⟨freed, edit', hrun, htracks, hfetched, -⟩ := release_spec hload.layout h.tracks hadmits
      rw [if_pos hadmits, hrun]
      refine ⟨⟨htracks, fun hnone => ?_⟩, fun low high hcov => ?_⟩
      · show edit'.covers _ _ = true
        rw [covers_of_fetched hfetched]
        exact h.complete hnone
      · show edit'.covers _ _ = true
        rwa [covers_of_fetched hfetched]
    · obtain ⟨reason, hrun⟩ := release_refused hadmits
      rw [if_neg hadmits, hrun]
      exact ⟨h, fun _ _ => id⟩

theorem Holds.run (h : Holds tree records s)
    (hload : Loaded geo (tree.getD .empty) records) (calls : List Call) :
    Holds tree records (s.run geo tree calls) := by
  induction calls generalizing s with
  | nil => exact h
  | cons call rest ih => exact ih (h.step hload call).1

end Session

/-- After any calls on a tree that loads: an admitted `acquire` succeeds unless a block of its run is at
the limit, an admitted `release` returns the blocks that had one reference, a call that is not admitted
changes nothing, a prefetch admits its range for good, and the publication makes of the tree the one
canonical list of the counts reached. -/
theorem edit_counts_references {geo : Geometry} {tree : Option (SortedMap Bytes Bytes)}
    {records : List SharedRun} (hload : committedRecords geo tree = .ok records) (calls : List Call) :
    let s := (Session.start tree records).run geo tree calls
    (∀ start count, s.edit.Admits start count → ((∃ edit', acquire start count s.edit = .ok () edit') ↔
        ∀ block, start ≤ block → block < start + count → s.counts block ≠ maxReferenceCount) ∧
      ((∃ edit', acquire start count s.edit = .error limitReached edit') ↔
        ∃ block, start ≤ block ∧ block < start + count ∧ s.counts block = maxReferenceCount) ∧
      ∃ freed edit', release start count s.edit = .ok freed edit' ∧
        blocksOf freed = (List.range' start count).filter fun block => s.counts block = 1) ∧
    (∀ start count, ¬s.edit.Admits start count →
      (∃ reason, acquire start count s.edit = .error (.corrupt reason) s.edit) ∧
        ∃ reason, release start count s.edit = .error (.corrupt reason) s.edit) ∧
    (∀ start blocks, start + blocks < 2 ^ 64 → ∃ edit', sharedPrefetch geo tree start blocks s.edit = .ok () edit' ∧
        edit'.covers start (start + blocks) = true) ∧
    (∀ call low high, s.edit.covers low high = true → (s.step geo tree call).edit.covers low high = true) ∧
    ∃ publication records', s.edit.finish = .ok publication ∧ CanonicalRecords records' s.counts ∧
      (publication.apply (tree.getD .empty)).entries = records'.map entry ∧
      (tree = none → publication.records = records') := by
  obtain ⟨hloaded, hnone⟩ := Session.loaded hload
  have h := (Session.holds_start hloaded hnone).run hloaded calls
  refine ⟨fun start count hadmits => ?_, fun start count hrefused => ?_, fun start blocks hbound => ?_,
    fun call low high hcovers => (h.step hloaded call).2 low high hcovers, ?_⟩
  · obtain ⟨freed, edit'', hrelease, -, -, hfreed⟩ := release_spec hloaded.layout h.tracks hadmits
    obtain ⟨edit', -, -, houtcome⟩ := acquire_spec hloaded.layout h.tracks hadmits
    refine ⟨?_, ?_, freed, edit'', hrelease, hfreed⟩
    · obtain ⟨hrun, hroom⟩ | ⟨hrun, block, hlow, hhigh, hfull⟩ := houtcome
      · exact iff_of_true ⟨edit', hrun⟩ hroom
      · refine iff_of_false ?_ fun hroom => hroom block hlow hhigh hfull
        rintro ⟨other, hother⟩
        rw [hrun] at hother
        cases hother
    · obtain ⟨hrun, hroom⟩ | ⟨hrun, hfull⟩ := houtcome
      · refine iff_of_false ?_ fun ⟨block, hlow, hhigh, hfull⟩ => hroom block hlow hhigh hfull
        rintro ⟨other, hother⟩
        rw [hrun] at hother
        cases hother
      · exact iff_of_true ⟨edit', hrun⟩ hfull
  · exact ⟨acquire_refused hrefused, release_refused hrefused⟩
  · obtain ⟨edit', hrun, hcovers, -⟩ := h.prefetch hloaded hbound
    exact ⟨edit', hrun, hcovers⟩
  · obtain ⟨publication, records', hfinish, hcanonical, hentries, hfirst⟩ := finish_spec hloaded h.tracks
    exact ⟨publication, records', hfinish, hcanonical, hentries, fun htree => hfirst (hnone htree)⟩

section Sample

def sampleTree (count : Nat) : SortedMap Bytes Bytes :=
  ⟨[entry ⟨11, 2, count, 0⟩], List.pairwise_singleton ..⟩

theorem committedRecords_sampleTree :
    committedRecords Geometry.sample (some (sampleTree 3)) = .ok [⟨11, 2, 3, 0⟩] := by
  rfl

/-- A block with one reference is reported as freed and counts as one afterwards too; an `acquire` that
meets the limit has already counted the block in front of it. -/
theorem release_of_private_and_acquire_at_limit :
    release 10 1 (opened none) = .ok [(10, 1)] (opened none) ∧
      ((opened none).finish).toOption.map (fun publication => labelAt publication.records 1 10) = some 1 ∧
      loadAll Geometry.sample (sampleTree maxReferenceCount) = .ok [⟨11, 2, maxReferenceCount, 0⟩] ∧
      ∃ edit edit', sharedPrefetch Geometry.sample (some (sampleTree maxReferenceCount)) 10 2
          (opened (some (sampleTree maxReferenceCount))) = .ok () edit ∧
        acquire 10 2 edit = .error limitReached edit' ∧
        edit'.current.values = [⟨10, 1, 2, 0⟩, ⟨11, 2, maxReferenceCount, 0⟩] := by
  refine ⟨rfl, rfl, rfl, _, _, rfl, rfl, rfl⟩

theorem edit_counts_references_sample :
    let s := (Session.start (some (sampleTree 3)) [⟨11, 2, 3, 0⟩]).run Geometry.sample (some (sampleTree 3))
      [.prefetch 10 2, .acquire 10 2, .release 11 1]
    ∃ publication records', s.edit.finish = .ok publication ∧ CanonicalRecords records' s.counts ∧
      (publication.apply (sampleTree 3)).entries = records'.map entry := by
  have h := edit_counts_references committedRecords_sampleTree [.prefetch 10 2, .acquire 10 2, .release 11 1]
  obtain ⟨-, -, -, -, publication, records', hfinish, hcanonical, hentries, -⟩ := h
  exact ⟨publication, records', hfinish, hcanonical, hentries⟩

end Sample

end RefEdit

end Afsplus
