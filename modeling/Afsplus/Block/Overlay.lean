import Mathlib.Algebra.BigOperators.Group.Finset.Basic
import Afsplus.Core.Basic
import Afsplus.Lib.SortedMap

/-!
# Memory branches over a shared base

Two counters of the family are charged for each branch and each entry of one. A charge is given back
when its owner is dropped, on every way out of a call.
-/

namespace Afsplus.Overlay

open Fallible Finset Function

structure OverlayLimits where
  branches : Nat
  entries : Nat

/-- What all branches of a family share. None of them writes to the base. -/
structure Shared where
  base : Nat → Except BlockError Bytes
  blockSize : Nat
  blocks : Nat
  limits : OverlayLimits

/-- The entries of a branch, searched by their address. -/
abbrev Branch := SortedMap Nat Bytes

abbrev size (branch : Branch) : Nat := branch.entries.length

/-- Handles are numbered as they are made; a dropped one has no branch. -/
structure Family where
  branchCount : Nat
  entryCount : Nat
  made : Nat
  branches : Nat → Option Branch

def refused (_message : String) : BlockError := .io

def checkAccess (lba totalBlocks bufLen blockSize : Nat) : Except BlockError Unit := do
  refuseIf (lba ≥ totalBlocks) (.outOfBounds lba totalBlocks)
  refuseIf (bufLen ≠ blockSize) (.wrongBufferSize blockSize bufLen)

def claim (counter limit amount : Nat) : Except BlockError Nat :=
  if counter + amount < 2 ^ 64 ∧ counter + amount ≤ limit then .ok (counter + amount)
  else .error (refused "overlay family resource limit")

/-- A charge of one for every entry is taken off. -/
def dropEach (counter : Nat) (branch : Branch) : Nat := branch.entries.foldl (fun left _ => left - 1) counter

def new (o : Shared) : Except BlockError Family := do
  let branchCount ← claim 0 o.limits.branches 1
  pure ⟨branchCount, 0, 1, update (fun _ => none) 0 (some .empty)⟩

/-- `indexFits` says whether the allocation of the copied index succeeds. -/
def fork (o : Shared) (f : Family) (parent : Branch) (indexFits : Bool) : Family × Except BlockError Branch :=
  match claim f.branchCount o.limits.branches 1 with
  | .error e => (f, .error e)
  | .ok branchCount =>
    match claim f.entryCount o.limits.entries (size parent) with
    | .error e => ({ f with branchCount := branchCount - 1 }, .error e)
    | .ok entryCount =>
      if indexFits then
        -- each copied entry takes one over from the reservation; the rest is dropped
        let reserved := dropEach (size parent) parent
        ({ f with branchCount := branchCount, entryCount := entryCount - reserved }, .ok parent)
      else
        ({ f with branchCount := branchCount - 1, entryCount := entryCount - size parent },
          .error (refused "overlay index allocation"))

def readBlock (o : Shared) (branch : Branch) (lba bufLen : Nat) : Except BlockError Bytes := do
  checkAccess lba o.blocks bufLen o.blockSize
  (branch.get? lba).elim (o.base lba) .ok

def writeBlock (o : Shared) (f : Family) (branch : Branch) (lba : Nat) (data : Bytes) (indexFits blockFits : Bool) :
    Family × Except BlockError Branch :=
  match checkAccess lba o.blocks data.length o.blockSize with
  | .error e => (f, .error e)
  | .ok () =>
    if (branch.get? lba).isSome then
      if blockFits then (f, .ok (branch.insert lba data)) else (f, .error (refused "overlay block allocation"))
    else
      match claim f.entryCount o.limits.entries 1 with
      | .error e => (f, .error e)
      | .ok entryCount =>
        if indexFits && blockFits then ({ f with entryCount := entryCount }, .ok (branch.insert lba data))
        else ({ f with entryCount := entryCount - 1 },
          .error (refused (if indexFits then "overlay block allocation" else "overlay index allocation")))

inductive Op where
  | fork (indexFits : Bool)
  | read (lba bufLen : Nat)
  | write (lba : Nat) (data : Bytes) (indexFits blockFits : Bool)
  | drop

/-- What a call that was not refused leaves behind. -/
inductive Event where
  | forked (parent child : Nat)
  | wrote (id lba : Nat) (data : Bytes)

def step (o : Shared) (f : Family) (id : Nat) (op : Op) : Family × Except BlockError (Option Event) :=
  match f.branches id with
  | none => (f, .ok none)
  | some branch =>
    match op with
    | .fork indexFits =>
      match fork o f branch indexFits with
      | (f, .error e) => (f, .error e)
      | (f, .ok child) => ({ f with made := f.made + 1, branches := update f.branches f.made (some child) },
          .ok (some (.forked id f.made)))
    | .read lba bufLen => (f, (readBlock o branch lba bufLen).map fun _ => none)
    | .write lba data indexFits blockFits =>
      match writeBlock o f branch lba data indexFits blockFits with
      | (f, .error e) => (f, .error e)
      | (f, .ok written) =>
        ({ f with branches := update f.branches id (some written) }, .ok (some (.wrote id lba data)))
    | .drop => ({ f with branchCount := f.branchCount - 1, entryCount := dropEach f.entryCount branch,
                         branches := update f.branches id none }, .ok none)

def record (past : List Event) : Except BlockError (Option Event) → List Event
  | .ok (some event) => event :: past
  | _ => past

/-- The family after the calls and what happened in it, latest first. -/
def run (o : Shared) (f : Family) (calls : List (Nat × Op)) : Family × List Event :=
  calls.foldl (fun s call => ((step o s.1 call.1 call.2).1, record s.2 (step o s.1 call.1 call.2).2)) (f, [])

/-- What branch `id` is to hold: its latest write, else what its parent held at the fork, else the base. -/
def held (o : Shared) (id lba : Nat) : List Event → Except BlockError Bytes
  | [] => o.base lba
  | .forked parent child :: past => held o (if id = child then parent else id) lba past
  | .wrote id' lba' data :: past => if id = id' ∧ lba = lba' then .ok data else held o id lba past

/-- The charges of the live branches. -/
def total (charge : Branch → Nat) (made : Nat) (branches : Nat → Option Branch) : Nat :=
  ∑ id ∈ range made, (branches id).elim 0 charge

structure Sound (o : Shared) (f : Family) (past : List Event) : Prop where
  unmade : ∀ id, f.made ≤ id → f.branches id = none
  branchCount : f.branchCount = total (fun _ => 1) f.made f.branches
  entryCount : f.entryCount = total size f.made f.branches
  branchLimit : f.branchCount ≤ o.limits.branches
  entryLimit : f.entryCount ≤ o.limits.entries
  holds : ∀ id branch, f.branches id = some branch →
    ∀ lba, (branch.get? lba).elim (o.base lba) .ok = held o id lba past

variable {o : Shared} {f : Family} {branch : Branch} {past : List Event}

theorem dropEach_eq (counter : Nat) : dropEach counter branch = counter - size branch := by
  unfold dropEach size
  induction branch.entries generalizing counter with
  | nil => rfl
  | cons entry rest ih => rw [List.foldl_cons, ih, List.length_cons, Nat.sub_sub, Nat.add_comm]

theorem length_insert (lba : Nat) (data : Bytes) : (branch.insert lba data).entries.length
    = size branch + if (branch.get? lba).isSome then 0 else 1 := by
  simp only [SortedMap.get?_isSome, SortedMap.keys]
  obtain ⟨entries, hsort⟩ := branch
  show (SortedMap.insertEntry lba data entries).length = entries.length + if lba ∈ entries.map Prod.fst then 0 else 1
  induction entries with
  | nil => rfl
  | cons first rest ih =>
    obtain ⟨hfirst, hrest⟩ := List.pairwise_cons.mp hsort
    rw [SortedMap.insertEntry]
    rcases Nat.lt_trichotomy lba first.1 with hlt | heq | hgt
    · have hlater : ∀ entry ∈ first :: rest, lba < entry.1 :=
        List.forall_mem_cons.mpr ⟨hlt, fun entry hentry => hlt.trans (hfirst entry hentry)⟩
      have hnot : lba ∉ (first :: rest).map Prod.fst := fun hmem => by
        obtain ⟨entry, hentry, rfl⟩ := List.mem_map.mp hmem
        exact (hlater entry hentry).false
      rw [if_pos hlt, if_neg hnot, List.length_cons]
    · rw [if_neg heq.not_lt, if_pos heq, if_pos (by simp [heq])]
      rfl
    · have hsame : lba ∈ (first :: rest).map Prod.fst ↔ lba ∈ rest.map Prod.fst := by simp [hgt.ne']
      rw [if_neg hgt.not_gt, if_neg hgt.ne', List.length_cons, ih hrest, List.length_cons]
      simp only [hsame]
      omega

theorem fork_spec (indexFits : Bool) : (∃ e, fork o f branch indexFits = (f, .error e)) ∨
    (f.branchCount + 1 ≤ o.limits.branches ∧ f.entryCount + size branch ≤ o.limits.entries ∧
      fork o f branch indexFits = (⟨f.branchCount + 1, f.entryCount + size branch, f.made, f.branches⟩,
        .ok branch)) := by
  unfold fork claim
  split_ifs <;> simp_all [dropEach_eq]

theorem writeBlock_spec (lba : Nat) (data : Bytes) (indexFits blockFits : Bool) :
    (∃ e, writeBlock o f branch lba data indexFits blockFits = (f, .error e)) ∨
      ∃ added, added = (if (branch.get? lba).isSome then 0 else 1) ∧
        (f.entryCount ≤ o.limits.entries → f.entryCount + added ≤ o.limits.entries) ∧
        writeBlock o f branch lba data indexFits blockFits
          = (⟨f.branchCount, f.entryCount + added, f.made, f.branches⟩, .ok (branch.insert lba data)) := by
  unfold writeBlock claim
  split
  · exact .inl ⟨_, rfl⟩
  split_ifs <;> simp_all

theorem total_update (charge : Branch → Nat) {made id : Nat} (hid : id < made) (branches : Nat → Option Branch)
    (x : Option Branch) : total charge made (update branches id x) + (branches id).elim 0 charge
      = total charge made branches + x.elim 0 charge := by
  have hmem := mem_range.mpr hid
  have hrest : ∑ other ∈ (range made).erase id, (update branches id x other).elim 0 charge
      = ∑ other ∈ (range made).erase id, (branches other).elim 0 charge :=
    sum_congr rfl fun other hother => by rw [update_of_ne (ne_of_mem_erase hother)]
  rw [total, total, ← add_sum_erase _ _ hmem, ← add_sum_erase _ (fun id => (branches id).elim 0 charge) hmem,
    update_self, hrest]
  omega

/-- One branch of the family, an old one or the next, is replaced. -/
theorem Sound.replace (h : Sound o f past) {made id branchCount entryCount : Nat} {x : Option Branch}
    {past' : List Event} (hmade : f.made ≤ made) (hid : id < made)
    (hbranches : branchCount + (f.branches id).elim 0 (fun _ => 1) = f.branchCount + x.elim 0 fun _ => 1)
    (hentries : entryCount + (f.branches id).elim 0 size = f.entryCount + x.elim 0 size)
    (hbranchLimit : branchCount ≤ o.limits.branches) (hentryLimit : entryCount ≤ o.limits.entries)
    (hholds : ∀ branch, x = some branch → ∀ lba, (branch.get? lba).elim (o.base lba) .ok = held o id lba past')
    (hothers : ∀ other ≠ id, ∀ lba, held o other lba past' = held o other lba past) :
    Sound o ⟨branchCount, entryCount, made, update f.branches id x⟩ past' := by
  have htotal (charge : Branch → Nat) : total charge f.made f.branches = total charge made f.branches := by
    refine sum_subset (range_subset_range.mpr hmade) fun other _ hother => ?_
    rw [h.unmade other (not_lt.mp (mem_range.not.mp hother))]
    rfl
  refine ⟨fun other hother => ?_, ?_, ?_, hbranchLimit, hentryLimit, fun other branch hbranch lba => ?_⟩
  · have hne : other ≠ id := by
      rintro rfl
      exact absurd hid (not_lt.mpr hother)
    exact (update_of_ne hne ..).trans (h.unmade other (hmade.trans hother))
  · have hsum := total_update (fun _ => 1) hid f.branches x
    rw [h.branchCount, htotal] at hbranches
    exact Nat.add_right_cancel (hbranches.trans hsum.symm)
  · have hsum := total_update size hid f.branches x
    rw [h.entryCount, htotal] at hentries
    exact Nat.add_right_cancel (hentries.trans hsum.symm)
  · dsimp only at hbranch
    by_cases heq : other = id
    · rw [heq, update_self] at hbranch
      rw [heq]
      exact hholds branch hbranch lba
    · rw [update_of_ne heq] at hbranch
      rw [hothers other heq]
      exact h.holds other branch hbranch lba

theorem step_sound (h : Sound o f past) (id : Nat) (op : Op) :
    Sound o (step o f id op).1 (record past (step o f id op).2) ∧
      ∀ e, (step o f id op).2 = .error e → (step o f id op).1 = f := by
  unfold step
  cases hlive : f.branches id with
  | none => exact ⟨h, fun _ _ => rfl⟩
  | some branch =>
    have hid : id < f.made := by
      by_contra hnot
      rw [h.unmade id (not_lt.mp hnot)] at hlive
      cases hlive
    cases op with
    | read lba bufLen =>
      refine ⟨?_, fun _ _ => rfl⟩
      dsimp only
      cases readBlock o branch lba bufLen <;> exact h
    | fork indexFits =>
      dsimp only
      obtain ⟨e, he⟩ | ⟨hbranch, hentry, he⟩ := @fork_spec o f branch indexFits
      · rw [he]
        exact ⟨h, fun _ _ => rfl⟩
      · have hnone := h.unmade f.made le_rfl
        rw [he]
        refine ⟨?_, fun _ he => by cases he⟩
        apply h.replace (Nat.le_succ _) (Nat.lt_succ_self _) (by rw [hnone]; rfl) (by rw [hnone]; rfl) hbranch hentry
        · rintro child hchild lba
          rw [← Option.some.inj hchild, h.holds id _ hlive lba]
          simp [held, record]
        · intro other hne lba
          simp [held, record, hne]
    | write lba data indexFits blockFits =>
      dsimp only
      obtain ⟨e, he⟩ | ⟨added, hadded, hroom, he⟩ := @writeBlock_spec o f branch lba data indexFits blockFits
      · rw [he]
        exact ⟨h, fun _ _ => rfl⟩
      · rw [he]
        refine ⟨?_, fun _ he => by cases he⟩
        refine h.replace le_rfl hid (by rw [hlive]; rfl) ?_ h.branchLimit (hroom h.entryLimit) ?_ ?_
        · simp only [hlive, Option.elim_some, length_insert, hadded]
          omega
        · rintro written hwritten lba'
          rw [← Option.some.inj hwritten, SortedMap.get?_insert]
          by_cases heq : lba' = lba
          · simp [held, record, heq]
          · simp [held, record, heq, h.holds id _ hlive]
        · intro other hne lba'
          simp [held, record, hne]
    | drop =>
      have hbranch := total_update (fun _ => 1) hid f.branches none
      have hentry := total_update size hid f.branches none
      rw [hlive, ← h.branchCount] at hbranch
      rw [hlive, ← h.entryCount] at hentry
      have hbranchLimit := h.branchLimit
      have hentryLimit := h.entryLimit
      simp only [Option.elim_some, Option.elim_none] at hbranch hentry
      refine ⟨?_, fun _ he => by cases he⟩
      refine h.replace le_rfl hid ?_ ?_ ?_ ?_ (fun _ hnone => by cases hnone) fun _ _ _ => rfl
      · rw [hlive, Option.elim_some, Option.elim_none]
        omega
      · rw [hlive, Option.elim_some, Option.elim_none, dropEach_eq]
        omega
      · omega
      · rw [dropEach_eq]
        omega

theorem run_sound (h : Sound o f []) (calls : List (Nat × Op)) : Sound o (run o f calls).1 (run o f calls).2 :=
  List.foldlRecOn (motive := fun s : Family × List Event => Sound o s.1 s.2) calls _ h
    fun _ hs call _ => (step_sound hs call.1 call.2).1

theorem new_sound (h : new o = .ok f) : Sound o f [] := by
  obtain ⟨branchCount, hclaim, h⟩ := of_bind h
  rw [claim] at hclaim
  split_ifs at hclaim with hfits
  rw [pure_ok.mp h, ← Except.ok.inj hclaim]
  refine ⟨fun id hid => update_of_ne (Nat.ne_of_gt hid) _ (fun _ => none), rfl, rfl, hfits.2, Nat.zero_le _,
    fun id branch hbranch lba => ?_⟩
  dsimp only at hbranch
  by_cases heq : id = 0
  · rw [heq, update_self] at hbranch
    rw [← Option.some.inj hbranch]
    rfl
  · rw [update_of_ne heq] at hbranch
    cases hbranch

/-- After any calls on the handles of a new family the counters are the charges of the live branches and within
the limits, each branch reads what it is to hold, and a refused call changes nothing. -/
theorem overlay_branches_isolated (hnew : new o = .ok f) (calls : List (Nat × Op)) {g : Family} {past : List Event}
    (hrun : run o f calls = (g, past)) :
    Sound o g past ∧ (∀ id branch, g.branches id = some branch → ∀ lba < o.blocks,
        readBlock o branch lba o.blockSize = held o id lba past) ∧
      ∀ id op e, (step o g id op).2 = .error e → (step o g id op).1 = g := by
  have h := run_sound (new_sound hnew) calls
  rw [hrun] at h
  refine ⟨h, fun id branch hbranch lba hlba => ?_, fun id op => (step_sound h id op).2⟩
  rw [readBlock, checkAccess, refuseIf_bind (not_le.mpr hlba), check_bind (refuseIf_eq_ok.mpr (not_not.mpr rfl))]
  exact h.holds id branch hbranch lba

theorem overlay_branches_isolated_fork :
    ∃ o f g past, new o = .ok f ∧ Sound o g past ∧ g.branchCount = 2 ∧ g.entryCount = 2 :=
  ⟨⟨fun _ => .ok [0], 1, 9, ⟨2, 2⟩⟩, _, _, _, rfl, (overlay_branches_isolated (by rfl)
    [(0, .write 3 [7] true true), (0, .fork true), (1, .write 3 [8] true true)] rfl).1, by decide, by decide⟩

end Afsplus.Overlay
