import Mathlib.Algebra.Order.BigOperators.Group.List
import Afsplus.Core.Volume

/-!
# Progress of orphan cleanup

One call of `cleanup_orphans` looks at the first page of the orphan directory only, and passes over the orphans
that are open. What it does to the directory and the files in it is said once; from that follows which calls
get anywhere, and which orphans a series of calls can finish.
-/

namespace Afsplus.Names

open Fallible SortedMap
open List hiding min

abbrev KeyedEntry : Type := Bytes × DirEntry

/-- The file of an orphan entry: a regular file with one link. -/
def IsOrphan (record : Object) : Prop := record.objectType = .file ∧ record.linkCount = 1

/-- What a volume promises about its orphan directory. -/
structure OrphansOk (cfg : Config) (c : Committed) (directory : Object) : Prop where
  enabled : cfg.orphanDirectory = true
  budget : 1 ≤ cfg.orphanCleanupExtentBudget
  stored : c.objects.get? objectOrphanDirectory = some directory
  valid : validateOrphanDirectory directory = .ok ()
  keyed : ∀ item ∈ directory.entries.entries, comparisonKey cfg item.2.name = .ok item.1
  named : ∀ item ∈ directory.entries.entries,
    item.2.childTypeHint = 1 ∧ item.2.name = orphanName item.2.childId
  files : ∀ item ∈ directory.entries.entries,
    ∃ record, c.objects.get? item.2.childId = some record ∧ IsOrphan record

namespace OrphansOk

variable {cfg : Config} {c : Committed} {directory : Object}

variable (h : OrphansOk cfg c directory)

include h

private theorem directory_isDirectory : directory.objectType = .directory := by
  have hval := refuseIf_eq_ok.mp h.valid
  simp only [not_or, not_not, ne_eq] at hval
  exact hval.1

private theorem child_ne {item : KeyedEntry} (hitem : item ∈ directory.entries.entries) :
    item.2.childId ≠ objectOrphanDirectory := by
  intro heq
  obtain ⟨record, hrec, hfile, -⟩ := h.files item hitem
  rw [heq, h.stored] at hrec
  obtain rfl := Option.some.inj hrec
  rw [h.directory_isDirectory] at hfile
  cases hfile

/-- Two entries for one object are the same entry: the name, and with it the key, follows from the object. -/
private theorem eq_of_child {item other : KeyedEntry}
    (hitem : item ∈ directory.entries.entries) (hoth : other ∈ directory.entries.entries)
    (heq : item.2.childId = other.2.childId) : item = other := by
  have hkey := h.keyed item hitem
  have hkey' := h.keyed other hoth
  rw [(h.named item hitem).2, heq, ← (h.named other hoth).2, hkey'] at hkey
  exact eq_of_key_eq hitem hoth (Except.ok.inj hkey).symm

end OrphansOk

section Candidates

variable {c : Committed} {work : OrphanWork} {done : List (ObjectId × Bytes)}

/-- The candidate is gone with its entry, or it is still an orphan and has not grown. -/
def Settled (c : Committed) (work : OrphanWork) (candidate : ObjectId × Bytes) : Prop :=
  (work.objects.get? candidate.1 = none ∧ candidate.2 ∈ work.removedKeys) ∨
    (candidate.2 ∉ work.removedKeys ∧ ∃ record record', c.objects.get? candidate.1 = some record ∧
      work.objects.get? candidate.1 = some record' ∧ IsOrphan record' ∧
      record'.extents.length ≤ record.extents.length)

/-- The candidate is gone with its entry, or it has fewer extents than before. -/
def Shortened (c : Committed) (work : OrphanWork) (candidate : ObjectId × Bytes) : Prop :=
  (work.objects.get? candidate.1 = none ∧ candidate.2 ∈ work.removedKeys) ∨
    ∃ record record', c.objects.get? candidate.1 = some record ∧
      work.objects.get? candidate.1 = some record' ∧ record'.extents.length < record.extents.length

/-- The work after the candidates in `done`. -/
structure Cleaned (c : Committed) (done : List (ObjectId × Bytes)) (work : OrphanWork) : Prop where
  start : done = [] → work.budget ≠ 0
  untouched : ∀ id, (∀ candidate ∈ done, candidate.1 ≠ id) → work.objects.get? id = c.objects.get? id
  removed : ∀ key ∈ work.removedKeys, ∃ candidate ∈ done, candidate.2 = key
  settled : ∀ candidate ∈ done, Settled c work candidate
  first : ∀ candidate ∈ done.head?, Shortened c work candidate

variable {candidate : ObjectId × Bytes} {work' : OrphanWork}

section

variable (hget : work'.objects.get? candidate.1 = work.objects.get? candidate.1)
  (hkeys : candidate.2 ∈ work'.removedKeys ↔ candidate.2 ∈ work.removedKeys)

include hget hkeys

theorem Settled.of_other (h : Settled c work candidate) : Settled c work' candidate := by
  rw [Settled, hget, hkeys]
  exact h

theorem Shortened.of_other (h : Shortened c work candidate) : Shortened c work' candidate := by
  rw [Shortened, hget, hkeys]
  exact h

end

theorem Cleaned.append (h : Cleaned c done work)
    (hnew : ∀ other ∈ done, other.1 ≠ candidate.1 ∧ other.2 ≠ candidate.2)
    (hget : ∀ id, id ≠ candidate.1 → work'.objects.get? id = work.objects.get? id)
    (hkeys : ∀ key, key ≠ candidate.2 → (key ∈ work'.removedKeys ↔ key ∈ work.removedKeys))
    (hsettled : Settled c work' candidate) (hshort : work.budget ≠ 0 → Shortened c work' candidate) :
    Cleaned c (done ++ [candidate]) work' := by
  refine ⟨by simp, ?_, ?_, ?_, ?_⟩
  · intro id hid
    have hne : id ≠ candidate.1 := (hid candidate (by simp)).symm
    rw [hget id hne]
    exact h.untouched id fun other hoth => hid other (by simp [hoth])
  · intro key hkey
    by_cases heq : key = candidate.2
    · exact ⟨candidate, by simp, heq.symm⟩
    · obtain ⟨other, hoth, rfl⟩ := h.removed key ((hkeys key heq).mp hkey)
      exact ⟨other, by simp [hoth], rfl⟩
  · intro other hoth
    rcases mem_append.mp hoth with hoth | hoth
    · obtain ⟨hid, hkey⟩ := hnew other hoth
      exact (h.settled other hoth).of_other (hget _ hid) (hkeys _ hkey)
    · rw [mem_singleton.mp hoth]
      exact hsettled
  · cases done with
    | nil =>
      rintro _ ⟨⟩
      exact hshort (h.start rfl)
    | cons first rest =>
      rintro _ ⟨⟩
      obtain ⟨hid, hkey⟩ := hnew first mem_cons_self
      exact (h.first first rfl).of_other (hget _ hid) (hkeys _ hkey)

private theorem length_orphanReleaseSet (record : Object) {limit : Nat} (hlimit : limit ≠ 0)
    (hkept : (orphanReleaseSet record limit).1 ≠ []) :
    (orphanReleaseSet record limit).1.length < record.extents.length := by
  rw [orphanReleaseSet, splitAt_eq] at hkept ⊢
  have hpos : record.extents.length - limit ≠ 0 := by
    intro hzero
    exact hkept (by simp [hzero])
  rw [length_take]
  omega

variable {fit : Bool}

private theorem cleaned_step (cfg : Config) (now : Timespec) (h : Cleaned c done work) {record : Object}
    (hnew : ∀ other ∈ done, other.1 ≠ candidate.1 ∧ other.2 ≠ candidate.2)
    (hrec : c.objects.get? candidate.1 = some record) (horphan : IsOrphan record) :
    ∃ work', cleanCandidate cfg (.sound fit) c now work candidate = .ok work' ∧ Cleaned c (done ++ [candidate]) work' := by
  have hbefore : work.objects.get? candidate.1 = some record := by
    rw [h.untouched candidate.1 fun other hoth => (hnew other hoth).1, hrec]
  have hkey : candidate.2 ∉ work.removedKeys := by
    intro hmem
    obtain ⟨other, hoth, heq⟩ := h.removed _ hmem
    exact (hnew other hoth).2 heq
  rw [cleanCandidate]
  by_cases hbudget : work.budget = 0
  · rw [if_pos hbudget]
    refine ⟨work, rfl, h.append hnew (fun _ _ => rfl) (fun _ _ => Iff.rfl) ?_ (absurd hbudget)⟩
    exact .inr ⟨hkey, record, record, hrec, hbefore, horphan, le_rfl⟩
  · rw [if_neg hbudget]
    have hread : readOrphanRecord (.sound fit) c candidate.1 = .ok record := by
      have hexisting : readExisting (.sound fit) c candidate.1 .notFound = .ok record := by
        have hobj : readObject (.sound fit) c candidate.1 = .ok (some record) := congrArg Except.ok hrec
        rw [readExisting, hobj]
        rfl
      rw [readOrphanRecord, hexisting, ok_bind, refuseIf_bind]
      · rfl
      · simp only [not_or, not_not, ne_eq]
        exact horphan
    rw [hread, ok_bind]
    show ∃ work', (if (orphanReleaseSet record work.budget).1 = [] then _ else _) = _ ∧ _
    split_ifs with hkept
    · refine ⟨_, rfl, h.append hnew ?_ ?_ ?_ fun _ => ?_⟩
      · intro id hid
        exact get?_erase_of_ne _ hid
      · intro key hne
        simp [hne]
      · exact .inl ⟨get?_erase_self _ _, by simp⟩
      · exact .inl ⟨get?_erase_self _ _, by simp⟩
    · have hshort := length_orphanReleaseSet record hbudget hkept
      refine ⟨_, rfl, h.append hnew ?_ (fun _ _ => Iff.rfl) ?_ fun _ => ?_⟩
      · intro id hid
        exact get?_insert_of_ne _ hid _
      · exact .inr ⟨hkey, record, _, hrec, get?_insert_self _ _ _, horphan, hshort.le⟩
      · exact .inr ⟨record, _, hrec, get?_insert_self _ _ _, hshort⟩

private theorem cleaned_foldlM (cfg : Config) (now : Timespec) {candidates : List (ObjectId × Bytes)} (h : Cleaned c done work)
    (hdist : (done ++ candidates).Pairwise fun a b => a.1 ≠ b.1 ∧ a.2 ≠ b.2)
    (hfiles : ∀ candidate ∈ candidates, ∃ record, c.objects.get? candidate.1 = some record ∧ IsOrphan record) :
    ∃ work', candidates.foldlM (cleanCandidate cfg (.sound fit) c now) work = .ok work' ∧
      Cleaned c (done ++ candidates) work' := by
  induction candidates generalizing done work with
  | nil => exact ⟨work, rfl, by rwa [append_nil]⟩
  | cons candidate rest ih =>
    obtain ⟨⟨record, hrec, horphan⟩, hrest⟩ := forall_mem_cons.mp hfiles
    have hnew : ∀ other ∈ done, other.1 ≠ candidate.1 ∧ other.2 ≠ candidate.2 := by
      intro other hoth
      exact (pairwise_append.mp hdist).2.2 other hoth candidate mem_cons_self
    obtain ⟨next, hnext, hcleaned⟩ := cleaned_step cfg now h hnew hrec horphan
    rw [append_cons] at hdist
    obtain ⟨work', hwork', hfinal⟩ := ih hcleaned hdist hrest
    refine ⟨work', ?_, ?_⟩
    · rw [foldlM_cons, hnext]
      exact hwork'
    · rwa [append_cons]

end Candidates

/-! ### One call -/

def pageSize (maxObjects : Nat) : Nat := min maxObjects maxDirectoryPageEntries

/-- The orphans of a page that are not passed over, as the candidates of a call. -/
def unskipped (skip : ObjectId → Bool) (page : List KeyedEntry) : List (ObjectId × Bytes) :=
  (page.filter fun item => !skip item.2.childId).map fun item => (item.2.childId, item.1)

/-- Writes are allowed, and there is neither a window nor a failed publication. -/
structure Ready (cfg : Config) (v : Volume) : Prop where
  writable : cfg.mode.allowsUserWrites = true
  intact : v.windowPoisoned = false
  closed : v.windowOpen = false

theorem Ready.ensureWindowClosed {cfg : Config} {v : Volume} (h : Ready cfg v) :
    ensureWindowClosed cfg v = .ok () := by
  rw [Names.ensureWindowClosed, if_neg (by simp [h.writable]), if_neg (by simp [h.intact]),
    if_neg (by simp [h.closed])]

/-- What a call leaves: entries gone from the first page only, and of those that were not passed over. -/
structure CallLeaves (cfg : Config) (maxObjects : Nat) (skip : ObjectId → Bool) (c : Committed) (directory : Object)
    (c' : Committed) (directory' : Object) (removedKeys : List Bytes) : Prop where
  ok : OrphansOk cfg c' directory'
  entries : directory'.entries.entries = directory.entries.entries.filter fun item => item.1 ∉ removedKeys
  removed : ∀ key ∈ removedKeys, ∃ item ∈ directory.entries.entries.take (pageSize maxObjects),
    item.1 = key ∧ skip item.2.childId = false
  gone : ∀ item ∈ directory.entries.entries, item.1 ∈ removedKeys → c'.objects.get? item.2.childId = none
  shorter : ∀ item ∈ directory'.entries.entries, ∀ record record', c.objects.get? item.2.childId = some record →
    c'.objects.get? item.2.childId = some record' → record'.extents.length ≤ record.extents.length
  advanced : ∀ item ∈ (directory.entries.entries.take (pageSize maxObjects)).find? fun item => !skip item.2.childId,
    item.1 ∈ removedKeys ∨ ∃ record record', c.objects.get? item.2.childId = some record ∧
      c'.objects.get? item.2.childId = some record' ∧ record'.extents.length < record.extents.length

section Call

variable {cfg : Config} {c : Committed} {directory : Object} {now : Timespec} {maxObjects : Nat}
  {skip : ObjectId → Bool} {fit : Bool}

private theorem orphanCandidates_eq {page : List KeyedEntry}
    (h : ∀ item ∈ page, item.2.childTypeHint = 1 ∧ item.2.name = orphanName item.2.childId) :
    orphanCandidates skip page = .ok (unskipped skip page) := by
  induction page with
  | nil => rfl
  | cons item rest ih =>
    obtain ⟨⟨hhint, hname⟩, hrest⟩ := forall_mem_cons.mp h
    rw [orphanCandidates, refuseIf_bind (by simp [hhint, hname]), ih hrest, ok_bind]
    simp only [unskipped, filter_cons]
    cases skip item.2.childId <;> rfl

private theorem entries_foldl_erase (keys : List Bytes) (m : SortedMap Bytes DirEntry) :
    (keys.foldl SortedMap.erase m).entries = m.entries.filter fun item => item.1 ∉ keys := by
  induction keys generalizing m with
  | nil => simp
  | cons key rest ih =>
    rw [foldl_cons, ih, SortedMap.erase, filter_filter]
    apply filter_congr
    intro item _
    by_cases hkey : item.1 = key <;> simp [hkey]

section Plan

variable (h : OrphansOk cfg c directory)

include h

theorem OrphansOk.distinct (n : Nat) :
    (unskipped skip (directory.entries.entries.take n)).Pairwise fun a b => a.1 ≠ b.1 ∧ a.2 ≠ b.2 := by
  rw [unskipped, pairwise_map]
  apply List.Pairwise.filter
  have hsort := directory.entries.sorted.sublist (take_sublist n _)
  apply hsort.imp_of_mem
  intro item other hitem hoth hlt
  have hne : item ≠ other := by
    rintro rfl
    exact List.lt_irrefl _ hlt
  refine ⟨fun heq => hne (h.eq_of_child (mem_of_mem_take hitem) (mem_of_mem_take hoth) heq), ?_⟩
  intro heq
  exact hne (eq_of_key_eq (mem_of_mem_take hitem) (mem_of_mem_take hoth) heq)

theorem OrphansOk.candidates (n : Nat) :
    orphanCandidates skip (directory.entries.entries.take n) =
      .ok (unskipped skip (directory.entries.entries.take n)) :=
  orphanCandidates_eq fun item hitem => h.named item (mem_of_mem_take hitem)

omit h in
private theorem mem_unskipped {page : List KeyedEntry} {candidate : ObjectId × Bytes} :
    candidate ∈ unskipped skip page ↔
      ∃ item ∈ page, skip item.2.childId = false ∧ (item.2.childId, item.1) = candidate := by
  simp [unskipped, and_assoc]

omit h in
private theorem head?_unskipped (page : List KeyedEntry) :
    (unskipped skip page).head? =
      (page.find? fun item => !skip item.2.childId).map fun item => (item.2.childId, item.1) := by
  rw [unskipped, head?_map, head?_filter]

private theorem cleanupOrphansPlan_idle (hmax : 1 ≤ maxObjects)
    (hnone : unskipped skip (directory.entries.entries.take (pageSize maxObjects)) = []) :
    cleanupOrphansPlan cfg (.sound fit) c maxObjects skip now =
      .ok (⟨0, 0, 0, decide (directory.entries.entries ≠ [])⟩, none) := by
  have hread : readObject (.sound fit) c objectOrphanDirectory = .ok (some directory) := congrArg Except.ok h.stored
  rw [cleanupOrphansPlan, if_neg (by simp [h.enabled]; omega), hread, ok_bind]
  show (validateOrphanDirectory directory >>= fun _ => orphanCandidates skip _ >>= _) = _
  rw [check_bind h.valid]
  show (orphanCandidates skip (directory.entries.entries.take (pageSize maxObjects)) >>= _) = _
  rw [h.candidates, hnone, ok_bind, if_pos rfl]
  rfl

private theorem cleanupOrphansPlan_busy (hmax : 1 ≤ maxObjects)
    (hsome : unskipped skip (directory.entries.entries.take (pageSize maxObjects)) ≠ []) :
    ∃ work, Cleaned c (unskipped skip (directory.entries.entries.take (pageSize maxObjects))) work ∧
      cleanupOrphansPlan cfg (.sound fit) c maxObjects skip now =
        .ok (⟨work.extentsRemoved, work.removedKeys.length, work.objectsAdvanced,
            decide (work.removedKeys.length < directory.entries.entries.length)⟩,
          some { c with objects := finishOrphans directory now work }) := by
  have hread : readObject (.sound fit) c objectOrphanDirectory = .ok (some directory) := congrArg Except.ok h.stored
  have hstart : Cleaned c [] ⟨c.objects, [], cfg.orphanCleanupExtentBudget * maxObjects, 0, 0⟩ := by
    refine ⟨fun _ => ?_, fun _ _ => rfl, by simp, by simp, by simp⟩
    have hbudget := h.budget
    exact Nat.mul_ne_zero (by omega) (by omega)
  have hfiles : ∀ candidate ∈ unskipped skip (directory.entries.entries.take (pageSize maxObjects)),
      ∃ record, c.objects.get? candidate.1 = some record ∧ IsOrphan record := by
    intro candidate hcand
    obtain ⟨item, hitem, -, rfl⟩ := mem_unskipped.mp hcand
    exact h.files item (mem_of_mem_take hitem)
  obtain ⟨work, hwork, hcleaned⟩ := cleaned_foldlM cfg now hstart (by exact h.distinct _) hfiles
  refine ⟨work, hcleaned, ?_⟩
  rw [cleanupOrphansPlan, if_neg (by simp [h.enabled]; omega), hread, ok_bind]
  show (validateOrphanDirectory directory >>= fun _ => orphanCandidates skip _ >>= _) = _
  rw [check_bind h.valid]
  show (orphanCandidates skip (directory.entries.entries.take (pageSize maxObjects)) >>= _) = _
  rw [h.candidates, ok_bind, if_neg hsome]
  rw [check_bind (show answered (Engine.sound fit).begins = .ok () from rfl), hwork]
  rfl

variable {work : OrphanWork}

private theorem Cleaned.file_of_kept {n : Nat}
    (hcleaned : Cleaned c (unskipped skip (directory.entries.entries.take n)) work) {item : KeyedEntry}
    (hitem : item ∈ directory.entries.entries) (hkept : item.1 ∉ work.removedKeys) :
    ∃ record record', c.objects.get? item.2.childId = some record ∧
      work.objects.get? item.2.childId = some record' ∧ IsOrphan record' ∧
      record'.extents.length ≤ record.extents.length := by
  by_cases hcand : (item.2.childId, item.1) ∈ unskipped skip (directory.entries.entries.take n)
  · rcases hcleaned.settled _ hcand with ⟨-, hrem⟩ | ⟨-, hfile⟩
    · exact absurd hrem hkept
    · exact hfile
  · obtain ⟨record, hrec, horphan⟩ := h.files item hitem
    have hsame := hcleaned.untouched item.2.childId (by
      intro candidate hmem heq
      obtain ⟨other, hoth, hskip, rfl⟩ := mem_unskipped.mp hmem
      obtain rfl := h.eq_of_child (mem_of_mem_take hoth) hitem heq
      exact hcand hmem)
    exact ⟨record, record, hrec, by rw [hsame, hrec], horphan, le_rfl⟩

end Plan

def directoryAfter (directory : Object) (now : Timespec) (work : OrphanWork) : Object :=
  if work.removedKeys = [] then directory
  else { directory with
    entries := work.removedKeys.foldl SortedMap.erase directory.entries
    modified := now
    changed := now }

private theorem entries_directoryAfter (directory : Object) (now : Timespec) (work : OrphanWork) :
    (directoryAfter directory now work).entries.entries =
      directory.entries.entries.filter fun item => item.1 ∉ work.removedKeys := by
  rw [directoryAfter]
  split_ifs with hnone
  · simp [hnone]
  · exact entries_foldl_erase _ _

private theorem validateOrphanDirectory_after (directory : Object) (now : Timespec) (work : OrphanWork) :
    validateOrphanDirectory (directoryAfter directory now work) = validateOrphanDirectory directory := by
  rw [directoryAfter]
  split_ifs <;> rfl

private theorem Cleaned.get_finish (now : Timespec) (h : OrphansOk cfg c directory) {n : Nat}
    (hcleaned : Cleaned c (unskipped skip (directory.entries.entries.take n)) work) :
    (finishOrphans directory now work).get? objectOrphanDirectory = some (directoryAfter directory now work) ∧
      ∀ id, id ≠ objectOrphanDirectory → (finishOrphans directory now work).get? id = work.objects.get? id := by
  rw [finishOrphans, directoryAfter]
  split_ifs with hnone
  · refine ⟨?_, fun _ _ => rfl⟩
    rw [hcleaned.untouched, h.stored]
    intro candidate hmem
    obtain ⟨item, hitem, -, rfl⟩ := mem_unskipped.mp hmem
    exact h.child_ne (mem_of_mem_take hitem)
  · exact ⟨get?_insert_self _ _ _, fun id hid => get?_insert_of_ne _ hid _⟩

private theorem Cleaned.callLeaves (now : Timespec) (h : OrphansOk cfg c directory)
    (hcleaned : Cleaned c (unskipped skip (directory.entries.entries.take (pageSize maxObjects))) work) :
    CallLeaves cfg maxObjects skip c directory { c with objects := finishOrphans directory now work }
      (directoryAfter directory now work) work.removedKeys := by
  obtain ⟨hdir, hoth⟩ := hcleaned.get_finish now h
  have hents := entries_directoryAfter directory now work
  have hkept : ∀ item ∈ (directoryAfter directory now work).entries.entries,
      item ∈ directory.entries.entries ∧ item.1 ∉ work.removedKeys := by
    intro item hitem
    rw [hents, mem_filter] at hitem
    exact ⟨hitem.1, of_decide_eq_true hitem.2⟩
  refine ⟨⟨h.enabled, h.budget, hdir, ?_, ?_, ?_, ?_⟩, hents, ?_, ?_, ?_, ?_⟩
  · rw [validateOrphanDirectory_after, h.valid]
  · exact fun item hitem => h.keyed item (hkept item hitem).1
  · exact fun item hitem => h.named item (hkept item hitem).1
  · intro item hitem
    obtain ⟨hmem, hstays⟩ := hkept item hitem
    obtain ⟨-, record', -, hget, horphan, -⟩ := hcleaned.file_of_kept h hmem hstays
    exact ⟨record', by rw [hoth _ (h.child_ne hmem), hget], horphan⟩
  · intro key hkey
    obtain ⟨candidate, hmem, rfl⟩ := hcleaned.removed key hkey
    obtain ⟨item, hitem, hskip, rfl⟩ := mem_unskipped.mp hmem
    exact ⟨item, hitem, rfl, hskip⟩
  · intro item hitem hrem
    obtain ⟨candidate, hmem, hkey⟩ := hcleaned.removed item.1 hrem
    obtain ⟨other, hother', -, rfl⟩ := mem_unskipped.mp hmem
    obtain rfl := eq_of_key_eq (mem_of_mem_take hother') hitem hkey
    show (finishOrphans directory now work).get? _ = none
    rw [hoth _ (h.child_ne hitem)]
    rcases hcleaned.settled _ hmem with ⟨hgone, -⟩ | ⟨hstays, -⟩
    · exact hgone
    · exact absurd hrem hstays
  · intro item hitem record record' hrec hrec'
    obtain ⟨hmem, hstays⟩ := hkept item hitem
    obtain ⟨before, after, hbefore, hafter, -, hle⟩ := hcleaned.file_of_kept h hmem hstays
    have hrec' : (finishOrphans directory now work).get? item.2.childId = some record' := hrec'
    rw [hoth _ (h.child_ne hmem), hafter] at hrec'
    rw [hbefore] at hrec
    cases hrec
    cases hrec'
    exact hle
  · intro item hfirst
    have hmem := mem_of_mem_take (mem_of_find?_eq_some hfirst)
    have hhead := hcleaned.first (item.2.childId, item.1) (by rw [head?_unskipped, Option.mem_def.mp hfirst]; rfl)
    rcases hhead with ⟨-, hrem⟩ | ⟨record, record', hrec, hrec', hlt⟩
    · exact .inl hrem
    · refine .inr ⟨record, record', hrec, ?_, hlt⟩
      show (finishOrphans directory now work).get? _ = _
      rw [hoth _ (h.child_ne hmem)]
      exact hrec'

/-! ### Calls on a volume -/

/-- The commit is not refused for the work its snapshots need. -/
abbrev WithinLimits (cfg : Config) (fit : Bool) : Prop := cfg.persistentSnapshots = true → fit = true

section Immediate

variable {α : Type} {v : Volume} (hready : Ready cfg v) (htime : validateTime now = .ok ())
  (plan : Committed → Except CoreError (α × Option Committed)) {result : α}

include hready htime

private theorem immediate_planned {io : Engine} {next : Option Committed} (hplan : plan v.committed = .ok (result, next)) :
    immediate cfg io now plan v = match next with
      | none => .ok result v
      | some next => (publish cfg io next >>= fun _ => pure result) v := by
  have hplan' : (do
      validateTime now
      ensureWindowClosed cfg v
      plan v.committed) = .ok (result, next) := by
    rw [check_bind htime, check_bind hready.ensureWindowClosed, hplan]
  rw [immediate, transact, get_bind_apply, hplan']
  cases next <;> rfl

private theorem immediate_committed {next : Committed} (hplan : plan v.committed = .ok (result, some next))
    (hfit : WithinLimits cfg fit) :
    immediate cfg (.sound fit) now plan v = .ok result { v with committed := next } := by
  rw [immediate_planned hready htime plan hplan]
  obtain ⟨committed, windowOpen, poisoned⟩ := v
  obtain rfl : poisoned = false := hready.intact
  exact bind_of_ok (require_bind hfit _ _ _)

private theorem immediate_refused {next : Committed} (hplan : plan v.committed = .ok (result, some next))
    (hfit : ¬WithinLimits cfg fit) : ∃ e, immediate cfg (.sound fit) now plan v = .error e v := by
  rw [immediate_planned hready htime plan hplan]
  exact ⟨_, bind_of_error (require_bind_not hfit _ _ _)⟩

end Immediate

section Planned

variable {v : Volume} (h : OrphansOk cfg v.committed directory) (hready : Ready cfg v)
  (htime : validateTime now = .ok ()) (hmax : 1 ≤ maxObjects)

include h hready htime hmax

private theorem cleanupOrphans_idle (hnone : unskipped skip (directory.entries.entries.take (pageSize maxObjects)) = []) :
    cleanupOrphans cfg (.sound fit) maxObjects skip now v = .ok ⟨0, 0, 0, decide (directory.entries.entries ≠ [])⟩ v :=
  immediate_planned hready htime (cleanupOrphansPlan cfg (.sound fit) · maxObjects skip now)
    (cleanupOrphansPlan_idle h hmax hnone)

variable (hsome : unskipped skip (directory.entries.entries.take (pageSize maxObjects)) ≠ [])

include hsome

private theorem cleanupOrphans_busy (hfit : WithinLimits cfg fit) :
    ∃ progress v' directory' removedKeys, cleanupOrphans cfg (.sound fit) maxObjects skip now v = .ok progress v' ∧
      Ready cfg v' ∧ CallLeaves cfg maxObjects skip v.committed directory v'.committed directory' removedKeys := by
  obtain ⟨work, hcleaned, hplan⟩ := cleanupOrphansPlan_busy h hmax hsome
  have hcall := immediate_committed hready htime (cleanupOrphansPlan cfg (.sound fit) · maxObjects skip now) hplan hfit
  refine ⟨_, _, _, _, hcall, ?_, hcleaned.callLeaves now h⟩
  exact ⟨hready.writable, hready.intact, hready.closed⟩

private theorem cleanupOrphans_refused (hfit : ¬WithinLimits cfg fit) :
    ∃ e, cleanupOrphans cfg (.sound fit) maxObjects skip now v = .error e v := by
  obtain ⟨work, -, hplan⟩ := cleanupOrphansPlan_busy h hmax hsome
  exact immediate_refused hready htime (cleanupOrphansPlan cfg (.sound fit) · maxObjects skip now) hplan hfit

end Planned

end Call

def orphanEntries (v : Volume) : List KeyedEntry :=
  ((v.committed.objects.get? objectOrphanDirectory).map fun directory => directory.entries.entries).getD []

/-- An orphan that is not passed over is removed, or has lost extents. -/
def Advances (skip : ObjectId → Bool) (v v' : Volume) : Prop :=
  ∃ item ∈ orphanEntries v, skip item.2.childId = false ∧
    ((item ∉ orphanEntries v' ∧ v'.committed.objects.get? item.2.childId = none) ∨
      ∃ record record', v.committed.objects.get? item.2.childId = some record ∧
        v'.committed.objects.get? item.2.childId = some record' ∧ record'.extents.length < record.extents.length)

/-- Only orphans that are passed over are left. -/
def Finished (skip : ObjectId → Bool) (v : Volume) : Prop :=
  ∀ item ∈ orphanEntries v, skip item.2.childId = true

/-- Calls one after another; `fits` says from which state a commit keeps to its work limits. -/
def cleanupRun (cfg : Config) (fits : Committed → Bool) (maxObjects : Nat) (skip : ObjectId → Bool) (now : Timespec) :
    Nat → VolumeM Unit
  | 0 => pure ()
  | n + 1 => do
      let v ← get
      discard <| cleanupOrphans cfg (.sound (fits v.committed)) maxObjects skip now
      cleanupRun cfg fits maxObjects skip now n

/-- Work left on the orphans that are not passed over: their entries and their extents. -/
def workLeft (skip : ObjectId → Bool) (c : Committed) (entries : List KeyedEntry) : Nat :=
  ((entries.filter fun item => !skip item.2.childId).map fun item =>
    ((c.objects.get? item.2.childId).map fun record => record.extents.length + 1).getD 0).sum

/-- Every orphan that is not passed over has fewer than a page of skipped ones before it. -/
def Clear (skip : ObjectId → Bool) (maxObjects : Nat) (entries : List KeyedEntry) : Prop :=
  ∀ front item back, entries = front ++ item :: back → skip item.2.childId = false →
    (front.filter fun other => skip other.2.childId).length < pageSize maxObjects

section Runs

variable {cfg : Config} {c c' : Committed} {directory directory' : Object} {now : Timespec} {maxObjects : Nat}
  {skip : ObjectId → Bool} {removedKeys : List Bytes} {fit : Bool} {fits : Committed → Bool}

theorem orphanEntries_eq {v : Volume} (h : OrphansOk cfg v.committed directory) :
    orphanEntries v = directory.entries.entries := by
  rw [orphanEntries, h.stored]
  rfl

theorem sum_filter_lt {α : Type} {items : List α} {keep : α → Bool} {f g : α → Nat}
    (hle : ∀ x ∈ items, keep x = true → g x ≤ f x) (hlt : ∃ x ∈ items, (if keep x then g x else 0) < f x) :
    ((items.filter keep).map g).sum < (items.map f).sum := by
  have hsum : ((items.filter keep).map g).sum = (items.map fun x => if keep x then g x else 0).sum := by
    clear hle hlt
    induction items with
    | nil => rfl
    | cons x rest ih => cases hkeep : keep x <;> simp [hkeep, ih]
  rw [hsum]
  apply sum_lt_sum
  · intro x hx
    split_ifs with hkeep
    · exact hle x hx hkeep
    · exact Nat.zero_le _
  · exact hlt

variable {item : KeyedEntry}

theorem CallLeaves.workLeft_lt (h : OrphansOk cfg c directory)
    (hleaves : CallLeaves cfg maxObjects skip c directory c' directory' removedKeys)
    (hfirst : (directory.entries.entries.take (pageSize maxObjects)).find? (fun item => !skip item.2.childId) = some item) :
    workLeft skip c' directory'.entries.entries < workLeft skip c directory.entries.entries := by
  have hitem := mem_of_mem_take (mem_of_find?_eq_some hfirst)
  have hskip : skip item.2.childId = false := by simpa using find?_some hfirst
  rw [workLeft, workLeft, hleaves.entries, filter_comm]
  apply sum_filter_lt
  · intro other hoth hkept
    have hmem := (mem_filter.mp hoth).1
    have hmem' : other ∈ directory'.entries.entries := by
      rw [hleaves.entries]
      exact mem_filter.mpr ⟨hmem, hkept⟩
    obtain ⟨record, hrec, -⟩ := h.files other hmem
    obtain ⟨record', hrec', -⟩ := hleaves.ok.files other hmem'
    rw [hrec, hrec']
    exact Nat.succ_le_succ (hleaves.shorter other hmem' record record' hrec hrec')
  · refine ⟨item, mem_filter.mpr ⟨hitem, by simp [hskip]⟩, ?_⟩
    obtain ⟨record, hrec, -⟩ := h.files item hitem
    rcases hleaves.advanced item hfirst with hrem | ⟨before, after, hbefore, hafter, hlt⟩
    · rw [if_neg (by simpa using hrem), hrec]
      exact Nat.succ_pos _
    · split_ifs
      · rw [hbefore, hafter]
        exact Nat.succ_lt_succ hlt
      · rw [hrec]
        exact Nat.succ_pos _

theorem find?_page {entries : List KeyedEntry} (hclear : Clear skip maxObjects entries)
    (hsome : ∃ item ∈ entries, skip item.2.childId = false) :
    ∃ item, (entries.take (pageSize maxObjects)).find? (fun item => !skip item.2.childId) = some item := by
  obtain ⟨item, hfirst⟩ : ∃ item, entries.find? (fun item => !skip item.2.childId) = some item := by
    rw [← Option.isSome_iff_exists, find?_isSome]
    obtain ⟨item, hitem, hskip⟩ := hsome
    exact ⟨item, hitem, by simp [hskip]⟩
  obtain ⟨hskip, front, back, rfl, hfront⟩ := find?_eq_some_iff_append.mp hfirst
  have hskipped : (front.filter fun other => skip other.2.childId) = front := by
    apply filter_eq_self.mpr
    intro other hoth
    simpa using hfront other hoth
  have hshort := hclear front item back rfl (by simpa using hskip)
  rw [hskipped] at hshort
  rw [← Option.isSome_iff_exists, find?_isSome]
  refine ⟨item, ?_, hskip⟩
  obtain ⟨m, hm⟩ : ∃ m, pageSize maxObjects - front.length = m + 1 :=
    ⟨pageSize maxObjects - front.length - 1, by omega⟩
  rw [take_append, hm, take_succ_cons]
  exact mem_append_right _ mem_cons_self

variable (hleaves : CallLeaves cfg maxObjects skip c directory c' directory' removedKeys)

include hleaves

theorem CallLeaves.kept (hitem : item ∈ directory.entries.entries)
    (h : skip item.2.childId = true ∨ item ∉ directory.entries.entries.take (pageSize maxObjects)) :
    item.1 ∉ removedKeys := by
  intro hrem
  obtain ⟨other, hoth, hkey, hskip⟩ := hleaves.removed item.1 hrem
  obtain rfl := eq_of_key_eq (mem_of_mem_take hoth) hitem hkey
  rcases h with h | h
  · rw [h] at hskip
    cases hskip
  · exact h hoth

theorem CallLeaves.clear (hclear : Clear skip maxObjects directory.entries.entries) :
    Clear skip maxObjects directory'.entries.entries := by
  intro front item back heq hskip
  rw [hleaves.entries] at heq
  obtain ⟨before, rest, hents, rfl, hrest⟩ := filter_eq_append_iff.mp heq
  obtain ⟨dropped, after, rfl, hdropped, -, -⟩ := filter_eq_cons_iff.mp hrest
  rw [← append_assoc] at hents
  refine lt_of_le_of_lt ?_ (hclear _ _ _ hents hskip)
  apply List.Sublist.length_le
  rw [filter_append]
  exact (filter_sublist.filter _).trans (sublist_append_left _ _)

theorem CallLeaves.not_clear (hblocked : ¬Clear skip maxObjects directory.entries.entries) :
    ¬Clear skip maxObjects directory'.entries.entries := by
  simp only [Clear, not_forall, not_lt] at hblocked
  obtain ⟨front, item, back, hents, hskip, hmany⟩ := hblocked
  have hlong : pageSize maxObjects ≤ front.length := le_trans hmany (length_filter_le _ _)
  have hnotPage : item ∉ directory.entries.entries.take (pageSize maxObjects) := by
    rw [hents, take_append_of_le_length hlong]
    intro hmem
    have hsort := directory.entries.sorted
    rw [hents] at hsort
    exact List.lt_irrefl _ ((pairwise_append.mp hsort).2.2 item (mem_of_mem_take hmem) item mem_cons_self)
  have hitem : item ∈ directory.entries.entries := by simp [hents]
  have hstays := hleaves.kept hitem (.inr hnotPage)
  intro hclear
  have hshort := hclear _ item _ (by
    rw [hleaves.entries, hents, filter_append, filter_cons_of_pos (by simpa using hstays)]) hskip
  rw [filter_comm] at hshort
  have hall : ((front.filter fun other => skip other.2.childId).filter fun item => decide (item.1 ∉ removedKeys)) =
      front.filter fun other => skip other.2.childId := by
    apply filter_eq_self.mpr
    intro other hoth
    obtain ⟨hmem, hskipped⟩ := mem_filter.mp hoth
    exact decide_eq_true (hleaves.kept (by simp [hents, hmem]) (.inl hskipped))
  rw [hall] at hshort
  omega

omit hleaves

theorem unskipped_ne_nil {page : List KeyedEntry}
    (hfirst : page.find? (fun item => !skip item.2.childId) = some item) : unskipped skip page ≠ [] := by
  intro hnil
  have hhead : (unskipped skip page).head? = _ := head?_unskipped page
  rw [hnil, hfirst] at hhead
  cases hhead

theorem cleanupRun_fails {v v' : Volume} {e : CoreError} (n : Nat)
    (hcall : cleanupOrphans cfg (.sound (fits v.committed)) maxObjects skip now v = .error e v') :
    cleanupRun cfg fits maxObjects skip now (n + 1) v = .error e v' := by
  rw [cleanupRun, get_bind_apply]
  refine bind_of_error ?_
  show EStateM.map _ _ _ = _
  rw [EStateM.map, hcall]

theorem cleanupRun_succ {v v' : Volume} {progress : BatchProgress} (n : Nat)
    (hcall : cleanupOrphans cfg (.sound (fits v.committed)) maxObjects skip now v = .ok progress v') :
    cleanupRun cfg fits maxObjects skip now (n + 1) v = cleanupRun cfg fits maxObjects skip now n v' := by
  have hdiscard : (discard <| cleanupOrphans cfg (.sound (fits v.committed)) maxObjects skip now : VolumeM Unit) v
      = .ok () v' := by
    show EStateM.map _ _ _ = _
    rw [EStateM.map, hcall]
  rw [cleanupRun, get_bind_apply, bind_of_ok hdiscard]

section Calls

variable {v : Volume} (h : OrphansOk cfg v.committed directory) (hready : Ready cfg v)
  (htime : validateTime now = .ok ()) (hmax : 1 ≤ maxObjects)

include h hready htime hmax

theorem cleanupRun_finishes (hfits : ∀ c, WithinLimits cfg (fits c))
    (hclear : Clear skip maxObjects directory.entries.entries) :
    ∃ n v', cleanupRun cfg fits maxObjects skip now n v = .ok () v' ∧ Finished skip v' := by
  generalize hwork : workLeft skip v.committed directory.entries.entries = work
  induction work using Nat.strong_induction_on generalizing v directory with
  | _ work ih =>
    by_cases hsome : ∃ item ∈ directory.entries.entries, skip item.2.childId = false
    · obtain ⟨item, hfirst⟩ := find?_page hclear hsome
      obtain ⟨progress, v₁, directory₁, removedKeys, hcall, hready₁, hleaves⟩ :=
        cleanupOrphans_busy h hready htime hmax (unskipped_ne_nil hfirst) (hfits v.committed)
      have hless := hleaves.workLeft_lt h hfirst
      rw [hwork] at hless
      obtain ⟨n, v', hrun, hfin⟩ := ih _ hless hleaves.ok hready₁ (hleaves.clear hclear) rfl
      exact ⟨n + 1, v', (cleanupRun_succ n hcall).trans hrun, hfin⟩
    · refine ⟨0, v, rfl, ?_⟩
      intro item hitem
      rw [orphanEntries_eq h] at hitem
      by_contra hskip
      exact hsome ⟨item, hitem, by simpa using hskip⟩

theorem cleanupRun_blocked {v' : Volume} (hblocked : ¬Clear skip maxObjects directory.entries.entries) {n : Nat}
    (hrun : cleanupRun cfg fits maxObjects skip now n v = .ok () v') : ¬Finished skip v' := by
  induction n generalizing v directory with
  | zero =>
    obtain rfl : v' = v := (pure_eq_ok.mp hrun).2
    intro hfin
    rw [Finished, orphanEntries_eq h] at hfin
    apply hblocked
    intro front item back hents hskip
    have hskipped := hfin item (by simp [hents])
    rw [hskip] at hskipped
    cases hskipped
  | succ n ih =>
    by_cases hnone : unskipped skip (directory.entries.entries.take (pageSize maxObjects)) = []
    · rw [cleanupRun_succ n (cleanupOrphans_idle h hready htime hmax hnone)] at hrun
      exact ih h hready hblocked hrun
    · have hfit : WithinLimits cfg (fits v.committed) := by
        by_contra hfit
        obtain ⟨e, he⟩ := cleanupOrphans_refused h hready htime hmax hnone hfit
        rw [cleanupRun_fails n he] at hrun
        cases hrun
      obtain ⟨progress, v₁, directory₁, removedKeys, hcall, hready₁, hleaves⟩ :=
        cleanupOrphans_busy h hready htime hmax hnone hfit
      rw [cleanupRun_succ n hcall] at hrun
      exact ih hleaves.ok hready₁ (hleaves.not_clear hblocked) hrun

theorem cleanupOrphans_advances :
    (∃ progress v', cleanupOrphans cfg (.sound fit) maxObjects skip now v = .ok progress v' ∧ Advances skip v v') ↔
      WithinLimits cfg fit ∧
        ∃ item ∈ directory.entries.entries.take (pageSize maxObjects), skip item.2.childId = false := by
  constructor
  · rintro ⟨progress, v', hcall, item, hitem, hskip, hadvance⟩
    by_cases hnone : unskipped skip (directory.entries.entries.take (pageSize maxObjects)) = []
    · rw [cleanupOrphans_idle h hready htime hmax hnone] at hcall
      cases hcall
      rcases hadvance with ⟨hgone, -⟩ | ⟨record, record', hrec, hrec', hlt⟩
      · exact absurd hitem hgone
      · rw [hrec] at hrec'
        cases hrec'
        exact absurd hlt (lt_irrefl _)
    · constructor
      · by_contra hfit
        obtain ⟨e, he⟩ := cleanupOrphans_refused h hready htime hmax hnone hfit
        cases he.symm.trans hcall
      · obtain ⟨candidate, hmem⟩ := exists_mem_of_ne_nil _ hnone
        obtain ⟨other, hoth, hskip, -⟩ := mem_unskipped.mp hmem
        exact ⟨other, hoth, hskip⟩
  · rintro ⟨hfit, other, hoth, hskip⟩
    obtain ⟨item, hfirst⟩ : ∃ item, (directory.entries.entries.take (pageSize maxObjects)).find?
        (fun item => !skip item.2.childId) = some item := by
      rw [← Option.isSome_iff_exists, find?_isSome]
      exact ⟨other, hoth, by simp [hskip]⟩
    obtain ⟨progress, v', directory', removedKeys, hcall, -, hleaves⟩ :=
      cleanupOrphans_busy h hready htime hmax (unskipped_ne_nil hfirst) hfit
    have hitem := mem_of_mem_take (mem_of_find?_eq_some hfirst)
    refine ⟨progress, v', hcall, item, by rwa [orphanEntries_eq h], by simpa using find?_some hfirst, ?_⟩
    rcases hleaves.advanced item hfirst with hrem | hshort
    · refine .inl ⟨?_, hleaves.gone item hitem hrem⟩
      rw [orphanEntries_eq hleaves.ok, hleaves.entries, mem_filter]
      rintro ⟨-, hkept⟩
      exact of_decide_eq_true hkept hrem
    · exact .inr hshort

end Calls

end Runs

/-! ### Two orphans -/

def orphanConfig : Config where
  mode := .readWrite
  orphanDirectory := true
  persistentSnapshots := true
  blockSize := 512
  orphanCleanupExtentBudget := 4
  nameKeyAlgorithm := .legacyIdentity
  tables := ⟨id, id⟩

def orphanDirectoryOfTwo : Object :=
  { newDirectoryRecord ⟨0, 0⟩ with
    entries := (SortedMap.empty.insert (orphanName 20) ⟨orphanName 20, orphanName 20, 1, 20⟩).insert (orphanName 21)
      ⟨orphanName 21, orphanName 21, 1, 21⟩ }

def orphanedFile : Object := newFile orphanConfig [1, 2, 3] ⟨0, 0⟩

def twoOrphans : Volume where
  committed := ⟨((SortedMap.empty.insert objectOrphanDirectory orphanDirectoryOfTwo).insert 20 orphanedFile).insert 21
    orphanedFile, 22⟩
  windowOpen := false
  windowPoisoned := false

theorem orphansOk_two : OrphansOk orphanConfig twoOrphans.committed orphanDirectoryOfTwo := by
  refine ⟨rfl, by decide, by decide, by decide, by decide, by decide, ?_⟩
  have hfile : IsOrphan orphanedFile := ⟨rfl, rfl⟩
  intro item hitem
  refine ⟨orphanedFile, ?_, hfile⟩
  revert item
  decide

theorem ready_two : Ready orphanConfig twoOrphans := ⟨rfl, rfl, rfl⟩

end Afsplus.Names
