import Afsplus.Core.FileData

/-!
# Staged layouts

Where an edit stores the extents of a file: the staged object has exactly the extents the edit asked for, whether they
go to the record, to a new tree or as a difference into the old one. An edit of a window of the tree leaves what lies
around the window in place.
-/

namespace Afsplus.FileData

open Fallible Extents
open List hiding all

section Trees

variable {tree : SortedMap Nat Extent} {extents old new front back : List Extent}

/-- The leaves of the tree are these extents, each under its first block. -/
def Stores (tree : SortedMap Nat Extent) (extents : List Extent) : Prop :=
  tree.entries = extents.map fun e => (e.logicalStart, e)

theorem Stores.values (h : Stores tree extents) : tree.values = extents := by
  rw [SortedMap.values, h, map_map]
  exact map_id _

variable {entry : Nat × Extent}

theorem Stores.mem_iff (h : Stores tree extents) :
    entry ∈ tree.entries ↔ ∃ e ∈ extents, (e.logicalStart, e) = entry := by
  rw [h, mem_map]

theorem stores_of_mem (hsort : Sorted extents)
    (h : ∀ entry, entry ∈ tree.entries ↔ ∃ e ∈ extents, (e.logicalStart, e) = entry) : Stores tree extents := by
  have hpairwise : (extents.map fun e => (e.logicalStart, e)).Pairwise fun a b => a.1 < b.1 :=
    pairwise_map.mpr hsort.start_lt
  have heq : tree = ⟨extents.map fun e => (e.logicalStart, e), hpairwise⟩ := by
    apply SortedMap.ext_mem
    intro entry
    rw [h, mem_map]
  rw [heq]
  rfl

/-- The part of the check an extent passes when it is stored. -/
def Storable (e : Extent) : Prop := 0 < e.blockCount ∧ e.stop < 2 ^ 64

theorem encodeExtents_eq_ok {encoded : List (Nat × Extent)} (h : encodeExtents extents = .ok encoded) :
    (∀ e ∈ extents, Storable e) ∧ encoded = extents.map fun e => (e.logicalStart, e) := by
  apply mapM_eq_map _ h
  intro e entry he
  obtain ⟨hcheck, he⟩ := check_ok.mp he
  obtain ⟨hpos, hcheck⟩ := of_refuse hcheck
  obtain ⟨hstop, -⟩ := of_refuse hcheck
  exact ⟨⟨Nat.pos_of_ne_zero hpos, not_le.mp hstop⟩, pure_ok.mp he⟩

theorem mem_mutate {deletes : List Nat} {upserts : List (Nat × Extent)} (hdist : upserts.Pairwise fun a b => a.1 ≠ b.1)
     : entry ∈ (mutate tree deletes upserts).entries ↔
      entry ∈ upserts ∨ (entry ∈ tree.entries ∧ entry.1 ∉ deletes) ∧ ∀ new ∈ upserts, entry.1 ≠ new.1 := by
  rw [mutate, SortedMap.mem_foldl_insert hdist, SortedMap.mem_foldl_erase]

theorem distinct_keys (h : Sorted extents) : (extents.map fun e => (e.logicalStart, e)).Pairwise fun a b => a.1 ≠ b.1 :=
  pairwise_map.mpr (h.start_lt.imp Nat.ne_of_lt)

theorem key_mem {n : Nat} : n ∈ (extents.map fun e => (e.logicalStart, e)).map Prod.fst ↔ ∃ e ∈ extents, e.logicalStart = n := by
  simp

theorem mutate_all (hstores : Stores tree old) (hnew : Sorted new) :
    Stores (mutate tree ((old.map fun e => (e.logicalStart, e)).map Prod.fst) (new.map fun e => (e.logicalStart, e))) new := by
  apply stores_of_mem hnew
  intro entry
  rw [mem_mutate (distinct_keys hnew), hstores.mem_iff, mem_map, key_mem]
  constructor
  · rintro (hentry | ⟨⟨⟨e, he, rfl⟩, hnot⟩, -⟩)
    · exact hentry
    · exact absurd ⟨e, he, rfl⟩ hnot
  · exact .inl

theorem mutate_same_keys (hstores : Stores tree old) (hnew : Sorted new)
    (hkeys : ∀ e ∈ old, ∃ e' ∈ new, e'.logicalStart = e.logicalStart) :
    Stores (mutate tree [] (new.map fun e => (e.logicalStart, e))) new := by
  apply stores_of_mem hnew
  intro entry
  rw [mem_mutate (distinct_keys hnew), hstores.mem_iff, mem_map]
  constructor
  · rintro (hentry | ⟨⟨⟨e, he, rfl⟩, -⟩, hnot⟩)
    · exact hentry
    · obtain ⟨e', he', hkey⟩ := hkeys e he
      exact absurd hkey.symm (hnot _ (mem_map_of_mem he'))
  · exact .inl

theorem mutate_window (hstores : Stores tree (front ++ (old ++ back))) (hold : Sorted (front ++ (old ++ back)))
    (hnew : Sorted (front ++ (new ++ back))) :
    Stores (mutate tree (((old.map fun e => (e.logicalStart, e)).map Prod.fst).filter
          (· ∉ (new.map fun e => (e.logicalStart, e)).map Prod.fst))
        ((new.map fun e => (e.logicalStart, e)).filter (· ∉ old.map fun e => (e.logicalStart, e))))
      (front ++ (new ++ back)) := by
  have hmiddle : Sorted new := by
    refine ⟨fun e he => hnew.proper e (by simp [he]), ?_⟩
    exact (pairwise_append.mp (pairwise_append.mp hnew.ordered).2.1).1
  apply stores_of_mem hnew
  intro entry
  rw [mem_mutate ((distinct_keys hmiddle).filter _), hstores.mem_iff]
  constructor
  · rintro (hentry | ⟨⟨⟨e, he, rfl⟩, hkept⟩, hnot⟩)
    · obtain ⟨e, he, rfl⟩ := mem_map.mp (mem_filter.mp hentry).1
      exact ⟨e, by simp [he], rfl⟩
    · rcases mem_append.mp he with hfront | hrest
      · exact ⟨e, by simp [hfront], rfl⟩
      · rcases mem_append.mp hrest with hwindow | hback
        · -- An old extent of the window that is neither deleted nor replaced is one of the new ones.
          have hkey : e.logicalStart ∈ (new.map fun e => (e.logicalStart, e)).map Prod.fst := by
            by_contra hgone
            exact hkept (mem_filter.mpr ⟨key_mem.mpr ⟨e, hwindow, rfl⟩, by simpa using hgone⟩)
          obtain ⟨e', he', hstart⟩ := key_mem.mp hkey
          have hsame : e' ∈ old := by
            by_contra hoth
            refine hnot (e'.logicalStart, e') (mem_filter.mpr ⟨mem_map_of_mem he', ?_⟩) hstart.symm
            simpa using hoth
          obtain rfl := hold.eq_of_start_eq he (mem_append_right _ (mem_append_left _ hsame)) hstart.symm
          exact ⟨e, by simp [he'], rfl⟩
        · exact ⟨e, by simp [hback], rfl⟩
  · rintro ⟨e, he, rfl⟩
    by_cases hwindow : e ∈ new
    · by_cases hsame : e ∈ old
      · refine .inr ⟨⟨⟨e, by simp [hsame], rfl⟩, ?_⟩, ?_⟩
        · intro hdeleted
          exact of_decide_eq_true (mem_filter.mp hdeleted).2 (key_mem.mpr ⟨e, hwindow, rfl⟩)
        · intro entry hentry hkey
          obtain ⟨hnewEntry, hnot⟩ := mem_filter.mp hentry
          obtain ⟨e', he', rfl⟩ := mem_map.mp hnewEntry
          obtain rfl := hmiddle.eq_of_start_eq hwindow he' hkey
          exact of_decide_eq_true hnot (mem_map_of_mem hsame)
      · refine .inl (mem_filter.mpr ⟨mem_map_of_mem hwindow, ?_⟩)
        simpa using hsame
    · have hout : e ∈ front ∨ e ∈ back := by
        rcases mem_append.mp he with hfront | hrest
        · exact .inl hfront
        · rcases mem_append.mp hrest with hnewer | hback
          · exact absurd hnewer hwindow
          · exact .inr hback
      have hmem : e ∈ front ++ (old ++ back) := by
        rcases hout with hfront | hback
        · simp [hfront]
        · simp [hback]
      -- The extents around the window have keys of their own.
      have hnotOld : ∀ e' ∈ old, e'.logicalStart ≠ e.logicalStart := by
        intro e' he' hkey
        obtain ⟨-, hinner, hcross⟩ := pairwise_append.mp hold.start_lt
        rcases hout with hfront | hback
        · exact absurd hkey (hcross e hfront e' (mem_append_left _ he')).ne'
        · exact absurd hkey ((pairwise_append.mp hinner).2.2 e' he' e hback).ne
      have hnotNew : ∀ e' ∈ new, e'.logicalStart ≠ e.logicalStart := by
        intro e' he' hkey
        obtain rfl := hnew.eq_of_start_eq (mem_append_right _ (mem_append_left _ he')) he hkey
        exact hwindow he'
      refine .inr ⟨⟨⟨e, hmem, rfl⟩, ?_⟩, ?_⟩
      · intro hdeleted
        obtain ⟨e', he', hkey⟩ := key_mem.mp (mem_filter.mp hdeleted).1
        exact hnotOld e' he' hkey
      · intro entry hentry hkey
        obtain ⟨e', he', rfl⟩ := mem_map.mp (mem_filter.mp hentry).1
        exact hnotNew e' he' hkey.symm

end Trees

/-! ### Staged objects -/

structure FileObject.Shaped (object : FileObject) : Prop where
  keyed : Stores object.tree object.tree.values
  sorted : Sorted object.layout
  blocks : object.record.dataBlocks = blockSum object.layout
  bounded : ∀ e ∈ object.layout, e.stop < 2 ^ 64

section Staging

variable {v : FileVolume} {a : Answers} {id : ObjectId} {object staged : FileObject}
  {old new front back : List Extent}
  {newSize generation : Nat} {contentChanged : Bool} {modified changed now : Timespec} {extents : List Extent} {tree : SortedMap Nat Extent}

theorem layout_of_stores (h : object.record.extentTree = true) (hstores : Stores object.tree extents) :
    object.layout = extents := by
  rw [FileObject.layout, if_pos h]
  exact hstores.values

theorem shaped_of_stores (h : object.record.extentTree = true)
    (hstores : Stores object.tree extents) (hsort : Sorted extents)
    (hblks : object.record.dataBlocks = blockSum extents) (hbounded : ∀ e ∈ extents, e.stop < 2 ^ 64) :
    object.Shaped ∧ object.layout = extents := by
  have hlay := layout_of_stores h hstores
  refine ⟨⟨?_, ?_, ?_, ?_⟩, hlay⟩
  · rw [hstores.values]
    exact hstores
  · rw [hlay]
    exact hsort
  · rw [hlay]
    exact hblks
  · rw [hlay]
    exact hbounded

theorem layout_of_direct {count : Nat} (h : object.record.extentTree = false) (hcnt : object.record.dataBlocks = count) :
    object.layout = if count = 0 then [] else [⟨0, object.record.dataRoot, count, false, false⟩] := by
  rw [FileObject.layout, if_neg (by simp [h]), hcnt]

theorem layout_of_tree (h : object.record.extentTree = true) : object.layout = object.tree.values := if_pos h

theorem bulkBuild_eq_ok (hnew : Sorted new) (h : bulkBuild new = .ok tree) :
    Stores tree new ∧ ∀ e ∈ new, e.stop < 2 ^ 64 := by
  replace h := after_check h
  obtain ⟨encoded, hencoded, h⟩ := of_bind h
  obtain ⟨hall, rfl⟩ := encodeExtents_eq_ok hencoded
  obtain rfl := pure_ok.mp h
  have hempty : Stores (.empty : SortedMap Nat Extent) [] := rfl
  exact ⟨mutate_same_keys hempty hnew (by simp), fun e he => (hall e he).2⟩

theorem directLayout_eq_some {size blockSize : Nat} {extent : Option Extent}
    (h : directLayout new size blockSize = some extent) :
    (extent = none → new = []) ∧
      (∀ e, extent = some e → new = [e] ∧ e.logicalStart = 0 ∧ e.unwritten = false ∧ e.shared = false) ∧
      ∀ e ∈ new, e.logicalStart = 0 ∧ e.blockCount ≤ 4096 := by
  cases new with
  | nil =>
    rw [directLayout] at h
    split_ifs at h
    obtain rfl := Option.some.inj h
    simp
  | cons e rest =>
    cases rest with
    | cons _ _ => cases h
    | nil =>
      rw [directLayout] at h
      by_cases hrefused : e.logicalStart ≠ 0 ∨ ¬e.Plain ∨ e.blockCount > maxExtentBlocks ∨ 2 ^ 64 ≤ e.blockCount * blockSize
      · rw [if_pos hrefused] at h
        cases h
      · rw [if_neg hrefused] at h
        split_ifs at h
        obtain rfl := Option.some.inj h
        simp only [not_or, not_not, not_lt] at hrefused
        obtain ⟨hstart, ⟨hunwr, hshared⟩, hcnt, -⟩ := hrefused
        refine ⟨by simp, ?_, ?_⟩
        · rintro _ ⟨⟩
          exact ⟨rfl, hstart, hunwr, hshared⟩
        · intro other hoth
          obtain rfl := mem_singleton.mp hoth
          exact ⟨hstart, hcnt⟩

theorem stageLayout_eq_ok {extentTree : Bool} {dataRoot : Nat} (hshaped : object.Shaped)
    (hold : old = object.layout) (hnew : Sorted new)
    (h : stageLayout v a id object old new newSize = .ok (extentTree, dataRoot, tree)) :
    Stores tree tree.values ∧ (extentTree = true → tree.values = new) ∧ (extentTree = false →
        new = [] ∨ ∃ count, 0 < count ∧ new = [⟨0, dataRoot, count, false, false⟩]) ∧ ∀ e ∈ new, e.stop < 2 ^ 64 := by
  rw [stageLayout] at h
  split at h
  · rename_i extent hdirect
    have heq := Except.ok.inj h
    simp only [Prod.mk.injEq] at heq
    obtain ⟨rfl, rfl, rfl⟩ := heq
    obtain ⟨hempty, hsingle, hmax⟩ := directLayout_eq_some hdirect
    refine ⟨rfl, by simp, fun _ => ?_, ?_⟩
    · cases extent with
      | none => exact .inl (hempty rfl)
      | some e =>
        obtain ⟨rfl, hstart, hunwr, hshared⟩ := hsingle e rfl
        refine .inr ⟨e.blockCount, hnew.proper e mem_cons_self, ?_⟩
        cases e
        simp_all
    · intro e he
      have hstop := e.stop_eq
      obtain ⟨hstart, hcnt⟩ := hmax e he
      omega
  · split_ifs at h with hsame htree
    · have heq := Except.ok.inj h
      simp only [Prod.mk.injEq] at heq
      obtain ⟨rfl, rfl, rfl⟩ := heq
      have hlay := layout_of_tree hsame.1
      refine ⟨hshaped.keyed, fun _ => ?_, by simp, ?_⟩
      · rw [← hsame.2, hold, hlay]
      · rw [← hsame.2, hold]
        exact hshaped.bounded
    · obtain ⟨oldEncoded, holdEncoded, h⟩ := of_bind h
      obtain ⟨newEncoded, hnewEncoded, h⟩ := of_bind h
      obtain ⟨-, rfl⟩ := encodeExtents_eq_ok holdEncoded
      obtain ⟨hall, rfl⟩ := encodeExtents_eq_ok hnewEncoded
      have heq := pure_ok.mp h
      simp only [Prod.mk.injEq] at heq
      obtain ⟨rfl, rfl, rfl⟩ := heq
      have hkept : Stores object.tree old := by
        rw [hold, layout_of_tree htree]
        exact hshaped.keyed
      have hstores := mutate_all hkept hnew
      refine ⟨?_, fun _ => hstores.values, by simp, fun e he => (hall e he).2⟩
      rw [hstores.values]
      exact hstores
    · obtain ⟨built, hbuilt, h⟩ := of_bind h
      obtain ⟨hstores, hall⟩ := bulkBuild_eq_ok hnew hbuilt
      have heq := pure_ok.mp h
      simp only [Prod.mk.injEq] at heq
      obtain ⟨rfl, rfl, rfl⟩ := heq
      refine ⟨?_, fun _ => hstores.values, by simp, hall⟩
      rw [hstores.values]
      exact hstores

structure Staged (v : FileVolume) (object : FileObject) (newSize : Nat) (contentChanged : Bool)
    (modified changed : Timespec) (staged : FileObject) : Prop where
  shaped : staged.Shaped
  objectType : staged.record.objectType = object.record.objectType
  dataInPlace : staged.record.dataInPlace = object.record.dataInPlace
  sizeBytes : staged.record.sizeBytes = newSize
  allocatedBytes : staged.record.allocatedBytes = staged.record.dataBlocks * v.blockSize
  modified_eq : staged.record.modified = if contentChanged then modified else object.record.modified
  changed_eq : staged.record.changed = changed

theorem stageFileLayout_eq_ok (hshaped : object.Shaped) (hold : old = object.layout) (hnew : Sorted new)
    (h : stageFileLayout v a id object old new newSize contentChanged modified changed generation = .ok staged) :
    Staged v object newSize contentChanged modified changed staged ∧ staged.layout = new ∧ staged.record.protection =
        if contentChanged then Names.archiveCleared object.record.protection else object.record.protection := by
  replace h := after_check h
  obtain ⟨⟨extentTree, dataRoot, tree⟩, hstage, h⟩ := of_bind h
  replace h := after_check h
  obtain ⟨hkeyed, htree, hdirect, hbounded⟩ := stageLayout_eq_ok hshaped hold hnew hstage
  have heq := pure_ok.mp h
  have hblks : staged.record.dataBlocks = blockSum new := by rw [heq]
  have hlay : staged.layout = new := by
    cases hkind : extentTree with
    | true =>
      rw [FileObject.layout, if_pos (by rw [heq]; exact hkind), heq]
      exact htree hkind
    | false =>
      rw [layout_of_direct (by rw [heq]; exact hkind) hblks]
      rcases hdirect hkind with rfl | ⟨count, hpos, rfl⟩
      · rfl
      · rw [show blockSum [⟨0, dataRoot, count, false, false⟩] = count by simp [blockSum], if_neg (by omega), heq]
  refine ⟨⟨⟨?_, ?_, ?_, ?_⟩, ?_, ?_, ?_, ?_, ?_, ?_⟩, hlay, ?_⟩
  · rw [heq]
    exact hkeyed
  · rw [hlay]
    exact hnew
  · rw [hlay, hblks]
  · rw [hlay]
    exact hbounded
  all_goals rw [heq]

theorem stageExtentDelta_eq_ok (hshaped : object.Shaped) (htree : object.record.extentTree = true)
    (hold : object.layout = front ++ (old ++ back)) (hnew : Sorted (front ++ (new ++ back)))
    (h : stageExtentDelta v a id object old new newSize contentChanged now generation = .ok staged) :
    Staged v object newSize contentChanged now now staged ∧ staged.layout = front ++ (new ++ back) ∧
      staged.record.protection = object.record.protection := by
  obtain ⟨oldEncoded, holdEncoded, h⟩ := of_bind h
  obtain ⟨newEncoded, hnewEncoded, h⟩ := of_bind h
  obtain ⟨-, rfl⟩ := encodeExtents_eq_ok holdEncoded
  obtain ⟨hall, rfl⟩ := encodeExtents_eq_ok hnewEncoded
  replace h := after_check h
  obtain ⟨hcnt, h⟩ := of_refuse h
  iterate 3 replace h := after_check h
  have heq := pure_ok.mp h
  have hvalues := (layout_of_tree htree).symm.trans hold
  have hstores : Stores staged.tree (front ++ (new ++ back)) := by
    rw [heq]
    exact mutate_window (hvalues ▸ hshaped.keyed) (hold ▸ hshaped.sorted) hnew
  have hlay : staged.layout = front ++ (new ++ back) := layout_of_stores (by rw [heq]; exact htree) hstores
  refine ⟨⟨⟨?_, ?_, ?_, ?_⟩, ?_, ?_, ?_, ?_, ?_, ?_⟩, hlay, ?_⟩
  · rw [hstores.values]
    exact hstores
  · rw [hlay]
    exact hnew
  · have hbefore := hshaped.blocks
    have hafter : staged.record.dataBlocks = object.record.dataBlocks - blockSum old + blockSum new := by rw [heq]
    rw [hold] at hbefore
    rw [hlay, hafter]
    simp only [blockSum_append] at hbefore ⊢
    omega
  · rw [hlay]
    intro e he
    have hsrc : e ∈ front ++ (old ++ back) ∨ e ∈ new := by
      simp only [mem_append] at he ⊢
      tauto
    rcases hsrc with he | he
    · exact hshaped.bounded e (hold ▸ he)
    · exact (hall e he).2
  all_goals rw [heq]

/-! ### Edits of a window -/

/-- The extents an edit of `low..high` works on, within all of the file. -/
structure Loaded (object : FileObject) (low high : Nat) (whole : Bool) (old front back : List Extent) : Prop where
  layout : object.layout = front ++ (old ++ back)
  before : ∀ e ∈ front, e.stop ≤ low
  behind : ∀ e ∈ back, high ≤ e.logicalStart
  all : whole = true → front = [] ∧ back = []

theorem loadFileLayout_eq_ok (h : loadFileLayout object = .ok old) : old = object.layout := by
  rw [loadFileLayout] at h
  split_ifs at h
  · replace h := after_check h
    replace h := after_check h
    exact pure_ok.mp h
  · exact pure_ok.mp h

variable {low high : Nat} {limits : Option FileEditLimits}

theorem loadForEdit_eq_ok (hshaped : object.Shaped) (h : loadForEdit object low high limits = .ok old) :
    ∃ front back, Loaded object low high (!localTree object limits) old front back := by
  cases limits with
  | none =>
    obtain rfl := loadFileLayout_eq_ok h
    exact ⟨[], [], by simp, by simp, by simp, by simp⟩
  | some limits =>
    rw [loadForEdit] at h
    split_ifs at h with htree
    · have hsort : Sorted object.tree.values := by
        rw [← layout_of_tree htree]
        exact hshaped.sorted
      obtain ⟨front, back, hsplit, hbefore, hbehind⟩ := readWindow_spec hsort h
      exact ⟨front, back, (layout_of_tree htree).trans hsplit, hbefore, hbehind, by simp [localTree, htree]⟩
    · obtain rfl := loadFileLayout_eq_ok h
      exact ⟨[], [], by simp, by simp, by simp, by simp⟩

variable {whole : Bool}

theorem Loaded.sorted (h : Loaded object low high whole old front back) (hshaped : object.Shaped) : Sorted old := by
  have hsort := hshaped.sorted
  rw [h.layout] at hsort
  exact ⟨fun e he => hsort.proper e (by simp [he]),
    (pairwise_append.mp (pairwise_append.mp hsort.ordered).2.1).1⟩

theorem Loaded.gives_iff {low high n : Nat} {c : Cell} (h : Loaded object low high whole old front back)
    (hlow : low ≤ n) (hhigh : n < high) : Gives object.layout n c ↔ Gives old n c := by
  rw [h.layout, gives_append, gives_append]
  constructor
  · rintro (⟨e, he, hn, -⟩ | hc | ⟨e, he, hn, -⟩)
    · have := h.before e he
      have := hn.2
      omega
    · exact hc
    · have := h.behind e he
      have := hn.1
      omega
  · exact fun hc => .inr (.inl hc)

theorem Loaded.cellAt_eq {low high n : Nat} (h : Loaded object low high whole old front back)
    (hshaped : object.Shaped) (hlow : low ≤ n) (hhigh : n < high) : cellAt object.layout n = cellAt old n :=
  cellAt_eq_of_gives hshaped.sorted (h.sorted hshaped) fun _ => h.gives_iff hlow hhigh

theorem Loaded.splice_sorted (h : Loaded object low high whole old front back)
    (hshaped : object.Shaped) (hnew : Sorted new)
    (hwithin : ∀ n c, Gives new n c → (∃ c', Gives old n c') ∨ low ≤ n ∧ n < high) :
    Sorted (front ++ (new ++ back)) := by
  have hsort := hshaped.sorted
  rw [h.layout] at hsort
  obtain ⟨hfront, hinner, hcross⟩ := pairwise_append.mp hsort.ordered
  obtain ⟨-, hback, hcross'⟩ := pairwise_append.mp hinner
  -- Where a new extent begins and ends is covered by the old window or lies in the range.
  have hleft : ∀ a ∈ front, ∀ e ∈ new, a.stop ≤ e.logicalStart := by
    intro a ha e he
    have hcov : e.Covers e.logicalStart := ⟨le_rfl, Nat.lt_add_of_pos_right (hnew.proper e he)⟩
    rcases hwithin e.logicalStart _ ⟨e, he, hcov, rfl⟩ with ⟨c, e', he', hn, -⟩ | hrng
    · exact (hcross a ha e' (mem_append_left _ he')).trans hn.1
    · exact (h.before a ha).trans hrng.1
  have hright : ∀ e ∈ new, ∀ b ∈ back, e.stop ≤ b.logicalStart := by
    intro e he b hb
    have hpos := hnew.proper e he
    have hstop := e.stop_eq
    have hcov : e.Covers (e.stop - 1) := ⟨by omega, by omega⟩
    rcases hwithin (e.stop - 1) _ ⟨e, he, hcov, rfl⟩ with ⟨c, e', he', hn, -⟩ | hrng
    · have hle := hcross' e' he' b hb
      have hlt := hn.2
      omega
    · have hle := h.behind b hb
      omega
  refine ⟨?_, pairwise_append.mpr ⟨hfront, pairwise_append.mpr ⟨hnew.ordered, hback, hright⟩, ?_⟩⟩
  · intro e he
    rcases mem_append.mp he with he | he
    · exact hsort.proper e (mem_append_left _ he)
    · rcases mem_append.mp he with he | he
      · exact hnew.proper e he
      · exact hsort.proper e (by simp [he])
  · intro a ha b hb
    rcases mem_append.mp hb with hb | hb
    · exact hleft a ha b hb
    · exact hcross a ha b (mem_append_right _ hb)

theorem Loaded.gives_splice (h : Loaded object low high whole old front back)
    {R : Nat → Prop} (hR : ∀ n, R n → low ≤ n ∧ n < high) {added : List Extent}
    (hgives : ∀ n c, Gives new n c ↔ (Gives old n c ∧ ¬R n) ∨ Gives added n c) (n : Nat) (c : Cell) :
    Gives (front ++ (new ++ back)) n c ↔ (Gives object.layout n c ∧ ¬R n) ∨ Gives added n c := by
  have hfront : ∀ c, Gives front n c → ¬R n := by
    rintro c ⟨e, he, hn, -⟩ hr
    have := h.before e he
    have := hn.2
    have := (hR n hr).1
    omega
  have hback : ∀ c, Gives back n c → ¬R n := by
    rintro c ⟨e, he, hn, -⟩ hr
    have := h.behind e he
    have := hn.1
    have := (hR n hr).2
    omega
  rw [h.layout]
  simp only [gives_append, hgives]
  have := hfront c
  have := hback c
  tauto

variable (R : Nat → Prop) (added : List Extent)
  (hshaped : object.Shaped) (hload : loadForEdit object low high limits = .ok old) (hnew : Sorted new)
  (hR : ∀ n, R n → low ≤ n ∧ n < high) (hadded : ∀ n c, Gives added n c → low ≤ n ∧ n < high)
  (hgives : ∀ n c, Gives new n c ↔ (Gives old n c ∧ ¬R n) ∨ Gives added n c)

include hshaped hload hnew hR hadded hgives

theorem spliced_eq_ok (h : (if localTree object limits then stageExtentDelta v a id object old new newSize contentChanged now generation
      else stageFileLayout v a id object old new newSize contentChanged now now generation) = .ok staged) :
    Staged v object newSize contentChanged now now staged ∧
      (∀ n c, Gives staged.layout n c ↔ (Gives object.layout n c ∧ ¬R n) ∨ Gives added n c) ∧
      staged.record.protection = if localTree object limits ∨ contentChanged = false then object.record.protection
        else Names.archiveCleared object.record.protection := by
  obtain ⟨front, back, hloaded⟩ := loadForEdit_eq_ok hshaped hload
  have hspliced := hloaded.gives_splice hR hgives
  split_ifs at h with hlocal
  · have htree : object.record.extentTree = true := (Bool.and_eq_true_iff.mp hlocal).2
    have hsort : Sorted (front ++ (new ++ back)) := hloaded.splice_sorted hshaped hnew fun n c hc => by
      rcases (hgives n c).mp hc with ⟨hc, -⟩ | hc
      · exact .inl ⟨c, hc⟩
      · exact .inr (hadded n c hc)
    obtain ⟨hstaged, hlay, hprot⟩ := stageExtentDelta_eq_ok hshaped htree hloaded.layout hsort h
    rw [if_pos (.inl hlocal)]
    exact ⟨hstaged, fun n c => hlay ▸ hspliced n c, hprot⟩
  · obtain ⟨rfl, rfl⟩ := hloaded.all (by simpa using hlocal)
    have hold : old = object.layout := by rw [hloaded.layout, append_nil, nil_append]
    obtain ⟨hstaged, hlay, hprot⟩ := stageFileLayout_eq_ok hshaped hold hnew h
    refine ⟨hstaged, fun n c => ?_, ?_⟩
    · rw [hlay, ← hspliced n c, append_nil, nil_append]
    · rw [hprot]
      cases contentChanged with
      | true => simp [hlocal]
      | false => simp

theorem stageEdit_eq_ok (h : stageEdit v a id object limits old new newSize now generation = .ok staged) :
    Staged v object newSize true now now staged ∧
      (∀ n c, Gives staged.layout n c ↔ (Gives object.layout n c ∧ ¬R n) ∨ Gives added n c) ∧
      staged.record.protection =
        if localTree object limits then object.record.protection else Names.archiveCleared object.record.protection := by
  simpa using spliced_eq_ok R added hshaped hload hnew hR hadded hgives h

end Staging

end Afsplus.FileData
