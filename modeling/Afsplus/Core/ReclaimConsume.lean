import Afsplus.Core.ReclaimQueue

/-!
# Consuming from the reclaim queue

Whichever tier the head of the queue is in, consuming takes blocks from the front of `queuedRuns`,
stops at the first run the older retained checkpoint protects, and hands over the sealed blocks that
no longer hold anything.
-/

namespace Afsplus

open Fallible
open List hiding min set

namespace ReclaimTx

variable {geo : Geometry} {generation : Nat} {dev : Device}

def asPromoted (run : ReclaimEntry) : PromotedRun := ⟨run.start, run.blocks, run.retireGeneration⟩

/-- From `tx` to `tx'`, `n` blocks have left the queue and `consumed` are the sealed blocks that went
with them. -/
structure Consumes (dev : Device) (geo : Geometry) (generation : Nat) (tx tx' : ReclaimTx) (n : Nat)
    (consumed : List Nat) : Prop where
  within : n ≤ blockCount (queuedRuns dev tx.root)
  promoted : tx'.promoted
    = tx.promoted ++ (takeBlocks n (queuedRuns dev tx.root)).map asPromoted
  queue : queuedRuns dev tx'.root = dropBlocks n (queuedRuns dev tx.root)
  unprotected : ∀ run ∈ takeBlocks n (queuedRuns dev tx.root),
    run.retireGeneration ≤ tx.oldestProtectedGeneration
  reclaimed : tx'.reclaimedBlocks = tx.reclaimedBlocks + n
  consumedStructure : tx'.consumedStructure = tx.consumedStructure ++ consumed
  blocks : (sealedBlocks dev tx.root).Perm (consumed ++ sealedBlocks dev tx'.root)
  loadable : Loadable dev geo generation tx'.root
  /-- Nothing else changes but the root's areas and cursor. -/
  frame : tx' = { tx with
    root := { tx.root with
      headSegmentOffset := tx'.root.headSegmentOffset, headEntryOffset := tx'.root.headEntryOffset
      headBlockOffset := tx'.root.headBlockOffset, tableRefs := tx'.root.tableRefs
      segmentRefs := tx'.root.segmentRefs, inlineEntries := tx'.root.inlineEntries }
    promoted := tx'.promoted, consumedStructure := tx'.consumedStructure
    reclaimedBlocks := tx'.reclaimedBlocks }

namespace Consumes

theorem refl {tx : ReclaimTx} (h : Loadable dev geo generation tx.root) : Consumes dev geo generation tx tx 0 [] := by
  refine ⟨Nat.zero_le _, ?_, ?_, ?_, rfl, ?_, List.Perm.refl _, h, rfl⟩
  all_goals simp

theorem trans {tx tx₁ tx₂ : ReclaimTx} {n m : Nat} {first second : List Nat}
    (h : Consumes dev geo generation tx tx₁ n first) (hnext : Consumes dev geo generation tx₁ tx₂ m second)
    (hwhole : m = 0 ∨ takeBlocks n (queuedRuns dev tx.root) ++ dropBlocks n (queuedRuns dev tx.root)
      = queuedRuns dev tx.root) : Consumes dev geo generation tx tx₂ (n + m) (first ++ second) := by
  have htake : takeBlocks (n + m) (queuedRuns dev tx.root)
      = takeBlocks n (queuedRuns dev tx.root) ++ takeBlocks m (queuedRuns dev tx₁.root) := by
    rw [h.queue]
    rcases hwhole with rfl | hwhole
    · rw [takeBlocks_zero, append_nil, Nat.add_zero]
    · exact takeBlocks_add hwhole m
  have hwithin := hnext.within
  rw [h.queue, blockCount_dropBlocks] at hwithin
  have hgen : tx₁.oldestProtectedGeneration = tx.oldestProtectedGeneration := by rw [h.frame]
  refine ⟨?_, ?_, ?_, ?_, ?_, ?_, ?_, hnext.loadable, ?_⟩
  · have := h.within
    omega
  · rw [hnext.promoted, h.promoted, htake, map_append, append_assoc]
  · rw [hnext.queue, h.queue, dropBlocks_add]
  · rw [htake]
    refine forall_mem_append.mpr ⟨h.unprotected, ?_⟩
    rw [← hgen]
    exact hnext.unprotected
  · rw [hnext.reclaimed, h.reclaimed, Nat.add_assoc]
  · rw [hnext.consumedStructure, h.consumedStructure, append_assoc]
  · rw [append_assoc]
    exact h.blocks.trans (hnext.blocks.append_left _)
  · have hframe := hnext.frame
    rw [h.frame] at hframe
    exact hframe

end Consumes

/-- From `tx` to `tx'`, the cursor has moved over `n` blocks of the entries in front of it and `left`
are the entries from the cursor on. -/
structure TakesEntries (entries left : List ReclaimEntry) (tx tx' : ReclaimTx) (n : Nat) : Prop where
  within : n ≤ blockCount (trimHead tx.root.headBlockOffset entries)
  promoted : tx'.promoted = tx.promoted ++
    (takeBlocks n (trimHead tx.root.headBlockOffset entries)).map asPromoted
  rest : trimHead tx'.root.headBlockOffset left
    = dropBlocks n (trimHead tx.root.headBlockOffset entries)
  unprotected : ∀ run ∈ takeBlocks n (trimHead tx.root.headBlockOffset entries),
    run.retireGeneration ≤ tx.oldestProtectedGeneration
  inRun : ∀ entry ∈ left.head?, tx'.root.headBlockOffset < entry.blocks
  atEnd : left = [] → tx'.root.headBlockOffset = 0
  moved : ∃ used, entries = used ++ left ∧ tx' = { tx with
    root := { tx.root with
      headEntryOffset := tx.root.headEntryOffset + used.length
      headBlockOffset := tx'.root.headBlockOffset }
    promoted := tx'.promoted, reclaimedBlocks := tx.reclaimedBlocks + n }

variable {entries : List ReclaimEntry}

theorem TakesEntries.refl {tx : ReclaimTx} (hinRun : ∀ entry ∈ entries.head?, tx.root.headBlockOffset < entry.blocks)
    (hatEnd : entries = [] → tx.root.headBlockOffset = 0) : TakesEntries entries entries tx tx 0 := by
  refine ⟨Nat.zero_le _, ?_, ?_, ?_, hinRun, hatEnd, ⟨[], rfl, rfl⟩⟩
  all_goals simp

variable {tx tx' : ReclaimTx} {entry : ReclaimEntry} {budget : Nat} {ref : SealedRef} {rest : List ReclaimEntry}
  {more : List SealedRef}

theorem TakesEntries.whole {left : List ReclaimEntry} {n : Nat} (hinside : tx.root.headBlockOffset < entry.blocks)
    (hunprot : entry.retireGeneration ≤ tx.oldestProtectedGeneration)
    (h : TakesEntries rest left { tx.promote (entry.start + tx.root.headBlockOffset)
    (entry.blocks - tx.root.headBlockOffset) entry.retireGeneration with
        root.headEntryOffset := tx.root.headEntryOffset + 1
        root.headBlockOffset := 0 } tx' n) :
    TakesEntries (entry :: rest) left tx tx' (entry.blocks - tx.root.headBlockOffset + n) := by
  set offset := tx.root.headBlockOffset
  set head : ReclaimEntry := ⟨entry.start + offset, entry.blocks - offset, entry.retireGeneration⟩
  have hpos : 0 < head.blocks := Nat.sub_pos_of_lt hinside
  have hwithin := h.within
  have hprom := h.promoted
  have hrest := h.rest
  have hold := h.unprotected
  simp only [trimHead_zero] at hwithin hprom hrest hold
  refine ⟨?_, ?_, ?_, ?_, h.inRun, h.atEnd, ?_⟩
  · show head.blocks + n ≤ blockCount (head :: rest)
    simp only [blockCount, map_cons, sum_cons] at hwithin ⊢
    omega
  · show _ = _ ++ (takeBlocks (head.blocks + n) (head :: rest)).map asPromoted
    rw [hprom, takeBlocks_of_whole hpos]
    simp [promote, asPromoted, head]
  · show _ = dropBlocks (head.blocks + n) (head :: rest)
    rw [hrest, dropBlocks_of_whole hpos]
  · show ∀ run ∈ takeBlocks (head.blocks + n) (head :: rest), _
    rw [takeBlocks_of_whole hpos]
    exact forall_mem_cons.mpr ⟨hunprot, hold⟩
  · obtain ⟨used, hused, hframe⟩ := h.moved
    refine ⟨entry :: used, by rw [hused, cons_append], hframe.trans ?_⟩
    simp only [promote, length_cons, Nat.add_assoc, Nat.add_comm 1]

theorem TakesEntries.part {tx : ReclaimTx} {n : Nat}
    (hpos : 0 < n) (hinside : tx.root.headBlockOffset + n < entry.blocks)
    (hunprot : entry.retireGeneration ≤ tx.oldestProtectedGeneration) :
    TakesEntries (entry :: rest) (entry :: rest) tx
      { tx.promote (entry.start + tx.root.headBlockOffset) n entry.retireGeneration with
        root.headBlockOffset := tx.root.headBlockOffset + n } n := by
  set offset := tx.root.headBlockOffset
  set head : ReclaimEntry := ⟨entry.start + offset, entry.blocks - offset, entry.retireGeneration⟩
  have hn : n < head.blocks := Nat.lt_sub_of_add_lt (by omega)
  refine ⟨?_, ?_, ?_, ?_, ?_, (fun h => by cases h), ⟨[], rfl, rfl⟩⟩
  · show n ≤ blockCount (head :: rest)
    simp only [blockCount, map_cons, sum_cons]
    omega
  · show _ = _ ++ (takeBlocks n (head :: rest)).map asPromoted
    rw [takeBlocks_of_part hpos hn]
    rfl
  · show _ = dropBlocks n (head :: rest)
    rw [dropBlocks_of_part hpos hn]
    simp only [trimHead, head, Nat.add_assoc, Nat.sub_sub]
  · show ∀ run ∈ takeBlocks n (head :: rest), _
    rw [takeBlocks_of_part hpos hn]
    simpa using hunprot
  · rintro _ ⟨⟩
    exact hinside

theorem consumeEntries_spec {budget' : Nat} (hpos : ∀ entry ∈ entries, 0 < entry.blocks)
    (hinRun : ∀ entry ∈ entries.head?, tx.root.headBlockOffset < entry.blocks)
    (hatEnd : entries = [] → tx.root.headBlockOffset = 0)
    (h : consumeEntries entries budget tx = .ok (tx', budget')) :
    ∃ left n, TakesEntries entries left tx tx' n ∧ n + budget' = budget := by
  induction entries generalizing budget tx with
  | nil =>
    cases h
    exact ⟨[], 0, .refl hinRun hatEnd, Nat.zero_add _⟩
  | cons entry rest ih =>
    rw [consumeEntries] at h
    split at h
    case isTrue =>
      cases h
      exact ⟨_, 0, .refl hinRun hatEnd, Nat.zero_add _⟩
    case isFalse hbudget =>
      obtain ⟨hinside, h⟩ := of_refuse h
      split at h
      case isTrue =>
        cases h
        exact ⟨_, 0, .refl hinRun hatEnd, Nat.zero_add _⟩
      case isFalse hprotd =>
        rw [not_le] at hinside
        rw [not_lt] at hprotd
        dsimp only at h
        split at h
        case isTrue hdone =>
          have htake : min (entry.blocks - tx.root.headBlockOffset) budget
              = entry.blocks - tx.root.headBlockOffset := by omega
          rw [htake] at h
          obtain ⟨left, n, htaken, hleft⟩ := ih (fun e he => hpos e (mem_cons_of_mem _ he))
            (fun e he => hpos e (mem_cons_of_mem _ (mem_of_mem_head? he)))
            (fun _ => rfl) h
          exact ⟨left, _, htaken.whole hinside hprotd, by omega⟩
        case isFalse hpart =>
          have htake : min (entry.blocks - tx.root.headBlockOffset) budget = budget := by omega
          rw [htake] at h hpart
          cases h
          exact ⟨_, budget, .part (by omega) (by omega) hprotd, by omega⟩

/-- With no table in front of it, the cursor stands in front of an entry of the head segment. -/
def HeadOk (root : ReclaimRoot) : Prop :=
  root.tableRefs = [] → ∀ head ∈ root.segmentRefs.head?, root.headEntryOffset < head.count

theorem Loadable.count_segment {root : ReclaimRoot} (h : Loadable dev geo generation root)
    (href : ref ∈ root.segmentRefs) : 0 < ref.count ∧ ref.count ≤ segmentEntryCap := by
  obtain ⟨entries, hread⟩ := h.segments ref (mem_append_right _ href)
  obtain ⟨-, written, hdec, -, hcnt, -⟩ := readSegment_eq_ok.mp hread
  obtain ⟨hnonempty, hcap, -⟩ := ReclaimSegment.decode_eq_ok hdec
  rw [← hcnt]
  exact ⟨length_pos_iff.mpr hnonempty, hcap⟩

theorem Loadable.count_table {root : ReclaimRoot} {table : SealedRef} (h : Loadable dev geo generation root)
    (htable : table ∈ root.tableRefs) : 0 < table.count ∧ table.count ≤ tableRefCap := by
  obtain ⟨refs, hread⟩ := h.tables table htable
  obtain ⟨-, written, hdec, -, hcnt, -⟩ := readTable_eq_ok.mp hread
  obtain ⟨hnonempty, hcap, -⟩ := ReclaimTable.decode_eq_ok hdec
  rw [← hcnt]
  exact ⟨length_pos_iff.mpr hnonempty, hcap⟩

theorem headOk_of_start {root : ReclaimRoot} (h : Loadable dev geo generation root) (hzero : root.headEntryOffset = 0) :
    HeadOk root := by
  intro _ head hhead
  rw [hzero]
  exact (h.count_segment (mem_of_mem_head? hhead)).1

theorem consumeSegment_spec {budget' : Nat} {finished : Bool} (hload : Loadable dev geo generation tx.root)
    (hsegs : sealedSegments dev tx.root = ref :: more)
    (h : consumeSegment dev geo ref generation budget tx = .ok (tx', finished, budget')) :
    ∃ n, Consumes dev geo generation tx tx' n [] ∧ n + budget' = budget ∧
      (tx'.root = { tx.root with
        headEntryOffset := tx'.root.headEntryOffset, headBlockOffset := tx'.root.headBlockOffset }) ∧
      (finished = false → tx'.root.headEntryOffset < ref.count) ∧
      (finished = true → tx'.root.headEntryOffset = (segmentEntries dev ref).length ∧
        takeBlocks n (queuedRuns dev tx.root) ++ dropBlocks n (queuedRuns dev tx.root)
          = queuedRuns dev tx.root) := by
  obtain ⟨entries, hents, h⟩ := of_bind h
  obtain ⟨hinside, h⟩ := of_refuse h
  obtain ⟨⟨tx₁, budget₁⟩, hcons, h⟩ := of_bind h
  cases h
  obtain rfl := segmentEntries_of_read hents
  have hcur := hload.cursor
  rw [hsegs] at hcur
  have hatEnd : (segmentEntries dev ref).drop tx.root.headEntryOffset = [] →
      tx.root.headBlockOffset = 0 := fun hnil =>
    hcur.atEnd ref rfl (le_antisymm (hcur.entry ref rfl) (drop_eq_nil_iff.mp hnil))
  obtain ⟨left, n, htaken, hbudget⟩ := consumeEntries_spec
    (fun entry hmem => ((readSegment_runOk hents).2 entry (mem_of_mem_drop hmem)).pos)
    (hcur.inRun ref rfl) hatEnd hcons
  obtain ⟨used, hused, hframe⟩ := htaken.moved
  have hleft : (segmentEntries dev ref).drop tx'.root.headEntryOffset = left := by
    rw [hframe, ← drop_drop, hused, drop_left]
  have hlen := congrArg List.length hused
  have hmoved : tx'.root.headEntryOffset = tx.root.headEntryOffset + used.length := by rw [hframe]
  rw [length_drop, length_append] at hlen
  rw [not_le] at hinside
  have hroot : tx'.root = { tx.root with
      headEntryOffset := tx'.root.headEntryOffset, headBlockOffset := tx'.root.headBlockOffset } := by
    rw [hframe]
  have hsegments' : sealedSegments dev tx'.root = ref :: more := by
    rw [hroot]
    exact hsegs
  have hcur' : CursorOk dev (ref :: more) tx'.root.headEntryOffset tx'.root.headBlockOffset := by
    refine ⟨(fun h => by cases h), ?_, ?_, ?_⟩
    · rintro _ ⟨⟩
      omega
    · rintro _ ⟨⟩ hend
      apply htaken.atEnd
      rw [← hleft, hend, drop_length]
    · rintro _ ⟨⟩ run hrun
      rw [hleft] at hrun
      exact htaken.inRun run hrun
  -- the queue is the head segment's runs in front of the others
  have hqueue : queuedRuns dev tx.root = trimHead tx.root.headBlockOffset
      ((segmentEntries dev ref).drop tx.root.headEntryOffset) ++
        (more.flatMap (segmentEntries dev) ++ tx.root.inlineEntries) := by
    rw [queuedRuns, hsegs, runsBehind_cons hcur, append_assoc]
  have hqueue' : queuedRuns dev tx'.root = dropBlocks n (trimHead tx.root.headBlockOffset
      ((segmentEntries dev ref).drop tx.root.headEntryOffset)) ++
        (more.flatMap (segmentEntries dev) ++ tx.root.inlineEntries) := by
    rw [queuedRuns, hsegments', runsBehind_cons hcur', hleft, htaken.rest, append_assoc, hroot]
  have hsealed : sealedBlocks dev tx'.root = sealedBlocks dev tx.root := by
    rw [sealedBlocks, sealedBlocks, hsegments', hsegs, hroot]
  refine ⟨n, ⟨?_, ?_, ?_, ?_, ?_, ?_, ?_, ?_, ?_⟩, hbudget, hroot, ?_, ?_⟩
  · rw [hqueue, blockCount_append]
    exact htaken.within.trans (Nat.le_add_right _ _)
  · rw [hqueue, takeBlocks_append htaken.within]
    exact htaken.promoted
  · rw [hqueue', hqueue, dropBlocks_append htaken.within]
  · rw [hqueue, takeBlocks_append htaken.within]
    exact htaken.unprotected
  · rw [hframe]
  · rw [hframe, append_nil]
  · rw [hsealed, nil_append]
  · refine ⟨?_, ?_, ?_, ?_, by rw [hsegments']; exact hcur', ?_, ?_⟩
    · rw [hroot]
      exact hload.tables
    · rw [hroot]
      exact hload.segmentOffset
    · rw [hroot]
      exact hload.noTable
    · rw [hsegments', ← hsegs]
      exact hload.segments
    · rw [hroot]
      exact hload.refs
    · rw [hroot]
      exact hload.entries
  · rw [hframe]
  · intro hopen
    obtain ⟨-, -, -, -, hcnt, -⟩ := readSegment_eq_ok.mp hents
    have hne := beq_eq_false_iff_ne.mp hopen
    omega
  · intro hdone
    have hend := beq_iff_eq.mp hdone
    have hnil : left = [] := by
      rw [← hleft, hend, drop_length]
    have hall : dropBlocks n (trimHead tx.root.headBlockOffset
        ((segmentEntries dev ref).drop tx.root.headEntryOffset)) = [] := by
      rw [← htaken.rest, hnil]
      rfl
    refine ⟨hend, ?_⟩
    rw [hqueue, takeBlocks_append htaken.within, dropBlocks_append htaken.within, hall,
      takeBlocks_of_dropBlocks_nil hall, nil_append]

/-! ### The whole queue -/

variable {root : ReclaimRoot}

theorem Consumes.pop {tx : ReclaimTx} {consumed : List Nat} (hload : Loadable dev geo generation tx.root)
    (hsegs : sealedSegments dev tx.root = ref :: more)
    (hfin : tx.root.headEntryOffset = (segmentEntries dev ref).length) (hroot : root = { tx.root with
      headSegmentOffset := root.headSegmentOffset, headEntryOffset := 0, headBlockOffset := 0
      tableRefs := root.tableRefs, segmentRefs := root.segmentRefs })
    (hmore : sealedSegments dev root = more)
    (htabs : ∀ table ∈ root.tableRefs, table ∈ tx.root.tableRefs)
    (hrefs : ∀ segment ∈ root.segmentRefs, segment ∈ tx.root.segmentRefs)
    (hoff : ∀ table ∈ root.tableRefs.head?,
      root.headSegmentOffset < (tableSegments dev table).length)
    (hnoTable : root.tableRefs = [] → root.headSegmentOffset = 0)
    (hblks : (sealedBlocks dev tx.root).Perm (consumed ++ sealedBlocks dev root)) :
    Consumes dev geo generation tx
      { tx with root, consumedStructure := tx.consumedStructure ++ consumed } 0 consumed := by
  have hcur := hload.cursor
  rw [hsegs] at hcur
  have hread : ∀ segment ∈ more, ∃ entries, readSegment dev geo segment generation = .ok entries :=
    fun segment hmem => hload.segments segment (by rw [hsegs]; exact mem_cons_of_mem _ hmem)
  refine ⟨Nat.zero_le _, by simp, ?_, by simp, rfl, rfl, hblks, ?_, ?_⟩
  · have hinline : root.inlineEntries = tx.root.inlineEntries := by rw [hroot]
    have hempty : trimHead tx.root.headBlockOffset ((segmentEntries dev ref).drop tx.root.headEntryOffset) = [] := by
      rw [hfin, drop_length]
      rfl
    rw [dropBlocks_zero, queuedRuns, queuedRuns, hsegs, runsBehind_cons hcur, hempty,
      nil_append, hmore, hinline, hroot]
    simp [runsBehind]
  · refine ⟨fun table hmem => hload.tables table (htabs table hmem), hoff, hnoTable, ?_, ?_, ?_,
      ?_⟩
    · rw [hmore]
      exact hread
    · rw [hmore, hroot]
      exact cursorOk_start hread
    · intro entry hmem
      apply hload.refs
      rcases mem_append.mp hmem with htable | hseg
      · exact mem_append_left _ (htabs entry htable)
      · exact mem_append_right _ (hrefs entry hseg)
    · rw [hroot]
      exact hload.entries
  · conv_lhs => rw [hroot]
    simp only
    rw [hroot]

theorem sealedSegments_cons {table segment : SealedRef}
    {tables refs : List SealedRef} (htabs : root.tableRefs = table :: tables)
    (hrefs : tableSegments dev table = refs) (hseg : refs[root.headSegmentOffset]? = some segment) :
    root.headSegmentOffset < refs.length ∧
      sealedSegments dev root = segment :: (refs.drop (root.headSegmentOffset + 1) ++
        (tables.flatMap (tableSegments dev) ++ root.segmentRefs)) := by
  obtain ⟨hinside, helem⟩ := List.getElem?_eq_some_iff.mp hseg
  refine ⟨hinside, ?_⟩
  rw [sealedSegments, htabs, flatMap_cons, hrefs, drop_append_of_le_length hinside.le,
    drop_eq_getElem_cons hinside, helem, cons_append, cons_append, append_assoc]

section pops

variable {tx : ReclaimTx} (hload : Loadable dev geo generation tx.root)

include hload

section Table

variable {table segment : SealedRef} {tables refs : List SealedRef}
  (htabs : tx.root.tableRefs = table :: tables) (hrefs : tableSegments dev table = refs)
  (hseg : refs[tx.root.headSegmentOffset]? = some segment)
  (hfin : tx.root.headEntryOffset = (segmentEntries dev segment).length)

include htabs hrefs hseg hfin

theorem popFromTable (hopen : tx.root.headSegmentOffset + 1 ≠ refs.length) :
    Consumes dev geo generation tx { tx with
      root := { tx.root with
        headSegmentOffset := tx.root.headSegmentOffset + 1, headEntryOffset := 0, headBlockOffset := 0 }
      consumedStructure := tx.consumedStructure ++ [segment.lba] } 0 [segment.lba] := by
  obtain ⟨hinside, hsegs⟩ := sealedSegments_cons htabs hrefs hseg
  have hmore : sealedSegments dev { tx.root with
      headSegmentOffset := tx.root.headSegmentOffset + 1, headEntryOffset := 0, headBlockOffset := 0 }
      = refs.drop (tx.root.headSegmentOffset + 1) ++
        (tables.flatMap (tableSegments dev) ++ tx.root.segmentRefs) := by
    simp only [sealedSegments, htabs, flatMap_cons, hrefs]
    rw [drop_append_of_le_length hinside, append_assoc]
  refine .pop hload hsegs hfin rfl hmore (fun _ h => h) (fun _ h => h) ?_ ?_ ?_
  · rintro first hfirst
    simp only [htabs, head?_cons, Option.mem_def, Option.some.injEq] at hfirst
    rw [← hfirst, hrefs]
    show tx.root.headSegmentOffset + 1 < refs.length
    omega
  · intro hnil
    simp [htabs] at hnil
  · rw [sealedBlocks, sealedBlocks, hmore, hsegs]
    simp only [map_append, map_cons]
    exact perm_middle

theorem popTable (hlast : tx.root.headSegmentOffset + 1 = refs.length) :
    Consumes dev geo generation tx { tx with
      root := { tx.root with
        headSegmentOffset := 0, headEntryOffset := 0, headBlockOffset := 0, tableRefs := tables }
      consumedStructure := tx.consumedStructure ++ [segment.lba, table.lba] } 0
      [segment.lba, table.lba] := by
  obtain ⟨hinside, hsegs⟩ := sealedSegments_cons htabs hrefs hseg
  rw [hlast, drop_length, nil_append] at hsegs
  have hmore : sealedSegments dev { tx.root with
      headSegmentOffset := 0, headEntryOffset := 0, headBlockOffset := 0, tableRefs := tables }
      = tables.flatMap (tableSegments dev) ++ tx.root.segmentRefs := by
    simp [sealedSegments]
  refine .pop hload hsegs hfin rfl hmore ?_ (fun _ h => h) ?_ (fun _ => rfl) ?_
  · intro other hmem
    rw [htabs]
    exact mem_cons_of_mem _ hmem
  · intro first hfirst
    obtain ⟨firstRefs, hread⟩ := hload.tables first (by
      rw [htabs]
      exact mem_cons_of_mem _ (mem_of_mem_head? hfirst))
    rw [tableSegments_of_read hread]
    exact readTable_nonempty hread
  · rw [sealedBlocks, sealedBlocks, hmore, hsegs, htabs]
    simp only [map_append, map_cons, cons_append]
    refine (List.Perm.cons _ perm_middle).trans ?_
    exact List.Perm.swap _ _ _

end Table

theorem popSegment {segment : SealedRef} {segments : List SealedRef}
    (htabs : tx.root.tableRefs = []) (hsegs : tx.root.segmentRefs = segment :: segments)
    (hfin : tx.root.headEntryOffset = (segmentEntries dev segment).length) :
    Consumes dev geo generation tx { tx with
      root := { tx.root with segmentRefs := segments, headEntryOffset := 0, headBlockOffset := 0 }
      consumedStructure := tx.consumedStructure ++ [segment.lba] } 0 [segment.lba] := by
  have hsegments : sealedSegments dev tx.root = segment :: segments := by
    simp [sealedSegments, htabs, hsegs]
  have hmore : sealedSegments dev { tx.root with
      segmentRefs := segments, headEntryOffset := 0, headBlockOffset := 0 } = segments := by
    simp [sealedSegments, htabs]
  refine .pop hload hsegments hfin rfl hmore (fun _ h => h) ?_ ?_ ?_ ?_
  · intro other hmem
    rw [hsegs]
    exact mem_cons_of_mem _ hmem
  · intro first hfirst
    simp [htabs] at hfirst
  · exact fun _ => hload.noTable htabs
  · rw [sealedBlocks, sealedBlocks, hmore, hsegments]
    simp [htabs]

end pops

theorem queuedRuns_inline (htabs : root.tableRefs = [])
    (hsegs : root.segmentRefs = []) : queuedRuns dev root = root.inlineEntries := by
  simp [queuedRuns, sealedSegments, runsBehind, trimHead, htabs, hsegs]

theorem takeInline {tx : ReclaimTx} {take : Nat}
    (hload : Loadable dev geo generation tx.root) (htabs : tx.root.tableRefs = [])
    (hsegs : tx.root.segmentRefs = []) (hinline : tx.root.inlineEntries = entry :: entries)
    (hpos : 0 < take) (hfits : take ≤ entry.blocks)
    (hunprot : entry.retireGeneration ≤ tx.oldestProtectedGeneration) :
    Consumes dev geo generation tx { tx.promote entry.start take entry.retireGeneration with
      root := { tx.root with
        inlineEntries := if entry.blocks - take = 0 then entries
          else ⟨entry.start + take, entry.blocks - take, entry.retireGeneration⟩ :: entries } } take []
    := by
  have hentry : RunOk geo generation entry := hload.entries entry (by rw [hinline]; simp)
  have htake : takeBlocks take (entry :: entries) = [{ entry with blocks := take }] := by
    rcases Nat.lt_or_eq_of_le hfits with hpart | rfl
    · exact takeBlocks_of_part hpos hpart entries
    · have h := takeBlocks_of_whole hentry.pos 0 entries
      rwa [Nat.add_zero, takeBlocks_zero] at h
  have hrest : dropBlocks take (entry :: entries) = if entry.blocks - take = 0 then entries
      else ⟨entry.start + take, entry.blocks - take, entry.retireGeneration⟩ :: entries := by
    rcases Nat.lt_or_eq_of_le hfits with hpart | rfl
    · rw [dropBlocks_of_part hpos hpart, if_neg (by omega)]
    · have h := dropBlocks_of_whole hentry.pos 0 entries
      rw [Nat.add_zero, dropBlocks_zero] at h
      rw [h, if_pos (Nat.sub_self _)]
  have hqueue : queuedRuns dev tx.root = entry :: entries := by
    rw [queuedRuns_inline htabs hsegs, hinline]
  refine ⟨?_, ?_, ?_, ?_, rfl, ?_, ?_, ?_, rfl⟩
  · rw [hqueue]
    simp only [blockCount, map_cons, sum_cons]
    omega
  · rw [hqueue, htake]
    rfl
  · rw [hqueue, hrest]
    exact queuedRuns_inline htabs hsegs
  · rw [hqueue, htake]
    simpa using hunprot
  · exact (append_nil _).symm
  · exact List.Perm.refl _
  · refine ⟨hload.tables, hload.segmentOffset, hload.noTable, hload.segments, hload.cursor, hload.refs, ?_⟩
    have hruns := runOk_dropBlocks hload.entries take
    rw [hinline, hrest] at hruns
    exact hruns

theorem consume_spec {rounds : Nat} (hload : Loadable dev geo generation tx.root)
    (h : consume dev geo generation rounds budget tx = .ok tx') :
    ∃ n consumed, Consumes dev geo generation tx tx' n consumed ∧ n ≤ budget ∧ (HeadOk tx.root → HeadOk tx'.root) := by
  induction rounds generalizing budget tx with
  | zero =>
    cases h
    exact ⟨0, [], .refl hload, Nat.zero_le _, id⟩
  | succ rounds ih =>
    rw [consume] at h
    split at h
    case isTrue =>
      cases h
      exact ⟨0, [], .refl hload, Nat.zero_le _, id⟩
    case isFalse hbudget =>
      split at h
      case h_1 table tables htabs =>
        obtain ⟨refs, hread, h⟩ := of_bind h
        have hrefs := tableSegments_of_read hread
        split at h
        case h_1 => cases h
        case h_2 segment hseg =>
          obtain ⟨⟨tx₁, finished, budget₁⟩, hcons, h⟩ := of_bind h
          obtain ⟨-, hsegments⟩ := sealedSegments_cons htabs hrefs hseg
          obtain ⟨n, hfirst, hsum, hroot, hopen, hdone⟩ := consumeSegment_spec hload hsegments hcons
          have htables₁ : tx₁.root.tableRefs = table :: tables := by rw [hroot]; exact htabs
          dsimp only at h
          split at h
          case isFalse =>
            cases h
            exact ⟨n, [], hfirst, by omega, fun _ hnil => by rw [htables₁] at hnil; cases hnil⟩
          case isTrue hfin =>
            obtain ⟨hend, hwhole⟩ := hdone hfin
            have hsegment₁ : refs[tx₁.root.headSegmentOffset]? = some segment := by
              rw [hroot]
              exact hseg
            split at h
            case isTrue hlast =>
              have hpop := popTable hfirst.loadable htables₁ hrefs hsegment₁ hend hlast
              rw [append_assoc] at h
              obtain ⟨m, consumed, hmore, hm, hinside⟩ := ih hpop.loadable h
              exact ⟨_, _, hfirst.trans (hpop.trans hmore (.inr (by simp))) (.inr hwhole), by omega,
                fun _ => hinside (headOk_of_start hpop.loadable rfl)⟩
            case isFalse hmoreRefs =>
              have hpop := popFromTable hfirst.loadable htables₁ hrefs hsegment₁ hend hmoreRefs
              obtain ⟨m, consumed, hmore, hm, hinside⟩ := ih hpop.loadable h
              exact ⟨_, _, hfirst.trans (hpop.trans hmore (.inr (by simp))) (.inr hwhole), by omega,
                fun _ => hinside (headOk_of_start hpop.loadable rfl)⟩
      case h_2 segment segments htabs hsegs =>
        obtain ⟨⟨tx₁, finished, budget₁⟩, hcons, h⟩ := of_bind h
        have hsegments : sealedSegments dev tx.root = segment :: segments := by
          simp [sealedSegments, htabs, hsegs]
        obtain ⟨n, hfirst, hsum, hroot, hopen, hdone⟩ := consumeSegment_spec hload hsegments hcons
        have hsegs₁ : tx₁.root.segmentRefs = segment :: segments := by rw [hroot]; exact hsegs
        dsimp only at h
        split at h
        case isFalse hunfinished =>
          cases h
          refine ⟨n, [], hfirst, by omega, fun _ _ head hhead => ?_⟩
          rw [hsegs₁] at hhead
          obtain rfl := Option.some.inj hhead
          exact hopen (by simpa using hunfinished)
        case isTrue hfin =>
          obtain ⟨hend, hwhole⟩ := hdone hfin
          have htables₁ : tx₁.root.tableRefs = [] := by rw [hroot]; exact htabs
          have hpop := popSegment hfirst.loadable htables₁ hsegs₁ hend
          obtain ⟨m, consumed, hmore, hm, hinside⟩ := ih hpop.loadable h
          exact ⟨_, _, hfirst.trans (hpop.trans hmore (.inr (by simp))) (.inr hwhole), by omega,
                fun _ => hinside (headOk_of_start hpop.loadable rfl)⟩
      case h_3 entry entries htabs hsegs hinline =>
        split at h
        case isTrue =>
          cases h
          exact ⟨0, [], .refl hload, Nat.zero_le _, id⟩
        case isFalse hprotd =>
          have hpos := (hload.entries entry (by rw [hinline]; simp)).pos
          have htaken := takeInline hload htabs hsegs hinline
            (show 0 < min entry.blocks budget by omega) (Nat.min_le_left _ _)
            (not_lt.mp hprotd)
          obtain ⟨m, consumed, hmore, hm, hinside⟩ := ih htaken.loadable h
          refine ⟨_, _, htaken.trans hmore ?_, by omega, fun hroot => hinside hroot⟩
          -- either the run is gone, or the budget is
          rcases Nat.le_total entry.blocks budget with hwhole | hpart
          · right
            rw [Nat.min_eq_left hwhole, queuedRuns_inline htabs hsegs, hinline]
            have htake := takeBlocks_of_whole hpos 0 entries
            have hdrop := dropBlocks_of_whole hpos 0 entries
            rw [Nat.add_zero, takeBlocks_zero] at htake
            rw [Nat.add_zero, dropBlocks_zero] at hdrop
            rw [htake, hdrop]
            rfl
          · left
            omega
      case h_4 =>
        cases h
        exact ⟨0, [], .refl hload, Nat.zero_le _, id⟩

end ReclaimTx

end Afsplus
