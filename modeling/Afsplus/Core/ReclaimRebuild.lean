import Afsplus.Core.ReclaimConsume

/-!
# Rebuilding the reclaim queue

The runs a transaction retires go behind the inline ones, and an area that is over its capacity is
sealed from its oldest items on. Loading the rebuilt queue gives the runs that stayed followed by the
new ones, wherever the rebuild has put them.
-/

namespace Afsplus

open Fallible ReclaimSegment
open List hiding min

namespace ReclaimTx

/-- One block that sealing has written. -/
structure SealedBlock (α : Type) where
  lba : Nat
  items : List α
  block : Bytes

def SealedBlock.ref {α : Type} (b : SealedBlock α) : SealedRef := ⟨b.lba, b.items.length⟩

variable {lbas : List Nat} {refs : List SealedRef} {blockSize : Nat} {entries : List ReclaimEntry}
  {root : ReclaimRoot}

theorem sealArea_spec {α : Type} {cap batch : Nat} {encode : List α → Except FormatError Bytes}
    {fuel : Nat} {items : List α} {area : Sealed α} (h : sealArea cap batch encode fuel items refs lbas = .ok area) :
    ∃ blocks : List (SealedBlock α), items = blocks.flatMap SealedBlock.items ++ area.remaining ∧
      area.refs = refs ++ blocks.map SealedBlock.ref ∧ area.writes = blocks.map (fun b => (b.lba, b.block)) ∧
      lbas = blocks.map SealedBlock.lba ++ area.lbas ∧ (∀ b ∈ blocks, encode b.items = .ok b.block) ∧
      blocks.length = sealRounds cap batch fuel items.length := by
  induction fuel generalizing items refs lbas area with
  | zero =>
    cases h
    exact ⟨[], by simp, by simp, rfl, rfl, by simp, rfl⟩
  | succ fuel ih =>
    unfold sealArea at h
    rw [sealRounds]
    split at h
    case isTrue hover =>
      cases lbas with
      | nil => cases h
      | cons lba lbas =>
        obtain ⟨block, hblk, h⟩ := of_bind h
        obtain ⟨rest, hrest, h⟩ := of_bind h
        cases h
        obtain ⟨blocks, hitems, hrefs, hwrites, hlbas, hencoded, hlen⟩ := ih hrest
        refine ⟨⟨lba, items.take (min batch items.length), block⟩ :: blocks, ?_, ?_, ?_, ?_, ?_, ?_⟩
        · rw [flatMap_cons, append_assoc, ← hitems, take_append_drop]
        · rw [hrefs, map_cons, append_assoc]
          rfl
        · rw [hwrites, map_cons]
        · rw [hlbas, map_cons, cons_append]
        · exact forall_mem_cons.mpr ⟨mapError_eq_ok.mp hblk, hencoded⟩
        · rw [length_cons, hlen, length_drop, if_pos hover]
    case isFalse hfits =>
      cases h
      exact ⟨[], by simp, by simp, rfl, rfl, by simp, by rw [if_neg hfits]; rfl⟩

/-- With a block for each round and chunks that can be encoded, sealing goes on until the area fits. -/
theorem sealArea_of {α : Type} {cap batch : Nat} {encode : List α → Except FormatError Bytes} {fuel : Nat}
    {items : List α} (hbatch : 0 < batch) (hfuel : items.length ≤ fuel)
    (henc : ∀ chunk, chunk ≠ [] → chunk.length ≤ batch → chunk ⊆ items → ∃ block, encode chunk = .ok block)
    (hlbas : sealRounds cap batch fuel items.length ≤ lbas.length) (refs : List SealedRef) :
    ∃ area, sealArea cap batch encode fuel items refs lbas = .ok area ∧ area.remaining.length ≤ cap := by
  induction fuel generalizing items refs lbas with
  | zero => exact ⟨_, rfl, hfuel.trans (Nat.zero_le _)⟩
  | succ fuel ih =>
    rw [sealRounds] at hlbas
    unfold sealArea
    by_cases hover : items.length > cap
    · rw [if_pos hover] at hlbas ⊢
      cases lbas with
      | nil => exact absurd hlbas (by simp)
      | cons lba lbas =>
        obtain ⟨block, hblk⟩ := henc (items.take (min batch items.length))
          (by rw [← length_pos_iff, length_take]; omega) (by rw [length_take]; omega)
          (take_subset _ _)
        have hdrop : (items.drop (min batch items.length)).length = items.length - min batch items.length :=
          length_drop
        obtain ⟨rest, hrest, hfits⟩ := ih (show (items.drop (min batch items.length)).length ≤ fuel by omega)
          (fun chunk hne hlen hsub => henc chunk hne hlen (List.Subset.trans hsub (drop_subset _ _)))
          (by rw [hdrop]; exact Nat.le_of_succ_le_succ hlbas) _
        exact ⟨{ rest with writes := (lba, block) :: rest.writes }, by dsimp only; rw [hblk, hrest]; rfl, hfits⟩
    · rw [if_neg hover]
      exact ⟨_, rfl, not_lt.mp hover⟩

variable {geo : Geometry} {generation : Nat} {dev dev' : Device}

section Later

variable {ref : SealedRef} {later : Nat} (hle : generation ≤ later)
  (hsize : dev'.totalBlocks = dev.totalBlocks) (hblk : dev'.blocks ref.lba = dev.blocks ref.lba)
include hle hsize hblk

theorem readSegment_later (h : readSegment dev geo ref generation = .ok entries) :
    readSegment dev' geo ref later = .ok entries := by
  obtain ⟨hlba, written, hdec, hwritten, hlen, hcheck⟩ := readSegment_eq_ok.mp h
  refine readSegment_eq_ok.mpr ⟨by rw [hsize]; exact hlba, written, by rw [hblk]; exact hdec,
    hwritten.trans hle, hlen, checkEntries_eq_ok.mpr fun entry hmem => ?_⟩
  obtain ⟨hbounds, hretired⟩ := checkEntries_eq_ok.mp hcheck entry hmem
  exact ⟨hbounds, hretired.trans hle⟩

theorem readTable_later (h : readTable dev geo ref generation = .ok refs) :
    readTable dev' geo ref later = .ok refs := by
  obtain ⟨hlba, written, hdec, hwritten, hlen, hrefs⟩ := readTable_eq_ok.mp h
  exact readTable_eq_ok.mpr ⟨by rw [hsize]; exact hlba, written, by rw [hblk]; exact hdec,
    hwritten.trans hle, hlen, hrefs⟩

end Later

theorem lt_of_allocatable {lba : Nat} (h : geo.isAllocatable lba) : lba < geo.totalBlocks := by
  simp only [Geometry.isAllocatable, Bool.and_eq_true, decide_eq_true_eq] at h
  exact h.1

theorem readSegment_sealed {b : SealedBlock ReclaimEntry} (hgen : generation < 256 ^ 8)
    (hlba : b.lba < dev.totalBlocks) (hblk : dev.blocks b.lba = b.block)
    (henc : encode ⟨b.items⟩ geo.blockSize generation = .ok b.block)
    (hitems : ∀ entry ∈ b.items, RunOk geo generation entry) :
    readSegment dev geo b.ref generation = .ok b.items := by
  refine readSegment_eq_ok.mpr ⟨hlba, generation, ?_, le_rfl, rfl, ?_⟩
  · rw [show b.ref.lba = b.lba from rfl, hblk]
    refine decode_encode (fun entry hmem => ?_) hgen henc
    have hrun := hitems entry hmem
    obtain ⟨-, -, hend⟩ := validate_eq_ok.mp hrun.valid
    exact ⟨by omega, hrun.width, lt_of_le_of_lt hrun.retired hgen⟩
  · exact checkEntries_eq_ok.mpr fun entry hmem => ⟨(hitems entry hmem).bounds, (hitems entry hmem).retired⟩

theorem readTable_sealed {b : SealedBlock SealedRef} (hgen : generation < 256 ^ 8)
    (hlba : b.lba < dev.totalBlocks) (hblk : dev.blocks b.lba = b.block)
    (henc : ReclaimTable.encode ⟨b.items⟩ geo.blockSize generation = .ok b.block)
    (hdev : geo.totalBlocks ≤ dev.totalBlocks) (hitems : ∀ segment ∈ b.items, geo.isAllocatable segment.lba) :
    readTable dev geo b.ref generation = .ok b.items := by
  refine readTable_eq_ok.mpr ⟨hlba, generation, ?_, le_rfl, rfl, hitems⟩
  rw [show b.ref.lba = b.lba from rfl, hblk]
  refine ReclaimTable.decode_encode (fun segment hmem => ?_) hgen henc
  have hbound := lt_of_allocatable (hitems segment hmem)
  have hwidth := dev.addressWidth
  omega

def plannedSegments (tx : ReclaimTx) : Nat :=
  let inlineLen := tx.root.inlineEntries.length + tx.appends.length
  sealRounds tx.root.caps.inlineEntries segmentEntryCap inlineLen inlineLen

def plannedTables (tx : ReclaimTx) : Nat :=
  let refsLen := tx.root.segmentRefs.length + tx.plannedSegments
  sealRounds tx.root.caps.segmentRefs tableRefCap refsLen refsLen

/-- Blocks of the two sealed areas that `plan` has counted, and one for the root. -/
def plannedBlocks (tx : ReclaimTx) : Nat := tx.plannedSegments + tx.plannedTables + 1

/-- The rebuilt queue: the segments and tables sealed on the way, and the root. -/
structure Rebuilt (geo : Geometry) (lbas : List Nat) (tx : ReclaimTx) (built : Build) where
  segments : List (SealedBlock ReclaimEntry)
  tables : List (SealedBlock SealedRef)
  root : ReclaimRoot
  block : Bytes
  entries : tx.root.inlineEntries ++ tx.appends
    = segments.flatMap SealedBlock.items ++ root.inlineEntries
  refs : tx.root.segmentRefs ++ segments.map SealedBlock.ref
    = tables.flatMap SealedBlock.items ++ root.segmentRefs
  rootFields : root = { tx.root with
    pendingBlocks := root.pendingBlocks
    appendedBlocksTotal := tx.root.appendedBlocksTotal + blockCount tx.appends
    reclaimedBlocksTotal := tx.root.reclaimedBlocksTotal + tx.reclaimedBlocks
    tableRefs := tx.root.tableRefs ++ tables.map SealedBlock.ref
    segmentRefs := root.segmentRefs, inlineEntries := root.inlineEntries }
  pending : root.pendingBlocks = root.appendedBlocksTotal - root.reclaimedBlocksTotal ∧
    built.pendingBlocks = root.pendingBlocks
  totals : root.reclaimedBlocksTotal ≤ root.appendedBlocksTotal ∧ root.appendedBlocksTotal < 2 ^ 64
  segmentBlocks : ∀ b ∈ segments,
    encode ⟨b.items⟩ geo.blockSize tx.newGeneration = .ok b.block
  tableBlocks : ∀ b ∈ tables,
    ReclaimTable.encode ⟨b.items⟩ geo.blockSize tx.newGeneration = .ok b.block
  rootBlock : root.encode geo.blockSize tx.newGeneration = .ok block
  writes : built.writes = segments.map (fun b => (b.lba, b.block)) ++
    tables.map (fun b => (b.lba, b.block)) ++ [(built.rootLba, block)]
  lbas : lbas = segments.map SealedBlock.lba ++ tables.map SealedBlock.lba ++ [built.rootLba]

theorem build_spec {tx : ReclaimTx} {built : Build}
    (hplanned : tx.plannedAllocations = some tx.plannedBlocks) (h : build geo lbas tx = .ok built) :
    Nonempty (Rebuilt geo lbas tx built) := by
  replace h := after_check h
  obtain ⟨hcnt, h⟩ := of_refuse h
  replace h := after_check h
  obtain ⟨segments, hsegs, h⟩ := of_bind h
  obtain ⟨tables, htables, h⟩ := of_bind h
  obtain ⟨happended, h⟩ := of_refuse h
  replace h := after_check h
  obtain ⟨hreclaimed, h⟩ := of_refuse h
  obtain ⟨segs, hents, hrefs, hsegWrites, hsegLbas, hsegBlocks, hsegLength⟩ := sealArea_spec hsegs
  obtain ⟨tabs, htabRefs, htabs, htabWrites, htabLbas, htabBlocks, htabLength⟩ := sealArea_spec htables
  have hlen : lbas.length = tx.plannedBlocks := by
    rw [not_not, hplanned, Option.some.injEq] at hcnt
    exact hcnt.symm
  cases hlbas : tables.lbas with
  | nil =>
    rw [hlbas] at h
    cases h
  | cons rootLba unused =>
    rw [hlbas] at h
    obtain ⟨block, hblk, h⟩ := of_bind h
    cases h
    have hunused : unused = [] := by
      rw [hrefs, length_append, length_map, hsegLength, length_append] at htabLength
      rw [length_append] at hsegLength
      rw [hsegLbas, htabLbas, hlbas, length_append, length_append, length_map,
        length_map, length_cons, hsegLength, htabLength, plannedBlocks, plannedTables, plannedSegments] at hlen
      apply eq_nil_of_length_eq_zero
      omega
    refine ⟨{
      segments := segs, tables := tabs, block
      root := { tx.root with
        pendingBlocks := tx.root.appendedBlocksTotal + blockCount tx.appends -
          (tx.root.reclaimedBlocksTotal + tx.reclaimedBlocks)
        appendedBlocksTotal := tx.root.appendedBlocksTotal + blockCount tx.appends
        reclaimedBlocksTotal := tx.root.reclaimedBlocksTotal + tx.reclaimedBlocks
        tableRefs := tx.root.tableRefs ++ tabs.map SealedBlock.ref
        segmentRefs := tables.remaining, inlineEntries := segments.remaining }
      entries := hents, refs := ?_, rootFields := rfl, pending := ⟨rfl, rfl⟩
      totals := ⟨not_lt.mp hreclaimed, not_le.mp happended⟩, segmentBlocks := hsegBlocks
      tableBlocks := htabBlocks, rootBlock := ?_, writes := ?_, lbas := ?_ }⟩
    · rw [← hrefs]
      exact htabRefs
    · rw [htabs] at hblk
      exact mapError_eq_ok.mp hblk
    · rw [hsegWrites, htabWrites]
    · rw [hsegLbas, htabLbas, hlbas, hunused, append_assoc]

/-! ### Loading the rebuilt queue -/

def CapsOk (caps : ReclaimCaps) : Prop :=
  caps.inlineEntries < 256 ^ 2 ∧ caps.segmentRefs < 256 ^ 2 ∧ caps.tableRefs < 256 ^ 2

theorem Loadable.inRange (h : Loadable dev geo generation root)
    (hval : root.validate blockSize = .ok ()) (hcaps : CapsOk root.caps)
    (hwidth : root.appendedBlocksTotal < 2 ^ 64) (hgen : generation < 256 ^ 8)
    (hdev : geo.totalBlocks ≤ dev.totalBlocks) : root.InRange := by
  obtain ⟨-, -, htabs, hsegs, hcur, hbalance⟩ := validateRoot_eq_ok.mp hval
  obtain ⟨hnoTable, hfirst, -⟩ := validateCursor_eq_ok.mp hcur
  have hsegmentOffset : root.headSegmentOffset < 256 ^ 4 := by
    cases hrefs : root.tableRefs with
    | nil => rw [hnoTable hrefs]; decide
    | cons first rest =>
      have hcnt := (htabs first (by rw [hrefs]; simp)).2
      have hoff := hfirst first (by rw [hrefs]; rfl)
      rw [tableRefCap] at hcnt
      omega
  have hcur : root.headEntryOffset < 256 ^ 4 ∧ root.headBlockOffset < 256 ^ 4 := by
    have hcur := h.cursor
    cases hsealed : sealedSegments dev root with
    | nil =>
      obtain ⟨hentry, hblk⟩ := hcur.none hsealed
      rw [hentry, hblk]
      decide
    | cons ref more =>
      rw [hsealed] at hcur
      obtain ⟨entries, hread⟩ := h.segments ref (by rw [hsealed]; simp)
      obtain ⟨-, written, hdec, -⟩ := readSegment_eq_ok.mp hread
      have hcap := (decode_eq_ok hdec).2.1
      have hentry := hcur.entry ref rfl
      have hatEnd := hcur.atEnd ref rfl
      have hinRun := hcur.inRun ref rfl
      rw [segmentEntries_of_read hread] at hentry hatEnd hinRun
      rw [show (⟨entries⟩ : ReclaimSegment).entries = entries from rfl, segmentEntryCap] at hcap
      refine ⟨by omega, ?_⟩
      rcases Nat.lt_or_eq_of_le hentry with hinside | hend
      · have hrun := hinRun entries[root.headEntryOffset] (by
          rw [head?_drop, getElem?_eq_getElem hinside]
          rfl)
        exact hrun.trans ((readSegment_runOk hread).2 _ (getElem_mem hinside)).width
      · rw [hatEnd hend]
        decide
  refine ⟨⟨by omega, by omega, by omega, hsegmentOffset, hcur.1, hcur.2, hcaps.1, hcaps.2.1,
    hcaps.2.2, ?_, ?_⟩, fun entry hmem => (h.entries entry hmem).valid⟩
  · intro ref hmem
    have hbound := lt_of_allocatable (h.refs ref hmem)
    have haddr := dev.addressWidth
    refine ⟨by omega, ?_⟩
    rcases mem_append.mp hmem with htable | hseg
    · exact lt_of_le_of_lt (htabs ref htable).2 (by decide)
    · exact lt_of_le_of_lt (hsegs ref hseg).2 (by decide)
  · intro entry hmem
    have hrun := h.entries entry hmem
    obtain ⟨-, -, hend⟩ := validate_eq_ok.mp hrun.valid
    exact ⟨by omega, hrun.width, lt_of_le_of_lt hrun.retired hgen⟩

theorem Loadable.headSegmentOffset_le (h : Loadable dev geo generation root) :
    root.headSegmentOffset ≤ (root.tableRefs.flatMap (tableSegments dev)).length := by
  cases htabs : root.tableRefs with
  | nil => rw [h.noTable htabs]; exact Nat.zero_le _
  | cons table rest =>
    have hinside := h.segmentOffset table (by rw [htabs]; rfl)
    rw [flatMap_cons, length_append]
    omega

def afterBuild (dev : Device) (built : Build) : Device :=
  { dev with blocks := Disk.applyWrites dev.blocks built.writes }

/-- What a rebuild can rely on: a queue that loads, sound runs behind it, and blocks from the allocator
that are distinct and hold nothing of the queue. -/
structure Ready (dev : Device) (geo : Geometry) (generation : Nat) (tx : ReclaimTx)
    (lbas : List Nat) : Prop where
  loadable : Loadable dev geo generation tx.root
  caps : CapsOk tx.root.caps
  appends : ∀ entry ∈ tx.appends, RunOk geo tx.newGeneration entry
  balance : tx.root.appendedBlocksTotal
    = tx.root.reclaimedBlocksTotal + tx.reclaimedBlocks + blockCount (queuedRuns dev tx.root)
  distinct : lbas.Nodup
  allocatable : ∀ lba ∈ lbas, geo.isAllocatable lba
  fresh : ∀ lba ∈ lbas, lba ∉ sealedBlocks dev tx.root
  device : geo.totalBlocks ≤ dev.totalBlocks
  blockSize : geo.blockSize < 256 ^ 4
  generation : generation ≤ tx.newGeneration
  width : tx.newGeneration < 256 ^ 8

theorem segment_encode_of (hsize : blockSize = 4096)
    (hnonempty : entries ≠ []) (hcap : entries.length ≤ segmentEntryCap)
    (hval : ∀ entry ∈ entries, entry.validate = .ok ()) (generation : Nat) :
    ∃ block, encode ⟨entries⟩ blockSize generation = .ok block := by
  have hroom : ¬(⟨entries⟩ : ReclaimSegment).payloadLen > blockSize - headerSize := by
    show ¬8 + entries.length * 20 > blockSize - 32
    rw [segmentEntryCap] at hcap
    omega
  rw [encode, refuseIf_bind (not_or.mpr ⟨hnonempty, not_lt.mpr hcap⟩), refuseIf_bind hroom,
    check_bind (validateEntries_eq_ok.mpr hval)]
  exact ⟨_, rfl⟩

theorem table_encode_of (hsize : blockSize = 4096) (hnonempty : refs ≠ [])
    (hcap : refs.length ≤ tableRefCap) (hcnts : ∀ ref ∈ refs, 0 < ref.count ∧ ref.count ≤ segmentEntryCap)
    (generation : Nat) : ∃ block, ReclaimTable.encode ⟨refs⟩ blockSize generation = .ok block := by
  have hroom : ¬(⟨refs⟩ : ReclaimTable).payloadLen > blockSize - headerSize := by
    show ¬8 + refs.length * 12 > blockSize - 32
    rw [tableRefCap] at hcap
    omega
  rw [ReclaimTable.encode, refuseIf_bind (not_or.mpr ⟨hnonempty, not_lt.mpr hcap⟩), refuseIf_bind hroom, refuseIf_bind]
  · exact ⟨_, rfl⟩
  · rintro ⟨ref, href, hcnt⟩
    have := hcnts ref href
    omega

/-- A planned rebuild can only be refused because the count of all blocks ever appended overflows. -/
theorem build_of {tx : ReclaimTx} (hready : Ready dev geo generation tx lbas)
    (hinside : HeadOk tx.root) (hcaps : tx.root.caps.validate geo.blockSize = .ok ()) (hsize : geo.blockSize = 4096)
    (hplanned : tx.plannedAllocations = some tx.plannedBlocks) (hlbas : lbas.length = tx.plannedBlocks)
    (hroom : tx.root.tableRefs.length + tx.plannedTables ≤ tx.root.caps.tableRefs) :
    (∃ built, build geo lbas tx = .ok built) ∨ 2 ^ 64 ≤ tx.root.appendedBlocksTotal + blockCount tx.appends ∧
        (build geo lbas tx = .error (.corrupt "reclaim append total overflows") ∨
          build geo lbas tx = .error (.corrupt "reclaim appended total overflows")) := by
  have hload := hready.loadable
  have hruns : ∀ entry ∈ tx.root.inlineEntries ++ tx.appends, entry.validate = .ok () :=
    forall_mem_append.mpr ⟨fun entry hmem => (hload.entries entry hmem).valid,
      fun entry hmem => (hready.appends entry hmem).valid⟩
  have hblks : lbas.length = tx.plannedSegments + tx.plannedTables + 1 := hlbas
  have hrounds : sealRounds tx.root.caps.inlineEntries segmentEntryCap (tx.root.inlineEntries ++ tx.appends).length
      (tx.root.inlineEntries ++ tx.appends).length = tx.plannedSegments := by
    rw [length_append]
    rfl
  obtain ⟨segments, hsegs, hinline⟩ := sealArea_of (by decide) le_rfl
    (fun chunk hne hlen hsub => segment_encode_of hsize hne hlen (fun entry hmem => hruns entry (hsub hmem))
      tx.newGeneration)
    (hrounds.trans_le (show _ ≤ lbas.length by omega)) tx.root.segmentRefs
  obtain ⟨segs, -, hrefs, -, hsegLbas, hsegBlocks, hsegLength⟩ := sealArea_spec hsegs
  have hcnts : ∀ ref ∈ segments.refs, 0 < ref.count ∧ ref.count ≤ segmentEntryCap := by
    rw [hrefs]
    refine forall_mem_append.mpr ⟨fun ref href => hload.count_segment href, fun ref href => ?_⟩
    obtain ⟨b, hb, rfl⟩ := mem_map.mp href
    obtain ⟨hnonempty, hcap⟩ := not_or.mp (of_refuse (hsegBlocks b hb)).1
    exact ⟨length_pos_iff.mpr hnonempty, not_lt.mp hcap⟩
  have hrefsLength : segments.refs.length = tx.root.segmentRefs.length + tx.plannedSegments := by
    rw [hrefs, length_append, length_map, hsegLength, hrounds]
  have htableRounds : sealRounds tx.root.caps.segmentRefs tableRefCap segments.refs.length segments.refs.length =
      tx.plannedTables := by
    rw [hrefsLength]
    rfl
  have hleft : lbas.length = segs.length + segments.lbas.length := by
    rw [hsegLbas, length_append, length_map]
  rw [hrounds] at hsegLength
  obtain ⟨tables, htabs, hsegmentRefs⟩ := sealArea_of (by decide) le_rfl
    (fun chunk hne hlen hsub => table_encode_of hsize hne hlen (fun ref hmem => hcnts ref (hsub hmem))
      tx.newGeneration)
    (htableRounds.trans_le (show _ ≤ segments.lbas.length by omega)) tx.root.tableRefs
  obtain ⟨tabs, hitems, htabRefs, -, htabLbas, htabBlocks, htabLength⟩ := sealArea_spec htabs
  have htabCounts : ∀ table ∈ tables.refs, 0 < table.count ∧ table.count ≤ tableRefCap := by
    rw [htabRefs]
    refine forall_mem_append.mpr ⟨fun table htable => hload.count_table htable, fun table htable => ?_⟩
    obtain ⟨b, hb, rfl⟩ := mem_map.mp htable
    obtain ⟨hnonempty, hcap⟩ := not_or.mp (of_refuse (htabBlocks b hb)).1
    exact ⟨length_pos_iff.mpr hnonempty, not_lt.mp hcap⟩
  have hlast : segments.lbas.length = tabs.length + tables.lbas.length := by
    rw [htabLbas, length_append, length_map]
  -- The cursor still stands at the head of what is now in front.
  have hcur : ReclaimRoot.validateCursor { tx.root with
      tableRefs := tables.refs, segmentRefs := tables.remaining } = .ok () := by
    have hnoTables : tables.refs = [] → tx.root.tableRefs = [] ∧
        tables.remaining = tx.root.segmentRefs ++ segs.map SealedBlock.ref := by
      intro hnil
      rw [htabRefs, append_eq_nil_iff, map_eq_nil_iff] at hnil
      rw [hnil.2, flatMap_nil, nil_append, hrefs] at hitems
      exact ⟨hnil.1, hitems.symm⟩
    have hstart : tx.root.tableRefs = [] → tx.root.segmentRefs = [] →
        tx.root.headEntryOffset = 0 ∧ tx.root.headBlockOffset = 0 := by
      intro hnoTable hnoSegment
      exact hload.cursor.none (by simp [sealedSegments, hnoTable, hnoSegment])
    refine validateCursor_eq_ok.mpr ⟨fun hnil => hload.noTable (hnoTables hnil).1, ?_, ?_, ?_⟩
    · intro first hfirst
      cases hold : tx.root.tableRefs with
      | nil =>
        rw [hload.noTable hold]
        exact (htabCounts first (mem_of_mem_head? hfirst)).1
      | cons table rest =>
        rw [htabRefs, hold] at hfirst
        obtain rfl := Option.some.inj hfirst
        obtain ⟨refs, hread⟩ := hload.tables table (by rw [hold]; simp)
        obtain ⟨-, -, -, -, hcnt, -⟩ := readTable_eq_ok.mp hread
        have hoff := hload.segmentOffset table (by rw [hold]; rfl)
        rwa [tableSegments_of_read hread, hcnt] at hoff
    · intro hnil hempty
      obtain ⟨hnoTable, hremaining⟩ := hnoTables hnil
      exact hstart hnoTable (append_eq_nil_iff.mp (hremaining.symm.trans hempty)).1
    · intro hnil head hhead
      obtain ⟨hnoTable, hremaining⟩ := hnoTables hnil
      cases hold : tx.root.segmentRefs with
      | nil =>
        rw [(hstart hnoTable hold).1]
        exact (hcnts head (by rw [hitems]; exact mem_append_right _ (mem_of_mem_head? hhead))).1
      | cons segment rest =>
        rw [hremaining, hold] at hhead
        obtain rfl := Option.some.inj hhead
        exact hinside hnoTable segment (by rw [hold]; rfl)
  have hbalance := hready.balance
  have hnone : ¬tx.plannedAllocations = none := by simp [hplanned]
  have hmatch : ¬tx.plannedAllocations ≠ some lbas.length := by simp [hplanned, hlbas]
  by_cases hsum : (tx.appends.map ReclaimEntry.blocks).sum ≥ 2 ^ 64
  · refine .inr ⟨Nat.le_add_left_of_le hsum, .inl ?_⟩
    rw [build, refuseIf_bind hnone, refuseIf_bind hmatch]
    exact refuseIf_bind_error hsum _ _
  by_cases hover : tx.root.appendedBlocksTotal + (tx.appends.map ReclaimEntry.blocks).sum ≥ 2 ^ 64
  · refine .inr ⟨hover, .inr ?_⟩
    rw [build, refuseIf_bind hnone, refuseIf_bind hmatch]
    dsimp only
    rw [refuseIf_bind hsum, hsegs, ok_bind, htabs, ok_bind]
    exact refuseIf_bind_error hover _ _
  cases hlba : tables.lbas with
  | nil =>
    rw [hlba, length_nil, htabLength, htableRounds] at hlast
    omega
  | cons rootLba unused =>
    have hreclaimed : ¬tx.root.reclaimedBlocksTotal + tx.reclaimedBlocks ≥ 2 ^ 64 := by omega
    have hpend : ¬tx.root.reclaimedBlocksTotal + tx.reclaimedBlocks >
        tx.root.appendedBlocksTotal + (tx.appends.map ReclaimEntry.blocks).sum := by omega
    left
    rw [build, refuseIf_bind hnone, refuseIf_bind hmatch]
    dsimp only
    rw [refuseIf_bind hsum, hsegs, ok_bind, htabs, ok_bind, refuseIf_bind hover, refuseIf_bind hreclaimed,
      refuseIf_bind hpend, hlba]
    refine ⟨_, bind_ok.mpr ⟨_, mapError_eq_ok.mpr (check_bind ?_ _), rfl⟩⟩
    refine validateRoot_eq_ok.mpr ⟨hcaps, ⟨?_, hsegmentRefs, hinline⟩, htabCounts, ?_, hcur, ?_⟩
    · show tables.refs.length ≤ _
      rw [htabRefs, length_append, length_map, htabLength, htableRounds]
      exact hroom
    · intro segment hmem
      apply hcnts
      rw [hitems]
      exact mem_append_right _ hmem
    · dsimp only
      omega

namespace Rebuilt

variable {lbas : List Nat} {tx : ReclaimTx} {built : Build} (r : Rebuilt geo lbas tx built)
  (hready : Ready dev geo generation tx lbas)

include r

theorem writes_lbas : built.writes.map Prod.fst = lbas := by
  have hlbas := r.lbas
  rw [r.writes, map_append, map_append, map_map, map_map]
  exact hlbas.symm

variable {lba : Nat} {b : SealedBlock ReclaimEntry} {segment : SealedRef}

theorem segment_lba (hb : b ∈ r.segments) : b.lba ∈ lbas := by
  rw [r.lbas]
  simp only [mem_append]
  exact .inl (.inl (mem_map_of_mem hb))

theorem table_lba {b : SealedBlock SealedRef} (hb : b ∈ r.tables) : b.lba ∈ lbas := by
  rw [r.lbas]
  simp only [mem_append]
  exact .inl (.inr (mem_map_of_mem hb))

include hready

theorem keeps (hmem : lba ∈ sealedBlocks dev tx.root) :
    (afterBuild dev built).blocks lba = dev.blocks lba := by
  refine Disk.applyWrites_of_not_mem fun write hwrite heq => hready.fresh lba ?_ hmem
  rw [← r.writes_lbas, ← heq]
  exact mem_map_of_mem hwrite

theorem written {block : Bytes} (hmem : (lba, block) ∈ built.writes) :
    (afterBuild dev built).blocks lba = block := by
  refine Disk.applyWrites_of_mem ?_ hmem
  rw [r.writes_lbas]
  exact hready.distinct

theorem runOk {entry : ReclaimEntry} (hmem : entry ∈ r.segments.flatMap SealedBlock.items ++ r.root.inlineEntries) :
    RunOk geo tx.newGeneration entry := by
  rw [← r.entries] at hmem
  rcases mem_append.mp hmem with hold | hnew
  · exact (hready.loadable.entries entry hold).mono hready.generation
  · exact hready.appends entry hnew

theorem refs_allocatable {ref : SealedRef}
    (hmem : ref ∈ r.tables.flatMap SealedBlock.items ++ r.root.segmentRefs) : geo.isAllocatable ref.lba := by
  rw [← r.refs] at hmem
  rcases mem_append.mp hmem with hold | hnew
  · exact hready.loadable.refs ref (mem_append_right _ hold)
  · obtain ⟨b, hb, rfl⟩ := mem_map.mp hnew
    exact hready.allocatable b.lba (r.segment_lba hb)

theorem readSegment (hb : b ∈ r.segments) :
    ReclaimTx.readSegment (afterBuild dev built) geo b.ref tx.newGeneration = .ok b.items := by
  have hlba := lt_of_allocatable (hready.allocatable b.lba (r.segment_lba hb))
  refine readSegment_sealed hready.width (hlba.trans_le hready.device)
    (r.written hready ?_) (r.segmentBlocks b hb) fun entry hmem => r.runOk hready ?_
  · rw [r.writes]
    simp only [mem_append]
    exact .inl (.inl (mem_map.mpr ⟨b, hb, rfl⟩))
  · exact mem_append_left _ (mem_flatMap.mpr ⟨b, hb, hmem⟩)

theorem readTable {b : SealedBlock SealedRef} (hb : b ∈ r.tables) :
    ReclaimTx.readTable (afterBuild dev built) geo b.ref tx.newGeneration = .ok b.items := by
  have hlba := lt_of_allocatable (hready.allocatable b.lba (r.table_lba hb))
  refine readTable_sealed hready.width (hlba.trans_le hready.device)
    (r.written hready ?_) (r.tableBlocks b hb) hready.device fun segment hmem =>
      r.refs_allocatable hready ?_
  · rw [r.writes]
    simp only [mem_append]
    exact .inl (.inr (mem_map.mpr ⟨b, hb, rfl⟩))
  · exact mem_append_left _ (mem_flatMap.mpr ⟨b, hb, hmem⟩)

/-! ### The rebuilt tiers, one behind the other -/

theorem readTable_old {table : SealedRef} (hmem : table ∈ tx.root.tableRefs) :
    ∃ refs, ReclaimTx.readTable (afterBuild dev built) geo table tx.newGeneration = .ok refs ∧
      tableSegments dev table = refs := by
  obtain ⟨refs, hread⟩ := hready.loadable.tables table hmem
  refine ⟨refs, readTable_later hready.generation (by rfl) (r.keeps hready ?_) hread, tableSegments_of_read hread⟩
  exact mem_map_of_mem (mem_append_left _ hmem)

theorem readSegment_old (hmem : segment ∈ sealedSegments dev tx.root) :
    ∃ entries, ReclaimTx.readSegment (afterBuild dev built) geo segment tx.newGeneration
      = .ok entries ∧ segmentEntries dev segment = entries := by
  obtain ⟨entries, hread⟩ := hready.loadable.segments segment hmem
  refine ⟨entries, readSegment_later hready.generation (by rfl) (r.keeps hready ?_) hread, segmentEntries_of_read hread⟩
  exact mem_map_of_mem (mem_append_right _ hmem)

theorem tableSegments_old {table : SealedRef} (hmem : table ∈ tx.root.tableRefs) :
    tableSegments (afterBuild dev built) table = tableSegments dev table := by
  obtain ⟨refs, hread, hold⟩ := r.readTable_old hready hmem
  rw [tableSegments_of_read hread, hold]

theorem segmentEntries_old (hmem : segment ∈ sealedSegments dev tx.root) :
    segmentEntries (afterBuild dev built) segment = segmentEntries dev segment := by
  obtain ⟨entries, hread, hold⟩ := r.readSegment_old hready hmem
  rw [segmentEntries_of_read hread, hold]

omit hready in
theorem tableRefs_eq : r.root.tableRefs = tx.root.tableRefs ++ r.tables.map SealedBlock.ref := by
  rw [r.rootFields]

omit hready in
theorem head_eq : r.root.headSegmentOffset = tx.root.headSegmentOffset ∧
    r.root.headEntryOffset = tx.root.headEntryOffset ∧ r.root.headBlockOffset = tx.root.headBlockOffset := by
  rw [r.rootFields]
  exact ⟨rfl, rfl, rfl⟩

theorem flatMap_tableSegments :
    r.root.tableRefs.flatMap (tableSegments (afterBuild dev built))
      = tx.root.tableRefs.flatMap (tableSegments dev) ++ r.tables.flatMap SealedBlock.items := by
  have hnew : ∀ b ∈ r.tables, tableSegments (afterBuild dev built) b.ref = b.items :=
    fun b hb => tableSegments_of_read (r.readTable hready hb)
  have htabs := r.tableRefs_eq
  rw [htabs, flatMap_append, flatMap_map]
  congr 1
  · exact flatMap_congr fun table hmem => r.tableSegments_old hready hmem
  · exact flatMap_congr hnew

theorem sealedSegments_eq : sealedSegments (afterBuild dev built) r.root
    = sealedSegments dev tx.root ++ r.segments.map SealedBlock.ref := by
  rw [sealedSegments, r.flatMap_tableSegments hready, r.head_eq.1,
    drop_append_of_le_length hready.loadable.headSegmentOffset_le, append_assoc, ← r.refs,
    sealedSegments, append_assoc]

theorem cursorOk_old : CursorOk (afterBuild dev built) (sealedSegments dev tx.root)
    tx.root.headEntryOffset tx.root.headBlockOffset := by
  have hcur := hready.loadable.cursor
  have hsame : ∀ ref ∈ (sealedSegments dev tx.root).head?,
      segmentEntries (afterBuild dev built) ref = segmentEntries dev ref :=
    fun ref hmem => r.segmentEntries_old hready (mem_of_mem_head? hmem)
  refine ⟨hcur.none, ?_, ?_, ?_⟩
  · intro ref hmem
    rw [hsame ref hmem]
    exact hcur.entry ref hmem
  · intro ref hmem
    rw [hsame ref hmem]
    exact hcur.atEnd ref hmem
  · intro ref hmem
    rw [hsame ref hmem]
    exact hcur.inRun ref hmem

theorem queuedRuns_eq : queuedRuns (afterBuild dev built) r.root = queuedRuns dev tx.root ++ tx.appends := by
  have hnew : ∀ b ∈ r.segments, segmentEntries (afterBuild dev built) b.ref = b.items :=
    fun b hb => segmentEntries_of_read (r.readSegment hready hb)
  obtain ⟨-, hentry, hblk⟩ := r.head_eq
  have hold : runsBehind (afterBuild dev built) (sealedSegments dev tx.root) tx.root.headEntryOffset
      tx.root.headBlockOffset = runsBehind dev (sealedSegments dev tx.root) tx.root.headEntryOffset
      tx.root.headBlockOffset := by
    rw [runsBehind, runsBehind, flatMap_congr fun segment hmem => r.segmentEntries_old hready hmem]
  rw [queuedRuns, r.sealedSegments_eq hready, hentry, hblk,
    runsBehind_append (r.cursorOk_old hready), hold, flatMap_map, flatMap_congr hnew,
    append_assoc, ← r.entries, queuedRuns, append_assoc]

theorem loadable : Loadable (afterBuild dev built) geo tx.newGeneration r.root := by
  have htabs := r.tableRefs_eq
  obtain ⟨hoff, hentry, hblk⟩ := r.head_eq
  have hread : ∀ ref ∈ sealedSegments (afterBuild dev built) r.root, ∃ entries,
      ReclaimTx.readSegment (afterBuild dev built) geo ref tx.newGeneration = .ok entries := by
    rw [r.sealedSegments_eq hready]
    refine forall_mem_append.mpr ⟨fun ref hmem => ?_, fun ref hmem => ?_⟩
    · obtain ⟨entries, hents, -⟩ := r.readSegment_old hready hmem
      exact ⟨entries, hents⟩
    · obtain ⟨b, hb, rfl⟩ := mem_map.mp hmem
      exact ⟨b.items, r.readSegment hready hb⟩
  refine ⟨?_, ?_, ?_, hread, ?_, ?_, ?_⟩
  · rw [htabs]
    refine forall_mem_append.mpr ⟨fun table hmem => ?_, fun table hmem => ?_⟩
    · obtain ⟨refs, hrefs, -⟩ := r.readTable_old hready hmem
      exact ⟨refs, hrefs⟩
    · obtain ⟨b, hb, rfl⟩ := mem_map.mp hmem
      exact ⟨b.items, r.readTable hready hb⟩
  · rw [htabs, hoff]
    cases hold : tx.root.tableRefs with
    | nil =>
      -- no table so far: the cursor has no offset among segments, and a new table is not empty
      rw [hready.loadable.noTable hold]
      intro table hmem
      obtain ⟨b, hb, rfl⟩ := mem_map.mp (mem_of_mem_head? hmem)
      have hnew := r.readTable hready hb
      rw [tableSegments_of_read hnew]
      exact readTable_nonempty hnew
    | cons first rest =>
      rintro table ⟨⟩
      rw [r.tableSegments_old hready (by rw [hold]; simp)]
      exact hready.loadable.segmentOffset first (by rw [hold]; rfl)
  · intro hnil
    rw [hoff]
    rw [htabs] at hnil
    exact hready.loadable.noTable (append_eq_nil_iff.mp hnil).1
  · rw [r.sealedSegments_eq hready, hentry, hblk]
    refine (r.cursorOk_old hready).append fun ref hmem => hread ref ?_
    rw [r.sealedSegments_eq hready]
    exact mem_append_right _ hmem
  · rw [htabs]
    refine forall_mem_append.mpr ⟨forall_mem_append.mpr ⟨fun ref hmem => ?_,
      fun ref hmem => ?_⟩, fun ref hmem => ?_⟩
    · exact hready.loadable.refs ref (mem_append_left _ hmem)
    · obtain ⟨b, hb, rfl⟩ := mem_map.mp hmem
      exact hready.allocatable b.lba (r.table_lba hb)
    · exact r.refs_allocatable hready (mem_append_right _ hmem)
  · exact fun entry hmem => r.runOk hready (mem_append_right _ hmem)

theorem readRoot : ReclaimTx.readRoot (afterBuild dev built) geo built.rootLba tx.newGeneration = .ok r.root := by
  have hmem : built.rootLba ∈ lbas := by
    rw [r.lbas]
    simp
  have hblk : (afterBuild dev built).blocks built.rootLba = r.block := by
    apply r.written hready
    rw [r.writes]
    simp
  have hlba := hready.allocatable built.rootLba hmem
  have hloadable := r.loadable hready
  obtain ⟨hval, -⟩ := check_ok.mp r.rootBlock
  have hcaps : CapsOk r.root.caps := by
    rw [r.rootFields]
    exact hready.caps
  have hrng := hloadable.inRange hval hcaps r.totals.2 hready.width hready.device
  refine readRoot_eq_ok.mpr ⟨hlba, (lt_of_allocatable hlba).trans_le hready.device, tx.newGeneration,
    ?_, le_rfl, ?_, hloadable.refs⟩
  · rw [hblk]
    exact ReclaimRoot.decode_encode hrng hready.width r.rootBlock
  · exact checkEntries_eq_ok.mpr fun entry hmem =>
      ⟨(hloadable.entries entry hmem).bounds, (hloadable.entries entry hmem).retired⟩

theorem sealedBlocks_eq : (loadedBlocks (afterBuild dev built) built.rootLba r.root).Perm
    (sealedBlocks dev tx.root ++ lbas) := by
  have htabs := r.tableRefs_eq
  have hsegmentLbas : (r.segments.map SealedBlock.ref).map SealedRef.lba = r.segments.map SealedBlock.lba := by
    rw [map_map]
    rfl
  have htableLbas : (r.tables.map SealedBlock.ref).map SealedRef.lba = r.tables.map SealedBlock.lba := by
    rw [map_map]
    rfl
  refine (loadedBlocks_perm (r.loadable hready) built.rootLba).trans ?_
  rw [sealedBlocks, r.sealedSegments_eq hready, htabs, sealedBlocks]
  conv_rhs => rw [r.lbas]
  simp only [map_append, hsegmentLbas, htableLbas]
  rw [perm_iff_count]
  intro lba
  simp only [count_append, count_cons, count_nil]
  omega

theorem loadAll_eq : ∃ loaded,
    ReclaimTx.loadAll (afterBuild dev built) geo built.rootLba tx.newGeneration = .ok loaded ∧
      loaded.runs = queuedRuns dev tx.root ++ tx.appends ∧
      loaded.structureBlocks.Perm (sealedBlocks dev tx.root ++ lbas) ∧
      loaded.pendingBlocks = blockCount loaded.runs := by
  have hbalance := hready.balance
  have htotals := r.totals
  have hpend := r.pending.1
  have happended : r.root.appendedBlocksTotal = tx.root.appendedBlocksTotal + blockCount tx.appends := by
    rw [r.rootFields]
  have hreclaimed : r.root.reclaimedBlocksTotal = tx.root.reclaimedBlocksTotal + tx.reclaimedBlocks := by
    rw [r.rootFields]
  have hcnt : blockCount (queuedRuns (afterBuild dev built) r.root) = r.root.pendingBlocks := by
    rw [r.queuedRuns_eq hready, blockCount_append]
    omega
  refine ⟨_, loadAll_eq_ok.mpr ⟨r.root, r.readRoot hready, r.loadable hready, hcnt, by omega, rfl⟩,
    r.queuedRuns_eq hready, r.sealedBlocks_eq hready, hcnt.symm⟩

theorem decodes {block : Bytes} (hmem : (lba, block) ∈ built.writes) :
    (∃ decoded, decode block = .ok decoded) ∨ (∃ decoded, ReclaimTable.decode block = .ok decoded) ∨
      lba = built.rootLba ∧ ∃ decoded, ReclaimRoot.decode block = .ok decoded := by
  have hwritten := r.written hready hmem
  rw [r.writes] at hmem
  simp only [mem_append, mem_map, mem_singleton, Prod.mk.injEq] at hmem
  rw [← hwritten]
  rcases hmem with (⟨b, hb, rfl, -⟩ | ⟨b, hb, rfl, -⟩) | ⟨rfl, -⟩
  · obtain ⟨-, written, hdec, -⟩ := readSegment_eq_ok.mp (r.readSegment hready hb)
    exact .inl ⟨_, hdec⟩
  · obtain ⟨-, written, hdec, -⟩ := readTable_eq_ok.mp (r.readTable hready hb)
    exact .inr (.inl ⟨_, hdec⟩)
  · obtain ⟨-, -, written, hdec, -⟩ := readRoot_eq_ok.mp (r.readRoot hready)
    exact .inr (.inr ⟨rfl, _, hdec⟩)

end Rebuilt

end ReclaimTx

end Afsplus
