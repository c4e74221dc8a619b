import Mathlib.Data.List.TakeWhile
import Afsplus.Core.SharedExtents

/-!
# Records of shared runs

What the checks on a record say, the committed tree as a canonical set of runs, how a query is cut into
segments, and what rewriting one segment does to the set of records.
-/

namespace Afsplus

open Wire Fallible Runs SortedMap SharedRun
open List hiding min max set insert

namespace SharedRun

def stop (run : SharedRun) : Nat := run.physicalStart + run.blockCount

structure Ok (run : SharedRun) : Prop where
  nonempty : 0 < run.blockCount
  bounded : run.stop < 2 ^ 64
  shared : minReferenceCount ≤ run.referenceCount
  width : run.referenceCount < 2 ^ 32
  flags : run.flags = 0

variable {run : SharedRun}

theorem physicalEnd_eq_ok {stop : Nat} : run.physicalEnd = .ok stop ↔ run.stop < 2 ^ 64 ∧ stop = run.stop := by
  rw [physicalEnd, refuseIf_ok, pure_ok, not_le]
  rfl

theorem physicalEnd_of_lt (h : run.stop < 2 ^ 64) : run.physicalEnd = .ok run.stop :=
  physicalEnd_eq_ok.mpr ⟨h, rfl⟩

theorem validateRunShape_eq_ok {u : Unit} : run.validateRunShape = .ok u ↔
    run.blockCount ≠ 0 ∧ run.stop < 2 ^ 64 ∧ minReferenceCount ≤ run.referenceCount ∧ run.flags = 0 := by
  rw [validateRunShape, refuseIf_ok, bind_ok]
  constructor
  · rintro ⟨hcnt, stop, hend, h⟩
    obtain ⟨hshared, h⟩ := of_refuse h
    exact ⟨hcnt, (physicalEnd_eq_ok.mp hend).1, not_lt.mp hshared, not_not.mp (refuseIf_eq_ok.mp h)⟩
  · rintro ⟨hcnt, hend, hshared, hflags⟩
    exact ⟨hcnt, run.stop, physicalEnd_of_lt hend,
      refuseIf_ok.mpr ⟨not_lt.mpr hshared, refuseIf_eq_ok.mpr (not_not.mpr hflags)⟩⟩

theorem Ok.encodeRun (h : run.Ok) : run.encodeRun = .ok (keyU64 run.physicalStart, run.value) :=
  check_bind (validateRunShape_eq_ok.mpr ⟨h.nonempty.ne', h.bounded, h.shared, h.flags⟩) _

theorem Ok.start_lt (h : run.Ok) : run.physicalStart < 2 ^ 64 :=
  lt_of_le_of_lt (Nat.le_add_right ..) h.bounded

theorem Ok.start_lt_stop (h : run.Ok) : run.physicalStart < run.stop :=
  Nat.lt_add_of_pos_right h.nonempty

theorem decodeRun_eq_ok {geo : Geometry} {key value : Bytes} (h : decodeRun geo key value = .ok run) :
    run.Ok ∧ key = keyU64 run.physicalStart ∧ value = run.value := by
  obtain ⟨hkey, h⟩ := of_refuse h
  obtain ⟨hvalue, h⟩ := of_refuse h
  obtain ⟨hshape, h⟩ := check_ok.mp h
  replace h := after_check h
  obtain ⟨hcnt, hend, hshared, hflags⟩ := validateRunShape_eq_ok.mp hshape
  rw [not_not] at hkey hvalue
  rw [pure_ok.mp h]
  refine ⟨⟨Nat.pos_of_ne_zero hcnt, hend, hshared, readLe_lt 4 _, hflags⟩, ?_, ?_⟩
  · rw [keyU64, ← hkey, ← length_reverse, leBytes_leNat, reverse_reverse]
  · rw [valueSize] at hvalue
    have hfirst := leBytes_readLe (show 8 ≤ value.length by omega)
    have hlen := length_readLe 8 value
    have hsecond := leBytes_readLe (show 4 ≤ (readLe 8 value).2.length by omega)
    have hlen' := length_readLe 4 (readLe 8 value).2
    have hthird := leBytes_readLe (show 4 ≤ (readLe 4 (readLe 8 value).2).2.length by omega)
    have hlen'' := length_readLe 4 (readLe 4 (readLe 8 value).2).2
    have hnil : (readLe 4 (readLe 4 (readLe 8 value).2).2).2 = [] := eq_nil_of_length_eq_zero (by omega)
    rw [hnil, append_nil] at hthird
    show value = leBytes 8 (readLe 8 value).1 ++ leBytes 4 (readLe 4 (readLe 8 value).2).1 ++
      leBytes 4 (readLe 4 (readLe 4 (readLe 8 value).2).2).1
    rw [hthird, append_assoc, hsecond, hfirst]

end SharedRun

namespace SharedExtents

variable {records : List SharedRun}

theorem validateCanonical_eq_ok (hok : ∀ run ∈ records, run.Ok) {u : Unit} :
    validateCanonical records = .ok u ↔
      records.Pairwise (fun a b => a.stop ≤ b.physicalStart) ∧ Maximal { run | run ∈ records } := by
  induction records with
  | nil => exact iff_of_true rfl ⟨.nil, fun _ h => absurd h not_mem_nil⟩
  | cons first rest ih =>
    obtain ⟨hfirst, hrest⟩ := forall_mem_cons.mp hok
    cases rest with
    | nil => exact iff_of_true rfl ⟨pairwise_singleton .., maximal_singleton hfirst.start_lt_stop⟩
    | cons second rest =>
      have hsecond := (hrest second (mem_cons_self ..)).start_lt_stop
      have hproper : ∀ run ∈ first :: second :: rest, run.physicalStart < run.stop := fun run hrun =>
        (hok run hrun).start_lt_stop
      rw [validateCanonical, physicalEnd_of_lt hfirst.bounded]
      constructor
      · intro h
        obtain ⟨hover, h⟩ := of_refuse h
        obtain ⟨hmerged, h⟩ := of_refuse h
        obtain ⟨hsort, hmaximal⟩ := (ih hrest).mp h
        have hall : ∀ run ∈ second :: rest, first.stop ≤ run.physicalStart := by
          refine forall_mem_cons.mpr ⟨not_lt.mp hover, fun run hrun => ?_⟩
          have hbehind := (pairwise_cons.mp hsort).1 run hrun
          omega
        have hsortedAll := pairwise_cons.mpr ⟨hall, hsort⟩
        exact ⟨hsortedAll, (maximal_cons hproper hsortedAll).mpr
          ⟨fun htouch hequal => hmerged ⟨htouch, hequal⟩, hmaximal⟩⟩
      · rintro ⟨hsort, hmaximal⟩
        obtain ⟨hneighbour, hmaximalRest⟩ := (maximal_cons hproper hsort).mp hmaximal
        obtain ⟨hall, hsortedRest⟩ := pairwise_cons.mp hsort
        refine refuseIf_ok.mpr ⟨not_lt.mpr (hall second (mem_cons_self ..)), ?_⟩
        refine refuseIf_ok.mpr ⟨fun hmerged => hneighbour hmerged.1 hmerged.2, ?_⟩
        exact (ih hrest).mpr ⟨hsortedRest, hmaximalRest⟩

theorem layout_of_ok (hok : ∀ run ∈ records, run.Ok)
    (hsort : records.Pairwise fun a b => a.stop ≤ b.physicalStart) : Layout { run | run ∈ records } :=
  layout_of_pairwise (fun run hrun => (hok run hrun).start_lt_stop) hsort

def entry (run : SharedRun) : Bytes × Bytes := (keyU64 run.physicalStart, run.value)

structure Loaded (geo : Geometry) (tree : SortedMap Bytes Bytes) (records : List SharedRun) : Prop where
  entries : tree.entries = records.map entry
  decodes : ∀ run ∈ records, decodeRun geo (entry run).1 (entry run).2 = .ok run
  ok : ∀ run ∈ records, run.Ok
  sorted : records.Pairwise fun a b => a.stop ≤ b.physicalStart
  maximal : Maximal { run | run ∈ records }

variable {geo : Geometry}

theorem entries_of_decoded {entries : List (Bytes × Bytes)}
    (h : List.Forall₂ (fun a run => decodeRun geo a.1 a.2 = .ok run) entries records) :
    entries = records.map entry ∧ ∀ run ∈ records,
      decodeRun geo (entry run).1 (entry run).2 = .ok run ∧ run.Ok := by
  induction h with
  | nil => exact ⟨rfl, fun _ h => absurd h not_mem_nil⟩
  | cons hrun _ ih =>
    obtain ⟨hok, hkey, hvalue⟩ := decodeRun_eq_ok hrun
    rw [map_cons, ← ih.1, entry, ← hkey, ← hvalue]
    refine ⟨rfl, forall_mem_cons.mpr ⟨⟨?_, hok⟩, ih.2⟩⟩
    rwa [entry, ← hkey, ← hvalue]

variable {tree : SortedMap Bytes Bytes}

theorem loaded_of_loadAll (h : loadAll geo tree = .ok records) : Loaded geo tree records := by
  obtain ⟨runs, hdec, h⟩ := of_bind h
  obtain ⟨hcanon, h⟩ := check_ok.mp h
  rw [pure_ok.mp h]
  obtain ⟨hents, hall⟩ := entries_of_decoded (mapM_eq_ok.mp hdec)
  have hok : ∀ run ∈ runs, run.Ok := fun run hrun => (hall run hrun).2
  obtain ⟨hsort, hmaximal⟩ := (validateCanonical_eq_ok hok).mp hcanon
  exact ⟨hents, fun run hrun => (hall run hrun).1, hok, hsort, hmaximal⟩

theorem Loaded.layout (h : Loaded geo tree records) : Layout { run | run ∈ records } :=
  layout_of_ok h.ok h.sorted

theorem Loaded.mem_entries (h : Loaded geo tree records) {item : Bytes × Bytes} :
    item ∈ tree.entries ↔ ∃ run ∈ records, entry run = item := by
  rw [h.entries, mem_map]

/-! ### Cutting a query into segments -/

/-- The segments follow each other from `low` to `high`. -/
def Tiles : Nat → Nat → List SubRun → Prop
  | low, high, [] => low = high
  | low, high, segment :: rest =>
    segment.physicalStart = low ∧ 0 < segment.blockCount ∧ Tiles (low + segment.blockCount) high rest

variable {low high : Nat} {segments : List SubRun}

theorem Tiles.le (h : Tiles low high segments) : low ≤ high := by
  induction segments generalizing low with
  | nil => exact le_of_eq h
  | cons segment rest ih => exact (Nat.le_add_right ..).trans (ih h.2.2)

theorem Tiles.later (h : Tiles low high segments) :
    ∀ segment ∈ segments, low ≤ segment.physicalStart ∧ 0 < segment.blockCount := by
  induction segments generalizing low with
  | nil => exact fun segment hseg => absurd hseg not_mem_nil
  | cons first rest ih =>
    obtain ⟨hstart, hcnt, hrest⟩ := h
    refine forall_mem_cons.mpr ⟨⟨le_of_eq hstart.symm, hcnt⟩, fun segment hseg => ?_⟩
    obtain ⟨hlow, hpos⟩ := ih hrest segment hseg
    exact ⟨(Nat.le_add_right ..).trans hlow, hpos⟩

/-- A segment with a count lies in a record that has it; one without meets no record. -/
def SegmentOk (S : Set SharedRun) (segment : SubRun) : Prop :=
  match segment.referenceCount with
  | some count => ∃ run ∈ S, run.physicalStart ≤ segment.physicalStart ∧
      segment.physicalStart + segment.blockCount ≤ run.stop ∧ run.referenceCount = count
  | none => ∀ run ∈ S, run.stop ≤ segment.physicalStart ∨
      segment.physicalStart + segment.blockCount ≤ run.physicalStart

theorem segmentOk_gap {S : Set SharedRun} (hle : low ≤ high)
    (h : ∀ run ∈ S, run.stop ≤ low ∨ high ≤ run.physicalStart) : SegmentOk S ⟨low, high - low, none⟩ := by
  intro run hrun
  rw [Nat.add_sub_cancel' hle]
  exact h run hrun

theorem tiles_gap (hlt : low < high) : Tiles low high [⟨low, high - low, none⟩] :=
  ⟨rfl, Nat.sub_pos_of_lt hlt, Nat.add_sub_cancel' hlt.le⟩

theorem resolveFrom_spec {S : Set SharedRun} {stop cursor : Nat} (hsub : ∀ run ∈ records, run ∈ S ∧ run.Ok)
    (hsort : records.Pairwise fun a b => a.stop ≤ b.physicalStart) (hle : cursor ≤ stop)
    (hbehind : ∀ run ∈ records, cursor < run.stop)
    (hrest : cursor < stop → ∀ run ∈ S, run ∈ records ∨ run.stop ≤ cursor) :
    ∃ segments, resolveFrom stop cursor records = .ok segments ∧ Tiles cursor stop segments ∧
      ∀ segment ∈ segments, SegmentOk S segment := by
  induction records generalizing cursor with
  | nil =>
    by_cases hlt : cursor < stop
    · refine ⟨_, by rw [resolveFrom, if_pos hlt], tiles_gap hlt, ?_⟩
      rw [forall_mem_singleton]
      refine segmentOk_gap hle fun run hrun => .inl ?_
      exact (hrest hlt run hrun).resolve_left not_mem_nil
    · refine ⟨[], by rw [resolveFrom, if_neg hlt], le_antisymm hle (not_lt.mp hlt), ?_⟩
      exact fun segment hseg => absurd hseg not_mem_nil
  | cons run rest ih =>
    obtain ⟨hfirst, hsortedRest⟩ := pairwise_cons.mp hsort
    obtain ⟨⟨hmem, hok⟩, hsubRest⟩ := forall_mem_cons.mp hsub
    obtain ⟨hbehindRun, hbehindRest⟩ := forall_mem_cons.mp hbehind
    have hproper := hok.start_lt_stop
    rw [resolveFrom]
    by_cases hlt : cursor < stop
    swap
    · rw [if_pos hlt]
      refine ⟨[], rfl, le_antisymm hle (not_lt.mp hlt), ?_⟩
      exact fun segment hseg => absurd hseg not_mem_nil
    rw [if_neg (not_not.mpr hlt)]
    -- no record that is still to come starts before `run`
    have hlater : ∀ other ∈ S, run.physicalStart ≤ other.physicalStart ∨ other.stop ≤ cursor := by
      intro other hoth
      obtain hoth | hoth := hrest hlt other hoth
      · obtain rfl | hoth := mem_cons.mp hoth
        · exact .inl le_rfl
        · exact .inl (hproper.le.trans (hfirst other hoth))
      · exact .inr hoth
    by_cases hbeyond : run.physicalStart ≥ stop
    · rw [if_pos hbeyond]
      refine ⟨_, rfl, tiles_gap hlt, ?_⟩
      rw [forall_mem_singleton]
      refine segmentOk_gap hle fun other hoth => ?_
      exact (hlater other hoth).symm.imp_right hbeyond.trans
    rw [if_neg hbeyond, physicalEnd_of_lt hok.bounded]
    rw [ge_iff_le, not_le] at hbeyond
    obtain ⟨segments, hsegs, htiles, hall⟩ := @ih (min run.stop stop) hsubRest hsortedRest (min_le_right ..)
      (fun other hoth => lt_of_le_of_lt (min_le_left ..)
        (lt_of_le_of_lt (hfirst other hoth) (hsubRest other hoth).2.start_lt_stop))
      (by
        intro hinside other hoth
        obtain hoth | hoth := hrest hlt other hoth
        · obtain rfl | hoth := mem_cons.mp hoth
          · exact .inr (by omega)
          · exact .inl hoth
        · exact .inr (by omega))
    have hseg : SegmentOk S ⟨max cursor run.physicalStart,
        min run.stop stop - max cursor run.physicalStart, some run.referenceCount⟩ := by
      refine ⟨run, hmem, le_max_right .., ?_, rfl⟩
      dsimp only
      omega
    have htail : Tiles (max cursor run.physicalStart) stop
        (⟨max cursor run.physicalStart, min run.stop stop - max cursor run.physicalStart,
          some run.referenceCount⟩ :: segments) := by
      refine ⟨rfl, by dsimp only; omega, ?_⟩
      dsimp only
      rwa [show max cursor run.physicalStart + (min run.stop stop - max cursor run.physicalStart)
        = min run.stop stop by omega]
    refine ⟨(if run.physicalStart > cursor then [⟨cursor, run.physicalStart - cursor, none⟩] else []) ++
        _ :: segments,
      bind_ok.mpr ⟨_, rfl, bind_ok.mpr ⟨_, hsegs, rfl⟩⟩, ?_⟩
    by_cases hgap : run.physicalStart > cursor
    · rw [if_pos hgap]
      rw [max_eq_right hgap.le] at hseg htail ⊢
      refine ⟨⟨rfl, Nat.sub_pos_of_lt hgap, ?_⟩, ?_⟩
      · rwa [Nat.add_sub_cancel' hgap.le]
      · refine forall_mem_cons.mpr ⟨?_, forall_mem_cons.mpr ⟨hseg, hall⟩⟩
        exact segmentOk_gap hgap.le fun other hoth => (hlater other hoth).symm
    · rw [if_neg hgap]
      rw [max_eq_left (not_lt.mp hgap)] at hseg htail ⊢
      exact ⟨htail, forall_mem_cons.mpr ⟨hseg, hall⟩⟩

theorem resolveOverlaps_spec (hok : ∀ run ∈ records, run.Ok)
    (hsort : records.Pairwise fun a b => a.stop ≤ b.physicalStart) {start count : Nat}
    (hcnt : 0 < count) (hbound : start + count < 2 ^ 64) :
    ∃ segments, resolveOverlaps start count records = .ok segments ∧ Tiles start (start + count) segments ∧
      ∀ segment ∈ segments, SegmentOk { run | run ∈ records } segment := by
  set before : SharedRun → Bool := fun run => run.physicalStart + run.blockCount ≤ start
  have hsplit := takeWhile_append_dropWhile (p := before) (l := records)
  have hkept : ∀ run ∈ records.dropWhile before, run ∈ records := fun run hrun =>
    (dropWhile_sublist before).mem hrun
  have hsortedKept := hsort.sublist (dropWhile_sublist before)
  rw [resolveOverlaps, refuseIf_bind hcnt.ne', refuseIf_bind (not_le.mpr hbound)]
  refine resolveFrom_spec (fun run hrun => ⟨hkept run hrun, hok run (hkept run hrun)⟩) hsortedKept
    (Nat.le_add_right ..) ?_ ?_
  · cases hdrop : records.dropWhile before with
    | nil => exact fun run hrun => absurd hrun not_mem_nil
    | cons first rest =>
      have hfirst : start < first.stop := by
        have hhead := head?_dropWhile_not before records
        rw [hdrop] at hhead
        exact not_le.mp (of_decide_eq_false hhead)
      rw [hdrop] at hkept hsortedKept
      obtain ⟨hnext, -⟩ := pairwise_cons.mp hsortedKept
      refine forall_mem_cons.mpr ⟨hfirst, fun run hrun => ?_⟩
      have hproper := (hok run (hkept run (mem_cons_of_mem _ hrun))).start_lt_stop
      exact hfirst.trans_le ((hnext run hrun).trans hproper.le)
  · intro _ run hrun
    have hmem : run ∈ records.takeWhile before ++ records.dropWhile before := by rwa [hsplit]
    obtain hrun | hrun := mem_append.mp hmem
    · have hended : before run = true := mem_takeWhile_imp hrun
      exact .inr (of_decide_eq_true hended)
    · exact .inl hrun

end SharedExtents

/-! ### Maps of records -/

def Keyed (map : SortedMap Nat SharedRun) : Prop := ∀ entry ∈ map.entries, entry.1 = entry.2.physicalStart

def runsOf (map : SortedMap Nat SharedRun) : Set SharedRun := { run | run ∈ map.values }

section Maps

variable {map : SortedMap Nat SharedRun} {run : SharedRun}

theorem keyed_empty : Keyed .empty := fun _ h => absurd h not_mem_nil

variable (h : Keyed map)

include h

theorem mem_runsOf : run ∈ runsOf map ↔ (run.physicalStart, run) ∈ map.entries := by
  constructor
  · intro hrun
    obtain ⟨⟨key, value⟩, hmem, rfl⟩ := mem_map.mp hrun
    have hkey : key = value.physicalStart := h _ hmem
    exact hkey ▸ hmem
  · intro hmem
    exact mem_map.mpr ⟨_, hmem, rfl⟩

theorem pairwise_values : map.values.Pairwise fun a b => a.physicalStart < b.physicalStart := by
  refine pairwise_map.mpr (List.Pairwise.imp_of_mem ?_ map.sorted)
  intro a b ha hb hlt
  rwa [← h a ha, ← h b hb]

theorem Keyed.insert (run : SharedRun) : Keyed (map.insert run.physicalStart run) := by
  intro entry hentry
  obtain rfl | ⟨hentry, -⟩ := mem_insert.mp hentry
  · rfl
  · exact h entry hentry

theorem Keyed.erase (key : Nat) : Keyed (map.erase key) := fun entry hentry =>
  h entry (mem_erase.mp hentry).1

theorem runsOf_insert (hnew : ∀ other ∈ runsOf map, other.physicalStart = run.physicalStart → other = run) :
    runsOf (map.insert run.physicalStart run) = insert run (runsOf map) := by
  ext other
  rw [mem_runsOf (h.insert run), mem_insert, Set.mem_insert_iff, mem_runsOf h, Prod.mk.injEq]
  constructor
  · rintro (⟨-, heq⟩ | ⟨hmem, -⟩)
    · exact .inl heq
    · exact .inr hmem
  · rintro (rfl | hmem)
    · exact .inl ⟨rfl, rfl⟩
    · by_cases hstart : other.physicalStart = run.physicalStart
      · exact .inl ⟨hstart, hnew other ((mem_runsOf h).mpr hmem) hstart⟩
      · exact .inr ⟨hmem, hstart⟩

theorem runsOf_erase (key : Nat) : runsOf (map.erase key) = { other ∈ runsOf map | other.physicalStart ≠ key } := by
  ext other
  rw [mem_runsOf (h.erase key), mem_erase]
  exact and_congr_left' (mem_runsOf h).symm

theorem runsOf_erase_start (hlay : Layout (runsOf map)) (hrun : run ∈ runsOf map) :
    runsOf (map.erase run.physicalStart) = { other ∈ runsOf map | other ≠ run } := by
  rw [runsOf_erase h]
  ext other
  refine and_congr_right fun hoth => not_congr ⟨fun hstart => ?_, fun heq => by rw [heq]⟩
  exact hlay.eq_of_start hoth hrun hstart

theorem floor_of_covers (hlay : Layout (runsOf map)) (hrun : run ∈ runsOf map)
    {place : Nat} (hcov : Covers run place) : map.floor? place = some (run.physicalStart, run) := by
  have hmem := (mem_runsOf h).mp hrun
  cases hfloor : map.floor? place with
  | none => exact absurd (floor?_eq_none hfloor _ hmem) (not_lt.mpr hcov.1)
  | some found =>
    obtain ⟨hfound, hle, hgreatest⟩ := floor?_eq_some hfloor
    have hkey := h found hfound
    have hoth : found.2 ∈ runsOf map := mem_map.mpr ⟨found, hfound, rfl⟩
    have hstart := hgreatest _ hmem (not_lt.mpr hcov.1)
    have hinside : Covers run found.2.physicalStart := by
      rw [← hkey]
      exact ⟨not_lt.mp hstart, (not_lt.mp hle).trans_lt hcov.2⟩
    rw [hlay.eq_of_covers hrun hoth hinside (hlay.covers_start hoth), ← hkey]

theorem keyed_insert_if {p : Prop} [Decidable p] : Keyed (if p then map.insert run.physicalStart run else map) := by
  split
  · exact h.insert run
  · exact h

theorem runsOf_insert_if {p : Prop} [Decidable p]
    (hnew : ∀ other ∈ runsOf map, p → other.physicalStart ≠ run.physicalStart) :
    runsOf (if p then map.insert run.physicalStart run else map) = runsOf map ∪ { new | p ∧ new = run } := by
  by_cases hp : p
  · rw [if_pos hp, runsOf_insert h fun other hoth heq => absurd heq (hnew other hoth hp)]
    ext other
    simp [hp]
  · rw [if_neg hp]
    ext other
    simp [hp]

/-- What is left of `run` in front of and behind `[low, high)`, and what comes into its place. -/
def pieces (run : SharedRun) (low high : Nat) (newCount : Option Nat) : Set SharedRun :=
  { new | run.physicalStart < low ∧
      new = { run with physicalStart := run.physicalStart, blockCount := low - run.physicalStart } } ∪
    { new | ∃ count ∈ newCount, new = ⟨low, high - low, count, 0⟩ } ∪
    { new | high < run.stop ∧ new = { run with physicalStart := high, blockCount := run.stop - high } }

theorem rewriteSegment_eq_ok (hlay : Layout (runsOf map)) (hrun : run ∈ runsOf map)
    (hbound : run.stop < 2 ^ 64) {low high : Nat} (hlow : run.physicalStart ≤ low) (hlt : low < high)
    (hhigh : high ≤ run.stop) (newCount : Option Nat) :
    ∃ map', RefEdit.rewriteSegment low high newCount map = .ok map' ∧ Keyed map' ∧
      runsOf map' = exchange (runsOf map) run (pieces run low high newCount) := by
  have hfloor := @floor_of_covers map run h hlay hrun low ⟨hlow, lt_of_lt_of_le hlt hhigh⟩
  set base := map.erase run.physicalStart
  have hbaseKeyed : Keyed base := h.erase _
  have hbase : runsOf base = { other ∈ runsOf map | other ≠ run } := runsOf_erase_start h hlay hrun
  have hfar : ∀ other ∈ runsOf base, other.physicalStart < run.physicalStart ∨ run.stop ≤ other.physicalStart := by
    intro other hoth
    rw [hbase] at hoth
    have hproper : other.physicalStart < other.stop := hlay.proper other hoth.1
    obtain hbefore | hbehind := hlay.apart other hoth.1 run hrun hoth.2
    · exact .inl (lt_of_lt_of_le hproper hbefore)
    · exact .inr hbehind
  set left : SharedRun := { run with physicalStart := run.physicalStart, blockCount := low - run.physicalStart }
  set right : SharedRun := { run with physicalStart := high, blockCount := run.stop - high }
  set withLeft := if run.physicalStart < low then base.insert left.physicalStart left else base
  have hleftKeyed : Keyed withLeft := keyed_insert_if hbaseKeyed
  have hleft : runsOf withLeft = runsOf base ∪ { new | run.physicalStart < low ∧ new = left } := by
    refine runsOf_insert_if hbaseKeyed fun other hoth _ => ?_
    have hne : other.physicalStart ≠ run.physicalStart := by
      obtain hbefore | hbehind := hfar other hoth
      · omega
      · omega
    exact hne
  have hleftStarts : ∀ other ∈ runsOf withLeft, other.physicalStart < low ∨ run.stop ≤ other.physicalStart := by
    rw [hleft]
    rintro other (hoth | ⟨hless, rfl⟩)
    · exact (hfar other hoth).imp_left fun hbefore => lt_of_lt_of_le hbefore hlow
    · exact .inl hless
  obtain ⟨withNew, hwithNew, hnewKeyed, hnew⟩ : ∃ withNew, (match newCount with
        | some count => withLeft.insert low ⟨low, high - low, count, 0⟩
        | none => withLeft) = withNew ∧ Keyed withNew ∧
      runsOf withNew = runsOf withLeft ∪ { new | ∃ count ∈ newCount, new = ⟨low, high - low, count, 0⟩ } := by
    cases newCount with
    | none => exact ⟨_, rfl, hleftKeyed, by simp⟩
    | some count =>
      refine ⟨_, rfl, hleftKeyed.insert ⟨low, high - low, count, 0⟩, ?_⟩
      rw [@runsOf_insert withLeft ⟨low, high - low, count, 0⟩ hleftKeyed]
      · ext other
        simp
      · intro other hoth hstart
        have hstart : other.physicalStart = low := hstart
        obtain hbefore | hbehind := hleftStarts other hoth
        · omega
        · omega
  have hnewStarts : ∀ other ∈ runsOf withNew, high < run.stop → other.physicalStart ≠ high := by
    rw [hnew]
    rintro other (hoth | ⟨count, -, rfl⟩) hless
    · obtain hbefore | hbehind := hleftStarts other hoth
      · omega
      · omega
    · exact hlt.ne
  refine ⟨if high < run.stop then withNew.insert right.physicalStart right else withNew, ?_,
    keyed_insert_if hnewKeyed, ?_⟩
  · rw [RefEdit.rewriteSegment, hfloor]
    refine bind_ok.mpr ⟨run.stop, physicalEnd_of_lt hbound, ?_⟩
    rw [refuseIf_bind (by omega), ← hwithNew]
    rfl
  · rw [runsOf_insert_if hnewKeyed hnewStarts, hnew, hleft, hbase, exchange, pieces, Set.union_assoc,
      Set.union_assoc, Set.union_assoc]

omit h

section Pieces

variable {low high : Nat} {newCount : Option Nat} {piece : SharedRun}

variable (hlow : run.physicalStart ≤ low) (hlt : low < high) (hhigh : high ≤ run.stop)

include hlow hlt hhigh

theorem pieces_covers (hpiece : piece ∈ pieces run low high newCount) {n : Nat} (hn : Covers piece n) :
    (low ≤ n ∧ n < high ∧ newCount = some piece.referenceCount) ∨
      ((n < low ∨ high ≤ n) ∧ Covers run n ∧ piece.referenceCount = run.referenceCount) := by
  obtain ⟨hstart, hstop⟩ : piece.physicalStart ≤ n ∧ n < piece.physicalStart + piece.blockCount := hn
  have hend : run.stop = run.physicalStart + run.blockCount := rfl
  obtain (⟨hless, rfl⟩ | ⟨count, hcnt, rfl⟩) | ⟨hless, rfl⟩ := hpiece
  · dsimp only at hstart hstop
    exact .inr ⟨.inl (by omega), ⟨hstart, by show n < run.stop; omega⟩, rfl⟩
  · dsimp only at hstart hstop
    exact .inl ⟨hstart, by omega, hcnt⟩
  · dsimp only at hstart hstop
    exact .inr ⟨.inr hstart, ⟨by show run.physicalStart ≤ n; omega, by show n < run.stop; omega⟩, rfl⟩

omit hlt in
theorem exists_piece {n : Nat}
    (hn : Covers run n) (hout : n < low ∨ high ≤ n) : ∃ piece ∈ pieces run low high newCount, Covers piece n := by
  obtain ⟨hstart, hstop⟩ : run.physicalStart ≤ n ∧ n < run.stop := hn
  obtain hout | hout := hout
  · refine ⟨_, .inl (.inl ⟨by omega, rfl⟩), hstart, ?_⟩
    show n < run.physicalStart + (low - run.physicalStart)
    omega
  · refine ⟨_, .inr ⟨by omega, rfl⟩, hout, ?_⟩
    show n < high + (run.stop - high)
    omega

theorem pieces_within (hpiece : piece ∈ pieces run low high newCount) :
    run.physicalStart ≤ piece.physicalStart ∧ piece.stop ≤ run.stop := by
  obtain (⟨hless, rfl⟩ | ⟨count, hcnt, rfl⟩) | ⟨hless, rfl⟩ := hpiece
  · exact ⟨le_rfl, by dsimp only [stop] at *; omega⟩
  · exact ⟨hlow, by dsimp only [stop] at *; omega⟩
  · exact ⟨by dsimp only; omega, by dsimp only [stop] at *; omega⟩

variable (hok : run.Ok) (hnew : ∀ count ∈ newCount, minReferenceCount ≤ count ∧ count < 2 ^ 32)

include hok hnew

theorem pieces_ok (hpiece : piece ∈ pieces run low high newCount) : piece.Ok := by
  have hbounded := lt_of_le_of_lt (pieces_within hlow hlt hhigh hpiece).2 hok.bounded
  obtain (⟨hless, rfl⟩ | ⟨count, hcnt, rfl⟩) | ⟨hless, rfl⟩ := hpiece
  · exact ⟨Nat.sub_pos_of_lt hless, hbounded, hok.shared, hok.width, hok.flags⟩
  · exact ⟨Nat.sub_pos_of_lt hlt, hbounded, (hnew count hcnt).1, (hnew count hcnt).2, rfl⟩
  · exact ⟨Nat.sub_pos_of_lt hless, hbounded, hok.shared, hok.width, hok.flags⟩

theorem pieces_layout : Layout (pieces run low high newCount) := by
  refine ⟨fun piece hpiece => (pieces_ok hlow hlt hhigh hok hnew hpiece).start_lt_stop, ?_⟩
  rintro a ((⟨ha, rfl⟩ | ⟨count, hcnt, rfl⟩) | ⟨ha, rfl⟩) b ((⟨hb, rfl⟩ | ⟨count', hcount', rfl⟩) | ⟨hb, rfl⟩) hne
  · exact absurd rfl hne
  · exact .inl (by show run.physicalStart + (low - run.physicalStart) ≤ low; omega)
  · exact .inl (by show run.physicalStart + (low - run.physicalStart) ≤ high; omega)
  · exact .inr (by show run.physicalStart + (low - run.physicalStart) ≤ low; omega)
  · rw [Option.mem_unique hcnt hcount'] at hne
    exact absurd rfl hne
  · exact .inl (by show low + (high - low) ≤ high; omega)
  · exact .inr (by show run.physicalStart + (low - run.physicalStart) ≤ high; omega)
  · exact .inr (by show low + (high - low) ≤ high; omega)
  · exact absurd rfl hne

end Pieces

end Maps

end Afsplus
