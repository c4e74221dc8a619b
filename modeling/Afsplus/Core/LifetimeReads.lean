import Afsplus.Core.LifetimeOverlay
import Afsplus.Core.PoolBounds
import Afsplus.Core.SharedPublication

/-!
# The committed ledger and what an edit reads of it

Which ranges the ledger may speak of, what a canonical ledger is, and that reading around an interval
finds every record that overlaps or touches it.
-/

namespace Afsplus

open Wire Fallible Runs AllocationRoot
open List hiding max set insert

namespace Geometry

variable {geo : Geometry}

theorem isAllocatable_iff {lba : Nat} : geo.isAllocatable lba = true ↔ lba < geo.totalBlocks ∧
    geo.regionReservedBlocks (geo.regionOf lba) + regionHead (geo.regionOf lba)
      ≤ lba - geo.regionBase (geo.regionOf lba) := by
  simp [isAllocatable]

theorem isAllocatable_between {low high block : Nat} (hlow : geo.isAllocatable low = true)
    (hhigh : geo.isAllocatable high = true) (hreg : geo.regionOf low = geo.regionOf high)
    (hle : low ≤ block) (hle' : block ≤ high) : geo.isAllocatable block = true := by
  have hsame : geo.regionOf block = geo.regionOf low :=
    le_antisymm (hreg ▸ Nat.div_le_div_right hle') (Nat.div_le_div_right hle)
  rw [isAllocatable_iff] at hlow hhigh ⊢
  rw [hsame]
  omega

theorem regionOf_eq_of_allocatable (hval : geo.Valid) {low high : Nat} (hle : low ≤ high)
    (hall : ∀ block, low ≤ block → block ≤ high → geo.isAllocatable block = true) :
    geo.regionOf low = geo.regionOf high := by
  by_contra hne
  have hlt : geo.regionOf low < geo.regionOf high := lt_of_le_of_ne (Nat.div_le_div_right hle) hne
  have hsize := hval.minRegion
  -- the first block of the later region is between them
  have hbase : geo.regionBase (geo.regionOf high) ≤ high := Nat.div_mul_le_self _ _
  have hbefore : low ≤ geo.regionBase (geo.regionOf high) := by
    have hnext : low < (geo.regionOf low + 1) * geo.regionSize := Nat.lt_mul_of_div_lt (Nat.lt_succ_self _) (by omega)
    have hmul : (geo.regionOf low + 1) * geo.regionSize ≤ geo.regionOf high * geo.regionSize :=
      Nat.mul_le_mul_right _ hlt
    exact hnext.le.trans hmul
  have hfirst := (isAllocatable_iff.mp (hall _ hbefore hbase)).2
  have hreg : geo.regionOf (geo.regionBase (geo.regionOf high)) = geo.regionOf high :=
    @regionOf_add geo 0 _ (by omega)
  rw [hreg, Nat.sub_self, regionReservedBlocks, descriptorSlots] at hfirst
  omega

end Geometry

open Geometry

namespace Snapshot

variable {geo : Geometry} {generation : Nat}

/-- A block of the namespace: not reserved, and not in the pool of the allocation root. -/
def InNamespace (geo : Geometry) (block : Nat) : Prop :=
  geo.isAllocatable block = true ∧
    ∀ pool, reservedPoolBounds geo = .ok pool → block < pool.1 ∨ pool.2 ≤ block

theorem namespaceRange_eq_ok (hval : geo.Valid) {start blocks : Nat} {u : Unit} :
    namespaceRange geo start blocks = .ok u ↔
      0 < blocks ∧ (∃ pool, reservedPoolBounds geo = .ok pool) ∧
        ∀ block, InRange (start, blocks) block → InNamespace geo block := by
  have htotal := totalBlocks_lt hval
  rw [namespaceRange, refuseIf_ok, refuseIf_ok, bind_ok]
  constructor
  · rintro ⟨-, hgeom, pool, hpool, hclear⟩
    simp only [not_or, not_not, ne_eq] at hgeom
    obtain ⟨hblks, hfirst, hlast, hreg⟩ := hgeom
    have hclear := refuseIf_eq_ok.mp hclear
    refine ⟨Nat.pos_of_ne_zero hblks, ⟨pool, hpool⟩, fun block ⟨hlow, hhigh⟩ => ⟨?_, ?_⟩⟩
    · exact isAllocatable_between hfirst hlast hreg hlow (by dsimp only at hhigh; omega)
    · intro other hoth
      obtain rfl := Except.ok.inj (hoth.symm.trans hpool)
      by_contra hin
      rw [not_or, not_lt, not_le] at hin
      dsimp only at hlow hhigh
      exact hclear ⟨lt_of_le_of_lt hlow hin.2, lt_of_le_of_lt hin.1 hhigh⟩
  · rintro ⟨hblks, ⟨pool, hpool⟩, hall⟩
    have hlast := hall (start + blocks - 1) ⟨by dsimp only; omega, by dsimp only; omega⟩
    have hbound := (isAllocatable_iff.mp hlast.1).1
    refine ⟨by omega, ?_, pool, hpool, refuseIf_eq_ok.mpr ?_⟩
    · simp only [not_or, not_not, ne_eq]
      refine ⟨by omega, (hall start ⟨le_rfl, by dsimp only; omega⟩).1, hlast.1, ?_⟩
      refine regionOf_eq_of_allocatable hval (by omega) fun block hlow hhigh => ?_
      exact (hall block ⟨hlow, by dsimp only; omega⟩).1
    · rintro ⟨hbefore, hbehind⟩
      have hpositive := pool_nonempty hpool
      have hmeet := (hall (max start pool.1) ⟨le_max_left .., by
        dsimp only
        exact max_lt (by omega) hbehind⟩).2 pool hpool
      obtain hlt | hle := hmeet
      · exact absurd (le_max_right start pool.1) (not_le.mpr hlt)
      · exact absurd (max_lt hbefore hpositive) (not_lt.mpr hle)

def entry (run : LifetimeRun) : Bytes × Bytes := (keyU64 run.1, run.2.value)

structure RecordOk (geo : Geometry) (generation : Nat) (run : LifetimeRun) : Prop where
  inRange : run.2.InRange run.1 generation geo.totalBlocks
  inNamespace : ∀ block, Covers run block → InNamespace geo block

variable {run : LifetimeRun}

theorem RecordOk.start_lt (h : RecordOk geo generation run) (hval : geo.Valid) : run.1 < 2 ^ 64 := by
  have hstop := h.inRange.stop
  have htotal := totalBlocks_lt hval
  omega

theorem RecordOk.mono (h : RecordOk geo generation run) {later : Nat} (hle : generation ≤ later) :
    RecordOk geo later run := by
  obtain ⟨⟨hpositive, hblks, hstop, hbirth, hborn, hretirement⟩, hnamespace⟩ := h
  refine ⟨⟨hpositive, hblks, hstop, hbirth, hborn.trans hle, fun hretired => ?_⟩, hnamespace⟩
  exact ⟨(hretirement hretired).1, (hretirement hretired).2.trans hle⟩

theorem decodeKey_keyU64 {n : Nat} (h : n < 2 ^ 64) : decodeKey (keyU64 n) = .ok n := by
  have hlen : (keyU64 n).length = 8 := by
    rw [keyU64, length_reverse, length_leBytes]
  rw [decodeKey, refuseIf_bind (not_not.mpr hlen), keyU64, reverse_reverse, leNat_leBytes h]
  rfl

theorem lifetime_entry (hval : geo.Valid) (hgen : generation < 2 ^ 64)
    (hpool : ∃ pool, reservedPoolBounds geo = .ok pool)
    (h : RecordOk geo generation run) : lifetime geo generation (entry run) = .ok run := by
  have htotal := totalBlocks_lt hval
  have hkey : (decodeKey (entry run).1).mapError CoreError.format = .ok run.1 :=
    mapError_eq_ok.mpr (decodeKey_keyU64 (h.start_lt hval))
  have hrec : (LifetimeRecord.decode (entry run).2 run.1 generation geo.totalBlocks).mapError
      CoreError.format = .ok run.2 :=
    mapError_eq_ok.mpr (LifetimeRecord.decode_value h.inRange htotal hgen)
  have hrng : namespaceRange geo run.1 run.2.blocks = .ok () :=
    (namespaceRange_eq_ok hval).mpr ⟨h.inRange.nonempty, hpool, h.inNamespace⟩
  refine bind_ok.mpr ⟨_, hkey, bind_ok.mpr ⟨_, hrec, ?_⟩⟩
  rw [check_bind hrng]
  rfl

def retainedBlocks (geo : Geometry) (assigned : Nat → Option Lifetime) : Finset Nat :=
  (Finset.range geo.totalBlocks).filter fun block => ∃ lifetime ∈ assigned block, lifetime.retirement ≠ none

/-- The tree holds the canonical records of `assigned` and a control record with the right count. -/
structure Ledger (geo : Geometry) (generation : Nat) (tree : SortedMap Bytes Bytes) (state : LedgerState)
    (runs : List LifetimeRun) (assigned : Nat → Option Lifetime) : Prop where
  valid : geo.Valid
  pool : ∃ pool, reservedPoolBounds geo = .ok pool
  entries : tree.entries = (keyU64 0, state.value) :: runs.map entry
  control : state.encode geo.totalBlocks = .ok state.value
  records : ∀ run ∈ runs, RecordOk geo generation run
  sorted : runs.Pairwise fun a b => a.1 + a.2.blocks ≤ b.1
  canonical : Canonical { run | run ∈ runs } assigned none
  retained : state.retainedBlocks = (retainedBlocks geo assigned).card

/-! ### Reading around an interval -/

section Reading

variable {overlay overlay' : Overlay} {page : List LifetimeRun} {stop cursor : Nat}

theorem remember_eq_ok (h : overlay.remember run = .ok overlay') :
    runsIn overlay'.original = insert run (runsIn overlay.original) := by
  unfold Overlay.remember at h
  cases hget : overlay.original.get? run.1 with
  | some previous =>
    rw [hget] at h
    obtain ⟨hsame, h⟩ := of_refuse h
    rw [pure_ok.mp h, Set.insert_eq_of_mem]
    have hmem := SortedMap.get?_eq_some.mp hget
    rwa [not_not.mp hsame] at hmem
  | none =>
    rw [hget] at h
    replace h := after_check h
    rw [pure_ok.mp h]
    refine runsIn_insert fun other hoth hstart => ?_
    have hsome : overlay.original.get? run.1 = some other.2 := SortedMap.get?_eq_some.mpr (hstart ▸ hoth)
    rw [hget] at hsome
    cases hsome

/-- Nothing read is forgotten, and what is new is one of the runs. -/
def Reads (runs : List LifetimeRun) (overlay overlay' : Overlay) : Prop :=
  runsIn overlay.original ⊆ runsIn overlay'.original ∧
    runsIn overlay'.original ⊆ runsIn overlay.original ∪ { run | run ∈ runs }

theorem Reads.refl (runs : List LifetimeRun) (overlay : Overlay) : Reads runs overlay overlay :=
  ⟨subset_rfl, Set.subset_union_left⟩

theorem Reads.mono {runs : List LifetimeRun} (h : Reads page overlay overlay') (hsub : ∀ run ∈ page, run ∈ runs) :
    Reads runs overlay overlay' :=
  ⟨h.1, fun run hrun => (h.2 hrun).imp_right (hsub run)⟩

theorem Reads.trans {middle : Overlay} (h : Reads page overlay middle) (h' : Reads page middle overlay') :
    Reads page overlay overlay' := by
  refine ⟨h.1.trans h'.1, fun run hrun => ?_⟩
  obtain hrun | hrun := h'.2 hrun
  · exact h.2 hrun
  · exact .inr hrun

theorem rememberPage_eq_ok {next : Option Nat} (hreads : ∀ run ∈ page, lifetime geo generation (entry run) = .ok run)
    (hsort : page.Pairwise fun a b => a.1 < b.1)
    (h : rememberPage geo generation stop (page.map entry) cursor overlay = .ok (overlay', next)) :
    Reads page overlay overlay' ∧ (∀ run ∈ page, run.1 ≤ stop → run ∈ runsIn overlay'.original) ∧ (next = none → ∃ run ∈ page, stop ≤ run.1) ∧
      (∀ cursor', next = some cursor' → page ≠ [] → ∃ last ∈ page, cursor' = last.1 + 1) := by
  induction page generalizing cursor overlay with
  | nil =>
    obtain ⟨rfl, rfl⟩ := Prod.mk.inj (Except.ok.inj h)
    refine ⟨.refl .., fun _ h => absurd h not_mem_nil, ?_, ?_⟩
    · exact fun hnone => absurd hnone (Option.some_ne_none _)
    · exact fun _ _ hnil => absurd rfl hnil
  | cons run rest ih =>
    obtain ⟨hrun, hrest⟩ := forall_mem_cons.mp hreads
    obtain ⟨hfirst, hsortedRest⟩ := pairwise_cons.mp hsort
    rw [map_cons, rememberPage] at h
    obtain ⟨read, hread, h⟩ := of_bind h
    obtain rfl := Except.ok.inj (hrun.symm.trans hread)
    obtain ⟨middle, hmiddle, h⟩ := of_bind h
    have hinsert := remember_eq_ok hmiddle
    split at h
    case isTrue hbehind =>
      obtain ⟨rfl, rfl⟩ := pure_pair_eq_ok.mp h
      rw [Reads, hinsert]
      refine ⟨⟨Set.subset_insert .., ?_⟩, ?_, fun _ => ⟨run, mem_cons_self .., hbehind⟩, ?_⟩
      · rintro other (rfl | hoth)
        · exact .inr (mem_cons_self ..)
        · exact .inl hoth
      · refine forall_mem_cons.mpr ⟨fun _ => .inl rfl, fun other hoth hle => ?_⟩
        have := hfirst other hoth
        omega
      · exact fun _ hsome => absurd hsome.symm (Option.some_ne_none _)
    case isFalse hbefore =>
      obtain ⟨⟨hsub, hsup⟩, hall, hnone, hsome⟩ := ih hrest hsortedRest h
      rw [hinsert] at hsub hsup
      refine ⟨⟨(Set.subset_insert ..).trans hsub, ?_⟩, ?_, ?_, ?_⟩
      · intro other hoth
        obtain (rfl | hoth) | hoth := hsup hoth
        · exact .inr (mem_cons_self ..)
        · exact .inl hoth
        · exact .inr (mem_cons_of_mem _ hoth)
      · exact forall_mem_cons.mpr ⟨fun _ => hsub (.inl rfl), hall⟩
      · intro hnext
        obtain ⟨other, hoth, hle⟩ := hnone hnext
        exact ⟨other, mem_cons_of_mem _ hoth, hle⟩
      · intro cursor' hnext _
        cases rest with
        | nil =>
          obtain ⟨-, hcur⟩ := Prod.mk.inj (Except.ok.inj h)
          exact ⟨run, mem_cons_self .., Option.some.inj (hnext.symm.trans hcur.symm)⟩
        | cons second rest =>
          obtain ⟨last, hlast, heq⟩ := hsome cursor' hnext (cons_ne_nil _ _)
          exact ⟨last, mem_cons_of_mem _ hlast, heq⟩

variable {tree : SortedMap Bytes Bytes} {state : LedgerState} {runs : List LifetimeRun}
  {assigned : Nat → Option Lifetime} (hledger : Ledger geo generation tree state runs assigned)
include hledger

theorem Ledger.sorted_starts : runs.Pairwise fun a b => a.1 < b.1 := by
  refine hledger.sorted.imp_of_mem fun {a b} ha _ hle => ?_
  have := (hledger.records a ha).inRange.nonempty
  omega

theorem Ledger.readKeyPage_eq (hpositive : 0 < cursor) (hlt : cursor < 2 ^ 64) (limit : Nat) :
    readKeyPage tree (keyU64 cursor) limit = ((runs.filter fun run => cursor ≤ run.1).take limit).map entry := by
  have hcontrol : keyU64 0 < keyU64 cursor := (keyU64_lt (by omega) hlt).mpr hpositive
  rw [readKeyPage, hledger.entries, filter_cons_of_neg (by simpa using hcontrol),
    filter_map, map_take]
  congr 2
  refine filter_congr fun run hrun => ?_
  have hkey := keyU64_lt ((hledger.records run hrun).start_lt hledger.valid) hlt
  show decide (¬keyU64 run.1 < keyU64 cursor) = decide (cursor ≤ run.1)
  rw [decide_eq_decide, hkey, not_lt]

variable (hgen : generation < 2 ^ 64)

include hgen

/-- Everything from the cursor up to `stop` is found, however the pages fall. -/
theorem Ledger.rememberPages_eq_ok {fuel : Nat}
    (hpositive : 0 < cursor) (hlt : cursor < 2 ^ 64) (hfuel : (runs.filter fun run => cursor ≤ run.1).length < fuel)
    (h : rememberPages geo generation tree stop fuel cursor overlay = .ok overlay') :
    Reads runs overlay overlay' ∧
      ∀ run ∈ runs, cursor ≤ run.1 → run.1 ≤ stop → run ∈ runsIn overlay'.original := by
  induction fuel generalizing cursor overlay with
  | zero => exact absurd hfuel (Nat.not_lt_zero _)
  | succ fuel ih =>
    set ahead := runs.filter fun run => cursor ≤ run.1 with hahead
    have hmem : ∀ run, run ∈ ahead ↔ run ∈ runs ∧ cursor ≤ run.1 := by simp [hahead]
    rw [rememberPages, hledger.readKeyPage_eq hpositive hlt] at h
    rw [← hahead] at h
    by_cases hempty : ahead = []
    · rw [hempty] at h
      obtain rfl := pure_ok.mp h
      refine ⟨.refl .., fun run hrun hle _ => ?_⟩
      have : run ∈ ahead := (hmem run).mpr ⟨hrun, hle⟩
      rw [hempty] at this
      exact absurd this not_mem_nil
    have hpage : ahead.take readPage ≠ [] := by
      simpa [readPage] using hempty
    rw [if_neg (by simpa using hpage)] at h
    obtain ⟨⟨middle, next⟩, hmiddle, h⟩ := of_bind h
    have hsort : ahead.Pairwise fun a b => a.1 < b.1 := hledger.sorted_starts.filter _
    have hreads : ∀ run ∈ ahead.take readPage, lifetime geo generation (entry run) = .ok run := by
      intro run hrun
      have hrun := ((hmem run).mp (mem_of_mem_take hrun)).1
      exact lifetime_entry hledger.valid hgen hledger.pool (hledger.records run hrun)
    obtain ⟨hread, hall, hnone, hsome⟩ := rememberPage_eq_ok hreads (hsort.sublist (take_sublist ..)) hmiddle
    replace hread := hread.mono fun run hrun => ((hmem run).mp (mem_of_mem_take hrun)).1
    -- a record ahead of the cursor that is not in the page is behind all of the page
    have hrest : ∀ run ∈ ahead, run ∉ ahead.take readPage → ∀ other ∈ ahead.take readPage, other.1 < run.1 := by
      intro run hrun hout other hoth
      rw [← take_append_drop readPage ahead] at hrun hsort
      have hdrop := (mem_append.mp hrun).resolve_left hout
      exact (pairwise_append.mp hsort).2.2 other hoth run hdrop
    cases next with
    | none =>
      obtain rfl := pure_ok.mp h
      refine ⟨hread, fun run hrun hle hstop => ?_⟩
      by_cases hin : run ∈ ahead.take readPage
      · exact hall run hin hstop
      · obtain ⟨other, hoth, hbehind⟩ := hnone rfl
        have := hrest run ((hmem run).mpr ⟨hrun, hle⟩) hin other hoth
        omega
    | some cursor' =>
      obtain ⟨last, hlast, rfl⟩ := hsome cursor' rfl hpage
      have hlastMem := (hmem last).mp (mem_of_mem_take hlast)
      have hlastOk := hledger.records last hlastMem.1
      have hshorter : (runs.filter fun run => last.1 + 1 ≤ run.1).length < fuel := by
        have hfilter : runs.filter (fun run => last.1 + 1 ≤ run.1)
            = ahead.filter fun run => last.1 + 1 ≤ run.1 := by
          rw [hahead, filter_filter]
          refine filter_congr fun run _ => ?_
          rw [← Bool.decide_and, decide_eq_decide]
          exact (and_iff_left_of_imp fun hle => by omega).symm
        have hlt : (ahead.filter fun run => last.1 + 1 ≤ run.1).length < ahead.length :=
          length_filter_lt_length_iff_exists.mpr ⟨last, mem_of_mem_take hlast, by simp⟩
        rw [hfilter]
        omega
      have hbound : last.1 + 1 < 2 ^ 64 := by
        have := hlastOk.inRange.stop
        have := hlastOk.inRange.nonempty
        have := totalBlocks_lt hledger.valid
        omega
      obtain ⟨hmore, hall'⟩ := ih (Nat.succ_pos _) hbound hshorter h
      refine ⟨hread.trans hmore, fun run hrun hle hstop => ?_⟩
      by_cases hin : run ∈ ahead.take readPage
      · exact hmore.1 (hall run hin hstop)
      · exact hall' run hrun (hrest run ((hmem run).mpr ⟨hrun, hle⟩) hin last hlast) hstop

/-- Of the records that begin before the interval only the last one can reach it. -/
theorem Ledger.rememberBefore_eq_ok {start : Nat} (hpositive : 0 < start) (hlt : start < 2 ^ 64)
    (h : rememberBefore geo generation tree start overlay = .ok overlay') :
    Reads runs overlay overlay' ∧
      ∀ run ∈ runs, run.1 < start → start ≤ run.1 + run.2.blocks → run ∈ runsIn overlay'.original := by
  have hmem : ∀ run ∈ runs, entry run ∈ tree.entries := fun run hrun => by
    rw [hledger.entries]
    exact mem_cons_of_mem _ (mem_map_of_mem hrun)
  have hkey : ∀ run ∈ runs, ∀ n, n < 2 ^ 64 → (keyU64 n < (entry run).1 ↔ n < run.1) :=
    fun run hrun n hn => keyU64_lt hn ((hledger.records run hrun).start_lt hledger.valid)
  unfold rememberBefore at h
  cases hfloor : tree.floor? (keyU64 (start - 1)) with
  | none =>
    rw [hfloor] at h
    obtain rfl := Except.ok.inj h
    refine ⟨.refl .., fun run hrun hbefore _ => ?_⟩
    have := (hkey run hrun (start - 1) (by omega)).mp (SortedMap.floor?_eq_none hfloor _ (hmem run hrun))
    omega
  | some found =>
    obtain ⟨hfound, hbelow, hgreatest⟩ := SortedMap.floor?_eq_some hfloor
    rw [hfloor] at h
    dsimp only at h
    rw [hledger.entries] at hfound
    obtain rfl | hfound := mem_cons.mp hfound
    · rw [if_neg (by simp)] at h
      obtain rfl := Except.ok.inj h
      refine ⟨.refl .., fun run hrun hbefore _ => ?_⟩
      have hnone := hgreatest _ (hmem run hrun) (by rw [hkey run hrun _ (by omega)]; omega)
      rw [hkey run hrun 0 (by omega)] at hnone
      have := (hledger.records run hrun).inRange.positive
      omega
    · obtain ⟨last, hlast, rfl⟩ := mem_map.mp hfound
      have hok := hledger.records last hlast
      have hlastLt := hok.start_lt hledger.valid
      have hne : (entry last).1 ≠ keyU64 0 := by
        intro heq
        have := (keyU64_inj hlastLt (by omega)).mp heq
        have := hok.inRange.positive
        omega
      rw [if_pos hne, lifetime_entry hledger.valid hgen hledger.pool hok] at h
      have hinsert := remember_eq_ok h
      rw [Reads, hinsert]
      refine ⟨⟨Set.subset_insert .., ?_⟩, fun run hrun hbefore hreaches => ?_⟩
      · rintro other (rfl | hoth)
        · exact .inr hlast
        · exact .inl hoth
      · refine .inl ?_
        by_contra hoth
        have hle := hgreatest _ (hmem run hrun) (by rw [hkey run hrun _ (by omega)]; omega)
        rw [show (entry last).1 = keyU64 last.1 from rfl, hkey run hrun _ hlastLt] at hle
        have hbelow : ¬start - 1 < last.1 := by
          rwa [hkey last hlast _ (by omega)] at hbelow
        obtain hlt | heq := (not_lt.mp hle).lt_or_eq
        · have hends : run.1 + run.2.blocks ≤ last.1 := hledger.canonical.layout.stop_le_start hrun hlast hlt
          omega
        · exact hoth (hledger.canonical.layout.eq_of_start hrun hlast heq)

/-- Every record that overlaps or touches the interval is read. -/
theorem Ledger.rememberInterval_eq_ok {interval : Nat × Nat} (hpositive : 0 < interval.1) (hlt : interval.1 < 2 ^ 64)
    (h : rememberInterval geo generation tree interval overlay = .ok overlay') :
    Reads runs overlay overlay' ∧
      ∀ run ∈ runs, run.1 ≤ interval.2 → interval.1 ≤ run.1 + run.2.blocks → run ∈ runsIn overlay'.original := by
  obtain ⟨middle, hmiddle, h⟩ := of_bind h
  have hlen : (runs.filter fun run => interval.1 ≤ run.1).length < tree.entries.length + 1 := by
    rw [hledger.entries, length_cons, length_map]
    have := length_filter_le (fun run => decide (interval.1 ≤ run.1)) runs
    omega
  obtain ⟨hpages, hall⟩ := hledger.rememberPages_eq_ok hgen hpositive hlt hlen h
  obtain ⟨hfloor, hreaches⟩ := hledger.rememberBefore_eq_ok hgen hpositive hlt hmiddle
  refine ⟨hfloor.trans hpages, fun run hrun hlow hhigh => ?_⟩
  by_cases hin : interval.1 ≤ run.1
  · exact hall run hrun hin hlow
  · exact hpages.1 (hreaches run hrun (not_le.mp hin) hhigh)

theorem Ledger.rememberIntervals_eq_ok {intervals : List (Nat × Nat)}
    (hintervals : ∀ interval ∈ intervals, 0 < interval.1 ∧ interval.1 < 2 ^ 64) (h : intervals.foldlM
      (fun overlay interval => rememberInterval geo generation tree interval overlay) overlay = .ok overlay') :
    Reads runs overlay overlay' ∧
      ∀ interval ∈ intervals, ∀ run ∈ runs, run.1 ≤ interval.2 → interval.1 ≤ run.1 + run.2.blocks →
        run ∈ runsIn overlay'.original := by
  induction intervals generalizing overlay with
  | nil =>
    obtain rfl := pure_ok.mp h
    exact ⟨.refl .., fun _ h => absurd h not_mem_nil⟩
  | cons interval intervals ih =>
    obtain ⟨hfirst, hrest⟩ := forall_mem_cons.mp hintervals
    rw [foldlM_cons] at h
    obtain ⟨middle, hmiddle, h⟩ := of_bind h
    obtain ⟨hread, hall⟩ := hledger.rememberInterval_eq_ok hgen hfirst.1 hfirst.2 hmiddle
    obtain ⟨hmore, hall'⟩ := ih hrest h
    refine ⟨hread.trans hmore, forall_mem_cons.mpr ⟨?_, hall'⟩⟩
    exact fun run hrun hlow hhigh => hmore.1 (hall run hrun hlow hhigh)

end Reading

/-! ### The requested ranges -/

structure Requested (geo : Geometry) (generation : Nat) (changes : LifetimeChanges) : Prop where
  edited : ∀ range ∈ changes.allocations ++ changes.retirements,
    0 < range.2 ∧ ∀ block, InRange range block → InNamespace geo block
  transferred : ∀ run ∈ changes.transfers, RecordOk geo generation run ∧ run.2.retirement ≠ 0

def intervalOf (range : Nat × Nat) : Nat × Nat := (range.1, range.1 + range.2)

theorem requestedRanges_eq_ok (hval : geo.Valid) {changes : LifetimeChanges} {ranges : List (Nat × Nat)}
    (h : requestedRanges geo generation changes = .ok ranges) :
    Requested geo generation changes ∧ ranges = (changes.allocations ++ changes.retirements).map intervalOf ++
        changes.transfers.map fun run => intervalOf (run.1, run.2.blocks) := by
  obtain ⟨edited, hedited, h⟩ := of_bind h
  obtain ⟨moved, hmoved, h⟩ := of_bind h
  have hone : ∀ range result, requestedRange geo range = .ok result →
      (0 < range.2 ∧ ∀ block, InRange range block → InNamespace geo block) ∧
        result = intervalOf range := by
    intro range result hresult
    obtain ⟨hrng, hresult⟩ := check_ok.mp hresult
    obtain ⟨hblks, -, hall⟩ := (namespaceRange_eq_ok hval).mp hrng
    exact ⟨⟨hblks, hall⟩, pure_ok.mp hresult⟩
  have hoth : ∀ run result, transferRange geo generation run = .ok result →
      (RecordOk geo generation run ∧ run.2.retirement ≠ 0) ∧
        result = intervalOf (run.1, run.2.blocks) := by
    intro run result hresult
    obtain ⟨hrec, hresult⟩ := check_ok.mp hresult
    obtain ⟨hrng, hresult⟩ := check_ok.mp hresult
    obtain ⟨hretired, hresult⟩ := of_refuse hresult
    obtain ⟨-, -, hall⟩ := (namespaceRange_eq_ok hval).mp hrng
    have hin := (LifetimeRecord.validate_eq_ok (totalBlocks_lt hval)).mp (mapError_eq_ok.mp hrec)
    exact ⟨⟨⟨hin, hall⟩, hretired⟩, pure_ok.mp hresult⟩
  obtain ⟨hall, rfl⟩ := mapM_eq_map hone hedited
  obtain ⟨hall', rfl⟩ := mapM_eq_map hoth hmoved
  exact ⟨⟨hall, hall'⟩, pure_ok.mp h⟩

end Snapshot

end Afsplus
