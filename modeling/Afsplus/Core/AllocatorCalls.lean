import Afsplus.Core.Allocator
import Afsplus.Core.Bitmaps

/-!
# What the allocator's calls do

Each call either leaves the marks of the bitmaps alone, takes a run of free blocks, or gives one block
back. The two marking loops can also stop with some of their blocks marked: at a page that cannot be
read, and in `allocate_exact_run` at a block that is taken. The facts that every call keeps are collected
in `Sound`, and each call's effect is stated once, for both of its outcomes.
-/

namespace Afsplus

open Fallible Geometry Finset
open Bitmaps (freeSet)

namespace PageCache

variable {cache : PageCache} {page : Nat × Nat} {pages : Finset (Nat × Nat)}

/-- The loads that bring the pages into memory succeed. -/
def Answers (cache : PageCache) (pages : Finset (Nat × Nat)) : Prop :=
  ∀ answer ∈ cache.loads.take (pages \ cache.pages).card, answer = none

theorem Answers.mono {more : Finset (Nat × Nat)} (h : cache.Answers more) (hsub : pages ⊆ more) :
    cache.Answers pages :=
  fun answer hmem => h answer
    ((List.take_sublist_take_left (card_le_card (sdiff_subset_sdiff hsub (Subset.refl _)))).mem hmem)

private theorem answers_of_resident (h : pages ⊆ cache.pages) : cache.Answers pages := by
  rw [Answers, sdiff_eq_empty_iff_subset.mpr h]
  simp

theorem answers_singleton : cache.Answers {page} ↔ page ∈ cache.pages ∨ cache.loads.head?.join = none := by
  by_cases hmem : page ∈ cache.pages
  · exact iff_of_true (answers_of_resident (singleton_subset_iff.mpr hmem)) (.inl hmem)
  · rw [Answers, sdiff_eq_self_of_disjoint (disjoint_singleton_left.mpr hmem), card_singleton,
      or_iff_right hmem]
    cases cache.loads with
    | nil => simp
    | cons answer rest => simp

/-- The cache with the page in memory. -/
def holding (cache : PageCache) (page : Nat × Nat) : PageCache :=
  if page ∈ cache.pages then cache
  else ⟨insert page cache.pages, insert page.1 cache.records, cache.loads.tail⟩

private theorem answers_holding (h : cache.Answers {page}) :
    (cache.holding page).Answers pages ↔ cache.Answers (insert page pages) := by
  rw [holding]
  by_cases hmem : page ∈ cache.pages
  · rw [if_pos hmem, Answers, Answers, insert_sdiff_of_mem _ hmem]
  · have hfirst := (answers_singleton.mp h).resolve_left hmem
    have hcard : (insert page pages \ cache.pages).card = (pages \ insert page cache.pages).card + 1 := by
      rw [insert_sdiff_of_notMem _ hmem, ← card_insert_of_notMem (a := page) (by simp)]
      congr 1
      ext other
      by_cases hother : other = page <;> simp [hother]
    rw [if_neg hmem, Answers, Answers, hcard]
    cases hloads : cache.loads with
    | nil => simp
    | cons answer rest =>
      rw [hloads] at hfirst
      obtain rfl : answer = none := hfirst
      simp

end PageCache

namespace TxAllocator

variable {tx tx' : TxAllocator} {run : Finset Nat}

def free (tx : TxAllocator) : Finset Nat := freeSet tx.geo tx.bits

variable {lba : Nat}

theorem mem_free : lba ∈ tx.free ↔ tx.geo.isAllocatable lba = true ∧ tx.bits lba = false := by
  rw [free, freeSet, mem_filter, mem_range]
  constructor
  · exact fun h => h.2
  · intro h
    refine ⟨?_, h⟩
    have halloc := h.1
    rw [isAllocatable, Bool.and_eq_true, decide_eq_true_eq] at halloc
    exact halloc.1

private theorem free_setBits_true : (setBits run true tx).free = tx.free \ run := by
  ext lba
  rw [mem_sdiff, mem_free, mem_free]
  by_cases hmem : lba ∈ run
  · simp [setBits, hmem]
  · simp [setBits, hmem]

theorem free_setBits_false (hrun : ∀ lba ∈ run, tx.geo.isAllocatable lba = true) :
    (setBits run false tx).free = tx.free ∪ run := by
  ext lba
  rw [mem_union, mem_free, mem_free]
  by_cases hmem : lba ∈ run
  · simp [setBits, hmem, hrun lba hmem]
  · simp [setBits, hmem]

private theorem setBits_setBits (first second : Finset Nat) (value : Bool) (tx : TxAllocator) :
    setBits second value (setBits first value tx) = setBits (first ∪ second) value tx := by
  simp only [setBits, mk.injEq, true_and, and_true, image_union, union_assoc]
  funext lba
  by_cases hfirst : lba ∈ first
  · simp [hfirst]
  · simp [hfirst]

theorem setBits_empty (value : Bool) (tx : TxAllocator) : setBits ∅ value tx = tx := by
  simp [setBits]

/-- The marks the reserved heads need, the transaction's own sets behind set bits, counts that cover
the free blocks, and changed bits only on dirty pages. -/
structure Sound (tx : TxAllocator) : Prop where
  reserved : ∀ lba, tx.geo.isReserved lba = true → tx.bits lba = true
  held : ∀ lba ∈ tx.allocatedThisTx, tx.geo.isAllocatable lba = true ∧ tx.bits lba = true
  tracked : ∀ snapshot ∈ tx.snapshot, ∀ lba ∈ snapshot.allocations, tx.bits lba = true
  counted : tx.allocatedThisTx.card + tx.blocksReleased ≤ tx.blocksAllocated
  covered : tx.free.card + tx.blocksAllocated
    ≤ tx.currentFreeBlocksTotal + tx.blocksPromoted + tx.blocksReleased
  clean : ∀ lba, pageOf tx.geo lba ∉ tx.dirtyPages → tx.bits lba = tx.committed.bits lba
  regions : ∀ page ∈ tx.dirtyPages, page.1 ∈ tx.dirtyRegions

def Balanced (tx : TxAllocator) : Prop :=
  tx.free.card + tx.blocksAllocated
    = tx.currentFreeBlocksTotal + tx.blocksPromoted + tx.blocksReleased

theorem Sound.balanced_iff (h : Sound tx) : tx.Balanced ↔ tx.freeBlocksRemaining = tx.free.card := by
  have hcounted := h.counted
  have hcovered := h.covered
  rw [Balanced, freeBlocksRemaining]
  omega

theorem clean_setBits (h : ∀ lba, pageOf tx.geo lba ∉ tx.dirtyPages → tx.bits lba = tx.committed.bits lba)
    (value : Bool) (hpage : pageOf tx.geo lba ∉ (setBits run value tx).dirtyPages) :
    (setBits run value tx).bits lba = tx.committed.bits lba := by
  simp only [setBits, mem_union, not_or] at hpage
  have hmem : lba ∉ run := fun hmem => hpage.2 (mem_image_of_mem _ hmem)
  rw [← h lba hpage.1]
  simp [setBits, hmem]

theorem regions_setBits (h : ∀ page ∈ tx.dirtyPages, page.1 ∈ tx.dirtyRegions) (value : Bool)
    {page : Nat × Nat} (hpage : page ∈ (setBits run value tx).dirtyPages) :
    page.1 ∈ (setBits run value tx).dirtyRegions := by
  simp only [setBits, mem_union] at hpage ⊢
  rcases hpage with hold | hnew
  · exact .inl (h page hold)
  · obtain ⟨lba, hmem, rfl⟩ := mem_image.mp hnew
    exact .inr (mem_image_of_mem _ hmem)

section

variable (h : Sound tx)

include h

theorem Sound.mark (run : Finset Nat) : Sound (setBits run true tx) := by
  have hset : ∀ lba, tx.bits lba = true → (setBits run true tx).bits lba = true := by
    intro lba hbit
    by_cases hmem : lba ∈ run
    · simp [setBits, hmem]
    · simp [setBits, hmem, hbit]
  refine ⟨fun lba hlba => hset lba (h.reserved lba hlba), fun lba hlba => ?_, fun s hs lba hlba => ?_,
    h.counted, ?_, fun lba => clean_setBits h.clean true, fun page => regions_setBits h.regions true⟩
  · exact ⟨(h.held lba hlba).1, hset lba (h.held lba hlba).2⟩
  · exact hset lba (h.tracked s hs lba hlba)
  · have hcovered := h.covered
    have hcard := card_le_card (sdiff_subset (s := tx.free) (t := run))
    rw [free_setBits_true]
    simp only [setBits]
    omega

theorem not_balanced_mark (hrun : run ⊆ tx.free) (hne : run.Nonempty) : ¬(setBits run true tx).Balanced := by
  have hcovered := h.covered
  have hcard := card_sdiff_add_card_eq_card hrun
  have hpos := hne.card_pos
  rw [Balanced, free_setBits_true]
  simp only [setBits]
  omega

def captured (run : Finset Nat) (tx : TxAllocator) : Option SnapshotAccounting :=
  if tx.inPhase .namespaceCapture then
    tx.snapshot.map fun snapshot => { snapshot with allocations := snapshot.allocations ∪ run }
  else tx.snapshot

def took (run : Finset Nat) (tx : TxAllocator) : TxAllocator :=
  { setBits run true tx with
    allocatedThisTx := tx.allocatedThisTx ∪ run
    snapshot := tx.captured run
    blocksAllocated := tx.blocksAllocated + run.card }

private theorem Sound.disjoint_allocated (hrun : run ⊆ tx.free) : Disjoint tx.allocatedThisTx run := by
  rw [disjoint_left]
  intro lba hheld hmem
  have hset := (h.held lba hheld).2
  rw [(mem_free.mp (hrun hmem)).2] at hset
  cases hset

private theorem Sound.disjoint_tracked (hrun : run ⊆ tx.free) :
    ∀ snapshot ∈ tx.snapshot, Disjoint snapshot.allocations run := by
  intro snapshot hsnapshot
  rw [disjoint_left]
  intro lba htracked hmem
  have hset := h.tracked snapshot hsnapshot lba htracked
  rw [(mem_free.mp (hrun hmem)).2] at hset
  cases hset

omit h in
private theorem mem_captured {snapshot : SnapshotAccounting} (h : snapshot ∈ tx.captured run) :
    ∃ old ∈ tx.snapshot, ∀ lba ∈ snapshot.allocations, lba ∈ old.allocations ∨ lba ∈ run := by
  rw [captured] at h
  by_cases hphase : tx.inPhase .namespaceCapture
  · rw [if_pos hphase] at h
    obtain ⟨old, hold, rfl⟩ := Option.map_eq_some_iff.mp h
    exact ⟨old, hold, fun lba hlba => mem_union.mp hlba⟩
  · rw [if_neg hphase] at h
    exact ⟨snapshot, h, fun lba hlba => .inl hlba⟩

theorem Sound.took (hrun : run ⊆ tx.free) : Sound (tx.took run) := by
  have hmark := h.mark run
  refine ⟨hmark.reserved, fun lba hlba => ?_, fun s hs lba hlba => ?_, ?_, ?_, hmark.clean,
    hmark.regions⟩
  · rcases mem_union.mp hlba with hold | hnew
    · exact hmark.held lba hold
    · exact ⟨(mem_free.mp (hrun hnew)).1, by simp [TxAllocator.took, setBits, hnew]⟩
  · obtain ⟨old, hold, hall⟩ := mem_captured hs
    rcases hall lba hlba with hlba | hnew
    · exact hmark.tracked old hold lba hlba
    · simp [TxAllocator.took, setBits, hnew]
  · have hcounted := h.counted
    have hcard := card_union_of_disjoint (h.disjoint_allocated hrun)
    simp only [TxAllocator.took, setBits]
    omega
  · have hcovered := h.covered
    have hcard := card_sdiff_add_card_eq_card hrun
    show (setBits run true tx).free.card + _ ≤ _
    rw [free_setBits_true]
    simp only [TxAllocator.took, setBits]
    omega

omit h in
private theorem balanced_took (hrun : run ⊆ tx.free) : (tx.took run).Balanced ↔ tx.Balanced := by
  have hcard := card_sdiff_add_card_eq_card hrun
  have hfree : (tx.took run).free = tx.free \ run := @free_setBits_true tx run
  rw [Balanced, Balanced, hfree]
  simp only [took, setBits]
  omega

/-! ### Giving a block back -/

def released (lba : Nat) (tx : TxAllocator) : TxAllocator :=
  { setBits {lba} false tx with
    allocatedThisTx := tx.allocatedThisTx.erase lba
    snapshot := tx.snapshot.map fun snapshot =>
      { snapshot with allocations := snapshot.allocations.erase lba }
    blocksReleased := tx.blocksReleased + 1 }

private theorem Sound.free_released (hlba : lba ∈ tx.allocatedThisTx) : (tx.released lba).free.card = tx.free.card + 1 := by
  obtain ⟨halloc, hset⟩ := h.held lba hlba
  have hfree : (tx.released lba).free = tx.free ∪ {lba} :=
    @free_setBits_false tx {lba} fun other hoth => by
      rw [mem_singleton.mp hoth]
      exact halloc
  have hnew : lba ∉ tx.free := by
    intro hmem
    rw [(mem_free.mp hmem).2] at hset
    cases hset
  rw [hfree, card_union_of_disjoint (disjoint_singleton_right.mpr hnew), card_singleton]

theorem Sound.released (hlba : lba ∈ tx.allocatedThisTx) : Sound (tx.released lba) := by
  have hoth : ∀ other, other ≠ lba → tx.bits other = true → (tx.released lba).bits other = true := by
    intro other hne hset
    simp [TxAllocator.released, setBits, hne, hset]
  refine ⟨fun other hres => hoth other ?_ (h.reserved other hres), fun other hmem => ?_,
    fun s hs other hmem => ?_, ?_, ?_, fun other => clean_setBits h.clean false,
    fun page => regions_setBits h.regions false⟩
  · rintro rfl
    have halloc := (h.held other hlba).1
    have hlt : other < tx.geo.totalBlocks := by
      rw [isAllocatable, Bool.and_eq_true, decide_eq_true_eq] at halloc
      exact halloc.1
    have hres : tx.geo.isReserved other = true := hres
    rw [Bitmaps.isReserved_eq hlt, halloc] at hres
    cases hres
  · obtain ⟨hne, hmem⟩ := mem_erase.mp hmem
    exact ⟨(h.held other hmem).1, hoth other hne (h.held other hmem).2⟩
  · obtain ⟨old, hold, rfl⟩ := Option.map_eq_some_iff.mp hs
    obtain ⟨hne, hmem⟩ := mem_erase.mp hmem
    exact hoth other hne (h.tracked old hold other hmem)
  · have hcounted := h.counted
    have hcard := card_erase_add_one hlba
    simp only [TxAllocator.released, setBits]
    omega
  · have hcovered := h.covered
    rw [h.free_released hlba]
    simp only [TxAllocator.released, setBits]
    omega

theorem Sound.balanced_released (hlba : lba ∈ tx.allocatedThisTx) : (tx.released lba).Balanced ↔ tx.Balanced := by
  rw [Balanced, Balanced, h.free_released hlba]
  simp only [TxAllocator.released, setBits]
  omega

end

/-- What the counts and marks of a transaction depend on. -/
def ledger (tx : TxAllocator) :=
  ((tx.geo, tx.committed, tx.currentFreeBlocksTotal, tx.newGeneration, tx.blocksPromoted),
    tx.bits, tx.dirtyPages, tx.dirtyRegions, tx.blocksAllocated, tx.blocksReleased)

/-- No mark or count changes; the transaction's own sets do not grow. -/
structure Quiet (tx tx' : TxAllocator) : Prop where
  ledger : tx'.ledger = tx.ledger
  held : tx'.allocatedThisTx ⊆ tx.allocatedThisTx
  tracked : ∀ snapshot ∈ tx'.snapshot, ∃ old ∈ tx.snapshot, snapshot.allocations ⊆ old.allocations

namespace Quiet

theorem refl (tx : TxAllocator) : Quiet tx tx :=
  ⟨rfl, Subset.refl _, fun snapshot h => ⟨snapshot, h, Subset.refl _⟩⟩

theorem trans {tx₁ tx₂ tx₃ : TxAllocator} (h : Quiet tx₁ tx₂) (hnext : Quiet tx₂ tx₃) : Quiet tx₁ tx₃ := by
  refine ⟨hnext.ledger.trans h.ledger, hnext.held.trans h.held, fun snapshot hmem => ?_⟩
  obtain ⟨middle, hmiddle, hsub⟩ := hnext.tracked snapshot hmem
  obtain ⟨old, hold, hsub'⟩ := h.tracked middle hmiddle
  exact ⟨old, hold, hsub.trans hsub'⟩

instance : Std.Refl Quiet := ⟨refl⟩

instance : IsTrans TxAllocator Quiet := ⟨fun _ _ _ => trans⟩

theorem ofSnapshot {f : SnapshotAccounting → SnapshotAccounting}
    (hf : ∀ snapshot, (f snapshot).allocations ⊆ snapshot.allocations) (tx : TxAllocator) :
    Quiet tx { tx with snapshot := tx.snapshot.map f } := by
  refine ⟨rfl, Subset.refl _, fun snapshot hmem => ?_⟩
  obtain ⟨old, hold, rfl⟩ := Option.map_eq_some_iff.mp hmem
  exact ⟨old, hold, hf old⟩

variable (h : Quiet tx tx')

include h

theorem bits : tx'.bits = tx.bits := congrArg (fun l => l.2.1) h.ledger

theorem geo : tx'.geo = tx.geo := congrArg (fun l => l.1.1) h.ledger

theorem free : tx'.free = tx.free := by
  rw [TxAllocator.free, TxAllocator.free, h.geo, h.bits]

theorem balanced : tx'.Balanced ↔ tx.Balanced := by
  have hledger := h.ledger
  simp only [TxAllocator.ledger, Prod.mk.injEq] at hledger
  obtain ⟨⟨-, -, htotal, -, hprom⟩, -, -, -, hallocd, hreleased⟩ := hledger
  rw [Balanced, Balanced, h.free, htotal, hprom, hallocd, hreleased]

theorem sound (hsound : Sound tx) : Sound tx' := by
  have hledger := h.ledger
  simp only [TxAllocator.ledger, Prod.mk.injEq] at hledger
  obtain ⟨⟨hgeo, hcomm, htotal, -, hprom⟩, hbits, hpages, hregs, hallocd, hreleased⟩ := hledger
  refine ⟨?_, fun lba hlba => ?_, fun s hs lba hlba => ?_, ?_, ?_, ?_, ?_⟩
  · rw [hgeo, hbits]
    exact hsound.reserved
  · rw [hgeo, hbits]
    exact hsound.held lba (h.held hlba)
  · obtain ⟨old, hold, hsub⟩ := h.tracked s hs
    rw [hbits]
    exact hsound.tracked old hold lba (hsub hlba)
  · have hcard := card_le_card h.held
    have hcounted := hsound.counted
    omega
  · rw [h.free, htotal, hprom, hallocd, hreleased]
    exact hsound.covered
  · rw [hgeo, hpages, hbits, hcomm]
    exact hsound.clean
  · rw [hpages, hregs]
    exact hsound.regions

end Quiet

/-! ### Loading pages -/

open PageCache (holding)

/-- Nothing but what is in memory differs. -/
def Reads (tx tx' : TxAllocator) : Prop := ∃ cache, tx' = { tx with cache }

instance : Std.Refl Reads := ⟨fun tx => ⟨tx.cache, rfl⟩⟩

instance : IsTrans TxAllocator Reads where
  trans := by
    rintro tx _ _ ⟨_, rfl⟩ ⟨cache, rfl⟩
    exact ⟨cache, rfl⟩

theorem Reads.quiet (h : Reads tx tx') : Quiet tx tx' := by
  obtain ⟨cache, rfl⟩ := h
  exact ⟨rfl, Subset.refl _, fun snapshot hmem => ⟨snapshot, hmem, Subset.refl _⟩⟩

theorem Sound.cached (h : Sound tx) (cache : PageCache) : Sound { tx with cache } :=
  Quiet.sound (Reads.quiet ⟨cache, rfl⟩) h

instance (f : PageCache → PageCache) : Moving Reads (modifyCache f) := ⟨fun tx => ⟨f tx.cache, rfl⟩⟩

instance (pages : List (Nat × Nat)) : Moving Reads (dropPages pages) := by
  unfold dropPages
  infer_instance

instance : Moving Reads load := by
  refine Moving.andThen fun tx => Moving.andThen fun _ => ?_
  cases tx.cache.loads.head?.join <;> infer_instance

instance (region : Nat) : Moving Reads (currentRecord region) := by
  unfold currentRecord
  infer_instance

instance (page : Nat × Nat) : Moving Reads (pageMut page) := by
  unfold pageMut
  infer_instance

instance (region : Nat) (pages : List Nat) : Moving Reads (scanPages region pages) := by
  induction pages with
  | nil => exact ⟨.pure _⟩
  | cons page rest ih =>
    unfold scanPages
    infer_instance

instance (region len start stop : Nat) : Moving Reads (scanRegion region len start stop) := by
  unfold scanRegion
  infer_instance

instance (region len : Nat) : Moving Reads (regionTooFull region len) := by
  unfold regionTooFull
  infer_instance

instance (lbas : List Nat) : Moving Reads (allFree lbas) := by
  induction lbas with
  | nil => exact ⟨.pure _⟩
  | cons lba rest ih =>
    unfold allFree
    infer_instance

instance (admits : Nat → Bool) (message : Nat → String) (lbas : List Nat) :
    Moving Reads (checkMarked admits message lbas) := by
  induction lbas with
  | nil => exact ⟨.pure _⟩
  | cons lba rest ih =>
    unfold checkMarked
    infer_instance

private theorem moves_reads {α : Type} (x : AllocM α) [hx : Moving Reads x] : Moves Quiet x :=
  fun tx => (hx.moves tx).quiet

variable {page : Nat × Nat}

private theorem load_of (h : tx.cache.loads.head?.join = none) :
    load tx = .ok () { tx with cache := { tx.cache with loads := tx.cache.loads.tail } } := by
  rw [load, get_bind_apply, modifyCache, modify_bind_apply, h]
  rfl

private theorem pageMut_of (h : tx.cache.Answers {page}) :
    pageMut page tx = .ok () { tx with cache := tx.cache.holding page } := by
  rw [pageMut, get_bind_apply, holding]
  by_cases hmem : page ∈ tx.cache.pages
  · rw [if_pos hmem, if_pos hmem]
    rfl
  · rw [if_neg hmem, if_neg hmem,
      bind_of_ok (load_of ((PageCache.answers_singleton.mp h).resolve_left hmem))]
    rfl

private theorem pageMut_of_not (h : ¬tx.cache.Answers {page}) : ∃ e cache, pageMut page tx = .error e { tx with cache } := by
  rw [PageCache.answers_singleton, not_or] at h
  obtain ⟨e, he⟩ := Option.ne_none_iff_exists'.mp h.2
  refine ⟨e, { tx.cache with loads := tx.cache.loads.tail }, ?_⟩
  rw [pageMut, get_bind_apply, if_neg h.1]
  refine bind_of_error ?_
  rw [load, get_bind_apply, modifyCache, modify_bind_apply, he]
  rfl

def Writable (tx : TxAllocator) : Prop := ¬tx.inPhase .failed ∧ ¬tx.inPhase .sealed

private theorem checkSnapshotWritable_of (h : tx.Writable) : checkSnapshotWritable tx = .ok () tx := by
  rw [checkSnapshotWritable, checkSnapshotHealth]
  exact (bind_of_ok (require_of h.1 _ tx)).trans (require_of h.2 _ tx)

private theorem checkSnapshotWritable_of_not (h : ¬tx.Writable) : ∃ e, checkSnapshotWritable tx = .error e tx := by
  rw [checkSnapshotWritable, checkSnapshotHealth]
  by_cases hfailed : tx.inPhase .failed
  · exact ⟨_, bind_of_error (require_of_not (not_not.mpr hfailed) _ tx)⟩
  · have hsealed : tx.inPhase .sealed := by
      by_contra hsealed
      exact h ⟨hfailed, hsealed⟩
    exact ⟨_, (bind_of_ok (require_of hfailed _ tx)).trans (require_of_not (not_not.mpr hsealed) _ tx)⟩

private theorem after_writable {α : Type} {f : Unit → AllocM α} {a : α} (h : (checkSnapshotWritable >>= f) tx = .ok a tx') :
    f () tx = .ok a tx' := by
  by_cases hwritable : tx.Writable
  · rwa [bind_of_ok (checkSnapshotWritable_of hwritable)] at h
  · obtain ⟨e, he⟩ := checkSnapshotWritable_of_not hwritable
    rw [bind_of_error he] at h
    cases h

private theorem trackSnapshotAllocation_of (h : ∀ snapshot ∈ tx.snapshot, Disjoint snapshot.allocations run) :
    trackSnapshotAllocation run tx = .ok () { tx with snapshot := tx.captured run } := by
  rw [trackSnapshotAllocation, get_bind_apply, captured]
  by_cases hphase : tx.inPhase .namespaceCapture
  · rw [if_pos hphase, if_pos hphase, require_bind h]
    rfl
  · rw [if_neg hphase, if_neg hphase]
    rfl

private theorem hold_bind {β : Type} (f : Unit → AllocM β) (h : ∀ snapshot ∈ tx.snapshot, Disjoint snapshot.allocations run) :
    (modify (fun tx : TxAllocator => { tx with allocatedThisTx := tx.allocatedThisTx ∪ run }) >>=
      fun _ => trackSnapshotAllocation run >>= f) tx = f () { tx with
        allocatedThisTx := tx.allocatedThisTx ∪ run, snapshot := tx.captured run } := by
  rw [modify_bind_apply]
  exact bind_of_ok (trackSnapshotAllocation_of h)

/-! ### Claiming block by block -/

theorem mem_blockRun {start blocks lba : Nat} : lba ∈ blockRun start blocks ↔ start ≤ lba ∧ lba < start + blocks := by
  rw [blockRun, mem_Ico]

theorem card_blockRun (start blocks : Nat) : (blockRun start blocks).card = blocks := by
  rw [blockRun, Nat.card_Ico, Nat.add_sub_cancel_left]

theorem blockRun_zero (start : Nat) : blockRun start 0 = ∅ := by
  rw [blockRun, Nat.add_zero, Ico_self]

private theorem blockRun_succ (start blocks : Nat) : blockRun start (blocks + 1) = {start} ∪ blockRun (start + 1) blocks := by
  ext lba
  rw [mem_union, mem_singleton, mem_blockRun, mem_blockRun]
  omega

/-- Two allocatable neighbours share their region: the next region starts with its own metadata. -/
private theorem regionOf_succ {geo : Geometry} (h : geo.isAllocatable (lba + 1) = true) :
    geo.regionOf (lba + 1) = geo.regionOf lba := by
  simp only [isAllocatable, Bool.and_eq_true, decide_eq_true_eq] at h
  have hres : 3 ≤ geo.regionReservedBlocks (geo.regionOf (lba + 1)) := by
    rw [regionReservedBlocks, descriptorSlots]
    omega
  rw [regionOf, regionOf, Nat.succ_div]
  by_cases hborder : geo.regionSize ∣ lba + 1
  · -- the block would be the first of its region
    have hbase : geo.regionBase (geo.regionOf (lba + 1)) = lba + 1 := Nat.div_mul_cancel hborder
    omega
  · rw [if_neg hborder, Nat.add_zero]

variable {start blocks : Nat}

theorem regionOf_of_free (h : blockRun start blocks ⊆ tx.free)
    (hlba : lba ∈ blockRun start blocks) : tx.geo.regionOf lba = tx.geo.regionOf start := by
  obtain ⟨hlow, hhigh⟩ := mem_blockRun.mp hlba
  obtain ⟨i, rfl⟩ := Nat.exists_eq_add_of_le hlow
  induction i with
  | zero => rfl
  | succ i ih =>
    have hprev : start + i ∈ blockRun start blocks := mem_blockRun.mpr ⟨by omega, by omega⟩
    rw [← ih hprev (by omega) (by omega)]
    exact regionOf_succ (mem_free.mp (h hlba)).1

/-- The run is free and its pages can be read. -/
structure Claimable (tx : TxAllocator) (run : Finset Nat) : Prop where
  free : run ⊆ tx.free
  answers : tx.cache.Answers (run.image (pageOf tx.geo))

theorem Claimable.first (h : tx.Claimable (blockRun start (blocks + 1))) : tx.Claimable {start} := by
  have hsub : {start} ⊆ blockRun start (blocks + 1) :=
    singleton_subset_iff.mpr (mem_blockRun.mpr ⟨le_rfl, by omega⟩)
  exact ⟨hsub.trans h.free, h.answers.mono (image_subset_image hsub)⟩

/-- The state behind the first block of a marking loop. -/
def marked (tx : TxAllocator) (lba : Nat) : TxAllocator :=
  setBits {lba} true { tx with cache := tx.cache.holding (pageOf tx.geo lba) }

private theorem claimable_marked (h : tx.Claimable {start}) :
    (tx.marked start).Claimable (blockRun (start + 1) blocks) ↔ tx.Claimable (blockRun start (blocks + 1)) := by
  have hfree : (tx.marked start).free = tx.free \ {start} := free_setBits_true
  have hanswers := h.answers
  rw [image_singleton] at hanswers
  have hcache : (tx.marked start).cache.Answers ((blockRun (start + 1) blocks).image (pageOf tx.geo)) ↔
      tx.cache.Answers ((blockRun start (blocks + 1)).image (pageOf tx.geo)) := by
    rw [blockRun_succ, image_union, image_singleton, ← insert_eq]
    exact PageCache.answers_holding hanswers
  have hnotin : Disjoint (blockRun (start + 1) blocks) {start} := by
    rw [disjoint_singleton_right, mem_blockRun]
    omega
  constructor
  · rintro ⟨hrest, hloads⟩
    rw [hfree, subset_sdiff] at hrest
    refine ⟨?_, hcache.mp hloads⟩
    rw [blockRun_succ]
    exact union_subset h.free hrest.1
  · rintro ⟨hall, hloads⟩
    rw [blockRun_succ] at hall
    refine ⟨?_, hcache.mpr hloads⟩
    rw [hfree, subset_sdiff]
    exact ⟨union_subset_right hall, hnotin⟩

private theorem claimEach_cons (rest : List Nat) :
    (tx.Claimable {start} ∧ claimEach (start :: rest) tx = claimEach rest (tx.marked start)) ∨
      (¬tx.Claimable {start} ∧ ∃ e cache, claimEach (start :: rest) tx = .error e { tx with cache }) := by
  rw [claimEach, get_bind_apply]
  by_cases halloc : tx.geo.isAllocatable start = true
  swap
  · rw [require_bind_not halloc]
    exact .inr ⟨fun h => halloc (mem_free.mp (h.free (mem_singleton_self _))).1, _, tx.cache, rfl⟩
  rw [require_bind halloc]
  by_cases hload : tx.cache.Answers {pageOf tx.geo start}
  swap
  · obtain ⟨e, cache, he⟩ := pageMut_of_not hload
    rw [bind_of_error he]
    refine .inr ⟨fun h => hload ?_, e, cache, rfl⟩
    have hanswers := h.answers
    rwa [image_singleton] at hanswers
  rw [bind_of_ok (pageMut_of hload)]
  by_cases hclear : tx.bits start = false
  swap
  · rw [require_bind_not hclear]
    exact .inr ⟨fun h => hclear (mem_free.mp (h.free (mem_singleton_self _))).2, _, _, rfl⟩
  rw [require_bind hclear, modify_bind_apply]
  refine .inl ⟨⟨singleton_subset_iff.mpr (mem_free.mpr ⟨halloc, hclear⟩), ?_⟩, rfl⟩
  rwa [image_singleton]

private theorem setBits_marked (k : Nat) (cache : PageCache) :
    setBits (blockRun (start + 1) k) true { tx.marked start with cache }
      = setBits (blockRun start (k + 1)) true { tx with cache } := by
  rw [blockRun_succ, ← setBits_setBits]
  rfl

/-- A marking loop takes its whole run, or stops behind the blocks it has marked: behind none if already
the first one could not be claimed. -/
private theorem claimEach_cases (blocks start : Nat) (tx : TxAllocator) :
    (tx.Claimable (blockRun start blocks) ∧ ∃ cache, claimEach (List.range' start blocks) tx
        = .ok () (setBits (blockRun start blocks) true { tx with cache })) ∨
      (¬tx.Claimable (blockRun start blocks) ∧ ∃ e k cache, blockRun start k ⊆ tx.free ∧
        (k = 0 ↔ ¬tx.Claimable {start}) ∧
        claimEach (List.range' start blocks) tx = .error e (setBits (blockRun start k) true { tx with cache })) := by
  induction blocks generalizing start tx with
  | zero =>
    rw [blockRun_zero]
    refine .inl ⟨⟨empty_subset _, PageCache.answers_of_resident (by simp)⟩, tx.cache, ?_⟩
    rw [setBits_empty]
    rfl
  | succ blocks ih =>
    rw [List.range'_succ]
    obtain ⟨hfirst, hstep⟩ | ⟨hfirst, e, cache, hstop⟩ :=
      @claimEach_cons tx start (List.range' (start + 1) blocks)
    · rw [hstep, ← claimable_marked hfirst]
      refine (ih (start + 1) (tx.marked start)).imp ?_ ?_
      · rintro ⟨hrest, cache, hrun⟩
        exact ⟨hrest, cache, by rw [hrun, setBits_marked]⟩
      · rintro ⟨hrest, e, k, cache, hfree, -, hrun⟩
        refine ⟨hrest, e, k + 1, cache, ?_, iff_of_false (by omega) (not_not.mpr hfirst),
          by rw [hrun, setBits_marked]⟩
        rw [blockRun_succ]
        refine union_subset hfirst.free (hfree.trans ?_)
        rw [show (tx.marked start).free = tx.free \ {start} from free_setBits_true]
        exact sdiff_subset
    · refine .inr ⟨fun h => hfirst h.first, e, 0, cache, ?_, iff_of_true rfl hfirst, ?_⟩
      · rw [blockRun_zero]
        exact empty_subset _
      · rw [blockRun_zero, setBits_empty, hstop]

/-- On free blocks the two marking loops do the same. -/
private theorem markEach_eq (h : blockRun start blocks ⊆ tx.free) :
    markEach (List.range' start blocks) tx = claimEach (List.range' start blocks) tx := by
  induction blocks generalizing start tx with
  | zero => rfl
  | succ blocks ih =>
    rw [blockRun_succ] at h
    obtain ⟨halloc, hclear⟩ := mem_free.mp (h (mem_union_left _ (mem_singleton_self _)))
    rw [List.range'_succ, markEach, claimEach, get_bind_apply, get_bind_apply, require_bind halloc]
    by_cases hload : tx.cache.Answers {pageOf tx.geo start}
    · have hrest : blockRun (start + 1) blocks ⊆ (tx.marked start).free := by
        rw [show (tx.marked start).free = tx.free \ {start} from free_setBits_true, subset_sdiff,
          disjoint_singleton_right, mem_blockRun]
        exact ⟨union_subset_right h, by omega⟩
      rw [bind_of_ok (pageMut_of hload), bind_of_ok (pageMut_of hload), require_bind hclear,
        modify_bind_apply, modify_bind_apply]
      exact ih hrest
    · obtain ⟨e, cache, he⟩ := pageMut_of_not hload
      rw [bind_of_error he, bind_of_error he]

/-- The checks in front of the claiming loop. -/
def LetIn (tx : TxAllocator) (start blocks : Nat) : Prop :=
  tx.Writable ∧ blocks ≠ 0 ∧ tx.freeBlockFloor ≤ tx.freeBlocksRemaining - blocks ∧
    start + blocks < 2 ^ 64

private theorem ensureAboveFloor_of {blocks : Nat} (h : tx.freeBlockFloor ≤ tx.freeBlocksRemaining - blocks) :
    ensureAboveFloor blocks tx = .ok () tx :=
  require_of h _ tx

private theorem ensureAboveFloor_of_not {blocks : Nat} (h : ¬tx.freeBlockFloor ≤ tx.freeBlocksRemaining - blocks) :
    ensureAboveFloor blocks tx = .error .noSpace tx :=
  require_of_not h _ tx

theorem allocateExactRun_refused (h : ¬tx.LetIn start blocks) :
    ∃ e, allocateExactRun start blocks tx = .error e tx := by
  unfold allocateExactRun
  by_cases hwritable : tx.Writable
  · rw [bind_of_ok (checkSnapshotWritable_of hwritable)]
    by_cases hne : blocks ≠ 0
    · rw [require_bind hne]
      by_cases hfloor : tx.freeBlockFloor ≤ tx.freeBlocksRemaining - blocks
      · have hend : ¬start + blocks < 2 ^ 64 := fun hend => h ⟨hwritable, hne, hfloor, hend⟩
        rw [bind_of_ok (ensureAboveFloor_of hfloor), require_bind_not hend]
        exact ⟨_, rfl⟩
      · exact ⟨_, bind_of_error (ensureAboveFloor_of_not hfloor)⟩
    · rw [require_bind_not hne]
      exact ⟨_, rfl⟩
  · obtain ⟨e, he⟩ := checkSnapshotWritable_of_not hwritable
    exact ⟨e, bind_of_error he⟩

theorem allocateExactRun_of (hsound : Sound tx)
    (hlet : tx.LetIn start blocks) (hclaim : tx.Claimable (blockRun start blocks)) :
    ∃ cache, allocateExactRun start blocks tx
      = .ok () (TxAllocator.took (blockRun start blocks) { tx with cache }) := by
  obtain ⟨hwritable, hne, hfloor, hend⟩ := hlet
  obtain ⟨-, cache, hrun⟩ := (claimEach_cases blocks start tx).resolve_right fun h => h.1 hclaim
  refine ⟨cache, ?_⟩
  have hsound' := hsound.cached cache
  have hdisj : Disjoint (setBits (blockRun start blocks) true { tx with cache }).allocatedThisTx
      (blockRun start blocks) := hsound'.disjoint_allocated hclaim.free
  have htracked : ∀ snapshot ∈ (setBits (blockRun start blocks) true { tx with cache }).snapshot,
      Disjoint snapshot.allocations (blockRun start blocks) := hsound'.disjoint_tracked hclaim.free
  rw [allocateExactRun, bind_of_ok (checkSnapshotWritable_of hwritable), require_bind hne,
    bind_of_ok (ensureAboveFloor_of hfloor), require_bind hend, bind_of_ok hrun,
    get_bind_apply, require_bind hdisj, hold_bind _ htracked]
  show EStateM.Result.ok _ _ = _
  rw [took, card_blockRun]
  rfl

theorem allocateExactRun_of_not (hlet : tx.LetIn start blocks) (hclaim : ¬tx.Claimable (blockRun start blocks)) :
    ∃ e k cache, blockRun start k ⊆ tx.free ∧ (k = 0 ↔ ¬tx.Claimable {start}) ∧
      allocateExactRun start blocks tx = .error e (setBits (blockRun start k) true { tx with cache }) := by
  obtain ⟨hwritable, hne, hfloor, hend⟩ := hlet
  obtain ⟨-, e, k, cache, hfree, hzero, hrun⟩ :=
    (claimEach_cases blocks start tx).resolve_left fun h => hclaim h.1
  refine ⟨e, k, cache, hfree, hzero, ?_⟩
  rw [allocateExactRun, bind_of_ok (checkSnapshotWritable_of hwritable), require_bind hne,
    bind_of_ok (ensureAboveFloor_of hfloor), require_bind hend, bind_of_error hrun]

private theorem took_empty (tx : TxAllocator) : tx.took ∅ = tx := by
  have hsnapshot : tx.captured ∅ = tx.snapshot := by
    rw [captured]
    by_cases hphase : tx.inPhase .namespaceCapture
    · simp [hphase]
    · rw [if_neg hphase]
  rw [took, hsnapshot, setBits_empty, union_empty, card_empty, Nat.add_zero]

/-- What was found free is in memory. -/
private theorem allFree_eq_ok {lbas : List Nat} (h : allFree lbas tx = .ok true tx') :
    tx.cache.pages ⊆ tx'.cache.pages ∧
      ∀ lba ∈ lbas, lba ∈ tx.free ∧ pageOf tx.geo lba ∈ tx'.cache.pages := by
  induction lbas generalizing tx with
  | nil =>
    obtain ⟨-, rfl⟩ := pure_eq_ok.mp h
    exact ⟨Subset.refl _, fun lba hlba => nomatch hlba⟩
  | cons lba rest ih =>
    rw [allFree, get_bind_apply] at h
    by_cases halloc : tx.geo.isAllocatable lba = false
    · rw [if_pos halloc] at h
      cases h
    rw [if_neg halloc] at h
    by_cases hload : tx.cache.Answers {pageOf tx.geo lba}
    swap
    · obtain ⟨e, cache, he⟩ := pageMut_of_not hload
      rw [bind_of_error he] at h
      cases h
    rw [bind_of_ok (pageMut_of hload)] at h
    by_cases hset : tx.bits lba = true
    · rw [if_pos hset] at h
      cases h
    rw [if_neg hset] at h
    obtain ⟨hsub, hrest⟩ := ih h
    have hpage : tx.cache.pages ⊆ (tx.cache.holding (pageOf tx.geo lba)).pages ∧
        pageOf tx.geo lba ∈ (tx.cache.holding (pageOf tx.geo lba)).pages := by
      rw [holding]
      split
      · rename_i hmem
        exact ⟨Subset.refl _, hmem⟩
      · exact ⟨subset_insert _ _, mem_insert_self _ _⟩
    refine ⟨hpage.1.trans hsub, List.forall_mem_cons.mpr ⟨⟨mem_free.mpr ⟨?_, ?_⟩, hsub hpage.2⟩, hrest⟩⟩
    · simpa using halloc
    · simpa using hset

theorem tryExtendRun_cases (hsound : Sound tx) (runStart runBlocks blocks : Nat) :
    (blockRun (runStart + runBlocks) blocks ⊆ tx.free ∧ ∃ cache, tryExtendRun runStart runBlocks blocks tx
        = .ok true (TxAllocator.took (blockRun (runStart + runBlocks) blocks) { tx with cache })) ∨
      (∃ cache, tryExtendRun runStart runBlocks blocks tx = .ok false { tx with cache }) ∨
      ∃ e cache, tryExtendRun runStart runBlocks blocks tx = .error e { tx with cache } := by
  unfold tryExtendRun
  by_cases hwritable : tx.Writable
  swap
  · obtain ⟨e, he⟩ := checkSnapshotWritable_of_not hwritable
    exact .inr (.inr ⟨e, tx.cache, bind_of_error he⟩)
  rw [bind_of_ok (checkSnapshotWritable_of hwritable), get_bind_apply]
  by_cases hzero : blocks = 0
  · rw [if_pos hzero, hzero, blockRun_zero]
    exact .inl ⟨empty_subset _, tx.cache, by rw [took_empty]; rfl⟩
  rw [if_neg hzero]
  by_cases hstart : runStart + runBlocks < 2 ^ 64
  swap
  · rw [require_bind_not hstart]
    exact .inr (.inr ⟨_, tx.cache, rfl⟩)
  rw [require_bind hstart]
  by_cases hend : runStart + runBlocks + blocks < 2 ^ 64
  swap
  · rw [require_bind_not hend]
    exact .inr (.inr ⟨_, tx.cache, rfl⟩)
  rw [require_bind hend]
  split
  · exact .inr (.inl ⟨tx.cache, rfl⟩)
  rename_i hfits
  simp only [not_or, not_lt] at hfits
  have hlook := (inferInstance : Moving Reads
    (allFree (List.range' (runStart + runBlocks) blocks))).moves tx
  cases hrun : allFree (List.range' (runStart + runBlocks) blocks) tx with
  | error e tx' =>
    rw [hrun] at hlook
    obtain ⟨cache, rfl⟩ := hlook
    exact .inr (.inr ⟨e, cache, bind_of_error hrun⟩)
  | ok free tx' =>
    rw [hrun] at hlook
    obtain ⟨cache, rfl⟩ := hlook
    rw [bind_of_ok hrun]
    cases free with
    | false => exact .inr (.inl ⟨cache, rfl⟩)
    | true =>
      obtain ⟨-, hall⟩ := allFree_eq_ok hrun
      have hmem : ∀ lba ∈ blockRun (runStart + runBlocks) blocks, lba ∈ tx.free ∧ pageOf tx.geo lba ∈ cache.pages :=
        fun lba hlba => hall lba (List.mem_range'_1.mpr (mem_blockRun.mp hlba))
      have hclaim : Claimable { tx with cache } (blockRun (runStart + runBlocks) blocks) :=
        ⟨fun lba hlba => (hmem lba hlba).1, PageCache.answers_of_resident
          (image_subset_iff.mpr fun lba hlba => (hmem lba hlba).2)⟩
      obtain ⟨cache', hexact⟩ := allocateExactRun_of (hsound.cached cache)
        ⟨hwritable, hzero, hfits.2.1, hend⟩ hclaim
      refine .inl ⟨hclaim.free, cache', ?_⟩
      rw [if_pos rfl, bind_of_ok hexact]
      rfl

/-! ### `allocate_run` -/

variable {region len index : Nat}

private theorem freeRun_free {start stop : Nat} (hstop : stop ≤ tx.geo.regionValidBlocks region)
    (hstart : tx.geo.regionReservedBlocks region + Geometry.regionHead region ≤ start)
    (h : tx.freeRun region len start stop = some index) :
    blockRun (tx.geo.regionBase region + index) len ⊆ tx.free := by
  have hmem := List.mem_of_find?_eq_some h
  have hfound := List.find?_some h
  simp only [decide_eq_true_eq] at hfound
  rw [List.mem_range'_1] at hmem
  rw [regionValidBlocks] at hstop
  intro lba hlba
  rw [mem_blockRun] at hlba
  obtain ⟨i, rfl⟩ := Nat.exists_eq_add_of_le hlba.1
  have hi : i < len := by omega
  have hreg : tx.geo.regionOf (tx.geo.regionBase region + (index + i)) = region := regionOf_add (by omega)
  refine mem_free.mpr ⟨?_, hfound.2 i hi⟩
  rw [Nat.add_assoc, isAllocatable, hreg, Bool.and_eq_true, decide_eq_true_eq, decide_eq_true_eq]
  omega

private theorem scanRegion_eq_ok {start stop : Nat} (hstop : stop ≤ tx.geo.regionValidBlocks region)
    (h : scanRegion region len start stop tx = .ok (some index) tx') :
    blockRun (tx.geo.regionBase region + index) len ⊆ tx.free := by
  rw [scanRegion, get_bind_apply] at h
  split at h
  · cases h
  · obtain ⟨-, _, -, h⟩ := bind_eq_ok.mp h
    exact freeRun_free hstop (le_max_right _ _) (pure_eq_ok.mp h).1.symm

private theorem findInRegion_eq_ok {resume : Nat} (h : findInRegion region len resume tx = .ok (some index) tx') :
    blockRun (tx.geo.regionBase region + index) len ⊆ tx.free := by
  rw [findInRegion, get_bind_apply] at h
  obtain ⟨found, tx₁, hfirst, h⟩ := bind_eq_ok.mp h
  obtain ⟨cache, rfl⟩ := Moving.of_ok Reads hfirst
  split at h
  · exact @scanRegion_eq_ok { tx with cache } _ _ _ _ _ _ (Nat.min_le_right _ _) h
  · obtain ⟨rfl, -⟩ := pure_eq_ok.mp h
    exact scanRegion_eq_ok le_rfl hfirst

instance (region len resume : Nat) : Moving Reads (findInRegion region len resume) := by
  unfold findInRegion
  infer_instance

instance (len : Nat) (steps : List Nat) : Moving Reads (searchRegions len steps) := by
  induction steps with
  | nil => exact ⟨.throw _⟩
  | cons step rest ih =>
    unfold searchRegions
    refine Moving.andThen fun tx => Moving.andThen fun full => ?_
    cases full with
    | true => exact ih
    | false =>
      refine Moving.andThen fun found => ?_
      cases found <;> infer_instance

theorem searchRegions_eq_ok {steps : List Nat} (h : searchRegions len steps tx = .ok (region, index) tx') :
    blockRun (tx.geo.regionBase region + index) len ⊆ tx.free := by
  induction steps generalizing tx with
  | nil => cases h
  | cons step rest ih =>
    rw [searchRegions, get_bind_apply] at h
    obtain ⟨full, tx₁, hfull, h⟩ := bind_eq_ok.mp h
    obtain ⟨cache, rfl⟩ := Moving.of_ok Reads hfull
    split at h
    · exact @ih { tx with cache } h
    · obtain ⟨found, tx₂, hfound, h⟩ := bind_eq_ok.mp h
      obtain ⟨cache', rfl⟩ := Moving.of_ok Reads hfound
      cases found with
      | some found =>
        obtain ⟨hsame, -⟩ := pure_eq_ok.mp h
        cases hsame
        exact @findInRegion_eq_ok { tx with cache } _ _ _ _ _ hfound
      | none => exact @ih { tx with cache := cache' } h

/-- The state once the search has handed out a run and moved its rover behind it. -/
def tookAt (run : Finset Nat) (region index : Nat) (tx : TxAllocator) : TxAllocator :=
  { tx.took run with roverRegion := region, roverIndex := index }

theorem balanced_tookAt (hrun : run ⊆ tx.free) (region index : Nat) :
    (tx.tookAt run region index).Balanced ↔ tx.Balanced := by
  have hrover : (tx.tookAt run region index).Balanced ↔ (tx.took run).Balanced := Iff.rfl
  rw [hrover]
  exact balanced_took hrun

section ClaimFound

variable (hsound : Sound tx) (hfree : blockRun (tx.geo.regionBase region + index) len ⊆ tx.free)

include hsound hfree

theorem claimFound_of (hclaim : tx.Claimable (blockRun (tx.geo.regionBase region + index) len)) :
    ∃ cache, claimFound region len index tx = .ok (tx.geo.regionBase region + index)
      (TxAllocator.tookAt (blockRun (tx.geo.regionBase region + index) len) region
        (min (index + len) (tx.geo.regionValidBlocks region)) { tx with cache }) := by
  set run := blockRun (tx.geo.regionBase region + index) len with hrun
  obtain ⟨-, cache, hmark⟩ :=
    (claimEach_cases len (tx.geo.regionBase region + index) tx).resolve_right fun h => h.1 hclaim
  refine ⟨cache, ?_⟩
  have htracked : ∀ snapshot ∈ (setBits run true { tx with cache }).snapshot, Disjoint snapshot.allocations run :=
    (hsound.cached cache).disjoint_tracked hfree
  have hcard : run.card = len := card_blockRun _ _
  rw [← markEach_eq hfree] at hmark
  rw [claimFound, get_bind_apply, bind_of_ok hmark, ← hrun,
    require_bind (hsound.disjoint_allocated hfree), hold_bind _ htracked, tookAt, took, hcard]
  rfl

omit hsound in
theorem claimFound_of_not (hclaim : ¬tx.Claimable (blockRun (tx.geo.regionBase region + index) len)) :
    ∃ e k cache, blockRun (tx.geo.regionBase region + index) k ⊆ tx.free ∧
      (k = 0 ↔ ¬tx.Claimable {tx.geo.regionBase region + index}) ∧
      claimFound region len index tx
        = .error e (setBits (blockRun (tx.geo.regionBase region + index) k) true { tx with cache }) := by
  obtain ⟨-, e, k, cache, hsub, hzero, hmark⟩ :=
    (claimEach_cases len (tx.geo.regionBase region + index) tx).resolve_left fun h => hclaim h.1
  refine ⟨e, k, cache, hsub, hzero, ?_⟩
  rw [← markEach_eq hfree] at hmark
  rw [claimFound, get_bind_apply, bind_of_error hmark]

end ClaimFound

/-- The checks in front of the search. -/
def Searches (tx : TxAllocator) (len : Nat) : Prop :=
  tx.Writable ∧ len ≤ tx.geo.regionSize ∧ tx.freeBlockFloor ≤ tx.freeBlocksRemaining - len

theorem allocateRun_refused (h : ¬tx.Searches len) : ∃ e, allocateRun len tx = .error e tx := by
  unfold allocateRun
  by_cases hwritable : tx.Writable
  swap
  · obtain ⟨e, he⟩ := checkSnapshotWritable_of_not hwritable
    exact ⟨e, bind_of_error he⟩
  rw [bind_of_ok (checkSnapshotWritable_of hwritable), get_bind_apply]
  by_cases hlen : len ≤ tx.geo.regionSize
  swap
  · rw [require_bind_not hlen]
    exact ⟨_, rfl⟩
  rw [require_bind hlen]
  exact ⟨_, bind_of_error (ensureAboveFloor_of_not fun hfloor => h ⟨hwritable, hlen, hfloor⟩)⟩

theorem allocateRun_of (h : tx.Searches len) : allocateRun len tx =
    (searchRegions len (List.range tx.geo.regionCount) >>= fun found => claimFound found.1 len found.2) tx := by
  obtain ⟨hwritable, hlen, hfloor⟩ := h
  rw [allocateRun, bind_of_ok (checkSnapshotWritable_of hwritable), get_bind_apply, require_bind hlen,
    bind_of_ok (ensureAboveFloor_of hfloor)]

private theorem moves_checkSnapshotWritable : Moves Quiet checkSnapshotWritable := by
  intro tx
  by_cases h : tx.Writable
  · rw [checkSnapshotWritable_of h]
    exact .refl tx
  · obtain ⟨e, he⟩ := checkSnapshotWritable_of_not h
    rw [he]
    exact .refl tx

private theorem moves_modifySnapshot {f : SnapshotAccounting → SnapshotAccounting}
    (hf : ∀ snapshot, (f snapshot).allocations ⊆ snapshot.allocations) : Moves Quiet (modifySnapshot f) :=
  .modify fun tx => .ofSnapshot hf tx

private theorem moves_appendReclaim (start blocks : Nat) : Moves Quiet (appendReclaim start blocks) := by
  refine .bind .get fun tx => .bind (.lift _) fun reclaim => ?_
  exact .modify fun tx => ⟨rfl, Subset.refl _, (Quiet.refl tx).tracked⟩

theorem moves_retireRun (start blocks : Nat) : Moves Quiet (retireRun start blocks) := by
  refine .bind moves_checkSnapshotWritable fun _ => ?_
  refine .bind (.require _ _) fun _ => ?_
  refine .bind (.require _ _) fun _ => ?_
  refine .bind .get fun _ => ?_
  refine .bind (.require _ _) fun _ => ?_
  refine .bind (.require _ _) fun _ => ?_
  refine .bind (.modify fun tx =>
    ⟨rfl, Subset.refl _, (Quiet.refl tx).tracked⟩) fun _ => ?_
  refine .bind (moves_reads _) fun _ => .bind (moves_reads _) fun _ => ?_
  refine .ite ?_ (moves_appendReclaim start blocks)
  exact .bind (.require _ _) fun _ =>
    moves_modifySnapshot fun _ => Subset.refl _

variable {u : Unit}

theorem checkMarked_eq_ok {admits : Nat → Bool} {message : Nat → String} {lbas : List Nat}
    (h : checkMarked admits message lbas tx = .ok u tx') : ∀ lba ∈ lbas, tx.bits lba = true := by
  induction lbas generalizing tx with
  | nil => exact fun lba hlba => nomatch hlba
  | cons lba rest ih =>
    rw [checkMarked, get_bind_apply] at h
    obtain ⟨-, h⟩ := require_bind_eq_ok.mp h
    obtain ⟨_, tx₁, hpage, h⟩ := bind_eq_ok.mp h
    obtain ⟨cache, rfl⟩ := Moving.of_ok Reads hpage
    obtain ⟨hset, h⟩ := require_bind_eq_ok.mp h
    exact List.forall_mem_cons.mpr ⟨hset, @ih { tx with cache } h⟩

theorem retireRun_eq_ok (h : retireRun start blocks tx = .ok u tx') :
    Disjoint tx.allocatedThisTx (blockRun start blocks) ∧ ∀ lba ∈ blockRun start blocks, tx.bits lba = true := by
  unfold retireRun at h
  replace h := after_writable h
  obtain ⟨-, h⟩ := require_bind_eq_ok.mp h
  obtain ⟨-, h⟩ := require_bind_eq_ok.mp h
  rw [get_bind_eq_ok] at h
  obtain ⟨hdisj, h⟩ := require_bind_eq_ok.mp h
  obtain ⟨-, h⟩ := require_bind_eq_ok.mp h
  rw [modify_bind_apply] at h
  obtain ⟨_, _, hlive, -⟩ := bind_eq_ok.mp h
  refine ⟨hdisj, fun lba hlba => ?_⟩
  exact checkMarked_eq_ok hlive lba (List.mem_range'_1.mpr (mem_blockRun.mp hlba))

private theorem moves_dropAllocated (message : Nat → String) (lbas : List Nat) :
    Moves Quiet (dropAllocated message lbas) := by
  induction lbas with
  | nil => exact .pure _
  | cons lba rest ih =>
    refine .bind .get fun _ => ?_
    refine .bind (.require _ _) fun _ => ?_
    refine .bind (.modify fun tx => ?_) fun _ => ih
    exact ⟨rfl, erase_subset _ _, (Quiet.refl tx).tracked⟩

private theorem dropAllocated_eq_ok {message : Nat → String} {lbas : List Nat}
    (h : dropAllocated message lbas tx = .ok u tx') :
    (∀ lba ∈ lbas, lba ∈ tx.allocatedThisTx) ∧ ∀ lba ∈ lbas, lba ∉ tx'.allocatedThisTx := by
  induction lbas generalizing tx with
  | nil => simp
  | cons lba rest ih =>
    rw [dropAllocated, get_bind_eq_ok] at h
    obtain ⟨hheld, h⟩ := require_bind_eq_ok.mp h
    rw [modify_bind_apply] at h
    obtain ⟨hrest, hgone⟩ := ih h
    have hquiet := (moves_dropAllocated message rest).of_ok h
    refine ⟨List.forall_mem_cons.mpr ⟨hheld, fun other hoth => ?_⟩,
      List.forall_mem_cons.mpr ⟨fun hmem => ?_, hgone⟩⟩
    · exact mem_of_mem_erase (hrest other hoth)
    · exact notMem_erase _ _ (hquiet.held hmem)

private theorem checkSnapshotRelease_eq_ok (h : checkSnapshotRelease run tx = .ok u tx') : tx' = tx := by
  rw [checkSnapshotRelease, get_bind_eq_ok, require_eq_ok] at h
  exact h.2

private theorem moves_checkSnapshotRelease (run : Finset Nat) : Moves Quiet (checkSnapshotRelease run) :=
  .bind .get fun _ => .require _ _

theorem moves_abandonUncommittedRun (start blocks : Nat) : Moves Quiet (abandonUncommittedRun start blocks) := by
  refine .bind moves_checkSnapshotWritable fun _ => ?_
  refine .bind (.require _ _) fun _ => ?_
  refine .bind (.require _ _) fun _ => ?_
  refine .bind (moves_checkSnapshotRelease _) fun _ => ?_
  refine .bind (moves_dropAllocated _ _) fun _ => ?_
  refine .bind (moves_modifySnapshot fun _ => sdiff_subset) fun _ => ?_
  refine .bind .get fun _ => ?_
  refine .bind (.require _ _) fun _ => ?_
  refine .bind (.modify fun tx => ?_) fun _ => moves_appendReclaim start blocks
  exact ⟨rfl, Subset.refl _, (Quiet.refl tx).tracked⟩

theorem abandonUncommittedRun_eq_ok (h : abandonUncommittedRun start blocks tx = .ok u tx') :
    blockRun start blocks ⊆ tx.allocatedThisTx ∧ Disjoint tx'.allocatedThisTx (blockRun start blocks) := by
  unfold abandonUncommittedRun at h
  replace h := after_writable h
  obtain ⟨-, h⟩ := require_bind_eq_ok.mp h
  obtain ⟨-, h⟩ := require_bind_eq_ok.mp h
  obtain ⟨_, checked, hrelease, hrest⟩ := bind_eq_ok.mp h
  rw [checkSnapshotRelease_eq_ok hrelease] at hrest
  obtain ⟨_, dropped, hdrop, hend⟩ := bind_eq_ok.mp hrest
  obtain ⟨hheld, hgone⟩ := dropAllocated_eq_ok hdrop
  have hquiet : Quiet dropped tx' := by
    refine Moves.of_ok (R := Quiet) ?_ hend
    refine .bind (moves_modifySnapshot fun _ => sdiff_subset) fun _ => ?_
    refine .bind .get fun _ => .bind (.require _ _) fun _ => ?_
    refine .bind (.modify fun tx => ?_) fun _ => moves_appendReclaim start blocks
    exact ⟨rfl, Subset.refl _, (Quiet.refl tx).tracked⟩
  have hlist : ∀ lba, lba ∈ blockRun start blocks → lba ∈ List.range' start blocks :=
    fun lba hlba => List.mem_range'_1.mpr (mem_blockRun.mp hlba)
  refine ⟨fun lba hlba => hheld lba (hlist lba hlba), ?_⟩
  rw [disjoint_left]
  intro lba hmem hlba
  exact hgone lba (hlist lba hlba) (hquiet.held hmem)

theorem releaseUncommitted_cases (hsound : Sound tx) (lba : Nat) :
    (lba ∈ tx.allocatedThisTx ∧ ∃ cache, releaseUncommitted lba tx
        = .ok () (TxAllocator.released lba { tx with cache })) ∨
      ∃ e tx', Quiet tx tx' ∧ releaseUncommitted lba tx = .error e tx' := by
  unfold releaseUncommitted
  by_cases hwritable : tx.Writable
  swap
  · obtain ⟨e, he⟩ := checkSnapshotWritable_of_not hwritable
    exact .inr ⟨e, tx, .refl tx, bind_of_error he⟩
  rw [bind_of_ok (checkSnapshotWritable_of hwritable)]
  by_cases hend : lba + 1 < 2 ^ 64
  swap
  · rw [require_bind_not hend]
    exact .inr ⟨_, tx, .refl tx, rfl⟩
  rw [require_bind hend]
  by_cases hphase : (tx.inPhase .preparing ∨ tx.inPhase .sealed) ∧
      ∃ snapshot ∈ tx.snapshot, ¬Disjoint snapshot.allocations {lba}
  · exact .inr ⟨_, tx, .refl tx, bind_of_error (require_of_not (not_not.mpr hphase) _ tx)⟩
  have hrelease : checkSnapshotRelease {lba} tx = .ok () tx := require_of hphase _ tx
  rw [bind_of_ok hrelease]
  by_cases hheld : lba ∈ tx.allocatedThisTx
  · have hset : tx.bits lba = true := (hsound.held lba hheld).2
    have hdrop : dropAllocated (fun lba => s!"releasing block {lba} that this transaction did not allocate") [lba] tx
        = .ok () { tx with allocatedThisTx := tx.allocatedThisTx.erase lba } := by
      rw [dropAllocated, get_bind_apply, require_bind hheld, modify_bind_apply]
      rfl
    rw [bind_of_ok hdrop, get_bind_apply]
    by_cases hload : tx.cache.Answers {pageOf tx.geo lba}
    · refine .inl ⟨hheld, tx.cache.holding (pageOf tx.geo lba), ?_⟩
      rw [bind_of_ok (pageMut_of (by exact hload)), require_bind hset]
      rfl
    · -- the block has left the run set, its mark stays
      obtain ⟨e, cache, he⟩ := @pageMut_of_not { tx with allocatedThisTx := tx.allocatedThisTx.erase lba } _ hload
      refine .inr ⟨e, _, ?_, bind_of_error he⟩
      exact ⟨rfl, erase_subset _ _, (Quiet.refl tx).tracked⟩
  · rw [dropAllocated, bind_of_error (by rw [get_bind_apply, require_bind_not hheld])]
    exact .inr ⟨_, tx, .refl tx, rfl⟩

end TxAllocator

end Afsplus
