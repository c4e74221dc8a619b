import Afsplus.Core.AllocatorFinish
import Afsplus.Core.ReclaimTransaction

/-!
# Allocator accounting over a transaction

A transaction begins on an allocation state that agrees and makes any sequence of calls; a call that
fails leaves what it did, and the transaction goes on. Through all of that a handed-out run is free,
allocatable, inside one region and disjoint from what is handed out already, and what finish publishes
agrees again. The free count is exact until an `allocate_exact_run` fails behind a block it has marked.
-/

namespace Afsplus

open Fallible Bitmaps Finset
open Bitmaps (freeSet)

namespace ReclaimTx

variable {geo : Geometry} {generation : Nat} {dev : Device}

def Inside (geo : Geometry) (run : PromotedRun) : Prop :=
  ∀ lba ∈ blockRun run.start run.blocks, geo.isAllocatable lba = true

variable {budget : Nat} {entry : ReclaimEntry}

private theorem allocatable_of_validateRun (h : Mount.validateRun geo entry = .ok ())
    {lba : Nat} (hlba : lba ∈ blockRun entry.start entry.blocks) : geo.isAllocatable lba = true := by
  rw [TxAllocator.mem_blockRun] at hlba
  obtain ⟨offset, rfl⟩ := Nat.exists_eq_add_of_le hlba.1
  exact (validateRun_eq_ok.mp (validateRun_trim h (by omega))).2.1

private theorem inside_promote {tx : ReclaimTx} (htx : ∀ run ∈ tx.promoted, Inside geo run)
    (hentry : Mount.validateRun geo entry = .ok ()) {offset take : Nat}
    (htake : offset + take ≤ entry.blocks) :
    ∀ run ∈ (tx.promote (entry.start + offset) take entry.retireGeneration).promoted, Inside geo run := by
  intro run hmem
  rcases List.mem_append.mp hmem with hold | hnew
  · exact htx run hold
  · obtain rfl := List.mem_singleton.mp hnew
    intro lba hlba
    refine allocatable_of_validateRun hentry ?_
    rw [TxAllocator.mem_blockRun] at hlba ⊢
    dsimp only at hlba
    omega

variable {tx tx' : ReclaimTx}

private theorem consumeEntries_inside {entries : List ReclaimEntry}
    (hents : ∀ entry ∈ entries, Mount.validateRun geo entry = .ok ()) {left : Nat}
    (htx : ∀ run ∈ tx.promoted, Inside geo run) (h : consumeEntries entries budget tx = .ok (tx', left)) :
    (∀ run ∈ tx'.promoted, Inside geo run) ∧ tx'.root.inlineEntries = tx.root.inlineEntries := by
  induction entries generalizing budget tx with
  | nil =>
    cases h
    exact ⟨htx, rfl⟩
  | cons entry rest ih =>
    rw [consumeEntries] at h
    split at h
    · cases h
      exact ⟨htx, rfl⟩
    obtain ⟨hoff, h⟩ := of_refuse h
    split at h
    · cases h
      exact ⟨htx, rfl⟩
    have hprom := @inside_promote geo entry tx htx (hents entry (by simp))
      tx.root.headBlockOffset (min (entry.blocks - tx.root.headBlockOffset) budget) (by omega)
    dsimp only at h
    split at h
    · have htail := ih (fun e he => hents e (by simp [he])) (by exact hprom) h
      exact htail
    · cases h
      exact ⟨hprom, rfl⟩

private theorem consumeSegment_inside {ref : SealedRef} {left : Nat} {finished : Bool}
    (htx : ∀ run ∈ tx.promoted, Inside geo run)
    (h : consumeSegment dev geo ref generation budget tx = .ok (tx', finished, left)) :
    (∀ run ∈ tx'.promoted, Inside geo run) ∧ tx'.root.inlineEntries = tx.root.inlineEntries := by
  obtain ⟨entries, hents, h⟩ := of_bind h
  replace h := after_check h
  obtain ⟨⟨taken, rest⟩, htaken, h⟩ := of_bind h
  cases h
  obtain ⟨-, -, -, -, -, hchecked⟩ := readSegment_eq_ok.mp hents
  refine consumeEntries_inside (fun entry hmem => ?_) htx htaken
  exact (checkEntries_eq_ok.mp hchecked entry (List.mem_of_mem_drop hmem)).1

private theorem consume_inside {rounds : Nat}
    (hinline : ∀ entry ∈ tx.root.inlineEntries, Mount.validateRun geo entry = .ok ())
    (htx : ∀ run ∈ tx.promoted, Inside geo run) (h : consume dev geo generation rounds budget tx = .ok tx') :
    ∀ run ∈ tx'.promoted, Inside geo run := by
  induction rounds generalizing budget tx with
  | zero =>
    cases h
    exact htx
  | succ rounds ih =>
    unfold consume at h
    split at h
    · cases h
      exact htx
    split at h
    · obtain ⟨refs, -, h⟩ := of_bind h
      split at h
      · cases h
      obtain ⟨⟨taken, finished, left⟩, htaken, h⟩ := of_bind h
      obtain ⟨hprom, hsame⟩ := consumeSegment_inside htx htaken
      dsimp only at h
      split at h
      · refine ih ?_ ?_ h
        · split
          · exact hsame ▸ hinline
          · exact hsame ▸ hinline
        · split
          · exact hprom
          · exact hprom
      · cases h
        exact hprom
    · obtain ⟨⟨taken, finished, left⟩, htaken, h⟩ := of_bind h
      obtain ⟨hprom, hsame⟩ := consumeSegment_inside htx htaken
      dsimp only at h
      split at h
      · refine ih ?_ ?_ h
        · exact hsame ▸ hinline
        · exact hprom
      · cases h
        exact hprom
    · rename_i entry entries _ _ hents
      rw [hents] at hinline
      have hentry := hinline entry (by simp)
      split at h
      · cases h
        exact htx
      have hprom := @inside_promote geo entry tx htx hentry 0 (min entry.blocks budget) (by omega)
      refine ih ?_ ?_ h
      swap
      · exact hprom
      show ∀ e ∈ (if entry.blocks - min entry.blocks budget = 0 then entries else _), _
      split
      · exact fun e he => hinline e (by simp [he])
      · rename_i hleft
        intro e he
        rcases List.mem_cons.mp he with rfl | he
        · exact validateRun_trim hentry (by omega)
        · exact hinline e (by simp [he])
    · cases h
      exact htx

private theorem begin_inside {rootLba newGeneration protectedGeneration : Nat} {tx : ReclaimTx}
    (h : begin dev geo rootLba generation newGeneration protectedGeneration budget = .ok tx) :
    ∀ run ∈ tx.promoted, Inside geo run := by
  replace h := after_check h
  obtain ⟨root, hroot, h⟩ := of_bind h
  obtain ⟨-, -, -, -, -, hchecked, -⟩ := readRoot_eq_ok.mp hroot
  refine consume_inside (fun entry hmem => ?_) (fun run hmem => ?_) h
  · exact (checkEntries_eq_ok.mp hchecked entry hmem).1
  · cases hmem

end ReclaimTx

namespace TxAllocator

/-! ### The start of a transaction -/

structure Fresh (tx : TxAllocator) : Prop where
  sound : Sound tx
  balanced : tx.Balanced
  held : tx.allocatedThisTx = ∅
  tracked : ∀ snapshot ∈ tx.snapshot, snapshot.allocations = ∅

variable {tx : TxAllocator}

theorem Fresh.promote (h : Fresh tx) {run : Finset Nat}
    (halloc : ∀ lba ∈ run, tx.geo.isAllocatable lba = true) (hset : ∀ lba ∈ run, tx.bits lba = true) :
    Fresh { setBits run false tx with blocksPromoted := tx.blocksPromoted + run.card } := by
  have hdisj : Disjoint tx.free run := by
    rw [disjoint_left]
    intro lba hfree hmem
    have hbit := hset lba hmem
    rw [(mem_free.mp hfree).2] at hbit
    cases hbit
  have hcard : (setBits run false tx).free.card = tx.free.card + run.card := by
    rw [free_setBits_false halloc, card_union_of_disjoint hdisj]
  have hcnts := h.balanced
  rw [Balanced] at hcnts
  have hnew : (setBits run false tx).free.card + tx.blocksAllocated
      = tx.currentFreeBlocksTotal + (tx.blocksPromoted + run.card) + tx.blocksReleased := by
    rw [hcard]
    omega
  refine ⟨⟨fun lba hres => ?_, fun lba hlba => ?_, fun s hs lba hlba => ?_, h.sound.counted,
    le_of_eq hnew, fun lba => clean_setBits h.sound.clean false,
    fun page => regions_setBits h.sound.regions false⟩, hnew, h.held, h.tracked⟩
  · have hmem : lba ∉ run := by
      intro hmem
      have hallocatable := halloc lba hmem
      have hlt : lba < tx.geo.totalBlocks := by
        rw [Geometry.isAllocatable, Bool.and_eq_true, decide_eq_true_eq] at hallocatable
        exact hallocatable.1
      have hres : tx.geo.isReserved lba = true := hres
      rw [isReserved_eq hlt, hallocatable] at hres
      cases hres
    simp [setBits, hmem, h.sound.reserved lba hres]
  · have hlba : lba ∈ tx.allocatedThisTx := hlba
    rw [h.held] at hlba
    cases hlba
  · rw [h.tracked s hs] at hlba
    cases hlba

/-- What a transaction never changes. -/
def fixed (tx : TxAllocator) : Geometry × CommittedAllocation × Nat × Nat :=
  (tx.geo, tx.committed, tx.currentFreeBlocksTotal, tx.newGeneration)

private theorem clearPromoted_fresh {runs : List PromotedRun} {tx tx' : TxAllocator} {u : Unit}
    (hruns : ∀ run ∈ runs, ReclaimTx.Inside tx.geo run) (hfresh : Fresh tx)
    (h : clearPromoted runs tx = .ok u tx') : Fresh tx' ∧ tx'.fixed = tx.fixed := by
  induction runs generalizing tx with
  | nil =>
    obtain ⟨-, rfl⟩ := pure_eq_ok.mp h
    exact ⟨hfresh, rfl⟩
  | cons run rest ih =>
    rw [clearPromoted] at h
    obtain ⟨_, _, hmarked, h⟩ := bind_eq_ok.mp h
    obtain ⟨cache, rfl⟩ := Moving.of_ok Reads hmarked
    rw [modify_bind_apply] at h
    have hcached : Fresh { tx with cache } :=
      ⟨hfresh.sound.cached cache, hfresh.balanced, hfresh.held, hfresh.tracked⟩
    have hnext := hcached.promote (hruns run (by simp)) fun lba hlba =>
      checkMarked_eq_ok hmarked lba (List.mem_range'_1.mpr (mem_blockRun.mp hlba))
    rw [card_blockRun] at hnext
    have hrest : ∀ other ∈ rest, ReclaimTx.Inside tx.geo other := fun other hoth => hruns other (by simp [hoth])
    have htail := ih (by exact hrest) (by exact hnext) h
    exact htail

private theorem begin_fresh {dev : Device} {geo : Geometry} {committed : CommittedAllocation}
    {current : Checkpoint} {other : Option Checkpoint} {newGeneration batchBlocks roverRegion : Nat}
    {loads : List (Option CoreError)} (hval : geo.Valid) (hagree : Agree dev geo current.generation current.freeBlocksTotal committed.records
      committed.descriptors committed.bits)
    (h : begin dev geo committed current other newGeneration batchBlocks roverRegion loads = .ok tx) :
    Fresh tx ∧ tx.fixed = (geo, committed, current.freeBlocksTotal, newGeneration) := by
  obtain ⟨reclaim, hreclaim, h⟩ := of_bind h
  dsimp only at h
  split at h
  · rename_i u tx' hclear
    cases h
    have hcnts := hagree.total_eq hval
    refine clearPromoted_fresh (ReclaimTx.begin_inside hreclaim) ?_ hclear
    refine ⟨⟨hagree.reserved, fun lba hlba => ?_, fun s hs lba hlba => ?_, le_refl _, hcnts.ge, fun lba _ => rfl,
      fun page hpage => ?_⟩, hcnts.symm, rfl, fun s hs => ?_⟩
    · cases hlba
    · obtain ⟨roots, -, rfl⟩ := Option.map_eq_some_iff.mp hs
      cases hlba
    · cases hpage
    · obtain ⟨roots, -, rfl⟩ := Option.map_eq_some_iff.mp hs
      rfl
  · cases h

/-- The six calls, and what the owner of the transaction changes between them: the floor, and the
snapshot accounting's phase, registry root and sealed mutation. -/
inductive Call where
  | allocate (len : Nat) (hlen : 0 < len)
  | extend (runStart runBlocks blocks : Nat)
  | allocateExact (start blocks : Nat)
  | retire (start blocks : Nat)
  | abandon (start blocks : Nat)
  | release (lba : Nat)
  | setFloor (blocks : Nat)
  | setSnapshot (phase : SnapshotPhase) (registryRoot : Nat) (mutation : Option LifetimeOutput)

inductive Reply where
  | granted (start blocks : Nat)
  | refused
  | retired (start blocks : Nat)
  | abandoned (start blocks : Nat)
  | released (lba : Nat)
  | done
  deriving DecidableEq, Repr

def Call.run : Call → AllocM Reply
  | .allocate len _ => do
    let lba ← allocateRun len
    pure (.granted lba len)
  | .extend runStart runBlocks blocks => do
    let extended ← tryExtendRun runStart runBlocks blocks
    pure (if extended then .granted (runStart + runBlocks) blocks else .refused)
  | .allocateExact start blocks => do
    allocateExactRun start blocks
    pure (.granted start blocks)
  | .retire start blocks => do
    retireRun start blocks
    pure (.retired start blocks)
  | .abandon start blocks => do
    abandonUncommittedRun start blocks
    pure (.abandoned start blocks)
  | .release lba => do
    releaseUncommitted lba
    pure (.released lba)
  | .setFloor blocks => do
    modify fun tx => { tx with freeBlockFloor := blocks }
    pure .done
  | .setSnapshot phase registryRoot mutation => do
    modifySnapshot fun snapshot => { snapshot with phase, registryRoot, mutation }
    pure .done

/-- The call gets to its marking loop with a first block it can claim and a run it cannot: for an exact
claim a later block is taken or its page cannot be read; the search has found a free run, so only
reading back a page that the search has left can fail. -/
def Call.ClaimsPartially (tx : TxAllocator) : Call → Prop
  | .allocate len _ => tx.Searches len ∧ ∃ region index tx',
    searchRegions len (List.range tx.geo.regionCount) tx = .ok (region, index) tx' ∧
      tx'.Claimable {tx'.geo.regionBase region + index} ∧
      ¬tx'.Claimable (blockRun (tx'.geo.regionBase region + index) len)
  | .allocateExact start blocks =>
    tx.LetIn start blocks ∧ tx.Claimable {start} ∧ ¬tx.Claimable (blockRun start blocks)
  | _ => False

inductive Outcome (tx : TxAllocator) (call : Call) : EStateM.Result CoreError TxAllocator Reply → Prop
  | granted (start blocks region index : Nat) (cache : PageCache) (hfree : blockRun start blocks ⊆ tx.free)
      (hwhole : ¬call.ClaimsPartially tx) :
      Outcome tx call
        (.ok (.granted start blocks) (TxAllocator.tookAt (blockRun start blocks) region index { tx with cache }))
  | released (lba : Nat) (cache : PageCache) (hheld : lba ∈ tx.allocatedThisTx)
      (hwhole : ¬call.ClaimsPartially tx) :
      Outcome tx call (.ok (.released lba) (TxAllocator.released lba { tx with cache }))
  | retired (start blocks : Nat) (tx' : TxAllocator) (hquiet : Quiet tx tx')
      (hother : Disjoint tx.allocatedThisTx (blockRun start blocks))
      (hset : ∀ lba ∈ blockRun start blocks, tx.bits lba = true)
      (hwhole : ¬call.ClaimsPartially tx) : Outcome tx call (.ok (.retired start blocks) tx')
  | abandoned (start blocks : Nat) (tx' : TxAllocator) (hquiet : Quiet tx tx')
      (hheld : blockRun start blocks ⊆ tx.allocatedThisTx)
      (hgone : Disjoint tx'.allocatedThisTx (blockRun start blocks))
      (hwhole : ¬call.ClaimsPartially tx) : Outcome tx call (.ok (.abandoned start blocks) tx')
  | refused (tx' : TxAllocator) (hquiet : Quiet tx tx') (hwhole : ¬call.ClaimsPartially tx) :
      Outcome tx call (.ok .refused tx')
  | done (tx' : TxAllocator) (hquiet : Quiet tx tx') (hwhole : ¬call.ClaimsPartially tx) :
      Outcome tx call (.ok .done tx')
  | failed (e : CoreError) (tx' : TxAllocator) (hquiet : Quiet tx tx')
      (hwhole : ¬call.ClaimsPartially tx) : Outcome tx call (.error e tx')
  | leaked (e : CoreError) (run : Finset Nat) (cache : PageCache) (hfree : run ⊆ tx.free) (hne : run.Nonempty)
      (hclaims : call.ClaimsPartially tx) : Outcome tx call (.error e (setBits run true { tx with cache }))

private theorem Outcome.stopped {call : Call} {start k : Nat} (e : CoreError) (cache : PageCache)
    (hfree : blockRun start k ⊆ tx.free) (hzero : k = 0 ↔ ¬call.ClaimsPartially tx) :
    Outcome tx call (.error e (setBits (blockRun start k) true { tx with cache })) := by
  by_cases hnone : k = 0
  · subst hnone
    rw [blockRun_zero, setBits_empty]
    exact .failed e _ (Reads.quiet ⟨cache, rfl⟩) (hzero.mp rfl)
  · exact .leaked e _ cache hfree ⟨start, mem_blockRun.mpr ⟨le_rfl, by omega⟩⟩
      (not_not.mp fun hwhole => hnone (hzero.mpr hwhole))

private theorem outcome_allocateExact (hsound : Sound tx) (start blocks : Nat) :
    Outcome tx (.allocateExact start blocks) ((Call.allocateExact start blocks).run tx) := by
  rw [Call.run]
  by_cases hlet : tx.LetIn start blocks
  · by_cases hclaim : tx.Claimable (blockRun start blocks)
    · obtain ⟨cache, hrun⟩ := allocateExactRun_of hsound hlet hclaim
      rw [bind_of_ok hrun]
      exact .granted start blocks tx.roverRegion tx.roverIndex cache hclaim.free fun h => h.2.2 hclaim
    · obtain ⟨e, k, cache, hfree, hzero, hrun⟩ := allocateExactRun_of_not hlet hclaim
      rw [bind_of_error hrun]
      refine .stopped e cache hfree (hzero.trans (not_congr ?_))
      exact ⟨fun h => ⟨hlet, h, hclaim⟩, fun h => h.2.1⟩
  · obtain ⟨e, he⟩ := allocateExactRun_refused hlet
    rw [bind_of_error he]
    exact .failed e tx (.refl tx) fun h => hlet h.1

private theorem outcome_allocate (hsound : Sound tx) (len : Nat) (hlen : 0 < len) :
    Outcome tx (.allocate len hlen) ((Call.allocate len hlen).run tx) := by
  rw [Call.run]
  by_cases hsearch : tx.Searches len
  swap
  · obtain ⟨e, he⟩ := allocateRun_refused hsearch
    rw [bind_of_error he]
    exact .failed e tx (.refl tx) fun h => hsearch h.1
  have hreads := (inferInstance : Moving Reads
    (searchRegions len (List.range tx.geo.regionCount))).moves tx
  cases hfound : searchRegions len (List.range tx.geo.regionCount) tx with
  | error e tx' =>
    rw [hfound] at hreads
    rw [bind_of_error ((allocateRun_of hsearch).trans (bind_of_error hfound))]
    refine .failed e tx' (Reads.quiet hreads) ?_
    rintro ⟨-, region, index, tx'', hok, -⟩
    cases hfound.symm.trans hok
  | ok found tx' =>
    obtain ⟨region, index⟩ := found
    rw [hfound] at hreads
    obtain ⟨cache, rfl⟩ := hreads
    have hfree := searchRegions_eq_ok hfound
    have hcall : allocateRun len tx = claimFound region len index { tx with cache } :=
      (allocateRun_of hsearch).trans (bind_of_ok hfound)
    -- the search is a function of the state, so the partial claim is about this run
    have hpart : Call.ClaimsPartially tx (.allocate len hlen) ↔
        Claimable { tx with cache } {tx.geo.regionBase region + index} ∧
          ¬Claimable { tx with cache } (blockRun (tx.geo.regionBase region + index) len) := by
      constructor
      · rintro ⟨-, _, _, _, hok, hclaims⟩
        cases hfound.symm.trans hok
        exact hclaims
      · exact fun hclaims => ⟨hsearch, region, index, _, hfound, hclaims⟩
    by_cases hclaim : Claimable { tx with cache } (blockRun (tx.geo.regionBase region + index) len)
    · obtain ⟨cache', hrun⟩ := claimFound_of (hsound.cached cache) hfree hclaim
      rw [bind_of_ok (hcall.trans hrun)]
      exact .granted _ len region _ cache' hfree fun h => (hpart.mp h).2 hclaim
    · obtain ⟨e, k, cache', hsub, hzero, hrun⟩ := @claimFound_of_not { tx with cache } _ _ _ hfree hclaim
      rw [bind_of_error (hcall.trans hrun)]
      refine .stopped e cache' hsub (hzero.trans (not_congr ?_))
      rw [hpart]
      exact (and_iff_left hclaim).symm

theorem outcome (hsound : Sound tx) (call : Call) : Outcome tx call (call.run tx) := by
  cases call with
  | allocate len hlen => exact outcome_allocate hsound len hlen
  | extend runStart runBlocks blocks =>
    rw [Call.run]
    obtain ⟨hfree, cache, hrun⟩ | ⟨cache, hrun⟩ | ⟨e, cache, hrun⟩ :=
      tryExtendRun_cases hsound runStart runBlocks blocks
    · rw [bind_of_ok hrun]
      exact .granted _ _ tx.roverRegion tx.roverIndex cache hfree id
    · rw [bind_of_ok hrun]
      exact .refused _ (Reads.quiet ⟨cache, rfl⟩) id
    · rw [bind_of_error hrun]
      exact .failed e _ (Reads.quiet ⟨cache, rfl⟩) id
  | allocateExact start blocks => exact outcome_allocateExact hsound start blocks
  | retire start blocks =>
    rw [Call.run]
    have hmoves := moves_retireRun start blocks tx
    cases hrun : retireRun start blocks tx with
    | ok u tx' =>
      rw [hrun] at hmoves
      obtain ⟨hoth, hset⟩ := retireRun_eq_ok hrun
      rw [bind_of_ok hrun]
      exact .retired start blocks tx' hmoves hoth hset id
    | error e tx' =>
      rw [hrun] at hmoves
      rw [bind_of_error hrun]
      exact .failed e tx' hmoves id
  | abandon start blocks =>
    rw [Call.run]
    have hmoves := moves_abandonUncommittedRun start blocks tx
    cases hrun : abandonUncommittedRun start blocks tx with
    | ok u tx' =>
      rw [hrun] at hmoves
      obtain ⟨hheld, hgone⟩ := abandonUncommittedRun_eq_ok hrun
      rw [bind_of_ok hrun]
      exact .abandoned start blocks tx' hmoves hheld hgone id
    | error e tx' =>
      rw [hrun] at hmoves
      rw [bind_of_error hrun]
      exact .failed e tx' hmoves id
  | release lba =>
    rw [Call.run]
    obtain ⟨hheld, cache, hrun⟩ | ⟨e, tx', hquiet, hrun⟩ := releaseUncommitted_cases hsound lba
    · rw [bind_of_ok hrun]
      exact .released lba cache hheld id
    · rw [bind_of_error hrun]
      exact .failed e tx' hquiet id
  | setFloor blocks =>
    exact .done _ ⟨rfl, Subset.refl _, (Quiet.refl tx).tracked⟩ id
  | setSnapshot phase registryRoot mutation =>
    exact .done _ (@Quiet.ofSnapshot (fun snapshot => { snapshot with phase, registryRoot, mutation })
      (fun _ => Subset.refl _) tx) id

/-! ### Sequences of calls -/

/-- A transaction with the blocks it has out and those it has put away: what successful calls handed
out and did not take back, and what they retired or abandoned. -/
structure Session where
  tx : TxAllocator
  out : Finset Nat
  kept : Finset Nat

namespace Session

def start (tx : TxAllocator) : Session := ⟨tx, ∅, ∅⟩

def answer (s : Session) (tx : TxAllocator) : Reply → Session
  | .granted start blocks => { s with tx, out := s.out ∪ blockRun start blocks }
  | .refused => { s with tx }
  | .retired start blocks => { s with tx, kept := s.kept ∪ blockRun start blocks }
  | .abandoned start blocks =>
    ⟨tx, s.out \ blockRun start blocks, s.kept ∪ blockRun start blocks⟩
  | .released lba => { s with tx, out := s.out.erase lba }
  | .done => { s with tx }

/-- A failed call leaves the state it reached, and the transaction goes on from there. -/
def step (s : Session) (call : Call) : Session :=
  match call.run s.tx with
  | .ok reply tx => s.answer tx reply
  | .error _ tx => { s with tx }

def run (s : Session) (calls : List Call) : Session := calls.foldl step s

/-- No call of the sequence marks a part of its run and fails. -/
def NoPartialClaim (s : Session) : List Call → Prop
  | [] => True
  | call :: rest => ¬call.ClaimsPartially s.tx ∧ (s.step call).NoPartialClaim rest

structure Ok (s : Session) : Prop where
  sound : Sound s.tx
  out : ∀ lba ∈ s.out, s.tx.bits lba = true
  kept : ∀ lba ∈ s.kept, s.tx.bits lba = true
  other : Disjoint s.tx.allocatedThisTx s.kept

private theorem ok_start {tx : TxAllocator} (h : Sound tx) : Ok (start tx) :=
  ⟨h, (fun _ hlba => by cases hlba), (fun _ hlba => by cases hlba), disjoint_empty_right _⟩

variable {s : Session}

variable (h : Ok s)

include h

theorem Ok.quiet {tx : TxAllocator} (hquiet : Quiet s.tx tx) :
    Ok { s with tx } := by
  refine ⟨hquiet.sound h.sound, fun lba hlba => ?_, fun lba hlba => ?_, ?_⟩
  · rw [hquiet.bits]
    exact h.out lba hlba
  · rw [hquiet.bits]
    exact h.kept lba hlba
  · exact disjoint_of_subset_left hquiet.held h.other

theorem Ok.cached (cache : PageCache) : Ok { s with tx := { s.tx with cache } } :=
  h.quiet (Reads.quiet ⟨cache, rfl⟩)

theorem Ok.mark (run : Finset Nat) :
    Ok { s with tx := setBits run true s.tx } := by
  have hset : ∀ lba, s.tx.bits lba = true → (setBits run true s.tx).bits lba = true := by
    intro lba hbit
    by_cases hmem : lba ∈ run
    · simp [setBits, hmem]
    · simp [setBits, hmem, hbit]
  exact ⟨h.sound.mark run, fun lba hlba => hset lba (h.out lba hlba),
    fun lba hlba => hset lba (h.kept lba hlba), h.other⟩

theorem Ok.granted {start blocks : Nat} (region index : Nat) (hfree : blockRun start blocks ⊆ s.tx.free) :
    Ok (s.answer (s.tx.tookAt (blockRun start blocks) region index) (.granted start blocks)) := by
  have hmark := h.mark (blockRun start blocks)
  have hsound := h.sound.took hfree
  refine ⟨⟨hsound.reserved, hsound.held, hsound.tracked, hsound.counted, hsound.covered, hsound.clean,
    hsound.regions⟩, fun lba hlba => ?_, hmark.kept, ?_⟩
  · rcases mem_union.mp hlba with hold | hnew
    · exact hmark.out lba hold
    · simp [answer, tookAt, TxAllocator.took, setBits, hnew]
  · refine disjoint_union_left.mpr ⟨h.other, ?_⟩
    rw [disjoint_left]
    intro lba hmem hkept
    have hbit := h.kept lba hkept
    rw [(mem_free.mp (hfree hmem)).2] at hbit
    cases hbit

theorem Ok.released {lba : Nat} (hheld : lba ∈ s.tx.allocatedThisTx) :
    Ok (s.answer (s.tx.released lba) (.released lba)) := by
  have hset : ∀ other, other ≠ lba → s.tx.bits other = true → (s.tx.released lba).bits other = true := by
    intro other hne hbit
    simp [TxAllocator.released, setBits, hne, hbit]
  refine ⟨h.sound.released hheld, fun other hmem => ?_, fun other hmem => ?_, ?_⟩
  · obtain ⟨hne, hmem⟩ := mem_erase.mp hmem
    exact hset other hne (h.out other hmem)
  · refine hset other ?_ (h.kept other hmem)
    rintro rfl
    exact disjoint_left.mp h.other hheld hmem
  · exact disjoint_of_subset_left (erase_subset _ _) h.other

theorem Ok.step (call : Call) : Ok (s.step call) := by
  have houtcome := outcome h.sound call
  rw [Session.step]
  cases houtcome' : call.run s.tx with
  | ok reply tx' =>
    rw [houtcome'] at houtcome
    cases houtcome with
    | granted start blocks region index cache hfree => exact (h.cached cache).granted region index hfree
    | released lba cache hheld => exact (h.cached cache).released hheld
    | retired start blocks tx' hquiet hoth hset =>
      have hnext := h.quiet hquiet
      refine ⟨hnext.sound, hnext.out, fun lba hlba => ?_, ?_⟩
      · rcases mem_union.mp hlba with hold | hnew
        · exact hnext.kept lba hold
        · show tx'.bits lba = true
          rw [hquiet.bits]
          exact hset lba hnew
      · exact disjoint_union_right.mpr ⟨hnext.other, disjoint_of_subset_left hquiet.held hoth⟩
    | abandoned start blocks tx' hquiet hheld hgone =>
      have hnext := h.quiet hquiet
      refine ⟨hnext.sound, fun lba hlba => hnext.out lba (mem_sdiff.mp hlba).1,
        fun lba hlba => ?_, disjoint_union_right.mpr ⟨hnext.other, hgone⟩⟩
      rcases mem_union.mp hlba with hold | hnew
      · exact hnext.kept lba hold
      · show tx'.bits lba = true
        rw [hquiet.bits]
        exact (h.sound.held lba (hheld hnew)).2
    | refused tx' hquiet => exact h.quiet hquiet
    | done tx' hquiet => exact h.quiet hquiet
  | error e tx' =>
    rw [houtcome'] at houtcome
    cases houtcome with
    | failed e tx' hquiet => exact h.quiet hquiet
    | leaked e run cache hfree => exact (h.cached cache).mark run

theorem Ok.run (calls : List Call) : Ok (s.run calls) := by
  induction calls generalizing s with
  | nil => exact h
  | cons call rest ih => exact ih (h.step call)

private theorem Ok.balanced_step (call : Call) :
    (s.step call).tx.Balanced ↔ s.tx.Balanced ∧ ¬call.ClaimsPartially s.tx := by
  have houtcome := outcome h.sound call
  rw [Session.step]
  cases houtcome' : call.run s.tx with
  | ok reply tx' =>
    rw [houtcome'] at houtcome
    cases houtcome with
    | granted start blocks region index cache hfree hwhole =>
      rw [and_iff_left hwhole]
      exact @balanced_tookAt { s.tx with cache } _ hfree region index
    | released lba cache hheld hwhole =>
      rw [and_iff_left hwhole]
      exact (h.cached cache).sound.balanced_released hheld
    | retired start blocks tx' hquiet hoth hset hwhole =>
      rw [and_iff_left hwhole]
      exact hquiet.balanced
    | abandoned start blocks tx' hquiet hheld hgone hwhole =>
      rw [and_iff_left hwhole]
      exact hquiet.balanced
    | refused tx' hquiet hwhole =>
      rw [and_iff_left hwhole]
      exact hquiet.balanced
    | done tx' hquiet hwhole =>
      rw [and_iff_left hwhole]
      exact hquiet.balanced
  | error e tx' =>
    rw [houtcome'] at houtcome
    cases houtcome with
    | failed e tx' hquiet hwhole =>
      rw [and_iff_left hwhole]
      exact hquiet.balanced
    | leaked e run cache hfree hne hclaims =>
      constructor
      · intro hbalanced
        exact absurd hbalanced (not_balanced_mark (h.cached cache).sound hfree hne)
      · rintro ⟨-, hwhole⟩
        exact absurd hclaims hwhole

private theorem Ok.balanced_run (calls : List Call) :
    (s.run calls).tx.Balanced ↔ s.tx.Balanced ∧ s.NoPartialClaim calls := by
  induction calls generalizing s with
  | nil => exact (and_iff_left trivial).symm
  | cons call rest ih =>
    have hrun : s.run (call :: rest) = (s.step call).run rest := rfl
    rw [hrun, ih (h.step call), h.balanced_step call, NoPartialClaim, and_assoc]

private theorem Ok.fixed_step (call : Call) : (s.step call).tx.fixed = s.tx.fixed := by
  have hquiet : ∀ {tx' : TxAllocator}, Quiet s.tx tx' → tx'.fixed = s.tx.fixed := by
    intro tx' hquiet
    have hledger := hquiet.ledger
    simp only [ledger, Prod.mk.injEq] at hledger
    obtain ⟨⟨hgeo, hcomm, htotal, hgen, -⟩, -⟩ := hledger
    rw [fixed, fixed, hgeo, hcomm, htotal, hgen]
  have houtcome := outcome h.sound call
  rw [Session.step]
  cases hrun : call.run s.tx with
  | ok reply tx' =>
    rw [hrun] at houtcome
    cases houtcome with
    | granted => rfl
    | released => rfl
    | retired start blocks tx' hsame => exact hquiet hsame
    | abandoned start blocks tx' hsame => exact hquiet hsame
    | refused tx' hsame => exact hquiet hsame
    | done tx' hsame => exact hquiet hsame
  | error e tx' =>
    rw [hrun] at houtcome
    cases houtcome with
    | failed e tx' hsame => exact hquiet hsame
    | leaked => rfl

private theorem Ok.fixed_run (calls : List Call) : (s.run calls).tx.fixed = s.tx.fixed := by
  induction calls generalizing s with
  | nil => rfl
  | cons call rest ih => exact (ih (h.step call)).trans (h.fixed_step call)

omit h

/-! ### The end of the transaction -/

private theorem run_allocateEach {count : Nat} {lbas : List Nat} {tx' : TxAllocator}
    (h : allocateEach count s.tx = .ok lbas tx') :
    (s.run (List.replicate count (.allocate 1 Nat.one_pos))).tx = tx' := by
  induction count generalizing s lbas with
  | zero =>
    obtain ⟨-, rfl⟩ := pure_eq_ok.mp h
    rfl
  | succ count ih =>
    obtain ⟨lba, tx₁, hfirst, h⟩ := bind_eq_ok.mp h
    obtain ⟨rest, tx₂, hrest, h⟩ := bind_eq_ok.mp h
    obtain ⟨-, rfl⟩ := pure_eq_ok.mp h
    have hstep : s.step (.allocate 1 Nat.one_pos) = s.answer tx₁ (.granted lba 1) := by
      rw [step, Call.run, bind_of_ok (show allocateRun 1 s.tx = _ from hfirst)]
      rfl
    have htx : (s.step (.allocate 1 Nat.one_pos)).tx = tx₁ := by
      rw [hstep]
      rfl
    rw [← htx] at hrest
    exact ih hrest

private theorem tx_setSnapshot (s : Session) (phase : SnapshotPhase) (registryRoot : Nat)
    (mutation : Option LifetimeOutput) :
    (s.step (.setSnapshot phase registryRoot mutation)).tx = { s.tx with
      snapshot := s.tx.snapshot.map fun snapshot => { snapshot with phase, registryRoot, mutation } } :=
  rfl

private theorem finish_eq_ok {finished : FinishedAlloc} {tx' : TxAllocator} (h : finish s.tx = .ok finished tx') :
    (∃ more, tx' = (s.run more).tx) ∧ ∃ regions,
      tx'.finishRegions ((List.range tx'.geo.regionCount).filter fun region =>
        region ∈ tx'.dirtyRegions) tx'.currentFreeBlocksTotal = .ok (regions, finished.freeBlocksTotal) ∧
      finished.bitmapWrites = regions.flatMap (fun region => region.2.bitmapWrites) ∧
      finished.descriptorWrites = regions.map (fun region => region.2.descriptorWrite) ∧
      finished.dirtyRecords = regions.map fun region => (region.1, region.2.record) := by
  unfold finish at h
  obtain ⟨_, checked, hcheck, h⟩ := bind_eq_ok.mp h
  have hchecked : checked = s.tx := by
    rw [checkSnapshotHealth, get_bind_eq_ok, require_eq_ok] at hcheck
    exact hcheck.2
  rw [hchecked, get_bind_eq_ok] at h
  obtain ⟨-, h⟩ := require_bind_eq_ok.mp h
  obtain ⟨_, sealed, hsealed, h⟩ := bind_eq_ok.mp h
  obtain ⟨⟨reclaim, needed⟩, -, h⟩ := lift_bind_eq_ok.mp h
  obtain ⟨lbas, allocated, hallocd, h⟩ := bind_eq_ok.mp h
  obtain ⟨built, -, h⟩ := lift_bind_eq_ok.mp h
  rw [get_bind_eq_ok] at h
  obtain ⟨⟨regions, total⟩, hregs, h⟩ := lift_bind_eq_ok.mp h
  obtain ⟨rfl, rfl⟩ := pure_eq_ok.mp h
  refine ⟨?_, regions, hregs, rfl, rfl, rfl⟩
  -- entering the last phase is a change of the snapshot accounting
  have henter : ∃ root mutation, (s.step (.setSnapshot .finalizing root mutation)).tx = sealed := by
    rw [modify_eq_ok.mp hsealed]
    cases hsnapshot : s.tx.snapshot with
    | none =>
      refine ⟨0, none, ?_⟩
      rw [tx_setSnapshot, hsnapshot]
      rfl
    | some snapshot =>
      refine ⟨snapshot.registryRoot, snapshot.mutation, ?_⟩
      rw [tx_setSnapshot, hsnapshot]
      rfl
  obtain ⟨root, mutation, henter⟩ := henter
  rw [← henter] at hallocd
  exact ⟨_ :: _, (run_allocateEach hallocd).symm⟩

end Session

section Transaction

variable {dev : Device} {geo : Geometry} {committed : CommittedAllocation} {current : Checkpoint}
  {other : Option Checkpoint} {newGeneration batchBlocks roverRegion : Nat}
  {loads : List (Option CoreError)} {tx : TxAllocator}

/-- After any calls, however the loads are answered: a run the next call hands out is allocatable, in one
region, free and held by nobody; what was retired or abandoned is still marked; the free count is exact
as long as no marking loop failed behind a block it had marked; a refused extension changes nothing but
the pages in memory; and a finish publishes a state that agrees with the bits it ends with. -/
theorem transaction_accounting (hvalid : geo.Valid)
    (hagree : Agree dev geo current.generation current.freeBlocksTotal committed.records
      committed.descriptors committed.bits)
    (hnewer : current.generation ≤ newGeneration) (hwidth : newGeneration < 2 ^ 64)
    (hbegin : begin dev geo committed current other newGeneration batchBlocks roverRegion loads = .ok tx)
    (calls : List Call) :
    let s := (Session.start tx).run calls
    (∀ (call : Call) start blocks tx', call.run s.tx = .ok (.granted start blocks) tx' →
      ∀ lba ∈ blockRun start blocks, geo.regionOf lba = geo.regionOf start ∧
        geo.isAllocatable lba = true ∧ s.tx.bits lba = false ∧ lba ∉ s.out) ∧
    (∀ lba ∈ s.kept, s.tx.bits lba = true) ∧
    (s.tx.freeBlocksRemaining = (freeSet geo s.tx.bits).card ↔ (Session.start tx).NoPartialClaim calls) ∧
    (∀ runStart runBlocks blocks, (∃ tx', tryExtendRun runStart runBlocks blocks s.tx = .ok true tx') ∨
      (∃ cache, tryExtendRun runStart runBlocks blocks s.tx = .ok false { s.tx with cache }) ∨
      ∃ e cache, tryExtendRun runStart runBlocks blocks s.tx = .error e { s.tx with cache }) ∧
    ∀ finished tx', finish s.tx = .ok finished tx' → (∃ more, tx' = (s.run more).tx) ∧
      finished.freeBlocksTotal = (freeSet geo tx'.bits).card ∧
      ∃ descriptors, Agree
        (dev.writeAll (finished.bitmapWrites ++ finished.descriptorWrites)) geo newGeneration
        finished.freeBlocksTotal (Finishing.published committed.records finished.dirtyRecords)
        descriptors tx'.bits := by
  obtain ⟨hfresh, hfixed⟩ := begin_fresh hvalid hagree hbegin
  have hstart := Session.ok_start hfresh.sound
  have hok := hstart.run calls
  have hrunFixed := (hstart.fixed_run calls).trans hfixed
  simp only [fixed, Prod.mk.injEq] at hrunFixed
  obtain ⟨hgeo, -⟩ := hrunFixed
  refine ⟨fun call start blocks tx' hcall lba hlba => ?_, hok.kept, ?_, fun a b c => ?_,
    fun finished tx' hfinish => ?_⟩
  · have houtcome := outcome hok.sound call
    rw [hcall] at houtcome
    cases houtcome with
    | granted start blocks region index cache hfree =>
      obtain ⟨halloc, hclear⟩ := mem_free.mp (hfree hlba)
      refine ⟨hgeo ▸ regionOf_of_free hfree hlba, hgeo ▸ halloc, hclear, fun hout => ?_⟩
      have hset := hok.out lba hout
      rw [hclear] at hset
      cases hset
  · have hcount := hok.sound.balanced_iff
    rw [free, hgeo] at hcount
    rw [← hcount, hstart.balanced_run calls]
    exact and_iff_right hfresh.balanced
  · obtain ⟨-, cache, hrun⟩ | hrefused := tryExtendRun_cases hok.sound a b c
    · exact .inl ⟨_, hrun⟩
    · exact .inr hrefused
  · obtain ⟨⟨more, hmore⟩, regions, hregions, hbitmap, hdescriptor, hrecords⟩ := Session.finish_eq_ok hfinish
    have hokEnd := hok.run more
    have hfixedEnd := (hok.fixed_run more).trans ((hstart.fixed_run calls).trans hfixed)
    rw [← hmore] at hfixedEnd
    simp only [fixed, Prod.mk.injEq] at hfixedEnd
    obtain ⟨hgeoEnd, hcommittedEnd, htotalEnd, hgenerationEnd⟩ := hfixedEnd
    obtain ⟨hdirty, hdone, htotal⟩ := finishRegions_eq_ok hregions
    have hfinishing : Finishing tx' dev current.generation regions := by
      refine ⟨hgeoEnd ▸ hvalid, ?_, hgenerationEnd ▸ hnewer, hgenerationEnd ▸ hwidth, ?_, hdirty, hdone⟩
      · rw [hgeoEnd, hcommittedEnd, htotalEnd]
        exact hagree
      · rw [hmore]
        exact hokEnd.sound
    rw [← hdirty] at htotal
    obtain ⟨descriptors, hpublished⟩ := hfinishing.agreeAfter htotal
    rw [hgeoEnd, hcommittedEnd, hgenerationEnd, ← hrecords] at hpublished
    have hwrites : Finishing.writes regions = finished.bitmapWrites ++ finished.descriptorWrites := by
      rw [Finishing.writes, hbitmap, hdescriptor]
    rw [hwrites] at hpublished
    exact ⟨⟨more, hmore⟩, hpublished.total_eq hvalid, descriptors, hpublished⟩

end Transaction

section Sample

open ReclaimTx (sampleRoot sampleRoot_inRange root_encode_of)

/-- Of the blocks behind the reserved head, 9, 10 and 13 are in use. -/
def sampleBits (lba : Nat) : Bool := lba < 11 || lba == 13 || 32 ≤ lba

def samplePage : BitmapPage := ⟨0, 0, 0, 32, [255, 39, 0, 0]⟩

def sampleDescriptor : RegionDescriptor := ⟨0, 32, 20, [⟨0, 20, 1⟩]⟩

/-- Descriptor slot 3, bitmap slot 6 and the empty queue in block 10. -/
def sampleVolume : Device :=
  ⟨4096, 32, Device.addressWidth_sample, fun lba =>
    if lba = 3 then (sampleDescriptor.header 1).sealPayload 4096 sampleDescriptor.payload
    else if lba = 6 then (samplePage.header 1).sealPayload 4096 samplePage.payload
    else if lba = 10 then (sampleRoot.header 1).sealPayload 4096 sampleRoot.payload else []⟩

def sampleCommitted : CommittedAllocation :=
  ⟨fun _ => ⟨0, 20, 1⟩, fun _ => sampleDescriptor, none, none, sampleBits⟩

def sampleCheckpoint : Checkpoint :=
  ⟨List.replicate 16 0, 1, 1, 9, 9, 10, 16, 1, 20, 0, 0, Utf8.empty, none⟩

private theorem sampleGeometry_valid : Geometry.sample.Valid :=
  Geometry.valid_of_validate (u := ()) (by decide)

private theorem sampleDescriptor_encode : sampleDescriptor.encode 4096 1
    = .ok ((sampleDescriptor.header 1).sealPayload 4096 sampleDescriptor.payload) := by
  rw [RegionDescriptor.encode]
  iterate 4 rw [refuseIf_bind (by decide)]
  rfl

private theorem samplePage_encode : samplePage.encode 4096 1
    = .ok ((samplePage.header 1).sealPayload 4096 samplePage.payload) := by
  rw [BitmapPage.encode]
  iterate 5 rw [refuseIf_bind (by decide)]
  rfl

private theorem sample_agree : Agree sampleVolume Geometry.sample 1 20 sampleCommitted.records
    sampleCommitted.descriptors sampleCommitted.bits := by
  have hone : ∀ region < Geometry.sample.regionCount, region = 0 := by decide
  have hdesc : loadRegionDescriptor sampleVolume Geometry.sample 0 ⟨0, 20, 1⟩ = .ok sampleDescriptor := by
    have hdec := RegionDescriptor.decode_encode (by decide) (by decide) (by decide) (by decide)
      sampleDescriptor_encode
    refine loadRegionDescriptor_eq_ok.mpr ⟨by decide, ?_, by decide, rfl⟩
    rw [← hdec]
    rfl
  have hpage : loadBitmapPage sampleVolume Geometry.sample 0 0 sampleDescriptor = .ok samplePage := by
    have hdec := BitmapPage.decode_encode (by decide) (by decide) (by decide)
      samplePage_encode
    have hsealed : samplePage.sealTrailingBits = samplePage := by decide
    rw [hsealed] at hdec
    refine loadBitmapPage_eq_ok.mpr ⟨⟨0, 20, 1⟩, rfl, by decide, ?_, rfl, rfl, by decide,
      by decide⟩
    rw [← hdec]
    rfl
  refine ⟨by decide, fun _ _ => (by decide : 0 < descriptorSlots), fun _ _ => le_refl 1,
    fun region hreg => ?_, fun region hreg page hlt => ?_, by decide, fun lba hlba => ?_⟩
  · rw [hone region hreg]
    exact hdesc
  · rw [hone region hreg] at hlt ⊢
    have hzero : page = 0 := by
      have hcnt : Geometry.sample.bitmapPageCount 0 = 1 := by decide
      omega
    subst hzero
    refine ⟨samplePage, hpage, ?_⟩
    decide
  · have hall : ∀ lba < 32, Geometry.sample.isReserved lba = true → sampleBits lba = true := by decide
    have hlt : lba < 32 := by
      rw [Geometry.isReserved, Bool.and_eq_true, decide_eq_true_eq] at hlba
      exact hlba.1
    exact hall lba hlt hlba

/-- The transaction after `begin`: the queue gives nothing. -/
def sampleTx (loads : List (Option CoreError)) : TxAllocator := {
  geo := Geometry.sample, committed := sampleCommitted, currentFreeBlocksTotal := 20
  currentSnapshotRoots := none, newGeneration := 2, bits := sampleBits
  dirtyPages := ∅, dirtyRegions := ∅, cache := ⟨∅, ∅, loads⟩, reclaim := ReclaimTx.sampleTx
  allocatedThisTx := ∅, retiredThisTx := ∅, snapshot := none, roverRegion := 0, roverIndex := 0
  freeBlockFloor := 0, blocksPromoted := 0, blocksAllocated := 0, blocksReleased := 0 }

private theorem begin_sample (loads : List (Option CoreError)) :
    begin sampleVolume Geometry.sample sampleCommitted sampleCheckpoint none 2 8 0 loads = .ok (sampleTx loads) := by
  have hdec := ReclaimRoot.decode_encode sampleRoot_inRange (by decide) (@root_encode_of sampleRoot 1 (by decide))
  have hroot : ReclaimTx.readRoot sampleVolume Geometry.sample 10 1 = .ok sampleRoot := by
    refine ReclaimTx.readRoot_eq_ok.mpr ⟨by decide, by decide, 1, ?_, le_rfl, rfl, by decide⟩
    rw [← hdec]
    rfl
  have hreclaim : ReclaimTx.begin sampleVolume Geometry.sample sampleCheckpoint.reclaimRootBlock
      sampleCheckpoint.generation 2 sampleCheckpoint.generation 8 = .ok ReclaimTx.sampleTx := by
    show ReclaimTx.begin sampleVolume Geometry.sample 10 1 2 1 8 = _
    rw [ReclaimTx.begin, refuseIf_bind (by decide), hroot]
    rfl
  unfold begin
  dsimp only
  rw [hreclaim]
  rfl

/-- Blocks 11 and 12 stay marked when the claim stops at 13, and the count does not know. -/
theorem exact_claim_leaks_marked_blocks :
    Geometry.sample.Valid ∧
      Agree sampleVolume Geometry.sample sampleCheckpoint.generation
        sampleCheckpoint.freeBlocksTotal sampleCommitted.records sampleCommitted.descriptors
        sampleCommitted.bits ∧
      begin sampleVolume Geometry.sample sampleCommitted sampleCheckpoint none 2 8 0 [] = .ok (sampleTx []) ∧
      let s := (Session.start (sampleTx [])).run [.allocateExact 11 3]
      s.tx.freeBlocksRemaining = 20 ∧ (freeSet Geometry.sample s.tx.bits).card = 18 := by
  refine ⟨sampleGeometry_valid, sample_agree, begin_sample [], ?_⟩
  decide

/-- A claim whose page cannot be read, the same claim again, and one whose first block is taken. -/
theorem transaction_accounting_sample :
    let s := (Session.start (sampleTx [some (.block .io)])).run
      [.allocateExact 11 2, .allocateExact 11 2, .allocateExact 12 3]
    s.tx.allocatedThisTx = blockRun 11 2 ∧
      s.tx.freeBlocksRemaining = (freeSet Geometry.sample s.tx.bits).card := by
  refine ⟨by decide, ?_⟩
  have h := transaction_accounting sampleGeometry_valid sample_agree (by decide) (by decide)
    (begin_sample [some (.block .io)]) [.allocateExact 11 2, .allocateExact 11 2, .allocateExact 12 3]
  refine h.2.2.1.mpr ⟨?_, ?_, ?_, trivial⟩
  · rintro ⟨-, hfirst, -⟩
    have hanswers := hfirst.answers
    rw [image_singleton, PageCache.answers_singleton] at hanswers
    revert hanswers
    decide
  · rintro ⟨-, -, hpart⟩
    refine hpart ⟨by decide, fun answer hanswer => ?_⟩
    have hnone : ((Session.start (sampleTx [some (.block .io)])).step (.allocateExact 11 2)).tx.cache.loads = [] := by decide
    rw [hnone] at hanswer
    cases hanswer
  · rintro ⟨-, hfirst, -⟩
    have htaken : 12 ∉ (((Session.start (sampleTx [some (.block .io)])).step (.allocateExact 11 2)).step
      (.allocateExact 11 2)).tx.free := by decide
    exact htaken (hfirst.free (mem_singleton_self _))

end Sample

end TxAllocator

end Afsplus
