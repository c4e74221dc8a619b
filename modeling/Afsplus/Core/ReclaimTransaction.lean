import Afsplus.Core.ReclaimRebuild

/-!
# A transaction over the reclaim queue

The four steps of a transaction: it consumes from the committed queue, appends the runs it retires,
plans the rebuild and builds. Between two loads nothing is lost: blocks leave the queue at its front,
and the runs the transaction retires and the queue's own superseded blocks enter it at its end.
-/

namespace Afsplus

open Fallible List ReclaimRoot

namespace ReclaimTx

variable {geo : Geometry} {generation : Nat} {dev : Device}

/-- The calls of `append_run` a transaction makes, in order. -/
def appendRuns (geo : Geometry) : List (Nat × Nat) → ReclaimTx → Except CoreError ReclaimTx
  | [], tx => .ok tx
  | (start, blocks) :: rest, tx => do
    let tx ← appendRun geo start blocks tx
    appendRuns geo rest tx

variable {tx : ReclaimTx} {root : ReclaimRoot} {newGeneration protectedGeneration : Nat} {loaded : LoadedReclaim}
  {runs : List ReclaimEntry}

private theorem appendRuns_eq_ok {runs : List (Nat × Nat)} {tx' : ReclaimTx} (h : appendRuns geo runs tx = .ok tx') :
    tx' = { tx with
      appends := tx.appends ++ runs.map fun run => ⟨run.1, run.2, tx.newGeneration⟩ } ∧
      ∀ run ∈ runs, Mount.validateRun geo ⟨run.1, run.2, tx.newGeneration⟩ = .ok () := by
  induction runs generalizing tx with
  | nil =>
    cases h
    simp
  | cons run rest ih =>
    obtain ⟨start, blocks⟩ := run
    obtain ⟨tx₁, happend, h⟩ := of_bind h
    obtain ⟨hval, happend⟩ := check_ok.mp happend
    cases happend
    obtain ⟨hrest, hruns⟩ := ih h
    refine ⟨?_, forall_mem_cons.mpr ⟨hval, hruns⟩⟩
    rw [hrest]
    simp

def structureRun (generation lba : Nat) : ReclaimEntry := ⟨lba, 1, generation⟩

private theorem plan_eq_ok {planned : ReclaimTx} {count : Nat} (h : plan tx = .ok (planned, count)) :
    planned = { tx with
        consumedStructure := []
        appends := tx.appends ++
          (tx.consumedStructure ++ [tx.committedRootLba]).map (structureRun tx.newGeneration)
        plannedAllocations := some count } ∧
      count = planned.plannedBlocks ∧
      planned.root.tableRefs.length + planned.plannedTables ≤ planned.root.caps.tableRefs := by
  replace h := after_check h
  obtain ⟨hroom, h⟩ := of_refuse h
  cases h
  exact ⟨rfl, rfl, not_lt.mp hroom⟩

private theorem runOk_structure {lba : Nat} (hlba : geo.isAllocatable lba) (hpos : 0 < generation)
    (hdev : geo.totalBlocks ≤ dev.totalBlocks) : RunOk geo generation (structureRun generation lba) := by
  have hbound := lt_of_allocatable hlba
  have hwidth := dev.addressWidth
  refine ⟨validate_eq_ok.mpr ⟨?_, hpos, ?_⟩, ?_, validateRun_eq_ok.mpr ⟨?_, hlba, ?_⟩, le_rfl⟩
  · exact Nat.one_pos
  · show lba + 1 < 2 ^ 64
    omega
  · show 1 < 256 ^ 4
    decide
  · show lba + 1 ≤ geo.totalBlocks
    omega
  · rfl

private theorem Loadable.allocatable_sealedBlocks (h : Loadable dev geo generation root) :
    ∀ lba ∈ sealedBlocks dev root, geo.isAllocatable lba := by
  intro lba hmem
  obtain ⟨ref, href, rfl⟩ := mem_map.mp hmem
  rcases mem_append.mp href with htable | hsealed
  · exact h.refs ref (mem_append_left _ htable)
  · rcases mem_append.mp hsealed with hinTable | hseg
    · obtain ⟨table, htable, hinside⟩ := mem_flatMap.mp (mem_of_mem_drop hinTable)
      obtain ⟨refs, hread⟩ := h.tables table htable
      rw [tableSegments_of_read hread] at hinside
      obtain ⟨-, -, -, -, -, hrefs⟩ := readTable_eq_ok.mp hread
      exact hrefs ref hinside
    · exact h.refs ref (mem_append_right _ hseg)

private theorem begin_spec {rootLba budget : Nat} (hloaded : loadAll dev geo rootLba generation = .ok loaded)
    (h : begin dev geo rootLba generation newGeneration protectedGeneration budget = .ok tx) :
    ∃ n consumed, n ≤ budget ∧ n ≤ blockCount loaded.runs ∧ tx.promoted = (takeBlocks n loaded.runs).map asPromoted ∧
      (∀ run ∈ takeBlocks n loaded.runs, run.retireGeneration ≤ protectedGeneration) ∧
      queuedRuns dev tx.root = dropBlocks n loaded.runs ∧
      loaded.structureBlocks.Perm (rootLba :: (consumed ++ sealedBlocks dev tx.root)) ∧
      tx.consumedStructure = consumed ∧ tx.reclaimedBlocks = n ∧ tx.appends = [] ∧
      tx.committedRootLba = rootLba ∧ tx.newGeneration = newGeneration ∧
      Loadable dev geo generation tx.root ∧ CapsOk tx.root.caps ∧ tx.root.appendedBlocksTotal
        = tx.root.reclaimedBlocksTotal + n + blockCount (dropBlocks n loaded.runs) ∧
      geo.isAllocatable rootLba ∧ (∀ run ∈ loaded.runs, RunOk geo generation run) ∧ HeadOk tx.root ∧
      tx.root.caps.validate (dev.blocks rootLba).length = .ok () := by
  obtain ⟨root, hroot, hload, hcnt, -, rfl⟩ := loadAll_eq_ok.mp hloaded
  replace h := after_check h
  obtain ⟨root', hroot', h⟩ := of_bind h
  obtain rfl : root' = root := by
    rw [hroot] at hroot'
    exact (Except.ok.inj hroot').symm
  obtain ⟨n, consumed, hcons, hbudget, hinside⟩ := consume_spec hload h
  obtain ⟨hlba, -, written, hdec, -⟩ := readRoot_eq_ok.mp hroot
  obtain ⟨hrng, hval⟩ := decode_eq_ok hdec
  obtain ⟨hcaps, -, -, -, hcur, hbalance⟩ := validateRoot_eq_ok.mp hval
  have hframe := hcons.frame
  have hwithin : n ≤ blockCount (queuedRuns dev root') := hcons.within
  refine ⟨n, consumed, hbudget, hwithin, ?_, hcons.unprotected, hcons.queue, ?_, ?_, ?_, ?_, ?_,
    ?_, hcons.loadable, ?_, ?_, hlba, hload.runOk, hinside (validateCursor_eq_ok.mp hcur).2.2.2, ?_⟩
  · rw [hcons.promoted, nil_append]
  · exact (loadedBlocks_perm hload rootLba).trans (hcons.blocks.cons _)
  · rw [hcons.consumedStructure, nil_append]
  · rw [hcons.reclaimed, Nat.zero_add]
  iterate 3 · rw [hframe]
  · rw [hframe]
    exact ⟨hrng.inlineCap, hrng.segmentCap, hrng.tableCap⟩
  · rw [blockCount_dropBlocks, hframe]
    simp only
    omega
  · rw [hframe]
    exact hcaps

/-- One run of the transaction: consume, append, plan, build. `lbas` are the blocks the allocator has
given for the rebuild. -/
structure Transaction (dev : Device) (geo : Geometry)
    (rootLba generation newGeneration protectedGeneration budget : Nat) (appended : List (Nat × Nat))
    (lbas : List Nat) (tx : ReclaimTx) (built : Build) : Prop where
  begun : begin dev geo rootLba generation newGeneration protectedGeneration budget = .ok tx
  finished : ∃ tx' planned count, appendRuns geo appended tx = .ok tx' ∧
    plan tx' = .ok (planned, count) ∧ build geo lbas planned = .ok built

/-- What the callers of a transaction keep to: a volume geometry, the next generation, runs that are
runs, and blocks for the rebuild that are distinct and not the queue's. -/
structure TransactionInput (dev : Device) (geo : Geometry) (generation newGeneration : Nat)
    (appended : List (Nat × Nat)) (lbas structureBlocks : List Nat) : Prop where
  geometry : geo.validate = .ok ()
  device : geo.totalBlocks ≤ dev.totalBlocks
  next : generation < newGeneration
  width : newGeneration < 2 ^ 64
  runs : ∀ run ∈ appended, 0 < run.2 ∧ run.2 < 2 ^ 32
  distinct : lbas.Nodup
  allocatable : ∀ lba ∈ lbas, geo.isAllocatable lba
  fresh : ∀ lba ∈ lbas, lba ∉ structureBlocks

section Planned

variable {rootLba newGeneration protectedGeneration budget count : Nat} {appended : List (Nat × Nat)}
  {lbas : List Nat} {loaded : LoadedReclaim} {tx tx' planned : ReclaimTx}
  (hloaded : loadAll dev geo rootLba generation = .ok loaded)
  (hbegin : begin dev geo rootLba generation newGeneration protectedGeneration budget = .ok tx)
  (happend : appendRuns geo appended tx = .ok tx') (hplan : plan tx' = .ok (planned, count))
  (hinput : TransactionInput dev geo generation newGeneration appended lbas loaded.structureBlocks)

include hloaded hbegin happend hplan hinput

private theorem planned_ready : Ready dev geo generation planned lbas ∧
    planned.root = tx.root ∧ planned.newGeneration = newGeneration ∧
      planned.plannedAllocations = some planned.plannedBlocks ∧
      planned.appends = (appended.map fun run => ⟨run.1, run.2, newGeneration⟩) ++
        (tx.consumedStructure ++ [rootLba]).map (structureRun newGeneration) := by
  obtain ⟨n, consumed, -, -, -, -, hqueue, hblks, hcons, hreclaimed, hnone, hcomm, hnew, hload,
    hcaps, hbalance, hroot, -⟩ := begin_spec hloaded hbegin
  obtain ⟨rfl, hruns⟩ := appendRuns_eq_ok happend
  obtain ⟨hplanned, hcnt, -⟩ := plan_eq_ok hplan
  have hfields : planned.root = tx.root ∧ planned.newGeneration = newGeneration ∧
      planned.reclaimedBlocks = n ∧ planned.plannedAllocations = some planned.plannedBlocks ∧
      planned.appends = (appended.map fun run => ⟨run.1, run.2, newGeneration⟩) ++
        (tx.consumedStructure ++ [rootLba]).map (structureRun newGeneration) := by
    rw [← hcnt, hplanned]
    simp only [hnew, hreclaimed, hnone, hcomm, nil_append, and_self]
  obtain ⟨hsame, hnewGen, hreclaimed', hallocations, happends⟩ := hfields
  refine ⟨?_, hsame, hnewGen, hallocations, happends⟩
  refine ⟨by rw [hsame]; exact hload, by rw [hsame]; exact hcaps, ?_, ?_, hinput.distinct,
    hinput.allocatable, ?_, hinput.device, ?_, ?_, ?_⟩
  · rw [happends, hnewGen]
    refine forall_mem_append.mpr ⟨fun entry hmem => ?_, fun entry hmem => ?_⟩
    · obtain ⟨run, hrun, rfl⟩ := mem_map.mp hmem
      have hbounds := hruns run hrun
      rw [hnew] at hbounds
      obtain ⟨hend, -, -⟩ := validateRun_eq_ok.mp hbounds
      obtain ⟨hpos, hwidth⟩ := hinput.runs run hrun
      have haddr := dev.addressWidth
      have hdevice := hinput.device
      have hnext := hinput.next
      refine ⟨validate_eq_ok.mpr ⟨hpos, ?_, ?_⟩, hwidth, hbounds, le_rfl⟩
      · show 0 < newGeneration
        omega
      · exact lt_of_le_of_lt hend (lt_of_le_of_lt hdevice haddr)
    · obtain ⟨lba, hlba, rfl⟩ := mem_map.mp hmem
      refine runOk_structure ?_ (Nat.zero_lt_of_lt hinput.next) hinput.device
      rcases mem_append.mp hlba with hold | hlast
      · obtain ⟨root, -, hloadable, -, -, rfl⟩ := loadAll_eq_ok.mp hloaded
        refine hloadable.allocatable_sealedBlocks lba ?_
        have hperm := (loadedBlocks_perm hloadable rootLba).symm.trans hblks
        rw [hperm.cons_inv.mem_iff, ← hcons]
        exact mem_append_left _ hold
      · rw [mem_singleton.mp hlast]
        exact hroot
  · rw [hsame, hreclaimed', hqueue]
    exact hbalance
  · intro lba hlba hmem
    refine hinput.fresh lba hlba (hblks.mem_iff.mpr ?_)
    rw [hsame] at hmem
    exact mem_cons_of_mem _ (mem_append_right _ hmem)
  · rw [(Geometry.valid_of_validate hinput.geometry).blockSize]
    decide
  · rw [hnewGen]
    exact hinput.next.le
  · rw [hnewGen]
    exact hinput.width

private theorem build_planned (hsize : (dev.blocks rootLba).length = geo.blockSize) (hcount : lbas.length = count) :
    (∃ built, build geo lbas planned = .ok built) ∨
    2 ^ 64 ≤ tx.root.appendedBlocksTotal + blockCount planned.appends ∧
      (build geo lbas planned = .error (.corrupt "reclaim append total overflows") ∨
        build geo lbas planned = .error (.corrupt "reclaim appended total overflows")) := by
  obtain ⟨hready, hroot, -, hplanned, -⟩ := planned_ready hloaded hbegin happend hplan hinput
  obtain ⟨-, -, -, -, -, -, -, -, -, -, -, -, -, -, -, -, -, -, hinside, hcaps⟩ := begin_spec hloaded hbegin
  obtain ⟨-, hblocks, hroom⟩ := plan_eq_ok hplan
  rw [hsize, ← hroot] at hcaps
  rw [← hroot] at hinside ⊢
  exact build_of hready hinside hcaps (Geometry.valid_of_validate hinput.geometry).blockSize hplanned
    (hcount.trans hblocks) hroom

theorem build_matches_plan (hsize : (dev.blocks rootLba).length = geo.blockSize) (hcount : lbas.length = count) :
    (∃ built loaded', build geo lbas planned = .ok built ∧ built.writes.map Prod.fst = lbas ∧
      (∀ lba block, (lba, block) ∈ built.writes → (∃ decoded, ReclaimSegment.decode block = .ok decoded) ∨
        (∃ decoded, ReclaimTable.decode block = .ok decoded) ∨
        lba = built.rootLba ∧ ∃ decoded, decode block = .ok decoded) ∧
      loadAll (afterBuild dev built) geo built.rootLba newGeneration = .ok loaded' ∧
      loaded'.structureBlocks.Perm (sealedBlocks dev tx.root ++ lbas)) ∨
    2 ^ 64 ≤ tx.root.appendedBlocksTotal + blockCount planned.appends ∧
      (build geo lbas planned = .error (.corrupt "reclaim append total overflows") ∨
        build geo lbas planned = .error (.corrupt "reclaim appended total overflows")) := by
  obtain ⟨hready, hroot, hgeneration, hplanned, -⟩ := planned_ready hloaded hbegin happend hplan hinput
  rcases build_planned hloaded hbegin happend hplan hinput hsize hcount with ⟨built, hbuilt⟩ | hover
  · obtain ⟨r⟩ := build_spec hplanned hbuilt
    obtain ⟨loaded', hload', -, hperm, -⟩ := r.loadAll_eq hready
    rw [hgeneration] at hload'
    rw [hroot] at hperm
    exact .inl ⟨built, loaded', hbuilt, r.writes_lbas, fun _ _ => r.decodes hready, hload', hperm⟩
  · exact .inr hover

end Planned

/-! ### The queue before and after -/

/-- Retire generations never decrease from the head of the queue to its end. -/
def Ordered (runs : List ReclaimEntry) : Prop :=
  runs.Pairwise fun run later => run.retireGeneration ≤ later.retireGeneration

private theorem generations_dropBlocks (n : Nat) (runs : List ReclaimEntry) :
    ((dropBlocks n runs).map ReclaimEntry.retireGeneration).IsSuffix (runs.map ReclaimEntry.retireGeneration) := by
  induction runs generalizing n with
  | nil => exact suffix_refl _
  | cons entry rest ih =>
    rw [dropBlocks]
    split
    · exact suffix_refl _
    · split
      · exact (ih _).trans (suffix_cons _ _)
      · exact suffix_refl _

private theorem ordered_dropBlocks (h : Ordered runs) (n : Nat) : Ordered (dropBlocks n runs) := by
  have hmap := pairwise_map.mpr h
  exact pairwise_map.mp (hmap.sublist (generations_dropBlocks n runs).sublist)

private theorem ordered_append {more : List ReclaimEntry} (later : Nat) (h : Ordered runs)
    (hruns : ∀ run ∈ runs, run.retireGeneration ≤ later)
    (hmore : ∀ run ∈ more, run.retireGeneration = later) : Ordered (runs ++ more) := by
  refine pairwise_append.mpr ⟨h, ?_, ?_⟩
  · refine pairwise_of_forall_mem_list fun run hrun other hoth => ?_
    rw [hmore run hrun, hmore other hoth]
  · intro run hrun other hoth
    rw [hmore other hoth]
    exact hruns run hrun

section Transactions

variable {rootLba newGeneration protectedGeneration budget : Nat} {appended : List (Nat × Nat)} {lbas : List Nat}
  {loaded : LoadedReclaim} {tx : ReclaimTx} {built : Build} (hloaded : loadAll dev geo rootLba generation = .ok loaded)
  (htx : Transaction dev geo rootLba generation newGeneration protectedGeneration budget appended lbas tx built)
  (hinput : TransactionInput dev geo generation newGeneration appended lbas loaded.structureBlocks)

include hloaded htx hinput

private theorem transaction_ready :
    ∃ planned, Nonempty (Rebuilt geo lbas planned built) ∧ Ready dev geo generation planned lbas ∧
      planned.root = tx.root ∧ planned.newGeneration = newGeneration ∧
      planned.appends = (appended.map fun run => ⟨run.1, run.2, newGeneration⟩) ++
        (tx.consumedStructure ++ [rootLba]).map (structureRun newGeneration) := by
  obtain ⟨tx', planned, count, happend, hplan, hbuild⟩ := htx.finished
  obtain ⟨hready, hroot, hgen, hplanned, happends⟩ := planned_ready hloaded htx.begun happend hplan hinput
  exact ⟨planned, build_spec hplanned hbuild, hready, hroot, hgen, happends⟩

/-- Over one transaction the queue loses the promoted blocks at its front and gains, behind everything
else, the appended runs and then its own superseded blocks. -/
theorem transaction_conserves_queue :
    ∃ n kept loaded',
      -- the promoted blocks are the front of the queue
      tx.promoted = (takeBlocks n loaded.runs).map asPromoted ∧
      blockCount (takeBlocks n loaded.runs) = n ∧ n ≤ budget ∧
      (∀ run ∈ tx.promoted, run.retireGeneration ≤ protectedGeneration) ∧
      (takeBlocks n loaded.runs).flatMap runBlocks ++ (dropBlocks n loaded.runs).flatMap runBlocks
        = loaded.runs.flatMap runBlocks ∧
      -- the rebuilt queue loads, with the new runs at its end
      loadAll (afterBuild dev built) geo built.rootLba newGeneration = .ok loaded' ∧
      loaded'.runs = dropBlocks n loaded.runs ++
        (appended.map fun run => ⟨run.1, run.2, newGeneration⟩) ++
        (tx.consumedStructure ++ [rootLba]).map (structureRun newGeneration) ∧
      -- its blocks are those it has kept and the planned ones
      loaded.structureBlocks.Perm (tx.consumedStructure ++ rootLba :: kept) ∧
      loaded'.structureBlocks.Perm (kept ++ lbas) ∧
      loaded'.pendingBlocks = blockCount loaded'.runs ∧
      (Ordered loaded.runs → Ordered loaded'.runs) := by
  obtain ⟨planned, ⟨rebuilt⟩, hready, hroot, hgeneration, happends⟩ := transaction_ready hloaded htx hinput
  obtain ⟨n, consumed, hbudget, hwithin, hpromoted, hprotected, hqueue, hblocks, hconsumed, -, -, -, -,
    -, -, -, -, hruns, -⟩ := begin_spec hloaded htx.begun
  obtain ⟨loaded', hload', hruns', hblocks', hpending⟩ := rebuilt.loadAll_eq hready
  rw [hroot, hqueue, happends, ← append_assoc] at hruns'
  rw [hroot] at hblocks'
  rw [hgeneration] at hload'
  refine ⟨n, sealedBlocks dev tx.root, loaded', hpromoted, blockCount_takeBlocks hwithin, hbudget, ?_,
    flatMap_takeBlocks_dropBlocks n loaded.runs, hload', hruns', ?_, hblocks', hpending, ?_⟩
  · intro run hmem
    rw [hpromoted] at hmem
    obtain ⟨entry, hentry, rfl⟩ := mem_map.mp hmem
    exact hprotected entry hentry
  · rw [hconsumed]
    exact hblocks.trans perm_middle.symm
  · intro hordered
    rw [hruns', append_assoc]
    refine ordered_append newGeneration (ordered_dropBlocks hordered n) ?_
      (forall_mem_append.mpr ⟨fun run hmem => ?_, fun run hmem => ?_⟩)
    · intro run hmem
      exact (runOk_dropBlocks hruns n run hmem).retired.trans hinput.next.le
    · obtain ⟨pair, -, rfl⟩ := mem_map.mp hmem
      rfl
    · obtain ⟨lba, -, rfl⟩ := mem_map.mp hmem
      rfl

end Transactions

def sampleRoot : ReclaimRoot := empty ⟨4, 2, 2⟩

def sampleTx : ReclaimTx := ⟨1, 10, 2, sampleRoot, [], [], [], 0, none⟩

theorem root_encode_of {generation : Nat} (hval : root.validate 4096 = .ok ()) : root.encode 4096 generation
      = .ok ((root.header generation).sealPayload 4096 root.payload) :=
  check_bind hval _

theorem sampleRoot_inRange : sampleRoot.InRange := ⟨by constructor <;> decide, by decide⟩

/-! A queue with a run in a segment of a table, one in a segment of the root and one in the root. The capacities
are the smallest there are. -/

def busyRoot : ReclaimRoot := ⟨5, 5, 0, 0, 0, 0, ⟨1, 1, 1⟩, [⟨13, 1⟩], [⟨14, 1⟩], [⟨26, 1, 1⟩]⟩

def busySegment (entry : ReclaimEntry) : Bytes :=
  BlockHeader.sealPayload ⟨BlockType.reclaimSegment, 0, 0, 1, (⟨[entry]⟩ : ReclaimSegment).payloadLen⟩ 4096
    (Wire.leBytes 4 1 ++ Wire.leBytes 4 0 ++ encodeEntries [entry])

def busyTable : Bytes :=
  BlockHeader.sealPayload ⟨BlockType.reclaimTable, 0, 0, 1, (⟨[⟨12, 1⟩]⟩ : ReclaimTable).payloadLen⟩ 4096
    (Wire.leBytes 4 1 ++ Wire.leBytes 4 0 ++ encodeRefs [⟨12, 1⟩])

def busyDevice : Device :=
  ⟨4096, 32, Device.addressWidth_sample, fun lba =>
    if lba = 10 then (busyRoot.header 1).sealPayload 4096 busyRoot.payload
    else if lba = 12 then busySegment ⟨20, 2, 1⟩ else if lba = 13 then busyTable
    else if lba = 14 then busySegment ⟨22, 2, 1⟩ else []⟩

private theorem readRoot_busy : readRoot busyDevice Geometry.sample 10 1 = .ok busyRoot := by
  refine readRoot_eq_ok.mpr ⟨by decide, by decide, 1, ?_, le_rfl, rfl, by decide⟩
  exact decode_encode ⟨by constructor <;> decide, by decide⟩ (by decide) (root_encode_of (by decide))

private theorem readSegment_busy {lba : Nat} {entry : ReclaimEntry} (hlba : lba < 32)
    (hblk : busyDevice.blocks lba = busySegment entry) (hrun : RunOk Geometry.sample 1 entry) :
    readSegment busyDevice Geometry.sample ⟨lba, 1⟩ 1 = .ok [entry] := by
  refine @readSegment_sealed _ _ _ ⟨lba, [entry], busySegment entry⟩ (by decide) hlba hblk ?_
    (forall_mem_singleton.mpr hrun)
  refine refuseIf_ok.mpr ⟨by simp [segmentEntryCap], refuseIf_ok.mpr ⟨?_, check_ok.mpr ⟨?_, rfl⟩⟩⟩
  · exact show ¬sealedFixed + 1 * entryWireSize > 4096 - headerSize by decide
  · exact validateEntries_eq_ok.mpr (forall_mem_singleton.mpr hrun.valid)

private theorem readSegment_first : readSegment busyDevice Geometry.sample ⟨12, 1⟩ 1 = .ok [⟨20, 2, 1⟩] :=
  readSegment_busy (by decide) rfl ⟨rfl, by decide, rfl, by decide⟩

private theorem readSegment_second : readSegment busyDevice Geometry.sample ⟨14, 1⟩ 1 = .ok [⟨22, 2, 1⟩] :=
  readSegment_busy (by decide) rfl ⟨rfl, by decide, rfl, by decide⟩

private theorem readTable_busy : readTable busyDevice Geometry.sample ⟨13, 1⟩ 1 = .ok [⟨12, 1⟩] :=
  @readTable_sealed _ _ _ ⟨13, [⟨12, 1⟩], busyTable⟩ (by decide) (by decide) rfl
    (refuseIf_ok.mpr ⟨by decide, refuseIf_ok.mpr ⟨by decide, refuseIf_ok.mpr ⟨by decide, rfl⟩⟩⟩) (by decide) (by decide)

private theorem loadAll_busy : loadAll busyDevice Geometry.sample 10 1 =
    .ok ⟨[⟨20, 2, 1⟩, ⟨22, 2, 1⟩, ⟨26, 1, 1⟩], [10, 13, 12, 14], 5⟩ := by
  have hsegs : sealedSegments busyDevice busyRoot = [⟨12, 1⟩, ⟨14, 1⟩] := by
    simp [sealedSegments, busyRoot, tableSegments_of_read readTable_busy]
  have hread : ∀ ref ∈ sealedSegments busyDevice busyRoot, ∃ entries, readSegment busyDevice Geometry.sample ref 1 = .ok entries := by
    simp [hsegs, readSegment_first, readSegment_second]
  have hruns : queuedRuns busyDevice busyRoot = [⟨20, 2, 1⟩, ⟨22, 2, 1⟩, ⟨26, 1, 1⟩] := by
    rw [queuedRuns, hsegs]
    simp [runsBehind, segmentEntries_of_read readSegment_first, segmentEntries_of_read readSegment_second]
    rfl
  refine loadAll_eq_ok.mpr ⟨busyRoot, readRoot_busy, ?_, by rw [hruns]; rfl, by decide, ?_⟩
  · exact (loadable_iff readRoot_busy).mpr ⟨forall_mem_singleton.mpr ⟨_, readTable_busy⟩, hread, cursorOk_start hread⟩
  · rw [hruns, loadedBlocks]
    simp [tableBlocks, busyRoot, tableSegments_of_read readTable_busy]

/-- The transaction after `begin` with a budget of two blocks: the run of the table is promoted, and its segment
and the table are used up. -/
def busyTx : ReclaimTx :=
  ⟨1, 10, 2, { busyRoot with tableRefs := [] }, [], [⟨20, 2, 1⟩], [12, 13], 2, none⟩

private theorem begin_busy : begin busyDevice Geometry.sample 10 1 2 1 2 = .ok busyTx := by
  refine refuseIf_ok.mpr ⟨by decide, bind_ok.mpr ⟨_, readRoot_busy, bind_ok.mpr ⟨_, readTable_busy, ?_⟩⟩⟩
  exact bind_ok.mpr ⟨_, bind_ok.mpr ⟨_, readSegment_first, rfl⟩, rfl⟩

private theorem transactionInput_busy :
    TransactionInput busyDevice Geometry.sample 1 2 [(28, 1)] [29, 30, 31] [10, 13, 12, 14] := by
  constructor <;> decide

private theorem length_busyRoot : (busyDevice.blocks 10).length = Geometry.sample.blockSize :=
  BlockHeader.length_sealPayload (busyRoot.header 1) (by decide +kernel)

def busyPlanned : ReclaimTx :=
  { busyTx with
    appends := [⟨28, 1, 2⟩, ⟨12, 1, 2⟩, ⟨13, 1, 2⟩, ⟨10, 1, 2⟩], consumedStructure := [], plannedAllocations := some 3 }

/-- The rebuild seals a segment and a table. -/
theorem build_matches_plan_sample :
    ∃ built loaded, build Geometry.sample [29, 30, 31] busyPlanned = .ok built ∧
      built.writes.map Prod.fst = [29, 30, 31] ∧
      (∀ lba block, (lba, block) ∈ built.writes → (∃ decoded, ReclaimSegment.decode block = .ok decoded) ∨
        (∃ decoded, ReclaimTable.decode block = .ok decoded) ∨
        lba = built.rootLba ∧ ∃ decoded, decode block = .ok decoded) ∧
      loadAll (afterBuild busyDevice built) Geometry.sample built.rootLba 2 = .ok loaded ∧
      loaded.structureBlocks.Perm (sealedBlocks busyDevice busyTx.root ++ [29, 30, 31]) := by
  have happend : appendRuns Geometry.sample [(28, 1)] busyTx = .ok { busyTx with appends := [⟨28, 1, 2⟩] } := rfl
  exact (build_matches_plan loadAll_busy begin_busy happend rfl transactionInput_busy length_busyRoot
    rfl).resolve_right fun hover => absurd hover.1 (by decide)

private theorem transaction_busy : ∃ built,
    Transaction busyDevice Geometry.sample 10 1 2 1 2 [(28, 1)] [29, 30, 31] busyTx built := by
  have happend : appendRuns Geometry.sample [(28, 1)] busyTx = .ok { busyTx with appends := [⟨28, 1, 2⟩] } := rfl
  obtain ⟨built, hbuild⟩ := (build_planned loadAll_busy begin_busy happend rfl transactionInput_busy length_busyRoot
    rfl).resolve_right fun hover => absurd hover.1 (by decide)
  exact ⟨built, begin_busy, _, busyPlanned, 3, happend, rfl, hbuild⟩

theorem transaction_conserves_queue_sample : ∃ built loaded,
    Transaction busyDevice Geometry.sample 10 1 2 1 2 [(28, 1)] [29, 30, 31] busyTx built ∧
      loadAll (afterBuild busyDevice built) Geometry.sample built.rootLba 2 = .ok loaded ∧
      loaded.runs = [⟨22, 2, 1⟩, ⟨26, 1, 1⟩, ⟨28, 1, 2⟩, ⟨12, 1, 2⟩, ⟨13, 1, 2⟩, ⟨10, 1, 2⟩] ∧
      loaded.pendingBlocks = 7 := by
  obtain ⟨built, htx⟩ := transaction_busy
  obtain ⟨n, kept, loaded, hpromoted, hcount, -, -, -, hload, hruns, -, -, hpending, -⟩ :=
    transaction_conserves_queue loadAll_busy htx transactionInput_busy
  obtain rfl : 2 = n := by
    have hsum := congrArg (fun runs => (runs.map PromotedRun.blocks).sum) hpromoted
    rw [map_map] at hsum
    exact hsum.trans hcount
  refine ⟨built, loaded, htx, hload, hruns, ?_⟩
  rw [hpending, hruns]
  rfl

/-- The superseded blocks do not stand in front of the appended run. -/
theorem appended_run_precedes_superseded_root :
    loadAll busyDevice Geometry.sample 10 1 = .ok ⟨[⟨20, 2, 1⟩, ⟨22, 2, 1⟩, ⟨26, 1, 1⟩], [10, 13, 12, 14], 5⟩ ∧
      TransactionInput busyDevice Geometry.sample 1 2 [(28, 1)] [29, 30, 31] [10, 13, 12, 14] ∧
      ∃ built loaded, Transaction busyDevice Geometry.sample 10 1 2 1 2 [(28, 1)] [29, 30, 31] busyTx built ∧
        loadAll (afterBuild busyDevice built) Geometry.sample built.rootLba 2 = .ok loaded ∧
        ∀ n, loaded.runs ≠ dropBlocks n [⟨20, 2, 1⟩, ⟨22, 2, 1⟩, ⟨26, 1, 1⟩] ++
          (busyTx.consumedStructure ++ [10]).map (structureRun 2) ++ [⟨28, 1, 2⟩] := by
  obtain ⟨built, htx⟩ := transaction_busy
  obtain ⟨planned, ⟨rebuilt⟩, hready, hroot, hgeneration, happends⟩ :=
    transaction_ready loadAll_busy htx transactionInput_busy
  obtain ⟨loaded, hload, hruns, -⟩ := rebuilt.loadAll_eq hready
  rw [hgeneration] at hload
  refine ⟨loadAll_busy, transactionInput_busy, built, loaded, htx, hload, fun n heq => ?_⟩
  -- the two queues differ in their last run
  have hlast := congrArg getLast? (hruns.symm.trans heq)
  rw [happends, getLast?_append, getLast?_concat] at hlast
  cases hlast

end ReclaimTx

end Afsplus
