import Afsplus.Core.Reclaim
import Afsplus.Format.Region

/-!
# The transaction allocator

One transaction's view of the bitmaps. A block it hands out was clear in the committed bitmaps or left
quarantine when the transaction began; a block it retires stays set and enters the reclaim queue. Dirty
pages and their descriptors go to slots that neither retained checkpoint refers to.

The committed records, descriptors and bits are given as functions: nothing a transaction writes is
among the blocks they are loaded from. That they are loaded on demand, that clean pages are dropped and
loaded again, and that a load can fail, is the part of `PageCache`.
-/

namespace Afsplus

open Fallible

/-- The committed allocation state of the current checkpoint and of the older one, where there is one. -/
structure CommittedAllocation where
  records : Nat → RegionRecord
  descriptors : Nat → RegionDescriptor
  otherRecords : Option (Nat → RegionRecord)
  otherDescriptors : Option (Nat → RegionDescriptor)
  /-- The bit of a block in the current checkpoint's bitmaps. -/
  bits : Nat → Bool

inductive SnapshotPhase where
  | namespaceCapture
  | housekeeping
  | preparing
  | sealed
  | finalizing
  | failed
  deriving DecidableEq, Repr

/-- What sealing leaves of the lifetime mutation for `finish`. -/
structure LifetimeOutput where
  rootLba : Nat
  writes : List (Nat × Bytes)

structure SnapshotAccounting where
  phase : SnapshotPhase
  registryRoot : Nat
  allocations : Finset Nat
  retirements : Finset Nat
  mutation : Option LifetimeOutput

/-- The bitmap pages and region records in memory, and how the device answers the next loads: with an
error, or `none` where the block is read. Behind the last answer loads succeed. -/
structure PageCache where
  pages : Finset (Nat × Nat)
  records : Finset Nat
  loads : List (Option CoreError)

structure TxAllocator where
  geo : Geometry
  committed : CommittedAllocation
  currentFreeBlocksTotal : Nat
  currentSnapshotRoots : Option SnapshotRoots
  newGeneration : Nat
  /-- The working bits: the committed ones with this transaction's changes. -/
  bits : Nat → Bool
  dirtyPages : Finset (Nat × Nat)
  dirtyRegions : Finset Nat
  cache : PageCache
  reclaim : ReclaimTx
  allocatedThisTx : Finset Nat
  retiredThisTx : Finset Nat
  snapshot : Option SnapshotAccounting
  roverRegion : Nat
  roverIndex : Nat
  freeBlockFloor : Nat
  blocksPromoted : Nat
  blocksAllocated : Nat
  blocksReleased : Nat

abbrev AllocM := EStateM CoreError TxAllocator

/-- The blocks `start`, …, `start + blocks - 1`. -/
def blockRun (start blocks : Nat) : Finset Nat := Finset.Ico start (start + blocks)

namespace TxAllocator

def pageOf (geo : Geometry) (lba : Nat) : Nat × Nat :=
  let region := geo.regionOf lba
  (region, (lba - geo.regionBase region) / bitmapPageBlocks)

def setBits (run : Finset Nat) (value : Bool) (tx : TxAllocator) : TxAllocator :=
  { tx with
    bits := fun lba => if lba ∈ run then value else tx.bits lba
    dirtyPages := tx.dirtyPages ∪ run.image (pageOf tx.geo)
    dirtyRegions := tx.dirtyRegions ∪ run.image tx.geo.regionOf }

/-! ### Loading -/

def modifyCache (f : PageCache → PageCache) : AllocM Unit := modify fun tx => { tx with cache := f tx.cache }

def load : AllocM Unit := do
  let tx ← get
  modifyCache fun cache => { cache with loads := cache.loads.tail }
  match tx.cache.loads.head?.join with
  | some e => throw e
  | none => pure ()

def currentRecord (region : Nat) : AllocM RegionRecord := do
  let tx ← get
  if region ∈ tx.cache.records then pure (tx.committed.records region)
  else do
    load
    modifyCache fun cache => { cache with records := insert region cache.records }
    pure (tx.committed.records region)

/-- The record and the descriptors of the page's region come with its first page. -/
def pageMut (page : Nat × Nat) : AllocM Unit := do
  let tx ← get
  if page ∈ tx.cache.pages then pure ()
  else do
    load
    modifyCache fun cache => { cache with
      pages := insert page cache.pages
      records := insert page.1 cache.records }

/-- Clean pages leave the memory again. -/
def dropPages (pages : List (Nat × Nat)) : AllocM Unit := do
  let tx ← get
  modifyCache fun cache => { cache with
    pages := cache.pages.filter fun page => page ∉ pages ∨ page ∈ tx.dirtyPages }

def inPhase (tx : TxAllocator) (phase : SnapshotPhase) : Prop :=
  ∃ snapshot ∈ tx.snapshot, snapshot.phase = phase

instance (tx : TxAllocator) (phase : SnapshotPhase) : Decidable (tx.inPhase phase) :=
  inferInstanceAs (Decidable (∃ snapshot ∈ tx.snapshot, snapshot.phase = phase))

def checkSnapshotHealth : AllocM Unit := do
  let tx ← get
  require (¬tx.inPhase .failed) (.corrupt "snapshot accounting failed; discard transaction")

def checkSnapshotWritable : AllocM Unit := do
  checkSnapshotHealth
  let tx ← get
  require (¬tx.inPhase .sealed) (.corrupt "allocator mutation after lifetime seal")

def modifySnapshot (f : SnapshotAccounting → SnapshotAccounting) : AllocM Unit :=
  modify fun tx => { tx with snapshot := tx.snapshot.map f }

def trackSnapshotAllocation (run : Finset Nat) : AllocM Unit := do
  let tx ← get
  if tx.inPhase .namespaceCapture then do
    require (∀ snapshot ∈ tx.snapshot, Disjoint snapshot.allocations run)
      (.corrupt "snapshot allocations overlap")
    modifySnapshot fun snapshot => { snapshot with allocations := snapshot.allocations ∪ run }
  else pure ()

def checkSnapshotRelease (run : Finset Nat) : AllocM Unit := do
  let tx ← get
  require (¬((tx.inPhase .preparing ∨ tx.inPhase .sealed) ∧
      ∃ snapshot ∈ tx.snapshot, ¬Disjoint snapshot.allocations run))
    (.corrupt "namespace release after lifetime preparation")

def freeBlocksRemaining (tx : TxAllocator) : Nat :=
  tx.currentFreeBlocksTotal + tx.blocksPromoted - (tx.blocksAllocated - tx.blocksReleased)

def ensureAboveFloor (blocks : Nat) : AllocM Unit := do
  let tx ← get
  require (tx.freeBlockFloor ≤ tx.freeBlocksRemaining - blocks) .noSpace

/-- The first free run of `len` blocks inside `[first, stop)` of a region, in region-relative blocks. -/
def freeRun (tx : TxAllocator) (region len first stop : Nat) : Option Nat :=
  (List.range' first (stop - first)).find? fun index =>
    index + len ≤ stop ∧ ∀ i < len, tx.bits (tx.geo.regionBase region + index + i) = false

/-- Each page is dropped as the scan leaves it. -/
def scanPages (region : Nat) : List Nat → AllocM Unit
  | [] => pure ()
  | page :: rest => do
    pageMut (region, page)
    dropPages [(region, page)]
    scanPages region rest

def scanRegion (region len start stop : Nat) : AllocM (Option Nat) := do
  let tx ← get
  let first := max start (tx.geo.regionReservedBlocks region + Geometry.regionHead region)
  if stop ≤ first then pure none
  else do
    let found := tx.freeRun region len first stop
    let last := match found with
      | some index => index + len - 1
      | none => stop - 1
    scanPages region (List.range' (first / bitmapPageBlocks)
      (last / bitmapPageBlocks + 1 - first / bitmapPageBlocks))
    pure found

def findInRegion (region len resume : Nat) : AllocM (Option Nat) := do
  let tx ← get
  let valid := tx.geo.regionValidBlocks region
  let found ← scanRegion region len resume valid
  -- wrap once: a run that starts below the rover ends before `resume + len`
  if found = none ∧ resume > 0 then scanRegion region len 0 (min (resume + (len - 1)) valid)
  else pure found

/-- The marking loop of `allocate_run`: a page that cannot be read ends it behind the marked blocks. -/
def markEach : List Nat → AllocM Unit
  | [] => pure ()
  | lba :: rest => do
    let tx ← get
    pageMut (pageOf tx.geo lba)
    modify (setBits {lba} true)
    markEach rest

def claimFound (region len index : Nat) : AllocM Nat := do
  let tx ← get
  let lba := tx.geo.regionBase region + index
  markEach (List.range' lba len)
  require (Disjoint tx.allocatedThisTx (blockRun lba len))
    (.corrupt s!"allocator returned overlapping run at {lba}")
  modify fun tx => { tx with allocatedThisTx := tx.allocatedThisTx ∪ blockRun lba len }
  trackSnapshotAllocation (blockRun lba len)
  modify fun tx => { tx with
    roverRegion := region
    roverIndex := min (index + len) (tx.geo.regionValidBlocks region)
    blocksAllocated := tx.blocksAllocated + len }
  pure lba

/-- The committed count of a region this transaction has not touched is exact. -/
def regionTooFull (region len : Nat) : AllocM Bool := do
  let tx ← get
  if region ∈ tx.dirtyRegions then pure false
  else do
    let record ← currentRecord region
    pure (record.freeBlocks < len)

/-- The regions from the rover on, each entered at its first block except the rover's own. -/
def searchRegions (len : Nat) : (steps : List Nat) → AllocM (Nat × Nat)
  | [] => throw .noSpace
  | step :: rest => do
    let tx ← get
    let region := (tx.roverRegion + step) % tx.geo.regionCount
    if ← regionTooFull region len then searchRegions len rest
    else do
      let resume := if step = 0 then min tx.roverIndex (tx.geo.regionValidBlocks region) else 0
      match ← findInRegion region len resume with
      | some index => pure (region, index)
      | none => searchRegions len rest

def allocateRun (len : Nat) : AllocM Nat := do
  checkSnapshotWritable
  let tx ← get
  require (len ≤ tx.geo.regionSize) .noSpace
  ensureAboveFloor len
  let (region, index) ← searchRegions len (List.range tx.geo.regionCount)
  claimFound region len index

def allocate : AllocM Nat := allocateRun 1

/-- The loop of `allocate_exact_run`: the blocks before the one that fails stay claimed. -/
def claimEach : List Nat → AllocM Unit
  | [] => pure ()
  | lba :: rest => do
    let tx ← get
    require (tx.geo.isAllocatable lba = true) (.corrupt s!"claimed block {lba} is not allocatable")
    pageMut (pageOf tx.geo lba)
    require (tx.bits lba = false) (.corrupt s!"claimed block {lba} is already allocated")
    modify (setBits {lba} true)
    claimEach rest

def allocateExactRun (start blocks : Nat) : AllocM Unit := do
  checkSnapshotWritable
  require (blocks ≠ 0) (.corrupt "claiming an empty run")
  ensureAboveFloor blocks
  require (start + blocks < 2 ^ 64) (.corrupt "claimed run end overflows")
  claimEach (List.range' start blocks)
  let tx ← get
  require (Disjoint tx.allocatedThisTx (blockRun start blocks))
    (.corrupt s!"claimed run {start}+{blocks} overlaps this transaction")
  modify fun tx => { tx with allocatedThisTx := tx.allocatedThisTx ∪ blockRun start blocks }
  trackSnapshotAllocation (blockRun start blocks)
  modify fun tx => { tx with blocksAllocated := tx.blocksAllocated + blocks }

def allFree : List Nat → AllocM Bool
  | [] => pure true
  | lba :: rest => do
    let tx ← get
    if tx.geo.isAllocatable lba = false then pure false
    else do
      pageMut (pageOf tx.geo lba)
      if tx.bits lba = true then pure false else allFree rest

/-- Whether the run could grow where it lies; if not, nothing has changed. -/
def tryExtendRun (runStart runBlocks blocks : Nat) : AllocM Bool := do
  checkSnapshotWritable
  let tx ← get
  let start := runStart + runBlocks
  if blocks = 0 then pure true
  else do
    require (start < 2 ^ 64) (.corrupt "extended run start overflows")
    require (start + blocks < 2 ^ 64) (.corrupt "extended run end overflows")
    if start + blocks > tx.geo.totalBlocks ∨
        tx.freeBlocksRemaining - blocks < tx.freeBlockFloor ∨
        tx.geo.regionOf (start + blocks - 1) ≠ tx.geo.regionOf runStart then
      pure false
    else if ← allFree (List.range' start blocks) then do
      allocateExactRun start blocks
      pure true
    else pure false

/-! ### Giving blocks up -/

def appendReclaim (start blocks : Nat) : AllocM Unit := do
  let tx ← get
  let reclaim ← lift (ReclaimTx.appendRun tx.geo start blocks tx.reclaim)
  modify fun tx => { tx with reclaim }

/-- The blocks are marked, and `admits` holds of each. -/
def checkMarked (admits : Nat → Bool) (message : Nat → String) : List Nat → AllocM Unit
  | [] => pure ()
  | lba :: rest => do
    let tx ← get
    require (admits lba = true) (.corrupt (message lba))
    pageMut (pageOf tx.geo lba)
    require (tx.bits lba = true) (.corrupt (message lba))
    checkMarked admits message rest

/-- Retires a committed run. Its bits stay set; it goes to the snapshot ledger while the namespace is
captured and to quarantine otherwise. -/
def retireRun (start blocks : Nat) : AllocM Unit := do
  checkSnapshotWritable
  require (blocks ≠ 0 ∧ blocks < 2 ^ 32) (.corrupt s!"retiring invalid run length {blocks}")
  require (start + blocks < 2 ^ 64) (.corrupt "retired run end overflows")
  let tx ← get
  require (Disjoint tx.allocatedThisTx (blockRun start blocks))
    (.corrupt s!"retiring run {start}+{blocks} allocated by this transaction; release it instead")
  require (Disjoint tx.retiredThisTx (blockRun start blocks))
    (.corrupt s!"run {start}+{blocks} retired twice")
  modify fun tx => { tx with retiredThisTx := tx.retiredThisTx ∪ blockRun start blocks }
  checkMarked tx.geo.isAllocatable (fun lba => s!"retiring block {lba} that is not live")
    (List.range' start blocks)
  dropPages ((List.range' start blocks).map (pageOf tx.geo))
  if tx.inPhase .namespaceCapture then do
    require (∀ snapshot ∈ tx.snapshot, Disjoint snapshot.retirements (blockRun start blocks))
      (.corrupt "snapshot run retired twice")
    modifySnapshot fun snapshot =>
      { snapshot with retirements := snapshot.retirements ∪ blockRun start blocks }
  else appendReclaim start blocks

/-- Removes blocks one by one from the run set; a block that is not there ends the loop. -/
def dropAllocated (message : Nat → String) : List Nat → AllocM Unit
  | [] => pure ()
  | lba :: rest => do
    let tx ← get
    require (lba ∈ tx.allocatedThisTx) (.corrupt (message lba))
    modify fun tx => { tx with allocatedThisTx := tx.allocatedThisTx.erase lba }
    dropAllocated message rest

/-- Quarantines a run this transaction allocated whose content a durable log record still covers. -/
def abandonUncommittedRun (start blocks : Nat) : AllocM Unit := do
  checkSnapshotWritable
  require (blocks ≠ 0 ∧ blocks < 2 ^ 32) (.corrupt "abandoning invalid run")
  require (start + blocks < 2 ^ 64) (.corrupt "abandoned run end overflows")
  checkSnapshotRelease (blockRun start blocks)
  dropAllocated (fun lba => s!"abandoning block {lba} that this transaction did not allocate")
    (List.range' start blocks)
  modifySnapshot fun snapshot =>
    { snapshot with allocations := snapshot.allocations \ blockRun start blocks }
  let tx ← get
  require (Disjoint tx.retiredThisTx (blockRun start blocks))
    (.corrupt s!"run {start}+{blocks} abandoned twice")
  modify fun tx => { tx with retiredThisTx := tx.retiredThisTx ∪ blockRun start blocks }
  appendReclaim start blocks

def releaseUncommitted (lba : Nat) : AllocM Unit := do
  checkSnapshotWritable
  require (lba + 1 < 2 ^ 64) (.corrupt "release block overflows")
  checkSnapshotRelease {lba}
  dropAllocated (fun lba => s!"releasing block {lba} that this transaction did not allocate") [lba]
  let tx ← get
  pageMut (pageOf tx.geo lba)
  require (tx.bits lba = true) (.corrupt s!"released block {lba} was not marked allocated")
  modify (setBits {lba} false)
  modifySnapshot fun snapshot => { snapshot with allocations := snapshot.allocations.erase lba }
  modify fun tx => { tx with blocksReleased := tx.blocksReleased + 1 }

/-- The promoted runs' bits are cleared; a clear bit among them means a corrupt queue. -/
def clearPromoted : List PromotedRun → AllocM Unit
  | [] => pure ()
  | run :: rest => do
    checkMarked (fun _ => true) (fun lba => s!"quarantined block {lba} was not marked allocated")
      (List.range' run.start run.blocks)
    modify fun tx => { setBits (blockRun run.start run.blocks) false tx with
      blocksPromoted := tx.blocksPromoted + run.blocks }
    clearPromoted rest

def begin (dev : Device) (geo : Geometry) (committed : CommittedAllocation) (current : Checkpoint)
    (other : Option Checkpoint) (newGeneration batchBlocks roverRegion : Nat)
    (loads : List (Option CoreError)) : Except CoreError TxAllocator := do
  let reclaim ← ReclaimTx.begin dev geo current.reclaimRootBlock current.generation newGeneration
    (match other with
      | none => current.generation
      | some older => min older.generation current.generation)
    batchBlocks
  let tx : TxAllocator := {
    geo, committed, reclaim, newGeneration
    currentFreeBlocksTotal := current.freeBlocksTotal
    currentSnapshotRoots := current.snapshotRoots
    bits := committed.bits
    dirtyPages := ∅, dirtyRegions := ∅, allocatedThisTx := ∅, retiredThisTx := ∅
    cache := ⟨∅, ∅, loads⟩
    snapshot := current.snapshotRoots.map fun roots =>
      ⟨.namespaceCapture, roots.registry, ∅, ∅, none⟩
    roverRegion := roverRegion % max geo.regionCount 1
    roverIndex := 0, freeBlockFloor := 0, blocksPromoted := 0, blocksAllocated := 0
    blocksReleased := 0 }
  match clearPromoted reclaim.promoted tx with
  | .ok _ tx => .ok tx
  | .error e _ => .error e

/-- The first slot that neither reference names; there are three slots and at most two references. -/
def chooseSlot (slotCount current : Nat) (other : Option Nat) : Option Nat :=
  (List.range slotCount).find? fun slot => slot ≠ current ∧ some slot ≠ other

structure FinishedAlloc where
  snapshotRoots : Option SnapshotRoots
  lifetimeWrites : List (Nat × Bytes)
  bitmapWrites : List (Nat × Bytes)
  descriptorWrites : List (Nat × Bytes)
  dirtyRecords : List (Nat × RegionRecord)
  freeBlocksTotal : Nat
  reclaimRootLba : Nat
  reclaimWrites : List (Nat × Bytes)
  roverRegion : Nat

def allocateEach : Nat → AllocM (List Nat)
  | 0 => pure []
  | count + 1 => do
    let lba ← allocate
    let rest ← allocateEach count
    pure (lba :: rest)

/-- The resident page: the working bits of its blocks, the bits behind them set. -/
def workingPage (tx : TxAllocator) (region page : Nat) : BitmapPage :=
  let firstBlock := page * bitmapPageBlocks
  let validBlocks := tx.geo.bitmapPageValidBlocks region page
  BitmapPage.sealTrailingBits ⟨region, page, firstBlock, validBlocks,
    Bits.pack (fun i => tx.bits (tx.geo.regionBase region + firstBlock + i)) (divCeil validBlocks 8)⟩

/-- The new binding of one page and its write; a clean page keeps its binding. -/
def finishPage (tx : TxAllocator) (region page : Nat) (binding : BitmapBinding) :
    Except CoreError (BitmapBinding × List (Nat × Bytes)) :=
  if (region, page) ∈ tx.dirtyPages then do
    let older := tx.committed.otherDescriptors.bind fun descriptors =>
      (descriptors region).pages[page]?.map BitmapBinding.slot
    match chooseSlot bitmapSlots binding.slot older with
    | none => .error (.corrupt "three slots minus at most two references")
    | some slot => do
      let block ← ((tx.workingPage region page).encode tx.geo.blockSize tx.newGeneration).mapError .format
      pure (⟨slot, (tx.workingPage region page).freeBlocks, tx.newGeneration⟩,
        [(tx.geo.bitmapSlotLba region page slot, block)])
  else pure (binding, [])

def finishPages (tx : TxAllocator) (region : Nat) :
    (page : Nat) → List BitmapBinding → Except CoreError (List BitmapBinding × List (Nat × Bytes))
  | _, [] => .ok ([], [])
  | page, binding :: rest => do
    let (binding, writes) ← tx.finishPage region page binding
    let (bindings, more) ← tx.finishPages region (page + 1) rest
    pure (binding :: bindings, writes ++ more)

structure FinishedRegion where
  record : RegionRecord
  bitmapWrites : List (Nat × Bytes)
  descriptorWrite : Nat × Bytes

def finishRegion (tx : TxAllocator) (region : Nat) : Except CoreError FinishedRegion := do
  let descriptor := tx.committed.descriptors region
  let (pages, bitmapWrites) ← tx.finishPages region 0 descriptor.pages
  let freeBlocks := (pages.map BitmapBinding.freeBlocks).sum
  let older := tx.committed.otherRecords.map fun records => (records region).descriptorSlot
  match chooseSlot descriptorSlots (tx.committed.records region).descriptorSlot older with
  | none => .error (.corrupt "three slots minus at most two references")
  | some slot => do
    let descriptor : RegionDescriptor := { descriptor with pages, freeBlocks }
    let block ← (descriptor.encode tx.geo.blockSize tx.newGeneration).mapError .format
    pure ⟨⟨slot, freeBlocks, tx.newGeneration⟩, bitmapWrites,
      (tx.geo.descriptorSlotLba region slot, block)⟩

/-- The dirty regions in order, with the running total of free blocks. -/
def finishRegions (tx : TxAllocator) :
    List Nat → (total : Nat) → Except CoreError (List (Nat × FinishedRegion) × Nat)
  | [], total => .ok ([], total)
  | region :: rest, total => do
    let finished ← tx.finishRegion region
    let free := (tx.committed.records region).freeBlocks
    refuseIf (total + finished.record.freeBlocks - free ≥ 2 ^ 64) (.corrupt "free block total overflows")
    refuseIf (total + finished.record.freeBlocks < free) (.corrupt "free block total underflows")
    let (regions, total) ← tx.finishRegions rest (total + finished.record.freeBlocks - free)
    pure ((region, finished) :: regions, total)

/-- The queue is rebuilt first: its blocks are allocations and belong into the bitmaps written after. -/
def finish : AllocM FinishedAlloc := do
  checkSnapshotHealth
  let tx ← get
  require (tx.snapshot.isSome → tx.inPhase .sealed)
    (.corrupt "snapshot lifetime accounting must be sealed before allocator finish")
  modifySnapshot fun snapshot => { snapshot with phase := .finalizing }
  let (reclaim, needed) ← lift tx.reclaim.plan
  let lbas ← allocateEach needed
  let built ← lift (reclaim.build tx.geo lbas)
  let tx ← get
  let dirty := (List.range tx.geo.regionCount).filter fun region => region ∈ tx.dirtyRegions
  let (regions, freeBlocksTotal) ← lift (tx.finishRegions dirty tx.currentFreeBlocksTotal)
  let mutation := tx.snapshot.bind SnapshotAccounting.mutation
  pure {
    snapshotRoots := tx.currentSnapshotRoots.bind fun _ => tx.snapshot.bind fun snapshot =>
      mutation.map fun mutation => ⟨snapshot.registryRoot, mutation.rootLba⟩
    lifetimeWrites := (mutation.map LifetimeOutput.writes).getD []
    bitmapWrites := regions.flatMap fun region => region.2.bitmapWrites
    descriptorWrites := regions.map fun region => region.2.descriptorWrite
    dirtyRecords := regions.map fun region => (region.1, region.2.record)
    freeBlocksTotal
    reclaimRootLba := built.rootLba
    reclaimWrites := built.writes
    roverRegion := tx.roverRegion }

end TxAllocator

end Afsplus
