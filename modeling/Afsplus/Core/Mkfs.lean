import Afsplus.Core.AllocationRoot
import Afsplus.Core.LogScan
import Afsplus.Core.Tree
import Afsplus.Format.Checkpoint
import Afsplus.Format.Object
import Afsplus.Format.Reclaim

/-!
# The formatter

The initial metadata right after region 0's reserved head, one bitmap page and one descriptor per
region in slot 0, the allocation-root nodes in their pool, the identification block, a zeroed second
checkpoint slot, and last the checkpoint of generation 1 in slot A. The intent-log slots are marked
allocated and not written.
-/

namespace Afsplus

open Fallible Device

inductive NamePolicy where
  | sensitive
  | insensitive
  deriving DecidableEq, Repr

/-- The formatter's parameters; the bounds are those of the source's field types. -/
structure MkfsParams where
  uuid : Bytes
  uuidLength : uuid.length = 16
  label : Utf8
  regionSize : Nat
  reclaimCaps : ReclaimCaps
  capsWidth : reclaimCaps.inlineEntries < 256 ^ 2 ∧ reclaimCaps.segmentRefs < 256 ^ 2 ∧
    reclaimCaps.tableRefs < 256 ^ 2
  logSlots : Nat
  logSlotsWidth : logSlots < 256 ^ 2
  sharedExtents : Bool
  dataPolicy : Bool
  namePolicy : NamePolicy
  timestamp : Timespec
  timestampWidth : timestamp.InRange

namespace Mkfs

def formatGeneration : Nat := 1

def identLba : Lba := 0

def ckptSlotA : Lba := 1

def ckptSlotB : Lba := 2

def minTotalBlocks : Nat := 16

/-- `protection_for_mode(0o755)`: group and others may read and enter. -/
def rootProtection : Nat := 0xAA00

def rootRecord (params : MkfsParams) (rootDirLba : Lba) : ObjectRecord where
  objectId := objectRoot
  objectType := .directory
  flags := 0
  linkCount := 1
  sizeBytes := 0
  allocatedBytes := defaultBlockSize
  created := params.timestamp
  modified := params.timestamp
  changed := params.timestamp
  protection := rootProtection
  ownerUid := 0
  ownerGid := 0
  contentGeneration := formatGeneration
  dataRoot := rootDirLba
  dataBlocks := 0
  security := none
  attributes := none
  comment := Comment.empty

/-- One bitmap page: the region's head and the blocks handed out by the formatter are allocated. -/
def formatPage (geo : Geometry) (initiallyAllocated : List Lba) (region pageIndex : Nat) :
    BitmapPage :=
  let firstBlock := pageIndex * bitmapPageBlocks
  let page := BitmapPage.allFree region pageIndex firstBlock
    (geo.bitmapPageValidBlocks region pageIndex)
  let pageEnd := firstBlock + page.validBlocks
  let reserved := geo.regionReservedBlocks region + Geometry.regionHead region
  let page := (List.range' firstBlock (min pageEnd reserved - firstBlock)).foldl
    (fun page index => page.setAllocated (index - firstBlock)) page
  let lbaStart := geo.regionBase region + firstBlock
  let lbaEnd := geo.regionBase region + pageEnd
  (initiallyAllocated.filter fun lba => lbaStart ≤ lba ∧ lba < lbaEnd).foldl
    (fun page lba => page.setAllocated (lba - lbaStart)) page

def formatPages (geo : Geometry) (initiallyAllocated : List Lba) (region : Nat) :
    List Nat → EStateM CoreError Device (List BitmapBinding)
  | [] => pure []
  | pageIndex :: rest => do
    let page := formatPage geo initiallyAllocated region pageIndex
    let block ← lift ((page.encode geo.blockSize formatGeneration).mapError .format)
    writeBlock (geo.bitmapSlotLba region pageIndex 0) block
    let bindings ← formatPages geo initiallyAllocated region rest
    pure (⟨0, page.freeBlocks, formatGeneration⟩ :: bindings)

def formatRegions (geo : Geometry) (initiallyAllocated : List Lba) :
    List Nat → EStateM CoreError Device (List RegionRecord)
  | [] => pure []
  | region :: rest => do
    let bindings ← formatPages geo initiallyAllocated region (List.range (geo.bitmapPageCount region))
    let freeBlocks := (bindings.map BitmapBinding.freeBlocks).sum
    let descriptor : RegionDescriptor :=
      ⟨region, geo.regionValidBlocks region, freeBlocks, bindings⟩
    let block ← lift ((descriptor.encode geo.blockSize formatGeneration).mapError .format)
    writeBlock (geo.descriptorSlotLba region 0) block
    let records ← formatRegions geo initiallyAllocated rest
    pure (⟨0, freeBlocks, formatGeneration⟩ :: records)

def writeNodes (blockSize : Nat) : List (Lba × TreeNode) → EStateM CoreError Device Unit
  | [] => pure ()
  | (lba, node) :: rest => do
    let block ← lift ((node.encode blockSize formatGeneration).mapError .format)
    writeBlock lba block
    writeNodes blockSize rest

def featureFlags (params : MkfsParams) (securityDescriptors : Bool) : FeatureFlags where
  compat := if params.dataPolicy then compatDataPolicy else 0
  roCompat := roCompatOrphanDirectory ||| if params.sharedExtents then roCompatSharedExtents else 0
  incompat :=
    (if params.logSlots > 0 then incompatIntentLog ||| incompatIntentLogDataUpdates else 0) |||
      if securityDescriptors then incompatSecurityDescriptors else 0

def identification (params : MkfsParams) (geo : Geometry) (securityDescriptors : Bool) :
    Identification where
  uuid := params.uuid
  blockShift := defaultBlockShift
  checksumAlgorithm := checksumCrc32c
  regionSize := params.regionSize
  logSlots := params.logSlots
  features := featureFlags params securityDescriptors
  nameKeyAlgorithm := match params.namePolicy with
    | .sensitive => .unicodeNfc
    | .insensitive => .unicodeNfcCasefold
  unicodeVersion := unicodeVersion1600
  totalBlocks := geo.totalBlocks
  checkpointSlots := (ckptSlotA, ckptSlotB)
  metadataStart := geo.region0ReservedBlocks
  label := params.label

def checkpoint (params : MkfsParams) (geo : Geometry) (allocationRoot : Lba)
    (regions : List RegionRecord) : Checkpoint where
  uuid := params.uuid
  generation := formatGeneration
  rootObjectId := objectRoot
  objectMapBlock := geo.region0ReservedBlocks + 2
  allocationRootBlock := allocationRoot
  reclaimRootBlock := geo.region0ReservedBlocks + 3
  nextObjectId := objectFirstDynamic
  committedTxId := formatGeneration
  freeBlocksTotal := (regions.map RegionRecord.freeBlocks).sum
  flags := 0
  sharedExtentRootBlock := 0
  label := params.label
  snapshotRoots := none

/-- The four blocks of initial metadata, in the order the source writes them. -/
def writeBootstrap (params : MkfsParams) (geo : Geometry) : EStateM CoreError Device Unit := do
  let start := geo.region0ReservedBlocks
  let omap ← lift (ObjectMap.initialLeaf objectRoot start)
  let record ← lift (((rootRecord params (start + 1)).encode geo.blockSize formatGeneration).mapError
    .format)
  writeBlock start record
  let directory ← lift (((Directory.emptyLeaf objectRoot).encode geo.blockSize
    formatGeneration).mapError .format)
  writeBlock (start + 1) directory
  let omapBlock ← lift ((omap.encode geo.blockSize formatGeneration).mapError .format)
  writeBlock (start + 2) omapBlock
  let reclaim ← lift (((ReclaimRoot.empty params.reclaimCaps).encode geo.blockSize
    formatGeneration).mapError .format)
  writeBlock (start + 3) reclaim

/-- Bitmaps, descriptors and the allocation root; the root's address and the regions' records. -/
def writeAllocation (params : MkfsParams) (geo : Geometry) :
    EStateM CoreError Device (Lba × List RegionRecord) := do
  let provisional ← lift (AllocationRoot.bulkBuild geo
    (List.replicate geo.regionCount ⟨0, 0, formatGeneration⟩))
  let logArea ← lift (IntentLog.logSlotLbas geo params.logSlots)
  let initiallyAllocated :=
    provisional.poolLbas ++ logArea ++ List.range' geo.region0ReservedBlocks bootstrapMetadataBlocks
  let regions ← formatRegions geo initiallyAllocated (List.range geo.regionCount)
  let allocationRoot ← lift (AllocationRoot.bulkBuild geo regions)
  require (allocationRoot.poolLbas = provisional.poolLbas)
    (.corrupt "allocation-root pool changed with record values")
  writeNodes geo.blockSize allocationRoot.nodes
  pure (allocationRoot.rootLba, regions)

/-- The identification block, the zeroed slot B, the barrier, and the checkpoint in slot A. -/
def publish (params : MkfsParams) (geo : Geometry) (securityDescriptors : Bool)
    (allocationRoot : Lba) (regions : List RegionRecord) : EStateM CoreError Device Unit := do
  let ident ← lift (((identification params geo securityDescriptors).encode geo.blockSize).mapError
    .format)
  writeBlock identLba ident
  writeBlock ckptSlotB (List.replicate geo.blockSize 0)
  let block ← lift (((checkpoint params geo allocationRoot regions).encode geo.blockSize).mapError
    .format)
  writeBlock ckptSlotA block

/-- `mkfs` and, with `securityDescriptors`, `mkfs_with_security_descriptors`. Barriers do nothing on a
device without crashes. -/
def mkfs (params : MkfsParams) (securityDescriptors : Bool) : EStateM CoreError Device Unit := do
  let dev ← get
  require (dev.blockSize = defaultBlockSize)
    (.unsupportedGeometry "prototype supports only 4 KiB blocks")
  let geo : Geometry := ⟨dev.blockSize, dev.totalBlocks, params.regionSize⟩
  lift (geo.validate.mapError .format)
  require (minTotalBlocks ≤ geo.totalBlocks) (.unsupportedGeometry "volume too small")
  writeBootstrap params geo
  let (allocationRoot, regions) ← writeAllocation params geo
  publish params geo securityDescriptors allocationRoot regions

end Mkfs

end Afsplus
