import Afsplus.Core.FreshVolume
import Afsplus.Core.Mount

/-!
# Mounting a fresh volume

Every block a mount reads before the log was written by the format, so the mount reaches the scan of
the log with the new checkpoint and an empty root. The log slots are the exception: the format leaves
what stood there, and a format always publishes generation 1.
-/

namespace Afsplus

open Fallible List Geometry Device IntentLog ReclaimRoot

namespace Mkfs

section MountFresh

variable {params : MkfsParams} {securityDescriptors : Bool} {geo : Geometry} {slots : List Lba}
  {published : Checkpoint} {dev dev' : Device}

private theorem negotiateFeatures_identification (geo : Geometry) :
    Mount.negotiateFeatures (identification params geo securityDescriptors) .readWrite = .ok () := by
  have hincompat : Mount.unknownBits (featureFlags params securityDescriptors).incompat
      Mount.supportedIncompatFeatures = 0 := by
    unfold featureFlags
    dsimp only
    split <;> cases securityDescriptors <;> decide
  have hroCompat : Mount.unknownBits (featureFlags params securityDescriptors).roCompat
      Mount.supportedRoCompatFeatures = 0 := by
    unfold featureFlags
    dsimp only
    cases params.sharedExtents <;> decide
  unfold Mount.negotiateFeatures
  dsimp only [identification]
  rw [refuseIf_bind (not_not.mpr hincompat), refuseIf_eq_ok]
  rintro ⟨hne, -⟩
  exact hne hroCompat

private theorem readSlot_of_verify_error {block : Bytes} {e : FormatError}
    (h : BlockHeader.verify block BlockType.checkpoint = .error e) (ident : Identification) :
    Mount.readSlot block ident = .refused e (Mount.claimedGeneration block) := by
  have hdec : Checkpoint.decode block ident.uuid = .error e := by
    unfold Checkpoint.decode
    rw [h]
    rfl
  unfold Mount.readSlot
  rw [hdec]

private theorem claimRoot_eq_ok {lba : Nat} {roots : List Lba} (halloc : geo.isAllocatable lba = true)
    (hfresh : lba ∉ roots) : Mount.claimRoot geo lba roots = .ok (lba :: roots) := by
  rw [Mount.claimRoot, refuseIf_bind (by simp [halloc]), refuseIf_bind hfresh]
  rfl

private theorem dataUpdates_identification (hslots : params.logSlots ≠ 0) :
    (identification params geo securityDescriptors).dataUpdates = true := by
  show ((featureFlags params securityDescriptors).incompat &&& incompatIntentLogDataUpdates != 0) = true
  unfold featureFlags
  dsimp only
  rw [if_pos (Nat.pos_of_ne_zero hslots)]
  cases securityDescriptors <;> decide

variable (h : Formatted params securityDescriptors geo slots published dev dev')
include h

private theorem identification_geometry : (identification params geo securityDescriptors).geometry = geo := by
  have hsize := h.valid.blockSize
  have hreg := h.regionSize
  cases geo with
  | mk blockSize totalBlocks regionSize =>
    dsimp only at hsize hreg
    subst hsize
    subst hreg
    rfl

private theorem identification_inRange : (identification params geo securityDescriptors).InRange := by
  have htotal := dev'.addressWidth
  rw [h.totalBlocks] at htotal
  have hreg := h.valid.maxRegion
  rw [h.regionSize] at hreg
  refine ⟨params.uuidLength, params.logSlotsWidth, ?_, htotal, ?_, ?_, ?_⟩
  · exact lt_of_le_of_lt hreg (by decide)
  · show (if params.dataPolicy then compatDataPolicy else 0) < 256 ^ 8
    cases params.dataPolicy <;> decide
  · show (roCompatOrphanDirectory ||| if params.sharedExtents then roCompatSharedExtents else 0)
      < 256 ^ 8
    cases params.sharedExtents <;> decide
  · show ((if params.logSlots > 0 then incompatIntentLog ||| incompatIntentLogDataUpdates else 0) |||
      if securityDescriptors then incompatSecurityDescriptors else 0) < 256 ^ 8
    split <;> cases securityDescriptors <;> decide

private theorem decode_identification :
    Identification.decode (dev'.blocks 0) = .ok (identification params geo securityDescriptors) :=
  Identification.decode_encode (identification_inRange h) rfl h.ident

theorem start_lt {i : Nat} (hi : i < 4) : geo.region0ReservedBlocks + i < dev'.totalBlocks := by
  have halloc := isAllocatable_bootstrap h.valid h.minBlocks hi
  simp only [Geometry.isAllocatable, Bool.and_eq_true, decide_eq_true_eq] at halloc
  rw [h.totalBlocks]
  exact halloc.1

private theorem start_width {i : Nat} (hi : i < 4) : geo.region0ReservedBlocks + i < 256 ^ 8 :=
  lt_trans (start_lt h hi) dev'.addressWidth

private theorem published_inRange : published.InRange := by
  obtain ⟨root, regions, rfl, hroot, hfree⟩ := h.fields
  have htotal := dev'.addressWidth
  rw [h.totalBlocks] at htotal
  have hrootLt : root < geo.totalBlocks := by
    simp only [Geometry.isAllocatable, Bool.and_eq_true, decide_eq_true_eq] at hroot
    exact hroot.1
  exact ⟨params.uuidLength, show formatGeneration < 256 ^ 8 by decide, start_width h (by decide),
    lt_trans hrootLt htotal, start_width h (by decide), show objectFirstDynamic < 256 ^ 8 by decide,
    show formatGeneration < 256 ^ 8 by decide, lt_of_le_of_lt hfree htotal,
    show 0 < 256 ^ 8 by decide, fun roots hroots => by cases hroots⟩

private theorem readSlot_published :
    Mount.readSlot (dev'.blocks 1) (identification params geo securityDescriptors) = .valid published := by
  obtain ⟨root, regions, hpub, hroot, hfree⟩ := h.fields
  have huuid : published.uuid = (identification params geo securityDescriptors).uuid := by
    rw [hpub]
    rfl
  have hdec : Checkpoint.decode (dev'.blocks 1)
      (identification params geo securityDescriptors).uuid = .ok published := by
    rw [← huuid]
    exact Checkpoint.decode_encode (published_inRange h) (by rw [hpub]; rfl) h.slotA
  have hstructural : published.validateStructural geo = .ok () := by
    rw [Checkpoint.validateStructural_eq_ok, hpub]
    exact ⟨rfl, hroot, hfree, isAllocatable_bootstrap h.valid h.minBlocks (by decide),
      isAllocatable_bootstrap h.valid h.minBlocks (by decide),
      fun hne => absurd rfl hne, le_refl _⟩
  unfold Mount.readSlot
  simp only [hdec, identification_geometry h, hstructural]

private theorem selectCheckpoint_formatted :
    ∃ selection, Mount.selectCheckpoint dev' (identification params geo securityDescriptors)
        = .ok selection ∧ selection.chosen = published ∧ selection.chosenSlot = 0 := by
  obtain ⟨root, regions, hpub, -, -⟩ := h.fields
  have htotal : 16 ≤ dev'.totalBlocks := by
    rw [h.totalBlocks]
    exact h.minBlocks
  obtain ⟨e, he⟩ : ∃ e, BlockHeader.verify (dev'.blocks 2) BlockType.checkpoint = .error e := by
    rw [h.slotB]
    exact BlockHeader.verify_zero (by decide)
  have hsnapshots : published.snapshotRoots.isSome = ((identification params geo
      securityDescriptors).features.incompat &&& incompatPersistentSnapshots != 0) := by
    rw [hpub]
    show false = ((featureFlags params securityDescriptors).incompat &&& _ != 0)
    unfold featureFlags
    dsimp only
    split <;> cases securityDescriptors <;> decide
  refine ⟨⟨published, 0, none, (Mount.claimedGeneration (dev'.blocks 2)).any
    fun generation => generation > published.generation⟩, ?_, rfl, rfl⟩
  have hreadA : dev'.read (identification params geo securityDescriptors).checkpointSlots.1
      = .ok (dev'.blocks 1) := read_of_lt (show 1 < dev'.totalBlocks by omega)
  have hreadB : dev'.read (identification params geo securityDescriptors).checkpointSlots.2
      = .ok (dev'.blocks 2) := read_of_lt (show 2 < dev'.totalBlocks by omega)
  unfold Mount.selectCheckpoint
  rw [hreadA, hreadB]
  refine bind_ok.mpr ⟨_, rfl, bind_ok.mpr ⟨_, rfl, ?_⟩⟩
  rw [readSlot_published h, readSlot_of_verify_error he]
  refine bind_ok.mpr ⟨_, rfl, ?_⟩
  rw [refuseIf_bind (not_not.mpr hsnapshots)]
  rfl

/-! ### The roots of the new volume -/

private theorem objectMap_leafAt :
    Tree.LeafAt dev' geo (ObjectMap.spec formatGeneration) (geo.region0ReservedBlocks + 2)
      ⟨.objectMap, 0, 0, 1, 0, 0, [⟨keyU64 objectRoot, Wire.leBytes 8 geo.region0ReservedBlocks⟩]⟩ := by
  obtain ⟨omap, homap, henc⟩ := h.omap
  obtain ⟨value, hvalue, homap⟩ := of_bind homap
  replace hvalue := after_check hvalue
  cases hvalue
  cases homap
  refine ⟨start_lt h (by decide), isAllocatable_bootstrap h.valid h.minBlocks (by decide),
    ⟨formatGeneration, ?_, by decide, le_refl _⟩, rfl, rfl, rfl⟩
  exact TreeNode.decode_encode ⟨show 0 < 256 ^ 8 by decide, show 1 < 256 ^ 8 by decide,
    show 0 < 256 ^ 8 by decide, show 0 < 256 ^ 8 by decide⟩ (by decide) (by decide) henc

private theorem rootDirectory_leafAt :
    Tree.LeafAt dev' geo (Directory.spec objectRoot formatGeneration)
      (geo.region0ReservedBlocks + 1) (Directory.emptyLeaf objectRoot) := by
  refine ⟨start_lt h (by decide), isAllocatable_bootstrap h.valid h.minBlocks (by decide),
    ⟨formatGeneration, ?_, by decide, le_refl _⟩, rfl, rfl, rfl⟩
  exact TreeNode.decode_encode ⟨show objectRoot < 256 ^ 8 by decide, show 0 < 256 ^ 8 by decide,
    show 0 < 256 ^ 8 by decide, show 0 < 256 ^ 8 by decide⟩ (by decide) (by decide) h.directory

private theorem lookupLba_formatted :
    ObjectMap.lookupLba dev' geo (geo.region0ReservedBlocks + 2) formatGeneration objectRoot
      = .ok (some geo.region0ReservedBlocks) := by
  have hwidth := start_width h (show 0 < 4 by decide)
  have halloc := isAllocatable_bootstrap h.valid h.minBlocks (show 0 < 4 by decide)
  rw [Nat.add_zero] at hwidth halloc
  have hvalue : ObjectMap.decodeValue (Wire.leBytes 8 geo.region0ReservedBlocks) geo objectRoot
      = .ok geo.region0ReservedBlocks := by
    rw [ObjectMap.decodeValue, refuseIf_bind (by simp)]
    simp only [Wire.leNat_leBytes hwidth]
    rw [refuseIf_bind (by simp [halloc])]
    rfl
  have hlookup := Tree.lookup_of_leafAt (objectMap_leafAt h) (show keyU64 objectRoot ≠ [] by decide) (by decide)
  unfold ObjectMap.lookupLba
  rw [hlookup]
  refine bind_ok.mpr ⟨_, rfl, ?_⟩
  simp only [find?_cons, decide_true, Option.map_some]
  exact bind_ok.mpr ⟨_, hvalue, rfl⟩

private theorem decode_rootRecord :
    ObjectRecord.decodeMetadataWithGeneration (dev'.blocks geo.region0ReservedBlocks)
      = .ok (rootRecord params (geo.region0ReservedBlocks + 1), formatGeneration) := by
  have hrng : (rootRecord params (geo.region0ReservedBlocks + 1)).InRange :=
    ⟨show objectRoot < 256 ^ 8 by decide, show 1 < 256 ^ 4 by decide, show 0 < 256 ^ 8 by decide,
      show defaultBlockSize < 256 ^ 8 by decide, params.timestampWidth, params.timestampWidth,
      params.timestampWidth, show rootProtection < 256 ^ 4 by decide, show 0 < 256 ^ 4 by decide,
      show 0 < 256 ^ 4 by decide, show formatGeneration < 256 ^ 8 by decide,
      start_width h (by decide), show 0 < 256 ^ 8 by decide, (fun ref href => by cases href),
      (fun ref href => by cases href)⟩
  exact ObjectRecord.decodeMetadata_encode hrng (by decide) h.record

private theorem loadRootObject_formatted :
    Mount.loadRootObject dev' geo published
      = .ok (geo.region0ReservedBlocks, rootRecord params (geo.region0ReservedBlocks + 1),
          [geo.region0ReservedBlocks, geo.region0ReservedBlocks + 2]) := by
  obtain ⟨root, regions, rfl, -, -⟩ := h.fields
  have halloc := fun {i : Nat} (hi : i < 4) => isAllocatable_bootstrap h.valid h.minBlocks hi
  have hstart := start_lt h (show 0 < 4 by decide)
  have hstartAlloc := halloc (show 0 < 4 by decide)
  rw [Nat.add_zero] at hstart hstartAlloc
  unfold Mount.loadRootObject
  refine bind_ok.mpr ⟨_, claimRoot_eq_ok (halloc (by decide)) (not_mem_nil), ?_⟩
  refine bind_ok.mpr ⟨_, rfl, bind_ok.mpr ⟨_, lookupLba_formatted h, ?_⟩⟩
  refine bind_ok.mpr ⟨_, claimRoot_eq_ok hstartAlloc ?_, ?_⟩
  · rw [mem_singleton]
    show geo.region0ReservedBlocks ≠ geo.region0ReservedBlocks + 2
    omega
  refine bind_ok.mpr ⟨_, read_of_lt hstart, ?_⟩
  rw [decode_rootRecord h]
  refine bind_ok.mpr ⟨_, rfl, ?_⟩
  dsimp only
  rw [refuseIf_bind (by simp [checkpoint, formatGeneration]), refuseIf_bind (by simp [rootRecord])]
  rfl

private theorem loadReclaimRoot_formatted {roots : List Lba} (hroots : geo.region0ReservedBlocks + 3 ∉ roots) :
    Mount.loadReclaimRoot dev' geo published roots = .ok (empty params.reclaimCaps) := by
  obtain ⟨root, regions, rfl, -, -⟩ := h.fields
  have hrng : (empty params.reclaimCaps).InRange :=
    ⟨⟨show 0 < 256 ^ 8 by decide, show 0 < 256 ^ 8 by decide, show 0 < 256 ^ 8 by decide,
      show 0 < 256 ^ 4 by decide, show 0 < 256 ^ 4 by decide, show 0 < 256 ^ 4 by decide,
      params.capsWidth.1, params.capsWidth.2.1, params.capsWidth.2.2,
      fun ref href => absurd href not_mem_nil, fun entry hentry => absurd hentry not_mem_nil⟩,
      fun entry hentry => absurd hentry not_mem_nil⟩
  unfold Mount.loadReclaimRoot
  refine bind_ok.mpr ⟨_, claimRoot_eq_ok
    (isAllocatable_bootstrap h.valid h.minBlocks (show 3 < 4 by decide)) hroots, ?_⟩
  refine bind_ok.mpr ⟨_, read_of_lt (start_lt h (show 3 < 4 by decide)), ?_⟩
  have hdec : decode (dev'.blocks (checkpoint params geo root regions).reclaimRootBlock)
      = .ok (empty params.reclaimCaps, formatGeneration) :=
    decode_encode hrng (by decide) h.reclaim
  rw [hdec]
  refine bind_ok.mpr ⟨_, rfl, ?_⟩
  dsimp only
  rw [refuseIf_bind (by simp [checkpoint])]
  rfl

private theorem loadMountState_formatted :
    Mount.loadMountState dev' (identification params geo securityDescriptors) published
      = .ok ⟨geo.region0ReservedBlocks, rootRecord params (geo.region0ReservedBlocks + 1),
          empty params.reclaimCaps⟩ := by
  have hgen : published.generation = formatGeneration := by
    obtain ⟨root, regions, rfl, -, -⟩ := h.fields
    rfl
  have halloc := isAllocatable_bootstrap h.valid h.minBlocks (show 1 < 4 by decide)
  have hdir : Directory.validateRoot dev' geo (geo.region0ReservedBlocks + 1) objectRoot
      formatGeneration = .ok () := by
    have hlba : Tree.checkTreeLba geo (geo.region0ReservedBlocks + 1) = .ok () := by
      rw [Tree.checkTreeLba, refuseIf_eq_ok]
      simp [halloc]
    rw [Directory.validateRoot, check_bind hlba, Tree.readNode_of_leafAt (rootDirectory_leafAt h)]
    rfl
  unfold Mount.loadMountState
  rw [identification_geometry h, hgen]
  refine bind_ok.mpr ⟨_, loadRootObject_formatted h, ?_⟩
  refine bind_ok.mpr ⟨_, claimRoot_eq_ok halloc ?_, ?_⟩
  · simp only [rootRecord, mem_cons, not_mem_nil, or_false]
    omega
  refine check_ok.mpr ⟨hdir, ?_⟩
  refine bind_ok.mpr ⟨_, loadReclaimRoot_formatted h ?_, rfl⟩
  simp only [rootRecord, mem_cons, not_mem_nil, or_false]
  omega

private theorem mountStages_formatted :
    ∃ volume, Mount.mountStages dev' .readWrite = .ok volume ∧
      volume.ident = identification params geo securityDescriptors ∧
      volume.selection.chosen = published ∧ volume.selection.chosenSlot = 0 ∧
      volume.state.rootObject = rootRecord params (geo.region0ReservedBlocks + 1) := by
  obtain ⟨selection, hselection, hchosen, hslot⟩ := selectCheckpoint_formatted h
  have hshared : published.sharedExtentRootBlock = 0 := by
    obtain ⟨root, regions, rfl, -, -⟩ := h.fields
    rfl
  have htotal : 16 ≤ dev'.totalBlocks := by
    rw [h.totalBlocks]
    exact h.minBlocks
  refine ⟨⟨identification params geo securityDescriptors, selection,
    ⟨geo.region0ReservedBlocks, rootRecord params (geo.region0ReservedBlocks + 1),
      empty params.reclaimCaps⟩, .readWrite⟩, ?_, rfl, hchosen, hslot, rfl⟩
  unfold Mount.mountStages
  rw [refuseIf_bind (show ¬dev'.blockSize ≠ defaultBlockSize from not_not.mpr h.blockSize)]
  refine bind_ok.mpr ⟨_, read_of_lt (show 0 < dev'.totalBlocks by omega), ?_⟩
  rw [decode_identification h]
  refine bind_ok.mpr ⟨_, rfl, ?_⟩
  rw [check_bind (negotiateFeatures_identification geo),
    refuseIf_bind (by simp [identification, h.totalBlocks]), hselection]
  refine bind_ok.mpr ⟨_, rfl, ?_⟩
  rw [refuseIf_bind (by simp [hchosen, hshared]), hchosen, loadMountState_formatted h]
  rfl

private theorem listRoot_formatted (comparisonKey : Bytes → Except CoreError Bytes) {volume : Mount.MountedVolume}
    (hident : volume.ident = identification params geo securityDescriptors)
    (hchosen : volume.selection.chosen = published)
    (hroot : volume.state.rootObject = rootRecord params (geo.region0ReservedBlocks + 1)) :
    Mount.listRoot dev' comparisonKey volume = .ok [] := by
  have hgen : published.generation = formatGeneration := by
    obtain ⟨root, regions, rfl, -, -⟩ := h.fields
    rfl
  unfold Mount.listRoot
  rw [hroot, hident, hchosen, identification_geometry h, hgen]
  dsimp only [rootRecord]
  rw [refuseIf_bind (by decide), Directory.loadAll,
    Tree.visitTreeNodes_of_leafAt (rootDirectory_leafAt h)]
  rfl

private theorem scan_formatted (hslots : params.logSlots ≠ 0) :
    ∃ scanned, scan dev'.blocks geo params.logSlots params.uuid formatGeneration
        (identification params geo securityDescriptors).dataUpdates = .ok scanned ∧
      (scanned.records = [] ↔ ∀ slot rest record referenced, slots = slot :: rest →
        ¬(LogRecord.decode (dev.blocks slot) = .ok record ∧ record.uuid = params.uuid ∧
          record.baseGeneration = formatGeneration ∧ record.sequence = 1 ∧
          verifyRecordContents dev'.blocks geo record [] = .ok referenced)) := by
  have hlbas : logSlotLbas geo params.logSlots = .ok slots := by
    rw [logSlotLbas, h.logArea]
    rfl
  obtain ⟨scanned, hscan⟩ := @scanSlots_total dev'.blocks geo params.uuid formatGeneration slots 0 []
  refine ⟨scanned, ?_, ?_⟩
  · rw [scan, hlbas, dataUpdates_identification hslots]
    exact hscan
  · cases hcases : slots with
    | nil =>
      rw [hcases] at hscan
      cases hscan
      exact ⟨fun _ _ _ _ _ hnil => absurd hnil (cons_ne_nil _ _).symm, fun _ => rfl⟩
    | cons slot rest =>
      rw [hcases] at hscan
      have hkept := h.slotsKept slot (hcases ▸ mem_cons_self)
      rw [scanSlots_records_eq_nil hscan]
      constructor
      · intro hnone slot' rest' record referenced heq hrec
        cases heq
        refine hnone record referenced ⟨?_, hrec.2⟩
        rw [hkept]
        exact hrec.1
      · intro hnone record referenced haccepts
        refine hnone slot rest record referenced rfl ⟨?_, haccepts.2⟩
        rw [← hkept]
        exact haccepts.1

end MountFresh

/-! ### Formatting over an older volume -/

/-- A read-write mount of the device that takes the checkpoint of slot A, which the format wrote as
generation 1, replays no record, leaves the device as it is and shows an empty root directory. -/
def MountsEmpty (params : MkfsParams) (replay : Mount.Replay)
    (comparisonKey : Bytes → Except CoreError Bytes) (dev : Device) : Prop :=
  ∃ volume, Mount.mount replay dev = .ok (volume, 0) dev ∧
    volume.selection.chosenSlot = 0 ∧
    Checkpoint.decode (dev.blocks ckptSlotA) params.uuid = .ok volume.selection.chosen ∧
    volume.selection.chosen.generation = formatGeneration ∧
    Mount.listRoot dev comparisonKey volume = .ok []

/-- The block of the first log slot, which the format does not write, is a record of a volume with
the new uuid, bound to the generation every format publishes, and the content it names is on the
device `dev'` that is to be mounted. -/
def StaleRecord (params : MkfsParams) (dev dev' : Device) : Prop :=
  let geo : Geometry := ⟨dev.blockSize, dev.totalBlocks, params.regionSize⟩
  ∃ slot rest record referenced, geo.intentLogSlotLbas params.logSlots = .ok (slot :: rest) ∧
    LogRecord.decode (dev.blocks slot) = .ok record ∧ record.uuid = params.uuid ∧
    record.baseGeneration = formatGeneration ∧ record.sequence = 1 ∧
    verifyRecordContents dev'.blocks geo record [] = .ok referenced

section

variable {params : MkfsParams} {securityDescriptors : Bool} {dev dev' : Device} {published : Checkpoint}

/-- Every mount of a formatted device reaches the log; what happens there decides. -/
private theorem mountsEmpty_iff_recover {geo : Geometry} {slots : List Lba}
    (h : Formatted params securityDescriptors geo slots published dev dev') (replay : Mount.Replay)
    (comparisonKey : Bytes → Except CoreError Bytes) :
    ∃ volume : Mount.MountedVolume, volume.ident = identification params geo securityDescriptors ∧
      volume.selection.chosen = published ∧ (Mount.recoverIntentLog replay volume dev' = .ok (volume, 0) dev' →
        MountsEmpty params replay comparisonKey dev') ∧ (MountsEmpty params replay comparisonKey dev' →
        ∃ volume', Mount.recoverIntentLog replay volume dev' = .ok (volume', 0) dev') := by
  obtain ⟨volume, hstages, hident, hchosen, hslot, hroot⟩ := mountStages_formatted h
  have hmount := Mount.mount_of_stages replay hstages
  refine ⟨volume, hident, hchosen, fun hrecover => ?_, ?_⟩
  · obtain ⟨root, regions, hpub, -, -⟩ := h.fields
    have huuid : published.uuid = params.uuid := by rw [hpub]; rfl
    have hdec : Checkpoint.decode (dev'.blocks 1) published.uuid = .ok published :=
      Checkpoint.decode_encode (published_inRange h) (by rw [hpub]; rfl) h.slotA
    refine ⟨volume, hmount.trans hrecover, hslot, ?_, ?_, listRoot_formatted h comparisonKey hident hchosen hroot⟩
    · rw [hchosen, ← huuid]
      exact hdec
    · rw [hchosen, hpub]
      rfl
  · rintro ⟨volume', hmounted, -⟩
    exact ⟨volume', hmount.symm.trans hmounted⟩

private theorem mountsEmpty_iff_of_formatted {slots : List Lba}
    (h : Formatted params securityDescriptors ⟨dev.blockSize, dev.totalBlocks, params.regionSize⟩
      slots published dev dev') (replay : Mount.Replay) (comparisonKey : Bytes → Except CoreError Bytes) :
    MountsEmpty params replay comparisonKey dev' ↔ ¬StaleRecord params dev dev' := by
  obtain ⟨volume, hident, hchosen, hempty, hrecover⟩ := mountsEmpty_iff_recover h replay comparisonKey
  have hlogSlots : volume.ident.logSlots = params.logSlots := by rw [hident]; rfl
  by_cases hzero : params.logSlots = 0
  · -- without log slots there is nothing to scan and nothing to replay
    have hnone : slots = [] := eq_nil_of_length_eq_zero ((length_logSlots h.logArea).trans hzero)
    refine ⟨fun _ hstale => ?_, fun _ => hempty ?_⟩
    · obtain ⟨slot, rest, record, referenced, hslots, -⟩ := hstale
      rw [h.logArea, hnone] at hslots
      cases hslots
    · rw [Mount.recoverIntentLog, if_pos (hlogSlots.trans hzero)]
      rfl
  · obtain ⟨scanned, hscan, hrecs⟩ := scan_formatted h hzero
    have hgen : published.generation = formatGeneration := by
      obtain ⟨root, regions, hpub, -, -⟩ := h.fields
      rw [hpub]
      rfl
    have hscanVolume : scan dev'.blocks volume.ident.geometry volume.ident.logSlots
        volume.ident.uuid volume.selection.chosen.generation volume.ident.dataUpdates
          = .ok scanned := by
      rw [hident, hchosen, identification_geometry h, hgen]
      exact hscan
    obtain ⟨hreplaysNone, honlyEmpty⟩ := Mount.recoverIntentLog_zero_iff replay
      (show volume.ident.logSlots ≠ 0 by rw [hlogSlots]; exact hzero) hscanVolume
    constructor
    · rintro hmounts ⟨slot, rest, record, referenced, hslots, hstale⟩
      obtain ⟨volume', hzeroReplay⟩ := hrecover hmounts
      have hnil := honlyEmpty volume' dev' hzeroReplay
      rw [h.logArea] at hslots
      exact hrecs.mp hnil slot rest record referenced (Except.ok.inj hslots) hstale
    · intro hclean
      refine hempty (hreplaysNone (hrecs.mpr ?_))
      intro slot rest record referenced hslots hstale
      refine hclean ⟨slot, rest, record, referenced, ?_, hstale⟩
      rw [h.logArea, hslots]

/-- A new volume mounts as empty exactly when the device held no record that passes for its own. -/
theorem mounts_empty_iff_no_stale_record (h : mkfs params securityDescriptors dev = .ok () dev')
    (replay : Mount.Replay) (comparisonKey : Bytes → Except CoreError Bytes) :
    MountsEmpty params replay comparisonKey dev' ↔ ¬StaleRecord params dev dev' := by
  obtain ⟨slots, published, hformatted⟩ := formatted_of_mkfs h
  exact mountsEmpty_iff_of_formatted hformatted replay comparisonKey

end

/-- The smallest volume with a log slot: block 16, behind 9 reserved blocks, 4 blocks of metadata and
the pool of 3. -/
def smallVolume : MkfsParams where
  uuid := replicate 16 7
  uuidLength := by decide
  label := Utf8.empty
  regionSize := 32
  reclaimCaps := ⟨16, 16, 16⟩
  capsWidth := by decide
  logSlots := 1
  logSlotsWidth := by decide
  sharedExtents := false
  dataPolicy := false
  namePolicy := .sensitive
  timestamp := ⟨0, 0⟩
  timestampWidth := ⟨by decide, by decide⟩

def smallDevice (blocks : Nat → Bytes) : Device :=
  ⟨4096, 32, addressWidth_sample, blocks⟩

/-- On a device of 32 blocks `x` returns `a`. -/
def Returns {α : Type} (x : EStateM CoreError Device α) (a : α) : Prop :=
  ∀ dev : Device, dev.totalBlocks = 32 → ∃ dev', x dev = .ok a dev' ∧ dev'.totalBlocks = 32

section Returns

variable {α β : Type} {x : EStateM CoreError Device α} {a : α} {b : β}

theorem Returns.bind {f : α → EStateM CoreError Device β} (hx : Returns x a) (hf : Returns (f a) b) :
    Returns (x >>= f) b := by
  intro dev hdev
  obtain ⟨dev₁, hrun, hdev₁⟩ := hx dev hdev
  rw [bind_of_ok hrun]
  exact hf dev₁ hdev₁

theorem Returns.lift {r : Except CoreError α} (hr : r = .ok a) : Returns (Fallible.lift r) a :=
  fun dev hdev => ⟨dev, lift_eq_ok.mpr ⟨hr, rfl⟩, hdev⟩

theorem Returns.write {lba : Lba} {block : Bytes} (hlba : lba < 32) : Returns (writeBlock lba block) () := by
  intro dev hdev
  exact ⟨dev.write lba block, writeBlock_eq_ok.mpr ⟨hdev ▸ hlba, rfl⟩, hdev⟩

theorem Returns.encode {r : Except FormatError Bytes} {f : Bytes → EStateM CoreError Device β}
    (hr : ∃ block, r = .ok block) (hf : ∀ block, Returns (f block) b) :
    Returns (Fallible.lift (r.mapError .format) >>= f) b := by
  obtain ⟨block, rfl⟩ := hr
  exact .bind (.lift rfl) (hf block)

end Returns

private theorem writeBootstrap_small : Returns (writeBootstrap smallVolume Geometry.sample) () := by
  have hstart : Geometry.sample.region0ReservedBlocks = 9 := by decide
  unfold writeBootstrap
  rw [hstart]
  refine .bind (.lift rfl) (.encode ⟨_, ObjectRecord.encode_eq_ok.mpr ⟨by decide, by decide, rfl⟩⟩ fun _ => ?_)
  iterate 2
    refine .bind (.write (by decide)) (.encode ⟨_, TreeNode.encode_eq_ok.mpr ⟨?_, ?_, ?_, ?_, ?_, rfl⟩⟩ fun _ => ?_)
    iterate 5 decide
  refine .bind (.write (by decide)) (.encode ⟨_, check_ok.mpr ⟨by decide, rfl⟩⟩ fun _ => ?_)
  exact .write (by decide)

private theorem formatRegions_small : Returns (formatRegions Geometry.sample ([13, 14, 15] ++ [16] ++ range' 9 4) [0])
    [⟨0, 15, formatGeneration⟩] := by
  have hpages : range (Geometry.sample.bitmapPageCount 0) = [0] := by decide
  have hfree : (formatPage Geometry.sample ([13, 14, 15] ++ [16] ++ range' 9 4) 0 0).freeBlocks = 15 := by decide
  have hpage : ∃ block, (formatPage Geometry.sample ([13, 14, 15] ++ [16] ++ range' 9 4) 0 0).encode
      Geometry.sample.blockSize formatGeneration = .ok block := by
    unfold BitmapPage.encode
    iterate 5 rw [refuseIf_bind (by decide)]
    exact ⟨_, rfl⟩
  have hdesc : ∃ block, (RegionDescriptor.mk 0 (Geometry.sample.regionValidBlocks 0) 15
      [⟨0, 15, formatGeneration⟩]).encode Geometry.sample.blockSize formatGeneration = .ok block := by
    unfold RegionDescriptor.encode
    iterate 5 rw [refuseIf_bind (by decide)]
    exact ⟨_, rfl⟩
  have hpagesRun : Returns (formatPages Geometry.sample ([13, 14, 15] ++ [16] ++ range' 9 4) 0 [0])
      [⟨0, 15, formatGeneration⟩] := by
    rw [formatPages, hfree]
    exact .encode hpage fun _ => .bind (.write (by decide)) (.lift rfl)
  rw [formatRegions, hpages]
  exact .bind hpagesRun (.encode hdesc fun _ => .bind (.write (by decide)) (.lift rfl))

private theorem writeAllocation_small :
    Returns (writeAllocation smallVolume Geometry.sample) (13, [⟨0, 15, formatGeneration⟩]) := by
  refine .bind (.lift rfl) (.bind (.lift (a := [16]) (by rfl)) (.bind formatRegions_small (.bind (.lift rfl) ?_)))
  refine .bind (a := ()) (fun dev hdev => ⟨dev, require_eq_ok.mpr ⟨rfl, rfl⟩, hdev⟩) (.bind (a := ()) ?_ (.lift rfl))
  refine .encode ⟨_, TreeNode.encode_eq_ok.mpr ⟨?_, ?_, ?_, ?_, ?_, rfl⟩⟩ fun _ => .bind (.write (by decide)) (.lift rfl)
  iterate 5 decide

private theorem publish_small : Returns (publish smallVolume Geometry.sample false 13 [⟨0, 15, formatGeneration⟩]) () := by
  refine .encode ⟨_, Identification.encode_eq_ok.mpr ⟨by decide, by decide, by decide, by decide, rfl⟩⟩ fun _ => ?_
  refine .bind (.write (by decide)) (.bind (.write (by decide)) ?_)
  refine .encode ⟨_, Checkpoint.encode_eq_ok.mpr ⟨?_, ?_, ?_, ?_, ?_, ?_, rfl⟩⟩ fun _ => .write (by decide)
  iterate 6 decide

private theorem mkfs_small (blocks : Nat → Bytes) : ∃ dev', mkfs smallVolume false (smallDevice blocks) = .ok () dev' := by
  have hall : Returns (writeBootstrap smallVolume Geometry.sample >>= fun _ => writeAllocation smallVolume Geometry.sample >>=
      fun built => publish smallVolume Geometry.sample false built.1 built.2) () :=
    writeBootstrap_small.bind (writeAllocation_small.bind publish_small)
  obtain ⟨dev', hrun, -⟩ := hall (smallDevice blocks) rfl
  unfold mkfs
  rw [get_bind_apply]
  refine ⟨dev', require_bind_eq_ok.mpr ⟨rfl, lift_format_bind_eq_ok.mpr ⟨(), ?_, ?_⟩⟩⟩
  · show Geometry.sample.validate = .ok ()
    decide
  · exact require_bind_eq_ok.mpr ⟨show minTotalBlocks ≤ 32 by decide, hrun⟩

/-- The first fsync of an earlier volume: an empty file `a` in the root. -/
def earlierOps : List LogOp := [.create objectRoot [97] objectFirstDynamic 0 (crc32c []) ⟨0, 0⟩ []]

def earlierRecord (uuid : Bytes) : LogRecord := ⟨uuid, 1, 1, earlierOps⟩

private theorem earlierRecord_inRange {uuid : Bytes} (huuid : uuid.length = 16) : (earlierRecord uuid).InRange := by
  refine ⟨huuid, show 1 < 256 ^ 8 by decide, show 1 < 256 ^ 4 by decide, ?_⟩
  intro op hop
  rw [mem_singleton.mp hop]
  refine ⟨by decide, by decide, by decide, by decide, crc32c_lt _, ⟨by decide, by decide⟩, ?_⟩
  intro e he
  cases he

private theorem earlierRecord_encode (uuid : Bytes) : ∃ block, (earlierRecord uuid).encode 4096 = .ok block :=
  ⟨_, LogRecord.encode_eq_ok.mpr ⟨show earlierOps ≠ [] ∧ earlierOps.length ≤ maxLogOps by decide,
    show 1 ≠ 0 ∧ 1 ≠ 0 by decide,
    show headerSize ≤ 4096 ∧ logFixedPayload + (earlierOps.map LogOp.wireLen).sum ≤ 4096 - headerSize by decide,
    show ∀ op ∈ earlierOps, op.validate = .ok () by decide, rfl⟩⟩

private theorem earlierRecord_content (blocks : Nat → Bytes) (uuid : Bytes) :
    verifyRecordContents blocks Geometry.sample (earlierRecord uuid) [] = .ok [] := by
  show verifyOps blocks Geometry.sample 1 [.create objectRoot [97] objectFirstDynamic 0
    (crc32c []) ⟨0, 0⟩ []] [] = .ok []
  rw [verifyOps]
  refine bind_ok.mpr ⟨[], ?_, rfl⟩
  rw [verifyOpContent.eq_def]
  refine bind_ok.mpr ⟨([], 0, []), rfl, ?_⟩
  dsimp only
  rw [refuseIf_bind (by decide), refuseIf_bind fun hne => hne rfl]
  rfl

/-- A device that holds an earlier volume, with the record of its first fsync. -/
def reusedDevice (block : Bytes) : Device := smallDevice fun lba => if lba = 16 then block else replicate 4096 0

/-- The earlier volume had another uuid. -/
theorem mounts_empty_iff_no_stale_record_small :
    ∃ block dev', (earlierRecord (replicate 16 8)).encode 4096 = .ok block ∧
      mkfs smallVolume false (reusedDevice block) = .ok () dev' ∧
      ∀ replay comparisonKey, MountsEmpty smallVolume replay comparisonKey dev' := by
  obtain ⟨block, hblock⟩ := earlierRecord_encode (replicate 16 8)
  obtain ⟨dev', hmkfs⟩ := mkfs_small fun lba => if lba = 16 then block else replicate 4096 0
  refine ⟨block, dev', hblock, hmkfs, fun replay comparisonKey =>
    (mounts_empty_iff_no_stale_record hmkfs replay comparisonKey).mpr ?_⟩
  rintro ⟨slot, rest, record, referenced, hslots, hdecode, huuid, -⟩
  have hslot : Geometry.sample.intentLogSlotLbas 1 = .ok [16] := by decide
  cases hslot.symm.trans hslots
  have hown := LogRecord.decode_encode (earlierRecord_inRange (by decide)) hblock
  cases hown.symm.trans hdecode
  exact absurd huuid (by decide)

/-- Formatting a volume again under its old uuid: the next mount takes the first fsync of the old
volume for its own and never comes up as the empty volume that was formatted. -/
theorem earlier_volume_survives_format :
    ∃ params dev dev', mkfs params false dev = .ok () dev' ∧
      ∀ replay comparisonKey, ¬MountsEmpty params replay comparisonKey dev' := by
  obtain ⟨block, hblock⟩ := earlierRecord_encode smallVolume.uuid
  obtain ⟨dev', hmkfs⟩ := mkfs_small fun lba => if lba = 16 then block else replicate 4096 0
  refine ⟨smallVolume, reusedDevice block, dev', hmkfs, fun replay comparisonKey hmounts => ?_⟩
  obtain ⟨slots, published, hformatted⟩ := formatted_of_mkfs hmkfs
  refine (mountsEmpty_iff_of_formatted hformatted replay comparisonKey).mp hmounts ?_
  refine ⟨16, [], earlierRecord smallVolume.uuid, [], ?_, ?_, rfl, rfl, rfl, earlierRecord_content ..⟩
  · show Geometry.sample.intentLogSlotLbas 1 = .ok [16]
    decide
  · exact LogRecord.decode_encode (earlierRecord_inRange (by decide)) hblock

end Mkfs

end Afsplus
