import Afsplus.Core.Mkfs

/-!
# A freshly formatted volume

What the device holds after the formatter has returned, block by block, as far as a mount reads it. The
blocks the formatter does not write and a mount may read are the intent-log slots and the data their
records name.
-/

namespace Afsplus

open Fallible Geometry Device

/-- Nothing at the addresses in `kept` has changed. -/
structure Device.Keeps (kept : Nat → Prop) (dev dev' : Device) : Prop where
  totalBlocks : dev'.totalBlocks = dev.totalBlocks
  blockSize : dev'.blockSize = dev.blockSize
  blocks : ∀ lba, kept lba → dev'.blocks lba = dev.blocks lba

namespace Device.Keeps

variable {kept kept' : Nat → Prop} {dev dev' dev'' : Device}

theorem refl : Keeps kept dev dev := ⟨rfl, rfl, fun _ _ => rfl⟩

theorem trans (h : Keeps kept dev dev') (h' : Keeps kept dev' dev'') : Keeps kept dev dev'' :=
  ⟨h'.totalBlocks.trans h.totalBlocks, h'.blockSize.trans h.blockSize, fun lba hlba =>
    (h'.blocks lba hlba).trans (h.blocks lba hlba)⟩

theorem mono (himp : ∀ lba, kept' lba → kept lba) (h : Keeps kept dev dev') : Keeps kept' dev dev' :=
  ⟨h.totalBlocks, h.blockSize, fun lba hlba => h.blocks lba (himp lba hlba)⟩

theorem write {lba : Nat} (h : ¬kept lba) (block : Bytes) : Keeps kept dev (dev.write lba block) := by
  refine ⟨rfl, rfl, fun other hoth => ?_⟩
  apply write_blocks_of_ne
  intro heq
  exact h (heq ▸ hoth)

end Device.Keeps

namespace Mkfs

open Device (Keeps)

variable {dev dev' : Device} {geo : Geometry} {params : MkfsParams} {u : Unit}

theorem writeBootstrap_eq_ok (h : writeBootstrap params geo dev = .ok u dev') :
    ∃ omap record directory omapBlock reclaim, ObjectMap.initialLeaf objectRoot geo.region0ReservedBlocks = .ok omap ∧
      (rootRecord params (geo.region0ReservedBlocks + 1)).encode geo.blockSize formatGeneration = .ok record ∧
      (Directory.emptyLeaf objectRoot).encode geo.blockSize formatGeneration = .ok directory ∧
      omap.encode geo.blockSize formatGeneration = .ok omapBlock ∧
      (ReclaimRoot.empty params.reclaimCaps).encode geo.blockSize formatGeneration = .ok reclaim ∧
      dev' = (((dev.write geo.region0ReservedBlocks record).write (geo.region0ReservedBlocks + 1)
        directory).write (geo.region0ReservedBlocks + 2) omapBlock).write
          (geo.region0ReservedBlocks + 3) reclaim := by
  unfold writeBootstrap at h
  obtain ⟨omap, homap, h⟩ := lift_bind_eq_ok.mp h
  obtain ⟨record, hrec, h⟩ := lift_format_bind_eq_ok.mp h
  obtain ⟨-, h⟩ := writeBlock_bind_eq_ok.mp h
  obtain ⟨directory, hdir, h⟩ := lift_format_bind_eq_ok.mp h
  obtain ⟨-, h⟩ := writeBlock_bind_eq_ok.mp h
  obtain ⟨omapBlock, homapBlock, h⟩ := lift_format_bind_eq_ok.mp h
  obtain ⟨-, h⟩ := writeBlock_bind_eq_ok.mp h
  obtain ⟨reclaim, hreclaim, h⟩ := lift_format_bind_eq_ok.mp h
  obtain ⟨-, hdev⟩ := writeBlock_eq_ok.mp h
  exact ⟨omap, record, directory, omapBlock, reclaim, homap, hrec, hdir, homapBlock, hreclaim, hdev⟩

theorem foldl_setAllocated_validBlocks {α : Type} (index : α → Nat) (marks : List α) (page : BitmapPage) :
    (marks.foldl (fun page mark => page.setAllocated (index mark)) page).validBlocks = page.validBlocks := by
  induction marks generalizing page with
  | nil => rfl
  | cons mark rest ih => exact ih _

theorem formatPage_freeBlocks_le (geo : Geometry) (initiallyAllocated : List Lba) (region pageIndex : Nat) :
    (formatPage geo initiallyAllocated region pageIndex).freeBlocks ≤ geo.bitmapPageValidBlocks region pageIndex := by
  have hval : (formatPage geo initiallyAllocated region pageIndex).validBlocks
      = geo.bitmapPageValidBlocks region pageIndex := by
    unfold formatPage
    dsimp only
    rw [foldl_setAllocated_validBlocks, foldl_setAllocated_validBlocks]
    rfl
  rw [← hval]
  exact BitmapPage.freeBlocks_le _

/-- What a region's pages and its descriptor leave alone: the allocatable blocks and the first three
blocks of the volume. -/
def OutsideHeads (geo : Geometry) (lba : Nat) : Prop := geo.isAllocatable lba = true ∨ lba < 3

variable {lba : Nat} {initiallyAllocated : List Lba} {regions : List RegionRecord} {securityDescriptors : Bool}

theorem not_outsideHeads (h : geo.isAllocatable lba = false ∧ 3 ≤ lba) : ¬OutsideHeads geo lba := by
  rintro (halloc | hlow)
  · rw [h.1] at halloc
    cases halloc
  · exact absurd h.2 (not_le.mpr hlow)

theorem formatPages_spec (hval : geo.Valid) {region : Nat} (hreg : region < geo.regionCount)
    {pages : List Nat} (hpages : ∀ page ∈ pages, page < geo.bitmapPageCount region) {bindings : List BitmapBinding}
    (h : formatPages geo initiallyAllocated region pages dev = .ok bindings dev') :
    Keeps (OutsideHeads geo) dev dev' ∧ (bindings.map BitmapBinding.freeBlocks).sum
        ≤ (pages.map (geo.bitmapPageValidBlocks region)).sum := by
  induction pages generalizing dev dev' bindings with
  | nil =>
    obtain ⟨rfl, rfl⟩ := pure_eq_ok.mp h
    exact ⟨.refl, le_refl _⟩
  | cons pageIndex rest ih =>
    obtain ⟨block, -, h⟩ := lift_format_bind_eq_ok.mp h
    obtain ⟨-, h⟩ := writeBlock_bind_eq_ok.mp h
    obtain ⟨tail, _, htail, h⟩ := bind_eq_ok.mp h
    obtain ⟨rfl, rfl⟩ := pure_eq_ok.mp h
    obtain ⟨hkeeps, hsum⟩ := ih (fun page hpage => hpages page (by simp [hpage])) htail
    have hslot := bitmapSlotLba_reserved hval hreg (hpages pageIndex (by simp))
    refine ⟨(Keeps.write (not_outsideHeads hslot) block).trans hkeeps, ?_⟩
    have hpage := formatPage_freeBlocks_le geo initiallyAllocated region pageIndex
    simp only [List.map_cons, List.sum_cons]
    omega

theorem formatRegions_spec (hval : geo.Valid) {regions : List Nat}
    (hregs : ∀ region ∈ regions, region < geo.regionCount) {records : List RegionRecord}
    (h : formatRegions geo initiallyAllocated regions dev = .ok records dev') :
    Keeps (OutsideHeads geo) dev dev' ∧
      (records.map RegionRecord.freeBlocks).sum ≤ (regions.map geo.regionValidBlocks).sum := by
  induction regions generalizing dev dev' records with
  | nil =>
    obtain ⟨rfl, rfl⟩ := pure_eq_ok.mp h
    exact ⟨.refl, le_refl _⟩
  | cons region rest ih =>
    have hreg := hregs region (by simp)
    obtain ⟨bindings, _, hbinds, h⟩ := bind_eq_ok.mp h
    obtain ⟨block, -, h⟩ := lift_format_bind_eq_ok.mp h
    obtain ⟨-, h⟩ := writeBlock_bind_eq_ok.mp h
    obtain ⟨tail, _, htail, h⟩ := bind_eq_ok.mp h
    obtain ⟨rfl, rfl⟩ := pure_eq_ok.mp h
    obtain ⟨hpages, hfree⟩ := formatPages_spec hval hreg (fun page hpage => List.mem_range.mp hpage) hbinds
    obtain ⟨hkeeps, hsum⟩ := ih (fun other hoth => hregs other (by simp [hoth])) htail
    have hslot := descriptorSlotLba_reserved hval hreg
    refine ⟨hpages.trans ((Keeps.write (not_outsideHeads hslot) block).trans hkeeps), ?_⟩
    have htotal := @Geometry.sum_bitmapPageValidBlocks_le geo region
    simp only [List.map_cons, List.sum_cons]
    omega

theorem writeNodes_keeps {kept : Nat → Prop} {blockSize : Nat} {nodes : List (Lba × TreeNode)}
    (hnodes : ∀ node ∈ nodes, ¬kept node.1)
    (h : writeNodes blockSize nodes dev = .ok u dev') : Keeps kept dev dev' := by
  induction nodes generalizing dev dev' with
  | nil =>
    obtain ⟨-, rfl⟩ := pure_eq_ok.mp h
    exact .refl
  | cons node rest ih =>
    obtain ⟨lba, node⟩ := node
    obtain ⟨block, -, h⟩ := lift_format_bind_eq_ok.mp h
    obtain ⟨-, h⟩ := writeBlock_bind_eq_ok.mp h
    have hhead := hnodes (lba, node) (by simp)
    exact (Keeps.write hhead block).trans (ih (fun other hoth => hnodes other (by simp [hoth])) h)

/-! ### The whole format -/

theorem writeAllocation_spec (hval : geo.Valid) {root : Lba}
    (h : writeAllocation params geo dev = .ok (root, regions) dev') :
    ∃ pool slots, geo.allocationRootPoolLbas = .ok pool ∧
      geo.intentLogSlotLbas params.logSlots = .ok slots ∧ root ∈ pool ∧
      (regions.map RegionRecord.freeBlocks).sum ≤ geo.totalBlocks ∧
      Keeps (fun lba => OutsideHeads geo lba ∧ lba ∉ pool) dev dev' := by
  unfold writeAllocation at h
  obtain ⟨provisional, -, h⟩ := lift_bind_eq_ok.mp h
  obtain ⟨slots, hslots, h⟩ := lift_bind_eq_ok.mp h
  obtain ⟨records, dev₁, hregs, h⟩ := bind_eq_ok.mp h
  obtain ⟨built, hbuilt, h⟩ := lift_bind_eq_ok.mp h
  obtain ⟨-, h⟩ := require_bind_eq_ok.mp h
  obtain ⟨_, dev₂, hnodes, h⟩ := bind_eq_ok.mp h
  obtain ⟨hresult, hdev⟩ := pure_eq_ok.mp h
  cases hresult
  obtain ⟨hpool, hroot, hbuiltNodes⟩ := AllocationRoot.bulkBuild_lbas hbuilt
  have hslotsOk : geo.intentLogSlotLbas params.logSlots = .ok slots := by
    rw [IntentLog.logSlotLbas] at hslots
    cases hs : geo.intentLogSlotLbas params.logSlots with
    | error e => rw [hs] at hslots; cases hslots
    | ok lbas => rw [hs] at hslots; cases hslots; rfl
  obtain ⟨hkeeps, hsum⟩ := formatRegions_spec hval (fun region hreg => List.mem_range.mp hreg) hregs
  have hkeepNodes : Keeps (fun lba => OutsideHeads geo lba ∧ lba ∉ built.poolLbas) dev₁ dev₂ :=
    writeNodes_keeps (fun node hnode hkept => hkept.2 (hbuiltNodes node hnode)) hnodes
  refine ⟨built.poolLbas, slots, hpool, hslotsOk, hroot, hsum.trans sum_regionValidBlocks_le, ?_⟩
  rw [hdev]
  exact (hkeeps.mono fun lba hlba => hlba.1).trans hkeepNodes

structure Formatted (params : MkfsParams) (securityDescriptors : Bool) (geo : Geometry)
    (slots : List Lba) (published : Checkpoint) (dev dev' : Device) : Prop where
  valid : geo.Valid
  minBlocks : 16 ≤ geo.totalBlocks
  regionSize : geo.regionSize = params.regionSize
  blockSize : dev'.blockSize = 4096
  totalBlocks : dev'.totalBlocks = geo.totalBlocks
  ident : (identification params geo securityDescriptors).encode 4096 = .ok (dev'.blocks 0)
  slotA : published.encode 4096 = .ok (dev'.blocks 1)
  slotB : dev'.blocks 2 = List.replicate 4096 0
  record : (rootRecord params (geo.region0ReservedBlocks + 1)).encode 4096 formatGeneration
    = .ok (dev'.blocks geo.region0ReservedBlocks)
  directory : (Directory.emptyLeaf objectRoot).encode 4096 formatGeneration
    = .ok (dev'.blocks (geo.region0ReservedBlocks + 1))
  omap : ∃ omap, ObjectMap.initialLeaf objectRoot geo.region0ReservedBlocks = .ok omap ∧
    omap.encode 4096 formatGeneration = .ok (dev'.blocks (geo.region0ReservedBlocks + 2))
  reclaim : (ReclaimRoot.empty params.reclaimCaps).encode 4096 formatGeneration
    = .ok (dev'.blocks (geo.region0ReservedBlocks + 3))
  logArea : geo.intentLogSlotLbas params.logSlots = .ok slots
  slotsKept : ∀ slot ∈ slots, dev'.blocks slot = dev.blocks slot
  fields : ∃ root regions, published = checkpoint params geo root regions ∧
    geo.isAllocatable root = true ∧
    (regions.map RegionRecord.freeBlocks).sum ≤ geo.totalBlocks

theorem publish_eq_ok {root : Lba} (h : publish params geo securityDescriptors root regions dev = .ok u dev') :
    ∃ ident block, (identification params geo securityDescriptors).encode geo.blockSize = .ok ident ∧
      (checkpoint params geo root regions).encode geo.blockSize = .ok block ∧
      dev' = ((dev.write 0 ident).write 2 (List.replicate geo.blockSize 0)).write 1 block := by
  unfold publish at h
  obtain ⟨ident, hident, h⟩ := lift_format_bind_eq_ok.mp h
  obtain ⟨-, h⟩ := writeBlock_bind_eq_ok.mp h
  obtain ⟨-, h⟩ := writeBlock_bind_eq_ok.mp h
  obtain ⟨block, hblk, h⟩ := lift_format_bind_eq_ok.mp h
  obtain ⟨-, hdev⟩ := writeBlock_eq_ok.mp h
  exact ⟨ident, block, hident, hblk, hdev⟩

theorem blocks_of_three_le (dev : Device) (ident zero block : Bytes) (h : 3 ≤ lba) :
    (((dev.write 0 ident).write 2 zero).write 1 block).blocks lba = dev.blocks lba := by
  iterate 3 rw [write_blocks_of_ne (by omega)]

theorem bootstrap_keeps (dev : Device) (start : Nat) (a b c d : Bytes) (h : ∀ i < 4, start + i ≠ lba) :
    ((((dev.write start a).write (start + 1) b).write (start + 2) c).write (start + 3) d).blocks lba
      = dev.blocks lba := by
  have h0 := h 0 (by decide)
  have h1 := h 1 (by decide)
  have h2 := h 2 (by decide)
  have h3 := h 3 (by decide)
  iterate 4 rw [write_blocks_of_ne (by omega)]

theorem formatted_of_mkfs (h : mkfs params securityDescriptors dev = .ok u dev') :
    ∃ slots published, Formatted params securityDescriptors
      ⟨dev.blockSize, dev.totalBlocks, params.regionSize⟩ slots published dev dev' := by
  unfold mkfs at h
  rw [get_bind_eq_ok] at h
  obtain ⟨hblockSize, h⟩ := require_bind_eq_ok.mp h
  obtain ⟨_, hgeo, h⟩ := lift_format_bind_eq_ok.mp h
  obtain ⟨hmin, h⟩ := require_bind_eq_ok.mp h
  obtain ⟨_, dev₁, hbootstrap, h⟩ := bind_eq_ok.mp h
  obtain ⟨⟨root, regions⟩, dev₂, hallocn, hpublish⟩ := bind_eq_ok.mp h
  set geo : Geometry := ⟨dev.blockSize, dev.totalBlocks, params.regionSize⟩ with hgeoDef
  have hval := valid_of_validate hgeo
  have hbs : geo.blockSize = 4096 := hblockSize
  obtain ⟨omap, record, directory, omapBlock, reclaim, homap, hrec, hdir, homapBlock,
    hreclaim, rfl⟩ := writeBootstrap_eq_ok hbootstrap
  obtain ⟨pool, slots, hpool, hslots, hroot, hfree, hkeeps⟩ := writeAllocation_spec hval hallocn
  obtain ⟨ident, block, hident, hblk, rfl⟩ := publish_eq_ok hpublish
  rw [hbs] at hrec hdir homapBlock hreclaim hident hblk
  obtain ⟨nodes, hnodes, hpoolRun⟩ := of_bind hpool
  have hbootPool : ∀ i < 4, geo.region0ReservedBlocks + i ∉ pool := by
    intro i hi hmem
    exact ne_of_mem_take_drop (bootstrap_mem_take hval hmin hi) (mem_reservedRun hpoolRun hmem).1 rfl
  -- a log slot stands behind the bootstrap blocks and behind the pool
  have hslotBehind : ∀ slot ∈ slots, slot ∉ pool ∧ ∀ i < 4, geo.region0ReservedBlocks + i ≠ slot := by
    intro slot hslot
    rcases intentLogSlotLbas_eq_ok hslots with ⟨hnil, -⟩ | ⟨nodes', hnodes', hrun⟩
    · rw [hnil] at hslot
      cases hslot
    · rw [hnodes] at hnodes'
      cases hnodes'
      have hbehind := (mem_reservedRun hrun hslot).1
      refine ⟨fun hmem => ne_of_mem_take_drop (mem_reservedRun hpoolRun hmem).2
        hbehind rfl, fun i hi => ne_of_mem_take_drop
          (bootstrap_mem_take hval hmin hi) ?_⟩
      rw [← List.drop_drop] at hbehind
      exact List.mem_of_mem_drop hbehind
  have hboot : ∀ i < 4, (((dev₂.write 0 ident).write 2 (List.replicate geo.blockSize 0)).write 1
      block).blocks (geo.region0ReservedBlocks + i)
        = ((((dev.write geo.region0ReservedBlocks record).write (geo.region0ReservedBlocks + 1)
          directory).write (geo.region0ReservedBlocks + 2) omapBlock).write
            (geo.region0ReservedBlocks + 3) reclaim).blocks (geo.region0ReservedBlocks + i) := by
    intro i hi
    have halloc := isAllocatable_bootstrap hval hmin hi
    rw [blocks_of_three_le _ _ _ _ (three_le_of_allocatable halloc)]
    exact hkeeps.blocks _ ⟨.inl halloc, hbootPool i hi⟩
  refine ⟨slots, checkpoint params geo root regions, ⟨hval, hmin, rfl, ?_, ?_, ?_, ?_, ?_, ?_, ?_,
    ⟨omap, homap, ?_⟩, ?_, hslots, ?_, ⟨root, regions, rfl, ?_, hfree⟩⟩⟩
  case refine_1 => exact hkeeps.blockSize.trans hblockSize
  case refine_2 => exact hkeeps.totalBlocks
  case refine_3 =>
    rw [write_blocks_of_ne (by decide), write_blocks_of_ne (by decide),
      write_blocks_self]
    exact hident
  case refine_4 =>
    rw [write_blocks_self]
    exact hblk
  case refine_5 =>
    rw [write_blocks_of_ne (by decide), write_blocks_self, hbs]
  case refine_6 =>
    have h := hboot 0 (by decide)
    rw [Nat.add_zero] at h
    rw [h, write_blocks_of_ne (by omega), write_blocks_of_ne (by omega),
      write_blocks_of_ne (by omega), write_blocks_self]
    exact hrec
  case refine_7 =>
    rw [hboot 1 (by decide), write_blocks_of_ne (by omega),
      write_blocks_of_ne (by omega), write_blocks_self]
    exact hdir
  case refine_8 =>
    rw [hboot 2 (by decide), write_blocks_of_ne (by omega), write_blocks_self]
    exact homapBlock
  case refine_9 =>
    rw [hboot 3 (by decide), write_blocks_self]
    exact hreclaim
  case refine_10 =>
    intro slot hslot
    obtain ⟨hpoolOut, hbootOut⟩ := hslotBehind slot hslot
    have halloc := allocatable_of_mem_logSlots hslots hslot
    rw [blocks_of_three_le _ _ _ _ (three_le_of_allocatable halloc),
      hkeeps.blocks _ ⟨.inl halloc, hpoolOut⟩, bootstrap_keeps _ _ _ _ _ _ hbootOut]
  case refine_11 =>
    exact allocatable_of_mem_reservedRun hpoolRun hroot

end Mkfs

end Afsplus
