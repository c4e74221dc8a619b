import Afsplus.Core.FileResizes

/-!
# Cloning and creating

A clone shares the blocks of its source: the source's cells are marked as shared first, and every block is then
acquired once more for the clone. The blocks at the two ends of a cloned range are copied into new ones.
-/

namespace Afsplus.FileData

open Fallible Extents ByteImage Function
open List hiding min max

section Sharing

variable {extents : List Extent} {n : Nat} {c : Cell}

def shareAll (extents : List Extent) : List Extent := extents.map fun e => { e with shared := true }

theorem gives_shareAll : Gives (shareAll extents) n c ↔ ∃ c₀, Gives extents n c₀ ∧ c₀.share = c := by
  constructor
  · rintro ⟨_, hmem, hn, rfl⟩
    obtain ⟨e, he, rfl⟩ := mem_map.mp hmem
    exact ⟨e.cell n, ⟨e, he, hn, rfl⟩, rfl⟩
  · rintro ⟨_, ⟨e, he, hn, rfl⟩, rfl⟩
    exact ⟨_, mem_map_of_mem he, hn, rfl⟩

theorem sorted_shareAll (h : Sorted extents) : Sorted (shareAll extents) := by
  constructor
  · intro e hmem
    obtain ⟨e₀, he₀, rfl⟩ := mem_map.mp hmem
    exact h.proper e₀ he₀
  · exact pairwise_map.mpr h.ordered

theorem blockSum_shareAll (extents : List Extent) : blockSum (shareAll extents) = blockSum extents := by
  simp [blockSum, shareAll, comp_def]

theorem stop_shareAll {e : Extent} (he : e ∈ shareAll extents) : ∃ e₀ ∈ extents, e₀.stop = e.stop := by
  obtain ⟨e₀, he₀, rfl⟩ := mem_map.mp he
  exact ⟨e₀, he₀, rfl⟩

theorem shared_shareAll {e : Extent} (he : e ∈ shareAll extents) : e.shared = true := by
  obtain ⟨e₀, -, rfl⟩ := mem_map.mp he
  rfl

theorem cellAt_shareAll (h : Sorted extents) : cellAt (shareAll extents) n = (cellAt extents n).map Cell.share := by
  apply Option.ext
  intro c
  rw [cellAt_eq_some (sorted_shareAll h), gives_shareAll, Option.map_eq_some_iff]
  simp only [cellAt_eq_some h]

theorem cellAt_marked {marked : List Extent} {low high : Nat} (h : Sorted extents) (hmarked : Sorted marked)
    (hgives : ∀ n c, Gives marked n c ↔ ∃ c₀, Gives extents n c₀ ∧ markedCell low high n c₀ = c) (n : Nat) :
    cellAt marked n = (cellAt extents n).map (markedCell low high n) := by
  apply Option.ext
  intro c
  rw [cellAt_eq_some hmarked, hgives, Option.map_eq_some_iff]
  simp only [cellAt_eq_some h]

theorem markedCell_same (low high n : Nat) (c : Cell) :
    (markedCell low high n c).block = c.block ∧ (markedCell low high n c).unwritten = c.unwritten ∧
      (c.shared = true → (markedCell low high n c).shared = true) := by
  rw [markedCell]
  split_ifs
  · exact ⟨rfl, rfl, fun _ => rfl⟩
  · exact ⟨rfl, rfl, fun h => h⟩

theorem cellByte_share (disk : Nat → Bytes) (cell : Option Cell) (j : Nat) :
    cellByte disk (cell.map Cell.share) j = cellByte disk cell j := by
  cases cell with
  | none => rfl
  | some c => rfl

end Sharing

section Pair

variable {v w : FileVolume} {tx : FileTx} {writes : List (Nat × Bytes)}

theorem pair_valid {sourceId id : ObjectId} {source sourceNew staged : FileObject} {mark : Nat → Cell → Cell}
    {bytes : Nat → UInt8} (hv : Valid v) (hcomm : Committed v w tx writes) (hkept : DataKept v tx)
    (hobjs : w.objects = update (update v.objects sourceId (some sourceNew)) id (some staged))
    (hne : sourceId ≠ id) (hnext : ∀ other, w.nextObjectId ≤ other → other ≠ id ∧ v.nextObjectId ≤ other)
    (hsrc : v.objects sourceId = some source) (hsrcFile : source.record.objectType = .file)
    (hnewFile : sourceNew.record.objectType = .file) (hnewShaped : sourceNew.Shaped)
    (hnewSize : sourceNew.record.sizeBytes = source.record.sizeBytes)
    (hmark : ∀ n, cellAt sourceNew.layout n = (cellAt source.layout n).map (mark n))
    (hsame : ∀ n c, (mark n c).block = c.block ∧ (mark n c).unwritten = c.unwritten)
    (hfile : staged.record.objectType = .file) (hshaped : staged.Shaped)
    (hheld : Held (recelled (recelled (cellOf v) sourceId sourceNew.layout) id staged.layout) tx)
    (huntouched : ∀ x c, cellOf v x = some c → c.block ∉ writes.map Prod.fst) (hstored : Stored v w staged bytes) :
    Valid w ∧ fileBytes w id = some (image bytes staged.record.sizeBytes) ∧
      ∀ other, other ≠ id → fileBytes w other = fileBytes v other := by
  have hid : w.objects id = some staged := by
    rw [hobjs, update_self]
  have hnew : w.objects sourceId = some sourceNew := by
    rw [hobjs, update_of_ne hne, update_self]
  have hoth : ∀ other, other ≠ sourceId → other ≠ id → w.objects other = v.objects other := by
    intro other hsourceNe hidNe
    rw [hobjs, update_of_ne hidNe, update_of_ne hsourceNe]
  have hcell := cellOf_file hid hfile
  have hsourceCell : ∀ n, cellOf w (sourceId, n) = (cellOf v (sourceId, n)).map (mark n) := by
    intro n
    rw [cellOf_file hnew hnewFile, hmark, cellOf_file hsrc hsrcFile]
  have hcells : cellOf w = recelled (recelled (cellOf v) sourceId sourceNew.layout) id staged.layout := by
    funext key
    obtain ⟨x, n⟩ := key
    simp only [recelled]
    split_ifs with hx hx'
    · rw [hx, hcell]
    · rw [hx', cellOf_file hnew hnewFile]
    · exact cellOf_congr (hoth x hx' hx) n
  have hcont := hstored.byteAt_eq hv hcomm hcell
  have hsourceBytes : ∀ i, byteAt w sourceId i = byteAt v sourceId i := by
    intro i
    rw [byteAt, byteAt, hcomm.blockSize, hsourceCell]
    cases hc : cellOf v (sourceId, i / v.blockSize) with
    | none => rfl
    | some c =>
      obtain ⟨hblk, hunwr⟩ := hsame (i / v.blockSize) c
      exact cellByte_congr hunwr (by rw [hblk, hcomm.disk_eq hv hkept hc (huntouched _ c hc)]) _
  obtain ⟨hval, hrest⟩ := edited_valid (S := {x | x = sourceId ∨ x = id}) hv hcomm hkept (hcells ▸ hheld)
    (fun x hx => hoth x (fun heq => hx (.inl heq)) fun heq => hx (.inr heq))
    (fun x _ n c hc => huntouched (x, n) c hc)
    (by
      rintro x (rfl | rfl)
      · refine ⟨sourceNew, hnew, hnewShaped, fun i hi => ?_, fun n c hc hwritten => ?_⟩
        · rw [hsourceBytes]
          exact hv.tail x source hsrc hsrcFile i (hnewSize ▸ hi)
        · rw [hsourceCell] at hc
          obtain ⟨c₀, hc₀, rfl⟩ := Option.map_eq_some_iff.mp hc
          obtain ⟨hblk, hunwr⟩ := hsame n c₀
          rw [hblk, hcomm.disk_eq hv hkept hc₀ (huntouched _ c₀ hc₀)]
          exact hv.lengths _ c₀ hc₀ (hunwr ▸ hwritten)
      · refine ⟨staged, hid, hshaped, fun i hi => ?_, fun n c hc hwritten => ?_⟩
        · rw [hcont, hstored.zero i hi]
        · rw [hcell] at hc
          exact hstored.lengths n c hc hwritten)
    (by
      intro x hx
      obtain ⟨hxid, hold⟩ := hnext x hx
      have hunused := hv.fresh x hold
      rw [hoth x _ hxid, hunused]
      rintro rfl
      rw [hunused] at hsrc
      cases hsrc)
  refine ⟨hval, by rw [fileBytes_file hid hfile, funext hcont], fun other hne' => ?_⟩
  by_cases heq : other = sourceId
  · rw [heq, fileBytes_file hnew hnewFile, fileBytes_file hsrc hsrcFile, funext hsourceBytes, hnewSize]
  · exact fileBytes_congr (hoth other heq hne') (hrest other fun hin => hin.elim heq hne')

end Pair

/-! ### Cloning a file -/

section CloneFile

variable {v w : FileVolume} {a : Answers} {id sourceId : ObjectId} {source staged : FileObject}

theorem stageCloneSource_eq_ok (hshaped : source.Shaped)
    (h : stageCloneSource a id source (shareAll source.layout) = .ok staged) :
    staged.Shaped ∧ staged.layout = shareAll source.layout ∧ staged.record.objectType = source.record.objectType ∧
      staged.record.sizeBytes = source.record.sizeBytes := by
  have hsort := sorted_shareAll hshaped.sorted
  have hblks : source.record.dataBlocks = blockSum (shareAll source.layout) := by
    rw [blockSum_shareAll, hshaped.blocks]
  have hbounded : ∀ e ∈ shareAll source.layout, e.stop < 2 ^ 64 := by
    intro e he
    obtain ⟨e₀, he₀, hstop⟩ := stop_shareAll he
    rw [← hstop]
    exact hshaped.bounded e₀ he₀
  rw [stageCloneSource] at h
  split_ifs at h with hempty htree
  · obtain rfl := Except.ok.inj h
    have hnil : source.layout = [] := map_eq_nil_iff.mp hempty
    exact ⟨hshaped, by rw [hnil]; rfl, rfl, rfl⟩
  · obtain ⟨encoded, hencoded, h⟩ := of_bind h
    obtain ⟨-, rfl⟩ := encodeExtents_eq_ok hencoded
    have heq := pure_ok.mp h
    have hstores : Stores (mutate source.tree [] ((shareAll source.layout).map fun e => (e.logicalStart, e)))
        (shareAll source.layout) := by
      apply mutate_same_keys hshaped.keyed hsort
      intro e he
      rw [← layout_of_tree htree] at he
      exact ⟨_, mem_map_of_mem he, rfl⟩
    have htree' : staged.record.extentTree = true := by rw [heq]; exact htree
    obtain ⟨hstaged, hlay⟩ := shaped_of_stores htree' (by rw [heq]; exact hstores) hsort (by rw [heq]; exact hblks)
      hbounded
    exact ⟨hstaged, hlay, by rw [heq], by rw [heq]⟩
  · obtain ⟨tree, hbuild, h⟩ := of_bind h
    obtain ⟨hstores, -⟩ := bulkBuild_eq_ok hsort hbuild
    have heq := pure_ok.mp h
    have htree' : staged.record.extentTree = true := by rw [heq]
    obtain ⟨hstaged, hlay⟩ := shaped_of_stores htree' (by rw [heq]; exact hstores) hsort (by rw [heq]; exact hblks)
      hbounded
    exact ⟨hstaged, hlay, by rw [heq], by rw [heq]⟩

theorem stageCloneLayout_eq_ok {result : Bool × Nat × Nat × SortedMap Nat Extent} {clone : FileObject}
    (hshaped : source.Shaped) (h : stageCloneLayout a id source (shareAll source.layout) = .ok result)
    (hkind : clone.record.extentTree = result.1) (hblks : clone.record.dataBlocks = result.2.2.1)
    (htree : clone.tree = result.2.2.2) : clone.Shaped ∧ clone.layout = shareAll source.layout := by
  rw [stageCloneLayout] at h
  split_ifs at h with hempty
  · obtain rfl := Except.ok.inj h
    have hlay : clone.layout = [] := by
      rw [FileObject.layout, if_neg (by simp [hkind]), if_pos hblks]
    refine ⟨⟨?_, ?_, ?_, ?_⟩, hlay.trans hempty.1.symm⟩
    · rw [htree]
      rfl
    · rw [hlay]
      exact sorted_nil
    · rw [hlay]
      exact hblks
    · simp [hlay]
  · obtain ⟨tree, hbuild, h⟩ := of_bind h
    obtain ⟨hstores, hbounded⟩ := bulkBuild_eq_ok (sorted_shareAll hshaped.sorted) hbuild
    obtain rfl := pure_ok.mp h
    apply shaped_of_stores hkind (htree ▸ hstores) (sorted_shareAll hshaped.sorted) _ hbounded
    rw [hblks, blockSum_shareAll, hshaped.blocks]

theorem clone_held {layout : List Extent} {tx tx' : FileTx} {u : Unit} (h : Held (cellOf v) tx) (hlay : Sorted layout)
    (hsrc : ∀ n, cellOf v (sourceId, n) = cellAt layout n) (hempty : ∀ n, cellOf v (id, n) = none)
    (hne : sourceId ≠ id) (hrun : layout.forM (fun e => acquire e.physicalStart e.blockCount) tx = .ok u tx') :
    tx'.use = tx.use ∧ Held (recelled (recelled (cellOf v) sourceId (shareAll layout)) id (shareAll layout)) tx' := by
  have hsort := sorted_shareAll hlay
  have hmarked : Held (recelled (cellOf v) sourceId (shareAll layout)) tx := by
    apply h.mono
    rintro ⟨x, n⟩ c hc
    rw [recelled] at hc
    split_ifs at hc with hx
    · change x = sourceId at hx
      rw [hx, hsrc]
      rw [cellAt_shareAll hlay] at hc
      obtain ⟨c₀, hc₀, rfl⟩ := Option.map_eq_some_iff.mp hc
      exact ⟨c₀, hc₀, rfl, fun _ => rfl⟩
    · exact ⟨c, hc, rfl, fun hmark => hmark⟩
  have hplace : Injective fun n : Nat => (id, n) := fun n m heq => (Prod.mk.inj heq).2
  have hsame : (shareAll layout).forM (fun e => acquire e.physicalStart e.blockCount) =
      layout.forM fun e => acquire e.physicalStart e.blockCount := by
    rw [shareAll, forM_eq_forM, forM_map]
  have hclean : ∀ n, recelled (cellOf v) sourceId (shareAll layout) (id, n) = none := by
    intro n
    rw [recelled, if_neg hne.symm]
    exact hempty n
  obtain ⟨huse, cells, hheld, hnew, hkeep⟩ := hmarked.acquireAll hsort.apart hplace (fun e => shared_shareAll)
    (by
      intro n c hc
      refine ⟨(sourceId, n), c, ?_, rfl, ?_⟩
      · rw [recelled, if_pos rfl]
        exact (cellAt_eq_some hsort).mpr hc
      · obtain ⟨c₀, -, rfl⟩ := gives_shareAll.mp hc
        rfl)
    (fun n c _ => hclean n) (hsame ▸ hrun)
  refine ⟨huse, hheld.mono ?_⟩
  rintro ⟨x, n⟩ c hc
  rw [recelled] at hc
  split_ifs at hc with hx
  · change x = id at hx
    rw [hx]
    exact ⟨c, hnew n c ((cellAt_eq_some hsort).mp hc), rfl, fun hmark => hmark⟩
  · refine ⟨c, ?_, rfl, fun hmark => hmark⟩
    rw [hkeep]
    · exact hc
    · exact fun m c' _ heq => hx (Prod.mk.inj heq).1.symm

theorem dataKept_of_use {tx : FileTx} (huse : tx.use = (begin v a).use) : DataKept v tx := by
  intro b hb
  rw [huse]
  exact dataKept_begin v a b hb

/-- A clone has the bytes of its source, and no other file changes. -/
theorem cloneFile_eq_ok {now : Timespec} (hv : Valid v) (h : cloneFile v a sourceId now = .ok (w, id)) :
    Valid w ∧ id = v.nextObjectId ∧ w.nextObjectId = v.nextObjectId + 1 ∧
      (∃ bytes, fileBytes v sourceId = some bytes ∧ fileBytes w id = some bytes) ∧
      ∀ other, other ≠ id → fileBytes w other = fileBytes v other := by
  replace h := after_check h
  replace h := after_check h
  obtain ⟨source, hsrc, h⟩ := of_bind h
  obtain ⟨hsrc, hfile⟩ := fileObject_eq_ok hsrc
  obtain ⟨extents, hload, h⟩ := of_bind h
  obtain rfl := loadFileLayout_eq_ok hload
  obtain ⟨generation, -, h⟩ := of_bind h
  replace h := after_check h
  obtain ⟨⟨u, tx⟩, hacquire, h⟩ := of_bind h
  obtain ⟨sourceNew, hstage, h⟩ := of_bind h
  obtain ⟨⟨extentTree, dataRoot, dataBlocks, tree⟩, hclone, h⟩ := of_bind h
  obtain ⟨v', hcommit, h⟩ := of_bind h
  obtain ⟨rfl, rfl⟩ := pure_pair_eq_ok.mp h
  obtain ⟨hcomm, -, hobjs⟩ := commit_eq_ok hcommit
  have hshaped := hv.shaped sourceId source hsrc hfile
  obtain ⟨hsrcShaped, hsrcLayout, hsrcType, hsrcSize⟩ := stageCloneSource_eq_ok hshaped hstage
  obtain ⟨clone, hinstalled, ⟨hcloneShaped, hcloneLayout⟩, hcloneType, hcloneSize⟩ : ∃ clone : FileObject,
      v'.objects = install v.objects [(sourceId, sourceNew), (v.nextObjectId, clone)] ∧
        (clone.Shaped ∧ clone.layout = shareAll source.layout) ∧ clone.record.objectType = .file ∧
        clone.record.sizeBytes = source.record.sizeBytes :=
    ⟨_, hobjs, stageCloneLayout_eq_ok hshaped hclone rfl rfl rfl, rfl, rfl⟩
  generalize hid : v.nextObjectId = id at hinstalled ⊢
  generalize hw : ({ v' with nextObjectId := id + 1, sharedRoot := true } : FileVolume) = w
  have hwCommitted : Committed v w tx [] := by
    rw [← hw]
    exact ⟨hcomm.blockSize, hcomm.use, hcomm.refs, hcomm.kept, hcomm.written⟩
  have hwNext : w.nextObjectId = id + 1 := by rw [← hw]
  have hwObjects : w.objects = update (update v.objects sourceId (some sourceNew)) id (some clone) := by
    rw [← hw]
    exact hinstalled
  have hempty : v.objects id = none := hv.fresh id hid.le
  have hne : sourceId ≠ id := by
    rintro rfl
    rw [hempty] at hsrc
    cases hsrc
  have hcellSrc := cellOf_file hsrc hfile
  have hcellNone : ∀ n, cellOf v (id, n) = none := fun n => by simp [cellOf, hempty]
  obtain ⟨huse, hheld⟩ := clone_held (hv.held.begin a) hshaped.sorted hcellSrc hcellNone hne (runTx_eq_ok hacquire)
  have hkept : DataKept v tx := dataKept_of_use huse
  have hdisk : ∀ {x c}, cellOf v x = some c → w.disk c.block = v.disk c.block :=
    fun hc => hwCommitted.disk_eq hv hkept hc (by simp)
  -- Both files have the source's cells, marked as shared.
  have hshared : ∀ n, cellAt clone.layout n = (cellOf v (sourceId, n)).map Cell.share := by
    intro n
    rw [hcloneLayout, cellAt_shareAll hshaped.sorted, hcellSrc]
  obtain ⟨hval, hclone, hothers⟩ := @pair_valid _ _ _ _ _ _ _ _ _ (fun _ => Cell.share) (byteAt v sourceId) hv
    hwCommitted hkept hwObjects hne
    (by
      intro other hoth
      rw [hwNext] at hoth
      exact ⟨Nat.ne_of_gt hoth, hid.le.trans (Nat.le_of_succ_le hoth)⟩)
    hsrc hfile (hsrcType.trans hfile) hsrcShaped hsrcSize
    (by
      intro n
      rw [hsrcLayout, cellAt_shareAll hshaped.sorted])
    (fun _ _ => ⟨rfl, rfl⟩) hcloneType hcloneShaped (by rwa [hsrcLayout, hcloneLayout]) (by simp)
    ⟨by
      intro n j hj
      rw [hshared, cellByte_share, byteAt_eq hv.blockSize hj]
      cases hc : cellOf v (sourceId, n) with
      | none => rfl
      | some c => exact cellByte_congr rfl (hdisk hc) _,
    by
      intro n c hc hwritten
      rw [hshared] at hc
      obtain ⟨c₀, hc₀, rfl⟩ := Option.map_eq_some_iff.mp hc
      show (w.disk c₀.block).length = v.blockSize
      rw [hdisk hc₀]
      exact hv.lengths _ c₀ hc₀ hwritten,
    fun i hi => hv.tail sourceId source hsrc hfile i (hcloneSize ▸ hi)⟩
  refine ⟨hval, rfl, hwNext, ⟨_, fileBytes_file hsrc hfile, ?_⟩, hothers⟩
  rw [hclone, hcloneSize]

end CloneFile

/-! ### Cloning a range -/

section RangeLedger

variable {v : FileVolume} {sourceId destinationId : ObjectId} {tx tx₁ tx₂ tx₃ : FileTx} {u u' : Unit}
  {source sourceNew shared destination kept removed additions new : List Extent} {low high target first stop : Nat}

/-- The cells of two files when blocks of the first are shared with the second: the source's are marked, the shared and
the new blocks are held by places of their own, and the replaced cells of the destination are released. -/
theorem range_held (h : Held (cellOf v) tx) (hne : sourceId ≠ destinationId)
    (hsrc : ∀ n, cellOf v (sourceId, n) = cellAt source n) (hsrcSorted : Sorted source)
    (hdest : ∀ n, cellOf v (destinationId, n) = cellAt destination n) (hdestSorted : Sorted destination)
    (hmarked : Sorted sourceNew) (hmarkedGives : ∀ n c, Gives sourceNew n c ↔
      ∃ c₀, Gives source n c₀ ∧ markedCell low high n c₀ = c)
    (hshared : Sorted shared) (hsharedGives : ∀ m c, Gives shared m c ↔
      ∃ n, (low ≤ n ∧ n < high) ∧ m = target + (n - low) ∧ ∃ c₀, Gives source n c₀ ∧ c₀.share = c)
    (hrem : Replaced destination first stop [] kept removed) (hfresh : Fresh tx₁ tx₂ false additions)
    (hnew : Sorted new) (hnewGives : ∀ n c, Gives new n c ↔ Gives kept n c ∨ Gives additions n c ∨ Gives shared n c)
    (hacquire : shared.forM (fun e => acquire e.physicalStart e.blockCount) tx = .ok u tx₁)
    (hrelease : removed.forM (releaseDataRun v) tx₂ = .ok u' tx₃) :
    tx₁.use = tx.use ∧ Held (recelled (recelled (cellOf v) sourceId sourceNew) destinationId new) tx₃ ∧
      ∀ b, tx₃.use b = tx₂.use b ∨ tx₃.use b = .quarantined := by
  classical
  have hmarkedHeld : Held (recelled (cellOf v) sourceId sourceNew) tx := by
    apply h.mono
    rintro ⟨x, n⟩ c hc
    rw [recelled] at hc
    split_ifs at hc with hx
    · change x = sourceId at hx
      rw [hx, hsrc]
      rw [cellAt_marked hsrcSorted hmarked hmarkedGives] at hc
      obtain ⟨c₀, hc₀, rfl⟩ := Option.map_eq_some_iff.mp hc
      obtain ⟨hblk, -, hmark⟩ := markedCell_same low high n c₀
      exact ⟨c₀, hc₀, hblk.symm, hmark⟩
    · exact ⟨c, hc, rfl, fun hmark => hmark⟩
  have hmark : ∀ e ∈ shared, e.shared = true := by
    intro e he
    obtain ⟨n, -, -, c₀, -, hshare⟩ := (hsharedGives e.logicalStart (e.cell e.logicalStart)).mp
      ⟨e, he, ⟨le_rfl, Nat.lt_add_of_pos_right (hshared.proper e he)⟩, rfl⟩
    exact (congrArg Cell.shared hshare).symm
  obtain ⟨huse, cells, hheld, hacquired, hkeep⟩ := (hmarkedHeld.extend (κ := Nat)).acquireAll hshared.apart
    Sum.inr_injective hmark
    (by
      intro m c hc
      obtain ⟨n, hn, -, c₀, hc₀, rfl⟩ := (hsharedGives m c).mp hc
      refine ⟨.inl (sourceId, n), c₀.share, ?_, rfl, rfl⟩
      rw [Sum.elim_inl, recelled_self]
      exact (cellAt_eq_some hmarked).mpr ((hmarkedGives n _).mpr ⟨c₀, hc₀, if_pos hn⟩))
    (fun _ _ _ => rfl) hacquire
  let fresh : Nat → Option Cell := fun n =>
    if (∃ c, Gives additions n c) ∨ ∃ c, Gives shared n c then cellAt new n else none
  have hfreshCell : ∀ n c, Gives additions n c ∨ Gives shared n c → fresh n = some c := by
    intro n c hc
    have hin : (∃ c, Gives additions n c) ∨ ∃ c, Gives shared n c := hc.imp (⟨c, ·⟩) (⟨c, ·⟩)
    exact (if_pos hin).trans ((cellAt_eq_some hnew).mpr ((hnewGives n c).mpr (.inr hc)))
  have hfreshHeld : Held (Sum.elim (recelled (cellOf v) sourceId sourceNew) fresh) tx₂ := by
    apply hheld.allocate (D := {x | ∃ n c, x = .inr n ∧ Gives additions n c}) hfresh.takes.use hfresh.takes.refs
    · rintro (x | n) hx
      · exact (hkeep (.inl x) fun m c _ heq => by cases heq).symm
      · by_cases hin : ∃ c, Gives shared n c
        · obtain ⟨c, hc⟩ := hin
          rw [Sum.elim_inr, hfreshCell n c (.inr hc), hacquired n c hc]
        · rw [hkeep (.inr n) fun m c hc heq => hin ⟨c, Sum.inr.inj heq ▸ hc⟩]
          refine if_neg fun hcase => hcase.elim (fun hadded => ?_) hin
          obtain ⟨c, hc⟩ := hadded
          exact hx ⟨n, c, rfl, hc⟩
    · rintro _ ⟨n, c, rfl, hc⟩ c' hc'
      obtain rfl := Option.some.inj ((hfreshCell n c (.inl hc)).symm.trans hc')
      exact (hfresh.gives n c hc).2.2
    · rintro _ ⟨n, c₁, rfl, hc₁⟩ _ ⟨m, c₂, rfl, hc₂⟩ c c' hc hc' hblk
      obtain rfl := Option.some.inj ((hfreshCell n c₁ (.inl hc₁)).symm.trans hc)
      obtain rfl := Option.some.inj ((hfreshCell m c₂ (.inl hc₂)).symm.trans hc')
      rw [hfresh.distinct n m c₁ c₂ hc₁ hc₂ hblk]
  have hoth : ∀ n, recelled (cellOf v) sourceId sourceNew (destinationId, n) = cellAt destination n := by
    intro n
    rw [recelled, if_neg hne.symm]
    exact hdest n
  refine ⟨huse, hfreshHeld.exchange hrem.removed_sorted.apart ?_ hrelease ?_⟩
  · intro n c hc
    rw [hoth]
    exact (cellAt_eq_some hdestSorted).mpr ((hrem.removed_gives n c).mp hc).1
  · intro n c' hc'
    rcases (hnewGives n c').mp ((cellAt_eq_some hnew).mp hc') with hc | hc
    · right
      rcases (hrem.gives n c').mp hc with ⟨hc, hout⟩ | hc
      · refine ⟨fun c hgone => hout ((hrem.removed_gives n c).mp hgone).2, c', ?_, rfl, fun hmark => hmark⟩
        rw [hoth]
        exact (cellAt_eq_some hdestSorted).mpr hc
      · exact absurd hc gives_nil
    · exact .inl (hfreshCell n c' hc)

end RangeLedger

section RangeBlocks

variable {v : FileVolume} {source destination : List Extent} {sourceOffset destinationOffset destinationEnd n j : Nat}

/-- The whole blocks of a range lie in it, and their source blocks are as far from the start of the range. -/
structure Aligned (size sourceOffset destinationOffset destinationEnd : Nat) (full : FullBlocks) : Prop where
  order : full.first ≤ full.stop
  sourceStop : full.sourceStop = full.sourceFirst + (full.stop - full.first)
  within : full.first < full.stop → destinationOffset ≤ full.first * size ∧ full.stop * size ≤ destinationEnd ∧
    full.sourceFirst * size + destinationOffset = sourceOffset + full.first * size

theorem fullBlocks_aligned {size : Nat} (hsize : 0 < size) (halign : sourceOffset % size = destinationOffset % size) :
    Aligned size sourceOffset destinationOffset destinationEnd
      (fullBlocks size sourceOffset destinationOffset destinationEnd) := by
  rw [fullBlocks]
  generalize hstart : min (destinationOffset + leadingBytes size destinationOffset) destinationEnd = fullStart
  generalize hend : destinationEnd - destinationEnd % size = fullEnd
  dsimp only
  split_ifs with hlt
  · have hlead : fullStart = destinationOffset + leadingBytes size destinationOffset := by omega
    obtain ⟨k, hk⟩ : ∃ k, ∀ offset, offset % size = destinationOffset % size →
        offset + leadingBytes size destinationOffset = (offset / size + k) * size := by
      refine ⟨if destinationOffset % size = 0 then 0 else 1, fun offset hoff => ?_⟩
      have hmod := Nat.mod_lt offset hsize
      have hdiv := Nat.div_add_mod offset size
      rw [Nat.mul_comm] at hdiv
      rw [leadingBytes, ← hoff]
      split_ifs
      · simp only [Nat.add_zero]
        omega
      · rw [Nat.succ_mul]
        omega
    have hfullStart : fullStart = (destinationOffset / size + k) * size := hlead.trans (hk _ rfl)
    have hfullEnd : fullEnd = destinationEnd / size * size := by
      have := Nat.div_add_mod destinationEnd size
      rw [Nat.mul_comm] at this
      omega
    have hsourceStart : sourceOffset + (fullStart - destinationOffset) = (sourceOffset / size + k) * size := by
      rw [← hk _ halign]
      omega
    have hsourceEnd : (sourceOffset / size + k) * size + (fullEnd - fullStart) =
        (sourceOffset / size + k + (destinationEnd / size - (destinationOffset / size + k))) * size := by
      rw [hfullStart, hfullEnd, ← Nat.sub_mul, ← Nat.add_mul]
    have horder : destinationOffset / size + k ≤ destinationEnd / size := by
      apply Nat.le_of_mul_le_mul_right _ hsize
      omega
    rw [hsourceStart, hsourceEnd, Nat.mul_div_cancel _ hsize, Nat.mul_div_cancel _ hsize, hfullStart, hfullEnd,
      Nat.mul_div_cancel _ hsize, Nat.mul_div_cancel _ hsize]
    refine ⟨horder, rfl, fun _ => ?_⟩
    dsimp only
    omega
  · exact ⟨le_rfl, by simp, by simp⟩

theorem copySource_done {logicalByte copyEnd rounds cursor : Nat} {block : Bytes} (h : copyEnd ≤ cursor) :
    copySource v source sourceOffset destinationOffset logicalByte copyEnd rounds cursor block = .ok block := by
  cases rounds with
  | zero => rfl
  | succ rounds => exact if_neg (not_lt.mpr h)

/-- A boundary block has the source's bytes in the range and the destination's outside it. The offsets are aligned, so
one block of the source covers the part of the range in the block. -/
theorem boundaryBlock_eq_ok {result : Nat × Bytes} (hsize : 0 < v.blockSize) (hsrc : Full v source)
    (hdest : Full v destination) (halign : sourceOffset % v.blockSize = destinationOffset % v.blockSize)
    (h : boundaryBlock v source destination sourceOffset destinationOffset destinationEnd n = .ok result) :
    result.1 = n ∧ result.2.length = v.blockSize ∧ ∀ j < v.blockSize, result.2.getD j 0 =
      if destinationOffset ≤ n * v.blockSize + j ∧ n * v.blockSize + j < destinationEnd then
        cellByte v.disk (cellAt source ((sourceOffset + (n * v.blockSize + j - destinationOffset)) / v.blockSize))
          ((sourceOffset + (n * v.blockSize + j - destinationOffset)) % v.blockSize)
      else cellByte v.disk (cellAt destination n) j := by
  replace h := after_check h
  obtain ⟨block, hblk, h⟩ := of_bind h
  obtain rfl := readLayoutBlock_eq_ok hdest hblk
  replace h := after_check h
  obtain ⟨merged, hmerged, h⟩ := of_bind h
  obtain rfl := pure_ok.mp h
  refine ⟨rfl, ?_⟩
  generalize hcopyStart : max destinationOffset (n * v.blockSize) = copyStart at hmerged
  generalize hcopyEnd : min destinationEnd (n * v.blockSize + v.blockSize) = copyEnd at hmerged
  by_cases hlt : copyStart < copyEnd
  · obtain ⟨rounds, hrounds⟩ : ∃ rounds, copyEnd - copyStart = rounds + 1 := ⟨copyEnd - copyStart - 1, by omega⟩
    rw [hrounds, copySource, if_pos hlt] at hmerged
    replace hmerged := after_check hmerged
    obtain ⟨bytes, hbytes, hmerged⟩ := of_bind hmerged
    obtain rfl := readLayoutBlock_eq_ok hsrc hbytes
    generalize hbyte : sourceOffset + (copyStart - destinationOffset) = sourceByte at hmerged
    have hinBlock : sourceByte % v.blockSize = copyStart - n * v.blockSize := by
      have hmod : sourceByte % v.blockSize = copyStart % v.blockSize := by
        have hshift := Nat.ModEq.add_right (copyStart - destinationOffset) halign
        rw [hbyte, Nat.add_sub_cancel' (by omega)] at hshift
        exact hshift
      have hoff : copyStart = v.blockSize * n + (copyStart - n * v.blockSize) := by
        rw [Nat.mul_comm]
        omega
      rw [hmod]
      conv_lhs => rw [hoff]
      rw [Nat.mul_add_mod, Nat.mod_eq_of_lt (by omega)]
    have hsplit := Nat.div_add_mod sourceByte v.blockSize
    rw [Nat.mul_comm] at hsplit
    have hcnt : min (copyEnd - copyStart) (v.blockSize - sourceByte % v.blockSize) = copyEnd - copyStart := by omega
    rw [hcnt, copySource_done (by omega)] at hmerged
    obtain rfl := Except.ok.inj hmerged
    have hlen : (cellBlock v (cellAt destination n)).length = v.blockSize := length_image _
    have hpiece : (slice (cellBlock v (cellAt source (sourceByte / v.blockSize))) (sourceByte % v.blockSize)
        (sourceByte % v.blockSize + (copyEnd - copyStart))).length = copyEnd - copyStart := by
      rw [length_slice]
      · omega
      · rw [cellBlock, length_image]
        omega
    have hfit : copyStart - n * v.blockSize + (copyEnd - copyStart) ≤ v.blockSize := by omega
    refine ⟨?_, fun j hj => ?_⟩
    · rw [length_overlayBlock (by rw [hpiece, hlen]; exact hfit), hlen]
    · rw [getD_overlayBlock (by rw [hpiece, hlen]; exact hfit), hpiece]
      by_cases hin : destinationOffset ≤ n * v.blockSize + j ∧ n * v.blockSize + j < destinationEnd
      · have hsame : sourceOffset + (n * v.blockSize + j - destinationOffset) =
            sourceByte / v.blockSize * v.blockSize + j := by omega
        rw [if_pos (by omega), if_pos hin, getD_slice (by omega), hsame,
          show sourceByte % v.blockSize + (j - (copyStart - n * v.blockSize)) = j by omega, getD_cellBlock hj,
          Nat.mul_comm, Nat.mul_add_div hsize, Nat.div_eq_of_lt hj, Nat.mul_add_mod, Nat.mod_eq_of_lt hj, Nat.add_zero]
      · rw [if_neg (by omega), if_neg hin, getD_cellBlock hj]
  · rw [copySource_done (not_lt.mp hlt)] at hmerged
    obtain rfl := Except.ok.inj hmerged
    refine ⟨length_image _, fun j hj => ?_⟩
    rw [getD_cellBlock hj, if_neg (by omega)]

/-- The bytes of a file with a range of another file's bytes laid over. -/
def copiedBytes (source destination : Nat → UInt8) (sourceOffset destinationOffset destinationEnd i : Nat) : UInt8 :=
  if destinationOffset ≤ i ∧ i < destinationEnd then source (sourceOffset + (i - destinationOffset)) else destination i

theorem Aligned.block {size : Nat} {full : FullBlocks}
    (h : Aligned size sourceOffset destinationOffset destinationEnd full) (hlow : full.first ≤ n) (hhigh : n < full.stop)
    (hj : j < size) :
    (destinationOffset ≤ n * size + j ∧ n * size + j < destinationEnd) ∧
      sourceOffset + (n * size + j - destinationOffset) = (full.sourceFirst + (n - full.first)) * size + j := by
  obtain ⟨hstart, hend, hshift⟩ := h.within (hlow.trans_lt hhigh)
  have hdown := Nat.mul_le_mul_right size hlow
  have hup := Nat.mul_le_mul_right size (Nat.succ_le_of_lt hhigh)
  rw [Nat.succ_mul] at hup
  have hdistance : (full.sourceFirst + (n - full.first)) * size = full.sourceFirst * size + (n * size - full.first * size) := by
    rw [Nat.add_mul, Nat.sub_mul]
  omega

variable {sourceId destinationId : ObjectId} {disk' : Nat → Bytes} {full : FullBlocks}
  {shared kept removed additions new : List Extent}

theorem range_bytes (hv : Valid v) (hsrc : ∀ n, cellOf v (sourceId, n) = cellAt source n) (hsrcSorted : Sorted source)
    (hdest : ∀ n, cellOf v (destinationId, n) = cellAt destination n) (hdestSorted : Sorted destination)
    (halign : sourceOffset % v.blockSize = destinationOffset % v.blockSize)
    (hfull : Aligned v.blockSize sourceOffset destinationOffset destinationEnd full)
    (hsharedGives : ∀ m c, Gives shared m c ↔ ∃ n, (full.sourceFirst ≤ n ∧ n < full.sourceStop) ∧
      m = full.first + (n - full.sourceFirst) ∧ ∃ c₀, Gives source n c₀ ∧ c₀.share = c)
    (hrem : Replaced destination (destinationOffset / v.blockSize) (divCeil destinationEnd v.blockSize) [] kept removed)
    (hadded : ∀ n c, Gives additions n c →
      (destinationOffset / v.blockSize ≤ n ∧ n < divCeil destinationEnd v.blockSize) ∧
        ¬(full.first ≤ n ∧ n < full.stop) ∧ c.unwritten = false ∧
        boundaryBlock v source destination sourceOffset destinationOffset destinationEnd n = .ok (n, disk' c.block))
    (htotal : ∀ n, destinationOffset / v.blockSize ≤ n → n < divCeil destinationEnd v.blockSize →
      ¬(full.first ≤ n ∧ n < full.stop) → ∃ c, Gives additions n c)
    (hnew : Sorted new) (hnewGives : ∀ n c, Gives new n c ↔ Gives kept n c ∨ Gives additions n c ∨ Gives shared n c)
    (hdisk : ∀ x c, cellOf v x = some c → disk' c.block = v.disk c.block) :
    (∀ n j, j < v.blockSize → cellByte disk' (cellAt new n) j =
      copiedBytes (byteAt v sourceId) (byteAt v destinationId) sourceOffset destinationOffset destinationEnd
        (n * v.blockSize + j)) ∧
      ∀ n c, cellAt new n = some c → c.unwritten = false → (disk' c.block).length = v.blockSize := by
  have hfullSrc : Full v source := fun n c hc hwritten => hv.lengths (sourceId, n) c ((hsrc n).trans hc) hwritten
  have hfullDest : Full v destination :=
    fun n c hc hwritten => hv.lengths (destinationId, n) c ((hdest n).trans hc) hwritten
  have hsame : ∀ x j, cellByte disk' (cellOf v x) j = cellByte v.disk (cellOf v x) j := by
    intro x j
    cases hc : cellOf v x with
    | none => rfl
    | some c => exact cellByte_congr rfl (hdisk x c hc) j
  have hstop := le_divCeil_mul_blockSize hv.blockSize destinationEnd
  have hrng : ∀ n, full.first ≤ n ∧ n < full.stop →
      destinationOffset / v.blockSize ≤ n ∧ n < divCeil destinationEnd v.blockSize := by
    rintro n ⟨hlow, hhigh⟩
    obtain ⟨⟨hstart, hend⟩, -⟩ := hfull.block hlow hhigh hv.blockSize
    constructor
    · exact Nat.div_le_of_le_mul (Nat.mul_comm _ _ ▸ hstart)
    · apply Nat.lt_of_mul_lt_mul_right (a := v.blockSize)
      omega
  have hkeptGives := hrem.kept_gives
  have hsharedAt : ∀ m c, Gives shared m c ↔ (full.first ≤ m ∧ m < full.stop) ∧
      ∃ c₀, Gives source (full.sourceFirst + (m - full.first)) c₀ ∧ c₀.share = c := by
    intro m c
    have horder := hfull.order
    have hsourceStop := hfull.sourceStop
    rw [hsharedGives]
    constructor
    · rintro ⟨n, hn, rfl, hc⟩
      refine ⟨by omega, ?_⟩
      rw [show full.sourceFirst + (full.first + (n - full.sourceFirst) - full.first) = n by omega]
      exact hc
    · rintro ⟨hm, hc⟩
      exact ⟨_, by omega, by omega, hc⟩
  -- A block of the new map is shared, new or an old one outside the range.
  have hshared : ∀ n, full.first ≤ n ∧ n < full.stop →
      cellAt new n = (cellOf v (sourceId, full.sourceFirst + (n - full.first))).map Cell.share := by
    intro n hn
    apply Option.ext
    intro c
    rw [cellAt_eq_some hnew, hnewGives, hkeptGives, hsharedAt, hsrc, Option.map_eq_some_iff]
    simp only [cellAt_eq_some hsrcSorted]
    constructor
    · rintro (⟨-, hout⟩ | hc | ⟨-, hc⟩)
      · exact absurd (hrng n hn) hout
      · exact absurd hn (hadded n c hc).2.1
      · exact hc
    · exact fun hc => .inr (.inr ⟨hn, hc⟩)
  have hboundary : ∀ n, (destinationOffset / v.blockSize ≤ n ∧ n < divCeil destinationEnd v.blockSize) →
      ¬(full.first ≤ n ∧ n < full.stop) → ∃ c, Gives additions n c ∧ cellAt new n = some c := by
    intro n hn hnot
    obtain ⟨c, hc⟩ := htotal n hn.1 hn.2 hnot
    exact ⟨c, hc, (cellAt_eq_some hnew).mpr ((hnewGives n c).mpr (.inr (.inl hc)))⟩
  have houtside : ∀ n, ¬(destinationOffset / v.blockSize ≤ n ∧ n < divCeil destinationEnd v.blockSize) →
      cellAt new n = cellOf v (destinationId, n) := by
    intro n hn
    rw [hdest]
    apply cellAt_eq_of_gives hnew hdestSorted
    intro c
    rw [hnewGives, hkeptGives, hsharedAt]
    constructor
    · rintro (⟨hc, -⟩ | hc | ⟨hin, -⟩)
      · exact hc
      · exact absurd (hadded n c hc).1 hn
      · exact absurd (hrng n hin) hn
    · exact fun hc => .inl ⟨hc, hn⟩
  constructor
  · intro n j hj
    by_cases hin : full.first ≤ n ∧ n < full.stop
    · obtain ⟨hcopied, hplace⟩ := hfull.block hin.1 hin.2 hj
      rw [hshared n hin, cellByte_share, hsame, copiedBytes, if_pos hcopied, hplace, byteAt_eq hv.blockSize hj]
    · by_cases hn : destinationOffset / v.blockSize ≤ n ∧ n < divCeil destinationEnd v.blockSize
      · obtain ⟨c, hc, hcell⟩ := hboundary n hn hin
        obtain ⟨-, -, hwritten, hblk⟩ := hadded n c hc
        obtain ⟨-, -, hbytes⟩ := boundaryBlock_eq_ok hv.blockSize hfullSrc hfullDest halign hblk
        have hbyte : cellByte disk' (some c) j = (disk' c.block).getD j 0 := by simp [cellByte, hwritten]
        rw [hcell, hbyte, hbytes j hj, copiedBytes, byteAt, hsrc, byteAt_eq hv.blockSize hj, hdest]
      · rw [houtside n hn, hsame, copiedBytes, if_neg, byteAt_eq hv.blockSize hj]
        rintro ⟨hstart, hend⟩
        apply hn
        constructor
        · apply Nat.le_of_lt_succ
          rw [Nat.div_lt_iff_lt_mul hv.blockSize, Nat.succ_mul]
          omega
        · apply Nat.lt_of_mul_lt_mul_right (a := v.blockSize)
          omega
  · intro n c hc hwritten
    by_cases hin : full.first ≤ n ∧ n < full.stop
    · rw [hshared n hin] at hc
      obtain ⟨c₀, hc₀, rfl⟩ := Option.map_eq_some_iff.mp hc
      show (disk' c₀.block).length = v.blockSize
      rw [hdisk _ c₀ hc₀]
      exact hv.lengths _ c₀ hc₀ hwritten
    · by_cases hn : destinationOffset / v.blockSize ≤ n ∧ n < divCeil destinationEnd v.blockSize
      · obtain ⟨c', hc', hcell⟩ := hboundary n hn hin
        obtain rfl := Option.some.inj (hcell.symm.trans hc)
        obtain ⟨-, -, -, hblk⟩ := hadded n c' hc'
        exact (boundaryBlock_eq_ok hv.blockSize hfullSrc hfullDest halign hblk).2.1
      · rw [houtside n hn] at hc
        rw [hdisk _ c hc]
        exact hv.lengths _ c hc hwritten

end RangeBlocks

section CloneRange

variable {v w : FileVolume} {a : Answers} {sourceId destinationId : ObjectId}
  {sourceOffset destinationOffset length : Nat} {now : Timespec}

theorem cloneRange_eq_ok (hv : Valid v)
    (h : cloneRange v a sourceId sourceOffset destinationId destinationOffset length now = .ok w) :
    Valid w ∧ w.nextObjectId = v.nextObjectId ∧ ∃ source bytes, fileBytes v sourceId = some source ∧
      fileBytes v destinationId = some bytes ∧ sourceOffset + length ≤ source.length ∧
      (∀ other, other ≠ destinationId → fileBytes w other = fileBytes v other) ∧
      fileBytes w destinationId = some (if length = 0 then bytes
        else overlay 0 bytes destinationOffset (slice source sourceOffset (sourceOffset + length))) := by
  replace h := after_check h
  replace h := after_check h
  obtain ⟨source, hsrc, h⟩ := of_bind h
  obtain ⟨destination, hdest, h⟩ := of_bind h
  obtain ⟨htypes, h⟩ := of_refuse h
  obtain ⟨hne, h⟩ := of_refuse h
  replace h := after_check h
  replace h := after_check h
  obtain ⟨hwithin, h⟩ := of_refuse h
  have hsrc := readObject_eq_ok hsrc
  have hdest := readObject_eq_ok hdest
  obtain ⟨hsrcFile, hdestFile⟩ := not_or.mp htypes
  rw [not_not] at hsrcFile hdestFile
  have hinside : sourceOffset + length ≤ (image (byteAt v sourceId) source.record.sizeBytes).length := by
    rw [length_image]
    exact not_lt.mp hwithin
  by_cases hlen : length = 0
  · rw [if_pos hlen] at h
    obtain rfl := pure_ok.mp h
    exact ⟨hv, rfl, _, _, fileBytes_file hsrc hsrcFile, fileBytes_file hdest hdestFile, hinside,
      fun _ _ => rfl, by rw [if_pos hlen, fileBytes_file hdest hdestFile]⟩
  rw [if_neg hlen] at h
  obtain ⟨halign, h⟩ := of_refuse h
  obtain ⟨sourceExtents, hsrcLoad, h⟩ := of_bind h
  obtain ⟨destinationExtents, hdestLoad, h⟩ := of_bind h
  obtain rfl := loadFileLayout_eq_ok hsrcLoad
  obtain rfl := loadFileLayout_eq_ok hdestLoad
  replace h := after_check h
  dsimp only at h
  generalize hfull : fullBlocks v.blockSize sourceOffset destinationOffset (destinationOffset + length) = full at h
  obtain ⟨sourceNew, hmark, h⟩ := of_bind h
  obtain ⟨shared, hremap, h⟩ := of_bind h
  obtain ⟨⟨kept, removed⟩, hrepl, h⟩ := of_bind h
  obtain ⟨boundary, hboundary, h⟩ := of_bind h
  obtain ⟨generation, -, h⟩ := of_bind h
  obtain ⟨⟨u, tx₁⟩, hacquire, h⟩ := of_bind h
  obtain ⟨⟨⟨additions, writes⟩, tx₂⟩, hallocate, h⟩ := of_bind h
  obtain ⟨new, hnew, h⟩ := of_bind h
  obtain ⟨⟨u', tx₃⟩, hrelease, h⟩ := of_bind h
  have halign := not_not.mp halign
  have hsrcShaped := hv.shaped sourceId source hsrc hsrcFile
  have hdestShaped := hv.shaped destinationId destination hdest hdestFile
  obtain ⟨hmarkSorted, hmarkGives⟩ := markLogicalRangeShared_spec hsrcShaped.sorted hmark
  obtain ⟨hsharedSorted, hsharedGives⟩ := remapExtentRange_spec hsrcShaped.sorted hremap
  have hrem := replaceLogicalRange_spec hdestShaped.sorted (by simp) hrepl
  obtain ⟨hfresh, hproper, hplaced, htotal, hwrites, hnodup⟩ := allocateBoundary_fresh (runTx_eq_ok hallocate)
  obtain ⟨hfrom, hto⟩ := mem_of_mapM hboundary
  have hjoined : Coalesced (kept ++ additions ++ shared) new := by
    apply coalesceExtents_spec _ hnew
    intro e he
    rcases mem_append.mp he with he | he
    · rcases mem_append.mp he with he | he
      · exact hrem.sorted.proper e he
      · exact hproper e he
    · exact hsharedSorted.proper e he
  have hnewGives : ∀ n c, Gives new n c ↔ Gives kept n c ∨ Gives additions n c ∨ Gives shared n c := by
    intro n c
    rw [hjoined.gives, gives_append, gives_append, or_assoc]
  -- The source is staged again only if a mark is new.
  obtain ⟨updates, sourceObject, hinstall, hsourceStaged, hsrcLayout, hsrcType, hsrcSize, h⟩ :
      ∃ updates sourceObject, (∀ staged, install v.objects (updates ++ [(destinationId, staged)]) =
          update (update v.objects sourceId (some sourceObject)) destinationId (some staged)) ∧
        sourceObject.Shaped ∧ sourceObject.layout = sourceNew ∧ sourceObject.record.objectType = .file ∧
        sourceObject.record.sizeBytes = source.record.sizeBytes ∧
        (do
          let staged ← stageFileLayout v a destinationId destination destination.layout new
            (max destination.record.sizeBytes (destinationOffset + length)) true now now generation
          let v' ← commit v a tx₃ writes (updates ++ [(destinationId, staged)])
          pure { v' with sharedRoot := true }) = .ok w := by
    split_ifs at h with hchanged
    · obtain ⟨sourceObject, hstage, h⟩ := of_bind h
      obtain ⟨hrec, hlay, -⟩ := stageFileLayout_eq_ok hsrcShaped rfl hmarkSorted hstage
      exact ⟨[(sourceId, sourceObject)], sourceObject, fun _ => rfl, hrec.shaped, hlay,
        hrec.objectType.trans hsrcFile, hrec.sizeBytes, h⟩
    · refine ⟨[], source, fun staged => ?_, hsrcShaped, (not_not.mp hchanged).symm, hsrcFile, rfl, h⟩
      have hself : update v.objects sourceId (some source) = v.objects :=
        update_eq_self_iff.mpr hsrc.symm
      rw [hself]
      rfl
  obtain ⟨staged, hstage, h⟩ := of_bind h
  obtain ⟨v', hcommit, h⟩ := of_bind h
  obtain ⟨hrec, hlay, -⟩ := stageFileLayout_eq_ok hdestShaped rfl hjoined.sorted hstage
  have hw := pure_ok.mp h
  obtain ⟨hcomm, hnext, hobjs⟩ := commit_eq_ok hcommit
  have hwCommitted : Committed v w tx₃ writes := by
    rw [hw]
    exact ⟨hcomm.blockSize, hcomm.use, hcomm.refs, hcomm.kept, hcomm.written⟩
  have hwNext : w.nextObjectId = v.nextObjectId := by
    rw [hw]
    exact hnext
  have hwObjects : w.objects =
      update (update v.objects sourceId (some sourceObject)) destinationId (some staged) := by
    rw [hw]
    exact hobjs.trans (hinstall staged)
  have hdestType : staged.record.objectType = .file := hrec.objectType.trans hdestFile
  have hcellSrc := cellOf_file hsrc hsrcFile
  have hcellDest := cellOf_file hdest hdestFile
  have hbegin := hv.held.begin a
  obtain ⟨huse, hheld, hframe⟩ := range_held hbegin hne hcellSrc hsrcShaped.sorted hcellDest
    hdestShaped.sorted hmarkSorted hmarkGives hsharedSorted hsharedGives hrem hfresh hjoined.sorted hnewGives
    (runTx_eq_ok hacquire) (runTx_eq_ok hrelease)
  have hkeptData : DataKept v tx₃ := ((dataKept_of_use huse).takes hfresh.takes).release hframe
  have hnewBlock : ∀ b, b ∈ writes.map Prod.fst → (begin v a).use b = .free := by
    intro b hb
    obtain ⟨⟨b, block⟩, hmem, rfl⟩ := mem_map.mp hb
    obtain ⟨n, c, hc, rfl, -⟩ := hwrites b block hmem
    rw [← huse]
    exact (hfresh.gives n c hc).2.2.1
  have huntouched : ∀ x c, cellOf v x = some c → c.block ∉ writes.map Prod.fst :=
    fun x c hc hb => hbegin.not_free hc (hnewBlock _ hb)
  have hdisk : ∀ x c, cellOf v x = some c → w.disk c.block = v.disk c.block :=
    fun x c hc => hwCommitted.disk_eq hv hkeptData hc (huntouched x c hc)
  have hfullSrc : Full v source.layout :=
    fun n c hc hwritten => hv.lengths (sourceId, n) c ((hcellSrc n).trans hc) hwritten
  have hfullDest : Full v destination.layout :=
    fun n c hc hwritten => hv.lengths (destinationId, n) c ((hcellDest n).trans hc) hwritten
  have haligned : Aligned v.blockSize sourceOffset destinationOffset (destinationOffset + length) full :=
    hfull ▸ fullBlocks_aligned hv.blockSize halign
  obtain ⟨hbytes, hlens⟩ := range_bytes hv hcellSrc hsrcShaped.sorted hcellDest hdestShaped.sorted
    halign haligned hsharedGives hrem
    (by
      intro n c hc
      obtain ⟨block, hmem, hwrite⟩ := hplaced n c hc
      obtain ⟨m, hm, hblk⟩ := hfrom _ hmem
      obtain ⟨rfl, -⟩ := boundaryBlock_eq_ok hv.blockSize hfullSrc hfullDest halign hblk
      obtain ⟨hm, hnot⟩ := mem_filter.mp hm
      obtain ⟨hlow, hhigh⟩ := mem_range'_1.mp hm
      refine ⟨⟨hlow, by omega⟩, of_decide_eq_true hnot, (hfresh.gives _ c hc).1, ?_⟩
      rw [hwCommitted.written hnodup _ _ hwrite]
      exact hblk)
    (by
      intro n hlow hhigh hnot
      obtain ⟨⟨m, block⟩, hmem, hblk⟩ := hto n (mem_filter.mpr
        ⟨mem_range'_1.mpr ⟨hlow, by omega⟩, decide_eq_true hnot⟩)
      obtain ⟨rfl, -⟩ := boundaryBlock_eq_ok hv.blockSize hfullSrc hfullDest halign hblk
      exact htotal _ block hmem)
    hjoined.sorted hnewGives hdisk
  have hzero := hv.tail destinationId destination hdest hdestFile
  obtain ⟨hval, hcont, hothers⟩ := pair_valid hv hwCommitted hkeptData hwObjects hne
    (by
      intro other hoth
      rw [hwNext] at hoth
      refine ⟨?_, hoth⟩
      rintro rfl
      rw [hv.fresh other hoth] at hdest
      cases hdest)
    hsrc hsrcFile hsrcType hsourceStaged hsrcSize
    (by
      intro n
      rw [hsrcLayout, cellAt_marked hsrcShaped.sorted hmarkSorted hmarkGives])
    (fun n c => (markedCell_same full.sourceFirst full.sourceStop n c).imp_right And.left) hdestType
    hrec.shaped (by rwa [hsrcLayout, hlay]) huntouched
    ⟨by rwa [hlay], by rwa [hlay], by
      intro i hi
      rw [hrec.sizeBytes] at hi
      rw [copiedBytes, if_neg (by omega)]
      exact hzero i (by omega)⟩
  refine ⟨hval, hwNext, _, _, fileBytes_file hsrc hsrcFile, fileBytes_file hdest hdestFile, hinside, hothers, ?_⟩
  · have hpiece : slice (image (byteAt v sourceId) source.record.sizeBytes) sourceOffset (sourceOffset + length) =
        (List.range' sourceOffset length).map (byteAt v sourceId) := by
      rw [slice_image (not_lt.mp hwithin), Nat.add_sub_cancel_left]
    have hcnt : ((List.range' sourceOffset length).map (byteAt v sourceId)).length = length := by
      rw [length_map, length_range']
    have hat : ∀ j < ((List.range' sourceOffset length).map (byteAt v sourceId)).length,
        ((List.range' sourceOffset length).map (byteAt v sourceId))[j]? =
          some (copiedBytes (byteAt v sourceId) (byteAt v destinationId) sourceOffset destinationOffset
            (destinationOffset + length) (destinationOffset + j)) := by
      intro j hj
      rw [hcnt] at hj
      rw [getElem?_map, getElem?_range' hj, copiedBytes, if_pos (by omega), Nat.add_sub_cancel_left, Nat.one_mul]
      rfl
    have hoverlay := overlay_image hzero hat (by
      rw [hcnt]
      exact fun i hi => if_neg hi)
    rw [hcnt] at hoverlay
    rw [hcont, if_neg hlen, hrec.sizeBytes, hpiece, hoverlay]

end CloneRange

/-! ### Creating a file -/

section CreateFile

variable {v w : FileVolume} {a : Answers} {id : ObjectId} {content : Bytes}

theorem length_contentBlock {size : Nat} (hsize : 0 < size) (n : Nat) : (contentBlock size content n).length = size := by
  simp only [contentBlock, slice, length_append, length_replicate, length_take, length_drop]
  omega

theorem getD_contentBlock {size n j : Nat} (hj : j < size) :
    (contentBlock size content n).getD j 0 = content.getD (n * size + j) 0 := by
  simp only [contentBlock, getD_eq_getElem?_getD]
  have hlen : (slice content (n * size) (n * size + size)).length = min size (content.length - n * size) := by
    simp only [slice, length_take, length_drop]
    omega
  by_cases hin : n * size + j < content.length
  · rw [getElem?_append_left (by omega), slice, getElem?_take, if_pos (by omega), getElem?_drop]
  · rw [getElem?_append_right (by omega), getElem?_replicate, if_pos (by omega),
      getElem?_eq_none (not_lt.mp hin)]
    rfl

/-- A new file has the content it was created with. The length of a byte slice is a machine word. -/
theorem createFile_eq_ok {now : Timespec} (hv : Valid v) (hlen : content.length < 2 ^ 64)
    (h : createFile v a content now = .ok (w, id)) :
    Valid w ∧ id = v.nextObjectId ∧ w.nextObjectId = v.nextObjectId + 1 ∧ fileBytes w id = some content ∧
      ∀ other, other ≠ id → fileBytes w other = fileBytes v other := by
  replace h := after_check h
  obtain ⟨generation, -, h⟩ := of_bind h
  replace h := after_check h
  obtain ⟨⟨start, tx⟩, hrun, h⟩ := of_bind h
  obtain ⟨v', hcommit, h⟩ := of_bind h
  obtain ⟨rfl, rfl⟩ := pure_pair_eq_ok.mp h
  obtain ⟨hcomm, -, hobjs⟩ := commit_eq_ok hcommit
  generalize hcnt : divCeil content.length v.blockSize = count at hrun hcomm hobjs
  obtain ⟨file, hinstalled, hkind, hroot, hblks, htree, htype, hsize⟩ : ∃ file : FileObject,
      v'.objects = install v.objects [(v.nextObjectId, file)] ∧ file.record.extentTree = false ∧
        file.record.dataRoot = start ∧ file.record.dataBlocks = count ∧ file.tree = .empty ∧
        file.record.objectType = .file ∧ file.record.sizeBytes = content.length :=
    ⟨_, hobjs, rfl, rfl, rfl, rfl, rfl, rfl⟩
  generalize hid : v.nextObjectId = id at hinstalled ⊢
  generalize hw : ({ v' with nextObjectId := id + 1 } : FileVolume) = w
  have hwCommitted : Committed v w tx ((List.range count).map fun index =>
      (start + index, contentBlock v.blockSize content index)) := by
    rw [← hw]
    exact ⟨hcomm.blockSize, hcomm.use, hcomm.refs, hcomm.kept, hcomm.written⟩
  have hwNext : w.nextObjectId = id + 1 := by rw [← hw]
  have hwObjects : w.objects = update v.objects id (some file) := by
    rw [← hw]
    exact hinstalled
  have hbound := divCeil_mul_blockSize_lt hv.blockSize content.length
  have hreach := le_divCeil_mul_blockSize hv.blockSize content.length
  rw [hcnt] at hbound hreach
  have hcountLe : count ≤ content.length := by
    by_contra hlt
    have hmore := Nat.mul_le_mul_right v.blockSize (Nat.succ_le_of_lt (not_le.mp hlt))
    have hless := Nat.le_mul_of_pos_right content.length hv.blockSize
    rw [Nat.succ_mul] at hmore
    omega
  have hlay : file.layout = if count = 0 then [] else [⟨0, start, count, false, false⟩] := by
    rw [layout_of_direct hkind hblks, hroot]
  have hgives : ∀ n c, Gives file.layout n c ↔ n < count ∧ c = ⟨start + n, false, false⟩ := by
    intro n c
    rw [hlay]
    split_ifs with hzero
    · simp [gives_nil, hzero]
    · rw [gives_singleton]
      simp [Extent.Covers, Extent.stop, Extent.cell, eq_comm]
  have hfresh : Fresh (begin v a) tx false file.layout := by
    have hrun := runTx_eq_ok hrun
    by_cases hzero : count = 0
    · rw [if_neg (by omega)] at hrun
      obtain ⟨-, rfl⟩ := pure_eq_ok.mp hrun
      rw [hlay, if_pos hzero]
      exact .nil _
    · rw [if_pos (by omega)] at hrun
      rw [hlay, if_neg hzero]
      exact allocateRun_fresh hrun 0 false
  have hshaped : file.Shaped := by
    refine ⟨?_, ?_, ?_, ?_⟩
    · rw [htree]
      rfl
    · rw [hlay]
      split_ifs with hzero
      · exact sorted_nil
      · exact ⟨by simpa using Nat.pos_of_ne_zero hzero, pairwise_singleton _ _⟩
    · rw [hlay, hblks]
      split_ifs with hzero
      · exact hzero
      · simp [blockSum]
    · rw [hlay]
      intro e he
      split_ifs at he with hzero
      · cases he
      · obtain rfl := mem_singleton.mp he
        simp only [Extent.stop]
        omega
  have hnodup : (((List.range count).map fun index => (start + index, contentBlock v.blockSize content index)).map
      Prod.fst).Nodup := by
    rw [map_map]
    exact nodup_range.map fun n m heq => Nat.add_left_cancel heq
  have hnewBlock : ∀ b, b ∈ ((List.range count).map fun index => (start + index, contentBlock v.blockSize content index)).map
      Prod.fst → (begin v a).use b = .free := by
    intro b hb
    rw [map_map, mem_map] at hb
    obtain ⟨n, hn, rfl⟩ := hb
    exact (hfresh.gives n _ ((hgives n _).mpr ⟨List.mem_range.mp hn, rfl⟩)).2.2.1
  have hwritten : ∀ n, n < count → w.disk (start + n) = contentBlock v.blockSize content n :=
    fun n hn => hwCommitted.written hnodup _ _ (mem_map.mpr ⟨n, List.mem_range.mpr hn, rfl⟩)
  have hbegin := hv.held.begin a
  have hheld : Held (recelled (cellOf v) id file.layout) tx := by
    have hplaces : Held (Sum.elim (cellOf v) (cellAt file.layout)) tx :=
      hbegin.takesFresh hfresh fun n c hc => (cellAt_eq_some hshaped.sorted).mp hc
    have hnone : ([] : List Extent).forM (releaseDataRun v) tx = .ok () tx := rfl
    exact (hplaces.exchange List.Pairwise.nil (fun n c hc => absurd hc gives_nil) hnone fun n c hc => .inl hc).1
  obtain ⟨hval, hcont, hothers, hsame⟩ := @valid_of_committed _ _ _ _ _ _ (fun i => content.getD i 0) hv htype hshaped
    ((dataKept_begin v a).takes hfresh.takes) hheld
    (fun other _ n c hc hb => hbegin.not_free hc (hnewBlock _ hb))
    ⟨by
      intro n j hj
      by_cases hn : n < count
      · rw [(cellAt_eq_some hshaped.sorted).mpr ((hgives n _).mpr ⟨hn, rfl⟩), ← getD_contentBlock hj, ← hwritten n hn]
        rfl
      · have hcell : cellAt file.layout n = none := by
          rw [Option.eq_none_iff_forall_ne_some]
          exact fun c hc => hn ((hgives n c).mp ((cellAt_eq_some hshaped.sorted).mp hc)).1
        have hbeyond := Nat.mul_le_mul_right v.blockSize (not_lt.mp hn)
        rw [hcell, getD_eq_getElem?_getD, getElem?_eq_none (by omega)]
        rfl,
    by
      intro n c hc _
      obtain ⟨hn, rfl⟩ := (hgives n c).mp ((cellAt_eq_some hshaped.sorted).mp hc)
      show (w.disk (start + n)).length = v.blockSize
      rw [hwritten n hn, length_contentBlock hv.blockSize],
    by
      intro i hi
      rw [hsize] at hi
      rw [getD_eq_getElem?_getD, getElem?_eq_none hi]
      rfl⟩
    hwCommitted hwObjects
    (by
      intro other hoth
      rw [hwNext] at hoth
      exact ⟨Nat.ne_of_gt hoth, hid.le.trans (Nat.le_of_succ_le hoth)⟩)
  refine ⟨hval, rfl, hwNext, ?_, fun other hoth => fileBytes_congr (hothers other hoth) (hsame other hoth)⟩
  have hobj : w.objects id = some file := by
    rw [hwObjects, update_self]
  rw [fileBytes_file hobj htype, funext hcont, hsize, image_getD]

end CreateFile

end Afsplus.FileData
