import Afsplus.Core.FileArrays

/-!
# Edits under limits

A bounded edit of an extent tree works on a window of it, an unbounded one stages the whole layout again. Both leave the
same bytes, size, block count and times. Only staging a layout clears the archive bit: the record that an edit of a
window patches keeps its protection word.
-/

namespace Afsplus.FileData

open Fallible Extents ByteImage

section Counting

variable {extents others : List Extent} {n : Nat}

def covered : List Extent → Finset Nat
  | [] => ∅
  | e :: rest => Finset.Ico e.logicalStart e.stop ∪ covered rest

theorem mem_covered : n ∈ covered extents ↔ ∃ c, Gives extents n c := by
  induction extents with
  | nil => simp [covered, gives_nil]
  | cons e rest ih =>
    simp only [covered, Finset.mem_union, Finset.mem_Ico, ih, gives_cons, exists_or]
    apply or_congr_left
    exact ⟨fun hn => ⟨_, hn, rfl⟩, fun ⟨_, hn, _⟩ => hn⟩

theorem blockSum_eq_card (h : Sorted extents) : blockSum extents = (covered extents).card := by
  induction extents with
  | nil => rfl
  | cons e rest ih =>
    have hdisj : Disjoint (Finset.Ico e.logicalStart e.stop) (covered rest) := by
      rw [Finset.disjoint_left]
      intro n hn hrest
      obtain ⟨_, e', he', hcov, -⟩ := mem_covered.mp hrest
      have hbefore := (List.pairwise_cons.mp h.ordered).1 e' he'
      have hlow := hcov.1
      have hhigh := (Finset.mem_Ico.mp hn).2
      omega
    have hstop := e.stop_eq
    rw [covered, Finset.card_union_of_disjoint hdisj, ← ih h.tail, Nat.card_Ico, hstop, Nat.add_sub_cancel_left]
    simp [blockSum]

theorem blockSum_eq_of_mapped (h : Sorted extents) (h' : Sorted others)
    (hmapped : ∀ n, (∃ c, cellAt extents n = some c) ↔ ∃ c, cellAt others n = some c) :
    blockSum extents = blockSum others := by
  have hcovered : covered extents = covered others := by
    ext n
    simp only [mem_covered, ← cellAt_eq_some h, ← cellAt_eq_some h']
    exact hmapped n
  rw [blockSum_eq_card h, blockSum_eq_card h', hcovered]

end Counting

theorem archiveCleared_idem (protection : Nat) :
    Names.archiveCleared (Names.archiveCleared protection) = Names.archiveCleared protection := by
  rw [Names.archiveCleared, Names.archiveCleared, Nat.and_assoc, Nat.and_self]

def ArchiveClear (protection : Nat) : Prop := Names.archiveCleared protection = protection

instance (protection : Nat) : Decidable (ArchiveClear protection) := decEq _ _

/-- For a word of 32 bits this says that bit 4 is clear. -/
theorem archiveClear_iff {protection : Nat} (hword : protection < 2 ^ 32) :
    ArchiveClear protection ↔ protection.testBit 4 = false := by
  have hmask : ∀ i < 32, (2 ^ 32 - 1 - Names.protectionArchive).testBit i = decide (i ≠ 4) := by decide
  constructor
  · intro h
    rw [← h, Names.archiveCleared, Nat.testBit_and, hmask 4 (by decide)]
    simp
  · intro h
    apply Nat.eq_of_testBit_eq
    intro i
    rw [Names.archiveCleared, Nat.testBit_and]
    by_cases hi : i < 32
    · rw [hmask i hi]
      by_cases heq : i = 4
      · simp [heq, h]
      · simp [heq]
    · have hout : protection.testBit i = false :=
        Nat.testBit_lt_two_pow (hword.trans_le (Nat.pow_le_pow_right (by decide) (not_lt.mp hi)))
      rw [hout, Bool.false_and]

inductive FileEdit where
  | write (offset : Nat) (content : Bytes)
  | truncate (newSize : Nat)

namespace FileEdit

def run (v : FileVolume) (a : Answers) (id : ObjectId) (now : Timespec) :
    Option FileEditLimits → FileEdit → Except CoreError FileVolume
  | none, .write offset content => writeFileAt v a id offset content now
  | some limits, .write offset content => writeFileAtBounded v a id offset content now limits
  | none, .truncate newSize => truncateFile v a id newSize now
  | some limits, .truncate newSize => truncateFileBounded v a id newSize now limits

def Changes (object : FileObject) : FileEdit → Prop
  | .write _ content => content ≠ []
  | .truncate newSize => newSize ≠ object.record.sizeBytes

def size (object : FileObject) : FileEdit → Nat
  | .write offset content => max object.record.sizeBytes (offset + content.length)
  | .truncate newSize => newSize

def bytes (v : FileVolume) (id : ObjectId) : FileEdit → Nat → UInt8
  | .write offset content => patched (byteAt v id) offset content
  | .truncate newSize => cutBytes (byteAt v id) newSize

def mapped (v : FileVolume) (object : FileObject) : FileEdit → Nat → Prop
  | .write offset content => fun n =>
      (offset / v.blockSize ≤ n ∧ n < divCeil (offset + content.length) v.blockSize) ∨
        ∃ c, cellAt object.layout n = some c
  | .truncate newSize => resizedMap v object newSize

/-- Whether the edit patches the record of an extent tree instead of staging a layout: with limits it always does, and
without them when the file only grows. -/
def patches (object : FileObject) (limits : Option FileEditLimits) : FileEdit → Bool
  | .write _ _ => localTree object limits
  | .truncate newSize =>
      localTree object limits || (decide (object.record.sizeBytes < newSize) && object.record.extentTree)

variable {object : FileObject}

theorem patches_of_tree (edit : FileEdit) (limits : FileEditLimits)
    (htree : object.record.extentTree = true) : edit.patches object (some limits) = true := by
  cases edit with
  | write offset content => simp [patches, localTree, htree]
  | truncate newSize => simp [patches, localTree, htree]

theorem patches_of_direct (edit : FileEdit) (limits : Option FileEditLimits)
    (htree : object.record.extentTree = false) : edit.patches object limits = false := by
  cases edit with
  | write offset content => simp [patches, localTree, htree]
  | truncate newSize => simp [patches, localTree, htree]

end FileEdit

open FileEdit

/-- What a caller sees of a file besides its bytes: its size and block counts, its protection word and its times. -/
def FileObject.visible (object : FileObject) : Nat × Nat × Nat × Nat × Timespec × Timespec :=
  (object.record.sizeBytes, object.record.dataBlocks, object.record.allocatedBytes, object.record.protection,
    object.record.modified, object.record.changed)

def SameFile (v₁ v₂ : FileVolume) (id : ObjectId) : Prop :=
  fileBytes v₁ id = fileBytes v₂ id ∧ (v₁.objects id).map FileObject.visible = (v₂.objects id).map FileObject.visible

def ArchiveClearAt (v : FileVolume) (id : ObjectId) : Prop :=
  ∀ object, v.objects id = some object → ArchiveClear object.record.protection

section Agreement

variable {v v' v₁ v₂ : FileVolume} {a a₁ a₂ : Answers} {id : ObjectId} {now : Timespec} {object : FileObject}
  {limits : Option FileEditLimits} {edit : FileEdit}

theorem write_of_run {offset : Nat} {content : Bytes} (h : run v a id now limits (.write offset content) = .ok v') :
    writeFileAtWithLimits v a id offset content now limits = .ok v' := by
  cases limits with
  | none => exact h
  | some limits => exact (check_ok.mp h).2

theorem truncate_of_run {newSize : Nat} (h : run v a id now limits (.truncate newSize) = .ok v') :
    truncateFileWithLimits v a id newSize now limits = .ok v' := by
  cases limits with
  | none => exact h
  | some limits => exact (check_ok.mp h).2

theorem run_unchanged (hv : Valid v) (hobj : v.objects id = some object) (hsame : ¬edit.Changes object)
    (h : edit.run v a id now limits = .ok v') : v' = v := by
  cases edit with
  | write offset content =>
    have hcont : content = [] := not_not.mp hsame
    have hrun := after_check (write_of_run h)
    rw [if_pos hcont] at hrun
    exact pure_ok.mp hrun
  | truncate newSize =>
    obtain ⟨object', hobj', -, hcase⟩ := truncateFileWithLimits_eq_ok hv (truncate_of_run h)
    obtain rfl := Option.some.inj (hobj.symm.trans hobj')
    rw [if_pos (not_not.mp hsame)] at hcase
    exact hcase

theorem run_eq_ok (hv : Valid v) (hobj : v.objects id = some object) (hchanges : edit.Changes object)
    (h : edit.run v a id now limits = .ok v') :
    ∃ staged, Applied v v' id now (edit.size object) (edit.bytes v id) (edit.mapped v object) object staged ∧
      staged.record.protection = if edit.patches object limits then object.record.protection
        else Names.archiveCleared object.record.protection := by
  cases edit with
  | write offset content =>
    obtain ⟨object', staged, happlied, hprot⟩ := writeFileAtWithLimits_eq_ok hv hchanges (write_of_run h)
    obtain rfl := Option.some.inj (hobj.symm.trans happlied.found)
    exact ⟨staged, happlied, hprot⟩
  | truncate newSize =>
    obtain ⟨object', hobj', -, hcase⟩ := truncateFileWithLimits_eq_ok hv (truncate_of_run h)
    obtain rfl := Option.some.inj (hobj.symm.trans hobj')
    rw [if_neg hchanges] at hcase
    obtain ⟨staged, happlied, hprot⟩ := hcase
    refine ⟨staged, happlied, hprot.trans ?_⟩
    rw [protectionAfter, patches]
    by_cases hlocal : localTree object limits = true
    · simp [hlocal]
    · simp [hlocal]

/-- Two edits of the same file at the same time agree on all but the protection word. -/
theorem Applied.same {size : Nat} {bytes : Nat → UInt8} {mapped : Nat → Prop} {staged₁ staged₂ : FileObject}
    (h₁ : Applied v v₁ id now size bytes mapped object staged₁) (h₂ : Applied v v₂ id now size bytes mapped object staged₂) :
    SameFile v₁ v₂ id ↔ staged₁.record.protection = staged₂.record.protection := by
  have hbytes : fileBytes v₁ id = fileBytes v₂ id := by
    rw [fileBytes_file h₁.edits.object h₁.edits.file, fileBytes_file h₂.edits.object h₂.edits.file, funext h₁.edits.content,
      funext h₂.edits.content, h₁.record.sizeBytes, h₂.record.sizeBytes]
  have hblks : staged₁.record.dataBlocks = staged₂.record.dataBlocks := by
    rw [h₁.record.shaped.blocks, h₂.record.shaped.blocks]
    apply blockSum_eq_of_mapped h₁.record.shaped.sorted h₂.record.shaped.sorted
    exact fun n => (h₁.mapped_iff n).trans (h₂.mapped_iff n).symm
  rw [SameFile, h₁.edits.object, h₂.edits.object]
  simp only [hbytes, true_and, Option.map_some, Option.some.injEq, FileObject.visible, Prod.mk.injEq, h₁.record.sizeBytes,
    h₂.record.sizeBytes, hblks, h₁.record.allocatedBytes, h₂.record.allocatedBytes, h₁.record.modified_eq,
    h₂.record.modified_eq, h₁.record.changed_eq, h₂.record.changed_eq, and_true, if_true]

/-- A bounded and an unbounded edit of one state leave the same file with the archive bit clear exactly when the file has
no extent tree or no archive bit. -/
theorem bounded_edit_agrees_iff {limits : FileEditLimits} (hv : Valid v) (hobject : v.objects id = some object)
    (h₁ : edit.run v a₁ id now (some limits) = .ok v₁) (h₂ : edit.run v a₂ id now none = .ok v₂) :
    (SameFile v₁ v₂ id ∧ (edit.Changes object → ArchiveClearAt v₁ id ∧ ArchiveClearAt v₂ id)) ↔
      (edit.Changes object → object.record.extentTree = false ∨ ArchiveClear object.record.protection) := by
  by_cases hchanges : edit.Changes object
  · obtain ⟨staged₁, happlied₁, hprotection₁⟩ := run_eq_ok hv hobject hchanges h₁
    obtain ⟨staged₂, happlied₂, hprotection₂⟩ := run_eq_ok hv hobject hchanges h₂
    have hclear : ∀ w staged, w.objects id = some staged →
        (ArchiveClearAt w id ↔ ArchiveClear staged.record.protection) := by
      intro w staged hstaged
      rw [ArchiveClearAt, hstaged]
      simp
    rw [happlied₁.same happlied₂, hclear v₁ staged₁ happlied₁.edits.object, hclear v₂ staged₂ happlied₂.edits.object]
    simp only [hchanges, true_implies]
    constructor
    · rintro ⟨-, hclear₁, -⟩
      by_cases htree : object.record.extentTree = true
      · rw [hprotection₁, if_pos (edit.patches_of_tree limits htree)] at hclear₁
        exact .inr hclear₁
      · exact .inl (Bool.eq_false_iff.mpr htree)
    · intro hcase
      have hcleared : ∀ limits, (if edit.patches object limits then object.record.protection
          else Names.archiveCleared object.record.protection) = Names.archiveCleared object.record.protection := by
        intro limits
        rcases hcase with htree | hclean
        · rw [if_neg (by simp [edit.patches_of_direct limits htree])]
        · rw [hclean, ite_self]
      rw [hprotection₁, hprotection₂, hcleared, hcleared]
      exact ⟨rfl, archiveCleared_idem _, archiveCleared_idem _⟩
  · obtain rfl := run_unchanged hv hobject hchanges h₁
    obtain rfl := run_unchanged hv hobject hchanges h₂
    simp [hchanges, SameFile]

end Agreement

/-! ### A sparse file with the archive bit -/

/-- A file of ten bytes without a block, as extending an empty file leaves it: its layout is an empty tree. -/
def sparseFile (protection : Nat) : FileObject where
  record :=
    { objectType := .file
      extentTree := true
      dataInPlace := false
      sizeBytes := 10
      allocatedBytes := 0
      modified := ⟨0, 0⟩
      changed := ⟨0, 0⟩
      protection
      contentGeneration := 1
      dataRoot := 8
      dataBlocks := 0 }
  tree := .empty

def sparseVolume (protection : Nat) : FileVolume :=
  { blankVolume with
    nextObjectId := 17
    objects := fun id => if id = 16 then some (sparseFile protection) else none }

theorem valid_sparseVolume (protection : Nat) : Valid (sparseVolume protection) := by
  apply valid_of_no_cells
  · exact Nat.succ_pos 3
  · rintro ⟨id, n⟩
    by_cases hid : id = 16
    · subst hid
      rfl
    · simp [cellOf, sparseVolume, hid]
  · intro id object hobj
    simp only [sparseVolume] at hobj
    split_ifs at hobj with hid
    obtain rfl := Option.some.inj hobj
    exact ⟨rfl, sorted_nil, rfl, fun e he => absurd he List.not_mem_nil⟩
  · exact fun _ => rfl
  · intro id hid
    have hne : id ≠ 16 := Nat.ne_of_gt (Nat.lt_of_succ_le hid)
    simp [sparseVolume, hne]

def protectionOf (result : Except CoreError FileVolume) (id : ObjectId) : Except CoreError (Option Nat) :=
  result.map fun v => (v.objects id).map fun object => object.record.protection

theorem protectionOf_eq_ok {result : Except CoreError FileVolume} {id : ObjectId} {protection : Nat}
    (h : protectionOf result id = .ok (some protection)) :
    ∃ v object, result = .ok v ∧ v.objects id = some object ∧ object.record.protection = protection := by
  cases result with
  | error e => cases h
  | ok v =>
    obtain ⟨object, hobj, hprot⟩ := Option.map_eq_some_iff.mp (Except.ok.inj h)
    exact ⟨v, object, rfl, hobj, hprot⟩

theorem bounded_edit_agrees_iff_sparse :
    ∃ v₁ v₂, (write 2 [5]).run (sparseVolume 0) (firstFit 32) 16 ⟨1, 0⟩ (some ⟨4, 4⟩) = .ok v₁ ∧
      (write 2 [5]).run (sparseVolume 0) (firstFit 32) 16 ⟨1, 0⟩ none = .ok v₂ ∧ SameFile v₁ v₂ 16 := by
  have hbounded : protectionOf ((write 2 [5]).run (sparseVolume 0) (firstFit 32) 16 ⟨1, 0⟩ (some ⟨4, 4⟩)) 16 =
      .ok (some 0) := by decide +kernel
  have hunbounded : protectionOf ((write 2 [5]).run (sparseVolume 0) (firstFit 32) 16 ⟨1, 0⟩ none) 16 =
      .ok (some 0) := by decide +kernel
  obtain ⟨v₁, _, hrun₁, -, -⟩ := protectionOf_eq_ok hbounded
  obtain ⟨v₂, _, hrun₂, -, -⟩ := protectionOf_eq_ok hunbounded
  have hobject : (sparseVolume 0).objects 16 = some (sparseFile 0) := rfl
  have hagree := bounded_edit_agrees_iff (valid_sparseVolume 0) hobject hrun₁ hrun₂
  exact ⟨v₁, v₂, hrun₁, hrun₂, (hagree.mpr fun _ => .inr rfl).1⟩

/-- A file with an extent tree and the archive bit: the bounded write leaves the bit, the unbounded one clears it, and
neither extension clears it. -/
theorem bounded_edit_keeps_archive :
    ∃ v object, Valid v ∧ v.objects 16 = some object ∧ object.record.protection = Names.protectionArchive ∧
      (∃ v₁ v₂, (write 2 [5]).run v (firstFit 32) 16 ⟨1, 0⟩ (some ⟨4, 4⟩) = .ok v₁ ∧
        (write 2 [5]).run v (firstFit 32) 16 ⟨1, 0⟩ none = .ok v₂ ∧
        ¬SameFile v₁ v₂ 16 ∧ ¬ArchiveClearAt v₁ 16) ∧
      ∃ v₂, (truncate 20).run v (firstFit 32) 16 ⟨1, 0⟩ none = .ok v₂ ∧ ¬ArchiveClearAt v₂ 16 := by
  have hbounded : protectionOf ((write 2 [5]).run (sparseVolume 16) (firstFit 32) 16 ⟨1, 0⟩ (some ⟨4, 4⟩)) 16 =
      .ok (some 16) := by decide +kernel
  have hunbounded : protectionOf ((write 2 [5]).run (sparseVolume 16) (firstFit 32) 16 ⟨1, 0⟩ none) 16 =
      .ok (some 0) := by decide +kernel
  have hextended : protectionOf ((truncate 20).run (sparseVolume 16) (firstFit 32) 16 ⟨1, 0⟩ none) 16 =
      .ok (some 16) := by decide +kernel
  have hset : ¬ArchiveClear 16 := by decide
  obtain ⟨v₁, object₁, hrun₁, hobject₁, hprotection₁⟩ := protectionOf_eq_ok hbounded
  obtain ⟨v₂, object₂, hrun₂, hobject₂, hprotection₂⟩ := protectionOf_eq_ok hunbounded
  obtain ⟨v₃, object₃, hrun₃, hobject₃, hprotection₃⟩ := protectionOf_eq_ok hextended
  refine ⟨sparseVolume 16, sparseFile 16, valid_sparseVolume 16, rfl, rfl, ⟨v₁, v₂, hrun₁, hrun₂, ?_, ?_⟩, v₃, hrun₃, ?_⟩
  · rintro ⟨-, hsame⟩
    rw [hobject₁, hobject₂] at hsame
    have hequal : object₁.record.protection = object₂.record.protection := by
      simp only [Option.map_some, Option.some.injEq, FileObject.visible, Prod.mk.injEq] at hsame
      exact hsame.2.2.2.1
    rw [hprotection₁, hprotection₂] at hequal
    cases hequal
  · intro hclear
    exact hset (hprotection₁ ▸ hclear object₁ hobject₁)
  · intro hclear
    exact hset (hprotection₃ ▸ hclear object₃ hobject₃)

end Afsplus.FileData
