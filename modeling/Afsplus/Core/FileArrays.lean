import Afsplus.Core.FileClones

/-!
# Files as byte arrays

The abstract model of the data calls: a file is an array of bytes. A write lays bytes over it, a longer size fills it
with zeros, a reservation does nothing, and a clone takes the bytes its source has at that moment. Every successful run
of the volume's calls gives the replies of this model.
-/

namespace Afsplus.FileData

open Fallible Extents ByteImage

structure ByteFiles where
  files : ObjectId → Option Bytes
  next : ObjectId

/-- The calls on the data of files. `limits` is `some` for the bounded variants, and the content of a new file is a slice
whose length is a machine word. -/
inductive FileCall where
  | read (id : ObjectId) (offset wanted : Nat)
  | write (id : ObjectId) (offset : Nat) (content : Bytes) (now : Timespec) (limits : Option FileEditLimits)
  | truncate (id : ObjectId) (newSize : Nat) (now : Timespec) (limits : Option FileEditLimits)
  | preallocate (id : ObjectId) (offset length : Nat) (now : Timespec) (limits : Option FileEditLimits)
  | cloneFile (source : ObjectId) (now : Timespec)
  | cloneRange (source : ObjectId) (sourceOffset : Nat) (destination : ObjectId) (destinationOffset length : Nat)
      (now : Timespec)
  | create (content : { bytes : Bytes // bytes.length < 2 ^ 64 }) (now : Timespec)

inductive FileReply where
  | done
  | bytes (bytes : Bytes)
  | object (id : ObjectId)
  deriving DecidableEq, Repr

namespace ByteFiles

def content (m : ByteFiles) (id : ObjectId) : Bytes := (m.files id).getD []

def modify (m : ByteFiles) (id : ObjectId) (f : Bytes → Bytes) : ByteFiles :=
  { m with files := fun other => if other = id then (m.files other).map f else m.files other }

def add (m : ByteFiles) (bytes : Bytes) : ByteFiles where
  files other := if other = m.next then some bytes else m.files other
  next := m.next + 1

def apply (m : ByteFiles) : FileCall → ByteFiles × FileReply
  | .read id offset wanted => (m, .bytes (((m.content id).drop offset).take wanted))
  | .write id offset content _ _ =>
      (if content = [] then m else m.modify id fun bytes => overlay 0 bytes offset content, .done)
  | .truncate id newSize _ _ => (m.modify id fun bytes => resize 0 bytes newSize, .done)
  | .preallocate _ _ _ _ _ => (m, .done)
  | .cloneFile source _ => (m.add (m.content source), .object m.next)
  | .cloneRange source sourceOffset destination destinationOffset length _ =>
      (if length = 0 then m
        else m.modify destination fun bytes =>
          overlay 0 bytes destinationOffset (slice (m.content source) sourceOffset (sourceOffset + length)), .done)
  | .create content _ => (m.add content.1, .object m.next)

def applyAll (m : ByteFiles) : List FileCall → ByteFiles × List FileReply
  | [] => (m, [])
  | call :: calls =>
      let (next, reply) := m.apply call
      let (last, replies) := next.applyAll calls
      (last, reply :: replies)

end ByteFiles

def FileCall.run (v : FileVolume) (a : Answers) : FileCall → Except CoreError (FileVolume × FileReply)
  | .read id offset wanted => do
      let bytes ← readFileAt v id offset wanted
      pure (v, .bytes bytes)
  | .write id offset content now none => do
      let v' ← writeFileAt v a id offset content now
      pure (v', .done)
  | .write id offset content now (some limits) => do
      let v' ← writeFileAtBounded v a id offset content now limits
      pure (v', .done)
  | .truncate id newSize now none => do
      let v' ← truncateFile v a id newSize now
      pure (v', .done)
  | .truncate id newSize now (some limits) => do
      let v' ← truncateFileBounded v a id newSize now limits
      pure (v', .done)
  | .preallocate id offset length now none => do
      let v' ← preallocateFile v a id offset length now
      pure (v', .done)
  | .preallocate id offset length now (some limits) => do
      let v' ← preallocateFileBounded v a id offset length now limits
      pure (v', .done)
  | .cloneFile source now => do
      let (v', id) ← FileData.cloneFile v a source now
      pure (v', .object id)
  | .cloneRange source sourceOffset destination destinationOffset length now => do
      let v' ← FileData.cloneRange v a source sourceOffset destination destinationOffset length now
      pure (v', .done)
  | .create content now => do
      let (v', id) ← createFile v a content.1 now
      pure (v', .object id)

/-- The calls one after another, each with the answers of the allocator and the device during it. -/
def runCalls (v : FileVolume) : List (Answers × FileCall) → Except CoreError (FileVolume × List FileReply)
  | [] => .ok (v, [])
  | (a, call) :: calls => do
      let (next, reply) ← call.run v a
      let (last, replies) ← runCalls next calls
      pure (last, reply :: replies)

section Refinement

variable {v v' : FileVolume} {a : Answers} {id : ObjectId} {bytes : Nat → UInt8} {staged : FileObject}

def arrays (v : FileVolume) : ByteFiles := ⟨fileBytes v, v.nextObjectId⟩

variable {content : Bytes}

theorem content_arrays (h : fileBytes v id = some content) : (arrays v).content id = content := by
  show (fileBytes v id).getD [] = content
  rw [h, Option.getD_some]

theorem arrays_of_edits {f : Bytes → Bytes} (h : Edits v v' id staged bytes)
    (hf : (fileBytes v id).map f = some (image bytes staged.record.sizeBytes)) : arrays v' = (arrays v).modify id f := by
  have hfiles : fileBytes v' = fun other => if other = id then (fileBytes v other).map f else fileBytes v other := by
    funext other
    split_ifs with hoth
    · rw [hoth, hf, fileBytes_file h.object h.file, funext h.content]
    · exact fileBytes_congr (h.others other hoth) (h.kept other hoth)
  rw [arrays, arrays, ByteFiles.modify, hfiles, h.next]

theorem arrays_add (hid : id = v.nextObjectId) (hnext : v'.nextObjectId = v.nextObjectId + 1)
    (hnew : fileBytes v' id = some content) (hothers : ∀ other, other ≠ id → fileBytes v' other = fileBytes v other) :
    arrays v' = (arrays v).add content := by
  have hfiles : fileBytes v' = fun other => if other = v.nextObjectId then some content else fileBytes v other := by
    funext other
    split_ifs with hoth
    · rw [hoth, ← hid, hnew]
    · exact hothers other (hid ▸ hoth)
  rw [arrays, arrays, ByteFiles.add, hfiles, hnext]

variable {now : Timespec} {limits : Option FileEditLimits}

theorem write_refines {offset : Nat} (hv : Valid v)
    (h : writeFileAtWithLimits v a id offset content now limits = .ok v') :
    Valid v' ∧ arrays v' = ((arrays v).apply (.write id offset content now limits)).1 := by
  rw [ByteFiles.apply]
  by_cases hcont : content = []
  · replace h := after_check h
    rw [if_pos hcont] at h
    obtain rfl := pure_ok.mp h
    exact ⟨hv, (if_pos hcont).symm⟩
  · obtain ⟨object, staged, happlied, -⟩ := writeFileAtWithLimits_eq_ok hv hcont h
    refine ⟨happlied.edits.valid, ?_⟩
    rw [if_neg hcont]
    apply arrays_of_edits happlied.edits
    rw [fileBytes_file happlied.found happlied.file, happlied.record.sizeBytes, Option.map_some]
    congr 1
    apply overlay_image (hv.tail id object happlied.found happlied.file)
    · intro j hj
      rw [patched, if_pos (by omega), Nat.add_sub_cancel_left, List.getD_eq_getElem?_getD, List.getElem?_eq_getElem hj]
      rfl
    · exact fun i hi => if_neg hi

theorem truncate_refines {newSize : Nat} (hv : Valid v)
    (h : truncateFileWithLimits v a id newSize now limits = .ok v') :
    Valid v' ∧ arrays v' = ((arrays v).apply (.truncate id newSize now limits)).1 := by
  obtain ⟨object, hobj, hfile, h⟩ := truncateFileWithLimits_eq_ok hv h
  have hzero := hv.tail id object hobj hfile
  have hresize : (fileBytes v id).map (fun bytes => resize 0 bytes newSize) =
      some (image (cutBytes (byteAt v id) newSize) newSize) := by
    rw [fileBytes_file hobj hfile, Option.map_some]
    congr 1
    exact resize_image hzero fun i hi => if_pos hi
  by_cases hsame : newSize = object.record.sizeBytes
  · rw [if_pos hsame] at h
    subst h
    refine ⟨hv, ?_⟩
    -- The same size again: the array is resized to its own length.
    have hfiles : fileBytes v' = fun other =>
        if other = id then (fileBytes v' other).map (fun bytes => resize 0 bytes newSize) else fileBytes v' other := by
      funext other
      split_ifs with hoth
      · rw [hoth, hresize, fileBytes_file hobj hfile, ← hsame]
        congr 1
        exact image_congr fun i hi => (if_pos hi).symm
      · rfl
    rw [ByteFiles.apply, ByteFiles.modify, arrays]
    exact congrArg (ByteFiles.mk · v'.nextObjectId) hfiles
  · rw [if_neg hsame] at h
    obtain ⟨staged, happlied, -⟩ := h
    refine ⟨happlied.edits.valid, arrays_of_edits happlied.edits ?_⟩
    rw [hresize, happlied.record.sizeBytes]

theorem preallocate_refines {offset length : Nat} {limits : FileEditLimits} (hv : Valid v)
    (h : preallocateFileBounded v a id offset length now limits = .ok v') : Valid v' ∧ arrays v' = arrays v := by
  rcases preallocateFileBounded_eq_ok hv h with rfl | ⟨object, staged, hobj, hfile, hedits, hsize⟩
  · exact ⟨hv, rfl⟩
  · refine ⟨hedits.valid, ?_⟩
    have hfiles : fileBytes v' = fileBytes v := by
      funext other
      by_cases hoth : other = id
      · rw [hoth, fileBytes_file hedits.object hedits.file, fileBytes_file hobj hfile, funext hedits.content, hsize]
      · exact fileBytes_congr (hedits.others other hoth) (hedits.kept other hoth)
    rw [arrays, arrays, hfiles, hedits.next]

theorem cloneRange_refines {source destination : ObjectId} {sourceOffset destinationOffset length : Nat}
    (hv : Valid v) (h : cloneRange v a source sourceOffset destination destinationOffset length now = .ok v') :
    Valid v' ∧ arrays v' =
      ((arrays v).apply (.cloneRange source sourceOffset destination destinationOffset length now)).1 := by
  obtain ⟨hval, hnext, sourceBytes, bytes, hsrc, hbytes, -, hothers, hdest⟩ := cloneRange_eq_ok hv h
  refine ⟨hval, ?_⟩
  rw [ByteFiles.apply, content_arrays hsrc]
  split_ifs at hdest ⊢ with hlen
  · have hfiles : fileBytes v' = fileBytes v := by
      funext other
      by_cases hoth : other = destination
      · rw [hoth, hdest, hbytes]
      · exact hothers other hoth
    rw [arrays, arrays, hfiles, hnext]
  · have hfiles : fileBytes v' = fun other => if other = destination then (fileBytes v other).map (fun bytes =>
        overlay 0 bytes destinationOffset (slice sourceBytes sourceOffset (sourceOffset + length))) else fileBytes v other := by
      funext other
      split_ifs with hoth
      · rw [hoth, hdest, hbytes, Option.map_some]
      · exact hothers other hoth
    rw [arrays, arrays, ByteFiles.modify, hfiles, hnext]

theorem of_done {x : Except CoreError FileVolume} {reply : FileReply}
    (h : (do let v' ← x; pure (v', FileReply.done)) = .ok (v', reply)) : x = .ok v' ∧ reply = .done := by
  obtain ⟨w, hx, h⟩ := of_bind h
  obtain ⟨rfl, rfl⟩ := pure_pair_eq_ok.mp h
  exact ⟨hx, rfl⟩

theorem run_refines {call : FileCall} {reply : FileReply} (hv : Valid v) (h : call.run v a = .ok (v', reply)) :
    Valid v' ∧ (arrays v).apply call = (arrays v', reply) := by
  cases call with
  | read id offset wanted =>
    obtain ⟨bytes, hread, h⟩ := of_bind h
    obtain ⟨rfl, rfl⟩ := pure_pair_eq_ok.mp h
    obtain ⟨object, hobj, hfile, rfl⟩ := readFileAt_eq_ok hv hread
    refine ⟨hv, ?_⟩
    rw [ByteFiles.apply, content_arrays (fileBytes_file hobj hfile)]
  | write id offset content now limits =>
    obtain ⟨hrun, rfl⟩ : writeFileAtWithLimits v a id offset content now limits = .ok v' ∧ reply = .done := by
      cases limits with
      | none => exact of_done h
      | some limits =>
        obtain ⟨hwrite, rfl⟩ := of_done h
        exact ⟨after_check hwrite, rfl⟩
    obtain ⟨hval, heq⟩ := write_refines hv hrun
    exact ⟨hval, Prod.ext heq.symm rfl⟩
  | truncate id newSize now limits =>
    obtain ⟨hrun, rfl⟩ : truncateFileWithLimits v a id newSize now limits = .ok v' ∧ reply = .done := by
      cases limits with
      | none => exact of_done h
      | some limits =>
        obtain ⟨htruncate, rfl⟩ := of_done h
        exact ⟨after_check htruncate, rfl⟩
    obtain ⟨hval, heq⟩ := truncate_refines hv hrun
    exact ⟨hval, Prod.ext heq.symm rfl⟩
  | preallocate id offset length now limits =>
    obtain ⟨⟨limits, hrun⟩, rfl⟩ : (∃ limits, preallocateFileBounded v a id offset length now limits = .ok v') ∧
        reply = .done := by
      cases limits with
      | none =>
        obtain ⟨hreserve, rfl⟩ := of_done h
        exact ⟨⟨_, hreserve⟩, rfl⟩
      | some limits =>
        obtain ⟨hreserve, rfl⟩ := of_done h
        exact ⟨⟨limits, hreserve⟩, rfl⟩
    obtain ⟨hval, heq⟩ := preallocate_refines hv hrun
    exact ⟨hval, Prod.ext heq.symm rfl⟩
  | cloneFile source now =>
    obtain ⟨⟨w, id⟩, hclone, h⟩ := of_bind h
    obtain ⟨rfl, rfl⟩ := pure_pair_eq_ok.mp h
    obtain ⟨hval, hid, hnext, ⟨bytes, hsrc, hnew⟩, hothers⟩ := cloneFile_eq_ok hv hclone
    refine ⟨hval, ?_⟩
    rw [ByteFiles.apply, content_arrays hsrc, arrays_add hid hnext hnew hothers, hid]
    rfl
  | cloneRange source sourceOffset destination destinationOffset length now =>
    obtain ⟨hclone, rfl⟩ := of_done h
    obtain ⟨hval, heq⟩ := cloneRange_refines hv hclone
    exact ⟨hval, Prod.ext heq.symm rfl⟩
  | create content now =>
    obtain ⟨⟨w, id⟩, hcreate, h⟩ := of_bind h
    obtain ⟨rfl, rfl⟩ := pure_pair_eq_ok.mp h
    obtain ⟨hval, hid, hnext, hnew, hothers⟩ := createFile_eq_ok hv content.2 hcreate
    refine ⟨hval, ?_⟩
    rw [ByteFiles.apply, arrays_add hid hnext hnew hothers, hid]
    rfl

/-- A file is a byte array: every run of successful calls replies as the arrays do. -/
theorem runCalls_refines_arrays {calls : List (Answers × FileCall)} {replies : List FileReply} (hv : Valid v)
    (h : runCalls v calls = .ok (v', replies)) :
    Valid v' ∧ (arrays v).applyAll (calls.map Prod.snd) = (arrays v', replies) := by
  induction calls generalizing v replies with
  | nil =>
    obtain ⟨rfl, rfl⟩ := Prod.mk.inj (Except.ok.inj h)
    exact ⟨hv, rfl⟩
  | cons entry calls ih =>
    obtain ⟨a, call⟩ := entry
    obtain ⟨⟨next, reply⟩, hstep, h⟩ := of_bind h
    obtain ⟨⟨last, rest⟩, hrest, h⟩ := of_bind h
    obtain ⟨rfl, rfl⟩ := pure_pair_eq_ok.mp h
    obtain ⟨hvalid, hcall⟩ := run_refines hv hstep
    obtain ⟨hlast, hcalls⟩ := ih hvalid hrest
    refine ⟨hlast, ?_⟩
    rw [List.map_cons, ByteFiles.applyAll, hcall]
    dsimp only
    rw [hcalls]

/-- The file whose bytes a call may change. -/
def FileCall.target : FileCall → Option ObjectId
  | .write id .. | .truncate id .. | .cloneRange _ _ id .. => some id
  | _ => none

theorem ByteFiles.files_apply {m : ByteFiles} {call : FileCall} (hid : id < m.next) (hother : call.target ≠ some id) :
    id < (m.apply call).1.next ∧ (m.apply call).1.files id = m.files id := by
  cases call <;> grind [apply, modify, add, FileCall.target]

variable {calls : List (Answers × FileCall)} {replies : List FileReply} (hv : Valid v)
  (h : runCalls v calls = .ok (v', replies))

include hv h

theorem runCalls_keeps : Valid v' ∧ ∀ id < v.nextObjectId, (∀ call ∈ calls, call.2.target ≠ some id) →
    fileBytes v' id = fileBytes v id := by
  induction calls generalizing v replies with
  | nil =>
    obtain ⟨rfl, rfl⟩ := Prod.mk.inj (Except.ok.inj h)
    exact ⟨hv, fun _ _ _ => rfl⟩
  | cons entry calls ih =>
    obtain ⟨⟨next, reply⟩, hstep, h⟩ := of_bind h
    obtain ⟨⟨last, rest⟩, hrest, h⟩ := of_bind h
    obtain ⟨rfl, rfl⟩ := pure_pair_eq_ok.mp h
    obtain ⟨hvalid, hcall⟩ := run_refines hv hstep
    obtain ⟨hlast, hkept⟩ := ih hvalid hrest
    refine ⟨hlast, fun id hid hothers => ?_⟩
    obtain ⟨hother, hothers⟩ := List.forall_mem_cons.mp hothers
    obtain ⟨hnext, hfile⟩ := ByteFiles.files_apply (m := arrays v) hid hother
    rw [hcall] at hnext hfile
    exact (hkept id hnext hothers).trans hfile

/-- After any run of calls no block is mapped more often than its count says, a block that two places map is
marked shared at both, only data blocks are mapped, and a file that is no call's target has its bytes. -/
theorem runCalls_share_safely :
    (∀ b, { x | ∃ c, cellOf v' x = some c ∧ c.block = b }.encard ≤ v'.refs b) ∧
    (∀ x y c d, cellOf v' x = some c → cellOf v' y = some d → d.block = c.block → x ≠ y → c.shared) ∧
    (∀ x c, cellOf v' x = some c → v'.use c.block = .data) ∧
    ∀ id < v.nextObjectId, (∀ call ∈ calls, call.2.target ≠ some id) → fileBytes v' id = fileBytes v id := by
  obtain ⟨hvalid, hkept⟩ := runCalls_keeps hv h
  have hheld := hvalid.held
  refine ⟨fun b => ?_, fun x y c d hx hy hblk hne => ?_, hheld.owned, hkept⟩
  · simpa [RefCount.holders] using hheld.counted b
  · by_contra halone
    exact hne (hheld.eq_of_alone hx hy hblk (Bool.eq_false_of_not_eq_true halone))

end Refinement

/-! ### A run -/

theorem valid_of_no_cells {v : FileVolume} (hsize : 0 < v.blockSize) (hcells : ∀ x, cellOf v x = none)
    (hshaped : ∀ id object, v.objects id = some object → object.Shaped) (hrefs : ∀ b, v.refs b = 1)
    (hfresh : ∀ id, v.nextObjectId ≤ id → v.objects id = none) : Valid v := by
  refine ⟨hsize, ⟨?_, ?_, ?_, ?_, ?_⟩, ?_, ?_, ?_, hfresh⟩
  · intro b
    simp [RefCount.holders, hcells]
  · exact fun b => (hrefs b).ge
  · intro x c hc
    rw [hcells] at hc
    cases hc
  · intro x c hc
    rw [hcells] at hc
    cases hc
  · exact fun b _ => hrefs b
  · exact fun id object hobj _ => hshaped id object hobj
  · intro id object _ _ i _
    rw [byteAt, hcells]
    rfl
  · intro x c hc
    rw [hcells] at hc
    cases hc

/-- The answers of an allocator that takes the first free run below `limit`. -/
def firstFit (limit : Nat) : Answers where
  pick use count :=
    match (List.range limit).find? fun start => (List.range' start count).all fun b => use b = .free with
    | some start => .ok start
    | none => .error .noSpace
  pick_free := by
    intro use count start h b hlow hhigh
    split at h
    · rename_i start' hfind
      obtain rfl := Except.ok.inj h
      have hall := List.find?_some hfind
      exact of_decide_eq_true (List.all_eq_true.mp hall b (List.mem_range'_1.mpr ⟨hlow, hhigh⟩))
    · cases h
  reclaims _ := true
  takes _ := false
  drops _ := false
  image _ := []
  root id := id
  refusal := none

def blankVolume : FileVolume where
  blockSize := 4
  maxRun := 2
  sharedExtents := true
  policy := .inPlacePrivate
  snapshotsRequireCow := false
  generation := 1
  nextObjectId := 16
  sharedRoot := false
  disk _ := []
  use _ := .free
  refs _ := 1
  objects _ := none

theorem valid_blankVolume : Valid blankVolume :=
  valid_of_no_cells (by decide) (fun _ => rfl) (by simp [blankVolume]) (fun _ => rfl) fun _ _ => rfl

def sampleCalls : List FileCall :=
  [.create ⟨[1, 2, 3, 4, 5, 6], by decide⟩ ⟨0, 0⟩,
    .write 16 2 [9, 9, 9] ⟨0, 0⟩ none,
    .truncate 16 3 ⟨0, 0⟩ none,
    .preallocate 16 12 8 ⟨0, 0⟩ none,
    .truncate 16 10 ⟨0, 0⟩ none,
    .read 16 0 20,
    .cloneFile 16 ⟨0, 0⟩,
    .write 17 1 [7] ⟨0, 0⟩ (some ⟨8, 8⟩),
    .cloneRange 17 0 16 4 6 ⟨0, 0⟩,
    .read 16 0 20,
    .read 17 0 20]

theorem runCalls_refines_arrays_sample :
    ∃ v', runCalls blankVolume (sampleCalls.map fun call => (firstFit 32, call)) =
        .ok (v', [.object 16, .done, .done, .done, .done, .bytes [1, 2, 9, 0, 0, 0, 0, 0, 0, 0], .object 17, .done,
          .done, .bytes [1, 2, 9, 0, 1, 7, 9, 0, 0, 0], .bytes [1, 7, 9, 0, 0, 0, 0, 0, 0, 0]]) ∧ Valid v' := by
  have hrun : (runCalls blankVolume (sampleCalls.map fun call => (firstFit 32, call))).map Prod.snd =
      .ok [.object 16, .done, .done, .done, .done, .bytes [1, 2, 9, 0, 0, 0, 0, 0, 0, 0], .object 17, .done,
          .done, .bytes [1, 2, 9, 0, 1, 7, 9, 0, 0, 0], .bytes [1, 7, 9, 0, 0, 0, 0, 0, 0, 0]] := by
    decide +kernel
  cases hcalls : runCalls blankVolume (sampleCalls.map fun call => (firstFit 32, call)) with
  | error e =>
    rw [hcalls] at hrun
    cases hrun
  | ok result =>
    rw [hcalls] at hrun
    obtain ⟨v', replies⟩ := result
    obtain rfl := Except.ok.inj hrun
    exact ⟨v', rfl, (runCalls_refines_arrays valid_blankVolume hcalls).1⟩

theorem runCalls_share_safely_sample : ∃ v' replies,
    runCalls blankVolume (sampleCalls.map fun call => (firstFit 32, call)) = .ok (v', replies) ∧
      ∀ x c, cellOf v' x = some c → v'.use c.block = .data := by
  have hok : (runCalls blankVolume (sampleCalls.map fun call => (firstFit 32, call))).isOk := by decide +kernel
  cases h : runCalls blankVolume (sampleCalls.map fun call => (firstFit 32, call)) with
  | error e =>
    rw [h] at hok
    cases hok
  | ok result => exact ⟨_, _, rfl, (runCalls_share_safely valid_blankVolume h).2.2.1⟩

end Afsplus.FileData
