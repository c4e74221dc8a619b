import Mathlib.Data.List.Pairwise
import Mathlib.Data.List.Sort
import Mathlib.Data.List.TakeWhile
import Afsplus.Core.Basic
import Afsplus.Format.Geometry
import Afsplus.Format.Object

/-!
# Extents of a file

A file's logical blocks are mapped by extents: runs of logical blocks that lie in a run of physical ones. The
functions here cut, mark, move and join lists of extents. What a list says is which cell of the volume a logical
block lies in; every function is described by what it does to that map.
-/

namespace Afsplus

open Fallible
open List hiding min max

/-- `unwritten` blocks are allocated and read as zeros; `shared` blocks may be mapped elsewhere, too. -/
structure Extent where
  logicalStart : Nat
  physicalStart : Nat
  blockCount : Nat
  unwritten : Bool
  shared : Bool
  deriving DecidableEq, Repr

/-- Where a logical block lies, and the flags of its extent. -/
structure Cell where
  block : Nat
  unwritten : Bool
  shared : Bool
  deriving DecidableEq, Repr

/-- The cell when its block is mapped elsewhere, too. -/
def Cell.share (c : Cell) : Cell := { c with shared := true }

namespace Extent

def stop (e : Extent) : Nat := e.logicalStart + e.blockCount

theorem stop_eq (e : Extent) : e.stop = e.logicalStart + e.blockCount := rfl

def logicalEnd (e : Extent) : Except CoreError Nat := do
  refuseIf (2 ^ 64 ≤ e.logicalStart + e.blockCount) (.corrupt "extent logical end overflows")
  pure e.stop

def physicalEnd (e : Extent) : Except CoreError Nat := do
  refuseIf (2 ^ 64 ≤ e.physicalStart + e.blockCount) (.corrupt "extent physical end overflows")
  pure (e.physicalStart + e.blockCount)

def Covers (e : Extent) (n : Nat) : Prop := e.logicalStart ≤ n ∧ n < e.stop

instance (e : Extent) (n : Nat) : Decidable (e.Covers n) := inferInstanceAs (Decidable (_ ∧ _))

def cell (e : Extent) (n : Nat) : Cell := ⟨e.physicalStart + (n - e.logicalStart), e.unwritten, e.shared⟩

/-- The part of an extent from `low` up to `high`. The source adds before it subtracts; for an extent whose
physical end fits, wrapping arithmetic gives the same (`slice_wrapping`). -/
def slice (e : Extent) (low high : Nat) : Extent :=
  { e with
    logicalStart := low
    physicalStart := e.physicalStart + (low - e.logicalStart)
    blockCount := high - low }

def Plain (e : Extent) : Prop := e.unwritten = false ∧ e.shared = false

instance (e : Extent) : Decidable e.Plain := inferInstanceAs (Decidable (_ ∧ _))

/-- `flags == EXTENT_UNWRITTEN`: reserved, and by this file alone. -/
def Reserved (e : Extent) : Prop := e.unwritten = true ∧ e.shared = false

instance (e : Extent) : Decidable e.Reserved := inferInstanceAs (Decidable (_ ∧ _))

end Extent

namespace Extents

def extentAt (extents : List Extent) (n : Nat) : Option Extent :=
  (extents.takeWhile fun e => e.logicalStart ≤ n).getLast?.filter fun e => n < e.stop

def continues (previous extent : Extent) : Except CoreError Bool :=
  if (previous.unwritten, previous.shared) = (extent.unwritten, extent.shared) ∧
      previous.stop = extent.logicalStart then do
    let physicalEnd ← previous.physicalEnd
    pure (physicalEnd = extent.physicalStart)
  else pure false

/-- The loop of `coalesce_extents`; `previous` is the last extent so far. -/
def coalesceInto (previous : Extent) : List Extent → Except CoreError (List Extent)
  | [] => .ok [previous]
  | extent :: rest => do
      let previousEnd ← previous.logicalEnd
      refuseIf (previousEnd > extent.logicalStart) (.corrupt "logical extents overlap")
      let joined ← continues previous extent
      if joined then do
        refuseIf (2 ^ 64 ≤ previous.blockCount + extent.blockCount) (.corrupt "coalesced extent overflows")
        coalesceInto { previous with blockCount := previous.blockCount + extent.blockCount } rest
      else do
        let others ← coalesceInto extent rest
        pure (previous :: others)

def coalesceExtents (extents : List Extent) : Except CoreError (List Extent) :=
  match extents.insertionSort fun a b => a.logicalStart ≤ b.logicalStart with
  | [] => .ok []
  | first :: rest => coalesceInto first rest

def outside (start stop : Nat) (e : Extent) : List Extent :=
  if e.stop ≤ start ∨ stop ≤ e.logicalStart then [e]
  else
    (if e.logicalStart < max e.logicalStart start then [e.slice e.logicalStart (max e.logicalStart start)] else []) ++
      if min e.stop stop < e.stop then [e.slice (min e.stop stop) e.stop] else []

def inside (start stop : Nat) (e : Extent) : List Extent :=
  if e.stop ≤ start ∨ stop ≤ e.logicalStart then []
  else [e.slice (max e.logicalStart start) (min e.stop stop)]

def checkEnds (extents : List Extent) : Except CoreError Unit :=
  extents.forM fun e => discard e.logicalEnd

def checkReplacement (start stop : Nat) : Option Extent → Except CoreError Unit
  | none => .ok ()
  | some replacement => do
      let replacementEnd ← replacement.logicalEnd
      refuseIf (replacement.logicalStart ≠ start ∨ replacementEnd ≠ stop)
        (.corrupt "replacement extent does not cover requested range")

/-- The extents with `start..stop` exchanged for the replacement, and what was there before. -/
def replaceLogicalRange (old : List Extent) (start stop : Nat) (replacement : Option Extent) :
    Except CoreError (List Extent × List Extent) := do
  refuseIf (start ≥ stop) (.corrupt "empty logical replacement range")
  checkEnds old
  checkReplacement start stop replacement
  let extents ← coalesceExtents (old.flatMap (outside start stop) ++ replacement.toList)
  pure (extents, old.flatMap (inside start stop))

/-- The gaps of `cursor..stop` between the extents. -/
def holesFrom (stop : Nat) : Nat → List Extent → Except CoreError (List (Nat × Nat))
  | cursor, [] => .ok (if cursor < stop then [(cursor, stop)] else [])
  | cursor, e :: rest => do
      let extentEnd ← e.logicalEnd
      if extentEnd ≤ cursor then holesFrom stop cursor rest
      else if e.logicalStart ≥ stop then pure (if cursor < stop then [(cursor, stop)] else [])
      else do
        let hole := if e.logicalStart > cursor then [(cursor, min e.logicalStart stop)] else []
        let next := max cursor (min extentEnd stop)
        if next = stop then pure hole
        else do
          let others ← holesFrom stop next rest
          pure (hole ++ others)

def logicalHoles (extents : List Extent) (start stop : Nat) : Except CoreError (List (Nat × Nat)) :=
  holesFrom stop start extents

/-- An extent with the flag set on its part inside `start..stop`. -/
def marked (start stop : Nat) (e : Extent) : List Extent :=
  if e.stop ≤ start ∨ stop ≤ e.logicalStart then [e]
  else
    (if e.logicalStart < max e.logicalStart start then [e.slice e.logicalStart (max e.logicalStart start)] else []) ++
      { e.slice (max e.logicalStart start) (min e.stop stop) with shared := true } ::
        if min e.stop stop < e.stop then [e.slice (min e.stop stop) e.stop] else []

/-- The tests on an extent that is cut at `start` and `stop`. -/
def checkCut (start stop : Nat) (e : Extent) : Except CoreError Unit := do
  let extentEnd ← e.logicalEnd
  if extentEnd ≤ start ∨ stop ≤ e.logicalStart then pure ()
  else do
    refuseIf (2 ^ 64 ≤ e.physicalStart + (max e.logicalStart start - e.logicalStart))
      (.corrupt "extent physical start overflows")
    refuseIf (min extentEnd stop < extentEnd ∧ 2 ^ 64 ≤ e.physicalStart + (min extentEnd stop - e.logicalStart))
      (.corrupt "extent physical start overflows")

def markLogicalRangeShared (extents : List Extent) (start stop : Nat) : Except CoreError (List Extent) :=
  if start ≥ stop then .ok extents
  else do
    extents.forM (checkCut start stop)
    coalesceExtents (extents.flatMap (marked start stop))

/-- The mapped parts of `start..stop`, moved to `target` and marked as shared. -/
def remapped (start stop target : Nat) (e : Extent) : List Extent :=
  (inside start stop e).map fun part =>
    { part with logicalStart := target + (part.logicalStart - start), shared := true }

/-- The loop of `remap_extent_range`: it ends at the first extent behind the range. -/
def remapParts (start stop target : Nat) : List Extent → Except CoreError (List Extent)
  | [] => .ok []
  | e :: rest => do
      let extentEnd ← e.logicalEnd
      if extentEnd ≤ start then remapParts start stop target rest
      else if e.logicalStart ≥ stop then pure []
      else do
        refuseIf (2 ^ 64 ≤ target + (max e.logicalStart start - start))
          (.prototypeLimit "clone destination block range overflows")
        refuseIf (2 ^ 64 ≤ e.physicalStart + (max e.logicalStart start - e.logicalStart))
          (.corrupt "extent physical start overflows")
        let others ← remapParts start stop target rest
        pure (remapped start stop target e ++ others)

def remapExtentRange (extents : List Extent) (start stop target : Nat) : Except CoreError (List Extent) :=
  if start ≥ stop then .ok []
  else do
    let parts ← remapParts start stop target extents
    coalesceExtents parts

/-- The one extent of a file that needs no tree; `some none` for an empty file. -/
def directLayout (extents : List Extent) (size blockSize : Nat) : Option (Option Extent) :=
  match extents with
  | [] => if size = 0 then some none else none
  | [e] =>
      if e.logicalStart ≠ 0 ∨ ¬e.Plain ∨ e.blockCount > maxExtentBlocks ∨ 2 ^ 64 ≤ e.blockCount * blockSize then none
      else if size > (e.blockCount - 1) * blockSize ∧ size ≤ e.blockCount * blockSize then some (some e) else none
  | _ => none

/-- The extents from the one at or before `start` to the first at or behind `stop`. -/
def window (extents : List Extent) (start stop : Nat) : List Extent :=
  let floor := (extents.filter fun e => e.logicalStart ≤ start).getLast?
  let behind := extents.filter fun e => ¬e.logicalStart ≤ start
  ((floor.toList ++ behind).takeWhile fun e => e.logicalStart < stop) ++
    ((floor.toList ++ behind).dropWhile fun e => e.logicalStart < stop).head?.toList

def readWindow (extents : List Extent) (start stop limit : Nat) : Except CoreError (List Extent) := do
  refuseIf (start ≥ stop ∨ limit = 0 ∨ limit = 2 ^ 64 - 1) (.prototypeLimit "extent window limits invalid")
  refuseIf ((window extents start stop).length > limit) (.prototypeLimit "extent window record budget exhausted")
  pure (window extents start stop)

/-! ### The map of a list -/

/-- Some extent of the list puts the logical block there. -/
def Gives (extents : List Extent) (n : Nat) (c : Cell) : Prop := ∃ e ∈ extents, e.Covers n ∧ e.cell n = c

def cellAt (extents : List Extent) (n : Nat) : Option Cell := (extentAt extents n).map fun e => e.cell n

structure Sorted (extents : List Extent) : Prop where
  proper : ∀ e ∈ extents, 0 < e.blockCount
  ordered : extents.Pairwise fun a b => a.stop ≤ b.logicalStart

def blockSum (extents : List Extent) : Nat := (extents.map Extent.blockCount).sum

section Maps

variable {extents : List Extent} {e : Extent} {n : Nat} {c c' : Cell}

theorem gives_nil : ¬Gives [] n c := by
  rintro ⟨e, he, -⟩
  cases he

theorem gives_cons {rest : List Extent} : Gives (e :: rest) n c ↔ (e.Covers n ∧ e.cell n = c) ∨ Gives rest n c := by
  simp [Gives]

theorem gives_singleton : Gives [e] n c ↔ e.Covers n ∧ e.cell n = c := by
  simp [Gives]

variable {others : List Extent}

theorem gives_append : Gives (extents ++ others) n c ↔ Gives extents n c ∨ Gives others n c := by
  simp only [Gives, mem_append, or_and_right, exists_or]

theorem gives_flatMap {f : Extent → List Extent} :
    Gives (extents.flatMap f) n c ↔ ∃ e ∈ extents, Gives (f e) n c := by
  simp only [Gives, mem_flatMap]
  constructor
  · rintro ⟨part, ⟨e, he, hpart⟩, hgives⟩
    exact ⟨e, he, part, hpart, hgives⟩
  · rintro ⟨e, he, part, hpart, hgives⟩
    exact ⟨part, ⟨e, he, hpart⟩, hgives⟩

theorem gives_perm (h : extents.Perm others) : Gives extents n c ↔ Gives others n c := by
  simp only [Gives, h.mem_iff]

theorem sorted_nil : Sorted [] := ⟨by simp, List.Pairwise.nil⟩

theorem Sorted.tail (h : Sorted (e :: extents)) : Sorted extents :=
  ⟨fun other hoth => h.proper other (mem_cons_of_mem _ hoth), (pairwise_cons.mp h.ordered).2⟩

variable (h : Sorted extents)

include h

theorem Sorted.eq_of_covers {e' : Extent} (he : e ∈ extents) (he' : e' ∈ extents)
    (hn : e.Covers n) (hn' : e'.Covers n) : e = e' := by
  by_contra hne
  have hpair : extents.Pairwise fun a b => a.stop ≤ b.logicalStart ∨ b.stop ≤ a.logicalStart := h.ordered.imp .inl
  have : Std.Symm fun a b : Extent => a.stop ≤ b.logicalStart ∨ b.stop ≤ a.logicalStart := ⟨fun _ _ => Or.symm⟩
  obtain ⟨hlow, hhigh⟩ := hn
  obtain ⟨hlow', hhigh'⟩ := hn'
  rcases hpair.forall he he' hne with hle | hle <;> omega

def Apart (extents : List Extent) : Prop := extents.Pairwise fun a b => ∀ n, a.Covers n → ¬b.Covers n

theorem Sorted.apart : Apart extents := by
  apply h.ordered.imp
  intro a b hle n hn hn'
  have hhigh := hn.2
  have hlow := hn'.1
  omega

theorem Sorted.start_lt : extents.Pairwise fun a b => a.logicalStart < b.logicalStart := by
  apply h.ordered.imp_of_mem
  intro a b ha _ hle
  have hproper := h.proper a ha
  have hstop := a.stop_eq
  omega

theorem Sorted.eq_of_start_eq {e' : Extent} (he : e ∈ extents) (he' : e' ∈ extents)
    (hstart : e.logicalStart = e'.logicalStart) : e = e' :=
  h.eq_of_covers he he' ⟨le_rfl, Nat.lt_add_of_pos_right (h.proper e he)⟩
    ⟨hstart.ge, hstart ▸ Nat.lt_add_of_pos_right (h.proper e' he')⟩

theorem extentAt_eq_some : extentAt extents n = some e ↔ e ∈ extents ∧ e.Covers n := by
  rw [extentAt, Option.filter_eq_some_iff, decide_eq_true_eq]
  constructor
  · rintro ⟨hlast, hstop⟩
    have hmem := mem_of_getLast? hlast
    exact ⟨(takeWhile_sublist _).subset hmem, by simpa using mem_takeWhile_imp hmem, hstop⟩
  · rintro ⟨hmem, hstart, hstop⟩
    obtain ⟨front, back, rfl⟩ := append_of_mem hmem
    obtain ⟨-, hback, hfront⟩ := pairwise_append.mp h.ordered
    have hnone : back.takeWhile (fun e => e.logicalStart ≤ n) = [] := by
      cases back with
      | nil => rfl
      | cons next back =>
        have hle := (pairwise_cons.mp hback).1 next mem_cons_self
        exact takeWhile_cons_of_neg (by simpa using hstop.trans_le hle)
    refine ⟨?_, hstop⟩
    rw [takeWhile_append_of_pos, takeWhile_cons_of_pos (by simpa using hstart), hnone, getLast?_concat]
    intro before hbefore
    have hle := hfront before hbefore e mem_cons_self
    have hpos := before.stop_eq
    exact decide_eq_true (by omega)

theorem cellAt_eq_some : cellAt extents n = some c ↔ Gives extents n c := by
  rw [cellAt, Option.map_eq_some_iff]
  simp only [extentAt_eq_some h, Gives, and_assoc]

theorem cellAt_eq_of_gives (h' : Sorted others) {m : Nat}
    (hgives : ∀ c, Gives extents n c ↔ Gives others m c) : cellAt extents n = cellAt others m := by
  ext c
  rw [cellAt_eq_some h, cellAt_eq_some h']
  exact hgives c

end Maps

/-! ### Joining neighbours -/

variable {e : Extent}

theorem logicalEnd_eq_ok {stop : Nat} (h : e.logicalEnd = .ok stop) : stop = e.stop ∧ e.stop < 2 ^ 64 := by
  obtain ⟨hfits, h⟩ := of_refuse h
  exact ⟨pure_ok.mp h, not_le.mp hfits⟩

variable {result old rest : List Extent} {target : Nat} {previous part : Extent} {f : Extent → List Extent}
  {replacement : Option Extent} {holes : List (Nat × Nat)}

theorem continues_eq_ok {extent : Extent} {joined : Bool} (h : continues previous extent = .ok joined) :
    joined = true → previous.unwritten = extent.unwritten ∧ previous.shared = extent.shared ∧
      previous.stop = extent.logicalStart ∧ previous.physicalStart + previous.blockCount = extent.physicalStart := by
  rintro rfl
  rw [continues] at h
  split_ifs at h with hsame
  · obtain ⟨physicalEnd, hend, h⟩ := of_bind h
    replace hend := after_check hend
    obtain rfl := pure_ok.mp hend
    obtain ⟨hflags, htouch⟩ := hsame
    obtain ⟨hunwr, hshared⟩ := Prod.mk.inj hflags
    exact ⟨hunwr, hshared, htouch, of_decide_eq_true (pure_ok.mp h).symm⟩
  · cases pure_ok.mp h

structure Coalesced (extents result : List Extent) : Prop where
  sorted : Sorted result
  gives : ∀ n c, Gives result n c ↔ Gives extents n c
  blocks : blockSum result = blockSum extents

theorem coalesceInto_spec (hprev : 0 < previous.blockCount)
    (hrest : ∀ e ∈ rest, 0 < e.blockCount) (h : coalesceInto previous rest = .ok result) :
    Coalesced (previous :: rest) result ∧ ∀ e ∈ result, previous.logicalStart ≤ e.logicalStart := by
  induction rest generalizing previous result with
  | nil =>
    obtain rfl := Except.ok.inj h
    refine ⟨⟨⟨by simpa using hprev, pairwise_singleton _ _⟩, fun _ _ => Iff.rfl, rfl⟩, ?_⟩
    intro e he
    rw [mem_singleton.mp he]
  | cons extent rest ih =>
    obtain ⟨hextent, hothers⟩ := forall_mem_cons.mp hrest
    obtain ⟨previousEnd, hend, h⟩ := of_bind h
    obtain ⟨rfl, -⟩ := logicalEnd_eq_ok hend
    obtain ⟨hoverlap, h⟩ := of_refuse h
    obtain ⟨joined, hjoined, h⟩ := of_bind h
    have hstop := previous.stop_eq
    cases joined with
    | true =>
      obtain ⟨hunwr, hshared, htouch, hphys⟩ := continues_eq_ok hjoined rfl
      rw [if_pos rfl] at h
      replace h := after_check h
      obtain ⟨hspec, hlater⟩ := ih (by show 0 < previous.blockCount + extent.blockCount; omega) hothers h
      refine ⟨⟨hspec.sorted, fun n c => ?_, ?_⟩, hlater⟩
      · rw [hspec.gives, gives_cons, gives_cons, gives_cons, ← or_assoc]
        apply or_congr_left
        simp only [Extent.Covers, Extent.stop, Extent.cell] at htouch ⊢
        constructor
        · rintro ⟨⟨hlow, hhigh⟩, rfl⟩
          by_cases hn : n < previous.logicalStart + previous.blockCount
          · exact .inl ⟨⟨hlow, hn⟩, rfl⟩
          · refine .inr ⟨⟨by omega, by omega⟩, ?_⟩
            rw [Cell.mk.injEq]
            exact ⟨by omega, hunwr.symm, hshared.symm⟩
        · rintro (⟨⟨hlow, hhigh⟩, rfl⟩ | ⟨⟨hlow, hhigh⟩, rfl⟩)
          · exact ⟨⟨hlow, by omega⟩, rfl⟩
          · refine ⟨⟨by omega, by omega⟩, ?_⟩
            rw [Cell.mk.injEq]
            exact ⟨by omega, hunwr, hshared⟩
      · rw [hspec.blocks]
        simp only [blockSum, map_cons, sum_cons]
        omega
    | false =>
      rw [if_neg (by simp)] at h
      obtain ⟨others, hmore, h⟩ := of_bind h
      obtain rfl := pure_ok.mp h
      obtain ⟨hspec, hlater⟩ := ih hextent hothers hmore
      have hbehind : ∀ e ∈ others, previous.stop ≤ e.logicalStart := by
        intro e he
        have := hlater e he
        omega
      refine ⟨⟨⟨?_, pairwise_cons.mpr ⟨hbehind, hspec.sorted.ordered⟩⟩, fun n c => ?_, ?_⟩, ?_⟩
      · exact forall_mem_cons.mpr ⟨hprev, hspec.sorted.proper⟩
      · rw [gives_cons, hspec.gives, ← gives_cons]
      · have hblks := hspec.blocks
        simp only [blockSum, map_cons, sum_cons] at hblks ⊢
        omega
      · refine forall_mem_cons.mpr ⟨le_rfl, fun e he => ?_⟩
        have := hbehind e he
        omega

theorem coalesceExtents_spec {extents : List Extent} (hproper : ∀ e ∈ extents, 0 < e.blockCount)
    (h : coalesceExtents extents = .ok result) : Coalesced extents result := by
  rw [coalesceExtents] at h
  have hperm := perm_insertionSort (fun a b : Extent => a.logicalStart ≤ b.logicalStart) extents
  generalize extents.insertionSort (fun a b => a.logicalStart ≤ b.logicalStart) = sorted at h hperm
  have hblks : blockSum sorted = blockSum extents := (hperm.map _).sum_nat
  cases sorted with
  | nil =>
    obtain rfl := Except.ok.inj h
    exact ⟨sorted_nil, fun _ _ => gives_perm hperm, hblks⟩
  | cons first rest =>
    have hproper' : ∀ e ∈ first :: rest, 0 < e.blockCount := fun e he => hproper e (hperm.mem_iff.mp he)
    obtain ⟨hfirst, hrest⟩ := forall_mem_cons.mp hproper'
    obtain ⟨hspec, -⟩ := coalesceInto_spec hfirst hrest h
    exact ⟨hspec.sorted, fun n c => (hspec.gives n c).trans (gives_perm hperm), hspec.blocks.trans hblks⟩

variable {low high n : Nat}

theorem covers_slice : (e.slice low high).Covers n ↔ low ≤ n ∧ n < high := by
  simp only [Extent.Covers, Extent.stop, Extent.slice]
  omega

theorem cell_slice {low n : Nat} (high : Nat) (hlow : e.logicalStart ≤ low) (hn : low ≤ n) :
    (e.slice low high).cell n = e.cell n := by
  simp only [Extent.cell, Extent.slice, Cell.mk.injEq, and_self, and_true]
  omega

variable {c : Cell}

theorem gives_slice (hlow : e.logicalStart ≤ low) :
    (e.slice low high).Covers n ∧ (e.slice low high).cell n = c ↔ (low ≤ n ∧ n < high) ∧ e.cell n = c := by
  rw [covers_slice]
  constructor
  · rintro ⟨hn, hc⟩
    exact ⟨hn, (cell_slice high hlow hn.1).symm.trans hc⟩
  · rintro ⟨hn, hc⟩
    exact ⟨hn, (cell_slice high hlow hn.1).trans hc⟩

theorem gives_slice_share (hlow : e.logicalStart ≤ low) :
    ({ e.slice low high with shared := true } : Extent).Covers n ∧
      ({ e.slice low high with shared := true } : Extent).cell n = c ↔
      (low ≤ n ∧ n < high) ∧ (e.cell n).share = c := by
  show (e.slice low high).Covers n ∧ ((e.slice low high).cell n).share = c ↔ _
  rw [covers_slice]
  constructor
  · rintro ⟨hn, hc⟩
    exact ⟨hn, by rwa [cell_slice high hlow hn.1] at hc⟩
  · rintro ⟨hn, hc⟩
    exact ⟨hn, by rwa [cell_slice high hlow hn.1]⟩

theorem gives_if {p : Prop} [Decidable p] {n : Nat} :
    Gives (if p then [e] else []) n c ↔ p ∧ e.Covers n ∧ e.cell n = c := by
  by_cases hp : p
  · rw [if_pos hp, gives_singleton]
    simp [hp]
  · rw [if_neg hp]
    simp [hp, gives_nil]

variable {start stop : Nat}

theorem gives_outside {n : Nat} :
    Gives (outside start stop e) n c ↔ (e.Covers n ∧ e.cell n = c) ∧ ¬(start ≤ n ∧ n < stop) := by
  have hstop := e.stop_eq
  have hcov : e.Covers n ↔ e.logicalStart ≤ n ∧ n < e.stop := Iff.rfl
  by_cases hapart : e.stop ≤ start ∨ stop ≤ e.logicalStart
  · rw [outside, if_pos hapart, gives_singleton, hcov]
    constructor
    · rintro ⟨hn, hc⟩
      exact ⟨⟨hn, hc⟩, by omega⟩
    · exact fun h => h.1
  · rw [outside, if_neg hapart, gives_append, gives_if, gives_if, gives_slice le_rfl, gives_slice (by omega), hcov]
    constructor
    · rintro (⟨-, hn, hc⟩ | ⟨-, hn, hc⟩)
      · exact ⟨⟨by omega, hc⟩, by omega⟩
      · exact ⟨⟨by omega, hc⟩, by omega⟩
    · rintro ⟨⟨hn, hc⟩, hout⟩
      by_cases hleft : n < start
      · exact .inl ⟨by omega, by omega, hc⟩
      · exact .inr ⟨by omega, by omega, hc⟩

theorem gives_inside {n : Nat} :
    Gives (inside start stop e) n c ↔ (e.Covers n ∧ e.cell n = c) ∧ start ≤ n ∧ n < stop := by
  have hstop := e.stop_eq
  have hcov : e.Covers n ↔ e.logicalStart ≤ n ∧ n < e.stop := Iff.rfl
  rw [inside]
  split_ifs with hapart
  · rw [hcov]
    constructor
    · exact fun h => absurd h gives_nil
    · rintro ⟨⟨hn, -⟩, hin⟩
      omega
  · rw [gives_singleton, gives_slice (by omega), hcov]
    constructor
    · rintro ⟨hn, hc⟩
      exact ⟨⟨by omega, hc⟩, by omega⟩
    · rintro ⟨⟨hn, hc⟩, hin⟩
      exact ⟨by omega, hc⟩

theorem blockSum_append (a b : List Extent) : blockSum (a ++ b) = blockSum a + blockSum b := by
  simp [blockSum]

theorem blockSum_pieces (hrng : start < stop) (e : Extent) :
    blockSum (outside start stop e) + blockSum (inside start stop e) = e.blockCount := by
  have hstop := e.stop_eq
  rw [outside, inside]
  split_ifs with hapart hleft hright hright <;>
    simp only [blockSum, map_cons, map_nil, map_append, sum_cons, sum_nil, sum_append, Extent.slice] <;>
    omega

theorem blockSum_flatMap_pieces (hrng : start < stop) (extents : List Extent) :
    blockSum (extents.flatMap (outside start stop)) + blockSum (extents.flatMap (inside start stop)) =
      blockSum extents := by
  induction extents with
  | nil => rfl
  | cons e rest ih =>
    have hpieces := blockSum_pieces hrng e
    have hcons : blockSum (e :: rest) = e.blockCount + blockSum rest := by
      simp [blockSum]
    rw [flatMap_cons, flatMap_cons, blockSum_append, blockSum_append, hcons]
    omega

variable {extents : List Extent}

/-- A part of an extent: no block and no cell behind its end. -/
structure Part (e part : Extent) : Prop where
  proper : 0 < part.blockCount
  start_le : e.logicalStart ≤ part.logicalStart
  stop_le : part.stop ≤ e.stop
  physical_le : part.physicalStart + part.blockCount ≤ e.physicalStart + e.blockCount

theorem sorted_flatMap (h : Sorted extents) (hparts : ∀ e, 0 < e.blockCount → ∀ part ∈ f e, Part e part)
    (hord : ∀ e, (f e).Pairwise fun a b => a.stop ≤ b.logicalStart) : Sorted (extents.flatMap f) := by
  induction extents with
  | nil => exact sorted_nil
  | cons e rest ih =>
    obtain ⟨hfirst, -⟩ := pairwise_cons.mp h.ordered
    have he := hparts e (h.proper e mem_cons_self)
    have hrest := ih h.tail
    rw [flatMap_cons]
    refine ⟨?_, pairwise_append.mpr ⟨hord e, hrest.ordered, ?_⟩⟩
    · intro part hpart
      rcases mem_append.mp hpart with hpart | hpart
      · exact (he part hpart).proper
      · exact hrest.proper part hpart
    · intro part hpart other hoth
      obtain ⟨e', he', hoth⟩ := mem_flatMap.mp hoth
      have := (he part hpart).stop_le
      have := (hparts e' (h.tail.proper e' he') other hoth).start_le
      have := hfirst e' he'
      omega

theorem part_slice (hlow : e.logicalStart ≤ low) (hlt : low < high) (hhigh : high ≤ e.stop) :
    Part e (e.slice low high) := by
  have hstop := e.stop_eq
  constructor <;> simp only [Extent.slice, Extent.stop] at * <;> omega

theorem part_outside (he : 0 < e.blockCount) (hpart : part ∈ outside start stop e) : Part e part := by
  have hstop := e.stop_eq
  rw [outside] at hpart
  split_ifs at hpart with hapart hleft hright hright <;>
    simp only [mem_singleton, mem_append, not_mem_nil, append_nil, nil_append] at hpart
  · rw [hpart]
    exact ⟨he, le_rfl, le_rfl, le_rfl⟩
  · rcases hpart with rfl | rfl <;> exact part_slice (by omega) (by omega) (by omega)
  · exact hpart ▸ part_slice (by omega) (by omega) (by omega)
  · exact hpart ▸ part_slice (by omega) (by omega) (by omega)

theorem part_inside (hrng : start < stop) (he : 0 < e.blockCount)
    (hpart : part ∈ inside start stop e) : Part e part ∧ start ≤ part.logicalStart ∧ part.stop ≤ stop := by
  have hstop := e.stop_eq
  rw [inside] at hpart
  split_ifs at hpart with hapart
  · cases hpart
  · obtain rfl := mem_singleton.mp hpart
    refine ⟨part_slice (by omega) (by omega) (by omega), ?_⟩
    simp only [Extent.slice, Extent.stop] at *
    omega

theorem sorted_outside (h : Sorted extents) (start stop : Nat) (hrng : start < stop) :
    Sorted (extents.flatMap (outside start stop)) := by
  refine sorted_flatMap h (fun _ he _ => part_outside he) fun e => ?_
  have hstop := e.stop_eq
  rw [outside]
  split_ifs <;> simp [Extent.slice, Extent.stop]
  omega

theorem sorted_inside (h : Sorted extents) (start stop : Nat) (hrng : start < stop) :
    Sorted (extents.flatMap (inside start stop)) := by
  refine sorted_flatMap h (fun _ he _ hpart => (part_inside hrng he hpart).1) fun e => ?_
  rw [inside]
  split_ifs <;> simp

/-- The list with a range exchanged, and what was in the range. -/
structure Replaced (old : List Extent) (start stop : Nat) (added new removed : List Extent) : Prop where
  sorted : Sorted new
  gives : ∀ n c, Gives new n c ↔ (Gives old n c ∧ ¬(start ≤ n ∧ n < stop)) ∨ Gives added n c
  removed_sorted : Sorted removed
  removed_gives : ∀ n c, Gives removed n c ↔ Gives old n c ∧ start ≤ n ∧ n < stop
  blocks : blockSum new + blockSum removed = blockSum old + blockSum added

theorem Replaced.kept_gives {old new removed : List Extent} (h : Replaced old start stop [] new removed) (n : Nat)
    (c : Cell) : Gives new n c ↔ Gives old n c ∧ ¬(start ≤ n ∧ n < stop) := by
  rw [h.gives]
  simp [gives_nil]

theorem gives_pieces {n : Nat} :
    (Gives (extents.flatMap (outside start stop)) n c ↔ Gives extents n c ∧ ¬(start ≤ n ∧ n < stop)) ∧
      (Gives (extents.flatMap (inside start stop)) n c ↔ Gives extents n c ∧ start ≤ n ∧ n < stop) := by
  constructor
  · rw [gives_flatMap]
    simp only [gives_outside]
    constructor
    · rintro ⟨e, he, hgives, hout⟩
      exact ⟨⟨e, he, hgives⟩, hout⟩
    · rintro ⟨⟨e, he, hgives⟩, hout⟩
      exact ⟨e, he, hgives, hout⟩
  · rw [gives_flatMap]
    simp only [gives_inside]
    constructor
    · rintro ⟨e, he, hgives, hin⟩
      exact ⟨⟨e, he, hgives⟩, hin⟩
    · rintro ⟨⟨e, he, hgives⟩, hin⟩
      exact ⟨e, he, hgives, hin⟩

theorem replaced_of_coalesce {added new : List Extent} (hold : Sorted old)
    (hrng : start < stop) (hadded : ∀ e ∈ added, 0 < e.blockCount)
    (h : coalesceExtents (old.flatMap (outside start stop) ++ added) = .ok new) :
    Replaced old start stop added new (old.flatMap (inside start stop)) := by
  have hproper : ∀ e ∈ old.flatMap (outside start stop) ++ added, 0 < e.blockCount := by
    intro part hpart
    rcases mem_append.mp hpart with hpart | hpart
    · exact (sorted_outside hold start stop hrng).proper part hpart
    · exact hadded part hpart
  have hspec := coalesceExtents_spec hproper h
  refine ⟨hspec.sorted, fun n c => ?_, sorted_inside hold start stop hrng, fun n c => gives_pieces.2, ?_⟩
  · rw [hspec.gives, gives_append, gives_pieces.1]
  · have hblks := blockSum_flatMap_pieces hrng old
    rw [hspec.blocks, blockSum_append]
    omega

theorem replaceLogicalRange_spec {new removed : List Extent}
    (hold : Sorted old) (hreplacement : ∀ e ∈ replacement, 0 < e.blockCount)
    (h : replaceLogicalRange old start stop replacement = .ok (new, removed)) :
    Replaced old start stop replacement.toList new removed := by
  obtain ⟨hrng, h⟩ := of_refuse h
  replace h := after_check h
  replace h := after_check h
  obtain ⟨extents, hexts, h⟩ := of_bind h
  obtain ⟨rfl, rfl⟩ := pure_pair_eq_ok.mp h
  refine replaced_of_coalesce hold (not_le.mp hrng) ?_ hexts
  intro e he
  exact hreplacement e (by simpa using he)

/-! ### Marking and moving a range -/

def markedCell (start stop n : Nat) (c : Cell) : Cell := if start ≤ n ∧ n < stop then c.share else c

theorem gives_marked {n : Nat} :
    Gives (marked start stop e) n c ↔ e.Covers n ∧ markedCell start stop n (e.cell n) = c := by
  have hstop := e.stop_eq
  have hcov : e.Covers n ↔ e.logicalStart ≤ n ∧ n < e.stop := Iff.rfl
  rw [markedCell]
  by_cases hapart : e.stop ≤ start ∨ stop ≤ e.logicalStart
  · rw [marked, if_pos hapart, gives_singleton, hcov]
    constructor
    · rintro ⟨hn, hc⟩
      exact ⟨hn, by rwa [if_neg (by omega)]⟩
    · rintro ⟨hn, hc⟩
      exact ⟨hn, by rwa [if_neg (by omega)] at hc⟩
  · rw [marked, if_neg hapart, gives_append, gives_cons, gives_if, gives_if, gives_slice le_rfl,
      gives_slice (by omega), gives_slice_share (by omega), hcov]
    constructor
    · rintro (⟨-, hn, hc⟩ | ⟨hn, hc⟩ | ⟨-, hn, hc⟩)
      · exact ⟨by omega, by rwa [if_neg (by omega)]⟩
      · exact ⟨by omega, by rwa [if_pos (by omega)]⟩
      · exact ⟨by omega, by rwa [if_neg (by omega)]⟩
    · rintro ⟨hn, hc⟩
      split_ifs at hc with hin
      · exact .inr (.inl ⟨by omega, hc⟩)
      · by_cases hleft : n < start
        · exact .inl ⟨by omega, by omega, hc⟩
        · exact .inr (.inr ⟨by omega, by omega, hc⟩)

theorem part_marked (hrng : start < stop) (he : 0 < e.blockCount)
    (hpart : part ∈ marked start stop e) : Part e part := by
  have hstop := e.stop_eq
  rw [marked] at hpart
  split_ifs at hpart with hapart hleft hright hright <;>
    simp only [mem_append, mem_cons, not_mem_nil, or_false, false_or] at hpart
  · rw [hpart]
    exact ⟨he, le_rfl, le_rfl, le_rfl⟩
  all_goals
    obtain ⟨hproper, hstart, hend, hphys⟩ : Part e (e.slice (max e.logicalStart start) (min e.stop stop)) :=
      part_slice (by omega) (by omega) (by omega)
  · rcases hpart with rfl | rfl | rfl
    · exact part_slice (by omega) (by omega) (by omega)
    · exact ⟨hproper, hstart, hend, hphys⟩
    · exact part_slice (by omega) (by omega) (by omega)
  · rcases hpart with rfl | rfl
    · exact part_slice (by omega) (by omega) (by omega)
    · exact ⟨hproper, hstart, hend, hphys⟩
  · rcases hpart with rfl | rfl
    · exact ⟨hproper, hstart, hend, hphys⟩
    · exact part_slice (by omega) (by omega) (by omega)
  · exact hpart ▸ ⟨hproper, hstart, hend, hphys⟩

theorem sorted_marked (h : Sorted extents) (start stop : Nat) (hrng : start < stop) :
    Sorted (extents.flatMap (marked start stop)) := by
  refine sorted_flatMap h (fun _ he _ => part_marked hrng he) fun e => ?_
  have hstop := e.stop_eq
  rw [marked]
  split_ifs <;> simp [Extent.slice, Extent.stop] <;> omega

theorem markLogicalRangeShared_spec {extents : List Extent} (hsort : Sorted extents)
    (h : markLogicalRangeShared extents start stop = .ok result) :
    Sorted result ∧ ∀ n c, Gives result n c ↔ ∃ c₀, Gives extents n c₀ ∧ markedCell start stop n c₀ = c := by
  rw [markLogicalRangeShared] at h
  split_ifs at h with hempty
  · obtain rfl := Except.ok.inj h
    refine ⟨hsort, fun n c => ?_⟩
    have hnot : ∀ c₀, markedCell start stop n c₀ = c₀ := fun c₀ => if_neg (by omega)
    simp only [hnot, exists_eq_right]
  · replace h := after_check h
    have hspec := coalesceExtents_spec (sorted_marked hsort start stop (not_le.mp hempty)).proper h
    refine ⟨hspec.sorted, fun n c => ?_⟩
    rw [hspec.gives, gives_flatMap]
    simp only [gives_marked]
    constructor
    · rintro ⟨e, he, hn, hc⟩
      exact ⟨_, ⟨e, he, hn, rfl⟩, hc⟩
    · rintro ⟨_, ⟨e, he, hn, rfl⟩, hc⟩
      exact ⟨e, he, hn, hc⟩

theorem gives_remapped {start stop : Nat} {m : Nat} :
    Gives (remapped start stop target e) m c ↔
      ∃ n, (start ≤ n ∧ n < stop) ∧ m = target + (n - start) ∧ e.Covers n ∧ (e.cell n).share = c := by
  have hstop := e.stop_eq
  rw [remapped, inside]
  by_cases hapart : e.stop ≤ start ∨ stop ≤ e.logicalStart
  · rw [if_pos hapart]
    constructor
    · exact fun h => absurd h gives_nil
    · rintro ⟨n, hn, -, hcov, -⟩
      obtain ⟨hlow, hhigh⟩ := hcov
      omega
  · rw [if_neg hapart, map_singleton, gives_singleton]
    simp only [Extent.Covers, Extent.stop, Extent.cell, Extent.slice, Cell.share] at hapart ⊢
    constructor
    · rintro ⟨hm, hc⟩
      refine ⟨m - target + start, by omega, by omega, by omega, ?_⟩
      rw [← hc, Cell.mk.injEq]
      exact ⟨by omega, rfl, rfl⟩
    · rintro ⟨n, hn, rfl, hcov, hc⟩
      refine ⟨by omega, ?_⟩
      rw [← hc, Cell.mk.injEq]
      exact ⟨by omega, rfl, rfl⟩

theorem remapped_of_apart {start stop : Nat} (h : e.stop ≤ start ∨ stop ≤ e.logicalStart) (target : Nat) :
    remapped start stop target e = [] := by
  rw [remapped, inside, if_pos h, map_nil]

theorem remapParts_eq_ok {extents parts : List Extent} {start stop : Nat} (hsort : Sorted extents)
    (h : remapParts start stop target extents = .ok parts) : parts = extents.flatMap (remapped start stop target) := by
  induction extents generalizing parts with
  | nil => exact (Except.ok.inj h).symm
  | cons e rest ih =>
    obtain ⟨extentEnd, hend, h⟩ := of_bind h
    obtain ⟨rfl, -⟩ := logicalEnd_eq_ok hend
    rw [flatMap_cons]
    split_ifs at h with hpast hbehind
    · rw [remapped_of_apart (.inl hpast), nil_append]
      exact ih hsort.tail h
    · -- The walk has passed the range, and so have the extents behind.
      rw [remapped_of_apart (.inr hbehind), nil_append, pure_ok.mp h, eq_comm, flatMap_eq_nil_iff]
      intro other hoth
      have hlater := (pairwise_cons.mp hsort.start_lt).1 other hoth
      exact remapped_of_apart (.inr (by omega)) target
    · obtain ⟨others, hothers, h⟩ := of_bind (after_check (after_check h))
      rw [pure_ok.mp h, ih hsort.tail hothers]

theorem sorted_remapped {extents : List Extent} {start stop : Nat} (h : Sorted extents) (hrng : start < stop)
    (target : Nat) : Sorted (extents.flatMap (remapped start stop target)) := by
  have hinside := sorted_inside h start stop hrng
  have hmap : extents.flatMap (remapped start stop target) = (extents.flatMap (inside start stop)).map fun part =>
      { part with logicalStart := target + (part.logicalStart - start), shared := true } := by
    rw [map_flatMap]
    rfl
  rw [hmap]
  refine ⟨?_, pairwise_map.mpr ?_⟩
  · rintro moved hmoved
    obtain ⟨part, hpart, rfl⟩ := mem_map.mp hmoved
    exact hinside.proper part hpart
  · apply hinside.ordered.imp_of_mem
    intro a b ha _ hle
    obtain ⟨e, he, ha⟩ := mem_flatMap.mp ha
    obtain ⟨-, hstart, -⟩ := part_inside hrng (h.proper e he) ha
    simp only [Extent.stop] at hle ⊢
    omega

theorem remapExtentRange_spec {extents : List Extent} {start stop : Nat} (hsort : Sorted extents)
    (h : remapExtentRange extents start stop target = .ok result) :
    Sorted result ∧ ∀ m c, Gives result m c ↔
      ∃ n, (start ≤ n ∧ n < stop) ∧ m = target + (n - start) ∧ ∃ c₀, Gives extents n c₀ ∧ c₀.share = c := by
  rw [remapExtentRange] at h
  split_ifs at h with hempty
  · obtain rfl := Except.ok.inj h
    refine ⟨sorted_nil, fun m c => ?_⟩
    constructor
    · exact fun h => absurd h gives_nil
    · rintro ⟨n, hn, -⟩
      omega
  · obtain ⟨parts, hparts, h⟩ := of_bind h
    rw [remapParts_eq_ok hsort hparts] at h
    have hspec := coalesceExtents_spec (sorted_remapped hsort (not_le.mp hempty) target).proper h
    refine ⟨hspec.sorted, fun m c => ?_⟩
    rw [hspec.gives, gives_flatMap]
    simp only [gives_remapped]
    constructor
    · rintro ⟨e, he, n, hn, hm, hcov, hc⟩
      exact ⟨n, hn, hm, _, ⟨e, he, hcov, rfl⟩, hc⟩
    · rintro ⟨n, hn, hm, _, ⟨e, he, hcov, rfl⟩, hc⟩
      exact ⟨e, he, n, hn, hm, hcov, hc⟩

/-! ### Gaps -/

theorem mem_gap :
    (∃ hole ∈ if low < high then [(low, high)] else [], hole.1 ≤ n ∧ n < hole.2) ↔ low ≤ n ∧ n < high := by
  by_cases hlt : low < high
  · rw [if_pos hlt]
    simp
  · rw [if_neg hlt]
    simp only [not_mem_nil, false_and, exists_false, false_iff]
    omega

theorem holesFrom_spec {stop cursor : Nat} (hsort : Sorted extents)
    (h : holesFrom stop cursor extents = .ok holes) (n : Nat) :
    (∃ hole ∈ holes, hole.1 ≤ n ∧ n < hole.2) ↔ (cursor ≤ n ∧ n < stop) ∧ ∀ e ∈ extents, ¬e.Covers n := by
  induction extents generalizing cursor holes with
  | nil =>
    obtain rfl := Except.ok.inj h
    rw [mem_gap]
    simp
  | cons e rest ih =>
    obtain ⟨hfirst, -⟩ := pairwise_cons.mp hsort.ordered
    have hproper := hsort.proper e mem_cons_self
    obtain ⟨extentEnd, hend, h⟩ := of_bind h
    obtain ⟨rfl, -⟩ := logicalEnd_eq_ok hend
    have hstop := e.stop_eq
    have hcov : e.Covers n ↔ e.logicalStart ≤ n ∧ n < e.stop := Iff.rfl
    have hlater : n < e.stop → ∀ other ∈ rest, ¬other.Covers n := by
      intro hn other hoth hcov
      have := (hfirst other hoth).trans hcov.1
      omega
    rw [forall_mem_cons, hcov]
    by_cases hpast : e.stop ≤ cursor
    · rw [if_pos hpast] at h
      rw [ih hsort.tail h]
      constructor
      · rintro ⟨hn, hrest⟩
        exact ⟨hn, by omega, hrest⟩
      · rintro ⟨hn, -, hrest⟩
        exact ⟨hn, hrest⟩
    rw [if_neg hpast] at h
    by_cases hbehind : e.logicalStart ≥ stop
    · rw [if_pos hbehind] at h
      obtain rfl := pure_ok.mp h
      rw [mem_gap]
      constructor
      · exact fun hn => ⟨hn, by omega, hlater (by omega)⟩
      · exact fun hn => hn.1
    rw [if_neg hbehind] at h
    have hgap : (∃ hole ∈ if e.logicalStart > cursor then [(cursor, min e.logicalStart stop)] else [],
        hole.1 ≤ n ∧ n < hole.2) ↔ cursor ≤ n ∧ n < e.logicalStart := by
      rw [min_eq_left (by omega)]
      exact mem_gap
    by_cases hlast : max cursor (min e.stop stop) = stop
    · rw [if_pos hlast] at h
      obtain rfl := pure_ok.mp h
      rw [hgap]
      constructor
      · exact fun hn => ⟨by omega, by omega, hlater (by omega)⟩
      · rintro ⟨hn, hnot, -⟩
        omega
    · rw [if_neg hlast] at h
      obtain ⟨others, hothers, h⟩ := of_bind h
      obtain rfl := pure_ok.mp h
      simp only [mem_append, or_and_right, exists_or]
      rw [hgap, ih hsort.tail hothers]
      constructor
      · rintro (hn | ⟨hn, hrest⟩)
        · exact ⟨by omega, by omega, hlater (by omega)⟩
        · exact ⟨by omega, by omega, hrest⟩
      · rintro ⟨hn, hnot, hrest⟩
        by_cases hbefore : n < e.logicalStart
        · exact .inl ⟨hn.1, hbefore⟩
        · exact .inr ⟨by omega, hrest⟩

theorem logicalHoles_spec (hsort : Sorted extents) (h : logicalHoles extents start stop = .ok holes) (n : Nat) :
    (∃ hole ∈ holes, hole.1 ≤ n ∧ n < hole.2) ↔ (start ≤ n ∧ n < stop) ∧ cellAt extents n = none := by
  rw [holesFrom_spec hsort h, Option.eq_none_iff_forall_ne_some]
  simp only [ne_eq, cellAt_eq_some hsort, Gives, not_exists, not_and]
  constructor
  · exact fun hn => ⟨hn.1, fun c e he hcov _ => hn.2 e he hcov⟩
  · exact fun hn => ⟨hn.1, fun e he hcov => hn.2 _ e he hcov rfl⟩

def Addressable (extents : List Extent) : Prop :=
  ∀ e ∈ extents, e.stop < 2 ^ 64 ∧ e.physicalStart + e.blockCount < 2 ^ 64

theorem slice_wrapping {low : Nat} (hlow : e.logicalStart ≤ low) (hstop : low ≤ e.stop) (hend : e.stop < 2 ^ 64)
    (hfits : e.physicalStart + e.blockCount < 2 ^ 64) (high : Nat) :
    (e.slice low high).physicalStart = ((e.physicalStart + low) % 2 ^ 64 + (2 ^ 64 - e.logicalStart)) % 2 ^ 64 := by
  simp only [Extent.slice, Extent.stop] at *
  omega

theorem logicalEnd_of (h : e.stop < 2 ^ 64) : e.logicalEnd = .ok e.stop := refuseIf_bind (not_le.mpr h) _ _

theorem addressable_flatMap (h : Addressable extents)
    (hparts : ∀ e ∈ extents, ∀ part ∈ f e, Part e part) : Addressable (extents.flatMap f) := by
  intro part hpart
  obtain ⟨e, he, hpart⟩ := mem_flatMap.mp hpart
  obtain ⟨hlogical, hphys⟩ := h e he
  have hpart := hparts e he part hpart
  exact ⟨hpart.stop_le.trans_lt hlogical, hpart.physical_le.trans_lt hphys⟩

theorem continues_of (h : previous.physicalStart + previous.blockCount < 2 ^ 64)
    (extent : Extent) : ∃ joined, continues previous extent = .ok joined := by
  rw [continues]
  split_ifs
  · exact ⟨_, by rw [Extent.physicalEnd, refuseIf_bind (not_le.mpr h)]; rfl⟩
  · exact ⟨false, rfl⟩

theorem coalesceInto_of (hord : (previous :: rest).Pairwise fun a b => a.stop ≤ b.logicalStart)
    (hfits : Addressable (previous :: rest)) : ∃ result, coalesceInto previous rest = .ok result := by
  induction rest generalizing previous with
  | nil => exact ⟨_, rfl⟩
  | cons extent rest ih =>
    obtain ⟨hfirst, hrest⟩ := pairwise_cons.mp hord
    obtain ⟨hprev, hothers⟩ := forall_mem_cons.mp hfits
    obtain ⟨joined, hjoined⟩ := continues_of hprev.2 extent
    have hnext := hfirst extent mem_cons_self
    rw [coalesceInto, logicalEnd_of hprev.1, ok_bind, refuseIf_bind (not_lt.mpr hnext), hjoined, ok_bind]
    cases joined with
    | true =>
      obtain ⟨-, -, htouch, hphys⟩ := continues_eq_ok hjoined rfl
      have hextent := hothers extent mem_cons_self
      simp only [Extent.stop] at htouch hextent
      rw [if_pos rfl, refuseIf_bind (by omega)]
      -- The joined extent ends where its second half does.
      apply ih
      · refine pairwise_cons.mpr ⟨fun other hoth => ?_, (pairwise_cons.mp hrest).2⟩
        have := (pairwise_cons.mp hrest).1 other hoth
        simp only [Extent.stop] at this ⊢
        omega
      · refine forall_mem_cons.mpr ⟨?_, fun other hoth => hothers other (mem_cons_of_mem _ hoth)⟩
        simp only [Extent.stop]
        omega
    | false =>
      obtain ⟨others, hmore⟩ := ih hrest hothers
      exact ⟨previous :: others, by rw [if_neg (by simp), hmore]; rfl⟩

theorem coalesceExtents_of {extents : List Extent} (hproper : ∀ e ∈ extents, 0 < e.blockCount)
    (hapart : Apart extents) (hfits : Addressable extents) :
    ∃ result, coalesceExtents extents = .ok result ∧ Coalesced extents result := by
  have hperm := perm_insertionSort (fun a b : Extent => a.logicalStart ≤ b.logicalStart) extents
  have hsort := pairwise_insertionSort (fun a b : Extent => a.logicalStart ≤ b.logicalStart) extents
  have hok : ∃ result, coalesceExtents extents = .ok result := by
    rw [coalesceExtents]
    generalize extents.insertionSort (fun a b => a.logicalStart ≤ b.logicalStart) = sorted at hperm hsort
    have hapart' : Apart sorted := (hperm.pairwise_iff fun hab n hb ha => hab n ha hb).mpr hapart
    have hord : sorted.Pairwise fun a b => a.stop ≤ b.logicalStart := by
      apply (hsort.and hapart').imp_of_mem
      rintro a b - hb ⟨hle, hab⟩
      by_contra hlt
      have := hproper b (hperm.mem_iff.mp hb)
      exact hab b.logicalStart ⟨hle, by omega⟩ ⟨le_rfl, by rw [Extent.stop]; omega⟩
    cases sorted with
    | nil => exact ⟨[], rfl⟩
    | cons first rest => exact coalesceInto_of hord fun e he => hfits e (hperm.mem_iff.mp he)
  obtain ⟨result, hok⟩ := hok
  exact ⟨result, hok, coalesceExtents_spec hproper hok⟩

theorem forM_of {f : Extent → Except CoreError Unit} (h : ∀ e ∈ extents, f e = .ok ()) : extents.forM f = .ok () := by
  induction extents with
  | nil => rfl
  | cons e rest ih =>
    obtain ⟨he, hrest⟩ := forall_mem_cons.mp h
    show (f e >>= fun _ => rest.forM f) = .ok ()
    rw [he, ok_bind]
    exact ih hrest

theorem replaceLogicalRange_of (hold : Sorted old)
    (hfits : Addressable old) (hrng : start < stop) (hadded : Addressable replacement.toList)
    (hcov : ∀ e ∈ replacement, e.logicalStart = start ∧ e.stop = stop) :
    ∃ new removed, replaceLogicalRange old start stop replacement = .ok (new, removed) ∧
      Replaced old start stop replacement.toList new removed := by
  have hproper : ∀ e ∈ replacement.toList, 0 < e.blockCount := by
    intro e he
    obtain ⟨rfl, rfl⟩ := hcov e (by simpa using he)
    exact Nat.lt_add_right_iff_pos.mp hrng
  have hends : checkEnds old = .ok () := by
    apply forM_of
    intro e he
    rw [logicalEnd_of (hfits e he).1]
    rfl
  have hcheck : checkReplacement start stop replacement = .ok () := by
    cases replacement with
    | none => rfl
    | some e =>
      obtain ⟨hstart, hstop⟩ := hcov e rfl
      rw [checkReplacement, logicalEnd_of (hadded e (by simp)).1, ok_bind]
      exact refuseIf_eq_ok.mpr (by simp [hstart, hstop])
  have houtside := sorted_outside hold start stop hrng
  have hapart : Apart (old.flatMap (outside start stop) ++ replacement.toList) := by
    refine pairwise_append.mpr ⟨houtside.apart, ?_, ?_⟩
    · cases replacement <;> simp
    · intro part hpart e he n hn hn'
      obtain ⟨rfl, rfl⟩ := hcov e (by simpa using he)
      exact (gives_pieces.1.mp ⟨part, hpart, hn, rfl⟩).2 hn'
  have hparts : Addressable (old.flatMap (outside start stop) ++ replacement.toList) := by
    refine forall_mem_append.mpr ⟨?_, hadded⟩
    exact addressable_flatMap hfits fun e he _ => part_outside (hold.proper e he)
  obtain ⟨new, hnew, -⟩ := coalesceExtents_of (forall_mem_append.mpr ⟨houtside.proper, hproper⟩) hapart hparts
  refine ⟨new, old.flatMap (inside start stop), ?_, replaced_of_coalesce hold hrng hproper hnew⟩
  rw [replaceLogicalRange, refuseIf_bind (not_le.mpr hrng), hends, ok_bind, hcheck, ok_bind, hnew]
  rfl

theorem checkCut_of (h : e.stop < 2 ^ 64 ∧ e.physicalStart + e.blockCount < 2 ^ 64) (start stop : Nat) :
    checkCut start stop e = .ok () := by
  obtain ⟨hlogical, hphys⟩ := h
  have hstop := e.stop_eq
  rw [checkCut, logicalEnd_of hlogical, ok_bind]
  split_ifs with hapart
  · rfl
  · rw [refuseIf_bind (by omega)]
    exact refuseIf_eq_ok.mpr (by omega)

theorem markLogicalRangeShared_of (hsort : Sorted extents) (hfits : Addressable extents) (start stop : Nat) :
    ∃ result, markLogicalRangeShared extents start stop = .ok result := by
  rw [markLogicalRangeShared]
  split_ifs with hempty
  · exact ⟨_, rfl⟩
  have hrng := not_le.mp hempty
  have hmarked := sorted_marked hsort start stop hrng
  rw [forM_of fun e he => checkCut_of (hfits e he) start stop, ok_bind]
  obtain ⟨result, hresult, -⟩ := coalesceExtents_of hmarked.proper hmarked.apart
    (addressable_flatMap hfits fun e he _ => part_marked hrng (hsort.proper e he))
  exact ⟨result, hresult⟩

theorem remapParts_of (hsort : Sorted extents) (hfits : Addressable extents)
    (htarget : target + (stop - start) < 2 ^ 64) : ∃ parts, remapParts start stop target extents = .ok parts := by
  induction extents with
  | nil => exact ⟨[], rfl⟩
  | cons e rest ih =>
    obtain ⟨he, hrest⟩ := forall_mem_cons.mp hfits
    obtain ⟨others, hothers⟩ := ih hsort.tail hrest
    have hstop := e.stop_eq
    rw [remapParts, logicalEnd_of he.1, ok_bind]
    split_ifs with hpast hbehind
    · exact ⟨others, hothers⟩
    · exact ⟨[], rfl⟩
    · rw [refuseIf_bind (by omega), refuseIf_bind (by omega), hothers]
      exact ⟨_, rfl⟩

theorem remapExtentRange_of (hsort : Sorted extents) (hfits : Addressable extents)
    (htarget : target + (stop - start) < 2 ^ 64) :
    ∃ result, remapExtentRange extents start stop target = .ok result := by
  rw [remapExtentRange]
  split_ifs with hempty
  · exact ⟨_, rfl⟩
  have hrng := not_le.mp hempty
  obtain ⟨parts, hparts⟩ := remapParts_of hsort hfits htarget
  have hmoved := sorted_remapped hsort hrng target
  rw [hparts, ok_bind, remapParts_eq_ok hsort hparts]
  obtain ⟨result, hresult, -⟩ := coalesceExtents_of hmoved.proper hmoved.apart (by
    intro moved hmem
    obtain ⟨e, he, hmem⟩ := mem_flatMap.mp hmem
    obtain ⟨part, hpart, rfl⟩ := mem_map.mp hmem
    obtain ⟨hwithin, hlow, hhigh⟩ := part_inside hrng (hsort.proper e he) hpart
    refine ⟨?_, hwithin.physical_le.trans_lt (hfits e he).2⟩
    simp only [Extent.stop] at hhigh ⊢
    omega)
  exact ⟨result, hresult⟩

theorem holesFrom_of (hfits : Addressable extents) (stop cursor : Nat) :
    ∃ holes, holesFrom stop cursor extents = .ok holes := by
  induction extents generalizing cursor with
  | nil => exact ⟨_, rfl⟩
  | cons e rest ih =>
    obtain ⟨he, hrest⟩ := forall_mem_cons.mp hfits
    obtain ⟨others, hothers⟩ := ih hrest (max cursor (min e.stop stop))
    rw [holesFrom, logicalEnd_of he.1, ok_bind]
    by_cases hpast : e.stop ≤ cursor
    · rw [if_pos hpast]
      exact ih hrest cursor
    rw [if_neg hpast]
    by_cases hbehind : e.logicalStart ≥ stop
    · exact ⟨_, if_pos hbehind⟩
    rw [if_neg hbehind]
    dsimp only
    by_cases hlast : max cursor (min e.stop stop) = stop
    · exact ⟨_, if_pos hlast⟩
    · exact ⟨_, by rw [if_neg hlast, hothers]; rfl⟩

theorem edits_preserve_map {extents : List Extent} (hsorted : Sorted extents) (hfits : Addressable extents)
    (start stop : Nat) :
    (∀ replacement : Option Extent, start < stop → Addressable replacement.toList →
      (∀ e ∈ replacement, e.logicalStart = start ∧ e.stop = stop) →
      ∃ new removed, replaceLogicalRange extents start stop replacement = .ok (new, removed) ∧
        Sorted new ∧ Sorted removed ∧
        ∀ n, cellAt new n = (if start ≤ n ∧ n < stop then cellAt replacement.toList n else cellAt extents n) ∧
          cellAt removed n = if start ≤ n ∧ n < stop then cellAt extents n else none) ∧
    (∀ list : List Extent, list.Perm extents → ∃ result, coalesceExtents list = .ok result ∧ Sorted result ∧
      ∀ n, cellAt result n = cellAt extents n) ∧
    (∃ result, markLogicalRangeShared extents start stop = .ok result ∧ Sorted result ∧
      ∀ n, cellAt result n = (cellAt extents n).map (markedCell start stop n)) ∧
    (∀ target, target + (stop - start) < 2 ^ 64 → ∃ result, remapExtentRange extents start stop target = .ok result ∧
      Sorted result ∧ ∀ n, cellAt result n =
        if target ≤ n ∧ n < target + (stop - start) then (cellAt extents (start + (n - target))).map Cell.share
        else none) ∧ ∃ holes, logicalHoles extents start stop = .ok holes ∧
      ∀ n, (∃ hole ∈ holes, hole.1 ≤ n ∧ n < hole.2) ↔ (start ≤ n ∧ n < stop) ∧ cellAt extents n = none := by
  refine ⟨fun replacement hrange hadded hcovers => ?_, fun list hperm => ?_, ?_, fun target htarget => ?_, ?_⟩
  · obtain ⟨new, removed, hok, hspec⟩ := replaceLogicalRange_of hsorted hfits hrange hadded hcovers
    have hreplacement : Sorted replacement.toList := by
      constructor
      · intro e he
        obtain ⟨rfl, rfl⟩ := hcovers e (by simpa using he)
        exact Nat.lt_add_right_iff_pos.mp hrange
      · cases replacement <;> simp
    refine ⟨new, removed, hok, hspec.sorted, hspec.removed_sorted, fun n => ⟨?_, ?_⟩⟩
    · ext c
      rw [cellAt_eq_some hspec.sorted, hspec.gives]
      split_ifs with hin
      · simp [cellAt_eq_some hreplacement, hin]
      · rw [cellAt_eq_some hsorted]
        have hnone : ¬Gives replacement.toList n c := by
          rintro ⟨e, he, hn, -⟩
          obtain ⟨rfl, rfl⟩ := hcovers e (by simpa using he)
          exact hin hn
        simp [hnone, hin]
    · ext c
      rw [cellAt_eq_some hspec.removed_sorted, hspec.removed_gives]
      split_ifs with hin
      · simp [cellAt_eq_some hsorted, hin]
      · simp [hin]
  · have hapart : Apart list := (hperm.pairwise_iff fun hab n hb ha => hab n ha hb).mpr hsorted.apart
    obtain ⟨result, hok, hspec⟩ := coalesceExtents_of (fun e he => hsorted.proper e (hperm.mem_iff.mp he)) hapart
      fun e he => hfits e (hperm.mem_iff.mp he)
    refine ⟨result, hok, hspec.sorted, fun n => cellAt_eq_of_gives hspec.sorted hsorted fun c => ?_⟩
    rw [hspec.gives, gives_perm hperm]
  · obtain ⟨result, hok⟩ := markLogicalRangeShared_of hsorted hfits start stop
    obtain ⟨hresult, hgives⟩ := markLogicalRangeShared_spec hsorted hok
    refine ⟨result, hok, hresult, fun n => ?_⟩
    ext c
    rw [cellAt_eq_some hresult, hgives, Option.map_eq_some_iff]
    simp only [cellAt_eq_some hsorted]
  · obtain ⟨result, hok⟩ := remapExtentRange_of hsorted hfits htarget
    obtain ⟨hresult, hgives⟩ := remapExtentRange_spec hsorted hok
    refine ⟨result, hok, hresult, fun m => ?_⟩
    ext c
    rw [cellAt_eq_some hresult, hgives]
    split_ifs with hin
    · rw [Option.map_eq_some_iff]
      simp only [cellAt_eq_some hsorted]
      constructor
      · rintro ⟨n, hn, rfl, hc⟩
        rwa [show start + (target + (n - start) - target) = n by omega]
      · exact fun hc => ⟨start + (m - target), by omega, by omega, hc⟩
    · simp only [iff_false]
      rintro ⟨n, hn, rfl, -⟩
      omega
  · obtain ⟨holes, hok⟩ := holesFrom_of hfits stop start
    exact ⟨holes, hok, logicalHoles_spec hsorted hok⟩

theorem edits_preserve_map_hole : ∃ new removed,
    replaceLogicalRange [⟨0, 100, 4, false, false⟩, ⟨6, 200, 2, true, false⟩] 1 7 none = .ok (new, removed) ∧
      Sorted new ∧ Sorted removed ∧ ∀ n, cellAt new n = (if 1 ≤ n ∧ n < 7 then cellAt [] n
          else cellAt [⟨0, 100, 4, false, false⟩, ⟨6, 200, 2, true, false⟩] n) ∧ cellAt removed n =
          if 1 ≤ n ∧ n < 7 then cellAt [⟨0, 100, 4, false, false⟩, ⟨6, 200, 2, true, false⟩] n else none :=
  (edits_preserve_map ⟨by decide, by decide⟩ (by unfold Addressable; decide) 1 7).1 none (by decide)
    (by unfold Addressable; decide) (by simp)

/-! ### A window of a list -/

theorem filter_append_filter (h : Sorted extents) (start : Nat) :
    (extents.filter fun e => e.logicalStart ≤ start) ++ (extents.filter fun e => ¬e.logicalStart ≤ start) = extents := by
  induction extents with
  | nil => rfl
  | cons e rest ih =>
    obtain ⟨hfirst, -⟩ := pairwise_cons.mp h.ordered
    by_cases he : e.logicalStart ≤ start
    · rw [filter_cons_of_pos (by simpa using he), filter_cons_of_neg (by simpa using he),
        cons_append, ih h.tail]
    · have hlater : ∀ other ∈ rest, ¬other.logicalStart ≤ start := by
        intro other hoth hle
        have := hfirst other hoth
        have hstop := e.stop_eq
        omega
      rw [filter_cons_of_neg (by simpa using he), filter_cons_of_pos (by simpa using he),
        filter_eq_nil_iff.mpr (by simpa using hlater), filter_eq_self.mpr (by simpa using hlater),
        nil_append]

/-- A window is a stretch of the list; what is before it ends before `start`, what is behind it begins at or
behind `stop`. -/
theorem exists_window (h : Sorted extents) (start stop : Nat) :
    ∃ front back, extents = front ++ (window extents start stop ++ back) ∧ (∀ e ∈ front, e.stop ≤ start) ∧
      ∀ e ∈ back, stop ≤ e.logicalStart := by
  have hsplit := filter_append_filter h start
  rw [window]
  generalize hbefore : (extents.filter fun e => e.logicalStart ≤ start) = before at hsplit ⊢
  generalize (extents.filter fun e => ¬e.logicalStart ≤ start) = behind at hsplit ⊢
  have hsort := h.ordered
  rw [← hsplit] at hsort
  obtain ⟨front, hfront, hfrontStop⟩ : ∃ front, before = front ++ before.getLast?.toList ∧ ∀ e ∈ front, e.stop ≤ start := by
    rcases eq_nil_or_concat' before with rfl | ⟨front, floor, rfl⟩
    · exact ⟨[], rfl, by simp⟩
    · refine ⟨front, by simp, fun e he => ?_⟩
      have hfloor : floor.logicalStart ≤ start := by
        have hmem : floor ∈ extents.filter fun e => e.logicalStart ≤ start := by simp [hbefore]
        simpa using (mem_filter.mp hmem).2
      have hpair := (pairwise_append.mp (pairwise_append.mp hsort).1).2.2 e he floor (by simp)
      omega
  have hrest : (before.getLast?.toList ++ behind).Pairwise fun a b => a.stop ≤ b.logicalStart := by
    rw [hfront, append_assoc] at hsort
    exact (pairwise_append.mp hsort).2.1
  have hexts : extents = front ++ (before.getLast?.toList ++ behind) := by
    rw [← hsplit, ← append_assoc, ← hfront]
  have hproper : ∀ e ∈ before.getLast?.toList ++ behind, 0 < e.blockCount := by
    intro e he
    exact h.proper e (by rw [hexts]; exact mem_append_right _ he)
  generalize before.getLast?.toList ++ behind = pool at hrest hexts hproper ⊢
  refine ⟨front, (pool.dropWhile fun e => e.logicalStart < stop).tail, ?_, hfrontStop, ?_⟩
  · have hpool := takeWhile_append_dropWhile (p := fun e : Extent => decide (e.logicalStart < stop)) (l := pool)
    cases hafter : pool.dropWhile fun e => e.logicalStart < stop with
    | nil =>
      rw [hafter] at hpool
      simpa [hexts] using hpool.symm
    | cons first rest =>
      rw [hafter] at hpool
      simpa [hexts] using hpool.symm
  · intro e he
    have hsub := dropWhile_sublist (fun e : Extent => decide (e.logicalStart < stop)) (l := pool)
    have hpair := hrest.sublist hsub
    cases hafter : pool.dropWhile fun e => e.logicalStart < stop with
    | nil => simp [hafter] at he
    | cons first rest =>
      rw [hafter] at he hpair hsub
      have hfirst : ¬first.logicalStart < stop := by
        have hhead := head?_dropWhile_not (fun e : Extent => decide (e.logicalStart < stop)) pool
        rw [hafter] at hhead
        simpa using hhead
      have hle := (pairwise_cons.mp hpair).1 e he
      have hstop := first.stop_eq
      omega

theorem readWindow_spec {extents : List Extent} {start stop limit : Nat} (hsort : Sorted extents)
    (h : readWindow extents start stop limit = .ok result) :
    ∃ front back, extents = front ++ (result ++ back) ∧ (∀ e ∈ front, e.stop ≤ start) ∧
      (∀ e ∈ back, stop ≤ e.logicalStart) := by
  replace h := after_check h
  replace h := after_check h
  obtain rfl := pure_ok.mp h
  exact exists_window hsort start stop

end Extents

end Afsplus
