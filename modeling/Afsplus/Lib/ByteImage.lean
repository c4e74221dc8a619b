import Mathlib.Data.List.Basic
import Mathlib.Data.Nat.Basic

/-!
# Arrays as functions

An array of a given size is the image of a function on positions. Resizing an array and laying a piece over it are
changes of the function, and reading a range of it in blocks gives the range.
-/

namespace ByteImage

open List hiding min max

variable {α : Type*} {f g : Nat → α} {zero : α}

def image (f : Nat → α) (size : Nat) : List α := (List.range size).map f

/-- Cut to `size`, or filled up to it. -/
def resize (zero : α) (bytes : List α) (size : Nat) : List α :=
  bytes.take size ++ List.replicate (size - bytes.length) zero

/-- `piece` laid over the array from `offset` on; what lies between its end and `offset` is filled up. -/
def overlay (zero : α) (bytes : List α) (offset : Nat) (piece : List α) : List α :=
  resize zero bytes offset ++ piece ++ bytes.drop (offset + piece.length)

/-- The positions from `low` up to `high`. -/
def slice (bytes : List α) (low high : Nat) : List α := (bytes.drop low).take (high - low)

@[simp] theorem length_image (size : Nat) : (image f size).length = size := by
  simp [image]

variable {size : Nat}

theorem getElem?_image {i : Nat} (h : i < size) : (image f size)[i]? = some (f i) := by
  simp [image, h]

theorem image_congr (h : ∀ i < size, f i = g i) : image f size = image g size :=
  map_congr_left fun i hi => h i (List.mem_range.mp hi)

theorem image_getD (bytes : List α) : image (fun i => bytes.getD i zero) bytes.length = bytes := by
  apply ext_getElem
  · simp
  · intro i hi hi'
    simp [image, getElem?_eq_getElem hi']

@[simp] theorem length_resize (bytes : List α) (size : Nat) : (resize zero bytes size).length = size := by
  simp only [resize, length_append, length_take, length_replicate]
  omega

theorem getElem?_resize {bytes : List α} {i : Nat} (h : i < size) :
    (resize zero bytes size)[i]? = some (bytes[i]?.getD zero) := by
  rw [resize]
  by_cases hi : i < bytes.length
  · rw [getElem?_append_left (by simp; omega), getElem?_take, if_pos h, getElem?_eq_getElem hi]
    rfl
  · rw [getElem?_append_right (by simp; omega), getElem?_replicate, getElem?_eq_none (not_lt.mp hi),
      if_pos (by simp; omega)]
    rfl

theorem getElem?_image_getD (hzero : ∀ i, size ≤ i → f i = zero) (i : Nat) :
    (image f size)[i]?.getD zero = f i := by
  by_cases hi : i < size
  · rw [getElem?_image hi]
    rfl
  · rw [getElem?_eq_none (by simpa using hi), hzero i (not_lt.mp hi)]
    rfl

theorem resize_image {size' : Nat} (hzero : ∀ i, size ≤ i → f i = zero) (h : ∀ i < size', g i = f i) :
    resize zero (image f size) size' = image g size' := by
  apply ext_getElem?
  intro i
  by_cases hi : i < size'
  · rw [getElem?_resize hi, getElem?_image hi, getElem?_image_getD hzero, h i hi]
  · rw [getElem?_eq_none (by simpa using hi), getElem?_eq_none (by simpa using hi)]

theorem overlay_image {offset : Nat} {piece : List α} (hzero : ∀ i, size ≤ i → f i = zero)
    (hpiece : ∀ j < piece.length, piece[j]? = some (g (offset + j)))
    (hothers : ∀ i, ¬(offset ≤ i ∧ i < offset + piece.length) → g i = f i) :
    overlay zero (image f size) offset piece = image g (max size (offset + piece.length)) := by
  have hfront : resize zero (image f size) offset = image g offset :=
    resize_image hzero fun i hi => hothers i (by omega)
  rw [overlay, hfront]
  apply ext_getElem?
  intro i
  by_cases hi : i < max size (offset + piece.length)
  · rw [getElem?_image hi]
    by_cases hlow : i < offset
    · rw [append_assoc, getElem?_append_left (by simpa using hlow), getElem?_image hlow]
    · by_cases hin : i < offset + piece.length
      · rw [getElem?_append_left (by simp; omega), getElem?_append_right (by simpa using hlow), length_image,
          hpiece _ (by omega)]
        congr 2
        omega
      · have hsize : i < size := by omega
        rw [getElem?_append_right (by simp; omega), getElem?_drop]
        simp only [length_append, length_image]
        rw [show offset + piece.length + (i - (offset + piece.length)) = i by omega, getElem?_image hsize,
          hothers i (by omega)]
  · rw [getElem?_eq_none, getElem?_eq_none (by simpa using hi)]
    simp only [length_append, length_image, length_drop]
    omega

theorem slice_image {low high : Nat} (hhigh : high ≤ size) :
    slice (image f size) low high = (List.range' low (high - low)).map f := by
  rw [slice, image, ← map_drop, ← map_take, range_eq_range', drop_range', take_range'_of_length_ge]
  · simp
  · omega

theorem take_drop_image (size offset wanted : Nat) :
    ((image f size).drop offset).take wanted = (List.range' offset (min (size - offset) wanted)).map f := by
  apply ext_getElem
  · simp only [length_take, length_drop, length_image, length_map, length_range']
    exact min_comm _ _
  · intro i hi hi'
    simp [image]

/-- Blocks of `width` positions each, cut to the range `low..high` and put together again. -/
theorem flatten_blocks (f : Nat → α) (width low high first count : Nat) :
    ((List.range' first count).map fun n =>
        (List.range' (max low (n * width)) (min high (n * width + width) - max low (n * width))).map f).flatten =
      (List.range' (max low (first * width)) (min high ((first + count) * width) - max low (first * width))).map f := by
  induction count with
  | zero =>
    have hempty : min high ((first + 0) * width) - max low (first * width) = 0 := by
      rw [Nat.add_zero]
      omega
    rw [hempty]
    rfl
  | succ count ih =>
    have hstep : first * width ≤ (first + count) * width := Nat.mul_le_mul_right _ (Nat.le_add_right _ _)
    have hnext : (first + (count + 1)) * width = (first + count) * width + width := by
      rw [← Nat.add_assoc, Nat.succ_mul]
    rw [range'_1_concat, map_append, flatten_append, ih, hnext, map_singleton, flatten_singleton, ← map_append]
    generalize (first + count) * width = middle at hstep ⊢
    generalize first * width = start at hstep ⊢
    congr 1
    by_cases hlow : middle ≤ max low start
    · -- The blocks so far lie before the range.
      have hempty : min high middle - max low start = 0 := by omega
      have hsame : max low middle = max low start := by omega
      rw [hempty, hsame]
      rfl
    · by_cases hhigh : high ≤ middle
      · have hempty : min high (middle + width) - max low middle = 0 := by omega
        rw [hempty, show min high (middle + width) = min high middle by omega]
        exact append_nil _
      · have hmiddle : max low middle = max low start + (min high middle - max low start) := by omega
        rw [hmiddle, range'_append_1]
        congr 1
        omega

end ByteImage
