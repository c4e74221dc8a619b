import Afsplus.Lib.Wire

/-!
# Reads by offset

Code that takes a slice of a buffer stops when the slice does not lie in it. `Guarded` keeps this apart
from the errors the code returns: `none` is the stop, `some` an outcome. A function that reads by offset
never leaves its buffer if it is `guarded` of a total one, and it then computes the same.
-/

namespace Slices

open Wire

variable {ε α β γ : Type}

abbrev Guarded (ε α : Type) : Type := ExceptT ε Option α

def guarded (x : Except ε α) : Guarded ε α := ExceptT.mk (some x)

def outOfRange : Guarded ε α := ExceptT.mk none

def slice (bytes : List UInt8) (low high : Nat) : Guarded ε (List UInt8) :=
  if low ≤ high ∧ high ≤ bytes.length then guarded (.ok ((bytes.drop low).take (high - low)))
  else outOfRange

def getLe (width : Nat) (bytes : List UInt8) (offset : Nat) : Guarded ε Nat := do
  let field ← slice bytes offset (offset + width)
  pure (leNat field)

/-- A subtraction that must not go below zero. -/
def checkedSub (a b : Nat) : Guarded ε Nat :=
  if b ≤ a then guarded (.ok (a - b)) else outOfRange

theorem guarded_ok_bind (a : α) (f : α → Guarded ε β) : guarded (.ok a) >>= f = f a := rfl

theorem guarded_bind {x : Except ε α} {f : α → Guarded ε β} {g : α → Except ε β}
    (h : ∀ a, x = .ok a → f a = guarded (g a)) : guarded x >>= f = guarded (x >>= g) := by
  cases x with
  | error e => rfl
  | ok a => exact h a rfl

theorem guarded_map_bind {x : Except ε α} {r : α → γ} {f : γ → Guarded ε β} {g : α → Except ε β}
    (h : ∀ a, x = .ok a → f (r a) = guarded (g a)) :
    guarded (x >>= fun a => pure (r a)) >>= f = guarded (x >>= g) := by
  cases x with
  | error e => rfl
  | ok a => exact h a rfl

variable {bytes : List UInt8}

theorem slice_eq {low high : Nat} (hlow : low ≤ high) (hhigh : high ≤ bytes.length) :
    slice bytes low high = (guarded (.ok ((bytes.drop low).take (high - low))) : Guarded ε _) :=
  if_pos ⟨hlow, hhigh⟩

theorem slice_end {low : Nat} (hlow : low ≤ bytes.length) :
    slice bytes low bytes.length = (guarded (.ok (bytes.drop low)) : Guarded ε _) := by
  rw [slice_eq hlow le_rfl, List.take_of_length_le (by rw [List.length_drop])]

theorem getLe_eq {width offset : Nat} (h : offset + width ≤ bytes.length) :
    getLe width bytes offset = (guarded (.ok (readLe width (bytes.drop offset)).1) : Guarded ε _) := by
  rw [getLe, slice_eq (Nat.le_add_right _ _) h, Nat.add_sub_cancel_left]
  rfl

theorem checkedSub_eq {a b : Nat} (h : b ≤ a) : checkedSub a b = (guarded (.ok (a - b)) : Guarded ε _) :=
  if_pos h

end Slices
