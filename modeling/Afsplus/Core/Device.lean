import Afsplus.Core.Basic
import Afsplus.Lib.Disk

/-!
# The block device of a run without I/O errors

What a format or a mount sees: addresses up to the device's size, and blocks that hold what was last
written to them.
-/

namespace Afsplus

open Fallible

structure Device where
  blockSize : Nat
  totalBlocks : Nat
  addressWidth : totalBlocks < 256 ^ 8
  blocks : Nat → Bytes

namespace Device

theorem addressWidth_sample : 32 < 256 ^ 8 := by decide

def read (dev : Device) (lba : Nat) : Except CoreError Bytes :=
  if lba < dev.totalBlocks then .ok (dev.blocks lba)
  else .error (.block (.outOfBounds lba dev.totalBlocks))

variable {lba : Nat} {dev : Device}

theorem read_of_lt (h : lba < dev.totalBlocks) : dev.read lba = .ok (dev.blocks lba) :=
  if_pos h

variable {block : Bytes}

theorem read_eq_ok : dev.read lba = .ok block ↔ lba < dev.totalBlocks ∧ block = dev.blocks lba := by
  unfold read
  split
  case isTrue h => simp [h, eq_comm]
  case isFalse h => simp [h]

theorem read_decode_eq_ok {ε α β : Type} {decode : Bytes → Except ε α} {wrap : ε → CoreError}
    {f : α → Except CoreError β} {b : β} : (dev.read lba >>= fun block => (decode block).mapError wrap >>= f) = .ok b ↔
      lba < dev.totalBlocks ∧ ∃ a, decode (dev.blocks lba) = .ok a ∧ f a = .ok b := by
  simp only [bind_ok, read_eq_ok, mapError_eq_ok]
  constructor
  · rintro ⟨_, ⟨hlba, rfl⟩, h⟩
    exact ⟨hlba, h⟩
  · rintro ⟨hlba, h⟩
    exact ⟨_, ⟨hlba, rfl⟩, h⟩

def write (dev : Device) (lba : Nat) (block : Bytes) : Device :=
  { dev with blocks := Function.update dev.blocks lba block }

@[simp] theorem write_blocks_self (dev : Device) (lba : Nat) (block : Bytes) :
    (dev.write lba block).blocks lba = block :=
  Function.update_self ..

theorem write_blocks_of_ne {lba other : Nat} (h : other ≠ lba) (block : Bytes) :
    (dev.write lba block).blocks other = dev.blocks other :=
  Function.update_of_ne h ..

def writeAll (dev : Device) (writes : List (Nat × Bytes)) : Device :=
  { dev with blocks := Disk.applyWrites dev.blocks writes }

def writeBlock (lba : Nat) (block : Bytes) : EStateM CoreError Device Unit := do
  let dev ← get
  require (lba < dev.totalBlocks) (.block (.outOfBounds lba dev.totalBlocks))
  set (dev.write lba block)

theorem writeBlock_eq_ok {dev' : Device} {u : Unit} :
    writeBlock lba block dev = .ok u dev' ↔ lba < dev.totalBlocks ∧ dev' = dev.write lba block := by
  rw [writeBlock, get_bind_eq_ok, require_bind_eq_ok, set_eq_ok]

theorem writeBlock_bind_eq_ok {α : Type} {f : Unit → EStateM CoreError Device α} {dev' : Device} {a : α} :
    (writeBlock lba block >>= f) dev = .ok a dev' ↔
      lba < dev.totalBlocks ∧ f () (dev.write lba block) = .ok a dev' := by
  rw [bind_eq_ok]
  constructor
  · rintro ⟨_, dev₁, hwrite, hf⟩
    obtain ⟨hlba, rfl⟩ := writeBlock_eq_ok.mp hwrite
    exact ⟨hlba, hf⟩
  · rintro ⟨hlba, hf⟩
    exact ⟨(), _, writeBlock_eq_ok.mpr ⟨hlba, rfl⟩, hf⟩

end Device

theorem lift_format_bind_eq_ok {α β : Type} {x : Except FormatError α}
    {f : α → EStateM CoreError Device β} {dev dev' : Device} {b : β} :
    (lift (x.mapError CoreError.format) >>= f) dev = .ok b dev' ↔ ∃ a, x = .ok a ∧ f a dev = .ok b dev' := by
  rw [lift_bind_eq_ok]
  cases x with
  | error e => simp [Except.mapError]
  | ok a => simp [Except.mapError]

end Afsplus
