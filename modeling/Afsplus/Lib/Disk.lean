import Mathlib.Data.List.Basic

/-!
# A block device with a volatile tail

Writes collect in a tail until a flush makes them durable. A power cut keeps every durable block and
any sublist of the tail, applied in issue order. Nothing here depends on what a block holds.
-/

/-- Durable blocks and the writes issued since the last completed flush, oldest first. -/
structure Disk (β : Type) where
  durable : Nat → β
  tail : List (Nat × β)

namespace Disk

variable {β : Type}

/-- Applies block writes in issue order. -/
def applyWrites (image : Nat → β) : List (Nat × β) → Nat → β
  | [] => image
  | (lba, block) :: rest => applyWrites (Function.update image lba block) rest

/-- What a read returns: the newest write of the block, durable or not. -/
def read (d : Disk β) : Nat → β := applyWrites d.durable d.tail

def write (d : Disk β) (lba : Nat) (block : β) : Disk β :=
  { d with tail := d.tail ++ [(lba, block)] }

def flush (d : Disk β) : Disk β := ⟨d.read, []⟩

variable {writes : List (Nat × β)} {image : Nat → β}

variable {lba : Nat}

theorem applyWrites_of_not_mem
    (hfree : ∀ write ∈ writes, write.1 ≠ lba) : applyWrites image writes lba = image lba := by
  induction writes generalizing image with
  | nil => rfl
  | cons write rest ih =>
    obtain ⟨at_, block⟩ := write
    have hne : lba ≠ at_ := fun h => hfree (at_, block) (by simp) h.symm
    rw [applyWrites, ih fun w hw => hfree w (by simp [hw]), Function.update_of_ne hne]

theorem applyWrites_of_unique {block : β}
    (hsame : ∀ write ∈ writes, write.1 = lba → write.2 = block) (hmem : ∃ write ∈ writes, write.1 = lba) :
    applyWrites image writes lba = block := by
  induction writes generalizing image with
  | nil =>
    obtain ⟨write, hnil, -⟩ := hmem
    cases hnil
  | cons write rest ih =>
    obtain ⟨at_, other⟩ := write
    by_cases hlater : ∃ write ∈ rest, write.1 = lba
    · exact ih (fun w hw => hsame w (List.mem_cons_of_mem _ hw)) hlater
    · have hfirst : at_ = lba := by
        obtain ⟨w, hw, heq⟩ := hmem
        rcases List.mem_cons.mp hw with rfl | hw
        · exact heq
        · exact absurd ⟨w, hw, heq⟩ hlater
      have hblk : other = block := hsame (at_, other) (by simp) hfirst
      rw [applyWrites, applyWrites_of_not_mem fun w hw heq => hlater ⟨w, hw, heq⟩, hfirst, hblk,
        Function.update_self]

theorem applyWrites_of_mem
    (hdist : (writes.map Prod.fst).Nodup) {block : β} (hmem : (lba, block) ∈ writes) :
    applyWrites image writes lba = block := by
  induction writes generalizing image with
  | nil => cases hmem
  | cons write rest ih =>
    obtain ⟨at_, other⟩ := write
    obtain ⟨hfirst, hrest⟩ := List.nodup_cons.mp hdist
    rcases List.mem_cons.mp hmem with heq | hlater
    · cases heq
      rw [applyWrites, applyWrites_of_not_mem, Function.update_self]
      rintro later hlater rfl
      exact hfirst (List.mem_map.mpr ⟨later, hlater, rfl⟩)
    · exact ih hrest hlater

end Disk
