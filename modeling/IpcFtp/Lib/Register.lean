import Mathlib.Data.List.Basic

/-!
# Registers

What is written to a register and what is read from it, both whole: a read finds what was
written last.
-/

namespace IpcFtp.Lib

variable {α : Type}

/-- The writes to a register and the reads from it, both in their order. -/
inductive Register : List α → List α → Prop
  | new : Register [] []
  | write {writes reads : List α} (a : α) : Register writes reads → Register (writes ++ [a]) reads
  | read {writes reads : List α} {a : α} :
    Register (writes ++ [a]) reads → Register (writes ++ [a]) (reads ++ [a])

/-- What is read was written. -/
theorem Register.subset {writes reads : List α} (register : Register writes reads) :
    reads ⊆ writes := by
  induction register with
  | new => exact List.Subset.refl []
  | write a _ ih => exact List.subset_append_of_subset_left _ ih
  | @read writes reads a _ ih =>
      rw [List.append_subset]
      exact ⟨ih, List.subset_append_right writes [a]⟩

theorem Register.writes {written reads : List α} (register : Register written reads)
    (more : List α) : Register (written ++ more) reads := by
  induction more generalizing written with
  | nil => rwa [List.append_nil]
  | cons a more ih =>
      rw [List.append_cons]
      exact ih (.write a register)

end IpcFtp.Lib
