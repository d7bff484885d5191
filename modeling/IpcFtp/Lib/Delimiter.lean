import Mathlib.Data.List.Infix
import Mathlib.Data.List.Basic
import Mathlib.Data.Nat.Find

/-!
# Delimiters that cannot overlap themselves

A reader that ends a payload at the first occurrence of its delimiter finds the end
of the payload only if no occurrence straddles the end of the payload and the start
of the delimiter.  A delimiter without a border (no proper suffix is also a prefix)
rules that out.
-/

namespace IpcFtp.Lib

variable {α : Type}

/-- `b` starts at position `p` of `w`. -/
def OccursAt (b w : List α) (p : Nat) : Prop := b <+: w.drop p

/-- No occurrence of `b` in `m ++ b` starts inside `m`. -/
def EndsFirst (b m : List α) : Prop := ∀ p < m.length, ¬ OccursAt b (m ++ b) p

/-- No proper suffix of `b` is a prefix of `b`. -/
def Unbordered (b : List α) : Prop := ∀ k, 0 < k → k < b.length → ¬ b.drop k <+: b

instance [DecidableEq α] (b w : List α) (p : Nat) : Decidable (OccursAt b w p) :=
  inferInstanceAs (Decidable (b <+: w.drop p))

instance [DecidableEq α] (b m : List α) : Decidable (EndsFirst b m) :=
  inferInstanceAs (Decidable (∀ p < m.length, ¬ OccursAt b (m ++ b) p))

/-- An unbordered delimiter absent from a payload first occurs at the payload's end. -/
theorem Unbordered.endsFirst {b m : List α} (unbordered : Unbordered b)
    (absent : ¬ b <:+: m) : EndsFirst b m := by
  intro p inside occurs
  unfold OccursAt at occurs
  rw [List.drop_append_of_le_length (by omega)] at occurs
  rcases Nat.lt_or_ge (m.drop p).length b.length with short | long
  · -- the occurrence runs into the delimiter: its overhang is a border
    obtain ⟨t, occurs⟩ := occurs
    rw [List.append_eq_append_iff] at occurs
    rcases occurs with ⟨overhang, tail, head⟩ | ⟨overhang, head, tail⟩
    · have lengths := congrArg List.length tail
      simp only [List.length_append] at lengths
      omega
    · refine unbordered (m.drop p).length ?_ short ?_
      · simp only [List.length_drop]; omega
      · rw [head, List.drop_left]
        exact ⟨t, by rw [← tail, head]⟩
  · -- the occurrence lies inside the payload
    have front : b <+: m.drop p := List.prefix_of_prefix_length_le occurs
      (List.prefix_append _ _) long
    exact absent (front.isInfix.trans (List.drop_suffix p m).isInfix)

/-- A word closed by a doubled symbol that does not occur before has no border. -/
theorem unbordered_of_pair {x : List α} {u : α} (fresh : u ∉ x) (nonempty : x ≠ []) :
    Unbordered (x ++ [u, u]) := by
  intro k positive short border
  have size : (x ++ [u, u]).length = x.length + 2 := by simp
  -- the last symbol of the suffix is `u`, so the suffix is long
  obtain ⟨t, split⟩ := border
  have at_end (i : Nat) (h : i + k < (x ++ [u, u]).length) :
      (x ++ [u, u])[i + k]? = (x ++ [u, u])[i]? := by
    have inside : i < ((x ++ [u, u]).drop k).length := by
      rw [List.length_drop]; omega
    have here : (x ++ [u, u])[i]? = ((x ++ [u, u]).drop k ++ t)[i]? := by rw [split]
    rw [here, List.getElem?_append_left inside, List.getElem?_drop, Nat.add_comm]
  have old (i : Nat) (h : i < x.length) : (x ++ [u, u])[i]? ≠ some u := by
    rw [List.getElem?_append_left h]
    intro found
    exact fresh (List.mem_of_getElem? found)
  have last : (x ++ [u, u])[x.length + 1]? = some u := by simp
  have beforeLast : (x ++ [u, u])[x.length]? = some u := by simp
  have kOne : k = 1 := by
    by_contra other
    have matched := at_end (x.length + 1 - k) (by omega)
    rw [show x.length + 1 - k + k = x.length + 1 by omega, last] at matched
    exact old _ (by omega) matched.symm
  subst kOne
  have positiveLength : 0 < x.length := List.length_pos_iff.mpr nonempty
  have matched := at_end (x.length - 1) (by omega)
  rw [show x.length - 1 + 1 = x.length by omega, beforeLast] at matched
  exact old _ (by omega) matched.symm

/-- In a prefix of `m ++ b` that does not reach its end, the last `b.length` symbols
are not `b`. -/
theorem EndsFirst.window_ne {b m got : List α} (first : EndsFirst b m)
    (reached : got <+: m ++ b) (long : b.length ≤ got.length)
    (early : got.length < (m ++ b).length) : got.drop (got.length - b.length) ≠ b := by
  intro window
  refine first (got.length - b.length) ?_ ?_
  · simp only [List.length_append] at early; omega
  · obtain ⟨t, split⟩ := reached
    refine ⟨t, ?_⟩
    rw [← split, List.drop_append_of_le_length (by omega), window]

/-- A delimiter that occurs has a first occurrence. -/
theorem exists_endsFirst_of_infix {b m : List α} (occurs : b <:+: m) :
    ∃ front back, m = front ++ b ++ back ∧ EndsFirst b front := by
  classical
  have found : ∃ p, OccursAt b m p := by
    obtain ⟨front, back, rfl⟩ := occurs
    refine ⟨front.length, back, ?_⟩
    rw [List.append_assoc, List.drop_left]
  obtain ⟨back, here⟩ := Nat.find_spec found
  have split : m = m.take (Nat.find found) ++ b ++ back := by
    rw [List.append_assoc, here, List.take_append_drop]
  refine ⟨_, back, split, fun p inside earlier => ?_⟩
  have before : p < Nat.find found := lt_of_lt_of_le inside (List.length_take_le _ _)
  refine Nat.find_min found before (earlier.trans ?_)
  have longer : m.take (Nat.find found) ++ b <+: m := ⟨back, split.symm⟩
  exact longer.drop p

end IpcFtp.Lib
