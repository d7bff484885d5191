import Mathlib.Data.List.Basic

/-!
# An equation between words

A word `s` that a word `p` in front leaves the same as a word `q` behind, `p ++ s = s ++ q`, goes
round between two words `u` and `v`: `p` is one turn, `q` is the turn from the other one on, and `s`
is any number of turns and `u`.
-/

namespace IpcFtp.Lib

variable {α : Type}

/-- So many turns of `u` and `v`, and `u` once more. -/
def roundTo (u v : List α) (turns : Nat) : List α := (List.replicate turns (u ++ v)).flatten ++ u

/-- `s` goes round from `p` to `q`. -/
def GoesRound (p s q : List α) : Prop :=
  ∃ u v turns, p = u ++ v ∧ q = v ++ u ∧ s = roundTo u v turns

theorem roundTo_zero (u v : List α) : roundTo u v 0 = u := rfl

theorem roundTo_succ (u v : List α) (turns : Nat) :
    roundTo u v (turns + 1) = u ++ v ++ roundTo u v turns := by
  rw [roundTo, List.replicate_succ, List.flatten_cons, List.append_assoc, ← roundTo]

/-- A turn in front is one from `v` on behind. -/
theorem turn_roundTo (u v : List α) (turns : Nat) :
    u ++ v ++ roundTo u v turns = roundTo u v turns ++ (v ++ u) := by
  induction turns with
  | zero => rw [roundTo_zero, List.append_assoc]
  | succ turns ih => rw [roundTo_succ, ih, ← List.append_assoc, ih]

/-- The words `s` that solve `p ++ s = s ++ q`. -/
theorem append_eq_append_iff_goesRound {p : List α} (nonempty : p ≠ []) (s q : List α) :
    p ++ s = s ++ q ↔ GoesRound p s q := by
  constructor
  · intro same
    -- a solution is a part of one turn, or has a turn in front of a shorter solution
    induction length : s.length using Nat.strongRecOn generalizing s with
    | ind n ih =>
        rcases List.append_eq_append_iff.mp same with ⟨rest, front, back⟩ | ⟨v, front, back⟩
        · have shorter : rest.length < n := by
            have positive := List.length_pos_iff.mpr nonempty
            rw [← length, front, List.length_append]
            omega
          obtain ⟨u, v, turns, turn, other, round⟩ :=
            ih rest.length shorter rest (front.symm.trans back) rfl
          refine ⟨u, v, turns + 1, turn, other, ?_⟩
          rw [front, round, turn, roundTo_succ]
        · exact ⟨s, v, 0, front, back, (roundTo_zero s v).symm⟩
  · intro given
    obtain ⟨u, v, turns, rfl, rfl, rfl⟩ := given
    exact turn_roundTo u v turns

end IpcFtp.Lib
