import Mathlib.Data.List.Basic

/-!
# Walking along path components

A path is a list of components: stay, go up, or go down to a name.  A walk ends at a
place, given by the levels it lies above the start and the names that lead down from
there.  A path that descends, that is one that never leaves its start upwards and ends
below it, ends below whatever place it is walked from (`Place.walk_of_descends`).
-/

namespace IpcFtp.Lib

variable {ν : Type}

inductive Component (ν : Type) : Type
  | here
  | up
  | name (n : ν)
  deriving DecidableEq

/-- A place relative to a start: levels above it, then names downwards. -/
structure Place (ν : Type) : Type where
  ups : Nat
  names : List ν
  deriving DecidableEq

namespace Place

def start : Place ν := ⟨0, []⟩

/-- One step of a walk. -/
def step (place : Place ν) : Component ν → Place ν
  | .here => place
  | .name n => ⟨place.ups, place.names ++ [n]⟩
  | .up =>
    match place.names with
    | [] => ⟨place.ups + 1, []⟩
    | _ :: _ => ⟨place.ups, place.names.dropLast⟩

def walk (place : Place ν) (path : List (Component ν)) : Place ν := path.foldl step place

@[simp] theorem walk_nil (place : Place ν) : place.walk [] = place := rfl

@[simp] theorem walk_cons (place : Place ν) (c : Component ν) (path : List (Component ν)) :
    place.walk (c :: path) = (place.step c).walk path := rfl

theorem walk_append (place : Place ν) (first second : List (Component ν)) :
    place.walk (first ++ second) = (place.walk first).walk second := List.foldl_append

/-- `place` is `dir` or lies below it. -/
def Within (dir place : Place ν) : Prop := dir.ups = place.ups ∧ dir.names <+: place.names

/-- `place` lies below `dir`. -/
def StrictlyBelow (dir place : Place ν) : Prop := dir.Within place ∧ dir.names ≠ place.names

instance [DecidableEq ν] (dir place : Place ν) : Decidable (dir.Within place) :=
  inferInstanceAs (Decidable (_ ∧ _))

instance [DecidableEq ν] (dir place : Place ν) : Decidable (dir.StrictlyBelow place) :=
  inferInstanceAs (Decidable (_ ∧ _))

theorem Within.refl (place : Place ν) : place.Within place := ⟨rfl, List.prefix_refl _⟩

theorem Within.trans_strictlyBelow {a b c : Place ν} (upper : a.Within b)
    (lower : b.StrictlyBelow c) : a.StrictlyBelow c := by
  obtain ⟨⟨level, below⟩, different⟩ := lower
  refine ⟨⟨upper.1.trans level, upper.2.trans below⟩, fun same => different ?_⟩
  have shorter := upper.2.length_le
  rw [same] at shorter
  exact below.eq_of_length_le shorter

/-- Seen from its start the path ends strictly below it. -/
def Descends (path : List (Component ν)) : Prop :=
  (start.walk path).ups = 0 ∧ (start.walk path).names ≠ []

instance [DecidableEq ν] (path : List (Component ν)) : Decidable (Descends path) :=
  inferInstanceAs (Decidable (_ ∧ _))

theorem ups_le_walk (place : Place ν) (path : List (Component ν)) :
    place.ups ≤ (place.walk path).ups := by
  induction path generalizing place with
  | nil => exact Nat.le_refl _
  | cons c path ih =>
      refine Nat.le_trans ?_ (ih _)
      cases c with
      | here => exact Nat.le_refl _
      | name n => exact Nat.le_refl _
      | up =>
          rw [step]
          split
          · exact Nat.le_succ _
          · exact Nat.le_refl _

/-- A walk that does not climb above its start goes the same way from any place. -/
theorem walk_of_level {names : List ν} {path : List (Component ν)}
    (level : (walk ⟨0, names⟩ path).ups = 0) (place : Place ν) :
    walk ⟨place.ups, place.names ++ names⟩ path =
      ⟨place.ups, place.names ++ (walk ⟨0, names⟩ path).names⟩ := by
  induction path generalizing names with
  | nil => rfl
  | cons c path ih =>
      cases c with
      | here => exact ih level
      | name n =>
          simp only [walk_cons, step, List.append_assoc] at level ⊢
          exact ih level
      | up =>
          cases names with
          | nil =>
              have climbed : 1 ≤ (walk ⟨1, []⟩ path).ups := ups_le_walk (⟨1, []⟩ : Place ν) path
              exact absurd level (Nat.ne_of_gt climbed)
          | cons n names =>
              have down : step ⟨place.ups, place.names ++ n :: names⟩ .up =
                  ⟨place.ups, place.names ++ (n :: names).dropLast⟩ := by
                rw [← List.dropLast_append_of_ne_nil (by simp)]
                cases place.names <;> rfl
              rw [walk_cons, down]
              exact ih level

/-- A path that descends ends below every place it is walked from. -/
theorem walk_of_descends {path : List (Component ν)} (descends : Descends path)
    (place : Place ν) : place.StrictlyBelow (place.walk path) := by
  have walked := walk_of_level descends.1 place
  rw [List.append_nil] at walked
  rw [show place.walk path = _ from walked]
  refine ⟨⟨rfl, List.prefix_append _ _⟩, fun same => descends.2 ?_⟩
  exact List.self_eq_append_right.mp same

end Place

end IpcFtp.Lib
