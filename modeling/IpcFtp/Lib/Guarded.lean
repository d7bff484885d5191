import Mathlib.Data.List.Basic

/-!
# Guarded runs of a labelled transition system

A run is a finite sequence of labelled steps.  A guarded run is one whose every step
was taken in a state where its guard held; with the guard that is always true these
are all runs.  An invariant needs to be shown of one step only (`Run.invariant`), and
under a guard only of the steps the guard allows.
-/

namespace IpcFtp.Lib

universe u v

variable {σ : Type u} {lbl : Type v}

/-- `Run step guard s labels t`: the labelled steps lead from `s` to `t`, each taken
in a state that satisfied its guard. -/
inductive Run (step : σ → lbl → σ → Prop) (guard : σ → lbl → Prop) :
    σ → List lbl → σ → Prop
  | nil (s : σ) : Run step guard s [] s
  | snoc {s m t : σ} {labels : List lbl} {label : lbl} :
    Run step guard s labels m → guard m label → step m label t →
    Run step guard s (labels ++ [label]) t

/-- No guard. -/
def unguarded (_ : σ) (_ : lbl) : Prop := True

variable {step : σ → lbl → σ → Prop} {guard guard' : σ → lbl → Prop}

/-- What holds at the start and is kept by every allowed step holds at the end. -/
theorem Run.invariant {inv : σ → Prop} {s t : σ} {labels : List lbl}
    (run : Run step guard s labels t) (start : inv s)
    (kept : ∀ {s t label}, inv s → guard s label → step s label t → inv t) : inv t := by
  induction run with
  | nil => exact start
  | snoc _ allowed taken ih => exact kept ih allowed taken

/-- The same for a relation between what has happened so far and the state it led to. -/
theorem Run.history {inv : List lbl → σ → Prop} {s t : σ} {labels : List lbl}
    (run : Run step guard s labels t) (start : inv [] s)
    (kept : ∀ {past s t label}, inv past s → guard s label → step s label t →
      inv (past ++ [label]) t) : inv labels t := by
  induction run with
  | nil => exact start
  | snoc _ allowed taken ih => exact kept ih allowed taken

/-- A run under a guard is a run under a weaker one. -/
theorem Run.mono {s t : σ} {labels : List lbl} (run : Run step guard s labels t)
    (weaker : ∀ {s label}, guard s label → guard' s label) :
    Run step guard' s labels t := by
  induction run with
  | nil => exact .nil _
  | snoc _ allowed taken ih => exact .snoc ih (weaker allowed) taken

/-- What is known of every label may as well be asked by the guard. -/
theorem Run.of_labels {known : lbl → Prop} {s t : σ} {labels : List lbl}
    (run : Run step guard s labels t) (all : ∀ label ∈ labels, known label) :
    Run step (fun s label => guard s label ∧ known label) s labels t := by
  induction run with
  | nil => exact .nil _
  | snoc _ allowed taken ih =>
      have last := all _ (List.mem_append_right _ (List.mem_singleton_self _))
      exact .snoc (ih fun label member => all label (List.mem_append_left _ member))
        ⟨allowed, last⟩ taken

theorem Run.append {s m t : σ} {first second : List lbl}
    (front : Run step guard s first m) (back : Run step guard m second t) :
    Run step guard s (first ++ second) t := by
  induction back with
  | nil => rwa [List.append_nil]
  | snoc _ allowed taken ih => rw [← List.append_assoc]; exact .snoc ih allowed taken

theorem Run.one {s t : σ} {label : lbl} (allowed : guard s label)
    (taken : step s label t) : Run step guard s [label] t :=
  .snoc (.nil s) allowed taken

/-- What a guard asks may as well be asked by the step. -/
theorem Run.of_guard {asked : σ → lbl → Prop} {s t : σ} {labels : List lbl}
    (run : Run step (fun s label => asked s label ∧ guard s label) s labels t) :
    Run (fun s label t => asked s label ∧ step s label t) guard s labels t := by
  induction run with
  | nil => exact .nil _
  | snoc _ allowed taken ih => exact .snoc ih allowed.2 ⟨allowed.1, taken⟩

/-! ## From the first step on -/

theorem run_nil {s t : σ} : Run step guard s [] t ↔ s = t := by
  constructor
  · intro run
    generalize none : [] = labels at run
    cases run with
    | nil => rfl
    | snoc => simp at none
  · intro same
    subst same
    exact .nil s

theorem run_cons {s t : σ} {label : lbl} {labels : List lbl} :
    Run step guard s (label :: labels) t ↔
      ∃ m, guard s label ∧ step s label m ∧ Run step guard m labels t := by
  constructor
  · intro run
    generalize all : label :: labels = whole at run
    induction run generalizing labels with
    | nil => cases all
    | snoc front allowed taken ih =>
        rcases List.cons_eq_append_iff.mp all with ⟨rfl, single⟩ | ⟨rest, rfl, rfl⟩
        · obtain ⟨rfl, rfl⟩ := List.cons.inj single
          obtain rfl := run_nil.mp front
          exact ⟨_, allowed, taken, .nil _⟩
        · obtain ⟨m, first, stepped, others⟩ := ih rfl
          exact ⟨m, first, stepped, .snoc others allowed taken⟩
  · intro given
    obtain ⟨m, allowed, taken, others⟩ := given
    exact (Run.one allowed taken).append others

/-- From the last step back. -/
theorem run_concat {s t : σ} {label : lbl} {labels : List lbl} :
    Run step guard s (labels ++ [label]) t ↔
      ∃ m, Run step guard s labels m ∧ guard m label ∧ step m label t := by
  constructor
  · intro run
    generalize all : labels ++ [label] = whole at run
    cases run with
    | nil => simp at all
    | snoc front allowed taken =>
        obtain ⟨rfl, same⟩ := List.append_inj' all rfl
        obtain rfl := List.singleton_inj.mp same
        exact ⟨_, front, allowed, taken⟩
  · intro given
    obtain ⟨m, front, allowed, taken⟩ := given
    exact .snoc front allowed taken

/-! ## Systems whose step is a function -/

/-- The steps of a partial function. -/
def stepOf (next : σ → lbl → Option σ) (s : σ) (label : lbl) (t : σ) : Prop :=
  next s label = some t

/-- Follow a schedule as far as it goes. -/
def exec (next : σ → lbl → Option σ) (s : σ) : List lbl → Option σ
  | [] => some s
  | label :: labels => (next s label).bind fun m => exec next m labels

theorem exec_append {next : σ → lbl → Option σ} (s : σ) (first second : List lbl) :
    exec next s (first ++ second) = (exec next s first).bind (exec next · second) := by
  induction first generalizing s with
  | nil => rfl
  | cons label first ih =>
      rw [List.cons_append, exec, exec, Option.bind_assoc]
      exact congrArg _ (funext fun m => ih m)

/-- A schedule that can be followed to its end is a run, if every state on the way satisfies
the guard of what comes next. -/
theorem Run.of_exec_of {next : σ → lbl → Option σ} {inv : σ → Prop} {s t : σ} {labels : List lbl}
    (start : inv s) (kept : ∀ {s t label}, inv s → label ∈ labels → next s label = some t →
      guard s label ∧ inv t)
    (followed : exec next s labels = some t) : Run (stepOf next) guard s labels t := by
  induction labels generalizing s with
  | nil =>
      rw [exec, Option.some.injEq] at followed
      subst followed
      exact .nil s
  | cons label labels ih =>
      obtain ⟨m, first, others⟩ := Option.bind_eq_some_iff.mp followed
      obtain ⟨allowed, still⟩ := kept start List.mem_cons_self first
      have rest := ih still (fun held member => kept held (.tail _ member)) others
      exact run_cons.mpr ⟨m, allowed, first, rest⟩

/-- Its guards need not depend on the state. -/
theorem Run.of_exec {next : σ → lbl → Option σ} {s t : σ} {labels : List lbl}
    (free : ∀ label ∈ labels, ∀ s, guard s label) (followed : exec next s labels = some t) :
    Run (stepOf next) guard s labels t :=
  have kept {s t : σ} {label : lbl} (_ : True) (member : label ∈ labels)
      (_ : next s label = some t) : guard s label ∧ True := ⟨free label member s, trivial⟩
  .of_exec_of trivial kept followed

end IpcFtp.Lib
