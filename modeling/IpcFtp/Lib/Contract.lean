import IpcFtp.Lib.Program

/-!
# Contracts of programs

An environment relates its state, a call with its answer, and the state behind it.  A
program meets a contract from a state if every call it makes is allowed where it makes it
and its result and last state satisfy a postcondition, whatever the environment does.
`Meets.bind` composes contracts; `Meets.of_runs` says what a contract means for a trace.
-/

namespace IpcFtp.Lib

variable {Call : Type → Type} {ε α β σ : Type}

/-- A trace leads an environment from one state to another. -/
def Through (happens : σ → Event Call → σ → Prop) : σ → List (Event Call) → σ → Prop
  | s, [], s' => s = s'
  | s, event :: trace, s' => ∃ m, happens s event m ∧ Through happens m trace s'

/-- An environment through a trace may as well be told what the trace is made of. -/
theorem Through.mem {happens : σ → Event Call → σ → Prop} {s s' : σ} {trace : List (Event Call)}
    (through : Through happens s trace s') :
    Through (fun s event s' => event ∈ trace ∧ happens s event s') s trace s' := by
  have inside {later : List (Event Call)} (part : later ⊆ trace) {s : σ}
      (through : Through happens s later s') :
      Through (fun s event s' => event ∈ trace ∧ happens s event s') s later s' := by
    induction later generalizing s with
    | nil => exact through
    | cons event later ih =>
        obtain ⟨m, taken, others⟩ := through
        rw [List.cons_subset] at part
        exact ⟨m, ⟨part.1, taken⟩, ih part.2 others⟩
  exact inside (List.Subset.refl trace) through

theorem Through.mono {happens happens' : σ → Event Call → σ → Prop} {s s' : σ}
    {trace : List (Event Call)} (through : Through happens s trace s')
    (weaker : ∀ {s event s'}, happens s event s' → happens' s event s') :
    Through happens' s trace s' := by
  induction trace generalizing s with
  | nil => exact through
  | cons event trace ih =>
      obtain ⟨m, taken, later⟩ := through
      exact ⟨m, weaker taken, ih later⟩

theorem Through.append {happens : σ → Event Call → σ → Prop} {s m s' : σ}
    {front back : List (Event Call)} (first : Through happens s front m)
    (second : Through happens m back s') : Through happens s (front ++ back) s' := by
  induction front generalizing s with
  | nil =>
      obtain rfl : s = m := first
      exact second
  | cons event front ih =>
      obtain ⟨middle, taken, later⟩ := first
      exact ⟨middle, taken, ih later⟩

namespace Program

/-- Every call is allowed, and the end satisfies `post`. -/
def Meets (happens : σ → Event Call → σ → Prop) (allowed : σ → ∀ {β : Type}, Call β → Prop)
    (post : Except ε α → σ → Prop) : Program Call ε α → σ → Prop
  | .ret a, s => post (.ok a) s
  | .fault e, s => post (.error e) s
  | .call c next, s => allowed s c ∧
    ∀ b s', happens s ⟨c, b⟩ s' → (next b).Meets happens allowed post s'

variable {happens : σ → Event Call → σ → Prop} {allowed : σ → ∀ {β : Type}, Call β → Prop}
  {post post' : Except ε α → σ → Prop} {p : Program Call ε α} {s s' : σ}

theorem Meets.mono (meets : p.Meets happens allowed post s)
    (weaker : ∀ result s, post result s → post' result s) : p.Meets happens allowed post' s := by
  induction p generalizing s with
  | ret a => exact weaker _ _ meets
  | fault e => exact weaker _ _ meets
  | call c next ih => exact ⟨meets.1, fun b s' taken => ih b (meets.2 b s' taken)⟩

/-- A sequence: what the first program leaves is what the second starts from. -/
theorem Meets.bind {next : α → Program Call ε β} {final : Except ε β → σ → Prop}
    (first : p.Meets happens allowed (fun result s =>
      match result with
      | .ok a => (next a).Meets happens allowed final s
      | .error e => final (.error e) s) s) :
    (p >>= next).Meets happens allowed final s := by
  induction p generalizing s with
  | ret a => exact first
  | fault e => exact first
  | call c rest ih => exact ⟨first.1, fun b s' taken => ih b (first.2 b s' taken)⟩

/-- A run of a program that meets its contract: every call was allowed in the state in which
it was made. -/
theorem Meets.of_runs {trace : List (Event Call)} {result : Except ε α}
    (meets : p.Meets happens allowed post s) (runs : Runs p trace result)
    (through : Through happens s trace s') :
    (∀ front event back, trace = front ++ event :: back →
      ∃ m, Through happens s front m ∧ allowed m event.call) ∧ post result s' := by
  induction runs generalizing s with
  | ret a =>
      obtain rfl : s = s' := through
      exact ⟨by simp, meets⟩
  | fault e =>
      obtain rfl : s = s' := through
      exact ⟨by simp, meets⟩
  | @call β c next b trace result runs ih =>
      obtain ⟨m, taken, later⟩ := through
      obtain ⟨allowedLater, ends⟩ := ih (meets.2 b m taken) later
      refine ⟨?_, ends⟩
      intro front event back split
      rcases front with _ | ⟨first, front⟩
      · obtain ⟨rfl, -⟩ := List.cons.inj split
        exact ⟨s, rfl, meets.1⟩
      · obtain ⟨rfl, others⟩ := List.cons.inj split
        obtain ⟨m', before, here⟩ := allowedLater front event back others
        exact ⟨m', ⟨m, taken, before⟩, here⟩

end Program

end IpcFtp.Lib
