import Mathlib.Data.List.Basic

/-!
# Programs that call their environment

A program returns, faults, or makes a call and goes on with what the call answers.
`Runs` relates a program to the trace of its calls with their answers and to its
result; the answers are arbitrary, so what holds of every run holds whatever the
environment does.  An environment with a state restricts the answers by relating each
event of the trace to a change of its state.
-/

namespace IpcFtp.Lib

variable {Call : Type → Type} {ε α : Type}

/-- A program over the calls of `Call`, each with its own type of answers. -/
inductive Program (Call : Type → Type) (ε α : Type) : Type 1
  | ret (a : α)
  | fault (e : ε)
  | call {β : Type} (c : Call β) (next : β → Program Call ε α)

/-- A call together with its answer. -/
structure Event (Call : Type → Type) : Type 1 where
  {Answer : Type}
  call : Call Answer
  answer : Answer

namespace Program

def bind {β : Type} : Program Call ε α → (α → Program Call ε β) → Program Call ε β
  | .ret a, next => next a
  | .fault e, _ => .fault e
  | .call c rest, next => .call c fun b => (rest b).bind next

instance : Monad (Program Call ε) where
  pure := .ret
  bind := Program.bind

/-- Make one call. -/
def perform {β : Type} (c : Call β) : Program Call ε β := .call c .ret

/-- A program, some calls it makes with their answers, and what it is then about to do. -/
inductive Leads : Program Call ε α → List (Event Call) → Program Call ε α → Prop
  | here (p : Program Call ε α) : Leads p [] p
  | call {β : Type} {c : Call β} {next : β → Program Call ε α} {b : β}
    {trace : List (Event Call)} {q : Program Call ε α} :
    Leads (next b) trace q → Leads (.call c next) (⟨c, b⟩ :: trace) q

/-- A program, the calls it makes with their answers, and its result. -/
inductive Runs : Program Call ε α → List (Event Call) → Except ε α → Prop
  | ret (a : α) : Runs (.ret a) [] (.ok a)
  | fault (e : ε) : Runs (.fault e) [] (.error e)
  | call {β : Type} {c : Call β} {next : β → Program Call ε α} {b : β}
    {trace : List (Event Call)} {r : Except ε α} :
    Runs (next b) trace r → Runs (.call c next) (⟨c, b⟩ :: trace) r

variable {β γ : Type} {trace : List (Event Call)}

@[simp] theorem runs_ret {a : α} {r : Except ε α} :
    Runs (.ret a : Program Call ε α) trace r ↔ trace = [] ∧ r = .ok a := by
  constructor
  · intro given
    cases given
    exact ⟨rfl, rfl⟩
  · intro given
    obtain ⟨rfl, rfl⟩ := given
    exact .ret a

@[simp] theorem runs_fault {e : ε} {r : Except ε α} :
    Runs (.fault e : Program Call ε α) trace r ↔ trace = [] ∧ r = .error e := by
  constructor
  · intro given
    cases given
    exact ⟨rfl, rfl⟩
  · intro given
    obtain ⟨rfl, rfl⟩ := given
    exact .fault e

@[simp] theorem runs_call {c : Call β} {next : β → Program Call ε α} {r : Except ε α} :
    Runs (.call c next) trace r ↔ ∃ b rest, trace = ⟨c, b⟩ :: rest ∧ Runs (next b) rest r := by
  constructor
  · intro given
    cases given
    exact ⟨_, _, rfl, ‹_›⟩
  · intro given
    obtain ⟨b, rest, rfl, runs⟩ := given
    exact .call runs

@[simp] theorem runs_pure {a : α} {r : Except ε α} :
    Runs (pure a : Program Call ε α) trace r ↔ trace = [] ∧ r = .ok a := runs_ret

@[simp] theorem ret_bind (a : α) (next : α → Program Call ε γ) : (.ret a >>= next) = next a := rfl

@[simp] theorem pure_bind (a : α) (next : α → Program Call ε γ) :
    (pure a >>= next) = next a := rfl

@[simp] theorem fault_bind (e : ε) (next : α → Program Call ε γ) :
    (.fault e >>= next) = .fault e := rfl

@[simp] theorem call_bind (c : Call β) (rest : β → Program Call ε α)
    (next : α → Program Call ε γ) : (.call c rest >>= next) = .call c fun b => rest b >>= next :=
  rfl

@[simp] theorem perform_bind (c : Call β) (next : β → Program Call ε γ) :
    (perform c >>= next) = .call c next := rfl

theorem bind_assoc (p : Program Call ε α) (next : α → Program Call ε β)
    (last : β → Program Call ε γ) : (p >>= next >>= last) = (p >>= fun a => next a >>= last) := by
  induction p with
  | ret a => rfl
  | fault e => rfl
  | call c rest ih => exact congrArg (Program.call c) (funext ih)

/-- One call whose answer says nothing, and the end. -/
theorem runs_perform {c : Call Unit} {a : α} {r : Except ε α} :
    Runs (perform c >>= fun _ => (pure a : Program Call ε α)) trace r ↔
      trace = [⟨c, ()⟩] ∧ r = .ok a := by
  rw [perform_bind, runs_call]
  constructor
  · intro given
    obtain ⟨⟨⟩, rest, rfl, runs⟩ := given
    obtain ⟨rfl, rfl⟩ := runs_pure.mp runs
    exact ⟨rfl, rfl⟩
  · intro given
    obtain ⟨rfl, rfl⟩ := given
    exact ⟨(), [], rfl, .ret a⟩

/-- What is left of a program at the end of its run. -/
theorem Runs.of_nil {p : Program Call ε α} {a : α} (runs : Runs p [] (.ok a)) : p = .ret a := by
  cases runs
  rfl

/-- What is left of it before the end. -/
theorem Runs.of_cons {p : Program Call ε α} {event : Event Call} {r : Except ε α}
    (runs : Runs p (event :: trace) r) :
    ∃ next, p = .call event.call next ∧ Runs (next event.answer) trace r := by
  cases runs with
  | call later => exact ⟨_, rfl, later⟩

theorem Runs.bind {p : Program Call ε α} {next : α → Program Call ε β} {a : α}
    {back : List (Event Call)} {r : Except ε β} (first : Runs p trace (.ok a))
    (second : Runs (next a) back r) : Runs (p >>= next) (trace ++ back) r := by
  induction p generalizing trace with
  | ret a' =>
      obtain ⟨rfl, same⟩ := runs_ret.mp first
      obtain rfl := Except.ok.inj same
      exact second
  | fault e =>
      obtain ⟨-, same⟩ := runs_fault.mp first
      cases same
  | call c rest ih =>
      obtain ⟨b, trace, rfl, ran⟩ := runs_call.mp first
      exact .call (ih b ran)

/-- A run of a sequence ends in the first program, or goes through it into the second. -/
theorem runs_bind {p : Program Call ε α} {next : α → Program Call ε β} {r : Except ε β} :
    Runs (p >>= next) trace r ↔ (∃ e, Runs p trace (.error e) ∧ r = .error e) ∨
      ∃ a front back, trace = front ++ back ∧ Runs p front (.ok a) ∧ Runs (next a) back r := by
  constructor
  · intro runs
    induction p generalizing trace with
    | ret a => exact .inr ⟨a, [], trace, rfl, .ret a, runs⟩
    | fault e =>
        obtain ⟨rfl, rfl⟩ := runs_fault.mp runs
        exact .inl ⟨e, .fault e, rfl⟩
    | call c rest ih =>
        obtain ⟨b, trace, rfl, tail⟩ := runs_call.mp runs
        rcases ih b tail with ⟨e, ran, rfl⟩ | ⟨a, front, back, rfl, ran, later⟩
        · exact .inl ⟨e, .call ran, rfl⟩
        · exact .inr ⟨a, _ :: front, back, rfl, .call ran, later⟩
  · intro given
    rcases given with ⟨e, ran, rfl⟩ | ⟨a, front, back, rfl, ran, later⟩
    · induction p generalizing trace with
      | ret a =>
          obtain ⟨-, same⟩ := runs_ret.mp ran
          cases same
      | fault e' =>
          obtain ⟨rfl, same⟩ := runs_fault.mp ran
          obtain rfl := Except.error.inj same
          exact .fault e
      | call c rest ih =>
          obtain ⟨b, trace, rfl, tail⟩ := runs_call.mp ran
          exact .call (ih b tail)
    · exact ran.bind later

/-- A sequence that returns has gone through both. -/
theorem Runs.of_bind_ok {p : Program Call ε α} {next : α → Program Call ε β} {b : β}
    (runs : Runs (p >>= next) trace (.ok b)) :
    ∃ a front back, trace = front ++ back ∧ Runs p front (.ok a) ∧ Runs (next a) back (.ok b) := by
  rcases runs_bind.mp runs with ⟨e, -, same⟩ | through
  · cases same
  · exact through

/-- Mapping the result of a program maps the results of its runs. -/
theorem runs_map {p : Program Call ε α} {g : α → β} {r : Except ε β} :
    Runs (p >>= fun a => pure (g a)) trace r ↔ ∃ inner, Runs p trace inner ∧ r = inner.map g := by
  rw [runs_bind]
  constructor
  · intro given
    rcases given with ⟨e, ran, rfl⟩ | ⟨a, front, back, rfl, ran, later⟩
    · exact ⟨.error e, ran, rfl⟩
    · obtain ⟨rfl, rfl⟩ := runs_pure.mp later
      exact ⟨.ok a, by rwa [List.append_nil], rfl⟩
  · intro given
    obtain ⟨inner, ran, rfl⟩ := given
    cases inner with
    | error e => exact .inl ⟨e, ran, rfl⟩
    | ok a => exact .inr ⟨a, trace, [], (List.append_nil trace).symm, ran, .ret (g a)⟩

end Program

end IpcFtp.Lib
