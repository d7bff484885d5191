import IpcFtp.Lib.Contract
import IpcFtp.Lib.Guarded
import Mathlib.Logic.Function.Basic

/-!
# Processes over one environment

Processes that run programs over the calls of an environment they share.  A step is one call
of one process, in any order; a process may also be stopped anywhere.  Each process has a
note, which its own calls alone change.  A program that meets a contract over its note meets
it whatever the other processes do (`Contracted.step`), so every call in a run is allowed by
the note of its process (`Contracted.allowed_call`).
-/

namespace IpcFtp.Lib

variable {Call : Type → Type} {ε α σ γ ι : Type}

/-- The environment, and each process with its program and its note. -/
structure Processes (Call : Type → Type) (ε α σ γ ι : Type) : Type 1 where
  shared : σ
  running : ι → Option (Program Call ε α)
  notes : ι → γ

inductive ProcessesAct (Call : Type → Type) (ε α γ ι : Type) : Type 1
  | start (i : ι) (p : Program Call ε α) (note : γ)
  | call (i : ι) (event : Event Call)
  | stop (i : ι)

namespace Processes

/-- What a process has returned. -/
def result (s : Processes Call ε α σ γ ι) (i : ι) : Option α :=
  match s.running i with
  | some (.ret a) => some a
  | _ => none

theorem running_of_result {s : Processes Call ε α σ γ ι} {i : ι} {a : α}
    (returned : s.result i = some a) :
    s.running i = some (.ret a) := by
  unfold result at returned
  split at returned
  · rename_i runs
    cases returned
    exact runs
  · cases returned

variable [DecidableEq ι]

/-- `happens` is the environment, `note` what an event makes of a note, `idle` the note of a
process that does not run, and `starts` the programs with their first notes. -/
inductive Step (happens : σ → Event Call → σ → Prop) (note : γ → Event Call → γ) (idle : γ)
    (starts : Program Call ε α → γ → Prop) :
    Processes Call ε α σ γ ι → ProcessesAct Call ε α γ ι → Processes Call ε α σ γ ι → Prop
  | start {s : Processes Call ε α σ γ ι} {i : ι} {p : Program Call ε α} {first : γ} :
    s.running i = none → starts p first →
    Step happens note idle starts s (.start i p first) { s with
      running := Function.update s.running i (some p)
      notes := Function.update s.notes i first }
  | call {s : Processes Call ε α σ γ ι} {i : ι} {β : Type} {c : Call β} {b : β}
    {next : β → Program Call ε α} {shared : σ} :
    s.running i = some (.call c next) → happens s.shared ⟨c, b⟩ shared →
    Step happens note idle starts s (.call i ⟨c, b⟩) {
      shared := shared
      running := Function.update s.running i (some (next b))
      notes := Function.update s.notes i (note (s.notes i) ⟨c, b⟩) }
  | stop {s : Processes Call ε α σ γ ι} {i : ι} :
    Step happens note idle starts s (.stop i) { s with
      running := Function.update s.running i none
      notes := Function.update s.notes i idle }

variable {happens : σ → Event Call → σ → Prop} {note : γ → Event Call → γ} {idle : γ}
  {starts : Program Call ε α → γ → Prop} {allowed : γ → ∀ {β : Type}, Call β → Prop}
  {s s' : Processes Call ε α σ γ ι} {act : ProcessesAct Call ε α γ ι}

/-- What a call does: the others are left alone. -/
theorem of_step_call {i : ι} {event : Event Call}
    (taken : Step happens note idle starts s (.call i event) s') :
    ∃ next, s.running i = some (.call event.call next) ∧ happens s.shared event s'.shared ∧
      s'.running i = some (next event.answer) ∧ s'.notes i = note (s.notes i) event ∧
        ∀ j, j ≠ i → s'.running j = s.running j ∧ s'.notes j = s.notes j := by
  cases taken with
  | @call _ β c b next shared runs happened =>
      exact ⟨next, runs, happened, Function.update_self .., Function.update_self ..,
        fun j other => ⟨Function.update_of_ne other .., Function.update_of_ne other ..⟩⟩

/-- A process that does not run has the idle note. -/
def Idles (idle : γ) (s : Processes Call ε α σ γ ι) : Prop :=
  ∀ i, s.running i = none → s.notes i = idle

theorem Idles.step (idles : Idles idle s) (taken : Step happens note idle starts s act s') :
    Idles idle s' := by
  intro j stopped
  cases taken with
  | @start i p first free begins =>
      dsimp only at stopped ⊢
      rcases eq_or_ne j i with rfl | other
      · rw [Function.update_self] at stopped
        cases stopped
      · rw [Function.update_of_ne other] at stopped ⊢
        exact idles j stopped
  | @call i β c b next shared runs _ =>
      dsimp only at stopped ⊢
      rcases eq_or_ne j i with rfl | other
      · rw [Function.update_self] at stopped
        cases stopped
      · rw [Function.update_of_ne other] at stopped ⊢
        exact idles j stopped
  | @stop i =>
      dsimp only at stopped ⊢
      rcases eq_or_ne j i with rfl | other
      · rw [Function.update_self]
      · rw [Function.update_of_ne other] at stopped ⊢
        exact idles j stopped

/-- Every call a program goes on to make is allowed by the note it is made with. -/
abbrev KeepsNotes (note : γ → Event Call → γ) (allowed : γ → ∀ {β : Type}, Call β → Prop)
    (p : Program Call ε α) (g : γ) : Prop :=
  p.Meets (fun g event g' => g' = note g event) allowed (fun _ _ => True) g

/-- Every process does. -/
def Contracted (note : γ → Event Call → γ) (allowed : γ → ∀ {β : Type}, Call β → Prop)
    (s : Processes Call ε α σ γ ι) : Prop :=
  ∀ i p, s.running i = some p → KeepsNotes note allowed p (s.notes i)

/-- No step of a process touches the program or the note of another. -/
theorem Contracted.step (contracted : Contracted note allowed s)
    (keeps : ∀ p first, starts p first → KeepsNotes note allowed p first)
    (taken : Step happens note idle starts s act s') : Contracted note allowed s' := by
  intro j q running
  cases taken with
  | @start i p first free begins =>
      dsimp only at running ⊢
      by_cases same : j = i
      · subst same
        rw [Function.update_self, Option.some.injEq] at running
        rw [Function.update_self, ← running]
        exact keeps p first begins
      · rw [Function.update_of_ne same] at running ⊢
        exact contracted j q running
  | @call i β c b next shared runs _ =>
      dsimp only at running ⊢
      by_cases same : j = i
      · subst same
        rw [Function.update_self, Option.some.injEq] at running
        rw [Function.update_self, ← running]
        exact (contracted j _ runs).2 b _ rfl
      · rw [Function.update_of_ne same] at running ⊢
        exact contracted j q running
  | @stop i =>
      dsimp only at running ⊢
      by_cases same : j = i
      · rw [same, Function.update_self] at running
        cases running
      · rw [Function.update_of_ne same] at running ⊢
        exact contracted j q running

/-- A call is allowed by the note of its process. -/
theorem Contracted.allowed_call {i : ι} {event : Event Call} (contracted : Contracted note allowed s)
    (taken : Step happens note idle starts s (.call i event) s') :
    allowed (s.notes i) event.call := by
  cases taken with
  | call runs _ => exact (contracted i _ runs).1

/-- A process that is scheduled alone goes through a run of its program. -/
theorem run_alone {guard : Processes Call ε α σ γ ι → ProcessesAct Call ε α γ ι → Prop} {i : ι}
    {p : Program Call ε α} {trace : List (Event Call)} {r : Except ε α} {shared : σ}
    (running : s.running i = some p) (runs : Program.Runs p trace r)
    (through : Through (fun shared event shared' => happens shared event shared' ∧
      ∀ s : Processes Call ε α σ γ ι, s.shared = shared → guard s (.call i event))
        s.shared trace shared) :
    ∃ s', Run (Step happens note idle starts) guard s (trace.map (.call i)) s' ∧
      s'.shared = shared ∧ ∀ j, j ≠ i → s'.running j = s.running j := by
  induction runs generalizing s with
  | ret a => exact ⟨s, .nil s, through, fun _ _ => rfl⟩
  | fault e => exact ⟨s, .nil s, through, fun _ _ => rfl⟩
  | @call β c next b trace r runs ih =>
      obtain ⟨middle, ⟨happened, allowed⟩, later⟩ := through
      obtain ⟨s', rest, last, others⟩ := @ih {
        shared := middle
        running := Function.update s.running i (some (next b))
        notes := Function.update s.notes i (note (s.notes i) ⟨c, b⟩) } (Function.update_self ..) later
      exact ⟨s', run_cons.mpr ⟨_, allowed s rfl, .call running happened, rest⟩, last,
        fun j other => (others j other).trans (Function.update_of_ne other ..)⟩

theorem run_alone_unguarded {i : ι} {p : Program Call ε α} {trace : List (Event Call)}
    {r : Except ε α} {shared : σ} (running : s.running i = some p)
    (runs : Program.Runs p trace r) (through : Through happens s.shared trace shared) :
    ∃ s', Run (Step happens note idle starts) unguarded s (trace.map (.call i)) s' ∧
      s'.shared = shared ∧ ∀ j, j ≠ i → s'.running j = s.running j :=
  run_alone running runs (through.mono fun happened => ⟨happened, fun _ _ => trivial⟩)

/-- A process that is scheduled alone as far as a point of its program, with the notes of the others
as they are. -/
theorem run_leads {guard : Processes Call ε α σ γ ι → ProcessesAct Call ε α γ ι → Prop} {i : ι}
    {p q : Program Call ε α} {trace : List (Event Call)} {shared : σ}
    (running : s.running i = some p) (leads : Program.Leads p trace q)
    (through : Through happens s.shared trace shared)
    (allows : ∀ (t : Processes Call ε α σ γ ι) event, (∀ j, j ≠ i → t.notes j = s.notes j) →
      guard t (.call i event)) :
    ∃ s', Run (Step happens note idle starts) guard s (trace.map (.call i)) s' ∧
      s'.shared = shared ∧ s'.running i = some q ∧ s'.notes i = trace.foldl note (s.notes i) ∧
        ∀ j, j ≠ i → s'.running j = s.running j ∧ s'.notes j = s.notes j := by
  induction leads generalizing s with
  | here p => exact ⟨s, .nil s, through, running, rfl, fun _ _ => ⟨rfl, rfl⟩⟩
  | @call β c next b trace q leads ih =>
      obtain ⟨middle, happened, later⟩ := through
      let t : Processes Call ε α σ γ ι := {
        shared := middle
        running := Function.update s.running i (some (next b))
        notes := Function.update s.notes i (note (s.notes i) ⟨c, b⟩) }
      have same (j : ι) (other : j ≠ i) : t.notes j = s.notes j := Function.update_of_ne other ..
      obtain ⟨s', rest, last, goesOn, noted, others⟩ := @ih t (Function.update_self ..) later
        fun t' event unchanged => allows t' event fun j other =>
          (unchanged j other).trans (same j other)
      refine ⟨s', run_cons.mpr ⟨t, allows s _ fun _ _ => rfl, .call running happened, rest⟩, last,
        goesOn, ?_, ?_⟩
      · rw [noted, List.foldl_cons]
        exact congrArg (trace.foldl note) (Function.update_self i _ s.notes)
      · intro j other
        exact ⟨(others j other).1.trans (Function.update_of_ne other ..),
          (others j other).2.trans (same j other)⟩

/-! ## Environments that answer in one way -/

section Answers

variable {answer : σ → ∀ {β : Type}, Call β → Option (β × σ)}

/-- The next call of a process, if it has one and is answered. -/
def next (answer : σ → ∀ {β : Type}, Call β → Option (β × σ)) (note : γ → Event Call → γ)
    (s : Processes Call ε α σ γ ι) (i : ι) : Option (Event Call × Processes Call ε α σ γ ι) :=
  match s.running i with
  | some (.call c rest) => (answer s.shared c).map fun r => (⟨c, r.1⟩, {
      shared := r.2
      running := Function.update s.running i (some (rest r.1))
      notes := Function.update s.notes i (note (s.notes i) ⟨c, r.1⟩) })
  | _ => none

/-- The environment may do more than answer so. -/
theorem step_of_next {i : ι} {event : Event Call}
    (does : ∀ shared, answer s.shared event.call = some (event.answer, shared) →
      happens s.shared event shared)
    (taken : s.next answer note i = some (event, s')) :
    Step happens note idle starts s (.call i event) s' := by
  unfold next at taken
  split at taken
  · rename_i c rest runs
    obtain ⟨⟨b, shared⟩, answered, same⟩ := Option.map_eq_some_iff.mp taken
    cases same
    exact .call runs (does shared answered)
  · cases taken

theorem answered_of_next {i : ι} {event : Event Call}
    (taken : s.next answer note i = some (event, s')) :
    ∃ shared, answer s.shared event.call = some (event.answer, shared) := by
  unfold next at taken
  split at taken
  · obtain ⟨⟨b, shared⟩, answered, same⟩ := Option.map_eq_some_iff.mp taken
    cases same
    exact ⟨shared, answered⟩
  · cases taken

/-- Processes that are scheduled one after another. -/
def follow (answer : σ → ∀ {β : Type}, Call β → Option (β × σ)) (note : γ → Event Call → γ)
    (s : Processes Call ε α σ γ ι) : List ι → Option (List (ι × Event Call) × Processes Call ε α σ γ ι)
  | [] => some ([], s)
  | i :: schedule => (s.next answer note i).bind fun first =>
      (first.2.follow answer note schedule).map fun later => ((i, first.1) :: later.1, later.2)

/-- The guard may ask what the answers already ask. -/
theorem run_of_follow {guard : Processes Call ε α σ γ ι → ProcessesAct Call ε α γ ι → Prop}
    {schedule : List ι} {events : List (ι × Event Call)}
    (allows : ∀ (s : Processes Call ε α σ γ ι) i event shared,
      answer s.shared event.call = some (event.answer, shared) →
        guard s (.call i event) ∧ happens s.shared event shared)
    (followed : s.follow answer note schedule = some (events, s')) :
    Run (Step happens note idle starts) guard s (events.map fun e => .call e.1 e.2) s' := by
  induction schedule generalizing s events with
  | nil =>
      cases followed
      exact .nil _
  | cons i schedule ih =>
      obtain ⟨⟨event, m⟩, first, others⟩ := Option.bind_eq_some_iff.mp followed
      obtain ⟨⟨later, t⟩, rest, same⟩ := Option.map_eq_some_iff.mp others
      cases same
      obtain ⟨shared, answered⟩ := answered_of_next first
      refine run_cons.mpr ⟨m, (allows s i event shared answered).1, ?_, ih rest⟩
      exact step_of_next (fun shared answered => (allows s i event shared answered).2) first

end Answers

end Processes

end IpcFtp.Lib
