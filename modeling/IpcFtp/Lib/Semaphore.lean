import IpcFtp.Lib.Processes

/-!
# Semaphores

Processes that take a semaphore before they go inside a section and give it back behind it.  A
semaphore that begins with at most one unit keeps them apart (`Semaphore.Apart.step`).  If the one
who has it is stopped, nobody goes inside again (`Semaphore.Lost.step`).
-/

namespace IpcFtp.Lib

variable {Call : Type → Type} {ε α σ γ ι : Type}

/-- What an event does with the semaphore. -/
inductive SemaphoreUse : Type
  | wait
  | post
  | none
  deriving DecidableEq

/-- A semaphore of an environment, and what the notes tell of it. -/
structure Semaphore (happens : σ → Event Call → σ → Prop) (note : γ → Event Call → γ) (idle : γ)
    (starts : Program Call ε α → γ → Prop) (allowed : γ → ∀ {β : Type}, Call β → Prop) where
  value : σ → Nat
  use : Event Call → SemaphoreUse
  /-- whether the process is in its section -/
  inside : γ → Bool
  value_happens : ∀ {s event s'}, happens s event s' →
    match use event with
    | .wait => value s = value s' + 1
    | .post => value s' = value s + 1
    | .none => value s' = value s
  inside_note : ∀ g event, allowed g event.call →
    match use event with
    | .wait => inside (note g event) = true
    | .post => inside g = true ∧ inside (note g event) = false
    | .none => inside (note g event) = inside g
  outside_idle : inside idle = false
  outside_starts : ∀ {p first}, starts p first → inside first = false

namespace Semaphore

variable {happens : σ → Event Call → σ → Prop} {note : γ → Event Call → γ} {idle : γ}
  {starts : Program Call ε α → γ → Prop} {allowed : γ → ∀ {β : Type}, Call β → Prop}

/-- At most one process is inside, and nobody while the semaphore has a unit left. -/
structure Apart (sem : Semaphore happens note idle starts allowed)
    (s : Processes Call ε α σ γ ι) : Prop where
  value : sem.value s.shared ≤ 1
  free : sem.value s.shared = 1 → ∀ i, sem.inside (s.notes i) = false
  unique : ∀ i j, sem.inside (s.notes i) = true → sem.inside (s.notes j) = true → i = j

/-- Nobody is inside, and the unit is gone. -/
structure Lost (sem : Semaphore happens note idle starts allowed)
    (s : Processes Call ε α σ γ ι) : Prop where
  value : sem.value s.shared = 0
  nobody : ∀ i, sem.inside (s.notes i) = false

variable [DecidableEq ι] {sem : Semaphore happens note idle starts allowed}
  {s s' : Processes Call ε α σ γ ι} {act : ProcessesAct Call ε α γ ι}

/-- Who was inside and who goes there. -/
theorem inside_update {g : γ} {i j : ι}
    (inside : sem.inside (Function.update s.notes i g j) = true) :
    j = i ∧ sem.inside g = true ∨ j ≠ i ∧ sem.inside (s.notes j) = true := by
  rcases eq_or_ne j i with rfl | other
  · rw [Function.update_self] at inside
    exact .inl ⟨rfl, inside⟩
  · rw [Function.update_of_ne other] at inside
    exact .inr ⟨other, inside⟩

/-- A process that is outside takes nobody's place. -/
theorem Apart.outside (apart : sem.Apart s) {g : γ} (out : sem.inside g = false) (i : ι)
    (running : ι → Option (Program Call ε α)) :
    sem.Apart { s with running := running, notes := Function.update s.notes i g } where
  value := apart.value
  free := by
    intro one j
    rw [← Bool.not_eq_true]
    intro inside
    rcases inside_update inside with ⟨-, within⟩ | ⟨-, within⟩
    · rw [out] at within
      cases within
    · rw [apart.free one j] at within
      cases within
  unique := by
    intro j k first second
    rcases inside_update first with ⟨-, within⟩ | ⟨-, within⟩
    · rw [out] at within
      cases within
    · rcases inside_update second with ⟨-, within'⟩ | ⟨-, within'⟩
      · rw [out] at within'
        cases within'
      · exact apart.unique j k within within'

theorem Apart.step (apart : sem.Apart s) (contracted : Processes.Contracted note allowed s)
    (taken : Processes.Step happens note idle starts s act s') : sem.Apart s' := by
  have lawful {i event} (call : Processes.Step happens note idle starts s (.call i event) s') :=
    contracted.allowed_call call
  cases taken with
  | start free begins => exact apart.outside (sem.outside_starts begins) _ _
  | stop => exact apart.outside sem.outside_idle _ _
  | @call i β c b next shared runs happened =>
      have value := sem.value_happens happened
      have moved := sem.inside_note _ ⟨c, b⟩ (lawful (.call runs happened))
      have low := apart.value
      cases used : sem.use ⟨c, b⟩ with
      | wait =>
          rw [used] at value moved
          have one : sem.value s.shared = 1 := by dsimp only at value; omega
          have alone {j : ι} (inside : sem.inside
              (Function.update s.notes i (note (s.notes i) ⟨c, b⟩) j) = true) : j = i := by
            rcases inside_update inside with ⟨same, -⟩ | ⟨-, within⟩
            · exact same
            · rw [apart.free one j] at within
              cases within
          refine ⟨by dsimp only at value ⊢; omega, ?_, ?_⟩
          · intro another
            dsimp only at value another
            omega
          · intro j k first second
            exact (alone first).trans (alone second).symm
      | post =>
          rw [used] at value moved
          have nobody {j : ι} : sem.inside
              (Function.update s.notes i (note (s.notes i) ⟨c, b⟩) j) = false := by
            rw [← Bool.not_eq_true]
            intro inside
            rcases inside_update inside with ⟨-, within⟩ | ⟨other, within⟩
            · rw [moved.2] at within
              cases within
            · exact other (apart.unique j i within moved.1)
          have none : sem.value s.shared ≠ 1 := by
            intro one
            have out := apart.free one i
            rw [moved.1] at out
            cases out
          refine ⟨by dsimp only at value ⊢; omega, fun _ j => nobody, ?_⟩
          intro j k first
          rw [nobody] at first
          cases first
      | none =>
          rw [used] at value moved
          have same : ∀ j, sem.inside (Function.update s.notes i (note (s.notes i) ⟨c, b⟩) j) =
              sem.inside (s.notes j) := by
            intro j
            rcases eq_or_ne j i with rfl | other
            · rw [Function.update_self]
              exact moved
            · rw [Function.update_of_ne other]
          refine ⟨by dsimp only at value ⊢; omega, ?_, ?_⟩
          · intro one j
            rw [same]
            exact apart.free (by dsimp only at value one; omega) j
          · intro j k first second
            rw [same] at first second
            exact apart.unique j k first second

/-- A process that is stopped inside takes the unit with it. -/
theorem Apart.lost (apart : sem.Apart s) {i : ι} (inside : sem.inside (s.notes i) = true)
    (taken : Processes.Step happens note idle starts s (.stop i) s') : sem.Lost s' := by
  cases taken
  have low := apart.value
  refine ⟨?_, ?_⟩
  · by_contra some
    have out := apart.free (by dsimp only at some; omega) i
    rw [inside] at out
    cases out
  · intro j
    rw [← Bool.not_eq_true]
    intro left
    rcases inside_update left with ⟨-, within⟩ | ⟨other, within⟩
    · rw [sem.outside_idle] at within
      cases within
    · exact other (apart.unique j i within inside)

/-- What the semaphore is used for in a call. -/
def uses (sem : Semaphore happens note idle starts allowed) : ProcessesAct Call ε α γ ι → SemaphoreUse
  | .call _ event => sem.use event
  | _ => .none

theorem Lost.step (lost : sem.Lost s) (contracted : Processes.Contracted note allowed s)
    (taken : Processes.Step happens note idle starts s act s') :
    sem.Lost s' ∧ sem.uses act = .none := by
  have lawful {i event} (call : Processes.Step happens note idle starts s (.call i event) s') :=
    contracted.allowed_call call
  have outside {g : γ} (out : sem.inside g = false) (i j : ι) :
      sem.inside (Function.update s.notes i g j) = false := by
    rcases eq_or_ne j i with rfl | other
    · rwa [Function.update_self]
    · rw [Function.update_of_ne other]
      exact lost.nobody j
  cases taken with
  | start free begins => exact ⟨⟨lost.value, outside (sem.outside_starts begins) _⟩, rfl⟩
  | stop => exact ⟨⟨lost.value, outside sem.outside_idle _⟩, rfl⟩
  | @call i β c b next shared runs happened =>
      have value := sem.value_happens happened
      have moved := sem.inside_note _ ⟨c, b⟩ (lawful (.call runs happened))
      have none := lost.value
      cases used : sem.use ⟨c, b⟩ with
      | wait =>
          rw [used] at value
          dsimp only at value
          omega
      | post =>
          rw [used] at moved
          have out := lost.nobody i
          rw [moved.1] at out
          cases out
      | none =>
          rw [used] at value moved
          exact ⟨⟨value.trans none, outside (moved.trans (lost.nobody i)) i⟩, used⟩

variable {guard : Processes Call ε α σ γ ι → ProcessesAct Call ε α γ ι → Prop}
  {acts : List (ProcessesAct Call ε α γ ι)}

theorem Apart.run (run : Run (Processes.Step happens note idle starts) guard s acts s')
    (apart : sem.Apart s) (contracted : Processes.Contracted note allowed s)
    (keeps : ∀ p first, starts p first → Processes.KeepsNotes note allowed p first) :
    sem.Apart s' ∧ Processes.Contracted note allowed s' := by
  induction run with
  | nil => exact ⟨apart, contracted⟩
  | snoc _ _ taken ih => exact ⟨ih.1.step ih.2 taken, ih.2.step keeps taken⟩

/-- Nobody takes the semaphore again, and nobody gives it back. -/
theorem Lost.run (run : Run (Processes.Step happens note idle starts) guard s acts s')
    (lost : sem.Lost s) (contracted : Processes.Contracted note allowed s)
    (keeps : ∀ p first, starts p first → Processes.KeepsNotes note allowed p first) :
    sem.Lost s' ∧ Processes.Contracted note allowed s' ∧ ∀ act ∈ acts, sem.uses act = .none := by
  induction run with
  | nil => exact ⟨lost, contracted, by simp⟩
  | snoc _ _ taken ih =>
      obtain ⟨still, kept, before⟩ := ih
      obtain ⟨last, unused⟩ := still.step kept taken
      refine ⟨last, kept.step keeps taken, ?_⟩
      rw [List.forall_mem_append, List.forall_mem_singleton]
      exact ⟨before, unused⟩

end Semaphore

end IpcFtp.Lib
