import Mathlib.Data.List.Infix

/-!
# Sequential readers of a shared stream

A program that takes symbols one at a time from a stream is a tree: it has ended
with a value, it has faulted, or it waits for a symbol.  The tree says nothing of
where its symbols come from, so the same program can be run over a whole stream
(`Reader.run`) or fed one symbol at a time between the steps of other programs
(`Reader.after`), and `Reader.run_after` says that the two agree.

A stream ends in one of two ways.  On an open stream a read past the last symbol
blocks; on a closed one it returns at once and the reader finds the symbol `z` its
cell held before (`some z`).
-/

namespace IpcFtp.Lib

/-- A program that reads symbols `β` and ends with a value `α` or a fault `ε`. -/
inductive Reader (β ε α : Type) : Type
  | ret (a : α)
  | fault (e : ε)
  | read (next : β → Reader β ε α)

/-- What a run over a finite stream comes to. -/
inductive Outcome (β ε α : Type) : Type
  | blocked
  | fault (e : ε)
  | done (a : α) (rest : List β)
  deriving DecidableEq

variable {β ε α γ ι : Type}

/-- Continue a finished run with what is left of the stream. -/
def Outcome.andThen : Outcome β ε α → (α → List β → Outcome β ε γ) → Outcome β ε γ
  | .blocked, _ => .blocked
  | .fault e, _ => .fault e
  | .done a rest, f => f a rest

theorem Outcome.andThen_eq_done {outcome : Outcome β ε α} {f : α → List β → Outcome β ε γ} {c : γ}
    {rest : List β} : outcome.andThen f = .done c rest ↔
      ∃ a others, outcome = .done a others ∧ f a others = .done c rest := by
  cases outcome with
  | blocked => simp [andThen]
  | fault e => simp [andThen]
  | done a others => simp [andThen]

namespace Reader

def bind : Reader β ε α → (α → Reader β ε γ) → Reader β ε γ
  | .ret a, f => f a
  | .fault e, _ => .fault e
  | .read next, f => .read fun b => (next b).bind f

instance : Monad (Reader β ε) where
  pure := .ret
  bind := bind

/-- Run over `stream`; `eof` is what a read finds after the last symbol. -/
def run (eof : Option β) : Reader β ε α → List β → Outcome β ε α
  | .ret a, stream => .done a stream
  | .fault e, _ => .fault e
  | .read next, b :: stream => run eof (next b) stream
  | .read next, [] =>
    match eof with
    | none => .blocked
    | some z => run eof (next z) []

/-- The program after it has taken the symbols of a word, if it wanted them all. -/
def after : Reader β ε α → List β → Option (Reader β ε α)
  | r, [] => some r
  | .read next, b :: word => (next b).after word
  | _, _ :: _ => none

section Equations

variable (eof : Option β) (stream : List β)

@[simp] theorem pure_eq (a : α) : (pure a : Reader β ε α) = .ret a := rfl

@[simp] theorem bind_ret (a : α) (f : α → Reader β ε γ) :
    ((.ret a : Reader β ε α) >>= f) = f a := rfl

@[simp] theorem bind_fault (e : ε) (f : α → Reader β ε γ) :
    ((.fault e : Reader β ε α) >>= f) = .fault e := rfl

@[simp] theorem bind_read (next : β → Reader β ε α) (f : α → Reader β ε γ) :
    (.read next >>= f) = .read fun b => next b >>= f := rfl

@[simp] theorem run_ret (a : α) :
    run eof (.ret a : Reader β ε α) stream = .done a stream := by
  cases stream <;> rfl

@[simp] theorem run_fault (e : ε) :
    run eof (.fault e : Reader β ε α) stream = .fault e := by
  cases stream <;> rfl

@[simp] theorem run_read_cons (next : β → Reader β ε α) (b : β) :
    run eof (.read next) (b :: stream) = run eof (next b) stream := rfl

@[simp] theorem run_read_open (next : β → Reader β ε α) :
    run none (.read next) [] = .blocked := rfl

@[simp] theorem run_read_closed (next : β → Reader β ε α) (z : β) :
    run (some z) (.read next) [] = run (some z) (next z) [] := rfl

end Equations

/-- A sequence runs its second program on what the first left. -/
theorem run_bind (eof : Option β) (r : Reader β ε α) (f : α → Reader β ε γ)
    (stream : List β) :
    run eof (r >>= f) stream =
      (run eof r stream).andThen fun a rest => run eof (f a) rest := by
  induction r generalizing stream with
  | ret a => simp [Outcome.andThen]
  | fault e => simp [Outcome.andThen]
  | read next ih =>
      cases stream with
      | cons b stream => exact ih b stream
      | nil =>
          cases eof with
          | none => rfl
          | some z => exact ih z []

theorem run_bind_of_done {eof : Option β} {r : Reader β ε α} {f : α → Reader β ε γ}
    {stream rest : List β} {a : α} (first : run eof r stream = .done a rest) :
    run eof (r >>= f) stream = run eof (f a) rest := by
  rw [run_bind, first, Outcome.andThen]

/-- A sequence finishes only through its first program. -/
theorem exists_of_run_bind_done {eof : Option β} {r : Reader β ε α}
    {f : α → Reader β ε γ} {stream rest : List β} {c : γ}
    (finished : run eof (r >>= f) stream = .done c rest) :
    ∃ a middle, run eof r stream = .done a middle ∧
      run eof (f a) middle = .done c rest := by
  rw [run_bind] at finished
  cases first : run eof r stream with
  | blocked => rw [first] at finished; cases finished
  | fault e => rw [first] at finished; cases finished
  | done a middle => exact ⟨a, middle, rfl, by rwa [first] at finished⟩

/-! ## Extending a stream -/

/-- What has finished on an open stream is not disturbed by what arrives later. -/
theorem run_append_of_done {r : Reader β ε α} {stream rest : List β} {a : α}
    (finished : run none r stream = .done a rest) (eof : Option β) (later : List β) :
    run eof r (stream ++ later) = .done a (rest ++ later) := by
  induction r generalizing stream with
  | ret b =>
      simp only [run_ret, Outcome.done.injEq] at finished ⊢
      exact ⟨finished.1, by rw [finished.2]⟩
  | fault e => simp at finished
  | read next ih =>
      cases stream with
      | nil => simp at finished
      | cons b stream => exact ih b finished

/-! ## Feeding symbols one at a time -/

@[simp] theorem after_nil (r : Reader β ε α) : r.after [] = some r := by
  cases r <;> rfl

@[simp] theorem after_read_cons (next : β → Reader β ε α) (b : β) (word : List β) :
    (Reader.read next).after (b :: word) = (next b).after word := rfl

theorem after_append {r r' : Reader β ε α} {word : List β} (taken : r.after word = some r')
    (more : List β) : r.after (word ++ more) = r'.after more := by
  induction word generalizing r with
  | nil => rw [after_nil, Option.some.injEq] at taken; rw [taken, List.nil_append]
  | cons b word ih =>
      cases r with
      | ret a => cases taken
      | fault e => cases taken
      | read next => exact ih taken

/-- Running over a word and what follows is feeding the word and running on. -/
theorem run_after {r r' : Reader β ε α} {word : List β} (taken : r.after word = some r')
    (eof : Option β) (rest : List β) : run eof r (word ++ rest) = run eof r' rest := by
  induction word generalizing r with
  | nil => rw [after_nil, Option.some.injEq] at taken; rw [taken, List.nil_append]
  | cons b word ih =>
      cases r with
      | ret a => cases taken
      | fault e => cases taken
      | read next => exact ih taken

/-! ## Successive programs -/

/-- Run programs one after another and collect their values. -/
def inOrder : List (Reader β ε α) → Reader β ε (List α)
  | [] => .ret []
  | r :: rs => r >>= fun a => inOrder rs >>= fun as => .ret (a :: as)

/-- If each program consumes exactly its own word, whatever follows, then the
programs run one after another read the concatenated words apart. -/
theorem run_inOrder (eof : Option β) {reader : ι → Reader β ε α} {word : ι → List β}
    {value : ι → α} (jobs : List ι)
    (own : ∀ job ∈ jobs, ∀ rest,
      run eof (reader job) (word job ++ rest) = .done (value job) rest)
    (rest : List β) :
    run eof (inOrder (jobs.map reader)) (jobs.flatMap word ++ rest) =
      .done (jobs.map value) rest := by
  induction jobs with
  | nil => simp [inOrder]
  | cons job jobs ih =>
      have first := own job List.mem_cons_self (jobs.flatMap word ++ rest)
      have others := ih fun other member => own other (List.mem_cons_of_mem _ member)
      rw [List.flatMap_cons, List.append_assoc, List.map_cons, inOrder,
        run_bind_of_done first, run_bind_of_done others, run_ret, List.map_cons]

end Reader

end IpcFtp.Lib
