import IpcFtp.Lib.Program
import Mathlib.Data.List.TakeDrop
import Mathlib.Logic.Function.Basic

/-!
# Named FIFOs

The FIFOs of a file system, what has been written to each and not been read, and the
descriptions that were made of their ends.  An open is two calls: the first makes the
description, the second returns once the other end was open while the description was.  A
call that blocks has no answer, and neither has a write that nobody can read.

`Fifo.channel` is a FIFO that one process opens and writes a word to and one process opens
and reads it from, each with the number of its calls so far.  What the next call of either
does to it depends on these numbers alone (`answer_writerScript`, `answer_readerScript`).
-/

namespace IpcFtp.Lib

/-- The two ends of a FIFO. -/
inductive Side : Type
  | reading
  | writing
  deriving DecidableEq

def Side.other : Side → Side
  | .reading => .writing
  | .writing => .reading

/-- Descriptions of the ends of a path are numbered in the order they are made. -/
structure Descriptor (π : Type) : Type where
  path : π
  side : Side
  number : Nat
  deriving DecidableEq

/-- What is unread, and the descriptions of each end: none when closed, otherwise whether the
other end has been open. -/
structure Fifo (α : Type) : Type where
  data : List α
  ends : Side → List (Option Bool)

namespace Fifo

variable {α : Type}

def empty : Fifo α := ⟨[], fun _ => []⟩

/-- Some process has this end open. -/
def held (f : Fifo α) (side : Side) : Bool := (f.ends side).any Option.isSome

/-- The two ends meet, if both are open. -/
def openEnd (f : Fifo α) (side : Side) : Fifo α :=
  ⟨f.data, Function.update
    (Function.update f.ends side.other ((f.ends side.other).map (Option.map fun _ => true)))
    side (f.ends side ++ [some (f.held side.other)])⟩

/-- What nobody holds loses what it holds. -/
def close (f : Fifo α) (side : Side) (number : Nat) : Fifo α :=
  let closed : Fifo α := ⟨f.data, Function.update f.ends side ((f.ends side).set number none)⟩
  if closed.held .reading ∨ closed.held .writing then closed else { closed with data := [] }

/-- Whether the other end has been open, for a description that is. -/
def met (f : Fifo α) (side : Side) (number : Nat) : Option Bool := ((f.ends side)[number]?).join

end Fifo

/-- The FIFOs that are there. -/
abbrev Fifos (π α : Type) : Type := π → Option (Fifo α)

/-- A read answers none when it reads no byte, and the others false or none when they fail. -/
inductive FifoCall (π α : Type) : Type → Type
  | mkfifo (path : π) : FifoCall π α Bool
  | access (path : π) : FifoCall π α Bool
  | openEnd (path : π) (side : Side) : FifoCall π α (Option (Descriptor π))
  | await (fd : Descriptor π) : FifoCall π α Unit
  | read (fd : Descriptor π) : FifoCall π α (Option α)
  | write (fd : Descriptor π) (a : α) : FifoCall π α Bool
  | close (fd : Descriptor π) : FifoCall π α Unit

namespace Fifos

variable {π α : Type} [DecidableEq π]

/-- The FIFO of a description of this end that is open, and whether the other end has been. -/
def designated (s : Fifos π α) (side : Side) (fd : Descriptor π) : Option (Fifo α × Bool) :=
  if fd.side = side then
    (s fd.path).bind fun f => (f.met side fd.number).map fun met => (f, met)
  else none

def replace (s : Fifos π α) (path : π) (f : Fifo α) : Fifos π α := Function.update s path (some f)

/-- What a call answers and leaves, if it does not block.  A FIFO takes `capacity` items. -/
def answer (capacity : Nat) (s : Fifos π α) : ∀ {β : Type}, FifoCall π α β → Option (β × Fifos π α)
  | _, .mkfifo path =>
    match s path with
    | none => some (true, s.replace path .empty)
    | some _ => some (false, s)
  | _, .access path => some ((s path).isSome, s)
  | _, .openEnd path side =>
    match s path with
    | none => some (none, s)
    | some f => some (some ⟨path, side, (f.ends side).length⟩, s.replace path (f.openEnd side))
  | _, .await fd =>
    match s.designated fd.side fd with
    | some (_, false) => none
    | _ => some ((), s)
  | _, .read fd =>
    match s.designated .reading fd with
    | none => some (none, s)
    | some (f, _) =>
      match f.data with
      | a :: rest => some (some a, s.replace fd.path { f with data := rest })
      | [] => if f.held .writing then none else some (none, s)
  | _, .write fd a =>
    match s.designated .writing fd with
    | none => some (false, s)
    | some (f, _) =>
      if f.held .reading ∧ f.data.length < capacity then
        some (true, s.replace fd.path { f with data := f.data ++ [a] })
      else none
  | _, .close fd =>
    match s fd.path with
    | none => some ((), s)
    | some f => some ((), s.replace fd.path (f.close fd.side fd.number))

/-- The calls of a process among those of others. -/
def happens (capacity : Nat) (s : Fifos π α) (event : Event (FifoCall π α)) (s' : Fifos π α) : Prop :=
  s.answer capacity event.call = some (event.answer, s')

end Fifos

/-! ## What a call is about -/

section Frame

variable {π α β : Type}

def FifoCall.path : FifoCall π α β → π
  | .mkfifo path | .access path | .openEnd path _ => path
  | .await fd | .read fd | .write fd _ | .close fd => fd.path

/-- The answers of calls while one FIFO is there. -/
def Fifos.Possible (path : π) : Event (FifoCall π α) → Prop
  | ⟨.mkfifo other, made⟩ => made = true → other ≠ path
  | ⟨.access other, there⟩ => other = path → there = true
  | ⟨.openEnd other side, opened⟩ =>
    (other = path → opened ≠ none) ∧ ∀ fd, opened = some fd → fd.path = other ∧ fd.side = side
  | _ => True

variable [DecidableEq π] {capacity : Nat} {s s' : Fifos π α} {call : FifoCall π α β} {b : β} {path : π}

/-- A call leaves the FIFOs of other paths alone. -/
theorem answer_frame (answered : s.answer capacity call = some (b, s')) (other : call.path ≠ path) :
    s' path = s path := by
  have frame {q : π} {f : Fifo α} (other : q ≠ path) : s.replace q f path = s path :=
    Function.update_of_ne other.symm ..
  cases call with
  | mkfifo q =>
      simp only [Fifos.answer] at answered
      split at answered <;> cases answered
      · exact frame other
      · rfl
  | access q =>
      cases answered
      rfl
  | openEnd q side =>
      simp only [Fifos.answer] at answered
      split at answered <;> cases answered
      · rfl
      · exact frame other
  | await fd =>
      simp only [Fifos.answer] at answered
      split at answered
      · cases answered
      · cases answered
        rfl
  | read fd =>
      simp only [Fifos.answer] at answered
      split at answered
      · cases answered
        rfl
      · split at answered
        · cases answered
          exact frame other
        · split_ifs at answered
          cases answered
          rfl
  | write fd a =>
      simp only [Fifos.answer] at answered
      split at answered
      · cases answered
        rfl
      · split_ifs at answered
        cases answered
        exact frame other
  | close fd =>
      simp only [Fifos.answer] at answered
      split at answered <;> cases answered
      · rfl
      · exact frame other

theorem possible_of_answer (answered : s.answer capacity call = some (b, s'))
    (there : s path ≠ none) : Fifos.Possible path ⟨call, b⟩ := by
  cases call with
  | mkfifo q =>
      simp only [Fifos.answer] at answered
      split at answered
      · rename_i absent
        cases answered
        rintro - rfl
        exact there absent
      · cases answered
        exact fun made => absurd made Bool.false_ne_true
  | access q =>
      cases answered
      intro same
      subst same
      exact Option.isSome_iff_ne_none.mpr there
  | openEnd q side =>
      simp only [Fifos.answer] at answered
      split at answered
      · rename_i absent
        cases answered
        exact ⟨fun same => absurd absent (same ▸ there), nofun⟩
      · cases answered
        exact ⟨nofun, by rintro _ ⟨⟩; exact ⟨rfl, rfl⟩⟩
  | await | read | write | close => trivial

variable {f : Fifo α} {side : Side} {number : Nat} {met : Bool} {a : α}

theorem replace_self : s.replace path f path = some f := Function.update_self ..

/-- A FIFO that is there stays when one is to be made. -/
theorem at_mkfifo {other : π} {made : Bool} (there : s path = some f)
    (answered : s.answer capacity (.mkfifo other) = some (made, s')) : s' path = some f := by
  by_cases same : other = path
  · subst same
    simp only [Fifos.answer, there] at answered
    cases answered
    exact there
  · exact (answer_frame answered same).trans there

theorem at_openEnd {opened : Option (Descriptor π)} (there : s path = some f)
    (answered : s.answer capacity (.openEnd path side) = some (opened, s')) :
    opened = some ⟨path, side, (f.ends side).length⟩ ∧ s' path = some (f.openEnd side) := by
  simp only [Fifos.answer, there] at answered
  cases answered
  exact ⟨rfl, replace_self⟩

/-- Who does not wait any more has met the other end. -/
theorem at_await {done : Unit} (there : s path = some f)
    (answered : s.answer capacity (.await ⟨path, side, number⟩) = some (done, s')) :
    s' = s ∧ f.met side number ≠ some false := by
  simp only [Fifos.answer, Fifos.designated, there, if_true, Option.bind_some] at answered
  cases met : f.met side number with
  | none =>
      rw [met] at answered
      cases answered
      exact ⟨rfl, nofun⟩
  | some met' =>
      rw [met] at answered
      cases met' <;> cases answered
      exact ⟨rfl, nofun⟩

theorem at_write {written : Bool} (there : s path = some f) (opened : f.met .writing number = some met)
    (answered : s.answer capacity (.write ⟨path, .writing, number⟩ a) = some (written, s')) :
    written = true ∧ s' path = some { f with data := f.data ++ [a] } := by
  simp only [Fifos.answer, Fifos.designated, there, if_true, Option.bind_some, opened,
    Option.map_some] at answered
  split_ifs at answered
  cases answered
  exact ⟨rfl, replace_self⟩

/-- A read takes what is first, or there is nothing and nobody to write. -/
theorem at_read {taken : Option α} (there : s path = some f) (opened : f.met .reading number = some met)
    (answered : s.answer capacity (.read ⟨path, .reading, number⟩) = some (taken, s')) :
    (∃ a rest, f.data = a :: rest ∧ taken = some a ∧ s' path = some { f with data := rest }) ∨
      (f.data = [] ∧ f.held .writing = false) := by
  simp only [Fifos.answer, Fifos.designated, there, if_true, Option.bind_some, opened,
    Option.map_some] at answered
  split at answered
  · rename_i a rest first
    cases answered
    exact .inl ⟨a, rest, first, rfl, replace_self⟩
  · rename_i empty
    split_ifs at answered with held
    exact .inr ⟨empty, eq_false_of_ne_true held⟩

theorem at_close {done : Unit} (there : s path = some f)
    (answered : s.answer capacity (.close ⟨path, side, number⟩) = some (done, s')) :
    s' path = some (f.close side number) := by
  simp only [Fifos.answer, there] at answered
  cases answered
  exact replace_self

end Frame

/-! ## Places in a script -/

section Places

variable {α : Type*} {xs ys rest : List α} {i : Nat} {a : α}

/-- A place in two lists is one in the first or one in the second. -/
theorem getElem?_append_cases (at_i : (xs ++ ys)[i]? = some a) :
    (i < xs.length ∧ xs[i]? = some a) ∨ ∃ k, i = xs.length + k ∧ ys[k]? = some a := by
  rcases Nat.lt_or_ge i xs.length with inside | beyond
  · exact .inl ⟨inside, by rwa [List.getElem?_append_left inside] at at_i⟩
  · exact .inr ⟨i - xs.length, by omega, by rwa [List.getElem?_append_right beyond] at at_i⟩

theorem getElem?_append_of_some (at_i : xs[i]? = some a) : (xs ++ ys)[i]? = some a := by
  rwa [List.getElem?_append_left (List.getElem?_eq_some_iff.mp at_i).1]

/-- What is left of a list behind the element at a place. -/
theorem getElem?_of_drop (split : xs.drop i = a :: rest) :
    xs[i]? = some a ∧ xs.drop (i + 1) = rest := by
  constructor
  · have first := congrArg (·[0]?) split
    simpa using first
  · rw [← List.tail_drop, split, List.tail_cons]

end Places

/-! ## One word through one FIFO -/

section Channel

variable {π α : Type}

/-- The one description that is made of an end, behind `own` calls on this end and `other` calls on
the other: an open, its second half, `n` transfers and a close. -/
def channelEnd (n own other : Nat) : List (Option Bool) :=
  if own = 0 then [] else if own ≤ n + 2 then [some (decide (0 < other))] else [none]

/-- A FIFO behind `w` calls of the process that writes `word` to it and `r` calls of the one
that reads it. -/
def Fifo.channel (word : List α) (w r : Nat) : Fifo α where
  data := (word.take (w - 2)).drop (r - 2)
  ends
    | .writing => channelEnd word.length w r
    | .reading => channelEnd word.length r w

/-- The counts that two processes which wait for each other can reach. -/
structure Paired (n w r : Nat) : Prop where
  writer_met : 2 ≤ w → 1 ≤ r
  reader_met : 2 ≤ r → 1 ≤ w
  behind : min (r - 2) n ≤ min (w - 2) n

/-- Nobody has the other end open yet, or the FIFO is full. -/
def WriterBlocks (capacity n w r : Nat) : Prop :=
  w = 1 ∧ r = 0 ∨ 2 ≤ w ∧ w < n + 2 ∧ capacity ≤ w - 2 - (r - 2)

/-- Nobody has the other end open yet, or the FIFO is empty. -/
def ReaderBlocks (n w r : Nat) : Prop := r = 1 ∧ w = 0 ∨ 2 ≤ r ∧ r < n + 2 ∧ w - 2 ≤ r - 2

instance (capacity n w r : Nat) : Decidable (WriterBlocks capacity n w r) :=
  inferInstanceAs (Decidable (_ ∨ _))

instance (n w r : Nat) : Decidable (ReaderBlocks n w r) := inferInstanceAs (Decidable (_ ∨ _))

theorem Paired.write {capacity n w r : Nat} (paired : Paired n w r)
    (free : ¬ WriterBlocks capacity n w r) : Paired n (w + 1) r := by
  obtain ⟨writer_met, reader_met, behind⟩ := paired
  unfold WriterBlocks at free
  exact ⟨by omega, by omega, by omega⟩

theorem Paired.read {n w r : Nat} (paired : Paired n w r) (free : ¬ ReaderBlocks n w r) :
    Paired n w (r + 1) := by
  obtain ⟨writer_met, reader_met, behind⟩ := paired
  unfold ReaderBlocks at free
  exact ⟨by omega, by omega, by omega⟩

/-- A word that has been written is there to be read. -/
theorem not_readerBlocks_of_written {n w r : Nat} (written : n + 2 ≤ w) : ¬ ReaderBlocks n w r := by
  unfold ReaderBlocks
  omega

/-- A FIFO that has been read to its end is not full. -/
theorem not_writerBlocks_of_read {capacity n w r : Nat} (room : 0 < capacity) (read : n + 2 ≤ r) :
    ¬ WriterBlocks capacity n w r := by
  unfold WriterBlocks
  omega

/-- The two do not wait for each other. -/
theorem not_writerBlocks_of_readerBlocks {capacity n w r : Nat} (room : 0 < capacity)
    (blocks : ReaderBlocks n w r) : ¬ WriterBlocks capacity n w r := by
  unfold ReaderBlocks at blocks
  unfold WriterBlocks
  omega

def transfer (path : π) (a : α) : Side → Event (FifoCall π α)
  | .writing => ⟨.write ⟨path, .writing, 0⟩ a, true⟩
  | .reading => ⟨.read ⟨path, .reading, 0⟩, some a⟩

/-- The calls of either process, answered as they are to be. -/
def script (path : π) (side : Side) (word : List α) : List (Event (FifoCall π α)) :=
  ⟨.openEnd path side, some ⟨path, side, 0⟩⟩ :: ⟨.await ⟨path, side, 0⟩, ()⟩ ::
    word.map fun a => transfer path a side

def closing (path : π) (side : Side) : Event (FifoCall π α) := ⟨.close ⟨path, side, 0⟩, ()⟩

variable {path : π} {side : Side} {word : List α} {k w r : Nat} {event : Event (FifoCall π α)}

theorem Fifo.ext_ends {f g : Fifo α} (data : f.data = g.data)
    (reading : f.ends .reading = g.ends .reading) (writing : f.ends .writing = g.ends .writing) :
    f = g := by
  obtain ⟨fdata, fends⟩ := f
  obtain ⟨gdata, gends⟩ := g
  obtain rfl : fdata = gdata := data
  congr 1
  funext side
  cases side with
  | reading => exact reading
  | writing => exact writing

/-- Before anybody has opened it. -/
theorem channel_zero : Fifo.channel word 0 0 = Fifo.empty :=
  Fifo.ext_ends rfl rfl rfl

theorem length_script : (script path side word).length = word.length + 2 := by
  simp [script]

/-- The calls one by one. -/
theorem script_cases (next : (script path side word ++ [closing path side])[k]? = some event) :
    (k = 0 ∧ event = ⟨.openEnd path side, some ⟨path, side, 0⟩⟩) ∨
      (k = 1 ∧ event = ⟨.await ⟨path, side, 0⟩, ()⟩) ∨
        (∃ i, k = i + 2 ∧ ∃ inside : i < word.length, event = transfer path word[i] side) ∨
          (k = word.length + 2 ∧ event = closing path side) := by
  match k with
  | 0 =>
      cases next
      exact .inl ⟨rfl, rfl⟩
  | 1 =>
      cases next
      exact .inr (.inl ⟨rfl, rfl⟩)
  | i + 2 =>
      refine .inr (.inr ?_)
      simp only [script, List.cons_append, List.getElem?_cons_succ] at next
      rcases Nat.lt_trichotomy i word.length with inside | rfl | beyond
      · rw [List.getElem?_append_left (by simpa using inside), List.getElem?_map,
          List.getElem?_eq_getElem inside, Option.map_some, Option.some.injEq] at next
        exact .inl ⟨i, rfl, inside, next.symm⟩
      · rw [List.getElem?_append_right (by simp), List.length_map, Nat.sub_self,
          List.getElem?_cons_zero, Option.some.injEq] at next
        exact .inr ⟨rfl, next.symm⟩
      · rw [List.getElem?_eq_none (by simp; omega)] at next
        cases next

theorem held_channel_writing : (Fifo.channel word w r).held .writing =
    decide (0 < w ∧ w ≤ word.length + 2) := by
  unfold Fifo.held Fifo.channel channelEnd
  by_cases none : w = 0
  · simp [none]
  · by_cases still : w ≤ word.length + 2
    · simp [none, still, Nat.pos_of_ne_zero none]
    · simp [none, still]

theorem held_channel_reading : (Fifo.channel word w r).held .reading =
    decide (0 < r ∧ r ≤ word.length + 2) := by
  unfold Fifo.held Fifo.channel channelEnd
  by_cases none : r = 0
  · simp [none]
  · by_cases still : r ≤ word.length + 2
    · simp [none, still, Nat.pos_of_ne_zero none]
    · simp [none, still]

theorem met_channel_writing (opened : 0 < w) (still : w ≤ word.length + 2) :
    (Fifo.channel word w r).met .writing 0 = some (decide (0 < r)) := by
  simp [Fifo.met, Fifo.channel, channelEnd, Nat.ne_of_gt opened, still]

theorem met_channel_reading (opened : 0 < r) (still : r ≤ word.length + 2) :
    (Fifo.channel word w r).met .reading 0 = some (decide (0 < w)) := by
  simp [Fifo.met, Fifo.channel, channelEnd, Nat.ne_of_gt opened, still]

theorem channelEnd_meets {n own : Nat} :
    (channelEnd n own 0).map (Option.map fun _ => true) = channelEnd n own 1 := by
  unfold channelEnd
  split_ifs <;> rfl

theorem openEnd_channel_writing (paired : Paired word.length 0 r) :
    (Fifo.channel word 0 r).openEnd .writing = Fifo.channel word 1 r := by
  have early : r < 2 := by
    by_contra late
    exact absurd (paired.reader_met (by omega)) (by decide)
  refine Fifo.ext_ends rfl ?_ ?_
  · exact channelEnd_meets
  · simp only [Fifo.openEnd, Side.other, Function.update_self, held_channel_reading]
    simp [Fifo.channel, channelEnd]
    omega

theorem openEnd_channel_reading (paired : Paired word.length w 0) :
    (Fifo.channel word w 0).openEnd .reading = Fifo.channel word w 1 := by
  have early : w < 2 := by
    by_contra late
    exact absurd (paired.writer_met (by omega)) (by decide)
  refine Fifo.ext_ends rfl ?_ ?_
  · simp only [Fifo.openEnd, Side.other, Function.update_self, held_channel_writing]
    simp [Fifo.channel, channelEnd]
    omega
  · exact channelEnd_meets

/-- An end that stays open behind its own calls and calls of the other. -/
theorem channelEnd_stays {n own own' other other' : Nat} (opened : 0 < own) (still : own ≤ n + 2)
    (opened' : 0 < own') (still' : own' ≤ n + 2) (same : 0 < other ↔ 0 < other') :
    channelEnd n own other = channelEnd n own' other' := by
  unfold channelEnd
  rw [if_neg (by omega), if_pos still, if_neg (by omega), if_pos still', decide_eq_decide.mpr same]

theorem channelEnd_same {n own other other' : Nat} (same : 0 < other ↔ 0 < other') :
    channelEnd n own other = channelEnd n own other' := by
  unfold channelEnd
  rw [decide_eq_decide.mpr same]

theorem channelEnd_closes {n other other' : Nat} :
    (channelEnd n (n + 2) other).set 0 none = channelEnd n (n + 3) other' := by
  simp [channelEnd]

theorem close_channel_writing (paired : Paired word.length (word.length + 2) r) :
    (Fifo.channel word (word.length + 2) r).close .writing 0 =
      Fifo.channel word (word.length + 3) r := by
  have opened : 0 < r := paired.writer_met (by omega)
  have data : (Fifo.channel word (word.length + 2) r).data =
      (Fifo.channel word (word.length + 3) r).data := by
    change (word.take word.length).drop _ = (word.take (word.length + 1)).drop _
    rw [List.take_length, List.take_of_length_le (Nat.le_succ _)]
  have reading : (Fifo.channel word (word.length + 2) r).ends .reading =
      (Fifo.channel word (word.length + 3) r).ends .reading :=
    channelEnd_same (by omega)
  unfold Fifo.close
  dsimp only
  split_ifs with held
  · exact Fifo.ext_ends data reading channelEnd_closes
  · refine Fifo.ext_ends ?_ reading channelEnd_closes
    have past : word.length + 2 < r := by
      by_contra still
      refine held (.inl ?_)
      change (Fifo.channel word (word.length + 2) r).held .reading = true
      rw [held_channel_reading, decide_eq_true_eq]
      omega
    exact (List.drop_eq_nil_of_le (by rw [List.length_take]; omega)).symm

theorem close_channel_reading (paired : Paired word.length w (word.length + 2)) :
    (Fifo.channel word w (word.length + 2)).close .reading 0 =
      Fifo.channel word w (word.length + 3) := by
  have opened : 0 < w := paired.reader_met (by omega)
  have data : (Fifo.channel word w (word.length + 2)).data = [] :=
    List.drop_eq_nil_of_le (by rw [List.length_take]; omega)
  have data' : (Fifo.channel word w (word.length + 3)).data = [] :=
    List.drop_eq_nil_of_le (by rw [List.length_take]; omega)
  have writing : (Fifo.channel word w (word.length + 2)).ends .writing =
      (Fifo.channel word w (word.length + 3)).ends .writing :=
    channelEnd_same (by omega)
  unfold Fifo.close
  dsimp only
  split_ifs with held
  · exact Fifo.ext_ends (data.trans data'.symm) channelEnd_closes writing
  · exact Fifo.ext_ends data'.symm channelEnd_closes writing

theorem write_channel (paired : Paired word.length w r) (late : 2 ≤ w)
    (inside : w - 2 < word.length) :
    { Fifo.channel word w r with data := (Fifo.channel word w r).data ++ [word[w - 2]] } =
      Fifo.channel word (w + 1) r := by
  have behind := paired.behind
  refine Fifo.ext_ends ?_ ?_ ?_
  · change (word.take (w - 2)).drop (r - 2) ++ [word[w - 2]] = (word.take (w + 1 - 2)).drop (r - 2)
    rw [show w + 1 - 2 = w - 2 + 1 by omega, List.take_succ_eq_append_getElem inside,
      List.drop_append_of_le_length]
    rw [List.length_take]
    omega
  · exact channelEnd_same (by omega)
  · change channelEnd word.length w r = channelEnd word.length (w + 1) r
    exact channelEnd_stays (by omega) (by omega) (by omega) (by omega) Iff.rfl

theorem data_channel (inside : r - 2 < word.length) (written : r - 2 < w - 2) :
    (Fifo.channel word w r).data =
      word[r - 2] :: (word.take (w - 2)).drop (r - 2 + 1) := by
  change (word.take (w - 2)).drop (r - 2) = _
  rw [List.drop_eq_getElem_cons (by rw [List.length_take]; omega), List.getElem_take]

theorem read_channel (late : 2 ≤ r) (inside : r - 2 < word.length) :
    { Fifo.channel word w r with data := (word.take (w - 2)).drop (r - 2 + 1) } =
      Fifo.channel word w (r + 1) := by
  refine Fifo.ext_ends ?_ ?_ ?_
  · change _ = (word.take (w - 2)).drop (r + 1 - 2)
    rw [show r + 1 - 2 = r - 2 + 1 by omega]
  · change channelEnd word.length r w = channelEnd word.length (r + 1) w
    exact channelEnd_stays (by omega) (by omega) (by omega) (by omega) Iff.rfl
  · exact channelEnd_same (by omega)

theorem waited_channel_writing : Fifo.channel word 1 r = Fifo.channel word 2 r :=
  Fifo.ext_ends rfl (channelEnd_same (by decide)) <| by
    change channelEnd word.length 1 r = channelEnd word.length 2 r
    exact channelEnd_stays (by omega) (by omega) (by omega) (by omega) Iff.rfl

theorem waited_channel_reading : Fifo.channel word w 1 = Fifo.channel word w 2 := by
  refine Fifo.ext_ends rfl ?_ (channelEnd_same (by decide))
  change channelEnd word.length 1 w = channelEnd word.length 2 w
  exact channelEnd_stays (by omega) (by omega) (by omega) (by omega) Iff.rfl

theorem length_data_channel (inside : w - 2 < word.length) :
    (Fifo.channel word w r).data.length = w - 2 - (r - 2) := by
  change ((word.take (w - 2)).drop (r - 2)).length = _
  rw [List.length_drop, List.length_take]
  omega

section Answers

variable {s : Fifos π α}

theorem designated_writing (there : s path = some (Fifo.channel word w r)) (opened : 0 < w)
    (still : w ≤ word.length + 2) :
    s.designated .writing ⟨path, .writing, 0⟩ = some (Fifo.channel word w r, decide (0 < r)) := by
  simp [Fifos.designated, there, met_channel_writing opened still]

theorem designated_reading (there : s path = some (Fifo.channel word w r)) (opened : 0 < r)
    (still : r ≤ word.length + 2) :
    s.designated .reading ⟨path, .reading, 0⟩ = some (Fifo.channel word w r, decide (0 < w)) := by
  simp [Fifos.designated, there, met_channel_reading opened still]

variable [DecidableEq π] {capacity : Nat}

theorem replace_same {f : Fifo α} (there : s path = some f) : s.replace path f = s := by
  rw [Fifos.replace, ← there, Function.update_eq_self]

/-- The next call of the process that writes. -/
theorem answer_writing (there : s path = some (Fifo.channel word w r))
    (paired : Paired word.length w r)
    (next : (script path .writing word ++ [closing path .writing])[w]? = some event) :
    s.answer capacity event.call =
      if WriterBlocks capacity word.length w r then none
      else some (event.answer, s.replace path (Fifo.channel word (w + 1) r)) := by
  rcases script_cases next with ⟨rfl, rfl⟩ | ⟨rfl, rfl⟩ | ⟨k, rfl, inside, rfl⟩ | ⟨rfl, rfl⟩
  · have free : ¬ WriterBlocks capacity word.length 0 r := by unfold WriterBlocks; omega
    rw [if_neg free]
    simp only [Fifos.answer, there, openEnd_channel_writing paired]
    rfl
  · simp only [Fifos.answer, designated_writing there Nat.zero_lt_one (Nat.le_add_left 1 _)]
    rcases Nat.eq_zero_or_pos r with rfl | opened
    · exact (if_pos (.inl ⟨rfl, rfl⟩)).symm
    · have free : ¬ WriterBlocks capacity word.length 1 r := by unfold WriterBlocks; omega
      rw [if_neg free, ← waited_channel_writing, replace_same there, decide_eq_true opened]
  · have behind := paired.behind
    have opened := paired.writer_met (by omega)
    have designated := designated_writing there (by omega) (by omega)
    have held : (Fifo.channel word (k + 2) r).held .reading = true := by
      rw [held_channel_reading, decide_eq_true_eq]
      omega
    have length : (Fifo.channel word (k + 2) r).data.length = k + 2 - 2 - (r - 2) :=
      length_data_channel inside
    simp only [transfer, Fifos.answer, designated, held, length, true_and]
    by_cases full : k + 2 - 2 - (r - 2) < capacity
    · have free : ¬ WriterBlocks capacity word.length (k + 2) r := by unfold WriterBlocks; omega
      rw [if_pos full, if_neg free, ← write_channel paired (by omega) inside]
      rfl
    · have blocks : WriterBlocks capacity word.length (k + 2) r := by unfold WriterBlocks; omega
      rw [if_neg full, if_pos blocks]
  · have free : ¬ WriterBlocks capacity word.length (word.length + 2) r := by
      unfold WriterBlocks
      omega
    rw [if_neg free]
    simp only [closing, Fifos.answer, there, close_channel_writing paired]

/-- The next call of the process that reads. -/
theorem answer_reading (there : s path = some (Fifo.channel word w r))
    (paired : Paired word.length w r)
    (next : (script path .reading word ++ [closing path .reading])[r]? = some event) :
    s.answer capacity event.call =
      if ReaderBlocks word.length w r then none
      else some (event.answer, s.replace path (Fifo.channel word w (r + 1))) := by
  rcases script_cases next with ⟨rfl, rfl⟩ | ⟨rfl, rfl⟩ | ⟨k, rfl, inside, rfl⟩ | ⟨rfl, rfl⟩
  · have free : ¬ ReaderBlocks word.length w 0 := by unfold ReaderBlocks; omega
    rw [if_neg free]
    simp only [Fifos.answer, there, openEnd_channel_reading paired]
    rfl
  · simp only [Fifos.answer, designated_reading there Nat.zero_lt_one (Nat.le_add_left 1 _)]
    rcases Nat.eq_zero_or_pos w with rfl | opened
    · exact (if_pos (.inl ⟨rfl, rfl⟩)).symm
    · have free : ¬ ReaderBlocks word.length w 1 := by unfold ReaderBlocks; omega
      rw [if_neg free, ← waited_channel_reading, replace_same there, decide_eq_true opened]
  · have behind := paired.behind
    have opened := paired.reader_met (by omega)
    have designated := designated_reading there (by omega) (by omega)
    simp only [transfer, Fifos.answer, designated]
    by_cases written : k < w - 2
    · have free : ¬ ReaderBlocks word.length w (k + 2) := by unfold ReaderBlocks; omega
      rw [if_neg free, data_channel inside written, ← read_channel (Nat.le_add_left 2 k) inside]
      rfl
    · have nothing : (Fifo.channel word w (k + 2)).data = [] := by
        change (word.take (w - 2)).drop k = []
        apply List.drop_eq_nil_of_le
        rw [List.length_take]
        omega
      have held : (Fifo.channel word w (k + 2)).held .writing = true := by
        rw [held_channel_writing, decide_eq_true_eq]
        omega
      have blocks : ReaderBlocks word.length w (k + 2) := by unfold ReaderBlocks; omega
      rw [if_pos blocks]
      simp only [nothing, held, if_true]
  · have free : ¬ ReaderBlocks word.length w (word.length + 2) := by unfold ReaderBlocks; omega
    rw [if_neg free]
    simp only [closing, Fifos.answer, there, close_channel_reading paired]

end Answers

end Channel

/-! ## One description of an end at a time -/

section Sole

variable {π α : Type}

namespace Fifo

/-- At most one description of an end is open, this one. -/
def Sole (f : Fifo α) (side : Side) (one : Option (Nat × Bool)) : Prop :=
  ∀ n, f.met side n = one.bind fun o => if n = o.1 then some o.2 else none

variable {f : Fifo α} {side : Side} {one : Option (Nat × Bool)} {number : Nat} {met : Bool}

theorem Sole.met_self (sole : f.Sole side (some (number, met))) : f.met side number = some met := by
  rw [sole, Option.bind_some, if_pos rfl]

theorem Sole.held (sole : f.Sole side one) : f.held side = one.isSome := by
  cases one with
  | none =>
      rw [Option.isSome_none, Fifo.held, List.any_eq_false]
      intro e member
      obtain ⟨n, inside, rfl⟩ := List.mem_iff_getElem.mp member
      have closed := sole n
      rw [Fifo.met, List.getElem?_eq_getElem inside, Option.join_some] at closed
      simp [closed]
  | some o =>
      have opened := sole.met_self
      rw [Option.isSome_some, Fifo.held, List.any_eq_true]
      rw [Fifo.met, Option.join_eq_some_iff] at opened
      exact ⟨_, List.mem_of_getElem? opened, rfl⟩

theorem Sole.openEnd (sole : f.Sole side none) :
    (f.openEnd side).Sole side (some ((f.ends side).length, f.held side.other)) := by
  intro n
  have closed := sole n
  simp only [Fifo.met, Fifo.openEnd, Function.update_self, Option.bind_none, Option.bind_some]
    at closed ⊢
  rcases Nat.lt_trichotomy n (f.ends side).length with before | rfl | beyond
  · rw [List.getElem?_append_left before, closed, if_neg (Nat.ne_of_lt before)]
  · rw [List.getElem?_append_right (Nat.le_refl _), Nat.sub_self, if_pos rfl]
    rfl
  · rw [List.getElem?_eq_none (by simp; omega), if_neg (Nat.ne_of_gt beyond)]
    rfl

theorem Side.other_ne (side : Side) : side.other ≠ side := by
  cases side <;> decide

theorem Sole.meets (sole : f.Sole side.other one) :
    (f.openEnd side).Sole side.other (one.map fun o => (o.1, true)) := by
  intro n
  have before := sole n
  simp only [Fifo.met, Fifo.openEnd, Function.update_of_ne (Side.other_ne side),
    Function.update_self, List.getElem?_map] at before ⊢
  cases one with
  | none =>
      cases at_n : (f.ends side.other)[n]? with
      | none => rfl
      | some e =>
          rw [at_n] at before
          obtain rfl : e = none := before
          rfl
  | some o =>
      simp only [Option.bind_some, Option.map_some] at before ⊢
      cases at_n : (f.ends side.other)[n]? with
      | none =>
          rw [at_n] at before
          split_ifs at before ⊢
          · cases before
          · rfl
      | some e =>
          rw [at_n] at before
          obtain rfl : e = if n = o.1 then some o.2 else none := before
          split_ifs <;> rfl

theorem Sole.closes (sole : f.Sole side (some (number, met))) :
    (f.close side number).Sole side none := by
  intro n
  have before := sole n
  have ends : (f.close side number).ends side = (f.ends side).set number none := by
    unfold Fifo.close
    dsimp only
    split_ifs <;> exact Function.update_self ..
  rw [Fifo.met, ends, List.getElem?_set]
  rw [Option.bind_some] at before
  split_ifs with same inside
  · rfl
  · rfl
  · exact before.trans (if_neg (Ne.symm same))

theorem Sole.close_other (sole : f.Sole side.other one) : (f.close side number).Sole side.other one := by
  have ends : (f.close side number).ends side.other = f.ends side.other := by
    unfold Fifo.close
    dsimp only
    split_ifs <;> exact Function.update_of_ne (Side.other_ne side) ..
  intro n
  rw [Fifo.met, ends]
  exact sole n

/-- What the other end can still see stays. -/
theorem data_close (sole : f.Sole side.other one) (kept : one.isSome = true ∨ f.data = []) :
    (f.close side number).data = f.data := by
  have held : (f.close side number).held side.other = one.isSome := sole.close_other.held
  unfold Fifo.close at held ⊢
  dsimp only at held ⊢
  split_ifs at held ⊢ with open_
  · rfl
  · rcases kept with some | empty
    · rw [some] at held
      cases side with
      | reading => exact absurd (.inr held) open_
      | writing => exact absurd (.inl held) open_
    · exact empty.symm

/-- An end may be opened next: it is closed, and nobody who has the other open has met it. -/
def free (f : Fifo α) (side : Side) : Bool :=
  !f.held side && (f.ends side.other).all fun e => decide (e ≠ some true)

theorem not_met_of_free (free : f.free side = true) : f.met side.other number ≠ some true := by
  intro met
  rw [Fifo.free, Bool.and_eq_true, List.all_eq_true] at free
  rw [Fifo.met, Option.join_eq_some_iff] at met
  exact absurd rfl (of_decide_eq_true (free.2 _ (List.mem_of_getElem? met)))

theorem not_held_of_free (free : f.free side = true) : f.held side = false := by
  rw [Fifo.free, Bool.and_eq_true] at free
  simpa using free.1

end Fifo

end Sole

end IpcFtp.Lib
