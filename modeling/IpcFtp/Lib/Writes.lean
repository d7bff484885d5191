import Mathlib.Data.List.Basic
import Mathlib.Data.Nat.Count

/-!
# Writes of one symbol at a time

A program offers symbols to a stream, one with each call.  A call takes its symbol and answers
`1`, or it is interrupted and answers `-1`.  Two kinds of loop are compared: `offerEach` goes on
to the next symbol whatever the call answered, and `advance` adds the answer to its index.  An
interruption costs the first a symbol and sends the second back by one, so each delivers what it
was given exactly when none of its calls is interrupted (`delivered_offerEach_iff`,
`delivered_advance_iff`).
-/

namespace IpcFtp.Lib

variable {ε α : Type}

/-- What becomes of a call. -/
inductive Attempt : Type
  | taken
  | interrupted
  deriving DecidableEq, Repr

/-- What the call returns. -/
def Attempt.answer : Attempt → Int
  | .taken => 1
  | .interrupted => -1

/-- What becomes of each call in turn; from some call on, none is interrupted. -/
structure Schedule : Type where
  attempt : Nat → Attempt
  settled : Nat
  settles : ∀ k, settled ≤ k → attempt k = .taken

/-- The stream, with the number of calls made on it. -/
structure Wire (α : Type) : Type where
  calls : Nat
  delivered : List α
  deriving DecidableEq, Repr

/-- A stream nobody has written to. -/
def Wire.fresh : Wire α := ⟨0, []⟩

namespace Schedule

variable (s : Schedule) (w : Wire α)

/-- Offer one symbol. -/
def offer (a : α) : Wire α :=
  ⟨w.calls + 1, if s.attempt w.calls = .taken then w.delivered ++ [a] else w.delivered⟩

/-- What the next call returns. -/
def answer : Int := (s.attempt w.calls).answer

/-- How many of the first `n` calls are interrupted. -/
def interruptions (n : Nat) : Nat := Nat.count (fun k => s.attempt k ≠ .taken) n

/-- None of the first `n` calls is interrupted. -/
def TakesAll (n : Nat) : Prop := ∀ k < n, s.attempt k = .taken

instance (n : Nat) : Decidable (s.TakesAll n) := inferInstanceAs (Decidable (∀ k < n, _))

/-- Every call has delivered its symbol or was interrupted. -/
def Accounted : Prop := w.delivered.length + s.interruptions w.calls = w.calls

variable {s w}

theorem interruptions_eq_zero_iff {n : Nat} : s.interruptions n = 0 ↔ s.TakesAll n := by
  rw [interruptions, Nat.count_iff_forall_not]
  simp only [TakesAll, ne_eq, not_not]

theorem TakesAll.of_le {m n : Nat} (all : s.TakesAll n) (le : m ≤ n) : s.TakesAll m :=
  fun k below => all k (lt_of_lt_of_le below le)

@[simp] theorem calls_offer (a : α) : (s.offer w a).calls = w.calls + 1 := rfl

theorem delivered_offer_of_taken (taken : s.attempt w.calls = .taken) (a : α) :
    (s.offer w a).delivered = w.delivered ++ [a] := if_pos taken

theorem delivered_offer_of_interrupted (stopped : s.attempt w.calls = .interrupted) (a : α) :
    (s.offer w a).delivered = w.delivered := by
  rw [offer, stopped, if_neg (by decide)]

theorem answer_of_taken (taken : s.attempt w.calls = .taken) : s.answer w = 1 := by
  rw [answer, taken, Attempt.answer]

theorem answer_of_interrupted (stopped : s.attempt w.calls = .interrupted) :
    s.answer w = -1 := by
  rw [answer, stopped, Attempt.answer]

theorem interruptions_of_taken {k : Nat} (taken : s.attempt k = .taken) :
    s.interruptions (k + 1) = s.interruptions k := by
  rw [interruptions, Nat.count_succ, if_neg (not_not_intro taken), Nat.add_zero, interruptions]

theorem interruptions_of_interrupted {k : Nat} (stopped : s.attempt k = .interrupted) :
    s.interruptions (k + 1) = s.interruptions k + 1 := by
  rw [interruptions, Nat.count_succ, stopped, if_pos (by decide), interruptions]

theorem accounted_fresh : s.Accounted (Wire.fresh : Wire α) := by
  rw [Accounted, Wire.fresh, interruptions, Nat.count_zero, List.length_nil]

theorem Accounted.offer (accounted : s.Accounted w) (a : α) : s.Accounted (s.offer w a) := by
  rw [Accounted] at accounted ⊢
  cases outcome : s.attempt w.calls with
  | taken =>
      rw [delivered_offer_of_taken outcome, calls_offer, interruptions_of_taken outcome,
        List.length_append, List.length_singleton]
      omega
  | interrupted =>
      rw [delivered_offer_of_interrupted outcome, calls_offer,
        interruptions_of_interrupted outcome]
      omega

/-- The symbols whose calls took them are all of them only if no call was interrupted. -/
theorem Accounted.takesAll (accounted : s.Accounted w) (all : w.delivered.length = w.calls) :
    s.TakesAll w.calls := by
  rw [Accounted] at accounted
  apply interruptions_eq_zero_iff.mp
  omega

/-! ## Each symbol once -/

variable (s w) in
/-- Offer each symbol of a list, whatever the calls answer. -/
def offerEach (items : List α) : Wire α := items.foldl s.offer w

@[simp] theorem offerEach_nil : s.offerEach w [] = w := rfl

@[simp] theorem offerEach_cons (a : α) (items : List α) :
    s.offerEach w (a :: items) = s.offerEach (s.offer w a) items := rfl

theorem offerEach_append (items later : List α) :
    s.offerEach w (items ++ later) = s.offerEach (s.offerEach w items) later :=
  List.foldl_append

@[simp] theorem calls_offerEach (items : List α) :
    (s.offerEach w items).calls = w.calls + items.length := by
  induction items generalizing w with
  | nil => rfl
  | cons a items ih =>
      rw [offerEach_cons, ih, calls_offer, List.length_cons]
      omega

theorem Accounted.offerEach (accounted : s.Accounted w) (items : List α) :
    s.Accounted (s.offerEach w items) := by
  induction items generalizing w with
  | nil => exact accounted
  | cons a items ih => exact ih (accounted.offer a)

theorem delivered_offerEach_of_takesAll {items : List α}
    (all : s.TakesAll (w.calls + items.length)) :
    (s.offerEach w items).delivered = w.delivered ++ items := by
  induction items generalizing w with
  | nil => rw [offerEach_nil, List.append_nil]
  | cons a items ih =>
      rw [List.length_cons] at all
      have taken : s.attempt w.calls = .taken := all _ (by omega)
      have later := @ih (s.offer w a) (all.of_le (by rw [calls_offer]; omega))
      rw [offerEach_cons, later, delivered_offer_of_taken taken, List.append_assoc,
        List.singleton_append]

/-- With its place beside each symbol, what is delivered is what the calls there have taken. -/
theorem delivered_offerEach_zipIdx {w : Wire (α × Nat)} (symbols : List α) :
    (s.offerEach w (symbols.zipIdx w.calls)).delivered =
      w.delivered ++
        (symbols.zipIdx w.calls).filter fun placed => s.attempt placed.2 = .taken := by
  induction symbols generalizing w with
  | nil => rw [List.zipIdx_nil, offerEach_nil, List.filter_nil, List.append_nil]
  | cons a symbols ih =>
      have later := @ih (s.offer w (a, w.calls))
      rw [calls_offer] at later
      rw [List.zipIdx_cons, offerEach_cons, later]
      cases outcome : s.attempt w.calls with
      | taken =>
          rw [delivered_offer_of_taken outcome, List.filter_cons_of_pos (by simpa using outcome),
            List.append_assoc, List.singleton_append]
      | interrupted =>
          rw [delivered_offer_of_interrupted outcome, List.filter_cons_of_neg (by simp [outcome])]

/-- A loop that does not look at the answers delivers its symbols exactly when every call takes
its own. -/
theorem delivered_offerEach_iff {items : List α} :
    (s.offerEach Wire.fresh items).delivered = items ↔ s.TakesAll items.length := by
  have calls : (s.offerEach Wire.fresh items).calls = items.length := by
    rw [calls_offerEach, Wire.fresh, Nat.zero_add]
  constructor
  · intro whole
    rw [← calls]
    apply (accounted_fresh.offerEach items).takesAll
    rw [whole, calls]
  · intro all
    apply delivered_offerEach_of_takesAll
    rwa [Wire.fresh, Nat.zero_add]

/-! ## An index that moves by the answers -/

/-- `do index += offer(item(index)) while (index < size)`.  The test only comes after a call. -/
def advance (s : Schedule) (item : Int → Except ε α) (size index : Int) (w : Wire α) :
    Except ε (Wire α) :=
  match item index with
  | .error e => .error e
  | .ok a =>
    if index + s.answer w < size then s.advance item size (index + s.answer w) (s.offer w a)
    else .ok (s.offer w a)
-- an interruption uses up one of the calls before `settled`; past them the index only rises
termination_by (s.settled - w.calls, (size - index).toNat)
decreasing_by
  rename_i below
  rcases Nat.lt_or_ge w.calls s.settled with early | late
  · apply Prod.Lex.left
    rw [calls_offer]
    omega
  · rw [answer_of_taken (s.settles _ late)] at below ⊢
    rw [calls_offer, show s.settled - (w.calls + 1) = s.settled - w.calls by omega]
    apply Prod.Lex.right
    omega

variable {item : Int → Except ε α} {size index : Int} {w' : Wire α} {a : α} {e : ε}

theorem advance_of_error (outside : item index = .error e) :
    s.advance item size index w = .error e := by
  rw [advance, outside]

theorem advance_of_below (inside : item index = .ok a) (below : index + s.answer w < size) :
    s.advance item size index w = s.advance item size (index + s.answer w) (s.offer w a) := by
  rw [advance, inside]
  exact if_pos below

theorem advance_of_reached (inside : item index = .ok a) (reached : size ≤ index + s.answer w) :
    s.advance item size index w = .ok (s.offer w a) := by
  rw [advance, inside]
  exact if_neg (not_lt.mpr reached)

/-- What every round of the loop preserves holds when it ends. -/
theorem advance_rule {P : Int → Wire α → Prop}
    (step : ∀ index w a, index < size → item index = .ok a → P index w →
      P (index + s.answer w) (s.offer w a))
    (below : index < size) (start : P index w) (ended : s.advance item size index w = .ok w') :
    ∃ last, size ≤ last ∧ P last w' := by
  induction index, w using advance.induct s item size with
  | case1 index w e outside => 
      rw [advance_of_error outside] at ended
      cases ended
  | case2 index w a inside further ih =>
      rw [advance_of_below inside further] at ended
      exact ih further (step index w a below inside start) ended
  | case3 index w a inside reached =>
      rw [advance_of_reached inside (not_lt.mp reached)] at ended
      cases ended
      exact ⟨_, not_lt.mp reached, step index w a below inside start⟩

/-- A loop that began at `0`, at its test: an interruption has taken back the round before it. -/
structure Climbed (s : Schedule) (size index : Int) (w : Wire α) : Prop where
  le : index ≤ size
  rounds : index + 2 * s.interruptions w.calls = w.calls
  accounted : s.Accounted w

theorem climbed_fresh (nonneg : 0 ≤ size) : s.Climbed size 0 (Wire.fresh : Wire α) where
  le := nonneg
  rounds := by rw [Wire.fresh, interruptions, Nat.count_zero]; rfl
  accounted := accounted_fresh

theorem Climbed.step (climbed : s.Climbed size index w) (below : index < size) (a : α) :
    s.Climbed size (index + s.answer w) (s.offer w a) := by
  have rounds := climbed.rounds
  cases outcome : s.attempt w.calls with
  | taken =>
      refine ⟨?_, ?_, climbed.accounted.offer a⟩
      · rw [answer_of_taken outcome]
        omega
      · rw [answer_of_taken outcome, calls_offer, interruptions_of_taken outcome]
        omega
  | interrupted =>
      refine ⟨?_, ?_, climbed.accounted.offer a⟩
      · rw [answer_of_interrupted outcome]
        omega
      · rw [answer_of_interrupted outcome, calls_offer, interruptions_of_interrupted outcome]
        omega

/-- A loop that ends has made two more calls than its size, and delivered one more symbol, for
every interruption. -/
theorem advance_counts (pos : 0 < size) (ended : s.advance item size 0 Wire.fresh = .ok w') :
    size + 2 * s.interruptions w'.calls = w'.calls ∧
      w'.delivered.length = size + s.interruptions w'.calls := by
  obtain ⟨last, reached, climbed⟩ := advance_rule (P := s.Climbed size)
    (fun _ _ a below _ climbed => climbed.step below a) pos (climbed_fresh pos.le) ended
  have le := climbed.le
  have rounds := climbed.rounds
  have accounted := climbed.accounted
  rw [Accounted] at accounted
  omega

variable (item size) in
/-- All of the symbols come from cells before `size`. -/
def Confined (items : List α) : Prop := ∀ a ∈ items, ∃ k < size, item k = .ok a

theorem Confined.offer (confined : Confined item size w.delivered) (below : index < size)
    (inside : item index = .ok a) : Confined item size (s.offer w a).delivered := by
  intro b delivered
  cases outcome : s.attempt w.calls with
  | taken =>
      rw [delivered_offer_of_taken outcome, List.mem_append, List.mem_singleton] at delivered
      rcases delivered with before | rfl
      · exact confined b before
      · exact ⟨index, below, inside⟩
  | interrupted =>
      rw [delivered_offer_of_interrupted outcome] at delivered
      exact confined b delivered

/-- What a loop delivers lies before its size. -/
theorem confined_advance (pos : 0 < size) (ended : s.advance item size 0 Wire.fresh = .ok w') :
    Confined item size w'.delivered := by
  have start : Confined item size (Wire.fresh : Wire α).delivered := fun _ none => by cases none
  obtain ⟨last, -, confined⟩ := advance_rule (P := fun _ w => Confined item size w.delivered)
    (fun _ _ _ below inside confined => confined.offer below inside) pos start ended
  exact confined

/-- A loop that never had to run makes one call all the same. -/
theorem delivered_advance_of_nonpos (nonpos : size ≤ 0) (outside : item (-1) = .error e)
    (ended : s.advance item size 0 Wire.fresh = .ok w') :
    w'.delivered.length = 1 ∨ size < 0 ∧ w'.delivered = [] := by
  cases inside : item 0 with
  | error e =>
      rw [advance_of_error inside] at ended
      cases ended
  | ok a =>
      cases outcome : s.attempt 0 with
      | taken =>
          have answer : s.answer (Wire.fresh : Wire α) = 1 := answer_of_taken outcome
          rw [advance_of_reached inside (by omega)] at ended
          cases ended
          left
          rw [delivered_offer_of_taken outcome, Wire.fresh, List.nil_append, List.length_singleton]
      | interrupted =>
          have answer : s.answer (Wire.fresh : Wire α) = -1 := answer_of_interrupted outcome
          by_cases further : -1 < size
          · rw [advance_of_below inside (by omega), answer] at ended
            rw [advance_of_error (by simpa using outside)] at ended
            cases ended
          · rw [advance_of_reached inside (by omega)] at ended
            cases ended
            right
            refine ⟨by omega, ?_⟩
            rw [delivered_offer_of_interrupted outcome, Wire.fresh]

/-- The cells of a list, from `index` on. -/
def Supplies (item : Int → Except ε α) (index : Int) (items : List α) : Prop :=
  ∀ (k : Nat) (a : α), items[k]? = some a → item (index + k) = .ok a

theorem Supplies.head {items : List α} (supplies : Supplies item index (a :: items)) :
    item index = .ok a := by
  simpa using supplies 0 a rfl

theorem Supplies.tail {items : List α} (supplies : Supplies item index (a :: items)) :
    Supplies item (index + 1) items := by
  intro k b found
  have next := supplies (k + 1) b (by rwa [List.getElem?_cons_succ])
  rwa [Int.natCast_succ, Int.add_comm k, ← Int.add_assoc] at next

/-- As long as every call takes its symbol the index is the place of the next one. -/
theorem advance_of_takesAll {items : List α} (nonempty : items ≠ [])
    (supplies : Supplies item index items) (all : s.TakesAll (w.calls + items.length)) :
    s.advance item (index + items.length) index w = .ok (s.offerEach w items) := by
  induction items generalizing index w with
  | nil => exact absurd rfl nonempty
  | cons a items ih =>
      have taken : s.attempt w.calls = .taken := all _ (by rw [List.length_cons]; omega)
      have answer : s.answer w = 1 := answer_of_taken taken
      rw [offerEach_cons]
      by_cases ending : items = []
      · rw [advance_of_reached supplies.head (by rw [ending, answer]; rfl), ending, offerEach_nil]
      · have long := List.length_pos_of_ne_nil ending
        have later := @ih (s.offer w a) (index + 1) ending supplies.tail
          (all.of_le (by rw [calls_offer, List.length_cons]; omega))
        rw [advance_of_below supplies.head (by rw [answer, List.length_cons]; omega), answer,
          ← later, List.length_cons]
        congr 1
        omega

/-- A loop that adds the answers to its index delivers its symbols exactly when every call takes
its own. -/
theorem delivered_advance_iff {items : List α} (nonempty : items ≠ [])
    (supplies : Supplies item 0 items) :
    (∃ w', s.advance item items.length 0 Wire.fresh = .ok w' ∧ w'.delivered = items) ↔
      s.TakesAll items.length := by
  have long := List.length_pos_of_ne_nil nonempty
  constructor
  · intro delivers
    obtain ⟨w', ended, whole⟩ := delivers
    obtain ⟨calls, delivered⟩ := advance_counts (by omega) ended
    rw [whole] at delivered
    rw [show items.length = w'.calls by omega]
    apply interruptions_eq_zero_iff.mp
    omega
  · intro all
    have fresh : (Wire.fresh : Wire α).calls + items.length = items.length := Nat.zero_add _
    have ended := @advance_of_takesAll _ _ s Wire.fresh item 0 items nonempty supplies
      (by rwa [fresh])
    rw [Int.zero_add] at ended
    exact ⟨_, ended, delivered_offerEach_iff.mpr all⟩

end Schedule

end IpcFtp.Lib
