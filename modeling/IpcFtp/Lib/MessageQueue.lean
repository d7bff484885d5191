import IpcFtp.Lib.Guarded

/-!
# Message queues

A queue of messages with room for some of them.  A message is put behind the others and the
first one is taken; a system with a queue views its steps as such transfers.  What is taken is
what was there and what was put in, in this order (`MessageQueue.taken_of_run`).
-/

namespace IpcFtp.Lib

universe u v

variable {μ : Type} {σ : Type u} {lbl : Type v}

inductive Transfer (μ : Type) : Type
  | put (m : μ)
  | take (m : μ)

def Transfer.putMessage : Transfer μ → Option μ
  | .put m => some m
  | .take _ => none

def Transfer.takenMessage : Transfer μ → Option μ
  | .put _ => none
  | .take m => some m

namespace MessageQueue

/-- What a transfer, or none, does to the messages of a queue with so much room. -/
def Moves (room : Nat) (queue : List μ) : Option (Transfer μ) → List μ → Prop
  | none, queue' => queue' = queue
  | some (.put m), queue' => queue.length < room ∧ queue' = queue ++ [m]
  | some (.take m), queue' => queue = m :: queue'

/-- The messages put in along some steps. -/
def putIn (view : lbl → Option (Transfer μ)) (labels : List lbl) : List μ :=
  labels.filterMap fun label => (view label).bind Transfer.putMessage

/-- The messages taken. -/
def takenOut (view : lbl → Option (Transfer μ)) (labels : List lbl) : List μ :=
  labels.filterMap fun label => (view label).bind Transfer.takenMessage

variable {view : lbl → Option (Transfer μ)} {room : Nat} {queue : σ → List μ}

theorem putIn_concat (labels : List lbl) (label : lbl) :
    putIn view (labels ++ [label]) =
      putIn view labels ++ ((view label).bind Transfer.putMessage).toList := by
  unfold putIn
  rw [List.filterMap_append, List.filterMap_cons, List.filterMap_nil]
  cases (view label).bind Transfer.putMessage <;> rfl

theorem takenOut_concat (labels : List lbl) (label : lbl) :
    takenOut view (labels ++ [label]) =
      takenOut view labels ++ ((view label).bind Transfer.takenMessage).toList := by
  unfold takenOut
  rw [List.filterMap_append, List.filterMap_cons, List.filterMap_nil]
  cases (view label).bind Transfer.takenMessage <;> rfl

section Steps

variable {step : σ → lbl → σ → Prop} {guard : σ → lbl → Prop} {s t : σ} {labels : List lbl}

/-- Nothing is lost or doubled, and nothing overtakes. -/
theorem taken_of_run
    (moves : ∀ {s label t}, step s label t → Moves room (queue s) (view label) (queue t))
    (run : Run step guard s labels t) :
    queue s ++ putIn view labels = takenOut view labels ++ queue t := by
  induction run with
  | nil => exact List.append_nil _
  | @snoc middle t labels label _ _ taken ih =>
      have moved := moves taken
      rw [putIn_concat, takenOut_concat, ← List.append_assoc, ih]
      cases seen : view label with
      | none =>
          rw [seen] at moved
          have same : queue t = queue middle := moved
          rw [same, Option.bind_none, Option.bind_none, Option.toList_none, List.append_nil,
            List.append_nil]
      | some transfer =>
          rw [seen] at moved
          cases transfer with
          | put m =>
              rw [moved.2]
              simp [Transfer.putMessage, Transfer.takenMessage]
          | take m =>
              have first : queue middle = m :: queue t := moved
              rw [first]
              simp [Transfer.putMessage, Transfer.takenMessage]

/-- A queue does not outgrow its room. -/
theorem length_of_run
    (moves : ∀ {s label t}, step s label t → Moves room (queue s) (view label) (queue t))
    (run : Run step guard s labels t) (fits : (queue s).length ≤ room) : (queue t).length ≤ room := by
  induction run with
  | nil => exact fits
  | @snoc middle t labels label _ _ taken ih =>
      have moved := moves taken
      cases seen : view label with
      | none =>
          rw [seen] at moved
          have same : queue t = queue middle := moved
          rwa [same]
      | some transfer =>
          rw [seen] at moved
          cases transfer with
          | put m =>
              rw [moved.2, List.length_append]
              exact moved.1
          | take m =>
              have first : queue middle = m :: queue t := moved
              rw [first, List.length_cons] at ih
              exact Nat.le_of_succ_le ih

end Steps

end MessageQueue

end IpcFtp.Lib
