import IpcFtp.Lib.Register
import IpcFtp.Monitor.Posts

/-!
# The shared status as a register

If the monitor and the posts took turns at the shared record, as they would if the monitor used
the semaphore, the record would be a register: what the monitor sees is what was posted last
(`shown_of_run`).
-/

namespace IpcFtp

open Lib Program

/-! ## Turns -/

/-- A process is at the record: between its accesses to it. -/
def StatusNote.hasTurn : StatusNote → Bool
  | .entered _ | .wroteWorker _ | .wroteThread _ | .wrote _ => true
  | .clearedWorker | .clearedThread | .sawWorker _ _ | .sawThread _ _ _ => true
  | _ => false

/-- Nobody begins with the record while another is at it, and nobody is stopped there. -/
def inTurns (s : StatusProcesses) : StatusAct → Prop
  | .start _ _ _ => True
  | .call i event => (s.notes i).hasTurn = false → ((s.notes i).after event).hasTurn = true →
    ∀ j, (s.notes j).hasTurn = false
  | .stop i => (s.notes i).hasTurn = false

/-! ## The register -/

/-- The value that is whole in the record behind a call: that of a post behind `sem_post`, and the
first values of the monitor. -/
def wholeBehind : Option Observation → StatusEvent → Option Observation
  | some o, ⟨.semPost, _⟩ => some o
  | none, ⟨.setStatus _, _⟩ => some noStatus
  | _, _ => none

/-- What each process is to post, and what has been written. -/
structure PostHistory : Type where
  pending : Nat → Option Observation
  written : List Observation

def PostHistory.next (h : PostHistory) : StatusAct → PostHistory
  | .start i _ note => { h with pending := Function.update h.pending i note.own }
  | .call i event => { h with written := h.written ++ (wholeBehind (h.pending i) event).toList }
  | .stop _ => h

def history (acts : List StatusAct) : PostHistory := acts.foldl PostHistory.next ⟨fun _ => none, []⟩

/-- The values of the record, in their order. -/
def written (acts : List StatusAct) : List Observation := (history acts).written

/-- What a process at the record has made of its value. -/
def StatusNote.cells : StatusNote → Observation → Observation
  | .wroteWorker o, r => { r with worker := o.worker }
  | .wroteThread o, r => { r with worker := o.worker, thread := o.thread }
  | .wrote o, _ => o
  | .clearedWorker, r => { r with worker := -1 }
  | .clearedThread, r => { r with worker := -1, thread := -1 }
  | _, r => r

/-- What has been read of a value. -/
structure StatusNote.Saw (note : StatusNote) (value : Observation) : Prop where
  worker : ∀ worker, note.workerSeen = some worker → worker = value.worker
  thread : ∀ thread, note.threadSeen = some thread → thread = value.thread

section Moves

variable {lines : Nat} {note note' : StatusNote} {s s' : SharedStatus} {event : StatusEvent}
  {value : Observation}

theorem cells_of_no_turn (out : note.hasTurn = false) : note.cells value = value := by
  cases note <;> first | rfl | cases out

theorem saw_of_none (worker : note.workerSeen = none) (thread : note.threadSeen = none) :
    note.Saw value := ⟨by simp [worker], by simp [thread]⟩

theorem saw_of_no_turn (out : note.hasTurn = false) : note.Saw value := by
  cases note with
  | sawWorker | sawThread => cases out
  | _ => exact saw_of_none rfl rfl

/-- A process that is not at the record leaves all as it is. -/
theorem StatusMove.quiet (move : StatusMove lines note s event note' s') (out : note.hasTurn = false)
    (out' : note'.hasTurn = false) :
    s' = s ∧ wholeBehind note.own event = none ∧ note'.seen = note.seen ∧
      note'.cleared = note.cleared := by
  cases move with
  | wait | look | draw => exact ⟨rfl, rfl, rfl, rfl⟩
  | enter | clearWorker | seeWorker => cases out'
  | _ => cases out

/-- A process that is alone at the record goes on with it. -/
theorem StatusMove.cells (move : StatusMove lines note s event note' s')
    (record : s.record = note.cells value) :
    s'.record = note'.cells ((wholeBehind note.own event).getD value) := by
  cases move with
  | worker | thread | status | clearWorker | clearThread | clearStatus =>
      obtain rfl := record
      rfl
  | _ => exact record

theorem StatusMove.saw (move : StatusMove lines note s event note' s')
    (record : s.record = note.cells value) (saw : note.Saw value) :
    note'.Saw ((wholeBehind note.own event).getD value) := by
  cases move with
  | seeWorker =>
      refine ⟨?_, by rintro _ ⟨⟩⟩
      rintro _ ⟨⟩
      exact congrArg Observation.worker record
  | seeThread =>
      refine ⟨saw.worker, ?_⟩
      rintro _ ⟨⟩
      exact congrArg Observation.thread record
  | _ => exact saw_of_none rfl rfl

/-- It sees the value, whole. -/
theorem StatusMove.seen (move : StatusMove lines note s event note' s')
    (record : s.record = note.cells value) (saw : note.Saw value) :
    note'.seen = note.seen ∨ note'.seen = note.seen ++ [value] ∧ note.cleared = 3 ∧
      wholeBehind note.own event = none := by
  cases move with
  | seeStatus =>
      have worker := saw.worker _ rfl
      have thread := saw.thread _ rfl
      have same : s.record = value := record
      refine .inr ⟨?_, rfl, rfl⟩
      rw [worker, thread, same]
      rfl
  | _ => exact .inl rfl

theorem StatusMove.cleared (move : StatusMove lines note s event note' s')
    (behind : note'.cleared = 3) :
    note.cleared = 3 ∨ wholeBehind note.own event = some noStatus := by
  cases move <;> first | exact .inl rfl | exact .inr rfl | cases behind

/-- What is posted stays. -/
theorem StatusMove.own (move : StatusMove lines note s event note' s') : note'.own = note.own := by
  cases move <;> rfl

end Moves

/-- The last value of the record, which began with the one that was found. -/
def current (found : Observation) (acts : List StatusAct) : Observation :=
  (written acts).getLastD found

/-- In turns, the record holds its last value, as far as the process at it has not overwritten it,
and what has been seen are values of it. -/
structure KeptWhole (found : Observation) (past : List StatusAct) (s : StatusProcesses) : Prop where
  unique : ∀ i j, (s.notes i).hasTurn = true → (s.notes j).hasTurn = true → i = j
  atRecord : ∀ i, (s.notes i).hasTurn = true →
    s.shared.record = (s.notes i).cells (current found past)
  free : (∀ i, (s.notes i).hasTurn = false) → s.shared.record = current found past
  pending : ∀ i, s.notes i ≠ .idle → (history past).pending i = (s.notes i).own
  register : ∀ i, Register (written past) (s.notes i).seen
  behind : ∀ i, (s.notes i).cleared = 3 → written past ≠ []
  saw : ∀ i, (s.notes i).Saw (current found past)

section Turns

variable {lines turns : Nat} {found : Observation} {past acts : List StatusAct}
  {s s' : StatusProcesses} {act : StatusAct}

theorem history_concat : history (past ++ [act]) = (history past).next act := by
  rw [history, List.foldl_append]
  rfl

theorem current_concat {value : Option Observation}
    (more : written (past ++ [act]) = written past ++ value.toList) :
    current found (past ++ [act]) = value.getD (current found past) := by
  cases value with
  | none =>
      rw [Option.toList_none, List.append_nil] at more
      rw [current, more]
      rfl
  | some o =>
      rw [current, more]
      simp

/-- A process that is at the record, or begins there, is alone at it. -/
theorem KeptWhole.alone (kept : KeptWhole found past s) {i : Nat}
    (others : ∀ j, j ≠ i → (s.notes j).hasTurn = false) :
    s.shared.record = (s.notes i).cells (current found past) := by
  cases out : (s.notes i).hasTurn with
  | true => exact kept.atRecord i out
  | false =>
      rw [cells_of_no_turn out]
      refine kept.free fun j => ?_
      rcases eq_or_ne j i with rfl | other
      · exact out
      · exact others j other

/-- What does not touch the record. -/
theorem KeptWhole.outside (kept : KeptWhole found past s) {i : Nat} {note : StatusNote}
    (running : Nat → Option (Sharing Unit)) (out : note.hasTurn = false)
    (gone : (s.notes i).hasTurn = false) (none : note.seen = []) (new : note.cleared = 0)
    (same : written (past ++ [act]) = written past)
    (pending : ∀ j, (Function.update s.notes i note j) ≠ .idle →
      (history (past ++ [act])).pending j = (Function.update s.notes i note j).own) :
    KeptWhole found (past ++ [act])
      { s with running := running, notes := Function.update s.notes i note } := by
  have value : current found (past ++ [act]) = current found past := by rw [current, same, current]
  have cases (j : Nat) : Function.update s.notes i note j = s.notes j ∨
      Function.update s.notes i note j = note := by
    rcases eq_or_ne j i with rfl | other
    · exact .inr (Function.update_self ..)
    · exact .inl (Function.update_of_ne other ..)
  have others {j : Nat} (turn : (Function.update s.notes i note j).hasTurn = true) :
      Function.update s.notes i note j = s.notes j := by
    rcases cases j with old | new
    · exact old
    · rw [new, out] at turn
      cases turn
  refine ⟨?_, ?_, ?_, pending, ?_, ?_, ?_⟩
  · intro j k first second
    have first' := others first
    have second' := others second
    dsimp only at first second
    rw [first'] at first
    rw [second'] at second
    exact kept.unique j k first second
  · intro j turn
    have old := others turn
    dsimp only at turn ⊢
    rw [old] at turn ⊢
    rw [value]
    exact kept.atRecord j turn
  · intro nobody
    rw [value]
    refine kept.free fun j => ?_
    have here := nobody j
    dsimp only at here
    rcases eq_or_ne j i with rfl | other
    · exact gone
    · rwa [Function.update_of_ne other] at here
  · intro j
    dsimp only
    rw [same]
    rcases cases j with old | new
    · rw [old]
      exact kept.register j
    · rw [new, none]
      exact Register.writes .new (written past)
  · intro j behind
    dsimp only at behind
    rw [same]
    rcases cases j with old | fresh
    · exact kept.behind j (old ▸ behind)
    · rw [fresh, new] at behind
      cases behind
  · intro j
    dsimp only
    rw [value]
    rcases cases j with old | fresh
    · rw [old]
      exact kept.saw j
    · rw [fresh]
      exact saw_of_no_turn out

theorem KeptWhole.own (kept : KeptWhole found past s) {i : Nat} {event : StatusEvent}
    {note' : StatusNote} {shared' : SharedStatus}
    (move : StatusMove lines (s.notes i) s.shared event note' shared') :
    (history past).pending i = (s.notes i).own := by
  refine kept.pending i ?_
  intro idle
  rw [idle] at move
  cases move

theorem KeptWhole.pending_call (kept : KeptWhole found past s) {i : Nat} {event : StatusEvent}
    (move : StatusMove lines (s.notes i) s.shared event (s'.notes i) s'.shared)
    (others : ∀ j, j ≠ i → s'.notes j = s.notes j) (j : Nat) (awake : s'.notes j ≠ .idle) :
    (history (past ++ [.call i event])).pending j = (s'.notes j).own := by
  rw [history_concat]
  change (history past).pending j = _
  rcases eq_or_ne j i with rfl | other
  · rw [kept.own move, move.own]
  · rw [others j other] at awake ⊢
    exact kept.pending j awake

/-- A process that is at the record, or begins there, or leaves it. -/
theorem KeptWhole.moved (kept : KeptWhole found past s) {i : Nat} {event : StatusEvent}
    (move : StatusMove lines (s.notes i) s.shared event (s'.notes i) s'.shared)
    (others : ∀ j, j ≠ i → s'.notes j = s.notes j)
    (alone : ∀ j, j ≠ i → (s.notes j).hasTurn = false) :
    KeptWhole found (past ++ [.call i event]) s' := by
  have own := kept.own move
  have more : written (past ++ [.call i event]) =
      written past ++ (wholeBehind (s.notes i).own event).toList := by
    rw [written, history_concat, PostHistory.next, own, written]
  have value := @current_concat found _ _ _ more
  have record := kept.alone alone
  have record' := move.cells record
  have saw' := move.saw record (kept.saw i)
  rw [← value] at record' saw'
  have out {j : Nat} (other : j ≠ i) : (s'.notes j).hasTurn = false := by
    rw [others j other]
    exact alone j other
  have mover {j : Nat} (turn : (s'.notes j).hasTurn = true) : j = i := by
    by_contra other
    rw [out other] at turn
    cases turn
  refine ⟨?_, ?_, ?_, kept.pending_call move others, ?_, ?_, ?_⟩
  · intro j k first second
    exact (mover first).trans (mover second).symm
  · intro j turn
    rw [mover turn]
    exact record'
  · intro nobody
    rw [cells_of_no_turn (nobody i)] at record'
    exact record'
  · intro j
    rw [more]
    rcases eq_or_ne j i with rfl | other
    · rcases move.seen record (kept.saw j) with same | ⟨grown, behind, none⟩
      · rw [same]
        exact (kept.register j).writes _
      · obtain ⟨front, last, whole⟩ :=
          (List.eq_nil_or_concat' _).resolve_left (kept.behind j behind)
        have before := kept.register j
        have latest : current found past = last := by simp [current, whole]
        rw [whole] at before
        rw [grown, none, Option.toList_none, List.append_nil, whole, latest]
        exact .read before
    · rw [others j other]
      exact (kept.register j).writes _
  · intro j behind
    rw [more]
    rcases eq_or_ne j i with rfl | other
    · rcases move.cleared behind with before | first
      · simp [kept.behind j before]
      · simp [first]
    · rw [others j other] at behind
      simp [kept.behind j behind]
  · intro j
    rcases eq_or_ne j i with rfl | other
    · exact saw'
    · exact saw_of_no_turn (out other)

/-- A process that stays away while another is at the record. -/
theorem KeptWhole.stayed (kept : KeptWhole found past s) {i : Nat} {event : StatusEvent}
    (move : StatusMove lines (s.notes i) s.shared event (s'.notes i) s'.shared)
    (others : ∀ j, j ≠ i → s'.notes j = s.notes j) (out : (s.notes i).hasTurn = false)
    (out' : (s'.notes i).hasTurn = false) : KeptWhole found (past ++ [.call i event]) s' := by
  obtain ⟨shared, none, seen, cleared⟩ := move.quiet out out'
  have own := kept.own move
  have same : written (past ++ [.call i event]) = written past := by
    rw [written, history_concat, PostHistory.next, own, none, Option.toList_none, List.append_nil,
      written]
  have value : current found (past ++ [.call i event]) = current found past := by
    rw [current, same, current]
  have turns (j : Nat) : (s'.notes j).hasTurn = (s.notes j).hasTurn := by
    rcases eq_or_ne j i with rfl | other
    · rw [out, out']
    · rw [others j other]
  refine ⟨?_, ?_, ?_, kept.pending_call move others, ?_, ?_, ?_⟩
  · intro j k first second
    rw [turns] at first second
    exact kept.unique j k first second
  · intro j turn
    rw [shared, value]
    rcases eq_or_ne j i with rfl | other
    · rw [out'] at turn
      cases turn
    · rw [others j other] at turn ⊢
      exact kept.atRecord j turn
  · intro nobody
    rw [shared, value]
    exact kept.free fun j => (turns j).symm.trans (nobody j)
  · intro j
    rw [same]
    rcases eq_or_ne j i with rfl | other
    · rw [seen]
      exact kept.register j
    · rw [others j other]
      exact kept.register j
  · intro j behind
    rw [same]
    rcases eq_or_ne j i with rfl | other
    · exact kept.behind j (cleared.symm.trans behind)
    · rw [others j other] at behind
      exact kept.behind j behind
  · intro j
    rw [value]
    rcases eq_or_ne j i with rfl | other
    · exact saw_of_no_turn out'
    · rw [others j other]
      exact kept.saw j

theorem KeptWhole.step (kept : KeptWhole found past s) (idles : Processes.Idles .idle s)
    (contracted : Processes.Contracted StatusNote.after (StatusNote.allows lines) s)
    (allowed : inTurns s act) (taken : StatusProcesses.step s act s') :
    KeptWhole found (past ++ [act]) s' := by
  cases act with
  | start i p note =>
      cases taken with
      | start free begins =>
          obtain ⟨o, -, rfl⟩ := begins
          refine kept.outside _ rfl ?_ rfl rfl ?_ ?_
          · rw [idles i free]
            rfl
          · rw [written, history_concat]
            rfl
          · intro j awake
            rw [history_concat]
            change Function.update (history past).pending i _ j = _
            rcases eq_or_ne j i with rfl | other
            · rw [Function.update_self, Function.update_self]
            · rw [Function.update_of_ne other] at awake ⊢
              rw [Function.update_of_ne other]
              exact kept.pending j awake
  | stop i =>
      cases taken
      refine kept.outside _ rfl allowed rfl rfl ?_ ?_
      · rw [written, history_concat]
        rfl
      · intro j awake
        rw [history_concat]
        change (history past).pending j = _
        rcases eq_or_ne j i with rfl | other
        · rw [Function.update_self] at awake
          exact absurd rfl awake
        · rw [Function.update_of_ne other] at awake ⊢
          exact kept.pending j awake
  | call i event =>
      obtain ⟨move, others⟩ := move_of_step contracted taken
      have after : s'.notes i = (s.notes i).after event := by
        obtain ⟨-, -, -, -, note, -⟩ := Processes.of_step_call taken
        exact note
      by_cases alone : ∀ j, j ≠ i → (s.notes j).hasTurn = false
      · exact kept.moved move others alone
      · -- another is at the record, so this process neither is nor begins there
        simp only [not_forall, Bool.not_eq_false] at alone
        obtain ⟨j, other, turn⟩ := alone
        have out : (s.notes i).hasTurn = false := by
          rw [← Bool.not_eq_true]
          exact fun here => other (kept.unique j i turn here)
        have out' : (s'.notes i).hasTurn = false := by
          rw [← Bool.not_eq_true, after]
          intro begins
          rw [allowed out begins j] at turn
          cases turn
        exact kept.stayed move others out out'

/-- At the start nobody is at the record. -/
theorem keptWhole_start (lines turns : Nat) (found : Observation) :
    KeptWhole found [] (StatusProcesses.start lines turns found) := by
  have notes (i : Nat) : (StatusProcesses.start lines turns found).notes i = .launches ∨
      (StatusProcesses.start lines turns found).notes i = .idle := by
    simp only [StatusProcesses.start, Function.update_apply]
    split_ifs
    · exact .inl rfl
    · exact .inr rfl
  have out (i : Nat) : ((StatusProcesses.start lines turns found).notes i).hasTurn = false := by
    rcases notes i with same | same <;> rw [same] <;> rfl
  refine ⟨?_, ?_, fun _ => rfl, ?_, ?_, ?_, fun i => saw_of_no_turn (out i)⟩
  · intro i j first
    rw [out] at first
    cases first
  · intro i turn
    rw [out] at turn
    cases turn
  · intro i awake
    rcases notes i with same | same
    · rw [same]
      rfl
    · exact absurd same awake
  · intro i
    rcases notes i with same | same <;> rw [same] <;> exact .new
  · intro i behind
    rcases notes i with same | same <;> rw [same] at behind <;> cases behind

theorem idles_start (lines turns : Nat) (found : Observation) :
    Processes.Idles .idle (StatusProcesses.start lines turns found) := by
  intro i stopped
  simp only [StatusProcesses.start, Function.update_apply] at stopped ⊢
  split_ifs at stopped ⊢
  rfl

theorem keptWhole_of_run
    (run : Run StatusProcesses.step inTurns (.start lines turns found) acts s) :
    KeptWhole found acts s ∧ Processes.Idles .idle s := by
  induction run with
  | nil => exact ⟨keptWhole_start lines turns found, idles_start lines turns found⟩
  | snoc front allowed taken ih =>
      exact ⟨ih.1.step ih.2 (apart_of_run front).2 allowed taken, ih.2.step taken⟩

/-- If the monitor and the posts take turns, a screen is the screen of the posts as they are read
from a register; where the threads of a worker differ as an `int`, it shows each with the last
status that was seen of it. -/
theorem shown_of_run {screen : Nat → ScreenLine}
    (run : Run StatusProcesses.step inTurns (.start lines turns found) (acts ++ [act]) s)
    (shows : shown act = some screen) :
    ∃ seen, Register (written acts) seen ∧ screen = screenOf lines seen ∧
      (ThreadsApart (written acts) →
        screen = display lines ((observedWorkers seen).flatMap MonitorWorker.rows)) := by
  obtain ⟨middle, front, -, taken⟩ := run_concat.mp run
  obtain ⟨i, seen, noted, rfl⟩ := draws_of_shown (apart_of_run front).2 taken shows
  have register := (keptWhole_of_run front).1.register i
  rw [noted] at register
  refine ⟨seen, register, rfl, fun apart => ?_⟩
  have subset : seen ⊆ written acts := register.subset
  have apartSeen : ThreadsApart seen := fun o member o' member' =>
    apart o (subset member) o' (subset member')
  rw [screenOf, draw_eq, (foldl_observeWorker_iff seen).mpr apartSeen]

end Turns

/-! ## A run -/

namespace Posting

/-- The monitor looks behind a post. -/
def acts : List StatusAct :=
  launchTrace.map (.call 0) ++ (startPost 1 okPost :: (postTrace okPost).map (.call 1)) ++
    (lookTrace okPost ++ finishTrace okPost).map (.call 0)

theorem run_acts : ∃ s, Run StatusProcesses.step inTurns (.start 24 1 noStatus)
    (acts ++ [refreshes okPost]) s := by
  have alone {s : StatusProcesses} {i : Nat} (out : ∀ j, j ≠ i → (s.notes j).hasTurn = false)
      (t : StatusProcesses) (event : StatusEvent) (same : ∀ j, j ≠ i → t.notes j = s.notes j) :
      inTurns t (.call i event) := by
    intro here _ j
    rcases eq_or_ne j i with rfl | other
    · exact here
    · rw [same j other]
      exact out j other
  have quiet (j : Nat) (other : j ≠ 0) :
      ((StatusProcesses.start 24 1 noStatus).notes j).hasTurn = false := by
    simp only [StatusProcesses.start, Function.update_apply, if_neg other]
    rfl
  obtain ⟨s₁, launch, shared, running, noted, others⟩ :=
    @run_stretch inTurns (.start 24 1 noStatus) 0 _ _ _ _ _ rfl (leads_launch 24 1) rfl
      (through_launch noStatus) (alone quiet)
  have quiet₁ (j : Nat) : (s₁.notes j).hasTurn = false := by
    rcases eq_or_ne j 0 with rfl | other
    · rw [noted]
      rfl
    · rw [(others j other).2]
      exact quiet j other
  obtain ⟨s₂, ok, shared₂, noted₂, others₂⟩ := @run_post inTurns s₁ 1 noStatus okPost
    (others 1 (by decide)).1 shared trivial (alone fun j _ => quiet₁ j)
  have quiet₂ (j : Nat) : (s₂.notes j).hasTurn = false := by
    rcases eq_or_ne j 1 with rfl | other
    · rw [noted₂]
      rfl
    · rw [(others₂ j other).2]
      exact quiet₁ j
  obtain ⟨s₃, look, shared₃, running₃, -, others₃⟩ := @run_stretch inTurns s₂ 0 _ _ _ _ _
    ((others₂ 0 (by decide)).1.trans running) (leads_look (by decide)) shared₂ (through_look okPost)
      (alone fun j _ => quiet₂ j)
  have quiet₃ (j : Nat) (other : j ≠ 0) : (s₃.notes j).hasTurn = false := by
    rw [(others₃ j other).2]
    exact quiet₂ j
  obtain ⟨s₄, finish, -, running₄, -, others₄⟩ := @run_stretch inTurns s₃ 0 _ _ _ _ _ running₃
    (leads_finish okPost.worker okPost) shared₃ (through_finish okPost) (alone quiet₃)
  have draws : inTurns s₄ (refreshes okPost) :=
    alone quiet₃ s₄ _ fun j other => (others₄ j other).2
  exact ⟨_, (((launch.append ok).append look).append finish).snoc draws (.call running₄ rfl)⟩

theorem apart_acts : ThreadsApart (written acts) := by
  have values : written acts = [noStatus, okPost] := rfl
  rw [values, ThreadsApart]
  decide

end Posting

/-- Behind a post its thread is shown. -/
theorem shown_of_run_ok : ∃ seen, Register [noStatus, Posting.okPost] seen ∧
    screenOf 24 [Posting.okPost] = screenOf 24 seen ∧
    screenOf 24 [Posting.okPost] = display 24 ((observedWorkers seen).flatMap MonitorWorker.rows) := by
  obtain ⟨s, run⟩ := Posting.run_acts
  obtain ⟨seen, register, same, shown⟩ := shown_of_run run rfl
  exact ⟨seen, register, same, shown Posting.apart_acts⟩

end IpcFtp
