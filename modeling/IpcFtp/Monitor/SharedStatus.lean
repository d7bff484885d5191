import IpcFtp.Lib.Semaphore
import IpcFtp.Monitor.Screen

/-!
# The shared status

`post_status` of `server/monitor_helper.c` and the main loop of `monitor/main.c` as programs over
their accesses to the shared memory and the semaphore.  The processes of the server write under the
semaphore; the monitor has it open and does not use it.

An access to one member of the shared record is one step.
-/

namespace IpcFtp

open Lib Program

/-! ## Calls -/

inductive StatusCall : Type → Type
  | semWait : StatusCall Unit
  | semPost : StatusCall Unit
  | setWorker (worker : Int32) : StatusCall Unit
  | setThread (thread : Int64) : StatusCall Unit
  | setStatus (status : Int32) : StatusCall Unit
  | worker : StatusCall Int32
  | thread : StatusCall Int64
  | status : StatusCall Int32
  /-- `refresh` of a screen that has been drawn -/
  | refresh (screen : Nat → ScreenLine) : StatusCall Unit

abbrev Sharing (α : Type) : Type 1 := Program StatusCall Fault α

abbrev StatusEvent : Type 1 := Event StatusCall

/-- The shared memory and the value of the semaphore. -/
structure SharedStatus : Type where
  record : Observation
  semaphore : Nat

def SharedStatus.happens (s : SharedStatus) (event : StatusEvent) (s' : SharedStatus) : Prop :=
  match event with
  | ⟨.semWait, _⟩ => s.semaphore = s'.semaphore + 1 ∧ s'.record = s.record
  | ⟨.semPost, _⟩ => s' = { s with semaphore := s.semaphore + 1 }
  | ⟨.setWorker worker, _⟩ => s' = { s with record := { s.record with worker } }
  | ⟨.setThread thread, _⟩ => s' = { s with record := { s.record with thread } }
  | ⟨.setStatus status, _⟩ => s' = { s with record := { s.record with status } }
  | ⟨.worker, worker⟩ => worker = s.record.worker ∧ s' = s
  | ⟨.thread, thread⟩ => thread = s.record.thread ∧ s' = s
  | ⟨.status, status⟩ => status = s.record.status ∧ s' = s
  | ⟨.refresh _, _⟩ => s' = s

/-! ## Programs -/

/-- `post_status`; `mapped` tells whether `shared_msg` is set. -/
def postStatus (mapped : Bool) (worker : Int32) (thread : Int64) (status : Int32) : Sharing Unit :=
  if !mapped then return ()
  else do
    perform .semWait
    perform (.setWorker worker)
    perform (.setThread thread)
    perform (.setStatus status)
    perform .semPost

/-- So many turns of the loop of the monitor. -/
def monitorLoop (lines : Nat) : Nat → List MonitorWorker → Sharing Unit
  | 0, _ => return ()
  | turns + 1, workers => do
    if (← perform .worker) = -1 then monitorLoop lines turns workers
    else
      let currentWorker ← perform .worker
      let currentThread ← perform .thread
      let currentStatus ← perform .status
      let workers := observeWorker workers ⟨currentWorker, currentThread, currentStatus⟩
      perform (.refresh (draw lines workers))
      monitorLoop lines turns workers

/-- `main` of the monitor, as far as so many turns. -/
def monitorMain (lines turns : Nat) : Sharing Unit := do
  perform (.setWorker (-1))
  perform (.setThread (-1))
  perform (.setStatus (-1))
  monitorLoop lines turns []

/-! ## Notes -/

/-- Where a process is. -/
inductive StatusNote : Type
  | idle
  | posts (o : Observation)
  /-- behind `sem_wait` -/
  | entered (o : Observation)
  | wroteWorker (o : Observation)
  | wroteThread (o : Observation)
  | wrote (o : Observation)
  | posted (o : Observation)
  /-- the monitor before its own first values -/
  | launches
  | clearedWorker
  | clearedThread
  /-- what it has observed so far -/
  | watches (seen : List Observation)
  | looks (seen : List Observation)
  | sawWorker (seen : List Observation) (worker : Int32)
  | sawThread (seen : List Observation) (worker : Int32) (thread : Int64)
  | draws (seen : List Observation)

def StatusNote.after : StatusNote → StatusEvent → StatusNote
  | .posts o, ⟨.semWait, _⟩ => .entered o
  | .entered o, ⟨.setWorker _, _⟩ => .wroteWorker o
  | .wroteWorker o, ⟨.setThread _, _⟩ => .wroteThread o
  | .wroteThread o, ⟨.setStatus _, _⟩ => .wrote o
  | .wrote o, ⟨.semPost, _⟩ => .posted o
  | .launches, ⟨.setWorker _, _⟩ => .clearedWorker
  | .clearedWorker, ⟨.setThread _, _⟩ => .clearedThread
  | .clearedThread, ⟨.setStatus _, _⟩ => .watches []
  | .watches seen, ⟨.worker, worker⟩ => if worker = -1 then .watches seen else .looks seen
  | .looks seen, ⟨.worker, worker⟩ => .sawWorker seen worker
  | .sawWorker seen worker, ⟨.thread, thread⟩ => .sawThread seen worker thread
  | .sawThread seen worker thread, ⟨.status, status⟩ => .draws (seen ++ [⟨worker, thread, status⟩])
  | .draws seen, ⟨.refresh _, _⟩ => .watches seen
  | note, _ => note

/-- What the monitor draws behind some observations. -/
def screenOf (lines : Nat) (seen : List Observation) : Nat → ScreenLine :=
  draw lines (seen.foldl observeWorker [])

/-- What a process may call. -/
def StatusNote.allows (lines : Nat) : StatusNote → ∀ {β : Type}, StatusCall β → Prop
  | .posts _, _, .semWait => True
  | .entered o, _, .setWorker worker => worker = o.worker
  | .wroteWorker o, _, .setThread thread => thread = o.thread
  | .wroteThread o, _, .setStatus status => status = o.status
  | .wrote _, _, .semPost => True
  | .launches, _, .setWorker worker => worker = -1
  | .clearedWorker, _, .setThread thread => thread = -1
  | .clearedThread, _, .setStatus status => status = -1
  | .watches _, _, .worker => True
  | .looks _, _, .worker => True
  | .sawWorker _ _, _, .thread => True
  | .sawThread _ _ _, _, .status => True
  | .draws seen, _, .refresh screen => screen = screenOf lines seen
  | _, _, _ => False

/-- A thread of the server posts a status. -/
def posters (p : Sharing Unit) (note : StatusNote) : Prop :=
  ∃ o : Observation, p = postStatus true o.worker o.thread o.status ∧ note = .posts o

abbrev StatusProcesses : Type 1 := Processes StatusCall Fault Unit SharedStatus StatusNote Nat

abbrev StatusAct : Type 1 := ProcessesAct StatusCall Fault Unit StatusNote Nat

/-- The monitor begins with a record it finds, and is process 0. -/
def StatusProcesses.start (lines turns : Nat) (found : Observation) : StatusProcesses where
  shared := ⟨found, 1⟩
  running := Function.update (fun _ => none) 0 (some (monitorMain lines turns))
  notes := Function.update (fun _ => .idle) 0 .launches

abbrev StatusProcesses.step : StatusProcesses → StatusAct → StatusProcesses → Prop :=
  Processes.Step SharedStatus.happens StatusNote.after .idle posters

/-! ## The programs keep to their notes -/

abbrev KeepsStatusNotes (lines : Nat) (p : Sharing Unit) (note : StatusNote) : Prop :=
  Processes.KeepsNotes StatusNote.after (StatusNote.allows lines) p note

theorem keepsNotes_of_posters (lines : Nat) (p : Sharing Unit) (note : StatusNote)
    (posts : posters p note) : KeepsStatusNotes lines p note := by
  obtain ⟨o, rfl, rfl⟩ := posts
  simp only [postStatus, Bool.not_true, Bool.false_eq_true, if_false, perform_bind]
  refine ⟨trivial, ?_⟩
  rintro - - rfl
  refine ⟨rfl, ?_⟩
  rintro - - rfl
  refine ⟨rfl, ?_⟩
  rintro - - rfl
  refine ⟨rfl, ?_⟩
  rintro - - rfl
  exact ⟨trivial, fun _ _ _ => trivial⟩

theorem keepsNotes_monitorLoop (lines turns : Nat) (seen : List Observation) :
    KeepsStatusNotes lines (monitorLoop lines turns (seen.foldl observeWorker [])) (.watches seen) := by
  induction turns generalizing seen with
  | zero => trivial
  | succ turns ih =>
      simp only [monitorLoop, perform_bind]
      refine ⟨trivial, ?_⟩
      rintro first - rfl
      beta_reduce
      simp only [StatusNote.after]
      split_ifs with none
      · exact ih seen
      · refine ⟨trivial, ?_⟩
        rintro worker - rfl
        refine ⟨trivial, ?_⟩
        rintro thread - rfl
        refine ⟨trivial, ?_⟩
        rintro status - rfl
        have more := ih (seen ++ [⟨worker, thread, status⟩])
        rw [List.foldl_append, List.foldl_cons, List.foldl_nil] at more
        refine ⟨?_, ?_⟩
        · simp only [StatusNote.allows, screenOf, List.foldl_append, List.foldl_cons, List.foldl_nil]
        · rintro - - rfl
          exact more

theorem keepsNotes_monitorMain (lines turns : Nat) :
    KeepsStatusNotes lines (monitorMain lines turns) .launches := by
  simp only [monitorMain, perform_bind]
  refine ⟨rfl, ?_⟩
  rintro - - rfl
  refine ⟨rfl, ?_⟩
  rintro - - rfl
  refine ⟨rfl, ?_⟩
  rintro - - rfl
  exact keepsNotes_monitorLoop lines turns []

/-! ## One call -/

/-- What a process does with a call. -/
inductive StatusMove (lines : Nat) :
    StatusNote → SharedStatus → StatusEvent → StatusNote → SharedStatus → Prop
  | enter {o r : Observation} {n : Nat} :
    StatusMove lines (.posts o) ⟨r, n + 1⟩ ⟨.semWait, ()⟩ (.entered o) ⟨r, n⟩
  | worker {o r : Observation} {n : Nat} : StatusMove lines (.entered o) ⟨r, n⟩
    ⟨.setWorker o.worker, ()⟩ (.wroteWorker o) ⟨{ r with worker := o.worker }, n⟩
  | thread {o r : Observation} {n : Nat} : StatusMove lines (.wroteWorker o) ⟨r, n⟩
    ⟨.setThread o.thread, ()⟩ (.wroteThread o) ⟨{ r with thread := o.thread }, n⟩
  | status {o r : Observation} {n : Nat} : StatusMove lines (.wroteThread o) ⟨r, n⟩
    ⟨.setStatus o.status, ()⟩ (.wrote o) ⟨{ r with status := o.status }, n⟩
  | leave {o r : Observation} {n : Nat} :
    StatusMove lines (.wrote o) ⟨r, n⟩ ⟨.semPost, ()⟩ (.posted o) ⟨r, n + 1⟩
  | clearWorker {r : Observation} {n : Nat} : StatusMove lines .launches ⟨r, n⟩
    ⟨.setWorker (-1), ()⟩ .clearedWorker ⟨{ r with worker := -1 }, n⟩
  | clearThread {r : Observation} {n : Nat} : StatusMove lines .clearedWorker ⟨r, n⟩
    ⟨.setThread (-1), ()⟩ .clearedThread ⟨{ r with thread := -1 }, n⟩
  | clearStatus {r : Observation} {n : Nat} : StatusMove lines .clearedThread ⟨r, n⟩
    ⟨.setStatus (-1), ()⟩ (.watches []) ⟨{ r with status := -1 }, n⟩
  | wait {seen : List Observation} {s : SharedStatus} : s.record.worker = -1 →
    StatusMove lines (.watches seen) s ⟨.worker, s.record.worker⟩ (.watches seen) s
  | look {seen : List Observation} {s : SharedStatus} : s.record.worker ≠ -1 →
    StatusMove lines (.watches seen) s ⟨.worker, s.record.worker⟩ (.looks seen) s
  | seeWorker {seen : List Observation} {s : SharedStatus} : StatusMove lines (.looks seen) s
    ⟨.worker, s.record.worker⟩ (.sawWorker seen s.record.worker) s
  | seeThread {seen : List Observation} {worker : Int32} {s : SharedStatus} :
    StatusMove lines (.sawWorker seen worker) s ⟨.thread, s.record.thread⟩
      (.sawThread seen worker s.record.thread) s
  | seeStatus {seen : List Observation} {worker : Int32} {thread : Int64} {s : SharedStatus} :
    StatusMove lines (.sawThread seen worker thread) s ⟨.status, s.record.status⟩
      (.draws (seen ++ [⟨worker, thread, s.record.status⟩])) s
  | draw {seen : List Observation} {s : SharedStatus} : StatusMove lines (.draws seen) s
    ⟨.refresh (screenOf lines seen), ()⟩ (.watches seen) s

theorem move_of_happens {lines : Nat} {note : StatusNote} {s s' : SharedStatus} {event : StatusEvent}
    (allowed : note.allows lines event.call) (happened : s.happens event s') :
    StatusMove lines note s event (note.after event) s' := by
  obtain ⟨r, n⟩ := s
  obtain ⟨call, answer⟩ := event
  cases note with
  | posts o =>
      cases call with
      | semWait =>
          obtain ⟨r', n'⟩ := s'
          obtain ⟨rfl, rfl⟩ : n = n' + 1 ∧ r' = r := happened
          exact .enter
      | _ => cases allowed
  | entered o =>
      cases call with
      | setWorker worker =>
          obtain rfl : worker = o.worker := allowed
          obtain rfl := happened
          exact .worker
      | _ => cases allowed
  | wroteWorker o =>
      cases call with
      | setThread thread =>
          obtain rfl : thread = o.thread := allowed
          obtain rfl := happened
          exact .thread
      | _ => cases allowed
  | wroteThread o =>
      cases call with
      | setStatus status =>
          obtain rfl : status = o.status := allowed
          obtain rfl := happened
          exact .status
      | _ => cases allowed
  | wrote o =>
      cases call with
      | semPost =>
          obtain rfl := happened
          exact .leave
      | _ => cases allowed
  | launches =>
      cases call with
      | setWorker worker =>
          obtain rfl : worker = -1 := allowed
          obtain rfl := happened
          exact .clearWorker
      | _ => cases allowed
  | clearedWorker =>
      cases call with
      | setThread thread =>
          obtain rfl : thread = -1 := allowed
          obtain rfl := happened
          exact .clearThread
      | _ => cases allowed
  | clearedThread =>
      cases call with
      | setStatus status =>
          obtain rfl : status = -1 := allowed
          obtain rfl := happened
          exact .clearStatus
      | _ => cases allowed
  | watches seen =>
      cases call with
      | worker =>
          obtain ⟨rfl, rfl⟩ : answer = r.worker ∧ s' = ⟨r, n⟩ := happened
          simp only [StatusNote.after]
          split_ifs with none
          · exact .wait none
          · exact .look none
      | _ => cases allowed
  | looks seen =>
      cases call with
      | worker =>
          obtain ⟨rfl, rfl⟩ : answer = r.worker ∧ s' = ⟨r, n⟩ := happened
          exact .seeWorker
      | _ => cases allowed
  | sawWorker seen worker =>
      cases call with
      | thread =>
          obtain ⟨rfl, rfl⟩ : answer = r.thread ∧ s' = ⟨r, n⟩ := happened
          exact .seeThread
      | _ => cases allowed
  | sawThread seen worker thread =>
      cases call with
      | status =>
          obtain ⟨rfl, rfl⟩ : answer = r.status ∧ s' = ⟨r, n⟩ := happened
          exact .seeStatus
      | _ => cases allowed
  | draws seen =>
      cases call with
      | refresh screen =>
          obtain rfl : screen = screenOf lines seen := allowed
          obtain rfl := happened
          exact .draw
      | _ => cases allowed
  | idle | posted => cases call <;> cases allowed

theorem move_of_step {lines : Nat} {s s' : StatusProcesses} {i : Nat} {event : StatusEvent}
    (contracted : Processes.Contracted StatusNote.after (StatusNote.allows lines) s)
    (taken : StatusProcesses.step s (.call i event) s') :
    StatusMove lines (s.notes i) s.shared event (s'.notes i) s'.shared ∧
      ∀ j, j ≠ i → s'.notes j = s.notes j := by
  obtain ⟨next, -, happened, -, note, others⟩ := Processes.of_step_call taken
  rw [note]
  exact ⟨move_of_happens (contracted.allowed_call taken) happened, fun j other => (others j other).2⟩

end IpcFtp
