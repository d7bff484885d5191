import IpcFtp.Monitor.SharedStatus

/-!
# What the monitor sees of the posts

The monitor and any number of posts, access by access in any order; each may be stopped anywhere.

* `blocked_of_stop`: a post that is stopped half way is the last one.
* `seen_of_run`: in every run the posts keep apart, but the monitor may see one half done.
-/

namespace IpcFtp

open Lib Program

/-! ## The semaphore -/

def StatusNote.inside : StatusNote → Bool
  | .entered _ | .wroteWorker _ | .wroteThread _ | .wrote _ => true
  | _ => false

def semaphoreUse : StatusEvent → SemaphoreUse
  | ⟨.semWait, _⟩ => .wait
  | ⟨.semPost, _⟩ => .post
  | _ => .none

def statusSemaphore (lines : Nat) : Semaphore SharedStatus.happens StatusNote.after .idle posters
    (StatusNote.allows lines) where
  value := SharedStatus.semaphore
  use := semaphoreUse
  inside := StatusNote.inside
  value_happens := by
    rintro ⟨r, n⟩ ⟨call, answer⟩ s' happened
    cases call with
    | semWait => exact happened.1
    | semPost =>
        obtain rfl := happened
        rfl
    | setWorker | setThread | setStatus | refresh =>
        obtain rfl := happened
        rfl
    | worker | thread | status =>
        obtain ⟨-, rfl⟩ := happened
        rfl
  inside_note := by
    rintro g ⟨call, answer⟩ allowed
    cases g with
    | watches seen =>
        cases call with
        | worker =>
            simp only [semaphoreUse, StatusNote.after]
            split_ifs <;> rfl
        | _ => cases allowed
    | wrote o =>
        cases call with
        | semPost => exact ⟨rfl, rfl⟩
        | _ => cases allowed
    | _ =>
        cases call <;> first | rfl | cases allowed
  outside_idle := rfl
  outside_starts := by
    rintro p first ⟨o, -, rfl⟩
    rfl

theorem apart_start (lines turns : Nat) (found : Observation) :
    (statusSemaphore lines).Apart (StatusProcesses.start lines turns found) := by
  have outside (i : Nat) :
      ((StatusProcesses.start lines turns found).notes i).inside = false := by
    simp only [StatusProcesses.start, Function.update_apply]
    split_ifs <;> rfl
  refine ⟨le_rfl, fun _ => outside, ?_⟩
  intro i j first
  rw [show (statusSemaphore lines).inside = StatusNote.inside from rfl, outside] at first
  cases first

theorem contracted_start (lines turns : Nat) (found : Observation) :
    Processes.Contracted StatusNote.after (StatusNote.allows lines)
      (StatusProcesses.start lines turns found) := by
  intro i p running
  simp only [StatusProcesses.start, Function.update_apply] at running ⊢
  split_ifs at running ⊢
  · cases running
    exact keepsNotes_monitorMain lines turns

section Runs

variable {lines turns : Nat} {found : Observation} {acts : List StatusAct} {s s' : StatusProcesses}
  {guard : StatusProcesses → StatusAct → Prop}

theorem apart_of_run
    (run : Run StatusProcesses.step guard (.start lines turns found) acts s) :
    (statusSemaphore lines).Apart s ∧
      Processes.Contracted StatusNote.after (StatusNote.allows lines) s :=
  Semaphore.Apart.run run (apart_start lines turns found) (contracted_start lines turns found)
    (keepsNotes_of_posters lines)

/-- A post that is stopped between `sem_wait` and `sem_post` is the last one: nobody comes past
`sem_wait` again. -/
theorem blocked_of_stop (run : Run StatusProcesses.step unguarded (.start lines turns found) acts s)
    {i : Nat} (inside : (s.notes i).inside = true) (stopped : StatusProcesses.step s (.stop i) s')
    {later : List StatusAct} {t : StatusProcesses}
    (goesOn : Run StatusProcesses.step unguarded s' later t) (j : Nat) :
    .call j ⟨.semWait, ()⟩ ∉ later ∧ .call j ⟨.semPost, ()⟩ ∉ later := by
  obtain ⟨apart, contracted⟩ := apart_of_run run
  have lost := Semaphore.Apart.lost apart inside stopped
  have kept := contracted.step (keepsNotes_of_posters lines) stopped
  obtain ⟨-, -, unused⟩ := Semaphore.Lost.run goesOn lost kept (keepsNotes_of_posters lines)
  constructor
  · intro member
    cases unused _ member
  · intro member
    cases unused _ member

end Runs

/-! ## What the monitor sees in every run -/

/-- Every member is that of one of some observations. -/
structure Mixed (os : List Observation) (o : Observation) : Prop where
  worker : o.worker ∈ os.map Observation.worker
  thread : o.thread ∈ os.map Observation.thread
  status : o.status ∈ os.map Observation.status

/-- The first values of the monitor. -/
def noStatus : Observation := ⟨-1, -1, -1⟩

def posting : StatusAct → Option Observation
  | .start _ _ (.posts o) => some o
  | _ => none

/-- The statuses that threads have begun to post. -/
def toPost (acts : List StatusAct) : List Observation := acts.filterMap posting

/-- What a poster posts. -/
def StatusNote.own : StatusNote → Option Observation
  | .posts o | .entered o | .wroteWorker o | .wroteThread o | .wrote o | .posted o => some o
  | _ => none

/-- So many members of the record are not older than the monitor. -/
def StatusNote.cleared : StatusNote → Nat
  | .clearedWorker => 1
  | .clearedThread => 2
  | .watches _ | .looks _ | .sawWorker _ _ | .sawThread _ _ _ | .draws _ => 3
  | _ => 0

def StatusNote.seen : StatusNote → List Observation
  | .watches seen | .looks seen | .sawWorker seen _ | .sawThread seen _ _ | .draws seen => seen
  | _ => []

def StatusNote.workerSeen : StatusNote → Option Int32
  | .sawWorker _ worker | .sawThread _ worker _ => some worker
  | _ => none

def StatusNote.threadSeen : StatusNote → Option Int64
  | .sawThread _ _ thread => some thread
  | _ => none

/-- What a process has seen, and may see of a record, comes from some observations. -/
structure StatusNote.Backed (os : List Observation) (r : Observation) (note : StatusNote) : Prop where
  own : ∀ o, note.own = some o → o ∈ os
  worker : 1 ≤ note.cleared → r.worker ∈ os.map Observation.worker
  thread : 2 ≤ note.cleared → r.thread ∈ os.map Observation.thread
  status : 3 ≤ note.cleared → r.status ∈ os.map Observation.status
  seen : ∀ o ∈ note.seen, Mixed os o
  workerSeen : ∀ worker, note.workerSeen = some worker → worker ∈ os.map Observation.worker
  threadSeen : ∀ thread, note.threadSeen = some thread → thread ∈ os.map Observation.thread

/-- A record after a write: each member is the old one or comes from the observations. -/
structure Rewritten (os : List Observation) (r r' : Observation) : Prop where
  worker : r'.worker = r.worker ∨ r'.worker ∈ os.map Observation.worker
  thread : r'.thread = r.thread ∨ r'.thread ∈ os.map Observation.thread
  status : r'.status = r.status ∨ r'.status ∈ os.map Observation.status

section Backed

variable {lines : Nat} {os more : List Observation} {r r' : Observation} {note note' : StatusNote}

theorem Mixed.mono {o : Observation} (mixed : Mixed os o) (longer : os ⊆ more) : Mixed more o :=
  ⟨List.map_subset _ longer mixed.worker, List.map_subset _ longer mixed.thread,
    List.map_subset _ longer mixed.status⟩

theorem StatusNote.Backed.rewritten (backed : note.Backed os r) (written : Rewritten os r r') :
    note.Backed os r' where
  own := backed.own
  worker cleared := written.worker.elim (fun same => same ▸ backed.worker cleared) id
  thread cleared := written.thread.elim (fun same => same ▸ backed.thread cleared) id
  status cleared := written.status.elim (fun same => same ▸ backed.status cleared) id
  seen := backed.seen
  workerSeen := backed.workerSeen
  threadSeen := backed.threadSeen

theorem StatusNote.Backed.mono (backed : note.Backed os r) (longer : os ⊆ more) :
    note.Backed more r where
  own o same := longer (backed.own o same)
  worker cleared := List.map_subset _ longer (backed.worker cleared)
  thread cleared := List.map_subset _ longer (backed.thread cleared)
  status cleared := List.map_subset _ longer (backed.status cleared)
  seen o member := (backed.seen o member).mono longer
  workerSeen w same := List.map_subset _ longer (backed.workerSeen w same)
  threadSeen t same := List.map_subset _ longer (backed.threadSeen t same)

theorem backed_posts {o : Observation} (member : o ∈ os) : (StatusNote.posts o).Backed os r := by
  refine ⟨?_, by simp [StatusNote.cleared], by simp [StatusNote.cleared],
    by simp [StatusNote.cleared], by simp [StatusNote.seen], by simp [StatusNote.workerSeen],
    by simp [StatusNote.threadSeen]⟩
  rintro _ ⟨⟩
  exact member

theorem backed_idle : StatusNote.idle.Backed os r := by
  constructor <;>
    simp [StatusNote.own, StatusNote.cleared, StatusNote.seen, StatusNote.workerSeen,
      StatusNote.threadSeen]

theorem Rewritten.refl (os : List Observation) (r : Observation) : Rewritten os r r :=
  ⟨.inl rfl, .inl rfl, .inl rfl⟩

/-- A note that tells no more. -/
theorem StatusNote.Backed.of_same (backed : note.Backed os r) (own : note'.own = note.own)
    (cleared : note'.cleared = note.cleared) (seen : note'.seen = note.seen)
    (workerSeen : note'.workerSeen = none) (threadSeen : note'.threadSeen = none) :
    note'.Backed os r where
  own := own ▸ backed.own
  worker := cleared ▸ backed.worker
  thread := cleared ▸ backed.thread
  status := cleared ▸ backed.status
  seen := seen ▸ backed.seen
  workerSeen := by simp [workerSeen]
  threadSeen := by simp [threadSeen]

theorem member_worker (o : Observation) (member : o ∈ os) :
    o.worker ∈ os.map Observation.worker := List.mem_map_of_mem member

theorem member_thread (o : Observation) (member : o ∈ os) :
    o.thread ∈ os.map Observation.thread := List.mem_map_of_mem member

theorem member_status (o : Observation) (member : o ∈ os) :
    o.status ∈ os.map Observation.status := List.mem_map_of_mem member

/-- What a process writes is backed. -/
theorem StatusMove.rewritten {s s' : SharedStatus} {event : StatusEvent}
    (move : StatusMove lines note s event note' s') (own : ∀ o, note.own = some o → o ∈ os)
    (first : noStatus ∈ os) : Rewritten os s.record s'.record := by
  cases move with
  | @worker o => exact ⟨.inr (member_worker o (own o rfl)), .inl rfl, .inl rfl⟩
  | @thread o => exact ⟨.inl rfl, .inr (member_thread o (own o rfl)), .inl rfl⟩
  | @status o => exact ⟨.inl rfl, .inl rfl, .inr (member_status o (own o rfl))⟩
  | clearWorker => exact ⟨.inr (member_worker noStatus first), .inl rfl, .inl rfl⟩
  | clearThread => exact ⟨.inl rfl, .inr (member_thread noStatus first), .inl rfl⟩
  | clearStatus => exact ⟨.inl rfl, .inl rfl, .inr (member_status noStatus first)⟩
  | enter | leave | wait | look | seeWorker | seeThread | seeStatus | draw => exact .refl _ _

/-- What it has seen is backed, too. -/
theorem StatusMove.backed {s s' : SharedStatus} {event : StatusEvent}
    (move : StatusMove lines note s event note' s') (backed : note.Backed os s.record)
    (first : noStatus ∈ os) : note'.Backed os s'.record := by
  have still : note.Backed os s'.record := backed.rewritten (move.rewritten backed.own first)
  have one : 1 ≤ 3 := by decide
  have two : 2 ≤ 3 := by decide
  cases move with
  | wait => exact still
  | enter | worker | thread | status | leave | look | draw =>
      exact still.of_same rfl rfl rfl rfl rfl
  | clearWorker =>
      exact { still with
        worker := fun _ => member_worker noStatus first
        thread := fun more => absurd more (by decide)
        status := fun more => absurd more (by decide) }
  | clearThread =>
      exact { still with
        worker := fun _ => still.worker le_rfl
        thread := fun _ => member_thread noStatus first
        status := fun more => absurd more (by decide) }
  | clearStatus =>
      exact { still with
        worker := fun _ => still.worker (by decide)
        thread := fun _ => still.thread le_rfl
        status := fun _ => member_status noStatus first }
  | seeWorker =>
      refine { still with workerSeen := ?_ }
      rintro _ ⟨⟩
      exact still.worker one
  | seeThread =>
      refine { still with threadSeen := ?_ }
      rintro _ ⟨⟩
      exact still.thread two
  | seeStatus =>
      refine { still with seen := ?_, workerSeen := ?_, threadSeen := ?_ }
      · simp only [StatusNote.seen]
        rw [List.forall_mem_append, List.forall_mem_singleton]
        exact ⟨still.seen, ⟨still.workerSeen _ rfl, still.threadSeen _ rfl, still.status le_rfl⟩⟩
      · rintro _ ⟨⟩
      · rintro _ ⟨⟩

end Backed

/-! ## Every run -/

/-- The screen that an act shows. -/
def shown : StatusAct → Option (Nat → ScreenLine)
  | .call _ ⟨.refresh screen, _⟩ => some screen
  | _ => none

section Seen

variable {lines turns : Nat} {found : Observation} {acts past : List StatusAct}
  {s s' : StatusProcesses} {act : StatusAct}

/-- The observations that there are to see. -/
def toSee (acts : List StatusAct) : List Observation := noStatus :: toPost acts

theorem toSee_concat : toSee (past ++ [act]) = toSee past ++ (posting act).toList := by
  simp only [toSee, toPost, List.filterMap_append, List.filterMap_cons, List.filterMap_nil,
    List.cons_append]
  cases posting act <;> rfl

theorem toSee_subset : toSee past ⊆ toSee (past ++ [act]) := by
  rw [toSee_concat]
  exact List.subset_append_left _ _

def AllBacked (past : List StatusAct) (s : StatusProcesses) : Prop :=
  ∀ i, (s.notes i).Backed (toSee past) s.shared.record

theorem AllBacked.step (backed : AllBacked past s)
    (contracted : Processes.Contracted StatusNote.after (StatusNote.allows lines) s)
    (taken : StatusProcesses.step s act s') : AllBacked (past ++ [act]) s' := by
  have kept (i : Nat) : (s.notes i).Backed (toSee (past ++ [act])) s.shared.record :=
    (backed i).mono toSee_subset
  cases act with
  | start i p note =>
      cases taken with
      | start free begins =>
          obtain ⟨o, -, rfl⟩ := begins
          intro j
          dsimp only
          rcases eq_or_ne j i with rfl | other
          · rw [Function.update_self, toSee_concat]
            exact backed_posts (List.mem_append_right _ (List.mem_singleton_self o))
          · rw [Function.update_of_ne other]
            exact kept j
  | stop i =>
      cases taken
      intro j
      dsimp only
      rcases eq_or_ne j i with rfl | other
      · rw [Function.update_self]
        exact backed_idle
      · rw [Function.update_of_ne other]
        exact kept j
  | call i event =>
      obtain ⟨move, others⟩ := move_of_step contracted taken
      have first : noStatus ∈ toSee (past ++ [.call i event]) := List.mem_cons_self
      intro j
      rcases eq_or_ne j i with rfl | other
      · exact move.backed (kept j) first
      · rw [others j other]
        exact (kept j).rewritten (move.rewritten (kept i).own first)

theorem allBacked_of_run
    (run : Run StatusProcesses.step unguarded (.start lines turns found) acts s) :
    AllBacked acts s := by
  induction run with
  | nil =>
      intro i
      simp only [StatusProcesses.start, Function.update_apply]
      split_ifs
      · constructor <;>
          simp [StatusNote.own, StatusNote.cleared, StatusNote.seen, StatusNote.workerSeen,
            StatusNote.threadSeen]
      · exact backed_idle
  | snoc front _ taken ih => exact ih.step (apart_of_run front).2 taken

/-- A screen that is shown is that of what its process has seen. -/
theorem StatusMove.draws {note note' : StatusNote} {shared shared' : SharedStatus} {i : Nat}
    {event : StatusEvent} {screen : Nat → ScreenLine}
    (move : StatusMove lines note shared event note' shared')
    (shows : shown (.call i event) = some screen) :
    ∃ seen, note = .draws seen ∧ screen = screenOf lines seen := by
  cases move with
  | @draw seen =>
      cases shows
      exact ⟨seen, rfl, rfl⟩
  | _ => cases shows

theorem draws_of_shown {screen : Nat → ScreenLine}
    (contracted : Processes.Contracted StatusNote.after (StatusNote.allows lines) s)
    (taken : StatusProcesses.step s act s') (shows : shown act = some screen) :
    ∃ i seen, s.notes i = .draws seen ∧ screen = screenOf lines seen := by
  cases act with
  | start | stop => cases shows
  | call i event => exact ⟨i, (move_of_step contracted taken).1.draws shows⟩

/-- In every run at most one process is between `sem_wait` and `sem_post`; but what the monitor shows
comes from observations that may have each member from another post. -/
theorem seen_of_run (run : Run StatusProcesses.step unguarded (.start lines turns found) acts s) :
    (∀ i j, (s.notes i).inside = true → (s.notes j).inside = true → i = j) ∧
      ∀ act ∈ acts, ∀ screen, shown act = some screen →
        ∃ seen, (∀ o ∈ seen, Mixed (toSee acts) o) ∧ screen = screenOf lines seen := by
  refine ⟨(apart_of_run run).1.unique, ?_⟩
  induction run with
  | nil => simp
  | @snoc middle t acts act front _ taken ih =>
      rw [List.forall_mem_append, List.forall_mem_singleton]
      constructor
      · intro earlier member screen shows
        obtain ⟨seen, mixed, same⟩ := ih earlier member screen shows
        exact ⟨seen, fun o seen => (mixed o seen).mono toSee_subset, same⟩
      · intro screen shows
        obtain ⟨i, seen, noted, same⟩ := draws_of_shown (apart_of_run front).2 taken shows
        have backed := (allBacked_of_run front i).seen
        rw [noted] at backed
        exact ⟨seen, fun o member => (backed o member).mono toSee_subset, same⟩

end Seen

/-! ## Runs -/

namespace Posting

def launchTrace : List StatusEvent :=
  [⟨.setWorker (-1), ()⟩, ⟨.setThread (-1), ()⟩, ⟨.setStatus (-1), ()⟩]

def postTrace (o : Observation) : List StatusEvent :=
  [⟨.semWait, ()⟩, ⟨.setWorker o.worker, ()⟩, ⟨.setThread o.thread, ()⟩, ⟨.setStatus o.status, ()⟩,
    ⟨.semPost, ()⟩]

/-- The monitor looks at the first member of the record. -/
def lookTrace (o : Observation) : List StatusEvent := [⟨.worker, o.worker⟩, ⟨.worker, o.worker⟩]

def finishTrace (o : Observation) : List StatusEvent := [⟨.thread, o.thread⟩, ⟨.status, o.status⟩]

def startPost (i : Nat) (o : Observation) : StatusAct :=
  .start i (postStatus true o.worker o.thread o.status) (.posts o)

def refreshes (o : Observation) : StatusAct := .call 0 ⟨.refresh (screenOf 24 [o]), ()⟩

theorem leads_launch (lines turns : Nat) :
    Leads (monitorMain lines turns) launchTrace (monitorLoop lines turns []) :=
  .call (.call (.call (.here _)))

theorem leads_post (o : Observation) :
    Leads (postStatus true o.worker o.thread o.status) (postTrace o) (.ret ()) :=
  .call (.call (.call (.call (.call (.here _)))))

theorem through_launch (found : Observation) :
    Through SharedStatus.happens ⟨found, 1⟩ launchTrace ⟨noStatus, 1⟩ :=
  ⟨_, rfl, _, rfl, _, rfl, rfl⟩

theorem through_post (r o : Observation) :
    Through SharedStatus.happens ⟨r, 1⟩ (postTrace o) ⟨o, 1⟩ :=
  ⟨⟨r, 0⟩, ⟨rfl, rfl⟩, _, rfl, _, rfl, _, rfl, _, rfl, rfl⟩

section Stretch

variable {guard : StatusProcesses → StatusAct → Prop} {s : StatusProcesses} {i : Nat}

/-- A process runs alone for a while. -/
theorem run_stretch {p q : Sharing Unit} {trace : List StatusEvent} {shared shared' : SharedStatus}
    (running : s.running i = some p) (leads : Leads p trace q) (before : s.shared = shared)
    (through : Through SharedStatus.happens shared trace shared')
    (allows : ∀ (t : StatusProcesses) event, (∀ j, j ≠ i → t.notes j = s.notes j) →
      guard t (.call i event)) :
    ∃ s', Run StatusProcesses.step guard s (trace.map (.call i)) s' ∧ s'.shared = shared' ∧
      s'.running i = some q ∧ s'.notes i = trace.foldl StatusNote.after (s.notes i) ∧
        ∀ j, j ≠ i → s'.running j = s.running j ∧ s'.notes j = s.notes j :=
  Processes.run_leads running leads (before ▸ through) allows

/-- A whole post. -/
theorem run_post {r o : Observation} (free : s.running i = none) (shared : s.shared = ⟨r, 1⟩)
    (begins : guard s (startPost i o))
    (allows : ∀ (t : StatusProcesses) event, (∀ j, j ≠ i → t.notes j = s.notes j) →
      guard t (.call i event)) :
    ∃ s', Run StatusProcesses.step guard s (startPost i o :: (postTrace o).map (.call i)) s' ∧
      s'.shared = ⟨o, 1⟩ ∧ s'.notes i = .posted o ∧
        ∀ j, j ≠ i → s'.running j = s.running j ∧ s'.notes j = s.notes j := by
  let t : StatusProcesses := { s with
    running := Function.update s.running i (some (postStatus true o.worker o.thread o.status))
    notes := Function.update s.notes i (.posts o) }
  have same (j : Nat) (other : j ≠ i) : t.notes j = s.notes j := Function.update_of_ne other ..
  obtain ⟨s', run, last, -, noted, others⟩ := @run_stretch guard t i _ _ _ _ _
    (Function.update_self ..) (leads_post o) shared (through_post r o) fun t' event unchanged =>
      allows t' event fun j other => (unchanged j other).trans (same j other)
  refine ⟨s', run_cons.mpr ⟨t, begins, .start free ⟨o, rfl, rfl⟩, run⟩, last, ?_, ?_⟩
  · have before : t.notes i = .posts o := Function.update_self ..
    rw [noted, before]
    rfl
  · intro j other
    exact ⟨(others j other).1.trans (Function.update_of_ne other ..),
      (others j other).2.trans (same j other)⟩

end Stretch

/-- The monitor behind the first member. -/
def looking (worker : Int32) : Sharing Unit := do
  let thread ← perform .thread
  let status ← perform .status
  perform (.refresh (screenOf 24 [⟨worker, thread, status⟩]))

theorem leads_look {o : Observation} (some : o.worker ≠ -1) :
    Leads (monitorLoop 24 1 []) (lookTrace o) (looking o.worker) := by
  simp only [monitorLoop, perform_bind]
  refine .call ?_
  rw [if_neg some]
  exact .call (.here _)

theorem leads_finish (worker : Int32) (o : Observation) :
    Leads (looking worker) (finishTrace o)
      (perform (.refresh (screenOf 24 [⟨worker, o.thread, o.status⟩]))) :=
  .call (.call (.here _))

theorem through_look (r : Observation) :
    Through SharedStatus.happens ⟨r, 1⟩ (lookTrace r) ⟨r, 1⟩ :=
  ⟨_, ⟨rfl, rfl⟩, _, ⟨rfl, rfl⟩, rfl⟩

theorem through_finish (r : Observation) :
    Through SharedStatus.happens ⟨r, 1⟩ (finishTrace r) ⟨r, 1⟩ :=
  ⟨_, ⟨rfl, rfl⟩, _, ⟨rfl, rfl⟩, rfl⟩

def okPost : Observation := ⟨5, 7, 2⟩

def downPost : Observation := ⟨6, 8, -1⟩

/-- The monitor looks while a second post goes by. -/
def tornActs : List StatusAct :=
  launchTrace.map (.call 0) ++ (startPost 1 okPost :: (postTrace okPost).map (.call 1)) ++
    (lookTrace okPost).map (.call 0) ++ (startPost 2 downPost :: (postTrace downPost).map (.call 2)) ++
      (finishTrace downPost).map (.call 0) ++ [refreshes ⟨5, 8, -1⟩]

theorem run_tornActs : ∃ s, Run StatusProcesses.step unguarded (.start 24 1 noStatus) tornActs s := by
  obtain ⟨s₁, launch, shared, running, -, others⟩ :=
    @run_stretch unguarded (.start 24 1 noStatus) 0 _ _ _ _ _ rfl (leads_launch 24 1) rfl
      (through_launch noStatus) fun _ _ _ => trivial
  obtain ⟨s₂, ok, shared₂, -, others₂⟩ := @run_post unguarded s₁ 1 noStatus okPost
    (others 1 (by decide)).1 shared trivial fun _ _ _ => trivial
  obtain ⟨s₃, look, shared₃, running₃, -, others₃⟩ := @run_stretch unguarded s₂ 0 _ _ _ _ _
    ((others₂ 0 (by decide)).1.trans running) (leads_look (by decide)) shared₂ (through_look okPost)
      fun _ _ _ => trivial
  have free : s₃.running 2 = none := by
    rw [(others₃ 2 (by decide)).1, (others₂ 2 (by decide)).1, (others 2 (by decide)).1]
    rfl
  obtain ⟨s₄, down, shared₄, -, others₄⟩ := @run_post unguarded s₃ 2 okPost downPost
    free shared₃ trivial fun _ _ _ => trivial
  obtain ⟨s₅, finish, -, running₅, -⟩ := @run_stretch unguarded s₄ 0 _ _ _ _ _
    ((others₄ 0 (by decide)).1.trans running₃) (leads_finish okPost.worker downPost) shared₄
      (through_finish downPost) fun _ _ _ => trivial
  exact ⟨_, ((((launch.append ok).append look).append down).append finish).snoc trivial
    (.call running₅ rfl)⟩

end Posting

/-- The second post is not seen: what is shown has the worker of one post and the rest of another. -/
theorem seen_of_run_torn : ∃ seen, (∀ o ∈ seen, Mixed (toSee Posting.tornActs) o) ∧
    screenOf 24 [⟨5, 8, -1⟩] = screenOf 24 seen ∧ ⟨5, 8, -1⟩ ∉ toPost Posting.tornActs := by
  obtain ⟨s, run⟩ := Posting.run_tornActs
  obtain ⟨seen, mixed, same⟩ := (seen_of_run run).2 (Posting.refreshes ⟨5, 8, -1⟩)
    (by simp [Posting.tornActs]) _ rfl
  exact ⟨seen, mixed, same, by decide⟩

/-- A post that is stopped behind `sem_wait`, and another one that begins. -/
theorem blocked_of_stop_ok : ∃ s t, Run StatusProcesses.step unguarded s
      [Posting.startPost 2 Posting.okPost] t ∧ s.shared.semaphore = 0 ∧
    ∀ j, ProcessesAct.call j ⟨.semWait, ()⟩ ∉ [Posting.startPost 2 Posting.okPost] := by
  let begun : StatusProcesses := { StatusProcesses.start 24 1 noStatus with
    running := Function.update (StatusProcesses.start 24 1 noStatus).running 1
      (some (postStatus true 5 7 2))
    notes := Function.update (StatusProcesses.start 24 1 noStatus).notes 1 (.posts Posting.okPost) }
  have begins : StatusProcesses.step (.start 24 1 noStatus) (Posting.startPost 1 Posting.okPost)
      begun := .start rfl ⟨Posting.okPost, rfl, rfl⟩
  obtain ⟨s, enters, shared, -, noted, others⟩ := @Posting.run_stretch unguarded begun 1 _ _
    [⟨.semWait, ()⟩] _ ⟨noStatus, 0⟩ rfl (.call (.here _)) rfl ⟨⟨noStatus, 0⟩, ⟨rfl, rfl⟩, rfl⟩
      fun _ _ _ => trivial
  have run : Run StatusProcesses.step unguarded (.start 24 1 noStatus) _ s :=
    run_cons.mpr ⟨begun, trivial, begins, enters⟩
  have inside : (s.notes 1).inside = true := by
    rw [noted]
    rfl
  let stopped : StatusProcesses := { s with
    running := Function.update s.running 1 none
    notes := Function.update s.notes 1 .idle }
  have stops : StatusProcesses.step s (.stop 1) stopped := .stop
  have other : 2 ≠ 1 := by decide
  have free : stopped.running 2 = none := by
    change Function.update s.running 1 none 2 = none
    rw [Function.update_of_ne other, (others 2 other).1]
    rfl
  have later : Run StatusProcesses.step unguarded stopped [Posting.startPost 2 Posting.okPost] _ :=
    .one trivial (.start free ⟨Posting.okPost, rfl, rfl⟩)
  exact ⟨stopped, _, later, congrArg SharedStatus.semaphore shared, fun j =>
    (blocked_of_stop run inside stops later j).1⟩

end IpcFtp
