import IpcFtp.CString
import IpcFtp.Lib.Registry

/-!
# The tables of the monitor

The update in the main loop of `monitor/main.c`: a table of workers, each with a table of threads,
both read as growing lists.  The number of a thread is a `long` in the shared memory and an `int`
in the monitor.
-/

namespace IpcFtp

open Lib

/-- `shared_data_t`. -/
structure Observation : Type where
  worker : Int32
  thread : Int64
  status : Int32
  deriving DecidableEq

/-- `thread_t`. -/
structure MonitorThread : Type where
  id : Int32
  status : Int32
  deriving DecidableEq

/-- `worker_t`. -/
structure MonitorWorker : Type where
  id : Int32
  threads : List MonitorThread
  deriving DecidableEq

/-- `STATUS_DOWN`. -/
def statusDown : Int32 := -1

/-- The search among the threads of a worker. -/
def observeThread (currentThread currentStatus : Int32) (threads : List MonitorThread) :
    List MonitorThread :=
  record MonitorThread.id currentThread (fun thread => { thread with status := currentStatus })
    ⟨currentThread, currentStatus⟩ threads

/-- The search among the workers. -/
def observeWorker (workers : List MonitorWorker) (o : Observation) : List MonitorWorker :=
  let currentThread := o.thread.toInt32
  record MonitorWorker.id o.worker
    (fun worker => { worker with threads := observeThread currentThread o.status worker.threads })
    ⟨o.worker, [⟨currentThread, o.status⟩]⟩ workers

/-! ## What was observed -/

/-- The status of the last of some observations. -/
def lastStatus (os : List Observation) : Int32 := os.getLast?.elim statusDown Observation.status

/-- The threads of some observations, by one of their numbers, with their last status. -/
def threadsBy {α : Type} [DecidableEq α] (number : Observation → α) (short : α → Int32)
    (os : List Observation) : List MonitorThread :=
  (os.map number).eraseDups.map fun thread =>
    ⟨short thread, lastStatus (os.filter fun o => number o = thread)⟩

/-- The workers of some observations, with their threads. -/
def workersBy (threads : List Observation → List MonitorThread) (os : List Observation) :
    List MonitorWorker :=
  (os.map Observation.worker).eraseDups.map fun worker =>
    ⟨worker, threads (os.filter fun o => o.worker = worker)⟩

/-- The workers and their threads in the order in which they were first seen, each thread with the
status of its last observation. -/
def observedWorkers (os : List Observation) : List MonitorWorker :=
  workersBy (threadsBy Observation.thread Int64.toInt32) os

/-! ## The tables as registries -/

def threadRegistry : Registry Observation Int32 MonitorThread where
  of o := o.thread.toInt32
  key := MonitorThread.id
  new o := ⟨o.thread.toInt32, o.status⟩
  change o thread := { thread with status := o.status }
  key_new _ := rfl
  key_change _ _ := rfl

def workerRegistry : Registry Observation Int32 MonitorWorker where
  of := Observation.worker
  key := MonitorWorker.id
  new o := ⟨o.worker, [⟨o.thread.toInt32, o.status⟩]⟩
  change o worker := { worker with threads := observeThread o.thread.toInt32 o.status worker.threads }
  key_new _ := rfl
  key_change _ _ := rfl

theorem entry_threadRegistry {os : List Observation} {k : Int32} (nonempty : os ≠ [])
    (same : ∀ o ∈ os, threadRegistry.of o = k) :
    threadRegistry.entry os = some ⟨k, lastStatus os⟩ := by
  induction os using List.reverseRecOn with
  | nil => exact absurd rfl nonempty
  | append_singleton os o ih =>
      have last : lastStatus (os ++ [o]) = o.status := by simp [lastStatus]
      rcases eq_or_ne os [] with rfl | earlier
      · obtain rfl := same o (by simp)
        rfl
      · rw [threadRegistry.entry_concat earlier, last,
          ih earlier fun o member => same o (List.mem_append_left _ member)]
        rfl

theorem entries_threadRegistry (os : List Observation) :
    threadRegistry.entries os = threadsBy (fun o => o.thread.toInt32) id os := by
  apply threadRegistry.entries_eq_map
  intro k nonempty
  exact entry_threadRegistry nonempty fun o member => threadRegistry.of_mem_observed member

theorem entry_workerRegistry {os : List Observation} {k : Int32} (nonempty : os ≠ [])
    (same : ∀ o ∈ os, o.worker = k) :
    workerRegistry.entry os = some ⟨k, threadRegistry.entries os⟩ := by
  induction os using List.reverseRecOn with
  | nil => exact absurd rfl nonempty
  | append_singleton os o ih =>
      rcases eq_or_ne os [] with rfl | earlier
      · obtain rfl := same o (by simp)
        rfl
      · rw [workerRegistry.entry_concat earlier,
          ih earlier fun o member => same o (List.mem_append_left _ member), Option.map_some,
          Registry.entries, Registry.entries, List.foldl_append]
        rfl

/-- What the loop makes of any observations. -/
theorem foldl_observeWorker (os : List Observation) :
    os.foldl observeWorker [] = workersBy (threadsBy (fun o => o.thread.toInt32) id) os := by
  have registry : os.foldl observeWorker [] = workerRegistry.entries os := rfl
  rw [registry]
  apply workerRegistry.entries_eq_map
  intro k nonempty
  rw [← entries_threadRegistry]
  exact entry_workerRegistry nonempty fun o member => workerRegistry.of_mem_observed member

/-! ## Threads that are kept apart -/

/-- Threads of one worker differ as an `int` if they differ. -/
def ThreadsApart (os : List Observation) : Prop :=
  ∀ o ∈ os, ∀ o' ∈ os, o.worker = o'.worker → o.thread.toInt32 = o'.thread.toInt32 →
    o.thread = o'.thread

theorem threadsBy_of_apart {os : List Observation}
    (apart : ∀ o ∈ os, ∀ o' ∈ os, o.thread.toInt32 = o'.thread.toInt32 → o.thread = o'.thread) :
    threadsBy (fun o => o.thread.toInt32) id os = threadsBy Observation.thread Int64.toInt32 os := by
  have renamed : os.map (fun o => o.thread.toInt32) = (os.map Observation.thread).map Int64.toInt32 := by
    rw [List.map_map]
    rfl
  have injective : ∀ t ∈ os.map Observation.thread, ∀ t' ∈ os.map Observation.thread,
      t.toInt32 = t'.toInt32 → t = t' := by
    intro t first t' second same
    obtain ⟨o, member, rfl⟩ := List.mem_map.mp first
    obtain ⟨o', member', rfl⟩ := List.mem_map.mp second
    exact apart o member o' member' same
  unfold threadsBy
  rw [renamed, eraseDups_map injective, List.map_map]
  apply List.map_congr_left
  intro t known
  obtain ⟨o, member, rfl⟩ := List.mem_map.mp (List.mem_eraseDups.mp known)
  have filters : (os.filter fun o' => o'.thread.toInt32 = o.thread.toInt32) =
      os.filter fun o' => o'.thread = o.thread := by
    apply List.filter_congr
    intro o' member'
    have same : o'.thread.toInt32 = o.thread.toInt32 ↔ o'.thread = o.thread :=
      ⟨apart o' member' o member, congrArg Int64.toInt32⟩
    simp only [same]
  simp only [Function.comp_apply, id, filters]

theorem apart_of_threadsBy {os : List Observation}
    (same : threadsBy (fun o => o.thread.toInt32) id os =
      threadsBy Observation.thread Int64.toInt32 os) :
    ∀ o ∈ os, ∀ o' ∈ os, o.thread.toInt32 = o'.thread.toInt32 → o.thread = o'.thread := by
  have ids := congrArg (List.map MonitorThread.id) same
  simp only [threadsBy, List.map_map, Function.comp_def, id, List.map_id'] at ids
  have nodup : ((os.map Observation.thread).eraseDups.map Int64.toInt32).Nodup := by
    rw [← ids]
    exact nodup_eraseDups _
  intro o member o' member' equal
  exact List.inj_on_of_nodup_map nodup (List.mem_eraseDups.mpr (List.mem_map_of_mem member))
    (List.mem_eraseDups.mpr (List.mem_map_of_mem member')) equal

/-- The tables hold what was observed exactly if no two threads of a worker have the same number as
an `int`. -/
theorem foldl_observeWorker_iff (os : List Observation) :
    os.foldl observeWorker [] = observedWorkers os ↔ ThreadsApart os := by
  rw [foldl_observeWorker, observedWorkers]
  constructor
  · intro same o member o' member' worker number
    have own := List.map_inj_left.mp same o.worker
      (List.mem_eraseDups.mpr (List.mem_map_of_mem member))
    refine apart_of_threadsBy (MonitorWorker.mk.inj own).2 o ?_ o' ?_ number
    · exact List.mem_filter.mpr ⟨member, by simp⟩
    · exact List.mem_filter.mpr ⟨member', by simp [worker]⟩
  · intro apart
    refine List.map_congr_left fun k _ => ?_
    rw [threadsBy_of_apart]
    intro o member o' member' number
    obtain ⟨inside, worker⟩ := List.mem_filter.mp member
    obtain ⟨inside', worker'⟩ := List.mem_filter.mp member'
    rw [decide_eq_true_eq] at worker worker'
    exact apart o inside o' inside' (worker.trans worker'.symm) number

end IpcFtp
