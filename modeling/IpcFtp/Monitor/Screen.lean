import IpcFtp.Monitor.Tables

/-!
# The screen of the monitor

The drawing in the main loop of `monitor/main.c`.  It prints the name of a worker before it knows
whether the worker has a thread to show, and takes the row back if there is none.

`mvprintw` is that of curses: nothing is printed below the last line of the terminal.  A line of it
is taken to be long enough for what is printed.
-/

namespace IpcFtp

/-! ## Printing -/

/-- A character with the colour pair it is printed in. -/
abbrev ScreenCell : Type := Byte × Option Int32

abbrev ScreenLine : Type := Nat → ScreenCell

def blankLine : ScreenLine := fun _ => (chr ' ', none)

/-- A text, where it starts in its line, and its colour pair. -/
structure Print : Type where
  column : Nat
  text : Bytes
  colour : Option Int32

/-- A line after the text has been printed over it. -/
def Print.over (p : Print) (line : ScreenLine) : ScreenLine := fun x =>
  if p.column ≤ x ∧ x < p.column + p.text.length then (p.text.getD (x - p.column) 0, p.colour) else line x

/-- `mvprintw` in a line of a terminal of so many lines. -/
def mvprintw (lines : Nat) (screen : Nat → ScreenLine) (y : Nat) (p : Print) : Nat → ScreenLine :=
  if y < lines then Function.update screen y (p.over (screen y)) else screen

def workerPrint (worker : MonitorWorker) : Print :=
  ⟨0, ascii "worker " ++ decimal worker.id.toInt, none⟩

def threadPrint (thread : MonitorThread) : Print :=
  ⟨2, ascii "thread " ++ decimal thread.id.toInt ++ ascii ":", some thread.status⟩

/-- What is printed over a worker that has nothing to show. -/
def blankPrint : Print := ⟨0, ascii "                        ", none⟩

/-! ## Drawing -/

/-- The screen, and the variables `j` and `l` of the loop. -/
structure Drawing : Type where
  screen : Nat → ScreenLine
  j : Nat
  l : Nat

/-- A turn of the loop over the threads. -/
def drawThread (lines : Nat) (d : Drawing) (thread : MonitorThread) : Drawing :=
  if thread.status ≠ statusDown then
    ⟨mvprintw lines d.screen d.j (threadPrint thread), d.j + 1, d.l + 1⟩
  else d

/-- A turn of the loop over the workers. -/
def drawWorker (lines : Nat) (d : Drawing) (worker : MonitorWorker) : Drawing :=
  let named : Drawing := { d with
    screen := mvprintw lines d.screen d.j (workerPrint worker), j := d.j + 1 }
  let threaded := worker.threads.foldl (drawThread lines) named
  if threaded.l = 0 then ⟨mvprintw lines threaded.screen (threaded.j - 1) blankPrint, threaded.j - 1, 0⟩
  else { threaded with l := 0 }

/-- The screen is cleared and drawn. -/
def draw (lines : Nat) (workers : List MonitorWorker) : Nat → ScreenLine :=
  (workers.foldl (drawWorker lines) ⟨fun _ => blankLine, 0, 0⟩).screen

/-! ## The loop -/

structure Monitor : Type where
  workers : List MonitorWorker
  screen : Nat → ScreenLine

def Monitor.start : Monitor := ⟨[], fun _ => blankLine⟩

/-- A turn of the main loop, which waits as long as there is no worker in the shared memory. -/
def Monitor.next (lines : Nat) (m : Monitor) (o : Observation) : Monitor :=
  if o.worker = -1 then m
  else ⟨observeWorker m.workers o, draw lines (observeWorker m.workers o)⟩

/-! ## What should be on the screen -/

/-- The threads that are not down. -/
def MonitorWorker.live (worker : MonitorWorker) : List MonitorThread :=
  worker.threads.filter fun thread => thread.status ≠ statusDown

/-- The rows of a worker: none, or its name and a row for each thread that is not down. -/
def MonitorWorker.rows (worker : MonitorWorker) : List Print :=
  if worker.live = [] then [] else workerPrint worker :: worker.live.map threadPrint

/-- A screen with these rows from the top on, as far as it has lines. -/
def display (lines : Nat) (rows : List Print) : Nat → ScreenLine := fun y =>
  if y < lines then rows[y]?.elim blankLine fun p => p.over blankLine else blankLine

/-! ## Drawing is displaying -/

section Draw

variable {lines : Nat} {rows : List Print}

theorem display_below : display lines rows rows.length = blankLine := by
  unfold display
  rw [List.getElem?_eq_none le_rfl, Option.elim_none, ite_self]

theorem display_last (p : Print) (inside : rows.length < lines) :
    display lines (rows ++ [p]) rows.length = p.over blankLine := by
  rw [display, if_pos inside, List.getElem?_concat_length, Option.elim_some]

theorem display_others (p : Print) {y : Nat} (other : y ≠ rows.length) :
    display lines (rows ++ [p]) y = display lines rows y := by
  unfold display
  rcases Nat.lt_or_ge y rows.length with above | under
  · rw [List.getElem?_append_left above]
  · have beyond : (rows ++ [p]).length ≤ y := by
      rw [List.length_append, List.length_singleton]
      omega
    rw [List.getElem?_eq_none under, List.getElem?_eq_none beyond]

/-- A row below the terminal is not seen. -/
theorem display_outside (p : Print) (outside : ¬ rows.length < lines) :
    display lines (rows ++ [p]) = display lines rows := by
  funext y
  rcases eq_or_ne y rows.length with rfl | other
  · unfold display
    rw [if_neg outside, if_neg outside]
  · exact display_others p other

/-- A row printed below the others is one more. -/
theorem mvprintw_display (p : Print) :
    mvprintw lines (display lines rows) rows.length p = display lines (rows ++ [p]) := by
  unfold mvprintw
  split_ifs with inside
  · funext y
    rcases eq_or_ne y rows.length with rfl | other
    · rw [Function.update_self, display_below, display_last p inside]
    · rw [Function.update_of_ne other, display_others p other]
  · exact (display_outside p inside).symm

theorem length_decimal_int32 (i : Int32) : (decimal i.toInt).length ≤ 11 := by
  have low := i.le_toInt
  have high := i.toInt_lt
  cases value : i.toInt with
  | ofNat n =>
      rw [value] at high
      have digits : (natDecimal n).length ≤ 10 :=
        length_natDecimal_le (by decide) (by simp only [Int.ofNat_eq_natCast] at high; omega)
      rw [decimal]
      omega
  | negSucc n =>
      rw [value] at low
      have digits : (natDecimal (n + 1)).length ≤ 10 :=
        length_natDecimal_le (by decide) (by omega)
      rw [decimal, List.length_cons]
      omega

theorem blankPrint_front (line : ScreenLine) {x : Nat} (front : x < 24) :
    blankPrint.over line x = blankLine x := by
  have blanks : blankPrint.text = List.replicate 24 (chr ' ') := by decide
  have left : blankPrint.column = 0 := rfl
  unfold Print.over
  rw [blanks, left, List.length_replicate, if_pos (by omega), List.getD_eq_getElem?_getD,
    List.getElem?_replicate, if_pos (by omega), Option.getD_some]
  rfl

theorem over_of_ge (p : Print) (line : ScreenLine) {x : Nat} (behind : p.column + p.text.length ≤ x) :
    p.over line x = line x := if_neg (by omega)

/-- A name is blanked by what is printed over it. -/
theorem blankPrint_over (worker : MonitorWorker) :
    blankPrint.over ((workerPrint worker).over blankLine) = blankLine := by
  have short : (workerPrint worker).text.length ≤ 24 := by
    have number := length_decimal_int32 worker.id
    have name : (ascii "worker ").length = 7 := rfl
    simp only [workerPrint, List.length_append, name]
    omega
  funext x
  rcases Nat.lt_or_ge x 24 with front | behind
  · exact blankPrint_front _ front
  · rw [over_of_ge blankPrint _ behind, over_of_ge (workerPrint worker)]
    exact (Nat.zero_add _).le.trans (short.trans behind)

/-- The name of a worker is taken back. -/
theorem mvprintw_blankPrint (worker : MonitorWorker) :
    mvprintw lines (display lines (rows ++ [workerPrint worker])) rows.length blankPrint =
      display lines rows := by
  unfold mvprintw
  split_ifs with inside
  · funext y
    rcases eq_or_ne y rows.length with rfl | other
    · rw [Function.update_self, display_last _ inside, blankPrint_over, display_below]
    · rw [Function.update_of_ne other, display_others _ other]
  · exact display_outside _ inside

theorem foldl_drawThread (threads : List MonitorThread) (l : Nat) :
    threads.foldl (drawThread lines) ⟨display lines rows, rows.length, l⟩ =
      let live := threads.filter fun thread => thread.status ≠ statusDown
      ⟨display lines (rows ++ live.map threadPrint), (rows ++ live.map threadPrint).length,
        l + live.length⟩ := by
  induction threads generalizing rows l with
  | nil => simp
  | cons thread threads ih =>
      rw [List.foldl_cons, drawThread]
      by_cases down : thread.status = statusDown
      · simp only [down, ne_eq, not_true_eq_false, if_false, ih]
        simp [down]
      · have one := @ih (rows ++ [threadPrint thread]) (l + 1)
        simp only [ne_eq, down, not_false_eq_true, if_true, mvprintw_display]
        rw [List.length_append, List.length_singleton] at one
        rw [one]
        simp [down]
        omega

theorem drawWorker_display (worker : MonitorWorker) :
    drawWorker lines ⟨display lines rows, rows.length, 0⟩ worker =
      ⟨display lines (rows ++ worker.rows), (rows ++ worker.rows).length, 0⟩ := by
  have named := @foldl_drawThread lines (rows ++ [workerPrint worker]) worker.threads 0
  rw [List.length_append, List.length_singleton] at named
  simp only [drawWorker, mvprintw_display, named]
  rw [← MonitorWorker.live]
  unfold MonitorWorker.rows
  by_cases none : worker.live = []
  · -- the name stands in the last row
    simp only [none, List.map_nil, List.append_nil, List.length_nil, List.length_append,
      List.length_singleton, Nat.add_sub_cancel, if_true, mvprintw_blankPrint]
  · have some : ¬ 0 + worker.live.length = 0 := by
      rw [Nat.zero_add, List.length_eq_zero_iff]
      exact none
    rw [if_neg some, if_neg none, List.append_assoc, List.singleton_append]

/-- The screen has the rows of the workers one below another, without a gap. -/
theorem draw_eq (workers : List MonitorWorker) :
    draw lines workers = display lines (workers.flatMap MonitorWorker.rows) := by
  have all (rows : List Print) :
      workers.foldl (drawWorker lines) ⟨display lines rows, rows.length, 0⟩ =
        ⟨display lines (rows ++ workers.flatMap MonitorWorker.rows),
          (rows ++ workers.flatMap MonitorWorker.rows).length, 0⟩ := by
    induction workers generalizing rows with
    | nil => simp
    | cons worker workers ih =>
        rw [List.foldl_cons, drawWorker_display, ih, List.flatMap_cons, List.append_assoc]
  have clear : (fun _ => blankLine) = display lines [] := by
    funext y
    simp [display]
  have drawn := all []
  rw [draw, clear]
  exact congrArg Drawing.screen drawn

end Draw

/-! ## Every run -/

/-- The monitor behind some observations. -/
def Monitor.after (lines : Nat) (os : List Observation) : Monitor :=
  os.foldl (Monitor.next lines) .start

/-- The observations the loop does not wait at. -/
def processed (os : List Observation) : List Observation := os.filter fun o => o.worker ≠ -1

/-- The tables hold what was observed, and the screen shows it. -/
structure ShowsObserved (lines : Nat) (os : List Observation) : Prop where
  workers : (Monitor.after lines os).workers = observedWorkers (processed os)
  screen : (Monitor.after lines os).screen =
    display lines ((observedWorkers (processed os)).flatMap MonitorWorker.rows)

theorem after_eq (lines : Nat) (os : List Observation) :
    (Monitor.after lines os).workers = (processed os).foldl observeWorker [] ∧
      (Monitor.after lines os).screen =
        display lines ((Monitor.after lines os).workers.flatMap MonitorWorker.rows) := by
  induction os using List.reverseRecOn with
  | nil =>
      refine ⟨rfl, ?_⟩
      funext y
      simp [Monitor.after, Monitor.start, display]
  | append_singleton os o ih =>
      have step : Monitor.after lines (os ++ [o]) = (Monitor.after lines os).next lines o := by
        simp only [Monitor.after, List.foldl_append, List.foldl_cons, List.foldl_nil]
      rw [step, Monitor.next]
      by_cases waits : o.worker = -1
      · have same : processed (os ++ [o]) = processed os := by simp [processed, waits]
        rw [if_pos waits, same]
        exact ih
      · have more : processed (os ++ [o]) = processed os ++ [o] := by simp [processed, waits]
        rw [if_neg waits, more, List.foldl_append]
        exact ⟨by rw [ih.1]; rfl, draw_eq _⟩

/-- The monitor shows what it observed exactly if no two threads of a worker have the same number as
an `int`. -/
theorem shows_observed_iff (lines : Nat) (os : List Observation) :
    ShowsObserved lines os ↔ ThreadsApart (processed os) := by
  obtain ⟨workers, screen⟩ := after_eq lines os
  rw [← foldl_observeWorker_iff, ← workers]
  constructor
  · exact ShowsObserved.workers
  · intro same
    exact ⟨same, by rw [screen, same]⟩

/-- Two threads of a worker whose numbers differ by 2^32 have one entry. -/
theorem merges_threads :
    (Monitor.after 24 [⟨5, 1, 2⟩, ⟨5, 1 + 2 ^ 32, 3⟩]).workers = [⟨5, [⟨1, 3⟩]⟩] ∧
      ¬ ShowsObserved 24 [⟨5, 1, 2⟩, ⟨5, 1 + 2 ^ 32, 3⟩] := by
  have workers : (Monitor.after 24 [⟨5, 1, 2⟩, ⟨5, 1 + 2 ^ 32, 3⟩]).workers = [⟨5, [⟨1, 3⟩]⟩] := by
    decide
  refine ⟨workers, ?_⟩
  intro shows
  have both := shows.workers
  rw [workers] at both
  exact absurd both (by decide)

end IpcFtp
