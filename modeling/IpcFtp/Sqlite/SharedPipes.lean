import IpcFtp.Lib.Guarded
import IpcFtp.Sqlite.Response
import IpcFtp.Sqlite.Service
import Mathlib.Logic.Function.Basic

/-!
# Workers that share the pipes of the SQL process

The workers are forks of one process and inherit its `sql_connection`: all of them write
into one pipe and read from one pipe.  After a fork `lock` is a mutex of each process's
own, and a worker makes one call at a time, so it keeps nobody out.

Bytes carry who wrote them: a byte of the query pipe the number of its call, a byte of
the response pipe the bytes that were taken for the statement it answers.  No step looks
at these marks, nor at the records of what was called, executed and returned.

* `separate_of_run`: if calls do not overlap, every statement is executed whole, and
  each call consumes and returns its own response.
* `overlapping_calls_mix`: one byte of another call spoils a statement.
-/

namespace IpcFtp

open Lib

abbrev QueryByte := Nat × Byte

abbrev ResponseByte := List QueryByte × Byte

/-- The bytes that call number `call` writes. -/
def ofCall (call : Nat) (text : Bytes) : List QueryByte := text.map (Prod.mk call)

/-- The bytes of the response to a statement. -/
def inResponseTo (statement : List QueryByte) (bytes : Bytes) : List ResponseByte :=
  bytes.map (Prod.mk statement)

/-- Where `init_sqlite_server` stands. -/
inductive SqlProcess : Type
  | reading (taken : List QueryByte) (buffer : QueryBuffer)
  /-- what is still to be written, and the fault that comes after it -/
  | answering (statement : List QueryByte) (rest : Bytes) (fault : Option Fault)
  | stopped
  | crashed (fault : Fault)

/-- Where a worker stands in `run_sqlite_query`. -/
inductive Caller : Type
  | idle
  | writing (call : Nat) (rest : Bytes)
  | reading (call : Nat) (consumed : List ResponseByte) (reader : Reader Byte Fault Bytes)
  | crashed (fault : Fault)

def Caller.isIdle : Caller → Bool
  | .idle => true
  | _ => false

/-- A text that was handed to `sqlite3_exec`, the bytes it came from, and its rows. -/
structure Executed : Type where
  statement : List QueryByte
  text : Bytes
  rows : List ResultRow
  deriving DecidableEq

/-- A call that has returned, with all bytes it took from the response pipe. -/
structure Returned : Type where
  call : Nat
  consumed : List ResponseByte
  value : Bytes
  deriving DecidableEq

structure SharedPipes : Type where
  queries : List QueryByte
  responses : List ResponseByte
  server : SqlProcess
  workers : Nat → Caller
  /-- the worker and the text of each call so far -/
  calls : List (Nat × Bytes)
  executed : List Executed
  returned : List Returned

/-- No call yet, and the SQL process waits for a first byte. -/
def SharedPipes.start : SharedPipes :=
  ⟨[], [], .reading [] .empty, fun _ => .idle, [], [], []⟩

inductive PipeAct : Type
  /-- a worker enters `run_sqlite_query` with the text a helper has built -/
  | call (worker : Nat) (query : SqlCall)
  | write (worker : Nat)
  | read (worker : Nat)
  /-- a read on the closed pipe leaves in `aux` what it held -/
  | readClosed (worker : Nat) (held : Byte)
  | ret (worker : Nat)
  /-- the SQL process reads a byte that does not complete a statement -/
  | take
  /-- it reads one that does, and SQLite finds these rows -/
  | execute (rows : List ResultRow)
  /-- it writes a byte -/
  | answer

namespace SharedPipes

/-- One worker goes on. -/
def set (s : SharedPipes) (worker : Nat) (caller : Caller) : SharedPipes :=
  { s with workers := Function.update s.workers worker caller }

/-- The SQL process with these bytes left to write. -/
def answering (statement : List QueryByte) (rest : Bytes) (fault : Option Fault) :
    SqlProcess :=
  if rest = [] then
    match fault with
    | none => .reading [] .empty
    | some e => .crashed e
  else .answering statement rest fault

/-- A worker with these bytes of its statement left to write. -/
def asking (call : Nat) (rest : Bytes) : Caller :=
  if rest = [] then .reading call [] readResponse else .writing call rest

def next (s : SharedPipes) : PipeAct → Option SharedPipes
  | .call worker query =>
    match s.workers worker, query.text with
    | .idle, .ok text => some { s.set worker (.writing s.calls.length (writtenQuery text)) with
        calls := s.calls ++ [(worker, text)] }
    | .idle, .error e => some (s.set worker (.crashed e))
    | _, _ => none
  | .write worker =>
    match s.workers worker with
    | .writing call (c :: rest) => some { s.set worker (asking call rest) with
        queries := s.queries ++ [(call, c)] }
    | _ => none
  | .read worker =>
    match s.workers worker, s.responses with
    | .reading call consumed (.read next), byte :: responses => some {
        s.set worker (.reading call (consumed ++ [byte]) (next byte.2)) with
        responses := responses }
    | _, _ => none
  | .readClosed worker held =>
    match s.workers worker, s.responses, s.server with
    | .reading call consumed (.read next), [], .stopped =>
      some (s.set worker (.reading call consumed (next held)))
    | _, _, _ => none
  | .ret worker =>
    match s.workers worker with
    | .reading call consumed (.ret value) => some { s.set worker .idle with
        returned := s.returned ++ [⟨call, consumed, value⟩] }
    | .reading _ _ (.fault e) => some (s.set worker (.crashed e))
    | _ => none
  | .take =>
    match s.server, s.queries with
    | .reading taken buffer, byte :: queries =>
      match buffer.read byte.2 with
      | .more buffer => some { s with
          queries := queries, server := .reading (taken ++ [byte]) buffer }
      | .complete text =>
        if text = sqlConnectionCloseStr then some { s with
          queries := queries, server := .stopped }
        else none
    | _, _ => none
  | .execute rows =>
    match s.server, s.queries with
    | .reading taken buffer, byte :: queries =>
      match buffer.read byte.2 with
      | .more _ => none
      | .complete text =>
        if text = sqlConnectionCloseStr then none
        else some { s with
          queries := queries
          server := answering (taken ++ [byte]) (responseBytes rows).1 (responseBytes rows).2
          executed := s.executed ++ [⟨taken ++ [byte], text, rows⟩] }
    | _, _ => none
  | .answer =>
    match s.server with
    | .answering statement (c :: rest) fault => some { s with
        responses := s.responses ++ [(statement, c)]
        server := answering statement rest fault }
    | _ => none

end SharedPipes

/-! ## What is to hold, and when -/

/-- The text is that of a call, and all its bytes and no others made it up. -/
def WholeQuery (calls : List (Nat × Bytes)) (executed : Executed) : Prop :=
  ∃ call worker, calls[call]? = some (worker, executed.text) ∧
    executed.statement = ofCall call executed.text

/-- The call has taken the response to its own statement, all of it and nothing else,
and returned its first line. -/
def OwnResponse (calls : List (Nat × Bytes)) (executed : List Executed)
    (returned : Returned) : Prop :=
  ∃ worker text rows, calls[returned.call]? = some (worker, text) ∧
    ⟨ofCall returned.call text, text, rows⟩ ∈ executed ∧
      returned.consumed =
        inResponseTo (ofCall returned.call text) (responseBytes rows).1 ∧
      returned.value = firstResponse rows

/-- No call has had anything to do with another. -/
structure Separate (s : SharedPipes) : Prop where
  whole : ∀ executed ∈ s.executed, WholeQuery s.calls executed
  returns : ∀ returned ∈ s.returned, OwnResponse s.calls s.executed returned
  /-- a call that has not returned has taken bytes of its own response only -/
  takes : ∀ worker call consumed reader, s.workers worker = .reading call consumed reader →
    ∃ text, s.calls[call]? = some (worker, text) ∧
      ∀ byte ∈ consumed, byte.1 = ofCall call text

/-- A worker begins a call only when nobody is inside one, with a statement the SQL
process takes whole; and the rows of each statement come through. -/
def oneAtATime (s : SharedPipes) : PipeAct → Prop
  | .call _ query => (∀ worker, s.workers worker = .idle) ∧ query.Fits ∧
    TakenWhole query.statement
  | .execute rows => PresentableRows rows
  | _ => True

theorem known_append {calls : List (Nat × Bytes)} {call : Nat} {entry : Nat × Bytes}
    (known : calls[call]? = some entry) (more : List (Nat × Bytes)) :
    (calls ++ more)[call]? = some entry := by
  rw [List.getElem?_append_left (List.getElem?_eq_some_iff.mp known).1, known]

theorem WholeQuery.mono {calls : List (Nat × Bytes)} {executed : Executed}
    (whole : WholeQuery calls executed) (more : List (Nat × Bytes)) :
    WholeQuery (calls ++ more) executed := by
  obtain ⟨call, worker, known, bytes⟩ := whole
  exact ⟨call, worker, known_append known more, bytes⟩

theorem OwnResponse.mono {calls : List (Nat × Bytes)} {log log' : List Executed}
    {returned : Returned} (own : OwnResponse calls log returned) (more : List (Nat × Bytes))
    (longer : log ⊆ log') : OwnResponse (calls ++ more) log' returned := by
  obtain ⟨worker, text, rows, known, executed, rest⟩ := own
  exact ⟨worker, text, rows, known_append known more, longer executed, rest⟩

/-! ## One call at a time -/

/-- A statement as the helpers build them, short enough for the SQL process. -/
def Takeable (text : Bytes) : Prop :=
  TakenWhole text ∧ text ≠ sqlConnectionCloseStr ∧ ∃ body, text = body ++ [chr ';'] ∧ 0 ∉ body

theorem takeable_of_built {query : SqlCall} {text : Bytes} (built : query.text = .ok text)
    (whole : TakenWhole query.statement) : Takeable text := by
  obtain ⟨body, ends, nulFree, running⟩ := SqlCall.shape_of_text_eq_ok built
  rw [(SqlCall.text_eq_ok.mp built).2] at whole
  exact ⟨whole, ends ▸ running, body, ends, nulFree⟩

/-- The buffer of the SQL process behind the bytes `front` of a statement. -/
def bufferOf (front : Bytes) : QueryBuffer := ⟨front, front.length⟩

/-- A byte that is not the last of its statement is collected. -/
theorem Takeable.read_more {front back : Bytes} {c : Byte}
    (takeable : Takeable (front ++ c :: back)) (early : back ≠ []) :
    (bufferOf front).read c = .more (bufferOf (front ++ [c])) := by
  obtain ⟨⟨short, single⟩, _, body, ends, nulFree⟩ := takeable
  have inBody : c ∈ body := by
    have last := congrArg List.dropLast ends
    rw [List.dropLast_concat, List.dropLast_append_of_ne_nil (by simp),
      List.dropLast_cons_of_ne_nil early] at last
    rw [← last]
    simp
  have goesOn : c ≠ chr ';' := by
    intro same
    subst same
    rw [ends, List.dropLast_concat] at single
    exact single inBody
  have notNul : c ≠ 0 := by
    intro same
    subst same
    exact nulFree inBody
  have positive := List.length_pos_iff.mpr early
  simp only [List.length_append, List.length_cons] at short
  rw [QueryBuffer.read, if_pos ⟨goesOn, by simp only [bufferOf]; omega⟩,
    cstr_of_nulFree (by simpa using notNul.symm)]
  simp [bufferOf]

/-- The last byte completes it. -/
theorem Takeable.read_complete {front : Bytes} {c : Byte} (takeable : Takeable (front ++ [c])) :
    (bufferOf front).read c = .complete (front ++ [c]) := by
  obtain ⟨_, _, body, ends, _⟩ := takeable
  obtain ⟨_, rfl⟩ : front = body ∧ c = chr ';' := by simpa using ends
  rw [QueryBuffer.read, if_neg (fun goesOn => goesOn.1 rfl)]
  rfl

/-- What the pipes and processes can be at when calls do not overlap. -/
inductive Serial (s : SharedPipes) : Prop
  | quiet (idle : ∀ worker, s.workers worker = .idle) (queries : s.queries = [])
    (responses : s.responses = []) (server : s.server = .reading [] .empty)
  /-- of a statement the SQL process has `front`, the pipe `middle`, the worker `rest` -/
  | asking (worker call : Nat) (front middle rest : Bytes)
    (known : s.calls[call]? = some (worker, front ++ middle ++ rest))
    (takeable : Takeable (front ++ middle ++ rest)) (left : middle ++ rest ≠ [])
    (others : ∀ other, other ≠ worker → s.workers other = .idle)
    (mine : s.workers worker = SharedPipes.asking call rest)
    (queries : s.queries = ofCall call middle) (responses : s.responses = [])
    (server : s.server = .reading (ofCall call front) (bufferOf front))
  /-- of a response the worker has `consumed`, the pipe `middle`, the SQL process `rest` -/
  | answered (worker call : Nat) (text : Bytes) (rows : List ResultRow)
    (consumed middle rest : Bytes) (reader : Reader Byte Fault Bytes)
    (known : s.calls[call]? = some (worker, text))
    (presentable : PresentableRows rows)
    (split : consumed ++ middle ++ rest = (responseBytes rows).1)
    (fed : readResponse.after consumed = some reader)
    (others : ∀ other, other ≠ worker → s.workers other = .idle)
    (mine : s.workers worker =
      .reading call (inResponseTo (ofCall call text) consumed) reader)
    (executed : ⟨ofCall call text, text, rows⟩ ∈ s.executed)
    (queries : s.queries = [])
    (responses : s.responses = inResponseTo (ofCall call text) middle)
    (server : s.server = SharedPipes.answering (ofCall call text) rest none)

/-- When the only worker that has called is idle, all are. -/
theorem Serial.idle {s : SharedPipes} {worker : Nat} (serial : Serial s)
    (callers : s.calls.map Prod.fst = [worker]) (free : (s.workers worker).isIdle = true) :
    ∀ other, s.workers other = .idle := by
  have mine : s.workers worker = .idle := by
    cases at_ : s.workers worker with
    | idle => rfl
    | _ =>
        rw [at_] at free
        cases free
  have caller {call active : Nat} {text : Bytes} (known : s.calls[call]? = some (active, text)) :
      active = worker := by
    have member := List.mem_map_of_mem (f := Prod.fst) (List.mem_of_getElem? known)
    rw [callers] at member
    exact List.mem_singleton.mp member
  have all {active : Nat} (same : active = worker)
      (others : ∀ other, other ≠ active → s.workers other = .idle) (other : Nat) :
      s.workers other = .idle := by
    by_cases is : other = active
    · rw [is, same, mine]
    · exact others other is
  cases serial with
  | quiet idle => exact idle
  | asking active call front middle rest known _ _ others => exact all (caller known) others
  | answered active call text rows consumed middle rest reader known _ _ _ others =>
      exact all (caller known) others

/-- What has been executed and returned is in order. -/
structure Recorded (s : SharedPipes) : Prop where
  whole : ∀ executed ∈ s.executed, WholeQuery s.calls executed
  returns : ∀ returned ∈ s.returned, OwnResponse s.calls s.executed returned

theorem Serial.separate {s : SharedPipes} (serial : Serial s) (recorded : Recorded s) :
    Separate s := by
  refine ⟨recorded.whole, recorded.returns, ?_⟩
  intro worker call consumed reader reads
  cases serial with
  | quiet idle =>
      rw [idle worker] at reads
      cases reads
  | asking active call' front middle rest known _ _ others mine =>
      by_cases same : worker = active
      · subst same
        rw [mine, SharedPipes.asking] at reads
        split at reads
        · cases reads
          exact ⟨_, known, by simp⟩
        · cases reads
      · rw [others worker same] at reads
        cases reads
  | answered active call' text rows consumed' middle rest reader' known _ _ _ others mine =>
      by_cases same : worker = active
      · subst same
        rw [mine] at reads
        cases reads
        refine ⟨text, known, fun byte member => ?_⟩
        obtain ⟨c, _, rfl⟩ := List.mem_map.mp member
        rfl
      · rw [others worker same] at reads
        cases reads

/-! ## Steps -/

section Steps

variable {s t : SharedPipes} {worker : Nat}

theorem SharedPipes.workers_set (s : SharedPipes) (worker : Nat) (caller : Caller) :
    (s.set worker caller).workers worker = caller := Function.update_self ..

theorem SharedPipes.workers_set_of_ne {other : Nat} (different : other ≠ worker)
    (caller : Caller) : (s.set worker caller).workers other = s.workers other :=
  Function.update_of_ne different ..

theorem Serial.call {query : SqlCall} (serial : Serial s) (recorded : Recorded s)
    (allowed : oneAtATime s (.call worker query))
    (taken : s.next (.call worker query) = some t) : Serial t ∧ Recorded t := by
  obtain ⟨idle, fits, whole⟩ := allowed
  have built : query.text = .ok query.statement := SqlCall.text_eq_ok.mpr ⟨fits, rfl⟩
  have takeable := takeable_of_built built whole
  have nonempty : query.statement ≠ [] := by
    obtain ⟨_, _, body, ends, _⟩ := takeable
    rw [ends]
    simp
  have written : writtenQuery query.statement = query.statement := by
    cases text : query.statement with
    | nil => exact absurd text nonempty
    | cons => rfl
  simp only [SharedPipes.next, idle, built, written, Option.some.injEq] at taken
  subst taken
  have empty : s.queries = [] ∧ s.responses = [] ∧ s.server = .reading [] .empty := by
    cases serial with
    | quiet _ queries responses server => exact ⟨queries, responses, server⟩
    | asking active _ _ _ rest _ _ _ _ mine =>
        rw [idle active, SharedPipes.asking] at mine
        split at mine <;> cases mine
    | answered active _ _ _ _ _ _ _ _ _ _ _ _ mine =>
        rw [idle active] at mine
        cases mine
  obtain ⟨queries, responses, server⟩ := empty
  refine ⟨.asking worker s.calls.length [] [] query.statement ?_ takeable nonempty ?_ ?_
    queries responses server, ?_, ?_⟩
  · simp
  · exact fun other different => (SharedPipes.workers_set_of_ne different _).trans (idle other)
  · rw [SharedPipes.asking, if_neg nonempty]
    exact SharedPipes.workers_set ..
  · exact fun executed member => (recorded.whole executed member).mono _
  · exact fun returned member => (recorded.returns returned member).mono _ (List.Subset.refl _)

theorem Serial.write (serial : Serial s) (recorded : Recorded s)
    (taken : s.next (.write worker) = some t) : Serial t ∧ Recorded t := by
  simp only [SharedPipes.next] at taken
  split at taken
  · rename_i call c rest writes
    rw [Option.some.injEq] at taken
    subst taken
    refine ⟨?_, recorded.whole, recorded.returns⟩
    cases serial with
    | quiet idle =>
        rw [idle worker] at writes
        cases writes
    | answered active _ _ _ _ _ _ _ _ _ _ _ others mine =>
        by_cases same : worker = active
        · rw [same, mine] at writes
          cases writes
        · rw [others worker same] at writes
          cases writes
    | asking active call' front middle rest' known takeable left others mine queries responses
        server =>
        by_cases same : worker = active
        · subst same
          rw [mine, SharedPipes.asking] at writes
          split at writes
          · cases writes
          · obtain ⟨rfl, rfl⟩ : call' = call ∧ rest' = c :: rest := by simpa using writes
            have shift : front ++ (middle ++ [c]) ++ rest = front ++ middle ++ c :: rest := by
              simp
            refine .asking worker call' front (middle ++ [c]) rest (shift ▸ known)
              (shift ▸ takeable) (by simp) ?_ (SharedPipes.workers_set ..) ?_ responses server
            · exact fun other different =>
                (SharedPipes.workers_set_of_ne different _).trans (others other different)
            · simp [queries, ofCall]
        · rw [others worker same] at writes
          cases writes
  · cases taken

theorem Serial.take (serial : Serial s) (recorded : Recorded s)
    (taken : s.next .take = some t) : Serial t ∧ Recorded t := by
  simp only [SharedPipes.next] at taken
  split at taken
  · rename_i got buffer byte queued server pipe
    cases serial with
    | quiet _ queries =>
        rw [queries] at pipe
        cases pipe
    | answered _ _ _ _ _ _ _ _ _ _ _ _ _ _ _ queries =>
        rw [queries] at pipe
        cases pipe
    | asking active call front middle rest known takeable left others mine queries responses
        reads =>
        rw [reads, SqlProcess.reading.injEq] at server
        obtain ⟨rfl, rfl⟩ := server
        cases middle with
        | nil =>
            rw [queries] at pipe
            cases pipe
        | cons c middle =>
            rw [queries] at pipe
            obtain ⟨rfl, rfl⟩ : (call, c) = byte ∧ ofCall call middle = queued := by
              simpa [ofCall] using pipe
            have shift : front ++ c :: middle ++ rest = front ++ c :: (middle ++ rest) := by simp
            by_cases last : middle ++ rest = []
            · rw [shift, last] at takeable
              simp only [takeable.read_complete, if_neg takeable.2.1] at taken
              cases taken
            · rw [shift] at takeable
              simp only [takeable.read_more last, Option.some.injEq] at taken
              subst taken
              have shift : front ++ [c] ++ middle ++ rest = front ++ c :: middle ++ rest := by simp
              refine ⟨.asking active call (front ++ [c]) middle rest (shift ▸ known) ?_ last others
                mine rfl responses (by simp [ofCall]), recorded.whole, recorded.returns⟩
              simpa using takeable
  · cases taken

theorem Serial.execute {rows : List ResultRow} (serial : Serial s) (recorded : Recorded s)
    (presentable : PresentableRows rows) (taken : s.next (.execute rows) = some t) :
    Serial t ∧ Recorded t := by
  simp only [SharedPipes.next] at taken
  split at taken
  · rename_i got buffer byte queued server pipe
    cases serial with
    | quiet _ queries =>
        rw [queries] at pipe
        cases pipe
    | answered _ _ _ _ _ _ _ _ _ _ _ _ _ _ _ queries =>
        rw [queries] at pipe
        cases pipe
    | asking active call front middle rest known takeable left others mine queries responses
        reads =>
        rw [reads, SqlProcess.reading.injEq] at server
        obtain ⟨rfl, rfl⟩ := server
        cases middle with
        | nil =>
            rw [queries] at pipe
            cases pipe
        | cons c middle =>
            rw [queries] at pipe
            obtain ⟨rfl, rfl⟩ : (call, c) = byte ∧ ofCall call middle = queued := by
              simpa [ofCall] using pipe
            have shift : front ++ c :: middle ++ rest = front ++ c :: (middle ++ rest) := by simp
            by_cases last : middle ++ rest = []
            · obtain ⟨rfl, rfl⟩ := List.append_eq_nil_iff.mp last
              rw [shift, last] at takeable known
              have statement : ofCall call front ++ [(call, c)] = ofCall call (front ++ [c]) := by
                simp [ofCall]
              have plain := congrArg Prod.snd 
                (responseBytes_eq fun row member => (presentable.2 row member).fits)
              simp only [takeable.read_complete, if_neg takeable.2.1, statement, plain,
                Option.some.injEq] at taken
              subst taken
              refine ⟨.answered active call (front ++ [c]) rows [] [] (responseBytes rows).1
                readResponse known presentable (List.nil_append _) (Reader.after_nil _) others mine
                (by simp) rfl responses rfl, ?_, ?_⟩
              · intro executed member
                rcases List.mem_append.mp member with before | now
                · exact recorded.whole executed before
                · rw [List.mem_singleton.mp now]
                  exact ⟨call, active, known, rfl⟩
              · intro returned member
                simpa using (recorded.returns returned member).mono []
                  (List.subset_append_left s.executed _)
            · rw [shift] at takeable
              simp only [takeable.read_more last] at taken
              cases taken
  · cases taken

theorem Serial.answer (serial : Serial s) (recorded : Recorded s)
    (taken : s.next .answer = some t) : Serial t ∧ Recorded t := by
  simp only [SharedPipes.next] at taken
  split at taken
  · rename_i statement c left fault writes
    rw [Option.some.injEq] at taken
    subst taken
    refine ⟨?_, recorded.whole, recorded.returns⟩
    cases serial with
    | quiet _ _ _ server =>
        rw [server] at writes
        cases writes
    | asking _ _ _ _ _ _ _ _ _ _ _ _ server =>
        rw [server] at writes
        cases writes
    | answered active call text rows consumed middle rest reader known presentable split fed
        others mine executed queries responses server =>
        rw [server, SharedPipes.answering] at writes
        split at writes
        · cases writes
        · obtain ⟨rfl, rfl, rfl⟩ : ofCall call text = statement ∧ rest = c :: left ∧
              none = fault := by simpa using writes
          refine .answered active call text rows consumed (middle ++ [c]) left reader known
            presentable ?_ fed others mine executed queries ?_ rfl
          · rw [← split]
            simp
          · simp [responses, inResponseTo]
  · cases taken

theorem Serial.read (serial : Serial s) (recorded : Recorded s)
    (taken : s.next (.read worker) = some t) : Serial t ∧ Recorded t := by
  simp only [SharedPipes.next] at taken
  split at taken
  · rename_i call taken' next byte queued reads pipe
    rw [Option.some.injEq] at taken
    subst taken
    refine ⟨?_, recorded.whole, recorded.returns⟩
    cases serial with
    | quiet _ _ responses =>
        rw [responses] at pipe
        cases pipe
    | asking _ _ _ _ _ _ _ _ _ _ _ responses =>
        rw [responses] at pipe
        cases pipe
    | answered active call' text rows consumed middle rest reader known presentable split fed
        others mine executed queries responses server =>
        by_cases same : worker = active
        · subst same
          rw [mine, Caller.reading.injEq] at reads
          obtain ⟨rfl, rfl, rfl⟩ := reads
          cases middle with
          | nil =>
              rw [responses] at pipe
              cases pipe
          | cons c middle =>
              rw [responses] at pipe
              obtain ⟨rfl, rfl⟩ : (ofCall call' text, c) = byte ∧
                  inResponseTo (ofCall call' text) middle = queued := by
                simpa [inResponseTo] using pipe
              refine .answered worker call' text rows (consumed ++ [c]) middle rest (next c) known
                presentable (by simpa using split) ?_ ?_ ?_ executed queries rfl server
              · rw [Reader.after_append fed]
                simp
              · exact fun other different =>
                  (SharedPipes.workers_set_of_ne different _).trans (others other different)
              · simp [SharedPipes.workers_set, inResponseTo]
        · rw [others worker same] at reads
          cases reads
  · cases taken

theorem Serial.ret (serial : Serial s) (recorded : Recorded s)
    (taken : s.next (.ret worker) = some t) : Serial t ∧ Recorded t := by
  -- whoever reads and does not wait for a byte has been answered
  have ended {call : Nat} {consumed : List ResponseByte} {reader : Reader Byte Fault Bytes}
      (reads : s.workers worker = .reading call consumed reader)
      (done : ∀ next, reader ≠ .read next) :
      (∀ other, other ≠ worker → s.workers other = .idle) ∧ s.queries = [] ∧
        s.responses = [] ∧ s.server = .reading [] .empty ∧
          ∃ value, reader = .ret value ∧
            OwnResponse s.calls s.executed ⟨call, consumed, value⟩ := by
    cases serial with
    | quiet idle =>
        rw [idle worker] at reads
        cases reads
    | asking active call' front middle rest known takeable left others mine =>
        by_cases same : worker = active
        · subst same
          rw [mine, SharedPipes.asking] at reads
          split at reads
          · cases reads
            exact absurd rfl (done _)
          · cases reads
        · rw [others worker same] at reads
          cases reads
    | answered active call' text rows consumed' middle rest reader' known presentable split fed
        others mine executed queries responses server =>
        by_cases same : worker = active
        · subst same
          rw [mine, Caller.reading.injEq] at reads
          obtain ⟨rfl, rfl, rfl⟩ := reads
          have whole := run_readResponse none presentable []
          rw [List.append_nil, ← split, List.append_assoc,
            Reader.run_after fed none (middle ++ rest)] at whole
          cases reader' with
          | read next => exact absurd rfl (done next)
          | fault e =>
              rw [Reader.run_fault] at whole
              cases whole
          | ret value =>
              rw [Reader.run_ret, Outcome.done.injEq] at whole
              obtain ⟨rfl, empty⟩ := whole
              obtain ⟨rfl, rfl⟩ := List.append_eq_nil_iff.mp empty
              rw [List.append_nil, List.append_nil] at split
              exact ⟨others, queries, responses, server, _, rfl, worker, text, rows, known,
                executed, by rw [split], rfl⟩
        · rw [others worker same] at reads
          cases reads
  simp only [SharedPipes.next] at taken
  split at taken
  · rename_i call consumed value reads
    obtain ⟨others, queries, responses, server, _, isRet, own⟩ := ended reads (by simp)
    obtain rfl := Reader.ret.inj isRet
    rw [Option.some.injEq] at taken
    subst taken
    refine ⟨.quiet ?_ queries responses server, recorded.whole, ?_⟩
    · intro other
      by_cases same : other = worker
      · rw [same]
        exact SharedPipes.workers_set ..
      · exact (SharedPipes.workers_set_of_ne same _).trans (others other same)
    · intro returned member
      rcases List.mem_append.mp member with before | now
      · exact recorded.returns returned before
      · rw [List.mem_singleton.mp now]
        exact own
  · rename_i call consumed e reads
    obtain ⟨_, _, _, _, value, isRet, _⟩ := ended reads (by simp)
    cases isRet
  · cases taken

/-- The SQL process does not stop. -/
theorem Serial.readClosed {held : Byte} (serial : Serial s) :
    s.next (.readClosed worker held) = none := by
  have running : s.server ≠ .stopped := by
    cases serial with
    | quiet _ _ _ server => simp [server]
    | asking _ _ _ _ _ _ _ _ _ _ _ _ server => simp [server]
    | answered _ _ _ _ _ _ rest _ _ _ _ _ _ _ _ _ _ server =>
        rw [server, SharedPipes.answering]
        split <;> simp
  simp only [SharedPipes.next]
  split
  · rename_i stopped
    exact absurd stopped running
  · rfl

theorem Serial.step {act : PipeAct} (serial : Serial s) (recorded : Recorded s)
    (allowed : oneAtATime s act) (taken : s.next act = some t) : Serial t ∧ Recorded t := by
  cases act with
  | call worker query => exact serial.call recorded allowed taken
  | write worker => exact serial.write recorded taken
  | read worker => exact serial.read recorded taken
  | readClosed worker held =>
      rw [serial.readClosed] at taken
      cases taken
  | ret worker => exact serial.ret recorded taken
  | take => exact serial.take recorded taken
  | execute rows => exact serial.execute recorded allowed taken
  | answer => exact serial.answer recorded taken

end Steps

/-- The invariant of runs whose calls do not overlap. -/
def InOrder (s : SharedPipes) : Prop := Serial s ∧ Recorded s

theorem inOrder_of_run {s : SharedPipes} {acts : List PipeAct}
    (run : Run (stepOf SharedPipes.next) oneAtATime .start acts s) : InOrder s := by
  refine run.invariant ⟨.quiet (fun _ => rfl) rfl rfl rfl, ?_, ?_⟩ ?_
  · simp [SharedPipes.start]
  · simp [SharedPipes.start]
  · intro before after act ⟨serial, recorded⟩ allowed taken
    exact serial.step recorded allowed taken

/-- If calls do not overlap, each query is executed whole, and each call takes and returns
its own response and no byte of another's. -/
theorem separate_of_run {s : SharedPipes} {acts : List PipeAct}
    (run : Run (stepOf SharedPipes.next) oneAtATime .start acts s) : Separate s :=
  (inOrder_of_run run).1.separate (inOrder_of_run run).2

/-- Is there a user `a`? -/
def askForA : SqlCall := .userInDb ⟨ascii "a", nulFree_a⟩

def askForB : SqlCall := .userInDb ⟨ascii "b", by decide⟩

/-- A call of a worker from its first byte to its return. -/
def callActs (worker : Nat) (query : SqlCall) (rows : List ResultRow) : List PipeAct :=
  .call worker query :: (List.replicate query.statement.length (.write worker) ++
    List.replicate (query.statement.length - 1) .take ++
    .execute rows :: List.replicate (responseBytes rows).1.length .answer ++
    List.replicate (responseBytes rows).1.length (.read worker) ++ [.ret worker])

theorem run_callActs {s s' : SharedPipes} {worker : Nat} {query : SqlCall}
    {rows : List ResultRow} (idle : ∀ worker, s.workers worker = .idle) (fits : query.Fits)
    (whole : TakenWhole query.statement) (presentable : PresentableRows rows)
    (followed : exec SharedPipes.next s (callActs worker query rows) = some s') :
    Run (stepOf SharedPipes.next) oneAtATime s (callActs worker query rows) s' := by
  obtain ⟨m, called, others⟩ := Option.bind_eq_some_iff.mp followed
  refine run_cons.mpr ⟨m, ⟨idle, fits, whole⟩, called, .of_exec ?_ others⟩
  intro act member s
  simp only [List.mem_append, List.mem_cons, List.mem_replicate, List.not_mem_nil, or_false]
    at member
  rcases member with (((⟨_, rfl⟩ | ⟨_, rfl⟩) | rfl | ⟨_, rfl⟩) | ⟨_, rfl⟩) | rfl
  case inl.inl.inr.inl => exact presentable
  all_goals trivial

/-- Two workers call, one behind the other. -/
theorem separate_one_call :
    ∃ s acts, Run (stepOf SharedPipes.next) oneAtATime .start acts s ∧
      s.returned = [⟨0, inResponseTo (ofCall 0 askForA.statement) (ascii "a\nEND\n"), ascii "a"⟩,
        ⟨1, inResponseTo (ofCall 1 askForB.statement) (ascii "END\n"), endStr⟩] ∧ Separate s := by
  have presentable : PresentableRows [[some ⟨ascii "a", nulFree_a⟩]] := by
    refine ⟨by decide, List.forall_mem_singleton.mpr ?_⟩
    exact ⟨by decide, by decide, by decide⟩
  have outcome : (exec SharedPipes.next .start (callActs 0 askForA [[some ⟨ascii "a", nulFree_a⟩]] ++
      callActs 1 askForB [])).map SharedPipes.returned =
      some [⟨0, inResponseTo (ofCall 0 askForA.statement) (ascii "a\nEND\n"), ascii "a"⟩,
        ⟨1, inResponseTo (ofCall 1 askForB.statement) (ascii "END\n"), endStr⟩] := by
    decide +kernel
  have returns : (exec SharedPipes.next .start (callActs 0 askForA
      [[some ⟨ascii "a", nulFree_a⟩]])).map (fun s => (s.calls.map Prod.fst, (s.workers 0).isIdle)) =
        some ([0], true) := by
    decide +kernel
  obtain ⟨s, followed, returned⟩ := Option.map_eq_some_iff.mp outcome
  obtain ⟨middle, first, second⟩ := Option.bind_eq_some_iff.mp (exec_append _ _ _ ▸ followed)
  have front := run_callActs (fun _ => rfl) (by decide +kernel) (by decide +kernel) presentable first
  have idle : ∀ worker, middle.workers worker = .idle := by
    rw [first, Option.map_some, Option.some.injEq] at returns
    obtain ⟨callers, free⟩ := Prod.mk.inj returns
    exact (inOrder_of_run front).1.idle callers free
  have back := run_callActs idle (by decide +kernel) (by decide +kernel)
    ⟨by decide, List.forall_mem_nil _⟩ second
  have run := front.append back
  exact ⟨s, _, run, returned, separate_of_run run⟩

/-- Worker 0 writes one byte before worker 1 writes its statement: the SQL process runs a
text that is nobody's. -/
theorem overlapping_calls_mix :
    TakenWhole askForA.statement ∧ TakenWhole askForB.statement ∧
    ∃ s acts, Run (stepOf SharedPipes.next) unguarded .start acts s ∧
      s.calls = [(0, askForA.statement), (1, askForB.statement)] ∧
      s.executed = [⟨(0, chr 'S') :: ofCall 1 askForB.statement,
        chr 'S' :: askForB.statement, []⟩] ∧ ¬ Separate s := by
  let length := askForB.statement.length
  let acts : List PipeAct := .call 0 askForA :: .call 1 askForB :: .write 0 ::
    List.replicate length (.write 1) ++ List.replicate length .take ++ [.execute []]
  have outcome : (exec SharedPipes.next .start acts).map (fun s => (s.calls, s.executed)) =
      some ([(0, askForA.statement), (1, askForB.statement)],
        [⟨(0, chr 'S') :: ofCall 1 askForB.statement, chr 'S' :: askForB.statement, []⟩]) := by
    decide +kernel
  obtain ⟨s, followed, logs⟩ := Option.map_eq_some_iff.mp outcome
  obtain ⟨calls, executed⟩ := Prod.mk.inj logs
  refine ⟨by decide +kernel, by decide +kernel, s, acts,
    .of_exec (fun _ _ _ => trivial) followed, calls, executed, fun separate => ?_⟩
  obtain ⟨call, worker, known, bytes⟩ := separate.whole _ (executed ▸ List.mem_singleton_self _)
  have called : chr 'S' :: askForB.statement ∈ s.calls.map Prod.snd :=
    List.mem_map_of_mem (List.mem_of_getElem? known)
  rw [calls] at called
  exact absurd called (by decide +kernel)

end IpcFtp
