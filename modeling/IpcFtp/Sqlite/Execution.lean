import IpcFtp.Sqlite.ResultSet
import IpcFtp.Sqlite.Service

/-!
# Statements that change a table

`run_insert_sqlite_query`, `run_update_sqlite_query` and `run_delete_sqlite_query` of
`lib/sqlite/sqlite.c`, with what the SQL process does for them.  SQLite itself is a parameter.
The process prints the code of `sqlite3_exec` and writes `END` whatever the code is, so the
callers see nothing of it.
-/

namespace IpcFtp

open Lib

def sqliteOk : Int := 0
def sqlOk : Int := 0
def errRunSqlError : Int := 999

/-- What `sqlite3_exec` comes to: the rows for `callback`, its code, and the database. -/
structure Execution (Db : Type) : Type where
  rows : List ResultRow
  code : Int
  db : Db

section Sqlite

variable {Db : Type} (sqlite3Exec : Bytes → Db → Execution Db)

/-- What `init_sqlite_server` writes for the texts it has collected; a row that does not fit
ends the process. -/
def respond : List Bytes → Db → Bytes
  | [], _ => []
  | text :: texts, db =>
    let execution := sqlite3Exec text db
    match responseBytes execution.rows with
    | (bytes, some _) => bytes
    | (bytes, none) => bytes ++ respond texts execution.db

/-- `run_sqlite_query` with the SQL process at the other end. -/
def runSqliteQuery (text : Bytes) (db : Db) : Outcome Byte Fault Bytes :=
  Reader.run none readResponse
    (respond sqlite3Exec (initSqliteServer .empty (writtenQuery text)) db)

/-- What the three callers do with the answer. -/
def runModifyingQuery (text : Except Fault Bytes) (db : Db) : Outcome Byte Fault Int :=
  match text with
  | .error e => .fault e
  | .ok text => (runSqliteQuery sqlite3Exec text db).andThen fun aux rest =>
    .done (if aux ≠ endStr then errRunSqlError else sqlOk) rest

def runInsertSqliteQuery (query : InsertQuery) : Db → Outcome Byte Fault Int :=
  runModifyingQuery sqlite3Exec (insertQueryToStr query)

def runDeleteSqliteQuery (query : DeleteQuery) : Db → Outcome Byte Fault Int :=
  runModifyingQuery sqlite3Exec (deleteQueryToStr query)

def runUpdateSqliteQuery (query : UpdateQuery) : Db → Outcome Byte Fault Int :=
  runModifyingQuery sqlite3Exec (updateQueryToStr query)

/-! ## What is promised -/

/-- The statement can be built, is handed to `sqlite3_exec` as it is, and `sqlite3_exec`
returns `SQLITE_OK`. -/
def Executes (text : Except Fault Bytes) (db : Db) : Prop :=
  ∃ statement, text = .ok statement ∧
    initSqliteServer .empty (writtenQuery statement) = [statement] ∧
    (sqlite3Exec statement db).code = sqliteOk

/-- No row is delivered, or the first is taken for `END`. -/
def NoRowFirst (rows : List ResultRow) : Prop :=
  ∀ row ∈ rows.head?, (rowLine row).length + 1 < maxQueryResponseLength ∧
    (rowLine row).takeWhile (· ≠ chr '\n') = endStr

/-- An `END` is written: the last line, or one of a row's. -/
def ResponseEnds (rows : List ResultRow) : Prop :=
  (∀ row ∈ rows, (rowLine row).length + 1 < maxQueryResponseLength) ∨ endStr ∈ writtenLines rows

/-- A row is delivered first, and the response comes to an end. -/
structure RowFirst (rows : List ResultRow) : Prop where
  row : ∃ row ∈ rows.head?, (rowLine row).takeWhile (· ≠ chr '\n') ≠ endStr
  ends : ResponseEnds rows
  /-- a cell is left for it -/
  few : ((writtenLines rows).takeWhile (· ≠ endStr)).length < maxColumns

/-- The statement can be built, and of the first text that is handed to `sqlite3_exec` in its
place no row is delivered, if that is all that is to be executed and it is; else a row is. -/
def RowsTell (text : Except Fault Bytes) (db : Db) : Prop :=
  ∃ statement first others, text = .ok statement ∧
    initSqliteServer .empty (writtenQuery statement) = first :: others ∧
    ((Executes sqlite3Exec text db ∧ NoRowFirst (sqlite3Exec first db).rows) ∨
      (¬ Executes sqlite3Exec text db ∧ RowFirst (sqlite3Exec first db).rows))

/-- The caller returns, with `SQL_OK` exactly for a statement that has been executed. -/
def TellsExecution (text : Except Fault Bytes) (db : Db) (run : Outcome Byte Fault Int) : Prop :=
  ∃ status rest, run = .done status rest ∧
    (status = sqlOk ↔ Executes sqlite3Exec text db) ∧
    (¬ Executes sqlite3Exec text db → status = errRunSqlError)

end Sqlite

section Callers

variable {Db : Type} {sqlite3Exec : Bytes → Db → Execution Db} {db : Db} {first line : Bytes}
  {others : List Bytes} {rows : List ResultRow}

theorem respond_cons :
    respond sqlite3Exec (first :: others) db =
      unlines (chr '\n') (writtenLines (sqlite3Exec first db).rows) ++
        if ∀ row ∈ (sqlite3Exec first db).rows,
            (rowLine row).length + 1 < maxQueryResponseLength then
          endStr ++ chr '\n' :: respond sqlite3Exec others (sqlite3Exec first db).db
        else [] := by
  have written := @responseBytes_written (sqlite3Exec first db).rows
  have whole := @responseBytes_whole_iff (sqlite3Exec first db).rows
  rw [respond]
  rcases response : responseBytes (sqlite3Exec first db).rows with ⟨bytes, _ | fault⟩
  · rw [response] at written whole
    rw [if_pos (whole.mp rfl)] at written ⊢
    change bytes ++ _ = _
    rw [show bytes = _ from written, List.append_assoc, List.append_assoc, List.cons_append]
    rfl
  · rw [response] at written whole
    have cut : ¬ ∀ row ∈ (sqlite3Exec first db).rows,
        (rowLine row).length + 1 < maxQueryResponseLength :=
      fun fits => Option.some_ne_none _ (whole.mpr fits)
    rw [if_neg cut] at written ⊢
    exact written

/-- A response is waited for as long as there is no `END`. -/
theorem run_responseLines_nil (slots : Nat) (first : Option Bytes) :
    Reader.run none (responseLines slots first) [] = .blocked := by
  cases slots <;> rfl

theorem exists_done_ite_iff {value rest : Bytes} {p : Prop} [Decidable p] :
    (∃ others, (if p then .done value rest else .fault Fault.outOfBounds) =
      Outcome.done line others) ↔ p ∧ line = value := by
  split_ifs with holds
  · simp only [Outcome.done.injEq, exists_and_left, exists_eq', and_true, holds, true_and]
    exact eq_comm
  · simp [holds]

/-- The answer to the first text. -/
theorem runs_respond_iff :
    (∃ rest, Reader.run none readResponse (respond sqlite3Exec (first :: others) db) =
      .done line rest) ↔
      ResponseEnds (sqlite3Exec first db).rows ∧
      ((writtenLines (sqlite3Exec first db).rows).takeWhile (· ≠ endStr)).length < maxColumns ∧
      line = (writtenLines (sqlite3Exec first db).rows).headD endStr := by
  generalize made : (sqlite3Exec first db).rows = rows
  rw [respond_cons, made]
  by_cases ends : endStr ∈ writtenLines rows
  · obtain ⟨back, run⟩ := run_readResponse_unlines readable_writtenLines ends
      (if ∀ row ∈ rows, (rowLine row).length + 1 < maxQueryResponseLength then
        endStr ++ chr '\n' :: respond sqlite3Exec others (sqlite3Exec first db).db
      else [])
    rw [run, exists_done_ite_iff]
    exact (and_iff_right (.inr ends)).symm
  · have all : (writtenLines rows).takeWhile (· ≠ endStr) = writtenLines rows :=
      List.takeWhile_eq_self_iff.mpr fun line member =>
        decide_eq_true fun hit => ends (hit ▸ member)
    rw [all, ResponseEnds, or_iff_left ends]
    by_cases fits : ∀ row ∈ rows, (rowLine row).length + 1 < maxQueryResponseLength
    · rw [if_pos fits, run_readResponse_lines none readable_writtenLines ends,
        exists_done_ite_iff]
      exact (and_iff_right fits).symm
    · have run := run_responseLines none (@readable_writtenLines rows) ends maxColumns none []
      rw [if_neg fits, readResponse, run]
      refine iff_of_false ?_ fun given => fits given.1
      intro given
      obtain ⟨rest, done⟩ := given
      rw [run_responseLines_nil] at done
      split_ifs at done

/-- The first line of a row that fits is written first. -/
theorem exists_writtenLines {row : ResultRow}
    (fits : (rowLine row).length + 1 < maxQueryResponseLength) :
    ∃ lines, writtenLines (row :: rows) = (rowLine row).takeWhile (· ≠ chr '\n') :: lines := by
  obtain ⟨lines, split⟩ := List.head?_eq_some_iff.mp (@head?_parts _ _ (chr '\n') (rowLine row))
  exact ⟨lines ++ writtenLines rows, by rw [writtenLines_cons, if_pos fits, split]; rfl⟩

/-- Nothing is written where the first row does not fit. -/
theorem not_ends {row : ResultRow}
    (long : ¬ (rowLine row).length + 1 < maxQueryResponseLength) : ¬ ResponseEnds (row :: rows) := by
  rw [ResponseEnds, writtenLines_cons, if_neg long]
  exact fun ends => ends.elim (fun fits => long (fits row List.mem_cons_self)) List.not_mem_nil

/-- Where `END` comes first, whatever comes behind it is not read. -/
theorem noRowFirst_iff :
    NoRowFirst rows ↔ ResponseEnds rows ∧
      ((writtenLines rows).takeWhile (· ≠ endStr)).length < maxColumns ∧
      endStr = (writtenLines rows).headD endStr := by
  cases rows with
  | nil => exact iff_of_true (by simp [NoRowFirst]) ⟨.inl (List.forall_mem_nil _), by decide, rfl⟩
  | cons row rows =>
      simp only [NoRowFirst, List.head?_cons, Option.mem_def, Option.some.injEq, forall_eq']
      by_cases fits : (rowLine row).length + 1 < maxQueryResponseLength
      · obtain ⟨lines, written⟩ := @exists_writtenLines rows row fits
        rw [and_iff_right fits, ResponseEnds, written, List.headD_cons]
        constructor
        · intro same
          rw [same]
          exact ⟨.inr List.mem_cons_self, by simp [maxColumns], rfl⟩
        · exact fun given => given.2.2.symm
      · exact iff_of_false (fun given => fits given.1) fun given => not_ends fits given.1

theorem rowFirst_iff :
    RowFirst rows ↔ ResponseEnds rows ∧
      ((writtenLines rows).takeWhile (· ≠ endStr)).length < maxColumns ∧
      (writtenLines rows).headD endStr ≠ endStr := by
  cases rows with
  | nil => exact iff_of_false (fun given => by simpa using given.row) fun given => given.2.2 rfl
  | cons row rows =>
      by_cases fits : (rowLine row).length + 1 < maxQueryResponseLength
      · obtain ⟨lines, written⟩ := @exists_writtenLines rows row fits
        have head : (writtenLines (row :: rows)).headD endStr =
            (rowLine row).takeWhile (· ≠ chr '\n') := by rw [written, List.headD_cons]
        rw [head]
        constructor
        · intro given
          obtain ⟨first, found, other⟩ := given.row
          obtain rfl := Option.some.inj found
          exact ⟨given.ends, given.few, other⟩
        · intro given
          obtain ⟨ends, few, other⟩ := given
          exact ⟨⟨row, rfl, other⟩, ends, few⟩
      · exact iff_of_false (fun given => not_ends fits given.ends) fun given => not_ends fits given.1

/-- A caller returns for what it is answered, and `END` is all it looks for. -/
theorem runModifyingQuery_eq_done {statement : Bytes} {status : Int} {rest : Bytes} :
    runModifyingQuery sqlite3Exec (.ok statement) db = .done status rest ↔
      ∃ line, runSqliteQuery sqlite3Exec statement db = .done line rest ∧
        status = if line ≠ endStr then errRunSqlError else sqlOk := by
  refine Outcome.andThen_eq_done.trans ?_
  constructor
  · intro given
    obtain ⟨line, others, read, returned⟩ := given
    obtain ⟨rfl, rfl⟩ := Outcome.done.inj returned
    exact ⟨line, read, rfl⟩
  · intro given
    obtain ⟨line, read, rfl⟩ := given
    exact ⟨line, rest, read, rfl⟩

theorem status_eq_sqlOk_iff :
    (if line ≠ endStr then errRunSqlError else sqlOk) = sqlOk ↔ line = endStr := by
  by_cases same : line = endStr
  · simp [same]
  · simp [same, errRunSqlError, sqlOk]

/-- A caller tells of an execution exactly if the rows do. -/
theorem tellsExecution_iff {text : Except Fault Bytes} :
    TellsExecution sqlite3Exec text db (runModifyingQuery sqlite3Exec text db) ↔
      RowsTell sqlite3Exec text db := by
  constructor
  · intro given
    obtain ⟨status, rest, run, ok, -⟩ := given
    cases text with
    | error e => cases run
    | ok statement =>
        obtain ⟨line, read, rfl⟩ := runModifyingQuery_eq_done.mp run
        rw [status_eq_sqlOk_iff] at ok
        unfold runSqliteQuery at read
        cases handed : initSqliteServer .empty (writtenQuery statement) with
        | nil =>
            rw [handed, respond, readResponse, run_responseLines_nil] at read
            cases read
        | cons first others =>
            rw [handed] at read
            obtain ⟨ends, few, is⟩ := runs_respond_iff.mp ⟨rest, read⟩
            refine ⟨statement, first, others, rfl, handed, ?_⟩
            by_cases executes : Executes sqlite3Exec (.ok statement) db
            · exact .inl ⟨executes, noRowFirst_iff.mpr ⟨ends, few, (ok.mpr executes).symm.trans is⟩⟩
            · exact .inr ⟨executes, rowFirst_iff.mpr ⟨ends, few,
                fun same => executes (ok.mp (is.trans same))⟩⟩
  · intro given
    obtain ⟨statement, first, others, rfl, handed, told⟩ := given
    have answers (line : Bytes) (given : ResponseEnds (sqlite3Exec first db).rows ∧
        ((writtenLines (sqlite3Exec first db).rows).takeWhile (· ≠ endStr)).length < maxColumns ∧
        line = (writtenLines (sqlite3Exec first db).rows).headD endStr) :
        ∃ rest, runModifyingQuery sqlite3Exec (.ok statement) db =
          .done (if line ≠ endStr then errRunSqlError else sqlOk) rest := by
      obtain ⟨rest, read⟩ := (@runs_respond_iff _ sqlite3Exec db first line others).mpr given
      have query : runSqliteQuery sqlite3Exec statement db = .done line rest := by
        rw [runSqliteQuery, handed]
        exact read
      exact ⟨rest, runModifyingQuery_eq_done.mpr ⟨line, query, rfl⟩⟩
    rcases told with ⟨executes, noRow⟩ | ⟨not, row⟩
    · obtain ⟨rest, done⟩ := answers _ (noRowFirst_iff.mp noRow)
      exact ⟨_, rest, done, iff_of_true (status_eq_sqlOk_iff.mpr rfl) executes,
        fun not => absurd executes not⟩
    · obtain ⟨ends, few, other⟩ := rowFirst_iff.mp row
      obtain ⟨rest, done⟩ := answers _ ⟨ends, few, rfl⟩
      exact ⟨_, rest, done, iff_of_false (fun ok => other (status_eq_sqlOk_iff.mp ok)) not,
        fun _ => if_pos other⟩

end Callers

/-- Each of the three callers tells whether its statement was executed exactly if the rows
that SQLite delivers for it do. -/
theorem callers_tell_execution_iff {Db : Type} (sqlite3Exec : Bytes → Db → Execution Db) (db : Db) :
    (∀ query, TellsExecution sqlite3Exec (insertQueryToStr query) db
        (runInsertSqliteQuery sqlite3Exec query db) ↔
      RowsTell sqlite3Exec (insertQueryToStr query) db) ∧
    (∀ query, TellsExecution sqlite3Exec (updateQueryToStr query) db
        (runUpdateSqliteQuery sqlite3Exec query db) ↔
      RowsTell sqlite3Exec (updateQueryToStr query) db) ∧
    ∀ query, TellsExecution sqlite3Exec (deleteQueryToStr query) db
        (runDeleteSqliteQuery sqlite3Exec query db) ↔
      RowsTell sqlite3Exec (deleteQueryToStr query) db :=
  ⟨fun _ => tellsExecution_iff, fun _ => tellsExecution_iff, fun _ => tellsExecution_iff⟩

/-- `DELETE FROM users`, on a table of three rows. -/
theorem delete_tells_execution :
    let sqlite3Exec := fun (text : Bytes) (users : Nat) =>
      if text = ascii "DELETE FROM users WHERE 1=1;" then ⟨[], sqliteOk, 0⟩
      else (⟨[], 1, users⟩ : Execution Nat)
    TellsExecution sqlite3Exec (deleteQueryToStr ⟨ascii "users", none⟩) 3
      (runDeleteSqliteQuery sqlite3Exec ⟨ascii "users", none⟩ 3) := by
  intro sqlite3Exec
  have handed : initSqliteServer .empty (writtenQuery (ascii "DELETE FROM users WHERE 1=1;")) =
      [ascii "DELETE FROM users WHERE 1=1;"] := by decide +kernel
  have code : (sqlite3Exec (ascii "DELETE FROM users WHERE 1=1;") 3).code = sqliteOk := by
    decide +kernel
  have noRow : NoRowFirst (sqlite3Exec (ascii "DELETE FROM users WHERE 1=1;") 3).rows := by
    dsimp only [sqlite3Exec]
    rw [if_pos rfl]
    exact noRowFirst_iff.mpr ⟨.inl (List.forall_mem_nil _), by decide, rfl⟩
  exact ((callers_tell_execution_iff sqlite3Exec 3).2.2 _).mpr
    ⟨_, _, [], rfl, handed, .inl ⟨⟨_, rfl, handed, code⟩, noRow⟩⟩

/-- With `RETURNING` the statement delivers a row, which is taken for an error. -/
example : runDeleteSqliteQuery (fun _ _ => ⟨[[some ⟨ascii "2", by decide⟩]], sqliteOk, 0⟩)
    ⟨ascii "users", some (ascii "1=1 RETURNING user_id")⟩ 3 = .done errRunSqlError [] := by
  decide +kernel

/-- `SQLITE_ERROR` for a table that does not exist: the caller returns `SQL_OK`. -/
theorem insert_hides_error :
    let sqlite3Exec := fun (_ : Bytes) (_ : Unit) => (⟨[], 1, ()⟩ : Execution Unit)
    let query : InsertQuery := ⟨ascii "file", nullCells.set 0 (some (ascii "alias")),
      nullCells.set 0 (some (ascii "1"))⟩
    insertQueryToStr query = .ok (ascii "INSERT INTO file(alias) VALUES(1);") ∧
      runInsertSqliteQuery sqlite3Exec query () = .done sqlOk [] ∧
      ¬ TellsExecution sqlite3Exec (insertQueryToStr query) ()
        (runInsertSqliteQuery sqlite3Exec query ()) := by
  intro sqlite3Exec query
  have run : runInsertSqliteQuery sqlite3Exec query () = .done sqlOk [] := by decide +kernel
  refine ⟨by decide +kernel, run, ?_⟩
  intro given
  obtain ⟨status, rest, returned, ok, -⟩ := given
  rw [run, Outcome.done.injEq] at returned
  obtain ⟨_, -, -, code⟩ := ok.mp returned.1.symm
  exact absurd code (by decide)

end IpcFtp
