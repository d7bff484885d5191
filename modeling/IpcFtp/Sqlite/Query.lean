import IpcFtp.CString

/-!
# The query builders

`lib/sqlite/sqlite.{select,insert,update,delete}.c`, with `to_fields_string` of `sqlite.c`.
A query holds arrays of `MAX_COLUMNS` cells, null until they are set.  The `where` text
and the finished statement are printed into buffers of `WHERE_LENGTH` and
`MAX_QUERY_LENGTH` bytes without a check, so a builder either gives a text or overruns
one of them.  `sprintf` with its own destination as first argument is read as appending.
-/

namespace IpcFtp

/-- `MAX_QUERY_LENGTH`. -/
def maxQueryLength : Nat := 1024

/-- `MAX_NAME_LENGTH`. -/
def maxNameLength : Nat := 16

/-- `MAX_COLUMNS`. -/
def maxColumns : Nat := 10

/-- `WHERE_LENGTH`. -/
def whereLength : Nat := 894

/-- An array of strings: a null pointer in each cell that has not been set. -/
abbrev Cells : Type := List (Option Bytes)

/-- `sqlite_select_query_t`. -/
structure SelectQuery : Type where
  table : Bytes
  atributes : Cells
  whereText : Bytes

/-- `sqlite_insert_query_t`. -/
structure InsertQuery : Type where
  table : Bytes
  atributes : Cells
  values : Cells

/-- `sqlite_update_query_t`. -/
structure UpdateQuery : Type where
  table : Bytes
  atributes : Cells
  values : Cells
  whereText : Bytes

/-- `sqlite_delete_query_t`; its condition may be null. -/
structure DeleteQuery : Type where
  table : Bytes
  whereText : Option Bytes

/-! ## Creating and filling -/

def nullCells : Cells := List.replicate maxColumns none

def createSelectQuery : Except Fault SelectQuery := do
  let whereText ← sprintf whereLength (ascii "1=1")
  return ⟨[], nullCells, whereText⟩

def createInsertQuery : InsertQuery := ⟨[], nullCells, nullCells⟩

def createUpdateQuery : Except Fault UpdateQuery := do
  let whereText ← sprintf whereLength (ascii "1=1")
  return ⟨[], nullCells, nullCells, whereText⟩

def setSelectQueryTable (query : SelectQuery) (table : Bytes) :
    Except Fault SelectQuery := do
  return { query with table := ← sprintf maxNameLength table }

def setInsertQueryTable (query : InsertQuery) (table : Bytes) :
    Except Fault InsertQuery := do
  return { query with table := ← sprintf maxNameLength table }

def setUpdateQueryTable (query : UpdateQuery) (table : Bytes) :
    Except Fault UpdateQuery := do
  return { query with table := ← sprintf maxNameLength table }

/-- `while (atributes[i] != NULL && i++ < MAX_COLUMNS);` from cell `i` on. -/
def freeCell : Cells → Nat → Except Fault Nat
  | [], _ => .error .outOfBounds
  | none :: _, i => .ok i
  | some _ :: cells, i => if i < maxColumns then freeCell cells (i + 1) else .ok (i + 1)

def setSelectQueryAtribute (query : SelectQuery) (atribute : Bytes) :
    Except Fault SelectQuery := do
  let i ← freeCell query.atributes 0
  if i ≠ maxColumns then
    return { query with atributes := query.atributes.set i (some atribute) }
  else return query

def setInsertQueryValue (query : InsertQuery) (atribute value : Bytes) :
    Except Fault InsertQuery := do
  let i ← freeCell query.atributes 0
  if i ≠ maxColumns then
    return { query with
      atributes := query.atributes.set i (some atribute)
      values := query.values.set i (some value) }
  else return query

def setUpdateQueryValue (query : UpdateQuery) (atribute value : Bytes) :
    Except Fault UpdateQuery := do
  let i ← freeCell query.atributes 0
  if i ≠ maxColumns then
    return { query with
      atributes := query.atributes.set i (some atribute)
      values := query.values.set i (some value) }
  else return query

/-- `"%s AND %s %s %s"`. -/
def andClause (whereText column op rawValue : Bytes) : Bytes :=
  whereText ++ ascii " AND " ++ column ++ ascii " " ++ op ++ ascii " " ++ rawValue

def setSelectQueryWhere (query : SelectQuery) (column op rawValue : Bytes) :
    Except Fault SelectQuery := do
  let whereText ← sprintf whereLength (andClause query.whereText column op rawValue)
  return { query with whereText }

def setUpdateQueryWhere (query : UpdateQuery) (column op rawValue : Bytes) :
    Except Fault UpdateQuery := do
  let whereText ← sprintf whereLength (andClause query.whereText column op rawValue)
  return { query with whereText }

/-! ## Rendering -/

/-- The loop of `to_fields_string` from cell `i` on, `aux` holding what is printed so
far. -/
def toFieldsStringFrom : Cells → Nat → Bytes → Except Fault Bytes
  | [], _, _ => .error .outOfBounds
  | none :: _, _, aux => .ok aux
  | some field :: fields, i, aux => do
    let aux ← sprintf maxQueryLength (if i = 0 then field else aux ++ ascii "," ++ field)
    toFieldsStringFrom fields (i + 1) aux

/-- `to_fields_string`; no caller passes an array whose first cell is null. -/
def toFieldsString (fields : Cells) : Except Fault Bytes := toFieldsStringFrom fields 0 []

def selectQueryToStr (query : SelectQuery) : Except Fault Bytes := do
  let atributes :=
    match query.atributes with
    | none :: rest => some (ascii "*") :: rest
    | atributes => atributes
  let fields ← toFieldsString atributes
  sprintf maxQueryLength (ascii "SELECT " ++ fields ++ ascii " FROM " ++ query.table ++
    ascii " WHERE " ++ query.whereText ++ ascii ";")

/-- `insert_query_to_str`; its callers pass the null it returns for a query without
attributes on to `strlen`. -/
def insertQueryToStr (query : InsertQuery) : Except Fault Bytes := do
  if query.atributes.head? = some none then .error .nullPointer
  let atributes ← toFieldsString query.atributes
  let values ← toFieldsString query.values
  sprintf maxQueryLength (ascii "INSERT INTO " ++ query.table ++ ascii "(" ++ atributes ++
    ascii ") VALUES(" ++ values ++ ascii ");")

/-- The array of `atribute=value` texts of `update_query_to_str`, closed by a null. -/
def assignments : Cells → Cells → Except Fault Cells
  | none :: _, _ => .ok [none]
  | some atribute :: atributes, some value :: values => do
    let rest ← assignments atributes values
    return some (atribute ++ ascii "=" ++ value) :: rest
  | some _ :: _, _ => .error .nullPointer
  | [], _ => .error .outOfBounds

def updateQueryToStr (query : UpdateQuery) : Except Fault Bytes := do
  if query.atributes.head? = some none then .error .nullPointer
  let fields ← toFieldsString (← assignments query.atributes query.values)
  sprintf maxQueryLength (ascii "UPDATE " ++ query.table ++ ascii " SET " ++ fields ++
    ascii " WHERE " ++ query.whereText ++ ascii ";")

def deleteQueryToStr (query : DeleteQuery) : Except Fault Bytes :=
  sprintf maxQueryLength (ascii "DELETE FROM " ++ query.table ++ ascii " WHERE " ++
    query.whereText.getD (ascii "1=1") ++ ascii ";")

/-! ## Buffers as conditions -/

@[simp] theorem pure_eq_ok {α : Type} (a : α) : (pure a : Except Fault α) = .ok a := rfl

@[simp] theorem sprintf_eq_ok {capacity : Nat} {text out : Bytes} :
    sprintf capacity text = .ok out ↔ text.length < capacity ∧ text = out := by
  unfold sprintf
  split
  · rename_i fits
    simp [fits]
  · rename_i long
    simp [long]

@[simp] theorem bind_eq_ok {α β : Type} {action : Except Fault α}
    {next : α → Except Fault β} {b : β} :
    (action >>= next) = .ok b ↔ ∃ a, action = .ok a ∧ next a = .ok b := by
  cases action with
  | error e => simp [bind, Except.bind]
  | ok a => simp [bind, Except.bind]

@[simp] theorem nullCells_eq :
    nullCells = [none, none, none, none, none, none, none, none, none, none] := rfl

attribute [simp] createSelectQuery createInsertQuery createUpdateQuery setSelectQueryTable
  setInsertQueryTable setUpdateQueryTable setSelectQueryAtribute setInsertQueryValue
  setUpdateQueryValue setSelectQueryWhere setUpdateQueryWhere selectQueryToStr
  insertQueryToStr updateQueryToStr deleteQueryToStr assignments toFieldsString toFieldsStringFrom freeCell

end IpcFtp
