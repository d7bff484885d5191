import IpcFtp.Sqlite.Query
import IpcFtp.Lib.QuotedText

/-!
# The statements of the SQL helpers

`server/sql_helpers.c`.  Each helper prints the strings it was given between quotes and
hands them to a query builder.  `SqlCall` collects the six helpers with their
arguments, `SqlCall.text` is the statement the code builds, and `SqlCall.template` the
statement it is meant to be; `SqlCall.text_eq_ok` compares the two texts.
-/

namespace IpcFtp

open Lib

/-- `fs_user_t`: the session of a logged-in client. -/
structure FsUser : Type where
  name : CString
  home : CString
  isAdmin : Byte
  id : Int
  deriving DecidableEq

/-- `user_t`. -/
structure User : Type where
  username : CString
  password : CString
  admin : Byte

/-- `"\"%s\""`. -/
def doubleQuoted (s : Bytes) : Bytes := ascii "\"" ++ s ++ ascii "\""

/-- `"\'%s%%\'"`. -/
def likePattern (s : Bytes) : Bytes := ascii "'" ++ s ++ ascii "%'"

def askForFileQuery (fileAlias home : Bytes) : Except Fault Bytes := do
  let query ← createSelectQuery
  let query ← setSelectQueryTable query (ascii "files")
  let query ← setSelectQueryAtribute query (ascii "path")
  let query ← setSelectQueryWhere query (ascii "alias") (ascii "=") (doubleQuoted fileAlias)
  let query ← setSelectQueryWhere query (ascii "path") (ascii "LIKE") (likePattern home)
  selectQueryToStr query

def insertAliasQuery (fileAlias home : Bytes) : Except Fault Bytes := do
  let query ← setInsertQueryTable createInsertQuery (ascii "files")
  let query ← setInsertQueryValue query (ascii "path")
    (doubleQuoted (home ++ ascii "/" ++ fileAlias))
  let query ← setInsertQueryValue query (ascii "owner") (ascii "2")
  let query ← setInsertQueryValue query (ascii "alias") (doubleQuoted fileAlias)
  insertQueryToStr query

def userIdentificationQuery (username password : Bytes) : Except Fault Bytes := do
  let query ← createSelectQuery
  let query ← setSelectQueryTable query (ascii "users")
  let query ← setSelectQueryAtribute query (ascii "home")
  let query ← setSelectQueryAtribute query (ascii "user_id")
  let query ← setSelectQueryAtribute query (ascii "is_admin")
  let query ← setSelectQueryWhere query (ascii "username") (ascii "=") (doubleQuoted username)
  let query ← setSelectQueryWhere query (ascii "password") (ascii "=") (doubleQuoted password)
  selectQueryToStr query

def userInDbQuery (username : Bytes) : Except Fault Bytes := do
  let query ← createSelectQuery
  let query ← setSelectQueryTable query (ascii "users")
  let query ← setSelectQueryAtribute query (ascii "home")
  let query ← setSelectQueryWhere query (ascii "username") (ascii "=") (doubleQuoted username)
  selectQueryToStr query

/-- `(user->admin > 0) ? 1 : 0`. -/
def adminFlag (admin : Byte) : Int := if admin > 0 then 1 else 0

def newUserQuery (user : User) : Except Fault Bytes := do
  let query ← setInsertQueryTable createInsertQuery (ascii "users")
  let query ← setInsertQueryValue query (ascii "username") (doubleQuoted user.username.bytes)
  let query ← setInsertQueryValue query (ascii "password") (doubleQuoted user.password.bytes)
  let query ← setInsertQueryValue query (ascii "home")
    (doubleQuoted (ascii "/fs/" ++ user.username.bytes))
  let query ← setInsertQueryValue query (ascii "is_admin")
    (doubleQuoted (decimal (adminFlag user.admin)))
  insertQueryToStr query

def updatePassQuery (id : Int) (newPass : Bytes) : Except Fault Bytes := do
  let query ← createUpdateQuery
  let query ← setUpdateQueryTable query (ascii "users")
  let query ← setUpdateQueryValue query (ascii "password") (doubleQuoted newPass)
  let query ← setUpdateQueryWhere query (ascii "user_id") (ascii "=") (decimal id)
  updateQueryToStr query

/-- A call of one of the six helpers. -/
inductive SqlCall : Type
  | askForFileToDb (fileAlias home : CString)
  | insertAliasInDb (fileAlias home : CString)
  | userIdentificationInDb (username password : CString)
  | userInDb (username : CString)
  | newUserInDb (user : User)
  | updatePassInDb (id : Int) (newPass : CString)

/-- The statement a helper hands to `run_sqlite_query`. -/
def SqlCall.text : SqlCall → Except Fault Bytes
  | .askForFileToDb fileAlias home => askForFileQuery fileAlias.bytes home.bytes
  | .insertAliasInDb fileAlias home => insertAliasQuery fileAlias.bytes home.bytes
  | .userIdentificationInDb username password =>
    userIdentificationQuery username.bytes password.bytes
  | .userInDb username => userInDbQuery username.bytes
  | .newUserInDb user => newUserQuery user
  | .updatePassInDb id newPass => updatePassQuery id newPass.bytes

/-! ## The intended statements -/

/-- A value between double quotes, as a template hole. -/
def hole (value : Bytes) : Segment Byte := .quoted (chr '"') value

/-- The statement of each helper, its strings in the holes. -/
def SqlCall.template : SqlCall → List (Segment Byte)
  | .askForFileToDb fileAlias home =>
    [.code (ascii "SELECT path FROM files WHERE 1=1 AND alias = "), hole fileAlias.bytes,
      .code (ascii " AND path LIKE "), .quoted (chr '\'') (home.bytes ++ ascii "%"),
      .code (ascii ";")]
  | .insertAliasInDb fileAlias home =>
    [.code (ascii "INSERT INTO files(path,owner,alias) VALUES("),
      hole (home.bytes ++ ascii "/" ++ fileAlias.bytes), .code (ascii ",2,"),
      hole fileAlias.bytes, .code (ascii ");")]
  | .userIdentificationInDb username password =>
    [.code (ascii "SELECT home,user_id,is_admin FROM users WHERE 1=1 AND username = "),
      hole username.bytes, .code (ascii " AND password = "), hole password.bytes,
      .code (ascii ";")]
  | .userInDb username =>
    [.code (ascii "SELECT home FROM users WHERE 1=1 AND username = "),
      hole username.bytes, .code (ascii ";")]
  | .newUserInDb user =>
    [.code (ascii "INSERT INTO users(username,password,home,is_admin) VALUES("),
      hole user.username.bytes, .code (ascii ","), hole user.password.bytes,
      .code (ascii ","), hole (ascii "/fs/" ++ user.username.bytes), .code (ascii ","),
      hole (decimal (adminFlag user.admin)), .code (ascii ");")]
  | .updatePassInDb id newPass =>
    [.code (ascii "UPDATE users SET password="), hole newPass.bytes,
      .code (ascii " WHERE 1=1 AND user_id = " ++ decimal id ++ ascii ";")]

/-- The statement as a text. -/
def SqlCall.statement (call : SqlCall) : Bytes := render call.template

/-- The length of the text that goes through the `WHERE_LENGTH` buffer. -/
def SqlCall.whereSize : SqlCall → Nat
  | .askForFileToDb fileAlias home => 36 + fileAlias.bytes.length + home.bytes.length
  | .insertAliasInDb _ _ => 0
  | .userIdentificationInDb username password =>
    39 + username.bytes.length + password.bytes.length
  | .userInDb username => 21 + username.bytes.length
  | .newUserInDb _ => 0
  | .updatePassInDb id _ => 18 + (decimal id).length

/-- The statement and its condition fit their buffers. -/
def SqlCall.Fits (call : SqlCall) : Prop :=
  call.whereSize < whereLength ∧ call.statement.length < maxQueryLength

instance (call : SqlCall) : Decidable call.Fits := inferInstanceAs (Decidable (_ ∧ _))

/-! ## The code builds the intended text -/

/-- A helper either builds its statement or overruns a buffer. -/
theorem SqlCall.text_eq_ok {call : SqlCall} {t : Bytes} :
    call.text = .ok t ↔ call.Fits ∧ call.statement = t := by
  unfold SqlCall.text SqlCall.Fits SqlCall.whereSize SqlCall.statement SqlCall.template
  cases call
  -- the buffers of a query are filled in order, so its last sizes imply the earlier ones
  all_goals
    simp [-List.append_assoc, ← and_assoc, askForFileQuery, insertAliasQuery,
      userIdentificationQuery, userInDbQuery, newUserQuery, updatePassQuery, andClause,
      doubleQuoted, likePattern, hole, render, Segment.text, maxColumns, maxNameLength,
      whereLength, maxQueryLength]
    repeat rw [ascii_ofList]
    simp only [List.length_map, List.length_cons, List.length_nil]
    refine and_congr (by omega) (Eq.congr_left ?_)
    simp

/-! ## Every statement is one C string that ends with a semicolon -/

/-- No statement holds a NUL. -/
theorem SqlCall.nulFree_statement (call : SqlCall) : 0 ∉ call.statement := by
  have code {chars : List Char} {rest : List (Segment Byte)}
      (plain : chars.all fun c => chr c ≠ 0) (later : 0 ∉ render rest) :
      0 ∉ render (.code (ascii (String.ofList chars)) :: rest) :=
    notMem_render_code (nulFree_ascii plain) later
  have filled {value : Bytes} {rest : List (Segment Byte)} (plain : 0 ∉ value)
      (later : 0 ∉ render rest) : 0 ∉ render (hole value :: rest) :=
    notMem_render_quoted (by decide) plain later
  have done : (0 : Byte) ∉ render [] := List.not_mem_nil
  unfold SqlCall.statement SqlCall.template
  cases call with
  | askForFileToDb fileAlias home =>
      have pattern : 0 ∉ home.bytes ++ ascii "%" :=
        List.not_mem_append home.nulFree (nulFree_ascii (by decide))
      exact code (by decide) (filled fileAlias.nulFree (code (by decide)
        (notMem_render_quoted (by decide) pattern (code (by decide) done))))
  | insertAliasInDb fileAlias home =>
      have folder : 0 ∉ home.bytes ++ ascii "/" :=
        List.not_mem_append home.nulFree (nulFree_ascii (by decide))
      have path := List.not_mem_append folder fileAlias.nulFree
      exact code (by decide) (filled path (code (by decide)
        (filled fileAlias.nulFree (code (by decide) done))))
  | userIdentificationInDb username password =>
      exact code (by decide) (filled username.nulFree (code (by decide)
        (filled password.nulFree (code (by decide) done))))
  | userInDb username =>
      exact code (by decide) (filled username.nulFree (code (by decide) done))
  | newUserInDb user =>
      have home : 0 ∉ ascii "/fs/" ++ user.username.bytes :=
        List.not_mem_append (nulFree_ascii (by decide)) user.username.nulFree
      exact code (by decide) (filled user.username.nulFree (code (by decide)
        (filled user.password.nulFree (code (by decide) (filled home (code (by decide)
          (filled (nulFree_decimal _) (code (by decide) done))))))))
  | updatePassInDb id newPass =>
      have condition : 0 ∉ ascii " WHERE 1=1 AND user_id = " ++ decimal id :=
        List.not_mem_append (nulFree_ascii (by decide)) (nulFree_decimal id)
      have ending := List.not_mem_append condition (@nulFree_ascii [';'] (by decide))
      exact code (by decide) (filled newPass.nulFree (notMem_render_code ending done))

/-- Every statement ends with a semicolon. -/
theorem SqlCall.statement_eq_append (call : SqlCall) :
    ∃ body, call.statement = body ++ [chr ';'] := by
  have ends (front : List (Segment Byte)) (last : Bytes) : ∃ body,
      render (front ++ [.code (last ++ [chr ';'])]) = body ++ [chr ';'] :=
    ⟨render front ++ last, by simp [render, Segment.text]⟩
  cases call with
  | askForFileToDb fileAlias home => exact ends [_, _, _, _] []
  | insertAliasInDb fileAlias home => exact ends [_, _, _, _] (ascii ")")
  | userIdentificationInDb username password => exact ends [_, _, _, _] []
  | userInDb username => exact ends [_, _] []
  | newUserInDb user => exact ends [_, _, _, _, _, _, _, _] (ascii ")")
  | updatePassInDb id newPass =>
      exact ends [_, _] (ascii " WHERE 1=1 AND user_id = " ++ decimal id)

/-- Every statement is a `SELECT`, an `INSERT` or an `UPDATE`. -/
theorem SqlCall.head_statement (call : SqlCall) :
    call.statement.head? ∈ [some (chr 'S'), some (chr 'I'), some (chr 'U')] := by
  have head {c : Char} {chars : List Char} {rest : List (Segment Byte)} :
      (render (.code (ascii (String.ofList (c :: chars))) :: rest)).head? = some (chr c) := by
    rw [render, List.flatMap_cons, Segment.text, ascii_ofList]
    rfl
  unfold SqlCall.statement SqlCall.template
  cases call with
  | askForFileToDb fileAlias home =>
      rw [head]
      exact .head _
  | insertAliasInDb fileAlias home =>
      rw [head]
      exact .tail _ (.head _)
  | userIdentificationInDb username password =>
      rw [head]
      exact .head _
  | userInDb username =>
      rw [head]
      exact .head _
  | newUserInDb user =>
      rw [head]
      exact .tail _ (.head _)
  | updatePassInDb id newPass =>
      rw [head]
      exact .tail _ (.tail _ (.head _))

end IpcFtp
