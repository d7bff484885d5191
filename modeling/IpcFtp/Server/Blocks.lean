import IpcFtp.RawMemory
import IpcFtp.Serialization.ParseResult
import IpcFtp.Server.CommandEffects
import IpcFtp.Server.Database
import IpcFtp.Server.Status

/-!
# The blocks the server prints into

The blocks that `server/sql_helpers.c` and the query builders allocate for one string each, with
what `sprintf` writes there, and the block of `MAX_LOG_LENGTH` bytes for the lines a thread logs.
The buffers of a query are those of `IpcFtp.Sqlite.Query`, and `SqlCall.Fits` is about them.

* `inside_of_request_iff`: which requests leave a block of a string.
* `logged_inside_iff`: which requests leave the block of the log.
-/

namespace IpcFtp

open Lib Program

/-- A `sprintf` into a block: the size of the block, and the text. -/
structure BlockPrint : Type where
  size : Nat
  text : Bytes

/-- The text and its terminator are inside the block. -/
def BlockPrint.Inside (print : BlockPrint) : Prop := print.text.length < print.size

instance (print : BlockPrint) : Decidable print.Inside := inferInstanceAs (Decidable (_ < _))

/-! ## The strings of a query -/

/-- The copy of `set_select_query_atribute`. -/
def atributePrint (atribute : Bytes) : BlockPrint := ⟨atribute.length + 1, atribute⟩

/-- The copies of `set_insert_query_value`, and those of `set_update_query_value`. -/
def valuePrints (atribute value : Bytes) : List BlockPrint :=
  [⟨atribute.length, atribute⟩, ⟨value.length, value⟩]

/-- A cell of the array of `update_query_to_str`. -/
def assignmentPrint (atribute value : Bytes) : BlockPrint :=
  ⟨atribute.length + 1 + value.length + 1, atribute ++ ascii "=" ++ value⟩

/-- What a helper and its builder print, each into a block of its own. -/
def SqlCall.prints : SqlCall → List BlockPrint
  | .askForFileToDb fileAlias home =>
    [atributePrint (ascii "path"),
      ⟨1 + fileAlias.bytes.length + 2, doubleQuoted fileAlias.bytes⟩,
      ⟨1 + (home.bytes.length + 3), likePattern home.bytes⟩]
  | .insertAliasInDb fileAlias home =>
    let path := doubleQuoted (home.bytes ++ ascii "/" ++ fileAlias.bytes)
    let aliasText := doubleQuoted fileAlias.bytes
    [⟨1 + home.bytes.length + 1 + fileAlias.bytes.length + 2, path⟩,
        ⟨fileAlias.bytes.length + 1, aliasText⟩] ++
      (valuePrints (ascii "path") path ++ valuePrints (ascii "owner") (ascii "2") ++
        valuePrints (ascii "alias") aliasText)
  | .userIdentificationInDb username password =>
    [atributePrint (ascii "home"), atributePrint (ascii "user_id"),
      atributePrint (ascii "is_admin"),
      ⟨2 + username.bytes.length + 1, doubleQuoted username.bytes⟩,
      ⟨2 + password.bytes.length + 1, doubleQuoted password.bytes⟩]
  | .userInDb username =>
    [atributePrint (ascii "home"), ⟨2 + username.bytes.length + 1, doubleQuoted username.bytes⟩]
  | .newUserInDb user =>
    let name := doubleQuoted user.username.bytes
    let pass := doubleQuoted user.password.bytes
    let home := doubleQuoted (ascii "/fs/" ++ user.username.bytes)
    let root := doubleQuoted (decimal (adminFlag user.admin))
    [⟨1 + user.username.bytes.length + 2, name⟩, ⟨1 + user.password.bytes.length + 2, pass⟩,
        ⟨4 + user.username.bytes.length + 2, home⟩, ⟨2, root⟩] ++
      (valuePrints (ascii "username") name ++ valuePrints (ascii "password") pass ++
        valuePrints (ascii "home") home ++ valuePrints (ascii "is_admin") root)
  | .updatePassInDb id newPass =>
    let pass := doubleQuoted newPass.bytes
    [⟨1 + newPass.bytes.length + 2, pass⟩, ⟨6, decimal id⟩] ++
      (valuePrints (ascii "password") pass ++ [assignmentPrint (ascii "password") pass])

/-- A `SELECT`. -/
def SqlCall.Selects : SqlCall → Prop
  | .askForFileToDb _ _ | .userIdentificationInDb _ _ | .userInDb _ => True
  | .insertAliasInDb _ _ | .newUserInDb _ | .updatePassInDb _ _ => False

section Prints

variable {atribute value : Bytes} {call : SqlCall}

theorem inside_atributePrint : (atributePrint atribute).Inside := Nat.lt_succ_self _

theorem length_doubleQuoted (s : Bytes) : (doubleQuoted s).length = s.length + 2 := by
  simp [doubleQuoted, ascii]

theorem length_likePattern (s : Bytes) : (likePattern s).length = s.length + 3 := by
  simp [likePattern, ascii]

/-- The terminator of a copied name is outside its block. -/
theorem outside_valuePrints {before after : List BlockPrint} :
    ¬ ∀ print ∈ before ++ (valuePrints atribute value ++ after), print.Inside := by
  intro inside
  have copied : (⟨atribute.length, atribute⟩ : BlockPrint).Inside :=
    inside _ (List.mem_append_right _ (List.mem_append_left _ List.mem_cons_self))
  exact Nat.lt_irrefl _ copied

/-- No helper that inserts or updates stays inside its blocks, and every other one does. -/
theorem SqlCall.inside_iff : (∀ print ∈ call.prints, print.Inside) ↔ call.Selects := by
  cases call with
  | askForFileToDb fileAlias home =>
      refine iff_of_true ?_ trivial
      simp only [SqlCall.prints, List.forall_mem_cons, BlockPrint.Inside, length_doubleQuoted,
        length_likePattern]
      exact ⟨inside_atributePrint, by omega, by omega, List.forall_mem_nil _⟩
  | userIdentificationInDb username password =>
      refine iff_of_true ?_ trivial
      simp only [SqlCall.prints, List.forall_mem_cons, BlockPrint.Inside, length_doubleQuoted]
      exact ⟨inside_atributePrint, inside_atributePrint, inside_atributePrint, by omega, by omega,
        List.forall_mem_nil _⟩
  | userInDb username =>
      refine iff_of_true ?_ trivial
      simp only [SqlCall.prints, List.forall_mem_cons, BlockPrint.Inside, length_doubleQuoted]
      exact ⟨inside_atributePrint, by omega, List.forall_mem_nil _⟩
  | insertAliasInDb fileAlias home =>
      refine iff_of_false ?_ not_false
      simp only [SqlCall.prints, List.append_assoc]
      exact outside_valuePrints
  | newUserInDb user =>
      refine iff_of_false ?_ not_false
      simp only [SqlCall.prints, List.append_assoc]
      exact outside_valuePrints
  | updatePassInDb id newPass =>
      refine iff_of_false ?_ not_false
      exact outside_valuePrints

end Prints

/-! ## Requests -/

/-- Everything a helper prints is inside: its strings, the condition and the statement. -/
def SqlCall.Inside (call : SqlCall) : Prop := (∀ print ∈ call.prints, print.Inside) ∧ call.Fits

/-- The contents `raw_data_from_file` returned. -/
def fileRead : ServerEvent → Option Bytes
  | ⟨.rawDataFromFile _, contents⟩ => contents
  | _ => none

def Request.postedData : Request → Bytes
  | .post data _ _ => data.bytes
  | _ => []

/-- What is printed of a request for its queries, and what `encode_raw_data` and
`decode_to_raw_data` write for it, stays inside the blocks.  The response to a query is read in
`IpcFtp.Sqlite.ResultSet`. -/
structure KeepsBlocks (request : Request) (trace : List ServerEvent) : Prop where
  statements : ∀ event ∈ trace, ∀ call ∈ sqlCall event, call.Inside
  encodes : ∀ event ∈ trace, ∀ contents ∈ fileRead event, EncodesInside contents
  /-- the data of a post are decoded behind its `INSERT` -/
  decodes : (∃ event ∈ trace, insertedRow event ≠ none) → DecodesInside request.postedData

/-- The `SELECT` of a request of this session fits its buffers. -/
def Request.SelectFits (user : Option FsUser) : Request → Prop
  | .get path => ∀ session ∈ user, (SqlCall.askForFileToDb path session.home).Fits
  | .post _ dest _ => ∀ session ∈ user, (SqlCall.askForFileToDb dest session.home).Fits
  | .login username password =>
    user = none → (SqlCall.userIdentificationInDb username password).Fits
  | .newUser added => ∀ session ∈ user, session.isAdmin ≠ 0 →
    (SqlCall.userInDb added.username).Fits
  | _ => True

/-- The request changes no table or is refused, its `SELECT` fits, and no byte of a file is
read. -/
@[mk_iff] structure Request.Harmless (request : Request) (user : Option FsUser)
    (trace : List ServerEvent) : Prop where
  unchanging : ¬ (request.Changes ∧ refusal user trace request = none)
  fits : request.SelectFits user
  unread : ∀ event ∈ trace, ∀ contents ∈ fileRead event, contents = []

section Requests

variable {t : Transport} {worker : Worker} {request : Request} {err : CommError}
  {trace : List ServerEvent} {result : Except Fault (Worker × CommError)}

theorem SqlCall.inside_iff_selects {call : SqlCall} : call.Inside ↔ call.Selects ∧ call.Fits :=
  and_congr_left' SqlCall.inside_iff

/-- Among what is written for a request only `SELECT`s stay inside, and the copies of files
without a byte. -/
theorem keepsBlocks_iff : KeepsBlocks request trace ↔
    (∀ event ∈ trace, ∀ call ∈ sqlCall event, call.Selects ∧ call.Fits) ∧
      ∀ event ∈ trace, ∀ contents ∈ fileRead event, contents = [] := by
  constructor
  · intro keeps
    exact ⟨fun event member call made =>
        SqlCall.inside_iff_selects.mp (keeps.statements event member call made),
      fun event member contents read => (encodesInside_iff _).mp
        (keeps.encodes event member contents read)⟩
  · intro ⟨selects, unread⟩
    refine ⟨fun event member call made =>
        SqlCall.inside_iff_selects.mpr (selects event member call made),
      fun event member contents read => (encodesInside_iff _).mpr
        (unread event member contents read), ?_⟩
    intro given
    obtain ⟨⟨call, answer⟩, member, inserts⟩ := given
    cases call with
    | insertAliasInDb fileAlias user => exact (selects _ member _ rfl).1.elim
    | _ => exact absurd rfl inserts

theorem sqlCall_of_isSend {event : ServerEvent} (sends : isSend event = true) :
    sqlCall event = none ∧ fileRead event = none := by
  obtain ⟨call, answer⟩ := event
  cases call <;> first | exact ⟨rfl, rfl⟩ | cases sends

/-- Replies are written elsewhere. -/
theorem keepsBlocks_of_isSend (sends : ∀ event ∈ trace, isSend event = true) :
    KeepsBlocks request trace ∧ ∀ event ∈ trace, ∀ contents ∈ fileRead event, contents = [] := by
  have unread : ∀ event ∈ trace, ∀ contents ∈ fileRead event, contents = [] := by
    intro event member contents read
    rw [(sqlCall_of_isSend (sends event member)).2] at read
    cases read
  refine ⟨keepsBlocks_iff.mpr ⟨?_, unread⟩, unread⟩
  intro event member call made
  rw [(sqlCall_of_isSend (sends event member)).1] at made
  cases made

/-- A request that needs a login is refused without one, and nothing is printed for it. -/
theorem keepsBlocks_of_notLogged (out : worker.user = none) (guarded : request.NeedsLogin)
    (runs : Runs (serverResponder t worker request err) trace result) :
    KeepsBlocks request trace ↔ request.Harmless worker.user trace := by
  obtain ⟨rfl, -⟩ := refused_of_notLogged out runs guarded
  have sends : ∀ event ∈ notLogged, isSend event = true := by simp [notLogged, reply, isSend]
  obtain ⟨keeps, unread⟩ : KeepsBlocks request notLogged ∧ _ := keepsBlocks_of_isSend sends
  rw [out]
  refine iff_of_true keeps ⟨?_, ?_, unread⟩
  · cases request with
    | post | newUser | changePass => simp [refusal]
    | get | logout => exact fun given => given.1
    | int | double | string | login | close | other => exact guarded.elim
  · cases request with
    | get | post | newUser | changePass | logout => simp [Request.SelectFits]
    | int | double | string | login | close | other => exact guarded.elim

/-- Exactly the harmless requests keep to their blocks. -/
theorem keepsBlocks_iff_harmless
    (runs : Runs (serverResponder t worker request err) trace result) :
    KeepsBlocks request trace ↔ request.Harmless worker.user trace := by
  obtain ⟨user, closed⟩ := worker
  cases request with
  | int | double | string | close | other =>
      obtain ⟨keeps, unread⟩ := keepsBlocks_of_isSend (runs_sessionless runs trivial).1
      exact iff_of_true keeps ⟨fun given => given.1, trivial, unread⟩
  | login username password =>
      obtain ⟨inner, ran, -⟩ := runs_map.mp runs
      rw [keepsBlocks_iff, Request.harmless_iff]
      rcases runs_processLoginCmd ran with
        ⟨current, rfl, rfl, -⟩ | ⟨rfl, ⟨rfl, -⟩ | ⟨_, rfl, -⟩⟩
      · simp [reply, sqlCall, fileRead, Request.Changes, Request.SelectFits]
      · simp [reply, sqlCall, SqlCall.Selects, fileRead, Request.Changes, Request.SelectFits]
      · simp [reply, sqlCall, SqlCall.Selects, fileRead, Request.Changes, Request.SelectFits]
  | get path =>
      obtain ⟨inner, ran, -⟩ := runs_map.mp runs
      cases user with
      | none => exact keepsBlocks_of_notLogged rfl trivial runs
      | some session =>
          rw [keepsBlocks_iff, Request.harmless_iff]
          rcases runs_processGetCmd ran with ⟨rfl, -⟩ | ⟨row, ⟨rfl, -⟩ | ⟨contents, rfl, -⟩⟩
          · simp [reply, sqlCall, SqlCall.Selects, fileRead, Request.Changes, Request.SelectFits]
          · simp [sqlCall, SqlCall.Selects, fileRead, Request.Changes, Request.SelectFits]
          · simp [reply, sqlCall, SqlCall.Selects, fileRead, Request.Changes, Request.SelectFits]
  | logout =>
      obtain ⟨inner, ran, -⟩ := runs_map.mp runs
      cases user with
      | none => exact keepsBlocks_of_notLogged rfl trivial runs
      | some session =>
          obtain ⟨rfl, -⟩ := runs_processLogoutCmd ran
          rw [keepsBlocks_iff, Request.harmless_iff]
          simp [reply, sqlCall, fileRead, Request.Changes, Request.SelectFits]
  | post data dest size =>
      obtain ⟨inner, ran, -⟩ := runs_map.mp runs
      cases user with
      | none => exact keepsBlocks_of_notLogged rfl trivial runs
      | some session =>
          rw [keepsBlocks_iff, Request.harmless_iff]
          rcases runs_processPostCmd ran with ⟨row, rfl, -⟩ |
            ⟨inserted, ⟨e, -, rfl, -⟩ | ⟨block, written, -, rfl, -⟩⟩
          · simp [reply, sqlCall, SqlCall.Selects, fileRead, Request.Changes, Request.SelectFits,
              refusal, fileFound]
          · simp [sqlCall, SqlCall.Selects, Request.Changes, refusal, fileFound]
          · simp [reply, sqlCall, SqlCall.Selects, Request.Changes, refusal, fileFound]
  | newUser newUser =>
      obtain ⟨inner, ran, -⟩ := runs_map.mp runs
      cases user with
      | none => exact keepsBlocks_of_notLogged rfl trivial runs
      | some session =>
          rcases runs_processNewUserCmd ran with ⟨plain, rfl, -⟩ |
            ⟨admin, ⟨rfl, -⟩ | ⟨inChild, inserted, rfl, -⟩⟩
          · rw [keepsBlocks_iff, Request.harmless_iff]
            simp [reply, sqlCall, fileRead, Request.Changes, Request.SelectFits, refusal, plain]
          · rw [keepsBlocks_iff, Request.harmless_iff]
            simp [reply, sqlCall, SqlCall.Selects, fileRead, Request.Changes, Request.SelectFits,
              refusal, userFound, admin]
          · refine iff_of_false (fun keeps => ?_) fun harmless =>
              harmless.unchanging ⟨trivial, refusal_newUserCalls admin⟩
            have last : ⟨.newUserInDb newUser, inserted⟩ ∈ newUserCalls newUser inChild inserted :=
              .tail _ (.tail _ (List.mem_append_right _ (.head _)))
            exact ((keepsBlocks_iff.mp keeps).1 _ last _ rfl).1
  | changePass pass =>
      obtain ⟨inner, ran, -⟩ := runs_map.mp runs
      cases user with
      | none => exact keepsBlocks_of_notLogged rfl trivial runs
      | some session =>
          obtain ⟨rfl, -⟩ := runs_processChangePassCmd ran
          rw [keepsBlocks_iff, Request.harmless_iff]
          simp [reply, sqlCall, SqlCall.Selects, Request.Changes, refusal]

/-- A request that goes ahead with a change calls a helper that inserts or updates. -/
theorem writes_of_changes (runs : Runs (serverResponder t worker request err) trace result)
    (changes : request.Changes) (ahead : refusal worker.user trace request = none) :
    ∃ event ∈ trace, ∃ call ∈ sqlCall event, ¬ call.Selects := by
  by_contra none
  push Not at none
  obtain ⟨user, closed⟩ := worker
  cases user with
  | none => cases request <;> first | exact changes | cases ahead
  | some session =>
      cases request with
      | post data dest size =>
          obtain ⟨inner, ran, -⟩ := runs_map.mp runs
          rcases runs_processPostCmd ran with ⟨row, rfl, -⟩ |
            ⟨inserted, ⟨e, -, rfl, -⟩ | ⟨block, written, -, rfl, -⟩⟩
          · simp [refusal, fileFound] at ahead
          · exact none _ (.tail _ (.head _)) _ rfl
          · exact none _ (.tail _ (.head _)) _ rfl
      | newUser newUser =>
          obtain ⟨inner, ran, -⟩ := runs_map.mp runs
          rcases runs_processNewUserCmd ran with ⟨plain, rfl, -⟩ |
            ⟨admin, ⟨rfl, -⟩ | ⟨inChild, inserted, rfl, -⟩⟩
          · simp [refusal, plain] at ahead
          · simp [refusal, admin, userFound] at ahead
          · exact none ⟨.newUserInDb newUser, inserted⟩
              (.tail _ (.tail _ (List.mem_append_right _ (.head _)))) _ rfl
      | changePass pass =>
          obtain ⟨inner, ran, -⟩ := runs_map.mp runs
          obtain ⟨rfl, -⟩ := runs_processChangePassCmd ran
          exact none _ (.head _) _ rfl
      | int | double | string | get | login | logout | close | other => exact changes

/-- Whatever the calls are answered, what a request has written stays inside its blocks exactly if
it is not to change a table or is refused, its `SELECT` fits, and no byte of a file is read.  If it
goes ahead with a change, then a string of its `INSERT` or `UPDATE` is outside. -/
theorem inside_of_request_iff
    (runs : Runs (serverResponder t worker request err) trace result) :
    (KeepsBlocks request trace ↔ request.Harmless worker.user trace) ∧
      (request.Changes → refusal worker.user trace request = none →
        ∃ event ∈ trace, ∃ call ∈ sqlCall event, ∃ print ∈ call.prints, ¬ print.Inside) := by
  refine ⟨keepsBlocks_iff_harmless runs, fun changes ahead => ?_⟩
  obtain ⟨event, member, call, made, writes⟩ := writes_of_changes runs changes ahead
  refine ⟨event, member, call, made, ?_⟩
  by_contra inside
  push Not at inside
  exact writes (SqlCall.inside_iff.mp inside)

end Requests

theorem nulFree_pw : 0 ∉ ascii "pw" := by decide

/-- A change of a password does not, short as it is. -/
theorem inside_of_request_changePass :
    ¬ KeepsBlocks (.changePass ⟨ascii "pw", nulFree_pw⟩)
      [⟨.updatePassInDb sessionX ⟨ascii "pw", nulFree_pw⟩, ()⟩,
        reply (ascii "PASSWORD UPDATED") 16] := by
  have runs : Runs (serverResponder .fifo ⟨some sessionX, false⟩
      (.changePass ⟨ascii "pw", nulFree_pw⟩) ⟨errOk, []⟩)
      [⟨.updatePassInDb sessionX ⟨ascii "pw", nulFree_pw⟩, ()⟩, reply (ascii "PASSWORD UPDATED") 16]
      (.ok (⟨some sessionX, false⟩, ⟨errOk, ascii "OK"⟩)) := .call (.call (.ret _))
  exact fun keeps => ((inside_of_request_iff runs).1.mp keeps).unchanging ⟨trivial, rfl⟩

/-! ## The lines of a thread -/

/-- `MAX_LOG_LENGTH`. -/
def maxLogLength : Nat := 100

/-- The process and the thread that lines are from: the one is an `int`, the other a `long`. -/
structure WorkerThread : Type where
  pid : Nat
  self : Int
  process : pid < 2 ^ 31
  low : -2 ^ 63 ≤ self
  high : self < 2 ^ 63

/-- What each of its lines starts with. -/
def WorkerThread.tag (thread : WorkerThread) : Bytes :=
  ascii "worker " ++ natDecimal thread.pid ++ ascii "::thread " ++ decimal thread.self ++ ascii "::"

/-- What the tag leaves of a line for the text the client says. -/
def WorkerThread.room (thread : WorkerThread) : Nat := 87 - thread.tag.length

/-- `"client says: %s"`. -/
def clientSays (text : Bytes) : Bytes := ascii "client says: " ++ text

/-- `"client I say: %s"`. -/
def iSay (text : Bytes) : Bytes := ascii "client I say: " ++ text

/-- What is logged of a request before it is handled; `showDouble` is `%f`. -/
def Request.heard (showDouble : Float → Bytes) (request : Request) : List Bytes :=
  (ascii "client sent: [" ++ request.kind ++ ascii "]") ::
    match request with
    | .int i => [clientSays (decimal i)]
    | .double d => [clientSays (showDouble d)]
    | .string str => [clientSays str.bytes]
    | .get path => [clientSays path.bytes]
    | .post _ dest _ => [clientSays dest.bytes]
    | .login username _ => [clientSays username.bytes]
    | .logout => [clientSays (ascii "command.logout")]
    | .close => [clientSays (ascii "command.close")]
    | .newUser user => [clientSays user.username.bytes]
    | .changePass _ => [clientSays (ascii "PASSWORD")]
    | .other _ => []

/-- What is logged of a number behind the reply. -/
def Request.saidBack (showDouble : Float → Bytes) : Request → List Bytes
  | .int i => [iSay (decimal (i * 2))]
  | .double d => [iSay (showDouble (d * 2))]
  | _ => []

/-- The last line; a close sets `closing`. -/
def lastLine (err : CommError) (request : Request) : List Bytes :=
  if err.code ≠ 0 then [ascii "error: " ++ decimal err.code ++ ascii "\tmsg:" ++ err.msg]
  else
    match request with
    | .close => []
    | _ => [ascii "data sent successfully: (" ++ err.msg ++ ascii ")"]

/-- The lines of `server_responder`. -/
def Request.logged (showDouble : Float → Bytes) (thread : WorkerThread) (err : CommError)
    (request : Request) : List Bytes :=
  (request.heard showDouble ++ request.saidBack showDouble ++ lastLine err request).map
    (thread.tag ++ ·)

/-- The texts of a client that are logged have less than so many bytes; a kind that the server does
not know takes two more. -/
def Request.Brief (showDouble : Float → Bytes) (room : Nat) : Request → Prop
  | .double d => (showDouble d).length < room
  | .string str => str.bytes.length < room
  | .get path => path.bytes.length < room
  | .post _ dest _ => dest.bytes.length < room
  | .login username _ => username.bytes.length < room
  | .newUser user => user.username.bytes.length < room
  | .other kind => kind.length + 2 < room
  | .int _ | .logout | .close | .changePass _ => True

/-- So has the double that is said back, which takes one more. -/
def Request.BriefBack (showDouble : Float → Bytes) (room : Nat) : Request → Prop
  | .double d => (showDouble (d * 2)).length + 1 < room
  | _ => True

/-- Before the reply nothing is written outside a block: not for the queries and the file, and not
for the log. -/
structure WritesInside (showDouble : Float → Bytes) (thread : WorkerThread) (request : Request)
    (trace : List ServerEvent) : Prop where
  blocks : KeepsBlocks request trace
  lines : ∀ text ∈ request.heard showDouble, (thread.tag ++ text).length < maxLogLength

/-- The requests whose handling sets the error object; on sockets a reply alone does not. -/
def Request.SetsError (t : Transport) : Request → Prop
  | .close | .other _ => False
  | .int _ | .double _ | .string _ => t = .fifo
  | _ => True

/-- The error objects behind handlers. -/
def repliedErrors : List CommError :=
  [⟨errOk, ascii "OK"⟩, ⟨errUserNotLogged, ascii "NOT logged"⟩,
    ⟨errAskedFileIsNotAvailable, ascii "FILE IS NOT IN DB"⟩, ⟨errFileExists, ascii "FILE EXISTS"⟩,
    ⟨errUserAlreadyLogged, ascii "Already logged in"⟩, ⟨errUserNotExists, ascii "Login failed"⟩,
    ⟨errOk, ascii "Logged in successfully"⟩,
    ⟨errUserHaveNotPermission, ascii "HAVE NOT PERMISION"⟩,
    ⟨errUserExists, ascii "User already exists"⟩]

section Lines

variable {t : Transport} {worker worker' : Worker} {request : Request} {err e : CommError}
  {trace : List ServerEvent} {result : Except Fault (Worker × CommError)} {thread : WorkerThread}
  {showDouble : Float → Bytes} {room : Nat}

theorem afterSend_mem (known : e ∈ repliedErrors) : e.afterSend t ∈ repliedErrors := by
  cases t with
  | fifo => exact List.mem_cons_self
  | socket => exact known

/-- What a request whose handling sets it leaves in the error object. -/
theorem replied_of_runs (sets : request.SetsError t)
    (runs : Runs (serverResponder t worker request err) trace (.ok (worker', e))) :
    e ∈ repliedErrors := by
  obtain ⟨user, closed⟩ := worker
  have notLogged (out : user = none) (guarded : request.NeedsLogin) : e ∈ repliedErrors := by
    have same := (refused_of_notLogged out runs guarded).2
    cases same
    exact afterSend_mem (by decide)
  cases request with
  | close | other => exact sets.elim
  | int | double | string =>
      obtain rfl : t = .fifo := sets
      rcases runs_echoed runs rfl with ⟨-, -, same⟩ | ⟨-, -, fault, same⟩
      · cases same
        exact List.mem_cons_self
      · cases same
  | get path =>
      cases user with
      | none => exact notLogged rfl trivial
      | some session =>
          obtain ⟨inner, ran, same⟩ := runs_map.mp runs
          rcases runs_processGetCmd ran with ⟨-, rfl⟩ | ⟨row, ⟨-, rfl⟩ | ⟨contents, -, rfl⟩⟩
          · cases same
            exact afterSend_mem (by decide)
          · cases same
          · cases same
            exact List.mem_cons_self
  | post data dest size =>
      cases user with
      | none => exact notLogged rfl trivial
      | some session =>
          obtain ⟨inner, ran, same⟩ := runs_map.mp runs
          rcases runs_processPostCmd ran with ⟨row, -, rfl⟩ |
            ⟨inserted, ⟨e, -, -, rfl⟩ | ⟨block, written, -, -, rfl⟩⟩
          · cases same
            exact afterSend_mem (by decide)
          · cases same
          · cases same
            exact afterSend_mem (by decide)
  | login username password =>
      obtain ⟨inner, ran, same⟩ := runs_map.mp runs
      rcases runs_processLoginCmd ran with ⟨_, -, -, rfl⟩ | ⟨-, ⟨-, rfl⟩ | ⟨filled, -, rfl⟩⟩
      · cases same
        exact afterSend_mem (by decide)
      · cases same
        exact afterSend_mem (by decide)
      · cases same
        exact afterSend_mem (by decide)
  | logout =>
      cases user with
      | none => exact notLogged rfl trivial
      | some session =>
          obtain ⟨inner, ran, same⟩ := runs_map.mp runs
          obtain ⟨-, rfl⟩ := runs_processLogoutCmd ran
          cases same
          exact afterSend_mem (by decide)
  | newUser newUser =>
      cases user with
      | none => exact notLogged rfl trivial
      | some session =>
          obtain ⟨inner, ran, same⟩ := runs_map.mp runs
          rcases runs_processNewUserCmd ran with ⟨-, -, rfl⟩ |
            ⟨-, ⟨-, rfl⟩ | ⟨_, _, -, rfl⟩⟩
          · cases same
            exact afterSend_mem (by decide)
          · cases same
            exact afterSend_mem (by decide)
          · cases same
            exact afterSend_mem (by decide)
  | changePass pass =>
      cases user with
      | none => exact notLogged rfl trivial
      | some session =>
          obtain ⟨inner, ran, same⟩ := runs_map.mp runs
          obtain ⟨-, rfl⟩ := runs_processChangePassCmd ran
          cases same
          exact afterSend_mem (by decide)

/-- Other requests leave the error object as the allocator did. -/
theorem untouched_of_runs (sets : ¬ request.SetsError t)
    (runs : Runs (serverResponder t worker request err) trace (.ok (worker', e))) : e = err := by
  have socket (numeric : ¬ t = .fifo) : err.afterSend t = err := by
    cases t with
    | fifo => exact absurd rfl numeric
    | socket => rfl
  cases request with
  | close | other =>
      obtain ⟨-, same⟩ := runs_pure.mp runs
      cases same
      rfl
  | int | double | string =>
      rcases runs_echoed runs rfl with ⟨-, -, same⟩ | ⟨-, -, fault, same⟩
      · cases same
        exact socket sets
      · cases same
  | get | post | login | logout | newUser | changePass => exact absurd trivial sets

theorem length_decimal_le {i : Int} {k : Nat} (positive : 0 < k) (small : i.natAbs < 10 ^ k) :
    (decimal i).length ≤ k + 1 := by
  cases i with
  | ofNat n =>
      have digits : (natDecimal n).length ≤ k := length_natDecimal_le positive small
      exact Nat.le_succ_of_le digits
  | negSucc n =>
      have digits : (natDecimal (n + 1)).length ≤ k := length_natDecimal_le positive small
      exact Nat.succ_le_succ digits

theorem WorkerThread.length_tag_le (thread : WorkerThread) : thread.tag.length ≤ 48 := by
  obtain ⟨pid, self, process, low, high⟩ := thread
  have pids : (natDecimal pid).length ≤ 10 := length_natDecimal_le (by decide) (by omega)
  have selfs : (decimal self).length ≤ 20 := length_decimal_le (by decide) (by omega)
  simp only [WorkerThread.tag, List.length_append, show (ascii "worker ").length = 7 by decide,
    show (ascii "::thread ").length = 9 by decide, show (ascii "::").length = 2 by decide]
  omega

/-- A line is inside with its tag if it leaves the `client says` of the room. -/
theorem WorkerThread.inside_iff (thread : WorkerThread) {text : Bytes} :
    (thread.tag ++ text).length < maxLogLength ↔ text.length < thread.room + 13 := by
  have short := thread.length_tag_le
  unfold maxLogLength WorkerThread.room
  rw [List.length_append]
  omega

theorem WorkerThread.le_room (thread : WorkerThread) : 22 ≤ thread.room := by
  have short := thread.length_tag_le
  unfold WorkerThread.room
  omega

theorem length_lastLine_le (known : e ∈ repliedErrors) :
    ∀ line ∈ lastLine e request, line.length ≤ 48 := by
  have lines : ∀ e ∈ repliedErrors,
      (ascii "error: " ++ decimal e.code ++ ascii "\tmsg:" ++ e.msg).length ≤ 48 ∧
        (ascii "data sent successfully: (" ++ e.msg ++ ascii ")").length ≤ 48 := by decide
  intro line member
  unfold lastLine at member
  split_ifs at member
  · rw [List.mem_singleton.mp member]
    exact (lines e known).1
  · split at member
    · cases member
    · rw [List.mem_singleton.mp member]
      exact (lines e known).2

theorem length_clientSays (text : Bytes) : (clientSays text).length = text.length + 13 := by
  simp [clientSays, ascii]

theorem length_iSay (text : Bytes) : (iSay text).length = text.length + 14 := by
  simp [iSay, ascii]

theorem length_clientSent (kind : Bytes) :
    (ascii "client sent: [" ++ kind ++ ascii "]").length = kind.length + 15 := by
  simp [ascii]

theorem length_kind_le (known : ∀ kind, request ≠ .other kind) : request.kind.length ≤ 19 := by
  cases request with
  | other kind => exact absurd rfl (known kind)
  | _ => simp [Request.kind, ascii]

/-- An int that has a reply, and so its double, has eleven bytes at most. -/
theorem length_decimal_int {i : Int} (inside : isInt (i * 2)) :
    (decimal i).length ≤ 11 ∧ (decimal (i * 2)).length ≤ 11 := by
  unfold isInt at inside
  exact ⟨length_decimal_le (by decide) (by omega), length_decimal_le (by decide) (by omega)⟩

/-- What is logged of a request before it is handled is as short as its text. -/
theorem heard_iff (small : 22 ≤ room) (sound : request.Echoable) :
    (∀ text ∈ request.heard showDouble, text.length < room + 13) ↔
      request.Brief showDouble room := by
  unfold Request.heard
  rw [List.forall_mem_cons, length_clientSent]
  by_cases known : ∀ kind, request ≠ .other kind
  · have short := length_kind_le known
    rw [and_iff_right (by omega)]
    cases request with
    | int i =>
        have digits := (length_decimal_int sound).1
        refine iff_of_true ?_ trivial
        simp only [List.forall_mem_singleton, length_clientSays]
        omega
    | double | string | get | post | login | newUser =>
        simp only [Request.Brief, List.forall_mem_singleton, length_clientSays]
        omega
    | logout | close | changePass =>
        refine iff_of_true ?_ trivial
        simp only [List.forall_mem_singleton, length_clientSays]
        exact Nat.add_lt_add_right (lt_of_lt_of_le (b := 22) (by decide) small) 13
    | other kind => exact absurd rfl (known kind)
  · push Not at known
    obtain ⟨kind, rfl⟩ := known
    simp only [Request.Brief, Request.kind]
    exact (and_iff_left (List.forall_mem_nil _)).trans (by omega)

/-- So is what is logged behind the reply. -/
theorem saidBack_iff (small : 22 ≤ room) (sound : request.Echoable) :
    (∀ text ∈ request.saidBack showDouble, text.length < room + 13) ↔
      request.BriefBack showDouble room := by
  cases request with
  | int i =>
      have digits := (length_decimal_int sound).2
      refine iff_of_true ?_ trivial
      simp only [Request.saidBack, List.forall_mem_singleton, length_iSay]
      omega
  | double d =>
      simp only [Request.saidBack, Request.BriefBack, List.forall_mem_singleton, length_iSay]
      omega
  | string | get | post | login | logout | close | newUser | changePass | other =>
      exact iff_of_true (List.forall_mem_nil _) trivial

/-- A handler that ends has read no string before its start and doubled no int too far. -/
theorem echoable_of_runs
    (runs : Runs (serverResponder t worker request err) trace (.ok (worker', e))) :
    request.Echoable := by
  cases request with
  | int | string =>
      rcases runs_echoed runs rfl with ⟨sound, -⟩ | ⟨-, -, fault, same⟩
      · exact sound
      · cases same
  | double | get | post | login | logout | close | newUser | changePass | other => trivial

/-- What is written before the reply is inside exactly if the request is harmless and the text of
it that is logged is short. -/
theorem writesInside_iff (sound : request.Echoable)
    (runs : Runs (serverResponder t worker request err) trace result) :
    WritesInside showDouble thread request trace ↔
      request.Harmless worker.user trace ∧ request.Brief showDouble thread.room := by
  rw [← keepsBlocks_iff_harmless runs, ← heard_iff thread.le_room sound]
  have inside : (∀ text ∈ request.heard showDouble, (thread.tag ++ text).length < maxLogLength) ↔
      ∀ text ∈ request.heard showDouble, text.length < thread.room + 13 :=
    forall₂_congr fun text _ => thread.inside_iff
  exact ⟨fun ⟨blocks, lines⟩ => ⟨blocks, inside.mp lines⟩,
    fun ⟨blocks, lines⟩ => ⟨blocks, inside.mpr lines⟩⟩

/-- A thread stays inside the block of the log exactly if what the client has it log is short
and, where nothing sets the error object, what is in it. -/
theorem logged_inside_iff (thread : WorkerThread)
    (runs : Runs (serverResponder t worker request err) trace (.ok (worker', e))) :
    (∀ line ∈ request.logged showDouble thread e, line.length < maxLogLength) ↔
      request.Brief showDouble thread.room ∧ request.BriefBack showDouble thread.room ∧
        (¬ request.SetsError t → ∀ line ∈ lastLine err request,
          line.length < maxLogLength - thread.tag.length) := by
  have sound := echoable_of_runs runs
  have tag := thread.length_tag_le
  have last : (∀ line ∈ lastLine e request, (thread.tag ++ line).length < maxLogLength) ↔
      (¬ request.SetsError t → ∀ line ∈ lastLine err request,
        line.length < maxLogLength - thread.tag.length) := by
    by_cases sets : request.SetsError t
    · refine iff_of_true (fun line member => ?_) fun unset => absurd sets unset
      have short := length_lastLine_le (replied_of_runs sets runs) line member
      rw [List.length_append, maxLogLength]
      omega
    · obtain rfl := untouched_of_runs sets runs
      rw [imp_iff_right sets]
      refine forall₂_congr fun line _ => ?_
      rw [List.length_append]
      unfold maxLogLength
      omega
  have texts {lines : List Bytes} : (∀ text ∈ lines, (thread.tag ++ text).length < maxLogLength) ↔
      ∀ text ∈ lines, text.length < thread.room + 13 := forall₂_congr fun _ _ => thread.inside_iff
  unfold Request.logged
  rw [List.forall_mem_map, List.forall_mem_append, List.forall_mem_append, last, texts, texts,
    heard_iff thread.le_room sound, saidBack_iff thread.le_room sound, and_assoc]

end Lines

theorem nulFree_longName : 0 ∉ List.replicate 60 (chr 'a') := by decide

theorem inRange_threadX :
    4242 < 2 ^ 31 ∧ (-2 ^ 63 : Int) ≤ 140230000000000 ∧ (140230000000000 : Int) < 2 ^ 63 := by
  decide

/-- A thread as they are numbered. -/
def threadX : WorkerThread :=
  ⟨4242, 140230000000000, inRange_threadX.1, inRange_threadX.2.1, inRange_threadX.2.2⟩

/-- Sixty bytes are too many, even for a client that is not logged in. -/
theorem logged_inside_longName :
    ¬ ∀ line ∈ (Request.get ⟨List.replicate 60 (chr 'a'), nulFree_longName⟩).logged (fun _ => [])
      threadX ⟨errOk, ascii "OK"⟩, line.length < maxLogLength := by
  have runs : Runs (serverResponder .fifo .start
      (.get ⟨List.replicate 60 (chr 'a'), nulFree_longName⟩) ⟨errOk, []⟩) notLogged
      (.ok (.start, ⟨errOk, ascii "OK"⟩)) := .call (.ret _)
  intro all
  have brief := ((logged_inside_iff threadX runs).mp all).1
  exact absurd brief (by unfold Request.Brief; decide)

end IpcFtp
