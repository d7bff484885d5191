import IpcFtp.FileUtils
import IpcFtp.Lib.Program
import IpcFtp.Communication.Frame
import IpcFtp.Server.SqlHelpers

/-!
# The responder

`server/responder.c` and the dispatch of `server_responder` in `server/main.c`, as
programs over the calls they make.  The requests of one worker are handled one at a
time, each under the worker's mutex; the session record `user` and the state of the
connection are all that one request leaves to the next.

A request comes from `parse_encoded`; its strings are C strings.  The error object is
freshly allocated for each request, so its first contents are a parameter.
-/

namespace IpcFtp

open Lib Program

/-- A parsed request.  The kinds `server_responder` does not dispatch on are `other`. -/
inductive Request : Type
  | int (i : Int)
  | double (d : Float)
  | string (str : CString)
  | get (path : CString)
  | post (data dest : CString) (size : Nat)
  | login (username password : CString)
  | logout
  | close
  | newUser (user : User)
  | changePass (pass : CString)
  | other (kind : Bytes)

/-- The calls a handler makes: SQL helpers, files, and replies.  A reply of
`send_data` has a text and the size its sender passes. -/
inductive ServerCall : Type → Type
  /-- null, or the path of the first row -/
  | askForFileToDb (fileAlias : CString) (user : FsUser) : ServerCall (Option CString)
  | insertAliasInDb (fileAlias : CString) (user : FsUser) : ServerCall Int
  /-- `EMPTY_RESPONSE`, or `EXPECTED_RESPONSE` with the record that was filled -/
  | userIdentificationInDb (username password : CString) : ServerCall (Option FsUser)
  | userInDb (username : CString) : ServerCall Bool
  | newUserInDb (user : User) : ServerCall Int
  /-- returns `EXPECTED_RESPONSE` whatever happened -/
  | updatePassInDb (user : FsUser) (newPass : CString) : ServerCall Unit
  /-- `mkdir` in a child process whose status is not read: whether `execve` comes back in
  the child, which then goes on as its parent does -/
  | createUserFolder (username : CString) : ServerCall Bool
  /-- null, or the contents of the file -/
  | rawDataFromFile (path : Bytes) : ServerCall (Option Bytes)
  | fileFromRawData (path data : Bytes) (size : Nat) : ServerCall Int
  | sendInt (number : Int) : ServerCall Unit
  | sendDouble (number : Float) : ServerCall Unit
  | sendString (string : Bytes) : ServerCall Unit
  | sendData (data : Bytes) (size : Nat) : ServerCall Unit

abbrev Server (α : Type) : Type 1 := Program ServerCall Fault α

abbrev ServerEvent : Type 1 := Event ServerCall

/-! ## Error codes -/

def errOk : Int := 0
def errAskedFileIsNotAvailable : Int := 6000
def errUserAlreadyLogged : Int := 6001
def errUserNotExists : Int := 6002
def errUserHaveNotPermission : Int := 6003
def errUserNotLogged : Int := 6004
def errUserExists : Int := 6005
def errFileExists : Int := 6006

/-! ## Handlers -/

/-- Go on with a value, or fault. -/
def liftFault {α : Type} : Except Fault α → Server α
  | .ok a => .ret a
  | .error e => .fault e

/-- `send_data`. -/
def sendData (t : Transport) (data : Bytes) (size : Nat) (err : CommError) :
    Server CommError := do
  perform (.sendData data size)
  return err.afterSend t

/-- `check_user_logged`; the session comes back if there is one. -/
def checkUserLogged (t : Transport) (user : Option FsUser) (err : CommError) :
    Server (Option FsUser × CommError) :=
  match user with
  | none => do
    let err ← sendData t (ascii "NOT logged") 10 ⟨errUserNotLogged, ascii "NOT logged"⟩
    return (none, err)
  | some session => return (some session, err)

/-- `process_get_cmd`.  `raw_data_from_file` returns null for a file that cannot be
opened, and `encode_raw_data` then reads from null. -/
def processGetCmd (t : Transport) (path : CString) (user : Option FsUser) (err : CommError) :
    Server CommError := do
  let (logged, err) ← checkUserLogged t user err
  match logged with
  | none => return err
  | some session =>
    match ← perform (.askForFileToDb path session) with
    | none =>
      sendData t (ascii "FILE IS NOT IN DB") 17
        ⟨errAskedFileIsNotAvailable, ascii "FILE IS NOT IN DB"⟩
    | some aux =>
      match ← perform (.rawDataFromFile (ascii "." ++ aux.bytes)) with
      | none => .fault .nullPointer
      | some contents =>
        let _ ← sendData t (encodeRawData contents) contents.length err
        return ⟨errOk, ascii "OK"⟩

/-- `process_post_cmd`.  The results of `insert_alias_in_db` and `file_from_raw_data` are
not looked at. -/
def processPostCmd (t : Transport) (data dest : CString) (size : Nat)
    (user : Option FsUser) (err : CommError) : Server CommError := do
  let (logged, err) ← checkUserLogged t user err
  match logged with
  | none => return err
  | some session =>
    match ← perform (.askForFileToDb dest session) with
    | some _ => sendData t (ascii "FILE EXISTS") 11 ⟨errFileExists, ascii "FILE EXISTS"⟩
    | none =>
      let _ ← perform (.insertAliasInDb dest session)
      let path := ascii "." ++ session.home.bytes ++ ascii "/" ++ dest.bytes
      let block ← liftFault (decodeToRawData data.bytes)
      let _ ← perform (.fileFromRawData path block size)
      sendData t (ascii "File OK") 7 ⟨errOk, ascii "OK"⟩

/-- `process_login_cmd`. -/
def processLoginCmd (t : Transport) (username password : CString) (user : Option FsUser) :
    Server (Option FsUser × CommError) := do
  match user with
  | some session =>
    let err ← sendData t (ascii "You are already logged in") 25
      ⟨errUserAlreadyLogged, ascii "Already logged in"⟩
    return (some session, err)
  | none =>
    match ← perform (.userIdentificationInDb username password) with
    | none =>
      let err ← sendData t (ascii "Login failed") 12 ⟨errUserNotExists, ascii "Login failed"⟩
      return (none, err)
    | some session =>
      let err ← sendData t (ascii "Logged in successfully") 22
        ⟨errOk, ascii "Logged in successfully"⟩
      return (some session, err)

/-- `process_logout_cmd`. -/
def processLogoutCmd (t : Transport) (user : Option FsUser) (err : CommError) :
    Server (Option FsUser × CommError) := do
  let (logged, err) ← checkUserLogged t user err
  match logged with
  | none => return (user, err)
  | some _ =>
    let err ← sendData t (ascii "Log out successful") 18 ⟨errOk, ascii "OK"⟩
    return (none, err)

/-- The end of `process_new_user_cmd`, behind `create_user_folder`. -/
def registerUser (t : Transport) (newUser : User) : Server CommError := do
  let _ ← perform (.newUserInDb newUser)
  sendData t (ascii "User registered") 15 ⟨errOk, ascii "OK"⟩

/-- `process_new_user_cmd`.  A child in which `execve` comes back leaves `create_user_folder`
as well and does all that is left to do, while its parent waits for it to end. -/
def processNewUserCmd (t : Transport) (newUser : User) (user : Option FsUser)
    (err : CommError) : Server CommError := do
  let (logged, err) ← checkUserLogged t user err
  match logged with
  | none => return err
  | some session =>
    if session.isAdmin = 0 then
      sendData t (ascii "HAVE NOT PERMISION") 10
        ⟨errUserHaveNotPermission, ascii "HAVE NOT PERMISION"⟩
    else if ← perform (.userInDb newUser.username) then
      sendData t (ascii "User already exists") 19 ⟨errUserExists, ascii "User already exists"⟩
    else
      if ← perform (.createUserFolder newUser.username) then
        let _ ← registerUser t newUser
      registerUser t newUser

/-- `process_change_pass_cmd`. -/
def processChangePassCmd (t : Transport) (pass : CString) (user : Option FsUser)
    (err : CommError) : Server CommError := do
  let (logged, err) ← checkUserLogged t user err
  match logged with
  | none => return err
  | some session =>
    perform (.updatePassInDb session pass)
    sendData t (ascii "PASSWORD UPDATED") 16 ⟨errOk, ascii "OK"⟩

/-! ## Dispatch -/

/-- What a worker keeps from request to request: `user`, and whether the connection's
state is `CONNECTION_STATE_CLOSED`. -/
structure Worker : Type where
  user : Option FsUser
  closed : Bool
  deriving DecidableEq

/-- The worker when its connection has been accepted. -/
def Worker.start : Worker := ⟨none, false⟩

/-- `number` is a value of C's `int`. -/
def isInt (number : Int) : Prop := -2 ^ 31 ≤ number ∧ number < 2 ^ 31

instance (number : Int) : Decidable (isInt number) := inferInstanceAs (Decidable (_ ∧ _))

/-- The part of `server_responder` that runs under the mutex: the worker and the error
object afterwards. -/
def serverResponder (t : Transport) (worker : Worker) (request : Request) (err : CommError) :
    Server (Worker × CommError) := do
  match request with
  | .int i =>
    if isInt (i * 2) then
      perform (.sendInt (i * 2))
      return (worker, err.afterSend t)
    else .fault .overflow
  | .double d =>
    perform (.sendDouble (d * 2))
    return (worker, err.afterSend t)
  | .string str =>
    -- `str + 2` leaves the block of a shorter string
    if str.bytes.length < 2 then .fault .outOfBounds
    perform (.sendString (str.bytes.drop 2))
    return (worker, err.afterSend t)
  | .get path => return (worker, ← processGetCmd t path worker.user err)
  | .post data dest size => return (worker, ← processPostCmd t data dest size worker.user err)
  | .login username password =>
    let after ← processLoginCmd t username password worker.user
    return ({ worker with user := after.1 }, after.2)
  | .logout =>
    let after ← processLogoutCmd t worker.user err
    return ({ worker with user := after.1 }, after.2)
  | .close => return ({ worker with closed := true }, err)
  | .newUser user => return (worker, ← processNewUserCmd t user worker.user err)
  | .changePass pass => return (worker, ← processChangePassCmd t pass worker.user err)
  | .other _ => return (worker, err)

/-! ## What a handler can do

One inversion lemma for each handler, over every answer its calls can get. -/

section Handlers

variable {t : Transport} {err : CommError} {trace : List ServerEvent} {session : FsUser}

/-- A reply of `send_data`. -/
def reply (data : Bytes) (size : Nat) : ServerEvent := ⟨.sendData data size, ()⟩

/-- The reply of `check_user_logged`, and the error object behind it. -/
def notLogged : List ServerEvent := [reply (ascii "NOT logged") 10]

def notLoggedError (t : Transport) : CommError :=
  CommError.afterSend ⟨errUserNotLogged, ascii "NOT logged"⟩ t

/-- The reply to a request that is a value. -/
def Request.echoed : Request → Option ServerEvent
  | .int i => some ⟨.sendInt (i * 2), ()⟩
  | .double d => some ⟨.sendDouble (d * 2), ()⟩
  | .string str => some ⟨.sendString (str.bytes.drop 2), ()⟩
  | _ => none

/-- The double of an integer is one, and a string has the two characters that are skipped. -/
def Request.Echoable : Request → Prop
  | .int i => isInt (i * 2)
  | .string str => 2 ≤ str.bytes.length
  | _ => True

section Values

variable {worker : Worker} {request : Request} {said : ServerEvent}
  {result : Except Fault (Worker × CommError)}

theorem runs_int {i : Int} : Runs (serverResponder t worker (.int i) err) trace result ↔
    if isInt (i * 2) then trace = [⟨.sendInt (i * 2), ()⟩] ∧ result = .ok (worker, err.afterSend t)
    else trace = [] ∧ result = .error .overflow := by
  unfold serverResponder
  dsimp only
  split_ifs
  · exact runs_perform
  · exact runs_fault

theorem runs_string {str : CString} :
    Runs (serverResponder t worker (.string str) err) trace result ↔
    if 2 ≤ str.bytes.length then
      trace = [⟨.sendString (str.bytes.drop 2), ()⟩] ∧ result = .ok (worker, err.afterSend t)
    else trace = [] ∧ result = .error .outOfBounds := by
  unfold serverResponder
  dsimp only
  by_cases long : 2 ≤ str.bytes.length
  · rw [if_neg (by omega), if_pos long]
    exact runs_perform
  · rw [if_pos (by omega), if_neg long]
    exact runs_fault

theorem runs_double {d : Float} : Runs (serverResponder t worker (.double d) err) trace result ↔
    trace = [⟨.sendDouble (d * 2), ()⟩] ∧ result = .ok (worker, err.afterSend t) := runs_perform

/-- A value is answered with what is made of it, if this can be made. -/
theorem runs_echoed (runs : Runs (serverResponder t worker request err) trace result)
    (value : request.echoed = some said) :
    (request.Echoable ∧ trace = [said] ∧ result = .ok (worker, err.afterSend t)) ∨
      (¬ request.Echoable ∧ trace = [] ∧ ∃ e, result = .error e) := by
  cases request with
  | int i =>
      cases value
      rw [runs_int] at runs
      split_ifs at runs with inside
      · exact .inl ⟨inside, runs⟩
      · exact .inr ⟨inside, runs.1, _, runs.2⟩
  | double d =>
      cases value
      exact .inl ⟨trivial, runs_double.mp runs⟩
  | string str =>
      cases value
      rw [runs_string] at runs
      split_ifs at runs with long
      · exact .inl ⟨long, runs⟩
      · exact .inr ⟨long, runs.1, _, runs.2⟩
  | get | post | login | logout | close | newUser | changePass | other => cases value

end Values

theorem runs_sendData {data : Bytes} {size : Nat} {result : Except Fault CommError} :
    Runs (sendData t data size err) trace result ↔
      trace = [reply data size] ∧ result = .ok (err.afterSend t) := runs_perform

/-- What `check_user_logged` does without a session. -/
theorem runs_notLogged {α : Type} {next : Option FsUser × CommError → Server α} {a : α}
    {result : Except Fault α} (runs : Runs (checkUserLogged t none err >>= next) trace result)
    (leaves : next (none, notLoggedError t) = pure a) :
    trace = notLogged ∧ result = .ok a := by
  simp only [checkUserLogged, sendData, perform_bind, call_bind, pure_bind, runs_call] at runs
  obtain ⟨_, rest, rfl, runs⟩ := runs
  rw [show CommError.afterSend _ t = notLoggedError t from rfl, leaves, runs_pure] at runs
  obtain ⟨rfl, rfl⟩ := runs
  exact ⟨rfl, rfl⟩

theorem runs_processGetCmd {path : CString} {result : Except Fault CommError}
    (runs : Runs (processGetCmd t path (some session) err) trace result) :
    (trace = [⟨.askForFileToDb path session, none⟩, reply (ascii "FILE IS NOT IN DB") 17] ∧
        result = .ok (CommError.afterSend
          ⟨errAskedFileIsNotAvailable, ascii "FILE IS NOT IN DB"⟩ t)) ∨
      ∃ row, (trace = [⟨.askForFileToDb path session, some row⟩,
          ⟨.rawDataFromFile (ascii "." ++ row.bytes), none⟩] ∧ result = .error .nullPointer) ∨
        ∃ contents, trace = [⟨.askForFileToDb path session, some row⟩,
            ⟨.rawDataFromFile (ascii "." ++ row.bytes), some contents⟩,
            reply (encodeRawData contents) contents.length] ∧
          result = .ok ⟨errOk, ascii "OK"⟩ := by
  simp only [processGetCmd, checkUserLogged, pure_bind, perform_bind, runs_call] at runs
  obtain ⟨found, rest, rfl, runs⟩ := runs
  cases found with
  | none =>
      obtain ⟨rfl, rfl⟩ := runs_sendData.mp runs
      exact .inl ⟨rfl, rfl⟩
  | some row =>
      simp only [runs_call] at runs
      obtain ⟨opened, rest, rfl, runs⟩ := runs
      refine .inr ⟨row, ?_⟩
      cases opened with
      | none =>
          obtain ⟨rfl, rfl⟩ := runs_fault.mp runs
          exact .inl ⟨rfl, rfl⟩
      | some contents =>
          simp only [sendData, perform_bind, call_bind, pure_bind, runs_call, runs_pure] at runs
          obtain ⟨_, _, rfl, rfl, rfl⟩ := runs
          exact .inr ⟨contents, rfl, rfl⟩

theorem runs_processPostCmd {data dest : CString} {size : Nat}
    {result : Except Fault CommError}
    (runs : Runs (processPostCmd t data dest size (some session) err) trace result) :
    (∃ row, trace = [⟨.askForFileToDb dest session, some row⟩,
          reply (ascii "FILE EXISTS") 11] ∧
        result = .ok (CommError.afterSend ⟨errFileExists, ascii "FILE EXISTS"⟩ t)) ∨
      ∃ inserted, (∃ e, decodeToRawData data.bytes = .error e ∧
          trace = [⟨.askForFileToDb dest session, none⟩,
            ⟨.insertAliasInDb dest session, inserted⟩] ∧ result = .error e) ∨
        ∃ block written, decodeToRawData data.bytes = .ok block ∧
          trace = [⟨.askForFileToDb dest session, none⟩,
            ⟨.insertAliasInDb dest session, inserted⟩,
            ⟨.fileFromRawData (ascii "." ++ session.home.bytes ++ ascii "/" ++ dest.bytes)
              block size, written⟩, reply (ascii "File OK") 7] ∧
          result = .ok (CommError.afterSend ⟨errOk, ascii "OK"⟩ t) := by
  simp only [processPostCmd, checkUserLogged, pure_bind, perform_bind, runs_call] at runs
  obtain ⟨found, rest, rfl, runs⟩ := runs
  cases found with
  | some row =>
      obtain ⟨rfl, rfl⟩ := runs_sendData.mp runs
      exact .inl ⟨row, rfl, rfl⟩
  | none =>
      simp only [runs_call] at runs
      obtain ⟨inserted, rest, rfl, runs⟩ := runs
      refine .inr ⟨inserted, ?_⟩
      cases decoded : decodeToRawData data.bytes with
      | error e =>
          rw [decoded, liftFault, fault_bind, runs_fault] at runs
          obtain ⟨rfl, rfl⟩ := runs
          exact .inl ⟨e, rfl, rfl, rfl⟩
      | ok block =>
          simp only [decoded, liftFault, ret_bind, runs_call] at runs
          obtain ⟨written, rest, rfl, runs⟩ := runs
          obtain ⟨rfl, rfl⟩ := runs_sendData.mp runs
          exact .inr ⟨block, written, rfl, rfl, rfl⟩

/-- The calls of `registerUser`. -/
def registerCalls (newUser : User) (inserted : Int) : List ServerEvent :=
  [⟨.newUserInDb newUser, inserted⟩, reply (ascii "User registered") 15]

theorem runs_registerUser {newUser : User} {result : Except Fault CommError} :
    Runs (registerUser t newUser) trace result ↔
      ∃ inserted, trace = registerCalls newUser inserted ∧
        result = .ok (CommError.afterSend ⟨errOk, ascii "OK"⟩ t) := by
  simp only [registerUser, perform_bind, runs_call, runs_sendData]
  constructor
  · intro given
    obtain ⟨inserted, rest, rfl, rfl, rfl⟩ := given
    exact ⟨inserted, rfl, rfl⟩
  · intro given
    obtain ⟨inserted, rfl, rfl⟩ := given
    exact ⟨inserted, _, rfl, rfl, rfl⟩

/-- The calls for a name that is not known: `inChild` is what the insertion answered in the
child, if `execve` came back there. -/
def newUserCalls (newUser : User) (inChild : Option Int) (inserted : Int) : List ServerEvent :=
  ⟨.userInDb newUser.username, false⟩ :: ⟨.createUserFolder newUser.username, inChild.isSome⟩ ::
    (inChild.elim [] (registerCalls newUser) ++ registerCalls newUser inserted)

theorem mem_newUserCalls {newUser : User} {inChild : Option Int} {inserted : Int}
    {event : ServerEvent} (member : event ∈ newUserCalls newUser inChild inserted) :
    event = ⟨.userInDb newUser.username, false⟩ ∨
      event = ⟨.createUserFolder newUser.username, inChild.isSome⟩ ∨
        (∃ answer, event = ⟨.newUserInDb newUser, answer⟩) ∨
          event = reply (ascii "User registered") 15 := by
  have each {answer : Int} (inside : event ∈ registerCalls newUser answer) :
      (∃ answer, event = ⟨.newUserInDb newUser, answer⟩) ∨
        event = reply (ascii "User registered") 15 := by
    rcases List.mem_cons.mp inside with rfl | last
    · exact .inl ⟨answer, rfl⟩
    · exact .inr (List.mem_singleton.mp last)
  rcases List.mem_cons.mp member with rfl | behind
  · exact .inl rfl
  rcases List.mem_cons.mp behind with rfl | behind
  · exact .inr (.inl rfl)
  rcases List.mem_append.mp behind with front | back
  · cases inChild with
    | none => cases front
    | some answer => exact .inr (.inr (each front))
  · exact .inr (.inr (each back))

/-- `execve` came back in the child, so two processes handle the request from there on. -/
def goesOnTwice : ServerEvent → Prop
  | ⟨.createUserFolder _, comesBack⟩ => comesBack = true
  | _ => False

instance (event : ServerEvent) : Decidable (goesOnTwice event) := by
  obtain ⟨call, answer⟩ := event
  cases call <;> unfold goesOnTwice <;> infer_instance

/-- The request is handled by one process to its end. -/
def OneProcess (trace : List ServerEvent) : Prop := ∀ event ∈ trace, ¬ goesOnTwice event

theorem oneProcess_newUserCalls {newUser : User} {inChild : Option Int} {inserted : Int} :
    OneProcess (newUserCalls newUser inChild inserted) ↔ inChild = none := by
  constructor
  · intro one
    have ends := one ⟨.createUserFolder newUser.username, inChild.isSome⟩ (.tail _ (.head _))
    exact Option.not_isSome_iff_eq_none.mp ends
  · rintro rfl event member
    rcases mem_newUserCalls member with rfl | rfl | ⟨_, rfl⟩ | rfl
    · exact not_false
    · exact Bool.false_ne_true
    · exact not_false
    · exact not_false

theorem runs_processNewUserCmd {newUser : User} {result : Except Fault CommError}
    (runs : Runs (processNewUserCmd t newUser (some session) err) trace result) :
    (session.isAdmin = 0 ∧ trace = [reply (ascii "HAVE NOT PERMISION") 10] ∧
        result = .ok (CommError.afterSend
          ⟨errUserHaveNotPermission, ascii "HAVE NOT PERMISION"⟩ t)) ∨
      session.isAdmin ≠ 0 ∧
        ((trace = [⟨.userInDb newUser.username, true⟩,
            reply (ascii "User already exists") 19] ∧
          result = .ok (CommError.afterSend
            ⟨errUserExists, ascii "User already exists"⟩ t)) ∨
        ∃ inChild inserted, trace = newUserCalls newUser inChild inserted ∧
          result = .ok (CommError.afterSend ⟨errOk, ascii "OK"⟩ t)) := by
  simp only [processNewUserCmd, checkUserLogged, pure_bind] at runs
  split at runs
  · rename_i plain
    obtain ⟨rfl, rfl⟩ := runs_sendData.mp runs
    exact .inl ⟨plain, rfl, rfl⟩
  · rename_i admin
    refine .inr ⟨admin, ?_⟩
    simp only [perform_bind, runs_call] at runs
    obtain ⟨known, rest, rfl, runs⟩ := runs
    cases known with
    | true =>
        obtain ⟨rfl, rfl⟩ := runs_sendData.mp runs
        exact .inl ⟨rfl, rfl⟩
    | false =>
        simp only [Bool.false_eq_true, if_false, runs_call] at runs
        obtain ⟨comesBack, rest, rfl, runs⟩ := runs
        cases comesBack with
        | false =>
            obtain ⟨inserted, rfl, rfl⟩ := runs_registerUser.mp runs
            exact .inr ⟨none, inserted, rfl, rfl⟩
        | true =>
            rcases runs_bind.mp (by simpa only [if_true] using runs) with
              ⟨e, ran, -⟩ | ⟨_, front, back, rfl, inChild, later⟩
            · obtain ⟨_, -, same⟩ := runs_registerUser.mp ran
              cases same
            · obtain ⟨first, rfl, -⟩ := runs_registerUser.mp inChild
              obtain ⟨inserted, rfl, rfl⟩ := runs_registerUser.mp later
              exact .inr ⟨some first, inserted, rfl, rfl⟩

theorem runs_processChangePassCmd {pass : CString} {result : Except Fault CommError}
    (runs : Runs (processChangePassCmd t pass (some session) err) trace result) :
    trace = [⟨.updatePassInDb session pass, ()⟩, reply (ascii "PASSWORD UPDATED") 16] ∧
      result = .ok (CommError.afterSend ⟨errOk, ascii "OK"⟩ t) := by
  simp only [processChangePassCmd, checkUserLogged, pure_bind, perform_bind, runs_call] at runs
  obtain ⟨_, rest, rfl, runs⟩ := runs
  obtain ⟨rfl, rfl⟩ := runs_sendData.mp runs
  exact ⟨rfl, rfl⟩

theorem runs_processLoginCmd {username password : CString} {user : Option FsUser}
    {result : Except Fault (Option FsUser × CommError)}
    (runs : Runs (processLoginCmd t username password user) trace result) :
    (∃ current, user = some current ∧
        trace = [reply (ascii "You are already logged in") 25] ∧ result = .ok (user,
          CommError.afterSend ⟨errUserAlreadyLogged, ascii "Already logged in"⟩ t)) ∨
      user = none ∧
        ((trace = [⟨.userIdentificationInDb username password, none⟩,
            reply (ascii "Login failed") 12] ∧ result = .ok (none,
              CommError.afterSend ⟨errUserNotExists, ascii "Login failed"⟩ t)) ∨
        ∃ filled, trace = [⟨.userIdentificationInDb username password, some filled⟩,
            reply (ascii "Logged in successfully") 22] ∧ result = .ok (some filled,
              CommError.afterSend ⟨errOk, ascii "Logged in successfully"⟩ t)) := by
  cases user with
  | some current =>
      simp only [processLoginCmd, sendData, perform_bind, call_bind, pure_bind, runs_call,
        runs_pure] at runs
      obtain ⟨_, _, rfl, rfl, rfl⟩ := runs
      exact .inl ⟨current, rfl, rfl, rfl⟩
  | none =>
      simp only [processLoginCmd, perform_bind, runs_call] at runs
      obtain ⟨found, rest, rfl, runs⟩ := runs
      cases found with
      | none =>
          simp only [sendData, perform_bind, call_bind, pure_bind, runs_call,
            runs_pure] at runs
          obtain ⟨_, _, rfl, rfl, rfl⟩ := runs
          exact .inr ⟨rfl, .inl ⟨rfl, rfl⟩⟩
      | some filled =>
          simp only [sendData, perform_bind, call_bind, pure_bind, runs_call,
            runs_pure] at runs
          obtain ⟨_, _, rfl, rfl, rfl⟩ := runs
          exact .inr ⟨rfl, .inr ⟨filled, rfl, rfl⟩⟩

theorem runs_processLogoutCmd {result : Except Fault (Option FsUser × CommError)}
    (runs : Runs (processLogoutCmd t (some session) err) trace result) :
    trace = [reply (ascii "Log out successful") 18] ∧
      result = .ok (none, CommError.afterSend ⟨errOk, ascii "OK"⟩ t) := by
  simp only [processLogoutCmd, checkUserLogged, sendData, perform_bind, call_bind, pure_bind,
    runs_call, runs_pure] at runs
  obtain ⟨_, _, rfl, rfl, rfl⟩ := runs
  exact ⟨rfl, rfl⟩

end Handlers

end IpcFtp
