import IpcFtp.Server.Authorization

/-!
# The status a thread posts

Behind the dispatch `server_responder` tests `err->code`.  The handlers set it before they
reply, and the reply goes through `send_data`, which in the FIFO build writes over it; for
the echoes only the send could set it, and in the socket build it does not.  What a handler
does besides depends neither on the build nor on what the error object holds
(`serverResponder_erased`).
-/

namespace IpcFtp

open Lib Program

/-! ## Refusals -/

/-- Whether `ask_for_file_to_db` found a path. -/
def fileFound : ServerEvent → Option Bool
  | ⟨.askForFileToDb _ _, answer⟩ => some answer.isSome
  | _ => none

/-- Whether `user_in_db` found the name. -/
def userFound : ServerEvent → Option Bool
  | ⟨.userInDb _, answer⟩ => some answer
  | _ => none

/-- Whether `user_identification_in_db` found a record. -/
def recordFound (event : ServerEvent) : Option Bool := (identification event).map Option.isSome

/-- The code of a refusal of a request of this session, whose calls were answered so. -/
def refusal (user : Option FsUser) (trace : List ServerEvent) : Request → Option Int
  | .login _ _ =>
    if user.isSome then some errUserAlreadyLogged
    else if some false ∈ trace.map recordFound then some errUserNotExists
    else none
  | .get _ =>
    if user.isNone then some errUserNotLogged
    else if some false ∈ trace.map fileFound then some errAskedFileIsNotAvailable
    else none
  | .post _ _ _ =>
    if user.isNone then some errUserNotLogged
    else if some true ∈ trace.map fileFound then some errFileExists
    else none
  | .newUser _ =>
    match user with
    | none => some errUserNotLogged
    | some session =>
      if session.isAdmin = 0 then some errUserHaveNotPermission
      else if some true ∈ trace.map userFound then some errUserExists
      else none
  | .logout | .changePass _ => if user.isNone then some errUserNotLogged else none
  | _ => none

/-- A registration that goes ahead is not refused. -/
theorem refusal_newUserCalls {session : FsUser} {newUser : User} {inChild : Option Int}
    {inserted : Int} (admin : session.isAdmin ≠ 0) :
    refusal (some session) (newUserCalls newUser inChild inserted) (.newUser newUser) = none := by
  have unknown : some true ∉ (newUserCalls newUser inChild inserted).map userFound := by
    intro found
    obtain ⟨event, member, known⟩ := List.mem_map.mp found
    rcases mem_newUserCalls member with rfl | rfl | ⟨_, rfl⟩ | rfl <;> cases known
  simp only [refusal, if_neg admin, if_neg unknown]

/-- The commands. -/
def Request.IsCommand (request : Request) : Prop := ¬ request.Sessionless

/-! ## What does not depend on the error object -/

/-- Neither the build nor the error object changes a call or what becomes of the session. -/
theorem serverResponder_erased (t t' : Transport) (err err' : CommError) (worker : Worker)
    (request : Request) :
    (serverResponder t worker request err >>= fun r => (pure r.1 : Server Worker)) =
      (serverResponder t' worker request err' >>= fun r => pure r.1) := by
  obtain ⟨user, closed⟩ := worker
  cases request with
  | int i =>
      unfold serverResponder
      dsimp only
      split_ifs <;> rfl
  | string str =>
      unfold serverResponder
      dsimp only
      split_ifs <;> rfl
  | double | close | other => rfl
  | get path =>
      cases user with
      | none => rfl
      | some session =>
          refine congrArg (Program.call _) (funext fun found => ?_)
          cases found with
          | none => rfl
          | some row =>
              refine congrArg (Program.call _) (funext fun opened => ?_)
              cases opened <;> rfl
  | post data dest size =>
      cases user with
      | none => rfl
      | some session =>
          refine congrArg (Program.call _) (funext fun found => ?_)
          cases found with
          | some row => rfl
          | none =>
              refine congrArg (Program.call _) (funext fun inserted => ?_)
              cases decodeToRawData data.bytes <;> rfl
  | login username password =>
      cases user with
      | some session => rfl
      | none =>
          refine congrArg (Program.call _) (funext fun found => ?_)
          cases found <;> rfl
  | logout => cases user <;> rfl
  | newUser newUser =>
      cases user with
      | none => rfl
      | some session =>
          simp only [serverResponder, processNewUserCmd, checkUserLogged, pure_bind]
          split_ifs
          · rfl
          · refine congrArg (Program.call _) (funext fun found => ?_)
            cases found with
            | true => rfl
            | false =>
                refine congrArg (Program.call _) (funext fun comesBack => ?_)
                cases comesBack <;> rfl
  | changePass pass => cases user <;> rfl

/-- So a request whose calls are answered so is handled in either build, whatever the error
object holds. -/
theorem runs_of_runs {t : Transport} {err : CommError} {worker worker' : Worker} {request : Request}
    {trace : List ServerEvent} {e : CommError}
    (runs : Runs (serverResponder t worker request err) trace (.ok (worker', e)))
    (t' : Transport) (err' : CommError) :
    ∃ e', Runs (serverResponder t' worker request err') trace (.ok (worker', e')) := by
  have erased : Runs (serverResponder t worker request err >>= fun r => pure r.1) trace
      (.ok worker') := runs_map.mpr ⟨_, runs, rfl⟩
  rw [serverResponder_erased t t' err err'] at erased
  obtain ⟨inner, runs', same⟩ := runs_map.mp erased
  cases inner with
  | error e => cases same
  | ok after =>
      obtain ⟨worker'', e'⟩ := after
      cases same
      exact ⟨e', runs'⟩

/-! ## What it holds at the test -/

/-- `err->code` at the test, for a fresh error object with these contents. -/
def codeAtTest (t : Transport) (err : CommError) (refused : Option Int) : Request → Int
  | .int _ | .double _ | .string _ => (err.afterSend t).code
  | .close | .other _ => err.code
  | _ =>
    match refused with
    | some code => (CommError.afterSend ⟨code, []⟩ t).code
    | none => errOk

section Codes

variable {t : Transport} {err e : CommError} {worker worker' : Worker} {request : Request}
  {trace : List ServerEvent}

theorem afterSend_code (code : Int) (msg : Bytes) :
    (CommError.afterSend ⟨code, msg⟩ t).code = (CommError.afterSend ⟨code, []⟩ t).code := by
  cases t <;> rfl

theorem afterSend_errOk (msg : Bytes) : (CommError.afterSend ⟨errOk, msg⟩ t).code = errOk := by
  cases t <;> rfl

theorem code_of_login {username password : CString} {user user' : Option FsUser}
    (runs : Runs (processLoginCmd t username password user) trace (.ok (user', e))) :
    e.code = codeAtTest t err (refusal user trace (.login username password))
      (.login username password) := by
  rcases runs_processLoginCmd runs with
    ⟨_, rfl, rfl, same⟩ | ⟨rfl, ⟨rfl, same⟩ | ⟨filled, rfl, same⟩⟩
  · cases same
    exact afterSend_code ..
  · cases same
    exact afterSend_code ..
  · cases same
    exact afterSend_errOk _

theorem code_of_notLogged (out : worker.user = none) (guarded : request.NeedsLogin)
    (runs : Runs (serverResponder t worker request err) trace (.ok (worker', e))) :
    e.code = codeAtTest t err (refusal worker.user trace request) request := by
  obtain ⟨rfl, same⟩ := refused_of_notLogged out runs guarded
  cases same
  cases request with
  | get | post | newUser | changePass | logout =>
      rw [out]
      exact afterSend_code ..
  | int | double | string | login | close | other => exact guarded.elim

theorem code_of_runs (runs : Runs (serverResponder t worker request err) trace (.ok (worker', e))) :
    e.code = codeAtTest t err (refusal worker.user trace request) request := by
  obtain ⟨user, closed⟩ := worker
  cases request with
  | int | double | string =>
      rcases runs_echoed runs rfl with ⟨-, rfl, same⟩ | ⟨-, -, e, same⟩
      · cases same
        rfl
      · cases same
  | close | other =>
      obtain ⟨rfl, same⟩ := runs_pure.mp runs
      cases same
      rfl
  | login username password =>
      obtain ⟨inner, ran, same⟩ := runs_map.mp runs
      cases inner with
      | error e => cases same
      | ok after =>
          obtain ⟨user', e'⟩ := after
          cases same
          exact code_of_login ran
  | get path =>
      obtain ⟨inner, ran, same⟩ := runs_map.mp runs
      cases user with
      | none => exact code_of_notLogged rfl trivial runs
      | some session =>
          rcases runs_processGetCmd ran with ⟨rfl, rfl⟩ | ⟨row, ⟨rfl, rfl⟩ | ⟨contents, rfl, rfl⟩⟩
          · cases same
            exact afterSend_code ..
          · cases same
          · cases same
            rfl
  | post data dest size =>
      obtain ⟨inner, ran, same⟩ := runs_map.mp runs
      cases user with
      | none => exact code_of_notLogged rfl trivial runs
      | some session =>
          rcases runs_processPostCmd ran with ⟨row, rfl, rfl⟩ |
            ⟨inserted, ⟨e, -, rfl, rfl⟩ | ⟨block, written, -, rfl, rfl⟩⟩
          · cases same
            exact afterSend_code ..
          · cases same
          · cases same
            exact afterSend_errOk _
  | logout =>
      obtain ⟨inner, ran, same⟩ := runs_map.mp runs
      cases user with
      | none => exact code_of_notLogged rfl trivial runs
      | some session =>
          obtain ⟨rfl, rfl⟩ := runs_processLogoutCmd ran
          cases same
          exact afterSend_errOk _
  | newUser newUser =>
      obtain ⟨inner, ran, same⟩ := runs_map.mp runs
      cases user with
      | none => exact code_of_notLogged rfl trivial runs
      | some session =>
          rcases runs_processNewUserCmd ran with ⟨plain, rfl, rfl⟩ |
            ⟨admin, ⟨rfl, rfl⟩ | ⟨inChild, inserted, rfl, rfl⟩⟩
          · cases same
            simp only [refusal, if_pos plain]
            exact afterSend_code ..
          · cases same
            simp only [refusal, if_neg admin]
            exact afterSend_code ..
          · cases same
            rw [refusal_newUserCalls admin]
            exact afterSend_errOk _
  | changePass pass =>
      obtain ⟨inner, ran, same⟩ := runs_map.mp runs
      cases user with
      | none => exact code_of_notLogged rfl trivial runs
      | some session =>
          obtain ⟨rfl, rfl⟩ := runs_processChangePassCmd ran
          cases same
          exact afterSend_errOk _

end Codes

/-! ## What the test is meant to see -/

/-- In both builds the code is set, whatever it was before, is not zero exactly when the request
was refused, and is then the refusal's; so both post the same status. -/
structure StatusRight (worker : Worker) (request : Request) (trace : List ServerEvent) : Prop where
  code : ∀ t err worker' e,
    Runs (serverResponder t worker request err) trace (.ok (worker', e)) →
      (e.code ≠ 0 ↔ (refusal worker.user trace request).isSome = true) ∧
        ∀ code, refusal worker.user trace request = some code → e.code = code
  same : ∀ err err' worker' worker'' e e',
    Runs (serverResponder .fifo worker request err) trace (.ok (worker', e)) →
      Runs (serverResponder .socket worker request err') trace (.ok (worker'', e')) →
        (e.code ≠ 0 ↔ e'.code ≠ 0)

section Status

variable {t : Transport} {err e : CommError} {worker worker' : Worker} {request : Request}
  {trace : List ServerEvent}
  (runs : Runs (serverResponder t worker request err) trace (.ok (worker', e)))

include runs

/-- For an echo only the send could set the code, for a close nothing does. -/
theorem isCommand_of_statusRight (right : StatusRight worker request trace) : request.IsCommand := by
  intro plain
  obtain ⟨e', runs'⟩ := runs_of_runs runs .socket ⟨1, []⟩
  have unset : e'.code = 1 := by
    rw [code_of_runs runs']
    cases request with
    | int | double | string | close | other => rfl
    | get | post | login | logout | newUser | changePass => exact plain.elim
  have accepted : refusal worker.user trace request = none := by
    cases request with
    | int | double | string | close | other => rfl
    | get | post | login | logout | newUser | changePass => exact plain.elim
  have refused := (right.code _ _ _ _ runs').1.mp (by rw [unset]; decide)
  rw [accepted] at refused
  cases refused

theorem code_of_isCommand (command : request.IsCommand) :
    e.code = match refusal worker.user trace request with
      | some code => (CommError.afterSend ⟨code, []⟩ t).code
      | none => errOk := by
  rw [code_of_runs runs]
  cases request with
  | int | double | string | close | other => exact absurd trivial command
  | get | post | login | logout | newUser | changePass => rfl

/-- The send of the FIFO build clears the code of a refusal. -/
theorem not_statusRight_of_refusal {code : Int} (command : request.IsCommand)
    (refused : refusal worker.user trace request = some code) :
    ¬ StatusRight worker request trace := by
  intro right
  obtain ⟨e', runs'⟩ := runs_of_runs runs .fifo err
  have cleared := code_of_isCommand runs' command
  rw [refused] at cleared
  refine (right.code _ _ _ _ runs').1.mpr ?_ cleared
  rw [refused]
  rfl

end Status

/-- For every request that is handled to its end. -/
theorem statusRight_iff {worker : Worker} {request : Request} {trace : List ServerEvent}
    (handled : ∃ t err worker' e,
      Runs (serverResponder t worker request err) trace (.ok (worker', e))) :
    StatusRight worker request trace ↔
      request.IsCommand ∧ refusal worker.user trace request = none := by
  obtain ⟨t, err, worker', e, runs⟩ := handled
  constructor
  · intro right
    have command := isCommand_of_statusRight runs right
    refine ⟨command, Option.eq_none_iff_forall_not_mem.mpr fun code refused => ?_⟩
    exact not_statusRight_of_refusal runs command refused right
  · intro given
    obtain ⟨command, accepted⟩ := given
    have zero {t : Transport} {err e : CommError} {worker' : Worker}
        (runs : Runs (serverResponder t worker request err) trace (.ok (worker', e))) :
        e.code = 0 := by
      rw [code_of_isCommand runs command, accepted]
      rfl
    refine ⟨fun t err worker' e runs => ⟨?_, ?_⟩, fun err err' worker' worker'' e e' runs runs' => ?_⟩
    · rw [zero runs, accepted]
      simp
    · rw [accepted]
      exact nofun
    · rw [zero runs, zero runs']

/-- The session of `x`. -/
def sessionX : FsUser := ⟨⟨ascii "x", nulFree_x⟩, ⟨ascii "/fs/x", by decide⟩, 0, 2⟩

/-- It logs out. -/
theorem statusRight_logout :
    StatusRight ⟨some sessionX, false⟩ .logout [reply (ascii "Log out successful") 18] := by
  have runs : Runs (serverResponder .fifo ⟨some sessionX, false⟩ .logout ⟨7, []⟩)
      [reply (ascii "Log out successful") 18] (.ok (⟨none, false⟩, ⟨noCommError, ascii "OK"⟩)) :=
    .call (.ret _)
  exact (statusRight_iff ⟨_, _, _, _, runs⟩).mpr ⟨id, rfl⟩

/-- In the FIFO build a login that fails leaves no error. -/
theorem status_of_failed_login :
    let trace : List ServerEvent := [⟨.userIdentificationInDb sessionX.name sessionX.name, none⟩,
      reply (ascii "Login failed") 12]
    Runs (serverResponder .fifo .start (.login sessionX.name sessionX.name) ⟨7, []⟩) trace
        (.ok (.start, ⟨noCommError, ascii "OK"⟩)) ∧
      ¬ StatusRight .start (.login sessionX.name sessionX.name) trace := by
  intro trace
  have runs : Runs (serverResponder .fifo .start (.login sessionX.name sessionX.name) ⟨7, []⟩)
      trace (.ok (.start, ⟨noCommError, ascii "OK"⟩)) := .call (.call (.ret _))
  have refused : refusal Worker.start.user trace (.login sessionX.name sessionX.name) =
      some errUserNotExists := rfl
  exact ⟨runs, not_statusRight_of_refusal runs id refused⟩

end IpcFtp
