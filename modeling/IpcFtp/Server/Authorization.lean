import IpcFtp.Lib.Guarded
import IpcFtp.Server.Responder

/-!
# Who may do what

From the inversion lemmas of the handlers it follows what one request does to the
session, and by induction over the requests of a connection whose session it is that a
handler acts for.
-/

namespace IpcFtp

open Lib Program

/-! ## What an event says -/

/-- The answer of an identification. -/
def identification : ServerEvent → Option (Option FsUser)
  | ⟨.userIdentificationInDb _ _, answer⟩ => some answer
  | _ => none

/-- The record an identification filled. -/
def identified (event : ServerEvent) : Option FsUser := (identification event).join

/-- The session a change of `files` or of a password is made for. -/
def changesFor : ServerEvent → Option FsUser
  | ⟨.insertAliasInDb _ user, _⟩ => some user
  | ⟨.updatePassInDb user _, _⟩ => some user
  | _ => none

/-- The name a folder or a row of `users` is made for. -/
def registeredName : ServerEvent → Option CString
  | ⟨.createUserFolder username, _⟩ => some username
  | ⟨.newUserInDb user, _⟩ => some user.username
  | _ => none

/-- The name that `user_in_db` did not find. -/
def unknownName : ServerEvent → Option CString
  | ⟨.userInDb username, false⟩ => some username
  | _ => none

/-- A reply of any kind. -/
def isSend : ServerEvent → Bool
  | ⟨.sendInt _, _⟩ | ⟨.sendDouble _, _⟩ | ⟨.sendString _, _⟩ | ⟨.sendData _ _, _⟩ => true
  | _ => false

theorem silent_of_isSend {event : ServerEvent} (sends : isSend event = true) :
    identified event = none ∧ registeredName event = none ∧ changesFor event = none := by
  obtain ⟨call, answer⟩ := event
  cases call <;> first | exact ⟨rfl, rfl, rfl⟩ | cases sends

/-! ## One request -/

/-- A request that was handled, with the first contents of its error object and the
calls that were made. -/
structure Handled : Type 1 where
  request : Request
  err : CommError
  trace : List ServerEvent

/-- The worker handles a request to its end. -/
def handles (t : Transport) (worker : Worker) (handled : Handled) (worker' : Worker) : Prop :=
  ∃ err', Runs (serverResponder t worker handled.request handled.err) handled.trace
    (.ok (worker', err'))

/-- The kinds `check_user_logged` stands in front of. -/
def Request.NeedsLogin : Request → Prop
  | .get _ | .post _ _ _ | .newUser _ | .changePass _ | .logout => True
  | _ => False

variable {t : Transport} {worker worker' : Worker} {request : Request} {err : CommError}
  {trace : List ServerEvent} {result : Except Fault (Worker × CommError)}

/-- Without a session every guarded request is answered `NOT logged` and no more. -/
theorem refused_of_notLogged (out : worker.user = none)
    (runs : Runs (serverResponder t worker request err) trace result)
    (guarded : request.NeedsLogin) :
    trace = notLogged ∧ result = .ok (worker, notLoggedError t) := by
  obtain ⟨user, closed⟩ := worker
  obtain rfl : user = none := out
  cases request with
  | get path =>
      obtain ⟨inner, ran, rfl⟩ := runs_map.mp runs
      rw [processGetCmd] at ran
      obtain ⟨rfl, rfl⟩ := runs_notLogged ran rfl
      exact ⟨rfl, rfl⟩
  | post data dest size =>
      obtain ⟨inner, ran, rfl⟩ := runs_map.mp runs
      rw [processPostCmd] at ran
      obtain ⟨rfl, rfl⟩ := runs_notLogged ran rfl
      exact ⟨rfl, rfl⟩
  | newUser user =>
      obtain ⟨inner, ran, rfl⟩ := runs_map.mp runs
      rw [processNewUserCmd] at ran
      obtain ⟨rfl, rfl⟩ := runs_notLogged ran rfl
      exact ⟨rfl, rfl⟩
  | changePass pass =>
      obtain ⟨inner, ran, rfl⟩ := runs_map.mp runs
      rw [processChangePassCmd] at ran
      obtain ⟨rfl, rfl⟩ := runs_notLogged ran rfl
      exact ⟨rfl, rfl⟩
  | logout =>
      obtain ⟨inner, ran, rfl⟩ := runs_map.mp runs
      rw [processLogoutCmd] at ran
      obtain ⟨rfl, rfl⟩ := runs_notLogged ran rfl
      exact ⟨rfl, rfl⟩
  | int i | double d | string str | login username password | close | other kind =>
      exact guarded.elim

/-- The kinds whose handling neither looks at the session nor at the database. -/
def Request.Sessionless : Request → Prop
  | .int _ | .double _ | .string _ | .close | .other _ => True
  | _ => False

theorem runs_sessionless (runs : Runs (serverResponder t worker request err) trace result)
    (plain : request.Sessionless) :
    (∀ event ∈ trace, isSend event = true) ∧
      ∀ worker' err', result = .ok (worker', err') → worker'.user = worker.user := by
  cases request with
  | int | double | string =>
      rcases runs_echoed runs rfl with ⟨-, rfl, rfl⟩ | ⟨-, rfl, e, rfl⟩
      · refine ⟨by simp [isSend], ?_⟩
        intro worker' err' given
        cases given
        rfl
      · refine ⟨by simp, ?_⟩
        intro worker' err' given
        cases given
  | close | other =>
      obtain ⟨rfl, rfl⟩ := runs_pure.mp runs
      refine ⟨by simp, ?_⟩
      intro worker' err' given
      cases given
      rfl
  | get path | post data dest size | login username password | logout | newUser user
  | changePass pass => exact plain.elim

/-- What a handler does for a session: nothing is identified, changes are made for that
session, and a name is registered for an administrator after it was not found. -/
structure ActsFor (session : FsUser) (trace : List ServerEvent) : Prop where
  identifies : ∀ event ∈ trace, identified event = none
  changes : ∀ event ∈ trace, ∀ owner, changesFor event = some owner → owner = session
  registers : ∀ before event after name, trace = before ++ event :: after →
    registeredName event = some name →
      session.isAdmin ≠ 0 ∧ ∃ known ∈ before, unknownName known = some name

/-- A trace in which nothing is registered acts for a session as its events do. -/
theorem ActsFor.of_forall {session : FsUser} (plain : ∀ event ∈ trace, identified event = none ∧
    registeredName event = none ∧ ∀ owner, changesFor event = some owner → owner = session) :
    ActsFor session trace where
  identifies event member := (plain event member).1
  changes event member := (plain event member).2.2
  registers before event after name split register := by
    subst split
    have none := (plain event (by simp)).2.1
    rw [none] at register
    cases register

/-- The handlers of a logged-in session act for it and keep it. -/
theorem actsFor_of_logged {session : FsUser} (logged : worker.user = some session)
    (runs : Runs (serverResponder t worker request err) trace result) :
    ActsFor session trace ∧ ∀ worker' err', result = .ok (worker', err') →
      worker'.user = if request matches .logout then none else some session := by
  obtain ⟨user, closed⟩ := worker
  obtain rfl : user = some session := logged
  cases request with
  | get path =>
      obtain ⟨inner, ran, rfl⟩ := runs_map.mp runs
      rcases runs_processGetCmd ran with ⟨rfl, rfl⟩ | ⟨row, ⟨rfl, rfl⟩ | ⟨contents, rfl, rfl⟩⟩
      · refine ⟨.of_forall ?_, by rintro worker' err' ⟨⟩; rfl⟩
        simp [identified, identification, registeredName, changesFor, reply]
      · refine ⟨.of_forall ?_, by rintro worker' err' ⟨⟩⟩
        simp [identified, identification, registeredName, changesFor]
      · refine ⟨.of_forall ?_, by rintro worker' err' ⟨⟩; rfl⟩
        simp [identified, identification, registeredName, changesFor, reply]
  | post data dest size =>
      obtain ⟨inner, ran, rfl⟩ := runs_map.mp runs
      rcases runs_processPostCmd ran with
        ⟨row, rfl, rfl⟩ | ⟨inserted, ⟨e, _, rfl, rfl⟩ | ⟨block, written, _, rfl, rfl⟩⟩
      · refine ⟨.of_forall ?_, by rintro worker' err' ⟨⟩; rfl⟩
        simp [identified, identification, registeredName, changesFor, reply]
      · refine ⟨.of_forall ?_, by rintro worker' err' ⟨⟩⟩
        simp [identified, identification, registeredName, changesFor]
      · refine ⟨.of_forall ?_, by rintro worker' err' ⟨⟩; rfl⟩
        simp [identified, identification, registeredName, changesFor, reply]
  | newUser newUser =>
      obtain ⟨inner, ran, rfl⟩ := runs_map.mp runs
      rcases runs_processNewUserCmd ran with
        ⟨_, rfl, rfl⟩ | ⟨admin, ⟨rfl, rfl⟩ | ⟨inChild, inserted, rfl, rfl⟩⟩
      · refine ⟨.of_forall ?_, by rintro worker' err' ⟨⟩; rfl⟩
        simp [identified, identification, registeredName, changesFor, reply]
      · refine ⟨.of_forall ?_, by rintro worker' err' ⟨⟩; rfl⟩
        simp [identified, identification, registeredName, changesFor, reply]
      · refine ⟨⟨?_, ?_, ?_⟩, by rintro worker' err' ⟨⟩; rfl⟩
        · intro event member
          rcases mem_newUserCalls member with rfl | rfl | ⟨_, rfl⟩ | rfl <;> rfl
        · intro event member owner changes
          rcases mem_newUserCalls member with rfl | rfl | ⟨_, rfl⟩ | rfl <;> cases changes
        · intro before event after name split register
          have named : name = newUser.username := by
            have inside : event ∈ before ++ event :: after := by simp
            rw [← split] at inside
            rcases mem_newUserCalls inside with rfl | rfl | ⟨_, rfl⟩ | rfl <;>
              cases register <;> rfl
          cases before with
          | nil =>
              obtain ⟨rfl, _⟩ := List.cons.inj split
              cases register
          | cons first before =>
              obtain ⟨rfl, _⟩ := List.cons.inj split
              exact ⟨admin, _, List.mem_cons_self, congrArg some named.symm⟩
  | changePass pass =>
      obtain ⟨inner, ran, rfl⟩ := runs_map.mp runs
      obtain ⟨rfl, rfl⟩ := runs_processChangePassCmd ran
      refine ⟨.of_forall ?_, by rintro worker' err' ⟨⟩; rfl⟩
      simp [identified, identification, registeredName, changesFor, reply]
  | logout =>
      obtain ⟨inner, ran, rfl⟩ := runs_map.mp runs
      obtain ⟨rfl, rfl⟩ := runs_processLogoutCmd ran
      refine ⟨.of_forall ?_, by rintro worker' err' ⟨⟩; rfl⟩
      simp [identified, identification, registeredName, changesFor, reply]
  | login username password =>
      obtain ⟨inner, ran, rfl⟩ := runs_map.mp runs
      rcases runs_processLoginCmd ran with ⟨current, _, rfl, rfl⟩ | ⟨out, _⟩
      · refine ⟨.of_forall ?_, by rintro worker' err' ⟨⟩; rfl⟩
        simp [identified, identification, registeredName, changesFor, reply]
      · cases out
  | int i | double d | string str | close | other kind =>
      obtain ⟨sends, keeps⟩ := runs_sessionless runs trivial
      refine ⟨.of_forall fun event member => ?_, keeps⟩
      obtain ⟨identifies, registers, changes⟩ := silent_of_isSend (sends event member)
      exact ⟨identifies, registers, by simp [changes]⟩

/-- Without a session nothing is changed or registered, and a session comes from an
identification only. -/
theorem out_of_notLogged (out : worker.user = none)
    (runs : Runs (serverResponder t worker request err) trace result) :
    (∀ event ∈ trace, registeredName event = none ∧ changesFor event = none) ∧
      ∀ worker' err' session, result = .ok (worker', err') → worker'.user = some session →
        ∃ username password, request = .login username password ∧
          trace = [⟨.userIdentificationInDb username password, some session⟩,
            reply (ascii "Logged in successfully") 22] := by
  have refusal (guarded : request.NeedsLogin) :
      (∀ event ∈ trace, registeredName event = none ∧ changesFor event = none) ∧
        ∀ worker' err', result = .ok (worker', err') → worker'.user = none := by
    obtain ⟨rfl, rfl⟩ := refused_of_notLogged out runs guarded
    refine ⟨by simp [notLogged, reply, registeredName, changesFor], ?_⟩
    intro worker' err' given
    cases given
    exact out
  cases request with
  | get path | post data dest size | newUser newUser | changePass pass | logout =>
      obtain ⟨silent, stays⟩ := refusal trivial
      refine ⟨silent, fun worker' err' session done logged => ?_⟩
      rw [stays worker' err' done] at logged
      cases logged
  | int i | double d | string str | close | other kind =>
      obtain ⟨sends, keeps⟩ := runs_sessionless runs trivial
      refine ⟨fun event member => (silent_of_isSend (sends event member)).2, ?_⟩
      intro worker' err' session done logged
      rw [keeps worker' err' done, out] at logged
      cases logged
  | login username password =>
      obtain ⟨inner, ran, rfl⟩ := runs_map.mp runs
      rw [out] at ran
      rcases runs_processLoginCmd ran with
        ⟨current, given, _, _⟩ | ⟨_, ⟨rfl, rfl⟩ | ⟨filled, rfl, rfl⟩⟩
      · cases given
      · refine ⟨by simp [reply, registeredName, changesFor], ?_⟩
        rintro worker' err' session ⟨⟩ ⟨⟩
      · refine ⟨by simp [reply, registeredName, changesFor], ?_⟩
        rintro worker' err' session ⟨⟩ ⟨⟩
        exact ⟨username, password, rfl, rfl⟩

/-- A call that enters, reads or writes a file. -/
def touchesFiles : ServerEvent → Bool
  | ⟨.insertAliasInDb _ _, _⟩ | ⟨.rawDataFromFile _, _⟩ | ⟨.fileFromRawData _ _ _, _⟩ => true
  | _ => false

/-- Files are touched by the gets and posts of a session only. -/
theorem get_or_post_of_touchesFiles {event : ServerEvent}
    (runs : Runs (serverResponder t worker request err) trace result) (member : event ∈ trace)
    (touches : touchesFiles event = true) :
    ∃ session, worker.user = some session ∧
      ((∃ path, request = .get path) ∨ ∃ data dest size, request = .post data dest size) := by
  have quiet (shape : ∀ event ∈ trace, touchesFiles event = false) : False := by
    rw [shape event member] at touches
    cases touches
  have send (sends : ∀ event ∈ trace, isSend event = true) : False := by
    refine quiet fun event member => ?_
    have sent := sends event member
    obtain ⟨call, answer⟩ := event
    cases call <;> first | rfl | cases sent
  obtain ⟨user, closed⟩ := worker
  cases user with
  | none =>
      cases request with
      | get path | post data dest size | newUser newUser | changePass pass | logout =>
          obtain ⟨rfl, -⟩ := refused_of_notLogged rfl runs trivial
          exact (send (by simp [notLogged, reply, isSend])).elim
      | int i | double d | string str | close | other kind =>
          exact (send (runs_sessionless runs trivial).1).elim
      | login username password =>
          obtain ⟨inner, ran, rfl⟩ := runs_map.mp runs
          rcases runs_processLoginCmd ran with
            ⟨current, given, _, _⟩ | ⟨_, ⟨rfl, rfl⟩ | ⟨filled, rfl, rfl⟩⟩
          · cases given
          · exact (quiet (by simp [touchesFiles, reply])).elim
          · exact (quiet (by simp [touchesFiles, reply])).elim
  | some session =>
      refine ⟨session, rfl, ?_⟩
      cases request with
      | get path => exact .inl ⟨path, rfl⟩
      | post data dest size => exact .inr ⟨data, dest, size, rfl⟩
      | newUser newUser =>
          obtain ⟨inner, ran, rfl⟩ := runs_map.mp runs
          rcases runs_processNewUserCmd ran with
            ⟨_, rfl, rfl⟩ | ⟨admin, ⟨rfl, rfl⟩ | ⟨inChild, inserted, rfl, rfl⟩⟩
          · exact (quiet (by simp [touchesFiles, reply])).elim
          · exact (quiet (by simp [touchesFiles, reply])).elim
          · refine (quiet fun event member => ?_).elim
            rcases mem_newUserCalls member with rfl | rfl | ⟨_, rfl⟩ | rfl <;> rfl
      | changePass pass =>
          obtain ⟨inner, ran, rfl⟩ := runs_map.mp runs
          obtain ⟨rfl, rfl⟩ := runs_processChangePassCmd ran
          exact (quiet (by simp [touchesFiles, reply])).elim
      | login username password =>
          obtain ⟨inner, ran, rfl⟩ := runs_map.mp runs
          rcases runs_processLoginCmd ran with ⟨current, _, rfl, rfl⟩ | ⟨out, _⟩
          · exact (send (by simp [reply, isSend])).elim
          · cases out
      | logout =>
          obtain ⟨inner, ran, rfl⟩ := runs_map.mp runs
          obtain ⟨rfl, rfl⟩ := runs_processLogoutCmd ran
          exact (send (by simp [reply, isSend])).elim
      | int i | double d | string str | close | other kind =>
          exact (send (runs_sessionless runs trivial).1).elim

/-! ## All requests of a connection -/

/-- The last successful login of the history filled this record, and no logout came
after it. -/
def LoggedInAs (history : List Handled) (session : FsUser) : Prop :=
  ∃ earlier login later, history = earlier ++ login :: later ∧
    (∃ username password, login.request = .login username password) ∧
    (∃ event ∈ login.trace, identified event = some session) ∧
    ∀ handled ∈ later, handled.request ≠ .logout ∧
      ∀ event ∈ handled.trace, identified event = none

/-- A request handled for a session that is still there afterwards was no logout. -/
theorem keeps_of_logged {session session' : FsUser} {err' : CommError}
    (logged : worker.user = some session)
    (runs : Runs (serverResponder t worker request err) trace (.ok (worker', err')))
    (still : worker'.user = some session') : session' = session ∧ request ≠ .logout := by
  have after := (actsFor_of_logged logged runs).2 worker' err' rfl
  rw [still] at after
  have other : request ≠ .logout := by
    intro same
    subst same
    simp at after
  split at after
  · cases after
  · exact ⟨Option.some.inj after, other⟩

/-- The session of a worker is that of its last login. -/
def SessionOfHistory (history : List Handled) (worker : Worker) : Prop :=
  ∀ session, worker.user = some session → LoggedInAs history session

theorem sessionOfHistory_of_run {history : List Handled}
    (run : Run (handles t) unguarded .start history worker) :
    SessionOfHistory history worker := by
  refine Run.history run ?_ ?_
  · intro session logged
    cases logged
  rintro past worker worker' handled since - ⟨err', runs⟩ session logged
  cases before : worker.user with
  | none =>
      -- the request was the login
      obtain ⟨username, password, kind, trace⟩ :=
        (out_of_notLogged before runs).2 worker' err' session rfl logged
      refine ⟨past, handled, [], by simp, ⟨username, password, kind⟩, ?_, by simp⟩
      exact ⟨_, by rw [trace]; exact List.mem_cons_self, rfl⟩
  | some current =>
      obtain ⟨rfl, stays⟩ := keeps_of_logged before runs logged
      obtain ⟨earlier, login, later, split, kind, filled, quiet⟩ := since session before
      refine ⟨earlier, login, later ++ [handled], by simp [split], kind, filled, ?_⟩
      intro other member
      rcases List.mem_append.mp member with inside | last
      · exact quiet other inside
      · obtain rfl : other = handled := by simpa using last
        exact ⟨stays, (actsFor_of_logged before runs).1.identifies⟩

/-- What the handling of one request may do after a history of requests. -/
structure Authorized (history : List Handled) (worker : Worker) (request : Request)
    (trace : List ServerEvent) (result : Except Fault (Worker × CommError)) : Prop where
  /-- Without a session a guarded request is only answered `NOT logged`. -/
  refused : worker.user = none → request.NeedsLogin →
    trace = [⟨.sendData (ascii "NOT logged") 10, ()⟩] ∧
      ∃ err', result = .ok (worker, err')
  /-- A folder or a row of `users` is made for an administrator, for a name that
  `user_in_db` did not find. -/
  registers : ∀ before event after name, trace = before ++ event :: after →
    registeredName event = some name → ∃ session, worker.user = some session ∧
      session.isAdmin ≠ 0 ∧ ∃ known ∈ before, unknownName known = some name
  /-- Changes are made for the session of the last login. -/
  changes : ∀ event ∈ trace, ∀ session, changesFor event = some session →
    worker.user = some session ∧ LoggedInAs history session
  /-- A session starts with an identification that answered. -/
  starts : ∀ worker' err' session, result = .ok (worker', err') → worker.user = none →
    worker'.user = some session → ∃ username password, request = .login username password ∧
      ⟨.userIdentificationInDb username password, some session⟩ ∈ trace
  /-- A failed login leaves no session. -/
  failed : ∀ username password, worker.user = none → request = .login username password →
    ⟨.userIdentificationInDb username password, none⟩ ∈ trace →
      ∀ worker' err', result = .ok (worker', err') → worker'.user = none
  /-- A second login changes neither the session nor the database. -/
  again : ∀ username password session, worker.user = some session →
    request = .login username password →
      trace = [⟨.sendData (ascii "You are already logged in") 25, ()⟩] ∧
        ∃ err', result = .ok (worker, err')

/-- Whatever the helpers answer, every request of a connection is handled with the rights
of the session its history gave it. -/
theorem authorized_of_run {history : List Handled}
    (run : Run (handles t) unguarded .start history worker)
    (runs : Runs (serverResponder t worker request err) trace result) :
    Authorized history worker request trace result where
  refused out guarded := by
    obtain ⟨rfl, rfl⟩ := refused_of_notLogged out runs guarded
    exact ⟨rfl, _, rfl⟩
  registers before event after name split register := by
    cases logged : worker.user with
    | none =>
        have silent := (out_of_notLogged logged runs).1 event (by simp [split])
        rw [silent.1] at register
        cases register
    | some session =>
        obtain ⟨admin, known⟩ :=
          (actsFor_of_logged logged runs).1.registers before event after name split register
        exact ⟨session, rfl, admin, known⟩
  changes event member owner change := by
    cases logged : worker.user with
    | none =>
        have silent := (out_of_notLogged logged runs).1 event member
        rw [silent.2] at change
        cases change
    | some session =>
        obtain rfl := (actsFor_of_logged logged runs).1.changes event member owner change
        exact ⟨rfl, sessionOfHistory_of_run run owner logged⟩
  starts worker' err' session done out logged := by
    obtain ⟨username, password, kind, shape⟩ :=
      (out_of_notLogged out runs).2 worker' err' session done logged
    exact ⟨username, password, kind, by rw [shape]; exact List.mem_cons_self⟩
  failed username password out kind refusal worker' err' done := by
    cases logged : worker'.user with
    | none => rfl
    | some session =>
        obtain ⟨_, _, _, shape⟩ := (out_of_notLogged out runs).2 worker' err' session done logged
        rw [shape] at refusal
        rcases List.mem_cons.mp refusal with first | last
        · cases congrArg identification first
        · cases congrArg identification (List.mem_singleton.mp last)
  again username password session logged kind := by
    subst kind
    obtain ⟨inner, ran, rfl⟩ := runs_map.mp runs
    rcases runs_processLoginCmd ran with ⟨current, _, rfl, rfl⟩ | ⟨out, _⟩
    · exact ⟨rfl, _, rfl⟩
    · rw [out] at logged
      cases logged

/-- An administrator logs in and registers a user. -/
theorem authorized_newUser :
    let name : CString := ⟨ascii "ann", by decide⟩
    let admin : FsUser := ⟨name, ⟨ascii "/fs/", by decide⟩, 1, 1⟩
    let err : CommError := ⟨0, []⟩
    let login : Handled := ⟨.login name name, err,
      [⟨.userIdentificationInDb name name, some admin⟩, reply (ascii "Logged in successfully") 22]⟩
    Authorized [login] ⟨some admin, false⟩ (.newUser ⟨name, name, 0⟩)
      [⟨.userInDb name, false⟩, ⟨.createUserFolder name, false⟩, ⟨.newUserInDb ⟨name, name, 0⟩, 0⟩,
        reply (ascii "User registered") 15]
      (.ok (⟨some admin, false⟩, CommError.afterSend ⟨errOk, ascii "OK"⟩ .fifo)) := by
  intro name admin err login
  have run : Run (handles .fifo) unguarded .start [login] ⟨some admin, false⟩ :=
    .one trivial ⟨_, .call (.call (.ret _))⟩
  exact @authorized_of_run .fifo _ _ err _ _ _ run (.call (.call (.call (.call (.ret _)))))

end IpcFtp
