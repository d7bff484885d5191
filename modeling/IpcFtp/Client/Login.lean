import IpcFtp.Client.RoundTrip
import IpcFtp.Client.Shell
import IpcFtp.Serialization.ParseResult

/-!
# Logged in at both ends

A client whose commands wait for their replies, and its worker.  The client keeps `logged`,
the worker keeps `user`, and the client knows of the worker only what the replies say.

A command is completed when it has returned and the worker's thread has given back its
mutex: `process_login_cmd` and `process_logout_cmd` set `user` behind their reply, and the
next request waits for that mutex.  A handler that faults ends the worker, and its command
is never completed.
-/

namespace IpcFtp

open Lib Program

/-! ## Client and worker -/

/-- Both ends of a connection, the threads of the worker, whether it still listens, and the
replies on their way. -/
structure Session : Type where
  client : ClientState
  worker : Worker
  currentThread : Nat
  numThreads : Nat
  maxThreads : Nat
  serving : Bool
  pending : List JsonObject

/-- A connection that has just been opened. -/
def Session.start (minThreads maxThreads : Nat) : Session :=
  ⟨⟨false, .opened⟩, .start, 0, minThreads, maxThreads, true, []⟩

/-- An object was sent, and this was parsed from what its receiver made of the frame. -/
def Delivered (t : Transport) (json : JsonC) (object : JsonObject) (fresh : Byte)
    (presult : ParseResult) : Prop :=
  ∃ boundary got rest, Reader.run none (commReceiveData t)
      (Sender.wire t ⟨boundary, json.print object⟩ .commSendData) = .done got rest ∧
    json.parseEncoded fresh got.buffer = .ok presult

/-- The listen loop's own reply. -/
def maxedObject : JsonObject := stringifyData (blockString (ascii "Server maxed capacity")) 21

/-- Whether there is room for the thread of another request. -/
def Session.roomFor (s : Session) : Option Nat :=
  IpcFtp.roomFor s.currentThread s.numThreads s.maxThreads

/-- The answers a handler gets; `record` is what an identification finds. -/
def identifiesAs (record : Option FsUser) (trace : List ServerEvent) : Prop :=
  ∀ event ∈ trace, ∀ answer, identification event = some answer → answer = record

/-- What becomes of an object at the worker: a thread handles it, in one process unless it is
`twice`, or there is no room for one and the listen loop ends. -/
inductive Serves (t : Transport) (json : JsonC) (record : Option FsUser) (twice : Bool)
    (s : Session) (object : JsonObject) : Session → Prop
  | handled {numThreads : Nat} {fresh : Byte} {presult : ParseResult} {err err' : CommError}
    {trace : List ServerEvent} {worker : Worker} (serving : s.serving = true)
    (room : s.roomFor = some numThreads) (delivered : Delivered t json object fresh presult)
    (runs : Runs (serverResponder t s.worker presult.toRequest err) trace (.ok (worker, err')))
    (answers : identifiesAs record trace) (single : twice = false → OneProcess trace) :
    Serves t json record twice s object { s with
      worker := worker
      currentThread := s.currentThread + 1
      numThreads := numThreads
      pending := s.pending ++ trace.filterMap replyObject }
  | refused (serving : s.serving = true) (full : s.roomFor = none) :
    Serves t json record twice s object
      { s with serving := false, pending := s.pending ++ [maxedObject] }

/-- The environment of a client whose commands wait; `fresh` is the byte behind a copied
reply. -/
def Session.happens (t : Transport) (json : JsonC) (record : Option FsUser) (twice : Bool)
    (fresh : Byte) (s : Session) (event : ClientEvent) (s' : Session) : Prop :=
  Shell.possible t ⟨s.client, false⟩ event ∧
    match event with
    | ⟨.send object, _⟩ => Serves t json record twice s object s'
    | ⟨.receive, (_, presult)⟩ => ∃ object others, s.pending = object :: others ∧
      Delivered t json object fresh presult ∧ s' = { s with pending := others }
    | ⟨.setLogged logged, _⟩ => s' = { s with client := { s.client with logged := logged } }
    | ⟨.connectionClose, _⟩ => s' = { s with client := { s.client with connection := .closed } }
    | ⟨.rawDataFromFile _, _⟩ => s' = s
    | ⟨.sendAsync _, _⟩ | ⟨.connectionOpen _, _⟩ => False

/-- A command that is completed, and its circumstances; `twice` if the `execve` of a handler may
have come back. -/
structure Completed : Type 1 where
  line : CString
  trace : List ClientEvent
  record : Option FsUser
  twice : Bool
  fresh : Byte

/-- The object that a call sends and waits behind. -/
def sentObject : ClientEvent → Option JsonObject
  | ⟨.send object, _⟩ => some object
  | _ => none

/-- The object is sent in the course of the command. -/
def Completed.Sends (c : Completed) (object : JsonObject) : Prop :=
  (⟨.send object, ()⟩ : ClientEvent) ∈ c.trace

def completes (t : Transport) (json : JsonC) (atof : CString → Float) (s : Session) (c : Completed)
    (s' : Session) : Prop :=
  s.client.connection ≠ .closed ∧ Runs (shellTurn t atof s.client c.line) c.trace (.ok ()) ∧
    Through (Session.happens t json c.record c.twice c.fresh) s c.trace s'

/-! ## What is to hold, and when -/

/-- The client takes itself for logged in exactly if the worker has a user. -/
def Session.Agree (s : Session) : Prop := s.client.logged = true ↔ s.worker.user ≠ none

/-- Nothing is left for the next command to read. -/
def Session.Quiet (s : Session) : Prop := s.serving = true → s.pending = []

/-- What each command leaves. -/
structure Session.Settled (s : Session) : Prop where
  agree : s.Agree
  quiet : s.Quiet

def isKind (name : String) (object : JsonObject) : Prop := kindOf object = some (ascii name)

/-- A request is handled by one process, a login or logout finds room for its thread, and a
login finds a record or a zero behind its copied reply. -/
structure Careful (s : Session) (c : Completed) : Prop where
  single : c.twice = false
  room : ∀ object, c.Sends object → isKind "command.login" object ∨ isKind "command.logout" object →
    s.roomFor ≠ none
  ended : ∀ object, c.Sends object → isKind "command.login" object → c.record ≠ none ∨ c.fresh = 0

/-- The replies of `process_login_cmd` to a worker without a user. -/
def loginReplies : List JsonObject :=
  [stringifyData (blockString (ascii "Login failed")) 12,
    stringifyData (blockString (ascii "Logged in successfully")) 22]

/-! ## One request -/

section Served

variable {t : Transport} {json : JsonC} {object : JsonObject} {fresh : Byte}
  {presult : ParseResult} {request : Request} {worker worker' : Worker} {err err' : CommError}
  {trace : List ServerEvent} {record : Option FsUser}

/-- What was received and parsed was the whole message. -/
theorem Delivered.parses (delivered : Delivered t json object fresh presult)
    (reads : json.ReadsBack object) :
    json.parseEncoded fresh (json.print object) = .ok presult := by
  obtain ⟨boundary, got, rest, finished, parses⟩ := delivered
  rwa [(of_parsed reads finished parses).2] at parses

/-- The worker dispatches on the kind the client gave the object. -/
theorem Delivered.kind {kind : Bytes} (delivered : Delivered t json object fresh presult)
    (accessors : json.Reads) (reads : json.ReadsBack object) (isKind : kindOf object = some kind) :
    presult.toRequest.kind = kind := by
  have given : ∃ name : CString, object.lookup (ascii "kind") = some (.string name) ∧
      name.bytes = kind := by
    unfold kindOf at isKind
    split at isKind
    · rename_i name found
      exact ⟨name, found, Option.some.inj isKind⟩
    · cases isKind
  obtain ⟨name, found, rfl⟩ := given
  have named : json.string ((json.parse (json.print object)).getD []) (ascii "kind") = .ok name := by
    rw [reads.parse, Option.getD_some]
    exact string_eq accessors found
  exact kind_toRequest named presult (delivered.parses reads)

/-- A request that is neither a login nor a logout leaves the session. -/
theorem user_eq_of_kind (login : request.kind ≠ ascii "command.login")
    (logout : request.kind ≠ ascii "command.logout")
    (runs : Runs (serverResponder t worker request err) trace (.ok (worker', err'))) :
    worker'.user = worker.user := by
  cases request with
  | get path | post data dest size | newUser user | changePass pass =>
      obtain ⟨inner, -, same⟩ := runs_map.mp runs
      cases inner with
      | error e => cases same
      | ok after =>
          cases same
          rfl
  | login username password => exact absurd rfl login
  | logout => exact absurd rfl logout
  | int i | double d | string str | close | other kind =>
      exact (runs_sessionless runs trivial).2 worker' err' rfl

/-- What a login leaves and replies. -/
theorem login_of_runs (kind : request.kind = ascii "command.login") (out : worker.user = none)
    (answers : identifiesAs record trace)
    (runs : Runs (serverResponder t worker request err) trace (.ok (worker', err'))) :
    trace.filterMap replyObject = [] ∨
      (record = none ∧ worker'.user = none ∧ trace.filterMap replyObject =
        [stringifyData (blockString (ascii "Login failed")) 12]) ∨
      (record ≠ none ∧ worker'.user ≠ none ∧ trace.filterMap replyObject =
        [stringifyData (blockString (ascii "Logged in successfully")) 22]) := by
  cases request with
  | login username password =>
      obtain ⟨inner, ran, same⟩ := runs_map.mp runs
      rcases runs_processLoginCmd ran with ⟨current, logged, -, -⟩ |
        ⟨-, ⟨rfl, rfl⟩ | ⟨session, rfl, rfl⟩⟩
      · rw [out] at logged
        cases logged
      · cases same
        have nothing : none = record := answers _ List.mem_cons_self none rfl
        exact .inr (.inl ⟨nothing.symm, rfl, rfl⟩)
      · cases same
        have found : some session = record := answers _ List.mem_cons_self (some session) rfl
        exact .inr (.inr ⟨by rw [← found]; simp, by simp, rfl⟩)
  | other kind =>
      obtain ⟨rfl, -⟩ := runs_pure.mp runs
      exact .inl rfl
  | int | double | string | get | post | logout | close | newUser | changePass =>
      simp [Request.kind, ascii] at kind

/-- A logout leaves nobody, if it replies. -/
theorem logout_of_runs (kind : request.kind = ascii "command.logout")
    (runs : Runs (serverResponder t worker request err) trace (.ok (worker', err'))) :
    trace.filterMap replyObject = [] ∨ worker'.user = none := by
  cases request with
  | logout =>
      right
      obtain ⟨user, closed⟩ := worker
      cases user with
      | none =>
          obtain ⟨-, same⟩ := refused_of_notLogged rfl runs trivial
          cases same
          rfl
      | some session =>
          obtain ⟨inner, ran, same⟩ := runs_map.mp runs
          obtain ⟨-, rfl⟩ := runs_processLogoutCmd ran
          cases same
          rfl
  | other kind =>
      obtain ⟨rfl, -⟩ := runs_pure.mp runs
      exact .inl rfl
  | int | double | string | get | post | login | close | newUser | changePass =>
      simp [Request.kind, ascii] at kind

/-- A close is not replied to. -/
theorem close_of_runs (kind : request.kind = ascii "command.close")
    (runs : Runs (serverResponder t worker request err) trace (.ok (worker', err'))) :
    trace.filterMap replyObject = [] := by
  cases request with
  | close | other =>
      obtain ⟨rfl, -⟩ := runs_pure.mp runs
      rfl
  | int | double | string | get | post | login | logout | newUser | changePass =>
      simp [Request.kind, ascii] at kind

end Served

/-! ## One command -/

section Commands

variable {t : Transport} {json : JsonC} {c : Completed} {s s' : Session} {object : JsonObject}

/-- A program leaves both ends agreeing and the channel quiet, whatever happens in the course of
the command. -/
abbrev LeavesAgree {α : Type} (t : Transport) (json : JsonC) (c : Completed) (p : Client α)
    (s : Session) : Prop :=
  p.Meets (fun s event s' => event ∈ c.trace ∧
      Session.happens t json c.record c.twice c.fresh s event s')
    (fun _ {_} _ => True) (fun _ s => s.Settled) s

theorem agree_of_serves {kind : Bytes} (accessors : json.Reads) (reads : json.ReadsBack object)
    (isKind : kindOf object = some kind) (login : kind ≠ ascii "command.login")
    (logout : kind ≠ ascii "command.logout") (agree : s.Agree)
    (serves : Serves t json c.record c.twice s object s') : s'.Agree := by
  cases serves with
  | refused => exact agree
  | handled _ _ delivered runs _ _ =>
      have same := delivered.kind accessors reads isKind
      have user := user_eq_of_kind (same ▸ login) (same ▸ logout) runs
      unfold Session.Agree
      rw [user]
      exact agree

/-- Behind the one reply to a request there is no other. -/
theorem quiet_of_serves {answer : JsonObject} {others : List JsonObject} (quiet : s.Quiet)
    (single : c.twice = false) (serves : Serves t json c.record c.twice s object s')
    (pending : s'.pending = answer :: others) : Session.Quiet { s' with pending := others } := by
  cases serves with
  | refused => exact nofun
  | handled serving _ _ runs _ once =>
      intro _
      have one := length_replies_le_one runs (once single)
      simp only [quiet serving, List.nil_append] at pending
      rw [pending, List.length_cons] at one
      have none : others.length = 0 := by omega
      exact List.eq_nil_of_length_eq_zero none

/-- A command that sends and waits is given what the reply was parsed to. -/
theorem leavesAgree_exchange {next : Except Int ParseResult → Client Int}
    (rest : ∀ s' answer others presult, c.Sends object →
      Serves t json c.record c.twice s object s' →
      s'.pending = answer :: others → Delivered t json answer c.fresh presult →
      LeavesAgree t json c (next (.ok presult)) { s' with pending := others }) :
    LeavesAgree t json c (exchange t object >>= next) s := by
  rw [exchange_bind]
  refine ⟨trivial, ?_⟩
  intro _ s' given
  obtain ⟨sends, -, serves⟩ := given
  refine ⟨trivial, ?_⟩
  rintro ⟨err, presult⟩ _ ⟨-, noError, answer, others, pending, delivered, rfl⟩
  have fine : err.code = 0 := noError
  simp only [fine, ne_eq, not_true_eq_false, if_false]
  exact rest s' answer others presult sends serves pending delivered

variable {command : ClientCommand} (accessors : json.Reads)
  (requests : ∀ object, c.Sends object → json.ReadsBack object) (agree : s.Agree)
  (quiet : s.Quiet) (careful : Careful s c)

include accessors requests agree quiet careful

theorem leavesAgree_runShown {kind : Bytes} (fits : command.Fits s.client kind)
    (shown : kind ∈ shownKinds) : LeavesAgree t json c (runShown t command) s := by
  cases command with
  | returns code => exact ⟨agree, quiet⟩
  | sends object =>
      refine leavesAgree_exchange fun s' answer others presult sends serves pending _ => ?_
      have after : s'.Agree := agree_of_serves accessors (requests object sends) fits.2
        (ne_of_mem_of_not_mem shown (by decide)) (ne_of_mem_of_not_mem shown (by decide)) agree
        serves
      exact ⟨after, quiet_of_serves quiet careful.single serves pending⟩

theorem leavesAgree_runPost {argv : List CString} :
    LeavesAgree t json c (runPost t s.client argv) s := by
  have plain {argv : List CString} : LeavesAgree t json c
      (runShown t (cmdPost s.client.isOpen s.client.logged argv (.ok []))) s :=
    leavesAgree_runShown accessors requests agree quiet careful (fits_cmdPost nofun) (by decide)
  unfold runPost
  split
  · split_ifs
    · refine ⟨trivial, ?_⟩
      intro file s' given
      obtain ⟨-, possible, rfl⟩ := given
      refine leavesAgree_runShown accessors requests agree quiet careful (fits_cmdPost ?_) (by decide)
      intro errno same
      subst same
      exact errno_ne_commandCloseOk possible
    · exact plain
  · exact plain

omit careful in
theorem leavesAgree_runClose (fits : command.Fits s.client (ascii "command.close")) :
    LeavesAgree t json c (runClose t command) s := by
  rcases command with code | object
  · exact ⟨agree, quiet⟩
  · refine ⟨trivial, ?_⟩
    intro _ s' given
    obtain ⟨sends, -, serves⟩ := given
    have after : s'.Agree := agree_of_serves accessors (requests object sends) fits.2 (by decide)
      (by decide) agree serves
    have silent : s'.Quiet := by
      cases serves with
      | refused => exact nofun
      | handled serving _ received runs _ _ =>
          intro _
          have kind := received.kind accessors (requests object sends) fits.2
          simp only [quiet serving, close_of_runs kind runs, List.append_nil]
    cases t <;> exact ⟨after, silent⟩

/-- A login that finds room leaves both ends logged in, or neither. -/
theorem leavesAgree_runLogin (fits : command.Fits s.client (ascii "command.login"))
    (replies : ∀ object ∈ loginReplies, json.ReadsBack object) :
    LeavesAgree t json c (runLogin t command) s := by
  rcases command with code | object
  · exact ⟨agree, quiet⟩
  · refine leavesAgree_exchange fun s' answer others presult sends serves pending delivered => ?_
    have notLogged : s.client.logged = false :=
      fits.1.notLogged ⟨ascii "command.login", by decide, fits.2⟩
    have out : s.worker.user = none := by
      by_contra user
      exact absurd (notLogged.symm.trans (agree.mpr user)) (by decide)
    have silent := quiet_of_serves quiet careful.single serves pending
    cases serves with
    | refused _ full => exact absurd full (careful.room object sends (.inl fits.2))
    | @handled numThreads fresh request err err' trace worker serving _ received runs answers _ =>
        have kind := received.kind accessors (requests object sends) fits.2
        simp only [quiet serving, List.nil_append] at pending
        rcases login_of_runs kind out answers runs with none | ⟨nothing, user, replied⟩ |
          ⟨-, user, replied⟩
        · rw [none] at pending
          cases pending
        · -- the reply is compared with the text it holds, if a zero ends it
          have zero : c.fresh = 0 :=
            (careful.ended object sends fits.2).resolve_left (not_not.mpr nothing)
          rw [replied] at pending
          obtain ⟨rfl, rfl⟩ := List.cons.inj pending
          have reads := replies _ List.mem_cons_self
          have parsed := (parseEncoded_data accessors reads).symm.trans (delivered.parses reads)
          rw [Except.ok.injEq] at parsed
          subst parsed
          have said : saysLoginFailed (.data ((blockString (ascii "Login failed")).bytes ++
              [c.fresh])) = .ok true := by
            rw [zero]
            rfl
          simp only [said]
          exact ⟨iff_of_false (Bool.eq_false_iff.mp notLogged) (not_not.mpr user), silent⟩
        · rw [replied] at pending
          obtain ⟨rfl, rfl⟩ := List.cons.inj pending
          have reads := replies _ (List.mem_cons_of_mem _ List.mem_cons_self)
          have parsed := (parseEncoded_data accessors reads).symm.trans (delivered.parses reads)
          rw [Except.ok.injEq] at parsed
          subst parsed
          refine ⟨trivial, ?_⟩
          intro _ s'' given
          obtain ⟨-, -, rfl⟩ := given
          exact ⟨iff_of_true rfl user, silent⟩

theorem leavesAgree_runLogout (fits : command.Fits s.client (ascii "command.logout")) :
    LeavesAgree t json c (runLogout t command) s := by
  rcases command with code | object
  · exact ⟨agree, quiet⟩
  · refine leavesAgree_exchange fun s' answer others presult sends serves pending delivered => ?_
    have silent := quiet_of_serves quiet careful.single serves pending
    have out : s'.worker.user = none := by
      cases serves with
      | refused _ full => exact absurd full (careful.room object sends (.inr fits.2))
      | handled serving _ received runs _ _ =>
          have kind := received.kind accessors (requests object sends) fits.2
          simp only [quiet serving, List.nil_append] at pending
          rcases logout_of_runs kind runs with none | user
          · rw [none] at pending
            cases pending
          · exact user
    refine ⟨trivial, ?_⟩
    intro _ s'' given
    obtain ⟨-, -, rfl⟩ := given
    exact ⟨iff_of_false Bool.false_ne_true (not_not.mpr out), silent⟩

/-- Any line. -/
theorem leavesAgree_cmdParse {atof : CString → Float}
    (replies : ∀ object ∈ loginReplies, json.ReadsBack object) (cmd : CString) :
    LeavesAgree t json c (cmdParse t atof s.client cmd) s := by
  have settled : s.Settled := ⟨agree, quiet⟩
  refine cmdParse_cases (p := fun command => LeavesAgree t json c command s) settled settled ?_ cmd
  intro name run entry argv
  refine commands_cases (p := fun command => LeavesAgree t json c command s)
    ?_ ?_ ?_ ?_ ?_ ?_ ?_ ?_ entry argv
  · exact fun code _ => settled
  · intro argv
    unfold cmdOpen
    split_ifs
    · exact settled
    · exact settled
    · split
      · split_ifs
        · exact settled
        · exact ⟨trivial, fun _ _ happens => happens.2.2.elim⟩
      · exact settled
  · exact fun command kind shown fits =>
      leavesAgree_runShown accessors requests agree quiet careful fits shown
  · exact fun argv => leavesAgree_runPost accessors requests agree quiet careful
  · intro argv
    rcases cmdGet s.client.isOpen s.client.logged argv with code | object
    · exact settled
    · exact ⟨trivial, fun _ _ happens => happens.2.2.elim⟩
  · exact fun argv => leavesAgree_runLogin accessors requests agree quiet careful fits_cmdLogin replies
  · exact fun argv => leavesAgree_runLogout accessors requests agree quiet careful fits_cmdLogout
  · exact fun argv => leavesAgree_runClose accessors requests agree quiet fits_cmdClose

end Commands

/-! ## Whole runs -/

/-- From a client that is not logged in and a worker without a user, whatever the memory
behind copied replies holds: if every request is handled by one process, every login and logout
finds room for its thread, and every login that finds no record a zero behind its reply, both
ends agree after each command. -/
theorem agree_of_run {t : Transport} {json : JsonC} {atof : CString → Float}
    {minThreads maxThreads : Nat} {commands : List Completed} {s : Session} (accessors : json.Reads)
    (replies : ∀ object ∈ loginReplies, json.ReadsBack object)
    (requests : ∀ c ∈ commands, ∀ object, c.Sends object → json.ReadsBack object)
    (run : Run (completes t json atof) Careful (.start minThreads maxThreads) commands s) :
    s.Agree := by
  have start : (Session.start minThreads maxThreads).Settled :=
    ⟨iff_of_false Bool.false_ne_true (not_not.mpr rfl), fun _ => rfl⟩
  suffices settled : s.Settled from settled.agree
  refine (run.of_labels requests).invariant start ?_
  rintro s s' c ⟨agree, quiet⟩ ⟨careful, requests⟩ ⟨-, runs, through⟩
  have leaves : LeavesAgree t json c (shellTurn t atof s.client c.line) s := by
    refine Meets.bind
      ((leavesAgree_cmdParse accessors requests agree quiet careful replies c.line).mono ?_)
    rintro (e | err) s' settled
    · exact settled
    · change Meets _ _ _ (ite _ _ _) s'
      split_ifs
      · refine ⟨trivial, ?_⟩
        intro _ _ given
        obtain ⟨-, -, rfl⟩ := given
        exact ⟨settled.agree, settled.quiet⟩
      · exact settled
      · exact settled
  exact (leaves.of_runs runs through.mem).2

/-! ## One login -/

/-- `login u p`. -/
def loginUP : Message := .login ⟨ascii "u", by decide⟩ ⟨ascii "p", nulFree_p⟩

def loginFailed : Message := .data (blockString (ascii "Login failed")) 12

def loggedIn : Message := .data (blockString (ascii "Logged in successfully")) 22

def jsonLogin : JsonC := plainJson [loginUP.stringify, loginFailed.stringify, loggedIn.stringify]

/-- It is answered so, the client takes that for a login, and the memory holds this byte. -/
def loginDone (answer : Message) (record : Option FsUser) (fresh : Byte) : Completed :=
  ⟨⟨ascii "login u p", by decide⟩, [⟨.send loginUP.stringify, ()⟩,
    ⟨.receive, (⟨0, []⟩, answer.parsed fresh)⟩, ⟨.setLogged true, ()⟩], record, false, fresh⟩

theorem delivered_message {json : JsonC} {t : Transport} {message : Message} (boundary : Boundary)
    {fresh : Byte} (accessors : json.Reads) (exact : message.Exact)
    (reads : json.ReadsBack message.stringify)
    (deliverable : Frame.Deliverable t ⟨boundary, json.print message.stringify⟩) :
    Delivered t json message.stringify fresh (message.parsed fresh) := by
  have finished := deliverable.run_reader .commSendData .commReceiveData none []
  rw [List.append_nil] at finished
  exact ⟨boundary, _, _, finished, parseEncoded_stringify accessors exact reads⟩

theorem readsBack_loginUP : jsonLogin.ReadsBack loginUP.stringify :=
  readsBack_plainJson rfl (by decide +kernel) (by decide +kernel)

theorem readsBack_loginReplies : ∀ object ∈ loginReplies, jsonLogin.ReadsBack object := by
  intro object member
  simp only [loginReplies, List.mem_cons, List.not_mem_nil, or_false] at member
  rcases member with rfl | rfl
  · exact readsBack_plainJson rfl (by decide +kernel) (by decide +kernel)
  · exact readsBack_plainJson rfl (by decide +kernel) (by decide +kernel)

theorem delivered_loginUP (fresh : Byte) :
    Delivered .fifo jsonLogin loginUP.stringify fresh (loginUP.parsed fresh) :=
  delivered_message (genBoundary 6) (reads_plainJson _) (show loginUP.Exact from trivial)
    readsBack_loginUP ⟨by decide, by decide, by decide, by decide⟩

/-- The worker's answer reaches a client that takes it for a login. -/
theorem completes_login (trace : List ServerEvent) {answer : Message} {record : Option FsUser}
    {fresh : Byte} {worker : Worker} {err' : CommError}
    (served : Runs (serverResponder .fifo .start (loginUP.parsed 0).toRequest ⟨0, []⟩) trace
      (.ok (worker, err'))) (answers : identifiesAs record trace) (single : OneProcess trace)
    (replied : trace.filterMap replyObject = [answer.stringify])
    (delivered : Delivered .fifo jsonLogin answer.stringify fresh (answer.parsed fresh))
    (runs : Runs (shellTurn .fifo (fun _ => 0) ⟨false, .opened⟩ (loginDone answer record fresh).line)
      (loginDone answer record fresh).trace (.ok ())) :
    completes .fifo jsonLogin (fun _ => 0) (.start 5 10) (loginDone answer record fresh)
      ⟨⟨true, .opened⟩, worker, 1, 5, 10, true, []⟩ := by
  have serves : Serves .fifo jsonLogin record false (.start 5 10) loginUP.stringify
      ⟨⟨false, .opened⟩, worker, 1, 5, 10, true, [answer.stringify]⟩ := by
    have handled : Serves .fifo jsonLogin record false (.start 5 10) loginUP.stringify _ :=
      .handled rfl rfl (delivered_loginUP 0) served answers fun _ => single
    rw [replied] at handled
    exact handled
  exact ⟨by decide, runs, _, ⟨trivial, serves⟩, _, ⟨rfl, _, _, rfl, delivered, rfl⟩, _,
    ⟨trivial, rfl⟩, rfl⟩

theorem eq_of_sends_loginDone {answer : Message} {record : Option FsUser} {fresh : Byte}
    {object : JsonObject} (sends : (loginDone answer record fresh).Sends object) :
    object = loginUP.stringify := by
  have sent := List.mem_filterMap.mpr ⟨_, sends, (rfl : sentObject _ = some object)⟩
  exact List.mem_singleton.mp sent

/-- The calls of the handler. -/
def identifies (record : Option FsUser) (answer : Bytes) (size : Nat) : List ServerEvent :=
  [⟨.userIdentificationInDb ⟨ascii "u", by decide⟩ ⟨ascii "p", by decide⟩, record⟩,
    reply answer size]

theorem oneProcess_identifies (record : Option FsUser) (answer : Bytes) (size : Nat) :
    OneProcess (identifies record answer size) := by
  simp [OneProcess, identifies, goesOnTwice, reply]

theorem identifiesAs_identifies (record : Option FsUser) (answer : Bytes) (size : Nat) :
    identifiesAs record (identifies record answer size) := by
  intro event member found identified
  rcases List.mem_cons.mp member with rfl | later
  · cases identified
    rfl
  · rw [List.mem_singleton.mp later] at identified
    cases identified

/-- A login with a record, whatever the memory holds. -/
theorem agree_of_run_login :
    Session.Agree ⟨⟨true, .opened⟩, ⟨some ann, false⟩, 1, 5, 10, true, []⟩ := by
  have delivered : Delivered .fifo jsonLogin loggedIn.stringify 1 (loggedIn.parsed 1) :=
    delivered_message (genBoundary 6) (reads_plainJson _)
      (show loggedIn.Exact from trivial) (readsBack_loginReplies _ (.tail _ (.head _)))
      ⟨by decide, by decide, by decide, by decide⟩
  have completed : completes .fifo jsonLogin (fun _ => 0) (.start 5 10)
      (loginDone loggedIn (some ann) 1) ⟨⟨true, .opened⟩, ⟨some ann, false⟩, 1, 5, 10, true, []⟩ :=
    completes_login (identifies (some ann) (ascii "Logged in successfully") 22)
      (.call (.call (.ret _))) (identifiesAs_identifies _ _ _) (oneProcess_identifies _ _ _) rfl
      delivered (.call (.call (.call (.ret _))))
  have careful : Careful (.start 5 10) (loginDone loggedIn (some ann) 1) :=
    ⟨rfl, fun _ _ _ => by decide, fun _ _ _ => .inl (by simp [loginDone])⟩
  refine agree_of_run (reads_plainJson _) readsBack_loginReplies ?_ (.one careful completed)
  intro c member object sends
  rw [List.mem_singleton.mp member] at sends
  rw [eq_of_sends_loginDone sends]
  exact readsBack_loginUP

/-- A login that fails, with another byte than zero behind the copied reply. -/
theorem login_failed_disagrees :
    completes .fifo jsonLogin (fun _ => 0) (.start 5 10) (loginDone loginFailed none 1)
        ⟨⟨true, .opened⟩, ⟨none, false⟩, 1, 5, 10, true, []⟩ ∧
      ¬ Session.Agree ⟨⟨true, .opened⟩, ⟨none, false⟩, 1, 5, 10, true, []⟩ := by
  have delivered : Delivered .fifo jsonLogin loginFailed.stringify 1 (loginFailed.parsed 1) :=
    delivered_message (genBoundary 6) (reads_plainJson _)
      (show loginFailed.Exact from trivial) (readsBack_loginReplies _ (.head _))
      ⟨by decide, by decide, by decide, by decide⟩
  refine ⟨completes_login (identifies none (ascii "Login failed") 12) (.call (.call (.ret _)))
    (identifiesAs_identifies _ _ _) (oneProcess_identifies _ _ _) rfl delivered
    (.call (.call (.call (.ret _)))), fun agree => ?_⟩
  exact absurd rfl (agree.mp rfl)

end IpcFtp
