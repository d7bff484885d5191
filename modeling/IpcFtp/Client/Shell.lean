import IpcFtp.Client.Commands
import IpcFtp.Lib.Contract
import IpcFtp.Lib.Guarded

/-!
# The command loop

`main` of `client/main.c` around `cmd_parse`: a line is read, its command runs, and after a
`close` the connection is closed, until the connection is closed.  Replies, files and the
outcome of `connection_open` are the environment's.

Every command tests the connection's state and `logged` by hand.  `client_follows_protocol`
says what these tests come to over a whole run.
-/

namespace IpcFtp

open Lib Program

/-! ## What may be written -/

/-- The kind of a message. -/
def kindOf (object : JsonObject) : Option Bytes :=
  match object.lookup (ascii "kind") with
  | some (.string kind) => some kind.bytes
  | _ => none

/-- The kinds that are only sent by a client that is logged in. -/
def loggedKinds : List Bytes :=
  [ascii "command.get", ascii "command.post", ascii "command.logout", ascii "command.new_user",
    ascii "command.change_pass"]

/-- The kinds that are only sent by a client that is not. -/
def notLoggedKinds : List Bytes := [ascii "command.login", ascii "command.close"]

/-- The connection is open, and the client logged in or not as the kind asks. -/
structure MayWrite (s : ClientState) (object : JsonObject) : Prop where
  isOpen : s.connection = .opened
  logged : (∃ kind ∈ loggedKinds, kindOf object = some kind) → s.logged = true
  notLogged : (∃ kind ∈ notLoggedKinds, kindOf object = some kind) → s.logged = false

/-- Who is logged in has an open connection. -/
def ClientState.Safe (s : ClientState) : Prop := s.logged = true → s.connection = .opened

/-! ## The environment of a command -/

/-- The globals, and whether a `close` has been written. -/
structure Shell : Type where
  client : ClientState
  closing : Bool
  deriving DecidableEq

def isClose (object : JsonObject) : Bool := kindOf object = some (ascii "command.close")

/-- What a call does to them. -/
def Shell.after (s : Shell) : ClientEvent → Shell
  | ⟨.connectionOpen _, (_, state)⟩ => { s with client := { s.client with connection := state } }
  | ⟨.connectionClose, _⟩ => { s with client := { s.client with connection := .closed } }
  | ⟨.setLogged logged, _⟩ => { s with client := { s.client with logged := logged } }
  | ⟨.send object, _⟩ => { s with closing := s.closing || isClose object }
  | ⟨.sendAsync object, _⟩ => { s with closing := s.closing || isClose object }
  | _ => s

/-- The answers there can be.  `connection_open` of the FIFO build closes the connection
before it tries, that of the socket build leaves it when it fails.  A receive that ends
reports no error, and the `errno` of a failed read is its own or one of the system's. -/
def Shell.possible (t : Transport) (s : Shell) : ClientEvent → Prop
  | ⟨.connectionOpen _, (code, state)⟩ =>
    (code = 0 ∧ state = .opened) ∨
      (code ≠ 0 ∧ state = match t with
        | .fifo => .closed
        | .socket => s.client.connection)
  | ⟨.receive, (err, _)⟩ => err.code = noCommError
  | ⟨.rawDataFromFile _, .error errno⟩ => errno = errFileNotOpened ∨ (0 ≤ errno ∧ errno < 4096)
  | _ => True

def Shell.happens (t : Transport) (s : Shell) (event : ClientEvent) (s' : Shell) : Prop :=
  s.possible t event ∧ s' = s.after event

/-- What a client may do where it stands: nothing is written behind a `close`, and while
`connection_open` has the state at closed nobody is logged in. -/
def Shell.allowed (s : Shell) {β : Type} (call : ClientCall β) : Prop :=
  s.client.Safe ∧
    match call with
    | .send object | .sendAsync object => MayWrite s.client object ∧ s.closing = false
    | .connectionOpen _ => s.client.logged = false
    | _ => True

/-! ## The loop -/

/-- One line: the command, and behind a `close` the end of the connection. -/
def shellTurn (t : Transport) (atof : CString → Float) (s : ClientState) (line : CString) :
    Client Unit := do
  let err ← cmdParse t atof s line
  if err ≠ commandOk then
    if err = commandCloseOk then perform .connectionClose

/-- A line that was typed, and what its command did. -/
structure Turn : Type 1 where
  line : CString
  trace : List ClientEvent

/-- The loop takes a line as long as the connection is not closed. -/
def takesTurn (t : Transport) (atof : CString → Float) (s : Shell) (turn : Turn) (s' : Shell) :
    Prop :=
  s.client.connection ≠ .closed ∧ Runs (shellTurn t atof s.client turn.line) turn.trace (.ok ()) ∧
    Through (Shell.happens t) s turn.trace s'

/-- What holds between two lines: behind a `close` there is no further line. -/
structure Shell.Ordered (s : Shell) : Prop where
  safe : s.client.Safe
  ends : s.closing = true → s.client.connection = .closed

/-! ## Each command up to its send -/

/-- A command that ends at once does not end like a `close`; one that sends may, and sends a
message of its kind. -/
def ClientCommand.Fits (s : ClientState) (kind : Bytes) : ClientCommand → Prop
  | .returns code => code ≠ commandCloseOk
  | .sends object => MayWrite s object ∧ kindOf object = some kind

/-- The kinds of the commands whose reply is only shown. -/
def shownKinds : List Bytes :=
  [ascii "int", ascii "double", ascii "string", ascii "command.post", ascii "command.new_user",
    ascii "command.change_pass"]

section Fits

variable {s : ClientState} {argv : List CString}

theorem connection_of_isOpen (isOpen : s.isOpen = true) : s.connection = .opened := by
  simpa [ClientState.isOpen] using isOpen

/-- A message of another kind asks for nothing. -/
theorem not_exists_kind {object : JsonObject} {kind : Bytes} {kinds : List Bytes}
    (isKind : kindOf object = some kind) (other : kind ∉ kinds) :
    ¬ ∃ kind ∈ kinds, kindOf object = some kind := by
  intro given
  obtain ⟨_, member, same⟩ := given
  exact other (Option.some.inj (isKind.symm.trans same) ▸ member)

theorem mayWrite_of_plain {object : JsonObject} {kind : Bytes} (isOpen : s.isOpen = true)
    (isKind : kindOf object = some kind) (other : kind ∉ loggedKinds)
    (other' : kind ∉ notLoggedKinds) : MayWrite s object :=
  ⟨connection_of_isOpen isOpen, fun asks => absurd asks (not_exists_kind isKind other),
    fun asks => absurd asks (not_exists_kind isKind other')⟩

theorem mayWrite_of_logged {object : JsonObject} {kind : Bytes} (isOpen : s.isOpen = true)
    (logged : s.logged = true) (isKind : kindOf object = some kind)
    (other : kind ∉ notLoggedKinds) : MayWrite s object :=
  ⟨connection_of_isOpen isOpen, fun _ => logged,
    fun asks => absurd asks (not_exists_kind isKind other)⟩

theorem mayWrite_of_notLogged {object : JsonObject} {kind : Bytes} (isOpen : s.isOpen = true)
    (out : ¬ s.logged = true) (isKind : kindOf object = some kind)
    (other : kind ∉ loggedKinds) : MayWrite s object :=
  ⟨connection_of_isOpen isOpen, fun asks => absurd asks (not_exists_kind isKind other),
    fun _ => Bool.eq_false_iff.mpr out⟩

theorem fits_cmdSend {make : CString → JsonObject} {kind : Bytes}
    (isKind : ∀ arg, kindOf (make arg) = some kind) (other : kind ∉ loggedKinds)
    (other' : kind ∉ notLoggedKinds) : (cmdSend make s.isOpen argv).Fits s kind := by
  unfold cmdSend
  split_ifs with help isOpen
  · exact (by decide : commandOk ≠ commandCloseOk)
  · split
    · exact ⟨mayWrite_of_plain isOpen (isKind _) other other', isKind _⟩
    · exact (by decide : errWrongArgumentsCount ≠ commandCloseOk)
  · exact (by decide : errConnectionNotOpen ≠ commandCloseOk)

theorem fits_cmdGet :
    (cmdGet s.isOpen s.logged argv).Fits s (ascii "command.get") := by
  unfold cmdGet
  split_ifs with help isOpen logged
  · exact (by decide : commandOk ≠ commandCloseOk)
  · split
    · exact ⟨mayWrite_of_logged isOpen logged rfl (by decide), rfl⟩
    · exact (by decide : errWrongArgumentsCount ≠ commandCloseOk)
  · exact (by decide : errConnectionNotLogged ≠ commandCloseOk)
  · exact (by decide : errConnectionNotOpen ≠ commandCloseOk)

theorem fits_cmdPost {file : Except Int Bytes}
    (errno : ∀ e, file = .error e → e ≠ commandCloseOk) :
    (cmdPost s.isOpen s.logged argv file).Fits s (ascii "command.post") := by
  unfold cmdPost
  split_ifs with help isOpen logged
  · exact (by decide : commandOk ≠ commandCloseOk)
  · split
    · exact ⟨mayWrite_of_logged isOpen logged rfl (by decide), rfl⟩
    · exact errno _ rfl
    · exact (by decide : errWrongArgumentsCount ≠ commandCloseOk)
  · exact (by decide : errConnectionNotLogged ≠ commandCloseOk)
  · exact (by decide : errConnectionNotOpen ≠ commandCloseOk)

theorem fits_cmdLogin :
    (cmdLogin s.isOpen s.logged argv).Fits s (ascii "command.login") := by
  unfold cmdLogin
  split_ifs with help isOpen logged
  · exact (by decide : commandOk ≠ commandCloseOk)
  · split
    · exact (by decide : errAlreadyDone ≠ commandCloseOk)
    · exact (by decide : errWrongArgumentsCount ≠ commandCloseOk)
  · split
    · exact ⟨mayWrite_of_notLogged isOpen logged rfl (by decide), rfl⟩
    · exact (by decide : errWrongArgumentsCount ≠ commandCloseOk)
  · exact (by decide : errConnectionNotOpen ≠ commandCloseOk)

theorem fits_cmdLogout :
    (cmdLogout s.isOpen s.logged argv).Fits s (ascii "command.logout") := by
  unfold cmdLogout
  split_ifs with help isOpen logged
  · exact (by decide : commandOk ≠ commandCloseOk)
  · split
    · exact ⟨mayWrite_of_logged isOpen logged rfl (by decide), rfl⟩
    · exact (by decide : errWrongArgumentsCount ≠ commandCloseOk)
  · exact (by decide : errConnectionNotLogged ≠ commandCloseOk)
  · exact (by decide : errConnectionNotOpen ≠ commandCloseOk)

theorem fits_cmdNewUser :
    (cmdNewUser s.isOpen s.logged argv).Fits s (ascii "command.new_user") := by
  unfold cmdNewUser
  split_ifs with help isOpen logged
  · exact (by decide : commandOk ≠ commandCloseOk)
  · split
    · dsimp only
      split
      · exact ⟨mayWrite_of_logged isOpen logged rfl (by decide), rfl⟩
      · exact (by decide : errMisuseArgument ≠ commandCloseOk)
    · dsimp only
      split
      · exact ⟨mayWrite_of_logged isOpen logged rfl (by decide), rfl⟩
      · exact (by decide : errMisuseArgument ≠ commandCloseOk)
    · exact (by decide : errWrongArgumentsCount ≠ commandCloseOk)
  · exact (by decide : errConnectionNotLogged ≠ commandCloseOk)
  · exact (by decide : errConnectionNotOpen ≠ commandCloseOk)

theorem fits_cmdChangePass :
    (cmdChangePass s.isOpen s.logged argv).Fits s (ascii "command.change_pass") := by
  unfold cmdChangePass
  split_ifs with help isOpen logged
  · exact (by decide : commandOk ≠ commandCloseOk)
  · split
    · exact ⟨mayWrite_of_logged isOpen logged rfl (by decide), rfl⟩
    · exact (by decide : errWrongArgumentsCount ≠ commandCloseOk)
  · exact (by decide : errConnectionNotLogged ≠ commandCloseOk)
  · exact (by decide : errConnectionNotOpen ≠ commandCloseOk)

theorem fits_cmdClose :
    (cmdClose s.isOpen s.logged argv).Fits s (ascii "command.close") := by
  unfold cmdClose
  split_ifs with help isOpen logged
  · exact (by decide : commandOk ≠ commandCloseOk)
  · exact (by decide : errAlreadyDone ≠ commandCloseOk)
  · split
    · exact ⟨mayWrite_of_notLogged isOpen logged rfl (by decide), rfl⟩
    · exact (by decide : errWrongArgumentsCount ≠ commandCloseOk)
  · exact (by decide : errConnectionNotOpen ≠ commandCloseOk)

end Fits

section Cases

variable {t : Transport} {atof : CString → Float} {s : ClientState} {p : Client Int → Prop}

/-- A command of the table is of one of these forms.  Whatever is asked of the client can be
shown of each form by itself. -/
theorem commands_cases
    (returns : ∀ code, code ≠ commandCloseOk → p (.ret code))
    (opens : ∀ argv, p (cmdOpen t s argv))
    (shown : ∀ command kind, kind ∈ shownKinds → command.Fits s kind → p (runShown t command))
    (posts : ∀ argv, p (runPost t s argv))
    (gets : ∀ argv, p (runGet (cmdGet s.isOpen s.logged argv)))
    (logsIn : ∀ argv, p (runLogin t (cmdLogin s.isOpen s.logged argv)))
    (logsOut : ∀ argv, p (runLogout t (cmdLogout s.isOpen s.logged argv)))
    (closes : ∀ argv, p (runClose t (cmdClose s.isOpen s.logged argv))) {name : Bytes}
    {run : ClientState → List CString → Client Int} (entry : (name, run) ∈ commands t atof)
    (argv : List CString) : p (run s argv) := by
  simp only [commands, List.mem_cons, List.not_mem_nil, or_false, Prod.mk.injEq] at entry
  rcases entry with ⟨-, rfl⟩ | ⟨-, rfl⟩ | ⟨-, rfl⟩ | ⟨-, rfl⟩ | ⟨-, rfl⟩ | ⟨-, rfl⟩ | ⟨-, rfl⟩ |
    ⟨-, rfl⟩ | ⟨-, rfl⟩ | ⟨-, rfl⟩ | ⟨-, rfl⟩ | ⟨-, rfl⟩ | ⟨-, rfl⟩
  · exact opens _
  · exact closes _
  · exact shown _ (ascii "int") (by decide)
      (fits_cmdSend (fun _ => rfl) (by decide) (by decide))
  · exact shown _ (ascii "double") (by decide)
      (fits_cmdSend (fun _ => rfl) (by decide) (by decide))
  · exact shown _ (ascii "string") (by decide)
      (fits_cmdSend (fun _ => rfl) (by decide) (by decide))
  · apply returns
    unfold cmdHelp
    split_ifs <;> decide
  · exact gets _
  · exact posts _
  · exact logsIn _
  · exact logsOut _
  · exact returns commandOk (by decide)
  · exact shown _ (ascii "command.new_user") (by decide) fits_cmdNewUser
  · exact shown _ (ascii "command.change_pass") (by decide) fits_cmdChangePass

/-- A vector that is not null is looked up in the table. -/
theorem cmdParse_named {cmd : CString} (vector : splitArguments cmd.bytes ≠ none) :
    (∃ name run argv, (name, run) ∈ commands t atof ∧ cmdParse t atof s cmd = run s argv) ∨
      cmdParse t atof s cmd = .ret errCommandNotFound := by
  obtain ⟨comms, made⟩ := Option.ne_none_iff_exists'.mp vector
  unfold cmdParse
  rw [made]
  dsimp only
  split
  · rename_i run found
    obtain ⟨front, back, entry, -⟩ := List.lookup_eq_some_iff.mp found
    exact .inl ⟨comms.headD [], run, _, entry ▸ by simp, rfl⟩
  · exact .inr rfl

/-- A line runs a command of the table, or it ends at once. -/
theorem cmdParse_cases (crashes : p (.fault .nullPointer)) (unknown : p (.ret errCommandNotFound))
    (runs : ∀ name run, (name, run) ∈ commands t atof → ∀ argv, p (run s argv)) (cmd : CString) :
    p (cmdParse t atof s cmd) := by
  by_cases null : splitArguments cmd.bytes = none
  · unfold cmdParse
    rw [null]
    exact crashes
  · rcases cmdParse_named null with ⟨name, run, argv, entry, same⟩ | same
    · exact same ▸ runs name run entry argv
    · exact same ▸ unknown

end Cases

/-! ## Each command as a whole -/

/-- How a command ends: with the code of a `close` exactly behind one. -/
def CommandEnds (result : Except Fault Int) (s : Shell) : Prop :=
  s.client.Safe ∧ (s.closing = true → s.client.logged = false) ∧
    ∀ code, result = .ok code → (code = commandCloseOk ↔ s.closing = true)

/-- The contract of a command. -/
abbrev Keeps (t : Transport) (p : Client Int) (s : Shell) : Prop :=
  p.Meets (Shell.happens t) (fun s {_} call => s.allowed call) CommandEnds s

section Commands

variable {t : Transport} {s : Shell} {command : ClientCommand}

theorem commandEnds_of_quiet {result : Except Fault Int} (safe : s.client.Safe)
    (quiet : s.closing = false) (code : result ≠ .ok commandCloseOk) : CommandEnds result s := by
  refine ⟨safe, fun closing => absurd (quiet.symm.trans closing) (by decide), ?_⟩
  intro _ same
  subst same
  rw [quiet]
  exact iff_of_false (fun same => code (same ▸ rfl)) (by decide)

/-- A send reports no error, so there is always a wait for the reply. -/
theorem exchange_bind {object : JsonObject} {next : Except Int ParseResult → Client Int} :
    (exchange t object >>= next) = .call (.send object) fun _ => .call .receive fun answer =>
      next (if answer.1.code ≠ 0 then .error answer.1.code else .ok answer.2) := by
  have answered (answer : CommError × ParseResult) :
      ((if answer.1.code ≠ 0 then pure (.error answer.1.code) else pure (.ok answer.2)) >>= next :
        Client Int) = next (if answer.1.code ≠ 0 then .error answer.1.code else .ok answer.2) := by
    split_ifs <;> rfl
  cases t <;> exact congrArg _ (funext fun _ => congrArg _ (funext answered))

theorem isClose_of_kind {object : JsonObject} {kind : Bytes} (isKind : kindOf object = some kind)
    (other : kind ≠ ascii "command.close") : isClose object = false := by
  unfold isClose
  rw [isKind, decide_eq_false_iff_not, Option.some.injEq]
  exact other

/-- A command that sends and waits goes on from the state it began in. -/
theorem keeps_exchange {object : JsonObject} {next : Except Int ParseResult → Client Int}
    (safe : s.client.Safe) (quiet : s.closing = false)
    (may : MayWrite s.client object) (other : isClose object = false)
    (rest : ∀ presult, Keeps t (next (.ok presult)) s) :
    Keeps t (exchange t object >>= next) s := by
  rw [exchange_bind]
  refine ⟨⟨safe, may, quiet⟩, ?_⟩
  intro _ s' given
  obtain ⟨-, rfl⟩ := given
  have same : s.after ⟨.send object, ()⟩ = s := by
    simp [Shell.after, other]
  rw [same]
  refine ⟨⟨safe, trivial⟩, ?_⟩
  intro answer s' given
  obtain ⟨received, rfl⟩ := given
  have fine : answer.1.code = 0 := received
  simp only [fine, ne_eq, not_true_eq_false, if_false]
  exact rest answer.2

section Shown

variable {kind : Bytes} (safe : s.client.Safe) (quiet : s.closing = false)
  (fits : command.Fits s.client kind) (other : kind ≠ ascii "command.close")

include safe quiet fits other

theorem keeps_runShown : Keeps t (runShown t command) s := by
  cases command with
  | returns code => exact commandEnds_of_quiet safe quiet (fun same => fits (Except.ok.inj same))
  | sends object =>
      refine keeps_exchange safe quiet fits.1 (isClose_of_kind fits.2 other) fun presult => ?_
      exact commandEnds_of_quiet safe quiet (by decide)

theorem keeps_runLogin : Keeps t (runLogin t command) s := by
  cases command with
  | returns code => exact commandEnds_of_quiet safe quiet (fun same => fits (Except.ok.inj same))
  | sends object =>
      refine keeps_exchange safe quiet fits.1 (isClose_of_kind fits.2 other) fun presult => ?_
      cases said : saysLoginFailed presult with
      | error e =>
          simp only [said]
          exact commandEnds_of_quiet safe quiet nofun
      | ok failed =>
          simp only [said]
          cases failed with
          | true => exact commandEnds_of_quiet safe quiet (by decide)
          | false =>
              refine ⟨⟨safe, trivial⟩, ?_⟩
              intro _ s' given
              obtain ⟨-, rfl⟩ := given
              -- the frame went out on an open connection, and it is still open
              exact commandEnds_of_quiet (fun _ => fits.1.isOpen) quiet (by decide)

theorem keeps_runLogout : Keeps t (runLogout t command) s := by
  cases command with
  | returns code => exact commandEnds_of_quiet safe quiet (fun same => fits (Except.ok.inj same))
  | sends object =>
      refine keeps_exchange safe quiet fits.1 (isClose_of_kind fits.2 other) fun presult => ?_
      refine ⟨⟨safe, trivial⟩, ?_⟩
      intro _ s' given
      obtain ⟨-, rfl⟩ := given
      exact commandEnds_of_quiet nofun quiet (by decide)

theorem keeps_runGet : Keeps t (runGet command) s := by
  cases command with
  | returns code => exact commandEnds_of_quiet safe quiet (fun same => fits (Except.ok.inj same))
  | sends object =>
      refine ⟨⟨safe, fits.1, quiet⟩, ?_⟩
      intro _ s' given
      obtain ⟨-, rfl⟩ := given
      have still : (s.after ⟨.sendAsync object, ()⟩).closing = false := by
        simp [Shell.after, quiet, isClose_of_kind fits.2 other]
      exact commandEnds_of_quiet safe still (by decide)

end Shown

theorem keeps_runClose (safe : s.client.Safe) (quiet : s.closing = false)
    (fits : command.Fits s.client (ascii "command.close")) : Keeps t (runClose t command) s := by
  cases command with
  | returns code => exact commandEnds_of_quiet safe quiet (fun same => fits (Except.ok.inj same))
  | sends object =>
      refine ⟨⟨safe, fits.1, quiet⟩, ?_⟩
      intro _ s' given
      obtain ⟨-, rfl⟩ := given
      have closing : (s.after ⟨.send object, ()⟩).closing = true := by
        simp [Shell.after, isClose, fits.2]
      have out : s.client.logged = false :=
        fits.1.notLogged ⟨ascii "command.close", by decide, fits.2⟩
      have ends : CommandEnds (.ok commandCloseOk) (s.after ⟨.send object, ()⟩) := by
        refine ⟨safe, fun _ => out, ?_⟩
        intro _ given
        cases given
        exact iff_of_true rfl closing
      cases t <;> exact ends

theorem errno_ne_commandCloseOk {path : CString} {errno : Int}
    (possible : s.possible t ⟨.rawDataFromFile path, .error errno⟩) : errno ≠ commandCloseOk := by
  rcases possible with own | ⟨low, high⟩
  · rw [own]
    decide
  · have small : errno < 4096 := high
    intro same
    subst same
    exact absurd small (by decide)

theorem keeps_runPost {argv : List CString} (safe : s.client.Safe) (quiet : s.closing = false) :
    Keeps t (runPost t s.client argv) s := by
  have plain {argv : List CString} :
      Keeps t (runShown t (cmdPost s.client.isOpen s.client.logged argv (.ok []))) s :=
    keeps_runShown safe quiet (fits_cmdPost nofun) (by decide)
  unfold runPost
  split
  · split_ifs
    · refine ⟨⟨safe, trivial⟩, ?_⟩
      intro file s' given
      obtain ⟨possible, rfl⟩ := given
      refine keeps_runShown safe quiet (fits_cmdPost ?_) (by decide)
      intro errno same
      subst same
      exact errno_ne_commandCloseOk possible
    · exact plain
  · exact plain

theorem keeps_cmdOpen {argv : List CString} (safe : s.client.Safe) (quiet : s.closing = false) :
    Keeps t (cmdOpen t s.client argv) s := by
  unfold cmdOpen
  split_ifs with help isOpen
  · exact commandEnds_of_quiet safe quiet (by decide)
  · exact commandEnds_of_quiet safe quiet (by decide)
  · -- a connection that is not open has nobody logged in
    have out : s.client.logged = false := by
      refine Bool.eq_false_iff.mpr fun logged => isOpen ?_
      simp [ClientState.isOpen, safe logged]
    split
    · split_ifs with bad
      · exact commandEnds_of_quiet safe quiet (by decide)
      · refine ⟨⟨safe, out⟩, ?_⟩
        intro opened s' given
        obtain ⟨-, rfl⟩ := given
        refine commandEnds_of_quiet ?_ quiet ?_
        · exact fun logged => absurd (out.symm.trans logged) (by decide)
        · split_ifs <;> decide
    · exact commandEnds_of_quiet safe quiet (by decide)

theorem keeps_cmdParse {atof : CString → Float} (safe : s.client.Safe) (quiet : s.closing = false)
    (cmd : CString) : Keeps t (cmdParse t atof s.client cmd) s := by
  refine cmdParse_cases (p := fun command => Keeps t command s) ?_ ?_ ?_ cmd
  · exact commandEnds_of_quiet safe quiet nofun
  · exact commandEnds_of_quiet safe quiet (by decide)
  · intro name run entry argv
    refine commands_cases (p := fun command => Keeps t command s) ?_ ?_ ?_ ?_ ?_ ?_ ?_ ?_ entry argv
    · intro code other
      exact commandEnds_of_quiet safe quiet fun same => other (Except.ok.inj same)
    · exact fun argv => keeps_cmdOpen safe quiet
    · intro command kind shown fits
      exact keeps_runShown safe quiet fits (ne_of_mem_of_not_mem shown (by decide))
    · exact fun argv => keeps_runPost safe quiet
    · exact fun argv => keeps_runGet safe quiet fits_cmdGet (by decide)
    · exact fun argv => keeps_runLogin safe quiet fits_cmdLogin (by decide)
    · exact fun argv => keeps_runLogout safe quiet fits_cmdLogout (by decide)
    · exact fun argv => keeps_runClose safe quiet fits_cmdClose

/-- A line leaves nobody logged in without a connection, and a `close` is followed by the end
of the connection. -/
theorem meets_shellTurn {atof : CString → Float} (ordered : s.Ordered)
    (live : s.client.connection ≠ .closed) (line : CString) :
    (shellTurn t atof s.client line).Meets (Shell.happens t)
      (fun s {_} call => s.allowed call)
      (fun result s => s.client.Safe ∧ (result = .ok () → s.Ordered)) s := by
  have quiet : s.closing = false :=
    Bool.eq_false_iff.mpr fun closing => live (ordered.ends closing)
  have parsed : Keeps t (cmdParse t atof s.client line) s := keeps_cmdParse ordered.safe quiet line
  refine Meets.bind (parsed.mono ?_)
  rintro (e | err) s' ⟨safe, out, code⟩
  · exact ⟨safe, nofun⟩
  · have closes := code err rfl
    change Meets _ _ _ (ite _ _ _) s'
    split_ifs with failed isClose
    · refine ⟨⟨safe, trivial⟩, ?_⟩
      intro _ _ given
      obtain ⟨-, rfl⟩ := given
      have after : Shell.Ordered (s'.after ⟨.connectionClose, ()⟩) := by
        refine ⟨fun logged => ?_, fun _ => rfl⟩
        exact absurd ((out (closes.mp isClose)).symm.trans logged) (by decide)
      exact ⟨after.safe, fun _ => after⟩
    · exact ⟨safe, fun _ => ⟨safe, fun closing => absurd (closes.mpr closing) isClose⟩⟩
    · refine ⟨safe, fun _ => ⟨safe, fun closing => ?_⟩⟩
      have isClose := closes.mpr closing
      exact absurd (isClose.symm.trans (not_not.mp failed)) (by decide)

end Commands

/-! ## Whole runs -/

/-- From a client that is not logged in, whatever is typed, answered and opened: between two
lines the client is ordered; during a line every call is allowed where it is made, which for
a message means an open connection, a login or none as its kind asks, and no `close` before
it; and behind a `close` the loop takes no further line. -/
theorem client_follows_protocol {t : Transport} {atof : CString → Float}
    {connection : ConnectionState} {turns : List Turn} {s : Shell}
    (run : Run (takesTurn t atof) unguarded ⟨⟨false, connection⟩, false⟩ turns s) :
    s.Ordered ∧ ∀ line trace result s', s.client.connection ≠ .closed →
      Runs (shellTurn t atof s.client line) trace result →
        Through (Shell.happens t) s trace s' →
          (∀ front event back, trace = front ++ event :: back →
            ∃ m, Through (Shell.happens t) s front m ∧ m.allowed event.call) ∧
          s'.client.Safe ∧ (result = .ok () → s'.Ordered) := by
  have ordered : s.Ordered := by
    refine run.invariant ⟨nofun, nofun⟩ ?_
    rintro s s' turn ordered - ⟨live, runs, through⟩
    exact ((meets_shellTurn ordered live turn.line).of_runs runs through).2.2 rfl
  refine ⟨ordered, fun line trace result s' live runs through => ?_⟩
  exact (meets_shellTurn ordered live line).of_runs runs through

/-- `open fifo://s`, and then `close`. -/
def openLine : CString := ⟨ascii "open fifo://s", by decide⟩

def closeLine : CString := ⟨ascii "close", by decide⟩

/-- The `close` is written on the open connection, and the loop ends behind it. -/
theorem client_follows_protocol_close :
    MayWrite ⟨false, .opened⟩ stringifyCommandClose ∧ (Shell.mk ⟨false, .closed⟩ true).Ordered := by
  have opens : takesTurn .fifo (fun _ => 0) ⟨⟨false, .idle⟩, false⟩
      ⟨openLine, [⟨.connectionOpen (addressFromUrl .fifo (ascii "fifo://s") .new).2,
        (0, .opened)⟩]⟩ ⟨⟨false, .opened⟩, false⟩ :=
    ⟨by decide, .call (.ret _), _, ⟨.inl ⟨rfl, rfl⟩, rfl⟩, rfl⟩
  have closes : Runs (shellTurn .fifo (fun _ => 0) ⟨false, .opened⟩ closeLine)
      [⟨.send stringifyCommandClose, ()⟩, ⟨.connectionClose, ()⟩] (.ok ()) := .call (.call (.ret _))
  have moments := (client_follows_protocol (.one trivial opens)).2 closeLine _ _
    ⟨⟨false, .closed⟩, true⟩ (by decide) closes
    ⟨_, ⟨trivial, rfl⟩, _, ⟨trivial, rfl⟩, rfl⟩
  obtain ⟨_, rfl, allowed⟩ := moments.1 [] _ _ rfl
  exact ⟨allowed.2.1, moments.2.2 rfl⟩

end IpcFtp
