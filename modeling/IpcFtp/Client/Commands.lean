import IpcFtp.Communication.Connection
import IpcFtp.Serialization.Messages

/-!
# The commands of the client

`client/commands.c`.  A command is a function up to what it sends (`cmdGet`), and a program
over the calls the client makes from there on (`runCommand`).  The connection's state and
the flag `logged` are global; a program is given what they are when it starts, and its calls
say what becomes of them.
-/

namespace IpcFtp

open Lib Program

structure ClientState : Type where
  logged : Bool
  connection : ConnectionState
  deriving DecidableEq

/-- `is_connection_open`. -/
def ClientState.isOpen (s : ClientState) : Bool := s.connection = .opened

/-! ## Codes -/

def commandOk : Int := 0
def errCommandNotFound : Int := 100
def errAlreadyDone : Int := 101
def errConnectionNotOpen : Int := 102
def errWrongArgumentsCount : Int := 103
def errConnectionNotLogged : Int := 104
def errMisuseArgument : Int := 105
def errBadAddress : Int := 106
def errLoginFailed : Int := 107
def commandCloseOk : Int := 10000
def errFileNotOpened : Int := 9000

/-! ## Up to the send -/

/-- A command ends with a code, or sends an object. -/
inductive ClientCommand : Type
  | returns (code : Int)
  | sends (object : JsonObject)

/-- `argc == 1 && show_help_for_command(argv[0], info)`. -/
def asksForHelp : List CString → Bool
  | [arg] => arg.bytes = ascii "help"
  | _ => false

/-- `cmd_sendi`, `cmd_sends` and `cmd_sendd`, up to the send; they ask for no login. -/
def cmdSend (make : CString → JsonObject) (isOpen : Bool) (argv : List CString) :
    ClientCommand :=
  if asksForHelp argv then .returns commandOk
  else if ¬ isOpen then .returns errConnectionNotOpen
  else
    match argv with
    | [arg] => .sends (make arg)
    | _ => .returns errWrongArgumentsCount

def cmdSendi : Bool → List CString → ClientCommand :=
  cmdSend fun arg => stringifyInt (atoi arg.bytes)

def cmdSends : Bool → List CString → ClientCommand := cmdSend stringifyString

/-- `atof` is the C library's. -/
def cmdSendd (atof : CString → Float) : Bool → List CString → ClientCommand :=
  cmdSend fun arg => stringifyDouble (atof arg)

/-- `cmd_get`, up to its send. -/
def cmdGet (isOpen logged : Bool) (argv : List CString) : ClientCommand :=
  if asksForHelp argv then .returns commandOk
  else if ¬ isOpen then .returns errConnectionNotOpen
  else if ¬ logged then .returns errConnectionNotLogged
  else
    match argv with
    | [path] => .sends (stringifyCommandGet path)
    | _ => .returns errWrongArgumentsCount

/-- The encoded file as a string. -/
def encodedString (contents : Bytes) : CString :=
  ⟨encodeRawData contents, nulFree_encodeRawData contents⟩

/-- `cmd_post`, up to its send; `file` is what `raw_data_from_file` finds, or the `errno`
it leaves. -/
def cmdPost (isOpen logged : Bool) (argv : List CString) (file : Except Int Bytes) :
    ClientCommand :=
  if asksForHelp argv then .returns commandOk
  else if ¬ isOpen then .returns errConnectionNotOpen
  else if ¬ logged then .returns errConnectionNotLogged
  else
    match argv, file with
    | [dest, _], .ok contents =>
      .sends (stringifyCommandPost (encodedString contents) dest contents.length)
    | [_, _], .error errno => .returns errno
    | _, _ => .returns errWrongArgumentsCount

/-- `cmd_login`, up to its send.  It counts the arguments before it looks at `logged`. -/
def cmdLogin (isOpen logged : Bool) (argv : List CString) : ClientCommand :=
  if asksForHelp argv then .returns commandOk
  else if ¬ isOpen then .returns errConnectionNotOpen
  else
    match argv with
    | [username, password] =>
      if logged then .returns errAlreadyDone
      else .sends (stringifyCommandLogin username password)
    | _ => .returns errWrongArgumentsCount

/-- `cmd_logout`, up to its send. -/
def cmdLogout (isOpen logged : Bool) (argv : List CString) : ClientCommand :=
  if asksForHelp argv then .returns commandOk
  else if ¬ isOpen then .returns errConnectionNotOpen
  else if ¬ logged then .returns errConnectionNotLogged
  else
    match argv with
    | [] => .sends stringifyCommandLogout
    | _ => .returns errWrongArgumentsCount

/-- The second argument of `newuser`. -/
def adminArgument (arg : CString) : Option Byte :=
  if arg.bytes = ascii "yes" then some 1
  else if arg.bytes = ascii "no" then some 0
  else none

/-- `cmd_new_user`, up to its send. -/
def cmdNewUser (isOpen logged : Bool) (argv : List CString) : ClientCommand :=
  if asksForHelp argv then .returns commandOk
  else if ¬ isOpen then .returns errConnectionNotOpen
  else if ¬ logged then .returns errConnectionNotLogged
  else
    let register (username admin password : CString) : ClientCommand :=
      match adminArgument admin with
      | some flag => .sends (stringifyCommandNewUser ⟨username, password, flag⟩)
      | none => .returns errMisuseArgument
    match argv with
    | [username, admin] => register username admin ⟨ascii "pass123", by decide⟩
    | [username, admin, password] => register username admin password
    | _ => .returns errWrongArgumentsCount

/-- `cmd_change_pass`, up to its send. -/
def cmdChangePass (isOpen logged : Bool) (argv : List CString) : ClientCommand :=
  if asksForHelp argv then .returns commandOk
  else if ¬ isOpen then .returns errConnectionNotOpen
  else if ¬ logged then .returns errConnectionNotLogged
  else
    match argv with
    | [pass] => .sends (stringifyCommandChangePass pass)
    | _ => .returns errWrongArgumentsCount

/-- `cmd_close`, up to its send. -/
def cmdClose (isOpen logged : Bool) (argv : List CString) : ClientCommand :=
  if asksForHelp argv then .returns commandOk
  else if ¬ isOpen then .returns errConnectionNotOpen
  else if logged then .returns errAlreadyDone
  else
    match argv with
    | [] => .sends stringifyCommandClose
    | _ => .returns errWrongArgumentsCount

/-- `cmd_commands`, which prints the table. -/
def cmdCommands (_ : List CString) : Int := commandOk

/-- `cmd_help`, which prints a text. -/
def cmdHelp (argv : List CString) : Int :=
  if asksForHelp argv then commandOk
  else if argv.length ≠ 1 then errWrongArgumentsCount
  else commandOk

/-! ## The whole command -/

/-- The calls of a command. -/
inductive ClientCall : Type → Type
  /-- the code it returns and the state it leaves the connection in -/
  | connectionOpen (serverAddr : CommAddr) : ClientCall (Int × ConnectionState)
  | connectionClose : ClientCall Unit
  /-- writes one frame -/
  | send (object : JsonObject) : ClientCall Unit
  /-- writes one frame and leaves the reply to a thread -/
  | sendAsync (object : JsonObject) : ClientCall Unit
  /-- `receive`: the error object and what was parsed -/
  | receive : ClientCall (CommError × ParseResult)
  /-- the contents, or the `errno` with which `cmd_post` ends -/
  | rawDataFromFile (path : CString) : ClientCall (Except Int Bytes)
  | setLogged (logged : Bool) : ClientCall Unit

abbrev Client (α : Type) : Type 1 := Program ClientCall Fault α

abbrev ClientEvent : Type 1 := Event ClientCall

section Programs

variable (t : Transport)

/-- Send and wait for the reply; a code that is not 0 ends the command. -/
def exchange (object : JsonObject) : Client (Except Int ParseResult) := do
  perform (.send object)
  let err := CommError.afterSend ⟨commandOk, ascii "Sending command"⟩ t
  if err.code ≠ 0 then return .error err.code
  let (err, presult) ← perform .receive
  if err.code ≠ 0 then return .error err.code
  return .ok presult

/-- A synchronous command whose reply is only shown. -/
def runShown : ClientCommand → Client Int
  | .returns code => return code
  | .sends object => do
    match ← exchange t object with
    | .error code => return code
    | .ok _ => return commandOk

/-- `strcmp("Login failed", data) == 0` for a reply of kind `data`; the block need not be
terminated. -/
def saysLoginFailed : ParseResult → Except Fault Bool
  | .data block => strcmpEq (ascii "Login failed" ++ [0]) block
  | .request _ => .ok false

def runLogin : ClientCommand → Client Int
  | .returns code => return code
  | .sends object => do
    match ← exchange t object with
    | .error code => return code
    | .ok presult =>
      match saysLoginFailed presult with
      | .error e => .fault e
      | .ok true => return errLoginFailed
      | .ok false =>
        perform (.setLogged true)
        return commandOk

def runLogout : ClientCommand → Client Int
  | .returns code => return code
  | .sends object => do
    match ← exchange t object with
    | .error code => return code
    | .ok _ =>
      perform (.setLogged false)
      return commandOk

/-- `get`, whose reply a thread waits for. -/
def runGet : ClientCommand → Client Int
  | .returns code => return code
  | .sends object => do
    perform (.sendAsync object)
    return commandOk

def runClose : ClientCommand → Client Int
  | .returns code => return code
  | .sends object => do
    perform (.send object)
    let err := CommError.afterSend ⟨commandOk, ascii "Sending command"⟩ t
    if err.code ≠ 0 then return err.code
    return commandCloseOk

/-- `post`, which reads its file when nothing else stands against it. -/
def runPost (s : ClientState) (argv : List CString) : Client Int :=
  match argv with
  | [_, path] =>
    if s.isOpen ∧ s.logged then do
      runShown t (cmdPost s.isOpen s.logged argv (← perform (.rawDataFromFile path)))
    else runShown t (cmdPost s.isOpen s.logged argv (.ok []))
  | _ => runShown t (cmdPost s.isOpen s.logged argv (.ok []))

/-- `cmd_open`.  It returns whether `connection_open` failed, not its code. -/
def cmdOpen (s : ClientState) (argv : List CString) : Client Int :=
  if asksForHelp argv then return commandOk
  else if s.isOpen then return errAlreadyDone
  else
    match argv with
    | [url] =>
      if (addressFromUrl t url.bytes .new).1 ≠ addressOk then return errBadAddress
      else do
        let opened ← perform (.connectionOpen (addressFromUrl t url.bytes .new).2)
        return if opened.1 ≠ 0 then 1 else commandOk
    | _ => return errWrongArgumentsCount

/-- The table of commands, in the order of `initialize_commands`. -/
def commands (atof : CString → Float) :
    List (Bytes × (ClientState → List CString → Client Int)) :=
  [(ascii "open", cmdOpen t),
    (ascii "close", fun s argv => runClose t (cmdClose s.isOpen s.logged argv)),
    (ascii "sendi", fun s argv => runShown t (cmdSendi s.isOpen argv)),
    (ascii "sendd", fun s argv => runShown t (cmdSendd atof s.isOpen argv)),
    (ascii "sends", fun s argv => runShown t (cmdSends s.isOpen argv)),
    (ascii "help", fun _ argv => return cmdHelp argv),
    (ascii "get", fun s argv => runGet (cmdGet s.isOpen s.logged argv)),
    (ascii "post", runPost t),
    (ascii "login", fun s argv => runLogin t (cmdLogin s.isOpen s.logged argv)),
    (ascii "logout", fun s argv => runLogout t (cmdLogout s.isOpen s.logged argv)),
    (ascii "commands", fun _ argv => return cmdCommands argv),
    (ascii "newuser", fun s argv => runShown t (cmdNewUser s.isOpen s.logged argv)),
    (ascii "ch_pass", fun s argv => runShown t (cmdChangePass s.isOpen s.logged argv))]

/-- `cmd_parse`; the vector that `split_arguments` gives is read without a test for null. -/
def cmdParse (atof : CString → Float) (s : ClientState) (cmd : CString) : Client Int :=
  match splitArguments cmd.bytes with
  | none => .fault .nullPointer
  | some comms =>
    match (commands t atof).lookup (comms.headD []) with
    | some command => command s (comms.take (countElements comms) |>.drop 1 |>.map blockString)
    | none => return errCommandNotFound

end Programs

end IpcFtp
