import IpcFtp.CString
import IpcFtp.Lib.MessageQueue
import IpcFtp.Lib.Processes

/-!
# The logging service

`logging/main.c` and `server/logging_helpers.c`, built with `__LOGGING__`, as programs over the
calls they make: the service takes messages from the queue and appends them to a file, and the
processes of the server put messages there.

The queue persists when nobody has it open, so the service may find messages in it.
-/

namespace IpcFtp

open Lib Program

/-! ## Calls -/

inductive LogCall : Type → Type
  /-- `mq_open` with `O_CREAT`: whether it succeeds -/
  | mqOpen : LogCall Bool
  /-- the first bytes of the message, or a failure -/
  | mqReceive : LogCall (Option Bytes)
  /-- whether it returns 0 -/
  | mqSend (message : Bytes) : LogCall Bool
  /-- `mq_close` and `mq_unlink` -/
  | closeMq : LogCall Unit
  /-- `fopen("./server.log", "wt")`: whether it is not null -/
  | createFile : LogCall Bool
  /-- `fopen("./server.log", "a+t")` -/
  | openFile : LogCall Bool
  /-- `fputs` and `fclose` -/
  | fputs (text : Bytes) : LogCall Unit

/-- How a process ends early. -/
inductive LogExit : Type
  | exit (code : Int)
  | fault (e : Fault)

abbrev Logging (α : Type) : Type 1 := Program LogCall LogExit α

abbrev LogEvent : Type 1 := Event LogCall

/-- `MAX_MSG`. -/
def maxMsg : Nat := 10

/-- `MSG_MAX_SIZE`. -/
def msgMaxSize : Nat := 1024

/-- `MSG_END`. -/
def msgEnd : Bytes := ascii "MSGEND"

/-! ## The service -/

/-- `read_mq` into a buffer of `MSG_MAX_SIZE + 1` bytes. -/
def readMq : Logging Bytes := do
  match ← perform .mqReceive with
  | none => .fault (.exit 1)
  | some message =>
    -- `buff[bytes_readd] = '\0'`
    if message.length < msgMaxSize + 1 then return message else .fault (.fault .outOfBounds)

/-- `strncmp(x, y, n) == 0`. -/
def strncmpEq (x y : Bytes) (n : Nat) : Bool := (cstr x).take n = (cstr y).take n

/-- So many turns of the loop of `main`: whether it has been left. -/
def serviceLoop : Nat → Logging Bool
  | 0 => return false
  | turns + 1 => do
    let buff ← readMq
    if strncmpEq buff msgEnd msgEnd.length then return true
    else if ← perform .openFile then
      perform (.fputs (cstr buff))
      serviceLoop turns
    else .fault (.fault .nullPointer)

/-- `main`, as far as so many turns. -/
def loggingMain (turns : Nat) : Logging Bool := do
  if ← perform .mqOpen then
    if ← perform .createFile then
      if ← serviceLoop turns then
        perform .closeMq
        return true
      else return false
    else .fault (.fault .nullPointer)
  else .fault (.exit (-1))

/-! ## The processes that log -/

/-- `sprintf(msg_f, "%s: %s\n", kind, str)`. -/
def logText (kind str : Bytes) : Bytes := kind ++ ascii ": " ++ str ++ ascii "\n"

/-- `log_mq`; whether the message was sent is only printed. -/
def logMq (kind : Bytes) (str : CString) : Logging Bool :=
  match sprintf (kind.length + 2 + str.bytes.length + 2) (logText kind str.bytes) with
  | .ok message => perform (.mqSend message)
  | .error e => .fault (.fault e)

def logError (str : CString) : Logging Bool := logMq (ascii "ERROR") str

def logInfo (str : CString) : Logging Bool := logMq (ascii "INFO") str

def logWarning (str : CString) : Logging Bool := logMq (ascii "WARNING") str

def logSuccess (str : CString) : Logging Bool := logMq (ascii "SUCCESS") str

/-- The kinds of messages. -/
inductive LogKind : Type
  | error
  | info
  | warning
  | success
  deriving DecidableEq

def LogKind.name : LogKind → Bytes
  | .error => ascii "ERROR"
  | .info => ascii "INFO"
  | .warning => ascii "WARNING"
  | .success => ascii "SUCCESS"

/-- The call that logs a text of a kind. -/
def LogKind.log : LogKind → CString → Logging Bool
  | .error => logError
  | .info => logInfo
  | .warning => logWarning
  | .success => logSuccess

/-- A text that is logged. -/
structure LogEntry : Type where
  kind : LogKind
  str : CString
  deriving DecidableEq

def LogEntry.text (entry : LogEntry) : Bytes := logText entry.kind.name entry.str.bytes

/-- The buffer of a message has room for it. -/
theorem log_eq (entry : LogEntry) :
    entry.kind.log entry.str = perform (.mqSend entry.text) := by
  have fits (kind : Bytes) : logMq kind entry.str =
      perform (.mqSend (logText kind entry.str.bytes)) := by
    have room : (logText kind entry.str.bytes).length < kind.length + 2 + entry.str.bytes.length + 2 := by
      simp [logText, length_ascii]
      omega
    rw [logMq, sprintf, if_pos room]
  obtain ⟨kind, str⟩ := entry
  cases kind <;> exact fits _

/-! ## The queue and the file -/

/-- The messages in the queue and the contents of `./server.log`. -/
structure LogState : Type where
  queue : List Bytes
  file : Bytes

/-- What a call may answer and do.  A message is sent when there is room, and one that is too
long is refused; what is written to the file stays there. -/
def LogState.happens (s : LogState) (event : LogEvent) (s' : LogState) : Prop :=
  match event with
  | ⟨.mqSend message, true⟩ => message.length ≤ msgMaxSize ∧ s.queue.length < maxMsg ∧
    s' = { s with queue := s.queue ++ [message] }
  | ⟨.mqReceive, some message⟩ => s.queue = message :: s'.queue ∧ s'.file = s.file
  | ⟨.createFile, true⟩ => s' = { s with file := [] }
  | ⟨.fputs text, _⟩ => s' = { s with file := s.file ++ text }
  | _ => s' = s

/-- What is done with the queue. -/
def logTransfer : LogEvent → Option (Transfer Bytes)
  | ⟨.mqSend message, true⟩ => some (.put message)
  | ⟨.mqReceive, some message⟩ => some (.take message)
  | _ => none

end IpcFtp
