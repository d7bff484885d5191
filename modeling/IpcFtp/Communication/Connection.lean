import IpcFtp.Communication.Address
import IpcFtp.Lib.Fifo

/-!
# Connections over FIFOs

`lib/communication/fifo/comm.connection.fifo.c`, `comm_listen` and `comm_accept` of
`comm.read.fifo.c`, and `write_one_by_one` of `lib/file_utils/file_utils.c`, as programs over
system calls.

The handshake sends the url of the client three times, each time with its terminator: to the
server through the connection FIFO, back through the response FIFO, and through the request
FIFO once more.
-/

namespace IpcFtp

open Lib Program

/-- `connection_state_t`; a connection that was only allocated may have any other value. -/
inductive ConnectionState : Type
  | idle
  | opened
  | closed
  | other (value : Int)
  deriving DecidableEq

/-- `comm_sense_t`. -/
inductive CommSense : Type
  | serverClient
  | clientServer
  deriving DecidableEq

abbrev Fd : Type := Descriptor Bytes

/-- `connection_t`; a pointer that has not been set, and a descriptor that has not, is none. -/
structure Connection : Type where
  clientAddr : Option CommAddr
  serverAddr : Option CommAddr
  connectionFile : Option Bytes
  state : ConnectionState
  reqFd : Option Fd
  resFd : Option Fd
  sense : CommSense
  deriving DecidableEq

def connectionOk : Int := 0
def errInvalidAddress : Int := 202
def errCorruptData : Int := 201
def errServerOffline : Int := 203
def errServerBusy : Int := 204
def errFifoFailConnection : Int := 300
def errFifoCantOpenResponse : Int := 301
def errFifoCantOpenRequest : Int := 302
def errFifoNotCreated : Int := 3000
def errFifoCantOpenConnectionFile : Int := 3001
def errFifoInvalidAddress : Int := 3002
def errFifoRequestCantCreate : Int := 3003
def errFifoRequestCantOpen : Int := 3005
def errFifoAuthenticationFail : Int := 3006

/-- What ends a process. -/
inductive Halt : Type
  | fault (fault : Fault)
  /-- `abort()` -/
  | aborted
  deriving DecidableEq

abbrev FifoProgram : Type → Type 1 := Program (FifoCall Bytes Byte) Halt

/-! ## Paths -/

/-- The connection FIFO of a server. -/
def connectionPath (server : Bytes) : Bytes := ascii "/tmp/" ++ server ++ ascii ".in" ++ ascii ".fifo"

/-- The FIFO from one side to another. -/
def fifoPath (source target : Bytes) : Bytes :=
  ascii "/tmp/" ++ source ++ ascii "." ++ target ++ ascii ".fifo"

/-- Only `in` stands between two copies of a name as the extension does. -/
theorem eq_in_of_append : ∀ {client server : Bytes},
    client ++ chr '.' :: server = server ++ ascii ".in" → client = ascii "in"
  | [], [], same | [], [_], same | [], [_, _], same => by simp [ascii, chr] at same
  | [], _ :: _ :: _ :: _, same | [_], _, same => by
    have lengths := congrArg List.length same
    simp [ascii] at lengths
  | [a, b], [], same => by simp [ascii, chr] at same
  | [a, b], [_], same => by simp [ascii, chr] at same
  | [a, b], [_, _], same => by
    simp [ascii, chr] at same ⊢
    simp [same]
  | [a, b], _ :: _ :: _ :: server, same => by
    simp only [List.cons_append, List.nil_append, List.cons.injEq] at same
    obtain ⟨rfl, rfl, rfl, later⟩ := same
    exact eq_in_of_append later
  | _ :: _ :: _ :: client, server, same => by
    have lengths := congrArg List.length same
    simp [ascii] at lengths
    omega

/-- The FIFO from a client to a server is the server's connection FIFO only if the one back is. -/
theorem fifoPath_eq_connectionPath {client server : Bytes}
    (same : fifoPath client server = connectionPath server) :
    fifoPath server client = connectionPath server := by
  have middle : client ++ chr '.' :: server = server ++ ascii ".in" := by
    simp only [fifoPath, connectionPath, List.append_assoc, List.append_cancel_left_eq] at same
    have cut := List.append_cancel_right (show (client ++ chr '.' :: server) ++ ascii ".fifo" =
      (server ++ ascii ".in") ++ ascii ".fifo" by simpa [ascii, chr] using same)
    exact cut
  rw [eq_in_of_append middle]
  simp [fifoPath, connectionPath, ascii]

/-! ## Loops -/

def deref {α : Type} : Option α → FifoProgram α
  | some a => .ret a
  | none => .fault (.fault .nullPointer)

/-- `open`. -/
def openFifo (path : Bytes) (side : Side) : FifoProgram (Option Fd) := do
  match ← perform (.openEnd path side) with
  | none => return none
  | some fd =>
    perform (.await fd)
    return some fd

/-- `write_one_by_one`; a terminator follows the data.  What the writes return is not looked at. -/
def writeOneByOne (fd : Fd) : Bytes → Nat → FifoProgram Unit
  | c :: data, size + 1 => do
    if c = 0 then
      let _ ← perform (.write fd 0)
    else
      let _ ← perform (.write fd c)
      writeOneByOne fd data size
  | _, _ => do
    let _ ← perform (.write fd 0)

/-- The loop of `connection_open`, which leaves the cells it has passed.  A read that fails
leaves what the block held before; the loop ends at a zero and `left` cells on. -/
def readAck (fd : Fd) (fresh : Nat → Byte) : Nat → Bytes → FifoProgram Bytes
  | 0, cells => do
    let c ← perform (.read fd)
    return cells ++ [c.getD (fresh cells.length)]
  | left + 1, cells => do
    let c ← perform (.read fd)
    if c.getD (fresh cells.length) = 0 then
      return cells ++ [0]
    else
      readAck fd fresh left (cells ++ [c.getD (fresh cells.length)])

/-- The first loop of `comm_accept`, in a block of zeros of which `room` cells are left. -/
def readUrl (fd : Fd) : Nat → Bytes → FifoProgram Bytes
  | 0, _ => .fault (.fault .outOfBounds)
  | room + 1, got => do
    let c ← perform (.read fd)
    if c.getD 0 = 0 then
      return got
    else
      readUrl fd room (got ++ [c.getD 0])

/-- The second loop of `comm_accept`, in the same block, which is zeros again.  It ends at a
zero and `left` cells on. -/
def readBack (fd : Fd) : Nat → Bytes → FifoProgram Bytes
  | 0, got => do
    let c ← perform (.read fd)
    if c.getD 0 = 0 then
      return got
    else if got.length < bufferLength .fifo then
      return got ++ [c.getD 0]
    else
      .fault (.fault .outOfBounds)
  | left + 1, got => do
    let c ← perform (.read fd)
    if c.getD 0 = 0 then
      return got
    else
      readBack fd left (got ++ [c.getD 0])

/-! ## The client -/

/-- `connection_open` behind the handshake's first message. -/
def connectionConfirm (fresh : Nat → Byte) (conn : Connection) (url responseFifo requestFifo : Bytes) :
    FifoProgram (Int × Connection) := do
  match ← openFifo responseFifo .reading with
  | none => return (errFifoCantOpenResponse, conn)
  | some fd =>
    let conn := { conn with resFd := some fd }
    let cells ← readAck fd fresh url.length []
    -- `strcmp(buffer, conn->client_addr->url) != 0`
    if cstr cells ≠ url then
      return (errCorruptData, conn)
    else
      match ← openFifo requestFifo .writing with
      | none => return (errFifoCantOpenRequest, conn)
      | some fd =>
        writeOneByOne fd url (url.length + 1)
        return (connectionOk, { conn with reqFd := some fd, state := .opened, sense := .clientServer })

/-- `connection_open` from the paths on. -/
def connectionReach (fresh : Nat → Byte) (conn : Connection) (url clientHost serverHost : Bytes) :
    FifoProgram (Int × Connection) := do
  let responseFifo := fifoPath serverHost clientHost
  if (← perform (.mkfifo responseFifo)) = false then
    return (errFifoFailConnection, conn)
  else
    let requestFifo := fifoPath clientHost serverHost
    let connectionFile := connectionPath serverHost
    let conn := { conn with connectionFile := some connectionFile }
    if (← perform (.access connectionFile)) = false then
      return (errServerOffline, conn)
    else
      match ← openFifo connectionFile .writing with
      | none => return (errServerBusy, conn)
      | some fd =>
        writeOneByOne fd url url.length
        perform (.close fd)
        connectionConfirm fresh conn url responseFifo requestFifo

/-- `connection_open`; `fresh` is what allocated memory holds. -/
def connectionOpen (fresh : Nat → Byte) (conn : Connection) : FifoProgram (Int × Connection) := do
  let conn := { conn with state := .closed }
  let client ← deref conn.clientAddr
  if client.valid = false then
    return (errInvalidAddress, conn)
  else
    let server ← deref conn.serverAddr
    if server.valid = false then
      return (errInvalidAddress, conn)
    else
      let clientHost ← deref client.host
      let serverHost ← deref server.host
      connectionReach fresh conn client.url clientHost serverHost

/-! ## The server -/

/-- `comm_listen`. -/
def commListen (conn : Connection) : FifoProgram (CommError × Connection) := do
  let server ← deref conn.serverAddr
  let host ← deref server.host
  let inputFifo := connectionPath host
  let listening := (⟨noCommError, ascii "Listen Sucessful"⟩, { conn with
    connectionFile := some inputFifo, state := .idle, sense := .serverClient })
  if (← perform (.access inputFifo)) = false then
    if (← perform (.mkfifo inputFifo)) = false then
      return (⟨errFifoNotCreated, ascii "FIFO creation failed"⟩, conn)
    else
      return listening
  else
    return listening

/-- `comm_accept` from the second open on. -/
def commConfirm (conn : Connection) (buffer requestFifo responseFifo : Bytes) :
    FifoProgram (CommError × Connection) := do
  match ← openFifo responseFifo .writing with
  | none => .fault .aborted
  | some fd =>
    writeOneByOne fd buffer (buffer.length + 2)
    let conn := { conn with reqFd := some fd }
    match ← openFifo requestFifo .reading with
    | none => return (⟨errFifoRequestCantOpen, ascii "Request FIFO open failed"⟩, conn)
    | some fd =>
      let again ← readBack fd (buffer.length + 1) []
      -- `strcmp(buffer, backup) != 0`
      if again ≠ buffer then
        return (⟨errFifoAuthenticationFail, ascii "Threeway handshake failed Authentication"⟩, conn)
      else
        return (⟨noCommError, ascii "Accept Sucessful"⟩, { conn with
          clientAddr := some (addressFromUrl .fifo again .new).2
          resFd := some fd
          state := .opened })

/-- `comm_accept` behind the handshake's first message. -/
def commAnswer (conn : Connection) (buffer : Bytes) : FifoProgram (CommError × Connection) := do
  let (code, client) := addressFromUrl .fifo buffer .new
  if code ≠ addressOk then
    return (⟨errFifoInvalidAddress, ascii "Threeway handshake failed. Invalid Address"⟩, conn)
  else
    let clientHost ← deref client.host
    let server ← deref conn.serverAddr
    let serverHost ← deref server.host
    let requestFifo := fifoPath clientHost serverHost
    if (← perform (.mkfifo requestFifo)) = false then
      return (⟨errFifoRequestCantCreate, ascii "Request FIFO creation failed"⟩, conn)
    else
      commConfirm conn buffer requestFifo (fifoPath serverHost clientHost)

/-- `comm_accept`. -/
def commAccept (conn : Connection) : FifoProgram (CommError × Connection) := do
  -- a null path is one that cannot be opened
  match ← conn.connectionFile.elim (.ret none) fun path => openFifo path .reading with
  | none => return (⟨errFifoCantOpenConnectionFile, ascii "Opening connection file failed"⟩, conn)
  | some fd =>
    let buffer ← readUrl fd (bufferLength .fifo) []
    perform (.close fd)
    commAnswer conn buffer

/-! ## What the loops do when every call succeeds -/

section Loops

variable {path : Bytes} {text : Bytes}

theorem runs_openFifo {side : Side} : Runs (openFifo path side)
    [⟨.openEnd path side, some ⟨path, side, 0⟩⟩, ⟨.await ⟨path, side, 0⟩, ()⟩]
    (.ok (some ⟨path, side, 0⟩)) := .call (.call (.ret _))

theorem runs_writeOneByOne (nulFree : 0 ∉ text) {size : Nat} (long : text.length ≤ size) :
    Runs (writeOneByOne ⟨path, .writing, 0⟩ text size)
      ((text ++ [0]).map fun c => transfer path c .writing) (.ok ()) := by
  induction text generalizing size with
  | nil => exact .call (.ret _)
  | cons c text ih =>
      rw [List.mem_cons, not_or] at nulFree
      rcases size with _ | size
      · cases long
      · rw [writeOneByOne, if_neg (Ne.symm nulFree.1)]
        exact .call (ih nulFree.2 (Nat.le_of_succ_le_succ long))

theorem runs_readAck (nulFree : 0 ∉ text) (fresh : Nat → Byte) (cells : Bytes) :
    Runs (readAck ⟨path, .reading, 0⟩ fresh text.length cells)
      ((text ++ [0]).map fun c => transfer path c .reading) (.ok (cells ++ (text ++ [0]))) := by
  induction text generalizing cells with
  | nil => exact .call (.ret _)
  | cons c text ih =>
      rw [List.mem_cons, not_or] at nulFree
      rw [List.length_cons, readAck, perform_bind]
      refine .call (b := some c) ?_
      dsimp only [Option.getD_some]
      rw [if_neg (Ne.symm nulFree.1)]
      have later := ih nulFree.2 (cells ++ [c])
      rwa [List.append_assoc] at later

theorem runs_readUrl (nulFree : 0 ∉ text) {room : Nat} (short : text.length < room) (got : Bytes) :
    Runs (readUrl ⟨path, .reading, 0⟩ room got)
      ((text ++ [0]).map fun c => transfer path c .reading) (.ok (got ++ text)) := by
  induction text generalizing room got with
  | nil =>
      rcases room with _ | room
      · cases short
      · rw [List.append_nil]
        exact .call (.ret _)
  | cons c text ih =>
      rw [List.mem_cons, not_or] at nulFree
      rcases room with _ | room
      · cases short
      · rw [readUrl, perform_bind]
        refine .call (b := some c) ?_
        dsimp only [Option.getD_some]
        rw [if_neg (Ne.symm nulFree.1)]
        have later := ih nulFree.2 (Nat.lt_of_succ_lt_succ short) (got ++ [c])
        rwa [List.append_assoc] at later

theorem runs_readBack (nulFree : 0 ∉ text) {left : Nat} (short : text.length ≤ left) (got : Bytes) :
    Runs (readBack ⟨path, .reading, 0⟩ left got)
      ((text ++ [0]).map fun c => transfer path c .reading) (.ok (got ++ text)) := by
  induction text generalizing left got with
  | nil =>
      rw [List.append_nil]
      rcases left with _ | left <;> exact .call (.ret _)
  | cons c text ih =>
      rw [List.mem_cons, not_or] at nulFree
      rcases left with _ | left
      · cases short
      · rw [readBack, perform_bind]
        refine .call (b := some c) ?_
        dsimp only [Option.getD_some]
        rw [if_neg (Ne.symm nulFree.1)]
        have later := ih nulFree.2 (Nat.le_of_succ_le_succ short) (got ++ [c])
        rwa [List.append_assoc] at later

end Loops

end IpcFtp
