import IpcFtp.Communication.Turns

/-!
# Connections of both builds

`connection_open` and `comm_accept` over sockets, from `comm.connection.socket.c` and
`comm.read.socket.c`, and what the two builds have in common (`Build`): the fields of a
connection, the two functions, and what their calls open, read and make.

The socket build sends the url of the client once and nothing back.
-/

namespace IpcFtp

open Lib Program

/-! ## Sockets -/

/-- A descriptor below zero stands for a failure; a read answers none when it reads no byte. -/
inductive SocketCall : Type → Type
  | socket : SocketCall Int
  /-- the address of the host -/
  | gethostbyname (host : Bytes) : SocketCall (Option Bytes)
  | connect (fd : Int) (address : Bytes) (port : Int) : SocketCall Int
  | accept (fd : Int) : SocketCall Int
  | read (fd : Int) : SocketCall (Option Byte)
  | write (fd : Int) (c : Byte) : SocketCall Bool

abbrev SocketProgram : Type → Type 1 := Program SocketCall Halt

/-- `connection_t` of the socket build. -/
structure SocketConnection : Type where
  clientAddr : Option CommAddr
  serverAddr : Option CommAddr
  connectionFile : Option Bytes
  state : ConnectionState
  reqFd : Option Int
  resFd : Option Int
  sense : CommSense
  deriving DecidableEq

namespace Socket

def errNoSuchHost : Int := 401
def errSocketNotConnected : Int := 402
def errSocketNotCreated : Int := 3100

def deref {α : Type} : Option α → SocketProgram α
  | some a => .ret a
  | none => .fault (.fault .nullPointer)

/-- `write_one_by_one`, on a socket. -/
def writeOneByOne (fd : Int) : Bytes → Nat → SocketProgram Unit
  | c :: data, size + 1 => do
    if c = 0 then
      let _ ← perform (.write fd 0)
    else
      let _ ← perform (.write fd c)
      writeOneByOne fd data size
  | _, _ => do
    let _ ← perform (.write fd 0)

/-- The loop of `comm_accept`, in a block of zeros of which `room` cells are left. -/
def readUrl (fd : Int) : Nat → Bytes → SocketProgram Bytes
  | 0, _ => .fault (.fault .outOfBounds)
  | room + 1, got => do
    let c ← perform (.read fd)
    if c.getD 0 = 0 then
      return got
    else
      readUrl fd room (got ++ [c.getD 0])

/-- `connection_open`; `sin_port` has 16 bits. -/
def connectionOpen (conn : SocketConnection) : SocketProgram (Int × SocketConnection) := do
  let fd ← perform .socket
  if fd < 0 then
    return (errSocketNotCreated, conn)
  else
    let server ← deref conn.serverAddr
    let host ← deref server.host
    match ← perform (.gethostbyname host) with
    | none => return (errNoSuchHost, conn)
    | some address =>
      let port ← deref server.port
      if (← perform (.connect fd address (port % 65536))) < 0 then
        return (errSocketNotConnected, conn)
      else
        let client ← deref conn.clientAddr
        writeOneByOne fd client.url client.url.length
        return (connectionOk, { conn with
          reqFd := some fd, resFd := some fd, state := .opened, sense := .clientServer })

/-- `comm_accept`.  A failure of `accept` and a bad address set the error object and do not
return, so that the end of the function sets it again. -/
def commAccept (conn : SocketConnection) : SocketProgram (CommError × SocketConnection) := do
  let file ← deref conn.connectionFile
  let fd ← perform (.accept (atoi file))
  let buffer ← readUrl fd (bufferLength .socket) []
  return (⟨noCommError, ascii "OK"⟩, { conn with
    clientAddr := some (addressFromUrl .socket buffer .new).2
    resFd := some fd
    reqFd := some fd
    state := .opened })

end Socket

/-! ## What the builds have in common -/

/-- A build: its connections, with the laws of an assignment to `server_addr`, and what an event
of its programs amounts to. -/
structure Build (Call : Type → Type) (Conn Fd : Type) : Type 1 where
  transport : Transport
  clientAddr : Conn → Option CommAddr
  serverAddr : Conn → Option CommAddr
  state : Conn → ConnectionState
  reqFd : Conn → Option Fd
  resFd : Conn → Option Fd
  setServer : Conn → CommAddr → Conn
  connectionOpen : Conn → Program Call Halt (Int × Conn)
  commAccept : Conn → Program Call Halt (CommError × Conn)
  /-- the descriptor it opens -/
  opens : Event Call → Option Fd
  /-- the cell it leaves in a block of zeros -/
  reads : Event Call → Option Byte
  makesFifo : Event Call → Bool
  serverAddr_setServer : ∀ conn address, serverAddr (setServer conn address) = some address
  setServer_self : ∀ conn address, serverAddr conn = some address → setServer conn address = conn
  setServer_setServer : ∀ conn address address',
    setServer (setServer conn address) address' = setServer conn address'
  state_setServer : ∀ conn address, state (setServer conn address) = state conn

/-- The FIFO build; `fresh` is what allocated memory holds. -/
def fifoBuild (fresh : Nat → Byte) : Build (FifoCall Bytes Byte) Connection Fd where
  transport := .fifo
  clientAddr := Connection.clientAddr
  serverAddr := Connection.serverAddr
  state := Connection.state
  reqFd := Connection.reqFd
  resFd := Connection.resFd
  setServer conn address := { conn with serverAddr := some address }
  connectionOpen := connectionOpen fresh
  commAccept := commAccept
  opens
    | ⟨.openEnd _ _, fd⟩ => fd
    | _ => none
  reads
    | ⟨.read _, c⟩ => some (c.getD 0)
    | _ => none
  makesFifo
    | ⟨.mkfifo _, made⟩ => made
    | _ => false
  serverAddr_setServer _ _ := rfl
  setServer_self := by
    intro conn address known
    cases conn
    cases known
    rfl
  setServer_setServer _ _ _ := rfl
  state_setServer _ _ := rfl

/-- The socket build. -/
def socketBuild : Build SocketCall SocketConnection Int where
  transport := .socket
  clientAddr := SocketConnection.clientAddr
  serverAddr := SocketConnection.serverAddr
  state := SocketConnection.state
  reqFd := SocketConnection.reqFd
  resFd := SocketConnection.resFd
  setServer conn address := { conn with serverAddr := some address }
  connectionOpen := Socket.connectionOpen
  commAccept := Socket.commAccept
  opens
    | ⟨.socket, fd⟩ | ⟨.accept _, fd⟩ => if fd < 0 then none else some fd
    | _ => none
  reads
    | ⟨.read _, c⟩ => some (c.getD 0)
    | _ => none
  makesFifo _ := false
  serverAddr_setServer _ _ := rfl
  setServer_self := by
    intro conn address known
    cases conn
    cases known
    rfl
  setServer_setServer _ _ _ := rfl
  state_setServer _ _ := rfl

end IpcFtp
