import IpcFtp.Client.Shell
import IpcFtp.Communication.Socket

/-!
# What a failed `open` leaves

`cmd_open` with `connection_open` of either build in it.  What the client's loop takes for one
call with a code and a state is a run of it (`cmdOpen_shell`).

A command that does not open the connection should leave it as it was.  The server's address is
gone before anything is looked at, and from `connection_open` on the FIFO build has the
connection closed, whatever goes wrong.
-/

namespace IpcFtp

open Lib Program

variable {Call : Type → Type} {Conn Sock : Type} {b : Build Call Conn Sock} {conn conn' : Conn}
  {argv : List CString} {trace : List (Event Call)} {result : Except Halt (Int × Conn)}

namespace Build

/-- `cmd_open`. -/
def cmdOpen (b : Build Call Conn Sock) (conn : Conn) (argv : List CString) :
    Program Call Halt (Int × Conn) :=
  let conn := b.setServer conn .new
  if asksForHelp argv then return (commandOk, conn)
  else if b.state conn = .opened then return (errAlreadyDone, conn)
  else
    match argv with
    | [url] =>
      let conn := b.setServer conn (addressFromUrl b.transport url.bytes .new).2
      if (addressFromUrl b.transport url.bytes .new).1 ≠ addressOk then
        return (errBadAddress, conn)
      else do
        let opened ← b.connectionOpen conn
        return (if opened.1 ≠ 0 then 1 else commandOk, opened.2)
    | _ => return (errWrongArgumentsCount, conn)

/-- The command reaches `connection_open`, with this url. -/
structure Reaches (b : Build Call Conn Sock) (conn : Conn) (argv : List CString) (url : CString) :
    Prop where
  sole : argv = [url]
  help : asksForHelp argv = false
  closed : b.state conn ≠ .opened
  parses : (addressFromUrl b.transport url.bytes .new).1 = addressOk

/-- The address of the server that `cmd_open` puts into the connection. -/
def serverLeft (b : Build Call Conn Sock) (conn : Conn) (argv : List CString) : CommAddr :=
  match argv with
  | [url] =>
    if asksForHelp argv ∨ b.state conn = .opened then .new
    else (addressFromUrl b.transport url.bytes .new).2
  | _ => .new

/-- The connection was not open and is. -/
def Opens (b : Build Call Conn Sock) (conn : Conn) (result : Except Halt (Int × Conn)) : Prop :=
  ∃ conn', result = .ok (commandOk, conn') ∧ b.state conn' = .opened ∧ b.state conn ≠ .opened

/-- The connection is as it was, no FIFO has been made, the client reads on, and another `open`
does what it would have done. -/
structure LeavesAlone (b : Build Call Conn Sock) (conn : Conn) (trace : List (Event Call))
    (conn' : Conn) : Prop where
  state : b.state conn' = b.state conn
  serverAddr : b.serverAddr conn' = b.serverAddr conn
  reqFd : b.reqFd conn' = b.reqFd conn
  resFd : b.resFd conn' = b.resFd conn
  noFifo : ∀ event ∈ trace, b.makesFifo event = false
  goesOn : b.state conn' ≠ .closed
  retry : ∀ argv, b.cmdOpen conn' argv = b.cmdOpen conn argv

/-- The command ends, and leaves the connection alone. -/
def EndsAlone (b : Build Call Conn Sock) (conn : Conn) (trace : List (Event Call))
    (result : Except Halt (Int × Conn)) : Prop :=
  ∃ code conn', result = .ok (code, conn') ∧ b.LeavesAlone conn trace conn'

/-- The command ends at once, or it reaches `connection_open`. -/
theorem cmdOpen_cases (b : Build Call Conn Sock) (conn : Conn) (argv : List CString) :
    ((¬ ∃ url, b.Reaches conn argv url) ∧
      ∃ code, b.cmdOpen conn argv = .ret (code, b.setServer conn (b.serverLeft conn argv))) ∨
    ∃ url, b.Reaches conn argv url ∧
      b.serverLeft conn argv = (addressFromUrl b.transport url.bytes .new).2 ∧
      b.cmdOpen conn argv = (b.connectionOpen (b.setServer conn (b.serverLeft conn argv)) >>=
        fun opened => pure (if opened.1 ≠ 0 then 1 else commandOk, opened.2)) := by
  have early {code : Int} {left : CommAddr} (never : ¬ ∃ url, b.Reaches conn argv url)
      (same : b.serverLeft conn argv = left)
      (ends : b.cmdOpen conn argv = .ret (code, b.setServer conn left)) :
      (¬ ∃ url, b.Reaches conn argv url) ∧
        ∃ code, b.cmdOpen conn argv = .ret (code, b.setServer conn (b.serverLeft conn argv)) :=
    ⟨never, code, same ▸ ends⟩
  by_cases help : asksForHelp argv = true
  · refine .inl (early ?_ ?_ (if_pos help))
    · intro given
      obtain ⟨url, reaches⟩ := given
      exact Bool.false_ne_true (reaches.help.symm.trans help)
    · unfold serverLeft
      split
      · exact if_pos (.inl help)
      · rfl
  · have state := b.state_setServer conn .new
    by_cases opened : b.state conn = .opened
    · refine .inl (early ?_ ?_ ((if_neg help).trans (if_pos (state.trans opened))))
      · intro given
        obtain ⟨url, reaches⟩ := given
        exact reaches.closed opened
      · unfold serverLeft
        split
        · exact if_pos (.inr opened)
        · rfl
    · have past : b.cmdOpen conn argv = _ :=
        (if_neg help).trans (if_neg fun other => opened (state.symm.trans other))
      split at past
      · rename_i url
        have left : b.serverLeft conn [url] = (addressFromUrl b.transport url.bytes .new).2 :=
          if_neg (not_or.mpr ⟨help, opened⟩)
        rw [b.setServer_setServer, ← left] at past
        by_cases parses : (addressFromUrl b.transport url.bytes .new).1 = addressOk
        · rw [if_neg (not_not_intro parses)] at past
          exact .inr ⟨url, ⟨rfl, eq_false_of_ne_true help, opened, parses⟩, left, past⟩
        · rw [if_pos parses] at past
          refine .inl (early ?_ rfl past)
          intro given
          obtain ⟨other, reaches⟩ := given
          obtain rfl : url = other := by simpa using reaches.sole
          exact parses reaches.parses
      · rename_i many
        refine .inl (early ?_ ?_ past)
        · intro given
          obtain ⟨url, reaches⟩ := given
          exact many url reaches.sole
        · unfold serverLeft
          split
          · exact absurd rfl (many _)
          · rfl

end Build

/-! ## What `connection_open` leaves -/

section Fifo

variable {fresh : Nat → Byte} {start after : Connection} {code : Int}
  {events : List (Event (FifoCall Bytes Byte))}

theorem closed_of_pure {failure : Int} (fails : failure ≠ connectionOk)
    (runs : Runs (pure (failure, start) : FifoProgram (Int × Connection)) events (.ok (code, after)))
    (closed : start.state = .closed) : code ≠ connectionOk ∧ after.state = .closed := by
  obtain ⟨-, same⟩ := runs_pure.mp runs
  cases same
  exact ⟨fails, closed⟩

theorem state_of_connectionConfirm {url responseFifo requestFifo : Bytes}
    (closed : start.state = .closed)
    (runs : Runs (connectionConfirm fresh start url responseFifo requestFifo) events
      (.ok (code, after))) :
    (code = connectionOk ∧ after.state = .opened) ∨
      (code ≠ connectionOk ∧ after.state = .closed) := by
  unfold connectionConfirm at runs
  obtain ⟨fd, front, back, -, -, runs⟩ := runs.of_bind_ok
  rcases fd with _ | fd
  · refine .inr (closed_of_pure ?_ runs closed)
    decide
  · obtain ⟨cells, front', back', -, -, runs⟩ := runs.of_bind_ok
    dsimp only at runs
    split_ifs at runs with acked
    · refine .inr (closed_of_pure ?_ runs closed)
      decide
    · obtain ⟨fd', front, back, -, -, runs⟩ := runs.of_bind_ok
      rcases fd' with _ | fd'
      · refine .inr (closed_of_pure ?_ runs closed)
        decide
      · obtain ⟨_, front, back, -, -, runs⟩ := runs.of_bind_ok
        obtain ⟨-, same⟩ := runs_pure.mp runs
        cases same
        exact .inl ⟨rfl, rfl⟩

theorem state_of_connectionReach {url clientHost serverHost : Bytes} (closed : start.state = .closed)
    (runs : Runs (connectionReach fresh start url clientHost serverHost) events (.ok (code, after))) :
    (code = connectionOk ∧ after.state = .opened) ∨
      (code ≠ connectionOk ∧ after.state = .closed) := by
  unfold connectionReach at runs
  simp only [perform_bind] at runs
  obtain ⟨made, rest, -, runs⟩ := runs_call.mp runs
  split_ifs at runs with taken
  · refine .inr (closed_of_pure ?_ runs closed)
    decide
  · obtain ⟨there, rest, -, runs⟩ := runs_call.mp runs
    split_ifs at runs with offline
    · refine .inr (closed_of_pure ?_ runs closed)
      decide
    · obtain ⟨fd, front, back, -, -, runs⟩ := runs.of_bind_ok
      rcases fd with _ | fd
      · refine .inr (closed_of_pure ?_ runs closed)
        decide
      · obtain ⟨_, front, back, -, -, runs⟩ := runs.of_bind_ok
        obtain ⟨_, rest, -, runs⟩ := runs_call.mp runs
        refine state_of_connectionConfirm ?_ runs
        exact closed

/-- The connection is closed first, and open only in the end. -/
theorem state_of_connectionOpen
    (runs : Runs (connectionOpen fresh start) events (.ok (code, after))) :
    (code = connectionOk ∧ after.state = .opened) ∨
      (code ≠ connectionOk ∧ after.state = .closed) := by
  unfold connectionOpen at runs
  obtain ⟨client, front, back, -, -, runs⟩ := runs.of_bind_ok
  split_ifs at runs with invalid
  · exact .inr (closed_of_pure (by decide) runs rfl)
  · obtain ⟨server, front, back, -, -, runs⟩ := runs.of_bind_ok
    split_ifs at runs with invalid
    · exact .inr (closed_of_pure (by decide) runs rfl)
    · obtain ⟨clientHost, front, back, -, -, runs⟩ := runs.of_bind_ok
      obtain ⟨serverHost, front, back, -, -, runs⟩ := runs.of_bind_ok
      exact state_of_connectionReach rfl runs

end Fifo

section Sockets

variable {start after : SocketConnection} {code : Int} {events : List (Event SocketCall)}

theorem runs_writeOneByOne_socket {fd : Int} {text : Bytes} {size : Nat} {r : Except Halt Unit}
    (runs : Runs (Socket.writeOneByOne fd text size) events r) : r = .ok () := by
  induction text generalizing size events with
  | nil =>
      obtain ⟨_, rest, -, runs⟩ := runs_call.mp runs
      exact (runs_ret.mp runs).2
  | cons c text ih =>
      rcases size with _ | size
      · obtain ⟨_, rest, -, runs⟩ := runs_call.mp runs
        exact (runs_ret.mp runs).2
      · unfold Socket.writeOneByOne at runs
        split_ifs at runs
        · obtain ⟨_, rest, -, runs⟩ := runs_call.mp runs
          exact (runs_ret.mp runs).2
        · obtain ⟨_, rest, -, runs⟩ := runs_call.mp runs
          exact ih runs

theorem runs_deref_bind {α β : Type} {pointer : Option α} {next : α → SocketProgram β}
    {r : Except Halt β} (runs : Runs (Socket.deref pointer >>= next) events r) :
    (pointer = none ∧ ∃ e, r = .error e) ∨ ∃ a, pointer = some a ∧ Runs (next a) events r := by
  cases pointer with
  | none => exact .inl ⟨rfl, _, (runs_fault.mp runs).2⟩
  | some a => exact .inr ⟨a, rfl, runs⟩

/-- Both addresses are there, and that of the server is complete. -/
def Addressed (conn : SocketConnection) : Prop :=
  conn.clientAddr ≠ none ∧
    ∃ server, conn.serverAddr = some server ∧ server.host ≠ none ∧ server.port ≠ none

/-- A connection is open in the end or as it was, if it has both addresses. -/
theorem runs_connectionOpen_socket {r : Except Halt (Int × SocketConnection)}
    (runs : Runs (Socket.connectionOpen start) events r) :
    (∃ after, r = .ok (connectionOk, after) ∧ after.state = .opened) ∨
      (∃ code, code ≠ connectionOk ∧ r = .ok (code, start)) ∨
        ¬ Addressed start ∧ ∃ e, r = .error e := by
  unfold Socket.connectionOpen at runs
  simp only [perform_bind] at runs
  obtain ⟨fd, rest, -, runs⟩ := runs_call.mp runs
  split_ifs at runs with failed
  · exact .inr (.inl ⟨_, by decide, (runs_pure.mp runs).2⟩)
  rcases runs_deref_bind runs with ⟨unknown, crash⟩ | ⟨server, known, runs⟩
  · refine .inr (.inr ⟨?_, crash⟩)
    intro given
    obtain ⟨-, server, known, -⟩ := given
    cases unknown.symm.trans known
  rcases runs_deref_bind runs with ⟨unnamed, crash⟩ | ⟨host, hosted, runs⟩
  · refine .inr (.inr ⟨?_, crash⟩)
    intro given
    obtain ⟨-, server', known', hosted, -⟩ := given
    obtain rfl := Option.some.inj (known.symm.trans known')
    exact hosted unnamed
  obtain ⟨address, rest, -, runs⟩ := runs_call.mp runs
  rcases address with _ | address
  · exact .inr (.inl ⟨_, by decide, (runs_pure.mp runs).2⟩)
  rcases runs_deref_bind runs with ⟨portless, crash⟩ | ⟨port, ported, runs⟩
  · refine .inr (.inr ⟨?_, crash⟩)
    intro given
    obtain ⟨-, server', known', -, ported⟩ := given
    obtain rfl := Option.some.inj (known.symm.trans known')
    exact ported portless
  obtain ⟨connected, rest, -, runs⟩ := runs_call.mp runs
  split_ifs at runs with refused
  · exact .inr (.inl ⟨_, by decide, (runs_pure.mp runs).2⟩)
  rcases runs_deref_bind runs with ⟨unset, crash⟩ | ⟨client, own, runs⟩
  · exact .inr (.inr ⟨fun addressed => addressed.1 unset, crash⟩)
  rcases runs_bind.mp runs with ⟨e, ran, rfl⟩ | ⟨_, front, back, -, -, runs⟩
  · cases runs_writeOneByOne_socket ran
  · exact .inl ⟨_, (runs_pure.mp runs).2, rfl⟩

end Sockets

/-! ## The shell's view -/

/-- `connection_open` answers what the client's loop takes for possible. -/
def Build.AnswersShell (b : Build Call Conn Sock) : Prop :=
  ∀ {conn trace code conn'}, Runs (b.connectionOpen conn) trace (.ok (code, conn')) →
    (code = connectionOk ∧ b.state conn' = .opened) ∨
      (code ≠ connectionOk ∧ b.state conn' = match b.transport with
        | .fifo => .closed
        | .socket => b.state conn)

theorem answersShell_fifo (fresh : Nat → Byte) : (fifoBuild fresh).AnswersShell :=
  state_of_connectionOpen

theorem answersShell_socket : socketBuild.AnswersShell := by
  intro conn trace code conn' runs
  rcases runs_connectionOpen_socket runs with ⟨after, same, isOpen⟩ | ⟨code', failed, same⟩ |
    ⟨-, e, same⟩
  · cases same
    exact .inl ⟨rfl, isOpen⟩
  · cases same
    exact .inr ⟨failed, rfl⟩
  · cases same

/-- A command that ends is a run of the command over the shell's calls. -/
theorem cmdOpen_shell (answers : b.AnswersShell) (logged closing : Bool) {code : Int}
    (runs : Runs (b.cmdOpen conn argv) trace (.ok (code, conn'))) :
    ∃ events, Runs (IpcFtp.cmdOpen b.transport ⟨logged, b.state conn⟩ argv) events (.ok code) ∧
      Through (Shell.happens b.transport) ⟨⟨logged, b.state conn⟩, closing⟩ events
        ⟨⟨logged, b.state conn'⟩, closing⟩ := by
  have quiet {left : CommAddr} {code' : Int}
      (runs : Runs (.ret (code', b.setServer conn left) : Program Call Halt (Int × Conn)) trace
        (.ok (code, conn'))) :
      ∃ events, Runs (.ret code' : Client Int) events (.ok code) ∧
        Through (Shell.happens b.transport) ⟨⟨logged, b.state conn⟩, closing⟩ events
          ⟨⟨logged, b.state conn'⟩, closing⟩ := by
    obtain ⟨-, same⟩ := runs_ret.mp runs
    cases same
    refine ⟨[], .ret _, ?_⟩
    rw [b.state_setServer]
    rfl
  have isOpen : (⟨logged, b.state conn⟩ : ClientState).isOpen =
      decide (b.state (b.setServer conn .new) = .opened) := by
    rw [b.state_setServer]
    rfl
  rcases argv with _ | ⟨url, _ | ⟨second, rest⟩⟩ <;>
    simp only [Build.cmdOpen, IpcFtp.cmdOpen, isOpen, decide_eq_true_eq, b.setServer_setServer]
      at runs ⊢
  · split_ifs at runs ⊢
    · exact quiet runs
    · exact quiet runs
    · exact quiet runs
  · split_ifs at runs ⊢ with help opened parses
    · exact quiet runs
    · exact quiet runs
    · exact quiet runs
    · obtain ⟨inner, ran, same⟩ := runs_map.mp runs
      rcases inner with e | ⟨answer, after⟩
      · cases same
      · cases same
        refine ⟨_, .call (b := (answer, b.state after)) (.ret _), _, ⟨?_, rfl⟩, rfl⟩
        have possible := answers ran
        rwa [b.state_setServer] at possible
  · split_ifs at runs ⊢
    · exact quiet runs
    · exact quiet runs
    · exact quiet runs

/-! ## When a failed `open` leaves the connection alone -/

/-- Where only the server's address has been set, it has to have been there before. -/
theorem leavesAlone_setServer {left : CommAddr} (noFifo : ∀ event ∈ trace, b.makesFifo event = false)
    (live : b.state conn ≠ .closed) :
    b.LeavesAlone conn trace (b.setServer conn left) ↔ b.serverAddr conn = some left := by
  constructor
  · intro alone
    exact alone.serverAddr.symm.trans (b.serverAddr_setServer conn left)
  · intro known
    rw [b.setServer_self conn left known]
    exact ⟨rfl, rfl, rfl, rfl, noFifo, live, fun _ => rfl⟩

theorem endsAlone_setServer {code : Int} {left : CommAddr}
    (noFifo : ∀ event ∈ trace, b.makesFifo event = false) (live : b.state conn ≠ .closed) :
    b.EndsAlone conn trace (.ok (code, b.setServer conn left)) ↔ b.serverAddr conn = some left := by
  constructor
  · intro given
    obtain ⟨code', conn', same, alone⟩ := given
    cases same
    exact (leavesAlone_setServer noFifo live).mp alone
  · intro known
    exact ⟨code, _, rfl, (leavesAlone_setServer noFifo live).mpr known⟩

theorem not_closed {state : ConnectionState} (live : state = .idle ∨ state = .opened) :
    state ≠ .closed := by
  rcases live with rfl | rfl <;> decide

theorem endsAlone_iff_fifo {fresh : Nat → Byte} {start : Connection}
    {events : List (Event (FifoCall Bytes Byte))} {r : Except Halt (Int × Connection)}
    (live : start.state = .idle ∨ start.state = .opened)
    (runs : Runs ((fifoBuild fresh).cmdOpen start argv) events r)
    (fails : ¬ (fifoBuild fresh).Opens start r) :
    (fifoBuild fresh).EndsAlone start events r ↔
      (¬ ∃ url, (fifoBuild fresh).Reaches start argv url) ∧
        start.serverAddr = some ((fifoBuild fresh).serverLeft start argv) := by
  rcases (fifoBuild fresh).cmdOpen_cases start argv with ⟨early, code, ends⟩ | ⟨url, reaches, -, goes⟩
  · rw [ends] at runs
    obtain ⟨rfl, rfl⟩ := runs_ret.mp runs
    rw [endsAlone_setServer (by simp) (not_closed live)]
    exact (and_iff_right early).symm
  · have late : ¬ ((¬ ∃ url, (fifoBuild fresh).Reaches start argv url) ∧
        start.serverAddr = some ((fifoBuild fresh).serverLeft start argv)) :=
      fun both => both.1 ⟨url, reaches⟩
    refine iff_of_false ?_ late
    rw [goes] at runs
    obtain ⟨inner, ran, rfl⟩ := runs_map.mp runs
    intro given
    obtain ⟨code, after, same, alone⟩ := given
    rcases inner with e | ⟨opened, state⟩
    · cases same
    · rcases state_of_connectionOpen ran with ⟨rfl, isOpen⟩ | ⟨failed, closed⟩
      · exact fails ⟨state, rfl, isOpen, reaches.closed⟩
      · cases same
        exact alone.goesOn closed

/-- A url of the socket build has a host and a port. -/
theorem address_of_parses_socket {url : Bytes}
    (parses : (addressFromUrl .socket url .new).1 = addressOk) :
    (∃ host, (addressFromUrl .socket url .new).2.host = some host) ∧
      ∃ port, (addressFromUrl .socket url .new).2.port = some port := by
  obtain ⟨code, address, rest, same⟩ : ∃ code address rest,
      addressUpToHost (chr 's') url .new = (code, address, rest) := ⟨_, _, _, rfl⟩
  have hosted := host_of_addressUpToHost (chr 's') url .new
  unfold addressFromUrl at parses ⊢
  rw [same] at hosted
  simp only [same] at parses ⊢
  split_ifs at parses ⊢ with known
  · exact absurd parses known
  · obtain ⟨host, named⟩ := hosted (not_not.mp known)
    rcases rest with _ | ⟨c, start⟩
    · cases parses
    · dsimp only at parses ⊢
      split_ifs at parses ⊢ with colon digits
      · cases parses
      · exact ⟨⟨host, named⟩, _, rfl⟩
      · cases parses

theorem endsAlone_iff_socket {start : SocketConnection} {events : List (Event SocketCall)}
    {r : Except Halt (Int × SocketConnection)} (own : start.clientAddr ≠ none)
    (live : start.state = .idle ∨ start.state = .opened)
    (runs : Runs (socketBuild.cmdOpen start argv) events r) (fails : ¬ socketBuild.Opens start r) :
    socketBuild.EndsAlone start events r ↔
      start.serverAddr = some (socketBuild.serverLeft start argv) := by
  have noFifo : ∀ event ∈ events, socketBuild.makesFifo event = false := fun _ _ => rfl
  have closed : socketBuild.state start ≠ .closed := not_closed live
  rcases socketBuild.cmdOpen_cases start argv with ⟨-, code, ends⟩ | ⟨url, reaches, left, goes⟩
  · rw [ends] at runs
    obtain ⟨rfl, rfl⟩ := runs_ret.mp runs
    exact endsAlone_setServer noFifo closed
  · obtain ⟨⟨host, hosted⟩, port, ported⟩ := address_of_parses_socket reaches.parses
    have known : (socketBuild.setServer start (socketBuild.serverLeft start argv)).serverAddr =
        some (addressFromUrl .socket url.bytes .new).2 := congrArg some left
    rw [goes] at runs
    obtain ⟨inner, ran, rfl⟩ := runs_map.mp runs
    rcases runs_connectionOpen_socket ran with ⟨after, rfl, isOpen⟩ | ⟨code, failed, rfl⟩ |
      ⟨lacking, -⟩
    · exact absurd ⟨after, rfl, isOpen, reaches.closed⟩ fails
    · exact endsAlone_setServer noFifo closed
    · exact absurd ⟨own, _, known, by simp [hosted], by simp [ported]⟩ lacking

/-- An `open` that does not open leaves the connection alone exactly if it puts the address into
it that it holds and, in the FIFO build, does not reach `connection_open`. -/
theorem endsAlone_iff (argv : List CString) :
    (∀ (fresh : Nat → Byte) (conn : Connection) (trace : List (Event (FifoCall Bytes Byte)))
      (result : Except Halt (Int × Connection)),
      conn.state = .idle ∨ conn.state = .opened →
      Runs ((fifoBuild fresh).cmdOpen conn argv) trace result →
      ¬ (fifoBuild fresh).Opens conn result →
      ((fifoBuild fresh).EndsAlone conn trace result ↔
        (¬ ∃ url, (fifoBuild fresh).Reaches conn argv url) ∧
          conn.serverAddr = some ((fifoBuild fresh).serverLeft conn argv))) ∧
    ∀ (conn : SocketConnection) (trace : List (Event SocketCall))
      (result : Except Halt (Int × SocketConnection)),
      conn.clientAddr ≠ none → conn.state = .idle ∨ conn.state = .opened →
      Runs (socketBuild.cmdOpen conn argv) trace result → ¬ socketBuild.Opens conn result →
      (socketBuild.EndsAlone conn trace result ↔
        conn.serverAddr = some (socketBuild.serverLeft conn argv)) :=
  ⟨fun _ _ _ _ live runs fails => endsAlone_iff_fifo live runs fails,
    fun _ _ _ own live runs fails => endsAlone_iff_socket own live runs fails⟩

def helpArgument : CString := ⟨ascii "help", by decide⟩

def socketUrl : CString := ⟨ascii "socket://s:1", by decide⟩

/-- Connected to `s`. -/
def openClient : Connection where
  clientAddr := some (addressFromUrl .fifo (ascii "fifo://ann:3000") .new).2
  serverAddr := some (addressFromUrl .fifo (ascii "fifo://s") .new).2
  connectionFile := some (connectionPath (ascii "s"))
  state := .opened
  reqFd := some ⟨fifoPath (ascii "ann") (ascii "s"), .writing, 0⟩
  resFd := some ⟨fifoPath (ascii "s") (ascii "ann"), .reading, 0⟩
  sense := .clientServer

/-- Not connected, after an `open` that the server refused. -/
def refusedClient : SocketConnection where
  clientAddr := some (addressFromUrl .socket (ascii "socket://ann:3000") .new).2
  serverAddr := some (addressFromUrl .socket socketUrl.bytes .new).2
  connectionFile := none
  state := .idle
  reqFd := none
  resFd := none
  sense := .clientServer

/-- `open help` loses the address of the server; another `open` of the same server that fails
before it is connected is as if it had not been. -/
theorem endsAlone_help_retry :
    ¬ (fifoBuild fun _ => 0).EndsAlone openClient []
      (.ok (commandOk, (fifoBuild fun _ => 0).setServer openClient .new)) ∧
    socketBuild.EndsAlone refusedClient [⟨.socket, -1⟩] (.ok (1, refusedClient)) := by
  constructor
  · rw [(endsAlone_iff [helpArgument]).1 (fun _ => 0) openClient [] _ (.inr rfl) (.ret _)]
    · intro given
      obtain ⟨-, same⟩ := given
      exact absurd same (by decide)
    · intro given
      obtain ⟨conn', -, -, closed⟩ := given
      exact closed rfl
  · have runs : Runs (socketBuild.cmdOpen refusedClient [socketUrl]) [⟨.socket, -1⟩]
        (.ok (1, refusedClient)) := .call (.ret _)
    refine ((endsAlone_iff [socketUrl]).2 refusedClient _ _ (by decide) (.inl rfl) runs ?_).mpr rfl
    intro given
    obtain ⟨conn', same, -⟩ := given
    cases same

/-- Not connected yet. -/
def idleClient : Connection where
  clientAddr := openClient.clientAddr
  serverAddr := none
  connectionFile := none
  state := .idle
  reqFd := none
  resFd := none
  sense := .clientServer

/-- The server is not there: the connection is closed, which ends the client, and the response
FIFO stays, which another `open` cannot make again. -/
theorem offline_ends_client : ∃ trace conn',
    Runs ((fifoBuild fun _ => 0).cmdOpen idleClient [⟨ascii "fifo://s", by decide⟩]) trace
      (.ok (1, conn')) ∧
    ¬ (fifoBuild fun _ => 0).Opens idleClient (.ok (1, conn')) ∧ conn'.state = .closed ∧
    ⟨.mkfifo (fifoPath (ascii "s") (ascii "ann")), true⟩ ∈ trace ∧
    ¬ (fifoBuild fun _ => 0).EndsAlone idleClient trace (.ok (1, conn')) := by
  refine ⟨[⟨.mkfifo (fifoPath (ascii "s") (ascii "ann")), true⟩,
    ⟨.access (connectionPath (ascii "s")), false⟩], { idleClient with
      serverAddr := some (addressFromUrl .fifo (ascii "fifo://s") .new).2
      connectionFile := some (connectionPath (ascii "s"))
      state := .closed }, .call (.call (.ret _)), ?_, rfl, List.mem_cons_self, ?_⟩
  · intro given
    obtain ⟨conn', same, -⟩ := given
    cases same
  · intro given
    obtain ⟨code, conn', same, alone⟩ := given
    cases same
    exact alone.goesOn rfl

end IpcFtp
