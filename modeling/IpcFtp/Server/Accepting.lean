import IpcFtp.Communication.Socket

/-!
# Who is accepted

`listen_connections` around `comm_accept` of either build.  A client that does not follow the
handshake should be turned away and the master wait for the next.  But the master ends at any
code, and `comm_accept` of the socket build gives none.
-/

namespace IpcFtp

open Lib Program

variable {Call : Type → Type} {Conn Sock : Type} {b : Build Call Conn Sock} {conn conn' : Conn}
  {trace front back : List (Event Call)}

namespace Build

/-- One turn of the loop of `listen_connections`, up to the fork, and whether there is another. -/
def listenTurn (b : Build Call Conn Sock) (conn : Conn) :
    Program Call Halt (Bool × CommError × Conn) := do
  let accepted ← b.commAccept conn
  return (decide (accepted.1.code = 0), accepted.1, accepted.2)

/-- What `comm_accept` reads. -/
def cells (b : Build Call Conn Sock) (trace : List (Event Call)) : Bytes := trace.filterMap b.reads

/-- The url the client writes, and what follows it. -/
def clientUrl (b : Build Call Conn Sock) (trace : List (Event Call)) : Bytes := cstr (b.cells trace)

def echo (b : Build Call Conn Sock) (trace : List (Event Call)) : Bytes :=
  cstr ((b.cells trace).drop ((b.clientUrl trace).length + 1))

/-- A descriptor that was opened. -/
def Holds (b : Build Call Conn Sock) (trace : List (Event Call)) (fd : Option Sock) : Prop :=
  ∃ opened ∈ trace.filterMap b.opens, fd = some opened

/-- The code is 0, for a client with a url and with descriptors that were opened. -/
structure Accepts (b : Build Call Conn Sock) (trace : List (Event Call)) (error : CommError)
    (conn' : Conn) : Prop where
  code : error.code = 0
  parses : (addressFromUrl b.transport (b.clientUrl trace) .new).1 = addressOk
  reqFd : b.Holds trace (b.reqFd conn')
  resFd : b.Holds trace (b.resFd conn')

/-- The code is not 0, the connection is as it was, no FIFO has been made, and there is another
turn. -/
structure TurnsAway (b : Build Call Conn Sock) (conn : Conn) (trace : List (Event Call))
    (goesOn : Bool) (error : CommError) (conn' : Conn) : Prop where
  code : error.code ≠ 0
  state : b.state conn' = b.state conn
  reqFd : b.reqFd conn' = b.reqFd conn
  resFd : b.resFd conn' = b.resFd conn
  clientAddr : b.clientAddr conn' = b.clientAddr conn
  noFifo : ∀ event ∈ trace, b.makesFifo event = false
  goesOn : goesOn = true

/-- A turn accepts the client or turns it away. -/
def Handles (b : Build Call Conn Sock) (conn : Conn) (trace : List (Event Call))
    (result : Except Halt (Bool × CommError × Conn)) : Prop :=
  ∃ goesOn error conn', result = .ok (goesOn, error, conn') ∧
    (b.Accepts trace error conn' ∨ b.TurnsAway conn trace goesOn error conn')

/-- Nobody is turned away: behind a code there is no other turn. -/
theorem handles_iff {inner : Except Halt (CommError × Conn)} :
    b.Handles conn trace (inner.map fun accepted =>
        (decide (accepted.1.code = 0), accepted.1, accepted.2)) ↔
      ∃ error conn', inner = .ok (error, conn') ∧ b.Accepts trace error conn' := by
  constructor
  · intro given
    obtain ⟨goesOn, error, conn', same, handled⟩ := given
    rcases inner with e | ⟨error', after⟩
    · cases same
    · cases same
      rcases handled with accepts | away
      · exact ⟨_, _, rfl, accepts⟩
      · exact absurd (of_decide_eq_true away.goesOn) away.code
  · intro given
    obtain ⟨error, conn', rfl, accepts⟩ := given
    exact ⟨_, _, _, rfl, .inl accepts⟩

theorem cells_append : b.cells (front ++ back) = b.cells front ++ b.cells back :=
  List.filterMap_append

theorem Holds.append_left {fd : Option Sock} (holds : b.Holds front fd) :
    b.Holds (front ++ back) fd := by
  obtain ⟨opened, member, same⟩ := holds
  exact ⟨opened, by rw [List.filterMap_append]; exact List.mem_append_left _ member, same⟩

theorem Holds.append_right {fd : Option Sock} (holds : b.Holds back fd) :
    b.Holds (front ++ back) fd := by
  obtain ⟨opened, member, same⟩ := holds
  exact ⟨opened, by rw [List.filterMap_append]; exact List.mem_append_right _ member, same⟩

/-- The text up to its first zero is what is read first, and then what follows. -/
theorem clientUrl_of_cells {text rest : Bytes} (nulFree : 0 ∉ text)
    (cells : b.cells trace = text ++ 0 :: rest) :
    b.clientUrl trace = text ∧ b.echo trace = cstr rest := by
  have url : b.clientUrl trace = text := by
    rw [clientUrl, cells, cstr_append_of_nulFree nulFree]
    exact List.append_nil text
  refine ⟨url, ?_⟩
  rw [echo, url, cells]
  congr 1
  simp

/-- The loop that reads a url, in either build: it makes reads alone, and gets to the end of the
url or fills the block. -/
theorem runs_urlLoop (b : Build Call Conn Sock) (read : Call (Option Byte))
    (loop : Nat → Bytes → Program Call Halt Bytes)
    (reads : ∀ c, b.reads ⟨read, c⟩ = some (c.getD 0)) (full : ∀ got, ∃ e, loop 0 got = .fault e)
    (more : ∀ room got, loop (room + 1) got = .call read fun c =>
      if c.getD 0 = 0 then .ret got else loop room (got ++ [c.getD 0]))
    {room : Nat} {got : Bytes} {r : Except Halt Bytes} (runs : Runs (loop room got) trace r) :
    (∀ event ∈ trace, ∃ c, event = ⟨read, c⟩) ∧
      ((∃ text, 0 ∉ text ∧ text.length < room ∧ b.cells trace = text ++ [0] ∧ r = .ok (got ++ text)) ∨
        (0 ∉ b.cells trace ∧ (b.cells trace).length = room ∧ ∃ e, r = .error e)) := by
  induction room generalizing got trace with
  | zero =>
      obtain ⟨e, faults⟩ := full got
      rw [faults] at runs
      obtain ⟨rfl, rfl⟩ := runs_fault.mp runs
      exact ⟨List.forall_mem_nil _, .inr ⟨List.not_mem_nil, rfl, e, rfl⟩⟩
  | succ room ih =>
      rw [more] at runs
      obtain ⟨c, rest, rfl, later⟩ := runs_call.mp runs
      have cells : b.cells (⟨read, c⟩ :: rest) = c.getD 0 :: b.cells rest :=
        List.filterMap_cons_some (reads c)
      rw [cells]
      split_ifs at later with zero
      · obtain ⟨rfl, rfl⟩ := runs_ret.mp later
        refine ⟨List.forall_mem_singleton.mpr ⟨c, rfl⟩,
          .inl ⟨[], List.not_mem_nil, Nat.succ_pos room, ?_, ?_⟩⟩
        · rw [zero]
          rfl
        · rw [List.append_nil]
      · obtain ⟨sole, ⟨text, nulFree, short, read', rfl⟩ | ⟨nulFree, filled, e, rfl⟩⟩ := ih later
        · refine ⟨List.forall_mem_cons.mpr ⟨⟨c, rfl⟩, sole⟩,
            .inl ⟨c.getD 0 :: text, ?_, Nat.succ_lt_succ short, ?_, ?_⟩⟩
          · rw [List.mem_cons, not_or]
            exact ⟨Ne.symm zero, nulFree⟩
          · rw [read']
            rfl
          · rw [List.append_assoc]
            rfl
        · refine ⟨List.forall_mem_cons.mpr ⟨⟨c, rfl⟩, sole⟩,
            .inr ⟨?_, congrArg Nat.succ filled, e, rfl⟩⟩
          rw [List.mem_cons, not_or]
          exact ⟨Ne.symm zero, nulFree⟩

end Build

/-! ## The FIFO build -/

section Fifo

/-- An open or a creation that fails. -/
def Fails : Event (FifoCall Bytes Byte) → Prop
  | ⟨.openEnd _ _, fd⟩ => fd = none
  | ⟨.mkfifo _, made⟩ => made = false
  | _ => False

def Smooth (trace : List (Event (FifoCall Bytes Byte))) : Prop := ∀ event ∈ trace, ¬ Fails event

/-- The client writes a url that fits and parses and writes it again, and no call fails. -/
structure Introduces (b : Build (FifoCall Bytes Byte) Connection Fd)
    (trace : List (Event (FifoCall Bytes Byte))) : Prop where
  smooth : Smooth trace
  short : (b.clientUrl trace).length < bufferLength .fifo
  parses : (addressFromUrl .fifo (b.clientUrl trace) .new).1 = addressOk
  echo : b.echo trace = b.clientUrl trace

variable {fresh : Nat → Byte} {fd : Fd} {trace front back : List (Event (FifoCall Bytes Byte))}

theorem smooth_append : Smooth (front ++ back) ↔ Smooth front ∧ Smooth back :=
  List.forall_mem_append

theorem smooth_nil : Smooth [] := List.forall_mem_nil _

theorem smooth_cons {event : Event (FifoCall Bytes Byte)} :
    Smooth (event :: back) ↔ ¬ Fails event ∧ Smooth back :=
  List.forall_mem_cons

theorem runs_writeOneByOne_cells (fresh : Nat → Byte) {text : Bytes} {size : Nat}
    {r : Except Halt Unit}
    (runs : Runs (writeOneByOne fd text size) trace r) :
    r = .ok () ∧ Smooth trace ∧ (fifoBuild fresh).cells trace = [] := by
  have last {trace : List (Event (FifoCall Bytes Byte))}
      (runs : Runs (.call (.write fd 0) fun _ => .ret () : FifoProgram Unit) trace r) :
      r = .ok () ∧ Smooth trace ∧ (fifoBuild fresh).cells trace = [] := by
    obtain ⟨_, rest, rfl, later⟩ := runs_call.mp runs
    obtain ⟨rfl, rfl⟩ := runs_ret.mp later
    exact ⟨rfl, smooth_cons.mpr ⟨id, smooth_nil⟩, rfl⟩
  induction text generalizing size trace with
  | nil => exact last runs
  | cons c text ih =>
      rcases size with _ | size
      · exact last runs
      · unfold writeOneByOne at runs
        split_ifs at runs
        · exact last runs
        · obtain ⟨_, rest, rfl, later⟩ := runs_call.mp runs
          obtain ⟨rfl, smooth, cells⟩ := ih later
          exact ⟨rfl, smooth_cons.mpr ⟨id, smooth⟩, cells⟩

theorem runs_openFifo_cells (fresh : Nat → Byte) {path : Bytes} {side : Side}
    {r : Except Halt (Option Fd)}
    (runs : Runs (openFifo path side) trace r) :
    (r = .ok none ∧ ¬ Smooth trace) ∨ ∃ fd, r = .ok (some fd) ∧ Smooth trace ∧
      (fifoBuild fresh).cells trace = [] ∧ (fifoBuild fresh).Holds trace (some fd) := by
  unfold openFifo at runs
  simp only [perform_bind] at runs
  obtain ⟨opened, rest, rfl, later⟩ := runs_call.mp runs
  rcases opened with _ | fd
  · refine .inl ⟨(runs_pure.mp later).2, fun smooth => ?_⟩
    exact (smooth_cons.mp smooth).1 rfl
  · obtain ⟨_, rest, rfl, last⟩ := runs_call.mp later
    obtain ⟨rfl, rfl⟩ := runs_pure.mp last
    exact .inr ⟨fd, rfl, smooth_cons.mpr ⟨nofun, smooth_cons.mpr ⟨id, smooth_nil⟩⟩, rfl, fd,
      List.mem_singleton_self fd, rfl⟩

/-- The first message is read to its end or fills the block. -/
theorem runs_readUrl_cells (fresh : Nat → Byte) {room : Nat} {got : Bytes} {r : Except Halt Bytes}
    (runs : Runs (readUrl fd room got) trace r) :
    Smooth trace ∧
      ((∃ text, 0 ∉ text ∧ text.length < room ∧ (fifoBuild fresh).cells trace = text ++ [0] ∧
          r = .ok (got ++ text)) ∨
        (0 ∉ (fifoBuild fresh).cells trace ∧ ((fifoBuild fresh).cells trace).length = room ∧
          ∃ e, r = .error e)) := by
  obtain ⟨sole, ends⟩ := (fifoBuild fresh).runs_urlLoop (.read fd) (readUrl fd) (fun _ => rfl)
    (fun _ => ⟨_, rfl⟩) (fun _ _ => rfl) runs
  refine ⟨fun event member => ?_, ends⟩
  obtain ⟨c, rfl⟩ := sole event member
  exact id

/-- The second message is taken as it is read, or it is longer than what is left. -/
theorem runs_readBack_cells (fresh : Nat → Byte) {left : Nat} {got : Bytes} {r : Except Halt Bytes}
    (runs : Runs (readBack fd left got) trace r) :
    Smooth trace ∧ (r = .ok (got ++ cstr ((fifoBuild fresh).cells trace)) ∨
      left < (cstr ((fifoBuild fresh).cells trace)).length ∧ ∃ e, r = .error e) := by
  have cells {c : Option Byte} {rest : List (Event (FifoCall Bytes Byte))} (more : c.getD 0 ≠ 0) :
      cstr ((fifoBuild fresh).cells (⟨.read fd, c⟩ :: rest)) =
        c.getD 0 :: cstr ((fifoBuild fresh).cells rest) :=
    List.takeWhile_cons_of_pos (by simpa using more)
  have ends {c : Option Byte} (zero : c.getD 0 = 0) :
      cstr ((fifoBuild fresh).cells [⟨.read fd, c⟩]) = [] :=
    List.takeWhile_cons_of_neg (by simpa using zero)
  induction left generalizing got trace with
  | zero =>
      unfold readBack at runs
      simp only [perform_bind] at runs
      obtain ⟨c, rest, rfl, later⟩ := runs_call.mp runs
      split_ifs at later with zero inside
      · obtain ⟨rfl, rfl⟩ := runs_pure.mp later
        rw [ends zero, List.append_nil]
        exact ⟨smooth_cons.mpr ⟨id, smooth_nil⟩, .inl rfl⟩
      · obtain ⟨rfl, rfl⟩ := runs_pure.mp later
        rw [cells zero]
        exact ⟨smooth_cons.mpr ⟨id, smooth_nil⟩, .inl rfl⟩
      · obtain ⟨rfl, rfl⟩ := runs_fault.mp later
        rw [cells zero]
        exact ⟨smooth_cons.mpr ⟨id, smooth_nil⟩, .inr ⟨Nat.succ_pos _, _, rfl⟩⟩
  | succ left ih =>
      unfold readBack at runs
      simp only [perform_bind] at runs
      obtain ⟨c, rest, rfl, later⟩ := runs_call.mp runs
      split_ifs at later with zero
      · obtain ⟨rfl, rfl⟩ := runs_pure.mp later
        rw [ends zero, List.append_nil]
        exact ⟨smooth_cons.mpr ⟨id, smooth_nil⟩, .inl rfl⟩
      · obtain ⟨smooth, rfl | ⟨long, e, rfl⟩⟩ := ih later
        · rw [cells zero, List.append_assoc]
          exact ⟨smooth_cons.mpr ⟨id, smooth⟩, .inl rfl⟩
        · rw [cells zero]
          exact ⟨smooth_cons.mpr ⟨id, smooth⟩, .inr ⟨Nat.succ_lt_succ long, e, rfl⟩⟩

section Sequences

variable {α : Type} {r : Except Halt α}

theorem runs_openFifo_bind (fresh : Nat → Byte) {path : Bytes} {side : Side}
    {next : Option Fd → FifoProgram α}
    (runs : Runs (openFifo path side >>= next) trace r) :
    ∃ front back, trace = front ++ back ∧ ((¬ Smooth front ∧ Runs (next none) back r) ∨
      ∃ fd, Smooth front ∧ (fifoBuild fresh).cells front = [] ∧
        (fifoBuild fresh).Holds front (some fd) ∧ Runs (next (some fd)) back r) := by
  rcases runs_bind.mp runs with ⟨e, ran, rfl⟩ | ⟨opened, front, back, rfl, ran, later⟩
  · rcases runs_openFifo_cells fresh ran with ⟨same, -⟩ | ⟨fd, same, -⟩ <;> cases same
  · refine ⟨front, back, rfl, ?_⟩
    rcases runs_openFifo_cells fresh ran with ⟨same, fails⟩ | ⟨fd, same, smooth, cells, holds⟩
    · cases same
      exact .inl ⟨fails, later⟩
    · cases same
      exact .inr ⟨fd, smooth, cells, holds, later⟩

theorem runs_writeOneByOne_bind (fresh : Nat → Byte) {text : Bytes} {size : Nat}
    {next : Unit → FifoProgram α}
    (runs : Runs (writeOneByOne fd text size >>= next) trace r) :
    ∃ front back, trace = front ++ back ∧ Smooth front ∧ (fifoBuild fresh).cells front = [] ∧
      Runs (next ()) back r := by
  rcases runs_bind.mp runs with ⟨e, ran, rfl⟩ | ⟨_, front, back, rfl, ran, later⟩
  · cases (runs_writeOneByOne_cells fresh ran).1
  · obtain ⟨-, smooth, cells⟩ := runs_writeOneByOne_cells fresh ran
    exact ⟨front, back, rfl, smooth, cells, later⟩

end Sequences

/-- What `comm_accept` comes to: a code that is 0 behind a good handshake alone. -/
inductive Ends (b : Build (FifoCall Bytes Byte) Connection Fd) (good : Prop)
    (trace : List (Event (FifoCall Bytes Byte))) : Except Halt (CommError × Connection) → Prop
  | accepts {error : CommError} {after : Connection} (holds : good) (code : error.code = 0)
    (reqFd : b.Holds trace after.reqFd) (resFd : b.Holds trace after.resFd) :
    Ends b good trace (.ok (error, after))
  | refuses {r : Except Halt (CommError × Connection)} (fails : ¬ good)
    (code : ∀ error after, r = .ok (error, after) → error.code ≠ 0) : Ends b good trace r

variable {b : Build (FifoCall Bytes Byte) Connection Fd} {good good' : Prop}
  {start : Connection} {r : Except Halt (CommError × Connection)}

theorem Ends.behind (ends : Ends b good back r) (front : List (Event (FifoCall Bytes Byte)))
    (same : good' ↔ good) : Ends b good' (front ++ back) r := by
  cases ends with
  | accepts holds code reqFd resFd =>
      exact .accepts (same.mpr holds) code reqFd.append_right resFd.append_right
  | refuses fails code => exact .refuses (fun holds => fails (same.mp holds)) code

theorem Ends.of_pure {failure : CommError} (fails : ¬ good) (code : failure.code ≠ 0)
    (runs : Runs (pure (failure, start) : FifoProgram (CommError × Connection)) back r) :
    Ends b good trace r := by
  obtain ⟨-, rfl⟩ := runs_pure.mp runs
  refine .refuses fails fun error after same => ?_
  cases same
  exact code

theorem Ends.of_error {e : Halt} (fails : ¬ good) : Ends b good trace (.error e) :=
  .refuses fails fun _ _ => nofun

/-- From the second open on: the client has to send its url once more. -/
theorem ends_commConfirm {buffer requestFifo responseFifo : Bytes}
    (runs : Runs (commConfirm start buffer requestFifo responseFifo) trace r) :
    Ends (fifoBuild fresh) (Smooth trace ∧ cstr ((fifoBuild fresh).cells trace) = buffer)
      trace r := by
  unfold commConfirm at runs
  obtain ⟨opening, rest, rfl, ⟨fails, later⟩ | ⟨fd, smooth, cells₁, req, later⟩⟩ :=
    runs_openFifo_bind fresh runs
  · obtain ⟨-, rfl⟩ := runs_fault.mp later
    exact .of_error fun good => fails (smooth_append.mp good.1).1
  obtain ⟨writing, rest, rfl, smooth₂, cells₂, later⟩ := runs_writeOneByOne_bind fresh later
  obtain ⟨opening', rest, rfl, ⟨fails, later⟩ | ⟨fd', smooth₃, cells₃, res, later⟩⟩ :=
    runs_openFifo_bind fresh later
  · refine .of_pure (fun good => ?_) (by decide) later
    simp only [smooth_append] at good
    exact fails good.1.2.2.1
  have cells (back : List (Event (FifoCall Bytes Byte))) :
      (fifoBuild fresh).cells (opening ++ (writing ++ (opening' ++ back))) =
        (fifoBuild fresh).cells back := by
    simp only [Build.cells_append, cells₁, cells₂, cells₃, List.nil_append]
  rcases runs_bind.mp later with ⟨e, ran, rfl⟩ | ⟨again, reading, rest, rfl, ran, later⟩
  · obtain ⟨-, same | ⟨long, -⟩⟩ := runs_readBack_cells fresh ran
    · cases same
    · refine .of_error fun good => ?_
      rw [cells] at good
      rw [good.2] at long
      omega
  · obtain ⟨smoothly, same | ⟨-, e, same⟩⟩ := runs_readBack_cells fresh ran
    · cases same
      rw [List.nil_append] at later
      dsimp only at later
      split_ifs at later with other
      · have nothing := (runs_pure.mp later).1
        refine .of_pure (fun good => other ?_) (by decide) later
        rw [cells, nothing, List.append_nil] at good
        exact good.2
      · obtain ⟨rfl, rfl⟩ := runs_pure.mp later
        refine .accepts ⟨?_, ?_⟩ rfl req.append_left res.append_left.append_right.append_right
        · simp only [smooth_append]
          exact ⟨smooth, smooth₂, smooth₃, smoothly, smooth_nil⟩
        · rw [cells, List.append_nil]
          exact not_not.mp other
    · cases same

/-- From the url on, on a server that knows its own name. -/
theorem ends_commAnswer (fresh : Nat → Byte) {buffer host : Bytes} {server : CommAddr}
    (own : start.serverAddr = some server) (hosted : server.host = some host)
    (runs : Runs (commAnswer start buffer) trace r) :
    Ends (fifoBuild fresh) (Smooth trace ∧ (addressFromUrl .fifo buffer .new).1 = addressOk ∧
      cstr ((fifoBuild fresh).cells trace) = buffer) trace r := by
  unfold commAnswer at runs
  dsimp only at runs
  split_ifs at runs with parses
  · exact .of_pure (fun good => parses good.2.1) (by decide) runs
  have parses := not_not.mp parses
  obtain ⟨-, -, name, named⟩ := address_of_parses parses
  simp only [named, own, hosted, deref, ret_bind, perform_bind] at runs
  obtain ⟨made, rest, rfl, later⟩ := runs_call.mp runs
  split_ifs at later with taken
  · refine .of_pure (fun good => ?_) (by decide) later
    exact (smooth_cons.mp good.1).1 taken
  · refine (ends_commConfirm later).behind [⟨.mkfifo (fifoPath name host), made⟩] ?_
    have succeeds : ¬ Fails ⟨.mkfifo (fifoPath name host), made⟩ := taken
    rw [smooth_cons, and_iff_right succeeds, and_iff_right parses]
    rfl

/-- A server that listens is told 0 exactly behind a good handshake. -/
theorem ends_commAccept {path host : Bytes} {server : CommAddr}
    (file : start.connectionFile = some path) (own : start.serverAddr = some server)
    (hosted : server.host = some host) (runs : Runs (commAccept start) trace r) :
    Ends (fifoBuild fresh) (Introduces (fifoBuild fresh) trace) trace r := by
  unfold commAccept at runs
  rw [file, Option.elim_some] at runs
  obtain ⟨opening, rest, rfl, ⟨fails, later⟩ | ⟨fd, smooth, cells₁, -, later⟩⟩ :=
    runs_openFifo_bind fresh runs
  · exact .of_pure (fun good => fails (smooth_append.mp good.smooth).1) (by decide) later
  rcases runs_bind.mp later with ⟨e, ran, rfl⟩ | ⟨buffer, reading, rest, rfl, ran, later⟩
  · obtain ⟨-, ⟨text, -, -, -, same⟩ | ⟨nulFree, full, -⟩⟩ := runs_readUrl_cells fresh ran
    · cases same
    · refine .of_error fun good => ?_
      have short := good.short
      rw [Build.clientUrl, Build.cells_append, cells₁, List.nil_append, cstr_of_nulFree nulFree,
        full] at short
      exact Nat.lt_irrefl _ short
  · obtain ⟨smoothly, ⟨text, nulFree, short, cells₂, same⟩ | ⟨-, -, e, same⟩⟩ :=
      runs_readUrl_cells fresh ran
    · cases same
      simp only [perform_bind, List.nil_append] at later
      obtain ⟨_, answering, rfl, answers⟩ := runs_call.mp later
      have cells : (fifoBuild fresh).cells (opening ++ (reading ++ ⟨.close fd, ()⟩ :: answering)) =
          text ++ 0 :: (fifoBuild fresh).cells answering := by
        rw [Build.cells_append, Build.cells_append, cells₁, cells₂, List.nil_append,
          List.append_assoc]
        rfl
      obtain ⟨url, echo⟩ := Build.clientUrl_of_cells nulFree cells
      have introduces : Introduces (fifoBuild fresh)
            (opening ++ (reading ++ ⟨.close fd, ()⟩ :: answering)) ↔
          Smooth answering ∧ (addressFromUrl .fifo text .new).1 = addressOk ∧
            cstr ((fifoBuild fresh).cells answering) = text := by
        constructor
        · intro good
          have all := smooth_append.mp (smooth_append.mp good.smooth).2
          exact ⟨(smooth_cons.mp all.2).2, url ▸ good.parses, (echo ▸ good.echo).trans url⟩
        · intro given
          obtain ⟨smooth₃, parses, again⟩ := given
          refine ⟨?_, url.symm ▸ short, url.symm ▸ parses, (echo.trans again).trans url.symm⟩
          simp only [smooth_append, smooth_cons]
          exact ⟨smooth, smoothly, id, smooth₃⟩
      have closed := (ends_commAnswer fresh own hosted answers).behind [⟨.close fd, ()⟩] Iff.rfl
      exact (closed.behind reading Iff.rfl).behind opening introduces
    · cases same

theorem handles_iff_fifo {path host : Bytes} {server : CommAddr}
    {r : Except Halt (Bool × CommError × Connection)}
    (file : start.connectionFile = some path) (own : start.serverAddr = some server)
    (hosted : server.host = some host) (runs : Runs ((fifoBuild fresh).listenTurn start) trace r) :
    (fifoBuild fresh).Handles start trace r ↔ Introduces (fifoBuild fresh) trace := by
  obtain ⟨inner, ran, rfl⟩ := runs_map.mp runs
  rw [Build.handles_iff]
  rcases ends_commAccept file own hosted ran with ⟨good, code, reqFd, resFd⟩ | ⟨fails, code⟩
  · exact iff_of_true ⟨_, _, rfl, code, good.parses, reqFd, resFd⟩ good
  · refine iff_of_false ?_ fails
    intro given
    obtain ⟨error, after, same, accepts⟩ := given
    exact code error after same accepts.code

/-- The loop takes turn after turn as long as there is another. -/
theorem acceptLoop_succ (fresh : Nat → Byte) (n : Nat) (error : CommError) (conn : Connection) :
    acceptLoop (n + 1) error conn = ((fifoBuild fresh).listenTurn conn >>= fun turn =>
      if turn.1 then acceptLoop n turn.2.1 turn.2.2 else pure turn.2) := by
  unfold Build.listenTurn
  rw [bind_assoc]
  refine congrArg (commAccept conn >>= ·) (funext fun accepted => ?_)
  by_cases code : accepted.1.code = 0
  · simp [code]
  · simp [code]

end Fifo

/-! ## The socket build -/

section Sockets

variable {trace : List (Event SocketCall)} {start : SocketConnection}
  {r : Except Halt (CommError × SocketConnection)}

/-- The client is accepted and writes a url that fits and parses. -/
structure Calls (trace : List (Event SocketCall)) : Prop where
  accepted : ∀ listening fd, ⟨.accept listening, fd⟩ ∈ trace → 0 ≤ fd
  short : (socketBuild.clientUrl trace).length < bufferLength .socket
  parses : (addressFromUrl .socket (socketBuild.clientUrl trace) .new).1 = addressOk

/-- Whatever is read, the code is 0, unless the block is full. -/
theorem runs_commAccept_socket {file : Bytes} (known : start.connectionFile = some file)
    (runs : Runs (Socket.commAccept start) trace r) :
    ∃ fd reading, trace = ⟨.accept (atoi file), fd⟩ :: reading ∧
      (∀ event ∈ reading, ∃ c, event = ⟨.read fd, c⟩) ∧
      (((socketBuild.clientUrl trace).length < bufferLength .socket ∧ ∃ error after,
          r = .ok (error, after) ∧ error.code = 0 ∧ socketBuild.reqFd after = some fd ∧
            socketBuild.resFd after = some fd) ∨
        (bufferLength .socket ≤ (socketBuild.clientUrl trace).length ∧ ∃ e, r = .error e)) := by
  unfold Socket.commAccept at runs
  simp only [known, Socket.deref, ret_bind, perform_bind] at runs
  obtain ⟨fd, rest, rfl, later⟩ := runs_call.mp runs
  have cells {back : List (Event SocketCall)} :
      socketBuild.clientUrl (⟨.accept (atoi file), fd⟩ :: back) = cstr (socketBuild.cells back) := rfl
  have loops {back : List (Event SocketCall)} {r : Except Halt Bytes}
      (ran : Runs (Socket.readUrl fd (bufferLength .socket) []) back r) :=
    socketBuild.runs_urlLoop (.read fd) (Socket.readUrl fd) (fun _ => rfl) (fun _ => ⟨_, rfl⟩)
      (fun _ _ => rfl) ran
  rw [cells]
  rcases runs_bind.mp later with ⟨e, ran, rfl⟩ | ⟨buffer, reading, rest, rfl, ran, later⟩
  · obtain ⟨sole, ⟨text, -, -, -, same⟩ | ⟨nulFree, full, -⟩⟩ := loops ran
    · cases same
    · rw [cstr_of_nulFree nulFree]
      exact ⟨fd, _, rfl, sole, .inr ⟨full.ge, e, rfl⟩⟩
  · obtain ⟨sole, ⟨text, nulFree, short, read, -⟩ | ⟨-, -, e, same⟩⟩ := loops ran
    · obtain ⟨rfl, rfl⟩ := runs_pure.mp later
      refine ⟨fd, _, rfl, by rwa [List.append_nil], .inl ⟨?_, _, _, rfl, rfl, rfl, rfl⟩⟩
      rw [List.append_nil, read, cstr_append_of_nulFree nulFree]
      exact (List.append_nil text).symm ▸ short
    · cases same

theorem handles_iff_socket {file : Bytes} {r : Except Halt (Bool × CommError × SocketConnection)}
    (known : start.connectionFile = some file) (runs : Runs (socketBuild.listenTurn start) trace r) :
    socketBuild.Handles start trace r ↔ Calls trace := by
  obtain ⟨inner, ran, rfl⟩ := runs_map.mp runs
  rw [Build.handles_iff]
  obtain ⟨fd, reading, rfl, sole, ends⟩ := runs_commAccept_socket known ran
  have accepted {listening fd' : Int}
      (member : (⟨.accept listening, fd'⟩ : Event SocketCall) ∈
        ⟨.accept (atoi file), fd⟩ :: reading) : fd' = fd := by
    rcases List.mem_cons.mp member with same | later
    · cases same
      rfl
    · obtain ⟨c, same⟩ := sole _ later
      cases congrArg socketBuild.reads same
  have opened : (reading.filterMap socketBuild.opens) = [] := by
    rw [List.filterMap_eq_nil_iff]
    intro event member
    obtain ⟨c, rfl⟩ := sole event member
    rfl
  rcases ends with ⟨short, error, after, rfl, code, reqFd, resFd⟩ | ⟨long, e, rfl⟩
  · have holds : socketBuild.Holds (⟨.accept (atoi file), fd⟩ :: reading) (some fd) ↔ 0 ≤ fd := by
      have first : socketBuild.opens ⟨.accept (atoi file), fd⟩ =
        if fd < 0 then none else some fd := rfl
      rw [Build.Holds, List.filterMap_cons, first, opened]
      split_ifs with failed
      · simpa using failed
      · simpa using not_lt.mp failed
    constructor
    · intro given
      obtain ⟨error', after', same, accepts⟩ := given
      cases same
      refine ⟨fun listening fd' member => ?_, short, accepts.parses⟩
      rw [accepted member]
      have req := accepts.reqFd
      rw [reqFd] at req
      exact holds.mp req
    · intro calls
      have valid := holds.mpr (calls.accepted _ fd List.mem_cons_self)
      refine ⟨error, after, rfl, code, calls.parses, ?_, ?_⟩
      · rwa [reqFd]
      · rwa [resFd]
  · refine iff_of_false ?_ fun calls => absurd calls.short (Nat.not_lt.mpr long)
    intro given
    obtain ⟨error, after, same, -⟩ := given
    cases same

end Sockets

/-- A turn of a server that listens goes as it should exactly behind a good handshake. -/
theorem handles_iff_handshake (file : Bytes) :
    (∀ (fresh : Nat → Byte) (conn : Connection) (host : Bytes) (server : CommAddr)
      (trace : List (Event (FifoCall Bytes Byte)))
      (result : Except Halt (Bool × CommError × Connection)),
      conn.connectionFile = some file → conn.serverAddr = some server → server.host = some host →
      Runs ((fifoBuild fresh).listenTurn conn) trace result →
      ((fifoBuild fresh).Handles conn trace result ↔ Introduces (fifoBuild fresh) trace)) ∧
    ∀ (conn : SocketConnection) (trace : List (Event SocketCall))
      (result : Except Halt (Bool × CommError × SocketConnection)),
      conn.connectionFile = some file → Runs (socketBuild.listenTurn conn) trace result →
      (socketBuild.Handles conn trace result ↔ Calls trace) :=
  ⟨fun _ _ _ _ _ _ known own hosted runs => handles_iff_fifo known own hosted runs,
    fun _ _ _ known runs => handles_iff_socket known runs⟩

/-- A server that listens as `s`. -/
def listeningServer : Connection where
  clientAddr := none
  serverAddr := some (addressFromUrl .fifo (ascii "fifo://s") .new).2
  connectionFile := some (connectionPath (ascii "s"))
  state := .idle
  reqFd := none
  resFd := none
  sense := .serverClient

/-- The same on socket 3. -/
def listeningSocket : SocketConnection where
  clientAddr := none
  serverAddr := some (addressFromUrl .socket (ascii "socket://s:1") .new).2
  connectionFile := some (ascii "3")
  state := .idle
  reqFd := none
  resFd := none
  sense := .serverClient

/-- The connection FIFO, open for reading. -/
def knockFd : Fd := ⟨connectionPath (ascii "s"), .reading, 0⟩

/-- A client that writes `x` to the connection FIFO. -/
def knock : List (Event (FifoCall Bytes Byte)) :=
  [⟨.openEnd (connectionPath (ascii "s")) .reading, some knockFd⟩, ⟨.await knockFd, ()⟩,
    ⟨.read knockFd, some (chr 'x')⟩, ⟨.read knockFd, some 0⟩, ⟨.close knockFd, ()⟩]

theorem runs_knock : Runs ((fifoBuild fun _ => 0).listenTurn listeningServer) knock
    (.ok (false, ⟨errFifoInvalidAddress, ascii "Threeway handshake failed. Invalid Address"⟩,
      listeningServer)) :=
  .call (.call (.call (.call (.call (.ret _)))))

/-- A client that writes `url` to a socket. -/
def callOf (url : Bytes) : List (Event SocketCall) :=
  ⟨.accept 3, 4⟩ :: (url ++ [0]).map fun c => ⟨.read 4, some c⟩

/-- The socket server behind it. -/
def calledSocket (url : Bytes) : SocketConnection where
  clientAddr := some (addressFromUrl .socket url .new).2
  serverAddr := listeningSocket.serverAddr
  connectionFile := listeningSocket.connectionFile
  state := .opened
  reqFd := some 4
  resFd := some 4
  sense := .serverClient

theorem runs_callOf : Runs (socketBuild.listenTurn listeningSocket) (callOf (ascii "x"))
    (.ok (true, ⟨noCommError, ascii "OK"⟩, calledSocket (ascii "x"))) :=
  .call (.call (.call (.ret _)))

/-- A url is handled as it should be over sockets, and a text that is none is not over FIFOs. -/
theorem handles_callOf_url :
    ¬ (fifoBuild fun _ => 0).Handles listeningServer knock
      (.ok (false, ⟨errFifoInvalidAddress, ascii "Threeway handshake failed. Invalid Address"⟩,
        listeningServer)) ∧
    socketBuild.Handles listeningSocket (callOf (ascii "s://a:1"))
      (.ok (true, ⟨noCommError, ascii "OK"⟩, calledSocket (ascii "s://a:1"))) := by
  constructor
  · rw [(handles_iff_handshake _).1 (fun _ => 0) listeningServer _ _ knock _ rfl rfl rfl runs_knock]
    intro introduces
    exact absurd introduces.parses (by decide)
  · have runs : Runs (socketBuild.listenTurn listeningSocket) (callOf (ascii "s://a:1"))
        (.ok (true, ⟨noCommError, ascii "OK"⟩, calledSocket (ascii "s://a:1"))) :=
      .call (.call (.call (.call (.call (.call (.call (.call (.call (.ret _)))))))))
    rw [(handles_iff_handshake _).2 listeningSocket _ _ rfl runs]
    refine ⟨fun listening fd member => ?_, by decide, by decide⟩
    rcases List.mem_cons.mp member with same | later
    · cases same
      decide
    · obtain ⟨c, -, same⟩ := List.mem_map.mp later
      cases congrArg socketBuild.reads same

/-- `x` is no url: it ends the master over FIFOs, and is accepted over sockets. -/
theorem x_ends_master :
    (Runs ((fifoBuild fun _ => 0).listenTurn listeningServer) knock
        (.ok (false, ⟨errFifoInvalidAddress, ascii "Threeway handshake failed. Invalid Address"⟩,
          listeningServer)) ∧
      ¬ (fifoBuild fun _ => 0).Handles listeningServer knock
        (.ok (false, ⟨errFifoInvalidAddress, ascii "Threeway handshake failed. Invalid Address"⟩,
          listeningServer))) ∧
    Runs (socketBuild.listenTurn listeningSocket) (callOf (ascii "x"))
        (.ok (true, ⟨noCommError, ascii "OK"⟩, calledSocket (ascii "x"))) ∧
      ¬ socketBuild.Handles listeningSocket (callOf (ascii "x"))
        (.ok (true, ⟨noCommError, ascii "OK"⟩, calledSocket (ascii "x"))) := by
  refine ⟨⟨runs_knock, ?_⟩, runs_callOf, ?_⟩
  · intro given
    obtain ⟨goesOn, error, after, same, accepts | away⟩ := given
    · cases same
      exact absurd accepts.code (by decide)
    · cases same
      exact absurd away.goesOn (by decide)
  · intro given
    obtain ⟨goesOn, error, after, same, accepts | away⟩ := given
    · cases same
      exact absurd accepts.parses (by decide)
    · cases same
      exact away.code rfl

end IpcFtp
