import IpcFtp.Communication.Urls
import IpcFtp.Lib.Contract
import IpcFtp.Lib.Words

/-!
# The paths of a server and its clients

The connection FIFO of a server and the two FIFOs of each of its clients, under the names that the
hosts of their addresses give them; `connection_close` of `comm.connection.fifo.c`, and which paths
the two sides of a handshake and this function name.

## Main results

* `nodup_channelPaths_iff`: when the five paths of a server and two clients are different.
* `connectionClose_spares`: what a close then leaves alone.

Paths are compared as they are written; a name with a slash in it may be another way to a file.
-/

namespace IpcFtp

open Lib Program

/-! ## Five paths -/

/-- The connection FIFO of a server, and the request and the response FIFO of two clients. -/
def channelPaths (server client client' : Bytes) : List Bytes :=
  [connectionPath server, fifoPath client server, fifoPath server client, fifoPath client' server,
    fifoPath server client']

/-- The server's name goes round from one client's name to another's. -/
def RoundBetween (client server client' : Bytes) : Prop :=
  GoesRound (client ++ ascii ".") server (ascii "." ++ client')

section Different

variable {client client' server a b : Bytes}

/-- A client called `in` would have the connection FIFO for its response FIFO. -/
theorem connectionPath_eq_fifoPath (server : Bytes) :
    connectionPath server = fifoPath server (ascii "in") := by
  simp [connectionPath, fifoPath, ascii]

theorem fifoPath_eq_iff {source target source' target' : Bytes} :
    fifoPath source target = fifoPath source' target' ↔
      source ++ ascii "." ++ target = source' ++ ascii "." ++ target' := by
  simp only [fifoPath, List.append_assoc, List.append_cancel_left_eq]
  simp only [← List.append_assoc, List.append_cancel_right_eq]

theorem fifoPath_right_inj : fifoPath server a = fifoPath server b ↔ a = b := by
  rw [fifoPath_eq_iff, List.append_cancel_left_eq]

theorem fifoPath_left_inj : fifoPath a server = fifoPath b server ↔ a = b := by
  rw [fifoPath_eq_iff, List.append_cancel_right_eq, List.append_cancel_right_eq]

/-- A request FIFO is a response FIFO. -/
theorem fifoPath_eq_fifoPath_iff :
    fifoPath client server = fifoPath server client' ↔ RoundBetween client server client' := by
  have nonempty : client ++ ascii "." ≠ [] := List.append_ne_nil_of_right_ne_nil _ (by decide)
  rw [fifoPath_eq_iff, List.append_assoc server, append_eq_append_iff_goesRound nonempty]
  rfl

theorem connectionPath_ne_response (client_ne : client ≠ ascii "in") :
    connectionPath server ≠ fifoPath server client := by
  rw [connectionPath_eq_fifoPath, ne_eq, fifoPath_right_inj]
  exact client_ne.symm

theorem connectionPath_ne_request (client_ne : client ≠ ascii "in") :
    connectionPath server ≠ fifoPath client server :=
  fun same => connectionPath_ne_response client_ne (fifoPath_eq_connectionPath same.symm).symm

end Different

/-- The five paths are different just if no client is called `in`, and the server's name does not go
round between the names of the clients, of either with itself among them. -/
theorem nodup_channelPaths_iff {client client' : Bytes} (server : Bytes) (other : client ≠ client') :
    (channelPaths server client client').Nodup ↔
      (∀ a ∈ [client, client'], a ≠ ascii "in") ∧
        ∀ a ∈ [client, client'], ∀ b ∈ [client, client'], ¬ RoundBetween a server b := by
  have responses : fifoPath server client ≠ fifoPath server client' :=
    fun same => other (fifoPath_right_inj.mp same)
  have requests : fifoPath client server ≠ fifoPath client' server :=
    fun same => other (fifoPath_left_inj.mp same)
  simp only [channelPaths, List.nodup_cons, List.mem_cons, List.not_mem_nil, or_false, not_or,
    ← fifoPath_eq_fifoPath_iff, forall_eq_or_imp, forall_eq]
  constructor
  · intro given
    obtain ⟨⟨-, response, -, response'⟩, ⟨own, -, across⟩, ⟨across', -⟩, own', -⟩ := given
    rw [connectionPath_eq_fifoPath, fifoPath_right_inj] at response response'
    exact ⟨⟨Ne.symm response, Ne.symm response'⟩, ⟨own, across⟩,
      fun same => across' same.symm, own'⟩
  · intro given
    obtain ⟨⟨named, named'⟩, ⟨own, across⟩, across', own'⟩ := given
    exact ⟨⟨connectionPath_ne_request named, connectionPath_ne_response named,
      connectionPath_ne_request named', connectionPath_ne_response named'⟩,
      ⟨own, requests, across⟩, ⟨Ne.symm across', responses⟩, own', not_false, List.nodup_nil⟩

theorem different_ann_bob : (channelPaths (ascii "s") (ascii "ann") (ascii "bob")).Nodup ∧
    ∀ a ∈ [ascii "ann", ascii "bob"], ∀ b ∈ [ascii "ann", ascii "bob"],
      ¬ RoundBetween a (ascii "s") b :=
  ⟨by decide, ((nodup_channelPaths_iff (ascii "s") (by decide)).mp (by decide)).2⟩

/-- A client called like its server has one FIFO for both ways, a client called `in` the server's
own, and two clients can share one. -/
theorem clients_share_paths :
    ([ascii "s", ascii "ann", ascii "in", ascii "x", ascii "x.y", ascii "y.x"].map fun name =>
        (addressFromUrl .fifo (ascii "fifo://" ++ name) .new).2.host) =
      [ascii "s", ascii "ann", ascii "in", ascii "x", ascii "x.y", ascii "y.x"].map some ∧
    ¬ (channelPaths (ascii "s") (ascii "s") (ascii "ann")).Nodup ∧
    fifoPath (ascii "s") (ascii "in") = connectionPath (ascii "s") ∧
    ¬ (channelPaths (ascii "s") (ascii "in") (ascii "ann")).Nodup ∧
    fifoPath (ascii "x.y") (ascii "x") = fifoPath (ascii "x") (ascii "y.x") ∧
    ¬ (channelPaths (ascii "x") (ascii "x.y") (ascii "y.x")).Nodup := by decide

/-! ## What the programs name -/

/-- The calls of `connection_close`. -/
inductive CloseCall : Type → Type
  | close (fd : Option Fd) : CloseCall Unit
  | access (path : Bytes) : CloseCall Bool
  | unlink (path : Bytes) : CloseCall Unit

/-- `if (exists(path)) unlink(path);` -/
def unlinkIfThere (path : Bytes) : Program CloseCall Fault Unit := do
  if ← perform (.access path) then perform (.unlink path)

/-- `connection_close`; the end of the response FIFO stays open. -/
def connectionClose (conn : Connection) : Program CloseCall Fault (Int × Connection) := do
  let client ← conn.clientAddr.elim (.fault .nullPointer) .ret
  let clientHost ← client.host.elim (.fault .nullPointer) .ret
  let server ← conn.serverAddr.elim (.fault .nullPointer) .ret
  let serverHost ← server.host.elim (.fault .nullPointer) .ret
  let requestFifo := fifoPath clientHost serverHost
  let responseFifo := fifoPath serverHost clientHost
  perform (.close conn.reqFd)
  unlinkIfThere requestFifo
  unlinkIfThere responseFifo
  return (connectionOk, { conn with resFd := none, reqFd := none, state := .closed })

def CloseCall.unlinks : ∀ {β : Type}, CloseCall β → Option Bytes
  | _, .unlink path => some path
  | _, _ => none

/-- What is opened is what was asked for. -/
def opensTheNamed (_ : Unit) (event : Event (FifoCall Bytes Byte)) (_ : Unit) : Prop :=
  match event with
  | ⟨.openEnd path _, opened⟩ => ∀ fd ∈ opened, fd.path = path
  | _ => True

/-- Every call is about one of these paths. -/
def Names (paths : List Bytes) {α : Type} (post : α → Prop) (p : FifoProgram α) : Prop :=
  p.Meets opensTheNamed (fun _ _ call => call.path ∈ paths)
    (fun result _ => ∀ a, result = .ok a → post a) ()

section Names

variable {paths : List Bytes} {path : Bytes} {α β : Type}

theorem names_ret {post : α → Prop} {a : α} (holds : post a) : Names paths post (.ret a) := by
  intro b same
  cases same
  exact holds

theorem names_fault {post : α → Prop} {halt : Halt} : Names paths post (.fault halt) := by
  intro b same
  cases same

theorem Names.bind {post : α → Prop} {final : β → Prop} {p : FifoProgram α}
    {next : α → FifoProgram β} (first : Names paths post p)
    (later : ∀ a, post a → Names paths final (next a)) : Names paths final (p >>= next) := by
  refine Meets.bind (first.mono fun result _ ends => ?_)
  cases result with
  | error e =>
      intro b same
      cases same
  | ok a => exact later a (ends a rfl)

theorem names_perform {c : FifoCall Bytes Byte β} (inside : c.path ∈ paths)
    (final : β → Prop) (known : ∀ b, opensTheNamed () ⟨c, b⟩ () → final b) :
    Names paths final (perform c) :=
  ⟨inside, fun b _ taken => names_ret (known b taken)⟩

/-- A call whose answer is of no matter. -/
theorem names_perform_bind {final : α → Prop} {c : FifoCall Bytes Byte β} {next : β → FifoProgram α}
    (inside : c.path ∈ paths) (later : ∀ b, Names paths final (next b)) :
    Names paths final (perform c >>= next) :=
  (names_perform inside (fun _ => True) fun _ _ => trivial).bind fun b _ => later b

/-- An open, which gives an end of what it names. -/
theorem names_openFifo_bind {final : α → Prop} {side : Side} {next : Option Fd → FifoProgram α}
    (inside : path ∈ paths) (fails : Names paths final (next none))
    (opens : ∀ fd : Fd, fd.path ∈ paths → Names paths final (next (some fd))) :
    Names paths final (openFifo path side >>= next) := by
  have opened : Names paths (fun opened => ∀ fd ∈ opened, fd.path = path) (openFifo path side) := by
    refine (names_perform inside _ fun b taken => taken).bind fun opened named => ?_
    cases opened with
    | none => exact names_ret named
    | some fd =>
        obtain rfl := named fd rfl
        exact names_perform_bind inside fun _ => names_ret named
  refine opened.bind fun opened named => ?_
  cases opened with
  | none => exact fails
  | some fd => exact opens fd (named fd rfl ▸ inside)

theorem names_writeOneByOne {fd : Fd} (inside : fd.path ∈ paths) (data : Bytes) (size : Nat) :
    Names paths (fun _ => True) (writeOneByOne fd data size) := by
  have last : Names paths (fun _ => True) (perform (.write fd 0) >>= fun _ => .ret ()) :=
    names_perform_bind inside fun _ => names_ret trivial
  induction data generalizing size with
  | nil => exact last
  | cons c data ih =>
      cases size with
      | zero => exact last
      | succ size =>
          unfold writeOneByOne
          split_ifs
          · exact last
          · exact names_perform_bind inside fun _ => ih size

theorem names_readAck {fd : Fd} (inside : fd.path ∈ paths) (fresh : Nat → Byte) (left : Nat)
    (cells : Bytes) : Names paths (fun _ => True) (readAck fd fresh left cells) := by
  induction left generalizing cells with
  | zero => exact names_perform_bind inside fun _ => names_ret trivial
  | succ left ih =>
      refine names_perform_bind inside fun c => ?_
      split_ifs
      · exact names_ret trivial
      · exact ih _

theorem names_readBack {fd : Fd} (inside : fd.path ∈ paths) (left : Nat) (got : Bytes) :
    Names paths (fun _ => True) (readBack fd left got) := by
  induction left generalizing got with
  | zero =>
      refine names_perform_bind inside fun c => ?_
      split_ifs
      · exact names_ret trivial
      · exact names_ret trivial
      · exact names_fault
  | succ left ih =>
      refine names_perform_bind inside fun c => ?_
      split_ifs
      · exact names_ret trivial
      · exact ih _

/-- The client of a handshake names the server's connection FIFO and its own two. -/
theorem names_connectionReach (fresh : Nat → Byte) (conn : Connection)
    (url clientHost serverHost : Bytes) :
    Names [connectionPath serverHost, fifoPath clientHost serverHost, fifoPath serverHost clientHost]
      (fun _ => True) (connectionReach fresh conn url clientHost serverHost) := by
  unfold connectionReach
  refine names_perform_bind (by simp [FifoCall.path]) fun made => ?_
  split_ifs
  · exact names_ret trivial
  refine names_perform_bind (by simp [FifoCall.path]) fun there => ?_
  split_ifs
  · exact names_ret trivial
  refine names_openFifo_bind (by simp) (names_ret trivial) fun fd inside => ?_
  refine (names_writeOneByOne inside _ _).bind fun _ _ => ?_
  refine names_perform_bind inside fun _ => ?_
  unfold connectionConfirm
  refine names_openFifo_bind (by simp) (names_ret trivial) fun fd inside => ?_
  refine (names_readAck inside _ _ _).bind fun cells _ => ?_
  split_ifs
  · exact names_ret trivial
  refine names_openFifo_bind (by simp) (names_ret trivial) fun fd inside => ?_
  exact (names_writeOneByOne inside _ _).bind fun _ _ => names_ret trivial

/-- Behind the connection FIFO the server names the two of the client that it has read of. -/
theorem names_commAnswer {conn : Connection} {buffer clientHost serverHost : Bytes}
    (client : (addressFromUrl .fifo buffer .new).2.host = some clientHost)
    (server : ∃ address, conn.serverAddr = some address ∧ address.host = some serverHost) :
    Names [fifoPath clientHost serverHost, fifoPath serverHost clientHost] (fun _ => True)
      (commAnswer conn buffer) := by
  obtain ⟨address, known, hosted⟩ := server
  unfold commAnswer
  dsimp only
  split_ifs
  · exact names_ret trivial
  rw [client, known]
  simp only [deref, ret_bind]
  rw [hosted]
  simp only [ret_bind]
  refine names_perform_bind (by simp [FifoCall.path]) fun made => ?_
  split_ifs
  · exact names_ret trivial
  unfold commConfirm
  refine names_openFifo_bind (by simp) names_fault fun fd inside => ?_
  refine (names_writeOneByOne inside _ _).bind fun _ _ => ?_
  refine names_openFifo_bind (by simp) (names_ret trivial) fun fd inside => ?_
  refine (names_readBack inside _ _).bind fun again _ => ?_
  split_ifs
  · exact names_ret trivial
  · exact names_ret trivial

/-- To listen, the server names its connection FIFO. -/
theorem names_commListen {conn : Connection} {serverHost : Bytes}
    (server : ∃ address, conn.serverAddr = some address ∧ address.host = some serverHost) :
    Names [connectionPath serverHost] (fun _ => True) (commListen conn) := by
  obtain ⟨address, known, hosted⟩ := server
  unfold commListen
  rw [known]
  simp only [deref, ret_bind]
  rw [hosted]
  simp only [ret_bind]
  refine names_perform_bind (by simp [FifoCall.path]) fun there => ?_
  split_ifs
  · refine names_perform_bind (by simp [FifoCall.path]) fun made => ?_
    split_ifs
    · exact names_ret trivial
    · exact names_ret trivial
  · exact names_ret trivial

end Names

/-- Every path that is removed is one of these. -/
def Unlinks (allowed : Bytes → Prop) {α : Type} (p : Program CloseCall Fault α) : Prop :=
  p.Meets (fun _ _ _ => True) (fun _ _ (call : CloseCall _) => ∀ path ∈ call.unlinks, allowed path)
    (fun _ _ => True) ()

section Close

variable {allowed : Bytes → Prop} {conn : Connection} {client server : CommAddr}
  {clientHost serverHost : Bytes}

theorem unlinks_unlinkIfThere {path : Bytes} (inside : allowed path) {α : Type}
    {next : Program CloseCall Fault α} (later : Unlinks allowed next) :
    Unlinks allowed (unlinkIfThere path >>= fun _ => next) := by
  refine Meets.bind ⟨by rintro _ ⟨⟩, fun there _ _ => ?_⟩
  cases there with
  | false => exact later
  | true =>
      refine ⟨?_, fun _ _ _ => later⟩
      intro _ given
      cases given
      exact inside

/-- A close removes the FIFOs of its own client only. -/
theorem unlinks_connectionClose (ofClient : conn.clientAddr = some client)
    (clientHosted : client.host = some clientHost) (ofServer : conn.serverAddr = some server)
    (serverHosted : server.host = some serverHost)
    (request : allowed (fifoPath clientHost serverHost))
    (response : allowed (fifoPath serverHost clientHost)) :
    Unlinks allowed (connectionClose conn) := by
  simp only [connectionClose, ofClient, ofServer, clientHosted, serverHosted, Option.elim_some,
    ret_bind]
  refine ⟨by rintro _ ⟨⟩, fun _ _ _ => ?_⟩
  exact unlinks_unlinkIfThere request (unlinks_unlinkIfThere response trivial)

/-- Where the paths are different, it spares the server's FIFO and those of another client. -/
theorem connectionClose_spares {client' : Bytes} (ofClient : conn.clientAddr = some client)
    (clientHosted : client.host = some clientHost) (ofServer : conn.serverAddr = some server)
    (serverHosted : server.host = some serverHost)
    (different : (channelPaths serverHost clientHost client').Nodup) :
    Unlinks (fun path => path ∉ [connectionPath serverHost, fifoPath client' serverHost,
      fifoPath serverHost client']) (connectionClose conn) := by
  simp only [channelPaths, List.nodup_cons, List.mem_cons, List.not_mem_nil, or_false,
    not_or] at different
  obtain ⟨⟨request, response, -⟩, ⟨-, here, there⟩, ⟨here', there'⟩, -⟩ := different
  refine unlinks_connectionClose ofClient clientHosted ofServer serverHosted ?_ ?_
  · simp only [List.mem_cons, List.not_mem_nil, or_false, not_or]
    exact ⟨Ne.symm request, here, there⟩
  · simp only [List.mem_cons, List.not_mem_nil, or_false, not_or]
    exact ⟨Ne.symm response, here', there'⟩

end Close

end IpcFtp
