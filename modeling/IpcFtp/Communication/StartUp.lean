import IpcFtp.Communication.Handshake
import IpcFtp.Communication.Paths

/-!
# A server and a client that start

The addresses that `main` of `client/main.c`, `cmd_open` and `listen_connections` of
`server/main.c` make, and the first calls of both in any order: `comm_listen` and then
`comm_accept` on one side, `connection_open` on the other, from no FIFOs at all.

* `opens_of_boot`: a client that looks for the server's FIFO before it is there finds the server
  offline, and leaves a FIFO behind that makes every other attempt fail.  From any other start the
  two open a connection, as if the server had been listening before.
-/

namespace IpcFtp

open Lib Program

/-! ## Addresses -/

theorem nulFree_clientUrl (name : CString) : 0 ∉ ascii "fifo://" ++ (name.bytes ++ ascii ":3000") :=
  List.not_mem_append (nulFree_ascii (by decide))
    (List.not_mem_append name.nulFree (nulFree_ascii (by decide)))

/-- `client_url` of the FIFO build. -/
def clientUrlOf (name : CString) : CString :=
  ⟨ascii "fifo://" ++ (name.bytes ++ ascii ":3000"), nulFree_clientUrl name⟩

/-- `addr` of `listen_connections` in the FIFO build. -/
def listenAddr (serverName : CString) : Bytes := ascii "fifo://" ++ serverName.bytes

/-- The host in a client's url. -/
def nameHost (name : CString) : Bytes := beforeDelimiter name.bytes

/-- Every url that begins so is an address. -/
theorem parts_of_fifo (text : Bytes) :
    UrlParts (chr 'f') (ascii "fifo://" ++ text) (ascii "fifo") (beforeDelimiter text)
      (fromDelimiter text) where
  text := by
    have both : ascii "fifo://" = ascii "fifo" ++ ascii "://" := rfl
    rw [List.append_assoc _ (beforeDelimiter text), beforeDelimiter_append_fromDelimiter, both]
  scheme := rfl
  protocol := by decide +kernel
  host := delimiterFree_beforeDelimiter text
  rest := isDelimiter_fromDelimiter text

theorem addressFromUrl_of_parts {url protocol host rest : Bytes}
    (parts : UrlParts (chr 'f') url protocol host rest) :
    addressFromUrl .fifo url .new = (addressOk, ⟨url, some protocol, some host, true, none⟩) := by
  rw [addressFromUrl, addressUpToHost_of_parts parts]
  rfl

theorem beforeDelimiter_append_colon (text rest : Bytes) :
    beforeDelimiter (text ++ chr ':' :: rest) = beforeDelimiter text := by
  induction text with
  | nil => rfl
  | cons c text ih =>
      unfold beforeDelimiter at ih ⊢
      rw [List.cons_append, List.takeWhile_cons, List.takeWhile_cons, ih]

theorem urlHost_clientUrlOf (name : CString) : urlHost (clientUrlOf name) = nameHost name := by
  have parts := parts_of_fifo (name.bytes ++ ascii ":3000")
  unfold urlHost clientUrlOf
  rw [addressFromUrl_of_parts parts]
  exact beforeDelimiter_append_colon name.bytes (ascii "3000")

/-- The connection of a client that is about to open a url. -/
def clientConnection (allocated : Connection) (name typed : CString) : Connection :=
  { allocated with
    clientAddr := some (addressFromUrl .fifo (clientUrlOf name).bytes .new).2
    serverAddr := some (addressFromUrl .fifo typed.bytes .new).2 }

/-- The connection of a server that is about to listen. -/
def serverConnection (allocated : Connection) (serverName : CString) : Connection :=
  { allocated with serverAddr := some (addressFromUrl .fifo (listenAddr serverName) .new).2 }

/-- What `comm_listen` makes of a connection. -/
def listeningOn (server : Connection) (serverHost : Bytes) : Connection :=
  { server with
    connectionFile := some (connectionPath serverHost), state := .idle, sense := .serverClient }

section Named

variable {allocated allocated' : Connection} {name typed serverName : CString}
  {protocol rest : Bytes}

theorem serverAddr_serverConnection (allocated : Connection) (serverName : CString) :
    ∃ address, (serverConnection allocated serverName).serverAddr = some address ∧
      address.host = some (nameHost serverName) := by
  refine ⟨_, rfl, ?_⟩
  rw [listenAddr, addressFromUrl_of_parts (parts_of_fifo serverName.bytes)]
  rfl

/-- A url that names the server introduces the client to it. -/
theorem introduced_of_parts
    (parts : UrlParts (chr 'f') typed.bytes protocol (nameHost serverName) rest) :
    Introduced (clientUrlOf name) (nameHost serverName) (clientConnection allocated name typed)
      (listeningOn (serverConnection allocated' serverName) (nameHost serverName)) where
  parses := by
    unfold clientUrlOf
    rw [addressFromUrl_of_parts (parts_of_fifo _)]
  client_addr := rfl
  server_addr := by
    refine ⟨_, rfl, ?_⟩
    rw [addressFromUrl_of_parts parts]
    exact ⟨rfl, rfl⟩
  own_addr := serverAddr_serverConnection allocated' serverName
  connection_file := rfl

end Named

/-! ## The first calls -/

/-- `listen_connections` from `comm_listen` to the end of its first `comm_accept`. -/
def listenConnections (server : Connection) : FifoProgram (CommError × Connection) := do
  let (error, server) ← commListen server
  if error.code ≠ noCommError then .fault .aborted else commAccept server

/-- Both before their first calls. -/
def Handshaking.boot (fresh : Nat → Byte) (client server : Connection) (fifos : Fifos Bytes Byte) :
    Handshaking where
  shared := fifos
  running
    | .client => some (connectionOpen fresh client >>= fun r => pure (.opened r.1 r.2))
    | .server => some (listenConnections server >>= fun r => pure (.accepted r.1 r.2))
  notes := fun _ => ()

/-- The connection of a client that finds no connection FIFO. -/
def foundOffline (client : Connection) (serverHost : Bytes) : Connection :=
  { client with state := .closed, connectionFile := some (connectionPath serverHost) }

/-- `connection_open` at its second call, with what it does when the FIFO is there. -/
def clientLooks (client : Connection) (serverHost : Bytes) (reaches : FifoProgram HandshakeResult) :
    FifoProgram HandshakeResult :=
  .call (.access (connectionPath serverHost)) fun found =>
    if found = false then .ret (.opened errServerOffline (foundOffline client serverHost))
    else reaches

/-- And at its first. -/
def clientMakes (url : CString) (client : Connection) (serverHost : Bytes)
    (reaches : FifoProgram HandshakeResult) : FifoProgram HandshakeResult :=
  .call (.mkfifo (fifoPath serverHost (urlHost url))) fun made =>
    if made = false then .ret (.opened errFifoFailConnection { client with state := .closed })
    else clientLooks client serverHost reaches

/-- The first `comm_accept`. -/
def serverAccepts (server : Connection) (serverHost : Bytes) : FifoProgram HandshakeResult :=
  commAccept (listeningOn server serverHost) >>= fun r => pure (.accepted r.1 r.2)

/-- `comm_listen` at its second call. -/
def serverMakes (server : Connection) (serverHost : Bytes) : FifoProgram HandshakeResult :=
  .call (.mkfifo (connectionPath serverHost)) fun made =>
    if made = false then .fault .aborted else serverAccepts server serverHost

/-- And at its first. -/
def serverLooks (server : Connection) (serverHost : Bytes) : FifoProgram HandshakeResult :=
  .call (.access (connectionPath serverHost)) fun there =>
    if there = false then serverMakes server serverHost else serverAccepts server serverHost

section First

variable {url : CString} {serverHost : Bytes} {client server : Connection}

theorem connectionOpen_eq (fresh : Nat → Byte)
    (introduced : Introduced url serverHost client (listeningOn server serverHost)) :
    ∃ reaches, (connectionOpen fresh client >>= fun r => pure (.opened r.1 r.2)) =
      clientMakes url client serverHost reaches := by
  obtain ⟨address, known, valid, hosted⟩ := introduced.server_addr
  obtain ⟨sameUrl, clientValid, host, clientHost⟩ := address_of_parses introduced.parses
  have named : urlHost url = host := by rw [urlHost, clientHost, Option.getD_some]
  have own := introduced.client_addr
  obtain ⟨clientAddr, serverAddr⟩ := client
  obtain rfl : clientAddr = _ := own
  obtain rfl : serverAddr = _ := known
  unfold connectionOpen
  simp only [deref, ret_bind, clientValid, valid, clientHost, hosted, sameUrl]
  unfold connectionReach clientMakes
  rw [named]
  refine ⟨?_, congrArg (Program.call _) (funext fun made => ?_)⟩
  rotate_left
  · cases made with
    | false => rfl
    | true =>
        refine congrArg (Program.call _) (funext fun found => ?_)
        cases found with
        | false => rfl
        | true => rfl

theorem listenConnections_eq {address : CommAddr} (own : server.serverAddr = some address)
    (hosted : address.host = some serverHost) :
    (listenConnections server >>= fun r => pure (.accepted r.1 r.2)) =
      serverLooks server serverHost := by
  obtain ⟨clientAddr, serverAddr⟩ := server
  obtain rfl : serverAddr = _ := own
  unfold listenConnections commListen
  simp only [deref, ret_bind, hosted]
  refine congrArg (Program.call _) (funext fun there => ?_)
  cases there with
  | true => rfl
  | false =>
      refine congrArg (Program.call _) (funext fun made => ?_)
      cases made with
      | false => rfl
      | true => rfl

end First

/-! ## Every order of the first calls -/

/-- The client looks for the connection FIFO before the server has made it. -/
def LooksEarly (connectionFile : Bytes) (acts : List HandshakingAct) : Prop :=
  ∃ front back, acts = front ++ .call .client ⟨.access connectionFile, false⟩ :: back ∧
    .call .server ⟨.mkfifo connectionFile, true⟩ ∉ front

/-- What a start is to come to, so far and at its end. -/
structure Handshaking.Opens (capacity : Nat) (url : CString) (client : Connection)
    (serverHost : Bytes) (acts : List HandshakingAct) (s : Handshaking) : Prop where
  faultless : ∀ role e, s.running role ≠ some (.fault e)
  offline : LooksEarly (connectionPath serverHost) acts →
    s.running .client = some (.ret (.opened errServerOffline (foundOffline client serverHost))) ∧
      (∀ r, s.running .server ≠ some (.ret r)) ∧
        ∀ again : Connection, again.clientAddr = client.clientAddr →
          again.serverAddr = client.serverAddr → ∀ fresh trace r fifos,
            Runs (connectionOpen fresh again) trace r →
              Through (Fifos.happens capacity) s.shared trace fifos →
                r = .ok (errFifoFailConnection, { again with state := .closed }) ∧ fifos = s.shared
  opened : ¬ LooksEarly (connectionPath serverHost) acts → ∀ r, s.running .client = some (.ret r) →
    ∃ conn, r = .opened connectionOk conn ∧ conn.state = .opened
  accepted : ∀ r, s.running .server = some (.ret r) →
    ∃ error conn, r = .accepted error conn ∧ error.code = noCommError ∧ conn.state = .opened ∧
      ∃ address address', conn.clientAddr = some address ∧ client.clientAddr = some address' ∧
        address.url = url.bytes ∧ address'.url = url.bytes
  moves : LooksEarly (connectionPath serverHost) acts ∨ (s.Ended .client ∧ s.Ended .server) ∨
    ∃ act s', onlyCalls s act ∧ Handshaking.step capacity s act s'
  bounded : acts.length ≤ 6 * url.bytes.length + 25

theorem not_looksEarly {connectionFile : Bytes} {acts : List HandshakingAct}
    (unlooked : .call .client ⟨.access connectionFile, false⟩ ∉ acts) :
    ¬ LooksEarly connectionFile acts := by
  rintro ⟨front, back, rfl, -⟩
  exact unlooked (List.mem_append_right _ (List.mem_cons_self ..))

/-- The notes say nothing. -/
theorem Handshaking.ext_running {s t : Handshaking} (shared : s.shared = t.shared)
    (running : ∀ role, s.running role = t.running role) : s = t := by
  obtain ⟨shared', running', notes⟩ := s
  obtain ⟨shared'', running'', notes'⟩ := t
  obtain rfl : shared' = shared'' := shared
  obtain rfl : running' = running'' := funext running
  obtain rfl : notes = notes' := Subsingleton.elim ..
  rfl

section Booted

variable {url : CString} {serverHost : Bytes} {client server : Connection} {capacity : Nat}
  {fresh : Nat → Byte} {fifos : Fifos Bytes Byte} {reaches : FifoProgram HandshakeResult}
  {acts : List HandshakingAct} {s s' : Handshaking} {made looked : Bool}

/-- The client has not looked, and the server has not made its FIFO. -/
structure Booting (url : CString) (serverHost : Bytes) (client server : Connection)
    (fifos : Fifos Bytes Byte) (reaches : FifoProgram HandshakeResult) (made looked : Bool)
    (acts : List HandshakingAct) (s : Handshaking) : Prop where
  shared : s.shared =
    if made then fifos.replace (fifoPath serverHost (urlHost url)) .empty else fifos
  client : s.running .client = some
    (if made then clientLooks client serverHost reaches
      else clientMakes url client serverHost reaches)
  server : s.running .server = some
    (if looked then serverMakes server serverHost else serverLooks server serverHost)
  unmade : .call .server ⟨.mkfifo (connectionPath serverHost), true⟩ ∉ acts
  unlooked : .call .client ⟨.access (connectionPath serverHost), false⟩ ∉ acts
  count : acts.length = made.toNat + looked.toNat

/-- The server when no client will come: before its FIFO is there, and when it opens it. -/
inductive ServerAlone (url : CString) (serverHost : Bytes) (client server : Connection)
    (s : Handshaking) : Nat → Prop
  | listening (looked : Bool) : s.shared (connectionPath serverHost) = none →
    s.running .server = some
      (if looked then serverMakes server serverHost else serverLooks server serverHost) →
    ServerAlone url serverHost client server s looked.toNat
  | accepting {k : Nat} {p : FifoProgram HandshakeResult} : k ≤ 1 →
    s.shared (connectionPath serverHost) = some (.channel (urlWord url) 0 k) →
    s.running .server = some p →
    Runs p ((roleScript url serverHost .server).drop k)
      (.ok (handshakeResult url serverHost client (listeningOn server serverHost) .server)) →
    ServerAlone url serverHost client server s (k + 2)

/-- The client has looked too early. -/
structure FoundOffline (url : CString) (serverHost : Bytes) (client server : Connection)
    (acts : List HandshakingAct) (s : Handshaking) : Prop where
  early : LooksEarly (connectionPath serverHost) acts
  ended : s.running .client =
    some (.ret (.opened errServerOffline (foundOffline client serverHost)))
  response : s.shared (fifoPath serverHost (urlHost url)) = some .empty
  alone : ∃ k, ServerAlone url serverHost client server s k ∧ acts.length = k + 2

/-- The handshake goes on as if the server had been listening. -/
structure Meeting (url : CString) (serverHost : Bytes) (client server : Connection)
    (acts : List HandshakingAct) (s : Handshaking) : Prop where
  unlooked : .call .client ⟨.access (connectionPath serverHost), false⟩ ∉ acts
  met : ∃ acts', OnScript url serverHost client (listeningOn server serverHost) acts' s ∧
    acts.length = acts'.length + 2

/-- One of the three. -/
inductive Booted (url : CString) (serverHost : Bytes) (client server : Connection)
    (fifos : Fifos Bytes Byte) (reaches : FifoProgram HandshakeResult)
    (acts : List HandshakingAct) (s : Handshaking) : Prop
  | booting (made looked : Bool) :
    Booting url serverHost client server fifos reaches made looked acts s →
    Booted url serverHost client server fifos reaches acts s
  | offline : FoundOffline url serverHost client server acts s →
    Booted url serverHost client server fifos reaches acts s
  | meeting : Meeting url serverHost client server acts s →
    Booted url serverHost client server fifos reaches acts s

section Step

variable {role : Role} {event : Event (FifoCall Bytes Byte)}
  (distinct : PathsApart (connectionPath serverHost) (fifoPath serverHost (urlHost url))
    (fifoPath (urlHost url) serverHost))
  (introduced : Introduced url serverHost client (listeningOn server serverHost))
  (short : url.bytes.length < bufferLength .fifo)
  (unlistened : fifos (connectionPath serverHost) = none)
  (absent : fifos (fifoPath serverHost (urlHost url)) = none)
  (absent' : fifos (fifoPath (urlHost url) serverHost) = none)
  (opens : (connectionOpen fresh client >>= fun r => pure (.opened r.1 r.2)) =
    clientMakes url client serverHost reaches)

include distinct unlistened in
/-- Nobody makes the connection FIFO but the server. -/
theorem Booting.no_fifo
    (booting : Booting url serverHost client server fifos reaches made looked acts s) :
    s.shared (connectionPath serverHost) = none := by
  rw [booting.shared]
  cases made with
  | false => exact unlistened
  | true => exact (Function.update_of_ne distinct.response.symm ..).trans unlistened

include opens in
/-- The server makes its FIFO before the client calls anything: that is where a handshake starts. -/
theorem Booting.eq_start
    (booting : Booting url serverHost client server fifos reaches false true acts s)
    (shared : s'.shared = s.shared.replace (connectionPath serverHost) .empty)
    (client' : s'.running .client = s.running .client)
    (server' : s'.running .server = some (serverAccepts server serverHost)) :
    s' = .start fresh client (listeningOn server serverHost)
      (fifos.replace (connectionPath serverHost) .empty) := by
  refine Handshaking.ext_running ?_ fun role => ?_
  · rw [shared, booting.shared]
    rfl
  · cases role with
    | client =>
        rw [client', booting.client]
        exact congrArg some opens.symm
    | server => exact server'

include distinct absent opens in
/-- It makes it behind the first call of the client: the two calls may as well come in the other
order. -/
theorem Booting.step_start
    (booting : Booting url serverHost client server fifos reaches true true acts s)
    (shared : s'.shared = s.shared.replace (connectionPath serverHost) .empty)
    (client' : s'.running .client = s.running .client)
    (server' : s'.running .server = some (serverAccepts server serverHost)) :
    Handshaking.step capacity (.start fresh client (listeningOn server serverHost)
        (fifos.replace (connectionPath serverHost) .empty))
      (.call .client ⟨.mkfifo (fifoPath serverHost (urlHost url)), true⟩) s' := by
  let listening := fifos.replace (connectionPath serverHost) .empty
  have first : (Handshaking.start fresh client (listeningOn server serverHost) listening).running
      .client = some (clientMakes url client serverHost reaches) := congrArg some opens
  have there : listening (fifoPath serverHost (urlHost url)) = none :=
    (Function.update_of_ne distinct.response ..).trans absent
  have makes : Fifos.happens capacity listening
      ⟨.mkfifo (fifoPath serverHost (urlHost url)), true⟩
      (listening.replace (fifoPath serverHost (urlHost url)) .empty) := by
    simp only [Fifos.happens, Fifos.answer, there]
  convert Processes.Step.call first makes using 1
  refine Handshaking.ext_running ?_ fun role => ?_
  · rw [shared, booting.shared]
    exact Function.update_comm distinct.response ..
  · cases role with
    | client =>
        rw [client', booting.client]
        simp only [Function.update_self, if_true, Bool.true_eq_false, if_false]
    | server =>
        have other : Role.server ≠ .client := by decide
        rw [server']
        simp only [Function.update_of_ne other]
        rfl

include distinct introduced short absent absent' opens in
/-- The server makes its FIFO in time. -/
theorem Booting.listens
    (booting : Booting url serverHost client server fifos reaches made true acts s)
    (shared : s'.shared = s.shared.replace (connectionPath serverHost) .empty)
    (client' : s'.running .client = s.running .client)
    (server' : s'.running .server = some (serverAccepts server serverHost)) :
    ∃ acts', OnScript url serverHost client (listeningOn server serverHost) acts' s' ∧
      acts'.length = made.toNat := by
  have start : Along url serverHost client (listeningOn server serverHost) [] .start
      (.start fresh client (listeningOn server serverHost)
        (fifos.replace (connectionPath serverHost) .empty)) :=
    along_start introduced short (Function.update_self ..)
      ((Function.update_of_ne distinct.response ..).trans absent)
      ((Function.update_of_ne distinct.request ..).trans absent')
  cases made with
  | false =>
      have same := booting.eq_start opens shared client' server'
      exact ⟨[], ⟨.start, same ▸ start⟩, rfl⟩
  | true =>
      have taken : Handshaking.step 0 _ _ s' :=
        booting.step_start distinct absent opens shared client' server'
      exact ⟨_, start.call distinct taken, rfl⟩

include distinct introduced short unlistened absent absent' opens in
/-- One of the first two calls of either. -/
theorem Booting.step
    (booting : Booting url serverHost client server fifos reaches made looked acts s)
    (taken : Handshaking.step capacity s (.call role event) s') :
    Booted url serverHost client server fifos reaches (acts ++ [.call role event]) s' := by
  have no_fifo := booting.no_fifo distinct unlistened
  obtain ⟨next, runs, happened, own, -, others⟩ := Processes.of_step_call taken
  obtain ⟨call, answer⟩ := event
  unfold Fifos.happens at happened
  cases role with
  | client =>
      have server := (others .server (by decide)).1.trans booting.server
      have atCall := Option.some.inj (booting.client.symm.trans runs)
      cases made with
      | false =>
          cases atCall
          have there : s.shared (fifoPath serverHost (urlHost url)) = none := by
            rw [booting.shared]
            exact absent
          simp only [Fifos.answer, there, Option.some.injEq, Prod.mk.injEq] at happened
          obtain ⟨rfl, shared⟩ := happened
          refine .booting true looked ⟨?_, own, server, ?_, ?_, ?_⟩
          · rw [← shared, booting.shared]
            rfl
          · simpa using booting.unmade
          · simpa using booting.unlooked
          · rw [List.length_append, booting.count]
            simp only [Bool.toNat_false, Bool.toNat_true, List.length_singleton]
            omega
      | true =>
          cases atCall
          simp only [Fifos.answer, no_fifo, Option.isSome_none, Option.some.injEq,
            Prod.mk.injEq] at happened
          obtain ⟨rfl, shared⟩ := happened
          refine .offline ⟨⟨acts, [], rfl, booting.unmade⟩, own, ?_, looked.toNat,
            .listening looked (shared ▸ no_fifo) server, ?_⟩
          · rw [← shared, booting.shared]
            exact Function.update_self ..
          · rw [List.length_append, booting.count]
            simp only [Bool.toNat_true, List.length_singleton]
            omega
  | server =>
      have client' := (others .client (by decide)).1
      have atCall := Option.some.inj (booting.server.symm.trans runs)
      cases looked with
      | false =>
          cases atCall
          simp only [Fifos.answer, no_fifo, Option.isSome_none, Option.some.injEq,
            Prod.mk.injEq] at happened
          obtain ⟨rfl, shared⟩ := happened
          refine .booting made true ⟨shared ▸ booting.shared, client'.trans booting.client, own,
            ?_, ?_, ?_⟩
          · simpa using booting.unmade
          · simpa using booting.unlooked
          · rw [List.length_append, booting.count]
            rfl
      | true =>
          cases atCall
          simp only [Fifos.answer, no_fifo, Option.some.injEq, Prod.mk.injEq] at happened
          obtain ⟨rfl, shared⟩ := happened
          obtain ⟨acts', onScript, count⟩ := booting.listens distinct introduced short absent
            absent' opens shared.symm client' own
          refine .meeting ⟨by simpa using booting.unlooked, acts', onScript, ?_⟩
          rw [List.length_append, booting.count, count]
          rfl

include distinct introduced short in
/-- The server goes on alone, and then waits. -/
theorem FoundOffline.step (offline : FoundOffline url serverHost client server acts s)
    (taken : Handshaking.step capacity s (.call role event) s') :
    FoundOffline url serverHost client server (acts ++ [.call role event]) s' := by
  obtain ⟨next, runs, happened, own, -, others⟩ := Processes.of_step_call taken
  obtain ⟨call, answer⟩ := event
  unfold Fifos.happens at happened
  cases role with
  | client => cases offline.ended.symm.trans runs
  | server =>
      have ended := (others .client (by decide)).1.trans offline.ended
      have response := offline.response
      have early (act : HandshakingAct) :
          LooksEarly (connectionPath serverHost) (acts ++ [act]) := by
        obtain ⟨front, back, rfl, unmade⟩ := offline.early
        exact ⟨front, back ++ [act], by simp, unmade⟩
      obtain ⟨k, alone, count⟩ := offline.alone
      have grown (act : HandshakingAct) : (acts ++ [act]).length = k + 1 + 2 := by
        rw [List.length_append, count, List.length_singleton]
      cases alone with
      | listening looked none server =>
          have atCall := Option.some.inj (server.symm.trans runs)
          cases looked with
          | false =>
              cases atCall
              simp only [Fifos.answer, none, Option.isSome_none, Option.some.injEq,
                Prod.mk.injEq] at happened
              obtain ⟨rfl, shared⟩ := happened
              exact ⟨early _, ended, shared ▸ response, _, .listening true (shared ▸ none) own,
                grown _⟩
          | true =>
              cases atCall
              simp only [Fifos.answer, none, Option.some.injEq, Prod.mk.injEq] at happened
              obtain ⟨rfl, shared⟩ := happened
              refine ⟨early _, ended, ?_, 2, .accepting (Nat.zero_le 1) ?_ own ?_, grown _⟩
              · rw [← shared]
                exact (Function.update_of_ne distinct.response ..).trans response
              · rw [← shared, channel_zero]
                exact Function.update_self ..
              · exact runs_map.mpr ⟨_, runs_commAccept introduced short, rfl⟩
      | @accepting k p first there server follows =>
          obtain rfl : p = .call call next := Option.some.inj (server.symm.trans runs)
          obtain ⟨b, rest, split, later⟩ := runs_call.mp follows
          obtain ⟨at_k, tail⟩ := getElem?_of_drop split
          have paired : Paired (urlWord url).length 0 k := ⟨by omega, by omega, by omega⟩
          rcases getElem?_append_cases at_k with ⟨-, at_k⟩ | ⟨j, beyond, -⟩
          · have answered : s.shared.answer capacity call = _ :=
              answer_reading there paired at_k
            obtain rfl | rfl : k = 0 ∨ k = 1 := by omega
            · rw [if_neg (by unfold ReaderBlocks; omega)] at answered
              obtain ⟨rfl, shared⟩ := Prod.mk.inj (Option.some.inj (answered.symm.trans happened))
              refine ⟨early _, ended, ?_, 3, .accepting le_rfl ?_ own (tail ▸ later), grown _⟩
              · rw [← shared]
                exact (Function.update_of_ne distinct.response ..).trans response
              · rw [← shared]
                exact Function.update_self ..
            · rw [if_pos (.inl ⟨rfl, rfl⟩)] at answered
              cases answered.symm.trans happened
          · simp only [List.length_append, length_script, List.length_singleton] at beyond
            omega

include distinct in
theorem Meeting.step (meeting : Meeting url serverHost client server acts s)
    (taken : Handshaking.step capacity s (.call role event) s') :
    Meeting url serverHost client server (acts ++ [.call role event]) s' := by
  obtain ⟨unlooked, acts', ⟨stage, along⟩, count⟩ := meeting
  refine ⟨fun inside => ?_, _, along.call distinct taken, ?_⟩
  · rcases List.mem_append.mp inside with before | last
    · exact unlooked before
    · -- the FIFO is there
      cases List.mem_singleton.mp last
      obtain ⟨-, -, happened, -⟩ := Processes.of_step_call taken
      simp only [Fifos.happens, Fifos.answer, along.shows.connection,
        Option.isSome_some] at happened
      cases happened
  · rw [List.length_append, List.length_append, count]
    simp only [List.length_singleton]

include distinct introduced short unlistened absent absent' opens in
theorem booted_of_run
    (own : ∃ address, server.serverAddr = some address ∧ address.host = some serverHost)
    (run : Run (Handshaking.step capacity) onlyCalls (.boot fresh client server fifos) acts s) :
    Booted url serverHost client server fifos reaches acts s := by
  refine run.history ?_ ?_
  · obtain ⟨address, known, hosted⟩ := own
    exact .booting false false ⟨rfl, congrArg some opens,
      congrArg some (listenConnections_eq known hosted), List.not_mem_nil, List.not_mem_nil, rfl⟩
  · rintro past s s' act booted allowed taken
    cases act with
    | start | stop => exact allowed.elim
    | call role event =>
        cases booted with
        | booting made looked booting =>
            exact booting.step distinct introduced short unlistened absent absent' opens taken
        | offline offline => exact .offline (offline.step distinct introduced short taken)
        | meeting meeting => exact .meeting (meeting.step distinct taken)

end Step

/-- The next call of either. -/
theorem Booting.calls
    (booting : Booting url serverHost client server fifos reaches made looked acts s) :
    ∀ role, ∃ (β : Type) (c : FifoCall Bytes Byte β) (next : β → FifoProgram HandshakeResult),
      s.running role = some (.call c next) := by
  intro role
  cases role with
  | client =>
      rw [booting.client]
      cases made with
      | false => exact ⟨_, _, _, rfl⟩
      | true => exact ⟨_, _, _, rfl⟩
  | server =>
      rw [booting.server]
      cases looked with
      | false => exact ⟨_, _, _, rfl⟩
      | true => exact ⟨_, _, _, rfl⟩

theorem ServerAlone.calls {k : Nat} (alone : ServerAlone url serverHost client server s k) :
    k ≤ 3 ∧ ∃ (β : Type) (c : FifoCall Bytes Byte β) (next : β → FifoProgram HandshakeResult),
      s.running .server = some (.call c next) := by
  cases alone with
  | listening looked none server =>
      rw [server]
      cases looked with
      | false => exact ⟨by decide, _, _, _, rfl⟩
      | true => exact ⟨by decide, _, _, _, rfl⟩
  | @accepting k p first there server follows =>
      have unfinished : k < (roleScript url serverHost .server).length := by
        rw [length_roleScript_server]
        omega
      rw [List.drop_eq_getElem_cons unfinished] at follows
      obtain ⟨next, rfl, -⟩ := follows.of_cons
      exact ⟨by omega, _, _, _, server⟩

/-- It is all about the addresses. -/
theorem Introduced.of_addresses {again : Connection}
    (introduced : Introduced url serverHost client server)
    (own : again.clientAddr = client.clientAddr) (other : again.serverAddr = client.serverAddr) :
    Introduced url serverHost again server where
  parses := introduced.parses
  client_addr := own.trans introduced.client_addr
  server_addr := other ▸ introduced.server_addr
  own_addr := introduced.own_addr
  connection_file := introduced.connection_file

/-- A client whose FIFO is there cannot make it again. -/
theorem fails_again {fifos' : Fifos Bytes Byte} {trace : List (Event (FifoCall Bytes Byte))}
    {r : Except Halt (Int × Connection)}
    (introduced : Introduced url serverHost client (listeningOn server serverHost))
    (left : fifos (fifoPath serverHost (urlHost url)) = some .empty)
    (runs : Runs (connectionOpen fresh client) trace r)
    (through : Through (Fifos.happens capacity) fifos trace fifos') :
    r = .ok (errFifoFailConnection, { client with state := .closed }) ∧ fifos' = fifos := by
  obtain ⟨reaches, opens⟩ := connectionOpen_eq fresh introduced
  have mapped : Runs (clientMakes url client serverHost reaches) trace
      (r.map fun r => .opened r.1 r.2) := opens ▸ runs_map.mpr ⟨r, runs, rfl⟩
  obtain ⟨made, rest, rfl, later⟩ := runs_call.mp mapped
  obtain ⟨middle, happened, through⟩ := through
  simp only [Fifos.happens, Fifos.answer, left, Option.some.injEq, Prod.mk.injEq] at happened
  obtain ⟨rfl, rfl⟩ := happened
  obtain ⟨rfl, same⟩ := runs_ret.mp later
  obtain rfl := through
  cases r with
  | error e => cases same
  | ok a =>
      obtain ⟨code, conn⟩ := a
      cases same
      exact ⟨rfl, rfl⟩

/-- What each of the three says of the two processes. -/
theorem Booted.opens {reaches : FifoProgram HandshakeResult} (room : 0 < capacity)
    (distinct : PathsApart (connectionPath serverHost) (fifoPath serverHost (urlHost url))
      (fifoPath (urlHost url) serverHost))
    (introduced : Introduced url serverHost client (listeningOn server serverHost))
    (unlistened : fifos (connectionPath serverHost) = none)
    (booted : Booted url serverHost client server fifos reaches acts s) :
    s.Opens capacity url client serverHost acts := by
  cases booted with
  | booting made looked booting =>
      have calls := booting.calls
      have onTime := not_looksEarly booting.unlooked
      have no_fifo := booting.no_fifo distinct unlistened
      refine ⟨fun role e faults => ?_, fun early => absurd early onTime, fun _ r ended => ?_,
        fun r ended => ?_, .inr (.inr ?_), ?_⟩
      · obtain ⟨β, c, next, runs⟩ := calls role
        cases runs.symm.trans faults
      · obtain ⟨β, c, next, runs⟩ := calls .client
        cases runs.symm.trans ended
      · obtain ⟨β, c, next, runs⟩ := calls .server
        cases runs.symm.trans ended
      · cases looked with
        | false =>
            have answered : Fifos.happens capacity s.shared
                ⟨.access (connectionPath serverHost), false⟩ s.shared := by
              simp only [Fifos.happens, Fifos.answer, no_fifo, Option.isSome_none]
            exact ⟨.call .server ⟨_, _⟩, _, trivial, .call booting.server answered⟩
        | true =>
            have answered : Fifos.happens capacity s.shared
                ⟨.mkfifo (connectionPath serverHost), true⟩
                (s.shared.replace (connectionPath serverHost) .empty) := by
              simp only [Fifos.happens, Fifos.answer, no_fifo]
            exact ⟨.call .server ⟨_, _⟩, _, trivial, .call booting.server answered⟩
      · have := booting.count
        have := made.toNat_le
        have := looked.toNat_le
        omega
  | offline offline =>
      obtain ⟨k, alone, count⟩ := offline.alone
      obtain ⟨few, β, c, next, runs⟩ := alone.calls
      refine ⟨fun role e faults => ?_, fun _ => ⟨offline.ended, fun r ended => ?_,
        fun again own other fresh trace r fifos runs through =>
          fails_again (introduced.of_addresses own other) offline.response runs through⟩,
        fun onTime => absurd offline.early onTime, fun r ended => ?_, .inl offline.early, by omega⟩
      · cases role with
        | client => cases offline.ended.symm.trans faults
        | server => cases runs.symm.trans faults
      · cases runs.symm.trans ended
      · cases runs.symm.trans ended
  | meeting meeting =>
      obtain ⟨acts', ⟨stage, along⟩, count⟩ := meeting.met
      have sound := along.sound distinct room introduced
      have bounded := sound.bounded
      exact ⟨sound.faultless, fun early => absurd early (not_looksEarly meeting.unlooked),
        fun _ => sound.opened, sound.accepted, .inr sound.moves, by omega⟩

end Booted

/-- The paths of a client and its server are different if it has a name of its own. -/
theorem pathsApart_of_names {clientHost serverHost : Bytes} (named : clientHost ≠ ascii "in")
    (apart : ¬ RoundBetween clientHost serverHost clientHost) :
    PathsApart (connectionPath serverHost) (fifoPath serverHost clientHost)
      (fifoPath clientHost serverHost) where
  response := (connectionPath_ne_response named).symm
  request := (connectionPath_ne_request named).symm
  each := fun same => apart (fifoPath_eq_fifoPath_iff.mp same)

/-- Every interleaving of a server's and a client's first calls, from no FIFOs at all. -/
theorem opens_of_boot {allocated allocated' : Connection} {name typed serverName : CString}
    {protocol rest : Bytes} {capacity : Nat} {fresh : Nat → Byte} {fifos : Fifos Bytes Byte}
    {acts : List HandshakingAct} {s : Handshaking} (room : 0 < capacity)
    (parts : UrlParts (chr 'f') typed.bytes protocol (nameHost serverName) rest)
    (short : name.bytes.length + 12 < bufferLength .fifo) (named : nameHost name ≠ ascii "in")
    (apart : ¬ RoundBetween (nameHost name) (nameHost serverName) (nameHost name))
    (absent : ∀ path ∈ [connectionPath (nameHost serverName),
      fifoPath (nameHost serverName) (nameHost name),
      fifoPath (nameHost name) (nameHost serverName)], fifos path = none)
    (run : Run (Handshaking.step capacity) onlyCalls (.boot fresh
      (clientConnection allocated name typed) (serverConnection allocated' serverName) fifos)
      acts s) :
    s.Opens capacity (clientUrlOf name) (clientConnection allocated name typed)
      (nameHost serverName) acts := by
  have host := urlHost_clientUrlOf name
  have distinct := pathsApart_of_names named apart
  have length : (clientUrlOf name).bytes.length = name.bytes.length + 12 := by
    simp [clientUrlOf, ascii]
  simp only [List.forall_mem_cons, ← host] at absent
  obtain ⟨unlistened, absent, absent', -⟩ := absent
  rw [← host] at distinct
  have introduced : Introduced (clientUrlOf name) (nameHost serverName)
      (clientConnection allocated name typed)
      (listeningOn (serverConnection allocated' serverName) (nameHost serverName)) :=
    introduced_of_parts parts
  obtain ⟨reaches, opens⟩ := connectionOpen_eq fresh introduced
  exact (booted_of_run distinct introduced (by omega) unlistened absent absent' opens
    (serverAddr_serverConnection allocated' serverName) run).opens room distinct introduced
      unlistened

/-! ## A client that is first -/

theorem nulFree_c : 0 ∉ ascii "c" := by decide

theorem nulFree_s : 0 ∉ ascii "s" := by decide

theorem nulFree_fifoS : 0 ∉ ascii "fifo://s" := by decide

/-- A connection before its addresses are set. -/
def unset : Connection := ⟨none, none, none, .other 0, none, none, .serverClient⟩

def firstC : Connection :=
  clientConnection unset ⟨ascii "c", nulFree_c⟩ ⟨ascii "fifo://s", nulFree_fifoS⟩

def bootC : Handshaking :=
  .boot (fun _ => 7) firstC (serverConnection unset ⟨ascii "s", nulFree_s⟩) fun _ => none

/-- The client makes its FIFO and looks. -/
theorem opens_of_boot_first : ∃ acts s conn,
    Handshaking.Opens 6 (clientUrlOf ⟨ascii "c", nulFree_c⟩) firstC (ascii "s") acts s ∧
      s.running .client = some (.ret (.opened errServerOffline conn)) := by
  have outcome : (bootC.follow (Fifos.answer 6) (fun _ _ => ()) [.client, .client]).map
      (fun r => r.2.result .client) =
        some (some (.opened errServerOffline (foundOffline firstC (ascii "s")))) := by
    decide +kernel
  obtain ⟨⟨events, s⟩, followed, ended⟩ := Option.map_eq_some_iff.mp outcome
  have run : Run (Handshaking.step 6) onlyCalls bootC _ s :=
    Processes.run_of_follow (fun _ _ _ _ answered => ⟨trivial, answered⟩) followed
  have apart : ¬ RoundBetween (nameHost ⟨ascii "c", nulFree_c⟩) (nameHost ⟨ascii "s", nulFree_s⟩)
      (nameHost ⟨ascii "c", nulFree_c⟩) := fifoPath_eq_fifoPath_iff.not.mp (by decide)
  exact ⟨_, s, _, opens_of_boot (by decide) (parts_of_fifo (ascii "s")) (by decide) (by decide)
    apart (fun _ _ => rfl) run, Processes.running_of_result ended⟩

end IpcFtp
