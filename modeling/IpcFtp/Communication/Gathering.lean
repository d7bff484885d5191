import IpcFtp.Communication.Turns

/-!
# Clients and a server that accepts one after another

Any number of clients run `connection_open` and one server runs `comm_accept` again and
again, their calls in any order, among any other FIFOs.  A step of a run in which they take
turns keeps one url at a time on its way (`UrlByUrl`), so what the server reads are
complete urls, each of another client, and none is lost.  Without turns two urls can be
mixed, and one can be lost.
-/

namespace IpcFtp

open Lib Program

inductive Party : Type
  | server
  | client (k : Nat)
  deriving DecidableEq

/-- What a process has written to the connection FIFO, and what it has read from it: the bytes
of a url that has not ended, and the urls. -/
structure Ledger : Type where
  wrote : Bytes
  got : Bytes
  urls : List Bytes
  deriving DecidableEq

def Ledger.empty : Ledger := ⟨[], [], []⟩

/-- A read of nothing and a terminator end a url. -/
def Ledger.note (path : Bytes) (ledger : Ledger) (event : Event (FifoCall Bytes Byte)) : Ledger :=
  if event.call.path = path then
    match event with
    | ⟨.write _ c, true⟩ => { ledger with wrote := ledger.wrote ++ [c] }
    | ⟨.read _, c⟩ =>
      if c.getD 0 = 0 then { ledger with got := [], urls := ledger.urls ++ [ledger.got] }
      else { ledger with got := ledger.got ++ [c.getD 0] }
    | _ => ledger
  else ledger

abbrev Gathering : Type 1 :=
  Processes (FifoCall Bytes Byte) Halt HandshakeResult (Fifos Bytes Byte) Ledger Party

abbrev GatheringAct : Type 1 := ProcessesAct (FifoCall Bytes Byte) Halt HandshakeResult Ledger Party

/-- The server accepts `n` connections; every client may or may not come. -/
def Gathering.start (n : Nat) (fresh : Nat → Nat → Byte) (error : CommError) (server : Connection)
    (clients : Nat → Connection) (fifos : Fifos Bytes Byte) : Gathering where
  shared := fifos
  running
    | .server => some (acceptLoop n error server >>= fun r => pure (.accepted r.1 r.2))
    | .client k => some (connectionOpen (fresh k) (clients k) >>= fun r => pure (.opened r.1 r.2))
  notes := fun _ => .empty

/-- One call of one of them. -/
abbrev Gathering.step (capacity : Nat) (path : Bytes) : Gathering → GatheringAct → Gathering → Prop :=
  Processes.Step (Fifos.happens capacity) (Ledger.note path) .empty fun _ _ => False

/-- Nobody is stopped. -/
def onlyRuns (_ : Gathering) : GatheringAct → Prop
  | .call _ _ => True
  | _ => False

/-- An end of the connection FIFO is opened only when nobody has it open and nobody who has the
other end open has been met. -/
def OpensInTurn (path : Bytes) (fifos : Fifos Bytes Byte) : ∀ {β : Type}, FifoCall Bytes Byte β → Prop
  | _, .openEnd other side => other = path → ∀ f, fifos path = some f → f.free side = true
  | _, _ => True

instance {path : Bytes} {fifos : Fifos Bytes Byte} : ∀ {β : Type} (call : FifoCall Bytes Byte β),
    Decidable (OpensInTurn path fifos call)
  | _, .openEnd other side =>
    inferInstanceAs (Decidable (other = path → ∀ f ∈ fifos path, f.free side = true))
  | _, .mkfifo _ | _, .access _ | _, .await _ | _, .read _ | _, .write _ _ | _, .close _ =>
    inferInstanceAs (Decidable True)

/-- Nobody is stopped, and every open is in turn. -/
def takesTurns (path : Bytes) (s : Gathering) : GatheringAct → Prop
  | .call _ event => OpensInTurn path s.shared event.call
  | _ => False

/-- The server has read complete urls only, each of another client, and a client that has
written its url to the end has been served or its url is what the server goes on to read. -/
def WholeUrls (path : Bytes) (url : Nat → CString) (s : Gathering) : Prop :=
  ∃ served : List Nat, served.Nodup ∧
    (s.notes .server).urls = served.map (fun k => (url k).bytes) ∧
      ∀ k, (s.notes (.client k)).wrote = urlWord (url k) → k ∈ served ∨
        ∃ f, s.shared path = some f ∧ (s.notes .server).got ++ f.data = urlWord (url k)

section Note

variable {path other : Bytes} {ledger : Ledger} {fd : Fd} {side : Side}
  {number : Nat}

@[simp] theorem Ledger.note_mkfifo {made : Bool} : ledger.note path ⟨.mkfifo other, made⟩ = ledger :=
  ite_self ledger

@[simp] theorem Ledger.note_access {found : Bool} : ledger.note path ⟨.access other, found⟩ = ledger :=
  ite_self ledger

@[simp] theorem Ledger.note_openEnd {opened : Option Fd} :
    ledger.note path ⟨.openEnd other side, opened⟩ = ledger := ite_self ledger

@[simp] theorem Ledger.note_await {done : Unit} : ledger.note path ⟨.await fd, done⟩ = ledger :=
  ite_self ledger

@[simp] theorem Ledger.note_close {done : Unit} : ledger.note path ⟨.close fd, done⟩ = ledger :=
  ite_self ledger

theorem Ledger.note_write {c : Byte} : ledger.note path ⟨.write ⟨path, side, number⟩ c, true⟩ =
    { ledger with wrote := ledger.wrote ++ [c] } := if_pos rfl

theorem Ledger.note_read {c : Option Byte} : ledger.note path ⟨.read ⟨path, side, number⟩, c⟩ =
    if c.getD 0 = 0 then { ledger with got := [], urls := ledger.urls ++ [ledger.got] }
    else { ledger with got := ledger.got ++ [c.getD 0] } := if_pos rfl

end Note

section Gathering

variable {path : Bytes} {url : Nat → CString} {serverHost : Bytes} {capacity : Nat}

/-! ## What a call of a client does -/

section ClientCall

variable {word : Nat → Bytes} {phases : Nat → ClientPhase} {served : List Nat} {f : Fifo Byte}
  {server : ServerPhase} {k : Nat} {fifos fifos' : Fifos Bytes Byte} {β : Type}
  {call : FifoCall Bytes Byte β} {b : β} {responseFifo : Bytes} {ledger : Ledger}

/-- A client that has opened the FIFO may have done so. -/
theorem ClientPhase.allowed_next {word : Bytes} {phase : ClientPhase}
    (allowed : phase.allowed path word responseFifo call)
    (opened : phase.next path ⟨call, b⟩ ≠ .before) : phase ≠ .before ∨ responseFifo ≠ path := by
  by_cases before : phase = .before
  · subst before
    refine .inr ?_
    unfold ClientPhase.next at opened
    split_ifs at opened with here
    · have allowed := allowed here
      cases call with
      | openEnd => exact allowed.2
      | _ => exact absurd rfl opened
    · exact absurd rfl opened
  · exact .inl before

theorem ClientPhase.next_ne_before {phase : ClientPhase} {event : Event (FifoCall Bytes Byte)}
    (come : phase ≠ .before) : phase.next path event ≠ .before := by
  unfold ClientPhase.next
  split_ifs
  · split
    · exact nofun
    · exact nofun
    · exact nofun
    · exact nofun
    · exact come
  · exact come

/-- What a call of a client leaves of the FIFO, of the urls on their way and of its note. -/
theorem Traffic.client_call (there : fifos path = some f)
    (traffic : Traffic word phases served f server)
    (allowed : (phases k).allowed path (word k) responseFifo call)
    (turn : OpensInTurn path fifos call) (new : phases k = .before → k ∉ served)
    (wrote : ledger.wrote = (phases k).wrote (word k))
    (answered : fifos.answer capacity call = some (b, fifos')) :
    (∃ f', fifos' path = some f' ∧
      Traffic word (Function.update phases k ((phases k).next path ⟨call, b⟩)) served f' server) ∧
      (ledger.note path ⟨call, b⟩).wrote = ((phases k).next path ⟨call, b⟩).wrote (word k) := by
  by_cases here : call.path = path
  swap
  · have still : (phases k).next path ⟨call, b⟩ = phases k := if_neg here
    have same : ledger.note path ⟨call, b⟩ = ledger := if_neg here
    rw [still, same, Function.update_eq_self]
    exact ⟨⟨f, (answer_frame answered here).trans there, traffic⟩, wrote⟩
  have allowed := allowed here
  cases call with
  | mkfifo other =>
      rw [ClientPhase.next_mkfifo, Ledger.note_mkfifo, Function.update_eq_self]
      exact ⟨⟨f, at_mkfifo there answered, traffic⟩, wrote⟩
  | access other =>
      cases answered
      rw [ClientPhase.next_access, Ledger.note_access, Function.update_eq_self]
      exact ⟨⟨f, there, traffic⟩, wrote⟩
  | openEnd other side =>
      obtain rfl : other = path := here
      cases own : phases k with
      | before =>
          rw [own] at allowed wrote
          obtain ⟨rfl, -⟩ := allowed
          obtain ⟨rfl, after⟩ := at_openEnd there answered
          rw [ClientPhase.next_opens, Ledger.note_openEnd]
          exact ⟨⟨_, after, traffic.client_opens (turn rfl f there) (new own)⟩, wrote⟩
      | opening | sending | after =>
          rw [own] at allowed
          exact allowed.elim
  | await fd =>
      cases own : phases k with
      | opening number =>
          rw [own] at allowed wrote
          obtain rfl := allowed
          obtain ⟨rfl, met⟩ := at_await there answered
          rw [ClientPhase.next_awaits, Ledger.note_await]
          exact ⟨⟨_, there, traffic.client_awaits own met⟩, wrote⟩
      | before | sending | after =>
          rw [own] at allowed
          exact allowed.elim
  | read fd =>
      cases own : phases k <;> rw [own] at allowed <;> exact allowed.elim
  | write fd c =>
      cases own : phases k with
      | sending number sent =>
          rw [own] at allowed wrote
          obtain ⟨rfl, part⟩ := allowed
          obtain ⟨rfl, after⟩ := at_write there (traffic.of_sending own).2.2.1.met_self answered
          rw [ClientPhase.next_writes, Ledger.note_write]
          exact ⟨⟨_, after, traffic.client_writes own part⟩, congrArg (· ++ [c]) wrote⟩
      | before | opening | after =>
          rw [own] at allowed
          exact allowed.elim
  | close fd =>
      cases own : phases k with
      | sending number sent =>
          rw [own] at allowed wrote
          obtain ⟨rfl, rfl⟩ := allowed
          have after := at_close there answered
          rw [ClientPhase.next_closes, Ledger.note_close]
          exact ⟨⟨_, after, traffic.client_closes own⟩, wrote⟩
      | before | opening | after =>
          rw [own] at allowed
          exact allowed.elim

end ClientCall

/-! ## What a call of the server does -/

section ServerCall

/-- The url the server has read to its end last. -/
def ServerPhase.text : ServerPhase → Option Bytes
  | .idle last => last
  | .closing _ text => some text
  | _ => none

variable {phases : Nat → ClientPhase} {served : List Nat} {f : Fifo Byte} {server : ServerPhase}
  {fifos fifos' : Fifos Bytes Byte} {β : Type} {call : FifoCall Bytes Byte β} {b : β}
  {response : Bytes → Bytes} {ledger : Ledger}

/-- What a call of the server leaves: it has served the clients in `new`. -/
structure ServerLeaves (path : Bytes) (url : Nat → CString) (phases : Nat → ClientPhase)
    (served new : List Nat) (server server' : ServerPhase) (fifos : Fifos Bytes Byte)
    (ledger ledger' : Ledger) : Prop where
  traffic : ∃ f, fifos path = some f ∧
    Traffic (fun k => urlWord (url k)) phases (served ++ new) f server'
  fresh : ∀ k ∈ new, k ∉ served ∧ phases k ≠ .before
  nodup : new.Nodup
  urls : ledger'.urls = ledger.urls ++ new.map fun k => (url k).bytes
  got : ledger'.got = server'.got
  text : ∀ text, server'.text = some text →
    server.text = some text ∨ ∃ k ∈ new, text = (url k).bytes

/-- Most calls serve nobody. -/
theorem ServerLeaves.nobody {server' : ServerPhase} {ledger' : Ledger} (there : fifos path = some f)
    (traffic : Traffic (fun k => urlWord (url k)) phases served f server')
    (urls : ledger'.urls = ledger.urls) (got : ledger'.got = server'.got)
    (text_of : ∀ text, server'.text = some text → server.text = some text) :
    ServerLeaves path url phases served [] server server' fifos ledger ledger' where
  traffic := ⟨f, there, (List.append_nil served).symm ▸ traffic⟩
  fresh := nofun
  nodup := .nil
  urls := urls.trans (List.append_nil _).symm
  got := got
  text text has := .inl (text_of text has)

/-- The server does not open its connection FIFO to answer. -/
theorem ServerPhase.not_opensForWriting (allowed : server.allowed path response call)
    (answers : ∀ text, server.text = some text → response text ≠ path) :
    ¬ OpensForWriting path ⟨call, b⟩ := by
  intro opens
  cases call with
  | openEnd other side =>
      cases side with
      | reading => exact opens
      | writing =>
          have allowed := allowed opens
          cases server with
          | idle last =>
              obtain ⟨text, rfl, same⟩ := allowed
              exact answers text rfl same
          | opening | reading | closing => exact allowed
  | _ => exact opens

theorem Traffic.server_call (there : fifos path = some f)
    (traffic : Traffic (fun k => urlWord (url k)) phases served f server)
    (allowed : server.allowed path response call) (turn : OpensInTurn path fifos call)
    (answers : ∀ text, server.text = some text → response text ≠ path)
    (got : ledger.got = server.got)
    (answered : fifos.answer capacity call = some (b, fifos')) :
    ∃ new, ServerLeaves path url phases served new server (server.next path ⟨call, b⟩) fifos' ledger
      (ledger.note path ⟨call, b⟩) := by
  by_cases here : call.path = path
  swap
  · have still : server.next path ⟨call, b⟩ = server := if_neg here
    have same : ledger.note path ⟨call, b⟩ = ledger := if_neg here
    rw [still, same]
    exact ⟨[], .nobody ((answer_frame answered here).trans there) traffic rfl got fun _ => id⟩
  have writes : ¬ OpensForWriting path ⟨call, b⟩ := ServerPhase.not_opensForWriting allowed answers
  have allowed := allowed here
  cases call with
  | mkfifo other =>
      rw [ServerPhase.next_mkfifo, Ledger.note_mkfifo]
      exact ⟨[], .nobody (at_mkfifo there answered) traffic rfl got fun _ => id⟩
  | access other =>
      cases answered
      rw [ServerPhase.next_access, Ledger.note_access]
      exact ⟨[], .nobody there traffic rfl got fun _ => id⟩
  | openEnd other side =>
      obtain rfl : other = path := here
      cases side with
      | writing => exact absurd rfl writes
      | reading =>
          cases server with
          | idle last =>
              obtain ⟨rfl, after⟩ := at_openEnd there answered
              rw [ServerPhase.next_opens, Ledger.note_openEnd]
              exact ⟨[], .nobody after (traffic.server_opens (turn rfl f there)) rfl got nofun⟩
          | opening | reading | closing => exact allowed.elim
  | await fd =>
      cases server with
      | opening number =>
          obtain rfl := allowed
          obtain ⟨rfl, met⟩ := at_await there answered
          rw [ServerPhase.next_awaits, Ledger.note_await]
          exact ⟨[], .nobody there (traffic.server_awaits met) rfl got nofun⟩
      | idle | reading | closing => exact allowed.elim
  | write fd c => cases server <;> exact allowed.elim
  | read fd =>
      cases server with
      | reading number already =>
          obtain rfl := allowed
          rcases at_read there traffic.of_reading.2.1.met_self answered with ⟨c, rest, first, rfl, after⟩ |
            ⟨empty, unheld⟩
          · rw [ServerPhase.next_reads, Ledger.note_read, Option.getD_some]
            split_ifs with terminator
            · subst terminator
              obtain ⟨k, rfl, new, come, finished⟩ := traffic.server_finishes first
              exact ⟨[k], ⟨_, after, finished⟩, by simpa using ⟨new, come⟩, List.nodup_singleton k,
                congrArg (fun text => ledger.urls ++ [text]) got, rfl,
                fun text has => .inr ⟨k, List.mem_singleton_self k, (Option.some.inj has).symm⟩⟩
            · exact ⟨[], .nobody after (traffic.server_reads first terminator) rfl
                (congrArg (· ++ [c]) got) nofun⟩
          · exact absurd (traffic.held_of_empty empty) (Bool.eq_false_iff.mp unheld)
      | idle | opening | closing => exact allowed.elim
  | close fd =>
      cases server with
      | closing number text =>
          obtain rfl := allowed
          have after := at_close there answered
          rw [ServerPhase.next_closes, Ledger.note_close]
          exact ⟨[], .nobody after traffic.server_closes rfl got fun _ => id⟩
      | idle | opening | reading => exact allowed.elim

end ServerCall

/-! ## Runs -/

/-- One url at a time is on its way, every program keeps to its part, and what the server has
read are the urls of the clients it has served. -/
structure UrlByUrl (serverHost : Bytes) (url : Nat → CString) (s : Gathering)
    (phases : Nat → ClientPhase) (server : ServerPhase) (served : List Nat) : Prop where
  traffic : ∃ f, s.shared (connectionPath serverHost) = some f ∧
    Traffic (fun k => urlWord (url k)) phases served f server
  clients : ∀ k p, s.running (.client k) = some p →
    ClientKeeps (connectionPath serverHost) (urlWord (url k)) (fifoPath serverHost (urlHost (url k)))
      (fun _ _ => True) p (phases k)
  accepts : ∀ p, s.running .server = some p →
    ServerKeeps (connectionPath serverHost) (fun text => fifoPath serverHost (hostOf text))
      (fun _ _ => True) p server
  wrote : ∀ k, (s.notes (.client k)).wrote = (phases k).wrote (urlWord (url k))
  urls : (s.notes .server).urls = served.map fun k => (url k).bytes
  got : (s.notes .server).got = server.got
  nodup : served.Nodup
  came : ∀ k ∈ served, phases k ≠ .before
  responds : ∀ k, phases k ≠ .before →
    fifoPath serverHost (urlHost (url k)) ≠ connectionPath serverHost
  answers : ∀ text, server.text = some text →
    fifoPath serverHost (hostOf text) ≠ connectionPath serverHost

section Steps

variable {phases : Nat → ClientPhase} {server : ServerPhase} {served : List Nat} {s s' : Gathering}
  {event : Event (FifoCall Bytes Byte)} {k : Nat}

theorem UrlByUrl.client_call (orderly : UrlByUrl serverHost url s phases server served)
    (turn : OpensInTurn (connectionPath serverHost) s.shared event.call)
    (taken : Gathering.step capacity (connectionPath serverHost) s (.call (.client k) event) s') :
    ∃ phases', UrlByUrl serverHost url s' phases' server served := by
  obtain ⟨next, runs, answered, running, note, others⟩ := Processes.of_step_call taken
  obtain ⟨f, there, traffic⟩ := orderly.traffic
  obtain ⟨allowed, keeps⟩ := orderly.clients k _ runs
  have new : phases k = .before → k ∉ served := fun before member => orderly.came k member before
  obtain ⟨after, wrote⟩ := traffic.client_call there allowed turn new (orderly.wrote k) answered
  have possible : Fifos.Possible (connectionPath serverHost) event :=
    possible_of_answer answered (there ▸ nofun)
  have aside : s'.running .server = s.running .server ∧ s'.notes .server = s.notes .server :=
    others .server nofun
  have away (j : Nat) (apart : j ≠ k) := others (.client j) fun same => apart (Party.client.inj same)
  refine ⟨_, after, ?_, aside.1 ▸ orderly.accepts, ?_, aside.2 ▸ orderly.urls, aside.2 ▸ orderly.got,
    orderly.nodup, ?_, ?_, orderly.answers⟩
  · refine (Function.forall_update_iff phases fun j phase => ∀ p, s'.running (.client j) = some p →
      ClientKeeps _ (urlWord (url j)) (fifoPath serverHost (urlHost (url j))) _ p phase).mpr
      ⟨?_, fun j apart => (away j apart).1 ▸ orderly.clients j⟩
    intro p runs'
    obtain rfl := Option.some.inj (running.symm.trans runs')
    exact keeps event.answer _ ⟨possible, rfl⟩
  · refine (Function.forall_update_iff phases fun j phase =>
      (s'.notes (.client j)).wrote = phase.wrote (urlWord (url j))).mpr
      ⟨?_, fun j apart => (away j apart).2 ▸ orderly.wrote j⟩
    rw [note]
    exact wrote
  · exact (Function.forall_update_iff phases fun j phase => j ∈ served → phase ≠ .before).mpr
      ⟨fun member => ClientPhase.next_ne_before (orderly.came k member), fun j _ => orderly.came j⟩
  · refine (Function.forall_update_iff phases fun j phase => phase ≠ .before →
      fifoPath serverHost (urlHost (url j)) ≠ connectionPath serverHost).mpr
      ⟨?_, fun j _ => orderly.responds j⟩
    intro come
    rcases ClientPhase.allowed_next allowed come with already | response
    · exact orderly.responds k already
    · exact response

theorem UrlByUrl.server_call (orderly : UrlByUrl serverHost url s phases server served)
    (turn : OpensInTurn (connectionPath serverHost) s.shared event.call)
    (taken : Gathering.step capacity (connectionPath serverHost) s (.call .server event) s') :
    ∃ server' served', UrlByUrl serverHost url s' phases server' served' := by
  obtain ⟨next, runs, answered, running, note, others⟩ := Processes.of_step_call taken
  obtain ⟨f, there, traffic⟩ := orderly.traffic
  obtain ⟨allowed, keeps⟩ := orderly.accepts _ runs
  obtain ⟨new, outcome⟩ := traffic.server_call there allowed turn orderly.answers orderly.got answered
  have possible : Fifos.Possible (connectionPath serverHost) event :=
    possible_of_answer answered (there ▸ nofun)
  have quiet : ¬ OpensForWriting (connectionPath serverHost) event :=
    ServerPhase.not_opensForWriting allowed orderly.answers
  have away (j : Nat) := others (.client j) nofun
  refine ⟨_, served ++ new, outcome.traffic, fun j => (away j).1 ▸ orderly.clients j, ?_,
    fun j => (away j).2 ▸ orderly.wrote j, ?_, note ▸ outcome.got, ?_, ?_, orderly.responds, ?_⟩
  · intro p runs'
    obtain rfl := Option.some.inj (running.symm.trans runs')
    exact keeps event.answer _ ⟨⟨possible, quiet⟩, rfl⟩
  · rw [note, List.map_append, ← orderly.urls]
    exact outcome.urls
  · exact List.nodup_append'.mpr ⟨orderly.nodup, outcome.nodup,
      fun j old fresh => (outcome.fresh j fresh).1 old⟩
  · intro j member
    rcases List.mem_append.mp member with old | fresh
    · exact orderly.came j old
    · exact (outcome.fresh j fresh).2
  · intro text has
    rcases outcome.text text has with old | ⟨j, fresh, rfl⟩
    · exact orderly.answers text old
    · exact orderly.responds j (outcome.fresh j fresh).2

/-- A client that has written all its url was served, or the server goes on to read it. -/
theorem Traffic.accounted {word : Nat → Bytes} {f : Fifo Byte}
    (traffic : Traffic word phases served f server) {n : Nat}
    (written : phases k = .sending n (word k) ∨ phases k = .after) :
    k ∈ served ∨ server.got ++ f.data = word k := by
  have sender {j : Nat} (holder : Holder phases (some j)) (sends : phases k = .sending n (word k)) :
      k = j := (Option.some.inj (holder.eq (sends ▸ trivial))).symm
  have nobody (holder : Holder phases none) : phases k = .after :=
    written.resolve_left fun sends => nomatch holder.eq (sends ▸ trivial : (phases k).Holds)
  have closed (settled : Settled phases served none) (ended : phases k = .after) : k ∈ served :=
    (settled k ended).resolve_right nofun
  have receiving {m : Nat} {got : Bytes} (receives : server.Receives m got) : server.got = got := by
    rcases receives with ⟨rfl, rfl⟩ | ⟨rfl, -⟩ <;> rfl
  cases traffic with
  | free holder settled | serverWaits holder settled | closing holder settled =>
      exact .inl (closed settled (nobody holder))
  | clientWaits holder settled waits =>
      rcases written with sends | ended
      · obtain rfl := sender holder sends
        cases sends.symm.trans waits
      · exact .inl (closed settled ended)
  | joined holder settled sending new part writing reading receives split =>
      rcases written with sends | ended
      · obtain rfl := sender holder sends
        rcases sending with ⟨waits, -⟩ | sending
        · cases sends.symm.trans waits
        · obtain ⟨-, rfl⟩ := ClientPhase.sending.inj (sending.symm.trans sends)
          exact .inr ((receiving receives).symm ▸ split)
      · exact .inl (closed settled ended)
  | left holder settled ended new writing reading receives split =>
      rcases settled k (nobody holder) with old | last
      · exact .inl old
      · obtain rfl := Option.some.inj last
        exact .inr ((receiving receives).symm ▸ split)
  | taken holder settled sending old | stays holder settled sending old =>
      rcases written with sends | ended
      · exact .inl (sender holder sends ▸ old)
      · exact .inl (closed settled ended)

theorem UrlByUrl.wholeUrls (orderly : UrlByUrl serverHost url s phases server served) :
    WholeUrls (connectionPath serverHost) url s := by
  refine ⟨served, orderly.nodup, orderly.urls, fun j whole => ?_⟩
  obtain ⟨f, there, traffic⟩ := orderly.traffic
  have empty : urlWord (url j) ≠ [] := by simp [urlWord]
  rw [orderly.wrote j] at whole
  have written : ∃ n, phases j = .sending n (urlWord (url j)) ∨ phases j = .after := by
    cases at_j : phases j with
    | before | opening => exact absurd (at_j ▸ whole).symm empty
    | sending n sent =>
        rw [at_j] at whole
        obtain rfl : sent = urlWord (url j) := whole
        exact ⟨n, .inl rfl⟩
    | after => exact ⟨0, .inr rfl⟩
  obtain ⟨n, written⟩ := written
  rcases traffic.accounted written with old | split
  · exact .inl old
  · exact .inr ⟨f, there, orderly.got ▸ split⟩

end Steps

/-- All know the server, which listens, and every client has an address made from its url. -/
structure Invited (url : Nat → CString) (serverHost : Bytes) (server : Connection)
    (clients : Nat → Connection) (fifos : Fifos Bytes Byte) : Prop where
  client_addr : ∀ k, (clients k).clientAddr = some (addressFromUrl .fifo (url k).bytes .new).2
  server_addr : ∀ k, ∃ address, (clients k).serverAddr = some address ∧ address.host = some serverHost
  own_addr : ∃ address, server.serverAddr = some address ∧ address.host = some serverHost
  connection_file : server.connectionFile = some (connectionPath serverHost)
  listening : fifos (connectionPath serverHost) = some .empty

theorem Fifo.sole_empty {side : Side} : (Fifo.empty : Fifo Byte).Sole side none := fun _ => rfl

theorem urlByUrl_start {server : Connection} {clients : Nat → Connection} {fifos : Fifos Bytes Byte}
    (invited : Invited url serverHost server clients fifos) (n : Nat) (fresh : Nat → Nat → Byte)
    (error : CommError) : UrlByUrl serverHost url (.start n fresh error server clients fifos)
      (fun _ => .before) (.idle none) [] where
  traffic := ⟨.empty, invited.listening, .free (fun _ => iff_of_false id nofun) nofun
    Fifo.sole_empty Fifo.sole_empty rfl⟩
  clients k p running := by
    obtain rfl := Option.some.inj running
    refine Meets.bind ((clientKeeps_connectionOpen (fresh k) (invited.client_addr k)
      (invited.server_addr k)).mono ?_)
    rintro (e | result) phase - <;> trivial
  accepts p running := by
    obtain rfl := Option.some.inj running
    obtain ⟨address, own, hosted⟩ := invited.own_addr
    refine Meets.bind ((serverKeeps_acceptLoop invited.connection_file own hosted n error none).mono ?_)
    rintro (e | result) phase - <;> trivial
  wrote _ := rfl
  urls := rfl
  got := rfl
  nodup := .nil
  came := nofun
  responds _ come := absurd rfl come
  answers := nofun

/-- At some point. -/
def OneAtATime (serverHost : Bytes) (url : Nat → CString) (s : Gathering) : Prop :=
  ∃ phases server served, UrlByUrl serverHost url s phases server served

/-- In every run in which they take turns. -/
theorem urls_of_run {n : Nat} {fresh : Nat → Nat → Byte} {error : CommError} {server : Connection}
    {clients : Nat → Connection} {fifos : Fifos Bytes Byte} {acts : List GatheringAct} {s : Gathering}
    (invited : Invited url serverHost server clients fifos)
    (run : Run (Gathering.step capacity (connectionPath serverHost))
      (takesTurns (connectionPath serverHost)) (.start n fresh error server clients fifos) acts s) :
    WholeUrls (connectionPath serverHost) url s := by
  have orderly : OneAtATime serverHost url s := by
    refine run.invariant ⟨_, _, _, urlByUrl_start invited n fresh error⟩ ?_
    rintro s s' act ⟨phases, server, served, orderly⟩ turn taken
    cases act with
    | call party event =>
        cases party with
        | server =>
            obtain ⟨server', served', after⟩ := orderly.server_call turn taken
            exact ⟨phases, server', served', after⟩
        | client k =>
            obtain ⟨phases', after⟩ := orderly.client_call turn taken
            exact ⟨phases', server, served, after⟩
    | start | stop => exact turn.elim
  obtain ⟨phases, server, served, orderly⟩ := orderly
  exact orderly.wholeUrls

/-! ## Two clients -/

section TwoClients

/-- A call that is not in turn has to wait. -/
def answerInTurn (capacity : Nat) (path : Bytes) (fifos : Fifos Bytes Byte) {β : Type}
    (call : FifoCall Bytes Byte β) : Option (β × Fifos Bytes Byte) :=
  if OpensInTurn path fifos call then fifos.answer capacity call else none

theorem of_answerInTurn {β : Type} {fifos fifos' : Fifos Bytes Byte} {call : FifoCall Bytes Byte β}
    {b : β} (answered : answerInTurn capacity path fifos call = some (b, fifos')) :
    OpensInTurn path fifos call ∧ fifos.answer capacity call = some (b, fifos') := by
  unfold answerInTurn at answered
  split_ifs at answered with turn
  exact ⟨turn, answered⟩

theorem not_wholeUrls_of_mixed {s : Gathering} {text : Bytes} (read : text ∈ (s.notes .server).urls)
    (mixed : ∀ k, (url k).bytes ≠ text) : ¬ WholeUrls path url s := by
  intro given
  obtain ⟨served, -, urls, -⟩ := given
  rw [urls] at read
  obtain ⟨k, -, same⟩ := List.mem_map.mp read
  exact mixed k same

theorem not_wholeUrls_of_lost {s : Gathering} {k : Nat}
    (wrote : (s.notes (.client k)).wrote = urlWord (url k))
    (unread : (url k).bytes ∉ (s.notes .server).urls) (ended : (s.notes .server).got = [])
    (empty : ∀ f, s.shared path = some f → f.data = []) : ¬ WholeUrls path url s := by
  intro given
  obtain ⟨served, -, urls, written⟩ := given
  rcases written k wrote with old | ⟨f, there, split⟩
  · rw [urls] at unread
    exact unread (List.mem_map_of_mem old)
  · rw [ended, empty f there] at split
    simp [urlWord] at split

def urlsAB (k : Nat) : CString :=
  if k = 0 then ⟨ascii "f://a", by decide⟩ else ⟨ascii "f://b", by decide⟩

def clientsAB (k : Nat) : Connection :=
  ⟨some (addressFromUrl .fifo (urlsAB k).bytes .new).2, some serverS, none, .other 0, none, none,
    .serverClient⟩

def pathS : Bytes := connectionPath (ascii "s")

abbrev startAB : Gathering := .start 2 (fun _ _ => 7) ⟨noCommError, []⟩ listeningS clientsAB fifosS

theorem invited_urlsAB : Invited urlsAB (ascii "s") listeningS clientsAB fifosS where
  client_addr _ := rfl
  server_addr _ := ⟨_, rfl, by decide⟩
  own_addr := ⟨_, rfl, by decide⟩
  connection_file := rfl
  listening := Function.update_self ..

/-- The calls of one client and of the server until both have returned, as in `turns`. -/
def oneHandshake (k : Nat) : List Party :=
  turns.map fun role => match role with
    | .client => .client k
    | .server => .server

/-- Both clients, one after the other. -/
theorem urls_of_run_urlsAB : ∃ s, WholeUrls pathS urlsAB s ∧
    (s.notes .server).urls = [ascii "f://a", ascii "f://b"] := by
  have outcome : (startAB.follow (answerInTurn 6 pathS) (Ledger.note pathS)
      (oneHandshake 0 ++ oneHandshake 1)).map (fun r => (r.2.notes .server).urls) =
        some [ascii "f://a", ascii "f://b"] := by
    decide +kernel
  obtain ⟨⟨events, s⟩, followed, urls⟩ := Option.map_eq_some_iff.mp outcome
  have run : Run (Gathering.step 6 pathS) (takesTurns pathS) startAB _ s :=
    Processes.run_of_follow (fun _ _ _ _ answered => of_answerInTurn answered) followed
  exact ⟨s, urls_of_run invited_urlsAB run, urls⟩

/-- Both clients open the FIFO, and each writes a byte before the first goes on. -/
def mixing : List Party :=
  List.replicate 3 (.client 0) ++ List.replicate 3 (.client 1) ++ List.replicate 2 .server ++
    List.replicate 2 (.client 0) ++ List.replicate 2 (.client 1) ++ List.replicate 5 (.client 0) ++
      List.replicate 7 .server

/-- Both clients write their urls and close the FIFO before the server has read the first. -/
def losing : List Party :=
  List.replicate 3 (.client 0) ++ List.replicate 3 (.client 1) ++ List.replicate 2 .server ++
    List.replicate 8 (.client 0) ++ List.replicate 8 (.client 1) ++ List.replicate 7 .server

/-- Out of turn the server reads a mixture of two urls, or closes the FIFO on one it has not read. -/
theorem mixed_and_lost : (∃ acts s, Run (Gathering.step 16 pathS) onlyRuns startAB acts s ∧
      (s.notes .server).urls = [ascii "ff://a"] ∧ ¬ WholeUrls pathS urlsAB s) ∧
    ∃ acts s, Run (Gathering.step 16 pathS) onlyRuns startAB acts s ∧
      (s.notes .server).urls = [ascii "f://a"] ∧
        (s.notes (.client 1)).wrote = urlWord (urlsAB 1) ∧ ¬ WholeUrls pathS urlsAB s := by
  refine ⟨?_, ?_⟩
  · have outcome : (startAB.follow (Fifos.answer 16) (Ledger.note pathS) mixing).map
        (fun r => (r.2.notes .server).urls) = some [ascii "ff://a"] := by
      decide +kernel
    obtain ⟨⟨events, s⟩, followed, urls⟩ := Option.map_eq_some_iff.mp outcome
    refine ⟨_, s, Processes.run_of_follow (fun _ _ _ _ answered => ⟨trivial, answered⟩) followed,
      urls, not_wholeUrls_of_mixed (urls ▸ List.mem_singleton_self _) fun k => ?_⟩
    unfold urlsAB
    split_ifs <;> decide
  · have outcome : (startAB.follow (Fifos.answer 16) (Ledger.note pathS) losing).map
        (fun r => (r.2.notes .server, (r.2.notes (.client 1)).wrote,
          (r.2.shared pathS).map Fifo.data)) =
        some (⟨[], [], [ascii "f://a"]⟩, urlWord (urlsAB 1), some []) := by
      decide +kernel
    obtain ⟨⟨events, s⟩, followed, ends⟩ := Option.map_eq_some_iff.mp outcome
    simp only [Prod.mk.injEq] at ends
    obtain ⟨server, wrote, left⟩ := ends
    have urls : (s.notes .server).urls = [ascii "f://a"] := congrArg Ledger.urls server
    refine ⟨_, s, Processes.run_of_follow (fun _ _ _ _ answered => ⟨trivial, answered⟩) followed,
      urls, wrote, not_wholeUrls_of_lost wrote (urls ▸ by decide) (congrArg Ledger.got server) ?_⟩
    intro f there
    rw [there] at left
    exact Option.some.inj left

end TwoClients

end Gathering

end IpcFtp
