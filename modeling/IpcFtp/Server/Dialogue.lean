import IpcFtp.Communication.Delivery
import IpcFtp.Lib.Guarded
import IpcFtp.Serialization
import IpcFtp.Server.Authorization
import Mathlib.Logic.Function.Basic

/-!
# Requests and replies of one connection

A client sends requests without waiting for the replies of earlier `get`s.  The worker
makes a thread of each; the threads take the worker's mutex in any order, and under it
handle their request and write its reply.  At the client `data_listener` threads read
under a lock, and a synchronous command reads without it.

The bytes of the reply channel carry the number of the request they answer, and the
state records what was computed and handed over; no step looks at these.

* `own_replies_of_run`: if a request is only sent when no reply is outstanding, every
  command is handed the reply to its own request, whole.
* `replies_cross`: a `sendi` sent behind a `get` can take the reply of the `get`.
-/

namespace IpcFtp

open Lib Program

/-! ## One reply for a request -/

/-- A handler that is one process replies at most once. -/
theorem length_replies_le_one {t : Transport} {worker : Worker} {request : Request}
    {err : CommError} {trace : List ServerEvent} {result : Except Fault (Worker × CommError)}
    (runs : Runs (serverResponder t worker request err) trace result) (one : OneProcess trace) :
    (trace.filterMap replyObject).length ≤ 1 := by
  have refused (out : worker.user = none) (guarded : request.NeedsLogin) :
      (trace.filterMap replyObject).length ≤ 1 := by
    obtain ⟨rfl, -⟩ := refused_of_notLogged out runs guarded
    exact Nat.le_refl 1
  obtain ⟨user, closed⟩ := worker
  cases request with
  | get path =>
      cases user with
      | none => exact refused rfl trivial
      | some session =>
          obtain ⟨inner, ran, rfl⟩ := runs_map.mp runs
          rcases runs_processGetCmd ran with
            ⟨rfl, rfl⟩ | ⟨row, ⟨rfl, rfl⟩ | ⟨contents, rfl, rfl⟩⟩
          all_goals simp [List.filterMap_cons, replyObject, reply]
  | post data dest size =>
      cases user with
      | none => exact refused rfl trivial
      | some session =>
          obtain ⟨inner, ran, rfl⟩ := runs_map.mp runs
          rcases runs_processPostCmd ran with ⟨row, rfl, rfl⟩ |
            ⟨inserted, ⟨e, _, rfl, rfl⟩ | ⟨block, written, _, rfl, rfl⟩⟩
          all_goals simp [List.filterMap_cons, replyObject, reply]
  | newUser newUser =>
      cases user with
      | none => exact refused rfl trivial
      | some session =>
          obtain ⟨inner, ran, rfl⟩ := runs_map.mp runs
          rcases runs_processNewUserCmd ran with
            ⟨_, rfl, rfl⟩ | ⟨_, ⟨rfl, rfl⟩ | ⟨inChild, inserted, rfl, rfl⟩⟩
          · exact Nat.le_refl 1
          · exact Nat.le_refl 1
          · rw [oneProcess_newUserCalls.mp one]
            exact Nat.le_refl 1
  | changePass pass =>
      cases user with
      | none => exact refused rfl trivial
      | some session =>
          obtain ⟨inner, ran, rfl⟩ := runs_map.mp runs
          obtain ⟨rfl, rfl⟩ := runs_processChangePassCmd ran
          simp [List.filterMap_cons, replyObject, reply]
  | login username password =>
      obtain ⟨inner, ran, rfl⟩ := runs_map.mp runs
      rcases runs_processLoginCmd ran with ⟨_, _, rfl, rfl⟩ |
        ⟨_, ⟨rfl, rfl⟩ | ⟨filled, rfl, rfl⟩⟩
      all_goals simp [List.filterMap_cons, replyObject, reply]
  | logout =>
      cases user with
      | none => exact refused rfl trivial
      | some session =>
          obtain ⟨inner, ran, rfl⟩ := runs_map.mp runs
          obtain ⟨rfl, rfl⟩ := runs_processLogoutCmd ran
          exact Nat.le_refl 1
  | int | double | string =>
      rcases runs_echoed runs rfl with ⟨-, rfl, -⟩ | ⟨-, rfl, -⟩
      · exact Nat.le_refl 1
      · exact Nat.zero_le 1
  | close | other kind =>
      obtain ⟨rfl, rfl⟩ := runs_pure.mp runs
      exact Nat.zero_le 1

/-! ## Client and worker -/

/-- A byte of the reply channel, with the number of the request it answers. -/
abbrev ReplyByte := Nat × Byte

/-- Where the reader of a command stands at the client. -/
inductive ClientReader : Type
  | idle
  /-- a `data_listener` before it has the lock -/
  | waiting
  /-- `sync` tells `comm_receive_data` from a `data_listener` that has the lock -/
  | reading (sync : Bool) (consumed : List ReplyByte) (reader : ByteReader Received)
  | crashed (fault : Fault)

/-- Where the thread of a request stands at the worker. -/
inductive ResponderThread : Type
  | none
  | waiting (input : Bytes)
  | ended
  deriving DecidableEq

/-- A request whose replies have been computed. -/
structure Answer : Type where
  number : Nat
  input : Bytes
  replies : List Frame

/-- What a command or callback was handed, and the bytes it was made of. -/
structure Handed : Type where
  number : Nat
  consumed : List ReplyByte
  received : Received
  deriving DecidableEq

/-- The main loop of the worker, and what it still writes when it has no room for
another thread. -/
inductive MainLoop : Type
  | listening
  | refusing (rest : List ReplyByte)

structure Dialogue : Type where
  /-- the bytes of requests on their way -/
  requests : Bytes
  replies : List ReplyByte
  /-- the requests sent so far -/
  sent : List Frame
  readers : Nat → ClientReader
  /-- the client waits for the reply of a synchronous command -/
  blocked : Bool
  /-- a `data_listener` has the lock -/
  locked : Bool
  worker : Worker
  main : MainLoop
  currentThread : Nat
  numThreads : Nat
  maxThreads : Nat
  threads : Nat → ResponderThread
  /-- what the thread that has the mutex still writes -/
  mutex : Option (List ReplyByte)
  answers : List Answer
  handed : List Handed

/-- A connection that has just been accepted. -/
def Dialogue.start (worker : Worker) (minThreads maxThreads : Nat) : Dialogue where
  requests := []
  replies := []
  sent := []
  readers := fun _ => .idle
  blocked := false
  locked := false
  worker := worker
  main := .listening
  currentThread := 0
  numThreads := minThreads
  maxThreads := maxThreads
  threads := fun _ => .none
  mutex := none
  answers := []
  handed := []

inductive DialogueAct : Type 1
  /-- the client sends a request, synchronously or not -/
  | send (request : Frame) (sync : Bool)
  /-- the worker's main loop receives one and makes a thread of it -/
  | accept
  /-- it receives one and has no room -/
  | refuse (boundary : Boundary)
  | writeRefusal
  /-- a thread takes the mutex and handles its request -/
  | respond (number : Nat) (trace : List ServerEvent) (err : CommError) (worker : Worker)
    (boundary : Boundary)
  /-- the thread with the mutex writes a byte -/
  | write
  /-- a `data_listener` takes the lock -/
  | lock (number : Nat)
  | read (number : Nat)
  /-- a reader has its frame -/
  | hand (number : Nat)

/-- The bytes that answer a request. -/
def answering (number : Nat) (bytes : Bytes) : List ReplyByte := bytes.map (Prod.mk number)

/-- The frames a handler writes. -/
def replyFrames (json : JsonC) (boundary : Boundary) (trace : List ServerEvent) : List Frame :=
  (trace.filterMap replyObject).map fun object => ⟨boundary, json.print object⟩

/-- The bytes of frames one after another. -/
def framesWire (t : Transport) (frames : List Frame) : Bytes :=
  frames.flatMap (Sender.wire t · .commSendData)

/-- The mutex while its owner has these bytes left. -/
def heldMutex (rest : List ReplyByte) : Option (List ReplyByte) :=
  if rest = [] then none else some rest

/-- `num_threads` after the check of the main loop, if there is room for another thread. -/
def roomFor (currentThread numThreads maxThreads : Nat) : Option Nat :=
  if currentThread + 1 = numThreads then
    if numThreads * 2 > maxThreads then none else some (numThreads * 2)
  else some numThreads

namespace Dialogue

def roomFor (d : Dialogue) : Option Nat :=
  IpcFtp.roomFor d.currentThread d.numThreads d.maxThreads

/-- What `comm_receive_data` takes off the requests when one is there as a whole. -/
def received (t : Transport) (d : Dialogue) : Option (Bytes × Bytes) :=
  match Reader.run none (commReceiveData t) d.requests with
  | .done received rest => some (received.buffer, rest)
  | _ => none

/-- The text of the main loop's own reply. -/
def refusal (json : JsonC) (boundary : Boundary) : Frame :=
  ⟨boundary, json.print (stringifyData (blockString (ascii "Server maxed capacity")) 21)⟩

def setReader (d : Dialogue) (number : Nat) (reader : ClientReader) : Dialogue :=
  { d with readers := Function.update d.readers number reader }

def setThread (d : Dialogue) (number : Nat) (thread : ResponderThread) : Dialogue :=
  { d with threads := Function.update d.threads number thread }

def next (t : Transport) (json : JsonC) (d : Dialogue) : DialogueAct → Option Dialogue
  | .send request sync =>
    if d.blocked then none
    else some { d.setReader d.sent.length
        (if sync then .reading true [] (commReceiveData t) else .waiting) with
      requests := d.requests ++ (if sync then Sender.commSendData
        else Sender.commSendDataAsync).wire t request
      sent := d.sent ++ [request]
      blocked := sync }
  | .accept =>
    match d.main, d.received t, d.roomFor with
    | .listening, some (input, rest), some numThreads =>
      some { d.setThread d.currentThread (.waiting input) with
        requests := rest, currentThread := d.currentThread + 1, numThreads := numThreads }
    | _, _, _ => none
  | .refuse boundary =>
    match d.main, d.received t, d.roomFor with
    | .listening, some (_, rest), none => some { d with
        requests := rest
        numThreads := d.numThreads * 2
        main := .refusing (answering d.currentThread
          (framesWire t [refusal json boundary])) }
    | _, _, _ => none
  | .writeRefusal =>
    match d.main with
    | .refusing (byte :: rest) => some { d with
        main := .refusing rest, replies := d.replies ++ [byte] }
    | _ => none
  | .respond number trace _ worker boundary =>
    match d.threads number, d.mutex with
    | .waiting input, none => some { d.setThread number .ended with
        worker := worker
        mutex := heldMutex (answering number (framesWire t (replyFrames json boundary trace)))
        answers := d.answers ++ [⟨number, input, replyFrames json boundary trace⟩] }
    | _, _ => none
  | .write =>
    match d.mutex with
    | some (byte :: rest) => some { d with
        mutex := heldMutex rest, replies := d.replies ++ [byte] }
    | _ => none
  | .lock number =>
    match d.readers number, d.locked with
    | .waiting, false => some { d.setReader number (.reading false [] (dataListener t)) with
        locked := true }
    | _, _ => none
  | .read number =>
    match d.readers number, d.replies with
    | .reading sync consumed (.read next), byte :: replies => some {
        d.setReader number (.reading sync (consumed ++ [byte]) (next byte.2)) with
        replies := replies }
    | _, _ => none
  | .hand number =>
    match d.readers number with
    | .reading sync consumed (.ret received) => some { d.setReader number .idle with
        blocked := if sync then false else d.blocked
        locked := if sync then d.locked else false
        handed := d.handed ++ [⟨number, consumed, received⟩] }
    | .reading _ _ (.fault e) => some (d.setReader number (.crashed e))
    | _ => none

/-- What a thread does is what `server_responder` can do with its request.  A handler
that faults takes the worker and the connection with it and is no step. -/
def Responds (t : Transport) (json : JsonC) (d : Dialogue) : DialogueAct → Prop
  | .respond number trace err worker _ => ∃ input fresh parsed err',
    d.threads number = .waiting input ∧ json.parseEncoded fresh input = .ok parsed ∧
      Runs (serverResponder t d.worker parsed.toRequest err) trace (.ok (worker, err'))
  | _ => True

/-- One step of client or worker. -/
def step (t : Transport) (json : JsonC) (d : Dialogue) (act : DialogueAct) (d' : Dialogue) :
    Prop :=
  d.Responds t json act ∧ d.next t json act = some d'

end Dialogue

/-! ## What is to hold, and when -/

/-- The reply was computed for the request whose number it carries. -/
def ForRequest (sent : List Frame) (answer : Answer) : Prop :=
  ∃ request, sent[answer.number]? = some request ∧ answer.input = request.message

/-- The one reply to the request was taken byte by byte, and handed over as it is. -/
def OwnReply (t : Transport) (answers : List Answer) (handed : Handed) : Prop :=
  ∃ answer ∈ answers, ∃ reply, answer.number = handed.number ∧ answer.replies = [reply] ∧
    handed.consumed = answering handed.number (framesWire t [reply]) ∧
      handed.received = receivedOk reply.message

/-- Every command has had to do with the reply to its own request only. -/
structure OwnReplies (t : Transport) (d : Dialogue) : Prop where
  computed : ∀ answer ∈ d.answers, ForRequest d.sent answer
  handed : ∀ handed ∈ d.handed, OwnReply t d.answers handed
  /-- also the bytes taken so far are of that reply -/
  taken : ∀ number sync consumed reader, d.readers number = .reading sync consumed reader →
    ∀ byte ∈ consumed, byte.1 = number

/-- A request is sent only when every earlier command has been handed its reply, it and
its reply can be delivered, one process handles it, and the worker has room for its thread. -/
def oneOutstanding (t : Transport) (json : JsonC) (d : Dialogue) : DialogueAct → Prop
  | .send request _ => (∀ number, d.readers number = .idle) ∧ request.Deliverable t
  | .respond _ trace _ _ boundary =>
    (∀ reply ∈ replyFrames json boundary trace, reply.Deliverable t) ∧ OneProcess trace
  | .refuse _ => False
  | _ => True

/-! ## One request at a time -/

/-- The reader of request `number` has taken `consumed` and nobody else reads. -/
def Reads (t : Transport) (d : Dialogue) (number : Nat) (consumed : Bytes)
    (reader : ByteReader Received) : Prop :=
  (∀ other, other ≠ number → d.readers other = .idle) ∧
    ((d.readers number = .waiting ∧ consumed = [] ∧ reader = receiveFrame t) ∨
      ∃ sync, d.readers number = .reading sync (answering number consumed) reader)

/-- No thread waits for the mutex. -/
def NoThread (d : Dialogue) : Prop := ∀ number input, d.threads number ≠ .waiting input

/-- Where a dialogue can be when at most one reply is outstanding. -/
inductive Orderly (t : Transport) (d : Dialogue) : Prop
  | quiet (readers : ∀ number, d.readers number = .idle) (requests : d.requests = [])
    (replies : d.replies = []) (threads : NoThread d) (mutex : d.mutex = none)
    (current : d.currentThread = d.sent.length)
  | requested (earlier : List Frame) (request : Frame) (sent : d.sent = earlier ++ [request])
    (reads : Reads t d earlier.length [] (receiveFrame t)) (deliverable : request.Deliverable t)
    (requests : d.requests = Sender.wire t request .commSendData) (replies : d.replies = [])
    (threads : NoThread d) (mutex : d.mutex = none) (current : d.currentThread = earlier.length)
  | accepted (earlier : List Frame) (request : Frame) (sent : d.sent = earlier ++ [request])
    (reads : Reads t d earlier.length [] (receiveFrame t)) (requests : d.requests = [])
    (replies : d.replies = [])
    (threads : d.threads earlier.length = .waiting request.message)
    (others : ∀ number input, number ≠ earlier.length → d.threads number ≠ .waiting input)
    (mutex : d.mutex = none) (current : d.currentThread = d.sent.length)
  /-- of the replies the reader has `consumed`, the channel `middle`, the thread `rest` -/
  | answered (earlier : List Frame) (request : Frame) (sent : d.sent = earlier ++ [request])
    (frames : List Frame) (one : frames.length ≤ 1)
    (deliverable : ∀ reply ∈ frames, reply.Deliverable t)
    (recorded : ⟨earlier.length, request.message, frames⟩ ∈ d.answers)
    (consumed middle rest : Bytes) (split : consumed ++ middle ++ rest = framesWire t frames)
    (reader : ByteReader Received) (fed : (receiveFrame t).after consumed = some reader)
    (reads : Reads t d earlier.length consumed reader) (requests : d.requests = [])
    (replies : d.replies = answering earlier.length middle) (threads : NoThread d)
    (mutex : d.mutex = heldMutex (answering earlier.length rest))
    (current : d.currentThread = d.sent.length)

/-- The invariant of dialogues with at most one reply outstanding. -/
structure OneByOne (t : Transport) (d : Dialogue) : Prop where
  orderly : Orderly t d
  listening : d.main = .listening
  computed : ∀ answer ∈ d.answers, ForRequest d.sent answer
  handed : ∀ handed ∈ d.handed, OwnReply t d.answers handed

section Steps

variable {t : Transport} {json : JsonC} {d d' : Dialogue} {number : Nat}

theorem Reads.not_all_idle {consumed : Bytes} {reader : ByteReader Received}
    (reads : Reads t d number consumed reader) : ¬ ∀ number, d.readers number = .idle := by
  intro idle
  obtain ⟨_, ⟨waits, _⟩ | ⟨sync, reading⟩⟩ := reads
  · rw [idle] at waits
    cases waits
  · rw [idle] at reading
    cases reading

/-- The reader that is not idle is the one of the outstanding request. -/
theorem Reads.eq {consumed : Bytes} {reader : ByteReader Received} {other : Nat}
    (reads : Reads t d number consumed reader) (busy : d.readers other ≠ .idle) :
    other = number := by
  by_contra different
  exact busy (reads.1 other different)

theorem OwnReplies.of_oneByOne (inv : OneByOne t d) : OwnReplies t d := by
  refine ⟨inv.computed, inv.handed, ?_⟩
  intro number sync consumed reader reading byte member
  have own {active : Nat} {taken : Bytes} {waits : ByteReader Received}
      (reads : Reads t d active taken waits) : byte.1 = number := by
    obtain rfl : number = _ := reads.eq (by rw [reading]; simp)
    rcases reads.2 with ⟨before, _⟩ | ⟨_, same⟩
    · rw [reading] at before
      cases before
    · rw [reading] at same
      cases same
      obtain ⟨c, _, rfl⟩ := List.mem_map.mp member
      rfl
  cases inv.orderly with
  | quiet readers =>
      rw [readers] at reading
      cases reading
  | requested _ _ _ reads => exact own reads
  | accepted _ _ _ reads => exact own reads
  | answered _ _ _ _ _ _ _ _ _ _ _ _ _ reads => exact own reads

theorem received_nil (empty : d.requests = []) : d.received t = none := by
  rw [Dialogue.received, empty]
  cases t <;> rfl

theorem ForRequest.mono {sent : List Frame} {answer : Answer} (known : ForRequest sent answer)
    (more : List Frame) : ForRequest (sent ++ more) answer := by
  obtain ⟨request, at_, input⟩ := known
  refine ⟨request, ?_, input⟩
  rw [List.getElem?_append_left (List.getElem?_eq_some_iff.mp at_).1, at_]

theorem OwnReply.mono {answers : List Answer} {handed : Handed}
    (own : OwnReply t answers handed) (more : List Answer) :
    OwnReply t (answers ++ more) handed := by
  obtain ⟨answer, member, reply, rest⟩ := own
  exact ⟨answer, List.mem_append_left _ member, reply, rest⟩

theorem OneByOne.send {request : Frame} {sync : Bool} (inv : OneByOne t d)
    (allowed : oneOutstanding t json d (.send request sync))
    (taken : d.next t json (.send request sync) = some d') : OneByOne t d' := by
  obtain ⟨idle, deliverable⟩ := allowed
  have still : d.requests = [] ∧ d.replies = [] ∧ NoThread d ∧ d.mutex = none ∧
      d.currentThread = d.sent.length := by
    cases inv.orderly with
    | quiet _ requests replies threads mutex current =>
        exact ⟨requests, replies, threads, mutex, current⟩
    | requested _ _ _ reads => exact absurd idle reads.not_all_idle
    | accepted _ _ _ reads => exact absurd idle reads.not_all_idle
    | answered _ _ _ _ _ _ _ _ _ _ _ _ _ reads => exact absurd idle reads.not_all_idle
  obtain ⟨requests, replies, threads, mutex, current⟩ := still
  simp only [Dialogue.next] at taken
  split at taken
  · cases taken
  · rw [Option.some.injEq] at taken
    subst taken
    refine ⟨.requested d.sent request rfl ⟨?_, ?_⟩ deliverable ?_ replies threads mutex current,
      inv.listening, fun answer member => (inv.computed answer member).mono _, inv.handed⟩
    · exact fun other different => (Function.update_of_ne different ..).trans (idle other)
    · cases sync with
      | false => exact .inl ⟨Function.update_self .., rfl, rfl⟩
      | true => exact .inr ⟨true, Function.update_self ..⟩
    · cases sync <;> simp [requests, Sender.wire, commSendData, commSendDataAsync]

theorem OneByOne.accept (inv : OneByOne t d) (taken : d.next t json .accept = some d') :
    OneByOne t d' := by
  simp only [Dialogue.next] at taken
  split at taken
  · rename_i input rest numThreads _ received _
    rw [Option.some.injEq] at taken
    subst taken
    cases inv.orderly with
    | quiet _ requests =>
        rw [received_nil requests] at received
        cases received
    | accepted _ _ _ _ requests =>
        rw [received_nil requests] at received
        cases received
    | answered _ _ _ _ _ _ _ _ _ _ _ _ _ _ requests =>
        rw [received_nil requests] at received
        cases received
    | requested earlier request sent reads deliverable requests replies threads mutex current =>
        have whole := deliverable.run_reader .commSendData .commReceiveData none []
        rw [List.append_nil, ← requests] at whole
        have got : d.received t = some (request.message, []) := by
          rw [Dialogue.received, show commReceiveData t = Receiver.reader t .commReceiveData from rfl,
            whole]
          rfl
        rw [got, Option.some.injEq, Prod.mk.injEq] at received
        obtain ⟨rfl, rfl⟩ := received
        refine ⟨.accepted earlier request sent reads rfl replies ?_ ?_ mutex ?_, inv.listening,
          inv.computed, inv.handed⟩
        · rw [← current]
          exact Function.update_self ..
        · intro other input different
          rw [← current] at different
          exact fun waits => threads other input ((Function.update_of_ne different ..).symm.trans
            waits)
        · change d.currentThread + 1 = d.sent.length
          rw [current, sent]
          simp
  · cases taken

theorem OneByOne.respond {trace : List ServerEvent} {err : CommError} {worker : Worker}
    {boundary : Boundary} (inv : OneByOne t d)
    (responds : d.Responds t json (.respond number trace err worker boundary))
    (allowed : oneOutstanding t json d (.respond number trace err worker boundary))
    (taken : d.next t json (.respond number trace err worker boundary) = some d') :
    OneByOne t d' := by
  simp only [Dialogue.next] at taken
  split at taken
  · rename_i input waits free
    rw [Option.some.injEq] at taken
    subst taken
    cases inv.orderly with
    | quiet _ _ _ threads => exact absurd waits (threads number input)
    | requested _ _ _ _ _ _ _ threads => exact absurd waits (threads number input)
    | answered _ _ _ _ _ _ _ _ _ _ _ _ _ _ _ _ threads =>
        exact absurd waits (threads number input)
    | accepted earlier request sent reads requests replies threads others mutex current =>
        obtain rfl : number = earlier.length := by
          by_contra different
          exact others number input different waits
        obtain rfl : request.message = input := by
          rw [threads] at waits
          exact ResponderThread.waiting.inj waits
        have one : (replyFrames json boundary trace).length ≤ 1 := by
          obtain ⟨_, _, parsed, _, _, _, runs⟩ := responds
          rw [replyFrames, List.length_map]
          exact length_replies_le_one runs allowed.2
        refine ⟨.answered earlier request sent (replyFrames json boundary trace) one allowed.1 ?_ []
          [] (framesWire t (replyFrames json boundary trace)) (List.nil_append _) (receiveFrame t)
          (Reader.after_nil _) reads requests replies ?_ rfl current, inv.listening, ?_, ?_⟩
        · exact List.mem_append_right _ (List.mem_singleton_self _)
        · intro other input
          by_cases same : other = earlier.length
          · subst same
            exact fun waits => nomatch (Function.update_self ..).symm.trans waits
          · exact fun waits => others other input same
              ((Function.update_of_ne same ..).symm.trans waits)
        · intro answer member
          rcases List.mem_append.mp member with before | now
          · exact inv.computed answer before
          · rw [List.mem_singleton.mp now]
            exact ⟨request, by simp [Dialogue.setThread, sent], rfl⟩
        · exact fun handed member => (inv.handed handed member).mono _
  · cases taken

theorem OneByOne.write (inv : OneByOne t d) (taken : d.next t json .write = some d') :
    OneByOne t d' := by
  simp only [Dialogue.next] at taken
  split at taken
  · rename_i byte left held
    rw [Option.some.injEq] at taken
    subst taken
    refine ⟨?_, inv.listening, inv.computed, inv.handed⟩
    cases inv.orderly with
    | quiet _ _ _ _ mutex =>
        rw [mutex] at held
        cases held
    | requested _ _ _ _ _ _ _ _ mutex =>
        rw [mutex] at held
        cases held
    | accepted _ _ _ _ _ _ _ _ mutex =>
        rw [mutex] at held
        cases held
    | answered earlier request sent frames one deliverable recorded consumed middle rest split
        reader fed reads requests replies threads mutex current =>
        rw [mutex, heldMutex] at held
        split at held
        · cases held
        · rw [Option.some.injEq] at held
          obtain ⟨c, rest, rfl, rfl, rfl⟩ := List.map_eq_cons_iff.mp held
          refine .answered earlier request sent frames one deliverable recorded consumed
            (middle ++ [c]) rest ?_ reader fed reads requests ?_ threads rfl current
          · rw [← split]
            simp
          · simp [replies, answering]
  · cases taken

/-- The readers begin with a read. -/
theorem receiveFrame_eq (t : Transport) : ∃ next, receiveFrame t = .read next := by
  cases t <;> exact ⟨_, rfl⟩

/-- A listener that takes the lock reads like one that needs none. -/
theorem Reads.lock {active : Nat} {consumed : Bytes} {reader : ByteReader Received}
    (reads : Reads t d active consumed reader) (waits : d.readers number = .waiting) :
    Reads t { d.setReader number (.reading false [] (dataListener t)) with locked := true }
      active consumed reader := by
  obtain rfl : number = _ := reads.eq (by rw [waits]; simp)
  refine ⟨fun other different => (Function.update_of_ne different ..).trans
    (reads.1 other different), .inr ⟨false, ?_⟩⟩
  rcases reads.2 with ⟨_, rfl, rfl⟩ | ⟨_, reading⟩
  · exact Function.update_self ..
  · rw [waits] at reading
    cases reading

theorem OneByOne.lock (inv : OneByOne t d) (taken : d.next t json (.lock number) = some d') :
    OneByOne t d' := by
  simp only [Dialogue.next] at taken
  split at taken
  · rename_i waits _
    rw [Option.some.injEq] at taken
    subst taken
    refine ⟨?_, inv.listening, inv.computed, inv.handed⟩
    cases inv.orderly with
    | quiet readers =>
        rw [readers] at waits
        cases waits
    | requested earlier request sent reads deliverable requests replies threads mutex current =>
        exact .requested earlier request sent (reads.lock waits) deliverable requests replies
          threads mutex current
    | accepted earlier request sent reads requests replies threads others mutex current =>
        exact .accepted earlier request sent (reads.lock waits) requests replies threads others
          mutex current
    | answered earlier request sent frames one deliverable recorded consumed middle rest split
        reader fed reads requests replies threads mutex current =>
        exact .answered earlier request sent frames one deliverable recorded consumed middle rest
          split reader fed (reads.lock waits) requests replies threads mutex current
  · cases taken

theorem OneByOne.read (inv : OneByOne t d) (taken : d.next t json (.read number) = some d') :
    OneByOne t d' := by
  simp only [Dialogue.next] at taken
  split at taken
  · rename_i sync got next byte left reading pipe
    rw [Option.some.injEq] at taken
    subst taken
    refine ⟨?_, inv.listening, inv.computed, inv.handed⟩
    cases inv.orderly with
    | quiet _ _ replies =>
        rw [replies] at pipe
        cases pipe
    | requested _ _ _ _ _ _ replies =>
        rw [replies] at pipe
        cases pipe
    | accepted _ _ _ _ _ replies =>
        rw [replies] at pipe
        cases pipe
    | answered earlier request sent frames one deliverable recorded consumed middle rest split
        reader fed reads requests replies threads mutex current =>
        rw [replies] at pipe
        obtain ⟨c, middle, rfl, rfl, rfl⟩ := List.map_eq_cons_iff.mp pipe
        obtain rfl : number = _ := reads.eq (by rw [reading]; simp)
        obtain ⟨others, ⟨waits, _⟩ | ⟨_, same⟩⟩ := reads
        · rw [reading] at waits
          cases waits
        rw [reading, ClientReader.reading.injEq] at same
        obtain ⟨rfl, rfl, rfl⟩ := same
        refine .answered earlier request sent frames one deliverable recorded (consumed ++ [c])
          middle rest (by simpa using split) (next c) ?_ ⟨?_, .inr ⟨sync, ?_⟩⟩ requests rfl threads
          mutex current
        · rw [Reader.after_append fed]
          simp
        · exact fun other different => (Function.update_of_ne different ..).trans
            (others other different)
        · simp [Dialogue.setReader, answering]
  · cases taken

/-- Who reads and does not wait for a byte has read the one reply to its request. -/
theorem OneByOne.ended {sync : Bool} {consumed : List ReplyByte} {reader : ByteReader Received}
    (inv : OneByOne t d) (reading : d.readers number = .reading sync consumed reader)
    (done : ∀ next, reader ≠ .read next) :
    (∀ other, other ≠ number → d.readers other = .idle) ∧ d.requests = [] ∧ d.replies = [] ∧
      NoThread d ∧ d.mutex = none ∧ d.currentThread = d.sent.length ∧
        ∃ received, reader = .ret received ∧ OwnReply t d.answers ⟨number, consumed, received⟩ := by
  have fresh {active : Nat} (reads : Reads t d active [] (receiveFrame t)) : False := by
    obtain ⟨next, first⟩ := receiveFrame_eq t
    obtain rfl : number = _ := reads.eq (by rw [reading]; simp)
    obtain ⟨_, ⟨waits, _⟩ | ⟨_, same⟩⟩ := reads
    · rw [reading] at waits
      cases waits
    · rw [reading, ClientReader.reading.injEq] at same
      exact done next (same.2.2.trans first)
  cases inv.orderly with
  | quiet readers =>
      rw [readers] at reading
      cases reading
  | requested _ _ _ reads => exact (fresh reads).elim
  | accepted _ _ _ reads => exact (fresh reads).elim
  | answered earlier request sent frames one deliverable recorded consumed' middle rest split
      reader' fed reads requests replies threads mutex current =>
      obtain rfl : number = _ := reads.eq (by rw [reading]; simp)
      obtain ⟨others, ⟨waits, _⟩ | ⟨_, same⟩⟩ := reads
      · rw [reading] at waits
        cases waits
      rw [reading, ClientReader.reading.injEq] at same
      obtain ⟨rfl, rfl, rfl⟩ := same
      rcases frames with _ | ⟨frame, _ | ⟨_, _⟩⟩
      · -- without a reply nothing has been read
        obtain ⟨next, first⟩ := receiveFrame_eq t
        have empty : consumed' = [] := by
          have nothing : consumed' ++ middle ++ rest = [] := split
          simp_all
        rw [empty, Reader.after_nil, Option.some.injEq] at fed
        exact absurd (fed.symm.trans first) (done next)
      · have wire : framesWire t [frame] = Sender.wire t frame .commSendData :=
          List.append_nil _
        have whole := (deliverable frame (List.mem_singleton_self _)).run_reader .commSendData
          .commReceiveData none []
        rw [List.append_nil, ← wire, ← split, List.append_assoc,
          show Receiver.reader t .commReceiveData = receiveFrame t from rfl,
          Reader.run_after fed none (middle ++ rest)] at whole
        cases reader with
        | read next => exact absurd rfl (done next)
        | fault e =>
            rw [Reader.run_fault] at whole
            cases whole
        | ret received =>
            rw [Reader.run_ret, Outcome.done.injEq] at whole
            obtain ⟨rfl, empty⟩ := whole
            obtain ⟨rfl, rfl⟩ := List.append_eq_nil_iff.mp empty
            rw [List.append_nil, List.append_nil] at split
            exact ⟨others, requests, replies, threads, mutex, current, _, rfl, _, recorded, frame,
              rfl, rfl, by rw [split], rfl⟩
      · simp at one

theorem OneByOne.hand (inv : OneByOne t d) (taken : d.next t json (.hand number) = some d') :
    OneByOne t d' := by
  simp only [Dialogue.next] at taken
  split at taken
  · rename_i sync consumed received reading
    obtain ⟨others, requests, replies, threads, mutex, current, _, isRet, own⟩ :=
      inv.ended reading (by simp)
    obtain rfl := Reader.ret.inj isRet
    rw [Option.some.injEq] at taken
    subst taken
    refine ⟨.quiet ?_ requests replies threads mutex current, inv.listening, inv.computed, ?_⟩
    · intro other
      by_cases same : other = number
      · rw [same]
        exact Function.update_self ..
      · exact (Function.update_of_ne same ..).trans (others other same)
    · intro handed member
      rcases List.mem_append.mp member with before | now
      · exact inv.handed handed before
      · rw [List.mem_singleton.mp now]
        exact own
  · rename_i sync consumed e reading
    obtain ⟨_, _, _, _, _, _, received, isRet, _⟩ := inv.ended reading (by simp)
    cases isRet
  · cases taken

/-- When the reader of the last request is idle, nobody reads. -/
theorem OneByOne.all_idle (inv : OneByOne t d) (sent : d.sent.length = number + 1)
    (last : d.readers number = .idle) : ∀ other, d.readers other = .idle := by
  have none {earlier : List Frame} {request : Frame} {consumed : Bytes}
      {reader : ByteReader Received} (all : d.sent = earlier ++ [request])
      (reads : Reads t d earlier.length consumed reader) (other : Nat) :
      d.readers other = .idle := by
    obtain rfl : earlier.length = number := by simpa [all] using sent
    by_cases same : other = earlier.length
    · rwa [same]
    · exact reads.1 other same
  cases inv.orderly with
  | quiet readers => exact readers
  | requested _ _ all reads => exact none all reads
  | accepted _ _ all reads => exact none all reads
  | answered _ _ all _ _ _ _ _ _ _ _ _ _ reads => exact none all reads

theorem OneByOne.step {act : DialogueAct} (inv : OneByOne t d)
    (allowed : oneOutstanding t json d act) (taken : d.step t json act d') : OneByOne t d' := by
  obtain ⟨responds, taken⟩ := taken
  cases act with
  | send request sync => exact inv.send allowed taken
  | accept => exact inv.accept taken
  | refuse boundary => exact allowed.elim
  | writeRefusal =>
      simp only [Dialogue.next, inv.listening] at taken
      cases taken
  | respond number trace err worker boundary => exact inv.respond responds allowed taken
  | write => exact inv.write taken
  | lock number => exact inv.lock taken
  | read number => exact inv.read taken
  | hand number => exact inv.hand taken

end Steps

theorem oneByOne_start (t : Transport) (worker : Worker) (minThreads maxThreads : Nat) :
    OneByOne t (.start worker minThreads maxThreads) := by
  refine ⟨.quiet (fun _ => rfl) rfl rfl nofun rfl rfl, rfl, ?_, ?_⟩
  · simp [Dialogue.start]
  · simp [Dialogue.start]

/-- If requests are only sent when no reply is outstanding, every command and callback is
handed the reply to its own request, whole. -/
theorem own_replies_of_run {t : Transport} {json : JsonC} {worker : Worker}
    {minThreads maxThreads : Nat} {d : Dialogue} {acts : List DialogueAct}
    (run : Run (Dialogue.step t json) (oneOutstanding t json)
      (.start worker minThreads maxThreads) acts d) : OwnReplies t d := by
  have inv : OneByOne t d := by
    apply run.invariant (oneByOne_start t worker minThreads maxThreads)
    exact fun kept allowed taken => kept.step allowed taken
  exact .of_oneByOne inv

/-! ## Two dialogues -/

/-- `sendi 1`. -/
def sendOne : Frame := ⟨genBoundary 7, printPlain (stringifyInt 1)⟩

/-- `get x`. -/
def getX : Frame := ⟨genBoundary 8, printPlain (stringifyCommandGet ⟨ascii "x", nulFree_x⟩)⟩

def sampleJson : JsonC :=
  plainJson [stringifyInt 1, stringifyCommandGet ⟨ascii "x", nulFree_x⟩]

/-- A thread answers `sendi 1` with 2. -/
def respondTwo (number : Nat) (worker : Worker) : DialogueAct :=
  .respond number [⟨.sendInt 2, ()⟩] ⟨0, []⟩ worker (genBoundary 9)

def twoReply : Frame := ⟨genBoundary 9, printPlain (stringifyInt 2)⟩

theorem responds_two {d : Dialogue} {number : Nat}
    (waits : d.threads number = .waiting sendOne.message) :
    d.Responds .fifo sampleJson (respondTwo number d.worker) :=
  ⟨_, 0, .request (.int 1), _, waits, rfl, .call (.ret _)⟩

/-- Acts that nothing is asked of. -/
def DialogueAct.Plain : DialogueAct → Prop
  | .send _ _ | .refuse _ | .respond _ _ _ _ _ => False
  | _ => True

theorem responds_of_plain {t : Transport} {json : JsonC} {act : DialogueAct} (plain : act.Plain)
    (d : Dialogue) : d.Responds t json act ∧ oneOutstanding t json d act := by
  cases act <;> first
    | exact ⟨trivial, trivial⟩
    | exact plain.elim

/-- The frame of `sendi 1` is sent, answered, written and read byte by byte, and handed over. -/
def sendiRound (number : Nat) : List DialogueAct :=
  let length := (framesWire .fifo [twoReply]).length
  .send sendOne true :: .accept :: respondTwo number .start ::
    (List.replicate length .write ++ (List.replicate length (.read number) ++ [.hand number]))

/-- What is handed over at its end. -/
def twoHanded (number : Nat) : Handed :=
  ⟨number, answering number (framesWire .fifo [twoReply]), receivedOk twoReply.message⟩

/-- Where no reader is left, the acts of a `sendi` are one round of the client and the worker. -/
theorem run_sendiRound {d d' : Dialogue} {number : Nat}
    (idle : ∀ number, d.readers number = .idle)
    (before : (exec (Dialogue.next .fifo sampleJson) d [.send sendOne true, .accept]).map
      (fun d => (d.worker, d.threads number)) = some (.start, .waiting sendOne.message))
    (followed : exec (Dialogue.next .fifo sampleJson) d (sendiRound number) = some d') :
    Run (Dialogue.step .fifo sampleJson) (oneOutstanding .fifo sampleJson) d (sendiRound number)
      d' := by
  let length := (framesWire .fifo [twoReply]).length
  let later : List DialogueAct := List.replicate length .write ++
    (List.replicate length (.read number) ++ [.hand number])
  obtain ⟨d₁, sent, followed⟩ := Option.bind_eq_some_iff.mp followed
  obtain ⟨d₂, accepted, followed⟩ := Option.bind_eq_some_iff.mp followed
  obtain ⟨d₃, responded, others⟩ := Option.bind_eq_some_iff.mp followed
  rw [exec, sent, Option.bind_some, exec, accepted, Option.bind_some, exec, Option.map_some,
    Option.some.injEq, Prod.mk.injEq] at before
  have responds := responds_two before.2
  rw [before.1] at responds
  have deliverable : sendOne.Deliverable .fifo := ⟨by decide, by decide, by decide, by decide⟩
  have allowed : oneOutstanding .fifo sampleJson d₂ (respondTwo number .start) := by
    constructor
    · intro reply member
      rw [List.mem_singleton.mp member]
      exact ⟨by decide, by decide, by decide, by decide⟩
    · intro event member
      rw [List.mem_singleton.mp member]
      exact not_false
  have plain : ∀ act ∈ later, act.Plain := by
    intro act member
    simp only [later, List.mem_append, List.mem_replicate, List.mem_singleton] at member
    rcases member with ⟨_, rfl⟩ | ⟨_, rfl⟩ | rfl <;> trivial
  refine .of_guard (run_cons.mpr ⟨d₁, ⟨trivial, idle, deliverable⟩, sent,
    run_cons.mpr ⟨d₂, ⟨trivial, trivial⟩, accepted,
      run_cons.mpr ⟨d₃, ⟨responds, allowed⟩, responded, .of_exec ?_ others⟩⟩⟩)
  exact fun act member => responds_of_plain (plain act member)

/-- Two of them, one after the other. -/
theorem run_sendis :
    ∃ d, Run (Dialogue.step .fifo sampleJson) (oneOutstanding .fifo sampleJson)
        (.start .start 5 10) (sendiRound 0 ++ sendiRound 1) d ∧
      d.handed = [twoHanded 0, twoHanded 1] := by
  have first : (exec (Dialogue.next .fifo sampleJson) (.start .start 5 10) (sendiRound 0)).map
      (fun d => (d.sent.length, decide (d.readers 0 matches .idle))) = some (1, true) := by
    decide +kernel
  have before₀ : (exec (Dialogue.next .fifo sampleJson) (.start .start 5 10)
      [.send sendOne true, .accept]).map (fun d => (d.worker, d.threads 0)) =
        some (.start, .waiting sendOne.message) := by
    decide +kernel
  have before₁ : (exec (Dialogue.next .fifo sampleJson) (.start .start 5 10)
      (sendiRound 0 ++ [.send sendOne true, .accept])).map (fun d => (d.worker, d.threads 1)) =
        some (.start, .waiting sendOne.message) := by
    decide +kernel
  have outcome : (exec (Dialogue.next .fifo sampleJson) (.start .start 5 10)
      (sendiRound 0 ++ sendiRound 1)).map Dialogue.handed = some [twoHanded 0, twoHanded 1] := by
    decide +kernel
  obtain ⟨d₁, followed, ended⟩ := Option.map_eq_some_iff.mp first
  obtain ⟨sent, last⟩ := Prod.mk.inj ended
  rw [exec_append, followed, Option.bind_some] at before₁ outcome
  obtain ⟨d₂, followed', handed⟩ := Option.map_eq_some_iff.mp outcome
  have round := run_sendiRound (fun _ => rfl) before₀ followed
  have inv : OneByOne .fifo d₁ := round.invariant (oneByOne_start .fifo .start 5 10)
    fun kept allowed taken => kept.step allowed taken
  have idle : d₁.readers 0 = .idle := by
    cases reader : d₁.readers 0 with
    | idle => rfl
    | waiting | reading | crashed =>
        rw [reader] at last
        cases last
  exact ⟨d₂, round.append (run_sendiRound (inv.all_idle sent idle) before₁ followed'), handed⟩

/-- Two `sendi`s one after the other are each handed their reply. -/
theorem own_replies_sendi :
    ∃ d acts, Run (Dialogue.step .fifo sampleJson) (oneOutstanding .fifo sampleJson)
        (.start .start 5 10) acts d ∧
      d.handed = [twoHanded 0, twoHanded 1] ∧ OwnReplies .fifo d := by
  obtain ⟨d, run, handed⟩ := run_sendis
  exact ⟨d, _, run, handed, own_replies_of_run run⟩

/-- A `sendi` sent behind a `get`: the thread of the `sendi` takes the mutex first, and the
listener of the `get` is handed its reply. -/
theorem replies_cross :
    getX.Deliverable .fifo ∧ sendOne.Deliverable .fifo ∧ twoReply.Deliverable .fifo ∧
    ∃ d acts, Run (Dialogue.step .fifo sampleJson) unguarded (.start .start 5 10) acts d ∧
      d.sent.map Frame.message = [getX.message, sendOne.message] ∧
      d.handed = [⟨0, answering 1 (framesWire .fifo [twoReply]), receivedOk twoReply.message⟩] ∧
      ¬ OwnReplies .fifo d := by
  let length := (framesWire .fifo [twoReply]).length
  let first : List DialogueAct := [.send getX false, .send sendOne true, .accept, .accept]
  let later : List DialogueAct := List.replicate length .write ++
    (.lock 0 :: List.replicate length (.read 0) ++ [.hand 0])
  have outcome : (exec (Dialogue.next .fifo sampleJson) (.start .start 5 10)
      (first ++ respondTwo 1 .start :: later)).map (fun d => (d.sent.map Frame.message, d.handed)) =
        some ([getX.message, sendOne.message],
          [⟨0, answering 1 (framesWire .fifo [twoReply]), receivedOk twoReply.message⟩]) := by
    decide +kernel
  have before : (exec (Dialogue.next .fifo sampleJson) (.start .start 5 10) first).map
      (fun d => (d.worker, d.threads 1)) = some (.start, .waiting sendOne.message) := by
    decide +kernel
  rw [exec_append] at outcome
  obtain ⟨d, followed, sentHanded⟩ := Option.map_eq_some_iff.mp outcome
  obtain ⟨d₁, accepted, followed⟩ := Option.bind_eq_some_iff.mp followed
  obtain ⟨d₂, responded, others⟩ := Option.bind_eq_some_iff.mp followed
  obtain ⟨sent, handed⟩ := Prod.mk.inj sentHanded
  rw [accepted, Option.map_some, Option.some.injEq, Prod.mk.injEq] at before
  have responds := responds_two before.2
  rw [before.1] at responds
  have run : Run (Dialogue.step .fifo sampleJson) unguarded (.start .start 5 10)
      (first ++ respondTwo 1 .start :: later) d := by
    refine .of_guard (.append (.of_exec ?_ accepted)
      (run_cons.mpr ⟨d₂, ⟨responds, trivial⟩, responded, .of_exec ?_ others⟩))
    · intro act member d
      simp only [first, List.mem_cons, List.not_mem_nil, or_false] at member
      rcases member with rfl | rfl | rfl | rfl <;> exact ⟨trivial, trivial⟩
    · intro act member d
      simp only [later, List.mem_append, List.mem_cons, List.mem_replicate, List.not_mem_nil,
        or_false] at member
      rcases member with ⟨_, rfl⟩ | (rfl | ⟨_, rfl⟩) | rfl <;> exact ⟨trivial, trivial⟩
  refine ⟨⟨by decide, by decide, by decide, by decide⟩,
    ⟨by decide, by decide, by decide, by decide⟩, ⟨by decide, by decide, by decide, by decide⟩,
    d, _, run, sent, handed, fun own => ?_⟩
  obtain ⟨_, _, reply, _, _, consumed, _⟩ := own.handed _ (handed ▸ List.mem_singleton_self _)
  -- the bytes handed over carry the other number
  have taken : (1, chr '-') ∈ answering 1 (framesWire .fifo [twoReply]) := by decide +kernel
  rw [show answering 1 _ = answering 0 (framesWire .fifo [reply]) from consumed] at taken
  obtain ⟨_, _, same⟩ := List.mem_map.mp taken
  cases congrArg Prod.fst same

end IpcFtp
