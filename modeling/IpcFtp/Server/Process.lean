import IpcFtp.Serialization.ParseResult
import IpcFtp.Server.Dialogue

/-!
# One worker process

The listen loop of a worker and its responder threads, a step at a time: the loop tests the
state of the connection, receives, makes a thread or writes its own reply; the threads take
the mutex in any order, and its owner writes its reply a byte at a time.  The loop writes
without the mutex, and the lock on the descriptor does not keep threads of one process apart.

* `frames_apart_of_run`: what is written, when nobody writes into the frame of another.
* `stops_reading_of_run`: what is received, when the state is not tested before the thread of
  a close has run.
-/

namespace IpcFtp

open Lib Program

/-! ## The process -/

/-- A byte written to the client, with the thread that wrote it; the loop has no number. -/
abbrev WorkerByte := Option Nat × Byte

/-- A frame and who sends it. -/
structure Sent : Type where
  sender : Option Nat
  frame : Frame

def Sent.bytes (t : Transport) (sent : Sent) : List WorkerByte :=
  (Sender.wire t sent.frame .commSendData).map (Prod.mk sent.sender)

inductive ListenLoop : Type
  | testing
  | receiving
  /-- its own reply, and how much of it is written -/
  | refusing (sent : Sent) (count : Nat)
  | leaving
  | ended

structure WorkerProcess : Type where
  /-- the bytes of requests on their way -/
  requests : Bytes
  loop : ListenLoop
  currentThread : Nat
  numThreads : Nat
  maxThreads : Nat
  worker : Worker
  threads : Nat → ResponderThread
  /-- what the thread that has the mutex has to write, and how much of the first is written -/
  replies : List Sent
  count : Nat
  written : List WorkerByte
  /-- the frames whose sending has begun -/
  sends : List Sent
  /-- how often `comm_receive_data` was called -/
  started : Nat
  /-- how often it had been called when it returned the first `command.close` -/
  closedAfter : Option Nat

/-- A worker that has just been forked. -/
def WorkerProcess.start (minThreads maxThreads : Nat) : WorkerProcess where
  requests := []
  loop := .testing
  currentThread := 0
  numThreads := minThreads
  maxThreads := maxThreads
  worker := .start
  threads := fun _ => .none
  replies := []
  count := 0
  written := []
  sends := []
  started := 0
  closedAfter := none

inductive ProcessAct : Type 1
  /-- the client writes anything -/
  | arrive (bytes : Bytes)
  /-- `while (!is_connection_closed(connection))`, and behind it the call of
  `comm_receive_data` -/
  | test
  /-- it returns, and a thread is made, if `pthread_create` can -/
  | accept (created : Bool)
  /-- it returns, and there is no room for a thread -/
  | refuse (boundary : Boundary)
  /-- it reads or writes outside its blocks -/
  | receiveFaults
  | writeRefusal
  /-- `connection_close` and `exit` -/
  | exit
  /-- a thread takes the mutex and handles its request -/
  | respond (number : Nat) (trace : List ServerEvent) (worker : Worker) (boundary : Boundary)
  /-- it faults, and the process ends -/
  | crash (number : Nat) (trace : List ServerEvent) (fault : Fault)
  /-- the thread with the mutex writes a byte -/
  | write

/-- A text that is parsed as a `command.close`. -/
def isCloseText (json : JsonC) (input : Bytes) : Bool :=
  match (json.parseEncoded 0 input).map ParseResult.toRequest with
  | .ok .close => true
  | _ => false

namespace WorkerProcess

variable (t : Transport) (json : JsonC) (p : WorkerProcess)

/-- What `comm_receive_data` takes off the requests when one is there as a whole. -/
def received : Option (Bytes × Bytes) :=
  match Reader.run none (commReceiveData t) p.requests with
  | .done received rest => some (received.buffer, rest)
  | _ => none

def noteClose (input : Bytes) : Option Nat :=
  p.closedAfter.or (if isCloseText json input then some p.started else none)

def setThread (number : Nat) (thread : ResponderThread) : WorkerProcess :=
  { p with threads := Function.update p.threads number thread }

def next (p : WorkerProcess) : ProcessAct → Option WorkerProcess
  | .arrive bytes => some { p with requests := p.requests ++ bytes }
  | .test =>
    match p.loop with
    | .testing => some (if p.worker.closed then { p with loop := .leaving }
      else { p with loop := .receiving, started := p.started + 1 })
    | _ => none
  | .accept created =>
    match p.loop, p.received t, roomFor p.currentThread p.numThreads p.maxThreads with
    | .receiving, some (input, rest), some numThreads =>
      some { (if created then p.setThread p.currentThread (.waiting input) else p) with
        loop := .testing
        requests := rest
        currentThread := p.currentThread + 1
        numThreads := numThreads
        closedAfter := p.noteClose json input }
    | _, _, _ => none
  | .refuse boundary =>
    match p.loop, p.received t, roomFor p.currentThread p.numThreads p.maxThreads with
    | .receiving, some (input, rest), none =>
      let sent : Sent := ⟨none, Dialogue.refusal json boundary⟩
      some { p with
        loop := .refusing sent 0
        requests := rest
        numThreads := p.numThreads * 2
        sends := p.sends ++ [sent]
        closedAfter := p.noteClose json input }
    | _, _, _ => none
  | .receiveFaults =>
    match p.loop, Reader.run none (commReceiveData t) p.requests with
    | .receiving, .fault _ => some { p with loop := .ended }
    | _, _ => none
  | .writeRefusal =>
    match p.loop with
    | .refusing sent count =>
      (sent.bytes t)[count]?.map fun byte => { p with
        loop := .refusing sent (count + 1), written := p.written ++ [byte] }
    | _ => none
  | .exit =>
    match p.loop with
    | .refusing sent count =>
      if count < (sent.bytes t).length then none else some { p with loop := .ended }
    | .leaving => some { p with loop := .ended }
    | _ => none
  | .respond number trace worker boundary =>
    match p.loop, p.threads number, p.replies with
    | .ended, _, _ => none
    | _, .waiting _, [] =>
      -- a child that goes on behind `execve` has replied when its parent goes on
      let sents : List Sent := (replyFrames json boundary trace).map (Sent.mk (some number))
      some { p.setThread number .ended with
        worker := worker
        replies := sents
        count := 0
        sends := p.sends ++ sents }
    | _, _, _ => none
  | .crash number _ _ =>
    match p.loop, p.threads number with
    | .ended, _ => none
    | _, .waiting _ => some { p with loop := .ended }
    | _, _ => none
  | .write =>
    match p.loop, p.replies with
    | .ended, _ => none
    | _, sent :: others =>
      (sent.bytes t)[p.count]?.map fun byte =>
        if p.count + 1 < (sent.bytes t).length then { p with
          count := p.count + 1, written := p.written ++ [byte] }
        else { p with replies := others, count := 0, written := p.written ++ [byte] }
    | _, [] => none

/-- What a thread does is what `server_responder` can do with its request; it parses before it
takes the mutex. -/
def Responds (p : WorkerProcess) : ProcessAct → Prop
  | .respond number trace worker _ => ∃ input fresh parsed err err',
    p.threads number = .waiting input ∧ json.parseEncoded fresh input = .ok parsed ∧
      Runs (serverResponder t p.worker parsed.toRequest err) trace (.ok (worker, err'))
  | .crash number trace e => ∃ input fresh, p.threads number = .waiting input ∧
    (json.parseEncoded fresh input = .error e ∨ ∃ parsed err, p.replies = [] ∧
      json.parseEncoded fresh input = .ok parsed ∧
        Runs (serverResponder t p.worker parsed.toRequest err) trace (.error e))
  | _ => True

/-- One step of the process or of its client. -/
def step (p : WorkerProcess) (act : ProcessAct) (p' : WorkerProcess) : Prop :=
  p.Responds t json act ∧ p.next t json act = some p'

end WorkerProcess

/-! ## Frames apart -/

namespace WorkerProcess

variable (t : Transport)

/-- What the owner of the mutex has written of its reply. -/
def threadPart (p : WorkerProcess) : List WorkerByte :=
  match p.replies with
  | sent :: _ => (sent.bytes t).take p.count
  | [] => []

/-- What the loop has written of its own reply, while there is more of it. -/
def refusalPart (p : WorkerProcess) : List WorkerByte :=
  match p.loop with
  | .refusing sent count => if count < (sent.bytes t).length then (sent.bytes t).take count else []
  | _ => []

end WorkerProcess

/-- Nobody writes while a frame of somebody else is written in part, and the process does not
end then. -/
def apart (t : Transport) (p : WorkerProcess) : ProcessAct → Prop
  | .write => p.refusalPart t = []
  | .writeRefusal => p.threadPart t = []
  | .exit | .crash _ _ _ | .receiveFaults => p.threadPart t = [] ∧ p.refusalPart t = []
  | _ => True

/-- The bytes written are those of whole frames, one after another, and then the front of
one, which is missing when the process has ended. -/
def FramesApart (t : Transport) (p : WorkerProcess) : Prop :=
  ∃ (whole : List Sent) (front : List WorkerByte), p.written = whole.flatMap (Sent.bytes t) ++ front ∧
    (∀ sent ∈ whole, sent ∈ p.sends) ∧
    (front = [] ∨ (∃ sent ∈ p.sends, front <+: sent.bytes t) ∧ p.loop ≠ .ended)

/-- The invariant: behind the whole frames at most one part. -/
structure Framed (t : Transport) (p : WorkerProcess) : Prop where
  split : ∃ whole : List Sent,
    p.written = whole.flatMap (Sent.bytes t) ++ (p.threadPart t ++ p.refusalPart t) ∧
      ∀ sent ∈ whole, sent ∈ p.sends
  one : p.threadPart t = [] ∨ p.refusalPart t = []
  replies : ∀ sent ∈ p.replies, sent ∈ p.sends
  refusing : ∀ sent count, p.loop = .refusing sent count → sent ∈ p.sends
  ended : p.loop = .ended → p.threadPart t = []

section Framed

variable {t : Transport} {json : JsonC} {p p' : WorkerProcess}

theorem Framed.framesApart (framed : Framed t p) : FramesApart t p := by
  obtain ⟨whole, split, known⟩ := framed.split
  refine ⟨whole, _, split, known, ?_⟩
  rcases framed.one with none | none
  · rw [none, List.nil_append]
    unfold WorkerProcess.refusalPart
    split
    · rename_i sent count loop
      split_ifs
      · exact .inr ⟨⟨sent, framed.refusing sent count loop, List.take_prefix _ _⟩, by simp [loop]⟩
      · exact .inl rfl
    · exact .inl rfl
  · rw [none, List.append_nil]
    by_cases finished : p.loop = .ended
    · exact .inl (framed.ended finished)
    · unfold WorkerProcess.threadPart
      split
      · rename_i sent others owner
        have known := framed.replies sent (owner ▸ List.mem_cons_self)
        exact .inr ⟨⟨sent, known, List.take_prefix _ _⟩, finished⟩
      · exact .inl rfl

/-- The frames begun, the bytes written and the two senders are all that is looked at. -/
theorem Framed.congr (framed : Framed t p) (sends : ∃ more, p'.sends = p.sends ++ more)
    (written : p'.written = p.written) (thread : p'.threadPart t = p.threadPart t)
    (refusal : p'.refusalPart t = p.refusalPart t)
    (replies : ∀ sent ∈ p'.replies, sent ∈ p'.sends)
    (refusing : ∀ sent count, p'.loop = .refusing sent count → sent ∈ p'.sends)
    (ended : p'.loop = .ended → p'.threadPart t = []) : Framed t p' := by
  obtain ⟨more, sends⟩ := sends
  obtain ⟨whole, split, known⟩ := framed.split
  refine ⟨⟨whole, ?_, ?_⟩, ?_, replies, refusing, ended⟩
  · rw [written, thread, refusal]
    exact split
  · intro sent member
    rw [sends]
    exact List.mem_append_left _ (known sent member)
  · rw [thread, refusal]
    exact framed.one

theorem Framed.write (framed : Framed t p) (alone : p.refusalPart t = [])
    (taken : p.next t json .write = some p') : Framed t p' := by
  simp only [WorkerProcess.next] at taken
  split at taken
  · cases taken
  · rename_i sent others owner running
    obtain ⟨byte, there, rfl⟩ := Option.map_eq_some_iff.mp taken
    have known := framed.replies
    rw [owner, List.forall_mem_cons] at known
    obtain ⟨inside, rfl⟩ := List.getElem?_eq_some_iff.mp there
    obtain ⟨whole, split, knownAll⟩ := framed.split
    have part : p.threadPart t = (sent.bytes t).take p.count := by
      simp only [WorkerProcess.threadPart, owner]
    rw [alone, part, List.append_nil] at split
    have longer : (sent.bytes t).take (p.count + 1) = (sent.bytes t).take p.count ++
        [(sent.bytes t)[p.count]] := (List.take_append_getElem inside).symm
    split_ifs with more
    · -- there are more bytes of the frame
      refine ⟨⟨whole, ?_, knownAll⟩, .inr alone, framed.replies, framed.refusing, fun finished => ?_⟩
      · simp only [WorkerProcess.threadPart, owner]
        change p.written ++ _ = _ ++ ((sent.bytes t).take (p.count + 1) ++ p.refusalPart t)
        rw [split, alone, longer, List.append_nil, List.append_assoc]
      · exact absurd finished running
    · have begins : WorkerProcess.threadPart t { p with
          replies := others, count := 0, written := p.written ++ [(sent.bytes t)[p.count]] } = [] := by
        cases others <;> rfl
      refine ⟨⟨whole ++ [sent], ?_, ?_⟩, .inr alone, known.2, framed.refusing, fun _ => begins⟩
      · rw [begins]
        change p.written ++ _ = _ ++ ([] ++ p.refusalPart t)
        rw [split, alone, List.append_nil, List.append_nil, List.flatMap_append, List.append_assoc,
          ← longer, List.take_of_length_le (Nat.le_of_not_lt more)]
        simp
      · intro other member
        rcases List.mem_append.mp member with before | last
        · exact knownAll other before
        · exact List.mem_singleton.mp last ▸ known.1
  · cases taken

theorem Framed.writeRefusal (framed : Framed t p) (alone : p.threadPart t = [])
    (taken : p.next t json .writeRefusal = some p') : Framed t p' := by
  simp only [WorkerProcess.next] at taken
  split at taken
  · rename_i sent count loop
    obtain ⟨byte, there, rfl⟩ := Option.map_eq_some_iff.mp taken
    have known := framed.refusing sent count loop
    obtain ⟨inside, rfl⟩ := List.getElem?_eq_some_iff.mp there
    obtain ⟨whole, split, knownAll⟩ := framed.split
    have part : p.refusalPart t = (sent.bytes t).take count := by
      simp only [WorkerProcess.refusalPart, loop, inside, if_true]
    rw [alone, part, List.nil_append] at split
    have longer : (sent.bytes t).take (count + 1) = (sent.bytes t).take count ++
        [(sent.bytes t)[count]] := (List.take_append_getElem inside).symm
    have refusing : ∀ other k, ListenLoop.refusing sent (count + 1) = .refusing other k →
        other ∈ p.sends := by
      intro _ _ given
      cases given
      exact known
    by_cases more : count + 1 < (sent.bytes t).length
    · refine ⟨⟨whole, ?_, knownAll⟩, .inl alone, framed.replies, refusing, nofun⟩
      change p.written ++ _ = _ ++ (p.threadPart t ++
        if count + 1 < (sent.bytes t).length then (sent.bytes t).take (count + 1) else [])
      rw [split, alone, if_pos more, longer, List.nil_append, List.append_assoc]
    · refine ⟨⟨whole ++ [sent], ?_, ?_⟩, .inl alone, framed.replies, refusing, nofun⟩
      · change p.written ++ _ = _ ++ (p.threadPart t ++
          if count + 1 < (sent.bytes t).length then (sent.bytes t).take (count + 1) else [])
        rw [split, alone, if_neg more, List.append_nil, List.append_nil, List.flatMap_append,
          List.append_assoc, ← longer, List.take_of_length_le (Nat.le_of_not_lt more)]
        simp
      · intro other member
        rcases List.mem_append.mp member with before | last
        · exact knownAll other before
        · rwa [List.mem_singleton.mp last]
  · cases taken

/-- A thread that begins its reply has written nothing of it. -/
theorem Framed.respond {number : Nat} {trace : List ServerEvent} {worker : Worker}
    {boundary : Boundary} (framed : Framed t p)
    (taken : p.next t json (.respond number trace worker boundary) = some p') : Framed t p' := by
  simp only [WorkerProcess.next] at taken
  split at taken
  · cases taken
  · rename_i input waits free running
    cases taken
    have before : p.threadPart t = [] := by
      simp only [WorkerProcess.threadPart, free]
    have begins (sents : List Sent) : (match sents with
        | sent :: _ => (sent.bytes t).take 0
        | [] => []) = [] := by
      cases sents <;> rfl
    refine framed.congr ⟨_, rfl⟩ rfl ((begins _).trans before.symm) rfl ?_ ?_ ?_
    · exact fun sent member => List.mem_append_right _ member
    · exact fun sent count loop => List.mem_append_left _ (framed.refusing sent count loop)
    · exact fun finished => absurd finished running
  · cases taken

theorem Framed.step {act : ProcessAct} (framed : Framed t p) (allowed : apart t p act)
    (taken : p.next t json act = some p') : Framed t p' := by
  cases act with
  | arrive bytes =>
      cases taken
      exact framed.congr ⟨[], (List.append_nil _).symm⟩ rfl rfl rfl framed.replies framed.refusing
        framed.ended
  | test =>
      simp only [WorkerProcess.next] at taken
      split at taken
      · rename_i loop
        have none : p.refusalPart t = [] := by
          simp only [WorkerProcess.refusalPart, loop]
        cases taken
        split_ifs
        · exact framed.congr ⟨[], (List.append_nil _).symm⟩ rfl rfl none.symm framed.replies nofun nofun
        · exact framed.congr ⟨[], (List.append_nil _).symm⟩ rfl rfl none.symm framed.replies nofun nofun
      · cases taken
  | accept created =>
      simp only [WorkerProcess.next] at taken
      split at taken
      · rename_i input rest numThreads loop _ _
        have none : p.refusalPart t = [] := by
          simp only [WorkerProcess.refusalPart, loop]
        cases taken
        cases created with
        | true =>
            exact framed.congr ⟨[], (List.append_nil _).symm⟩ rfl rfl none.symm framed.replies nofun nofun
        | false =>
            exact framed.congr ⟨[], (List.append_nil _).symm⟩ rfl rfl none.symm framed.replies nofun nofun
      · cases taken
  | refuse boundary =>
      simp only [WorkerProcess.next] at taken
      split at taken
      · rename_i input rest loop _ _
        have none : p.refusalPart t = [] := by
          simp only [WorkerProcess.refusalPart, loop]
        cases taken
        refine framed.congr ⟨_, rfl⟩ rfl rfl (.trans ?_ none.symm) ?_ ?_ nofun
        · simp [WorkerProcess.refusalPart]
        · exact fun sent member => List.mem_append_left _ (framed.replies sent member)
        · intro _ _ given
          cases given
          exact List.mem_append_right _ (List.mem_singleton_self _)
      · cases taken
  | receiveFaults =>
      simp only [WorkerProcess.next] at taken
      split at taken
      · cases taken
        exact framed.congr ⟨[], (List.append_nil _).symm⟩ rfl rfl allowed.2.symm framed.replies nofun
          fun _ => allowed.1
      · cases taken
  | writeRefusal => exact framed.writeRefusal allowed taken
  | exit =>
      simp only [WorkerProcess.next] at taken
      split at taken
      · split_ifs at taken
        cases taken
        exact framed.congr ⟨[], (List.append_nil _).symm⟩ rfl rfl allowed.2.symm framed.replies nofun
          fun _ => allowed.1
      · cases taken
        exact framed.congr ⟨[], (List.append_nil _).symm⟩ rfl rfl allowed.2.symm framed.replies nofun
          fun _ => allowed.1
      · cases taken
  | respond number trace worker boundary => exact framed.respond taken
  | crash number trace e =>
      simp only [WorkerProcess.next] at taken
      split at taken
      · cases taken
      · cases taken
        exact framed.congr ⟨[], (List.append_nil _).symm⟩ rfl rfl allowed.2.symm framed.replies nofun
          fun _ => allowed.1
      · cases taken
  | write => exact framed.write allowed taken

end Framed

/-- If nobody writes into the frame of another and the process does not end within one, what
is written are whole frames and the front of one. -/
theorem frames_apart_of_run {t : Transport} {json : JsonC} {minThreads maxThreads : Nat}
    {p : WorkerProcess} {acts : List ProcessAct}
    (run : Run (WorkerProcess.step t json) (apart t) (.start minThreads maxThreads) acts p) :
    FramesApart t p := by
  have framed : Framed t p := by
    refine run.invariant ⟨⟨[], rfl, nofun⟩, .inl rfl, nofun, nofun, nofun⟩ ?_
    exact fun framed allowed taken => framed.step allowed taken.2
  exact framed.framesApart

section Accepted

variable {t : Transport} {json : JsonC} {request : Frame}

/-- A request that is there as a whole is received. -/
theorem received_of_wire {p : WorkerProcess} {rest : Bytes} (deliverable : request.Deliverable t)
    (there : p.requests = Sender.wire t request .commSendData ++ rest) :
    p.received t = some (request.message, rest) := by
  unfold WorkerProcess.received
  rw [there, show commReceiveData t = Receiver.reader t .commReceiveData from rfl,
    deliverable.run_reader]
  rfl

/-- One request has arrived and been received, and its thread waits. -/
def accepted (json : JsonC) (request : Frame) : WorkerProcess :=
  { WorkerProcess.setThread (.start 2 2) 0 (.waiting request.message) with
    currentThread := 1
    started := 1
    closedAfter := if isCloseText json request.message then some 1 else none }

theorem run_accepted {guard : WorkerProcess → ProcessAct → Prop} (deliverable : request.Deliverable t)
    (arrives : guard (.start 2 2) (.arrive (Sender.wire t request .commSendData)))
    (tests : ∀ p, (∀ number, p.threads number = .none) → guard p .test)
    (accepts : ∀ p, guard p (.accept true)) :
    Run (WorkerProcess.step t json) guard (.start 2 2)
      [.arrive (Sender.wire t request .commSendData), .test, .accept true]
      (accepted json request) := by
  let arrived : WorkerProcess :=
    { WorkerProcess.start 2 2 with requests := Sender.wire t request .commSendData }
  let receiving : WorkerProcess := { arrived with loop := .receiving, started := 1 }
  have received : receiving.received t = some (request.message, []) :=
    received_of_wire deliverable (List.append_nil _).symm
  have taken : receiving.next t json (.accept true) = some (accepted json request) := by
    simp only [WorkerProcess.next, received]
    rfl
  refine run_cons.mpr ⟨arrived, arrives, ⟨trivial, rfl⟩, ?_⟩
  refine run_cons.mpr ⟨receiving, tests arrived fun _ => rfl, ⟨trivial, rfl⟩, ?_⟩
  exact .one (accepts receiving) ⟨trivial, taken⟩

end Accepted

/-! ## Two replies -/

theorem deliverable_sendOne : sendOne.Deliverable .fifo :=
  ⟨by decide, by decide, by decide, by decide⟩

/-- The thread of a `sendi 1` takes the mutex. -/
def respondProcess : ProcessAct := .respond 0 [⟨.sendInt 2, ()⟩] .start (genBoundary 9)

/-- It has the mutex and a reply to write. -/
def replying : WorkerProcess :=
  { (accepted sampleJson sendOne).setThread 0 .ended with
    replies := [⟨some 0, twoReply⟩], sends := [⟨some 0, twoReply⟩] }

theorem step_replying :
    (accepted sampleJson sendOne).step .fifo sampleJson respondProcess replying := by
  refine ⟨⟨sendOne.message, 0, .request (.int 1), ⟨0, []⟩, _, rfl, rfl, .call (.ret _)⟩, ?_⟩
  rfl

theorem run_replying (guard : WorkerProcess → ProcessAct → Prop)
    (arrives : ∀ p bytes, guard p (.arrive bytes)) (tests : ∀ p, guard p .test)
    (accepts : ∀ p, guard p (.accept true)) (responds : ∀ p, guard p respondProcess) :
    ∃ acts, Run (WorkerProcess.step .fifo sampleJson) guard (.start 2 2) acts replying :=
  ⟨_, (run_accepted deliverable_sendOne (arrives _ _) (fun p _ => tests p) accepts).snoc (responds _)
    step_replying⟩

/-- The loop has received a second request and refuses it. -/
def refusesSecond : List ProcessAct :=
  [.arrive (Sender.wire .fifo sendOne .commSendData), .test, .refuse (genBoundary 3)]

def secondRefusal : Sent := ⟨none, Dialogue.refusal sampleJson (genBoundary 3)⟩

/-- A reply is written to its end, and then the refusal of the next request. -/
theorem frames_apart_sendi :
    ∃ p, FramesApart .fifo p ∧
      p.written = (Sent.mk (some 0) twoReply).bytes .fifo ++ secondRefusal.bytes .fifo := by
  let writes : List ProcessAct :=
    List.replicate ((Sent.mk (some 0) twoReply).bytes .fifo).length .write
  let refuses : List ProcessAct := List.replicate (secondRefusal.bytes .fifo).length .writeRefusal
  have replied : (exec (WorkerProcess.next .fifo sampleJson) replying
      (writes ++ refusesSecond)).map (fun p => p.replies.length) = some 0 := by
    decide +kernel
  have outcome : (exec (WorkerProcess.next .fifo sampleJson) replying
      ((writes ++ refusesSecond) ++ refuses)).map WorkerProcess.written =
        some ((Sent.mk (some 0) twoReply).bytes .fifo ++ secondRefusal.bytes .fifo) := by
    decide +kernel
  obtain ⟨p, followed, written⟩ := Option.map_eq_some_iff.mp outcome
  obtain ⟨p₂, before, last⟩ := Option.bind_eq_some_iff.mp (exec_append _ _ _ ▸ followed)
  obtain ⟨p₁, first, second⟩ := Option.bind_eq_some_iff.mp (exec_append _ _ _ ▸ before)
  obtain ⟨acts, front⟩ := run_replying (apart .fifo) (fun _ _ => trivial) (fun _ => trivial)
    (fun _ => trivial) fun _ => trivial
  have writing {p p' : WorkerProcess} {act : ProcessAct} (loop : p.loop = .testing)
      (member : act ∈ writes) (taken : p.next .fifo sampleJson act = some p') :
      (p.Responds .fifo sampleJson act ∧ apart .fifo p act) ∧ p'.loop = .testing := by
    obtain rfl := (List.mem_replicate.mp member).2
    have alone : p.refusalPart .fifo = [] := by
      unfold WorkerProcess.refusalPart
      rw [loop]
    refine ⟨⟨trivial, alone⟩, ?_⟩
    simp only [WorkerProcess.next] at taken
    split at taken
    · cases taken
    · obtain ⟨byte, -, rfl⟩ := Option.map_eq_some_iff.mp taken
      split_ifs <;> exact loop
    · cases taken
  have refusing {p p' : WorkerProcess} {act : ProcessAct} (free : p.replies = [])
      (member : act ∈ refuses) (taken : p.next .fifo sampleJson act = some p') :
      (p.Responds .fifo sampleJson act ∧ apart .fifo p act) ∧ p'.replies = [] := by
    obtain rfl := (List.mem_replicate.mp member).2
    have alone : p.threadPart .fifo = [] := by
      unfold WorkerProcess.threadPart
      rw [free]
    refine ⟨⟨trivial, alone⟩, ?_⟩
    simp only [WorkerProcess.next] at taken
    split at taken
    · obtain ⟨byte, -, rfl⟩ := Option.map_eq_some_iff.mp taken
      exact free
    · cases taken
  have free : p₂.replies = [] := by
    rw [before, Option.map_some, Option.some.injEq] at replied
    exact List.eq_nil_of_length_eq_zero replied
  have middle : Run (WorkerProcess.step .fifo sampleJson) (apart .fifo) p₁ refusesSecond p₂ := by
    refine .of_guard (.of_exec ?_ second)
    intro act member p
    simp only [refusesSecond, List.mem_cons, List.not_mem_nil, or_false] at member
    rcases member with rfl | rfl | rfl <;> exact ⟨trivial, trivial⟩
  have run := ((front.append (.of_guard (.of_exec_of (by rfl) writing first))).append
    middle).append (.of_guard (.of_exec_of free refusing last))
  exact ⟨p, frames_apart_of_run run, written⟩

/-- The loop refuses a second request while the reply to the first is written. -/
theorem frames_mixed : ∃ p acts,
    Run (WorkerProcess.step .fifo sampleJson) unguarded (.start 2 2) acts p ∧
      p.written = [(some 0, chr '-'), (none, chr '-'), (some 0, chr '-')] ∧ ¬ FramesApart .fifo p := by
  let later : List ProcessAct := [.write, .arrive (Sender.wire .fifo sendOne .commSendData), .test,
    .refuse (genBoundary 3), .writeRefusal, .write]
  have outcome : (exec (WorkerProcess.next .fifo sampleJson) replying later).map (fun p =>
      (p.written, p.sends.map fun sent => decide ((sent.bytes .fifo).length < 4))) =
        some ([(some 0, chr '-'), (none, chr '-'), (some 0, chr '-')], [false, false]) := by
    decide +kernel
  obtain ⟨p, followed, observed⟩ := Option.map_eq_some_iff.mp outcome
  obtain ⟨written, lengths⟩ := Prod.mk.inj observed
  obtain ⟨acts, front⟩ := run_replying unguarded (fun _ _ => trivial) (fun _ => trivial)
    (fun _ => trivial) fun _ => trivial
  have back : Run (WorkerProcess.step .fifo sampleJson) unguarded replying later p := by
    refine .of_guard (.of_exec ?_ followed)
    intro act member p
    simp only [later, List.mem_cons, List.not_mem_nil, or_false] at member
    rcases member with rfl | rfl | rfl | rfl | rfl | rfl <;> exact ⟨trivial, trivial⟩
  refine ⟨p, _, front.append back, written, ?_⟩
  intro given
  obtain ⟨whole, part, split, known, ends⟩ := given
  rw [written] at split
  have long : ∀ sent ∈ p.sends, ¬ (sent.bytes .fifo).length < 4 := by
    intro sent member short
    have inside := List.mem_map_of_mem (f := fun sent => decide ((Sent.bytes .fifo sent).length < 4))
      member
    rw [lengths, decide_eq_true short] at inside
    simp at inside
  cases whole with
  | cons sent whole =>
      have length := congrArg List.length split
      simp only [List.flatMap_cons, List.length_append, List.length_cons, List.length_nil] at length
      have := long sent (known sent List.mem_cons_self)
      omega
  | nil =>
      -- the part would be of one sender
      obtain rfl : _ = part := split
      obtain none | ⟨⟨sent, -, front⟩, -⟩ := ends
      · cases none
      · have first : (some 0, chr '-') ∈ sent.bytes .fifo := front.subset (by simp)
        have second : (none, chr '-') ∈ sent.bytes .fifo := front.subset (by simp)
        obtain ⟨_, _, one⟩ := List.mem_map.mp first
        obtain ⟨_, _, other⟩ := List.mem_map.mp second
        have thread : sent.sender = some 0 := congrArg Prod.fst one
        have loop : sent.sender = none := congrArg Prod.fst other
        rw [loop] at thread
        cases thread

/-! ## Behind a close -/

/-- A request leaves a closed connection closed, and a close closes it. -/
theorem closed_of_runs {t : Transport} {worker worker' : Worker} {request : Request}
    {err err' : CommError} {trace : List ServerEvent}
    (runs : Runs (serverResponder t worker request err) trace (.ok (worker', err')))
    (closes : worker.closed = true ∨ request = .close) : worker'.closed = true := by
  cases request with
  | close =>
      obtain ⟨-, same⟩ := runs_pure.mp runs
      cases same
      rfl
  | get path | post data dest size | login username password | logout | newUser user
  | changePass pass =>
      obtain ⟨inner, -, same⟩ := runs_map.mp runs
      cases inner with
      | error e => cases same
      | ok after =>
          cases same
          exact closes.resolve_right (by simp)
  | other kind =>
      obtain ⟨-, same⟩ := runs_pure.mp runs
      cases same
      exact closes.resolve_right (by simp)
  | int | double | string =>
      rcases runs_echoed runs rfl with ⟨-, -, same⟩ | ⟨-, -, e, same⟩
      · cases same
        exact closes.resolve_right (by simp)
      · cases same

/-- The state is not tested while the thread of a close waits, and a close gets a thread. -/
def closesFirst (t : Transport) (json : JsonC) (p : WorkerProcess) : ProcessAct → Prop
  | .test => ∀ number input, p.threads number = .waiting input → isCloseText json input = false
  | .accept created => ∀ input rest, p.received t = some (input, rest) →
    isCloseText json input = true → created = true
  | _ => True

/-- Behind the first close `comm_receive_data` has not been called. -/
def StopsReading (p : WorkerProcess) : Prop := ∀ count, p.closedAfter = some count → p.started = count

/-- The invariant: behind a close the loop does not receive, and if it still tests the state,
this is closed or about to be. -/
def Closing (json : JsonC) (p : WorkerProcess) : Prop :=
  ∀ count, p.closedAfter = some count → p.started = count ∧ p.loop ≠ .receiving ∧
    (p.loop = .testing → p.worker.closed = true ∨
      ∃ number input, p.threads number = .waiting input ∧ isCloseText json input = true)

section Closing

variable {t : Transport} {json : JsonC} {p p' : WorkerProcess}

theorem Closing.accept {created : Bool} (closing : Closing json p)
    (allowed : closesFirst t json p (.accept created))
    (taken : p.next t json (.accept created) = some p') : Closing json p' := by
  simp only [WorkerProcess.next] at taken
  split at taken
  · rename_i input rest numThreads loop received _
    cases taken
    intro count noted
    have before : p.closedAfter = none := by
      rw [Option.eq_none_iff_forall_not_mem]
      exact fun count earlier => (closing count earlier).2.1 loop
    have noted : (if isCloseText json input then some p.started else none) = some count := by
      simpa only [WorkerProcess.noteClose, before, Option.none_or] using noted
    split_ifs at noted with isClose
    cases noted
    rw [allowed input rest received isClose]
    refine ⟨rfl, nofun, fun _ => .inr ⟨p.currentThread, input, ?_, isClose⟩⟩
    exact Function.update_self ..
  · cases taken

theorem Closing.refuse {boundary : Boundary} (closing : Closing json p)
    (taken : p.next t json (.refuse boundary) = some p') : Closing json p' := by
  simp only [WorkerProcess.next] at taken
  split at taken
  · rename_i input rest loop _ _
    cases taken
    intro count noted
    have before : p.closedAfter = none := by
      rw [Option.eq_none_iff_forall_not_mem]
      exact fun count earlier => (closing count earlier).2.1 loop
    have noted : (if isCloseText json input then some p.started else none) = some count := by
      simpa only [WorkerProcess.noteClose, before, Option.none_or] using noted
    split_ifs at noted
    cases noted
    exact ⟨rfl, nofun, nofun⟩
  · cases taken

theorem Closing.respond {number : Nat} {trace : List ServerEvent} {worker : Worker}
    {boundary : Boundary} (closing : Closing json p)
    (responds : p.Responds t json (.respond number trace worker boundary))
    (taken : p.next t json (.respond number trace worker boundary) = some p') : Closing json p' := by
  simp only [WorkerProcess.next] at taken
  split at taken
  · cases taken
  · cases taken
    obtain ⟨input, fresh, parsed, err, err', waits, parses, runs⟩ := responds
    intro count noted
    obtain ⟨started, receives, tests⟩ := closing count noted
    refine ⟨started, receives, fun testing => ?_⟩
    rcases tests testing with closed | ⟨other, text, waits', isClose⟩
    · exact .inl (closed_of_runs runs (.inl closed))
    · by_cases same : other = number
      · -- the thread of the close itself has run
        subst same
        rw [waits] at waits'
        cases waits'
        left
        refine closed_of_runs runs (.inr ?_)
        have served := toRequest_fresh json fresh 0 input
        rw [parses] at served
        unfold isCloseText at isClose
        rw [← served] at isClose
        split at isClose
        · rename_i isRequest
          exact Except.ok.inj isRequest
        · cases isClose
      · exact .inr ⟨other, text, (Function.update_of_ne same ..).trans waits', isClose⟩
  · cases taken

theorem Closing.step {act : ProcessAct} (closing : Closing json p)
    (allowed : closesFirst t json p act) (taken : p.step t json act p') : Closing json p' := by
  obtain ⟨responds, taken⟩ := taken
  -- behind an act that leaves the loop for good nothing is tested
  have finished {loop : ListenLoop} (receives : loop ≠ .receiving) (tests : loop ≠ .testing) :
      Closing json { p with loop := loop } :=
    fun count noted => ⟨(closing count noted).1, receives, fun testing => absurd testing tests⟩
  cases act with
  | arrive bytes =>
      cases taken
      exact closing
  | test =>
      simp only [WorkerProcess.next] at taken
      split at taken
      · rename_i loop
        cases taken
        split_ifs with closed
        · exact finished nofun nofun
        · intro count noted
          rcases (closing count noted).2.2 loop with closed' | ⟨number, input, waits, isClose⟩
          · exact absurd closed' closed
          · exact absurd isClose (Bool.eq_false_iff.mp (allowed number input waits))
      · cases taken
  | accept created => exact closing.accept allowed taken
  | refuse boundary => exact closing.refuse taken
  | receiveFaults =>
      simp only [WorkerProcess.next] at taken
      split at taken
      · cases taken
        exact finished nofun nofun
      · cases taken
  | writeRefusal =>
      simp only [WorkerProcess.next] at taken
      split at taken
      · obtain ⟨byte, -, rfl⟩ := Option.map_eq_some_iff.mp taken
        exact fun count noted => ⟨(closing count noted).1, nofun, nofun⟩
      · cases taken
  | exit =>
      simp only [WorkerProcess.next] at taken
      split at taken
      · split_ifs at taken
        cases taken
        exact finished nofun nofun
      · cases taken
        exact finished nofun nofun
      · cases taken
  | respond number trace worker boundary => exact closing.respond responds taken
  | crash number trace e =>
      simp only [WorkerProcess.next] at taken
      split at taken
      · cases taken
      · cases taken
        exact finished nofun nofun
      · cases taken
  | write =>
      simp only [WorkerProcess.next] at taken
      split at taken
      · cases taken
      · obtain ⟨byte, -, rfl⟩ := Option.map_eq_some_iff.mp taken
        split_ifs <;> exact closing
      · cases taken

end Closing

/-- If the state is not tested before the thread of a received close has run, the worker does
not receive behind a close. -/
theorem stops_reading_of_run {t : Transport} {json : JsonC} {minThreads maxThreads : Nat}
    {p : WorkerProcess} {acts : List ProcessAct}
    (run : Run (WorkerProcess.step t json) (closesFirst t json) (.start minThreads maxThreads)
      acts p) : StopsReading p := by
  have closing : Closing json p :=
    run.invariant nofun fun closing allowed taken => closing.step allowed taken
  exact fun count noted => (closing count noted).1

/-! ## One close -/

/-- The frame of `close`. -/
def closeFrame : Frame := ⟨genBoundary 5, printPlain stringifyCommandClose⟩

def closeJson : JsonC := plainJson [stringifyCommandClose]

theorem isCloseText_closeFrame : isCloseText closeJson closeFrame.message = true := by
  decide +kernel

theorem deliverable_closeFrame : closeFrame.Deliverable .fifo :=
  ⟨by decide, by decide, by decide, by decide⟩

theorem closedAfter_accepted : (accepted closeJson closeFrame).closedAfter = some 1 := by
  unfold accepted
  rw [isCloseText_closeFrame]
  rfl

/-- The thread runs first, and the loop ends. -/
theorem stops_reading_close : ∃ p, StopsReading p ∧ p.closedAfter = some 1 ∧ p.started = 1 ∧
    p.worker.closed = true := by
  let closed : WorkerProcess :=
    { (accepted closeJson closeFrame).setThread 0 .ended with worker := ⟨none, true⟩ }
  have front : Run (WorkerProcess.step .fifo closeJson) (closesFirst .fifo closeJson) (.start 2 2)
      [.arrive (Sender.wire .fifo closeFrame .commSendData), .test, .accept true]
      (accepted closeJson closeFrame) := by
    refine run_accepted deliverable_closeFrame trivial ?_ fun _ _ _ _ _ => rfl
    intro p none number input waits
    rw [none] at waits
    cases waits
  have responds : (accepted closeJson closeFrame).step .fifo closeJson
      (.respond 0 [] ⟨none, true⟩ (genBoundary 9)) closed := by
    refine ⟨⟨closeFrame.message, 0, .request .close, ⟨0, []⟩, ⟨0, []⟩, rfl, ?_, .ret _⟩, rfl⟩
    rfl
  exact ⟨closed, stops_reading_of_run (front.snoc (by trivial) responds), closedAfter_accepted, rfl, rfl⟩

/-- The loop tests the state before the thread has run, and receives again. -/
theorem reads_behind_close : ∃ p acts,
    Run (WorkerProcess.step .fifo closeJson) unguarded (.start 2 2) acts p ∧
      p.loop = .receiving ∧ p.closedAfter = some 1 ∧ p.started = 2 ∧ ¬ StopsReading p := by
  let receiving : WorkerProcess :=
    { accepted closeJson closeFrame with loop := .receiving, started := 2 }
  have front : Run (WorkerProcess.step .fifo closeJson) unguarded (.start 2 2)
      [.arrive (Sender.wire .fifo closeFrame .commSendData), .test, .accept true]
      (accepted closeJson closeFrame) :=
    run_accepted deliverable_closeFrame trivial (fun _ _ => trivial) fun _ => trivial
  have tests : (accepted closeJson closeFrame).step .fifo closeJson .test receiving :=
    ⟨trivial, rfl⟩
  refine ⟨receiving, _, front.snoc trivial tests, rfl, closedAfter_accepted, rfl, fun stops => ?_⟩
  exact absurd (stops 1 closedAfter_accepted) (by decide)

end IpcFtp
