import IpcFtp.Client.Commands
import IpcFtp.Server.Blocks
import IpcFtp.Server.Dialogue

/-!
# A reply for every request

The kinds of requests that are answered with one reply whatever the session and the calls,
which of their requests are, and what it means for a client that waits for each reply: the
replies come in turn.
-/

namespace IpcFtp

open Lib Program

/-! ## One request -/

/-- The kinds whose handlers are to reply. -/
def Request.Replied : Request → Prop
  | .int _ | .double _ | .string _ | .post _ _ _ | .login _ _ | .logout | .newUser _
  | .changePass _ => True
  | .get _ | .close | .other _ => False

/-- The handler of the request sends one reply and no more, whatever its calls answer. -/
def RepliesOnce (t : Transport) (worker : Worker) (request : Request) (err : CommError) : Prop :=
  ∀ trace result, Runs (serverResponder t worker request err) trace result →
    (trace.filterMap replyObject).length = 1

/-- The double of an integer is one, a string has the two characters that are skipped, and
the digits of a file for a session can be read. -/
def Request.Answerable (worker : Worker) : Request → Prop
  | .int i => isInt (i * 2)
  | .string str => 2 ≤ str.bytes.length
  | .post data _ _ => worker.user = none ∨ ∃ block, decodeToRawData data.bytes = .ok block
  | _ => True

/-- One process handles the request, and it is answerable or the alias of a file that exists. -/
def Request.AnsweredOnce (worker : Worker) (trace : List ServerEvent) (request : Request) : Prop :=
  OneProcess trace ∧ (request.Answerable worker ∨ some true ∈ trace.map fileFound)

section Once

variable {t : Transport} {worker : Worker} {request : Request} {err : CommError}
  {trace : List ServerEvent} {result : Except Fault (Worker × CommError)}

/-- One reply, as the request is answered once. -/
def Once (worker : Worker) (request : Request) (trace : List ServerEvent) : Prop :=
  (trace.filterMap replyObject).length = 1 ∧ request.AnsweredOnce worker trace

/-- Another number of replies, as it faults or two processes handle it. -/
def NotOnce (worker : Worker) (request : Request) (trace : List ServerEvent)
    (result : Except Fault (Worker × CommError)) : Prop :=
  (trace.filterMap replyObject).length ≠ 1 ∧ ¬ request.AnsweredOnce worker trace ∧
    ((∃ e, result = .error e) ∨ ¬ OneProcess trace)

theorem oneProcess_of_isSend (sends : ∀ event ∈ trace, isSend event = true) : OneProcess trace := by
  intro event member twice
  obtain ⟨call, answer⟩ := event
  have send := sends _ member
  cases call <;> first | exact twice | cases send

/-- Without a session the one reply is `NOT logged`. -/
theorem once_of_notLogged (runs : Runs (serverResponder t worker request err) trace result)
    (out : worker.user = none) (guarded : request.NeedsLogin) : Once worker request trace := by
  obtain ⟨rfl, -⟩ := refused_of_notLogged out runs guarded
  refine ⟨rfl, oneProcess_of_isSend (by simp [notLogged, reply, isSend]), .inl ?_⟩
  cases request with
  | get | newUser | changePass | logout => trivial
  | post => exact .inl out
  | int | double | string | login | close | other => exact guarded.elim

/-- A handler replies once, or it faults before its reply, or two processes reply. -/
theorem once_or_not (replied : request.Replied)
    (runs : Runs (serverResponder t worker request err) trace result) :
    Once worker request trace ∨ NotOnce worker request trace result := by
  obtain ⟨user, closed⟩ := worker
  have sent {event : ServerEvent} (sends : isSend event = true) : OneProcess [event] :=
    oneProcess_of_isSend fun other member => by rwa [List.mem_singleton.mp member]
  cases request with
  | int =>
      rcases runs_echoed runs rfl with ⟨inside, rfl, rfl⟩ | ⟨overflows, rfl, e, rfl⟩
      · exact .inl ⟨rfl, sent rfl, .inl inside⟩
      · exact .inr ⟨Nat.zero_ne_one, fun once => once.2.elim overflows List.not_mem_nil,
          .inl ⟨e, rfl⟩⟩
  | double =>
      rcases runs_echoed runs rfl with ⟨-, rfl, rfl⟩ | ⟨never, -⟩
      · exact .inl ⟨rfl, sent rfl, .inl trivial⟩
      · exact absurd trivial never
  | string =>
      rcases runs_echoed runs rfl with ⟨long, rfl, rfl⟩ | ⟨short, rfl, e, rfl⟩
      · exact .inl ⟨rfl, sent rfl, .inl long⟩
      · exact .inr ⟨Nat.zero_ne_one, fun once => once.2.elim short List.not_mem_nil,
          .inl ⟨e, rfl⟩⟩
  | post data dest size =>
      cases user with
      | none => exact .inl (once_of_notLogged runs rfl trivial)
      | some session =>
          obtain ⟨inner, ran, rfl⟩ := runs_map.mp runs
          rcases runs_processPostCmd ran with ⟨row, rfl, rfl⟩ |
            ⟨inserted, ⟨e, fails, rfl, rfl⟩ | ⟨block, written, decodes, rfl, rfl⟩⟩
          · exact .inl ⟨rfl, by simp [OneProcess, goesOnTwice, reply], .inr (.head _)⟩
          · refine .inr ⟨Nat.zero_ne_one, ?_, .inl ⟨e, rfl⟩⟩
            rintro ⟨-, (out | ⟨block, decodes⟩) | found⟩
            · cases out
            · rw [fails] at decodes
              cases decodes
            · simp [fileFound] at found
          · exact .inl ⟨rfl, by simp [OneProcess, goesOnTwice, reply],
              .inl (.inr ⟨block, decodes⟩)⟩
  | login username password =>
      left
      obtain ⟨inner, ran, rfl⟩ := runs_map.mp runs
      rcases runs_processLoginCmd ran with ⟨_, _, rfl, rfl⟩ |
        ⟨_, ⟨rfl, rfl⟩ | ⟨filled, rfl, rfl⟩⟩
      · exact ⟨rfl, sent rfl, .inl trivial⟩
      · exact ⟨rfl, by simp [OneProcess, goesOnTwice, reply], .inl trivial⟩
      · exact ⟨rfl, by simp [OneProcess, goesOnTwice, reply], .inl trivial⟩
  | logout =>
      left
      cases user with
      | none => exact once_of_notLogged runs rfl trivial
      | some session =>
          obtain ⟨inner, ran, rfl⟩ := runs_map.mp runs
          obtain ⟨rfl, rfl⟩ := runs_processLogoutCmd ran
          exact ⟨rfl, sent rfl, .inl trivial⟩
  | newUser newUser =>
      cases user with
      | none => exact .inl (once_of_notLogged runs rfl trivial)
      | some session =>
          obtain ⟨inner, ran, rfl⟩ := runs_map.mp runs
          rcases runs_processNewUserCmd ran with
            ⟨_, rfl, rfl⟩ | ⟨_, ⟨rfl, rfl⟩ | ⟨inChild, inserted, rfl, rfl⟩⟩
          · exact .inl ⟨rfl, sent rfl, .inl trivial⟩
          · exact .inl ⟨rfl, by simp [OneProcess, goesOnTwice, reply], .inl trivial⟩
          · cases inChild with
            | none => exact .inl ⟨rfl, oneProcess_newUserCalls.mpr rfl, .inl trivial⟩
            | some first =>
                -- parent and child have replied
                have twice : ¬ OneProcess (newUserCalls newUser (some first) inserted) := by
                  rw [oneProcess_newUserCalls]
                  exact Option.some_ne_none first
                refine .inr ⟨?_, fun once => twice once.1, .inr twice⟩
                exact (by decide : 2 ≠ 1)
  | changePass pass =>
      left
      cases user with
      | none => exact once_of_notLogged runs rfl trivial
      | some session =>
          obtain ⟨inner, ran, rfl⟩ := runs_map.mp runs
          obtain ⟨rfl, rfl⟩ := runs_processChangePassCmd ran
          exact ⟨rfl, by simp [OneProcess, goesOnTwice, reply], .inl trivial⟩
  | get path | close | other kind => exact replied.elim

/-- Exactly one reply is sent for a request that is answered once. -/
theorem replies_once_iff (replied : request.Replied)
    (runs : Runs (serverResponder t worker request err) trace result) :
    (trace.filterMap replyObject).length = 1 ↔ request.AnsweredOnce worker trace := by
  rcases once_or_not replied runs with ⟨one, once⟩ | ⟨notOne, not, -⟩
  · exact iff_of_true one once
  · exact iff_of_false notOne not

/-- A request with a reply could be read. -/
theorem Once.echoable (once : Once worker request trace)
    (runs : Runs (serverResponder t worker request err) trace result) : request.Echoable := by
  cases request with
  | int | string =>
      rcases runs_echoed runs rfl with ⟨sound, -⟩ | ⟨-, rfl, -⟩
      · exact sound
      · exact absurd once.1 Nat.zero_ne_one
  | double | get | post | login | logout | close | newUser | changePass | other => trivial

/-- One reply is sent and nothing written outside a block before it, the log's included, if the
request is harmless besides and its text short. -/
theorem replies_inside_iff {thread : WorkerThread} {showDouble : Float → Bytes}
    (replied : request.Replied) (runs : Runs (serverResponder t worker request err) trace result) :
    (trace.filterMap replyObject).length = 1 ∧ WritesInside showDouble thread request trace ↔
      request.AnsweredOnce worker trace ∧ request.Harmless worker.user trace ∧
        request.Brief showDouble thread.room := by
  rcases once_or_not replied runs with once | ⟨notOne, not, -⟩
  · exact and_congr (iff_of_true once.1 once.2) (writesInside_iff (once.echoable runs) runs)
  · exact iff_of_false (fun given => notOne given.1) fun given => not given.1

end Once

/-! ## One after the other -/

/-- However the message is parsed, it is of one of these kinds. -/
def Frame.Replied (json : JsonC) (request : Frame) : Prop :=
  ∀ fresh presult, json.parseEncoded fresh request.message = .ok presult →
    presult.toRequest.Replied

/-- Only requests of these kinds are sent. -/
def DialogueAct.Replied (json : JsonC) : DialogueAct → Prop
  | .send request _ => request.Replied json
  | _ => True

/-- A client that waits for each reply before it sends the next request. -/
def inTurn (t : Transport) (json : JsonC) (d : Dialogue) (act : DialogueAct) : Prop :=
  oneOutstanding t json d act ∧ act.Replied json

/-- Each request that was handled has one reply, and the replies were computed and handed
over in the order of the requests. -/
structure InTurn (t : Transport) (d : Dialogue) : Prop where
  one : ∀ answer ∈ d.answers, ∃ reply, answer.replies = [reply]
  answers : d.answers.map Answer.number = List.range d.answers.length
  handed : d.handed.map Handed.number = List.range d.handed.length
  own : OwnReplies t d

/-- Where the numbers of requests stand when one reply is outstanding at most. -/
structure Counted (d : Dialogue) : Prop where
  waiting : ∀ number input, d.threads number = .waiting input →
    number = d.answers.length ∧ d.answers.length + 1 = d.currentThread
  rested : NoThread d → d.answers.length = d.currentThread
  answers : d.answers.map Answer.number = List.range d.answers.length
  idle : (∀ number, d.readers number = .idle) → d.handed.length = d.sent.length
  busy : ∀ number, d.readers number ≠ .idle →
    number = d.handed.length ∧ d.handed.length + 1 = d.sent.length
  handed : d.handed.map Handed.number = List.range d.handed.length

section Steps

variable {t : Transport} {json : JsonC} {d d' : Dialogue} {number : Nat} {input : Bytes}

/-- Only a send adds to what was sent, and only a response to the answers. -/
theorem records_of_next {act : DialogueAct} (taken : d.next t json act = some d') :
    (d'.sent = d.sent ∨ ∃ request sync, act = .send request sync ∧ d'.sent = d.sent ++ [request]) ∧
    (d'.answers = d.answers ∨ ∃ number trace err worker boundary input,
      act = .respond number trace err worker boundary ∧
        d'.answers = d.answers ++ [⟨number, input, replyFrames json boundary trace⟩]) := by
  cases act with
  | send request sync =>
      simp only [Dialogue.next] at taken
      split at taken
      · cases taken
      · cases taken
        exact ⟨.inr ⟨request, sync, rfl, rfl⟩, .inl rfl⟩
  | respond number trace err worker boundary =>
      simp only [Dialogue.next] at taken
      split at taken
      · cases taken
        exact ⟨.inl rfl, .inr ⟨_, _, _, _, _, _, rfl, rfl⟩⟩
      · cases taken
  | accept | refuse boundary | writeRefusal | write | lock number | read number | hand number =>
      simp only [Dialogue.next] at taken
      split at taken <;> cases taken <;> exact ⟨.inl rfl, .inl rfl⟩

/-- A thread that waits has a message that was sent. -/
theorem OneByOne.message_of_waiting (inv : OneByOne t d) (waits : d.threads number = .waiting input) :
    ∃ request ∈ d.sent, input = request.message := by
  cases inv.orderly with
  | quiet _ _ _ threads => exact absurd waits (threads number input)
  | requested _ _ _ _ _ _ _ threads => exact absurd waits (threads number input)
  | answered _ _ _ _ _ _ _ _ _ _ _ _ _ _ _ _ threads => exact absurd waits (threads number input)
  | accepted earlier request sent _ _ _ threads others =>
      obtain rfl : number = earlier.length := by
        by_contra different
        exact others number input different waits
      rw [threads] at waits
      exact ⟨request, by simp [sent], (ResponderThread.waiting.inj waits).symm⟩

/-- While a request is on its way no thread waits. -/
theorem OneByOne.noThread_of_received (inv : OneByOne t d) (there : d.received t ≠ none) :
    NoThread d := by
  cases inv.orderly with
  | quiet _ requests => exact absurd (received_nil requests) there
  | accepted _ _ _ _ requests => exact absurd (received_nil requests) there
  | answered _ _ _ _ _ _ _ _ _ _ _ _ _ _ requests => exact absurd (received_nil requests) there
  | requested _ _ _ _ _ _ _ threads => exact threads

theorem map_range_snoc {α : Type} {f : α → Nat} {list : List α} {a : α}
    (before : list.map f = List.range list.length) (last : f a = list.length) :
    (list ++ [a]).map f = List.range (list ++ [a]).length := by
  rw [List.map_append, before, List.length_append, List.length_singleton, List.range_succ]
  simp [last]

theorem Counted.send {request : Frame} {sync : Bool} (counted : Counted d)
    (idle : ∀ number, d.readers number = .idle)
    (taken : d.next t json (.send request sync) = some d') : Counted d' := by
  simp only [Dialogue.next] at taken
  split at taken
  · cases taken
  · rw [Option.some.injEq] at taken
    subst taken
    have length : d.sent.length = d.handed.length := (counted.idle idle).symm
    refine ⟨counted.waiting, counted.rested, counted.answers, ?_, ?_, counted.handed⟩
    · intro all
      have reads := (Function.update_self ..).symm.trans (all d.sent.length)
      cases sync <;> cases reads
    · intro number reads
      obtain rfl : number = d.sent.length := by
        by_contra different
        exact reads ((Function.update_of_ne different ..).trans (idle number))
      exact ⟨length, by simp [Dialogue.setReader, length]⟩

theorem Counted.accept (counted : Counted d) (inv : OneByOne t d)
    (taken : d.next t json .accept = some d') : Counted d' := by
  simp only [Dialogue.next] at taken
  split at taken
  · rename_i input rest numThreads _ received _
    rw [Option.some.injEq] at taken
    subst taken
    have none : NoThread d := inv.noThread_of_received (by rw [received]; simp)
    have current := counted.rested none
    refine ⟨?_, ?_, counted.answers, counted.idle, counted.busy, counted.handed⟩
    · intro number input waits
      obtain rfl : number = d.currentThread := by
        by_contra different
        exact none number input ((Function.update_of_ne different ..).symm.trans waits)
      exact ⟨current.symm, congrArg (· + 1) current⟩
    · exact fun rested => absurd (Function.update_self ..) (rested d.currentThread input)
  · cases taken

theorem Counted.respond {trace : List ServerEvent} {err : CommError} {worker : Worker}
    {boundary : Boundary} (counted : Counted d)
    (taken : d.next t json (.respond number trace err worker boundary) = some d') : Counted d' := by
  simp only [Dialogue.next] at taken
  split at taken
  · rename_i input waits free
    rw [Option.some.injEq] at taken
    subst taken
    obtain ⟨same, current⟩ := counted.waiting number input waits
    refine ⟨?_, ?_, map_range_snoc counted.answers same, counted.idle, counted.busy, counted.handed⟩
    · intro other input' waits'
      by_cases equal : other = number
      · subst equal
        cases (Function.update_self ..).symm.trans waits'
      · -- the thread that has just ended was the only one to wait
        have waits'' := (Function.update_of_ne equal ..).symm.trans waits'
        exact absurd ((counted.waiting other input' waits'').1.trans same.symm) equal
    · intro _
      simpa [Dialogue.setThread] using current
  · cases taken

theorem Counted.lock (counted : Counted d) (taken : d.next t json (.lock number) = some d') :
    Counted d' := by
  simp only [Dialogue.next] at taken
  split at taken
  · rename_i waits _
    rw [Option.some.injEq] at taken
    subst taken
    refine ⟨counted.waiting, counted.rested, counted.answers, ?_, ?_, counted.handed⟩
    · intro all
      cases (Function.update_self ..).symm.trans (all number)
    · intro other reads
      by_cases same : other = number
      · subst same
        exact counted.busy other (by rw [waits]; simp)
      · exact counted.busy other fun idle => reads ((Function.update_of_ne same ..).trans idle)
  · cases taken

theorem Counted.read (counted : Counted d) (taken : d.next t json (.read number) = some d') :
    Counted d' := by
  simp only [Dialogue.next] at taken
  split at taken
  · rename_i sync consumed next byte left reading _
    rw [Option.some.injEq] at taken
    subst taken
    refine ⟨counted.waiting, counted.rested, counted.answers, ?_, ?_, counted.handed⟩
    · intro all
      cases (Function.update_self ..).symm.trans (all number)
    · intro other reads
      by_cases same : other = number
      · subst same
        exact counted.busy other (by rw [reading]; simp)
      · exact counted.busy other fun idle => reads ((Function.update_of_ne same ..).trans idle)
  · cases taken

theorem Counted.hand (counted : Counted d) (taken : d.next t json (.hand number) = some d') :
    Counted d' := by
  simp only [Dialogue.next] at taken
  split at taken
  · rename_i sync consumed received reading
    rw [Option.some.injEq] at taken
    subst taken
    obtain ⟨same, sent⟩ := counted.busy number (by rw [reading]; simp)
    refine ⟨counted.waiting, counted.rested, counted.answers, ?_, ?_,
      map_range_snoc counted.handed same⟩
    · intro _
      simpa [Dialogue.setReader] using sent
    · intro other reads
      by_cases equal : other = number
      · subst equal
        exact absurd (Function.update_self ..) reads
      · have busy : d.readers other ≠ .idle := fun idle =>
          reads ((Function.update_of_ne equal ..).trans idle)
        exact absurd ((counted.busy other busy).1.trans same.symm) equal
  · rename_i sync consumed e reading
    rw [Option.some.injEq] at taken
    subst taken
    have busy := counted.busy number (by rw [reading]; simp)
    refine ⟨counted.waiting, counted.rested, counted.answers, ?_, ?_, counted.handed⟩
    · intro all
      cases (Function.update_self ..).symm.trans (all number)
    · intro other reads
      by_cases same : other = number
      · subst same
        exact busy
      · exact counted.busy other fun idle => reads ((Function.update_of_ne same ..).trans idle)
  · cases taken

theorem Counted.step {act : DialogueAct} (counted : Counted d) (inv : OneByOne t d)
    (allowed : oneOutstanding t json d act) (taken : d.next t json act = some d') : Counted d' := by
  cases act with
  | send request sync => exact counted.send allowed.1 taken
  | accept => exact counted.accept inv taken
  | refuse boundary => exact allowed.elim
  | writeRefusal =>
      simp only [Dialogue.next, inv.listening] at taken
      cases taken
  | respond number trace err worker boundary => exact counted.respond taken
  | write =>
      simp only [Dialogue.next] at taken
      split at taken
      · rw [Option.some.injEq] at taken
        subst taken
        exact ⟨counted.waiting, counted.rested, counted.answers, counted.idle, counted.busy,
          counted.handed⟩
      · cases taken
  | lock number => exact counted.lock taken
  | read number => exact counted.read taken
  | hand number => exact counted.hand taken

end Steps

/-- What every state of such a dialogue has. -/
structure TurnByTurn (t : Transport) (json : JsonC) (d : Dialogue) : Prop where
  inv : OneByOne t d
  counted : Counted d
  replied : ∀ request ∈ d.sent, request.Replied json
  one : ∀ answer ∈ d.answers, ∃ reply, answer.replies = [reply]

theorem turnByTurn_start (t : Transport) (json : JsonC) (worker : Worker)
    (minThreads maxThreads : Nat) : TurnByTurn t json (.start worker minThreads maxThreads) where
  inv := oneByOne_start t worker minThreads maxThreads
  counted := ⟨nofun, fun _ => rfl, rfl, fun _ => rfl, fun _ busy => absurd rfl busy, rfl⟩
  replied := nofun
  one := nofun

/-- A thread that has handled its request has one reply. -/
theorem TurnByTurn.replies {t : Transport} {json : JsonC} {d : Dialogue} {number : Nat}
    {trace : List ServerEvent} {err : CommError} {worker : Worker} {boundary : Boundary}
    (turn : TurnByTurn t json d)
    (responds : d.Responds t json (.respond number trace err worker boundary))
    (one : OneProcess trace) : ∃ reply, replyFrames json boundary trace = [reply] := by
  obtain ⟨input, fresh, presult, err', waits, parses, runs⟩ := responds
  obtain ⟨request, sent, rfl⟩ := turn.inv.message_of_waiting waits
  have replied := turn.replied request sent fresh presult parses
  rw [← List.length_eq_one_iff, replyFrames, List.length_map]
  rcases once_or_not replied runs with ⟨once, -⟩ | ⟨-, -, ⟨e, fails⟩ | twice⟩
  · exact once
  · cases fails
  · exact absurd one twice

theorem TurnByTurn.step {t : Transport} {json : JsonC} {d d' : Dialogue} {act : DialogueAct}
    (turn : TurnByTurn t json d) (allowed : inTurn t json d act) (taken : d.step t json act d') :
    TurnByTurn t json d' := by
  refine ⟨turn.inv.step allowed.1 taken, turn.counted.step turn.inv allowed.1 taken.2, ?_, ?_⟩
  · intro request member
    rcases (records_of_next taken.2).1 with same | ⟨request', sync, rfl, more⟩
    · exact turn.replied request (same ▸ member)
    · rw [more] at member
      rcases List.mem_append.mp member with before | now
      · exact turn.replied request before
      · rw [List.mem_singleton.mp now]
        exact allowed.2
  · intro answer member
    rcases (records_of_next taken.2).2 with same |
      ⟨number, trace, err, worker, boundary, input, rfl, more⟩
    · exact turn.one answer (same ▸ member)
    · rw [more] at member
      rcases List.mem_append.mp member with before | now
      · exact turn.one answer before
      · rw [List.mem_singleton.mp now]
        exact turn.replies taken.1 allowed.1.2

/-- Requests of these kinds are replied to once exactly if one process handles them and they are
answerable or for a file that exists; with nothing written outside a block before the reply exactly
if they are harmless besides, and with a log if their text is short too.  And if a client waits for
each reply, one process handles each request, the requests and their replies can be delivered and
the worker has room, then the replies are computed and handed over in turn, whole, one for each
request. -/
theorem one_reply_in_turn (t : Transport) (json : JsonC) :
    (∀ worker request err trace result, request.Replied →
      Runs (serverResponder t worker request err) trace result →
        ((trace.filterMap replyObject).length = 1 ↔ request.AnsweredOnce worker trace) ∧
        ((trace.filterMap replyObject).length = 1 ∧ KeepsBlocks request trace ↔
          request.AnsweredOnce worker trace ∧ request.Harmless worker.user trace) ∧
        ∀ showDouble thread,
          ((trace.filterMap replyObject).length = 1 ∧ WritesInside showDouble thread request trace ↔
            request.AnsweredOnce worker trace ∧ request.Harmless worker.user trace ∧
              request.Brief showDouble thread.room)) ∧
    ∀ worker minThreads maxThreads acts d, Run (Dialogue.step t json) (inTurn t json)
      (.start worker minThreads maxThreads) acts d → InTurn t d := by
  constructor
  · intro worker request err trace result replied runs
    have once := replies_once_iff replied runs
    exact ⟨once, and_congr once (keepsBlocks_iff_harmless runs),
      fun showDouble thread => replies_inside_iff replied runs⟩
  · intro worker minThreads maxThreads acts d run
    have turn : TurnByTurn t json d := by
      apply run.invariant (turnByTurn_start t json worker minThreads maxThreads)
      exact fun turn allowed taken => turn.step allowed taken
    exact ⟨turn.one, turn.counted.answers, turn.counted.handed, .of_oneByOne turn.inv⟩

/-- Two `sendi`s one after the other are replied to once and their replies handed over. -/
theorem one_reply_in_turn_sendi :
    Request.AnsweredOnce .start [⟨.sendInt 2, ()⟩] (.int 1) ∧
      ∃ d, Run (Dialogue.step .fifo sampleJson) (inTurn .fifo sampleJson) (.start .start 5 10)
          (sendiRound 0 ++ sendiRound 1) d ∧
        d.handed = [twoHanded 0, twoHanded 1] ∧ InTurn .fifo d := by
  obtain ⟨d, run, handed⟩ := run_sendis
  have both := one_reply_in_turn .fifo sampleJson
  have round (number : Nat) : ∀ act ∈ sendiRound number, act.Replied sampleJson := by
    intro act member
    simp only [sendiRound, List.mem_cons, List.mem_append, List.mem_replicate, List.not_mem_nil,
      or_false] at member
    rcases member with rfl | rfl | rfl | ⟨_, rfl⟩ | ⟨_, rfl⟩ | rfl
    · intro fresh presult parses
      have parsed : presult = .request (.int 1) := (Except.ok.inj parses).symm
      rw [parsed]
      trivial
    all_goals trivial
  have run := run.of_labels fun act member =>
    (List.mem_append.mp member).elim (round 0 act) (round 1 act)
  have runs : Runs (serverResponder .fifo .start (.int 1) ⟨0, []⟩) [⟨.sendInt 2, ()⟩]
      (.ok (.start, CommError.afterSend ⟨0, []⟩ .fifo)) := .call (.ret _)
  exact ⟨(both.1 .start (.int 1) ⟨0, []⟩ _ _ trivial runs).1.mp rfl, d, run, handed,
    both.2 _ _ _ _ _ run⟩

/-- `sends a`: the string of one character. -/
def stringA : CString := ⟨ascii "a", nulFree_a⟩

/-- The worker reads behind the string and need not reply. -/
theorem sends_a_unanswered :
    cmdSends true [stringA] = .sends (stringifyString stringA) ∧
      ¬ ∀ worker request err, request.Replied → RepliesOnce .fifo worker request err := by
  refine ⟨rfl, fun all => ?_⟩
  have runs : Runs (serverResponder .fifo .start (.string stringA) ⟨0, []⟩) []
      (.error .outOfBounds) := .fault _
  exact absurd (all .start (.string stringA) ⟨0, []⟩ trivial _ _ runs) Nat.zero_ne_one

end IpcFtp
