import IpcFtp.Logging.Service

/-!
# What reaches the log

One service and any number of processes that log, call by call in any order; each may be stopped
anywhere.

* `log_of_run`: the file holds the messages in the order in which they were sent.
* `service_ends_iff`: nothing that is logged ends the service.
-/

namespace IpcFtp

open Lib Program

/-! ## Notes -/

/-- What a process is about. -/
inductive LogNote : Type
  | idle
  | logs (entry : LogEntry)
  /-- the service before it has made the file -/
  | launches
  | waits
  | holds (message : Bytes)
  deriving DecidableEq

def LogNote.after : LogNote → LogEvent → LogNote
  | .launches, ⟨.createFile, true⟩ => .waits
  | .waits, ⟨.mqReceive, some message⟩ => .holds message
  | .holds _, ⟨.fputs _, _⟩ => .waits
  | note, _ => note

/-- `MSG_END` in front. -/
def endsService (message : Bytes) : Bool := strncmpEq message msgEnd msgEnd.length

/-- What a process may call. -/
def LogNote.allows : LogNote → ∀ {β : Type}, LogCall β → Prop
  | .logs entry, _, .mqSend message => message = entry.text
  | .launches, _, .mqOpen => True
  | .launches, _, .createFile => True
  | .waits, _, .mqReceive => True
  | .holds message, _, .openFile => endsService message = false
  | .holds message, _, .fputs text => endsService message = false ∧ text = cstr message
  | .holds message, _, .closeMq => endsService message = true
  | _, _, _ => False

/-- A process of the server logs a text. -/
def loggers (p : Logging Bool) (note : LogNote) : Prop :=
  ∃ entry : LogEntry, p = entry.kind.log entry.str ∧ note = .logs entry

abbrev LogProcesses : Type 1 := Processes LogCall LogExit Bool LogState LogNote Nat

abbrev LogAct : Type 1 := ProcessesAct LogCall LogExit Bool LogNote Nat

/-- The service begins, with so many turns to go, and is process 0. -/
def LogProcesses.start (turns : Nat) (leftOver : List Bytes) (file : Bytes) : LogProcesses where
  shared := ⟨leftOver, file⟩
  running := Function.update (fun _ => none) 0 (some (loggingMain turns))
  notes := Function.update (fun _ => .idle) 0 .launches

abbrev LogProcesses.step : LogProcesses → LogAct → LogProcesses → Prop :=
  Processes.Step LogState.happens LogNote.after .idle loggers

/-! ## The programs -/

abbrev KeepsLogNotes (p : Logging Bool) (note : LogNote) : Prop :=
  Processes.KeepsNotes LogNote.after LogNote.allows p note

theorem keepsNotes_log (entry : LogEntry) :
    KeepsLogNotes (entry.kind.log entry.str) (.logs entry) := by
  rw [log_eq]
  exact ⟨rfl, fun _ _ _ => trivial⟩

/-- What a turn leaves when it leaves something. -/
def LoopLeaves (result : Except LogExit Bool) (note : LogNote) : Prop :=
  ∀ ended, result = .ok ended →
    (ended = true → ∃ message, note = .holds message ∧ endsService message = true)

theorem meets_serviceLoop (turns : Nat) :
    (serviceLoop turns).Meets (fun note event note' => note' = note.after event) LogNote.allows
      LoopLeaves .waits := by
  have stops {e : LogExit} {note : LogNote} : LoopLeaves (.error e) note := by
    intro ended same
    cases same
  induction turns with
  | zero =>
      intro ended same left
      cases same
      cases left
  | succ turns ih =>
      simp only [serviceLoop, readMq, perform_bind, call_bind]
      refine ⟨trivial, ?_⟩
      intro received note same
      subst same
      cases received with
      | none => exact stops
      | some message =>
          dsimp only [LogNote.after]
          split_ifs with fits
          · rw [pure_bind]
            split_ifs with ends
            · intro ended same _
              exact ⟨message, rfl, ends⟩
            · have goesOn : endsService message = false := by simpa [endsService] using ends
              refine ⟨goesOn, ?_⟩
              intro opened note same
              subst same
              cases opened with
              | false => exact stops
              | true =>
                  refine ⟨⟨goesOn, rfl⟩, ?_⟩
                  intro _ note same
                  subst same
                  exact ih
          · exact stops

theorem keepsNotes_loggingMain (turns : Nat) : KeepsLogNotes (loggingMain turns) .launches := by
  simp only [loggingMain, perform_bind]
  refine ⟨trivial, ?_⟩
  intro opened note same
  subst same
  cases opened with
  | false => trivial
  | true =>
      beta_reduce
      rw [if_pos rfl]
      refine ⟨trivial, ?_⟩
      intro created note same
      subst same
      cases created with
      | false => trivial
      | true =>
          beta_reduce
          rw [if_pos rfl]
          refine Meets.bind ((meets_serviceLoop turns).mono ?_)
          intro result note leaves
          cases result with
          | error e => trivial
          | ok ended =>
              cases ended with
              | false => trivial
              | true =>
                  obtain ⟨message, rfl, ends⟩ := leaves true rfl rfl
                  exact ⟨ends, fun _ _ _ => trivial⟩

/-! ## One call -/

/-- What an act does with the queue. -/
def transferred : LogAct → Option (Transfer Bytes)
  | .call _ event => logTransfer event
  | _ => none

/-- The messages that were sent, and those that were received. -/
abbrev sentMessages (acts : List LogAct) : List Bytes := MessageQueue.putIn transferred acts

abbrev receivedMessages (acts : List LogAct) : List Bytes := MessageQueue.takenOut transferred acts

theorem moves_of_happens {s s' : LogState} {event : LogEvent} (happens : s.happens event s') :
    MessageQueue.Moves maxMsg s.queue (logTransfer event) s'.queue := by
  obtain ⟨call, answer⟩ := event
  cases call with
  | mqSend message =>
      cases answer with
      | false =>
          obtain rfl : s' = s := happens
          rfl
      | true =>
          obtain ⟨-, room, rfl⟩ := happens
          exact ⟨room, rfl⟩
  | mqReceive =>
      cases answer with
      | none =>
          obtain rfl : s' = s := happens
          rfl
      | some message => exact happens.1
  | createFile =>
      cases answer with
      | false =>
          obtain rfl : s' = s := happens
          rfl
      | true =>
          obtain rfl : s' = { s with file := [] } := happens
          rfl
  | fputs text =>
      obtain rfl : s' = { s with file := s.file ++ text } := happens
      rfl
  | mqOpen | openFile | closeMq =>
      obtain rfl : s' = s := happens
      rfl

theorem moves_of_step {s s' : LogProcesses} {act : LogAct} (taken : LogProcesses.step s act s') :
    MessageQueue.Moves maxMsg s.shared.queue (transferred act) s'.shared.queue := by
  cases taken with
  | call _ happened => exact moves_of_happens happened
  | start | stop => rfl

def makesFile : LogEvent → Bool
  | ⟨.createFile, true⟩ => true
  | _ => false

/-- The queue is closed and removed. -/
def closesMq : LogAct → Bool
  | .call _ ⟨.closeMq, _⟩ => true
  | _ => false

/-- The service has emptied the file. -/
def created (acts : List LogAct) : Prop := .call 0 ⟨.createFile, true⟩ ∈ acts

/-- What the service may have received and not written yet. -/
def LogNote.mayHold : LogNote → List Bytes → Prop
  | .holds message, inHand => inHand = [message]
  | .launches, inHand | .waits, inHand => inHand = []
  | .idle, inHand | .logs _, inHand => inHand.length ≤ 1

/-- The service receives and writes, and nobody else does. -/
structure Logged (file : Bytes) (past : List LogAct) (s : LogProcesses) : Prop where
  contracted : Processes.Contracted LogNote.after LogNote.allows s
  others : ∀ i, i ≠ 0 → s.notes i = .idle ∨ ∃ entry, s.notes i = .logs entry
  launched : s.notes 0 = .launches → ¬ created past
  runs : (s.notes 0 = .waits ∨ ∃ message, s.notes 0 = .holds message) → created past
  before : ¬ created past → receivedMessages past = [] ∧ s.shared.file = file
  record : ∃ written inHand, receivedMessages past = written ++ inHand ∧
    (s.notes 0).mayHold inHand ∧ (created past → s.shared.file = written.flatMap cstr)

theorem keepsNotes_of_loggers (p : Logging Bool) (note : LogNote) (logs : loggers p note) :
    KeepsLogNotes p note := by
  obtain ⟨entry, rfl, rfl⟩ := logs
  exact keepsNotes_log entry

section Calls

variable {file : Bytes} {past : List LogAct} {s s' : LogProcesses} {i : Nat} {event : LogEvent}

theorem created_concat {act : LogAct} :
    created (past ++ [act]) ↔ created past ∨ act = .call 0 ⟨.createFile, true⟩ := by
  unfold created
  rw [List.mem_append, List.mem_singleton]
  exact or_congr_right eq_comm

theorem receivedMessages_concat (act : LogAct) : receivedMessages (past ++ [act]) =
    receivedMessages past ++ ((transferred act).bind Transfer.takenMessage).toList :=
  MessageQueue.takenOut_concat past act

/-- A call by which nothing is received or written, and no file made. -/
theorem Logged.quiet (logged : Logged file past s) {act : LogAct}
    (contracted : Processes.Contracted LogNote.after LogNote.allows s')
    (notes : s'.notes = s.notes) (written : s'.shared.file = s.shared.file)
    (none : (transferred act).bind Transfer.takenMessage = none)
    (noFile : act ≠ .call 0 ⟨.createFile, true⟩) : Logged file (past ++ [act]) s' := by
  have same : created (past ++ [act]) ↔ created past := by
    rw [created_concat, or_iff_left noFile]
  have received : receivedMessages (past ++ [act]) = receivedMessages past := by
    rw [receivedMessages_concat, none, Option.toList_none, List.append_nil]
  obtain ⟨_, others, launched, runs, before, record⟩ := logged
  constructor
  · exact contracted
  · rwa [notes]
  · rwa [notes, same]
  · rwa [notes, same]
  · rwa [same, received, written]
  · rwa [notes, same, received, written]

/-- Another process than the service. -/
theorem Logged.other (logged : Logged file past s) (other : i ≠ 0)
    (taken : LogProcesses.step s (.call i event) s') :
    s'.notes = s.notes ∧ s'.shared.file = s.shared.file ∧
      (logTransfer event).bind Transfer.takenMessage = none := by
  have allowed := logged.contracted.allowed_call taken
  obtain ⟨next, -, happened, -, noted, rest⟩ := Processes.of_step_call taken
  rcases logged.others i other with idle | ⟨entry, logs⟩
  · rw [idle] at allowed
    cases allowed
  · rw [logs] at allowed noted
    obtain ⟨call, answer⟩ := event
    cases call with
    | mqSend message =>
        have notes : s'.notes = s.notes := by
          funext j
          rcases eq_or_ne j i with rfl | different
          · rw [noted, logs]
            rfl
          · exact (rest j different).2
        cases answer with
        | false =>
            have same : s'.shared = s.shared := happened
            exact ⟨notes, by rw [same], rfl⟩
        | true =>
            obtain ⟨-, -, same⟩ := happened
            exact ⟨notes, by rw [same], rfl⟩
    | _ => cases allowed

/-! ### The service, from each of its notes -/

theorem of_service_call (taken : LogProcesses.step s (.call 0 event) s') :
    s.shared.happens event s'.shared ∧ s'.notes 0 = (s.notes 0).after event ∧
      ∀ i, i ≠ 0 → s'.notes i = s.notes i := by
  obtain ⟨_, -, happened, -, noted, rest⟩ := Processes.of_step_call taken
  exact ⟨happened, noted, fun i other => (rest i other).2⟩

theorem Logged.others_call (logged : Logged file past s)
    (taken : LogProcesses.step s (.call 0 event) s') :
    ∀ i, i ≠ 0 → s'.notes i = .idle ∨ ∃ entry, s'.notes i = .logs entry := by
  intro i other
  rw [(of_service_call taken).2.2 i other]
  exact logged.others i other

/-- A call that leaves the note of the service leaves all of them. -/
theorem Logged.service_quiet (logged : Logged file past s)
    (taken : LogProcesses.step s (.call 0 event) s')
    (keeps : (s.notes 0).after event = s.notes 0) (same : s'.shared.file = s.shared.file)
    (none : (logTransfer event).bind Transfer.takenMessage = none)
    (noFile : makesFile event = false) : Logged file (past ++ [.call 0 event]) s' := by
  obtain ⟨-, noted, rest⟩ := of_service_call taken
  refine logged.quiet (logged.contracted.step keepsNotes_of_loggers taken) ?_ same none ?_
  · funext j
    rcases eq_or_ne j 0 with rfl | different
    · rw [noted, keeps]
    · exact rest j different
  · intro given
    cases given
    cases noFile

theorem Logged.service_logs {entry : LogEntry} (logged : Logged file past s)
    (note : s.notes 0 = .logs entry) (taken : LogProcesses.step s (.call 0 event) s') :
    Logged file (past ++ [.call 0 event]) s' := by
  have allowed := logged.contracted.allowed_call taken
  have quiet := logged.service_quiet taken
  have happened := (of_service_call taken).1
  rw [note] at allowed quiet
  obtain ⟨call, answer⟩ := event
  cases call with
  | mqSend message =>
      cases answer with
      | false =>
          have same : s'.shared = s.shared := happened
          exact quiet rfl (by rw [same]) rfl rfl
      | true =>
          obtain ⟨-, -, same⟩ := happened
          exact quiet rfl (by rw [same]) rfl rfl
  | _ => cases allowed

/-- The file is empty when the service begins to wait. -/
theorem Logged.service_launches (logged : Logged file past s) (note : s.notes 0 = .launches)
    (taken : LogProcesses.step s (.call 0 event) s') :
    Logged file (past ++ [.call 0 event]) s' := by
  have allowed := logged.contracted.allowed_call taken
  have quiet := logged.service_quiet taken
  obtain ⟨happened, noted, -⟩ := of_service_call taken
  rw [note] at allowed noted quiet
  obtain ⟨call, answer⟩ := event
  cases call with
  | mqOpen =>
      have same : s'.shared = s.shared := happened
      exact quiet rfl (by rw [same]) rfl rfl
  | createFile =>
      cases answer with
      | false =>
          have same : s'.shared = s.shared := happened
          exact quiet rfl (by rw [same]) rfl rfl
      | true =>
          have waits : s'.notes 0 = .waits := noted
          have same : s'.shared = { s.shared with file := [] } := happened
          have now : created (past ++ [.call 0 ⟨.createFile, true⟩]) :=
            created_concat.mpr (.inr rfl)
          have nothing := (logged.before (logged.launched note)).1
          refine ⟨logged.contracted.step keepsNotes_of_loggers taken, logged.others_call taken, ?_,
            fun _ => now, fun absent => absurd now absent, [], [], ?_, ?_, ?_⟩
          · rw [waits]
            simp
          · rw [receivedMessages_concat, nothing]
            rfl
          · rw [waits]
            rfl
          · rw [same]
            exact fun _ => rfl
  | _ => cases allowed

/-- What the service receives is in its hands. -/
theorem Logged.service_waits (logged : Logged file past s) (note : s.notes 0 = .waits)
    (taken : LogProcesses.step s (.call 0 event) s') :
    Logged file (past ++ [.call 0 event]) s' := by
  have allowed := logged.contracted.allowed_call taken
  have quiet := logged.service_quiet taken
  obtain ⟨happened, noted, -⟩ := of_service_call taken
  rw [note] at allowed noted quiet
  obtain ⟨call, answer⟩ := event
  cases call with
  | mqReceive =>
      cases answer with
      | none =>
          have same : s'.shared = s.shared := happened
          exact quiet rfl (by rw [same]) rfl rfl
      | some message =>
          have holds : s'.notes 0 = .holds message := noted
          have now := (@created_concat past (.call 0 ⟨.mqReceive, some message⟩)).mpr
            (.inl (logged.runs (.inl note)))
          obtain ⟨written, inHand, received, hold, recorded⟩ := logged.record
          rw [note] at hold
          obtain rfl : inHand = [] := hold
          refine ⟨logged.contracted.step keepsNotes_of_loggers taken, logged.others_call taken, ?_,
            fun _ => now, fun absent => absurd now absent, written, [message], ?_, ?_, ?_⟩
          · rw [holds]
            simp
          · rw [receivedMessages_concat, received, List.append_nil]
            rfl
          · rw [holds]
            rfl
          · intro _
            rw [happened.2]
            exact recorded (logged.runs (.inl note))
  | _ => cases allowed

/-- What is in its hands is written. -/
theorem Logged.service_holds {message : Bytes} (logged : Logged file past s)
    (note : s.notes 0 = .holds message) (taken : LogProcesses.step s (.call 0 event) s') :
    Logged file (past ++ [.call 0 event]) s' := by
  have allowed := logged.contracted.allowed_call taken
  have quiet := logged.service_quiet taken
  obtain ⟨happened, noted, -⟩ := of_service_call taken
  rw [note] at allowed noted quiet
  obtain ⟨call, answer⟩ := event
  cases call with
  | openFile | closeMq =>
      have same : s'.shared = s.shared := happened
      exact quiet rfl (by rw [same]) rfl rfl
  | fputs text =>
      have waits : s'.notes 0 = .waits := noted
      have same : s'.shared = { s.shared with file := s.shared.file ++ text } := happened
      have began := logged.runs (.inr ⟨message, note⟩)
      have now := (@created_concat past (.call 0 ⟨.fputs text, answer⟩)).mpr (.inl began)
      obtain ⟨-, rfl⟩ := allowed
      obtain ⟨written, inHand, received, hold, recorded⟩ := logged.record
      rw [note] at hold
      obtain rfl : inHand = [message] := hold
      refine ⟨logged.contracted.step keepsNotes_of_loggers taken, logged.others_call taken, ?_,
        fun _ => now, fun absent => absurd now absent, written ++ [message], [], ?_, ?_, ?_⟩
      · rw [waits]
        simp
      · rw [receivedMessages_concat, received, List.append_nil]
        exact List.append_nil _
      · rw [waits]
        rfl
      · intro _
        rw [same, recorded began, List.flatMap_append, List.flatMap_singleton]
  | _ => cases allowed

theorem Logged.service (logged : Logged file past s)
    (taken : LogProcesses.step s (.call 0 event) s') :
    Logged file (past ++ [.call 0 event]) s' := by
  cases note : s.notes 0 with
  | idle =>
      have allowed := logged.contracted.allowed_call taken
      rw [note] at allowed
      cases allowed
  | logs entry => exact logged.service_logs note taken
  | launches => exact logged.service_launches note taken
  | waits => exact logged.service_waits note taken
  | holds message => exact logged.service_holds note taken

/-! ### The other acts -/

theorem length_le_of_mayHold {note : LogNote} {inHand : List Bytes} (hold : note.mayHold inHand) :
    inHand.length ≤ 1 := by
  cases note with
  | idle | logs entry => exact hold
  | launches | waits =>
      obtain rfl : inHand = [] := hold
      exact Nat.zero_le 1
  | holds message =>
      obtain rfl : inHand = [message] := hold
      exact le_rfl

/-- A process begins to log or is stopped. -/
theorem Logged.changed (logged : Logged file past s) {act : LogAct} {note : LogNote}
    (contracted : Processes.Contracted LogNote.after LogNote.allows s')
    (plain : note = .idle ∨ ∃ entry, note = .logs entry)
    (notes : s'.notes = Function.update s.notes i note) (same : s'.shared = s.shared)
    (none : transferred act = none) (noFile : act ≠ .call 0 ⟨.createFile, true⟩) :
    Logged file (past ++ [act]) s' := by
  have made : created (past ++ [act]) ↔ created past := by
    rw [created_concat, or_iff_left noFile]
  have received : receivedMessages (past ++ [act]) = receivedMessages past := by
    rw [receivedMessages_concat, none, Option.bind_none, Option.toList_none, List.append_nil]
  have kept (j : Nat) : s'.notes j = note ∨ s'.notes j = s.notes j := by
    rw [notes, Function.update_apply]
    split_ifs
    · exact .inl rfl
    · exact .inr rfl
  refine ⟨contracted, ?_, ?_, ?_, ?_, ?_⟩
  · intro j other
    rcases kept j with new | old
    · rwa [new]
    · rw [old]
      exact logged.others j other
  · rw [made]
    rcases kept 0 with new | old
    · rw [new]
      rcases plain with rfl | ⟨entry, rfl⟩ <;> simp
    · rw [old]
      exact logged.launched
  · rw [made]
    rcases kept 0 with new | old
    · rw [new]
      rcases plain with rfl | ⟨entry, rfl⟩ <;> simp
    · rw [old]
      exact logged.runs
  · rw [made, received, same]
    exact logged.before
  · obtain ⟨written, inHand, split, hold, recorded⟩ := logged.record
    rw [made, received, same]
    refine ⟨written, inHand, split, ?_, recorded⟩
    rcases kept 0 with new | old
    · rw [new]
      rcases plain with rfl | ⟨entry, rfl⟩ <;> exact length_le_of_mayHold hold
    · rwa [old]

theorem Logged.step {act : LogAct} (logged : Logged file past s)
    (taken : LogProcesses.step s act s') : Logged file (past ++ [act]) s' := by
  have contracted := logged.contracted.step keepsNotes_of_loggers taken
  cases act with
  | call i event =>
      rcases eq_or_ne i 0 with rfl | other
      · exact logged.service taken
      · obtain ⟨notes, written, none⟩ := logged.other other taken
        refine logged.quiet contracted notes written none ?_
        intro given
        cases given
        exact other rfl
  | start i p note =>
      cases taken with
      | start free logs =>
          have plain : note = .idle ∨ ∃ entry, note = .logs entry := by
            obtain ⟨entry, -, same⟩ := logs
            exact .inr ⟨entry, same⟩
          exact logged.changed contracted plain rfl rfl rfl (by simp)
  | stop i =>
      cases taken with
      | stop => exact logged.changed contracted (.inl rfl) rfl rfl rfl (by simp)

theorem logged_of_run {turns : Nat} {leftOver : List Bytes} {acts : List LogAct}
    (run : Run LogProcesses.step unguarded (.start turns leftOver file) acts s) :
    Logged file acts s := by
  have running : (LogProcesses.start turns leftOver file).running =
      Function.update (fun _ => none) 0 (some (loggingMain turns)) := rfl
  have notes : (LogProcesses.start turns leftOver file).notes =
      Function.update (fun _ => .idle) 0 .launches := rfl
  have empty : ¬ created [] := List.not_mem_nil
  refine run.history ?_ fun logged _ taken => logged.step taken
  refine ⟨?_, ?_, fun _ => empty, ?_, fun _ => ⟨rfl, rfl⟩, [], [], rfl, rfl, fun made =>
    absurd made empty⟩
  · intro i p runs
    rw [running] at runs
    rw [notes]
    rcases eq_or_ne i 0 with rfl | other
    · rw [Function.update_self, Option.some.injEq] at runs
      rw [Function.update_self, ← runs]
      exact keepsNotes_loggingMain turns
    · rw [Function.update_of_ne other] at runs
      cases runs
  · intro i other
    rw [notes, Function.update_of_ne other]
    exact .inl rfl
  · intro given
    rcases given with waits | ⟨message, holds⟩
    · cases waits
    · cases holds

/-! ## What is sent -/

/-- No text that is logged begins like the message that ends the service. -/
theorem not_endsService (entry : LogEntry) : endsService entry.text = false := by
  have other {c : Byte} {rest : Bytes} (nonzero : c ≠ 0) (different : c ≠ chr 'M') :
      endsService (c :: rest) = false := by
    have kept : cstr (c :: rest) = c :: cstr rest := List.takeWhile_cons_of_pos (by simpa using nonzero)
    have ending : cstr msgEnd = chr 'M' :: ascii "SGEND" := by decide
    rw [endsService, strncmpEq, kept, ending, decide_eq_false_iff_not]
    intro same
    rw [show msgEnd.length = 5 + 1 from rfl, List.take_succ_cons, List.take_succ_cons,
      List.cons.injEq] at same
    exact different same.1
  obtain ⟨kind, str⟩ := entry
  cases kind <;> exact other (by decide) (by decide)

theorem not_mem_nul_text (entry : LogEntry) : 0 ∉ entry.text := by
  obtain ⟨kind, str⟩ := entry
  have name : 0 ∉ kind.name := by cases kind <;> decide
  unfold LogEntry.text logText
  simp only [List.mem_append, not_or]
  exact ⟨⟨⟨name, by decide⟩, str.nulFree⟩, by decide⟩

/-- The messages sent so far are texts that were logged, and the service removes the queue only
for a message that ends it. -/
structure Reported (past : List LogAct) : Prop where
  texts : ∃ entries : List LogEntry, sentMessages past = entries.map LogEntry.text
  ends : (∃ act ∈ past, closesMq act = true) → ∃ message ∈ receivedMessages past,
    endsService message = true

theorem Reported.step {act : LogAct} (reported : Reported past) (logged : Logged file past s)
    (taken : LogProcesses.step s act s') : Reported (past ++ [act]) := by
  have put : sentMessages (past ++ [act]) =
      sentMessages past ++ ((transferred act).bind Transfer.putMessage).toList :=
    MessageQueue.putIn_concat past act
  have same (none : (transferred act).bind Transfer.putMessage = none) :
      ∃ entries : List LogEntry, sentMessages (past ++ [act]) = entries.map LogEntry.text := by
    rw [put, none, Option.toList_none, List.append_nil]
    exact reported.texts
  have still (other : closesMq act = false) (given : ∃ act' ∈ past ++ [act], closesMq act' = true) :
      ∃ message ∈ receivedMessages (past ++ [act]), endsService message = true := by
    obtain ⟨act', member, closes⟩ := given
    rcases List.mem_append.mp member with earlier | last
    · obtain ⟨message, member, ends⟩ := reported.ends ⟨act', earlier, closes⟩
      exact ⟨message, receivedMessages_concat act ▸ List.mem_append_left _ member, ends⟩
    · rw [List.mem_singleton.mp last, other] at closes
      cases closes
  cases act with
  | start i p note => exact ⟨same rfl, still rfl⟩
  | stop i => exact ⟨same rfl, still rfl⟩
  | call i event =>
      have allowed := logged.contracted.allowed_call taken
      obtain ⟨call, answer⟩ := event
      cases call with
      | mqSend message =>
          refine ⟨?_, still rfl⟩
          cases answer with
          | false => exact same rfl
          | true =>
              cases note : s.notes i with
              | logs entry =>
                  rw [note] at allowed
                  obtain rfl : message = entry.text := allowed
                  obtain ⟨entries, texts⟩ := reported.texts
                  refine ⟨entries ++ [entry], ?_⟩
                  rw [put, texts, List.map_append, List.map_singleton]
                  rfl
              | _ =>
                  rw [note] at allowed
                  cases allowed
      | closeMq =>
          refine ⟨same rfl, fun _ => ?_⟩
          cases note : s.notes i with
          | holds message =>
              rw [note] at allowed
              have service : i = 0 := by
                by_contra other
                rcases logged.others i other with idle | ⟨entry, logs⟩
                · cases note.symm.trans idle
                · cases note.symm.trans logs
              subst service
              obtain ⟨written, inHand, received, hold, -⟩ := logged.record
              rw [note] at hold
              obtain rfl : inHand = [message] := hold
              refine ⟨message, ?_, allowed⟩
              rw [receivedMessages_concat, received]
              simp
          | _ =>
              rw [note] at allowed
              cases allowed
      | mqReceive | mqOpen | createFile | openFile | fputs =>
          refine ⟨same ?_, still rfl⟩
          cases answer <;> rfl

theorem reported_of_run {turns : Nat} {leftOver : List Bytes} {acts : List LogAct}
    (run : Run LogProcesses.step unguarded (.start turns leftOver file) acts s) : Reported acts := by
  induction run with
  | nil =>
      refine ⟨⟨[], rfl⟩, ?_⟩
      intro given
      obtain ⟨act, none, -⟩ := given
      cases none
  | snoc front _ taken ih => exact ih.step (logged_of_run front) taken

end Calls

/-! ## Every run -/

variable {turns : Nat} {leftOver : List Bytes} {file : Bytes} {acts : List LogAct} {s : LogProcesses}

theorem order_of_run (run : Run LogProcesses.step unguarded (.start turns leftOver file) acts s) :
    leftOver ++ sentMessages acts = receivedMessages acts ++ s.shared.queue :=
  @MessageQueue.taken_of_run _ _ _ transferred maxMsg (fun s => s.shared.queue) _ _ _ _ _
    moves_of_step run

theorem recorded_of_run
    (run : Run LogProcesses.step unguarded (.start turns leftOver file) acts s)
    (opened : created acts) :
    ∃ written inHand : List Bytes,
      leftOver ++ sentMessages acts = written ++ inHand ++ s.shared.queue ∧
        inHand.length ≤ 1 ∧ s.shared.file = written.flatMap cstr := by
  obtain ⟨written, inHand, received, hold, recorded⟩ := (logged_of_run run).record
  refine ⟨written, inHand, ?_, length_le_of_mayHold hold, recorded opened⟩
  rw [← received]
  exact order_of_run run

/-- From the moment the service has emptied it, the file holds what was in the queue and then the
texts that were logged, each once and in the order in which they were sent; the last of them may
still be in the queue, and one in the hands of the service. -/
theorem log_of_run (run : Run LogProcesses.step unguarded (.start turns leftOver file) acts s)
    (opened : created acts) :
    ∃ (entries : List LogEntry) (written inHand : List Bytes),
      sentMessages acts = entries.map LogEntry.text ∧
      leftOver ++ entries.map LogEntry.text = written ++ inHand ++ s.shared.queue ∧
      inHand.length ≤ 1 ∧ s.shared.file = written.flatMap cstr := by
  obtain ⟨entries, texts⟩ := (reported_of_run run).texts
  obtain ⟨written, inHand, order, one, recorded⟩ := recorded_of_run run opened
  exact ⟨entries, written, inHand, texts, texts ▸ order, one, recorded⟩

/-! ## How the service ends -/

/-- The calls of the service for a message that it writes. -/
def writing (message : Bytes) : List LogEvent :=
  [⟨.mqReceive, some message⟩, ⟨.openFile, true⟩, ⟨.fputs (cstr message), ()⟩]

theorem runs_serviceLoop {front : List Bytes} {last : Bytes}
    (goesOn : ∀ message ∈ front, endsService message = false)
    (fits : ∀ message ∈ front, message.length ≤ msgMaxSize) (ends : endsService last = true)
    (short : last.length ≤ msgMaxSize) :
    Runs (serviceLoop (front.length + 1)) (front.flatMap writing ++ [⟨.mqReceive, some last⟩])
      (.ok true) := by
  have readable {message : Bytes} (small : message.length ≤ msgMaxSize) :
      message.length < msgMaxSize + 1 := Nat.lt_succ_of_le small
  induction front with
  | nil =>
      simp only [serviceLoop, readMq, perform_bind, call_bind]
      refine .call ?_
      dsimp only
      have stops : strncmpEq last msgEnd msgEnd.length = true := ends
      rw [if_pos (readable short), Program.pure_bind, if_pos stops]
      exact .ret true
  | cons message front ih =>
      rw [List.forall_mem_cons] at goesOn fits
      simp only [List.length_cons, serviceLoop, readMq, perform_bind, call_bind]
      refine .call ?_
      dsimp only
      have stays : ¬ strncmpEq message msgEnd msgEnd.length = true := by
        rw [Bool.not_eq_true]
        exact goesOn.1
      rw [if_pos (readable fits.1), Program.pure_bind, if_neg stays]
      refine .call (.call ?_)
      exact ih goesOn.2 fits.2

theorem through_writing (front rest : List Bytes) (file : Bytes) :
    Through LogState.happens ⟨front ++ rest, file⟩ (front.flatMap writing)
      ⟨rest, file ++ front.flatMap cstr⟩ := by
  induction front generalizing file with
  | nil => simp [Through]
  | cons message front ih =>
      have later := ih (file ++ cstr message)
      rw [List.append_assoc] at later
      exact ⟨⟨front ++ rest, file⟩, ⟨rfl, rfl⟩, ⟨front ++ rest, file⟩, rfl, _, rfl, later⟩

/-- A message that ends the service ends it when it comes to it. -/
theorem closes_of_left_over {front back : List Bytes} {last : Bytes} (file : Bytes)
    (goesOn : ∀ message ∈ front, endsService message = false)
    (fits : ∀ message ∈ front, message.length ≤ msgMaxSize) (ends : endsService last = true)
    (short : last.length ≤ msgMaxSize) :
    ∃ turns acts s, Run LogProcesses.step unguarded
      (.start turns (front ++ last :: back) file) acts s ∧ ∃ act ∈ acts, closesMq act = true := by
  have loop := runs_serviceLoop goesOn fits ends short
  let trace : List LogEvent := [⟨.mqOpen, true⟩, ⟨.createFile, true⟩] ++
    ((front.flatMap writing ++ [⟨.mqReceive, some last⟩]) ++ [⟨.closeMq, ()⟩])
  have runs : Runs (loggingMain (front.length + 1)) trace (.ok true) := by
    simp only [loggingMain, perform_bind]
    refine .call ?_
    rw [if_pos rfl]
    refine .call ?_
    rw [if_pos rfl]
    exact loop.bind (.call (.ret true))
  have through : Through LogState.happens ⟨front ++ last :: back, file⟩ trace
      ⟨back, [] ++ front.flatMap cstr⟩ := by
    refine ⟨⟨front ++ last :: back, file⟩, rfl, ⟨front ++ last :: back, []⟩, rfl, ?_⟩
    have received : Through LogState.happens ⟨last :: back, [] ++ front.flatMap cstr⟩
        [⟨.mqReceive, some last⟩] ⟨back, [] ++ front.flatMap cstr⟩ :=
      ⟨⟨back, [] ++ front.flatMap cstr⟩, ⟨rfl, rfl⟩, rfl⟩
    exact ((through_writing front (last :: back) []).append received).append ⟨_, rfl, rfl⟩
  have running : (LogProcesses.start (front.length + 1) (front ++ last :: back) file).running 0 =
      some (loggingMain (front.length + 1)) := rfl
  have alone : ∃ s, Run LogProcesses.step unguarded
      (.start (front.length + 1) (front ++ last :: back) file) (trace.map (.call 0)) s ∧ _ :=
    Processes.run_alone_unguarded running runs through
  obtain ⟨s, run, -⟩ := alone
  exact ⟨_, _, s, run, .call 0 ⟨.closeMq, ()⟩, List.mem_map_of_mem (by simp [trace]), rfl⟩

/-- `a` as an information. -/
def infoA : LogEntry := ⟨.info, ⟨ascii "a", nulFree_a⟩⟩

def errorP : LogEntry := ⟨.error, ⟨ascii "p", nulFree_p⟩⟩

/-- The service leaves its loop and removes the queue in some run exactly if the queue held a
message for it from the start: no text that is logged ends the service. -/
theorem service_ends_iff (fits : ∀ message ∈ leftOver, message.length ≤ msgMaxSize) :
    (∃ turns file acts s, Run LogProcesses.step unguarded (.start turns leftOver file) acts s ∧
        ∃ act ∈ acts, closesMq act = true) ↔
      ∃ message ∈ leftOver, endsService message = true := by
  constructor
  · intro given
    obtain ⟨turns, file, acts, s, run, closes⟩ := given
    have reported := reported_of_run run
    obtain ⟨entries, texts⟩ := reported.texts
    obtain ⟨message, received, ends⟩ := reported.ends closes
    have order := order_of_run run
    have member : message ∈ leftOver ++ sentMessages acts :=
      order ▸ List.mem_append_left _ received
    rcases List.mem_append.mp member with before | logged
    · exact ⟨message, before, ends⟩
    · rw [texts] at logged
      obtain ⟨entry, -, rfl⟩ := List.mem_map.mp logged
      rw [not_endsService] at ends
      cases ends
  · intro given
    obtain ⟨message, member, ends⟩ := given
    -- the service comes to the first such message
    obtain ⟨last, found⟩ : ∃ last, leftOver.find? endsService = some last := by
      rw [← Option.isSome_iff_exists, List.find?_isSome]
      exact ⟨message, member, ends⟩
    obtain ⟨ending, front, back, rfl, goesOn⟩ := List.find?_eq_some_iff_append.mp found
    rw [List.forall_mem_append, List.forall_mem_cons] at fits
    have stays : ∀ message ∈ front, endsService message = false := by
      intro message member
      simpa using goesOn message member
    obtain ⟨turns, acts, s, run, closes⟩ :=
      closes_of_left_over [] stays fits.1 ending fits.2.1
    exact ⟨turns, [], acts, s, run, closes⟩

/-- Behind a text that was logged and not written yet. -/
theorem service_ends_behind_infoA : ∃ turns file acts s,
    Run LogProcesses.step unguarded (.start turns [infoA.text, msgEnd] file) acts s ∧
      ∃ act ∈ acts, closesMq act = true :=
  (service_ends_iff (by decide)).mpr ⟨msgEnd, by simp, by decide⟩

/-- The calls of the service for what an earlier run left over and for `a`. -/
def serviceTrace : List LogEvent :=
  [⟨.mqOpen, true⟩, ⟨.createFile, true⟩] ++ writing errorP.text ++ writing infoA.text

/-- A process logs `a`, and then the service writes it, behind what was left over. -/
def actsA : List LogAct :=
  [.start 1 (infoA.kind.log infoA.str) (.logs infoA), .call 1 ⟨.mqSend infoA.text, true⟩] ++
    serviceTrace.map (.call 0)

theorem run_actsA : ∃ s,
    Run LogProcesses.step unguarded (.start 2 [errorP.text] (ascii "old")) actsA s ∧
      s.shared = ⟨[], ascii "ERROR: p\nINFO: a\n"⟩ := by
  let started := LogProcesses.start 2 [errorP.text] (ascii "old")
  let logging : LogProcesses := { started with
    running := Function.update started.running 1 (some (infoA.kind.log infoA.str))
    notes := Function.update started.notes 1 (.logs infoA) }
  have begins : LogProcesses.step started
      (.start 1 (infoA.kind.log infoA.str) (.logs infoA)) logging := .start rfl ⟨infoA, rfl, rfl⟩
  have begun : logging.running 1 = some (.call (.mqSend infoA.text) .ret) := by
    have logs := congrArg some (log_eq infoA)
    exact (Function.update_self (1 : Nat) (some (infoA.kind.log infoA.str)) started.running).trans
      logs
  have room : logging.shared.happens ⟨.mqSend infoA.text, true⟩
      ⟨[errorP.text, infoA.text], ascii "old"⟩ := ⟨by decide, by decide, rfl⟩
  obtain ⟨sent, sends, waiting, queued⟩ : ∃ s, LogProcesses.step logging
      (.call 1 ⟨.mqSend infoA.text, true⟩) s ∧ s.running 0 = some (loggingMain 2) ∧
        s.shared = ⟨[errorP.text, infoA.text], ascii "old"⟩ :=
    ⟨_, .call begun room, rfl, rfl⟩
  have runs : Runs (loggingMain 2) serviceTrace (.ok false) :=
    .call (.call (.call (.call (.call (.call (.call (.call (.ret false))))))))
  have through : Through LogState.happens sent.shared serviceTrace
      ⟨[], ascii "ERROR: p\nINFO: a\n"⟩ := by
    rw [queued]
    exact ⟨_, rfl, _, rfl, through_writing [errorP.text, infoA.text] [] []⟩
  obtain ⟨s, written, last, -⟩ : ∃ s, Run LogProcesses.step unguarded sent
      (serviceTrace.map (.call 0)) s ∧ s.shared = ⟨[], ascii "ERROR: p\nINFO: a\n"⟩ ∧ _ :=
    Processes.run_alone_unguarded waiting runs through
  exact ⟨s, run_cons.mpr ⟨_, trivial, begins, run_cons.mpr ⟨_, trivial, sends, written⟩⟩, last⟩

theorem created_actsA : created actsA := by simp [created, actsA, serviceTrace]

/-- The texts are in the file, what was left over first. -/
theorem log_of_run_infoA : ∃ entries : List LogEntry, ∃ written inHand : List Bytes,
    [errorP.text] ++ entries.map LogEntry.text = written ++ inHand ∧ inHand.length ≤ 1 ∧
      written.flatMap cstr = ascii "ERROR: p\nINFO: a\n" := by
  obtain ⟨s, run, shared⟩ := run_actsA
  obtain ⟨entries, written, inHand, -, order, one, recorded⟩ := log_of_run run created_actsA
  rw [shared] at order recorded
  rw [List.append_nil] at order
  exact ⟨entries, written, inHand, order, one, recorded.symm⟩

end IpcFtp
