import IpcFtp.Serialization.Messages

/-!
# Numbers and strings sent back

The branches of `server_responder` for the kinds `int` and `string`, from the text of the request to
the text of the reply: twice the number, and the string behind its first two characters.  Neither
looks at what it was sent; the build without `LOGGING` prints it as well and keeps nothing of it.

## Main results

* `echoes_iff`: which numbers and strings are answered as they should be.
* `echoes_leaves_int`: twice a number may be none.
-/

namespace IpcFtp

open Lib Program

/-- A string without its first two characters. -/
def CString.dropTwo (s : CString) : CString :=
  ⟨s.bytes.drop 2, fun inside => s.nulFree (List.drop_subset 2 _ inside)⟩

/-- What the worker is to answer. -/
def Message.echo : Message → Option Message
  | .int i => some (.int (2 * i))
  | .string str => some (.string str.dropTwo)
  | _ => none

/-- Twice the number is an `int`, and the string has two characters. -/
def Message.Echoable : Message → Prop
  | .int i => isInt (2 * i)
  | .string str => 2 ≤ str.bytes.length
  | _ => False

/-- The text of a request is parsed, the responder runs without a fault, whoever the worker is, and
sends one text, which is parsed as the reply. -/
def Echoes (t : Transport) (json : JsonC) (fresh : Byte) (message answer : Message) : Prop :=
  ∃ parsed, json.parseEncoded fresh (json.print message.stringify) = .ok parsed ∧
    ∀ worker err, ∃ event, replyObject event = some answer.stringify ∧
      json.parseEncoded fresh (json.print answer.stringify) = .ok (answer.parsed fresh) ∧
      ∀ trace result, Runs (serverResponder t worker parsed.toRequest err) trace result ↔
        trace = [event] ∧ result = .ok (worker, err.afterSend t)

/-- A branch that sends or faults sends its reply just if it does not fault. -/
theorem exists_sends_iff {α : Type} {event : ServerEvent} {object : JsonObject} {a : α}
    {fault : Fault} {sends : Prop} [Decidable sends] (sent : replyObject event = some object) :
    (∃ event', replyObject event' = some object ∧
      ∀ (trace : List ServerEvent) (result : Except Fault α),
        (if sends then trace = [event] ∧ result = .ok a else trace = [] ∧ result = .error fault) ↔
          trace = [event'] ∧ result = .ok a) ↔ sends := by
  constructor
  · intro given
    obtain ⟨event', -, runs⟩ := given
    by_contra faults
    have ran := (runs [event'] (.ok a)).mpr ⟨rfl, rfl⟩
    rw [if_neg faults] at ran
    cases ran.1
  · intro does
    exact ⟨event, sent, fun trace result => by rw [if_pos does]⟩

section Echo

variable {t : Transport} {json : JsonC} {fresh : Byte}

/-- The worker's part, for a request that was parsed. -/
theorem responds_iff {message answer : Message} (asked : message.echo = some answer)
    (worker : Worker) (err : CommError) :
    (∃ event, replyObject event = some answer.stringify ∧ ∀ trace result,
        Runs (serverResponder t worker (message.parsed fresh).toRequest err) trace result ↔
          trace = [event] ∧ result = .ok (worker, err.afterSend t)) ↔ message.Echoable := by
  cases message with
  | int i =>
      cases asked
      simp only [Message.parsed, ParseResult.toRequest, runs_int, Message.Echoable]
      rw [← mul_comm i 2]
      exact exists_sends_iff rfl
  | string str =>
      cases asked
      simp only [Message.parsed, ParseResult.toRequest, runs_string, Message.Echoable]
      apply exists_sends_iff
      exact congrArg (fun s => some (stringifyString s))
        (blockString_of_nulFree str.dropTwo.nulFree)
  | double | data | get | post | login | logout | close | newUser | changePass => cases asked

/-- What is answered can be parsed again. -/
theorem exact_of_echo {message answer : Message} (asked : message.echo = some answer)
    (fits : message.Echoable) : answer.Exact := by
  cases message with
  | int i =>
      cases asked
      exact fits
  | string str =>
      cases asked
      trivial
  | double | data | get | post | login | logout | close | newUser | changePass => cases asked

/-- A request whose number or string does not fit is not answered so. -/
theorem not_echoes {message answer : Message} (accessors : json.Reads) (exact : message.Exact)
    (reads : json.ReadsBack message.stringify) (asked : message.echo = some answer)
    (long : ¬ message.Echoable) : ¬ Echoes t json fresh message answer := by
  intro given
  obtain ⟨parsed, parses, answers⟩ := given
  rw [parseEncoded_stringify accessors exact reads] at parses
  cases parses
  obtain ⟨event, sends, -, runs⟩ := answers Worker.start ⟨0, []⟩
  exact long ((responds_iff asked _ _).mp ⟨event, sends, runs⟩)

end Echo

/-- A number is doubled just if twice the number is an `int`, and a string cut just if it has two
characters, whatever the worker and its error object, on the way through both texts. -/
theorem echoes_iff {t : Transport} {json : JsonC} {fresh : Byte} (accessors : json.Reads)
    {message answer : Message} (asked : message.echo = some answer) (exact : message.Exact)
    (reads : json.ReadsBack message.stringify)
    (readsAnswer : answer.Exact → json.ReadsBack answer.stringify) :
    Echoes t json fresh message answer ↔ message.Echoable := by
  constructor
  · intro given
    by_contra long
    exact not_echoes accessors exact reads asked long given
  · intro given
    have fits := exact_of_echo asked given
    refine ⟨_, parseEncoded_stringify accessors exact reads, fun worker err => ?_⟩
    obtain ⟨event, sends, runs⟩ := (responds_iff asked worker err).mpr given
    exact ⟨event, sends, parseEncoded_stringify accessors fits (readsAnswer fits), runs⟩

theorem echoes_twentyOne :
    Echoes .fifo (plainJson [stringifyInt 21, stringifyInt 42]) 0 (.int 21) (.int 42) := by
  have asked := readsBack_plainJson (show [stringifyInt 21, stringifyInt 42].find?
    (printPlain · = printPlain (stringifyInt 21)) = some (stringifyInt 21) from rfl)
    (by decide +kernel) (by decide +kernel)
  have answered := readsBack_plainJson (show [stringifyInt 21, stringifyInt 42].find?
    (printPlain · = printPlain (stringifyInt 42)) = some (stringifyInt 42) from rfl)
    (by decide +kernel) (by decide +kernel)
  exact (@echoes_iff .fifo _ 0 (reads_plainJson _) (.int 21) (.int 42) rfl
    (show isInt 21 by decide) asked fun _ => answered).mpr (show isInt (2 * 21) by decide)

/-- Twice `2 ^ 30` is no `int`, and behind a string of one character lies nothing to be sent. -/
theorem echoes_leaves_int :
    (∀ worker err, Runs (serverResponder .fifo worker (.int (2 ^ 30)) err) [] (.error .overflow)) ∧
      ¬ Echoes .fifo (plainJson [stringifyInt (2 ^ 30)]) 0 (.int (2 ^ 30)) (.int (2 * 2 ^ 30)) ∧
      (∀ worker err, Runs (serverResponder .fifo worker (.string ⟨ascii "a", nulFree_a⟩) err) []
        (.error .outOfBounds)) ∧
      ¬ Echoes .fifo (plainJson [stringifyString ⟨ascii "a", nulFree_a⟩]) 0
        (.string ⟨ascii "a", nulFree_a⟩) (.string ⟨[], List.not_mem_nil⟩) := by
  refine ⟨fun worker err => ?_, ?_, fun worker err => ?_, ?_⟩
  · exact runs_int.mpr ⟨rfl, rfl⟩
  · refine not_echoes (reads_plainJson _) (show isInt (2 ^ 30) by decide) ?_ rfl
      (show ¬ isInt (2 * 2 ^ 30) by decide)
    exact readsBack_plainJson rfl (by decide +kernel) (by decide +kernel)
  · exact runs_string.mpr ⟨rfl, rfl⟩
  · refine not_echoes (reads_plainJson _) trivial ?_ rfl (show ¬ 2 ≤ (ascii "a").length by decide)
    exact readsBack_plainJson rfl (by decide +kernel) (by decide +kernel)

end IpcFtp
