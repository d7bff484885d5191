import IpcFtp.Arguments
import IpcFtp.Client.Shell

/-!
# Lines with quotations

What becomes of a line that `cmd_parse` is given.  `cmd_parse` uses the vector of
`split_arguments` at once, so a line with an unclosed quotation is never refused: it ends in
a null pointer, or a space at its end hides the quotation and the command runs without what
the quotation holds.
-/

namespace IpcFtp

open Lib Program

/-- A run of the program dereferences a null pointer. -/
def Dereferences (p : Client Int) : Prop := ∃ trace, Runs p trace (.error .nullPointer)

/-- A line that is answered as it should be: null stands for exactly the unclosed quotations, a
command of the table runs or none is found, and no null pointer is dereferenced. -/
structure LineAnswered (t : Transport) (atof : CString → Float) (line : CString) : Prop where
  null : splitArguments line.bytes = none ↔ OddQuotes line.bytes
  command : ∀ s,
    (∃ name run argv, (name, run) ∈ commands t atof ∧ cmdParse t atof s line = run s argv) ∨
      cmdParse t atof s line = .ret errCommandNotFound
  defined : ∀ s, ¬ Dereferences (cmdParse t atof s line)

section Commands

variable {t : Transport} {atof : CString → Float} {s : ClientState} {line : CString}

theorem not_dereferences_ret (code : Int) : ¬ Dereferences (.ret code) := by
  intro given
  obtain ⟨trace, runs⟩ := given
  obtain ⟨-, same⟩ := runs_ret.mp runs
  cases same

theorem not_dereferences_call {β : Type} {call : ClientCall β} {next : β → Client Int}
    (later : ∀ answer, ¬ Dereferences (next answer)) : ¬ Dereferences (.call call next) := by
  intro given
  obtain ⟨trace, runs⟩ := given
  obtain ⟨answer, rest, -, runs⟩ := runs_call.mp runs
  exact later answer ⟨rest, runs⟩

theorem not_dereferences_exchange {object : JsonObject}
    {next : Except Int ParseResult → Client Int} (later : ∀ reply, ¬ Dereferences (next reply)) :
    ¬ Dereferences (exchange t object >>= next) := by
  rw [exchange_bind]
  exact not_dereferences_call fun _ => not_dereferences_call fun _ => later _

theorem not_dereferences_runShown (command : ClientCommand) :
    ¬ Dereferences (runShown t command) := by
  cases command with
  | returns code => exact not_dereferences_ret code
  | sends object =>
      apply not_dereferences_exchange
      rintro (code | presult)
      · exact not_dereferences_ret code
      · exact not_dereferences_ret commandOk

theorem not_dereferences_runLogin (command : ClientCommand) :
    ¬ Dereferences (runLogin t command) := by
  cases command with
  | returns code => exact not_dereferences_ret code
  | sends object =>
      apply not_dereferences_exchange
      rintro (code | presult)
      · exact not_dereferences_ret code
      · dsimp only
        split
        · rename_i e failed
          intro given
          obtain ⟨trace, runs⟩ := given
          obtain ⟨-, same⟩ := runs_fault.mp runs
          cases presult with
          | request => cases failed
          | data block =>
              obtain rfl := strcmpEq_error failed
              cases same
        · exact not_dereferences_ret errLoginFailed
        · exact not_dereferences_call fun _ => not_dereferences_ret commandOk

theorem not_dereferences_runLogout (command : ClientCommand) :
    ¬ Dereferences (runLogout t command) := by
  cases command with
  | returns code => exact not_dereferences_ret code
  | sends object =>
      apply not_dereferences_exchange
      rintro (code | presult)
      · exact not_dereferences_ret code
      · exact not_dereferences_call fun _ => not_dereferences_ret commandOk

theorem not_dereferences_runGet (command : ClientCommand) :
    ¬ Dereferences (runGet command) := by
  cases command with
  | returns code => exact not_dereferences_ret code
  | sends object => exact not_dereferences_call fun _ => not_dereferences_ret commandOk

theorem not_dereferences_runClose (command : ClientCommand) :
    ¬ Dereferences (runClose t command) := by
  cases command with
  | returns code => exact not_dereferences_ret code
  | sends object =>
      refine not_dereferences_call fun _ => ?_
      dsimp only
      split
      · exact not_dereferences_ret _
      · exact not_dereferences_ret commandCloseOk

theorem not_dereferences_runPost (argv : List CString) : ¬ Dereferences (runPost t s argv) := by
  unfold runPost
  split
  · split_ifs
    · exact not_dereferences_call fun _ => not_dereferences_runShown _
    · exact not_dereferences_runShown _
  · exact not_dereferences_runShown _

theorem not_dereferences_cmdOpen (argv : List CString) : ¬ Dereferences (cmdOpen t s argv) := by
  unfold cmdOpen
  split_ifs
  · exact not_dereferences_ret commandOk
  · exact not_dereferences_ret errAlreadyDone
  · split
    · split_ifs
      · exact not_dereferences_ret errBadAddress
      · exact not_dereferences_call fun _ => not_dereferences_ret _
    · exact not_dereferences_ret errWrongArgumentsCount

/-- Whatever its arguments, a command of the table dereferences no null pointer. -/
theorem not_dereferences_command {name : Bytes} {run : ClientState → List CString → Client Int}
    (entry : (name, run) ∈ commands t atof) (argv : List CString) :
    ¬ Dereferences (run s argv) :=
  commands_cases (p := fun command => ¬ Dereferences command)
    (fun code _ => not_dereferences_ret code) not_dereferences_cmdOpen
    (fun command _ _ _ => not_dereferences_runShown command) not_dereferences_runPost
    (fun _ => not_dereferences_runGet _) (fun _ => not_dereferences_runLogin _)
    (fun _ => not_dereferences_runLogout _) (fun _ => not_dereferences_runClose _) entry argv

end Commands

/-- A line is answered as it should be exactly if it closes its quotations. -/
theorem lineAnswered_iff (t : Transport) (atof : CString → Float) (line : CString) :
    LineAnswered t atof line ↔ ¬ OddQuotes line.bytes := by
  constructor
  · intro answered odd
    have null := answered.null.mpr odd
    apply answered.defined ⟨false, .idle⟩
    unfold cmdParse
    rw [null]
    exact ⟨[], .fault Fault.nullPointer⟩
  · intro even
    have vector : splitArguments line.bytes ≠ none := fun null =>
      even (splitArguments_eq_none.mp null).1
    have command (s : ClientState) :
        (∃ name run argv, (name, run) ∈ commands t atof ∧ cmdParse t atof s line = run s argv) ∨
          cmdParse t atof s line = .ret errCommandNotFound :=
      cmdParse_named vector
    refine ⟨iff_of_false vector even, command, fun s => ?_⟩
    rcases command s with ⟨name, run, argv, entry, runs⟩ | unknown
    · rw [runs]
      exact not_dereferences_command entry argv
    · rw [unknown]
      exact not_dereferences_ret errCommandNotFound

/-- The password is lost: the command runs with the default one. -/
theorem unclosed_newuser_runs :
    splitArguments (ascii "newuser ann no \"top secret ") =
        some [ascii "newuser", ascii "ann", ascii "no", []] ∧
      ¬ LineAnswered .fifo (fun _ => 0) ⟨ascii "newuser ann no \"top secret ", by decide⟩ := by
  have vector : splitArguments (ascii "newuser ann no \"top secret ") =
      some [ascii "newuser", ascii "ann", ascii "no", []] := by decide
  refine ⟨vector, fun answered => ?_⟩
  have null := answered.null.mpr (by decide)
  rw [vector] at null
  cases null

end IpcFtp
