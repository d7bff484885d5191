import IpcFtp.Client.Shell
import IpcFtp.Communication.Delivery
import IpcFtp.Serialization.Messages

/-!
# The requests of a client

What a line asks for, and what becomes of it: `cmd_parse` writes the message it asks for, the
frames of a run are received one after another, and `parse_encoded` makes of each the request that
was asked for.

* `writes_shellTurn`: a line writes what it asks for, or nothing.
* `requests_of_run`: what the server's end reads of a run of lines.
-/

namespace IpcFtp

open Lib Program

/-! ## What a line asks for -/

def noArgument (message : Message) : List CString → Option Message
  | [] => some message
  | _ => none

def oneArgument (message : CString → Message) : List CString → Option Message
  | [arg] => some (message arg)
  | _ => none

def twoArguments (message : CString → CString → Option Message) : List CString → Option Message
  | [first, second] => message first second
  | _ => none

theorem nulFree_pass123 : 0 ∉ ascii "pass123" := by decide

/-- The password of a user for whom none is typed. -/
def usualPassword : CString := ⟨ascii "pass123", nulFree_pass123⟩

/-- A user, whether an administrator, and the password if it is not the usual one. -/
def userArguments : List CString → Option Message
  | [username, admin] =>
    (adminArgument admin).map fun flag => .newUser ⟨username, usualPassword, flag⟩
  | [username, admin, password] =>
    (adminArgument admin).map fun flag => .newUser ⟨username, password, flag⟩
  | _ => none

/-- The commands that ask the server for something; `file` is what is found of the file that is
posted. -/
def language (atof : CString → Float) (file : Option Bytes) :
    List (Bytes × (List CString → Option Message)) :=
  [(ascii "close", noArgument .close),
    (ascii "sendi", oneArgument fun arg => .int (atoi arg.bytes)),
    (ascii "sendd", oneArgument fun arg => .double (atof arg)),
    (ascii "sends", oneArgument .string),
    (ascii "get", oneArgument .get),
    (ascii "post", twoArguments fun dest _ =>
      file.map fun contents => .post (encodedString contents) dest contents.length),
    (ascii "login", twoArguments fun username password => some (.login username password)),
    (ascii "logout", noArgument .logout),
    (ascii "newuser", userArguments),
    (ascii "ch_pass", oneArgument .changePass)]

/-- What a client may ask for as things are. -/
def ClientState.mayAsk (s : ClientState) : Message → Bool
  | .int _ | .double _ | .string _ => s.isOpen
  | .login _ _ | .close => s.isOpen && !s.logged
  | .data _ _ => false
  | _ => s.isOpen && s.logged

/-- What a command asks for; with `help` behind it, for nothing. -/
def commandAsks (atof : CString → Float) (s : ClientState) (file : Option Bytes) (name : Bytes)
    (argv : List CString) : Option Message :=
  if asksForHelp argv then none
  else (((language atof file).lookup name).bind fun asks => asks argv).filter s.mayAsk

/-- What a line asks for. -/
def lineAsks (atof : CString → Float) (s : ClientState) (file : Option Bytes) (line : CString) :
    Option Message :=
  (splitArguments line.bytes).bind fun comms => commandAsks atof s file (comms.headD [])
    (comms.take (countElements comms) |>.drop 1 |>.map blockString)

/-! ## What a line writes -/

def writtenObject : ClientEvent → Option JsonObject
  | ⟨.send object, _⟩ | ⟨.sendAsync object, _⟩ => some object
  | _ => none

def writtenObjects (trace : List ClientEvent) : List JsonObject := trace.filterMap writtenObject

def readContents : ClientEvent → Option Bytes
  | ⟨.rawDataFromFile _, .ok contents⟩ => some contents
  | _ => none

/-- The file that is read in the course of a line. -/
def fileOf (trace : List ClientEvent) : Option Bytes := (trace.filterMap readContents).head?

/-- Every run of a program writes this, whose argument is the file it reads. -/
def Writes {α : Type} (p : Client α) (out : Option Bytes → Option JsonObject) : Prop :=
  ∀ trace result, Runs p trace result → writtenObjects trace = (out (fileOf trace)).toList

def ClientCommand.object : ClientCommand → Option JsonObject
  | .returns _ => none
  | .sends object => some object

section Writes

variable {t : Transport} {s : ClientState} {α : Type} {out : Option Bytes → Option JsonObject}

theorem writes_ret (a : α) : Writes (.ret a : Client α) fun _ => none := by
  intro trace result runs
  obtain ⟨rfl, -⟩ := runs_ret.mp runs
  rfl

theorem writes_fault (e : Fault) : Writes (.fault e : Client α) fun _ => none := by
  intro trace result runs
  obtain ⟨rfl, -⟩ := runs_fault.mp runs
  rfl

/-- A call that writes nothing and reads no file. -/
theorem writes_call {β : Type} {c : ClientCall β} {next : β → Client α}
    (nothing : ∀ b, writtenObject ⟨c, b⟩ = none) (unread : ∀ b, readContents ⟨c, b⟩ = none)
    (later : ∀ b, Writes (next b) out) : Writes (.call c next) out := by
  intro trace result runs
  obtain ⟨b, rest, rfl, ran⟩ := runs_call.mp runs
  simp only [writtenObjects, fileOf, List.filterMap_cons, nothing b, unread b]
  exact later b rest result ran

/-- A call that writes, with nothing written behind it. -/
theorem writes_send {β : Type} {c : ClientCall β} {next : β → Client α} {object : JsonObject}
    (sent : ∀ b, writtenObject ⟨c, b⟩ = some object)
    (later : ∀ b, Writes (next b) fun _ => none) : Writes (.call c next) fun _ => some object := by
  intro trace result runs
  obtain ⟨b, rest, rfl, ran⟩ := runs_call.mp runs
  have silent : writtenObjects rest = [] := later b rest result ran
  simp only [writtenObjects, List.filterMap_cons, sent b, Option.toList_some]
  exact congrArg _ silent

theorem writes_exchange {object : JsonObject} {next : Except Int ParseResult → Client Int}
    (later : ∀ reply, Writes (next reply) fun _ => none) :
    Writes (exchange t object >>= next) fun _ => some object := by
  rw [exchange_bind]
  exact writes_send (fun _ => rfl) fun _ => writes_call (fun _ => rfl) (fun _ => rfl) fun _ => later _

variable (command : ClientCommand)

theorem writes_runShown : Writes (runShown t command) fun _ => command.object := by
  cases command with
  | returns code => exact writes_ret code
  | sends object =>
      apply writes_exchange
      rintro (code | presult)
      · exact writes_ret code
      · exact writes_ret commandOk

theorem writes_runLogin : Writes (runLogin t command) fun _ => command.object := by
  cases command with
  | returns code => exact writes_ret code
  | sends object =>
      apply writes_exchange
      rintro (code | presult)
      · exact writes_ret code
      · dsimp only
        split
        · exact writes_fault _
        · exact writes_ret errLoginFailed
        · exact writes_call (fun _ => rfl) (fun _ => rfl) fun _ => writes_ret commandOk

theorem writes_runLogout : Writes (runLogout t command) fun _ => command.object := by
  cases command with
  | returns code => exact writes_ret code
  | sends object =>
      apply writes_exchange
      rintro (code | presult)
      · exact writes_ret code
      · exact writes_call (fun _ => rfl) (fun _ => rfl) fun _ => writes_ret commandOk

theorem writes_runGet : Writes (runGet command) fun _ => command.object := by
  cases command with
  | returns code => exact writes_ret code
  | sends object => exact writes_send (fun _ => rfl) fun _ => writes_ret commandOk

theorem writes_runClose : Writes (runClose t command) fun _ => command.object := by
  cases command with
  | returns code => exact writes_ret code
  | sends object =>
      refine writes_send (fun _ => rfl) fun _ => ?_
      dsimp only
      split
      · exact writes_ret _
      · exact writes_ret commandCloseOk

theorem writes_cmdOpen (argv : List CString) : Writes (cmdOpen t s argv) fun _ => none := by
  unfold cmdOpen
  split_ifs
  · exact writes_ret commandOk
  · exact writes_ret errAlreadyDone
  · split
    · split_ifs
      · exact writes_ret errBadAddress
      · exact writes_call (fun _ => rfl) (fun _ => rfl) fun _ => writes_ret _
    · exact writes_ret errWrongArgumentsCount

end Writes

/-! ## Each command -/

section Commands

variable {t : Transport} {atof : CString → Float} {s : ClientState} {file : Option Bytes}
  {name : Bytes} {argv : List CString}

theorem commandAsks_of_lookup {asks : List CString → Option Message}
    (found : (language atof file).lookup name = some asks) :
    commandAsks atof s file name argv =
      if asksForHelp argv then none else (asks argv).filter s.mayAsk := by
  rw [commandAsks, found]
  rfl

/-- A command that shows its help does nothing else. -/
theorem object_unless_help {body : ClientCommand} {asked : Option Message}
    (same : body.object = asked.map Message.stringify) :
    ClientCommand.object (if asksForHelp argv then .returns commandOk else body) =
      (if asksForHelp argv then none else asked).map Message.stringify := by
  split_ifs
  · rfl
  · exact same

theorem object_cmdSend {make : CString → JsonObject} {message : CString → Message}
    (found : (language atof file).lookup name = some (oneArgument message))
    (stringified : ∀ arg, (message arg).stringify = make arg)
    (may : ∀ arg, s.mayAsk (message arg) = s.isOpen) :
    (cmdSend make s.isOpen argv).object =
      (commandAsks atof s file name argv).map Message.stringify := by
  rw [commandAsks_of_lookup found]
  refine object_unless_help ?_
  cases isOpen : s.isOpen <;> rcases argv with _ | ⟨arg, _ | _⟩ <;>
    simp [oneArgument, ClientCommand.object, may, isOpen, stringified]

theorem object_cmdGet : (cmdGet s.isOpen s.logged argv).object =
    (commandAsks atof s file (ascii "get") argv).map Message.stringify := by
  rw [commandAsks_of_lookup rfl]
  refine object_unless_help ?_
  cases isOpen : s.isOpen <;> cases logged : s.logged <;> rcases argv with _ | ⟨arg, _ | _⟩ <;>
    simp [oneArgument, ClientCommand.object, ClientState.mayAsk, isOpen, logged, Message.stringify]

theorem object_cmdPost (answer : Except Int Bytes) :
    (cmdPost s.isOpen s.logged argv answer).object =
      (commandAsks atof s answer.toOption (ascii "post") argv).map Message.stringify := by
  rw [commandAsks_of_lookup rfl]
  refine object_unless_help ?_
  cases isOpen : s.isOpen <;> cases logged : s.logged <;> cases answer <;>
    rcases argv with _ | ⟨dest, _ | ⟨path, _ | _⟩⟩ <;>
    simp [twoArguments, ClientCommand.object, ClientState.mayAsk, isOpen, logged, Message.stringify,
      Except.toOption]

theorem object_cmdLogin : (cmdLogin s.isOpen s.logged argv).object =
    (commandAsks atof s file (ascii "login") argv).map Message.stringify := by
  rw [commandAsks_of_lookup rfl]
  refine object_unless_help ?_
  cases isOpen : s.isOpen <;> cases logged : s.logged <;>
    rcases argv with _ | ⟨username, _ | ⟨password, _ | _⟩⟩ <;>
    simp [twoArguments, ClientCommand.object, ClientState.mayAsk, isOpen, logged, Message.stringify]

theorem object_cmdLogout : (cmdLogout s.isOpen s.logged argv).object =
    (commandAsks atof s file (ascii "logout") argv).map Message.stringify := by
  rw [commandAsks_of_lookup rfl]
  refine object_unless_help ?_
  cases isOpen : s.isOpen <;> cases logged : s.logged <;> rcases argv with _ | _ <;>
    simp [noArgument, ClientCommand.object, ClientState.mayAsk, isOpen, logged, Message.stringify]

theorem object_cmdClose : (cmdClose s.isOpen s.logged argv).object =
    (commandAsks atof s file (ascii "close") argv).map Message.stringify := by
  rw [commandAsks_of_lookup rfl]
  refine object_unless_help ?_
  cases isOpen : s.isOpen <;> cases logged : s.logged <;> rcases argv with _ | _ <;>
    simp [noArgument, ClientCommand.object, ClientState.mayAsk, isOpen, logged, Message.stringify]

theorem object_cmdNewUser : (cmdNewUser s.isOpen s.logged argv).object =
    (commandAsks atof s file (ascii "newuser") argv).map Message.stringify := by
  rw [commandAsks_of_lookup rfl]
  refine object_unless_help ?_
  cases isOpen : s.isOpen <;> cases logged : s.logged <;>
    rcases argv with _ | ⟨username, _ | ⟨admin, _ | ⟨password, _ | _⟩⟩⟩ <;>
    simp [userArguments, ClientCommand.object, ClientState.mayAsk, isOpen, logged] <;>
    cases adminArgument admin <;>
      simp [ClientState.mayAsk, isOpen, logged, Message.stringify, usualPassword]

theorem object_cmdChangePass : (cmdChangePass s.isOpen s.logged argv).object =
    (commandAsks atof s file (ascii "ch_pass") argv).map Message.stringify := by
  rw [commandAsks_of_lookup rfl]
  refine object_unless_help ?_
  cases isOpen : s.isOpen <;> cases logged : s.logged <;> rcases argv with _ | ⟨pass, _ | _⟩ <;>
    simp [oneArgument, ClientCommand.object, ClientState.mayAsk, isOpen, logged, Message.stringify]

/-- A command of the table writes what it asks for. -/
abbrev WritesAsked (atof : CString → Float) (s : ClientState) (name : Bytes) (argv : List CString)
    (p : Client Int) : Prop :=
  Writes p fun file => (commandAsks atof s file name argv).map Message.stringify

theorem writesAsked_of_object {p : Client Int} {command : ClientCommand}
    (writes : Writes p fun _ => command.object)
    (object : ∀ file, command.object = (commandAsks atof s file name argv).map Message.stringify) :
    WritesAsked atof s name argv p := by
  intro trace result runs
  rw [writes trace result runs, object (fileOf trace)]

/-- Other commands ask the server for nothing. -/
theorem commandAsks_of_lookup_none (unknown : (language atof file).lookup name = none) :
    commandAsks atof s file name argv = none := by
  rw [commandAsks, unknown]
  split_ifs <;> rfl

theorem writesAsked_of_none {p : Client Int} (writes : Writes p fun _ => none)
    (unknown : ∀ file, (language atof file).lookup name = none) : WritesAsked atof s name argv p := by
  intro trace result runs
  have nothing : commandAsks atof s (fileOf trace) name argv = none :=
    commandAsks_of_lookup_none (unknown _)
  beta_reduce
  rw [writes trace result runs, nothing]
  rfl

/-- A `post` that is not sent asks for nothing, whatever the file. -/
theorem object_cmdPost_none (unsent : ¬ (s.isOpen ∧ s.logged) ∨ argv.length ≠ 2) :
    (cmdPost s.isOpen s.logged argv (.ok [])).object =
      (commandAsks atof s file (ascii "post") argv).map Message.stringify := by
  rw [commandAsks_of_lookup rfl]
  refine object_unless_help ?_
  revert unsent
  cases isOpen : s.isOpen <;> cases logged : s.logged <;> cases file <;>
    rcases argv with _ | ⟨dest, _ | ⟨path, _ | _⟩⟩ <;>
    simp [twoArguments, ClientCommand.object, ClientState.mayAsk, isOpen, logged]

theorem writes_runPost : WritesAsked atof s (ascii "post") argv (runPost t s argv) := by
  unfold runPost
  split
  · rename_i dest path
    split_ifs with may
    · intro trace result runs
      obtain ⟨answer, rest, rfl, ran⟩ := runs_call.mp runs
      cases answer with
      | ok contents =>
          have written := writes_runShown _ rest result ran
          rw [@object_cmdPost atof s [dest, path]] at written
          exact written
      | error errno =>
          have object := @object_cmdPost atof s [dest, path] (.error errno)
          have ends : cmdPost s.isOpen s.logged [dest, path] (.error errno) = .returns errno := by
            simp [cmdPost, asksForHelp, may.1, may.2]
          have code : Runs (runShown t (cmdPost s.isOpen s.logged [dest, path] (.error errno))) rest
            result := ran
          rw [ends] at code object
          obtain ⟨rfl, -⟩ := runs_ret.mp code
          exact congrArg Option.toList object
    · exact writesAsked_of_object (writes_runShown _) fun file => object_cmdPost_none (.inl may)
  · rename_i other
    refine writesAsked_of_object (writes_runShown _) fun file => object_cmdPost_none (.inr ?_)
    intro two
    obtain ⟨dest, path, rfl⟩ := List.length_eq_two.mp two
    exact other dest path rfl

theorem writes_command {run : ClientState → List CString → Client Int}
    (entry : (name, run) ∈ commands t atof) : WritesAsked atof s name argv (run s argv) := by
  simp only [commands, List.mem_cons, List.not_mem_nil, or_false, Prod.mk.injEq] at entry
  rcases entry with ⟨rfl, rfl⟩ | ⟨rfl, rfl⟩ | ⟨rfl, rfl⟩ | ⟨rfl, rfl⟩ | ⟨rfl, rfl⟩ | ⟨rfl, rfl⟩ |
    ⟨rfl, rfl⟩ | ⟨rfl, rfl⟩ | ⟨rfl, rfl⟩ | ⟨rfl, rfl⟩ | ⟨rfl, rfl⟩ | ⟨rfl, rfl⟩ | ⟨rfl, rfl⟩
  · exact writesAsked_of_none (writes_cmdOpen _) fun _ => rfl
  · exact writesAsked_of_object (writes_runClose _) fun _ => object_cmdClose
  · exact writesAsked_of_object (writes_runShown _) fun _ =>
      object_cmdSend rfl (fun _ => rfl) fun _ => rfl
  · exact writesAsked_of_object (writes_runShown _) fun _ =>
      object_cmdSend rfl (fun _ => rfl) fun _ => rfl
  · exact writesAsked_of_object (writes_runShown _) fun _ =>
      object_cmdSend rfl (fun _ => rfl) fun _ => rfl
  · exact writesAsked_of_none (writes_ret _) fun _ => rfl
  · exact writesAsked_of_object (writes_runGet _) fun _ => object_cmdGet
  · exact writes_runPost
  · exact writesAsked_of_object (writes_runLogin _) fun _ => object_cmdLogin
  · exact writesAsked_of_object (writes_runLogout _) fun _ => object_cmdLogout
  · exact writesAsked_of_none (writes_ret _) fun _ => rfl
  · exact writesAsked_of_object (writes_runShown _) fun _ => object_cmdNewUser
  · exact writesAsked_of_object (writes_runShown _) fun _ => object_cmdChangePass

/-- What the table does not know is not in the language. -/
theorem lookup_language_of_commands (unknown : (commands t atof).lookup name = none) :
    (language atof file).lookup name = none := by
  rw [List.lookup_eq_none_iff] at unknown ⊢
  have names : (language atof file).map Prod.fst ⊆ (commands t atof).map Prod.fst := by
    have asks : (language atof file).map Prod.fst = [ascii "close", ascii "sendi", ascii "sendd",
        ascii "sends", ascii "get", ascii "post", ascii "login", ascii "logout", ascii "newuser",
        ascii "ch_pass"] := rfl
    have table : (commands t atof).map Prod.fst = [ascii "open", ascii "close", ascii "sendi",
        ascii "sendd", ascii "sends", ascii "help", ascii "get", ascii "post", ascii "login",
        ascii "logout", ascii "commands", ascii "newuser", ascii "ch_pass"] := rfl
    rw [asks, table]
    decide
  intro entry member
  obtain ⟨other, known, same⟩ := List.mem_map.mp (names (List.mem_map_of_mem member))
  exact same ▸ unknown other known

theorem writes_cmdParse (line : CString) : Writes (cmdParse t atof s line) fun file =>
    (lineAsks atof s file line).map Message.stringify := by
  intro trace result runs
  unfold cmdParse at runs
  unfold lineAsks
  cases made : splitArguments line.bytes with
  | none =>
      rw [made] at runs
      exact writes_fault _ trace result runs
  | some comms =>
      rw [made] at runs
      dsimp only at runs
      split at runs
      · rename_i run found
        obtain ⟨front, back, entry, -⟩ := List.lookup_eq_some_iff.mp found
        have known : (comms.headD [], run) ∈ commands t atof := by simp [entry]
        exact writes_command known trace result runs
      · rename_i unknown
        exact writesAsked_of_none (writes_ret _)
          (fun _ => lookup_language_of_commands unknown) trace result runs

theorem writes_shellTurn (line : CString) : Writes (shellTurn t atof s line) fun file =>
    (lineAsks atof s file line).map Message.stringify := by
  intro trace result runs
  have parsed := @writes_cmdParse t atof s line
  rcases runs_bind.mp runs with ⟨e, failed, -⟩ | ⟨code, front, back, rfl, ran, behind⟩
  · exact parsed trace _ failed
  · have closes : writtenObjects back = [] ∧ back.filterMap readContents = [] := by
      split_ifs at behind
      · obtain ⟨_, rest, rfl, ended⟩ := runs_call.mp behind
        obtain ⟨rfl, -⟩ := runs_ret.mp ended
        exact ⟨rfl, rfl⟩
      · obtain ⟨rfl, -⟩ := runs_pure.mp behind
        exact ⟨rfl, rfl⟩
      · obtain ⟨rfl, -⟩ := runs_pure.mp behind
        exact ⟨rfl, rfl⟩
    have file : fileOf (front ++ back) = fileOf front := by
      rw [fileOf, List.filterMap_append, closes.2, List.append_nil, fileOf]
    beta_reduce
    rw [file, ← parsed front _ ran, writtenObjects, List.filterMap_append]
    exact (congrArg _ closes.1).trans (List.append_nil _)

end Commands

/-! ## Runs -/

/-- What the lines of a run ask for, each as things are when it is typed. -/
def runAsks (atof : CString → Float) : Shell → List Turn → List Message
  | _, [] => []
  | s, turn :: turns => (lineAsks atof s.client (fileOf turn.trace) turn.line).toList ++
    runAsks atof (turn.trace.foldl Shell.after s) turns

/-- What they write. -/
def runWrites (turns : List Turn) : List JsonObject :=
  turns.flatMap fun turn => writtenObjects turn.trace

section Runs

variable {t : Transport} {atof : CString → Float} {s s' : Shell} {turns : List Turn}

theorem foldl_of_through {trace : List ClientEvent} (through : Through (Shell.happens t) s trace s') :
    trace.foldl Shell.after s = s' := by
  induction trace generalizing s with
  | nil => exact through
  | cons event trace ih =>
      obtain ⟨middle, happened, later⟩ := through
      rw [List.foldl_cons, ← happened.2]
      exact ih later

theorem written_of_run (run : Run (takesTurn t atof) unguarded s turns s') :
    runWrites turns = (runAsks atof s turns).map Message.stringify := by
  induction turns generalizing s with
  | nil => rfl
  | cons turn turns ih =>
      obtain ⟨middle, -, taken, later⟩ := run_cons.mp run
      obtain ⟨-, runs, through⟩ := taken
      have written : writtenObjects turn.trace =
          ((lineAsks atof s.client (fileOf turn.trace) turn.line).map Message.stringify).toList :=
        writes_shellTurn turn.line turn.trace _ runs
      rw [runAsks, foldl_of_through through, List.map_append, ← ih later, runWrites,
        List.flatMap_cons, written, runWrites, Option.toList_map]

/-- The frames of a run are read one after another, and each parses as the request that its line
asked for. -/
theorem requests_of_run {json : JsonC} {jobs : List Job} (accessors : json.Reads)
    (run : Run (takesTurn t atof) unguarded s turns s')
    (texts : jobs.map (fun job => job.frame.message) = (runWrites turns).map json.print)
    (deliverable : ∀ job ∈ jobs, job.frame.Deliverable t)
    (exact : ∀ message ∈ runAsks atof s turns, message.Exact)
    (reads : ∀ message ∈ runAsks atof s turns, json.ReadsBack message.stringify)
    (eof : Option Byte) (later : Bytes) (fresh : Byte) :
    ∃ received, Reader.run eof (Reader.inOrder (jobs.map (Job.reader t)))
        (jobs.flatMap (Job.wire t) ++ later) = .done received later ∧
      received.map (fun r => json.parseEncoded fresh r.buffer) =
        (runAsks atof s turns).map fun message => .ok (message.parsed fresh) := by
  have own : ∀ job ∈ jobs, ∀ rest, Reader.run eof (job.reader t) (job.wire t ++ rest) =
      .done (receivedOk job.frame.message) rest := fun job member rest =>
    (deliverable job member).run_reader job.sender job.receiver eof rest
  refine ⟨jobs.map fun job => receivedOk job.frame.message, Reader.run_inOrder eof jobs own later, ?_⟩
  rw [written_of_run run] at texts
  have parsed : (jobs.map fun job => job.frame.message).map (json.parseEncoded fresh) =
      (runAsks atof s turns).map fun message => .ok (message.parsed fresh) := by
    rw [texts, List.map_map, List.map_map]
    refine List.map_congr_left fun message member => ?_
    exact parseEncoded_stringify accessors (exact message member) (reads message member)
  rw [← parsed, List.map_map, List.map_map]
  rfl

end Runs

/-! ## Two lines -/

theorem nulFree_newUserLine : 0 ∉ ascii "newuser a no" := by decide

theorem nulFree_sendiLine : 0 ∉ ascii "sendi 7" := by decide

/-- `newuser a no`. -/
def newUserA : Message := .newUser ⟨⟨ascii "a", nulFree_a⟩, usualPassword, 0⟩

def newUserTurn : Turn :=
  ⟨⟨ascii "newuser a no", nulFree_newUserLine⟩, [⟨.send newUserA.stringify, ()⟩,
    ⟨.receive, (⟨0, []⟩, .data (ascii "User registered"))⟩]⟩

def sendiTurn : Turn :=
  ⟨⟨ascii "sendi 7", nulFree_sendiLine⟩, [⟨.send (stringifyInt 7), ()⟩,
    ⟨.receive, (⟨0, []⟩, .request (.int 14))⟩]⟩

def jsonTwoLines : JsonC := plainJson [newUserA.stringify, stringifyInt 7]

def lineJob (object : JsonObject) : Job :=
  ⟨⟨genBoundary 6, jsonTwoLines.print object⟩, .commSendData, .commReceiveData⟩

/-- The user arrives with the password nobody typed. -/
theorem requests_of_run_newUser : ∃ received : List Received,
    received.map (fun r => jsonTwoLines.parseEncoded 0 r.buffer) =
      [.ok (.request (.newUser ⟨⟨ascii "a", nulFree_a⟩, usualPassword, 0⟩)),
        .ok (.request (.int 7))] := by
  let opened : Shell := ⟨⟨true, .opened⟩, false⟩
  have first : takesTurn .fifo (fun _ => 0) opened newUserTurn opened :=
    ⟨by decide, .call (.call (.ret _)), _, ⟨trivial, rfl⟩, _, ⟨rfl, rfl⟩, rfl⟩
  have second : takesTurn .fifo (fun _ => 0) opened sendiTurn opened :=
    ⟨by decide, .call (.call (.ret _)), _, ⟨trivial, rfl⟩, _, ⟨rfl, rfl⟩, rfl⟩
  have asks : runAsks (fun _ => 0) opened [newUserTurn, sendiTurn] = [newUserA, .int 7] := rfl
  have both {p : Message → Prop} (user : p newUserA) (number : p (.int 7)) :
      ∀ message ∈ runAsks (fun _ => 0) opened [newUserTurn, sendiTurn], p message := by
    rw [asks, List.forall_mem_cons, List.forall_mem_singleton]
    exact ⟨user, number⟩
  have readsUser : jsonTwoLines.ReadsBack newUserA.stringify :=
    readsBack_plainJson rfl (by decide +kernel) (by decide +kernel)
  have readsNumber : jsonTwoLines.ReadsBack (stringifyInt 7) :=
    readsBack_plainJson rfl (by decide +kernel) (by decide +kernel)
  have texts : [lineJob newUserA.stringify, lineJob (stringifyInt 7)].map
      (fun job => job.frame.message) =
        (runWrites [newUserTurn, sendiTurn]).map jsonTwoLines.print := rfl
  have deliverable : ∀ job ∈ [lineJob newUserA.stringify, lineJob (stringifyInt 7)],
      job.frame.Deliverable .fifo := by
    rw [List.forall_mem_cons, List.forall_mem_singleton]
    exact ⟨⟨by decide +kernel, by decide +kernel, by decide +kernel, by decide +kernel⟩,
      by decide +kernel, by decide +kernel, by decide +kernel, by decide +kernel⟩
  have small : isInt 7 := by decide
  obtain ⟨received, -, parsed⟩ := requests_of_run (reads_plainJson _)
    (run_cons.mpr ⟨opened, trivial, first, .one trivial second⟩) texts deliverable
    (both trivial small) (both readsUser readsNumber) none [] 0
  rw [asks] at parsed
  exact ⟨received, parsed⟩

end IpcFtp
