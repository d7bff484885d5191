import IpcFtp.Lib.Processes
import IpcFtp.Server.Database
import Mathlib.Data.List.Infix
import Mathlib.Data.List.Nodup

/-!
# One row for a name and for a path

Any number of workers handle requests on one database, each statement at once and answered
correctly, the statements of different workers in any order.  `process_new_user_cmd` and
`process_post_cmd` look for a row in one statement and insert it in a later one.

No column is taken to be unique in the schema.
-/

namespace IpcFtp

open Lib Program

/-! ## The database -/

/-- No two rows of `users` have a name, and no two rows of `files` a path in common. -/
structure World.Unique (world : World) : Prop where
  users : (world.users.map UserRow.username).Nodup
  files : (world.files.map FileRow.path).Nodup

/-- A select finds what there is. -/
def World.Answers (world : World) : ServerEvent → Prop
  | ⟨.userInDb username, answer⟩ =>
    answer = true ↔ ∃ row ∈ world.users, row.username = username.bytes
  | ⟨.askForFileToDb fileAlias user, answer⟩ =>
    answer = none ↔ world.matching fileAlias user.home = []
  | _ => True

/-- A statement that reads as its template is answered correctly and takes effect or fails.
Any other may do anything. -/
def World.executes (beyond : Bytes) (world : World) (event : ServerEvent) (world' : World) : Prop :=
  (world.Answers event ∧ (world' = world ∨ world' = world.after beyond event)) ∨
    ∃ call ∈ sqlCall event, ¬ call.Intact

/-! ## Looking and inserting -/

/-- What is to be unique. -/
inductive Key : Type
  | user (name : Bytes)
  | file (path : Bytes)
  deriving DecidableEq

def Key.absent (world : World) : Key → Prop
  | .user name => ∀ row ∈ world.users, row.username ≠ name
  | .file path => ∀ row ∈ world.files, row.path ≠ path

/-- The path a post is for. -/
def postPath (fileAlias : CString) (user : FsUser) : Bytes :=
  user.home.bytes ++ ascii "/" ++ fileAlias.bytes

/-- The key that a select has not found. -/
def missingKey : ServerEvent → Option Key
  | ⟨.userInDb username, false⟩ => some (.user username.bytes)
  | ⟨.askForFileToDb fileAlias user, none⟩ => some (.file (postPath fileAlias user))
  | _ => none

/-- The key of a row that a statement inserts. -/
def insertedKey {β : Type} : ServerCall β → Option Key
  | .newUserInDb user => some (.user user.username.bytes)
  | .insertAliasInDb fileAlias user => some (.file (postPath fileAlias user))
  | _ => none

/-- A handler that inserts nothing, one that looks, one that has not found a key and has not
inserted it, and one that has become two processes. -/
inductive Intent : Type
  | plain
  | looks
  | misses (key : Key)
  | twice
  deriving DecidableEq

def Intent.note : Intent → ServerEvent → Intent
  | .plain, _ => .plain
  | .twice, _ => .twice
  | intent, event =>
    if goesOnTwice event then .twice
    else
      match missingKey event with
      | some key => .misses key
      | none => if (insertedKey event.call).isSome then .looks else intent

/-- What one process inserts was missed before. -/
def Intent.allowed (intent : Intent) {β : Type} (call : ServerCall β) : Prop :=
  intent ≠ .twice → ∀ key, insertedKey call = some key → intent = .misses key

theorem Intent.allowed_of_silent (intent : Intent) {β : Type} {call : ServerCall β}
    (silent : insertedKey call = none) : intent.allowed call := by
  intro _ key inserts
  cases silent.symm.trans inserts

/-- Before it has called anything. -/
def Request.intent : Request → Intent
  | .post _ _ _ | .newUser _ => .looks
  | _ => .plain

/-- A worker handles any request in any session. -/
def handlers (t : Transport) (p : Server (Worker × CommError)) (intent : Intent) : Prop :=
  ∃ worker request err, p = serverResponder t worker request err ∧ intent = request.intent

abbrev Workers : Type 1 := Processes ServerCall Fault (Worker × CommError) World Intent Nat

abbrev WorkersAct : Type 1 := ProcessesAct ServerCall Fault (Worker × CommError) Intent Nat

/-- Workers of which none handles a request. -/
def Workers.start (world : World) : Workers := ⟨world, fun _ => none, fun _ => .plain⟩

abbrev Workers.step (t : Transport) (beyond : Bytes) : Workers → WorkersAct → Workers → Prop :=
  Processes.Step (World.executes beyond) Intent.note .plain (handlers t)

/-- No row has the path of a post under another alias. -/
def World.OneAlias (world : World) : ServerEvent → Prop
  | ⟨.askForFileToDb fileAlias user, _⟩ =>
    ∀ row ∈ world.files, row.path = postPath fileAlias user → row.fileAlias = fileAlias.bytes
  | _ => True

/-- Every statement reads as its template, and one process handles a request.  A handler finds a
key missing only when no other handler misses the same key without having inserted it, and a path
only when no row has it under another alias. -/
def keysApart (s : Workers) : WorkersAct → Prop
  | .call i event =>
    ((∀ call ∈ sqlCall event, call.Intact) ∧ ¬ goesOnTwice event) ∧
      (s.notes i ≠ .plain → ∀ key, missingKey event = some key →
        (∀ j, j ≠ i → s.notes j ≠ .misses key) ∧ s.shared.OneAlias event)
  | _ => True

/-! ## Each handler -/

section Handlers

variable {t : Transport} {worker : Worker} {err : CommError}

theorem keepsNotes_serverResponder (request : Request) :
    Processes.KeepsNotes Intent.note Intent.allowed (serverResponder t worker request err)
      request.intent := by
  obtain ⟨user, closed⟩ := worker
  cases request with
  | newUser newUser =>
      cases user with
      | none => exact ⟨Intent.allowed_of_silent _ rfl, fun _ _ _ => trivial⟩
      | some session =>
          simp only [serverResponder, processNewUserCmd, checkUserLogged, pure_bind, sendData,
            perform_bind]
          split_ifs with plain
          · exact ⟨Intent.allowed_of_silent _ rfl, fun _ _ _ => trivial⟩
          · refine ⟨Intent.allowed_of_silent _ rfl, ?_⟩
            intro found _ same
            subst same
            cases found with
            | true => exact ⟨Intent.allowed_of_silent _ rfl, fun _ _ _ => trivial⟩
            | false =>
                refine ⟨Intent.allowed_of_silent _ rfl, ?_⟩
                intro comesBack _ same
                subst same
                have missed : Intent.allowed (.misses (.user newUser.username.bytes))
                    (.newUserInDb newUser) := by
                  intro _ _ given
                  cases given
                  rfl
                have either {β : Type} {call : ServerCall β} : Intent.allowed .twice call :=
                  fun no => absurd rfl no
                cases comesBack with
                | false =>
                    exact ⟨missed, fun _ _ _ => ⟨Intent.allowed_of_silent _ rfl,
                      fun _ _ _ => trivial⟩⟩
                | true =>
                    refine ⟨either, ?_⟩
                    rintro _ _ rfl
                    refine ⟨either, ?_⟩
                    rintro _ _ rfl
                    refine ⟨either, ?_⟩
                    rintro _ _ rfl
                    exact ⟨either, fun _ _ _ => trivial⟩
  | post data dest size =>
      cases user with
      | none => exact ⟨Intent.allowed_of_silent _ rfl, fun _ _ _ => trivial⟩
      | some session =>
          simp only [serverResponder, processPostCmd, checkUserLogged, pure_bind, sendData,
            perform_bind]
          refine ⟨Intent.allowed_of_silent _ rfl, ?_⟩
          intro found _ same
          subst same
          cases found with
          | some row => exact ⟨Intent.allowed_of_silent _ rfl, fun _ _ _ => trivial⟩
          | none =>
              refine ⟨?_, ?_⟩
              · intro _ _ given
                cases given
                rfl
              · intro inserted _ _
                cases decodeToRawData data.bytes with
                | error e => exact trivial
                | ok block =>
                    exact ⟨Intent.allowed_of_silent _ rfl, fun _ _ _ =>
                      ⟨Intent.allowed_of_silent _ rfl, fun _ _ _ => trivial⟩⟩
  | int i =>
      rw [serverResponder]
      split_ifs
      · exact ⟨Intent.allowed_of_silent _ rfl, fun _ _ _ => trivial⟩
      · trivial
  | string str =>
      rw [serverResponder]
      split_ifs
      · trivial
      · exact ⟨Intent.allowed_of_silent _ rfl, fun _ _ _ => trivial⟩
  | double d => exact ⟨Intent.allowed_of_silent _ rfl, fun _ _ _ => trivial⟩
  | close | other kind => trivial
  | get path =>
      cases user with
      | none => exact ⟨Intent.allowed_of_silent _ rfl, fun _ _ _ => trivial⟩
      | some session =>
          refine ⟨Intent.allowed_of_silent _ rfl, ?_⟩
          rintro found _ -
          cases found with
          | none => exact ⟨Intent.allowed_of_silent _ rfl, fun _ _ _ => trivial⟩
          | some row =>
              refine ⟨Intent.allowed_of_silent _ rfl, ?_⟩
              rintro opened _ -
              cases opened with
              | none => trivial
              | some contents => exact ⟨Intent.allowed_of_silent _ rfl, fun _ _ _ => trivial⟩
  | login username password =>
      cases user with
      | some session => exact ⟨Intent.allowed_of_silent _ rfl, fun _ _ _ => trivial⟩
      | none =>
          refine ⟨Intent.allowed_of_silent _ rfl, ?_⟩
          rintro found _ -
          cases found with
          | none => exact ⟨Intent.allowed_of_silent _ rfl, fun _ _ _ => trivial⟩
          | some session => exact ⟨Intent.allowed_of_silent _ rfl, fun _ _ _ => trivial⟩
  | logout =>
      cases user with
      | none => exact ⟨Intent.allowed_of_silent _ rfl, fun _ _ _ => trivial⟩
      | some session => exact ⟨Intent.allowed_of_silent _ rfl, fun _ _ _ => trivial⟩
  | changePass pass =>
      cases user with
      | none => exact ⟨Intent.allowed_of_silent _ rfl, fun _ _ _ => trivial⟩
      | some session =>
          exact ⟨Intent.allowed_of_silent _ rfl, fun _ _ _ =>
            ⟨Intent.allowed_of_silent _ rfl, fun _ _ _ => trivial⟩⟩

end Handlers

/-! ## One statement -/

section Statements

variable {beyond : Bytes} {world : World} {event : ServerEvent} {key : Key}

/-- A key that a select does not find is not there. -/
theorem absent_of_missingKey (answers : world.Answers event) (misses : missingKey event = some key)
    (oneAlias : world.OneAlias event) : key.absent world := by
  obtain ⟨call, answer⟩ := event
  cases call with
  | userInDb username =>
      cases answer with
      | true => cases misses
      | false =>
          cases misses
          intro row member same
          exact absurd (answers.mpr ⟨row, member, same⟩) (by decide)
  | askForFileToDb fileAlias user =>
      cases answer with
      | some path => cases misses
      | none =>
          cases misses
          intro row member same
          have matching : row ∈ world.matching fileAlias user.home := by
            refine List.mem_filter.mpr ⟨member, ?_⟩
            rw [decide_eq_true_eq]
            refine ⟨oneAlias row member same, ?_⟩
            rw [same, postPath]
            exact like_below _ _
          rw [answers.mp rfl] at matching
          cases matching
  | insertAliasInDb | userIdentificationInDb | newUserInDb | updatePassInDb | createUserFolder
  | rawDataFromFile | fileFromRawData | sendInt | sendDouble | sendString | sendData =>
      cases misses

/-- A select inserts nothing. -/
theorem insertedKey_of_missingKey (misses : missingKey event = some key) :
    insertedKey event.call = none := by
  obtain ⟨call, answer⟩ := event
  cases call with
  | newUserInDb | insertAliasInDb => cases misses
  | _ => rfl

/-- A statement brings no key but the one it inserts. -/
theorem absent_after (absent : key.absent world) (other : insertedKey event.call ≠ some key) :
    key.absent (world.after beyond event) := by
  obtain ⟨call, answer⟩ := event
  cases call with
  | insertAliasInDb fileAlias user =>
      cases key with
      | user name => exact absent
      | file path =>
          intro row member
          rcases List.mem_append.mp member with before | last
          · exact absent row before
          · rw [List.mem_singleton.mp last]
            exact fun same => other (congrArg (some ∘ Key.file) same)
  | newUserInDb user =>
      cases key with
      | user name =>
          intro row member
          rcases List.mem_append.mp member with before | last
          · exact absent row before
          · rw [List.mem_singleton.mp last]
            exact fun same => other (congrArg (some ∘ Key.user) same)
      | file path => exact absent
  | updatePassInDb user newPass =>
      cases key with
      | user name =>
          intro row member
          obtain ⟨old, before, rfl⟩ := List.mem_map.mp member
          split_ifs
          · exact absent old before
          · exact absent old before
      | file path => exact absent
  | askForFileToDb | userIdentificationInDb | userInDb | createUserFolder | rawDataFromFile
  | fileFromRawData | sendInt | sendDouble | sendString | sendData =>
      cases key <;> exact absent

/-- A statement that inserts a key that is not there keeps the rows apart. -/
theorem unique_after (unique : world.Unique)
    (absent : ∀ key, insertedKey event.call = some key → key.absent world) :
    (world.after beyond event).Unique := by
  obtain ⟨call, answer⟩ := event
  cases call with
  | insertAliasInDb fileAlias user =>
      refine ⟨unique.users, ?_⟩
      have new : postPath fileAlias user ∉ world.files.map FileRow.path := by
        intro member
        obtain ⟨row, there, same⟩ := List.mem_map.mp member
        exact absent _ rfl row there same
      have rows := List.nodup_append.mpr ⟨unique.files, List.nodup_singleton _, fun path there other
        last => ne_of_mem_of_not_mem there (List.mem_singleton.mp last ▸ new)⟩
      simpa [World.after, postPath, aliasRow] using rows
  | newUserInDb user =>
      refine ⟨?_, unique.files⟩
      have new : user.username.bytes ∉ world.users.map UserRow.username := by
        intro member
        obtain ⟨row, there, same⟩ := List.mem_map.mp member
        exact absent _ rfl row there same
      have rows := List.nodup_append.mpr ⟨unique.users, List.nodup_singleton _, fun name there other
        last => ne_of_mem_of_not_mem there (List.mem_singleton.mp last ▸ new)⟩
      simpa [World.after] using rows
  | updatePassInDb user newPass =>
      refine ⟨?_, unique.files⟩
      have names : (world.users.map fun row =>
          if row.userId = user.id then { row with password := newPass.bytes } else row).map
            UserRow.username = world.users.map UserRow.username := by
        rw [List.map_map]
        refine List.map_congr_left fun row _ => ?_
        dsimp only [Function.comp_apply]
        split_ifs <;> rfl
      change ((world.users.map _).map UserRow.username).Nodup
      rw [names]
      exact unique.users
  | askForFileToDb | userIdentificationInDb | userInDb | createUserFolder | rawDataFromFile
  | fileFromRawData | sendInt | sendDouble | sendString | sendData =>
      exact ⟨unique.users, unique.files⟩

/-- Where a missed key comes from. -/
theorem misses_of_note {intent : Intent} (noted : intent.note event = .misses key) :
    (intent ≠ .plain ∧ missingKey event = some key) ∨
      (intent = .misses key ∧ insertedKey event.call = none) := by
  unfold Intent.note at noted
  split at noted
  · cases noted
  · cases noted
  · rename_i looks _
    split at noted
    · cases noted
    · split at noted
      · rename_i missed isMissing
        cases noted
        exact .inl ⟨looks, isMissing⟩
      · split_ifs at noted with inserts
        exact .inr ⟨noted, Option.not_isSome_iff_eq_none.mp inserts⟩

/-- Where two processes come from. -/
theorem twice_of_note {intent : Intent} (noted : intent.note event = .twice) :
    intent = .twice ∨ goesOnTwice event := by
  unfold Intent.note at noted
  split at noted
  · cases noted
  · exact .inl rfl
  · split at noted
    · rename_i twice
      exact .inr twice
    · split at noted
      · cases noted
      · split_ifs at noted
        exact .inl noted

end Statements

/-! ## All workers -/

/-- The rows are apart, a missed key is not there, only one handler misses it, and none is two
processes. -/
structure Registered (s : Workers) : Prop where
  unique : s.shared.Unique
  contracted : Processes.Contracted Intent.note Intent.allowed s
  absent : ∀ i key, s.notes i = .misses key → key.absent s.shared
  one : ∀ i j key, s.notes i = .misses key → s.notes j = .misses key → i = j
  single : ∀ i, s.notes i ≠ .twice

section Workers

variable {t : Transport} {beyond : Bytes} {s s' : Workers}

theorem keepsNotes_of_handlers {p : Server (Worker × CommError)} {intent : Intent}
    (handles : handlers t p intent) :
    Processes.KeepsNotes Intent.note Intent.allowed p intent := by
  obtain ⟨worker, request, err, rfl, rfl⟩ := handles
  exact keepsNotes_serverResponder request

/-- A handler that begins or is stopped misses nothing. -/
theorem notes_update {intent noted : Intent} {i j : Nat} (quiet : intent ≠ noted)
    (notes : Function.update s.notes i intent j = noted) : s.notes j = noted := by
  by_cases same : j = i
  · rw [same, Function.update_self] at notes
    exact absurd notes quiet
  · rwa [Function.update_of_ne same] at notes

theorem Registered.call {i : Nat} {event : ServerEvent} (registered : Registered s)
    (allowed : keysApart s (.call i event)) (taken : Workers.step t beyond s (.call i event) s') :
    Registered s' := by
  have inserts := registered.contracted.allowed_call taken
  have contracted := registered.contracted.step (fun _ _ => keepsNotes_of_handlers) taken
  obtain ⟨⟨intact, stays⟩, alone⟩ := allowed
  cases taken with
  | @call _ β c b next shared runs executes =>
      obtain ⟨answers, effect⟩ : s.shared.Answers ⟨c, b⟩ ∧
          (shared = s.shared ∨ shared = s.shared.after beyond ⟨c, b⟩) := by
        rcases executes with regular | ⟨call, isCall, broken⟩
        · exact regular
        · exact absurd (intact call isCall) broken
      -- what is inserted is missed by this handler and no other
      have owned : ∀ key, insertedKey c = some key → ∀ j, s.notes j = .misses key → j = i :=
        fun key inserted j misses =>
          registered.one j i key misses (inserts (registered.single i) key inserted)
      have still : ∀ key, key.absent s.shared → insertedKey c ≠ some key → key.absent shared := by
        intro key absent other
        rcases effect with rfl | rfl
        · exact absent
        · exact absent_after absent other
      have unique : shared.Unique := by
        rcases effect with rfl | rfl
        · exact registered.unique
        · exact unique_after registered.unique fun key inserted =>
            registered.absent i key (inserts (registered.single i) key inserted)
      -- a handler that misses a key now has just looked, or missed it before
      have missed : ∀ j key, Function.update s.notes i ((s.notes i).note ⟨c, b⟩) j = .misses key →
          (j = i ∧ missingKey ⟨c, b⟩ = some key ∧ (∀ k, k ≠ i → s.notes k ≠ .misses key) ∧
            key.absent s.shared ∧ insertedKey c ≠ some key) ∨
          (s.notes j = .misses key ∧ insertedKey c ≠ some key) := by
        intro j key misses
        by_cases same : j = i
        · subst same
          rw [Function.update_self] at misses
          rcases misses_of_note misses with ⟨looks, isMissing⟩ | ⟨before, inserted⟩
          · obtain ⟨others, oneAlias⟩ := alone looks key isMissing
            have reads : insertedKey c = none := insertedKey_of_missingKey isMissing
            exact .inl ⟨rfl, isMissing, others, absent_of_missingKey answers isMissing oneAlias,
              by simp [reads]⟩
          · have reads : insertedKey c = none := inserted
            exact .inr ⟨before, by simp [reads]⟩
        · rw [Function.update_of_ne same] at misses
          exact .inr ⟨misses, fun inserted => same (owned key inserted j misses)⟩
      refine ⟨unique, contracted, ?_, ?_, ?_⟩
      · intro j key misses
        rcases missed j key misses with ⟨-, -, -, absent, other⟩ | ⟨before, other⟩
        · exact still key absent other
        · exact still key (registered.absent j key before) other
      · intro j k key misses misses'
        rcases missed j key misses with ⟨rfl, -, others, -⟩ | ⟨before, -⟩
        · rcases missed k key misses' with ⟨rfl, -⟩ | ⟨before', -⟩
          · rfl
          · by_contra different
            exact others k (Ne.symm different) before'
        · rcases missed k key misses' with ⟨rfl, -, others, -⟩ | ⟨before', -⟩
          · by_contra different
            exact others j different before
          · exact registered.one j k key before before'
      · intro j twice
        change Function.update s.notes i _ j = _ at twice
        by_cases same : j = i
        · subst same
          rw [Function.update_self] at twice
          exact (twice_of_note twice).elim (registered.single j) stays
        · rw [Function.update_of_ne same] at twice
          exact registered.single j twice

theorem Registered.step {act : WorkersAct} (registered : Registered s) (allowed : keysApart s act)
    (taken : Workers.step t beyond s act s') : Registered s' := by
  cases act with
  | call i event => exact registered.call allowed taken
  | start i p intent =>
      have contracted := registered.contracted.step (fun _ _ => keepsNotes_of_handlers) taken
      cases taken with
      | start free handles =>
          have quiet : (∀ key, intent ≠ .misses key) ∧ intent ≠ .twice := by
            obtain ⟨worker, request, err, -, rfl⟩ := handles
            cases request <;> simp [Request.intent]
          exact ⟨registered.unique, contracted,
            fun j key misses => registered.absent j key (notes_update (quiet.1 key) misses),
            fun j k key misses misses' => registered.one j k key
              (notes_update (quiet.1 key) misses) (notes_update (quiet.1 key) misses'),
            fun j twice => registered.single j (notes_update quiet.2 twice)⟩
  | stop i =>
      have contracted := registered.contracted.step (fun _ _ => keepsNotes_of_handlers) taken
      have quiet : ∀ key, Intent.plain ≠ .misses key := by simp
      cases taken with
      | stop =>
          exact ⟨registered.unique, contracted,
            fun j key misses => registered.absent j key (notes_update (quiet key) misses),
            fun j k key misses misses' => registered.one j k key
              (notes_update (quiet key) misses) (notes_update (quiet key) misses'),
            fun j twice => registered.single j (notes_update (by simp) twice)⟩

end Workers

/-- If no handler looks for a key that another has missed and not inserted yet, no path is
looked for that has a row under another alias, every statement reads as its template and no
handler becomes two processes, then the rows stay apart. -/
theorem unique_of_run {t : Transport} {beyond : Bytes} {world : World} {acts : List WorkersAct}
    {s : Workers} (unique : world.Unique)
    (run : Run (Workers.step t beyond) keysApart (.start world) acts s) : s.shared.Unique := by
  have registered : Registered s := by
    refine run.invariant ⟨unique, nofun, nofun, nofun, nofun⟩ ?_
    exact fun registered allowed taken => registered.step allowed taken
  exact registered.unique

/-! ## Two registrations -/

def root : FsUser := ⟨⟨ascii "root", by decide⟩, ⟨ascii "/fs/root", by decide⟩, 1, 1⟩

def newcomer (name : CString) : User := ⟨name, ⟨ascii "p", nulFree_p⟩, 0⟩

/-- `newuser name no p` of an administrator. -/
def registering (name : CString) : Server (Worker × CommError) :=
  serverResponder .fifo ⟨some root, false⟩ (.newUser (newcomer name)) ⟨0, []⟩

def toInsert (name : CString) : Server (Worker × CommError) :=
  registerUser .fifo (newcomer name) >>= fun err => pure (⟨some root, false⟩, err)

/-- What is left of it behind the select. -/
def toMake (name : CString) : Server (Worker × CommError) :=
  .call (.createUserFolder name) fun comesBack =>
    if comesBack then registerUser .fifo (newcomer name) >>= fun _ => toInsert name
    else toInsert name

theorem registering_eq (name : CString) : ∃ next, registering name = .call (.userInDb name) next ∧
    next false = toMake name := by
  refine ⟨_, rfl, congrArg (Program.call _) (funext fun comesBack => ?_)⟩
  cases comesBack <;> rfl

def emptyWorld : World := ⟨[], 0, [], [], []⟩

/-- The statements of one registration that finds nothing, by worker `i`. -/
def looks (i : Nat) (name : CString) : WorkersAct := .call i ⟨.userInDb name, false⟩

def makes (i : Nat) (name : CString) : List WorkersAct :=
  [.call i ⟨.createUserFolder name, false⟩, .call i ⟨.newUserInDb (newcomer name), 0⟩]

theorem step_starts {s : Workers} {i : Nat} (name : CString) (free : s.running i = none) :
    ∃ s', Workers.step .fifo [] s (.start i (registering name) .looks) s' ∧
      s'.shared = s.shared ∧ s'.running i = some (registering name) ∧
        s'.notes = Function.update s.notes i .looks ∧ ∀ j, j ≠ i → s'.running j = s.running j :=
  ⟨_, .start free ⟨_, _, _, rfl, rfl⟩, rfl, Function.update_self .., rfl, fun _ other =>
    Function.update_of_ne other ..⟩

theorem step_looks {s : Workers} {i : Nat} {name : CString}
    (runs : s.running i = some (registering name)) (nobody : s.shared.users = []) :
    ∃ s', Workers.step .fifo [] s (looks i name) s' ∧ s'.shared = s.shared ∧
      s'.running i = some (toMake name) ∧
        s'.notes = Function.update s.notes i ((s.notes i).note ⟨.userInDb name, false⟩) ∧
          ∀ j, j ≠ i → s'.running j = s.running j := by
  obtain ⟨next, first, rest⟩ := registering_eq name
  have answers : s.shared.Answers ⟨.userInDb name, false⟩ := by
    apply iff_of_false (by decide)
    rw [nobody]
    simp
  refine ⟨_, .call (runs.trans (congrArg some first)) (.inl ⟨answers, .inl rfl⟩), rfl, ?_, rfl, ?_⟩
  · exact (Function.update_self ..).trans (congrArg some rest)
  · exact fun _ other => Function.update_of_ne other ..

theorem run_makes {guard : Workers → WorkersAct → Prop} {s : Workers} {i : Nat} {name : CString}
    (runs : s.running i = some (toMake name)) (free : ∀ act ∈ makes i name, ∀ s, guard s act) :
    ∃ s', Run (Workers.step .fifo []) guard s (makes i name) s' ∧
      s'.shared.users.map UserRow.username = s.shared.users.map UserRow.username ++ [name.bytes] ∧
        ∀ j, j ≠ i → s'.running j = s.running j := by
  have inserting : Function.update s.running i (some (toInsert name)) i = some (toInsert name) :=
    Function.update_self ..
  refine ⟨_, run_cons.mpr ⟨_, free _ (.head _) _, .call runs (.inl ⟨trivial, .inr rfl⟩),
    .one (free _ (.tail _ (.head _)) _) (.call inserting (.inl ⟨trivial, .inr rfl⟩))⟩, ?_, ?_⟩
  · exact List.map_append
  · intro j other
    exact (Function.update_of_ne other ..).trans (Function.update_of_ne other ..)

theorem unique_emptyWorld : emptyWorld.Unique := ⟨.nil, .nil⟩

/-- Two workers look, each for its name, before either inserts. -/
theorem run_registrations {guard : Workers → WorkersAct → Prop} {first second : CString}
    (begins : ∀ s i p intent, guard s (.start i p intent))
    (looks₀ : ∀ s, (∀ j key, s.notes j ≠ .misses key) → guard s (looks 0 first))
    (looks₁ : ∀ s, (∀ j key, s.notes j = .misses key → key = .user first.bytes) →
      guard s (looks 1 second))
    (makes₀ : ∀ act ∈ makes 0 first, ∀ s, guard s act)
    (makes₁ : ∀ act ∈ makes 1 second, ∀ s, guard s act) :
    ∃ acts s, Run (Workers.step .fifo []) guard (.start emptyWorld) acts s ∧
      s.shared.users.map UserRow.username = [first.bytes, second.bytes] := by
  obtain ⟨s1, start0, shared1, runs1, notes1, others1⟩ :=
    @step_starts (.start emptyWorld) 0 first rfl
  obtain ⟨s2, start1, shared2, runs2, notes2, others2⟩ :=
    @step_starts s1 1 second (others1 1 (by decide))
  have runs2' := (others2 0 (by decide)).trans runs1
  obtain ⟨s3, looked0, shared3, runs3, notes3, others3⟩ :=
    step_looks runs2' (by rw [shared2, shared1]; rfl)
  have runs3' := (others3 1 (by decide)).trans runs2
  obtain ⟨s4, looked1, shared4, runs4, notes4, others4⟩ :=
    step_looks runs3' (by rw [shared3, shared2, shared1]; rfl)
  have runs4' := (others4 0 (by decide)).trans runs3
  obtain ⟨s5, made0, users5, others5⟩ := run_makes runs4' makes₀
  have runs5 := (others5 1 (by decide)).trans runs4
  obtain ⟨s6, made1, users6, -⟩ := run_makes runs5 makes₁
  have users : s6.shared.users.map UserRow.username = [first.bytes, second.bytes] := by
    rw [users6, users5, shared4, shared3, shared2, shared1]
    rfl
  have none2 (j : Nat) (key : Key) : s2.notes j ≠ .misses key := by
    rw [notes2, notes1]
    rcases j with _ | _ | j <;> simp [Function.update, Workers.start]
  have one3 (j : Nat) (key : Key) (misses : s3.notes j = .misses key) :
      key = .user first.bytes := by
    rw [notes3] at misses
    by_cases zero : j = 0
    · rw [zero, Function.update_self] at misses
      rcases misses_of_note misses with ⟨-, missing⟩ | ⟨before, -⟩
      · exact (Option.some.inj missing).symm
      · exact absurd before (none2 0 key)
    · rw [Function.update_of_ne zero] at misses
      exact absurd misses (none2 j key)
  exact ⟨_, s6, run_cons.mpr ⟨s1, begins .., start0, run_cons.mpr ⟨s2, begins .., start1,
    run_cons.mpr ⟨s3, looks₀ s2 none2, looked0, run_cons.mpr ⟨s4, looks₁ s3 one3, looked1,
      made0.append made1⟩⟩⟩⟩, users⟩

def nameX : CString := ⟨ascii "x", nulFree_x⟩

theorem nulFree_y : 0 ∉ ascii "y" := by decide

def nameY : CString := ⟨ascii "y", nulFree_y⟩

/-- Two registrations side by side, of two names. -/
theorem unique_of_run_newUser : ∃ s : Workers, s.shared.Unique ∧
    s.shared.users.map UserRow.username = [ascii "x", ascii "y"] := by
  have makes {i : Nat} {name : CString} (intact : (SqlCall.newUserInDb (newcomer name)).Intact) :
      ∀ act ∈ makes i name, ∀ s, keysApart s act := by
    intro act member s
    rcases List.mem_cons.mp member with rfl | last
    · exact ⟨⟨nofun, Bool.false_ne_true⟩, fun _ _ => nofun⟩
    · rw [List.mem_singleton.mp last]
      refine ⟨⟨?_, not_false⟩, fun _ _ => nofun⟩
      rintro _ ⟨⟩
      exact intact
  have look {s : Workers} {i : Nat} {name : CString} (intact : (SqlCall.userInDb name).Intact)
      (alone : ∀ j, j ≠ i → s.notes j ≠ .misses (.user name.bytes)) :
      keysApart s (looks i name) := by
    refine ⟨⟨?_, not_false⟩, ?_⟩
    · rintro _ ⟨⟩
      exact intact
    · rintro - key ⟨⟩
      exact ⟨alone, trivial⟩
  obtain ⟨acts, s, run, users⟩ := @run_registrations keysApart nameX nameY (fun _ _ _ _ => trivial)
    (fun s none => look (by decide +kernel) fun j _ => none j _)
    (fun s one => look (by decide +kernel) fun j _ misses =>
      absurd (one j _ misses) (by decide))
    (makes (by decide +kernel)) (makes (by decide +kernel))
  exact ⟨s, unique_of_run unique_emptyWorld run, users⟩

/-- Both look before either inserts, for one name. -/
theorem registered_twice : emptyWorld.Unique ∧ ∃ acts s,
    Run (Workers.step .fifo []) unguarded (.start emptyWorld) acts s ∧
      s.shared.users.map UserRow.username = [ascii "x", ascii "x"] ∧ ¬ s.shared.Unique := by
  obtain ⟨acts, s, run, users⟩ := @run_registrations unguarded nameX nameX
    (fun _ _ _ _ => trivial) (fun _ _ => trivial) (fun _ _ => trivial) (fun _ _ _ => trivial)
    (fun _ _ _ => trivial)
  refine ⟨unique_emptyWorld, acts, s, run, users, fun unique => ?_⟩
  have apart := unique.users
  rw [users] at apart
  simp [nameX] at apart

end IpcFtp
