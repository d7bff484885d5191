import IpcFtp.Server.Authorization
import IpcFtp.Server.World

/-!
# Success replies and effects

`process_post_cmd`, `process_new_user_cmd` and `process_change_pass_cmd` send their
success reply behind effects whose outcome they do not look at.  A command keeps the
promise of its reply exactly when each effect it gets to takes hold; if all commands do,
every row that a post added has its file.
-/

namespace IpcFtp

open Lib Program

/-- The text of a `send_data`. -/
def replyText : ServerEvent → Option Bytes
  | ⟨.sendData data _, _⟩ => some data
  | _ => none

/-- One of the three success replies was sent. -/
def SuccessSent (calls : List Answered) : Prop :=
  ∃ answered ∈ calls, replyText answered.event ∈
    [some (ascii "File OK"), some (ascii "User registered"), some (ascii "PASSWORD UPDATED")]

/-- Behind a success reply all effects are there, and without one nothing is. -/
def KeepsPromise (beyond : Bytes) (world : World) (calls : List Answered) : Prop :=
  (SuccessSent calls → world.afterAll beyond calls =
    world.afterAll beyond (calls.map fun answered => ⟨answered.event, true⟩)) ∧
  (¬ SuccessSent calls → world.afterAll beyond calls = world)

/-- Each call leaves the world as it does when it succeeds. -/
def AllTakeHold (beyond : Bytes) : World → List Answered → Prop
  | _, [] => True
  | world, answered :: calls =>
    world.step beyond answered = world.after beyond answered.event ∧
      AllTakeHold beyond (world.step beyond answered) calls

/-- Each call leaves the world as it was. -/
def NoneTakesHold (beyond : Bytes) (world : World) (calls : List Answered) : Prop :=
  ∀ answered ∈ calls, world.step beyond answered = world

/-- The data of a post that `decode_to_raw_data` cannot decode. -/
def Request.Undecodable : Request → Prop
  | .post data _ _ => ∃ e, decodeToRawData data.bytes = .error e
  | _ => False

/-- Every effect the command gets to succeeds; if the handler cannot decode the data and
gets no further than its `INSERT`, that fails. -/
def EffectsAgree (beyond : Bytes) (world : World) (request : Request)
    (calls : List Answered) : Prop :=
  (¬ request.Undecodable ∧ AllTakeHold beyond world calls) ∨
    (request.Undecodable ∧ NoneTakesHold beyond world calls)

/-- The three commands that change something. -/
def Request.Changes : Request → Prop
  | .post _ _ _ | .newUser _ | .changePass _ => True
  | _ => False

variable {t : Transport} {beyond : Bytes} {world : World} {worker : Worker} {session : FsUser}
  {request : Request} {err : CommError} {calls : List Answered}
  {result : Except Fault (Worker × CommError)}

/-! ## One command -/

/-- The calls of a trace of known events. -/
theorem calls_cons {event : ServerEvent} {trace : List ServerEvent}
    (split : calls.map Answered.event = event :: trace) :
    ∃ held rest, calls = ⟨event, held⟩ :: rest ∧ rest.map Answered.event = trace := by
  obtain ⟨⟨first, held⟩, rest, rfl, rfl, rfl⟩ := List.map_eq_cons_iff.mp split
  exact ⟨held, rest, rfl, rfl⟩

/-- A trace without effects keeps every promise and agrees. -/
theorem agree_of_quiet (quiet : ∀ answered ∈ calls, ∀ world : World,
    world.after beyond answered.event = world) :
    KeepsPromise beyond world calls ↔ EffectsAgree beyond world request calls := by
  have still : ∀ answered ∈ calls, ∀ world : World, world.step beyond answered = world := by
    intro answered member world
    unfold World.step
    split
    · exact quiet answered member world
    · rfl
  have same (heard : Answered → Answered) (calls : List Answered)
      (still : ∀ answered ∈ calls, ∀ world : World,
        world.step beyond (heard answered) = world) :
      world.afterAll beyond (calls.map heard) = world := by
    induction calls with
    | nil => rfl
    | cons first calls ih =>
        rw [List.map_cons, World.afterAll, List.foldl_cons, still first List.mem_cons_self]
        exact ih fun answered member => still answered (.tail _ member)
  have asIs : world.afterAll beyond calls = world := by simpa using same id calls still
  have allHeld : world.afterAll beyond (calls.map fun answered => ⟨answered.event, true⟩) = world :=
    same _ calls fun answered member world => by simpa [World.step] using quiet answered member world
  have takeHold : AllTakeHold beyond world calls := by
    clear same asIs allHeld
    induction calls with
    | nil => trivial
    | cons first calls ih =>
        have here := still first List.mem_cons_self world
        refine ⟨by rw [here, quiet first List.mem_cons_self], ?_⟩
        rw [here]
        exact ih (fun answered member => quiet answered (.tail _ member))
          fun answered member => still answered (.tail _ member)
  refine iff_of_true ⟨fun _ => asIs.trans allHeld.symm, fun _ => asIs⟩ ?_
  by_cases decodes : request.Undecodable
  · exact .inr ⟨decodes, fun answered member => still answered member world⟩
  · exact .inl ⟨decodes, takeHold⟩

/-- A command keeps the promise of its reply exactly when its effects agree. -/
theorem keepsPromise_iff (logged : worker.user = some session) (kind : request.Changes)
    (runs : Runs (serverResponder t worker request err) (calls.map Answered.event) result) :
    KeepsPromise beyond world calls ↔ EffectsAgree beyond world request calls := by
  obtain ⟨user, closed⟩ := worker
  obtain rfl : user = some session := logged
  obtain ⟨users, lastUserId, files, folders, disk⟩ := world
  cases request with
  | post data dest size =>
      obtain ⟨inner, ran, rfl⟩ := runs_map.mp runs
      clear runs
      rcases runs_processPostCmd ran with ⟨row, shape, rfl⟩ |
        ⟨inserted, ⟨e, failed, shape, rfl⟩ | ⟨block, written, decoded, shape, rfl⟩⟩
      · clear ran
        obtain ⟨_, _, rfl, shape₁⟩ := calls_cons shape
        obtain ⟨_, _, rfl, shape₂⟩ := calls_cons shape₁
        obtain rfl := List.map_eq_nil_iff.mp shape₂
        exact agree_of_quiet (by simp [World.after, reply])
      · clear ran
        obtain ⟨_, _, rfl, shape₁⟩ := calls_cons shape
        obtain ⟨stored, _, rfl, shape₂⟩ := calls_cons shape₁
        obtain rfl := List.map_eq_nil_iff.mp shape₂
        have undecodable : (Request.post data dest size).Undecodable := ⟨e, failed⟩
        cases stored <;>
          simp [KeepsPromise, EffectsAgree, SuccessSent, NoneTakesHold, World.afterAll,
            World.step, World.after, replyText, undecodable]
      · clear ran
        obtain ⟨_, _, rfl, shape₁⟩ := calls_cons shape
        obtain ⟨stored, _, rfl, shape₂⟩ := calls_cons shape₁
        obtain ⟨saved, _, rfl, shape₃⟩ := calls_cons shape₂
        obtain ⟨_, _, rfl, shape₄⟩ := calls_cons shape₃
        obtain rfl := List.map_eq_nil_iff.mp shape₄
        have decodable : ¬ (Request.post data dest size).Undecodable := by
          intro given
          obtain ⟨e, failed⟩ := given
          rw [decoded] at failed
          cases failed
        cases stored <;> cases saved <;>
          simp [KeepsPromise, EffectsAgree, SuccessSent, AllTakeHold, World.afterAll,
            World.step, World.after, reply, replyText, decodable]
  | newUser newUser =>
      obtain ⟨inner, ran, rfl⟩ := runs_map.mp runs
      clear runs
      rcases runs_processNewUserCmd ran with
        ⟨_, shape, rfl⟩ | ⟨admin, ⟨shape, rfl⟩ | ⟨inChild, inserted, shape, rfl⟩⟩
      · clear ran
        obtain ⟨_, _, rfl, shape₁⟩ := calls_cons shape
        obtain rfl := List.map_eq_nil_iff.mp shape₁
        exact agree_of_quiet (by simp [World.after, reply])
      · clear ran
        obtain ⟨_, _, rfl, shape₁⟩ := calls_cons shape
        obtain ⟨_, _, rfl, shape₂⟩ := calls_cons shape₁
        obtain rfl := List.map_eq_nil_iff.mp shape₂
        exact agree_of_quiet (by simp [World.after, reply])
      · clear ran
        obtain ⟨_, _, rfl, shape₁⟩ := calls_cons shape
        obtain ⟨made, _, rfl, shape₂⟩ := calls_cons shape₁
        have decodable : ¬ (Request.newUser newUser).Undecodable := id
        cases inChild with
        | none =>
            obtain ⟨stored, _, rfl, shape₃⟩ := calls_cons shape₂
            obtain ⟨_, _, rfl, shape₄⟩ := calls_cons shape₃
            obtain rfl := List.map_eq_nil_iff.mp shape₄
            cases made <;> cases stored <;>
              simp [KeepsPromise, EffectsAgree, SuccessSent, AllTakeHold, World.afterAll,
                World.step, World.after, reply, replyText, decodable]
        | some first =>
            -- the child inserts and replies before its parent does
            obtain ⟨storedFirst, _, rfl, shape₃⟩ := calls_cons shape₂
            obtain ⟨_, _, rfl, shape₄⟩ := calls_cons shape₃
            obtain ⟨stored, _, rfl, shape₅⟩ := calls_cons shape₄
            obtain ⟨_, _, rfl, shape₆⟩ := calls_cons shape₅
            obtain rfl := List.map_eq_nil_iff.mp shape₆
            cases made <;> cases storedFirst <;> cases stored <;>
              simp [KeepsPromise, EffectsAgree, SuccessSent, AllTakeHold, World.afterAll,
                World.step, World.after, reply, replyText, decodable]
  | changePass pass =>
      obtain ⟨inner, ran, rfl⟩ := runs_map.mp runs
      clear runs
      obtain ⟨shape, rfl⟩ := runs_processChangePassCmd ran
      clear ran
      obtain ⟨stored, _, rfl, shape₁⟩ := calls_cons shape
      obtain ⟨_, _, rfl, shape₂⟩ := calls_cons shape₁
      obtain rfl := List.map_eq_nil_iff.mp shape₂
      have decodable : ¬ (Request.changePass pass).Undecodable := id
      cases stored <;>
        simp [KeepsPromise, EffectsAgree, SuccessSent, AllTakeHold, World.afterAll,
          World.step, World.after, reply, replyText, decodable]
  | int i | double d | string str | get path | login username password | logout | close
  | other kind => exact kind.elim

/-! ## All commands of all workers -/

/-- A row is inserted by a post of a logged-in user only. -/
theorem post_of_insertedRow {trace : List ServerEvent} {event : ServerEvent} {row : FileRow}
    (runs : Runs (serverResponder t worker request err) trace result) (member : event ∈ trace)
    (inserts : insertedRow event = some row) :
    ∃ data dest size session, request = .post data dest size ∧ worker.user = some session := by
  have touches : touchesFiles event = true := by
    obtain ⟨call, answer⟩ := event
    cases call <;> first | rfl | cases inserts
  obtain ⟨session, logged, ⟨path, rfl⟩ | ⟨data, dest, size, rfl⟩⟩ :=
    get_or_post_of_touchesFiles runs member touches
  · obtain ⟨inner, ran, rfl⟩ := runs_map.mp runs
    rw [logged] at ran
    have quiet : ∀ event ∈ trace, insertedRow event = none := by
      rcases runs_processGetCmd ran with
        ⟨rfl, rfl⟩ | ⟨found, ⟨rfl, rfl⟩ | ⟨contents, rfl, rfl⟩⟩
      all_goals simp [insertedRow, reply]
    rw [quiet event member] at inserts
    cases inserts
  · exact ⟨data, dest, size, session, rfl, logged⟩

/-- The row a post inserts has its file when the effects agree. -/
theorem onDisk_of_insertedRow {answered : Answered} {row : FileRow}
    (runs : Runs (serverResponder t worker request err) (calls.map Answered.event) result)
    (agree : EffectsAgree beyond world request calls) (member : answered ∈ calls)
    (held : answered.held = true) (inserts : insertedRow answered.event = some row) :
    (world.afterAll beyond calls).OnDisk row := by
  obtain ⟨data, dest, size, session, rfl, logged⟩ :=
    post_of_insertedRow runs (List.mem_map_of_mem member) inserts
  obtain ⟨user, closed⟩ := worker
  obtain rfl : user = some session := logged
  obtain ⟨users, lastUserId, files, folders, disk⟩ := world
  obtain ⟨inner, ran, rfl⟩ := runs_map.mp runs
  clear runs
  rcases runs_processPostCmd ran with ⟨found, shape, rfl⟩ |
    ⟨inserted, ⟨e, failed, shape, rfl⟩ | ⟨block, written, decoded, shape, rfl⟩⟩
  · -- the file exists and nothing is inserted
    have quiet : ∀ event ∈ calls.map Answered.event, insertedRow event = none := by
      rw [shape]
      simp [insertedRow, reply]
    rw [quiet _ (List.mem_map_of_mem member)] at inserts
    cases inserts
  · -- the data cannot be decoded, so the insertion cannot have taken hold
    rcases agree with ⟨decodable, _⟩ | ⟨_, noneHeld⟩
    · exact absurd ⟨e, failed⟩ decodable
    · have still := congrArg World.files (noneHeld answered member)
      rw [World.step, if_pos held, files_after, inserts] at still
      simp at still
  · clear ran
    obtain ⟨_, _, rfl, shape₁⟩ := calls_cons shape
    obtain ⟨stored, _, rfl, shape₂⟩ := calls_cons shape₁
    obtain ⟨saved, _, rfl, shape₃⟩ := calls_cons shape₂
    obtain ⟨_, _, rfl, shape₄⟩ := calls_cons shape₃
    obtain rfl := List.map_eq_nil_iff.mp shape₄
    have same : row = aliasRow dest session := by
      simp only [List.mem_cons, List.not_mem_nil, or_false] at member
      rcases member with rfl | rfl | rfl | rfl <;> cases inserts
      rfl
    rcases agree with ⟨_, allHold⟩ | ⟨⟨e, failed⟩, _⟩
    · cases saved with
      | false => cases stored <;> simp [AllTakeHold, World.step, World.after] at allHold
      | true =>
          refine ⟨(block ++ beyond).take size, ?_⟩
          cases stored <;>
            simp [same, aliasRow, World.afterAll, World.step, World.after, reply]
    · rw [decoded] at failed
      cases failed

/-- One request handled by some worker, whole. -/
structure Command : Type 1 where
  worker : Worker
  request : Request
  err : CommError
  calls : List Answered
  result : Except Fault (Worker × CommError)

/-- The command is handled and leaves the world so. -/
def performs (t : Transport) (beyond : Bytes) (world : World) (command : Command)
    (world' : World) : Prop :=
  Runs (serverResponder t command.worker command.request command.err)
      (command.calls.map Answered.event) command.result ∧
    world' = world.afterAll beyond command.calls

/-- The effects of the command agree. -/
def agrees (beyond : Bytes) (world : World) (command : Command) : Prop :=
  EffectsAgree beyond world command.request command.calls

/-- The rows of `files` that are not from the start have their files. -/
def PostedOnDisk (start world : World) : Prop :=
  ∀ row ∈ world.files, row ∈ start.files ∨ world.OnDisk row

theorem postedOnDisk_of_performs {start world' : World} {command : Command}
    (posted : PostedOnDisk start world) (agree : agrees beyond world command)
    (taken : performs t beyond world command world') : PostedOnDisk start world' := by
  obtain ⟨runs, rfl⟩ := taken
  intro row member
  rcases mem_files_afterAll member with old | ⟨answered, inside, held, inserts⟩
  · rcases posted row old with first | ⟨contents, stored⟩
    · exact .inl first
    · exact .inr ⟨contents, disk_subset_afterAll _ stored⟩
  · exact .inr (onDisk_of_insertedRow runs agree inside held inserts)

/-- A command of a logged-in user keeps the promise of its reply if and only if its
effects agree, and in a run whose commands all do every posted row has its file. -/
theorem promises_kept (t : Transport) (beyond : Bytes) :
    (∀ (world : World) (command : Command) (session : FsUser),
      command.worker.user = some session → command.request.Changes →
        Runs (serverResponder t command.worker command.request command.err)
          (command.calls.map Answered.event) command.result →
          (KeepsPromise beyond world command.calls ↔ agrees beyond world command)) ∧
      ∀ (start world : World) (commands : List Command),
        Run (performs t beyond) (agrees beyond) start commands world →
          PostedOnDisk start world := by
  refine ⟨fun world command session logged kind runs => keepsPromise_iff logged kind runs, ?_⟩
  intro start world commands run
  exact run.invariant (fun row member => .inl member) postedOnDisk_of_performs

/-- The post of a one-byte file `x` by user `ann`, answered `File OK`; `saved` tells
whether its file could be opened for writing. -/
def postX (saved : Bool) : Command :=
  let ann : FsUser := ⟨⟨ascii "ann", nulFree_ann⟩, ⟨ascii "/fs/ann", nulFree_annHome⟩, 0, 3⟩
  let dest : CString := ⟨ascii "x", nulFree_x⟩
  ⟨⟨some ann, false⟩, .post ⟨ascii "065", nulFree_065⟩ dest 1, ⟨0, []⟩,
    [⟨⟨.askForFileToDb dest ann, none⟩, true⟩, ⟨⟨.insertAliasInDb dest ann, 0⟩, true⟩,
      ⟨⟨.fileFromRawData (ascii "." ++ ann.home.bytes ++ ascii "/" ++ dest.bytes) [65] 1,
        if saved then 0 else 1⟩, saved⟩,
      ⟨reply (ascii "File OK") 7, true⟩],
    .ok (⟨some ann, false⟩, CommError.afterSend ⟨errOk, ascii "OK"⟩ .fifo)⟩

theorem runs_postX (saved : Bool) :
    Runs (serverResponder .fifo (postX saved).worker (postX saved).request (postX saved).err)
      ((postX saved).calls.map Answered.event) (postX saved).result := by
  exact .call (.call (.call (.call (.ret _))))

/-- The world before any post. -/
def World.empty : World := ⟨[], 0, [], [], []⟩

/-- With its file written the post keeps its promise, and its row has its file. -/
theorem promises_kept_postX :
    (KeepsPromise [] .empty (postX true).calls ↔ agrees [] .empty (postX true)) ∧
      PostedOnDisk .empty (World.afterAll [] .empty (postX true).calls) := by
  refine ⟨(promises_kept .fifo []).1 .empty (postX true) _ rfl trivial (runs_postX true), ?_⟩
  refine (promises_kept .fifo []).2 .empty _ [postX true] (.one ?_ ⟨runs_postX true, rfl⟩)
  refine .inl ⟨?_, rfl, rfl, rfl, rfl, trivial⟩
  intro given
  obtain ⟨e, failed⟩ := given
  cases failed

/-- With its file not written it is answered `File OK` all the same, and the row stays. -/
theorem postX_breaks_promise :
    Run (performs .fifo []) unguarded .empty [postX false]
        (World.afterAll [] .empty (postX false).calls) ∧
      SuccessSent (postX false).calls ∧
      ¬ KeepsPromise [] .empty (postX false).calls ∧
      ¬ PostedOnDisk .empty (World.afterAll [] .empty (postX false).calls) := by
  have sent : SuccessSent (postX false).calls :=
    ⟨⟨reply (ascii "File OK") 7, true⟩, by simp [postX], by simp [replyText, reply]⟩
  refine ⟨.one trivial ⟨runs_postX false, rfl⟩, sent, ?_, ?_⟩
  · intro keeps
    have disks := congrArg World.disk (keeps.1 sent)
    simp [postX, World.afterAll, World.step, World.after, World.empty, reply] at disks
  · intro posted
    have row := posted (aliasRow ⟨ascii "x", by decide⟩
      ⟨⟨ascii "ann", by decide⟩, ⟨ascii "/fs/ann", by decide⟩, 0, 3⟩)
      (by simp [postX, World.afterAll, World.step, World.after, World.empty, reply])
    simp [World.OnDisk, postX, World.afterAll, World.step, World.after, World.empty,
      reply] at row

end IpcFtp
