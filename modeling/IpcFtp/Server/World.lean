import IpcFtp.Server.Responder

/-!
# Database and files

The tables and files that the calls of the handlers change.  Whether a statement, a
`mkdir` or a write succeeds is an outcome of its own (`held`): nothing in the answers of
the calls tells, since the helpers' results do not depend on it.
-/

namespace IpcFtp

open Lib Program

/-- A row of `users`; the column `cwd` is never read. -/
structure UserRow : Type where
  userId : Int
  username : Bytes
  password : Bytes
  home : Bytes
  isAdmin : Int
  deriving DecidableEq

/-- A row of `files`. -/
structure FileRow : Type where
  fileAlias : Bytes
  path : Bytes
  owner : Int
  deriving DecidableEq

/-- Tables, folders made by `mkdir`, and file contents by path, the latest write first. -/
structure World : Type where
  users : List UserRow
  /-- what `sqlite_sequence` holds for `users`: rows that are gone count -/
  lastUserId : Int
  files : List FileRow
  folders : List Bytes
  disk : List (Bytes × Bytes)
  deriving DecidableEq

/-- The key `autoincrement` takes next. -/
def World.nextUserId (world : World) : Int :=
  (world.users.map UserRow.userId).foldr max world.lastUserId + 1

/-- The row `insert_alias_in_db` is for. -/
def aliasRow (fileAlias : CString) (user : FsUser) : FileRow :=
  ⟨fileAlias.bytes, user.home.bytes ++ ascii "/" ++ fileAlias.bytes, 2⟩

/-- What a call changes when it succeeds.  `fwrite` takes as many bytes as it is told;
`beyond` is what the memory holds behind the block of the decoded data. -/
def World.after (beyond : Bytes) (world : World) : ServerEvent → World
  | ⟨.insertAliasInDb fileAlias user, _⟩ =>
    { world with files := world.files ++ [aliasRow fileAlias user] }
  | ⟨.newUserInDb user, _⟩ =>
    { world with
      users := world.users ++ [⟨world.nextUserId, user.username.bytes, user.password.bytes,
        ascii "/fs/" ++ user.username.bytes, adminFlag user.admin⟩]
      lastUserId := world.nextUserId }
  | ⟨.updatePassInDb user newPass, _⟩ =>
    { world with
      users := world.users.map fun row =>
        if row.userId = user.id then { row with password := newPass.bytes } else row }
  | ⟨.createUserFolder username, _⟩ =>
    { world with folders := (ascii "./fs/" ++ username.bytes) :: world.folders }
  | ⟨.fileFromRawData path data size, _⟩ =>
    { world with disk := (path, (data ++ beyond).take size) :: world.disk }
  | _ => world

/-- A call, its answer, and whether its effect took place. -/
structure Answered : Type 1 where
  event : ServerEvent
  held : Bool

/-- The world behind a call. -/
def World.step (beyond : Bytes) (world : World) (answered : Answered) : World :=
  if answered.held then world.after beyond answered.event else world

/-- The world behind the calls of a handler. -/
def World.afterAll (beyond : Bytes) (world : World) (calls : List Answered) : World :=
  calls.foldl (World.step beyond) world

/-! ## Rows and files only come -/

/-- The row a call inserts into `files`. -/
def insertedRow : ServerEvent → Option FileRow
  | ⟨.insertAliasInDb fileAlias user, _⟩ => some (aliasRow fileAlias user)
  | _ => none

variable {beyond : Bytes} {world : World}

theorem files_after (event : ServerEvent) :
    (world.after beyond event).files = world.files ++ (insertedRow event).toList := by
  obtain ⟨call, answer⟩ := event
  cases call <;> simp [World.after, insertedRow]

/-- A row of `files` was there before or has been inserted. -/
theorem mem_files_afterAll {calls : List Answered} {row : FileRow}
    (member : row ∈ (world.afterAll beyond calls).files) :
    row ∈ world.files ∨ ∃ answered ∈ calls, answered.held = true ∧
      insertedRow answered.event = some row := by
  induction calls generalizing world with
  | nil => exact .inl member
  | cons first calls ih =>
      rcases ih member with before | ⟨answered, inside, held, inserted⟩
      · unfold World.step at before
        split at before
        · rename_i held
          rw [files_after, List.mem_append, Option.mem_toList] at before
          rcases before with old | inserted
          · exact .inl old
          · exact .inr ⟨first, List.mem_cons_self, held, inserted⟩
        · exact .inl before
      · exact .inr ⟨answered, List.mem_cons_of_mem _ inside, held, inserted⟩

theorem disk_subset_afterAll (calls : List Answered) :
    world.disk ⊆ (world.afterAll beyond calls).disk := by
  induction calls generalizing world with
  | nil => exact List.Subset.refl _
  | cons first calls ih =>
      refine List.Subset.trans ?_ ih
      obtain ⟨⟨call, answer⟩, held⟩ := first
      cases held with
      | false => exact List.Subset.refl _
      | true => cases call <;> simp [World.step, World.after]

/-- The file a row of `files` names is on disk. -/
def World.OnDisk (world : World) (row : FileRow) : Prop :=
  ∃ contents, (ascii "." ++ row.path, contents) ∈ world.disk

end IpcFtp
