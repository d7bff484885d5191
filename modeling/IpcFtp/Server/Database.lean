import IpcFtp.Lib.Guarded
import IpcFtp.Server.StatementReading
import IpcFtp.Server.World
import IpcFtp.Sqlite.Like
import IpcFtp.Sqlite.Service

/-!
# What the environment answers

A statement that is taken whole and reads as its template does what the helper is for,
or fails.  Any other statement may do anything to the tables and give any answer, but it
touches no file.
-/

namespace IpcFtp

open Lib

/-- The statement fits its buffers, is taken whole by the SQL process and reads as its
template. -/
def SqlCall.Intact (call : SqlCall) : Prop :=
  call.Fits ∧ TakenWhole call.statement ∧
    ∀ segment ∈ call.template, Plain call.columns segment

instance (call : SqlCall) : Decidable call.Intact := inferInstanceAs (Decidable (_ ∧ _ ∧ _))

/-- The statement behind a call of a handler. -/
def sqlCall : ServerEvent → Option SqlCall
  | ⟨.askForFileToDb fileAlias user, _⟩ => some (.askForFileToDb fileAlias user.home)
  | ⟨.insertAliasInDb fileAlias user, _⟩ => some (.insertAliasInDb fileAlias user.home)
  | ⟨.userIdentificationInDb username password, _⟩ =>
    some (.userIdentificationInDb username password)
  | ⟨.userInDb username, _⟩ => some (.userInDb username)
  | ⟨.newUserInDb user, _⟩ => some (.newUserInDb user)
  | ⟨.updatePassInDb user newPass, _⟩ => some (.updatePassInDb user.id newPass)
  | _ => none

/-- A text that comes back as it is from a response line and from `split_arguments`:
no line end, space or double quote, and not empty. -/
def OneToken (text : Bytes) : Prop :=
  text ≠ [] ∧ ∀ c ∈ text, c ≠ chr '\n' ∧ c ≠ chr ' ' ∧ c ≠ chr '"'

instance (text : Bytes) : Decidable (OneToken text) := inferInstanceAs (Decidable (_ ∧ _))

/-- The first line of a response. -/
def firstLine (text : Bytes) : Bytes := text.takeWhile (· ≠ chr '\n')

/-- The files a user's `ask_for_file_to_db` matches. -/
def World.matching (world : World) (fileAlias home : CString) : List FileRow :=
  world.files.filter fun row =>
    row.fileAlias = fileAlias.bytes ∧ like (home.bytes ++ ascii "%") row.path

/-- Answers and effects of a call whose statement is intact; a select that fails looks
like one without rows. -/
def World.Regular (beyond : Bytes) (world : World) (world' : World) : ServerEvent → Prop
  | ⟨.askForFileToDb fileAlias user, answer⟩ => world' = world ∧
    ∀ path ∈ answer, ∃ row ∈ world.matching fileAlias user.home,
      path.bytes = firstLine row.path
  | ⟨.userIdentificationInDb username password, answer⟩ => world' = world ∧
    ∀ filled ∈ answer, filled.name = username ∧ ∃ row ∈ world.users,
      row.username = username.bytes ∧ row.password = password.bytes ∧
        (OneToken row.home → filled.home.bytes = row.home ∧ filled.id = row.userId ∧
          filled.isAdmin.toNat = row.isAdmin % 256)
  | ⟨.userInDb username, answer⟩ => world' = world ∧
    (answer = true → ∃ row ∈ world.users, row.username = username.bytes)
  -- an `execve` that comes back has made nothing
  | ⟨.createUserFolder _, true⟩ => world' = world
  | event => world' = world ∨ world' = world.after beyond event

/-- What a call may answer and do. -/
def World.Leads (beyond : Bytes) (world : World) (event : ServerEvent) (world' : World) :
    Prop :=
  world.Regular beyond world' event ∨
    ∃ call ∈ sqlCall event, ¬ call.Intact ∧ world'.folders = world.folders ∧
      world'.disk = world.disk

end IpcFtp
