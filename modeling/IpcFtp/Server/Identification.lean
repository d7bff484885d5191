import IpcFtp.Arguments
import IpcFtp.Serialization
import IpcFtp.Server.SqlHelpers
import IpcFtp.Sqlite.ResultSet

/-!
# The record of a session

`user_identification_in_db` fills the record of a session from the first line of a response.
The columns of the user's row are joined with spaces by `callback` and taken apart again by
`split_arguments`, which is made for command lines: what it does to a home is what it does
to a sentence.
-/

namespace IpcFtp

open Lib

/-- The conversion of an `int` to `boolean`, an `unsigned char`. -/
def toBoolean (i : Int) : Byte := UInt8.ofInt i

/-- The end of `user_identification_in_db`: `none` for `EMPTY_RESPONSE`. -/
def fillUser (username : CString) (response : Bytes) : Except Fault (Option FsUser) :=
  if response = endStr then .ok none
  else
    match splitArguments response with
    | none => .error .nullPointer
    | some (home :: id :: isAdmin :: _) =>
      .ok (some ⟨username, blockString home, toBoolean (atoi isAdmin), atoi id⟩)
    | some _ => .error .outOfBounds

/-- `user_identification_in_db` on the rows its statement selects. -/
def userIdentificationInDb (username : CString) (rows : List ResultRow) :
    Outcome Byte Fault (Option FsUser) :=
  (Reader.run none readResponse (responseBytes rows).1).andThen fun response rest =>
    match fillUser username response with
    | .error e => .fault e
    | .ok filled => .done filled rest

/-- The selected columns of a user's row. -/
def identityRow (home : CString) (userId isAdmin : Int) : ResultRow :=
  [some home, some ⟨decimal userId, nulFree_decimal userId⟩,
    some ⟨decimal isAdmin, nulFree_decimal isAdmin⟩]

/-- The record holds the columns of the row. -/
def Identifies (username home : CString) (userId isAdmin : Int) : Prop :=
  ∃ user rest, userIdentificationInDb username [identityRow home userId isAdmin] =
      .done (some user) rest ∧
    user.home = home ∧ user.id = userId ∧ (user.isAdmin.toNat : Int) = isAdmin

/-- A row that comes through `callback` and `split_arguments`. -/
structure Identifiable (home : CString) (userId isAdmin : Int) : Prop where
  /-- not empty, every double quote has its other, and spaces stand between two such -/
  argument : Argument home.bytes
  oneLine : chr '\n' ∉ home.bytes
  fits : home.bytes.length + (decimal userId).length + (decimal isAdmin).length + 3 <
    maxQueryResponseLength
  id : -2 ^ 31 ≤ userId ∧ userId < 2 ^ 31
  admin : 0 ≤ isAdmin ∧ isAdmin < 256

section Line

variable {home : CString} {userId isAdmin : Int}

theorem decimal_plain (i : Int) :
    chr ' ' ∉ decimal i ∧ chr '"' ∉ decimal i ∧ chr '\n' ∉ decimal i := by
  have other (c : Byte) (sign : c ≠ chr '-') (digit : ¬ isDigit c) : c ∉ decimal i := fun member =>
    (mem_decimal member).elim sign digit
  exact ⟨other _ (by decide) (by decide), other _ (by decide) (by decide),
    other _ (by decide) (by decide)⟩

theorem decimal_ne_nil (i : Int) : decimal i ≠ [] := by
  cases i with
  | ofNat n => exact natDecimal_ne_nil n
  | negSucc n => exact List.cons_ne_nil _ _

theorem argument_decimal (i : Int) : Argument (decimal i) :=
  token_of_plain (decimal_ne_nil i) (decimal_plain i).1 (decimal_plain i).2.1

/-- The row's line; an empty home leaves no trace in it. -/
theorem rowLine_identityRow :
    rowLine (identityRow home userId isAdmin) =
      (if home.bytes = [] then [] else home.bytes ++ [chr ' ']) ++
        (decimal userId ++ chr ' ' :: decimal isAdmin) := by
  have rest : joinedColumns [some ⟨decimal userId, nulFree_decimal userId⟩,
      some ⟨decimal isAdmin, nulFree_decimal isAdmin⟩] =
      decimal userId ++ chr ' ' :: decimal isAdmin := by
    rw [joinedColumns_cons, if_neg (by simp), joinedColumns_cons, if_pos rfl]
    rfl
  unfold identityRow
  rw [rowLine_cons]
  split_ifs with blank none none
  · have number : columnText (some ⟨decimal userId, nulFree_decimal userId⟩) ≠ [] :=
      decimal_ne_nil userId
    rw [rowLine_cons, if_neg number, rest, List.nil_append]
  · exact absurd blank none
  · exact absurd none blank
  · rw [joinedColumns_cons, if_neg (by simp), rest, List.append_assoc]
    rfl

theorem newline_mem_rowLine :
    chr '\n' ∈ rowLine (identityRow home userId isAdmin) ↔ chr '\n' ∈ home.bytes := by
  have id := (decimal_plain userId).2.2
  have admin := (decimal_plain isAdmin).2.2
  have space : chr '\n' ≠ chr ' ' := by decide
  rw [rowLine_identityRow]
  split_ifs with blank
  · simp [id, admin, space, blank]
  · simp [id, admin, space]

theorem getLast?_rowLine :
    (rowLine (identityRow home userId isAdmin)).getLast? ≠ some (chr ' ') := by
  intro last
  rw [rowLine_identityRow, ← List.append_assoc,
    List.append_cons, List.getLast?_append_of_ne_nil _ (decimal_ne_nil isAdmin)] at last
  exact (decimal_plain isAdmin).1 (List.mem_of_getLast? last)

theorem length_rowLine_identityRow (nonempty : home.bytes ≠ []) :
    (rowLine (identityRow home userId isAdmin)).length =
      home.bytes.length + (decimal userId).length + (decimal isAdmin).length + 2 := by
  rw [rowLine_identityRow, if_neg nonempty]
  simp only [List.length_append, List.length_cons, List.length_nil]
  omega

/-- A home that is an argument leaves the row's columns as the arguments of its line. -/
theorem splitArguments_rowLine (argument : Argument home.bytes) :
    splitArguments (rowLine (identityRow home userId isAdmin)) =
      some [home.bytes, decimal userId, decimal isAdmin, []] := by
  have last : Arguments [decimal isAdmin] (chr ' ' :: decimal isAdmin) := by
    have spaced := Spaced.cons 1 (argument_decimal isAdmin) (.inl rfl) (.nil 0)
    rwa [List.append_nil] at spaced
  have middle := Spaced.cons 1 (argument_decimal userId) (.inr rfl) last
  have whole := Spaced.cons 0 argument (.inr rfl) middle
  rw [rowLine_identityRow, if_neg argument.nonempty, List.append_assoc]
  exact splitArguments_of_arguments whole

theorem toNat_toBoolean (i : Int) : ((toBoolean i).toNat : Int) = i % 256 := by
  unfold toBoolean UInt8.ofInt
  rw [UInt8.toNat_ofNat']
  omega

theorem fillUser_eq_some {username : CString} {response : Bytes} {user : FsUser} :
    fillUser username response = .ok (some user) ↔
      response ≠ endStr ∧ ∃ home id admin others,
        splitArguments response = some (home :: id :: admin :: others) ∧
          user = ⟨username, blockString home, toBoolean (atoi admin), atoi id⟩ := by
  unfold fillUser
  split_ifs with ends
  · exact iff_of_false nofun fun filled => filled.1 ends
  · split
    · rename_i null
      refine iff_of_false nofun ?_
      intro given
      obtain ⟨-, home, id, admin, others, vector, -⟩ := given
      rw [null] at vector
      cases vector
    · rename_i home id admin others vector
      rw [Except.ok.injEq, Option.some.injEq]
      constructor
      · intro same
        subst same
        exact ⟨ends, home, id, admin, others, vector, rfl⟩
      · intro given
        obtain ⟨-, home', id', admin', others', vector', rfl⟩ := given
        rw [vector, Option.some.injEq] at vector'
        simp only [List.cons.injEq] at vector'
        obtain ⟨rfl, rfl, rfl, rfl⟩ := vector'
        rfl
    · rename_i vector short made
      refine iff_of_false nofun ?_
      intro given
      obtain ⟨-, home, id, admin, others, made', -⟩ := given
      rw [made, Option.some.injEq] at made'
      exact short home id admin others made'

theorem userIdentificationInDb_eq_done {username : CString} {rows : List ResultRow}
    {filled : Option FsUser} {rest : Bytes} :
    userIdentificationInDb username rows = .done filled rest ↔
      ∃ response, Reader.run none readResponse (responseBytes rows).1 = .done response rest ∧
        fillUser username response = .ok filled := by
  unfold userIdentificationInDb
  cases Reader.run none readResponse (responseBytes rows).1 with
  | blocked => exact iff_of_false (by simp [Outcome.andThen]) (by simp)
  | fault e => exact iff_of_false (by simp [Outcome.andThen]) (by simp)
  | done response others =>
      simp only [Outcome.andThen, Outcome.done.injEq]
      cases fill : fillUser username response with
      | error e =>
          apply iff_of_false (by simp)
          intro given
          obtain ⟨_, ⟨rfl, -⟩, other⟩ := given
          rw [fill] at other
          cases other
      | ok user =>
          rw [Outcome.done.injEq]
          constructor
          · intro given
            obtain ⟨rfl, rfl⟩ := given
            exact ⟨response, ⟨rfl, rfl⟩, fill⟩
          · intro given
            obtain ⟨_, ⟨rfl, rfl⟩, same⟩ := given
            rw [fill, Except.ok.injEq] at same
            exact ⟨same, rfl⟩

/-- A row that does not fit the buffer of `callback` is not written. -/
theorem fits_of_done {row : ResultRow} {response rest : Bytes}
    (read : Reader.run none readResponse (responseBytes [row]).1 = .done response rest) :
    ∀ other ∈ [row], (rowLine other).length + 1 < maxQueryResponseLength := by
  rw [← responseBytes_whole_iff]
  cases line : callback row with
  | error e =>
      rw [responseBytes, line] at read
      cases read
  | ok text =>
      rw [responseBytes, line]
      rfl

end Line

/-- The record of a session holds the columns of its user's row exactly if the home is an
argument on one line, the line fits, and the numbers fit their types. -/
theorem identifies_iff (username home : CString) (userId isAdmin : Int) :
    Identifies username home userId isAdmin ↔ Identifiable home userId isAdmin := by
  constructor
  · intro given
    obtain ⟨user, rest, filled, sameHome, sameId, sameAdmin⟩ := given
    obtain ⟨response, read, filled⟩ := userIdentificationInDb_eq_done.mp filled
    obtain ⟨notEnd, home', id, admin, others, vector, rfl⟩ := fillUser_eq_some.mp filled
    have fits := fits_of_done read
    have first := answer_eq_headD fits read
    rw [headD_resultLines rfl] at first
    have inside : home' ⊆ response := subset_of_mem_splitArguments vector List.mem_cons_self
    have homeText : cstr home' = home.bytes := congrArg CString.bytes sameHome
    have oneLine : chr '\n' ∉ home.bytes := by
      intro newline
      rw [← homeText] at newline
      have read := inside ((List.takeWhile_sublist _).mem newline)
      rw [first] at read
      simpa using List.mem_takeWhile_imp read
    have whole : response = rowLine (identityRow home userId isAdmin) := by
      rw [first, List.takeWhile_eq_self_iff]
      intro c member
      exact decide_eq_true fun hit => oneLine (newline_mem_rowLine.mp (hit ▸ member))
    subst whole
    obtain ⟨tokens, spaced, same⟩ := arguments_of_splitArguments vector getLast?_rowLine
    have argument : Argument home.bytes := by
      have nulFree : 0 ∉ home' := fun nul => nulFree_rowText _ (rowText_eq ▸ inside nul)
      rw [← homeText, cstr_of_nulFree nulFree]
      cases tokens with
      | nil => cases same
      | cons token tokens =>
          obtain ⟨rfl, -⟩ := List.cons.inj same
          exact spaced.token_of_mem List.mem_cons_self
    rw [splitArguments_rowLine argument, Option.some.injEq] at vector
    simp only [List.cons.injEq] at vector
    obtain ⟨-, rfl, rfl, -⟩ := vector
    refine ⟨argument, oneLine, ?_, ?_, ?_⟩
    · have fit := fits _ (List.mem_singleton_self _)
      rw [length_rowLine_identityRow argument.nonempty] at fit
      exact fit
    · rw [← sameId]
      exact atoi_range _
    · dsimp only at sameAdmin
      rw [toNat_toBoolean] at sameAdmin
      omega
  · intro given
    obtain ⟨argument, oneLine, fits, id, admin⟩ := given
    have single : resultLines [identityRow home userId isAdmin] =
        [rowLine (identityRow home userId isAdmin)] := by
      rw [resultLines, List.flatMap_singleton,
        parts_of_not_mem fun newline => oneLine (newline_mem_rowLine.mp newline)]
    have notEnd : endStr ∉ resultLines [identityRow home userId isAdmin] := by
      rw [single, List.mem_singleton, rowLine_identityRow]
      intro ends
      have space : chr ' ' ∈ endStr := ends ▸ by simp
      exact absurd space (by decide)
    have fit : ∀ row ∈ [identityRow home userId isAdmin],
        (rowLine row).length + 1 < maxQueryResponseLength := by
      rw [List.forall_mem_singleton, length_rowLine_identityRow argument.nonempty]
      exact fits
    have few : (resultLines [identityRow home userId isAdmin]).length < maxColumns := by
      rw [single, List.length_singleton]
      decide
    have read := (run_resultLines_iff fit).mpr ⟨notEnd, few, rfl⟩
    rw [single] at read
    refine ⟨_, [], userIdentificationInDb_eq_done.mpr ⟨_, read, fillUser_eq_some.mpr ⟨?_, _, _, _,
      _, splitArguments_rowLine argument, rfl⟩⟩, ?_, ?_, ?_⟩
    · intro ends
      exact notEnd (single ▸ ends ▸ List.mem_singleton_self _)
    · exact blockString_of_nulFree home.nulFree
    · exact atoi_decimal id.1 id.2
    · have small : atoi (decimal isAdmin) = isAdmin := atoi_decimal (by omega) (by omega)
      rw [small, toNat_toBoolean]
      omega

/-- A username with spaces chooses the id and the flag of its session. -/
theorem username_chooses_identity :
    userIdentificationInDb ⟨ascii "ann 1 1", by decide⟩
        [identityRow ⟨ascii "/fs/ann 1 1", by decide⟩ 7 0] =
      .done (some ⟨⟨ascii "ann 1 1", by decide⟩, ⟨ascii "/fs/ann", by decide⟩, 1, 1⟩) [] ∧
    ¬ Identifies ⟨ascii "ann 1 1", by decide⟩ ⟨ascii "/fs/ann 1 1", by decide⟩ 7 0 := by
  have filled : userIdentificationInDb ⟨ascii "ann 1 1", by decide⟩
      [identityRow ⟨ascii "/fs/ann 1 1", by decide⟩ 7 0] =
      .done (some ⟨⟨ascii "ann 1 1", by decide⟩, ⟨ascii "/fs/ann", by decide⟩, 1, 1⟩) [] := by
    decide +kernel
  refine ⟨filled, ?_⟩
  intro given
  obtain ⟨user, rest, other, -, id, -⟩ := given
  rw [filled] at other
  cases other
  exact absurd id (by decide)

end IpcFtp
