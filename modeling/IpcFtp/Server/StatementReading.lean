import IpcFtp.Server.SqlHelpers
import IpcFtp.Sqlite.Reading

/-!
# What the statements of the helpers say

The strings of a request stand between quotes in a statement, and nothing escapes a
quote inside them.  A statement reads as its template exactly when it fits its buffers
and every value in it is plain; then, and only then, identification by name and
password selects no row but the user's.
-/

namespace IpcFtp

open Lib

/-- The columns of `users`, with SQLite's names of the row id. -/
def usersColumns : List Bytes :=
  ["user_id", "username", "password", "cwd", "home", "is_admin", "rowid", "oid",
    "_rowid_"].map ascii

/-- The columns of `files`. -/
def filesColumns : List Bytes :=
  ["file_id", "alias", "path", "owner", "rowid", "oid", "_rowid_"].map ascii

/-- The columns in scope where the values of a statement stand; `VALUES` sees none. -/
def SqlCall.columns : SqlCall → List Bytes
  | .askForFileToDb _ _ => filesColumns
  | .insertAliasInDb _ _ => []
  | .userIdentificationInDb _ _ => usersColumns
  | .userInDb _ => usersColumns
  | .newUserInDb _ => []
  | .updatePassInDb _ _ => usersColumns

/-- The statement is one statement of the helper's template, with every value a string,
and an identification selects only rows with the given name and password. -/
structure SqlCall.ReadsAsIntended (call : SqlCall) : Prop where
  reads : ∃ text, call.text = .ok text ∧
    readSql call.columns text = some (call.template.flatMap intendedTokens)
  identifies : ∀ {username password : CString} {text : Bytes} {row : Row},
    call = .userIdentificationInDb username password → call.text = .ok text →
      selects call.columns text row →
        row (ascii "username") = .text username.bytes ∧
          row (ascii "password") = .text password.bytes

/-! ## Templates -/

theorem noQuote_decimal (i : Int) : ∀ c ∈ decimal i, isSqlQuote c = false := by
  intro c member
  rcases mem_decimal member with rfl | digit
  · decide
  · simp only [isSqlQuote, decide_eq_false_iff_not, not_or]
    constructor <;> rintro rfl <;> exact absurd digit (by decide)

theorem SqlCall.template_shape (call : SqlCall) : Template isSqlQuote call.template := by
  have noQuote {chars : List Char} (plain : chars.all fun c => isSqlQuote (chr c) = false) :
      ∀ c ∈ ascii (String.ofList chars), isSqlQuote c = false := forall_mem_ascii plain
  unfold SqlCall.template
  cases call with
  | askForFileToDb fileAlias home =>
      exact ⟨noQuote (by decide), .hole rfl (noQuote (by decide)) ascii_cons_ne_nil
        (.hole rfl (noQuote (by decide)) ascii_cons_ne_nil trivial)⟩
  | insertAliasInDb fileAlias home =>
      exact ⟨noQuote (by decide), .hole rfl (noQuote (by decide)) ascii_cons_ne_nil
        (.hole rfl (noQuote (by decide)) ascii_cons_ne_nil trivial)⟩
  | userIdentificationInDb username password =>
      exact ⟨noQuote (by decide), .hole rfl (noQuote (by decide)) ascii_cons_ne_nil
        (.hole rfl (noQuote (by decide)) ascii_cons_ne_nil trivial)⟩
  | userInDb username =>
      exact ⟨noQuote (by decide), .hole rfl (noQuote (by decide)) ascii_cons_ne_nil trivial⟩
  | newUserInDb user =>
      exact ⟨noQuote (by decide), .hole rfl (noQuote (by decide)) ascii_cons_ne_nil
        (.hole rfl (noQuote (by decide)) ascii_cons_ne_nil
          (.hole rfl (noQuote (by decide)) ascii_cons_ne_nil
            (.hole rfl (noQuote (by decide)) ascii_cons_ne_nil trivial)))⟩
  | updatePassInDb id newPass =>
      refine ⟨noQuote (by decide), .hole rfl ?_ ?_ trivial⟩
      swap
      · exact List.append_ne_nil_of_right_ne_nil _ ascii_cons_ne_nil
      rw [List.forall_mem_append, List.forall_mem_append]
      exact ⟨⟨noQuote (by decide), noQuote_decimal id⟩, noQuote (by decide)⟩

/-- The words of the condition that identifies a user. -/
theorem parseCondition_userIdentification (username password : CString) :
    parseCondition ((words [] ((SqlCall.userIdentificationInDb username
        password).template.flatMap intendedTokens)).dropWhile
          (· ≠ .name (ascii "WHERE"))).tail =
      some [[(.constant (.int 1), .constant (.int 1)),
        (.column (ascii "username"), .constant (.text username.bytes)),
        (.column (ascii "password"), .constant (.text password.bytes))]] := by
  have select : words [] ((ascii
      "SELECT home,user_id,is_admin FROM users WHERE 1=1 AND username = ").map .char) =
      [.name (ascii "SELECT"), .name (ascii "home"), .symbol (chr ','),
        .name (ascii "user_id"), .symbol (chr ','), .name (ascii "is_admin"),
        .name (ascii "FROM"), .name (ascii "users")] ++ .name (ascii "WHERE") ::
        [.name (ascii "1"), .symbol (chr '='), .name (ascii "1"), .name (ascii "AND"),
        .name (ascii "username"), .symbol (chr '=')] := by decide +kernel
  have joint : words [] ((ascii " AND password = ").map .char) =
      [.name (ascii "AND"), .name (ascii "password"), .symbol (chr '=')] := by decide +kernel
  have last : words [] ((ascii ";").map .char) = [.symbol (chr ';')] := by decide +kernel
  simp only [SqlCall.template, hole, List.flatMap_cons, intendedTokens, List.flatMap_nil,
    List.singleton_append, words_append_literal, List.append_nil, select, joint, last]
  rw [List.append_assoc, List.dropWhile_append_of_pos (by decide +kernel), List.cons_append,
    List.dropWhile_cons_of_neg (by simp), List.tail_cons]
  have one : (Word.name (ascii "1")).operand = some (.constant (.int 1)) := by decide +kernel
  refine parseCondition_and one one (parseCondition_and ?_ rfl (parseCondition_last ?_ rfl))
  · decide +kernel
  · decide +kernel

theorem selects_userIdentification {username password : CString} {text : Bytes} {row : Row}
    (reads : readSql usersColumns text =
      some ((SqlCall.userIdentificationInDb username password).template.flatMap intendedTokens)) :
    selects usersColumns text row ↔
      row (ascii "username") = .text username.bytes ∧
        row (ascii "password") = .text password.bytes := by
  rw [selects, reads]
  simp only [parseCondition_userIdentification]
  simp only [Condition.holds, List.any_cons, List.any_nil, List.all_cons, List.all_nil,
    Bool.or_false, Bool.and_true, Bool.and_eq_true, comparisonHolds_iff, Operand.value]
  constructor
  · intro given
    obtain ⟨_, name, pass⟩ := given
    exact ⟨name.1, pass.1⟩
  · intro given
    obtain ⟨name, pass⟩ := given
    simp [name, pass]

/-- A statement says what its helper is for if and only if it fits its buffers and every
value in it is plain. -/
theorem SqlCall.readsAsIntended_iff (call : SqlCall) :
    call.ReadsAsIntended ↔
      call.Fits ∧ ∀ segment ∈ call.template, Plain call.columns segment := by
  constructor
  · intro given
    obtain ⟨⟨text, built, reads⟩, _⟩ := given
    obtain ⟨fits, rfl⟩ := SqlCall.text_eq_ok.mp built
    exact ⟨fits, (readSql_render_iff call.template_shape).mp reads⟩
  · intro given
    obtain ⟨fits, plain⟩ := given
    have reads := (readSql_render_iff call.template_shape).mpr plain
    refine ⟨⟨call.statement, SqlCall.text_eq_ok.mpr ⟨fits, rfl⟩, reads⟩, ?_⟩
    rintro username password text row rfl built selected
    obtain ⟨_, rfl⟩ := SqlCall.text_eq_ok.mp built
    exact (selects_userIdentification reads).mp selected

/-- A password that closes its own quote selects every row, whatever its name and
password. -/
theorem identification_selects_every_row :
    let call := SqlCall.userIdentificationInDb ⟨ascii "root", by decide⟩
      ⟨ascii "x\" OR \"1\"=\"1", by decide⟩
    call.text = .ok call.statement ∧
      readSql call.columns call.statement ≠ some (call.template.flatMap intendedTokens) ∧
      selects call.columns call.statement (fun _ => .text (ascii "anyone")) ∧
      ¬ call.ReadsAsIntended := by
  intro call
  have built : call.text = .ok call.statement :=
    SqlCall.text_eq_ok.mpr ⟨by decide +kernel, rfl⟩
  have selected : selects call.columns call.statement (fun _ => .text (ascii "anyone")) := by
    decide +kernel
  refine ⟨built, by decide +kernel, selected, fun intended => ?_⟩
  have name := (intended.identifies rfl built selected).1
  exact absurd name (by decide +kernel)

end IpcFtp
