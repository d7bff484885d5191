import IpcFtp.Lib.Pieces
import IpcFtp.Sqlite.Service

/-!
# The end of the SQL process

`init_sqlite_server` over any number of statements, each written as a whole.  It takes a
statement in turns, up to a semicolon or to its hundred-and-first byte, and comes to its end at a
turn that is `SQL_CONNECTION_CLOSE_STR`, whoever wrote it; `close_sql_conn` is called by nobody.

* `executed_of_calls`: what is executed, and when the process ends.
* `ends_of_strings`: which strings of the clients end it.
-/

namespace IpcFtp

open Lib

/-! ## Turns -/

/-- The loop of `init_sqlite_server` behind some bytes: what it has of the next text, or none when
`run` is 0. -/
def sqliteServerAfter : QueryBuffer → Bytes → Option QueryBuffer
  | buffer, [] => some buffer
  | buffer, aux :: pipe =>
    match buffer.read aux with
    | .more buffer => sqliteServerAfter buffer pipe
    | .complete text =>
      if text = sqlConnectionCloseStr then none else sqliteServerAfter .empty pipe

/-- What a text is taken in. -/
def turnsOf (text : Bytes) : List Bytes := pieces (chr ';') 100 text

section Turns

variable {buffer : QueryBuffer} {pipe : Bytes}

/-- As long as there is no NUL, the counter is the length. -/
theorem QueryBuffer.read_eq {aux : Byte} (counts : buffer.q = buffer.text.length)
    (plain : aux ≠ 0) : buffer.read aux =
      if aux ≠ chr ';' ∧ buffer.text.length < 100 then .more ⟨buffer.text ++ [aux], buffer.q + 1⟩
      else .complete (buffer.text ++ [aux]) := by
  have one : cstr [aux] = [aux] := cstr_of_nulFree (by simpa using plain.symm)
  rw [QueryBuffer.read, one, counts]

theorem initSqliteServer_eq (nulFree : 0 ∉ pipe) (counts : buffer.q = buffer.text.length) :
    initSqliteServer buffer pipe =
      (piecesFrom (chr ';') 100 buffer.text pipe).takeWhile (· ≠ sqlConnectionCloseStr) := by
  induction pipe generalizing buffer with
  | nil => rfl
  | cons aux pipe ih =>
      rw [List.mem_cons, not_or] at nulFree
      rw [initSqliteServer, piecesFrom, QueryBuffer.read_eq counts (Ne.symm nulFree.1)]
      split_ifs with goesOn
      · exact ih nulFree.2 (by simp [counts])
      · have later : initSqliteServer .empty pipe =
            (piecesFrom (chr ';') 100 [] pipe).takeWhile (· ≠ sqlConnectionCloseStr) :=
          ih nulFree.2 rfl
        by_cases close : buffer.text ++ [aux] = sqlConnectionCloseStr
        · simp [close]
        · simp [close, later]

theorem sqliteServerAfter_eq_none (nulFree : 0 ∉ pipe) (counts : buffer.q = buffer.text.length) :
    sqliteServerAfter buffer pipe = none ↔
      sqlConnectionCloseStr ∈ piecesFrom (chr ';') 100 buffer.text pipe := by
  induction pipe generalizing buffer with
  | nil => simp [sqliteServerAfter, piecesFrom]
  | cons aux pipe ih =>
      rw [List.mem_cons, not_or] at nulFree
      rw [sqliteServerAfter, piecesFrom, QueryBuffer.read_eq counts (Ne.symm nulFree.1)]
      split_ifs with goesOn
      · exact ih nulFree.2 (by simp [counts])
      · have later : sqliteServerAfter .empty pipe = none ↔
            sqlConnectionCloseStr ∈ piecesFrom (chr ';') 100 [] pipe := ih nulFree.2 rfl
        rw [List.mem_cons, ← later]
        by_cases close : buffer.text ++ [aux] = sqlConnectionCloseStr
        · simp [close]
        · simp [close, Ne.symm close]

end Turns

/-! ## Runs of statements -/

/-- A statement is one that a helper has built. -/
def Built (text : Bytes) : Prop := ∃ call : SqlCall, call.text = .ok text

section Calls

variable {texts : List Bytes} {text : Bytes}

theorem Built.writtenQuery (built : Built text) : writtenQuery text = text := by
  obtain ⟨call, builds⟩ := built
  obtain ⟨body, rfl, -⟩ := SqlCall.shape_of_text_eq_ok builds
  cases body <;> rfl

theorem Built.nulFree (built : Built text) : 0 ∉ text := by
  obtain ⟨call, builds⟩ := built
  obtain ⟨-, rfl⟩ := SqlCall.text_eq_ok.mp builds
  exact call.nulFree_statement

theorem flatMap_writtenQuery (built : ∀ text ∈ texts, Built text) :
    texts.flatMap writtenQuery = texts.flatten := by
  rw [List.flatMap, List.map_congr_left fun text member => (built text member).writtenQuery,
    List.map_id']

/-- No turn reaches over the end of a statement. -/
theorem turnsOf_flatten (built : ∀ text ∈ texts, Built text) :
    turnsOf texts.flatten = texts.flatMap turnsOf := by
  induction texts with
  | nil => rfl
  | cons text texts ih =>
      rw [List.forall_mem_cons] at built
      obtain ⟨call, builds⟩ := built.1
      obtain ⟨body, rfl, -⟩ := SqlCall.shape_of_text_eq_ok builds
      rw [List.flatten_cons, List.flatMap_cons, ← ih built.2]
      exact pieces_concat_append body texts.flatten

theorem nulFree_flatten (built : ∀ text ∈ texts, Built text) : 0 ∉ texts.flatten := by
  intro inside
  obtain ⟨text, member, inside⟩ := List.mem_flatten.mp inside
  exact (built text member).nulFree inside

/-- The SQL process ends if one of the turns of the statements does. -/
theorem ends_iff_turn (built : ∀ text ∈ texts, Built text) :
    sqliteServerAfter .empty (texts.flatMap writtenQuery) = none ↔
      ∃ text ∈ texts, sqlConnectionCloseStr ∈ turnsOf text := by
  rw [flatMap_writtenQuery built, ← List.mem_flatMap, ← turnsOf_flatten built]
  exact sqliteServerAfter_eq_none (nulFree_flatten built) rfl

/-- The SQL process executes the statements in turns, up to the first turn that ends it. -/
theorem executed_of_calls (built : ∀ text ∈ texts, Built text) :
    initSqliteServer .empty (texts.flatMap writtenQuery) =
        (texts.flatMap turnsOf).takeWhile (· ≠ sqlConnectionCloseStr) ∧
      (sqliteServerAfter .empty (texts.flatMap writtenQuery) = none ↔
        ∃ text ∈ texts, sqlConnectionCloseStr ∈ turnsOf text) := by
  refine ⟨?_, ends_iff_turn built⟩
  rw [flatMap_writtenQuery built, ← turnsOf_flatten built]
  exact initSqliteServer_eq (nulFree_flatten built) rfl

end Calls

/-! ## Strings that end it -/

/-- The strings a helper is given. -/
def SqlCall.strings : SqlCall → List CString
  | .askForFileToDb fileAlias home => [fileAlias, home]
  | .insertAliasInDb fileAlias home => [fileAlias, home]
  | .userIdentificationInDb username password => [username, password]
  | .userInDb username => [username]
  | .newUserInDb user => [user.username, user.password]
  | .updatePassInDb _ newPass => [newPass]

section Strings

variable {call : SqlCall} {s value : Bytes} {quote c : Byte} {rest template : List (Segment Byte)}

/-- What lacks one of its symbols does not hold it. -/
theorem not_close_of_notMem (absent : c ∉ s) (needed : c ∈ sqlConnectionCloseStr) :
    ¬ sqlConnectionCloseStr <:+: s := fun occurs => absent (occurs.subset needed)

/-- The fixed texts in front of the holes have no semicolon. -/
theorem close_of_hole (code : chr ';' ∉ s) (plain : quote ∉ sqlConnectionCloseStr)
    (occurs : sqlConnectionCloseStr <:+: render (.code s :: .quoted quote value :: rest)) :
    sqlConnectionCloseStr <:+: value ∨ sqlConnectionCloseStr <:+: render rest := by
  have spelled : render (.code s :: .quoted quote value :: rest) =
      s ++ quote :: (value ++ quote :: render rest) := by
    simp [render, Segment.text]
  rw [spelled] at occurs
  rcases infix_of_infix_separator plain occurs with front | behind
  · exact absurd front (not_close_of_notMem code (by decide))
  · exact infix_of_infix_separator plain behind

theorem not_close_of_end (absent : chr 'C' ∉ s) :
    ¬ sqlConnectionCloseStr <:+: render [.code s] := by
  rw [render, List.flatMap_cons, Segment.text, List.flatMap_nil, List.append_nil]
  exact not_close_of_notMem absent (by decide)

theorem notMem_ascii {chars : List Char} (plain : chars.all fun d => chr d ≠ c) :
    c ∉ ascii (String.ofList chars) := by
  have others : ∀ b ∈ ascii (String.ofList chars), b ≠ c := forall_mem_ascii plain
  intro member
  exact others c member rfl

theorem notMem_decimal (i : Int) : chr 'C' ∉ decimal i := by
  intro member
  rcases mem_decimal member with sign | digit
  · exact absurd sign (by decide)
  · exact absurd digit (by decide)

/-- A statement that holds the closing text holds it in one of its strings. -/
theorem close_of_statement (occurs : sqlConnectionCloseStr <:+: call.statement) :
    ∃ string ∈ call.strings, sqlConnectionCloseStr <:+: string.bytes := by
  have inHole {chars : List Char} {value : Bytes} {rest : List (Segment Byte)}
      (plain : chars.all fun c => chr c ≠ chr ';')
      (occurs : sqlConnectionCloseStr <:+:
        render (.code (ascii (String.ofList chars)) :: hole value :: rest)) :
      sqlConnectionCloseStr <:+: value ∨ sqlConnectionCloseStr <:+: render rest :=
    close_of_hole (notMem_ascii plain) (by decide) occurs
  have notAtEnd {chars : List Char} (plain : chars.all fun c => chr c ≠ chr 'C') :
      ¬ sqlConnectionCloseStr <:+: render [.code (ascii (String.ofList chars))] :=
    not_close_of_end (notMem_ascii plain)
  cases call with
  | askForFileToDb fileAlias home =>
      rcases inHole (by decide) occurs with own | occurs
      · exact ⟨fileAlias, List.mem_cons_self, own⟩
      rcases close_of_hole (notMem_ascii (by decide)) (by decide) occurs with pattern | occurs
      · refine ⟨home, .tail _ List.mem_cons_self, ?_⟩
        exact (infix_of_infix_separator (by decide) pattern).resolve_right (by decide)
      · exact absurd occurs (notAtEnd (by decide))
  | insertAliasInDb fileAlias home =>
      rcases inHole (by decide) occurs with path | occurs
      · rw [List.append_assoc] at path
        rcases infix_of_infix_separator (by decide) path with own | own
        · exact ⟨home, .tail _ List.mem_cons_self, own⟩
        · exact ⟨fileAlias, List.mem_cons_self, own⟩
      rcases inHole (by decide) occurs with own | occurs
      · exact ⟨fileAlias, List.mem_cons_self, own⟩
      · exact absurd occurs (notAtEnd (by decide))
  | userIdentificationInDb username password =>
      rcases inHole (by decide) occurs with own | occurs
      · exact ⟨username, List.mem_cons_self, own⟩
      rcases inHole (by decide) occurs with own | occurs
      · exact ⟨password, .tail _ List.mem_cons_self, own⟩
      · exact absurd occurs (notAtEnd (by decide))
  | userInDb username =>
      rcases inHole (by decide) occurs with own | occurs
      · exact ⟨username, List.mem_cons_self, own⟩
      · exact absurd occurs (notAtEnd (by decide))
  | newUserInDb user =>
      rcases inHole (by decide) occurs with own | occurs
      · exact ⟨user.username, List.mem_cons_self, own⟩
      rcases inHole (by decide) occurs with own | occurs
      · exact ⟨user.password, .tail _ List.mem_cons_self, own⟩
      rcases inHole (by decide) occurs with path | occurs
      · refine ⟨user.username, List.mem_cons_self, ?_⟩
        have split : ascii "/fs/" ++ user.username.bytes =
            ascii "/fs" ++ chr '/' :: user.username.bytes := by
          simp [ascii, chr]
        rw [split] at path
        exact (infix_of_infix_separator (by decide) path).resolve_left (by decide)
      rcases inHole (by decide) occurs with flag | occurs
      · exact absurd flag (not_close_of_notMem (notMem_decimal _) (by decide))
      · exact absurd occurs (notAtEnd (by decide))
  | updatePassInDb id newPass =>
      rcases inHole (by decide) occurs with own | occurs
      · exact ⟨newPass, List.mem_cons_self, own⟩
      · have condition : chr 'C' ∉ ascii " WHERE 1=1 AND user_id = " ++ decimal id :=
          List.not_mem_append (notMem_ascii (by decide)) (notMem_decimal id)
        have ending := List.not_mem_append condition (@notMem_ascii _ [';'] (by decide))
        exact absurd occurs (not_close_of_end ending)

theorem infix_of_mem_template (member : .quoted quote value ∈ template) :
    value <:+: render template := by
  obtain ⟨before, after, rfl⟩ := List.append_of_mem member
  refine ⟨render before ++ [quote], quote :: render after, ?_⟩
  simp [render, Segment.text]

/-- The strings of a helper are parts of its statement. -/
theorem infix_of_mem_strings {string : CString} (member : string ∈ call.strings) :
    string.bytes <:+: call.statement := by
  have own (value : Bytes) (given : hole value ∈ call.template) : value <:+: call.statement :=
    infix_of_mem_template given
  cases call with
  | askForFileToDb fileAlias home =>
      have pattern : home.bytes ++ ascii "%" <:+:
          (SqlCall.askForFileToDb fileAlias home).statement := by
        have member : .quoted (chr '\'') (home.bytes ++ ascii "%") ∈
            (SqlCall.askForFileToDb fileAlias home).template := by simp [SqlCall.template]
        exact infix_of_mem_template member
      rcases List.mem_pair.mp member with rfl | rfl
      · exact own _ (by simp [SqlCall.template])
      · exact List.infix_append_left.trans pattern
  | insertAliasInDb fileAlias home =>
      have path := own (home.bytes ++ ascii "/" ++ fileAlias.bytes) (by simp [SqlCall.template])
      rcases List.mem_pair.mp member with rfl | rfl
      · exact own _ (by simp [SqlCall.template])
      · rw [List.append_assoc] at path
        exact List.infix_append_left.trans path
  | userIdentificationInDb username password =>
      rcases List.mem_pair.mp member with rfl | rfl
      · exact own _ (by simp [SqlCall.template])
      · exact own _ (by simp [SqlCall.template])
  | userInDb username =>
      obtain rfl := List.mem_singleton.mp member
      exact own _ (by simp [SqlCall.template])
  | newUserInDb user =>
      rcases List.mem_pair.mp member with rfl | rfl
      · exact own _ (by simp [SqlCall.template])
      · exact own _ (by simp [SqlCall.template])
  | updatePassInDb id newPass =>
      obtain rfl := List.mem_singleton.mp member
      exact own _ (by simp [SqlCall.template])

/-- The closing text can be taken whole. -/
theorem isPiece_close : IsPiece (chr ';') 100 sqlConnectionCloseStr :=
  ⟨ascii "CLOSE CONNECTION", chr ';', by decide, by decide, by decide, .inl rfl⟩

end Strings

/-! ## A login that ends it -/

theorem nulFree_closing : 0 ∉ ascii "\";CLOSE CONNECTION;" := by decide

/-- Nobody has to be known to the server to make this call. -/
def closingLogin : SqlCall :=
  .userIdentificationInDb ⟨ascii "\";CLOSE CONNECTION;", nulFree_closing⟩ ⟨ascii "p", nulFree_p⟩

theorem text_closingLogin : closingLogin.text = .ok closingLogin.statement :=
  SqlCall.text_eq_ok.mpr ⟨by decide +kernel, rfl⟩

/-- A statement before it. -/
def beforeClosing : SqlCall := .userInDb ⟨ascii "x", nulFree_x⟩

theorem text_beforeClosing : beforeClosing.text = .ok beforeClosing.statement :=
  SqlCall.text_eq_ok.mpr ⟨by decide +kernel, rfl⟩

def closingTexts : List Bytes := [beforeClosing.statement, closingLogin.statement]

theorem executed_of_calls_closing :
    initSqliteServer .empty (closingTexts.flatMap writtenQuery) =
        (closingTexts.flatMap turnsOf).takeWhile (· ≠ sqlConnectionCloseStr) ∧
      (sqliteServerAfter .empty (closingTexts.flatMap writtenQuery) = none ↔
        ∃ text ∈ closingTexts, sqlConnectionCloseStr ∈ turnsOf text) := by
  refine executed_of_calls ?_
  rw [closingTexts, List.forall_mem_cons, List.forall_mem_singleton]
  exact ⟨⟨beforeClosing, text_beforeClosing⟩, closingLogin, text_closingLogin⟩

/-- The SQL process comes to its end only if a string of a client holds the closing text, and it
does if a string holds it behind a semicolon. -/
theorem ends_of_strings {calls : List SqlCall} {texts : List Bytes}
    (built : calls.map SqlCall.text = texts.map .ok) :
    (sqliteServerAfter .empty (texts.flatMap writtenQuery) = none →
        ∃ call ∈ calls, ∃ string ∈ call.strings, sqlConnectionCloseStr <:+: string.bytes) ∧
      ((∃ call ∈ calls, ∃ string ∈ call.strings,
          chr ';' :: sqlConnectionCloseStr <:+: string.bytes) →
        sqliteServerAfter .empty (texts.flatMap writtenQuery) = none) := by
  have calls_of_texts (text : Bytes) (member : text ∈ texts) :
      ∃ call ∈ calls, call.text = .ok text ∧ call.statement = text := by
    have inside : (.ok text : Except Fault Bytes) ∈ calls.map SqlCall.text :=
      built ▸ List.mem_map_of_mem member
    obtain ⟨call, known, builds⟩ := List.mem_map.mp inside
    exact ⟨call, known, builds, (SqlCall.text_eq_ok.mp builds).2⟩
  have texts_of_calls (call : SqlCall) (member : call ∈ calls) : call.statement ∈ texts := by
    have inside : call.text ∈ texts.map Except.ok := built ▸ List.mem_map_of_mem member
    obtain ⟨text, known, builds⟩ := List.mem_map.mp inside
    rwa [(SqlCall.text_eq_ok.mp builds.symm).2]
  have allBuilt (text : Bytes) (member : text ∈ texts) : Built text := by
    obtain ⟨call, -, builds, -⟩ := calls_of_texts text member
    exact ⟨call, builds⟩
  rw [ends_iff_turn allBuilt]
  constructor
  · intro given
    obtain ⟨text, member, closes⟩ := given
    obtain ⟨call, known, builds, rfl⟩ := calls_of_texts text member
    refine ⟨call, known, close_of_statement ?_⟩
    have whole : (turnsOf call.statement).flatten = call.statement := by
      obtain ⟨body, ends⟩ := call.statement_eq_append
      rw [ends]
      exact flatten_pieces_concat _ _ body
    rw [← whole]
    obtain ⟨before, after, split⟩ := List.append_of_mem closes
    refine ⟨before.flatten, after.flatten, ?_⟩
    rw [split]
    simp
  · intro given
    obtain ⟨call, known, string, member, occurs⟩ := given
    exact ⟨call.statement, texts_of_calls call known,
      isPiece_close.mem_pieces (occurs.trans (infix_of_mem_strings member))⟩

theorem ends_of_strings_closing :
    sqliteServerAfter .empty (closingTexts.flatMap writtenQuery) = none := by
  have built : [beforeClosing, closingLogin].map SqlCall.text = closingTexts.map .ok := by
    simp only [closingTexts, List.map_cons, List.map_nil, text_beforeClosing, text_closingLogin]
  exact (ends_of_strings built).2 ⟨closingLogin, .tail _ (.head _),
    ⟨ascii "\";CLOSE CONNECTION;", nulFree_closing⟩, List.mem_cons_self, [chr '"'], [], rfl⟩

end IpcFtp
