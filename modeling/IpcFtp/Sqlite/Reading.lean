import IpcFtp.CString
import IpcFtp.Lib.QuotedText

/-!
# How SQLite reads a statement

A text is cut into single characters and quoted literals.  A double-quoted literal that
names a column in scope is that column and not a string.  The condition of a statement
is read as a chain of comparisons joined by `AND` and `OR`, which is all that the
statements of the server and the texts spliced into them here use; other conditions
have no reading and match no row.
-/

namespace IpcFtp

open Lib

/-- The two quotes of SQL strings. -/
def isSqlQuote (c : Byte) : Bool := c = chr '"' ∨ c = chr '\''

/-- A literal or a character after names have been resolved. -/
inductive Token : Type
  | char (c : Byte)
  | identifier (name : Bytes)
  | literal (quote : Byte) (value : Bytes)
  deriving DecidableEq

/-- Names are compared without regard to case. -/
def lower (c : Byte) : Byte := if chr 'A' ≤ c ∧ c ≤ chr 'Z' then c + 32 else c

/-- The text is the name of a column in scope. -/
def NamesColumn (columns : List Bytes) (name : Bytes) : Prop := name.map lower ∈ columns

instance (columns : List Bytes) (name : Bytes) : Decidable (NamesColumn columns name) :=
  inferInstanceAs (Decidable (_ ∈ _))

def resolve (columns : List Bytes) : Lexeme Byte → Token
  | .char c => .char c
  | .quoted q v =>
    if q = chr '"' ∧ NamesColumn columns v then .identifier v else .literal q v

/-- The tokens of a statement; `none` if a literal is left open. -/
def readSql (columns : List Bytes) (text : Bytes) : Option (List Token) :=
  (scan isSqlQuote text).map (List.map (resolve columns))

/-- A filled piece of a template as it is meant: every value a string. -/
def intendedTokens : Segment Byte → List Token
  | .code s => s.map .char
  | .quoted q v => [.literal q v]

/-- The value neither holds the quote around it nor is taken for a column. -/
def Plain (columns : List Bytes) : Segment Byte → Prop
  | .code _ => True
  | .quoted q v => q ∉ v ∧ ¬ (q = chr '"' ∧ NamesColumn columns v)

instance (columns : List Bytes) (segment : Segment Byte) :
    Decidable (Plain columns segment) := by
  cases segment <;> unfold Plain <;> infer_instance

/-! ## When a filled template reads as intended -/

/-- The text of a token, whatever it was resolved to. -/
def Token.lexeme : Token → Lexeme Byte
  | .char c => .char c
  | .identifier name => .quoted (chr '"') name
  | .literal q v => .quoted q v

theorem lexeme_resolve (columns : List Bytes) (l : Lexeme Byte) :
    (resolve columns l).lexeme = l := by
  cases l with
  | char c => rfl
  | quoted q v =>
      rw [resolve]
      split
      · rename_i named
        rw [Token.lexeme, ← named.1]
      · rfl

theorem map_lexeme_intendedTokens (segment : Segment Byte) :
    (intendedTokens segment).map Token.lexeme = segment.lexemes := by
  cases segment with
  | code s => simp [intendedTokens, Segment.lexemes, Token.lexeme]
  | quoted q v => rfl

theorem map_resolve_lexemes_iff {columns : List Bytes} (template : List (Segment Byte)) :
    (template.flatMap Segment.lexemes).map (resolve columns) =
        template.flatMap intendedTokens ↔
      ∀ q v, .quoted q v ∈ template → ¬ (q = chr '"' ∧ NamesColumn columns v) := by
  induction template with
  | nil => simp
  | cons segment rest ih =>
      cases segment with
      | code s =>
          have chars : (s.map Lexeme.char).map (resolve columns) = s.map Token.char := by
            simp [resolve]
          simp only [List.flatMap_cons, List.map_append, Segment.lexemes, intendedTokens,
            chars, List.append_cancel_left_eq, ih, List.mem_cons, reduceCtorEq, false_or]
      | quoted q v =>
          simp only [List.flatMap_cons, Segment.lexemes, intendedTokens, List.singleton_append,
            List.map_cons, List.cons.injEq, ih, List.mem_cons, Segment.quoted.injEq]
          constructor
          · rintro ⟨here, others⟩ p w (⟨rfl, rfl⟩ | later)
            · intro named
              rw [resolve, if_pos named] at here
              cases here
            · exact others p w later
          · intro all
            refine ⟨?_, fun p w later => all p w (.inr later)⟩
            rw [resolve, if_neg (all q v (.inl ⟨rfl, rfl⟩))]

/-- A filled template reads as intended exactly when every value in it is plain. -/
theorem readSql_render_iff {columns : List Bytes} {template : List (Segment Byte)}
    (shape : Template isSqlQuote template) :
    readSql columns (render template) = some (template.flatMap intendedTokens) ↔
      ∀ segment ∈ template, Plain columns segment := by
  have reads : readSql columns (render template) = some (template.flatMap intendedTokens) ↔
      scan isSqlQuote (render template) = some (template.flatMap Segment.lexemes) ∧
        (template.flatMap Segment.lexemes).map (resolve columns) =
          template.flatMap intendedTokens := by
    rw [readSql, Option.map_eq_some_iff]
    constructor
    · intro given
      obtain ⟨lexemes, scanned, resolved⟩ := given
      have same : lexemes = template.flatMap Segment.lexemes := by
        have back := congrArg (List.map Token.lexeme) resolved
        rw [List.map_map, show Token.lexeme ∘ resolve columns = id from
          funext (lexeme_resolve columns), List.map_id, List.map_flatMap] at back
        simpa only [map_lexeme_intendedTokens] using back
      subst same
      exact ⟨scanned, resolved⟩
    · intro given
      obtain ⟨scanned, resolved⟩ := given
      exact ⟨_, scanned, resolved⟩
  rw [reads, scan_render_iff shape, map_resolve_lexemes_iff]
  constructor
  · rintro ⟨intact, strings⟩ segment member
    cases segment with
    | code s => trivial
    | quoted q v => exact ⟨intact _ member, strings q v member⟩
  · intro plain
    refine ⟨fun segment member => ?_, fun q v member => (plain _ member).2⟩
    cases segment with
    | code s => trivial
    | quoted q v => exact (plain _ member).1

/-! ## The condition of a statement -/

/-- What a cell of a table holds. -/
inductive SqlValue : Type
  | null
  | int (i : Int)
  | text (s : Bytes)
  deriving DecidableEq

/-- A row, by column name. -/
abbrev Row : Type := Bytes → SqlValue

/-- Characters grouped to names, numbers and symbols. -/
inductive Word : Type
  | name (text : Bytes)
  | symbol (c : Byte)
  | identifier (name : Bytes)
  | literal (value : Bytes)
  deriving DecidableEq

def isNameChar (c : Byte) : Bool :=
  isDigit c ∨ (chr 'a' ≤ lower c ∧ lower c ≤ chr 'z') ∨ c = chr '_'

def pendingName : Bytes → List Word
  | [] => []
  | pending => [.name pending]

/-- The words of a token list behind the letters of a name that has begun. -/
def words : Bytes → List Token → List Word
  | pending, [] => pendingName pending
  | pending, .char c :: rest =>
    if isNameChar c then words (pending ++ [c]) rest
    else if c = chr ' ' then pendingName pending ++ words [] rest
    else pendingName pending ++ .symbol c :: words [] rest
  | pending, .identifier name :: rest => pendingName pending ++ .identifier name :: words [] rest
  | pending, .literal _ value :: rest => pendingName pending ++ .literal value :: words [] rest

/-- One side of a comparison. -/
inductive Operand : Type
  | constant (value : SqlValue)
  | column (name : Bytes)
  deriving DecidableEq

def Word.operand : Word → Option Operand
  | .name text =>
    if ∀ c ∈ text, isDigit c then
      some (.constant (.int (text.foldl (fun n c => 10 * n + (c.toNat - 48)) 0)))
    else some (.column (text.map lower))
  | .identifier quoted => some (.column (quoted.map lower))
  | .literal value => some (.constant (.text value))
  | .symbol _ => none

/-- `left = right` comparisons, as a disjunction of conjunctions. -/
abbrev Condition : Type := List (List (Operand × Operand))

def parseCondition : List Word → Option Condition
  | left :: .symbol op :: right :: rest => do
    let comparison := (← left.operand, ← right.operand)
    if op ≠ chr '=' then none
    match rest with
    | [.symbol last] => if last = chr ';' then some [[comparison]] else none
    | .name joint :: rest =>
      if joint = ascii "OR" then ([comparison] :: ·) <$> parseCondition rest
      else if joint = ascii "AND" then
        match ← parseCondition rest with
        | [] => none
        | conjunction :: others => some ((comparison :: conjunction) :: others)
      else none
    | _ => none
  | _ => none

def Operand.value (row : Row) : Operand → SqlValue
  | .constant value => value
  | .column name => row name

/-- A comparison holds for two equal values that are not null. -/
def comparisonHolds (row : Row) (comparison : Operand × Operand) : Bool :=
  comparison.1.value row = comparison.2.value row ∧ comparison.1.value row ≠ .null

theorem comparisonHolds_iff {row : Row} {comparison : Operand × Operand} :
    comparisonHolds row comparison ↔
      comparison.1.value row = comparison.2.value row ∧ comparison.1.value row ≠ .null :=
  decide_eq_true_iff

def Condition.holds (condition : Condition) (row : Row) : Bool :=
  condition.any fun conjunction => conjunction.all (comparisonHolds row)

/-- The statement's `WHERE` condition holds for the row. -/
def selects (columns : List Bytes) (text : Bytes) (row : Row) : Bool :=
  match readSql columns text with
  | none => false
  | some tokens =>
    match parseCondition ((words [] tokens).dropWhile (· ≠ .name (ascii "WHERE"))).tail with
    | none => false
    | some condition => condition.holds row

/-! ## Reading a condition from left to right -/

theorem words_append_literal (s pending : Bytes) (q : Byte) (v : Bytes) (rest : List Token) :
    words pending (s.map .char ++ .literal q v :: rest) =
      words pending (s.map .char) ++ .literal v :: words [] rest := by
  induction s generalizing pending with
  | nil => simp [words]
  | cons c s ih =>
      simp only [List.map_cons, List.cons_append, words, ih]
      split
      · rfl
      · split <;> simp

variable {left right : Word} {a b : Operand}

theorem parseCondition_last (first : left.operand = some a) (second : right.operand = some b) :
    parseCondition [left, .symbol (chr '='), right, .symbol (chr ';')] = some [[(a, b)]] := by
  simp [parseCondition, first, second]

theorem parseCondition_and {rest : List Word} {conjunction : List (Operand × Operand)}
    {others : Condition} (first : left.operand = some a) (second : right.operand = some b)
    (tail : parseCondition rest = some (conjunction :: others)) :
    parseCondition (left :: .symbol (chr '=') :: right :: .name (ascii "AND") :: rest) =
      some (((a, b) :: conjunction) :: others) := by
  simp [parseCondition, first, second, tail, show ascii "AND" ≠ ascii "OR" by decide]

end IpcFtp
