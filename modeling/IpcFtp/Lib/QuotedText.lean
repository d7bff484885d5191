import Mathlib.Algebra.Ring.Nat
import Mathlib.Data.List.Basic

/-!
# Quoted literals with doubled quotes

The lexical rule of SQL-like languages: a literal starts at a quote and ends at the
next quote of the same kind, except that a doubled quote stands for one quote inside
the literal.  `scan` reads a text by this rule.  A template is a text with holes that
are filled by putting a quote on each side of a value, without doubling anything.
`scan_render_iff` says exactly when the filled template reads back as intended.
-/

namespace IpcFtp.Lib

variable {α : Type} [DecidableEq α]

/-- What a text is made of: symbols outside literals, and literals with their value. -/
inductive Lexeme (α : Type) : Type
  | char (c : α)
  | quoted (q : α) (value : List α)
  deriving DecidableEq

/-- A piece of a template: fixed text, or a value between two quotes. -/
inductive Segment (α : Type) : Type
  | code (text : List α)
  | quoted (q : α) (value : List α)

/-- Where a scan stands: outside literals, in one, or behind a quote that either closes
the literal or starts a doubled one. -/
inductive ScanState (α : Type) : Type
  | outside
  | inside (q : α) (value : List α)
  | closing (q : α) (value : List α)

section Definitions

variable (isQuote : α → Bool)

def scanFrom : ScanState α → List α → Option (List (Lexeme α))
  | .outside, [] => some []
  | .inside _ _, [] => none
  | .closing q v, [] => some [.quoted q v]
  | .outside, c :: s =>
    if isQuote c then scanFrom (.inside c []) s
    else (scanFrom .outside s).map (Lexeme.char c :: ·)
  | .inside q v, c :: s =>
    if c = q then scanFrom (.closing q v) s else scanFrom (.inside q (v ++ [c])) s
  | .closing q v, c :: s =>
    if c = q then scanFrom (.inside q (v ++ [q])) s
    else if isQuote c then (scanFrom (.inside c []) s).map (Lexeme.quoted q v :: ·)
    else (scanFrom .outside s).map fun rest => Lexeme.quoted q v :: Lexeme.char c :: rest

/-- Read a text; `none` if a literal is left open. -/
def scan (text : List α) : Option (List (Lexeme α)) := scanFrom isQuote .outside text

/-- The text of a filled piece. -/
def Segment.text : Segment α → List α
  | .code s => s
  | .quoted q v => q :: v ++ [q]

/-- How a filled piece is meant to be read. -/
def Segment.lexemes : Segment α → List (Lexeme α)
  | .code s => s.map .char
  | .quoted q v => [.quoted q v]

def render (template : List (Segment α)) : List α := template.flatMap Segment.text

/-- The value does not hold the quote that surrounds it. -/
def Segment.Intact : Segment α → Prop
  | .code _ => True
  | .quoted q v => q ∉ v

instance (segment : Segment α) : Decidable segment.Intact := by
  cases segment <;> unfold Segment.Intact <;> infer_instance

/-- Fixed text holds no quotes, holes are quoted by quotes, and each hole is followed by
fixed text or by the end. -/
def Template : List (Segment α) → Prop
  | [] => True
  | .code s :: rest => (∀ c ∈ s, isQuote c = false) ∧ Template rest
  | [.quoted q _] => isQuote q = true
  | .quoted q _ :: .code (c :: s) :: rest =>
    isQuote q = true ∧ isQuote c = false ∧ (∀ d ∈ s, isQuote d = false) ∧ Template rest
  | .quoted _ _ :: _ :: _ => False

end Definitions

omit [DecidableEq α] in
/-- A hole with fixed text behind it. -/
theorem Template.hole {isQuote : α → Bool} {q : α} {v s : List α} {rest : List (Segment α)}
    (quote : isQuote q = true) (plain : ∀ c ∈ s, isQuote c = false) (nonempty : s ≠ [])
    (shape : Template isQuote rest) :
    Template isQuote (.quoted q v :: .code s :: rest) := by
  cases s with
  | nil => exact absurd rfl nonempty
  | cons c s =>
      rw [List.forall_mem_cons] at plain
      exact ⟨quote, plain.1, plain.2, shape⟩

section Render

variable {a q : α} {s v : List α} {rest : List (Segment α)}

omit [DecidableEq α] in
theorem notMem_render_code (plain : a ∉ s) (later : a ∉ render rest) :
    a ∉ render (.code s :: rest) := by
  rw [render, List.flatMap_cons, List.mem_append, not_or]
  exact ⟨plain, later⟩

omit [DecidableEq α] in
theorem notMem_render_quoted (quote : a ≠ q) (plain : a ∉ v) (later : a ∉ render rest) :
    a ∉ render (.quoted q v :: rest) := by
  have literal : a ∉ (Segment.quoted q v).text := by simp [Segment.text, quote, plain]
  rw [render, List.flatMap_cons, List.mem_append, not_or]
  exact ⟨literal, later⟩

end Render

/-! ## Reading a literal costs its quotes -/

/-- The number of symbols that spell a lexeme. -/
def Lexeme.width : Lexeme α → Nat
  | .char _ => 1
  | .quoted q v => v.length + v.count q + 2

def ScanState.width : ScanState α → Nat
  | .outside => 0
  | .inside q v => v.length + v.count q + 1
  | .closing q v => v.length + v.count q + 2

variable {isQuote : α → Bool}

/-- A scan accounts for every symbol. -/
theorem width_of_scanFrom {state : ScanState α} {text : List α} {lexemes : List (Lexeme α)}
    (read : scanFrom isQuote state text = some lexemes) :
    (lexemes.map Lexeme.width).sum = state.width + text.length := by
  induction text generalizing state lexemes with
  | nil =>
      cases state with
      | outside =>
          rw [scanFrom, Option.some.injEq] at read
          subst read
          rfl
      | inside q v => simp [scanFrom] at read
      | closing q v =>
          rw [scanFrom, Option.some.injEq] at read
          subst read
          simp [Lexeme.width, ScanState.width]
  | cons c text ih =>
      cases state with
      | outside =>
          rw [scanFrom] at read
          split at read
          · have := ih read
            simp [ScanState.width] at this ⊢
            omega
          · obtain ⟨rest, others, rfl⟩ := Option.map_eq_some_iff.mp read
            have := ih others
            simp [ScanState.width, Lexeme.width] at this ⊢
            omega
      | inside q v =>
          rw [scanFrom] at read
          split at read
          · have := ih read
            simp [ScanState.width] at this ⊢
            omega
          · rename_i other
            have := ih read
            simp [ScanState.width, other] at this ⊢
            omega
      | closing q v =>
          rw [scanFrom] at read
          split at read
          · have := ih read
            simp [ScanState.width] at this ⊢
            omega
          · split at read
            · obtain ⟨rest, others, rfl⟩ := Option.map_eq_some_iff.mp read
              have := ih others
              simp [ScanState.width, Lexeme.width] at this ⊢
              omega
            · obtain ⟨rest, others, rfl⟩ := Option.map_eq_some_iff.mp read
              have := ih others
              simp [ScanState.width, Lexeme.width] at this ⊢
              omega

/-- The intended reading of a piece is longer than its text by the quotes its value
holds. -/
theorem Segment.width_lexemes (segment : Segment α) :
    (segment.lexemes.map Lexeme.width).sum =
      segment.text.length +
        match segment with
        | .code _ => 0
        | .quoted q v => v.count q := by
  cases segment with
  | code s => simp [Segment.lexemes, Segment.text, Function.comp_def, Lexeme.width]
  | quoted q v => simp [Segment.lexemes, Segment.text, Lexeme.width]; omega

/-- If a filled template reads as intended, no value holds its own quote. -/
theorem intact_of_scan_render {template : List (Segment α)}
    (read : scan isQuote (render template) = some (template.flatMap Segment.lexemes)) :
    ∀ segment ∈ template, segment.Intact := by
  have balance := width_of_scanFrom read
  simp only [ScanState.width, Nat.zero_add] at balance
  clear read
  have least (rest : List (Segment α)) :
      (render rest).length ≤ ((rest.flatMap Segment.lexemes).map Lexeme.width).sum := by
    induction rest with
    | nil => simp [render]
    | cons segment rest ih =>
        have := segment.width_lexemes
        simp only [render, List.flatMap_cons, List.length_append, List.map_append,
          List.sum_append] at ih ⊢
        omega
  induction template with
  | nil => simp
  | cons segment rest ih =>
      have here := segment.width_lexemes
      have others := least rest
      simp only [render, List.flatMap_cons, List.length_append, List.map_append,
        List.sum_append] at balance ih others
      intro other member
      rcases List.mem_cons.mp member with rfl | inside
      · cases other with
        | code s => trivial
        | quoted q v =>
            have none : v.count q = 0 := by simp only at here; omega
            exact List.count_eq_zero.mp none
      · exact ih (by omega) other inside

/-! ## Reading a filled template -/

theorem scanFrom_outside_append {s : List α} (plain : ∀ c ∈ s, isQuote c = false)
    (rest : List α) :
    scanFrom isQuote .outside (s ++ rest) =
      (scanFrom isQuote .outside rest).map (s.map Lexeme.char ++ ·) := by
  induction s with
  | nil => simp
  | cons c s ih =>
      have others := ih fun d member => plain d (List.mem_cons_of_mem _ member)
      rw [List.cons_append, scanFrom, if_neg (by simp [plain c List.mem_cons_self]), others,
        Option.map_map]
      rfl

theorem scanFrom_inside_append {q : α} {v : List α} (absent : q ∉ v) (got rest : List α) :
    scanFrom isQuote (.inside q got) (v ++ q :: rest) =
      scanFrom isQuote (.closing q (got ++ v)) rest := by
  induction v generalizing got with
  | nil => simp [scanFrom]
  | cons c v ih =>
      rw [List.mem_cons, not_or] at absent
      rw [List.cons_append, scanFrom, if_neg (Ne.symm absent.1), ih absent.2]
      simp

/-- A hole filled with a value that does not hold its quote reads as one literal. -/
theorem scanFrom_quoted {q : α} {v : List α} (quote : isQuote q = true) (absent : q ∉ v)
    (rest : List α) :
    scanFrom isQuote .outside (Segment.text (.quoted q v) ++ rest) =
      scanFrom isQuote (.closing q v) rest := by
  rw [Segment.text, List.cons_append, List.cons_append, scanFrom, if_pos quote,
    List.append_assoc, List.singleton_append, scanFrom_inside_append absent,
    List.nil_append]

theorem scan_render_of_intact {template : List (Segment α)}
    (shape : Template isQuote template) (intact : ∀ segment ∈ template, segment.Intact) :
    scan isQuote (render template) = some (template.flatMap Segment.lexemes) := by
  unfold scan
  induction template using Template.induct with
  | case1 => rfl
  | case2 s rest ih =>
      have others := ih shape.2 fun segment member => intact segment (.tail _ member)
      rw [render, List.flatMap_cons, Segment.text, scanFrom_outside_append shape.1,
        ← render, others]
      rfl
  | case3 q v =>
      have absent : q ∉ v := intact _ List.mem_cons_self
      rw [render, List.flatMap_cons, scanFrom_quoted shape absent]
      rfl
  | case4 q v c s rest ih =>
      obtain ⟨quote, plain, others, shape⟩ := shape
      have absent : q ∉ v := intact _ List.mem_cons_self
      have different : c ≠ q := by
        intro same
        subst same
        rw [quote] at plain
        cases plain
      have tail := ih shape fun segment member =>
        intact segment (.tail _ (.tail _ member))
      rw [render, List.flatMap_cons, scanFrom_quoted quote absent, List.flatMap_cons,
        Segment.text, List.cons_append, scanFrom, if_neg different, if_neg (by simp [plain]),
        scanFrom_outside_append others, ← render, tail]
      rfl
  | case5 => simp [Template] at shape

/-- A filled template reads as intended exactly when no value holds the quote that
surrounds it. -/
theorem scan_render_iff {template : List (Segment α)} (shape : Template isQuote template) :
    scan isQuote (render template) = some (template.flatMap Segment.lexemes) ↔
      ∀ segment ∈ template, segment.Intact :=
  ⟨intact_of_scan_render, scan_render_of_intact shape⟩

end IpcFtp.Lib
