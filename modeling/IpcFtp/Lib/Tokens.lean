import Mathlib.Algebra.Ring.Parity
import Mathlib.Data.List.Basic
import Mathlib.Tactic.Tauto

/-!
# Texts made of tokens

Tokens stand between separators, and a separator inside a quotation is part of its token.  A
quotation opens and closes at the same symbol and may start and end anywhere in a token.
`Spaced` says that a text is made of tokens; every text that closes its quotations is
(`exists_spaced`).
-/

namespace IpcFtp.Lib

variable {α : Type} [DecidableEq α] (sep quote : α)

/-- A text that ends inside a quotation. -/
def Unclosed (text : List α) : Prop := Odd (text.count quote)

instance (text : List α) : Decidable (Unclosed quote text) := inferInstanceAs (Decidable (Odd _))

/-- A token closes its quotations and holds separators only inside them. -/
structure Token (token : List α) : Prop where
  nonempty : token ≠ []
  closed : ¬ Unclosed quote token
  quoted : ∀ front back, token = front ++ sep :: back → Unclosed quote front

/-- Tokens in order: separators, a token, then nothing more or at least one separator. -/
inductive Spaced : List (List α) → List α → Prop
  | nil (k : Nat) : Spaced [] (List.replicate k sep)
  | cons {token rest : List α} {tokens : List (List α)} (k : Nat) :
    Token sep quote token → (rest = [] ∨ rest.head? = some sep) → Spaced tokens rest →
    Spaced (token :: tokens) (List.replicate k sep ++ (token ++ rest))

section Unclosed

variable {quote} {text front back : List α} {c : α}

theorem not_unclosed_nil : ¬ Unclosed quote [] := by
  unfold Unclosed
  rw [List.count_nil]
  decide

theorem unclosed_append :
    Unclosed quote (front ++ back) ↔ ¬ (Unclosed quote front ↔ Unclosed quote back) := by
  unfold Unclosed
  rw [List.count_append, Nat.odd_add, ← Nat.not_odd_iff_even]
  tauto

theorem unclosed_quote : Unclosed quote [quote] := by
  unfold Unclosed
  rw [List.count_singleton_self]
  decide

theorem not_unclosed_singleton (other : c ≠ quote) : ¬ Unclosed quote [c] := by
  unfold Unclosed
  rw [List.count_singleton, if_neg (by simpa using other)]
  decide

theorem unclosed_concat_quote : Unclosed quote (text ++ [quote]) ↔ ¬ Unclosed quote text := by
  rw [unclosed_append]
  simp only [unclosed_quote, iff_true]

theorem unclosed_concat (other : c ≠ quote) :
    Unclosed quote (text ++ [c]) ↔ Unclosed quote text := by
  rw [unclosed_append]
  simp only [not_unclosed_singleton other, iff_false, not_not]

end Unclosed

/-! ## Cutting a text into tokens -/

/-- The text up to the first separator outside quotations, and the rest; `open_` says whether
the text starts inside one. -/
def cut : Bool → List α → List α × List α
  | _, [] => ([], [])
  | inside, c :: text =>
    if c = sep ∧ inside = false then ([], c :: text)
    else
      let later := cut (if c = quote then !inside else inside) text
      (c :: later.1, later.2)

/-- Whether a text that starts inside a quotation, or outside, ends inside one. -/
def EndsInside (inside : Bool) (text : List α) : Prop := ¬ (inside = true ↔ Unclosed quote text)

section Cut

variable {sep quote} {text front back : List α} {c : α}

theorem cut_cons {inside : Bool} (goes : ¬ (c = sep ∧ inside = false)) :
    cut sep quote inside (c :: text) =
      (c :: (cut sep quote (if c = quote then !inside else inside) text).1,
        (cut sep quote (if c = quote then !inside else inside) text).2) := if_neg goes

variable (sep quote) in
theorem cut_append (inside : Bool) (text : List α) :
    (cut sep quote inside text).1 ++ (cut sep quote inside text).2 = text := by
  induction text generalizing inside with
  | nil => rfl
  | cons c text ih =>
      by_cases stops : c = sep ∧ inside = false
      · rw [cut, if_pos stops, List.nil_append]
      · rw [cut_cons stops]
        exact congrArg (c :: ·) (ih _)

theorem endsInside_cons {inside : Bool} :
    EndsInside quote inside (c :: text) ↔
      EndsInside quote (if c = quote then !inside else inside) text := by
  unfold EndsInside
  rw [← List.singleton_append, unclosed_append]
  by_cases same : c = quote
  · subst same
    simp only [unclosed_quote, if_true, Bool.not_eq_true']
    cases inside <;> simp
  · simp only [not_unclosed_singleton same, if_neg same]
    cases inside <;> simp

variable (sep quote) in
/-- The cut is made at the end or at a separator outside quotations. -/
theorem cut_rest (inside : Bool) (text : List α) :
    (cut sep quote inside text).2 = [] ∨
      ((cut sep quote inside text).2.head? = some sep ∧
        ¬ EndsInside quote inside (cut sep quote inside text).1) := by
  induction text generalizing inside with
  | nil => exact .inl rfl
  | cons c text ih =>
      by_cases stops : c = sep ∧ inside = false
      · rw [cut, if_pos stops]
        obtain ⟨rfl, rfl⟩ := stops
        refine .inr ⟨rfl, ?_⟩
        unfold EndsInside
        simp [not_unclosed_nil]
      · rw [cut_cons stops, endsInside_cons]
        exact ih _

/-- What is cut off holds separators only inside quotations. -/
theorem endsInside_of_cut {inside : Bool}
    (split : (cut sep quote inside text).1 = front ++ sep :: back) :
    EndsInside quote inside front := by
  induction text generalizing inside front with
  | nil => simp [cut] at split
  | cons c text ih =>
      by_cases stops : c = sep ∧ inside = false
      · rw [cut, if_pos stops] at split
        simp at split
      · rw [cut_cons stops] at split
        cases front with
        | nil =>
            obtain ⟨rfl, -⟩ := List.cons.inj split
            unfold EndsInside
            simpa [not_unclosed_nil] using stops
        | cons d front =>
            obtain ⟨rfl, later⟩ := List.cons.inj split
            rw [endsInside_cons]
            exact ih later

theorem endsInside_false : EndsInside quote false text ↔ Unclosed quote text := by
  unfold EndsInside
  simp

end Cut

/-! ## Tokens -/

variable {sep quote}

/-- What is cut off a text is a token if it closes its quotations. -/
theorem token_of_cut {text : List α} (nonempty : (cut sep quote false text).1 ≠ [])
    (closed : ¬ Unclosed quote (cut sep quote false text).1) :
    Token sep quote (cut sep quote false text).1 :=
  ⟨nonempty, closed, fun _ _ cutOff => endsInside_false.mp (endsInside_of_cut cutOff)⟩

/-- A token is cut off as a whole. -/
theorem cut_token {token : List α} (isToken : Token sep quote token) :
    cut sep quote false token = (token, []) := by
  have split := cut_append sep quote false token
  rcases cut_rest sep quote false token with done | ⟨starts, outside⟩
  · rw [done, List.append_nil] at split
    exact Prod.ext split done
  · obtain ⟨back, stands⟩ := List.head?_eq_some_iff.mp starts
    rw [stands] at split
    rw [endsInside_false] at outside
    exact absurd (isToken.quoted _ back split.symm) outside

theorem token_iff {token : List α} :
    Token sep quote token ↔
      token ≠ [] ∧ ¬ Unclosed quote token ∧ cut sep quote false token = (token, []) := by
  constructor
  · intro isToken
    exact ⟨isToken.nonempty, isToken.closed, cut_token isToken⟩
  · intro given
    obtain ⟨nonempty, closed, whole⟩ := given
    have first : (cut sep quote false token).1 = token := congrArg Prod.fst whole
    rw [← first] at nonempty closed
    exact first ▸ token_of_cut nonempty closed

theorem token_of_plain {token : List α} (nonempty : token ≠ []) (noSep : sep ∉ token)
    (noQuote : quote ∉ token) : Token sep quote token := by
  refine ⟨nonempty, ?_, ?_⟩
  · unfold Unclosed
    rw [List.count_eq_zero_of_not_mem noQuote]
    decide
  · intro front back same
    subst same
    exact absurd (List.mem_append_right _ List.mem_cons_self) noSep

theorem Spaced.token_of_mem {tokens : List (List α)} {text token : List α}
    (spaced : Spaced sep quote tokens text) (member : token ∈ tokens) : Token sep quote token := by
  induction spaced with
  | nil => cases member
  | cons k isToken _ _ ih =>
      rcases List.mem_cons.mp member with rfl | later
      · exact isToken
      · exact ih later

instance (token : List α) : Decidable (Token sep quote token) := decidable_of_iff' _ token_iff

/-! ## Texts as tokens -/

/-- A text behind its separators. -/
theorem exists_replicate (sep : α) (text : List α) :
    ∃ k rest, text = List.replicate k sep ++ rest ∧ rest.head? ≠ some sep := by
  induction text with
  | nil => exact ⟨0, [], rfl, nofun⟩
  | cons c text ih =>
      by_cases same : c = sep
      · obtain ⟨k, rest, rfl, starts⟩ := ih
        exact ⟨k + 1, rest, by rw [same, List.replicate_succ, List.cons_append], starts⟩
      · exact ⟨0, c :: text, rfl, by simpa using same⟩

theorem not_unclosed_replicate (distinct : sep ≠ quote) (k : Nat) :
    ¬ Unclosed quote (List.replicate k sep) := by
  unfold Unclosed
  rw [List.count_replicate, if_neg (by simpa using distinct)]
  decide

/-- A text that starts with its first token and closes its quotations: the token, and the rest
that closes its own. -/
theorem exists_token {text : List α} (closed : ¬ Unclosed quote text) (nonempty : text ≠ [])
    (starts : text.head? ≠ some sep) :
    ∃ token rest, text = token ++ rest ∧ Token sep quote token ∧
      (rest = [] ∨ rest.head? = some sep) ∧ ¬ Unclosed quote rest := by
  have split := cut_append sep quote false text
  have ends := cut_rest sep quote false text
  have tokenClosed : ¬ Unclosed quote (cut sep quote false text).1 := by
    rcases ends with done | ⟨-, outside⟩
    · rw [done, List.append_nil] at split
      rwa [split]
    · rwa [endsInside_false] at outside
  refine ⟨_, _, split.symm, token_of_cut ?_ tokenClosed, ends.imp_right And.left, ?_⟩
  · cases text with
    | nil => exact absurd rfl nonempty
    | cons c text =>
        rw [cut_cons fun stops => starts (congrArg some stops.1)]
        exact List.cons_ne_nil _ _
  · intro later
    rw [← split, unclosed_append] at closed
    tauto

/-- Every text that closes its quotations is made of tokens. -/
theorem exists_spaced (distinct : sep ≠ quote) {text : List α}
    (closed : ¬ Unclosed quote text) : ∃ tokens, Spaced sep quote tokens text := by
  induction length : text.length using Nat.strong_induction_on generalizing text with
  | _ n ih =>
      obtain ⟨k, behind, rfl, starts⟩ := exists_replicate sep text
      have behindClosed : ¬ Unclosed quote behind := by
        rw [unclosed_append] at closed
        have := not_unclosed_replicate distinct k
        tauto
      by_cases done : behind = []
      · exact ⟨[], by rw [done, List.append_nil]; exact .nil k⟩
      · obtain ⟨token, rest, rfl, isToken, ends, restClosed⟩ := exists_token behindClosed done starts
        have shorter : rest.length < n := by
          have := List.length_pos_iff.mpr isToken.nonempty
          rw [← length, List.length_append, List.length_append]
          omega
        obtain ⟨tokens, spaced⟩ := ih rest.length shorter restClosed rfl
        exact ⟨token :: tokens, .cons k isToken ends spaced⟩

end IpcFtp.Lib
