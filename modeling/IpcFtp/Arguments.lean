import IpcFtp.Utils
import IpcFtp.Lib.Tokens

/-!
# The arguments of a sentence

What `split_arguments` makes of a sentence.  The arguments are the sentence's tokens where it
closes its quotations.  Where it does not, the answer is null only if the last character is
no space: a sentence that ends inside a quotation with a space loses what it has read since
the last argument.
-/

namespace IpcFtp

open Lib

/-- The sentence holds an odd number of double quotes. -/
abbrev OddQuotes (sentence : Bytes) : Prop := Unclosed (chr '"') sentence

/-- A token of a sentence. -/
abbrev Argument (token : Bytes) : Prop := Lib.Token (chr ' ') (chr '"') token

/-- The sentence's arguments, with what stands between them. -/
abbrev Arguments (tokens : List Bytes) (sentence : Bytes) : Prop :=
  Spaced (chr ' ') (chr '"') tokens sentence

/-- The arguments behind the loop, once it has read the whole sentence. -/
def Splitter.arguments (s : Splitter) : List Bytes :=
  if s.lastWasChar then s.result ++ [s.current] else s.result

section Loop

variable {s : Splitter} {c : Byte} {tokens : List Bytes} {sentence token : Bytes}

theorem splitArguments_eq :
    splitArguments sentence =
      if (sentence.foldl Splitter.next .start).lastWasChar ∧
        (sentence.foldl Splitter.next .start).quotationOpen then none
      else some ((sentence.foldl Splitter.next .start).arguments ++ [[]]) := by
  unfold splitArguments Splitter.arguments
  split_ifs <;> simp_all

theorem Splitter.next_space :
    s.next (chr ' ') =
      ⟨if s.lastWasChar ∧ ¬ s.quotationOpen then s.result ++ [s.current] else s.result,
        s.current ++ [chr ' '], false, s.quotationOpen⟩ := if_pos rfl

theorem Splitter.next_char (char : c ≠ chr ' ') :
    s.next c =
      ⟨s.result, if ¬ s.quotationOpen ∧ ¬ s.lastWasChar then [c] else s.current ++ [c], true,
        if c = chr '"' then !s.quotationOpen else s.quotationOpen⟩ := if_neg char

theorem Splitter.next_lastWasChar : (s.next c).lastWasChar = decide (c ≠ chr ' ') := by
  by_cases space : c = chr ' '
  · subst space
    rw [Splitter.next_space]
    rfl
  · rw [Splitter.next_char space, decide_eq_true space]

theorem Splitter.next_quotationOpen :
    (s.next c).quotationOpen = (s.quotationOpen ^^ decide (c = chr '"')) := by
  by_cases space : c = chr ' '
  · subst space
    rw [Splitter.next_space]
    exact (Bool.xor_false _).symm
  · rw [Splitter.next_char space]
    by_cases quote : c = chr '"' <;> simp [quote]

theorem Splitter.quotationOpen_foldl :
    (sentence.foldl Splitter.next s).quotationOpen =
      (s.quotationOpen ^^ decide (OddQuotes sentence)) := by
  induction sentence using List.reverseRecOn with
  | nil =>
      have : ¬ OddQuotes [] := not_unclosed_nil
      simp [this]
  | append_singleton front c ih =>
      rw [List.foldl_concat, Splitter.next_quotationOpen, ih]
      by_cases same : c = chr '"'
      · subst same
        have : OddQuotes (front ++ [chr '"']) ↔ ¬ OddQuotes front := unclosed_concat_quote
        simp [this]
      · have : OddQuotes (front ++ [c]) ↔ OddQuotes front := unclosed_concat same
        simp [this, same]

/-- From between two arguments, what is read of a token is kept from its first character
on. -/
theorem Splitter.foldl_part (idle : s.lastWasChar = false) (closed : s.quotationOpen = false)
    (isToken : Argument token) {front back : Bytes} (split : token = front ++ back)
    (nonempty : front ≠ []) :
    (front.foldl Splitter.next s).result = s.result ∧
      (front.foldl Splitter.next s).current = front ∧
      (¬ OddQuotes front → (front.foldl Splitter.next s).lastWasChar = true) := by
  induction front using List.reverseRecOn generalizing back with
  | nil => exact absurd rfl nonempty
  | append_singleton front c ih =>
      have quotation : (front.foldl Splitter.next s).quotationOpen = decide (OddQuotes front) := by
        rw [Splitter.quotationOpen_foldl, closed, Bool.false_xor]
      rw [List.append_assoc, List.singleton_append] at split
      rw [List.foldl_concat]
      by_cases space : c = chr ' '
      · -- a space of the token stands inside a quotation, so behind its first character
        subst space
        have inside : OddQuotes front := isToken.quoted front back split
        have begun : front ≠ [] := fun none => not_unclosed_nil (none ▸ inside)
        obtain ⟨result, current, -⟩ := ih split begun
        rw [Splitter.next_space, quotation]
        refine ⟨?_, by rw [current], fun outside => ?_⟩
        · simpa [inside] using result
        · exact absurd ((unclosed_concat (by decide)).mpr inside) outside
      · rw [Splitter.next_char space]
        by_cases first : front = []
        · subst first
          simp [idle, closed]
        · obtain ⟨result, current, last⟩ := ih split first
          refine ⟨result, ?_, fun _ => rfl⟩
          rw [if_neg, current]
          intro given
          obtain ⟨outside, apart⟩ := given
          exact apart (last (by simpa [quotation] using outside))

theorem Splitter.foldl_token (idle : s.lastWasChar = false) (closed : s.quotationOpen = false)
    (isToken : Argument token) :
    token.foldl Splitter.next s = ⟨s.result, token, true, false⟩ := by
  obtain ⟨result, current, last⟩ := Splitter.foldl_part idle closed isToken
    (List.append_nil token).symm isToken.nonempty
  have quotation : (token.foldl Splitter.next s).quotationOpen = false := by
    simpa [Splitter.quotationOpen_foldl, closed] using isToken.closed
  rw [← result, ← last isToken.closed, ← quotation]
  conv_rhs => enter [2]; rw [← current]

/-- At a space, an argument that has just ended is as good as one that is in the vector. -/
theorem Splitter.foldl_space {result : List Bytes} {rest : Bytes}
    (space : rest.head? = some (chr ' ')) :
    rest.foldl Splitter.next ⟨result, token, true, false⟩ =
      rest.foldl Splitter.next ⟨result ++ [token], token, false, false⟩ := by
  cases rest with
  | nil => cases space
  | cons c rest =>
      obtain rfl : c = chr ' ' := Option.some.inj space
      rw [List.foldl_cons, List.foldl_cons, Splitter.next_space, Splitter.next_space]
      rfl

theorem Splitter.foldl_spaces (idle : s.lastWasChar = false) (k : Nat) :
    (List.replicate k (chr ' ')).foldl Splitter.next s =
      ⟨s.result, s.current ++ List.replicate k (chr ' '), false, s.quotationOpen⟩ := by
  induction k with
  | zero => rw [← idle]; simp
  | succ k ih =>
      rw [List.replicate_succ', List.foldl_concat, ih, Splitter.next_space]
      simp

/-- From between two arguments, the loop adds the tokens of what it reads. -/
theorem Splitter.arguments_foldl (idle : s.lastWasChar = false) (closed : s.quotationOpen = false)
    (spaced : Arguments tokens sentence) :
    (sentence.foldl Splitter.next s).quotationOpen = false ∧
      (sentence.foldl Splitter.next s).arguments = s.result ++ tokens := by
  induction spaced generalizing s with
  | nil k =>
      rw [Splitter.foldl_spaces idle]
      exact ⟨closed, (List.append_nil _).symm⟩
  | @cons token rest tokens k isToken ends _ ih =>
      obtain ⟨quotation, arguments⟩ := @ih ⟨s.result ++ [token], token, false, false⟩ rfl rfl
      rw [List.append_assoc, List.singleton_append] at arguments
      rw [List.foldl_append, List.foldl_append, Splitter.foldl_spaces idle,
        Splitter.foldl_token (s := ⟨s.result, _, false, s.quotationOpen⟩) rfl closed isToken]
      rcases ends with rfl | space
      · exact ⟨rfl, arguments⟩
      · rw [Splitter.foldl_space space]
        exact ⟨quotation, arguments⟩

end Loop

section Vector

variable {tokens : List Bytes} {sentence : Bytes}

theorem splitArguments_of_arguments (spaced : Arguments tokens sentence) :
    splitArguments sentence = some (tokens ++ [[]]) := by
  obtain ⟨quotation, arguments⟩ := Splitter.arguments_foldl (s := .start) rfl rfl spaced
  rw [splitArguments_eq, if_neg (by rw [quotation]; simp), arguments]
  rfl

theorem Splitter.lastWasChar_foldl :
    (sentence.foldl Splitter.next .start).lastWasChar = true ↔
      sentence ≠ [] ∧ sentence.getLast? ≠ some (chr ' ') := by
  induction sentence using List.reverseRecOn with
  | nil => simp [Splitter.start]
  | append_singleton front c _ =>
      rw [List.foldl_concat, Splitter.next_lastWasChar]
      simp

/-- The answer is null for an unclosed quotation, unless a space ends the sentence. -/
theorem splitArguments_eq_none :
    splitArguments sentence = none ↔
      OddQuotes sentence ∧ sentence.getLast? ≠ some (chr ' ') := by
  have open_ : (sentence.foldl Splitter.next .start).quotationOpen = true ↔ OddQuotes sentence := by
    rw [Splitter.quotationOpen_foldl]
    simp [Splitter.start]
  have nonempty : OddQuotes sentence → sentence ≠ [] := by
    intro odd same
    subst same
    exact not_unclosed_nil odd
  rw [splitArguments_eq]
  simp only [Splitter.lastWasChar_foldl, open_]
  split_ifs with null
  · exact iff_of_true rfl ⟨null.2, null.1.2⟩
  · refine iff_of_false nofun ?_
    intro given
    obtain ⟨odd, last⟩ := given
    exact null ⟨⟨nonempty odd, last⟩, odd⟩

theorem countElements_tokens (nonempty : ∀ token ∈ tokens, token ≠ []) :
    countElements (tokens ++ [[]]) = tokens.length := by
  unfold countElements
  rw [List.takeWhile_append_of_pos (by simpa using nonempty)]
  simp

/-- A vector that a space at the end does not spoil holds the sentence's tokens. -/
theorem arguments_of_splitArguments {vector : List Bytes}
    (split : splitArguments sentence = some vector) (last : sentence.getLast? ≠ some (chr ' ')) :
    ∃ tokens, Arguments tokens sentence ∧ vector = tokens ++ [[]] := by
  have even : ¬ OddQuotes sentence := fun odd => by
    rw [splitArguments_eq_none.mpr ⟨odd, last⟩] at split
    cases split
  obtain ⟨tokens, spaced⟩ := exists_spaced (show chr ' ' ≠ chr '"' by decide) even
  rw [splitArguments_of_arguments spaced, Option.some.injEq] at split
  exact ⟨tokens, spaced, split.symm⟩

/-- What the loop keeps is of what it has read. -/
theorem Splitter.subset_foldl (sentence : Bytes) :
    (sentence.foldl Splitter.next .start).current ⊆ sentence ∧
      ∀ part ∈ (sentence.foldl Splitter.next .start).result, part ⊆ sentence := by
  induction sentence using List.reverseRecOn with
  | nil => exact ⟨List.nil_subset _, nofun⟩
  | append_singleton front c ih =>
      obtain ⟨current, result⟩ := ih
      have longer {part : Bytes} (inside : part ⊆ front) : part ⊆ front ++ [c] :=
        List.Subset.trans inside (List.subset_append_left _ _)
      have grown : (front.foldl Splitter.next .start).current ++ [c] ⊆ front ++ [c] :=
        List.append_subset.mpr ⟨longer current, List.subset_append_right _ _⟩
      rw [List.foldl_concat]
      by_cases space : c = chr ' '
      · subst space
        rw [Splitter.next_space]
        refine ⟨grown, fun part member => ?_⟩
        dsimp only at member
        split_ifs at member
        · rcases List.mem_append.mp member with before | last
          · exact longer (result part before)
          · exact List.mem_singleton.mp last ▸ longer current
        · exact longer (result part member)
      · rw [Splitter.next_char space]
        refine ⟨?_, fun part member => longer (result part member)⟩
        dsimp only
        split_ifs
        · exact List.subset_append_right _ _
        · exact grown

/-- A part holds nothing that the sentence does not hold. -/
theorem subset_of_mem_splitArguments {vector : List Bytes} {part : Bytes}
    (split : splitArguments sentence = some vector) (member : part ∈ vector) :
    part ⊆ sentence := by
  obtain ⟨current, result⟩ := Splitter.subset_foldl sentence
  rw [splitArguments_eq] at split
  split_ifs at split
  obtain rfl := Option.some.inj split
  rcases List.mem_append.mp member with argument | last
  · unfold Splitter.arguments at argument
    split_ifs at argument
    · rcases List.mem_append.mp argument with before | last
      · exact result part before
      · exact List.mem_singleton.mp last ▸ current
    · exact result part argument
  · exact List.mem_singleton.mp last ▸ List.nil_subset _

end Vector

/-- A sentence that closes its quotations is split into exactly its tokens, whatever spaces
stand between them. -/
theorem splitArguments_tokens :
    (∀ sentence, ¬ OddQuotes sentence →
      ∃ tokens, Arguments tokens sentence ∧ splitArguments sentence = some (tokens ++ [[]])) ∧
    ∀ tokens sentence, Arguments tokens sentence →
      splitArguments sentence = some (tokens ++ [[]]) ∧
      countElements (tokens ++ [[]]) = tokens.length := by
  constructor
  · intro sentence even
    obtain ⟨tokens, spaced⟩ := exists_spaced (show chr ' ' ≠ chr '"' by decide) even
    exact ⟨tokens, spaced, splitArguments_of_arguments spaced⟩
  · intro tokens sentence spaced
    exact ⟨splitArguments_of_arguments spaced,
      countElements_tokens fun _ member => (spaced.token_of_mem member).nonempty⟩

theorem splitArguments_tokens_post :
    (∃ tokens, Arguments tokens (ascii " post \"a b\"c \"\" ") ∧
      splitArguments (ascii " post \"a b\"c \"\" ") = some (tokens ++ [[]])) ∧
    splitArguments (ascii "post  \"a b\"c ") = some ([ascii "post", ascii "\"a b\"c"] ++ [[]]) ∧
    countElements ([ascii "post", ascii "\"a b\"c"] ++ [[]]) = 2 := by
  refine ⟨splitArguments_tokens.1 _ (by decide), splitArguments_tokens.2 _ _ ?_⟩
  exact .cons 0 (by decide) (.inr rfl) (.cons 2 (by decide) (.inr rfl) (.nil 1))

end IpcFtp
