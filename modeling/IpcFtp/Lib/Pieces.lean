import Mathlib.Data.List.Infix

/-!
# Streams read in pieces

A reader with room for `limit + 1` symbols takes them from a stream until it has seen the mark or
has no more room, and starts afresh.  A mark ends a piece wherever it stands, so what comes behind a
mark is read as if nothing had come before.
-/

namespace IpcFtp.Lib

variable {α : Type}

/-- What the reader takes at once: it ends with its first mark, or it is full. -/
def IsPiece (mark : α) (limit : Nat) (piece : List α) : Prop :=
  ∃ body c, piece = body ++ [c] ∧ mark ∉ body ∧ body.length ≤ limit ∧
    (c = mark ∨ body.length = limit)

section Pieces

variable [DecidableEq α] {mark : α} {limit : Nat}

/-- The pieces of a stream, `held` being what the reader has of the first. -/
def piecesFrom (mark : α) (limit : Nat) : List α → List α → List (List α)
  | _, [] => []
  | held, c :: text =>
    if c ≠ mark ∧ held.length < limit then piecesFrom mark limit (held ++ [c]) text
    else (held ++ [c]) :: piecesFrom mark limit [] text

/-- The pieces a stream is read in; what it leaves in the hands of the reader is none. -/
def pieces (mark : α) (limit : Nat) (text : List α) : List (List α) := piecesFrom mark limit [] text

/-- The rest of a piece, read at once. -/
theorem piecesFrom_append {held body : List α} {c : α} (plain : mark ∉ body)
    (room : held.length + body.length ≤ limit) (last : c = mark ∨ held.length + body.length = limit)
    (text : List α) :
    piecesFrom mark limit held (body ++ c :: text) =
      (held ++ body ++ [c]) :: pieces mark limit text := by
  induction body generalizing held with
  | nil =>
      rw [List.length_nil, Nat.add_zero] at last
      rw [List.nil_append, List.append_nil, piecesFrom, if_neg, pieces]
      rintro ⟨other, more⟩
      rcases last with mark | full
      · exact other mark
      · omega
  | cons b body ih =>
      rw [List.mem_cons, not_or] at plain
      rw [List.length_cons] at room last
      have grown : (held ++ [b]).length = held.length + 1 := List.length_append
      rw [List.cons_append, piecesFrom, if_pos ⟨Ne.symm plain.1, by omega⟩,
        ih plain.2 (by omega) (last.imp_right fun full => by omega), List.append_assoc held,
        List.singleton_append]

/-- A piece in front is read alone. -/
theorem IsPiece.pieces_append {piece : List α} (whole : IsPiece mark limit piece) (text : List α) :
    pieces mark limit (piece ++ text) = piece :: pieces mark limit text := by
  obtain ⟨body, c, rfl, plain, room, last⟩ := whole
  rw [List.append_assoc, List.singleton_append, pieces]
  exact piecesFrom_append plain (by simpa using room) (by simpa using last) text

/-- Any stream is pieces and a rest with room for more. -/
theorem exists_pieces (mark : α) (limit : Nat) (text : List α) :
    ∃ (whole : List (List α)) (rest : List α), text = whole.flatten ++ rest ∧
      (∀ piece ∈ whole, IsPiece mark limit piece) ∧ mark ∉ rest ∧ rest.length ≤ limit := by
  induction text using List.reverseRecOn with
  | nil => exact ⟨[], [], rfl, List.forall_mem_nil _, List.not_mem_nil, Nat.zero_le _⟩
  | append_singleton text c ih =>
      obtain ⟨whole, rest, rfl, known, plain, room⟩ := ih
      by_cases ends : c = mark ∨ rest.length = limit
      · refine ⟨whole ++ [rest ++ [c]], [], ?_, ?_, List.not_mem_nil, Nat.zero_le _⟩
        · simp [List.append_assoc]
        · intro piece member
          rcases List.mem_append.mp member with before | last
          · exact known piece before
          · exact ⟨rest, c, List.mem_singleton.mp last, plain, room, ends⟩
      · rw [not_or] at ends
        refine ⟨whole, rest ++ [c], List.append_assoc _ _ _, known, ?_, ?_⟩
        · rw [List.mem_append, not_or]
          exact ⟨plain, fun last => ends.1 (List.mem_singleton.mp last).symm⟩
        · have more := ends.2
          rw [List.length_append, List.length_singleton]
          omega

theorem pieces_flatten_append {whole : List (List α)}
    (known : ∀ piece ∈ whole, IsPiece mark limit piece) (text : List α) :
    pieces mark limit (whole.flatten ++ text) = whole ++ pieces mark limit text := by
  induction whole with
  | nil => rfl
  | cons piece whole ih =>
      rw [List.forall_mem_cons] at known
      rw [List.flatten_cons, List.append_assoc, known.1.pieces_append, ih known.2, List.cons_append]

/-- A text with a mark behind it is whole pieces. -/
theorem exists_pieces_concat (mark : α) (limit : Nat) (body : List α) :
    ∃ whole : List (List α), body ++ [mark] = whole.flatten ∧
      ∀ piece ∈ whole, IsPiece mark limit piece := by
  obtain ⟨whole, rest, rfl, known, plain, room⟩ := exists_pieces mark limit body
  refine ⟨whole ++ [rest ++ [mark]], by simp [List.append_assoc], ?_⟩
  intro piece member
  rcases List.mem_append.mp member with before | last
  · exact known piece before
  · exact ⟨rest, mark, List.mem_singleton.mp last, plain, room, .inl rfl⟩

/-- Behind a mark the reader starts afresh. -/
theorem pieces_concat_append (body text : List α) :
    pieces mark limit (body ++ [mark] ++ text) =
      pieces mark limit (body ++ [mark]) ++ pieces mark limit text := by
  obtain ⟨whole, same, known⟩ := exists_pieces_concat mark limit body
  have alone : pieces mark limit whole.flatten = whole := by
    simpa [pieces, piecesFrom] using pieces_flatten_append known []
  rw [same, pieces_flatten_append known, alone]

/-- The pieces of such a text make it up. -/
theorem flatten_pieces_concat (mark : α) (limit : Nat) (body : List α) :
    (pieces mark limit (body ++ [mark])).flatten = body ++ [mark] := by
  obtain ⟨whole, same, known⟩ := exists_pieces_concat mark limit body
  have alone : pieces mark limit whole.flatten = whole := by
    simpa [pieces, piecesFrom] using pieces_flatten_append known []
  rw [same, alone]

/-- A piece behind a mark is read as a piece. -/
theorem IsPiece.mem_pieces {piece text : List α} (whole : IsPiece mark limit piece)
    (occurs : mark :: piece <:+: text) : piece ∈ pieces mark limit text := by
  obtain ⟨before, after, rfl⟩ := occurs
  have split : before ++ mark :: piece ++ after = before ++ [mark] ++ (piece ++ after) := by simp
  rw [split, pieces_concat_append, whole.pieces_append]
  exact List.mem_append_right _ List.mem_cons_self

end Pieces

/-! ## Words between separators -/

section Infix

variable {word front back value : List α} {separator : α}

/-- A word without the separator stands on one side of it. -/
theorem infix_of_infix_separator (plain : separator ∉ word)
    (occurs : word <:+: front ++ separator :: back) : word <:+: front ∨ word <:+: back := by
  obtain ⟨before, after, same⟩ := occurs
  rw [List.append_assoc, List.append_eq_append_iff] at same
  rcases same with ⟨more, split, rest⟩ | ⟨more, rfl, rest⟩
  · -- it starts in front, and ends there
    rw [List.append_eq_append_iff] at rest
    rcases rest with ⟨gap, ends, -⟩ | ⟨gap, ends, tail⟩
    · exact .inl ⟨before, gap, by rw [split, ends, List.append_assoc]⟩
    · cases gap with
      | nil => exact .inl ⟨before, [], by rw [split, ends, List.append_nil, List.append_nil]⟩
      | cons c gap =>
          obtain ⟨rfl, -⟩ := List.cons.inj tail
          exact absurd (by rw [ends]; simp) plain
  · cases more with
    | nil =>
        cases word with
        | nil => exact .inl (List.nil_infix)
        | cons c word =>
            obtain ⟨rfl, -⟩ := List.cons.inj rest
            exact absurd List.mem_cons_self plain
    | cons c more =>
        obtain ⟨-, same⟩ := List.cons.inj rest
        exact .inr ⟨more, after, (List.append_assoc _ _ _).trans same.symm⟩

end Infix

end IpcFtp.Lib
