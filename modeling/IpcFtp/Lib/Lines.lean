import Mathlib.Data.List.Basic
import Mathlib.Data.List.TakeWhile

/-!
# Texts made of lines

A line is closed by the symbol `nl`.  A text that holds `nl` itself makes more than one line
of what it is written into: a line of each of its parts.
-/

namespace IpcFtp.Lib

section Unlines

variable {α : Type} {nl : α}

/-- Each line with its end. -/
def unlines (nl : α) (lines : List (List α)) : List α := lines.flatMap (· ++ [nl])

@[simp] theorem unlines_nil : unlines nl [] = [] := rfl

@[simp] theorem unlines_cons (line : List α) (lines : List (List α)) :
    unlines nl (line :: lines) = line ++ nl :: unlines nl lines := by
  rw [unlines, List.flatMap_cons, List.append_assoc, List.singleton_append]
  rfl

theorem unlines_append (front back : List (List α)) :
    unlines nl (front ++ back) = unlines nl front ++ unlines nl back := List.flatMap_append

end Unlines

section Parts

variable {α : Type} [DecidableEq α] {nl c : α} {text part : List α}

/-- The parts of a text between its line ends. -/
def parts (nl : α) (text : List α) : List (List α) := text.splitOn nl

theorem parts_nil : parts nl [] = [[]] := List.splitOn_nil nl

theorem parts_cons_self (text : List α) : parts nl (nl :: text) = [] :: parts nl text := by
  unfold parts
  rw [List.splitOn_cons_eq_if_modifyHead, if_pos (beq_self_eq_true nl)]

/-- A symbol that ends no line belongs to the first part. -/
theorem exists_parts_cons (other : c ≠ nl) (text : List α) :
    ∃ first rest, parts nl text = first :: rest ∧
      parts nl (c :: text) = (c :: first) :: rest := by
  obtain ⟨first, rest, split⟩ := List.exists_cons_of_ne_nil (List.splitOn_ne_nil nl text)
  refine ⟨first, rest, split, ?_⟩
  unfold parts
  rw [List.splitOn_cons_eq_if_modifyHead, if_neg (by simpa using other), split,
    List.modifyHead_cons]

/-- A text with its end is its parts, each with its own. -/
theorem unlines_parts (text : List α) : unlines nl (parts nl text) = text ++ [nl] := by
  induction text with
  | nil =>
      rw [parts_nil, unlines_cons, unlines_nil]
  | cons c text ih =>
      by_cases same : c = nl
      · rw [same, parts_cons_self, unlines_cons, ih]
        rfl
      · obtain ⟨first, rest, split, grown⟩ := exists_parts_cons same text
        rw [split, unlines_cons] at ih
        rw [grown, unlines_cons, List.cons_append, ih, List.cons_append]

/-- Written one text after the other, texts are their parts. -/
theorem unlines_flatMap_parts (texts : List (List α)) :
    unlines nl (texts.flatMap (parts nl)) = unlines nl texts := by
  induction texts with
  | nil => rfl
  | cons text texts ih =>
      rw [List.flatMap_cons, unlines_append, unlines_parts, ih, unlines_cons, List.append_assoc,
        List.singleton_append]

theorem not_mem_of_mem_parts (member : part ∈ parts nl text) : nl ∉ part := by
  induction text generalizing part with
  | nil =>
      rw [parts_nil, List.mem_singleton] at member
      exact member ▸ List.not_mem_nil
  | cons c text ih =>
      by_cases same : c = nl
      · rw [same, parts_cons_self, List.mem_cons] at member
        rcases member with rfl | later
        · exact List.not_mem_nil
        · exact ih later
      · obtain ⟨first, rest, split, grown⟩ := exists_parts_cons same text
        rw [split] at ih
        rw [grown, List.mem_cons] at member
        rcases member with rfl | later
        · rw [List.mem_cons, not_or]
          exact ⟨Ne.symm same, ih List.mem_cons_self⟩
        · exact ih (.tail _ later)

/-- A part is what the text holds between two places. -/
theorem sublist_of_mem_parts (member : part ∈ parts nl text) : part.Sublist text := by
  induction text generalizing part with
  | nil =>
      rw [parts_nil, List.mem_singleton] at member
      exact member ▸ .refl []
  | cons c text ih =>
      by_cases same : c = nl
      · rw [same, parts_cons_self, List.mem_cons] at member
        rcases member with rfl | later
        · exact List.nil_sublist _
        · exact (ih later).cons c
      · obtain ⟨first, rest, split, grown⟩ := exists_parts_cons same text
        rw [split] at ih
        rw [grown, List.mem_cons] at member
        rcases member with rfl | later
        · exact (ih List.mem_cons_self).cons_cons c
        · exact (ih (.tail _ later)).cons c

theorem parts_of_not_mem (single : nl ∉ text) : parts nl text = [text] :=
  List.splitOn_eq_singleton single

/-- The first part ends at the first line end. -/
theorem head?_parts (text : List α) :
    (parts nl text).head? = some (text.takeWhile (· ≠ nl)) := by
  induction text with
  | nil =>
      rw [parts_nil]
      rfl
  | cons c text ih =>
      by_cases same : c = nl
      · rw [same, parts_cons_self, List.takeWhile_cons_of_neg (by simp)]
        rfl
      · obtain ⟨first, rest, split, grown⟩ := exists_parts_cons same text
        rw [split, List.head?_cons, Option.some.injEq] at ih
        rw [grown, List.takeWhile_cons_of_pos (by simpa using same), ← ih]
        rfl

/-- A text begins with a line if it is the line, or goes on behind its end. -/
theorem takeWhile_eq_iff (text line : List α) :
    text.takeWhile (· ≠ nl) = line ↔
      nl ∉ line ∧ (text = line ∨ ∃ rest, text = line ++ nl :: rest) := by
  have inside : ∀ line : List α, nl ∉ line → ∀ c ∈ line, decide (c ≠ nl) = true :=
    fun line free c member => decide_eq_true fun hit => free (hit ▸ member)
  constructor
  · rintro rfl
    refine ⟨fun member => by simpa using List.mem_takeWhile_imp member, ?_⟩
    have split : text = text.takeWhile (· ≠ nl) ++ text.dropWhile (· ≠ nl) :=
      List.takeWhile_append_dropWhile.symm
    cases behind : text.dropWhile (· ≠ nl) with
    | nil => exact .inl (by rw [behind, List.append_nil] at split; exact split)
    | cons c rest =>
        have ends : c = nl := by
          have head := List.head?_dropWhile_not (fun c => decide (c ≠ nl)) text
          rw [behind] at head
          simpa using head
        rw [behind, ends] at split
        exact .inr ⟨rest, split⟩
  · intro given
    rcases given with ⟨free, rfl | ⟨rest, rfl⟩⟩
    · exact List.takeWhile_eq_self_iff.mpr (inside _ free)
    · rw [List.takeWhile_append_of_pos (inside _ free), List.takeWhile_cons_of_neg (by simp),
        List.append_nil]

end Parts

/-- Of two texts with a symbol between them, the second no line's end, a line that lacks the
symbol ends in the first. -/
theorem eq_append_of_joined {α : Type} {sep nl : α} {front back line rest : List α}
    (other : sep ≠ nl) (apart : sep ∈ line → nl ∉ back)
    (same : front ++ sep :: back = line ++ nl :: rest) : ∃ later, front = line ++ nl :: later := by
  rcases List.append_eq_append_iff.mp same with ⟨between, rfl, behind⟩ | ⟨between, rfl, behind⟩
  · cases between with
    | nil => exact absurd (List.cons.inj behind).1 other
    | cons c between =>
        obtain ⟨rfl, rfl⟩ := List.cons.inj behind
        exact absurd (List.mem_append_right _ List.mem_cons_self) (apart (by simp))
  · cases between with
    | nil => exact absurd (List.cons.inj behind).1.symm other
    | cons c between =>
        obtain ⟨rfl, -⟩ := List.cons.inj behind
        exact ⟨between, rfl⟩

end IpcFtp.Lib
