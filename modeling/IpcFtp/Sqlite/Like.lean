import IpcFtp.CString

/-!
# LIKE

SQLite compares the characters of a pattern with those of a text, not their bytes.  It reads
characters as UTF-8 and refuses nothing: a byte below `0xC0` is a character of its own, and any
other begins one that takes all the continuation bytes behind it, however many they are.
-/

namespace IpcFtp

/-! ## Characters -/

/-- The bytes `0x80` to `0xBF`, which go on with a character that has begun. -/
def isContinuation (b : Byte) : Prop := b.toNat / 64 = 2

instance (b : Byte) : Decidable (isContinuation b) := inferInstanceAs (Decidable (_ = _))

/-- The bits of a byte that begins a character: the table `sqlite3Utf8Trans1`. -/
def leadingBits (b : Byte) : Nat :=
  if b.toNat < 0xE0 then b.toNat - 0xC0
  else if b.toNat < 0xF0 then b.toNat - 0xE0
  else if b.toNat < 0xF8 then b.toNat - 0xF0
  else if b.toNat < 0xFC then b.toNat - 0xF8
  else if b.toNat < 0xFE then b.toNat - 0xFC
  else 0

/-- The bits of a character are in an `unsigned int`. -/
def continued (bits : Nat) (b : Byte) : Nat := (bits * 64 + b.toNat % 64) % 2 ^ 32

/-- The character of some bits; what needs no second byte, a surrogate, `U+FFFE` and `U+FFFF` are
replaced. -/
def decoded (bits : Nat) : Nat :=
  if bits < 0x80 ∨ 0xD800 ≤ bits ∧ bits < 0xE000 ∨ bits = 0xFFFE ∨ bits = 0xFFFF then 0xFFFD
  else bits

/-- The characters of a text behind one that has begun, if one has. -/
def charactersFrom : Option Nat → Bytes → List Nat
  | pending, [] => (pending.map decoded).toList
  | none, b :: text =>
    if b.toNat < 0xC0 then b.toNat :: charactersFrom none text
    else charactersFrom (some (leadingBits b)) text
  | some bits, b :: text =>
    if isContinuation b then charactersFrom (some (continued bits b)) text
    else if b.toNat < 0xC0 then decoded bits :: b.toNat :: charactersFrom none text
    else decoded bits :: charactersFrom (some (leadingBits b)) text

def characters (text : Bytes) : List Nat := charactersFrom none text

section Characters

variable {first rest : Bytes} {pending : Option Nat}

/-- A character that has begun ends where none goes on with it. -/
theorem charactersFrom_of_head (starts : ∀ b ∈ rest.head?, ¬ isContinuation b) :
    charactersFrom pending rest = (pending.map decoded).toList ++ characters rest := by
  unfold characters
  cases pending with
  | none => rfl
  | some bits =>
      cases rest with
      | nil => rfl
      | cons b rest =>
          have ended : ¬ isContinuation b := starts b rfl
          rw [charactersFrom, charactersFrom, if_neg ended]
          split_ifs <;> rfl

/-- Texts are cut into characters apart where the second does not begin inside one. -/
theorem characters_append (starts : ∀ b ∈ rest.head?, ¬ isContinuation b) :
    characters (first ++ rest) = characters first ++ characters rest := by
  have split (pending : Option Nat) :
      charactersFrom pending (first ++ rest) =
        charactersFrom pending first ++ characters rest := by
    induction first generalizing pending with
    | nil =>
        rw [List.nil_append, charactersFrom_of_head starts, charactersFrom]
    | cons b first ih =>
        cases pending with
        | none =>
            rw [List.cons_append, charactersFrom, charactersFrom]
            split_ifs
            · rw [ih, List.cons_append]
            · rw [ih]
        | some bits =>
            rw [List.cons_append, charactersFrom, charactersFrom]
            split_ifs
            · rw [ih]
            · rw [ih, List.cons_append, List.cons_append]
            · rw [ih, List.cons_append]
  exact split none

/-- A byte below `0xC0` is a character. -/
theorem characters_cons {b : Byte} (single : b.toNat < 0xC0) (text : Bytes) :
    characters (b :: text) = b.toNat :: characters text := if_pos single

end Characters

/-! ## Patterns -/

/-- `sqlite3Tolower`. -/
def lowerCharacter (c : Nat) : Nat := if 0x41 ≤ c ∧ c ≤ 0x5A then c + 32 else c

/-- Letters are compared without regard to case where they are ASCII. -/
def sameCharacter (p c : Nat) : Prop :=
  p = c ∨ p < 0x80 ∧ c < 0x80 ∧ lowerCharacter p = lowerCharacter c

instance (p c : Nat) : Decidable (sameCharacter p c) := inferInstanceAs (Decidable (_ ∨ _))

/-- `patternCompare`: a percent sign stands for any text, an underscore for one character. -/
def patternCompare : List Nat → List Nat → Bool
  | [], text => text = []
  | p :: pattern, text =>
    if p = (chr '%').toNat then text.tails.any (patternCompare pattern)
    else
      match text with
      | [] => false
      | c :: text =>
        (p = (chr '_').toNat ∨ sameCharacter p c) ∧ patternCompare pattern text

/-- `text LIKE pattern`. -/
def like (pattern text : Bytes) : Bool := patternCompare (characters pattern) (characters text)

theorem patternCompare_percent (pattern text : List Nat) :
    patternCompare ((chr '%').toNat :: pattern) text =
      text.tails.any (patternCompare pattern) := by
  rw [patternCompare.eq_def]
  exact if_pos rfl

/-- A pattern that ends in a percent sign matches what begins with its front, also where this
holds wildcards. -/
theorem patternCompare_append (front rest : List Nat) :
    patternCompare (front ++ [(chr '%').toNat]) (front ++ rest) = true := by
  induction front with
  | nil =>
      rw [List.nil_append, patternCompare_percent, List.any_eq_true]
      exact ⟨[], (List.mem_tails _ _).mpr List.nil_suffix, rfl⟩
  | cons c front ih =>
      by_cases wildcard : c = (chr '%').toNat
      · subst wildcard
        rw [List.cons_append, List.cons_append, patternCompare_percent, List.any_eq_true]
        exact ⟨front ++ rest, (List.mem_tails _ _).mpr (List.suffix_cons _ _), ih⟩
      · rw [List.cons_append, List.cons_append, patternCompare, if_neg wildcard]
        simp [ih, sameCharacter]

/-- The same of bytes, where the rest begins a character. -/
theorem like_append (front : Bytes) {rest : Bytes}
    (starts : ∀ b ∈ rest.head?, ¬ isContinuation b) :
    like (front ++ ascii "%") (front ++ rest) = true := by
  have percent : ∀ b ∈ (ascii "%").head?, ¬ isContinuation b := by
    rintro b ⟨⟩
    decide
  unfold like
  rw [characters_append percent, characters_append starts]
  exact patternCompare_append _ _

/-- What lies below a home matches the pattern made of the home. -/
theorem like_below (home name : Bytes) :
    like (home ++ ascii "%") (home ++ ascii "/" ++ name) = true := by
  rw [List.append_assoc]
  refine like_append _ ?_
  rintro b ⟨⟩
  decide

/-- An underscore is one character of two bytes, as in `/fs/éb/x`, and not one of its bytes. -/
example :
    like (ascii "/fs/_b%") (ascii "/fs/" ++ [0xC3, 0xA9] ++ ascii "b/x") = true ∧
      like (ascii "/fs/__b%") (ascii "/fs/" ++ [0xC3, 0xA9] ++ ascii "b/x") = false := by
  decide +kernel

end IpcFtp
