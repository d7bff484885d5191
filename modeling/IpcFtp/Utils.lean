import IpcFtp.CString

/-!
# Arguments

`split_arguments` and `count_elements` of `utils.c`, and `atoi`.
-/

namespace IpcFtp

/-- Where the loop of `split_arguments` stands; `current` is the sentence from
`last_begin` on. -/
structure Splitter : Type where
  result : List Bytes
  current : Bytes
  lastWasChar : Bool
  quotationOpen : Bool
  deriving DecidableEq

def Splitter.start : Splitter := ⟨[], [], false, false⟩

/-- One character of the sentence. -/
def Splitter.next (s : Splitter) (c : Byte) : Splitter :=
  if c = chr ' ' then
    { s with
      result := if s.lastWasChar ∧ ¬ s.quotationOpen then s.result ++ [s.current] else s.result
      current := s.current ++ [c]
      lastWasChar := false }
  else
    { s with
      current := if ¬ s.quotationOpen ∧ ¬ s.lastWasChar then [c] else s.current ++ [c]
      lastWasChar := true
      quotationOpen := if c = chr '"' then !s.quotationOpen else s.quotationOpen }

/-- `split_arguments`: null for a sentence that ends inside a quotation, else its parts and
an empty one. -/
def splitArguments (sentence : Bytes) : Option (List Bytes) :=
  let s := sentence.foldl Splitter.next .start
  if s.lastWasChar then
    if s.quotationOpen then none else some (s.result ++ [s.current] ++ [[]])
  else some (s.result ++ [[]])

/-- `count_elements`: the parts before the first empty one. -/
def countElements (vector : List Bytes) : Nat := (vector.takeWhile (· ≠ [])).length

example : splitArguments (ascii "post  \"a b\" c ") =
    some [ascii "post", ascii "\"a b\"", ascii "c", []] := by decide

/-! ## Numbers -/

/-- The white space of `isspace`. -/
def isSpace (c : Byte) : Prop := c = chr ' ' ∨ (9 ≤ c ∧ c ≤ 13)

instance (c : Byte) : Decidable (isSpace c) := inferInstanceAs (Decidable (_ ∨ _))

/-- The number of a run of digits. -/
def digitsValue (digits : Bytes) : Nat :=
  digits.foldl (fun value c => value * 10 + (c.toNat - (chr '0').toNat)) 0

/-- `strtol` in base 10, which stops at the bounds of `long`. -/
def strtol (text : Bytes) : Int :=
  let text := text.dropWhile (fun c => decide (isSpace c))
  let unsigned := if text.head? ∈ [some (chr '-'), some (chr '+')] then text.tail else text
  let value := digitsValue (unsigned.takeWhile fun c => decide (isDigit c))
  if text.head? = some (chr '-') then max (-value) (-2 ^ 63) else min value (2 ^ 63 - 1)

/-- `atoi`: the `long` as an `int`. -/
def atoi (text : Bytes) : Int := (strtol text).bmod (2 ^ 32)

example : atoi (ascii " -42x") = -42 := by decide

/-! ## Decimal texts are read back -/

theorem digitsValue_natDecimal (n : Nat) : digitsValue (natDecimal n) = n := by
  have folds (cs : List Char) (digits : ∀ c ∈ cs, c.isDigit = true) (value : Nat) :
      (cs.map chr).foldl (fun value c => value * 10 + (c.toNat - (chr '0').toNat)) value =
        Nat.ofDigitChars 10 cs value := by
    induction cs generalizing value with
    | nil => rw [List.map_nil, List.foldl_nil, Nat.ofDigitChars_nil]
    | cons c cs ih =>
        rw [List.forall_mem_cons] at digits
        have small := digits.1
        simp only [Char.isDigit, Bool.and_eq_true, decide_eq_true_eq] at small
        have code : c.toNat ≤ 57 := small.2
        have same : (chr c).toNat = c.toNat := by
          rw [chr, UInt8.toNat_ofNat']
          omega
        rw [List.map_cons, List.foldl_cons, ih digits.2, Nat.ofDigitChars_cons, same,
          Nat.mul_comm]
        rfl
  unfold digitsValue natDecimal
  rw [folds _ (fun c member => Nat.isDigit_of_mem_toDigits (by decide) (by decide) member),
    Nat.ofDigitChars_ten_toDigits]

theorem takeWhile_natDecimal (n : Nat) :
    (natDecimal n).takeWhile (fun c => decide (isDigit c)) = natDecimal n :=
  List.takeWhile_eq_self_iff.mpr fun _ member => decide_eq_true (isDigit_of_mem_natDecimal member)

theorem natDecimal_ne_nil (n : Nat) : natDecimal n ≠ [] := by
  unfold natDecimal
  rw [Ne, List.map_eq_nil_iff]
  exact Nat.toDigits_ne_nil

theorem not_isSpace_of_isDigit {c : Byte} (digit : isDigit c) : ¬ isSpace c := by
  rintro (rfl | ⟨-, low⟩)
  · exact absurd digit (by decide)
  · exact absurd (UInt8.le_trans digit.1 low) (by decide)

theorem strtol_decimal (i : Int) : strtol (decimal i) = max (-2 ^ 63) (min i (2 ^ 63 - 1)) := by
  cases i with
  | ofNat n =>
      obtain ⟨c, rest, text⟩ := List.exists_cons_of_ne_nil (natDecimal_ne_nil n)
      have digit : isDigit c := isDigit_of_mem_natDecimal (n := n) (text ▸ List.mem_cons_self)
      have minus : c ≠ chr '-' := fun same => absurd (same ▸ digit) (by decide)
      have plus : c ≠ chr '+' := fun same => absurd (same ▸ digit) (by decide)
      have trimmed : (natDecimal n).dropWhile (fun c => decide (isSpace c)) = natDecimal n := by
        rw [text, List.dropWhile_cons_of_neg (by simpa using not_isSpace_of_isDigit digit)]
      have head : (natDecimal n).head? = some c := by rw [text, List.head?_cons]
      simp only [strtol, decimal, trimmed, head]
      rw [if_neg (by simpa using minus), if_neg (by simp [minus, plus]), takeWhile_natDecimal,
        digitsValue_natDecimal, Int.ofNat_eq_natCast]
      omega
  | negSucc n =>
      have trimmed : (chr '-' :: natDecimal (n + 1)).dropWhile (fun c => decide (isSpace c)) =
          chr '-' :: natDecimal (n + 1) := List.dropWhile_cons_of_neg (by decide)
      simp only [strtol, decimal, trimmed, List.head?_cons, List.tail_cons]
      rw [if_pos List.mem_cons_self, if_pos trivial, takeWhile_natDecimal, digitsValue_natDecimal]
      omega

/-- `atoi` reads back every `int`. -/
theorem atoi_decimal {i : Int} (low : -2 ^ 31 ≤ i) (high : i < 2 ^ 31) :
    atoi (decimal i) = i := by
  unfold atoi
  rw [strtol_decimal, show max (-2 ^ 63) (min i (2 ^ 63 - 1)) = i by omega]
  exact Int.bmod_eq_of_le (by omega) (by omega)

theorem atoi_range (text : Bytes) : -2 ^ 31 ≤ atoi text ∧ atoi text < 2 ^ 31 := by
  unfold atoi
  have low := Int.le_bmod (x := strtol text) (m := 2 ^ 32) (by decide)
  have high := Int.bmod_lt (x := strtol text) (m := 2 ^ 32) (by decide)
  omega

end IpcFtp
