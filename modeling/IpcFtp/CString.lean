import Mathlib.Algebra.Ring.Int.Defs
import Mathlib.Data.FinEnum
import Mathlib.Data.List.Infix
import Mathlib.Data.List.TakeWhile

/-!
# Bytes and C strings

A block of memory is the list of its cells.  Strings are lists of bytes without their
terminator; `CString` carries the fact that a string holds no NUL.  The buffers whose
length the headers name (`BUFFER_LENGTH`, `WHERE_LENGTH`, ...) are bounded and faults
are explicit; a string copied into a block sized from itself is just that string.
-/

namespace IpcFtp

abbrev Byte := UInt8
abbrev Bytes := List Byte

/-- The bytes of a literal. -/
def ascii (s : String) : Bytes := s.toList.map fun c => c.toNat.toUInt8

/-- The byte of a character literal. -/
def chr (c : Char) : Byte := c.toNat.toUInt8

/-- What a C program does when it leaves the behaviour the language defines. -/
inductive Fault : Type
  /-- a cell outside a block is designated -/
  | outOfBounds
  /-- `sprintf` writes past the end of its buffer -/
  | overrun
  /-- a null pointer is dereferenced -/
  | nullPointer
  /-- a signed computation leaves its type -/
  | overflow
  deriving DecidableEq, Repr

/-- A string a C program can hold: no NUL before its end. -/
structure CString : Type where
  bytes : Bytes
  nulFree : 0 ∉ bytes
  deriving DecidableEq

theorem CString.bytes_inj {x y : CString} : x.bytes = y.bytes ↔ x = y := by
  rw [← CString.mk.injEq x.bytes x.nulFree y.bytes y.nulFree]

/-- The string a block holds, up to its first NUL. -/
def cstr (block : Bytes) : Bytes := block.takeWhile (· ≠ 0)

/-- `sprintf` into a buffer of `capacity` bytes: the text and its terminator must fit. -/
def sprintf (capacity : Nat) (text : Bytes) : Except Fault Bytes :=
  if text.length < capacity then .ok text else .error .overrun

/-- `strcmp(x, y) == 0` on two blocks; the comparison stays inside both. -/
def strcmpEq : Bytes → Bytes → Except Fault Bool
  | a :: x, b :: y => if a = b then if a = 0 then .ok true else strcmpEq x y else .ok false
  | _, _ => .error .outOfBounds

/-- `%d` of a number that is not negative. -/
def natDecimal (n : Nat) : Bytes := (Nat.toDigits 10 n).map chr

/-- `%d`. -/
def decimal : Int → Bytes
  | .ofNat n => natDecimal n
  | .negSucc n => chr '-' :: natDecimal (n + 1)

/-- The ten decimal digits. -/
def isDigit (c : Byte) : Prop := chr '0' ≤ c ∧ c ≤ chr '9'

instance (c : Byte) : Decidable (isDigit c) := inferInstanceAs (Decidable (_ ∧ _))

/-! ## Strings in blocks -/

theorem length_ascii (s : String) : (ascii s).length = s.toList.length := by
  rw [ascii, List.length_map]

/-- A literal is its characters under `String.ofList`, so what holds of its bytes is decided on
the characters and the literal is not decoded. -/
theorem ascii_ofList (chars : List Char) : ascii (String.ofList chars) = chars.map chr := by
  rw [ascii, String.toList_ofList]
  rfl

theorem forall_mem_ascii {p : Byte → Prop} [DecidablePred p] {chars : List Char}
    (all : chars.all fun c => p (chr c)) : ∀ b ∈ ascii (String.ofList chars), p b := by
  rw [ascii_ofList, List.forall_mem_map]
  simpa using all

theorem nulFree_ascii {chars : List Char} (plain : chars.all fun c => chr c ≠ 0) :
    0 ∉ ascii (String.ofList chars) := by
  have clean : ∀ b ∈ ascii (String.ofList chars), b ≠ 0 := forall_mem_ascii plain
  intro member
  exact clean 0 member rfl

theorem ascii_cons_ne_nil {c : Char} {chars : List Char} :
    ascii (String.ofList (c :: chars)) ≠ [] := by
  rw [ascii_ofList]
  exact List.cons_ne_nil _ _

theorem nulFree_cstr (block : Bytes) : 0 ∉ cstr block := by
  intro member
  simpa using List.mem_takeWhile_imp member

theorem cstr_of_nulFree {s : Bytes} (nulFree : 0 ∉ s) : cstr s = s := by
  rw [cstr, List.takeWhile_eq_self_iff]
  intro c member
  simpa using ne_of_mem_of_not_mem member nulFree

/-- A NUL-free front of a block lies inside the string the block holds. -/
theorem cstr_append_of_nulFree {s : Bytes} (nulFree : 0 ∉ s) (rest : Bytes) :
    cstr (s ++ rest) = s ++ cstr rest := by
  rw [cstr, List.takeWhile_append_of_pos]
  · rfl
  · intro c member
    simpa using ne_of_mem_of_not_mem member nulFree

theorem length_cstr_le (block : Bytes) : (cstr block).length ≤ block.length :=
  (List.takeWhile_prefix _).length_le

/-- A comparison fails only by leaving a block. -/
theorem strcmpEq_error {x y : Bytes} {e : Fault} (failed : strcmpEq x y = .error e) :
    e = .outOfBounds := by
  induction x, y using strcmpEq.induct with
  | case1 => simp [strcmpEq] at failed
  | case2 x a y _ ih => exact ih (by simpa [strcmpEq, *] using failed)
  | case3 => simp_all [strcmpEq]
  | case4 => simp_all [strcmpEq]

/-- Comparing a window with a string of the same length, each followed by the zeros
its block still has: a difference is found inside the words, and on equal words the
comparison needs a terminator in both blocks. -/
theorem strcmpEq_zeros {x y : Bytes} (nulFree : 0 ∉ y) (length : x.length = y.length)
    (k l : Nat) :
    strcmpEq (x ++ List.replicate k 0) (y ++ List.replicate l 0) =
      if x = y then if k = 0 ∨ l = 0 then .error .outOfBounds else .ok true
      else .ok false := by
  induction x generalizing y with
  | nil =>
      obtain rfl : y = [] := List.length_eq_zero_iff.mp length.symm
      cases k with
      | zero => simp [strcmpEq]
      | succ k =>
          cases l with
          | zero => simp [strcmpEq]
          | succ l => simp [strcmpEq, List.replicate_succ]
  | cons a x ih =>
      cases y with
      | nil => simp at length
      | cons b y =>
          rw [List.mem_cons, not_or] at nulFree
          simp only [List.length_cons, Nat.add_right_cancel_iff] at length
          have tails := ih nulFree.2 length
          simp only [List.cons_append, strcmpEq, tails, List.cons.injEq]
          by_cases heads : a = b
          · subst heads
            simp [Ne.symm nulFree.1]
          · simp [heads]

/-! ## Decimal texts -/

theorem isDigit_chr {c : Char} (digit : c.isDigit = true) : isDigit (chr c) := by
  simp only [Char.isDigit, Bool.and_eq_true, decide_eq_true_eq] at digit
  obtain ⟨low, high⟩ := digit
  have low' : 48 ≤ c.toNat := low
  have high' : c.toNat ≤ 57 := high
  simp only [isDigit, chr, UInt8.le_iff_toNat_le, UInt8.toNat_ofNat']
  refine ⟨?_, ?_⟩ <;> simp <;> omega

theorem isDigit_of_mem_natDecimal {n : Nat} {c : Byte} (member : c ∈ natDecimal n) :
    isDigit c := by
  obtain ⟨d, inside, rfl⟩ := List.mem_map.mp member
  exact isDigit_chr (Nat.isDigit_of_mem_toDigits (by decide) (by decide) inside)

theorem length_natDecimal_le {n k : Nat} (positive : 0 < k) (small : n < 10 ^ k) :
    (natDecimal n).length ≤ k := by
  rw [natDecimal, List.length_map]
  exact (Nat.length_toDigits_le_iff (by decide) positive).mpr small

/-- A decimal text holds digits and a sign only. -/
theorem mem_decimal {i : Int} {c : Byte} (member : c ∈ decimal i) :
    c = chr '-' ∨ isDigit c := by
  cases i with
  | ofNat n => exact .inr (isDigit_of_mem_natDecimal member)
  | negSucc n =>
      rcases List.mem_cons.mp member with sign | digit
      · exact .inl sign
      · exact .inr (isDigit_of_mem_natDecimal digit)

theorem nulFree_decimal (i : Int) : 0 ∉ decimal i := by
  intro inside
  rcases mem_decimal inside with sign | digit
  · exact absurd sign (by decide)
  · exact absurd digit (by decide)

/-! ## Literals of several modules -/

theorem nulFree_a : 0 ∉ ascii "a" := by decide

theorem nulFree_p : 0 ∉ ascii "p" := by decide

theorem nulFree_x : 0 ∉ ascii "x" := by decide

theorem nulFree_065 : 0 ∉ ascii "065" := by decide

theorem nulFree_ann : 0 ∉ ascii "ann" := by decide

theorem nulFree_annHome : 0 ∉ ascii "/fs/ann" := by decide

end IpcFtp
