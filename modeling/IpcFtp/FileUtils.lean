import IpcFtp.Utils

/-!
# Files as digit strings

`encode_raw_data` and `decode_to_raw_data` of `lib/file_utils/file_utils.c`.  A file
travels as three decimal digits for each of its bytes.  `encodeRawDataFrom` is the loop of
the encoder, which appends to a string; `encodeRawData` is what it comes to.
-/

namespace IpcFtp

/-- One decimal digit. -/
def digit (n : Nat) : Byte := chr '0' + n.toUInt8

/-- `"%03d"` of a byte. -/
def threeDigits (b : Byte) : Bytes :=
  [digit (b.toNat / 100), digit (b.toNat / 10 % 10), digit (b.toNat % 10)]

/-- `encode_raw_data`; its callers pass the size of `data`. -/
def encodeRawData (data : Bytes) : Bytes := data.flatMap threeDigits

/-- `decode_to_raw_data`: the cells its loop fills.  A group of two digits is completed
by the terminator of `data`, a group of one reads past it.  The arithmetic is that of the
conversion to `char`. -/
def decodeToRawData : Bytes → Except Fault Bytes
  | [] => .ok []
  | [_] => .error .outOfBounds
  | [a, b] => .ok [(a - chr '0') * 100 + (b - chr '0') * 10 + (0 - chr '0')]
  | a :: b :: c :: rest => do
    let decoded ← decodeToRawData rest
    return ((a - chr '0') * 100 + (b - chr '0') * 10 + (c - chr '0')) :: decoded

theorem isDigit_digit {n : Nat} (small : n < 10) : isDigit (digit n) := by
  unfold isDigit digit
  rw [UInt8.le_iff_toNat_le, UInt8.le_iff_toNat_le, UInt8.toNat_add, Nat.toUInt8,
    UInt8.toNat_ofNat', show (chr '0').toNat = 48 from rfl, show (chr '9').toNat = 57 from rfl]
  omega

theorem isDigit_of_mem_encodeRawData {data : Bytes} {c : Byte} (member : c ∈ encodeRawData data) :
    isDigit c := by
  obtain ⟨b, _, inside⟩ := List.mem_flatMap.mp member
  have small : b.toNat < 256 := b.toNat_lt
  simp only [threeDigits, List.mem_cons, List.not_mem_nil, or_false] at inside
  rcases inside with rfl | rfl | rfl <;> exact isDigit_digit (by omega)

theorem nulFree_encodeRawData (data : Bytes) : 0 ∉ encodeRawData data := fun inside =>
  absurd (isDigit_of_mem_encodeRawData inside) (by decide)

theorem length_encodeRawData (data : Bytes) : (encodeRawData data).length = 3 * data.length := by
  induction data with
  | nil => rfl
  | cons b data ih =>
      rw [encodeRawData, List.flatMap_cons, List.length_append, ← encodeRawData, ih]
      simp only [threeDigits, List.length_cons, List.length_nil]
      omega

theorem digit_sub (n : Nat) : digit n - chr '0' = n.toUInt8 := by
  rw [digit, UInt8.add_comm, UInt8.add_sub_cancel]

/-- What three digits come to in a byte. -/
theorem toNat_digits (h t o : Nat) :
    ((digit h - chr '0') * 100 + (digit t - chr '0') * 10 + (digit o - chr '0')).toNat =
      (h * 100 + t * 10 + o) % 256 := by
  rw [digit_sub, digit_sub, digit_sub]
  simp only [UInt8.toNat_add, UInt8.toNat_mul, Nat.toUInt8, UInt8.toNat_ofNat',
    show (100 : Byte).toNat = 100 from rfl, show (10 : Byte).toNat = 10 from rfl]
  omega

/-- Three digits give their byte back. -/
theorem threeDigits_value (b : Byte) :
    (digit (b.toNat / 100) - chr '0') * 100 + (digit (b.toNat / 10 % 10) - chr '0') * 10 +
      (digit (b.toNat % 10) - chr '0') = b := by
  have small : b.toNat < 256 := b.toNat_lt
  have hundreds : b.toNat / 10 / 10 = b.toNat / 100 := Nat.div_div_eq_div_mul ..
  apply UInt8.toNat_inj.mp
  rw [toNat_digits]
  omega

/-- What has been encoded decodes to itself. -/
theorem decode_encode (data : Bytes) : decodeToRawData (encodeRawData data) = .ok data := by
  induction data with
  | nil => rfl
  | cons b data ih =>
      rw [encodeRawData, List.flatMap_cons, ← encodeRawData, threeDigits]
      simp only [List.cons_append, List.nil_append, decodeToRawData, ih, threeDigits_value]
      rfl

/-! ## The loop of the encoder -/

/-- `"%03d"` of a number that is not negative. -/
def format03d (n : Nat) : Bytes :=
  List.replicate (3 - (natDecimal n).length) (chr '0') ++ natDecimal n

/-- `strncat(output, tmp, n)`. -/
def strncat (output tmp : Bytes) (n : Nat) : Bytes := output ++ (cstr tmp).take n

/-- The loop of `encode_raw_data` over the bytes that are left. -/
def encodeRawDataFrom (output : Bytes) : Bytes → Bytes
  | [] => output
  | b :: data => encodeRawDataFrom (strncat output (format03d b.toNat) 3) data

theorem format03d_eq (b : Byte) : format03d b.toNat = threeDigits b := by
  have all : ∀ n : Fin 256, format03d n = threeDigits (UInt8.ofNat n) := by
    decide +kernel
  have same := all ⟨b.toNat, b.toNat_lt⟩
  rwa [UInt8.ofNat_toNat] at same

theorem nulFree_threeDigits (b : Byte) : 0 ∉ threeDigits b := by
  have free := nulFree_encodeRawData [b]
  rwa [encodeRawData, List.flatMap_singleton] at free

theorem encodeRawDataFrom_eq (output data : Bytes) :
    encodeRawDataFrom output data = output ++ encodeRawData data := by
  induction data generalizing output with
  | nil => exact (List.append_nil output).symm
  | cons b data ih =>
      rw [encodeRawDataFrom, ih, strncat, format03d_eq, cstr_of_nulFree (nulFree_threeDigits b)]
      exact List.append_assoc ..

/-! ## Digit strings -/

/-- The number of a digit. -/
theorem exists_of_isDigit {c : Byte} (isDigit : isDigit c) : ∃ n < 10, c = digit n := by
  obtain ⟨low, high⟩ := isDigit
  rw [UInt8.le_iff_toNat_le] at low high
  rw [show (chr '0').toNat = 48 from rfl] at low
  rw [show (chr '9').toNat = 57 from rfl] at high
  refine ⟨c.toNat - 48, by omega, UInt8.toNat_inj.mp ?_⟩
  rw [digit, UInt8.toNat_add, Nat.toUInt8, UInt8.toNat_ofNat', show (chr '0').toNat = 48 from rfl]
  omega

theorem toNat_digit {n : Nat} (small : n < 10) : (digit n).toNat = 48 + n := by
  rw [digit, UInt8.toNat_add, Nat.toUInt8, UInt8.toNat_ofNat', show (chr '0').toNat = 48 from rfl]
  omega

/-- The digits of the value of three digits are these digits, if the value is a byte's. -/
theorem threeDigits_of_digits {h t o : Nat} (hundreds : h < 10) (tens : t < 10) (ones : o < 10)
    (small : digitsValue [digit h, digit t, digit o] ≤ 255) :
    threeDigits ((digit h - chr '0') * 100 + (digit t - chr '0') * 10 + (digit o - chr '0')) =
      [digit h, digit t, digit o] := by
  simp only [digitsValue, List.foldl_cons, List.foldl_nil, toNat_digit hundreds, toNat_digit tens,
    toNat_digit ones, show (chr '0').toNat = 48 from rfl] at small
  have value : ((digit h - chr '0') * 100 + (digit t - chr '0') * 10 + (digit o - chr '0')).toNat =
      h * 100 + t * 10 + o := by
    rw [toNat_digits]
    omega
  have parts : (h * 100 + t * 10 + o) / 100 = h ∧ (h * 100 + t * 10 + o) / 10 % 10 = t ∧
      (h * 100 + t * 10 + o) % 10 = o := by omega
  rw [threeDigits, value, parts.1, parts.2.1, parts.2.2]

/-- Decoding groups of digits that denote bytes loses nothing. -/
theorem encode_decode : ∀ {s : Bytes}, (∀ c ∈ s, isDigit c) → 3 ∣ s.length →
    (∀ k < s.length / 3, digitsValue ((s.drop (3 * k)).take 3) ≤ 255) →
      ∃ data, decodeToRawData s = .ok data ∧ data.length = s.length / 3 ∧ encodeRawData data = s
  | [], _, _, _ => ⟨[], rfl, rfl, rfl⟩
  | [_], _, multiple, _ | [_, _], _, multiple, _ => by
    simp at multiple
  | a :: b :: c :: rest, digits, multiple, small => by
    have groups : (a :: b :: c :: rest).length / 3 = rest.length / 3 + 1 := by
      simp only [List.length_cons]
      omega
    obtain ⟨h, hundreds, rfl⟩ := exists_of_isDigit (digits a (by simp))
    obtain ⟨t, tens, rfl⟩ := exists_of_isDigit (digits b (by simp))
    obtain ⟨o, ones, rfl⟩ := exists_of_isDigit (digits c (by simp))
    have first := small 0 (by omega)
    have later : ∀ k < rest.length / 3, digitsValue ((rest.drop (3 * k)).take 3) ≤ 255 := by
      intro k inside
      have group := small (k + 1) (by omega)
      rwa [show 3 * (k + 1) = 3 * k + 1 + 1 + 1 by omega, List.drop_succ_cons, List.drop_succ_cons,
        List.drop_succ_cons] at group
    obtain ⟨data, decoded, length, encoded⟩ := encode_decode
      (fun d member => digits d (by simp [member])) (by simp only [List.length_cons] at multiple; omega)
      later
    refine ⟨_ :: data, by rw [decodeToRawData, decoded]; rfl, by rw [groups, List.length_cons, length],
      ?_⟩
    rw [encodeRawData, List.flatMap_cons, ← encodeRawData, encoded,
      threeDigits_of_digits hundreds tens ones first]
    rfl

/-- Both directions of the encoding, as the encoder's loop computes it. -/
theorem raw_data_round_trip :
    (∀ data, (encodeRawDataFrom [] data).length = 3 * data.length ∧
      (∀ c ∈ encodeRawDataFrom [] data, isDigit c) ∧
        decodeToRawData (encodeRawDataFrom [] data) = .ok data) ∧
      ∀ s : Bytes, (∀ c ∈ s, isDigit c) → 3 ∣ s.length →
        (∀ k < s.length / 3, digitsValue ((s.drop (3 * k)).take 3) ≤ 255) →
          ∃ data, decodeToRawData s = .ok data ∧ data.length = s.length / 3 ∧
            encodeRawDataFrom [] data = s := by
  simp only [encodeRawDataFrom_eq, List.nil_append]
  refine ⟨fun data => ⟨length_encodeRawData data, ?_, decode_encode data⟩, ?_⟩
  · exact fun c member => isDigit_of_mem_encodeRawData member
  · exact fun s digits multiple small => encode_decode digits multiple small

/-- Two groups of digits. -/
theorem raw_data_round_trip_digits : ∃ data, decodeToRawData (ascii "065255") = .ok data ∧
    data.length = 2 ∧ encodeRawDataFrom [] data = ascii "065255" :=
  raw_data_round_trip.2 (ascii "065255") (by decide +kernel) (by decide) (by decide)

end IpcFtp
