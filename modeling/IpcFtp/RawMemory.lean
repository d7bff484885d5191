import IpcFtp.FileUtils

/-!
# The memory of the encoder and the decoder

`encode_raw_data` and `decode_to_raw_data` cell by cell: which cells of which block they read or
write, and what the block of the decoder holds when it is returned.  Behind a block there is
other memory, which is read and written like any.
-/

namespace IpcFtp

/-- A block: an argument with its terminator, or one of those allocated. -/
inductive RawBlock : Type
  | data
  | output
  | tmp
  | result
  deriving DecidableEq

abbrev RawCell : Type := RawBlock × Nat

/-- Consecutive cells of a block. -/
def cellsFrom (block : RawBlock) (first count : Nat) : List RawCell :=
  (List.range' first count).map (Prod.mk block)

/-- All cells lie inside their blocks. -/
def InsideBlocks (size : RawBlock → Nat) (cells : List RawCell) : Prop :=
  ∀ cell ∈ cells, cell.2 < size cell.1

instance (size : RawBlock → Nat) (cells : List RawCell) : Decidable (InsideBlocks size cells) :=
  inferInstanceAs (Decidable (∀ cell ∈ cells, cell.2 < size cell.1))

/-! ## The encoder -/

/-- The sizes of the blocks of `encode_raw_data`. -/
def encodeSize (data : Bytes) : RawBlock → Nat
  | .data => data.length
  | .output => (data.length * 3 + 2) % 2 ^ 64
  | .tmp => 3
  | .result => 0

/-- The cells the loop of `encode_raw_data` designates from byte `wrote` on: the byte, what
`sprintf` writes, the string `strncat` finds the end of, and what it copies. -/
def encodeCellsFrom (output : Bytes) (wrote : Nat) : Bytes → List RawCell
  | [] => []
  | b :: data =>
    let tmp := format03d b.toNat
    let copied := ((cstr tmp).take 3).length
    (.data, wrote) :: (cellsFrom .tmp 0 (tmp.length + 1) ++ cellsFrom .output 0 (output.length + 1) ++
      cellsFrom .tmp 0 copied ++ cellsFrom .output output.length (copied + 1) ++
        encodeCellsFrom (strncat output tmp 3) (wrote + 1) data)

/-- Every cell that `encode_raw_data` designates; the two blocks are cleared first. -/
def encodeCells (data : Bytes) : List RawCell :=
  cellsFrom .output 0 (encodeSize data .output) ++ cellsFrom .tmp 0 3 ++ encodeCellsFrom [] 0 data

/-! ## The decoder -/

/-- The sizes of the blocks of `decode_to_raw_data`. -/
def decodeSize (data : Bytes) : RawBlock → Nat
  | .data => data.length + 1
  | .result => data.length / 3 + 1
  | _ => 0

/-- The cells of a turn of its loop. -/
def groupCells (i : Nat) : List RawCell := [(.data, i), (.data, i + 1), (.data, i + 2), (.result, i / 3)]

/-- The cells its loop designates from cell `i` on, and the one of the terminator. -/
def decodeCellsFrom : Bytes → Nat → List RawCell
  | [], i => [(.result, i)]
  | [_], i | [_, _], i => groupCells i ++ [(.result, i + 3)]
  | _ :: _ :: _ :: data, i => groupCells i ++ decodeCellsFrom data (i + 3)

/-- Every cell that `decode_to_raw_data` designates; `strlen` reads the string first. -/
def decodeCells (data : Bytes) : List RawCell :=
  cellsFrom .data 0 (data.length + 1) ++ decodeCellsFrom data 0

/-- What a turn makes of three cells, as a `char`. -/
def groupByte (a b c : Byte) : Byte := (a - chr '0') * 100 + (b - chr '0') * 10 + (c - chr '0')

/-- The bytes the loop writes; `behind` is the byte behind the terminator of `data`. -/
def decodedBytes (behind : Byte) : Bytes → Bytes
  | [] => []
  | [a] => [groupByte a 0 behind]
  | [a, b] => [groupByte a b 0]
  | a :: b :: c :: data => groupByte a b c :: decodedBytes behind data

/-- The memory from the first cell of the returned block on.  The terminator is written at the
index where the loop over `data` ended. -/
def decodedMemory (memory : Nat → Byte) (behind : Byte) (data : Bytes) : Nat → Byte :=
  let decoded := decodedBytes behind data
  Function.update (fun k => decoded.getD k (memory k)) (3 * decoded.length) 0

theorem length_decodedBytes (behind : Byte) (data : Bytes) :
    (decodedBytes behind data).length = (data.length + 2) / 3 := by
  induction data using decodedBytes.induct with
  | case1 => rfl
  | case2 a => simp [decodedBytes]
  | case3 a b => simp [decodedBytes]
  | case4 a b c data ih =>
      simp only [decodedBytes, List.length_cons, ih]
      omega

/-- Where nothing is read outside, these are the bytes of `decodeToRawData`. -/
theorem decodedBytes_of_ok {data block : Bytes} (decodes : decodeToRawData data = .ok block)
    (behind : Byte) : decodedBytes behind data = block := by
  induction data using decodedBytes.induct generalizing block with
  | case1 =>
      cases decodes
      rfl
  | case2 a => cases decodes
  | case3 a b =>
      cases decodes
      rfl
  | case4 a b c data ih =>
      rw [decodeToRawData] at decodes
      cases rest : decodeToRawData data with
      | error e =>
          rw [rest] at decodes
          cases decodes
      | ok decoded =>
          rw [rest] at decodes
          cases decodes
          rw [decodedBytes, ih rest]
          rfl

/-- The terminator is written behind three cells for each byte. -/
theorem terminator_mem_decodeCellsFrom (data : Bytes) (i : Nat) :
    (.result, i + 3 * ((data.length + 2) / 3)) ∈ decodeCellsFrom data i := by
  induction data, i using decodeCellsFrom.induct with
  | case1 i => exact List.mem_singleton_self _
  | case2 a i => simp [decodeCellsFrom]
  | case3 a b i => simp [decodeCellsFrom]
  | case4 a b c data i ih =>
      rw [decodeCellsFrom]
      apply List.mem_append_right _
      have last : i + 3 * (((a :: b :: c :: data).length + 2) / 3) =
          i + 3 + 3 * ((data.length + 2) / 3) := by
        simp only [List.length_cons]
        omega
      rw [last]
      exact ih

/-! ## Which inputs stay inside -/

/-- `encode_raw_data` stays inside its blocks. -/
def EncodesInside (data : Bytes) : Prop := InsideBlocks (encodeSize data) (encodeCells data)

/-- `decode_to_raw_data` stays inside its blocks, and whatever the memory held before, there is a
NUL behind the last decoded byte. -/
structure DecodesInside (data : Bytes) : Prop where
  inside : InsideBlocks (decodeSize data) (decodeCells data)
  terminated : ∀ memory behind,
    (decodedBytes behind data).length < decodeSize data .result ∧
      decodedMemory memory behind data (decodedBytes behind data).length = 0

theorem encodesInside_iff (data : Bytes) : EncodesInside data ↔ data = [] := by
  constructor
  · intro inside
    rcases data with _ | ⟨b, data⟩
    · rfl
    · -- `sprintf` writes its terminator behind the three cells of `tmp`
      have three : (format03d b.toNat).length = 3 := by
        rw [format03d_eq]
        rfl
      have terminator : ((.tmp, 3) : RawCell) ∈ encodeCells (b :: data) := by
        simp [encodeCells, encodeCellsFrom, cellsFrom, three]
      exact absurd (inside _ terminator) (by simp [encodeSize])
  · intro none
    subst none
    unfold EncodesInside
    decide

theorem decodesInside_iff (data : Bytes) : DecodesInside data ↔ data = [] := by
  constructor
  · intro given
    have terminator := terminator_mem_decodeCellsFrom data 0
    have inside := given.inside _ (List.mem_append_right _ terminator)
    simp only [decodeSize] at inside
    rw [← List.length_eq_zero_iff]
    omega
  · intro none
    subst none
    refine ⟨by decide, fun memory behind => ⟨Nat.zero_lt_one, ?_⟩⟩
    simp [decodedMemory, decodedBytes]

/-- The encoder and the decoder stay inside their blocks on nothing but the empty input: the
encoder's scratch block has no cell for the terminator of its three digits, and the decoder
terminates its block at an index of its input. -/
theorem raw_data_inside_iff (buffer : Bytes) (data : CString) :
    (EncodesInside buffer ↔ buffer = []) ∧ (DecodesInside data.bytes ↔ data.bytes = []) :=
  ⟨encodesInside_iff buffer, decodesInside_iff data.bytes⟩

/-- One byte, and the three digits it becomes. -/
theorem raw_data_outside :
    (.tmp, 3) ∈ encodeCells [65] ∧ encodeSize [65] .tmp = 3 ∧
      (.result, 3) ∈ decodeCells (ascii "065") ∧ decodeSize (ascii "065") .result = 2 ∧
        ¬ EncodesInside [65] ∧ ¬ DecodesInside (ascii "065") := by
  have scratch : ((.tmp, 3) : RawCell) ∈ encodeCells [65] := by decide +kernel
  have block : ((.result, 3) : RawCell) ∈ decodeCells (ascii "065") := by decide
  refine ⟨scratch, rfl, block, rfl, ?_, ?_⟩
  · intro inside
    exact absurd (inside _ scratch) (by decide)
  · intro given
    exact absurd (given.inside _ block) (by decide)

end IpcFtp
