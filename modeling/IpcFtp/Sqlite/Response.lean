import IpcFtp.Lib.Lines
import IpcFtp.Lib.Reader
import IpcFtp.Sqlite.Query

/-!
# The response of the SQL process

`callback` of `lib/sqlite/sqlite.c` writes a line for each row and `init_sqlite_server`
closes the response with a line `END`; the read loops of `run_sqlite_query` take lines
until they have that one and return the first.
-/

namespace IpcFtp

open Lib

/-- `MAX_QUERY_RESPONSE_LENGTH`. -/
def maxQueryResponseLength : Nat := 2048

/-- `END_STR`. -/
def endStr : Bytes := ascii "END"

/-! ## Writing -/

/-- What `sqlite3_exec` passes to `callback`; the text of an SQL NULL is null. -/
abbrev ResultRow := List (Option CString)

/-- `argv[i] ? argv[i] : NULL_STR`. -/
def columnText : Option CString → Bytes
  | some text => text.bytes
  | none => ascii "NULL"

/-- One pass of the loop of `callback`. -/
def joinColumn (str : Bytes) (column : Option CString) : Bytes :=
  if str = [] then columnText column else str ++ ascii " " ++ columnText column

/-- `callback` from some pass of its loop on: the line it writes. -/
def callbackFrom (str : Bytes) : ResultRow → Except Fault Bytes
  | [] => sprintf maxQueryResponseLength (str ++ ascii "\n")
  | column :: columns => do
    let str ← sprintf maxQueryResponseLength (joinColumn str column)
    callbackFrom str columns

def callback (row : ResultRow) : Except Fault Bytes := callbackFrom [] row

/-- The bytes written for a statement with these rows, and the fault that ends the
process if a row does not fit the buffer of `callback`. -/
def responseBytes : List ResultRow → Bytes × Option Fault
  | [] => (endStr ++ ascii "\n", none)
  | row :: rows =>
    match callback row with
    | .error e => ([], some e)
    | .ok line => (line ++ (responseBytes rows).1, (responseBytes rows).2)

/-! ## Reading -/

/-- The inner read loop, from some pass on.  `cells` is what is left of the block if
every byte read takes a cell; a NUL takes none, but the terminator of the line is put
at the number of reads. -/
def responseLine : Nat → Bytes → Reader Byte Fault Bytes
  | 0, _ => .fault .outOfBounds
  | cells + 1, response => .read fun aux =>
    let grown := response ++ cstr [aux]
    if maxQueryResponseLength ≤ grown.length then .fault .overrun
    else if aux = chr '\n' then .ret (grown.take (maxQueryResponseLength - (cells + 1)))
    else responseLine cells grown

/-- The outer loop; `slots` counts the `MAX_COLUMNS` cells of `asn_vector` that are left,
and `first` is what its first cell holds. -/
def responseLines : Nat → Option Bytes → Reader Byte Fault Bytes
  | 0, _ => do
    let _ ← responseLine maxQueryResponseLength []
    .fault .outOfBounds
  | slots + 1, first => do
    let line ← responseLine maxQueryResponseLength []
    if line = endStr then .ret (first.getD line)
    else responseLines slots (some (first.getD line))

/-- What `run_sqlite_query` reads, and what it returns. -/
def readResponse : Reader Byte Fault Bytes := responseLines maxColumns none

/-! ## Responses that are read back -/

/-- The line of a row without its end. -/
def rowText (row : ResultRow) : Bytes := row.foldl joinColumn []

/-- A row that comes through: its line fits both buffers, holds no line end of its own,
and is not taken for the last line. -/
structure Presentable (row : ResultRow) : Prop where
  fits : (rowText row).length + 1 < maxQueryResponseLength
  oneLine : chr '\n' ∉ rowText row
  notEnd : rowText row ≠ endStr

/-- Rows that come through, and no more of them than `asn_vector` has cells for. -/
def PresentableRows (rows : List ResultRow) : Prop :=
  rows.length < maxColumns ∧ ∀ row ∈ rows, Presentable row

/-- The first line of a response. -/
def firstResponse : List ResultRow → Bytes
  | [] => endStr
  | row :: _ => rowText row

theorem length_le_joinColumn (str : Bytes) (column : Option CString) :
    str.length ≤ (joinColumn str column).length := by
  unfold joinColumn
  split
  · simp_all
  · simp only [List.length_append]
    omega

theorem length_le_foldl_joinColumn (str : Bytes) (row : ResultRow) :
    str.length ≤ (row.foldl joinColumn str).length := by
  induction row generalizing str with
  | nil => exact Nat.le_refl _
  | cons column columns ih => exact (length_le_joinColumn str column).trans (ih _)

theorem callbackFrom_eq_ok {str line : Bytes} {row : ResultRow} :
    callbackFrom str row = .ok line ↔
      (row.foldl joinColumn str).length + 1 < maxQueryResponseLength ∧
        line = row.foldl joinColumn str ++ ascii "\n" := by
  induction row generalizing str with
  | nil =>
      rw [callbackFrom, sprintf_eq_ok, List.length_append]
      exact and_congr_right fun _ => eq_comm
  | cons column columns ih =>
      have longer := length_le_foldl_joinColumn (joinColumn str column) columns
      simp only [callbackFrom, bind_eq_ok, sprintf_eq_ok, ih, List.foldl_cons]
      constructor
      · intro given
        obtain ⟨_, ⟨-, rfl⟩, fits, rfl⟩ := given
        exact ⟨fits, rfl⟩
      · intro given
        obtain ⟨fits, rfl⟩ := given
        exact ⟨_, ⟨by omega, rfl⟩, fits, rfl⟩

theorem callback_eq_ok {row : ResultRow} {line : Bytes} :
    callback row = .ok line ↔
      (rowText row).length + 1 < maxQueryResponseLength ∧ line = rowText row ++ ascii "\n" :=
  callbackFrom_eq_ok

/-- A response without rows that do not fit has all its lines. -/
theorem responseBytes_eq {rows : List ResultRow}
    (fits : ∀ row ∈ rows, (rowText row).length + 1 < maxQueryResponseLength) :
    responseBytes rows = (unlines (chr '\n') (rows.map rowText ++ [endStr]), none) := by
  induction rows with
  | nil => rfl
  | cons row rows ih =>
      have line := callback_eq_ok.mpr ⟨fits row List.mem_cons_self, rfl⟩
      have others := ih fun other member => fits other (.tail _ member)
      simp only [responseBytes, line, others, List.map_cons, List.cons_append, unlines_cons]
      rw [List.append_assoc]
      rfl

theorem nulFree_joinColumn {str : Bytes} (nulFree : 0 ∉ str) (column : Option CString) :
    0 ∉ joinColumn str column := by
  have text : 0 ∉ columnText column := by
    cases column with
    | none => decide
    | some text => exact text.nulFree
  unfold joinColumn
  split
  · exact text
  · simp only [List.mem_append, not_or]
    exact ⟨⟨nulFree, by decide⟩, text⟩

theorem nulFree_rowText (row : ResultRow) : 0 ∉ rowText row := by
  have keeps (str : Bytes) (nulFree : 0 ∉ str) : 0 ∉ row.foldl joinColumn str := by
    induction row generalizing str with
    | nil => exact nulFree
    | cons column columns ih => exact ih _ (nulFree_joinColumn nulFree column)
  exact keeps [] (by decide)

/-- One line is read up to its end. -/
theorem run_responseLine (eof : Option Byte) {line : Bytes} (nulFree : 0 ∉ line)
    (oneLine : chr '\n' ∉ line) {cells : Nat} (got : Bytes)
    (left : cells + got.length = maxQueryResponseLength)
    (room : got.length + line.length + 1 < maxQueryResponseLength) (rest : Bytes) :
    Reader.run eof (responseLine cells got) (line ++ chr '\n' :: rest) =
      .done (got ++ line) rest := by
  induction line generalizing cells got with
  | nil =>
      rw [List.length_nil] at room
      cases cells with
      | zero => omega
      | succ cells =>
          have text : cstr [chr '\n'] = [chr '\n'] := by decide
          rw [List.nil_append, responseLine, Reader.run_read_cons]
          simp only [text]
          rw [if_neg (by simp only [List.length_append, List.length_singleton]; omega),
            if_pos trivial, Reader.run_ret, List.append_nil]
          rw [show maxQueryResponseLength - (cells + 1) = got.length by omega, List.take_left]
  | cons c line ih =>
      rw [List.mem_cons, not_or] at nulFree oneLine
      rw [List.length_cons] at room
      cases cells with
      | zero => omega
      | succ cells =>
          have text : cstr [c] = [c] := cstr_of_nulFree (by simpa using nulFree.1)
          rw [List.cons_append, responseLine, Reader.run_read_cons]
          simp only [text]
          rw [if_neg (by simp only [List.length_append, List.length_singleton]; omega),
            if_neg (Ne.symm oneLine.1),
            ih nulFree.2 oneLine.2 _ (by simp only [List.length_append, List.length_singleton]; omega)
              (by simp only [List.length_append, List.length_singleton]; omega),
            List.append_assoc, List.singleton_append]

/-- Lines that are not `END` take a cell each, and the first is kept. -/
theorem run_responseLines (eof : Option Byte) {lines : List Bytes}
    (readable : ∀ line ∈ lines,
      0 ∉ line ∧ chr '\n' ∉ line ∧ line.length + 1 < maxQueryResponseLength)
    (notEnd : endStr ∉ lines) (slots : Nat) (first : Option Bytes) (rest : Bytes) :
    Reader.run eof (responseLines slots first) (unlines (chr '\n') lines ++ rest) =
      if lines.length ≤ slots then
        Reader.run eof (responseLines (slots - lines.length) (first.or lines.head?)) rest
      else .fault .outOfBounds := by
  induction lines generalizing slots first with
  | nil => simp
  | cons line lines ih =>
      obtain ⟨nulFree, oneLine, fits⟩ := readable line List.mem_cons_self
      rw [List.mem_cons, not_or] at notEnd
      have read := run_responseLine eof nulFree oneLine [] (Nat.add_zero _) (by simpa using fits)
        (unlines (chr '\n') lines ++ rest)
      rw [unlines_cons, List.append_assoc, List.cons_append]
      cases slots with
      | zero =>
          rw [responseLines, Reader.run_bind_of_done read, Reader.run_fault, if_neg (by simp)]
      | succ slots =>
          rw [responseLines, Reader.run_bind_of_done read, List.nil_append,
            if_neg (Ne.symm notEnd.1),
            ih (fun other member => readable other (.tail _ member)) notEnd.2]
          simp only [List.length_cons, Nat.add_le_add_iff_right, Nat.add_sub_add_right]
          cases first <;> simp

/-- `END` ends the response, if a cell is left for it. -/
theorem run_responseLines_end (eof : Option Byte) (slots : Nat) (first : Option Bytes)
    (rest : Bytes) :
    Reader.run eof (responseLines slots first) (endStr ++ chr '\n' :: rest) =
      if slots = 0 then .fault .outOfBounds else .done (first.getD endStr) rest := by
  have read : Reader.run eof (responseLine maxQueryResponseLength [])
      (endStr ++ chr '\n' :: rest) = .done ([] ++ endStr) rest :=
    run_responseLine eof (by decide) (by decide) [] (Nat.add_zero _) (by decide) rest
  cases slots with
  | zero => rw [responseLines, Reader.run_bind_of_done read, Reader.run_fault, if_pos rfl]
  | succ slots =>
      rw [responseLines, Reader.run_bind_of_done read, List.nil_append, if_pos rfl,
        Reader.run_ret, if_neg (Nat.succ_ne_zero slots)]

/-- The lines of a response up to its first `END`, with what stands behind it. -/
theorem run_readResponse_lines (eof : Option Byte) {lines : List Bytes}
    (readable : ∀ line ∈ lines,
      0 ∉ line ∧ chr '\n' ∉ line ∧ line.length + 1 < maxQueryResponseLength)
    (notEnd : endStr ∉ lines) (rest : Bytes) :
    Reader.run eof readResponse
        (unlines (chr '\n') lines ++ (endStr ++ chr '\n' :: rest)) =
      if lines.length < maxColumns then .done (lines.headD endStr) rest
      else .fault .outOfBounds := by
  unfold readResponse
  rw [run_responseLines eof readable notEnd]
  split_ifs with few fewer fewer
  · rw [run_responseLines_end, if_neg (by omega), Option.none_or, List.headD_eq_head?_getD]
  · rw [run_responseLines_end, if_pos (by omega)]
  · omega
  · rfl

/-- A response whose rows come through is read whole, and nothing behind it. -/
theorem run_readResponse (eof : Option Byte) {rows : List ResultRow}
    (presentable : PresentableRows rows) (rest : Bytes) :
    Reader.run eof readResponse ((responseBytes rows).1 ++ rest) =
      .done (firstResponse rows) rest := by
  obtain ⟨few, presentable⟩ := presentable
  have readable : ∀ line ∈ rows.map rowText,
      0 ∉ line ∧ chr '\n' ∉ line ∧ line.length + 1 < maxQueryResponseLength := by
    rw [List.forall_mem_map]
    exact fun row member => ⟨nulFree_rowText row, (presentable row member).oneLine,
      (presentable row member).fits⟩
  have notEnd : endStr ∉ rows.map rowText := by
    rw [List.mem_map]
    intro given
    obtain ⟨row, member, same⟩ := given
    exact (presentable row member).notEnd same
  rw [responseBytes_eq fun row member => (presentable row member).fits, unlines_append,
    List.append_assoc, unlines_cons, unlines_nil, List.append_assoc, List.singleton_append,
    run_readResponse_lines eof readable notEnd, List.length_map, if_pos few]
  cases rows <;> rfl

end IpcFtp
