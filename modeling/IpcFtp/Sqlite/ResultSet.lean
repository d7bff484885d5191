import IpcFtp.Sqlite.Response

/-!
# Result sets as lines

`callback` writes a row as a line whose columns stand between spaces, and a line `END` closes
the result set.  Neither says where a column ends, nor whether a line is a row or `END`; and
`run_sqlite_query` has a cell for each line, not for as many as there are.
-/

namespace IpcFtp

open Lib

/-- The row's columns with a space between each two. -/
def joinedColumns (row : ResultRow) : Bytes := [chr ' '].intercalate (row.map columnText)

/-- The line of a row: `callback` writes no space behind columns that leave it nothing to
write. -/
def rowLine (row : ResultRow) : Bytes :=
  [chr ' '].intercalate ((row.map columnText).dropWhile (· = []))

/-- The lines of a result set; a line end in a column is a line end. -/
def resultLines (rows : List ResultRow) : List Bytes :=
  rows.flatMap fun row => parts (chr '\n') (rowLine row)

/-- What is asked of a result set that one worker asks for: it is written whole and read
whole, `END` stands for no rows, and else the first row is returned. -/
def DeliveredWhole (rows : List ResultRow) : Prop :=
  (responseBytes rows).2 = none ∧ ∃ answer,
    Reader.run none readResponse (responseBytes rows).1 = .done answer [] ∧
      (answer = endStr ↔ rows = []) ∧ ∀ row ∈ rows.head?, answer = joinedColumns row

/-- A result set that can be delivered. -/
structure Deliverable (rows : List ResultRow) : Prop where
  /-- every line fits the buffers of `callback` and of the reader -/
  fits : ∀ row ∈ rows, (rowLine row).length + 1 < maxQueryResponseLength
  /-- a cell is left for `END` -/
  few : (resultLines rows).length < maxColumns
  notEnd : endStr ∉ resultLines rows
  oneLine : ∀ row ∈ rows.head?, chr '\n' ∉ rowLine row
  /-- no column is lost at the start of the first line -/
  starts : ∀ row ∈ rows.head?, ∀ column others, row = column :: others → others ≠ [] →
    columnText column ≠ []

section Rows

variable {row : ResultRow} {str : Bytes}

theorem intercalate_append_cons (front text : Bytes) (others : List Bytes) :
    [chr ' '].intercalate ((front ++ text) :: others) =
      front ++ [chr ' '].intercalate (text :: others) := by
  cases others with
  | nil => simp
  | cons other others => simp [List.intercalate]

theorem foldl_joinColumn (nonempty : str ≠ []) :
    row.foldl joinColumn str = [chr ' '].intercalate (str :: row.map columnText) := by
  induction row generalizing str with
  | nil => simp
  | cons column row ih =>
      have grown : joinColumn str column = (str ++ ascii " ") ++ columnText column :=
        if_neg nonempty
      rw [List.foldl_cons, ih (by rw [grown]; simp [nonempty]), grown, intercalate_append_cons,
        List.map_cons]
      simp [List.intercalate, ascii]
      rfl

theorem rowText_eq : rowText row = rowLine row := by
  unfold rowText rowLine
  induction row with
  | nil => rfl
  | cons column row ih =>
      have first : joinColumn [] column = columnText column := if_pos rfl
      rw [List.foldl_cons, first, List.map_cons]
      by_cases blank : columnText column = []
      · rw [List.dropWhile_cons_of_pos (by simpa using blank), blank, ih]
      · rw [List.dropWhile_cons_of_neg (by simpa using blank), foldl_joinColumn blank]

theorem joinedColumns_cons (column : Option CString) (others : ResultRow) :
    joinedColumns (column :: others) =
      if others = [] then columnText column
      else columnText column ++ chr ' ' :: joinedColumns others := by
  unfold joinedColumns
  rw [List.map_cons]
  split_ifs with last
  · rw [last, List.map_nil, List.intercalate_singleton]
  · rw [List.intercalate_cons_of_ne_nil (by simpa using last), List.append_assoc]
    rfl

theorem rowLine_cons (column : Option CString) (others : ResultRow) :
    rowLine (column :: others) =
      if columnText column = [] then rowLine others else joinedColumns (column :: others) := by
  unfold rowLine joinedColumns
  rw [List.map_cons]
  split_ifs with blank
  · rw [List.dropWhile_cons_of_pos (by simpa using blank)]
  · rw [List.dropWhile_cons_of_neg (by simpa using blank)]

theorem length_rowLine_le (row : ResultRow) :
    (rowLine row).length ≤ (joinedColumns row).length := by
  induction row with
  | nil => exact Nat.le_refl _
  | cons column others ih =>
      rw [rowLine_cons]
      split_ifs with blank
      · rw [joinedColumns_cons, blank]
        split_ifs with last
        · rw [last]
          exact Nat.le_refl _
        · rw [List.nil_append, List.length_cons]
          omega
      · exact Nat.le_refl _

/-- A line is the row's columns between single spaces unless it starts with a column that
leaves nothing to write. -/
theorem rowLine_eq_iff (row : ResultRow) :
    rowLine row = joinedColumns row ↔
      ∀ column others, row = column :: others → others ≠ [] → columnText column ≠ [] := by
  cases row with
  | nil => exact iff_of_true rfl nofun
  | cons column others =>
      simp only [List.cons.injEq]
      constructor
      · rintro same _ _ ⟨rfl, rfl⟩ more blank
        have shorter := length_rowLine_le others
        have lengths := congrArg List.length same
        rw [rowLine_cons, if_pos blank, joinedColumns_cons, if_neg more, blank,
          List.nil_append, List.length_cons] at lengths
        omega
      · intro starts
        rw [rowLine_cons]
        split_ifs with blank
        · by_cases last : others = []
          · rw [joinedColumns_cons, if_pos last, blank, last]
            rfl
          · exact absurd blank (starts column others ⟨rfl, rfl⟩ last)
        · rfl

end Rows

section Response

variable {rows : List ResultRow} {answer : Bytes}

theorem responseBytes_whole_iff :
    (responseBytes rows).2 = none ↔
      ∀ row ∈ rows, (rowLine row).length + 1 < maxQueryResponseLength := by
  induction rows with
  | nil => exact iff_of_true rfl (List.forall_mem_nil _)
  | cons row rows ih =>
      rw [List.forall_mem_cons, ← ih, ← rowText_eq, responseBytes]
      cases line : callback row with
      | error e =>
          apply iff_of_false (Option.some_ne_none _)
          intro given
          obtain ⟨fits, -⟩ := given
          rw [callback_eq_ok.mpr ⟨fits, rfl⟩] at line
          cases line
      | ok text => exact (and_iff_right (callback_eq_ok.mp line).1).symm

/-- A response that is written whole is its lines and `END`. -/
theorem responseBytes_lines (fits : ∀ row ∈ rows, (rowLine row).length + 1 < maxQueryResponseLength) :
    (responseBytes rows).1 =
      unlines (chr '\n') (resultLines rows) ++ (endStr ++ chr '\n' :: []) := by
  simp only [← rowText_eq] at fits
  rw [responseBytes_eq fits, unlines_append, unlines_cons, unlines_nil, show rowText = rowLine from
    funext fun row => rowText_eq, ← unlines_flatMap_parts, List.flatMap_map]
  rfl

theorem readable_resultLines
    (fits : ∀ row ∈ rows, (rowLine row).length + 1 < maxQueryResponseLength) :
    ∀ line ∈ resultLines rows,
      0 ∉ line ∧ chr '\n' ∉ line ∧ line.length + 1 < maxQueryResponseLength := by
  intro line member
  obtain ⟨row, inside, part⟩ := List.mem_flatMap.mp member
  have within := sublist_of_mem_parts part
  refine ⟨fun nul => nulFree_rowText row (rowText_eq ▸ within.mem nul),
    not_mem_of_mem_parts part, ?_⟩
  have := within.length_le
  have := fits row inside
  omega

/-- Reading ends at the first `END`; the lines behind it are left in the pipe. -/
theorem run_readResponse_unlines {lines : List Bytes}
    (readable : ∀ line ∈ lines,
      0 ∉ line ∧ chr '\n' ∉ line ∧ line.length + 1 < maxQueryResponseLength)
    (ends : endStr ∈ lines) (behind : Bytes) :
    ∃ back, Reader.run none readResponse (unlines (chr '\n') lines ++ behind) =
      if (lines.takeWhile (· ≠ endStr)).length < maxColumns then
        .done (lines.headD endStr) (unlines (chr '\n') back ++ behind)
      else .fault .outOfBounds := by
  obtain ⟨front, back, rfl, notEnd⟩ := List.eq_append_cons_of_mem ends
  have before : ∀ line ∈ front, decide (line ≠ endStr) = true :=
    fun line member => decide_eq_true fun hit => notEnd (hit ▸ member)
  have head : (front ++ endStr :: back).headD endStr = front.headD endStr := by
    cases front <;> rfl
  refine ⟨back, ?_⟩
  rw [List.takeWhile_append_of_pos before, List.takeWhile_cons_of_neg (by simp), List.append_nil,
    head, unlines_append, unlines_cons, List.append_assoc, List.append_assoc, List.cons_append]
  exact run_readResponse_lines none
    (fun line member => readable line (List.mem_append_left _ member)) notEnd _

/-- What stands behind an `END` among the lines of the rows is left in the pipe. -/
theorem run_resultLines
    (fits : ∀ row ∈ rows, (rowLine row).length + 1 < maxQueryResponseLength) :
    ∃ rest, (rest = [] ↔ endStr ∉ resultLines rows) ∧
      Reader.run none readResponse (responseBytes rows).1 =
        if ((resultLines rows).takeWhile (· ≠ endStr)).length < maxColumns then
          .done ((resultLines rows).headD endStr) rest
        else .fault .outOfBounds := by
  have readable := readable_resultLines fits
  rw [responseBytes_lines fits]
  by_cases ends : endStr ∈ resultLines rows
  · obtain ⟨back, run⟩ := run_readResponse_unlines readable ends (endStr ++ chr '\n' :: [])
    exact ⟨_, by simp [ends], run⟩
  · have all : (resultLines rows).takeWhile (· ≠ endStr) = resultLines rows :=
      List.takeWhile_eq_self_iff.mpr fun line member =>
        decide_eq_true fun hit => ends (hit ▸ member)
    rw [all]
    exact ⟨[], by simp [ends], run_readResponse_lines none readable ends []⟩

/-- What is answered is the first line. -/
theorem answer_eq_headD {rest : Bytes}
    (fits : ∀ row ∈ rows, (rowLine row).length + 1 < maxQueryResponseLength)
    (read : Reader.run none readResponse (responseBytes rows).1 = .done answer rest) :
    answer = (resultLines rows).headD endStr := by
  obtain ⟨_, -, run⟩ := run_resultLines fits
  rw [run] at read
  split_ifs at read
  rw [Outcome.done.injEq] at read
  exact read.1.symm

/-- A response is read whole exactly if no line of its rows is `END` and each has a cell. -/
theorem run_resultLines_iff
    (fits : ∀ row ∈ rows, (rowLine row).length + 1 < maxQueryResponseLength) :
    Reader.run none readResponse (responseBytes rows).1 = .done answer [] ↔
      endStr ∉ resultLines rows ∧ (resultLines rows).length < maxColumns ∧
        answer = (resultLines rows).headD endStr := by
  obtain ⟨rest, whole, run⟩ := run_resultLines fits
  have all (notEnd : endStr ∉ resultLines rows) :
      (resultLines rows).takeWhile (· ≠ endStr) = resultLines rows :=
    List.takeWhile_eq_self_iff.mpr fun line member =>
      decide_eq_true fun hit => notEnd (hit ▸ member)
  rw [run]
  constructor
  · intro read
    split_ifs at read with few
    obtain ⟨rfl, rfl⟩ := Outcome.done.inj read
    have notEnd := whole.mp rfl
    exact ⟨notEnd, all notEnd ▸ few, rfl⟩
  · intro given
    obtain ⟨notEnd, few, rfl⟩ := given
    rw [all notEnd, if_pos few, whole.mpr notEnd]

theorem resultLines_eq_nil : resultLines rows = [] ↔ rows = [] := by
  unfold resultLines
  rw [List.flatMap_eq_nil_iff]
  constructor
  · intro none
    cases rows with
    | nil => rfl
    | cons row rows => exact absurd (none row List.mem_cons_self) (List.splitOn_ne_nil _ _)
  · intro same
    subst same
    nofun

/-- The answer to a query with rows is the first line of its first row. -/
theorem headD_resultLines {row : ResultRow} (first : row ∈ rows.head?) :
    (resultLines rows).headD endStr = (rowLine row).takeWhile (· ≠ chr '\n') := by
  obtain ⟨others, rfl⟩ := List.head?_eq_some_iff.mp first
  rw [List.headD_eq_head?_getD, resultLines, List.flatMap_cons, List.head?_append, head?_parts]
  rfl

theorem firstLine_eq_joinedColumns_iff {row : ResultRow} :
    (rowLine row).takeWhile (· ≠ chr '\n') = joinedColumns row ↔
      chr '\n' ∉ rowLine row ∧ rowLine row = joinedColumns row := by
  constructor
  · intro same
    have whole : (rowLine row).takeWhile (· ≠ chr '\n') = rowLine row := by
      apply (List.takeWhile_prefix _).eq_of_length_le
      rw [same]
      exact length_rowLine_le row
    refine ⟨fun ends => ?_, whole.symm.trans same⟩
    simpa using List.takeWhile_eq_self_iff.mp whole _ ends
  · intro given
    obtain ⟨oneLine, same⟩ := given
    rw [← same, List.takeWhile_eq_self_iff]
    rintro c member
    exact decide_eq_true fun hit => oneLine (hit ▸ member)

/-! ## Rows that do not fit -/

/-- The lines that are written: the first row that does not fit ends the process. -/
def writtenLines (rows : List ResultRow) : List Bytes :=
  resultLines (rows.takeWhile fun row => (rowLine row).length + 1 < maxQueryResponseLength)

theorem writtenLines_cons (row : ResultRow) (rows : List ResultRow) :
    writtenLines (row :: rows) =
      if (rowLine row).length + 1 < maxQueryResponseLength then
        parts (chr '\n') (rowLine row) ++ writtenLines rows
      else [] := by
  unfold writtenLines
  split_ifs with fits
  · rw [List.takeWhile_cons_of_pos (by simpa using fits)]
    rfl
  · rw [List.takeWhile_cons_of_neg (by simpa using fits)]
    rfl

theorem responseBytes_written :
    (responseBytes rows).1 = unlines (chr '\n') (writtenLines rows) ++
      if ∀ row ∈ rows, (rowLine row).length + 1 < maxQueryResponseLength then
        endStr ++ chr '\n' :: []
      else [] := by
  induction rows with
  | nil => rfl
  | cons row rows ih =>
      rw [writtenLines_cons, responseBytes]
      cases line : callback row with
      | error e =>
          have long : ¬ (rowLine row).length + 1 < maxQueryResponseLength := by
            intro fits
            rw [callback_eq_ok.mpr ⟨rowText_eq ▸ fits, rfl⟩] at line
            cases line
          rw [if_neg long, if_neg fun fits => long (fits row List.mem_cons_self)]
          rfl
      | ok text =>
          obtain ⟨fits, rfl⟩ := callback_eq_ok.mp line
          rw [rowText_eq] at fits ⊢
          simp only [List.forall_mem_cons, fits, true_and, if_true, ih, unlines_append,
            unlines_parts, List.append_assoc]
          rfl

theorem readable_writtenLines :
    ∀ line ∈ writtenLines rows,
      0 ∉ line ∧ chr '\n' ∉ line ∧ line.length + 1 < maxQueryResponseLength :=
  readable_resultLines fun _ member => by simpa using List.mem_takeWhile_imp member

end Response

/-- A result set is delivered exactly if its lines fit, leave a cell for `END`, are none of
them `END`, and the first row is one line that starts with its first column. -/
theorem deliveredWhole_iff (rows : List ResultRow) : DeliveredWhole rows ↔ Deliverable rows := by
  constructor
  · intro given
    obtain ⟨written, answer, read, -, first⟩ := given
    have fits := responseBytes_whole_iff.mp written
    obtain ⟨notEnd, few, rfl⟩ := (run_resultLines_iff fits).mp read
    have whole (row : ResultRow) (head : row ∈ rows.head?) :
        chr '\n' ∉ rowLine row ∧ rowLine row = joinedColumns row :=
      firstLine_eq_joinedColumns_iff.mp ((headD_resultLines head).symm.trans (first row head))
    exact ⟨fits, few, notEnd, fun row head => (whole row head).1,
      fun row head => (rowLine_eq_iff row).mp (whole row head).2⟩
  · intro given
    obtain ⟨fits, few, notEnd, oneLine, starts⟩ := given
    refine ⟨responseBytes_whole_iff.mpr fits, _,
      (run_resultLines_iff fits).mpr ⟨notEnd, few, rfl⟩, ?_, ?_⟩
    · constructor
      · intro ends
        cases lines : resultLines rows with
        | nil => exact resultLines_eq_nil.mp lines
        | cons line others =>
            rw [lines] at ends notEnd
            obtain rfl : line = endStr := ends
            exact absurd List.mem_cons_self notEnd
      · intro same
        subst same
        rfl
    · intro row head
      rw [headD_resultLines head]
      exact firstLine_eq_joinedColumns_iff.mpr
        ⟨oneLine row head, (rowLine_eq_iff row).mpr (starts row head)⟩

/-- Ten rows and `END` are eleven lines: the last is stored behind the row vector. -/
theorem ten_rows_leave_the_vector :
    Reader.run none readResponse
        (responseBytes (List.replicate 10 [some ⟨ascii "/fs/ann/a", by decide⟩])).1 =
      .fault .outOfBounds ∧
    ¬ DeliveredWhole (List.replicate 10 [some ⟨ascii "/fs/ann/a", by decide⟩]) := by
  have faults : Reader.run none readResponse
      (responseBytes (List.replicate 10 [some ⟨ascii "/fs/ann/a", by decide⟩])).1 =
      .fault .outOfBounds := by decide +kernel
  refine ⟨faults, ?_⟩
  intro given
  obtain ⟨-, answer, read, -⟩ := given
  rw [faults] at read
  cases read

end IpcFtp
