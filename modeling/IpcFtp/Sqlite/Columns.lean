import IpcFtp.Sqlite.Query

/-!
# The columns of a query

The arrays of `MAX_COLUMNS` cells that `set_*` fills from the front and `*_query_to_str` reads up to
the first null.  The search for a free cell tests the number of the cell behind reading it, and the
renderers do not test it.  The byte that the setters of the insert and the update query write behind
each copy, which is `malloc`ed without it, is not one of a cell.

## Main results

* `builders_list_columns_iff`: the three builders list up to nine columns, if the text fits.
* `tenth_column_read_past`: with ten columns the cell behind the array is read.
-/

namespace IpcFtp

/-- The array behind as many calls as there is room for. -/
def columns (fields : List Bytes) : Cells :=
  (fields.take maxColumns).map some ++ List.replicate (maxColumns - fields.length) none

/-- The fields with commas between them. -/
def listed (fields : List Bytes) : Bytes := (ascii ",").intercalate fields

section Cells

variable {fields : List Bytes} {aux field : Bytes}

theorem columns_of_le (room : fields.length ≤ maxColumns) :
    columns fields = fields.map some ++ List.replicate (maxColumns - fields.length) none := by
  rw [columns, List.take_of_length_le room]

/-- With room, a null ends the fields. -/
theorem columns_of_lt (room : fields.length < maxColumns) :
    ∃ rest, columns fields = fields.map some ++ none :: rest := by
  refine ⟨List.replicate (maxColumns - fields.length - 1) none, ?_⟩
  rw [columns_of_le room.le, ← List.replicate_succ]
  congr 2
  omega

theorem columns_of_full (full : fields.length = maxColumns) : columns fields = fields.map some := by
  rw [columns_of_le full.le, full, Nat.sub_self, List.replicate_zero, List.append_nil]

/-! ### The free cell -/

theorem freeCell_append (fields : List Bytes) (rest : Cells) {i : Nat}
    (front : i + fields.length ≤ maxColumns) :
    freeCell (fields.map some ++ rest) i = freeCell rest (i + fields.length) := by
  induction fields generalizing i with
  | nil => rfl
  | cons field fields ih =>
      rw [List.length_cons] at front
      rw [List.map_cons, List.cons_append, freeCell, if_pos (by omega), ih (by omega),
        List.length_cons]
      congr 1
      omega

theorem freeCell_columns (room : fields.length < maxColumns) :
    freeCell (columns fields) 0 = .ok fields.length := by
  obtain ⟨rest, cells⟩ := columns_of_lt room
  rw [cells, freeCell_append fields _ (by omega), freeCell, Nat.zero_add]

/-- In a full array the cell behind it is read. -/
theorem freeCell_full (full : fields.length = maxColumns) :
    freeCell (columns fields) 0 = .error .outOfBounds := by
  have behind := freeCell_append fields [] (show 0 + fields.length ≤ maxColumns by omega)
  rw [List.append_nil] at behind
  rw [columns_of_full full, behind, freeCell]

theorem set_columns (room : fields.length < maxColumns) (field : Bytes) :
    (columns fields).set fields.length (some field) = columns (fields ++ [field]) := by
  obtain ⟨rest, cells⟩ := columns_of_lt room
  have longer : (fields ++ [field]).length ≤ maxColumns := by
    rw [List.length_append, List.length_singleton]
    omega
  rw [columns_of_le longer, columns_of_le room.le]
  have split : maxColumns - fields.length = maxColumns - (fields ++ [field]).length + 1 := by
    rw [List.length_append, List.length_singleton]
    omega
  rw [split, List.replicate_succ, List.set_append_right _ _ (by rw [List.length_map]),
    List.length_map, Nat.sub_self, List.set_cons_zero, List.map_append, List.append_assoc]
  rfl

/-- What a call of a setter does to an array, with room and without. -/
theorem freeCell_map {β : Type} (field : β → Bytes) {calls : List β}
    (room : calls.length < maxColumns) :
    freeCell (columns (calls.map field)) 0 = .ok calls.length := by
  have fields : (calls.map field).length < maxColumns := by rwa [List.length_map]
  rw [freeCell_columns fields, List.length_map]

theorem set_map {β : Type} (field : β → Bytes) {calls : List β} (room : calls.length < maxColumns)
    (call : β) :
    (columns (calls.map field)).set calls.length (some (field call)) =
      columns ((calls ++ [call]).map field) := by
  have fields : (calls.map field).length < maxColumns := by rwa [List.length_map]
  have cell := set_columns fields (field call)
  rwa [List.length_map, ← List.map_singleton, ← List.map_append] at cell

theorem freeCell_map_full {β : Type} (field : β → Bytes) {calls : List β}
    (full : calls.length = maxColumns) :
    freeCell (columns (calls.map field)) 0 = .error .outOfBounds :=
  freeCell_full (by rwa [List.length_map])

/-! ### The list of the fields -/

theorem listed_cons (field : Bytes) (fields : List Bytes) :
    listed (field :: fields) = field ++ fields.flatMap (ascii "," ++ ·) := by
  induction fields generalizing field with
  | nil => simp [listed]
  | cons next fields ih =>
      rw [listed, List.intercalate_cons_cons, ← listed, ih, List.flatMap_cons, List.append_assoc,
        List.append_assoc]

/-- The loop of `to_fields_string` up to a null; it prints into `aux` once more for each field, and
the last text is the longest. -/
theorem toFieldsStringFrom_null (fields : List Bytes) (rest : Cells) (i : Nat)
    (fits : aux.length < maxQueryLength) :
    toFieldsStringFrom (fields.map some ++ none :: rest) (i + 1) aux =
      sprintf maxQueryLength (aux ++ fields.flatMap (ascii "," ++ ·)) := by
  induction fields generalizing i aux with
  | nil => simp [sprintf, fits]
  | cons field fields ih =>
      rw [List.map_cons, List.cons_append, toFieldsStringFrom, if_neg (Nat.succ_ne_zero i),
        List.flatMap_cons, ← List.append_assoc, ← List.append_assoc]
      by_cases next : (aux ++ ascii "," ++ field).length < maxQueryLength
      · rw [sprintf, if_pos next]
        exact ih (i + 1) next
      · have long : ¬ (aux ++ ascii "," ++ field ++
            fields.flatMap (ascii "," ++ ·)).length < maxQueryLength := by
          rw [List.length_append]
          omega
        rw [sprintf, if_neg next, sprintf, if_neg long]
        rfl

theorem toFieldsString_null (fields : List Bytes) (rest : Cells) :
    toFieldsString (fields.map some ++ none :: rest) = sprintf maxQueryLength (listed fields) := by
  cases fields with
  | nil => rfl
  | cons field fields =>
      rw [toFieldsString, List.map_cons, List.cons_append, toFieldsStringFrom, if_pos rfl,
        listed_cons]
      by_cases first : field.length < maxQueryLength
      · rw [sprintf, if_pos first]
        exact toFieldsStringFrom_null fields rest 0 first
      · have long : ¬ (field ++ fields.flatMap (ascii "," ++ ·)).length < maxQueryLength := by
          rw [List.length_append]
          omega
        rw [sprintf, if_neg first, sprintf, if_neg long]
        rfl

/-- Without a null the loop does not end inside the array. -/
theorem toFieldsStringFrom_ne_ok (fields : List Bytes) (i : Nat) (aux out : Bytes) :
    toFieldsStringFrom (fields.map some) i aux ≠ .ok out := by
  induction fields generalizing i aux with
  | nil => simp
  | cons field fields ih =>
      rw [List.map_cons, toFieldsStringFrom]
      intro gives
      obtain ⟨longer, -, gives⟩ := bind_eq_ok.mp gives
      exact ih (i + 1) longer gives

end Cells

/-! ## The three builders -/

/-- A builder with columns: the setter of a column, the renderer, the query that holds some columns,
and the text that lists them, if there is to be one. -/
structure ColumnBuilder (σ β : Type) : Type where
  set : σ → β → Except Fault σ
  toStr : σ → Except Fault Bytes
  holding : List β → σ
  text : List β → Option Bytes

/-- Behind any calls on a fresh query it holds the first columns there is room for, and the text
lists the columns; nothing outside the arrays is designated. -/
def ColumnBuilder.Lists {σ β : Type} (b : ColumnBuilder σ β) (columns : List β) : Prop :=
  ∃ query, columns.foldlM b.set (b.holding []) = .ok query ∧ query = b.holding columns ∧
    ∀ text ∈ b.text columns, b.toStr query = .ok text

/-- What the setter and the renderer do as long as there is room, and without. -/
structure ColumnBuilder.Bounded {σ β : Type} (b : ColumnBuilder σ β) : Prop where
  room : ∀ columns column, columns.length < maxColumns →
    b.set (b.holding columns) column = .ok (b.holding (columns ++ [column]))
  full : ∀ columns column, columns.length = maxColumns →
    b.set (b.holding columns) column = .error .outOfBounds
  renders : ∀ columns, columns.length < maxColumns → ∀ text ∈ b.text columns,
    (b.toStr (b.holding columns) = .ok text ↔ text.length < maxQueryLength)
  stops : ∀ columns, columns.length = maxColumns →
    ∃ text ∈ b.text columns, b.toStr (b.holding columns) ≠ .ok text

section Bounded

variable {σ β : Type} {b : ColumnBuilder σ β}

theorem ColumnBuilder.Bounded.foldlM_set (bounded : b.Bounded) {before : List β}
    (short : before.length ≤ maxColumns) (more : List β) :
    more.foldlM b.set (b.holding before) = if before.length + more.length ≤ maxColumns then
      .ok (b.holding (before ++ more)) else .error .outOfBounds := by
  induction more generalizing before with
  | nil =>
      rw [List.length_nil, Nat.add_zero, if_pos short, List.append_nil]
      rfl
  | cons column more ih =>
      rw [List.foldlM_cons]
      rcases short.lt_or_eq with room | full
      · have longer : (before ++ [column]).length ≤ maxColumns := by
          rw [List.length_append, List.length_singleton]
          omega
        have later := ih longer
        rw [List.length_append, List.length_singleton, List.append_assoc, Nat.add_assoc,
          Nat.add_comm 1] at later
        rw [bounded.room before column room]
        exact later
      · rw [bounded.full before column full, if_neg (by rw [List.length_cons]; omega)]
        rfl

theorem ColumnBuilder.Bounded.lists_iff (bounded : b.Bounded) (columns : List β) :
    b.Lists columns ↔ columns.length < maxColumns ∧
      ∀ text ∈ b.text columns, text.length < maxQueryLength := by
  have short : ([] : List β).length ≤ maxColumns := Nat.zero_le _
  have fills := bounded.foldlM_set short columns
  rw [List.length_nil, Nat.zero_add, List.nil_append] at fills
  unfold ColumnBuilder.Lists
  rw [fills]
  constructor
  · intro given
    obtain ⟨query, ends, rfl, gives⟩ := given
    split_ifs at ends with short
    · rcases short.lt_or_eq with room | full
      · exact ⟨room, fun text expected =>
          (bounded.renders columns room text expected).mp (gives text expected)⟩
      · obtain ⟨text, expected, fails⟩ := bounded.stops columns full
        exact absurd (gives text expected) fails
  · intro given
    obtain ⟨room, fits⟩ := given
    refine ⟨_, if_pos room.le, rfl, fun text expected => ?_⟩
    exact (bounded.renders columns room text expected).mpr (fits text expected)

end Bounded

/-- The select builder; without attributes it selects all. -/
def selectColumns (table whereText : Bytes) : ColumnBuilder SelectQuery Bytes where
  set := setSelectQueryAtribute
  toStr := selectQueryToStr
  holding atributes := ⟨table, columns atributes, whereText⟩
  text atributes := some (ascii "SELECT " ++
    listed (if atributes = [] then [ascii "*"] else atributes) ++ ascii " FROM " ++ table ++
      ascii " WHERE " ++ whereText ++ ascii ";")

/-- The insert builder; without attributes there is no text. -/
def insertColumns (table : Bytes) : ColumnBuilder InsertQuery (Bytes × Bytes) where
  set query column := setInsertQueryValue query column.1 column.2
  toStr := insertQueryToStr
  holding pairs := ⟨table, columns (pairs.map Prod.fst), columns (pairs.map Prod.snd)⟩
  text pairs := if pairs = [] then none else some (ascii "INSERT INTO " ++ table ++ ascii "(" ++
    listed (pairs.map Prod.fst) ++ ascii ") VALUES(" ++ listed (pairs.map Prod.snd) ++ ascii ");")

/-- An assignment of the update builder. -/
def assignment (pair : Bytes × Bytes) : Bytes := pair.1 ++ ascii "=" ++ pair.2

/-- The update builder; without attributes there is no text. -/
def updateColumns (table whereText : Bytes) : ColumnBuilder UpdateQuery (Bytes × Bytes) where
  set query column := setUpdateQueryValue query column.1 column.2
  toStr := updateQueryToStr
  holding pairs := ⟨table, columns (pairs.map Prod.fst), columns (pairs.map Prod.snd), whereText⟩
  text pairs := if pairs = [] then none else some (ascii "UPDATE " ++ table ++ ascii " SET " ++
    listed (pairs.map assignment) ++ ascii " WHERE " ++ whereText ++ ascii ";")

/-- The queries are created with empty arrays. -/
theorem create_holding_nil : createSelectQuery = .ok ((selectColumns [] (ascii "1=1")).holding []) ∧
    createInsertQuery = (insertColumns []).holding [] ∧
    createUpdateQuery = .ok ((updateColumns [] (ascii "1=1")).holding []) := ⟨rfl, rfl, rfl⟩

section Builders

variable {table whereText : Bytes}

theorem ok_bind {α β : Type} (a : α) (next : α → Except Fault β) :
    (Except.ok a >>= next) = next a := rfl

theorem error_bind {α β : Type} (e : Fault) (next : α → Except Fault β) :
    ((Except.error e : Except Fault α) >>= next) = .error e := rfl

/-- A text that is printed and goes on into the next one. -/
theorem sprintf_bind_eq_ok {capacity : Nat} {part out : Bytes} {next : Bytes → Except Fault Bytes} :
    (sprintf capacity part >>= next) = .ok out ↔ part.length < capacity ∧ next part = .ok out := by
  rw [bind_eq_ok]
  constructor
  · intro given
    obtain ⟨text, prints, goes⟩ := given
    obtain ⟨fits, rfl⟩ := sprintf_eq_ok.mp prints
    exact ⟨fits, goes⟩
  · intro given
    exact ⟨part, sprintf_eq_ok.mpr ⟨given.1, rfl⟩, given.2⟩

/-- The null in front of an empty array is replaced by a star. -/
theorem selectQueryToStr_columns {atributes : List Bytes} (room : atributes.length < maxColumns) :
    selectQueryToStr ⟨table, columns atributes, whereText⟩ =
      sprintf maxQueryLength (listed (if atributes = [] then [ascii "*"] else atributes)) >>=
        fun fields => sprintf maxQueryLength (ascii "SELECT " ++ fields ++ ascii " FROM " ++ table ++
          ascii " WHERE " ++ whereText ++ ascii ";") := by
  cases atributes with
  | nil => exact congrArg (· >>= _) (toFieldsString_null [ascii "*"] (List.replicate 9 none))
  | cons atribute atributes =>
      obtain ⟨rest, cells⟩ := columns_of_lt room
      rw [selectQueryToStr, cells, if_neg (List.cons_ne_nil _ _)]
      exact congrArg (· >>= _) (toFieldsString_null (atribute :: atributes) rest)

theorem bounded_selectColumns : (selectColumns table whereText).Bounded := by
  refine ⟨?_, ?_, ?_, ?_⟩
  · intro atributes atribute room
    simp only [selectColumns, setSelectQueryAtribute, freeCell_columns room, ok_bind, ne_eq,
      room.ne, not_false_eq_true, if_true, set_columns room, pure_eq_ok]
  · intro atributes atribute full
    simp only [selectColumns, setSelectQueryAtribute, freeCell_full full, error_bind]
  · intro atributes room text expected
    cases expected
    simp only [selectColumns]
    rw [selectQueryToStr_columns room, sprintf_bind_eq_ok, sprintf_eq_ok, and_iff_left rfl]
    refine and_iff_right_of_imp fun fits => ?_
    -- the fields are a part of the statement
    simp only [List.length_append] at fits
    omega
  · intro atributes full
    refine ⟨_, rfl, ?_⟩
    simp only [selectColumns, selectQueryToStr, columns_of_full full]
    intro gives
    obtain ⟨fields, stops, -⟩ := bind_eq_ok.mp gives
    cases atributes with
    | nil => cases full
    | cons atribute atributes =>
        exact toFieldsStringFrom_ne_ok (atribute :: atributes) 0 [] fields stops

/-- The array of the assignments, as long as there is a null. -/
theorem assignments_columns (pairs : List (Bytes × Bytes)) (rest rest' : Cells) :
    assignments ((pairs.map Prod.fst).map some ++ none :: rest)
        ((pairs.map Prod.snd).map some ++ rest') =
      .ok ((pairs.map assignment).map some ++ [none]) := by
  induction pairs with
  | nil => rfl
  | cons pair pairs ih =>
      simp only [List.map_cons, List.cons_append, assignments, ih, ok_bind, pure_eq_ok, assignment]

theorem assignments_full (fields : List Bytes) (values cells : Cells) :
    assignments (fields.map some) values ≠ .ok cells := by
  induction fields generalizing values cells with
  | nil => simp
  | cons field fields ih =>
      intro gives
      rcases values with _ | ⟨_ | value, values⟩
      · cases gives
      · cases gives
      · rw [List.map_cons, assignments] at gives
        obtain ⟨rest, gives, -⟩ := bind_eq_ok.mp gives
        exact ih values rest gives

theorem head?_columns {fields : List Bytes} (nonempty : fields ≠ []) :
    (columns fields).head? ≠ some none := by
  obtain ⟨field, fields, rfl⟩ := List.exists_cons_of_ne_nil nonempty
  simp [columns, maxColumns]

theorem bounded_insertColumns : (insertColumns table).Bounded := by
  refine ⟨?_, ?_, ?_, ?_⟩
  · intro pairs pair room
    simp only [insertColumns, setInsertQueryValue, freeCell_map Prod.fst room, ok_bind, ne_eq,
      room.ne, not_false_eq_true, if_true, set_map Prod.fst room, set_map Prod.snd room, pure_eq_ok]
  · intro pairs pair full
    simp only [insertColumns, setInsertQueryValue, freeCell_map_full Prod.fst full, error_bind]
  · intro pairs room text expected
    have atributes : (pairs.map Prod.fst).length < maxColumns := by rwa [List.length_map]
    have values : (pairs.map Prod.snd).length < maxColumns := by rwa [List.length_map]
    obtain ⟨rest, cells⟩ := columns_of_lt atributes
    obtain ⟨rest', cells'⟩ := columns_of_lt values
    simp only [insertColumns] at expected ⊢
    split_ifs at expected with filled
    · cases expected
    · cases expected
      have head : (columns (pairs.map Prod.fst)).head? ≠ some none :=
        head?_columns (mt List.map_eq_nil_iff.mp filled)
      rw [insertQueryToStr, if_neg head, cells, cells']
      rw [toFieldsString_null, toFieldsString_null, sprintf_bind_eq_ok, sprintf_bind_eq_ok,
        sprintf_eq_ok, and_iff_left rfl, ← and_assoc]
      refine and_iff_right_of_imp fun fits => ?_
      -- both lists are parts of the statement
      simp only [List.length_append] at fits
      exact ⟨by omega, by omega⟩
  · intro pairs full
    have filled : pairs ≠ [] := by
      intro same
      subst same
      cases full
    have atributes : (pairs.map Prod.fst).length = maxColumns := by rwa [List.length_map]
    have head : (columns (pairs.map Prod.fst)).head? ≠ some none :=
      head?_columns (mt List.map_eq_nil_iff.mp filled)
    simp only [insertColumns, if_neg filled]
    refine ⟨_, rfl, ?_⟩
    rw [insertQueryToStr, if_neg head, columns_of_full atributes]
    intro gives
    obtain ⟨fields, stops, -⟩ := bind_eq_ok.mp gives
    exact toFieldsStringFrom_ne_ok _ 0 [] fields stops

theorem bounded_updateColumns : (updateColumns table whereText).Bounded := by
  refine ⟨?_, ?_, ?_, ?_⟩
  · intro pairs pair room
    simp only [updateColumns, setUpdateQueryValue, freeCell_map Prod.fst room, ok_bind, ne_eq,
      room.ne, not_false_eq_true, if_true, set_map Prod.fst room, set_map Prod.snd room, pure_eq_ok]
  · intro pairs pair full
    simp only [updateColumns, setUpdateQueryValue, freeCell_map_full Prod.fst full, error_bind]
  · intro pairs room text expected
    have atributes : (pairs.map Prod.fst).length < maxColumns := by rwa [List.length_map]
    have values : (pairs.map Prod.snd).length ≤ maxColumns := by
      rw [List.length_map]
      exact room.le
    obtain ⟨rest, cells⟩ := columns_of_lt atributes
    simp only [updateColumns] at expected ⊢
    split_ifs at expected with filled
    · cases expected
    · cases expected
      have head : (columns (pairs.map Prod.fst)).head? ≠ some none :=
        head?_columns (mt List.map_eq_nil_iff.mp filled)
      rw [updateQueryToStr, if_neg head, cells, columns_of_le values]
      rw [assignments_columns, ok_bind, toFieldsString_null, sprintf_bind_eq_ok, sprintf_eq_ok,
        and_iff_left rfl]
      refine and_iff_right_of_imp fun fits => ?_
      simp only [List.length_append] at fits
      omega
  · intro pairs full
    have filled : pairs ≠ [] := by
      intro same
      subst same
      cases full
    have atributes : (pairs.map Prod.fst).length = maxColumns := by rwa [List.length_map]
    have head : (columns (pairs.map Prod.fst)).head? ≠ some none :=
      head?_columns (mt List.map_eq_nil_iff.mp filled)
    simp only [updateColumns, if_neg filled]
    refine ⟨_, rfl, ?_⟩
    rw [updateQueryToStr, if_neg head, columns_of_full atributes]
    intro gives
    obtain ⟨cells, stops, -⟩ := bind_eq_ok.mp gives
    exact assignments_full _ _ cells stops

end Builders

/-- Any calls of a setter and the renderer behind them: they list the columns just if these leave a
cell free for the null and the text fits into its buffer. -/
theorem builders_list_columns_iff (table whereText : Bytes) (atributes : List Bytes)
    (pairs : List (Bytes × Bytes)) :
    ((selectColumns table whereText).Lists atributes ↔ atributes.length < maxColumns ∧
      ∀ text ∈ (selectColumns table whereText).text atributes, text.length < maxQueryLength) ∧
    ((insertColumns table).Lists pairs ↔ pairs.length < maxColumns ∧
      ∀ text ∈ (insertColumns table).text pairs, text.length < maxQueryLength) ∧
    ((updateColumns table whereText).Lists pairs ↔ pairs.length < maxColumns ∧
      ∀ text ∈ (updateColumns table whereText).text pairs, text.length < maxQueryLength) :=
  ⟨bounded_selectColumns.lists_iff atributes, bounded_insertColumns.lists_iff pairs,
    bounded_updateColumns.lists_iff pairs⟩

/-- Ten columns fill the array and the renderers read on; an eleventh is not turned away, its free
cell is looked for behind the array. -/
theorem tenth_column_read_past :
    (∃ query, (List.replicate 10 (ascii "a")).foldlM setSelectQueryAtribute
        ((selectColumns (ascii "t") (ascii "1=1")).holding []) = .ok query ∧
      selectQueryToStr query = .error .outOfBounds) ∧
    (List.replicate 11 (ascii "a")).foldlM setSelectQueryAtribute
      ((selectColumns (ascii "t") (ascii "1=1")).holding []) = .error .outOfBounds ∧
    ¬ (selectColumns (ascii "t") (ascii "1=1")).Lists (List.replicate 10 (ascii "a")) := by
  refine ⟨⟨_, rfl, rfl⟩, rfl, ?_⟩
  intro given
  obtain ⟨query, fills, -, renders⟩ := given
  cases fills
  cases renders _ rfl

end IpcFtp
