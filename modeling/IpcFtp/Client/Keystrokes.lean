import IpcFtp.CString
import IpcFtp.Lib.Guarded
import Mathlib.Data.List.DropRight

/-!
# The line a command is typed on

The `do` loop of `main` in `client/main.c` and the buffer it fills.  A backspace moves the index
back and leaves the terminator where it is, and the loop also ends behind the byte that is `EOF` as
a `char`.

## Main results

* `passes_edited_iff`: when the string for `cmd_parse` is the line as it was edited.
* `passes_struck_out`: a backspace at the end of a line strikes nothing out.
-/

namespace IpcFtp

open Lib

/-- `shell_buffer` and `shell_index`. -/
structure LineBuffer : Type where
  shellBuffer : Bytes
  shellIndex : Nat
  deriving DecidableEq

/-- The buffer is set to zero once, in front of the first command. -/
def LineBuffer.start : LineBuffer := ⟨List.replicate 2048 0, 0⟩

/-- Behind a command. -/
def LineBuffer.again (s : LineBuffer) : LineBuffer := ⟨s.shellBuffer.set 0 0, 0⟩

/-- What `cmd_parse` is given. -/
def LineBuffer.passed (s : LineBuffer) : CString := ⟨cstr s.shellBuffer, nulFree_cstr _⟩

/-- `'\b'`. -/
def backspace : Byte := 8

/-- The `switch` on a key that is no `NEWLINE`. -/
def typeKey (s : LineBuffer) (c : Byte) : Except Fault LineBuffer :=
  if c = backspace then .ok { s with shellIndex := s.shellIndex - 1 }
  else if c = chr '\r' then .ok s
  else if c = chr '\t' then .ok s
  else if s.shellIndex + 1 < s.shellBuffer.length then
    .ok ⟨(s.shellBuffer.set s.shellIndex c).set (s.shellIndex + 1) 0, s.shellIndex + 1⟩
  else .error .outOfBounds

/-- The `do` loop, and the keys it has not read.  Behind the last key `getchar` answers `EOF`. -/
def readLine (s : LineBuffer) : Bytes → Except Fault (LineBuffer × Bytes)
  | [] => do
    let s ← typeKey s 255
    return (s, [])
  | c :: keys =>
    if c = chr '\n' then .ok (s, keys)
    else do
      let s ← typeKey s c
      if c = 255 then return (s, keys) else readLine s keys

/-- A command: its keys are read, and the buffer is made ready for the next one. -/
def takesLine (s : LineBuffer) (keys : Bytes) (s' : LineBuffer) : Prop :=
  ∃ filled, readLine s keys = .ok (filled, []) ∧ s' = filled.again

/-! ## Editing -/

/-- Keys that are characters of the line. -/
def isOrdinary (c : Byte) : Bool := c ≠ backspace ∧ c ≠ chr '\r' ∧ c ≠ chr '\t'

/-- One key more. -/
def editKey (line : Bytes) (c : Byte) : Bytes :=
  if c = backspace then line.dropLast else if isOrdinary c then line ++ [c] else line

def editedLine (keys : Bytes) : Bytes := keys.foldl editKey []

/-- The line at the last ordinary key. -/
def lastShown (keys : Bytes) : Bytes := editedLine (keys.rdropWhile fun c => !isOrdinary c)

/-- The backspaces behind it. -/
def strikes (keys : Bytes) : Nat := (keys.rtakeWhile fun c => !isOrdinary c).count (backspace)

section Editing

variable {keys : Bytes} {c : Byte}

theorem editedLine_concat (keys : Bytes) (c : Byte) :
    editedLine (keys ++ [c]) = editKey (editedLine keys) c := List.foldl_concat ..

theorem editKey_ordinary (line : Bytes) (ordinary : isOrdinary c = true) :
    editKey line c = line ++ [c] := by
  rw [editKey, if_neg, if_pos ordinary]
  intro same
  subst same
  cases ordinary

theorem lastShown_ordinary (keys : Bytes) (ordinary : isOrdinary c = true) :
    lastShown (keys ++ [c]) = editedLine (keys ++ [c]) := by
  rw [lastShown, List.rdropWhile_concat_neg _ _ _ (by simp [ordinary])]

theorem lastShown_other (keys : Bytes) (other : isOrdinary c = false) :
    lastShown (keys ++ [c]) = lastShown keys := by
  rw [lastShown, List.rdropWhile_concat_pos _ _ _ (by simp [other]), lastShown]

theorem strikes_ordinary (keys : Bytes) (ordinary : isOrdinary c = true) :
    strikes (keys ++ [c]) = 0 := by
  rw [strikes, List.rtakeWhile_concat_neg _ _ _ (by simp [ordinary]), List.count_nil]

theorem strikes_other (keys : Bytes) (other : isOrdinary c = false) :
    strikes (keys ++ [c]) = strikes keys + if c = backspace then 1 else 0 := by
  rw [strikes, List.rtakeWhile_concat_pos _ _ _ (by simp [other]), List.count_append, strikes,
    List.count_singleton]
  simp

/-- Behind the last ordinary key the line is struck out from its end. -/
theorem editedLine_eq_take (keys : Bytes) :
    editedLine keys = (lastShown keys).take ((lastShown keys).length - strikes keys) := by
  induction keys using List.reverseRecOn with
  | nil => rfl
  | append_singleton keys c ih =>
      cases kind : isOrdinary c with
      | true =>
          rw [lastShown_ordinary keys kind, strikes_ordinary keys kind, Nat.sub_zero,
            List.take_length]
      | false =>
          rw [editedLine_concat, lastShown_other keys kind, strikes_other keys kind, ih, editKey]
          by_cases struck : c = backspace
          · rw [if_pos struck, if_pos struck, List.dropLast_eq_take, List.take_take,
              List.length_take]
            congr 1
            omega
          · rw [if_neg struck, if_neg struck, kind]
            rfl

theorem editedLine_prefix_lastShown (keys : Bytes) : editedLine keys <+: lastShown keys := by
  rw [editedLine_eq_take]
  exact List.take_prefix _ _

theorem length_editedLine (keys : Bytes) :
    (editedLine keys).length = (lastShown keys).length - strikes keys := by
  rw [editedLine_eq_take, List.length_take]
  omega

theorem length_editedLine_le (keys : Bytes) : (editedLine keys).length ≤ keys.length := by
  induction keys using List.reverseRecOn with
  | nil => rfl
  | append_singleton keys c ih =>
      rw [editedLine_concat, editKey, List.length_append, List.length_singleton]
      split_ifs
      · rw [List.length_dropLast]
        omega
      · rw [List.length_append, List.length_singleton]
        omega
      · omega

end Editing

/-! ## The buffer while a line is typed -/

/-- The keys since the last command: the line is counted by the index, and its text at the last
ordinary key stands in the buffer. -/
structure LineBuffer.Holds (s : LineBuffer) (keys : Bytes) : Prop where
  size : s.shellBuffer.length = 2048
  index : s.shellIndex = (editedLine keys).length
  text : ∃ rest, s.shellBuffer = lastShown keys ++ 0 :: rest

section Holds

variable {s s' : LineBuffer} {keys : Bytes} {c : Byte}

theorem cstr_append_zero (text rest : Bytes) : cstr (text ++ 0 :: rest) = cstr text := by
  induction text with
  | nil => rfl
  | cons a text ih =>
      rw [List.cons_append, cstr, cstr, List.takeWhile_cons, List.takeWhile_cons]
      split_ifs
      · exact congrArg (a :: ·) ih
      · rfl

theorem LineBuffer.Holds.passed (holds : s.Holds keys) : s.passed.bytes = cstr (lastShown keys) := by
  obtain ⟨rest, text⟩ := holds.text
  change cstr s.shellBuffer = _
  rw [text, cstr_append_zero]

theorem holds_start : LineBuffer.start.Holds [] :=
  ⟨List.length_replicate, rfl, List.replicate 2047 0, List.replicate_succ⟩

theorem LineBuffer.Holds.again (holds : s.Holds keys) : s.again.Holds [] := by
  refine ⟨by rw [LineBuffer.again, List.length_set, holds.size], rfl, ?_⟩
  have filled : s.shellBuffer ≠ [] := List.ne_nil_of_length_eq_add_one holds.size
  obtain ⟨a, rest, cells⟩ := List.exists_cons_of_ne_nil filled
  exact ⟨rest, by rw [LineBuffer.again, cells, List.set_cons_zero]; rfl⟩

theorem typeKey_ordinary (s : LineBuffer) (ordinary : isOrdinary c = true) :
    typeKey s c = if s.shellIndex + 1 < s.shellBuffer.length then
      .ok ⟨(s.shellBuffer.set s.shellIndex c).set (s.shellIndex + 1) 0, s.shellIndex + 1⟩
    else .error .outOfBounds := by
  simp only [isOrdinary, ne_eq, decide_eq_true_eq] at ordinary
  obtain ⟨struck, home, tab⟩ := ordinary
  rw [typeKey, if_neg struck, if_neg home, if_neg tab]

theorem typeKey_other (s : LineBuffer) (other : isOrdinary c = false) :
    typeKey s c = .ok { s with shellIndex := s.shellIndex - if c = backspace then 1 else 0 } := by
  simp only [isOrdinary, ne_eq, decide_eq_false_iff_not, not_and_or, not_not] at other
  rcases other with rfl | rfl | rfl <;> rfl

/-- A character is written behind what is left of the line, with a terminator behind it. -/
theorem LineBuffer.Holds.written (holds : s.Holds keys)
    (room : s.shellIndex + 1 < s.shellBuffer.length) (c : Byte) :
    ∃ rest, (s.shellBuffer.set s.shellIndex c).set (s.shellIndex + 1) 0 =
      editedLine keys ++ [c] ++ 0 :: rest := by
  obtain ⟨rest, text⟩ := holds.text
  have inside : editedLine keys <+: s.shellBuffer := by
    rw [text]
    exact (editedLine_prefix_lastShown keys).trans (List.prefix_append _ _)
  obtain ⟨behind, cells⟩ := inside
  rw [← cells, List.length_append, ← holds.index] at room
  rcases behind with _ | ⟨a, _ | ⟨b, rest⟩⟩
  · rw [List.length_nil] at room
    omega
  · rw [List.length_singleton] at room
    omega
  · refine ⟨rest, ?_⟩
    rw [← cells, holds.index]
    simp

/-- The text and its terminator lie in the buffer. -/
theorem LineBuffer.Holds.short (holds : s.Holds keys) : (editedLine keys).length < 2048 := by
  obtain ⟨rest, text⟩ := holds.text
  have shorter := (editedLine_prefix_lastShown keys).length_le
  have whole := congrArg List.length text
  rw [holds.size, List.length_append, List.length_cons] at whole
  omega

/-- One key more, if it is no character or there is room for it. -/
theorem LineBuffer.Holds.typeKey (holds : s.Holds keys) (c : Byte) :
    (∃ s', typeKey s c = .ok s' ∧ s'.Holds (keys ++ [c])) ∨
      (typeKey s c = .error .outOfBounds ∧ ¬ (editedLine (keys ++ [c])).length < 2048) := by
  cases kind : isOrdinary c with
  | true =>
      have longer : editedLine (keys ++ [c]) = editedLine keys ++ [c] := by
        rw [editedLine_concat, editKey_ordinary _ kind]
      rw [typeKey_ordinary s kind]
      by_cases room : s.shellIndex + 1 < s.shellBuffer.length
      · rw [if_pos room]
        obtain ⟨rest, text⟩ := holds.written room c
        refine .inl ⟨_, rfl, ?_, ?_, rest, ?_⟩
        · rw [List.length_set, List.length_set, holds.size]
        · rw [longer, List.length_append, List.length_singleton, holds.index]
        · rw [lastShown_ordinary keys kind, longer]
          exact text
      · rw [if_neg room]
        refine .inr ⟨rfl, ?_⟩
        rw [longer, List.length_append, List.length_singleton, ← holds.index, ← holds.size]
        exact room
  | false =>
      rw [typeKey_other s kind]
      refine .inl ⟨_, rfl, holds.size, ?_, ?_⟩
      · rw [length_editedLine, lastShown_other keys kind, strikes_other keys kind, holds.index,
          length_editedLine]
        dsimp only
        omega
      · rw [lastShown_other keys kind]
        exact holds.text

/-- Any keys in front of the end of the line. -/
theorem LineBuffer.Holds.foldlM_typeKey (holds : s.Holds []) (keys : Bytes) :
    (∃ s', keys.foldlM IpcFtp.typeKey s = .ok s' ∧ s'.Holds keys ∧
        ∀ typed, typed <+: keys → (editedLine typed).length < 2048) ∨
      (keys.foldlM IpcFtp.typeKey s = .error .outOfBounds ∧
        ∃ typed, typed <+: keys ∧ ¬ (editedLine typed).length < 2048) := by
  induction keys using List.reverseRecOn with
  | nil =>
      refine .inl ⟨s, rfl, holds, fun typed front => ?_⟩
      rw [List.prefix_nil.mp front]
      decide
  | append_singleton keys c ih =>
      simp only [List.foldlM_append, List.foldlM_cons, List.foldlM_nil]
      rcases ih with ⟨before, reads, held, fits⟩ | ⟨stops, typed, front, long⟩
      · rw [reads]
        rcases held.typeKey c with ⟨after, types, later⟩ | ⟨stops, long⟩
        · refine .inl ⟨after, congrArg (· >>= pure) types, later, fun typed front => ?_⟩
          rcases List.prefix_concat_iff.mp front with rfl | front
          · exact later.short
          · exact fits typed front
        · exact .inr ⟨congrArg (· >>= pure) stops, _, List.prefix_refl _, long⟩
      · rw [stops]
        exact .inr ⟨rfl, typed, front.trans (List.prefix_append _ _), long⟩

end Holds

/-! ## The loop -/

section ReadLine

variable {s : LineBuffer} {keys : Bytes}

/-- Without the byte 255 the loop reads to the end of the line. -/
theorem readLine_append (s : LineBuffer) (line : chr '\n' ∉ keys) (plain : 255 ∉ keys)
    (later : Bytes) :
    readLine s (keys ++ chr '\n' :: later) = (keys.foldlM typeKey s).map fun s => (s, later) := by
  induction keys generalizing s with
  | nil => rfl
  | cons c keys ih =>
      rw [List.mem_cons, not_or] at line plain
      rw [List.cons_append, readLine, if_neg (Ne.symm line.1), List.foldlM_cons]
      cases typeKey s c with
      | error e => rfl
      | ok s' =>
          refine Eq.trans ?_ (ih s' line.2 plain.2)
          exact if_neg (Ne.symm plain.1)

/-- With it, something of the line is left. -/
theorem length_lt_of_readLine {s' : LineBuffer} {rest : Bytes} (line : chr '\n' ∉ keys)
    (ended : 255 ∈ keys) (later : Bytes) (reads : readLine s (keys ++ chr '\n' :: later) = .ok (s', rest)) :
    later.length < rest.length := by
  induction keys generalizing s with
  | nil => cases ended
  | cons c keys ih =>
      rw [List.mem_cons, not_or] at line
      rw [List.cons_append, readLine, if_neg (Ne.symm line.1)] at reads
      cases types : typeKey s c with
      | error e =>
          rw [types] at reads
          cases reads
      | ok filled =>
          rw [types] at reads
          change (if c = 255 then Except.ok (filled, keys ++ chr '\n' :: later) else
            readLine filled (keys ++ chr '\n' :: later)) = _ at reads
          split_ifs at reads with last
          · cases reads
            rw [List.length_append, List.length_cons]
            omega
          · refine ih line.2 ?_ reads
            rcases List.mem_cons.mp ended with same | inside
            · exact absurd same.symm last
            · exact inside

/-- Whatever was typed stands in the buffer, however its command ended. -/
theorem LineBuffer.Holds.readLine {typed rest : Bytes} {filled : LineBuffer} (holds : s.Holds typed)
    (reads : IpcFtp.readLine s keys = .ok (filled, rest)) : ∃ typed, filled.Holds typed := by
  induction keys generalizing s typed with
  | nil =>
      rw [IpcFtp.readLine] at reads
      rcases holds.typeKey 255 with ⟨after, types, later⟩ | ⟨stops, -⟩
      · rw [types] at reads
        cases reads
        exact ⟨_, later⟩
      · rw [stops] at reads
        cases reads
  | cons c keys ih =>
      rw [IpcFtp.readLine] at reads
      split at reads
      · cases reads
        exact ⟨typed, holds⟩
      · rcases holds.typeKey c with ⟨after, types, later⟩ | ⟨stops, -⟩
        · rw [types] at reads
          change (if c = 255 then Except.ok (after, keys) else IpcFtp.readLine after keys) =
            _ at reads
          split_ifs at reads
          · cases reads
            exact ⟨_, later⟩
          · exact ih later reads
        · rw [stops] at reads
          cases reads

/-- Between two commands the buffer holds the empty line. -/
theorem holds_of_run {earlier : List Bytes} (run : Run takesLine unguarded .start earlier s) :
    s.Holds [] := by
  refine @Run.invariant _ _ _ _ (fun s => s.Holds []) _ _ _ run holds_start ?_
  rintro s _ keys holds - ⟨filled, reads, rfl⟩
  obtain ⟨typed, held⟩ := holds.readLine reads
  exact held.again

/-- What is passed is the line at the last ordinary key, and nothing if it did not fit. -/
theorem LineBuffer.Holds.passes (holds : s.Holds []) (line : chr '\n' ∉ keys) (plain : 255 ∉ keys)
    (later : Bytes) :
    (∃ filled, IpcFtp.readLine s (keys ++ chr '\n' :: later) = .ok (filled, later) ∧
        filled.passed.bytes = cstr (lastShown keys) ∧
        ∀ typed, typed <+: keys → (editedLine typed).length < 2048) ∨
      (IpcFtp.readLine s (keys ++ chr '\n' :: later) = .error .outOfBounds ∧
        ∃ typed, typed <+: keys ∧ ¬ (editedLine typed).length < 2048) := by
  rw [readLine_append s line plain]
  rcases holds.foldlM_typeKey keys with ⟨filled, types, held, fits⟩ | ⟨stops, long⟩
  · rw [types]
    exact .inl ⟨filled, rfl, held.passed, fits⟩
  · rw [stops]
    exact .inr ⟨rfl, long⟩

end ReadLine

/-- What a line has to be like: it is not ended by the byte 255, it never outgrows the buffer, and
the backspaces behind its last character leave what lies in front of a NUL, or everything if there
is none. -/
structure KeepsLine (keys : Bytes) : Prop where
  plain : 255 ∉ keys
  fits : ∀ typed, typed <+: keys → (editedLine typed).length < 2048
  kept : (lastShown keys).length - strikes keys = (cstr (lastShown keys)).length

/-- The loop reads these keys and the end of the line behind them, nothing is written outside the
buffer, and the line is what they edit. -/
def PassesEdited (s : LineBuffer) (keys later : Bytes) : Prop :=
  ∃ filled, readLine s (keys ++ chr '\n' :: later) = .ok (filled, later) ∧
    filled.passed.bytes = editedLine keys

/-- Behind any commands, whatever was typed for them. -/
theorem passes_edited_iff {earlier : List Bytes} {s : LineBuffer} {keys : Bytes}
    (run : Run takesLine unguarded .start earlier s) (line : chr '\n' ∉ keys) (later : Bytes) :
    PassesEdited s keys later ↔ KeepsLine keys := by
  have holds := holds_of_run run
  constructor
  · intro given
    obtain ⟨filled, reads, same⟩ := given
    have plain : 255 ∉ keys := fun ended =>
      lt_irrefl _ (length_lt_of_readLine line ended later reads)
    rcases holds.passes line plain later with ⟨filled', reads', shown, fits⟩ | ⟨stops, -⟩
    · cases reads.symm.trans reads'
      exact ⟨plain, fits, by rw [← length_editedLine, ← same, shown]⟩
    · cases reads.symm.trans stops
  · intro given
    obtain ⟨plain, fits, kept⟩ := given
    rcases holds.passes line plain later with ⟨filled, reads, shown, -⟩ | ⟨-, typed, front, long⟩
    · refine ⟨filled, reads, ?_⟩
      -- both are fronts of the line at the last ordinary key
      have lengths : (cstr (lastShown keys)).length = (editedLine keys).length := by
        rw [length_editedLine, kept]
      have front := List.prefix_of_prefix_length_le (List.takeWhile_prefix _)
        (editedLine_prefix_lastShown keys) lengths.le
      rw [shown]
      exact front.eq_of_length lengths
    · exact absurd (fits typed front) long

theorem passes_help :
    PassesEdited .start (ascii "hepp" ++ [backspace, backspace] ++ ascii "lp") [] := by
  refine (passes_edited_iff (.nil _) (by decide) []).mpr ⟨by decide, ?_, by decide⟩
  intro typed front
  exact ((length_editedLine_le typed).trans front.length_le).trans_lt (by decide)

/-- A backspace in front of the end of the line strikes nothing out. -/
theorem passes_struck_out :
    editedLine (ascii "ab" ++ [backspace]) = ascii "a" ∧
      (∃ filled, readLine .start (ascii "ab" ++ [backspace] ++ [chr '\n']) = .ok (filled, []) ∧
        filled.passed.bytes = ascii "ab") ∧
      ¬ PassesEdited .start (ascii "ab" ++ [backspace]) [] := by
  rcases holds_start.passes (show chr '\n' ∉ ascii "ab" ++ [backspace] by decide) (by decide) [] with
    ⟨filled, reads, shown, -⟩ | ⟨-, typed, front, long⟩
  · refine ⟨by decide, ⟨filled, reads, shown⟩, ?_⟩
    intro given
    obtain ⟨filled', reads', same⟩ := given
    cases reads.symm.trans reads'
    exact absurd (shown.symm.trans same) (by decide)
  · exact absurd (((length_editedLine_le typed).trans front.length_le).trans_lt (by decide)) long

end IpcFtp
