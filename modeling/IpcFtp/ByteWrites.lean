import IpcFtp.Communication.Connection
import IpcFtp.Communication.Frame
import IpcFtp.Lib.Writes
import IpcFtp.Serialization.Messages
import IpcFtp.Sqlite.Service

/-!
# Strings written one byte with each call

The loops of `file_utils.c` and `sqlite.c` under every schedule of what `write` returns.  Those
of `file_utils.c` do not look at the answer and lose a byte with every interrupted call; those of
`sqlite.c` add the answer to their index, so an interrupted call sends them back to a byte they
have written, or before the string.
-/

namespace IpcFtp.Interrupted

open Lib

/-- A byte with the index it was read at, which tells the equal bytes of a string apart. -/
abbrev Placed : Type := Byte × Nat

/-- A string in memory. -/
def block (data : CString) : Bytes := data.bytes ++ [0]

/-- The byte `write` is given the address of. -/
def cellAt (block : Bytes) : Int → Except Fault Placed
  | .ofNat k => if inside : k < block.length then .ok (block[k], k) else .error .outOfBounds
  | .negSucc _ => .error .outOfBounds

/-- The loop of `write_one_by_one` and `write_one_by_one_without_zero`: the index it ends with
and what has been written. -/
def writeUntilZero (s : Schedule) (block : Bytes) (size written : Nat) (w : Wire Placed) :
    Except Fault (Nat × Wire Placed) :=
  if written < size then
    match cellAt block written with
    | .error e => .error e
    | .ok cell =>
      if cell.1 ≠ 0 then writeUntilZero s block size (written + 1) (s.offer w cell)
      else .ok (written, w)
  else .ok (written, w)
termination_by size - written

/-- `write_one_by_one_without_zero`. -/
def writeOneByOneWithoutZero (s : Schedule) (data : CString) (size : Nat) :
    Except Fault (Wire Placed) :=
  (writeUntilZero s (block data) size 0 .fresh).map Prod.snd

/-- `write_one_by_one`; its terminator is no byte of the data and comes at the next place. -/
def writeOneByOne (s : Schedule) (data : CString) (size : Nat) : Except Fault (Wire Placed) :=
  (writeUntilZero s (block data) size 0 .fresh).map fun ended => s.offer ended.2 (0, ended.1)

/-- `write_one_by_one_in_fd`. -/
def writeOneByOneInFd (s : Schedule) (str : CString) (size : Int) : Except Fault (Wire Placed) :=
  s.advance (cellAt (block str)) size 0 .fresh

/-- The loop in which `run_sqlite_query` writes; `len` is an `int`. -/
def runSqliteQueryWrites (s : Schedule) (queryText : CString) : Except Fault (Wire Placed) :=
  let len := sizeToInt queryText.bytes.length
  s.advance (cellAt (block queryText)) len 0 .fresh

/-- The loop has designated no cell outside its string, and every byte of `asked` has arrived
once, in its place. -/
def Delivers (result : Except Fault (Wire Placed)) (asked : Bytes) : Prop :=
  ∃ w, result = .ok w ∧ w.delivered = asked.zipIdx

/-! ## Cells -/

variable {s : Schedule} {w : Wire Placed} {data : CString} {size : Nat}

theorem cellAt_natCast {block : Bytes} {k : Nat} (inside : k < block.length) :
    cellAt block k = .ok (block[k], k) := dif_pos inside

theorem cellAt_append_cons (front rest : Bytes) (c : Byte) :
    cellAt (front ++ c :: rest) front.length = .ok (c, front.length) := by
  have inside : front.length < (front ++ c :: rest).length := by simp
  have found : (front ++ c :: rest)[front.length] = c := by simp
  rw [cellAt_natCast inside, found]

theorem supplies_block (data : CString) :
    Schedule.Supplies (cellAt (block data)) 0 data.bytes.zipIdx := by
  intro k cell found
  rw [List.getElem?_zipIdx, Nat.zero_add, Option.map_eq_some_iff] at found
  obtain ⟨c, at_k, rfl⟩ := found
  obtain ⟨inside, rfl⟩ := List.getElem?_eq_some_iff.mp at_k
  have inBlock : k < (block data).length := by
    rw [block, List.length_append]
    omega
  rw [Int.zero_add, cellAt_natCast inBlock]
  congr 2
  exact List.getElem_append_left inside

/-! ## The loop of `file_utils.c` -/

/-- The loop offers the rest of its bytes once each and stays inside the string. -/
theorem writeUntilZero_eq (front rest : Bytes) (nulFree : 0 ∉ rest) :
    writeUntilZero s (front ++ (rest ++ [0])) size front.length w =
      .ok (front.length + (rest.take (size - front.length)).length,
        s.offerEach w ((rest.take (size - front.length)).zipIdx front.length)) := by
  induction rest generalizing front w with
  | nil =>
      rw [List.take_nil, List.nil_append, writeUntilZero, cellAt_append_cons]
      simp
  | cons c rest ih =>
      rw [List.mem_cons, not_or] at nulFree
      rw [List.cons_append, writeUntilZero, cellAt_append_cons]
      by_cases before : front.length < size
      · have later := @ih (s.offer w (c, front.length)) (front ++ [c]) nulFree.2
        rw [List.append_assoc, List.singleton_append, List.length_append,
          List.length_singleton] at later
        obtain ⟨left, more⟩ : ∃ left, size - front.length = left + 1 :=
          ⟨size - (front.length + 1), by omega⟩
        rw [show size - (front.length + 1) = left by omega] at later
        rw [if_pos before, more]
        dsimp only
        rw [if_pos (Ne.symm nulFree.1), later, List.take_succ_cons, List.zipIdx_cons,
          Schedule.offerEach_cons, List.length_cons, Nat.add_assoc,
          Nat.add_comm 1 (rest.take left).length]
      · rw [if_neg before, Nat.sub_eq_zero_of_le (not_lt.mp before)]
        rfl

theorem writeUntilZero_block (s : Schedule) (data : CString) (size : Nat) :
    writeUntilZero s (block data) size 0 .fresh =
      .ok ((data.bytes.take size).length,
        s.offerEach .fresh (data.bytes.take size).zipIdx) := by
  have whole := @writeUntilZero_eq s .fresh size [] data.bytes data.nulFree
  rwa [List.nil_append, List.length_nil, Nat.sub_zero, Nat.zero_add] at whole

theorem writeOneByOneWithoutZero_eq (s : Schedule) (data : CString) (size : Nat) :
    writeOneByOneWithoutZero s data size =
      .ok (s.offerEach .fresh (data.bytes.take size).zipIdx) := by
  rw [writeOneByOneWithoutZero, writeUntilZero_block]
  rfl

theorem writeOneByOne_eq (s : Schedule) (data : CString) (size : Nat) :
    writeOneByOne s data size =
      .ok (s.offerEach .fresh (data.bytes.take size ++ [0]).zipIdx) := by
  rw [writeOneByOne, writeUntilZero_block, List.zipIdx_append, Schedule.offerEach_append,
    Nat.zero_add]
  rfl

theorem delivers_ok_iff {asked : Bytes} :
    Delivers (.ok w) asked ↔ w.delivered = asked.zipIdx := by
  constructor
  · intro delivers
    obtain ⟨w', ended, whole⟩ := delivers
    cases ended
    exact whole
  · intro whole
    exact ⟨w, rfl, whole⟩

/-- A loop that offers what it was asked for delivers it when no call is interrupted. -/
theorem delivers_offerEach_iff (asked : Bytes) :
    Delivers (.ok (s.offerEach .fresh asked.zipIdx)) asked ↔ s.TakesAll asked.length := by
  rw [delivers_ok_iff, Schedule.delivered_offerEach_iff, List.length_zipIdx]

/-! ## The loops of `sqlite.c` -/

/-- Before its string the loop finds no byte of it. -/
theorem cellAt_neg_one (block : Bytes) : cellAt block (-1) = .error .outOfBounds := rfl

theorem cellAt_place {block : Bytes} {index : Int} {cell : Placed}
    (inside : cellAt block index = .ok cell) : (cell.2 : Int) = index := by
  rcases index with k | k
  · rw [cellAt] at inside
    split at inside
    · cases inside
      rfl
    · cases inside
  · cases inside

/-- No string as long as `2 ^ 31` fits an index of type `int`: the last byte delivered lies
before the size that was passed. -/
theorem length_lt_of_delivers {size : Int} (fits : size < 2 ^ 31) (nonempty : data.bytes ≠ [])
    (delivers : Delivers (writeOneByOneInFd s data size) data.bytes) :
    data.bytes.length < 2 ^ 31 := by
  obtain ⟨w, ended, whole⟩ := delivers
  have long := List.length_pos_of_ne_nil nonempty
  have arrived : w.delivered.length = data.bytes.length := by rw [whole, List.length_zipIdx]
  rcases lt_or_ge 0 size with pos | nonpos
  · have found : (data.bytes.getLast nonempty, data.bytes.length - 1) ∈ w.delivered := by
      rw [whole, List.mk_mem_zipIdx_iff_getElem?, List.getLast_eq_getElem]
      exact List.getElem?_eq_getElem _
    obtain ⟨k, below, inside⟩ := Schedule.confined_advance pos ended _ found
    have place := cellAt_place inside
    dsimp only at place
    omega
  · rcases Schedule.delivered_advance_of_nonpos nonpos (cellAt_neg_one _) ended with one | stuck
    · omega
    · rw [stuck.2, List.length_nil] at arrived
      omega

/-- An empty string asks for nothing, yet its loop makes a call. -/
theorem not_delivers_nil (empty : data.bytes = []) :
    ¬ Delivers (writeOneByOneInFd s data 0) data.bytes := by
  intro delivers
  obtain ⟨w, ended, whole⟩ := delivers
  rw [empty, List.zipIdx_nil] at whole
  rcases Schedule.delivered_advance_of_nonpos le_rfl (cellAt_neg_one _) ended with one | stuck
  · rw [whole] at one
    cases one
  · exact absurd stuck.1 (lt_irrefl 0)

/-- A string that is not empty, with its own length. -/
theorem delivers_length_iff (nonempty : data.bytes ≠ []) :
    Delivers (writeOneByOneInFd s data data.bytes.length) data.bytes ↔
      s.TakesAll data.bytes.length := by
  have library := @Schedule.delivered_advance_iff _ _ s _ data.bytes.zipIdx
    (by rwa [ne_eq, List.zipIdx_eq_nil_iff]) (supplies_block data)
  rwa [List.length_zipIdx] at library

/-- `run_sqlite_query` writes as `write_one_by_one_in_fd` does. -/
theorem runSqliteQueryWrites_eq (s : Schedule) (data : CString) :
    runSqliteQueryWrites s data =
      writeOneByOneInFd s data (sizeToInt data.bytes.length) := rfl

/-- A string is passed with its length, converted to `int`. -/
theorem delivers_writeOneByOneInFd_iff (s : Schedule) (data : CString) :
    Delivers (writeOneByOneInFd s data (sizeToInt data.bytes.length)) data.bytes ↔
      data.bytes ≠ [] ∧ data.bytes.length < 2 ^ 31 ∧ s.TakesAll data.bytes.length := by
  constructor
  · intro delivers
    have fits : sizeToInt data.bytes.length < 2 ^ 31 := Int.bmod_lt (by decide)
    have nonempty : data.bytes ≠ [] := by
      intro empty
      apply not_delivers_nil empty
      rwa [empty] at delivers ⊢
    have short := length_lt_of_delivers fits nonempty delivers
    rw [sizeToInt_eq short] at delivers
    exact ⟨nonempty, short, (delivers_length_iff nonempty).mp delivers⟩
  · intro given
    obtain ⟨nonempty, short, all⟩ := given
    rw [sizeToInt_eq short]
    exact (delivers_length_iff nonempty).mpr all

/-- Whatever the calls answer, a loop of `file_utils.c` ends, and every byte whose own call was
interrupted is lost. -/
theorem delivered_writeOneByOne (s : Schedule) (data : CString) (size : Nat) :
    ∃ w, writeOneByOne s data size = .ok w ∧
      w.delivered = (data.bytes.take size ++ [0]).zipIdx.filter
        fun placed => s.attempt placed.2 = Attempt.taken :=
  ⟨_, writeOneByOne_eq s data size, Schedule.delivered_offerEach_zipIdx _⟩

/-- A loop of `sqlite.c` that ends has written one more byte for each interrupted call. -/
theorem length_writeOneByOneInFd (nonempty : data.bytes ≠ [])
    (ended : writeOneByOneInFd s data data.bytes.length = .ok w) :
    w.delivered.length = data.bytes.length + s.interruptions w.calls := by
  have long := List.length_pos_of_ne_nil nonempty
  have counts := Schedule.advance_counts (by omega) ended
  omega

/-! ## The same loops in the other modules -/

/-- The bytes that arrive. -/
def arrived (w : Wire Placed) : Bytes := w.delivered.map Prod.fst

theorem arrived_of_delivers {r : Except Fault (Wire Placed)} {asked : Bytes}
    (delivers : Delivers r asked) : r.map arrived = .ok asked := by
  obtain ⟨w, rfl, whole⟩ := delivers
  rw [Except.map, arrived, whole, List.zipIdx_map_fst]

/-- The bytes of a frame are those of calls that are never interrupted. -/
theorem arrived_writeOneByOneWithoutZero (all : s.TakesAll data.bytes.length) (size : Nat) :
    (writeOneByOneWithoutZero s data size).map arrived =
      .ok (IpcFtp.writeOneByOneWithoutZero data.bytes size) := by
  rw [writeOneByOneWithoutZero_eq_take data.nulFree]
  apply arrived_of_delivers
  rw [writeOneByOneWithoutZero_eq, delivers_offerEach_iff, List.length_take]
  exact all.of_le (min_le_right _ _)

/-- So are the bytes of a query, and a call that is not interrupted sends the terminator of an
empty one. -/
theorem arrived_runSqliteQueryWrites (short : data.bytes.length < 2 ^ 31)
    (all : s.TakesAll (max 1 data.bytes.length)) :
    (runSqliteQueryWrites s data).map arrived = .ok (writtenQuery data.bytes) := by
  rw [runSqliteQueryWrites_eq, sizeToInt_eq short]
  by_cases empty : data.bytes = []
  · have taken : s.attempt (Wire.fresh : Wire Placed).calls = .taken := all 0 (by simp)
    have terminator : cellAt (block data) 0 = .ok (0, 0) := by
      rw [block, empty]
      rfl
    have reached : (0 : Int) ≤ 0 + s.answer (Wire.fresh : Wire Placed) := by
      rw [Schedule.answer_of_taken taken]
      decide
    rw [empty, writeOneByOneInFd, List.length_nil, Int.natCast_zero,
      Schedule.advance_of_reached terminator reached, Except.map, arrived,
      Schedule.delivered_offer_of_taken taken]
    rfl
  · have whole : writtenQuery data.bytes = data.bytes := by
      cases text : data.bytes with
      | nil => exact absurd text empty
      | cons c rest => rfl
    rw [whole]
    apply arrived_of_delivers
    exact (delivers_length_iff empty).mpr (all.of_le (le_max_right _ _))

/-- What the program of the FIFO build meets when its calls come out as `s` says. -/
def writeEvents (s : Schedule) (fd : Fd) (asked : List Placed) :
    List (Event (FifoCall Bytes Byte)) :=
  asked.map fun cell => ⟨.write fd cell.1, decide (s.attempt cell.2 = .taken)⟩

/-- The program of the FIFO build makes the calls of the loop, whatever they answer. -/
theorem runs_writeOneByOne_zipIdx (s : Schedule) (fd : Fd) {text : Bytes} (nulFree : 0 ∉ text)
    (size first : Nat) :
    Program.Runs (IpcFtp.writeOneByOne fd text size)
      (writeEvents s fd ((text.take size ++ [0]).zipIdx first)) (.ok ()) := by
  induction text generalizing size first with
  | nil =>
      rw [List.take_nil]
      exact .call (.ret _)
  | cons c text ih =>
      rw [List.mem_cons, not_or] at nulFree
      cases size with
      | zero => exact .call (.ret _)
      | succ size =>
          rw [IpcFtp.writeOneByOne, if_neg (Ne.symm nulFree.1), List.take_succ_cons]
          exact .call (ih nulFree.2 size (first + 1))

/-! ## What arrives -/

/-- The loops of `file_utils.c` deliver the front of the string they are given, the second one
with its terminator, exactly when as many calls as there are bytes are not interrupted.  Those
of `sqlite.c` also need a byte to begin with, and an index that fits an `int`. -/
theorem delivers_iff (s : Schedule) (data : CString) (size : Nat) :
    (Delivers (writeOneByOneWithoutZero s data size) (data.bytes.take size) ↔
      s.TakesAll (min size data.bytes.length)) ∧
    (Delivers (writeOneByOne s data size) (data.bytes.take size ++ [0]) ↔
      s.TakesAll (min size data.bytes.length + 1)) ∧
    (Delivers (writeOneByOneInFd s data (sizeToInt data.bytes.length)) data.bytes ↔
      data.bytes ≠ [] ∧ data.bytes.length < 2 ^ 31 ∧ s.TakesAll data.bytes.length) ∧
    (Delivers (runSqliteQueryWrites s data) data.bytes ↔
      data.bytes ≠ [] ∧ data.bytes.length < 2 ^ 31 ∧ s.TakesAll data.bytes.length) := by
  rw [runSqliteQueryWrites_eq]
  refine ⟨?_, ?_, delivers_writeOneByOneInFd_iff s data, delivers_writeOneByOneInFd_iff s data⟩
  · rw [writeOneByOneWithoutZero_eq, delivers_offerEach_iff, List.length_take]
  · rw [writeOneByOne_eq, delivers_offerEach_iff, List.length_append, List.length_take,
      List.length_singleton]

/-- The call numbered `stopped` is interrupted, and no other. -/
def interruptedAt (stopped : Nat) : Schedule where
  attempt := fun k => if k = stopped then .interrupted else .taken
  settled := stopped + 1
  settles := fun _ late => if_neg (Nat.ne_of_gt late)

/-- Two bytes, of which the second meets an interrupted call: two loops lose it, and two write
the first byte again.  When the first call is the interrupted one these two leave the string. -/
theorem interrupted_two_bytes :
    let data : CString := ⟨ascii "a;", by decide⟩
    let s := interruptedAt 1
    let first : Placed := (chr 'a', 0)
    let second : Placed := (chr ';', 1)
    (writeOneByOneWithoutZero s data 2 = .ok ⟨2, [first]⟩ ∧
      ¬ Delivers (writeOneByOneWithoutZero s data 2) (data.bytes.take 2)) ∧
    (writeOneByOne s data 2 = .ok ⟨3, [first, (0, 2)]⟩ ∧
      ¬ Delivers (writeOneByOne s data 2) (data.bytes.take 2 ++ [0])) ∧
    (writeOneByOneInFd s data (sizeToInt data.bytes.length) =
        .ok ⟨4, [first, first, second]⟩ ∧
      ¬ Delivers (writeOneByOneInFd s data (sizeToInt data.bytes.length)) data.bytes) ∧
    (runSqliteQueryWrites s data = .ok ⟨4, [first, first, second]⟩ ∧
      ¬ Delivers (runSqliteQueryWrites s data) data.bytes) ∧
    writeOneByOneInFd (interruptedAt 0) data (sizeToInt data.bytes.length) =
      .error .outOfBounds ∧
    runSqliteQueryWrites (interruptedAt 0) data = .error .outOfBounds := by
  intro data s first second
  have lost : writeOneByOneWithoutZero s data 2 = .ok ⟨2, [first]⟩ := by
    rw [writeOneByOneWithoutZero_eq]
    rfl
  have lostToo : writeOneByOne s data 2 = .ok ⟨3, [first, (0, 2)]⟩ := by
    rw [writeOneByOne_eq]
    rfl
  have length : sizeToInt data.bytes.length = 2 := sizeToInt_eq (by decide)
  have repeated : writeOneByOneInFd s data 2 = .ok ⟨4, [first, first, second]⟩ := by
    calc s.advance (cellAt (block data)) 2 0 ⟨0, []⟩
        = s.advance (cellAt (block data)) 2 1 ⟨1, [first]⟩ :=
          Schedule.advance_of_below (a := first) rfl (by decide)
      _ = s.advance (cellAt (block data)) 2 0 ⟨2, [first]⟩ :=
          Schedule.advance_of_below (a := second) rfl (by decide)
      _ = s.advance (cellAt (block data)) 2 1 ⟨3, [first, first]⟩ :=
          Schedule.advance_of_below (a := first) rfl (by decide)
      _ = .ok ⟨4, [first, first, second]⟩ :=
          Schedule.advance_of_reached (a := second) rfl (by decide)
  have outside : writeOneByOneInFd (interruptedAt 0) data 2 = .error .outOfBounds := by
    calc (interruptedAt 0).advance (cellAt (block data)) 2 0 ⟨0, []⟩
        = (interruptedAt 0).advance (cellAt (block data)) 2 (-1) ⟨1, []⟩ :=
          Schedule.advance_of_below (a := first) rfl (by decide)
      _ = .error .outOfBounds := Schedule.advance_of_error (cellAt_neg_one _)
  have again : ¬ Delivers (writeOneByOneInFd s data 2) data.bytes := by
    rw [repeated, delivers_ok_iff]
    decide
  rw [runSqliteQueryWrites_eq, runSqliteQueryWrites_eq, length]
  refine ⟨⟨lost, ?_⟩, ⟨lostToo, ?_⟩, ⟨repeated, again⟩, ⟨repeated, again⟩, outside, outside⟩
  · rw [lost, delivers_ok_iff]
    decide
  · rw [lostToo, delivers_ok_iff]
    decide

end IpcFtp.Interrupted
