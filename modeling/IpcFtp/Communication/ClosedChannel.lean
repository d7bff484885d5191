import IpcFtp.Communication.Receive

/-!
# Receiving from a channel that has closed

The channel holds a finite stream and then every `read` returns 0.  Each loop of the
receiver looks at a cell and not at `read`'s result, so it goes on over the zeros of
`memset` until it designates a cell outside its block, unless the stream starts with a
frame that fits.  The first half of the module inverts the two loops: what a finished
run says about the stream.
-/

namespace IpcFtp

open Lib

/-- The stream starts with boundary, payload and the same boundary again, and the
payload ends where the boundary first comes back. -/
structure StartsWithFrame (stream b m : Bytes) : Prop where
  opening : IsOpening b
  nulFree : 0 ∉ b
  split : ∃ rest, stream = b ++ m ++ b ++ rest
  first : EndsFirst b m

/-- On this stream the function ends, stays inside its two blocks, and either returns a
complete payload or reports an error. -/
def ReceivesOrReports (t : Transport) (stream : Bytes) : Prop :=
  ∃ r rest, Reader.run (some 0) (commReceiveData t) stream = .done r rest ∧
    (r.error.code ≠ 0 ∨ ∃ b, StartsWithFrame stream b r.buffer)

/-- The stream starts with a frame whose boundary leaves room for its terminator and
whose payload, a string that is not empty, fits the data buffer with its boundary. -/
def FitsReceiver (t : Transport) (stream : Bytes) : Prop :=
  ∃ b m, StartsWithFrame stream b m ∧ m ≠ [] ∧ 0 ∉ m ∧ b.length < boundaryLength t ∧
    m.length + b.length < bufferLength t

/-! ## Inverting the loops -/

section Inversion

variable {α : Type}

/-- On a closed channel a read takes the head of the stream, or finds a zero. -/
theorem run_read_closed (next : Byte → ByteReader α) (stream : Bytes) :
    Reader.run (some 0) (.read next) stream =
      Reader.run (some 0) (next (stream.head?.getD 0)) stream.tail := by
  cases stream <;> rfl

theorem takeD_add (stream : Bytes) (j k : Nat) :
    stream.takeD j 0 ++ (stream.drop j).takeD k 0 = stream.takeD (j + k) 0 := by
  induction j generalizing stream with
  | zero => simp
  | succ j ih =>
      rw [Nat.add_right_comm, List.takeD_succ, List.takeD_succ, List.cons_append, ← ih]
      cases stream <;> simp

theorem takeD_length_append (x y : Bytes) (k : Nat) :
    (x ++ y).takeD (x.length + k) 0 = x ++ y.takeD k 0 := by
  induction x with
  | nil => simp
  | cons c x ih =>
      rw [List.length_cons, Nat.add_right_comm, List.cons_append, List.takeD_succ]
      simp [ih]

/-- A finished first loop has met its underscore on the stream itself. -/
theorem exists_of_run_boundaryLoop {cells : Nat} {got stream b rest : Bytes}
    (finished : Reader.run (some 0) (boundaryLoop cells got) stream = .done b rest) :
    ∃ x, b = got ++ x ++ [chr '_'] ∧ stream = x ++ chr '_' :: rest ∧ chr '_' ∉ x := by
  induction cells generalizing got stream with
  | zero => simp [boundaryLoop] at finished
  | succ cells ih =>
      rw [boundaryLoop, run_read_closed] at finished
      split at finished
      · rename_i underscore
        rw [Reader.run_ret, Outcome.done.injEq, underscore] at finished
        obtain ⟨rfl, rfl⟩ := finished
        cases stream with
        | nil => exact absurd underscore (by decide)
        | cons c stream => exact ⟨[], by simp, by simpa using underscore, by simp⟩
      · rename_i other
        obtain ⟨x, shape, split, stem⟩ := ih finished
        cases stream with
        | nil => simp at split
        | cons c stream =>
            simp only [List.head?_cons, Option.getD_some] at shape other
            rw [List.tail_cons] at split
            refine ⟨c :: x, by rw [shape]; simp, by rw [split]; rfl, ?_⟩
            rw [List.mem_cons, not_or]
            exact ⟨Ne.symm other, stem⟩

/-- A finished opening fits its block. -/
theorem exists_of_run_openingBoundary {t : Transport} {stream b rest : Bytes}
    (finished : Reader.run (some 0) (openingBoundary t) stream = .done b rest) :
    ∃ x tail, b = x ++ [chr '_', tail.head?.getD 0] ∧ chr '_' ∉ x ∧
      stream = x ++ chr '_' :: tail ∧ rest = tail.tail ∧ b.length ≤ boundaryLength t := by
  rw [openingBoundary] at finished
  obtain ⟨front, tail, loop, second⟩ := Reader.exists_of_run_bind_done finished
  obtain ⟨x, rfl, rfl, stem⟩ := exists_of_run_boundaryLoop loop
  split at second
  · rename_i room
    rw [run_read_closed, Reader.run_ret, Outcome.done.injEq] at second
    obtain ⟨rfl, rfl⟩ := second
    simp only [List.nil_append, List.length_append, List.length_singleton] at room
    exact ⟨x, tail, by simp, stem, rfl, rfl, by simp; omega⟩
  · simp at second

/-- What a finished second loop has read is the stream, continued by zeros, up to a
place that passes the test.  Each round reads one cell or two. -/
theorem exists_of_run_dataLoop {t : Transport} {b : Bytes} (cells : Nat)
    {got stream buffer rest : Bytes}
    (finished : Reader.run (some 0) (dataLoop t b cells got) stream = .done buffer rest) :
    ∃ n ≤ cells, buffer = got ++ stream.takeD n 0 ∧ atBoundary t b buffer = .ok true := by
  induction cells using Nat.strong_induction_on generalizing got stream with
  | _ cells ih =>
      have round (read left : Nat) (size : read + left = cells) (positive : 0 < read)
          (body : Reader.run (some 0) (untilBoundary t b (got ++ stream.takeD read 0)
            (dataLoop t b left (got ++ stream.takeD read 0))) (stream.drop read) =
              .done buffer rest) :
          ∃ n ≤ cells, buffer = got ++ stream.takeD n 0 ∧
            atBoundary t b buffer = .ok true := by
        unfold untilBoundary at body
        split at body
        · simp at body
        · rename_i passed
          rw [Reader.run_ret, Outcome.done.injEq] at body
          obtain ⟨rfl, -⟩ := body
          exact ⟨read, by omega, rfl, passed⟩
        · obtain ⟨n, bounded, rfl, passed⟩ := ih left (by omega) body
          refine ⟨read + n, by omega, ?_, passed⟩
          rw [List.append_assoc, takeD_add]
      cases cells with
      | zero => simp [dataLoop] at finished
      | succ cells =>
          rw [dataLoop, run_read_closed] at finished
          split at finished
          · cases cells with
            | zero => simp at finished
            | succ cells =>
                rw [run_read_closed] at finished
                have two : stream.drop 2 = stream.tail.tail := by cases stream <;> simp
                exact round 2 cells (by omega) (by decide) (by simpa [two] using finished)
          · exact round 1 cells (by omega) (by decide) (by simpa using finished)

end Inversion

/-! ## When the function keeps its promise -/

/-- A passed test on a NUL-free boundary: the last bytes are the boundary, and both
blocks have a zero left behind them. -/
theorem of_atBoundary_true {t : Transport} {b buffer : Bytes} (nulFree : 0 ∉ b)
    (passed : atBoundary t b buffer = .ok true) :
    b.length < buffer.length ∧ buffer.length < bufferLength t ∧
      b.length < boundaryLength t := by
  unfold atBoundary at passed
  split at passed
  · cases passed
  · rename_i long
    rw [strcmpEq_zeros nulFree (by rw [List.length_drop]; omega)] at passed
    split at passed
    · split at passed
      · cases passed
      · omega
    · cases passed

/-- The boundary a stream starts with is the one the first loop reads. -/
theorem IsOpening.eq_of_split {b x tail rest : Bytes} (opening : IsOpening b)
    (stem : chr '_' ∉ x) (split : x ++ chr '_' :: tail = b ++ rest) :
    b = x ++ [chr '_', tail.head?.getD 0] ∧ rest = tail.tail := by
  obtain ⟨y, c, rfl, other⟩ := opening
  rw [List.append_assoc, List.cons_append, List.singleton_append] at split
  have stems : x = y := by
    have left : (x ++ chr '_' :: tail).takeWhile (· ≠ chr '_') = x := by
      rw [List.takeWhile_append_of_pos (by
        intro d member
        simpa using ne_of_mem_of_not_mem member stem)]
      simp
    have right : (y ++ chr '_' :: c :: rest).takeWhile (· ≠ chr '_') = y := by
      rw [List.takeWhile_append_of_pos (by
        intro d member
        simpa using ne_of_mem_of_not_mem member other)]
      simp
    rw [← left, split, right]
  subst stems
  rw [List.append_cancel_left_eq, List.cons.injEq] at split
  rw [split.2]
  simp

/-- The payload of a finished run that is the payload of the stream's first frame has
been read to the end of its closing boundary and no further. -/
theorem length_of_complete {b m rest : Bytes} {n : Nat} (nulFree : 0 ∉ b) (proper : b ≠ [])
    (long : b.length < n)
    (payload : cstr (((m ++ b ++ rest).takeD n 0).take (n - b.length)) = m) :
    n = m.length + b.length := by
  have messageNulFree : 0 ∉ m := payload ▸ nulFree_cstr _
  have size : m.length ≤ n - b.length := by
    have bounded := length_cstr_le (((m ++ b ++ rest).takeD n 0).take (n - b.length))
    rw [payload, List.length_take] at bounded
    omega
  by_contra other
  -- one byte of the closing boundary would belong to the string
  obtain ⟨c, b', rfl⟩ := List.exists_cons_of_ne_nil proper
  have notNul : c ≠ 0 := fun zero => nulFree (zero ▸ List.mem_cons_self)
  obtain ⟨k, rfl⟩ : ∃ k, n = (m ++ [c]).length + k :=
    ⟨n - (m ++ [c]).length, by simp only [List.length_append, List.length_singleton]; omega⟩
  obtain ⟨l, room⟩ : ∃ l, (m ++ [c]).length + k - (c :: b').length = (m ++ [c]).length + l := by
    refine ⟨(m ++ [c]).length + k - (c :: b').length - (m ++ [c]).length, ?_⟩
    simp only [List.length_append, List.length_cons, List.length_nil] at other size long ⊢
    omega
  rw [show m ++ c :: b' ++ rest = (m ++ [c]) ++ (b' ++ rest) by simp, room,
    takeD_length_append, List.take_length_add_append, cstr_append_of_nulFree] at payload
  · have lengths := congrArg List.length payload
    simp only [List.length_append, List.length_singleton] at lengths
    omega
  · rw [List.mem_append, not_or]
    exact ⟨messageNulFree, by simpa using Ne.symm notNul⟩

/-- A finished run of the whole function. -/
theorem exists_of_run_receiveFrame {t : Transport} {stream rest : Bytes} {r : Received}
    (finished : Reader.run (some 0) (receiveFrame t) stream = .done r rest) :
    ∃ b x tail n, b = x ++ [chr '_', tail.head?.getD 0] ∧ chr '_' ∉ x ∧
      stream = x ++ chr '_' :: tail ∧ atBoundary t b (tail.tail.takeD n 0) = .ok true ∧
      r.buffer = cstr ((tail.tail.takeD n 0).take (n - b.length)) ∧
      r.error.code = noCommError := by
  obtain ⟨b, middle, opened, second⟩ := Reader.exists_of_run_bind_done finished
  obtain ⟨buffer, rest', loop, ended⟩ := Reader.exists_of_run_bind_done second
  rw [Reader.run_ret, Outcome.done.injEq] at ended
  obtain ⟨rfl, rfl⟩ := ended
  obtain ⟨x, tail, shape, stem, split, rfl, _⟩ := exists_of_run_openingBoundary opened
  obtain ⟨n, _, rfl, passed⟩ := exists_of_run_dataLoop _ loop
  rw [List.nil_append] at passed
  exact ⟨b, x, tail, n, shape, stem, split, passed, by simp, rfl⟩

/-- On a stream after which every `read` returns 0, the function ends inside its two
blocks with a complete payload or an error code exactly when the stream starts with a
frame whose boundary is shorter than `BOUNDARY_LENGTH` and whose payload is a string,
not empty, shorter with its boundary than `BUFFER_LENGTH`. -/
theorem commReceiveData_reports_iff (t : Transport) (stream : Bytes) :
    ReceivesOrReports t stream ↔ FitsReceiver t stream := by
  constructor
  · intro given
    obtain ⟨r, rest, finished, outcome⟩ := given
    obtain ⟨b, x, tail, n, shape, stem, split, passed, payload, code⟩ :=
      exists_of_run_receiveFrame finished
    -- the code returned is always `NO_COMM_ERROR`
    rcases outcome with reported | ⟨b', frame⟩
    · exact absurd code reported
    · obtain ⟨later, whole⟩ := frame.split
      rw [split, List.append_assoc, List.append_assoc] at whole
      obtain ⟨same, data⟩ := frame.opening.eq_of_split stem whole
      rw [← shape] at same
      subst same
      obtain ⟨long, room, terminated⟩ := of_atBoundary_true frame.nulFree passed
      have proper : b' ≠ [] := by rw [shape]; simp
      rw [List.takeD_length] at long room
      rw [← data, ← List.append_assoc] at payload
      have size := length_of_complete frame.nulFree proper long payload.symm
      refine ⟨b', r.buffer, frame, ?_, payload ▸ nulFree_cstr _, terminated, by omega⟩
      rintro empty
      rw [empty] at size
      simp only [List.length_nil] at size
      omega
  · intro given
    obtain ⟨b, m, frame, nonempty, messageNulFree, terminated, room⟩ := given
    obtain ⟨rest, split⟩ := frame.split
    have nulFree : 0 ∉ m ++ b := by
      rw [List.mem_append, not_or]
      exact ⟨messageNulFree, frame.nulFree⟩
    have read := run_receiveFrame frame.opening nulFree frame.first nonempty terminated
      room (some 0) rest
    rw [← split] at read
    exact ⟨_, _, read, .inr ⟨b, frame⟩⟩

/-- The peer closes before it has sent anything: the first loop leaves its block. -/
theorem commReceiveData_empty_stream :
    Reader.run (some 0) (commReceiveData .fifo) [] = .fault .outOfBounds ∧
      ¬ ReceivesOrReports .fifo [] := by
  have left : Reader.run (some 0) (commReceiveData .fifo) [] = .fault .outOfBounds := rfl
  refine ⟨left, ?_⟩
  intro given
  obtain ⟨r, rest, finished, _⟩ := given
  rw [left] at finished
  cases finished

end IpcFtp
