import IpcFtp.CString
import IpcFtp.Lib.Delimiter
import Mathlib.Data.Nat.Log

/-!
# Frames: what a sender puts on the wire

`lib/communication/{fifo,socket}/comm.send.*.c` and `gen_boundary` of `utils.c`.  A
message goes out between two copies of a boundary.  A boundary is a fixed prefix, a
decimal number and two underscores, so it carries its first underscore next to its
last byte and cannot overlap itself (`Boundary.unbordered`).
-/

namespace IpcFtp

open Lib

/-- The two builds of `lib/communication`. -/
inductive Transport : Type
  | fifo
  | socket
  deriving DecidableEq, Repr

/-- `BUFFER_LENGTH` of `comm.fifo.h` and `comm.socket.h`. -/
def bufferLength : Transport → Nat
  | .fifo => 2048
  | .socket => 2048

/-- `BOUNDARY_LENGTH` of `comm.fifo.h` and `comm.socket.h`. -/
def boundaryLength : Transport → Nat
  | .fifo => 128
  | .socket => 128

/-! ## Boundaries -/

/-- `BOUNDARY_PREFIX`. -/
def boundaryPrefix : Bytes := ascii "--boundaryTPSO1IPC"

/-- `RAND_MAX` of the C library. -/
def randMax : Nat := 2147483647

/-- `rand_max_digits`, set to `ceilf(log10(RAND_MAX))`. -/
def randMaxDigits : Nat := Nat.clog 10 randMax

/-- `getrnd` on the next value of `rand()`. -/
def getrnd (rand min max : Nat) : Nat := rand % (max - min) + min

/-- A text of the form `gen_boundary` prints. -/
structure Boundary : Type where
  digits : Bytes
  decimal : ∀ c ∈ digits, isDigit c
  short : digits.length ≤ randMaxDigits

/-- `sprintf(boundary, "%s%d__", BOUNDARY_PREFIX, number)`. -/
def Boundary.text (b : Boundary) : Bytes := boundaryPrefix ++ b.digits ++ ascii "__"

theorem randMaxDigits_eq : randMaxDigits = 10 := by decide

theorem getrnd_lt {rand min max : Nat} (proper : min < max) : getrnd rand min max < max := by
  have := Nat.mod_lt rand (show 0 < max - min by omega)
  unfold getrnd
  omega

/-- `gen_boundary` on the next value of `rand()`. -/
def genBoundary (rand : Nat) : Boundary where
  digits := natDecimal (getrnd rand (10 ^ (randMaxDigits - 1)) randMax)
  decimal := fun _ member => isDigit_of_mem_natDecimal member
  short := by
    rw [randMaxDigits_eq]
    refine length_natDecimal_le (by decide) (lt_trans (getrnd_lt (by decide)) (by decide))

theorem isDigit.ne_zero {c : Byte} (digit : isDigit c) : c ≠ 0 := by
  intro same
  subst same
  exact absurd digit (by decide)

theorem isDigit.ne_underscore {c : Byte} (digit : isDigit c) : c ≠ chr '_' := by
  intro same
  subst same
  exact absurd digit (by decide)

namespace Boundary

variable (b : Boundary)

/-- The boundary without its underscores. -/
def stem : Bytes := boundaryPrefix ++ b.digits

theorem text_eq_stem : b.text = b.stem ++ [chr '_', chr '_'] := rfl

theorem underscore_notMem_stem : chr '_' ∉ b.stem := by
  rw [stem, List.mem_append, not_or]
  exact ⟨by decide, fun member => (b.decimal _ member).ne_underscore rfl⟩

theorem nulFree_text : 0 ∉ b.text := by
  simp only [text, List.mem_append, not_or]
  exact ⟨⟨by decide, fun member => (b.decimal _ member).ne_zero rfl⟩, by decide⟩

theorem stem_ne_nil : b.stem ≠ [] := by
  intro empty
  have := congrArg List.length empty
  simp [stem, boundaryPrefix, ascii] at this

theorem length_text_pos : 0 < b.text.length := by
  rw [text_eq_stem]
  simp

theorem unbordered : Unbordered b.text := by
  rw [text_eq_stem]
  exact unbordered_of_pair b.underscore_notMem_stem b.stem_ne_nil

theorem length_text_lt (t : Transport) : b.text.length < boundaryLength t := by
  have short := b.short
  rw [randMaxDigits_eq] at short
  have length : b.text.length = 18 + b.digits.length + 2 := by
    simp [text, boundaryPrefix, ascii]; omega
  cases t <;> simp only [length, boundaryLength] <;> omega

end Boundary

/-! ## Senders -/

/-- `write_one_by_one_without_zero`: the bytes that reach the descriptor. -/
def writeOneByOneWithoutZero : Bytes → Nat → Bytes
  | c :: data, size + 1 => if c ≠ 0 then c :: writeOneByOneWithoutZero data size else []
  | _, _ => []

theorem writeOneByOneWithoutZero_eq_take {data : Bytes} (nulFree : 0 ∉ data) (size : Nat) :
    writeOneByOneWithoutZero data size = data.take size := by
  induction data generalizing size with
  | nil =>
      rw [List.take_nil]
      rfl
  | cons c data ih =>
      rw [List.mem_cons, not_or] at nulFree
      cases size with
      | zero => rfl
      | succ size =>
          rw [writeOneByOneWithoutZero, if_pos (Ne.symm nulFree.1), ih nulFree.2,
            List.take_succ_cons]

/-- A NUL-free text sent with its own length goes out whole. -/
theorem writeOneByOneWithoutZero_eq {data : Bytes} (nulFree : 0 ∉ data) :
    writeOneByOneWithoutZero data data.length = data := by
  rw [writeOneByOneWithoutZero_eq_take nulFree, List.take_length]

/-- `comm_error_t`. -/
structure CommError : Type where
  code : Int
  msg : Bytes
  deriving DecidableEq

/-- `NO_COMM_ERROR`. -/
def noCommError : Int := 0

/-- The three writes `comm_send_data` and `comm_send_data_async` make while they hold
the lock on the request descriptor; they are the same in both builds. -/
def frameBytes (boundary : Boundary) (data : Bytes) (size : Nat) : Bytes :=
  writeOneByOneWithoutZero boundary.text boundary.text.length ++
    writeOneByOneWithoutZero data size ++
    writeOneByOneWithoutZero boundary.text boundary.text.length

/-- The error object behind a send: only the FIFO build touches it. -/
def CommError.afterSend (error : CommError) : Transport → CommError
  | .fifo => ⟨noCommError, ascii "OK"⟩
  | .socket => error

/-- `comm_send_data`: the bytes written and the error object afterwards. -/
def commSendData (t : Transport) (boundary : Boundary) (data : Bytes) (size : Nat)
    (error : CommError) : Bytes × CommError :=
  (frameBytes boundary data size, error.afterSend t)

/-- `comm_send_data_async`: the bytes written before the listener thread is created. -/
def commSendDataAsync (_ : Transport) (boundary : Boundary) (data : Bytes) (size : Nat) :
    Bytes :=
  frameBytes boundary data size

theorem frameBytes_eq (boundary : Boundary) {data : Bytes} (nulFree : 0 ∉ data) :
    frameBytes boundary data data.length = boundary.text ++ data ++ boundary.text := by
  rw [frameBytes, writeOneByOneWithoutZero_eq boundary.nulFree_text,
    writeOneByOneWithoutZero_eq nulFree]

end IpcFtp
