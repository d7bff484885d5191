import IpcFtp.Communication.Receive

/-!
# Frames sent one after another are read apart

The in-order channel is the list of bytes written.  A job is one frame together with
the function that sent it and the function that receives it, in either build.
-/

namespace IpcFtp

open Lib

/-- A message and the boundary drawn for it. -/
structure Frame : Type where
  boundary : Boundary
  message : Bytes

/-- What a frame needs to be read back: a payload that is a string, that does not hold
its own boundary, and that fits the receiver's buffer with the closing boundary and a
terminator. -/
structure Frame.Deliverable (t : Transport) (f : Frame) : Prop where
  nonempty : f.message ≠ []
  nulFree : 0 ∉ f.message
  absent : ¬ f.boundary.text <:+: f.message
  fits : f.message.length + f.boundary.text.length < bufferLength t

inductive Sender : Type
  | commSendData
  | commSendDataAsync

inductive Receiver : Type
  | commReceiveData
  | dataListener

/-- The bytes a sender writes for a frame. -/
def Sender.wire (t : Transport) (f : Frame) : Sender → Bytes
  | .commSendData =>
    (IpcFtp.commSendData t f.boundary f.message f.message.length ⟨noCommError, []⟩).1
  | .commSendDataAsync => IpcFtp.commSendDataAsync t f.boundary f.message f.message.length

def Receiver.reader (t : Transport) : Receiver → ByteReader Received
  | .commReceiveData => IpcFtp.commReceiveData t
  | .dataListener => IpcFtp.dataListener t

/-- The result of a receive that went well. -/
def receivedOk (message : Bytes) : Received :=
  ⟨message, ⟨noCommError, ascii "Receive Data Sucessful"⟩⟩

structure Job : Type where
  frame : Frame
  sender : Sender
  receiver : Receiver

def Job.wire (t : Transport) (job : Job) : Bytes := job.sender.wire t job.frame

def Job.reader (t : Transport) (job : Job) : ByteReader Received := job.receiver.reader t

theorem Sender.wire_eq (t : Transport) {f : Frame} (nulFree : 0 ∉ f.message)
    (sender : Sender) :
    sender.wire t f = f.boundary.text ++ f.message ++ f.boundary.text := by
  cases sender <;> exact frameBytes_eq f.boundary nulFree

/-- Either receiver consumes exactly one deliverable frame. -/
theorem Frame.Deliverable.run_reader {t : Transport} {f : Frame}
    (deliverable : f.Deliverable t) (sender : Sender) (receiver : Receiver)
    (eof : Option Byte) (rest : Bytes) :
    Reader.run eof (receiver.reader t) (sender.wire t f ++ rest) =
      .done (receivedOk f.message) rest := by
  have nulFree : 0 ∉ f.message ++ f.boundary.text := by
    rw [List.mem_append, not_or]
    exact ⟨deliverable.nulFree, f.boundary.nulFree_text⟩
  have read := run_receiveFrame (t := t) f.boundary.isOpening nulFree
    (f.boundary.unbordered.endsFirst deliverable.absent) deliverable.nonempty
    (f.boundary.length_text_lt t) deliverable.fits eof rest
  rw [sender.wire_eq t deliverable.nulFree]
  cases receiver <;> exact read

/-- Frames written one after another on an in-order channel are received in order, each
receive consuming exactly the bytes of its own frame: after the first `k` receives, the
channel holds the remaining frames and nothing else has been taken. -/
theorem receives_frames_in_order (t : Transport) (jobs : List Job)
    (deliverable : ∀ job ∈ jobs, job.frame.Deliverable t) (eof : Option Byte)
    (later : Bytes) (k : Nat) :
    Reader.run eof (Reader.inOrder ((jobs.take k).map (Job.reader t)))
        (jobs.flatMap (Job.wire t) ++ later) =
      .done ((jobs.take k).map fun job => receivedOk job.frame.message)
        ((jobs.drop k).flatMap (Job.wire t) ++ later) := by
  have own : ∀ job ∈ jobs.take k, ∀ rest,
      Reader.run eof (job.reader t) (job.wire t ++ rest) =
        .done (receivedOk job.frame.message) rest := by
    intro job member rest
    exact (deliverable job (List.mem_of_mem_take member)).run_reader job.sender
      job.receiver eof rest
  have read := Reader.run_inOrder eof (jobs.take k) own
    ((jobs.drop k).flatMap (Job.wire t) ++ later)
  rwa [← List.append_assoc, ← List.flatMap_append, List.take_append_drop] at read

/-- Two frames, the second sent asynchronously and read by a listener. -/
theorem receives_two_frames :
    Reader.run none (Reader.inOrder ([⟨⟨genBoundary 7, ascii "NOT logged"⟩,
          .commSendData, .commReceiveData⟩,
        ⟨⟨genBoundary 9, ascii "_-__"⟩, .commSendDataAsync, .dataListener⟩].map
          (Job.reader .fifo)))
        ([⟨⟨genBoundary 7, ascii "NOT logged"⟩, .commSendData, .commReceiveData⟩,
          ⟨⟨genBoundary 9, ascii "_-__"⟩, .commSendDataAsync, .dataListener⟩].flatMap
            (Job.wire .fifo) ++ []) =
      .done [receivedOk (ascii "NOT logged"), receivedOk (ascii "_-__")] [] := by
  have deliverable : ∀ job ∈ ([⟨⟨genBoundary 7, ascii "NOT logged"⟩, .commSendData,
        .commReceiveData⟩, ⟨⟨genBoundary 9, ascii "_-__"⟩, .commSendDataAsync,
        .dataListener⟩] : List Job), job.frame.Deliverable .fifo := by
    intro job member
    simp only [List.mem_cons, List.not_mem_nil, or_false] at member
    rcases member with rfl | rfl <;>
      exact ⟨by decide, by decide, by decide, by decide⟩
  exact receives_frames_in_order .fifo _ deliverable none [] 2

end IpcFtp
