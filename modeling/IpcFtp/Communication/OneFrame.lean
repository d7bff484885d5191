import IpcFtp.Communication.ClosedChannel
import IpcFtp.Communication.Delivery

/-!
# A channel with one frame

What a receiver that ends has made of a frame that need not be deliverable: always a
front of the message, and the whole message only if the frame is deliverable.
-/

namespace IpcFtp

open Lib

/-- The test that ends the second loop has seen the boundary. -/
theorem drop_of_atBoundary_true {t : Transport} {b buffer : Bytes} (nulFree : 0 ∉ b)
    (passed : atBoundary t b buffer = .ok true) :
    buffer.drop (buffer.length - b.length) = b := by
  unfold atBoundary at passed
  split at passed
  · cases passed
  · rw [strcmpEq_zeros nulFree (by rw [List.length_drop]; omega)] at passed
    split at passed
    · assumption
    · cases passed

variable {t : Transport} {f : Frame} {r : Received} {rest : Bytes}

/-- Where the receiver ended, and what it has. -/
theorem exists_of_run_frame (nulFree : 0 ∉ f.message)
    (finished : Reader.run none (receiveFrame t)
      (f.boundary.text ++ f.message ++ f.boundary.text) = .done r rest) :
    ∃ n ≤ f.message.length, r.buffer = f.message.take n ∧
      n + f.boundary.text.length < bufferLength t := by
  have closed := Reader.run_append_of_done finished (some 0) []
  rw [List.append_nil] at closed
  obtain ⟨b, x, tail, n, shape, stem, split, passed, payload, -⟩ :=
    exists_of_run_receiveFrame closed
  rw [List.append_assoc] at split
  obtain ⟨same, data⟩ := f.boundary.isOpening.eq_of_split stem split.symm
  rw [← shape] at same
  subst same
  have boundaryNulFree := f.boundary.nulFree_text
  rw [← data] at passed payload
  obtain ⟨long, room, -⟩ := of_atBoundary_true boundaryNulFree passed
  have window := drop_of_atBoundary_true boundaryNulFree passed
  rw [List.takeD_length] at long room window
  -- the boundary holds no zero, so it has been read on the stream
  have inside : n ≤ (f.message ++ f.boundary.text).length := by
    by_contra beyond
    apply boundaryNulFree
    rw [← window]
    obtain ⟨k, rfl⟩ : ∃ k, n = (f.message ++ f.boundary.text).length + (k + 1) :=
      ⟨n - (f.message ++ f.boundary.text).length - 1, by omega⟩
    have padded := takeD_length_append (f.message ++ f.boundary.text) [] (k + 1)
    rw [List.append_nil] at padded
    have zeros : (List.takeD (k + 1) [] 0 : Bytes) = List.replicate (k + 1) 0 := List.takeD_nil ..
    rw [padded, List.drop_append, zeros, List.drop_replicate]
    refine List.mem_append_right _ (List.mem_replicate.mpr ⟨?_, rfl⟩)
    have positive := f.boundary.length_text_pos
    simp only [List.length_append] at long ⊢
    omega
  rw [List.length_append] at inside
  refine ⟨n - f.boundary.text.length, by omega, ?_, by omega⟩
  rw [payload, List.takeD_eq_take _ (by rw [List.length_append]; omega), List.take_take,
    Nat.min_eq_left (by omega), List.take_append_of_le_length (by omega)]
  exact cstr_of_nulFree fun member => nulFree (List.mem_of_mem_take member)

/-- Whatever is received is a front of the message. -/
theorem prefix_of_run_frame (nulFree : 0 ∉ f.message)
    (finished : Reader.run none (receiveFrame t)
      (f.boundary.text ++ f.message ++ f.boundary.text) = .done r rest) :
    r.buffer <+: f.message := by
  obtain ⟨n, _, taken, _⟩ := exists_of_run_frame nulFree finished
  rw [taken]
  exact List.take_prefix n _

/-- A message that does not begin like a boundary is received whole only from a frame
that is deliverable. -/
theorem deliverable_of_run_frame (nulFree : 0 ∉ f.message) {c : Byte}
    (head : f.message.head? = some c) (other : c ≠ chr '-')
    (finished : Reader.run none (receiveFrame t)
      (f.boundary.text ++ f.message ++ f.boundary.text) = .done r rest)
    (whole : r.buffer = f.message) : f.Deliverable t := by
  have nonempty : f.message ≠ [] := by
    intro empty
    rw [empty] at head
    cases head
  obtain ⟨n, bounded, taken, room⟩ := exists_of_run_frame nulFree finished
  have all : n = f.message.length := by
    have lengths := congrArg List.length (taken.symm.trans whole)
    rw [List.length_take] at lengths
    omega
  rw [all] at room
  refine ⟨nonempty, nulFree, fun occurs => ?_, room⟩
  -- the receiver would have stopped where the boundary occurs first
  obtain ⟨front, back, split, first⟩ := exists_endsFirst_of_infix occurs
  have proper : front ≠ [] := by
    intro same
    subst same
    rw [split] at head
    have dash : (f.boundary.text).head? = some (chr '-') := rfl
    rw [List.nil_append, List.head?_append, dash] at head
    exact other (Option.some.inj head).symm
  have frontNulFree : 0 ∉ front ++ f.boundary.text := by
    intro member
    apply nulFree
    rw [split]
    exact List.mem_append_left _ member
  have lengths := congrArg List.length split
  simp only [List.length_append] at lengths
  have early := run_receiveFrame f.boundary.isOpening frontNulFree first proper
    (f.boundary.length_text_lt t) (by omega) none (back ++ f.boundary.text)
  have stream : f.boundary.text ++ f.message ++ f.boundary.text =
      f.boundary.text ++ front ++ f.boundary.text ++ (back ++ f.boundary.text) := by
    rw [split]
    simp only [List.append_assoc]
  rw [stream, early, Outcome.done.injEq] at finished
  rw [← finished.1] at whole
  have positive := f.boundary.length_text_pos
  have same := congrArg List.length whole
  simp only at same
  omega

end IpcFtp
