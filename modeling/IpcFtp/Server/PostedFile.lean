import IpcFtp.RawMemory
import IpcFtp.Serialization
import IpcFtp.Server.World

/-!
# What a post leaves in the file

`file_from_raw_data` of `lib/file_utils/file_utils.c` takes its bytes from memory, as many as the
message says, and `process_post_cmd` hands it the block of the decoder with the `size` of the
message.
-/

namespace IpcFtp

open Lib Program

/-! ## The write loop -/

/-- The loop of `file_from_raw_data` behind `written` bytes: each `fwrite` takes as many as it
takes, of those that are left.  Nothing as long as the loop goes on. -/
def writeRounds (memory : Nat → Byte) (size written : Nat) (file : Bytes) : List Nat → Option Bytes
  | [] => none
  | taken :: rounds =>
    let count := min taken (size - written)
    let file := file ++ (List.range' written count).map memory
    if written + count < size then writeRounds memory size (written + count) file rounds
    else some file

/-- `file_from_raw_data`: what the file holds at the end. -/
def fileFromRawData (memory : Nat → Byte) (size : Nat) (rounds : List Nat) : Option Bytes :=
  writeRounds memory size 0 [] rounds

/-- The bytes of a piece of memory. -/
def bytesOf (memory : Nat → Byte) (size : Nat) : Bytes := (List.range' 0 size).map memory

/-- A piece of memory in two. -/
theorem bytesOf_add (memory : Nat → Byte) (n m : Nat) :
    bytesOf memory (n + m) = bytesOf memory n ++ (List.range' n m).map memory := by
  have joined : List.range' 0 n ++ List.range' (0 + 1 * n) m = List.range' 0 (n + m) :=
    List.range'_append
  rw [Nat.one_mul, Nat.zero_add] at joined
  rw [bytesOf, bytesOf, ← joined, List.map_append]

theorem length_bytesOf (memory : Nat → Byte) (n : Nat) : (bytesOf memory n).length = n := by
  rw [bytesOf, List.length_map, List.length_range']

section WriteLoop

variable {memory : Nat → Byte} {size written : Nat} {file contents : Bytes} {rounds : List Nat}

theorem writeRounds_eq_some (front : file = bytesOf memory written) (inside : written ≤ size)
    (ends : writeRounds memory size written file rounds = some contents) :
    contents = bytesOf memory size := by
  induction rounds generalizing written file with
  | nil => cases ends
  | cons taken rounds ih =>
      have longer : file ++ (List.range' written (min taken (size - written))).map memory =
          bytesOf memory (written + min taken (size - written)) := by
        rw [front, bytesOf_add]
      rw [writeRounds] at ends
      split_ifs at ends with more
      · exact ih longer (by omega) ends
      · rw [← Option.some.inj ends, longer]
        congr 1
        omega

/-- However the bytes are taken, the file ends up with all of them. -/
theorem fileFromRawData_eq_some (ends : fileFromRawData memory size rounds = some contents) :
    contents = bytesOf memory size :=
  writeRounds_eq_some rfl (Nat.zero_le _) ends

theorem fileFromRawData_at_once : fileFromRawData memory size [size] = some (bytesOf memory size) := by
  rw [fileFromRawData, writeRounds]
  simp [bytesOf]

end WriteLoop

/-! ## A post -/

/-- The file a post leaves holds the first bytes decoded from its data, `size` of them or as many
as there are whole groups, and nothing else. -/
def WritesDecoded (memory : Nat → Byte) (behind : Byte) (data : Bytes) (size : Nat) : Prop :=
  ∀ rounds contents, fileFromRawData (decodedMemory memory behind data) size rounds = some contents →
    contents = (decodedBytes behind data).take (min size (data.length / 3))

section Post

variable {memory : Nat → Byte} {behind : Byte} {data : Bytes} {size : Nat}

theorem decodedMemory_of_lt {k : Nat} (inside : k < (decodedBytes behind data).length) :
    decodedMemory memory behind data k = (decodedBytes behind data)[k] := by
  unfold decodedMemory
  rw [Function.update_of_ne (by omega)]
  rw [List.getD_eq_getElem?_getD, List.getElem?_eq_getElem inside, Option.getD_some]

theorem bytesOf_decodedMemory (inside : size ≤ (decodedBytes behind data).length) :
    bytesOf (decodedMemory memory behind data) size = (decodedBytes behind data).take size := by
  apply List.ext_getElem
  · rw [length_bytesOf, List.length_take]
    omega
  · intro k here there
    rw [length_bytesOf] at here
    simp only [bytesOf, List.getElem_map, List.getElem_range', Nat.zero_add, Nat.one_mul,
      List.getElem_take]
    exact decodedMemory_of_lt (by omega)

/-- A post writes what was decoded exactly if its size is not larger than that; the number in the
message becomes a `size_t`. -/
theorem writes_decoded_iff (memory : Nat → Byte) (behind : Byte) (data : CString) (number : Int) :
    WritesDecoded memory behind data.bytes (JsonC.intToSize number) ↔
      JsonC.intToSize number ≤ data.bytes.length / 3 := by
  have groups := length_decodedBytes behind data.bytes
  constructor
  · intro writes
    have lengths := congrArg List.length (writes _ _ fileFromRawData_at_once)
    rw [length_bytesOf, List.length_take] at lengths
    omega
  · intro small rounds contents ends
    rw [fileFromRawData_eq_some ends, bytesOf_decodedMemory (by omega), Nat.min_eq_left small]

end Post

/-- A byte in three digits, and a size of two: the second byte of the file is the 7 that the memory
held behind the first. -/
theorem post_writes_memory :
    fileFromRawData (decodedMemory (fun _ => 7) 0 (ascii "065")) (JsonC.intToSize 2) [2] =
        some [65, 7] ∧
      ¬ WritesDecoded (fun _ => 7) 0 (ascii "065") (JsonC.intToSize 2) := by
  have file : fileFromRawData (decodedMemory (fun _ => 7) 0 (ascii "065")) (JsonC.intToSize 2) [2] =
      some [65, 7] := by decide
  refine ⟨file, ?_⟩
  intro writes
  exact absurd (writes _ _ file) (by decide)

/-! ## The call of the handler -/

/-- The arguments of a call of `file_from_raw_data`. -/
def fileCall : ServerEvent → Option (Bytes × Bytes × Nat)
  | ⟨.fileFromRawData path block size, _⟩ => some (path, block, size)
  | _ => none

/-- `process_post_cmd` passes the decoder's block on, and the size of the message. -/
theorem block_of_runs {t : Transport} {session : FsUser} {err : CommError} {data dest : CString}
    {size given : Nat} {trace : List ServerEvent} {result : Except Fault CommError}
    {event : ServerEvent} {path block : Bytes}
    (runs : Runs (processPostCmd t data dest size (some session) err) trace result)
    (happens : event ∈ trace) (writes : fileCall event = some (path, block, given)) (behind : Byte) :
    block = decodedBytes behind data.bytes ∧ given = size := by
  rcases runs_processPostCmd runs with
    ⟨row, rfl, -⟩ | ⟨inserted, ⟨e, -, rfl, -⟩ | ⟨decoded, written, decodes, rfl, -⟩⟩
  · simp only [List.mem_cons, List.not_mem_nil, or_false] at happens
    rcases happens with rfl | rfl <;> cases writes
  · simp only [List.mem_cons, List.not_mem_nil, or_false] at happens
    rcases happens with rfl | rfl <;> cases writes
  · simp only [List.mem_cons, List.not_mem_nil, or_false] at happens
    rcases happens with rfl | rfl | rfl | rfl <;> cases writes
    exact ⟨(decodedBytes_of_ok decodes behind).symm, rfl⟩

/-- What the call leaves on the disk, the memory behind the block being what the decoder left
there. -/
theorem disk_after_post {memory : Nat → Byte} {behind : Byte} {data path : Bytes} {size : Nat}
    {answer : Int} {rounds : List Nat} {contents : Bytes} {world : World}
    (ends : fileFromRawData (decodedMemory memory behind data) size rounds = some contents) :
    (world.after ((List.range' (decodedBytes behind data).length size).map
        (decodedMemory memory behind data))
      ⟨.fileFromRawData path (decodedBytes behind data) size, answer⟩).disk =
        (path, contents) :: world.disk := by
  have block : bytesOf (decodedMemory memory behind data) (decodedBytes behind data).length =
      decodedBytes behind data := by
    rw [bytesOf_decodedMemory le_rfl, List.take_length]
  have whole : decodedBytes behind data ++ (List.range' (decodedBytes behind data).length size).map
      (decodedMemory memory behind data) =
        bytesOf (decodedMemory memory behind data) (size + (decodedBytes behind data).length) := by
    rw [Nat.add_comm, bytesOf_add, block]
  simp only [World.after]
  rw [whole, bytesOf_add, List.take_left' (length_bytesOf _ _), fileFromRawData_eq_some ends]

end IpcFtp
