import IpcFtp.Serialization

/-!
# Messages there and back

What `parse_encoded` makes of the text of a `stringify_*`.  `parseEncoded_stringify` gives
the result of every kind; `fields_stringify` compares what a reader finds in it with what
was put in.
-/

namespace IpcFtp

/-- What can be stringified. -/
inductive Message : Type
  | int (i : Int)
  | double (d : Float)
  | string (str : CString)
  | data (value : CString) (size : Nat)
  | get (path : CString)
  | post (digits dest : CString) (size : Nat)
  | login (username password : CString)
  | logout
  | close
  | newUser (user : User)
  | changePass (pass : CString)

namespace Message

def stringify : Message → JsonObject
  | .int i => stringifyInt i
  | .double d => stringifyDouble d
  | .string str => stringifyString str
  | .data value size => stringifyData value size
  | .get path => stringifyCommandGet path
  | .post digits dest size => stringifyCommandPost digits dest size
  | .login username password => stringifyCommandLogin username password
  | .logout => stringifyCommandLogout
  | .close => stringifyCommandClose
  | .newUser user => stringifyCommandNewUser user
  | .changePass pass => stringifyCommandChangePass pass

/-- Integers are values of `int`, and the size of a post converts to one.  Doubles are
left out. -/
def Exact : Message → Prop
  | .int i => isInt i
  | .double _ => False
  | .post _ _ size => size < 2 ^ 31
  | _ => True

/-- What is parsed, with the byte behind the copied string of kind `data`. -/
def parsed (fresh : Byte) : Message → ParseResult
  | .int i => .request (.int i)
  | .double d => .request (.double d)
  | .string str => .request (.string str)
  | .data value _ => .data (value.bytes ++ [fresh])
  | .get path => .request (.get path)
  | .post digits dest size => .request (.post digits dest size)
  | .login username password => .request (.login username password)
  | .logout => .request .logout
  | .close => .request .close
  | .newUser user => .request (.newUser user)
  | .changePass pass => .request (.changePass pass)

end Message

/-! ## Members -/

section Members

variable {json : JsonC} {object : JsonObject} {name : Bytes}

theorem string_eq (accessors : json.Reads) {s : CString}
    (found : object.lookup name = some (.string s)) : json.string object name = .ok s := by
  rw [JsonC.string, member, found]
  exact congrArg _ (accessors.string s)

theorem int_eq (accessors : json.Reads) {i : Int} (range : isInt i)
    (found : object.lookup name = some (.int i)) : json.int object name = i := by
  rw [JsonC.int, member, found]
  exact congrArg (Option.getD · 0) (accessors.int i range)

/-- A size that is an `int` survives the two conversions. -/
theorem sizeToInt_eq {size : Nat} (small : size < 2 ^ 31) : sizeToInt size = size :=
  Int.bmod_eq_of_le (by omega) (by omega)

theorem ofInt_toNat (b : Byte) : UInt8.ofInt b.toNat = b := by
  have small := b.toNat_lt
  apply UInt8.toNat_inj.mp
  unfold UInt8.ofInt
  rw [UInt8.toNat_ofNat']
  omega

theorem intToSize_natCast {size : Nat} (small : size < 2 ^ 31) : JsonC.intToSize size = size := by
  unfold JsonC.intToSize
  omega

end Members

/-! ## Every kind -/

section Kinds

variable {json : JsonC} {fresh : Byte}

/-- The result of each kind. -/
theorem parseEncoded_stringify (accessors : json.Reads) {message : Message}
    (exact : message.Exact) (reads : json.ReadsBack message.stringify) :
    json.parseEncoded fresh (json.print message.stringify) = .ok (message.parsed fresh) := by
  have text (name : Bytes) {s : CString}
      (found : message.stringify.lookup name = some (.string s)) :
      json.string message.stringify name = .ok s := string_eq accessors found
  rw [JsonC.parseEncoded, reads.parse, Option.getD_some]
  cases message with
  | int i =>
      have value : json.int (Message.int i).stringify (ascii "value") = i :=
        int_eq accessors exact rfl
      rw [text (ascii "kind") rfl, value]
      rfl
  | double d => exact exact.elim
  | string str =>
      rw [text (ascii "kind") rfl, text (ascii "value") rfl]
      rfl
  | data value size =>
      rw [text (ascii "kind") rfl, text (ascii "value") rfl]
      rfl
  | get path =>
      rw [text (ascii "kind") rfl, text (ascii "path") rfl]
      rfl
  | post digits dest size =>
      have value : json.int (Message.post digits dest size).stringify (ascii "size") =
          sizeToInt size := by
        refine int_eq accessors ?_ rfl
        rw [sizeToInt_eq exact, isInt]
        have small : size < 2 ^ 31 := exact
        omega
      rw [text (ascii "kind") rfl, text (ascii "data") rfl, text (ascii "dest") rfl, value,
        sizeToInt_eq exact, intToSize_natCast exact]
      rfl
  | login username password =>
      rw [text (ascii "kind") rfl, text (ascii "username") rfl, text (ascii "password") rfl]
      rfl
  | logout =>
      rw [text (ascii "kind") rfl]
      rfl
  | close =>
      rw [text (ascii "kind") rfl]
      rfl
  | newUser user =>
      have value : json.int (Message.newUser user).stringify (ascii "is_admin") =
          user.admin.toNat := by
        refine int_eq accessors ?_ rfl
        have small := user.admin.toNat_lt
        rw [isInt]
        omega
      rw [text (ascii "kind") rfl, text (ascii "username") rfl, text (ascii "password") rfl, value,
        ofInt_toNat]
      rfl
  | changePass pass =>
      rw [text (ascii "kind") rfl, text (ascii "password") rfl]
      rfl

end Kinds

/-! ## What a reader finds -/

/-- The string in a block; without a terminator the reader leaves it. -/
def terminated (block : Bytes) : Except Fault Bytes :=
  if 0 ∈ block then .ok (cstr block) else .error .outOfBounds

/-- A copied string is a string if the byte behind it is a zero. -/
theorem terminated_append (value : CString) (fresh : Byte) :
    terminated (value.bytes ++ [fresh]) =
      if fresh = 0 then .ok value.bytes else .error .outOfBounds := by
  unfold terminated
  split_ifs with zero ended ended
  · rw [ended, cstr_append_of_nulFree value.nulFree]
    simp [cstr]
  · rcases List.mem_append.mp zero with inside | last
    · exact absurd inside value.nulFree
    · exact absurd (List.mem_singleton.mp last).symm ended
  · exact absurd (ended ▸ List.mem_append_right _ (List.mem_singleton_self _)) zero
  · rfl

/-- The kind and the fields of a `parse_result_t`, each string read to its first NUL.  It
has no place for the size of kind `data`. -/
inductive Fields : Type
  | request (request : Request)
  | data (text : Bytes)

def ParseResult.fields : ParseResult → Except Fault Fields
  | .request command => .ok (.request command)
  | .data block => do
    let text ← terminated block
    return .data text

/-- The kind and the fields of a message. -/
def Message.fields : Message → Fields
  | .int i => .request (.int i)
  | .double d => .request (.double d)
  | .string str => .request (.string str)
  | .data value _ => .data value.bytes
  | .get path => .request (.get path)
  | .post digits dest size => .request (.post digits dest size)
  | .login username password => .request (.login username password)
  | .logout => .request .logout
  | .close => .request .close
  | .newUser user => .request (.newUser user)
  | .changePass pass => .request (.changePass pass)

/-- The kind whose string is copied with its length only. -/
def Message.IsData : Message → Prop
  | .data _ _ => True
  | _ => False

theorem fields_parsed (message : Message) (fresh : Byte) :
    (message.parsed fresh).fields = .ok message.fields ↔ fresh = 0 ∨ ¬ message.IsData := by
  cases message with
  | data value size =>
      rw [Message.parsed, ParseResult.fields, terminated_append]
      split_ifs with zero
      · exact iff_of_true rfl (.inl zero)
      · exact iff_of_false nofun fun either => either.elim zero fun other => other trivial
  | int | double | string | get | post | login | logout | close | newUser | changePass =>
      exact iff_of_true rfl (.inr id)

/-- A message comes back with its kind and its fields, unless it is of kind `data` and the
allocator leaves another byte than zero behind its string. -/
theorem fields_stringify {json : JsonC} (accessors : json.Reads) {message : Message}
    (exact : message.Exact) (reads : json.ReadsBack message.stringify) (fresh : Byte) :
    (json.parseEncoded fresh (json.print message.stringify) >>= ParseResult.fields) =
      .ok message.fields ↔ fresh = 0 ∨ ¬ message.IsData := by
  rw [parseEncoded_stringify accessors exact reads]
  exact fields_parsed message fresh

/-- The reply `File OK`. -/
def fileOk : Message := .data ⟨ascii "File OK", by decide⟩ 7

theorem readsBack_fileOk : (plainJson [fileOk.stringify]).ReadsBack fileOk.stringify :=
  readsBack_plainJson rfl (by decide +kernel) (by decide +kernel)

/-- It comes back when the memory behind it is zero. -/
theorem fields_stringify_fileOk :
    ((plainJson [fileOk.stringify]).parseEncoded 0 ((plainJson [fileOk.stringify]).print
      fileOk.stringify) >>= ParseResult.fields) = .ok fileOk.fields :=
  (fields_stringify (reads_plainJson _) (show fileOk.Exact from trivial) readsBack_fileOk 0).mpr
    (.inl rfl)

/-- With another byte there its reader leaves the block. -/
theorem fileOk_runs_on :
    (plainJson [fileOk.stringify]).Reads ∧
      (plainJson [fileOk.stringify]).ReadsBack fileOk.stringify ∧ fileOk.Exact ∧
      ((plainJson [fileOk.stringify]).parseEncoded (chr '!') ((plainJson [fileOk.stringify]).print
        fileOk.stringify) >>= ParseResult.fields) = .error .outOfBounds := by
  refine ⟨reads_plainJson _, readsBack_fileOk, trivial, ?_⟩
  rw [parseEncoded_stringify (reads_plainJson _) (show fileOk.Exact from trivial) readsBack_fileOk]
  exact congrArg (· >>= fun text => pure (Fields.data text))
    (terminated_append ⟨ascii "File OK", by decide⟩ (chr '!'))

end IpcFtp
