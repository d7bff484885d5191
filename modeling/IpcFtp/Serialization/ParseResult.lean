import IpcFtp.Serialization

/-!
# What a peer can make of `parse_encoded`

`parse_result_t` as it is: a kind, and a union of which at most one member is set.
`parse_encoded` sets it, `server_responder` reads it by comparing the kind again.
`parseResult_sound_iff` says for which texts that goes well.
-/

namespace IpcFtp

/-- The member of the union that is set. -/
inductive ResultData : Type
  | unset
  | i (i : Int)
  | d (d : Float)
  | str (str : CString)
  | data (block : Bytes)
  | getCmd (path : CString)
  | postCmd (data dest : CString) (size : Nat)
  | loginCmd (username password : CString)
  | logoutCmd
  | closeCmd
  | newUserCmd (user : User)
  | changePassCmd (pass : CString)

structure RawResult : Type where
  kind : CString
  data : ResultData

/-- The branches of `parse_encoded`. -/
def JsonC.resultOfKind (json : JsonC) (fresh : Byte) (object : JsonObject) (kind : CString) :
    Except Fault RawResult := do
  if kind.bytes = ascii "int" then return ⟨kind, .i (json.int object (ascii "value"))⟩
  else if kind.bytes = ascii "string" then
    return ⟨kind, .str (← json.string object (ascii "value"))⟩
  else if kind.bytes = ascii "double" then
    return ⟨kind, .d (json.double object (ascii "value"))⟩
  else if kind.bytes = ascii "data" then
    let value ← json.string object (ascii "value")
    return ⟨kind, .data (value.bytes ++ [fresh])⟩
  else if kind.bytes = ascii "command.post" then
    let data ← json.string object (ascii "data")
    let dest ← json.string object (ascii "dest")
    return ⟨kind, .postCmd data dest (JsonC.intToSize (json.int object (ascii "size")))⟩
  else if kind.bytes = ascii "command.get" then
    return ⟨kind, .getCmd (← json.string object (ascii "path"))⟩
  else if kind.bytes = ascii "command.login" then
    let username ← json.string object (ascii "username")
    let password ← json.string object (ascii "password")
    return ⟨kind, .loginCmd username password⟩
  else if kind.bytes = ascii "command.logout" then return ⟨kind, .logoutCmd⟩
  else if kind.bytes = ascii "command.close" then return ⟨kind, .closeCmd⟩
  else if kind.bytes = ascii "command.new_user" then
    let username ← json.string object (ascii "username")
    let password ← json.string object (ascii "password")
    return ⟨kind, .newUserCmd ⟨username, password,
      UInt8.ofInt (json.int object (ascii "is_admin"))⟩⟩
  else if kind.bytes = ascii "command.change_pass" then
    return ⟨kind, .changePassCmd (← json.string object (ascii "password"))⟩
  else return ⟨kind, .unset⟩

/-- `parse_encoded`, with the union. -/
def JsonC.parseResult (json : JsonC) (fresh : Byte) (text : Bytes) : Except Fault RawResult := do
  let object := (json.parse text).getD []
  let kind ← json.string object (ascii "kind")
  json.resultOfKind fresh object kind

namespace ResultData

/-- The kind whose member is set. -/
def kind : ResultData → Option Bytes
  | .unset => none
  | .i _ => some (ascii "int")
  | .d _ => some (ascii "double")
  | .str _ => some (ascii "string")
  | .data _ => some (ascii "data")
  | .getCmd _ => some (ascii "command.get")
  | .postCmd _ _ _ => some (ascii "command.post")
  | .loginCmd _ _ => some (ascii "command.login")
  | .logoutCmd => some (ascii "command.logout")
  | .closeCmd => some (ascii "command.close")
  | .newUserCmd _ => some (ascii "command.new_user")
  | .changePassCmd _ => some (ascii "command.change_pass")

/-- The member that is set, as a request. -/
def request : ResultData → Option Request
  | .i number => some (.int number)
  | .d number => some (.double number)
  | .str string => some (.string string)
  | .getCmd path => some (.get path)
  | .postCmd digits dest size => some (.post digits dest size)
  | .loginCmd username password => some (.login username password)
  | .newUserCmd user => some (.newUser user)
  | .changePassCmd pass => some (.changePass pass)
  | .unset | .data _ | .logoutCmd | .closeCmd => none

/-- A read of the member of a kind; nothing if it is not the one that is set. -/
def read (data : ResultData) (kind : Bytes) : Option Request :=
  if data.kind = some kind then data.request else none

end ResultData

/-- The dispatch of `server_responder`: the request it handles, if it reads only what is
set.  It compares the kind in an order of its own and knows no kind `data`. -/
def RawResult.dispatch (result : RawResult) : Option Request :=
  if result.kind.bytes = ascii "int" then result.data.read (ascii "int")
  else if result.kind.bytes = ascii "double" then result.data.read (ascii "double")
  else if result.kind.bytes = ascii "string" then result.data.read (ascii "string")
  else if result.kind.bytes = ascii "command.get" then result.data.read (ascii "command.get")
  else if result.kind.bytes = ascii "command.post" then result.data.read (ascii "command.post")
  else if result.kind.bytes = ascii "command.login" then result.data.read (ascii "command.login")
  else if result.kind.bytes = ascii "command.logout" then some .logout
  else if result.kind.bytes = ascii "command.close" then some .close
  else if result.kind.bytes = ascii "command.new_user" then
    result.data.read (ascii "command.new_user")
  else if result.kind.bytes = ascii "command.change_pass" then
    result.data.read (ascii "command.change_pass")
  else some (.other result.kind.bytes)

/-- What a member is read as. -/
inductive FieldType : Type
  | string
  | int
  | double

/-- The kinds of messages, each with the members that its data is read from. -/
def kindMembers : List (Bytes × List (Bytes × FieldType)) :=
  [(ascii "int", [(ascii "value", .int)]), (ascii "string", [(ascii "value", .string)]),
    (ascii "double", [(ascii "value", .double)]), (ascii "data", [(ascii "value", .string)]),
    (ascii "command.post",
      [(ascii "data", .string), (ascii "dest", .string), (ascii "size", .int)]),
    (ascii "command.get", [(ascii "path", .string)]),
    (ascii "command.login", [(ascii "username", .string), (ascii "password", .string)]),
    (ascii "command.logout", []), (ascii "command.close", []),
    (ascii "command.new_user",
      [(ascii "username", .string), (ascii "password", .string), (ascii "is_admin", .int)]),
    (ascii "command.change_pass", [(ascii "password", .string)])]

/-- The members that a kind needs; an unknown kind needs none. -/
def neededMembers (kind : Bytes) : List (Bytes × FieldType) := (kindMembers.lookup kind).getD []

namespace JsonC

variable (json : JsonC) (object : JsonObject) (name : Bytes)

/-- The value can be read so; every value has a text. -/
def converts : FieldType → JsonValue → Bool
  | .string, _ => true
  | .int, value => (json.getInt value).isSome
  | .double, value => (json.getDouble value).isSome

/-! The object holds a field: it is what the member is converted to. -/

def HoldsString (s : CString) : Prop :=
  ∃ value, member object name = some value ∧ json.getString value = s

def HoldsInt (i : Int) : Prop :=
  ∃ value, member object name = some value ∧ json.getInt value = some i

def HoldsDouble (d : Float) : Prop :=
  ∃ value, member object name = some value ∧ json.getDouble value = some d

end JsonC

/-- Every field of the member that is set is the object's: none is made up. -/
def ResultData.Holds (json : JsonC) (object : JsonObject) : ResultData → Prop
  | .i number => json.HoldsInt object (ascii "value") number
  | .d number => json.HoldsDouble object (ascii "value") number
  | .str string => json.HoldsString object (ascii "value") string
  | .data block => ∃ value last, json.HoldsString object (ascii "value") value ∧
      block = value.bytes ++ [last]
  | .getCmd path => json.HoldsString object (ascii "path") path
  | .postCmd digits dest size => json.HoldsString object (ascii "data") digits ∧
      json.HoldsString object (ascii "dest") dest ∧
      ∃ i, json.HoldsInt object (ascii "size") i ∧ size = JsonC.intToSize i
  | .loginCmd username password => json.HoldsString object (ascii "username") username ∧
      json.HoldsString object (ascii "password") password
  | .newUserCmd user => json.HoldsString object (ascii "username") user.username ∧
      json.HoldsString object (ascii "password") user.password ∧
      ∃ i, json.HoldsInt object (ascii "is_admin") i ∧ user.admin = UInt8.ofInt i
  | .changePassCmd pass => json.HoldsString object (ascii "password") pass
  | .unset | .logoutCmd | .closeCmd => True

/-- The data of a known kind is there. -/
def RawResult.Complete (result : RawResult) : Prop :=
  (kindMembers.lookup result.kind.bytes).isSome → result.data.kind = some result.kind.bytes

/-- The members that the kind needs are there, none of them null, and can be converted. -/
def JsonC.HasFields (json : JsonC) (object : JsonObject) (kind : CString) : Prop :=
  ∀ field ∈ neededMembers kind.bytes, (member object field.1).any (json.converts field.2)

/-- The text is an object with a kind and all members that this kind needs. -/
def JsonC.HasMembers (json : JsonC) (text : Bytes) : Prop :=
  ∃ object kind, json.parse text = some object ∧ member object (ascii "kind") = some kind ∧
    json.HasFields object (json.getString kind)

/-- The text is parsed without a null pointer being read, to a result that is complete, whose
fields are those of the text, and of which a server reads only what is set. -/
def JsonC.Sound (json : JsonC) (fresh : Byte) (text : Bytes) : Prop :=
  ∃ object result, json.parse text = some object ∧ json.parseResult fresh text = .ok result ∧
    result.Complete ∧ result.data.Holds json object ∧ ∃ request, result.dispatch = some request

section Fields

variable {json : JsonC} {object : JsonObject} {name : Bytes}

theorem string_eq_ok {s : CString} :
    json.string object name = .ok s ↔ json.HoldsString object name s := by
  unfold JsonC.string JsonC.HoldsString
  cases member object name with
  | none => simp
  | some value => simp

theorem exists_string_iff :
    (∃ s, json.string object name = .ok s) ↔
      (member object name).any (json.converts .string) := by
  unfold JsonC.string
  cases member object name with
  | none => simp
  | some value => simp [JsonC.converts]

theorem holdsInt_iff :
    json.HoldsInt object name (json.int object name) ↔
      (member object name).any (json.converts .int) := by
  unfold JsonC.HoldsInt JsonC.int
  cases member object name with
  | none => simp
  | some value => cases number : json.getInt value <;> simp [JsonC.converts, number]

theorem holdsDouble_iff :
    json.HoldsDouble object name (json.double object name) ↔
      (member object name).any (json.converts .double) := by
  unfold JsonC.HoldsDouble JsonC.double
  cases member object name with
  | none => simp
  | some value => cases number : json.getDouble value <;> simp [JsonC.converts, number]

/-- A number that is stored behind a conversion. -/
theorem exists_holdsInt_iff {α : Type} (store : Int → α) :
    (∃ i, json.HoldsInt object name i ∧ store (json.int object name) = store i) ↔
      ∀ field ∈ [(name, FieldType.int)], (member object field.1).any (json.converts field.2) := by
  rw [List.forall_mem_singleton, ← holdsInt_iff]
  constructor
  · intro given
    obtain ⟨i, ⟨value, found, number⟩, -⟩ := given
    exact ⟨value, found, by rw [JsonC.int, found, Option.bind_some, number, Option.getD_some]⟩
  · intro holds
    exact ⟨_, holds, rfl⟩

end Fields

section Branches

variable {json : JsonC} {fresh : Byte} {object : JsonObject} {kind : CString}

/-- The branch of a kind is taken without a null pointer being read, and what it sets is
complete, the object's and enough for a server. -/
def SoundBranch (json : JsonC) (fresh : Byte) (object : JsonObject) (kind : CString) : Prop :=
  ∃ result, json.resultOfKind fresh object kind = .ok result ∧ result.Complete ∧
    result.data.Holds json object ∧ ∃ request, result.dispatch = some request

theorem hasFields_singleton (field : Bytes × FieldType)
    (needed : neededMembers kind.bytes = [field]) :
    json.HasFields object kind ↔ (member object field.1).any (json.converts field.2) := by
  unfold JsonC.HasFields
  rw [needed, List.forall_mem_singleton]

/-- A branch reads its strings and makes its result of them. -/
theorem soundBranch_of {α : Type} (strings : Except Fault α) (make : α → RawResult)
    (branch : json.resultOfKind fresh object kind = strings >>= fun a => .ok (make a))
    (complete : ∀ a, (make a).Complete)
    (reads : ∀ a, ∃ request, (make a).dispatch = some request)
    (needs : json.HasFields object kind → ∃ a, strings = .ok a)
    (holds : ∀ a, strings = .ok a →
      ((make a).data.Holds json object ↔ json.HasFields object kind)) :
    SoundBranch json fresh object kind ↔ json.HasFields object kind := by
  unfold SoundBranch
  rw [branch]
  constructor
  · intro given
    obtain ⟨result, made, -, kept, -⟩ := given
    obtain ⟨a, read, made⟩ := bind_eq_ok.mp made
    cases made
    exact (holds a read).mp kept
  · intro fields
    obtain ⟨a, read⟩ := needs fields
    exact ⟨make a, bind_eq_ok.mpr ⟨a, read, rfl⟩, complete a, (holds a read).mpr fields, reads a⟩

/-! A branch reads no string, one, or two. -/

theorem soundBranch_none {result : RawResult}
    (branch : json.resultOfKind fresh object kind = .ok result) (complete : result.Complete)
    (reads : ∃ request, result.dispatch = some request)
    (holds : result.data.Holds json object ↔ json.HasFields object kind) :
    SoundBranch json fresh object kind ↔ json.HasFields object kind :=
  soundBranch_of (.ok ()) (fun _ => result) branch (fun _ => complete) (fun _ => reads)
    (fun _ => ⟨(), rfl⟩) fun _ _ => holds

theorem soundBranch_one {name : Bytes} {make : CString → RawResult}
    (branch : json.resultOfKind fresh object kind =
      json.string object name >>= fun s => .ok (make s))
    (needed : neededMembers kind.bytes = [(name, .string)]) (complete : ∀ s, (make s).Complete)
    (reads : ∀ s, ∃ request, (make s).dispatch = some request)
    (holds : ∀ s, json.HoldsString object name s → (make s).data.Holds json object) :
    SoundBranch json fresh object kind ↔ json.HasFields object kind := by
  have fields : json.HasFields object kind ↔ ∃ s, json.string object name = .ok s :=
    (hasFields_singleton _ needed).trans exists_string_iff.symm
  refine soundBranch_of _ make branch complete reads fields.mp fun s read => ?_
  exact iff_of_true (holds s (string_eq_ok.mp read)) (fields.mpr ⟨s, read⟩)

theorem soundBranch_two {first second : Bytes} {others : List (Bytes × FieldType)}
    {make : CString → CString → RawResult}
    (branch : json.resultOfKind fresh object kind =
      json.string object first >>= fun s => json.string object second >>= fun s' =>
        .ok (make s s'))
    (needed : neededMembers kind.bytes = (first, .string) :: (second, .string) :: others)
    (complete : ∀ s s', (make s s').Complete)
    (reads : ∀ s s', ∃ request, (make s s').dispatch = some request)
    (holds : ∀ s s', json.HoldsString object first s → json.HoldsString object second s' →
      ((make s s').data.Holds json object ↔
        ∀ field ∈ others, (member object field.1).any (json.converts field.2))) :
    SoundBranch json fresh object kind ↔ json.HasFields object kind := by
  have fields : json.HasFields object kind ↔ (∃ s, json.string object first = .ok s) ∧
      (∃ s', json.string object second = .ok s') ∧
      ∀ field ∈ others, (member object field.1).any (json.converts field.2) := by
    unfold JsonC.HasFields
    rw [needed, List.forall_mem_cons, List.forall_mem_cons, exists_string_iff, exists_string_iff]
  refine soundBranch_of (json.string object first >>= fun s => json.string object second >>=
    fun s' => .ok (s, s')) (fun pair => make pair.1 pair.2) ?_ (fun _ => complete _ _)
    (fun _ => reads _ _) ?_ ?_
  · rw [branch]
    cases json.string object first with
    | error e => rfl
    | ok s => cases json.string object second <;> rfl
  · intro all
    obtain ⟨⟨s, read⟩, ⟨s', read'⟩, -⟩ := fields.mp all
    exact ⟨(s, s'), bind_eq_ok.mpr ⟨s, read, bind_eq_ok.mpr ⟨s', read', rfl⟩⟩⟩
  · intro pair given
    obtain ⟨s, read, behind⟩ := bind_eq_ok.mp given
    obtain ⟨s', read', made⟩ := bind_eq_ok.mp behind
    cases made
    rw [fields, holds s s' (string_eq_ok.mp read) (string_eq_ok.mp read'),
      and_iff_right ⟨s, read⟩, and_iff_right ⟨s', read'⟩]

/-- An unknown kind sets nothing, and nothing of it is read. -/
theorem soundBranch_unknown (unknown : kind.bytes ∉ kindMembers.map Prod.fst) :
    SoundBranch json fresh object kind ↔ json.HasFields object kind := by
  have none : kindMembers.lookup kind.bytes = none := by
    rw [List.lookup_eq_none_iff]
    intro entry member
    simpa using fun same : kind.bytes = entry.1 =>
      unknown (same ▸ List.mem_map_of_mem member)
  simp only [kindMembers, List.map_cons, List.map_nil, List.mem_cons, List.not_mem_nil, or_false,
    not_or] at unknown
  obtain ⟨int, string, double, data, post, get, login, logout, close, newUser, changePass⟩ := unknown
  refine soundBranch_none (show _ = Except.ok (RawResult.mk kind .unset) from ?_) ?_
    ⟨.other kind.bytes, ?_⟩ ?_
  · simp only [JsonC.resultOfKind, int, string, double, data, post, get, login, logout, close,
      newUser, changePass, if_false]
    rfl
  · intro known
    rw [none] at known
    cases known
  · simp only [RawResult.dispatch, int, string, double, post, get, login, logout, close, newUser,
      changePass, if_false]
  · unfold JsonC.HasFields
    rw [neededMembers, none, Option.getD_none]
    exact iff_of_true trivial (List.forall_mem_nil _)

theorem soundBranch_iff :
    SoundBranch json fresh object kind ↔ json.HasFields object kind := by
  by_cases known : kind.bytes ∈ kindMembers.map Prod.fst
  · obtain ⟨bytes, nulFree⟩ := kind
    simp only [kindMembers, List.map_cons, List.map_nil, List.mem_cons, List.not_mem_nil,
      or_false] at known
    rcases known with rfl | rfl | rfl | rfl | rfl | rfl | rfl | rfl | rfl | rfl | rfl
    · exact soundBranch_none rfl (fun _ => rfl) ⟨_, rfl⟩
        (holdsInt_iff.trans (hasFields_singleton (ascii "value", .int) rfl).symm)
    · exact soundBranch_one rfl rfl (fun _ _ => rfl) (fun _ => ⟨_, rfl⟩) fun _ => id
    · exact soundBranch_none rfl (fun _ => rfl) ⟨_, rfl⟩
        (holdsDouble_iff.trans (hasFields_singleton (ascii "value", .double) rfl).symm)
    · exact soundBranch_one rfl rfl (fun _ _ => rfl) (fun _ => ⟨_, rfl⟩)
        fun value holds => ⟨value, fresh, holds, rfl⟩
    · refine soundBranch_two rfl rfl (fun _ _ _ => rfl) (fun _ _ => ⟨_, rfl⟩) ?_
      intro s s' holds holds'
      exact (and_iff_right holds).trans
        ((and_iff_right holds').trans (exists_holdsInt_iff JsonC.intToSize))
    · exact soundBranch_one rfl rfl (fun _ _ => rfl) (fun _ => ⟨_, rfl⟩) fun _ => id
    · refine soundBranch_two rfl rfl (fun _ _ _ => rfl) (fun _ _ => ⟨_, rfl⟩) ?_
      intro s s' holds holds'
      exact iff_of_true ⟨holds, holds'⟩ (List.forall_mem_nil _)
    · exact soundBranch_none rfl (fun _ => rfl) ⟨_, rfl⟩ (iff_of_true trivial (List.forall_mem_nil _))
    · exact soundBranch_none rfl (fun _ => rfl) ⟨_, rfl⟩ (iff_of_true trivial (List.forall_mem_nil _))
    · refine soundBranch_two rfl rfl (fun _ _ _ => rfl) (fun _ _ => ⟨_, rfl⟩) ?_
      intro s s' holds holds'
      exact (and_iff_right holds).trans
        ((and_iff_right holds').trans (exists_holdsInt_iff UInt8.ofInt))
    · exact soundBranch_one rfl rfl (fun _ _ => rfl) (fun _ => ⟨_, rfl⟩) fun _ => id
  · exact soundBranch_unknown known

end Branches

/-! ## Any text -/

/-- A text is parsed soundly exactly if it is an object with a kind and all the members that
this kind needs, each of which can be converted. -/
theorem parseResult_sound_iff (json : JsonC) (fresh : Byte) (text : Bytes) :
    json.Sound fresh text ↔ json.HasMembers text := by
  constructor
  · intro given
    obtain ⟨object, result, parsed, parses, complete, holds, reads⟩ := given
    obtain ⟨kind, isKind, branch⟩ := bind_eq_ok.mp parses
    rw [parsed, Option.getD_some] at isKind branch
    obtain ⟨value, found, rfl⟩ := string_eq_ok.mp isKind
    exact ⟨object, value, parsed, found,
      soundBranch_iff.mp ⟨result, branch, complete, holds, reads⟩⟩
  · intro given
    obtain ⟨object, value, parsed, found, fields⟩ := given
    obtain ⟨result, branch, complete, holds, reads⟩ :
        SoundBranch json fresh object (json.getString value) := soundBranch_iff.mpr fields
    refine ⟨object, result, parsed, ?_, complete, holds, reads⟩
    rw [JsonC.parseResult, parsed, Option.getD_some, string_eq_ok.mpr ⟨value, found, rfl⟩]
    exact branch

/-- Both parsers fail, or a server finds the same request. -/
def SameRequest (parsed : Except Fault ParseResult) (result : Except Fault RawResult) : Prop :=
  parsed.toOption.map ParseResult.toRequest = result.toOption.bind RawResult.dispatch

theorem SameRequest.bind {α : Type} {action : Except Fault α} {next : α → Except Fault ParseResult}
    {next' : α → Except Fault RawResult} (same : ∀ a, SameRequest (next a) (next' a)) :
    SameRequest (action >>= next) (action >>= next') := by
  cases action with
  | error e => rfl
  | ok a => exact same a

/-- What a server reads in the union is the request it is taken to dispatch on. -/
theorem sameRequest_parseEncoded (json : JsonC) (fresh : Byte) (text : Bytes) :
    SameRequest (json.parseEncoded fresh text) (json.parseResult fresh text) := by
  refine .bind fun kind => ?_
  by_cases known : kind.bytes ∈ kindMembers.map Prod.fst
  · obtain ⟨bytes, nulFree⟩ := kind
    simp only [kindMembers, List.map_cons, List.map_nil, List.mem_cons, List.not_mem_nil,
      or_false] at known
    rcases known with rfl | rfl | rfl | rfl | rfl | rfl | rfl | rfl | rfl | rfl | rfl
    · exact rfl
    · exact .bind fun _ => rfl
    · exact rfl
    · exact .bind fun _ => rfl
    · exact .bind fun _ => .bind fun _ => rfl
    · exact .bind fun _ => rfl
    · exact .bind fun _ => .bind fun _ => rfl
    · exact rfl
    · exact rfl
    · exact .bind fun _ => .bind fun _ => rfl
    · exact .bind fun _ => rfl
  · simp only [kindMembers, List.map_cons, List.map_nil, List.mem_cons, List.not_mem_nil, or_false,
      not_or] at known
    obtain ⟨int, string, double, data, post, get, login, logout, close, newUser, changePass⟩ := known
    simp only [SameRequest, JsonC.resultOfKind, int, string, double, data, post, get, login, logout,
      close, newUser, changePass, if_false]
    simp only [pure_eq_ok, Except.toOption, Option.map_some, Option.bind_some, RawResult.dispatch, int,
      string, double, post, get, login, logout, close, newUser, changePass, if_false]
    rfl

/-! ## Kinds -/

/-- The kind a request was parsed from. -/
def Request.kind : Request → Bytes
  | .int _ => ascii "int"
  | .double _ => ascii "double"
  | .string _ => ascii "string"
  | .get _ => ascii "command.get"
  | .post _ _ _ => ascii "command.post"
  | .login _ _ => ascii "command.login"
  | .logout => ascii "command.logout"
  | .close => ascii "command.close"
  | .newUser _ => ascii "command.new_user"
  | .changePass _ => ascii "command.change_pass"
  | .other kind => kind

def OfKind (kind : Bytes) (action : Except Fault ParseResult) : Prop :=
  ∀ parsed, action = .ok parsed → parsed.toRequest.kind = kind

theorem OfKind.ok {kind : Bytes} {parsed : ParseResult} (same : parsed.toRequest.kind = kind) :
    OfKind kind (.ok parsed) := by
  intro _ given
  cases given
  exact same

theorem OfKind.bind {α : Type} {kind : Bytes} {action : Except Fault α}
    {next : α → Except Fault ParseResult} (same : ∀ a, OfKind kind (next a)) :
    OfKind kind (action >>= next) := by
  intro parsed parses
  obtain ⟨a, -, parses⟩ := bind_eq_ok.mp parses
  exact same a parsed parses

theorem OfKind.ite {kind : Bytes} {p : Prop} [Decidable p] {action other : Except Fault ParseResult}
    (first : p → OfKind kind action) (second : OfKind kind other) :
    OfKind kind (if p then action else other) := by
  split_ifs with holds
  · exact first holds
  · exact second

/-- A server dispatches on the kind that the text has. -/
theorem kind_toRequest {json : JsonC} {fresh : Byte} {text : Bytes} {kind : CString}
    (isKind : json.string ((json.parse text).getD []) (ascii "kind") = .ok kind) :
    OfKind kind.bytes (json.parseEncoded fresh text) := by
  unfold JsonC.parseEncoded
  simp only [isKind]
  refine OfKind.ite (fun same => .ok same.symm) ?_
  refine OfKind.ite (fun same => .bind fun _ => .ok same.symm) ?_
  refine OfKind.ite (fun same => .ok same.symm) ?_
  refine OfKind.ite (fun same => .bind fun _ => .ok same.symm) ?_
  refine OfKind.ite (fun same => .bind fun _ => .bind fun _ => .ok same.symm) ?_
  refine OfKind.ite (fun same => .bind fun _ => .ok same.symm) ?_
  refine OfKind.ite (fun same => .bind fun _ => .bind fun _ => .ok same.symm) ?_
  refine OfKind.ite (fun same => .ok same.symm) ?_
  refine OfKind.ite (fun same => .ok same.symm) ?_
  refine OfKind.ite (fun same => .bind fun _ => .bind fun _ => .ok same.symm) ?_
  exact OfKind.ite (fun same => .bind fun _ => .ok same.symm) (.ok rfl)

/-- Both fail, or are the same to a server. -/
def SameServed (action action' : Except Fault ParseResult) : Prop :=
  action.map ParseResult.toRequest = action'.map ParseResult.toRequest

theorem SameServed.bind {α : Type} {action : Except Fault α} {next next' : α → Except Fault ParseResult}
    (same : ∀ a, SameServed (next a) (next' a)) : SameServed (action >>= next) (action >>= next') := by
  cases action with
  | error e => rfl
  | ok a => exact same a

theorem SameServed.ite {p : Prop} [Decidable p]
    {action action' other other' : Except Fault ParseResult} (first : SameServed action action')
    (second : SameServed other other') :
    SameServed (if p then action else other) (if p then action' else other') := by
  split_ifs
  · exact first
  · exact second

/-- The fresh byte makes no difference to a server. -/
theorem toRequest_fresh (json : JsonC) (fresh fresh' : Byte) (text : Bytes) :
    (json.parseEncoded fresh text).map ParseResult.toRequest =
      (json.parseEncoded fresh' text).map ParseResult.toRequest := by
  refine SameServed.bind fun kind => ?_
  refine .ite rfl (.ite rfl (.ite rfl ?_))
  -- the kind `data`, and all behind it
  exact .ite (.bind fun _ => rfl) rfl

/-- A text that is not JSON. -/
theorem hello_crashes :
    (plainJson []).parseResult 0 (ascii "hello") = .error .nullPointer ∧
      ¬ (plainJson []).Sound 0 (ascii "hello") := by
  refine ⟨rfl, ?_⟩
  intro given
  obtain ⟨object, result, parsed, -⟩ := given
  cases parsed

end IpcFtp
