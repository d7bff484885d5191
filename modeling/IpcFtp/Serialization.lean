import IpcFtp.Server.Responder

/-!
# Messages as JSON

`lib/serialization/serialization.c`.  `stringify_*` builds an object and prints it;
`parse_encoded` parses a text and reads the members of its kind.  The printer, the
parser and the accessors are json-c's and come in as a parameter (`JsonC`); what is
relied on is said for one object at a time (`JsonC.ReadsBack`).
-/

namespace IpcFtp

/-- A value of a member; of an array or an object only its text is ever asked for. -/
inductive JsonValue : Type
  | null
  | boolean (b : Bool)
  | string (s : CString)
  | int (i : Int)
  | double (d : Float)
  | compound (text : Bytes)

/-- The members of an object in the order in which they were added. -/
abbrev JsonObject := List (Bytes × JsonValue)

/-- json-c: `json_object_to_json_string`, `json_tokener_parse` with null for a text that
is not one object, and `json_object_get_{string,int,double}` of what is not null.  Nothing
is found in a value that is no object, so such a text is as good as none.  A value that no
number can be made of is none of `getInt` and `getDouble`; json-c returns 0 for it. -/
structure JsonC : Type where
  print : JsonObject → Bytes
  parse : Bytes → Option JsonObject
  getString : JsonValue → CString
  getInt : JsonValue → Option Int
  getDouble : JsonValue → Option Float

/-! ## Stringify -/

/-- The string at the start of a block. -/
def blockString (block : Bytes) : CString := ⟨cstr block, nulFree_cstr block⟩

theorem blockString_of_nulFree {block : Bytes} (nulFree : 0 ∉ block) :
    blockString block = ⟨block, nulFree⟩ := by
  simp only [blockString, cstr_of_nulFree nulFree]

def literal (s : String) (nulFree : 0 ∉ ascii s) : JsonValue := .string ⟨ascii s, nulFree⟩

/-- The conversion of a size to `int`. -/
def sizeToInt (size : Nat) : Int := (size : Int).bmod (2 ^ 32)

def stringifyInt (i : Int) : JsonObject :=
  [(ascii "kind", literal "int" (by decide)), (ascii "value", .int i)]

def stringifyDouble (d : Float) : JsonObject :=
  [(ascii "kind", literal "double" (by decide)), (ascii "value", .double d)]

def stringifyString (s : CString) : JsonObject :=
  [(ascii "kind", literal "string" (by decide)), (ascii "value", .string s)]

def stringifyData (data : CString) (size : Nat) : JsonObject :=
  [(ascii "kind", literal "data" (by decide)), (ascii "value", .string data),
    (ascii "size", .int (sizeToInt size))]

def stringifyCommandGet (path : CString) : JsonObject :=
  [(ascii "kind", literal "command.get" (by decide)), (ascii "path", .string path)]

def stringifyCommandPost (data dest : CString) (size : Nat) : JsonObject :=
  [(ascii "kind", literal "command.post" (by decide)), (ascii "data", .string data),
    (ascii "dest", .string dest), (ascii "size", .int (sizeToInt size))]

def stringifyCommandLogin (username password : CString) : JsonObject :=
  [(ascii "kind", literal "command.login" (by decide)), (ascii "username", .string username),
    (ascii "password", .string password)]

def stringifyCommandLogout : JsonObject :=
  [(ascii "kind", literal "command.logout" (by decide))]

def stringifyCommandClose : JsonObject :=
  [(ascii "kind", literal "command.close" (by decide))]

def stringifyCommandNewUser (user : User) : JsonObject :=
  [(ascii "kind", literal "command.new_user" (by decide)),
    (ascii "username", .string user.username), (ascii "password", .string user.password),
    (ascii "is_admin", .int user.admin.toNat)]

def stringifyCommandChangePass (pass : CString) : JsonObject :=
  [(ascii "kind", literal "command.change_pass" (by decide)), (ascii "password", .string pass)]

/-- The object of a reply. -/
def replyObject : ServerEvent → Option JsonObject
  | ⟨.sendInt number, _⟩ => some (stringifyInt number)
  | ⟨.sendDouble number, _⟩ => some (stringifyDouble number)
  | ⟨.sendString string, _⟩ => some (stringifyString (blockString string))
  | ⟨.sendData data size, _⟩ => some (stringifyData (blockString data) size)
  | _ => none

/-! ## Parse -/

/-- What `parse_encoded` gives.  A server dispatches on a request; the string of kind
`data` is copied without its terminator, so its block ends with a byte of fresh memory. -/
inductive ParseResult : Type
  | request (request : Request)
  | data (block : Bytes)

/-- What the dispatch of a server makes of it. -/
def ParseResult.toRequest : ParseResult → Request
  | .request command => command
  | .data _ => .other (ascii "data")

/-- `json_object_object_get_ex`: a null pointer for a missing member, and for the value
`null` as well. -/
def member (object : JsonObject) (name : Bytes) : Option JsonValue :=
  match object.lookup name with
  | some .null => none
  | found => found

namespace JsonC

variable (json : JsonC)

/-- A member as a string; a missing one is null and is read at once. -/
def string (object : JsonObject) (name : Bytes) : Except Fault CString :=
  match member object name with
  | some value => .ok (json.getString value)
  | none => .error .nullPointer

/-- `json_object_get_int`, which gives 0 for null and for what is no number. -/
def int (object : JsonObject) (name : Bytes) : Int :=
  ((member object name).bind json.getInt).getD 0

def double (object : JsonObject) (name : Bytes) : Float :=
  ((member object name).bind json.getDouble).getD 0

/-- The conversion of an `int` to `size_t`. -/
def intToSize (i : Int) : Nat := (i % 2 ^ 64).toNat

/-- `parse_encoded`; `fresh` is the byte the allocator leaves behind the copied string of
kind `data`. -/
def parseEncoded (fresh : Byte) (text : Bytes) : Except Fault ParseResult := do
  let object := (json.parse text).getD []
  let kind ← json.string object (ascii "kind")
  if kind.bytes = ascii "int" then return .request (.int (json.int object (ascii "value")))
  else if kind.bytes = ascii "string" then
    return .request (.string (← json.string object (ascii "value")))
  else if kind.bytes = ascii "double" then
    return .request (.double (json.double object (ascii "value")))
  else if kind.bytes = ascii "data" then
    let value ← json.string object (ascii "value")
    return .data (value.bytes ++ [fresh])
  else if kind.bytes = ascii "command.post" then
    let data ← json.string object (ascii "data")
    let dest ← json.string object (ascii "dest")
    return .request (.post data dest (intToSize (json.int object (ascii "size"))))
  else if kind.bytes = ascii "command.get" then
    return .request (.get (← json.string object (ascii "path")))
  else if kind.bytes = ascii "command.login" then
    let username ← json.string object (ascii "username")
    let password ← json.string object (ascii "password")
    return .request (.login username password)
  else if kind.bytes = ascii "command.logout" then return .request .logout
  else if kind.bytes = ascii "command.close" then return .request .close
  else if kind.bytes = ascii "command.new_user" then
    let username ← json.string object (ascii "username")
    let password ← json.string object (ascii "password")
    return .request (.newUser ⟨username, password, UInt8.ofInt (json.int object (ascii "is_admin"))⟩)
  else if kind.bytes = ascii "command.change_pass" then
    return .request (.changePass (← json.string object (ascii "password")))
  else return .request (.other kind.bytes)

/-- The accessors give the strings and integers they find. -/
structure Reads : Prop where
  string : ∀ s, json.getString (.string s) = s
  int : ∀ i, isInt i → json.getInt (.int i) = some i

/-- The object is printed as one string in braces that is parsed back, and whose front
alone is not parsed. -/
structure ReadsBack (object : JsonObject) : Prop where
  parse : json.parse (json.print object) = some object
  front : ∀ front, front <+: json.print object → front ≠ json.print object →
    json.parse front = none
  brace : (json.print object).head? = some (chr '{')
  nulFree : 0 ∉ json.print object

end JsonC

/-! ## Plain texts -/

/-- A value as json-c prints it, if its string needs no escapes. -/
def printPlainValue : JsonValue → Bytes
  | .null => ascii "null"
  | .boolean b => ascii (if b then "true" else "false")
  | .string s => ascii "\"" ++ s.bytes ++ ascii "\""
  | .int i => decimal i
  | .double _ => ascii "0.0"
  | .compound text => text

def printPlain (object : JsonObject) : Bytes :=
  ascii "\x7b " ++ List.intercalate (ascii ", ") (object.map fun member =>
    ascii "\"" ++ member.1 ++ ascii "\": " ++ printPlainValue member.2) ++ ascii " \x7d"

/-- json-c as far as the texts of `objects` go. -/
def plainJson (objects : List JsonObject) : JsonC where
  print := printPlain
  parse := fun text => objects.find? (printPlain · = text)
  getString
    | .string s => s
    | value => blockString (printPlainValue value)
  getInt
    | .int i => some i
    | .boolean b => some b.toInt
    | _ => none
  getDouble
    | .double d => some d
    | _ => none

theorem reads_plainJson (objects : List JsonObject) : (plainJson objects).Reads :=
  ⟨fun _ => rfl, fun _ _ => rfl⟩

/-- Texts of which none is the front of another are read back. -/
theorem readsBack_plainJson {objects : List JsonObject} {object : JsonObject}
    (found : objects.find? (printPlain · = printPlain object) = some object)
    (apart : ∀ other ∈ objects, printPlain other <+: printPlain object →
      printPlain other = printPlain object)
    (nulFree : 0 ∉ printPlain object) : (plainJson objects).ReadsBack object := by
  refine ⟨found, ?_, rfl, nulFree⟩
  intro front inside proper
  refine List.find?_eq_none.mpr fun other member same => ?_
  obtain rfl := of_decide_eq_true same
  exact proper (apart other member inside)

example : printPlain (stringifyInt 2) = ascii "\x7b \"kind\": \"int\", \"value\": 2 \x7d" := by
  decide

end IpcFtp
