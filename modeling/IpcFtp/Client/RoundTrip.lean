import IpcFtp.Client.Commands
import IpcFtp.Communication.OneFrame
import IpcFtp.Serialization.Messages
import IpcFtp.Server.Dialogue
import IpcFtp.Server.CommandEffects

/-!
# A file posted and fetched

`cmd_post`, `cmd_get` and `get_handler` of `client/commands.c` at one end,
`server_responder` at the other, and between them the framing, the receivers' buffers
and json-c.  `get_gives_back_posted` says when the bytes that `get_handler` decodes are
those of the file that was posted.
-/

namespace IpcFtp

open Lib Program

/-! ## The reply of a `get` -/

/-- What `get_handler` decodes, if the reply is of a kind it decodes. -/
def getHandler (json : JsonC) (fresh : Byte) (response : Bytes) :
    Except Fault (Option Bytes) := do
  match ← json.parseEncoded fresh response with
  | .data block =>
    let text ← terminated block
    let decoded ← decodeToRawData text
    return some decoded
  | .request (.post data _ _) =>
    let decoded ← decodeToRawData data.bytes
    return some decoded
  | .request _ => return none

/-! ## Posting -/

/-- The object that `cmd_post` sends. -/
def postObject (fileAlias : CString) (contents : Bytes) : JsonObject :=
  stringifyCommandPost (encodedString contents) fileAlias contents.length

/-- The worker receives the post of a file and handles it with these calls, the last of
which is the reply `File OK`. -/
def AnsweredFileOk (t : Transport) (json : JsonC) (session : FsUser) (fileAlias : CString)
    (contents : Bytes) (calls : List Answered) : Prop :=
  ∃ boundary closed got rest fresh parsed err result,
    Reader.run none (commReceiveData t)
      (Sender.wire t ⟨boundary, json.print (postObject fileAlias contents)⟩ .commSendData) =
        .done got rest ∧
    json.parseEncoded fresh got.buffer = .ok parsed ∧
    Runs (serverResponder t ⟨some session, closed⟩ parsed.toRequest err)
      (calls.map Answered.event) result ∧
    reply (ascii "File OK") 7 ∈ calls.map Answered.event

/-- The file at a path. -/
def World.contents (world : World) (path : Bytes) : Option Bytes := world.disk.lookup path

/-- The file of an alias. -/
def filePath (session : FsUser) (fileAlias : CString) : Bytes :=
  ascii "." ++ session.home.bytes ++ ascii "/" ++ fileAlias.bytes

/-! ## Fetching -/

/-- The circumstances of a `get`: who asks for what, the two boundaries drawn, the answer
of the select, the files there are, and the byte of memory behind the copied reply. -/
structure Fetch : Type where
  session : FsUser
  closed : Bool
  fileAlias : CString
  requestBoundary : Boundary
  replyBoundary : Boundary
  row : Option CString
  contents : Bytes → Option Bytes
  fresh : Byte

namespace Fetch

variable (c : Fetch)

/-- The answers that the circumstances give to a handler's calls. -/
def answers : ServerEvent → Prop
  | ⟨.askForFileToDb _ _, answer⟩ => answer = c.row
  | ⟨.rawDataFromFile path, answer⟩ => answer = c.contents path
  | _ => True

def requestFrame (json : JsonC) : Frame :=
  ⟨c.requestBoundary, json.print (stringifyCommandGet c.fileAlias)⟩

/-- The contents that are found. -/
def found : Option Bytes := c.row.bind fun row => c.contents (ascii "." ++ row.bytes)

/-- The object of the worker's reply. -/
def replyObject : JsonObject :=
  match c.found with
  | some contents => stringifyData (encodedString contents) contents.length
  | none => stringifyData (blockString (ascii "FILE IS NOT IN DB")) 17

def replyFrame (json : JsonC) : Frame := ⟨c.replyBoundary, json.print c.replyObject⟩

/-- `get alias` makes `get_handler` decode these bytes. -/
def Yields (t : Transport) (json : JsonC) (decoded : Bytes) : Prop :=
  cmdGet true true [c.fileAlias] = .sends (stringifyCommandGet c.fileAlias) ∧
  ∃ got rest fresh parsed err trace worker err' got' rest',
    Reader.run none (commReceiveData t)
      (Sender.wire t (c.requestFrame json) .commSendDataAsync) = .done got rest ∧
    json.parseEncoded fresh got.buffer = .ok parsed ∧
    Runs (serverResponder t ⟨some c.session, c.closed⟩ parsed.toRequest err) trace
      (.ok (worker, err')) ∧
    (∀ event ∈ trace, c.answers event) ∧
    Reader.run none (dataListener t)
      (framesWire t (replyFrames json c.replyBoundary trace)) = .done got' rest' ∧
    getHandler json c.fresh got'.buffer = .ok (some decoded)

/-- What is found holds these bytes.  The text of the reply that nothing was found is
decoded as well. -/
def Holds (decoded : Bytes) : Prop :=
  c.found = some decoded ∨
    (c.row = none ∧ decodeToRawData (ascii "FILE IS NOT IN DB") = .ok decoded)

/-- The alias is not taken for a question for help, both messages can be delivered, the
copied reply happens to end with a zero, and the right bytes are found. -/
structure Sound (t : Transport) (json : JsonC) (decoded : Bytes) : Prop where
  notHelp : c.fileAlias.bytes ≠ ascii "help"
  asks : (c.requestFrame json).Deliverable t
  replies : (c.replyFrame json).Deliverable t
  ended : c.fresh = 0
  holds : c.Holds decoded

end Fetch

/-! ## Messages -/

section Messages

variable {t : Transport} {json : JsonC} {object : JsonObject} {boundary : Boundary}
  {fresh : Byte}

/-- A message that is received and parsed has been received whole. -/
theorem of_parsed {got : Received} {rest : Bytes} {parsed : ParseResult}
    (reads : json.ReadsBack object)
    (finished : Reader.run none (receiveFrame t)
      (Sender.wire t ⟨boundary, json.print object⟩ .commSendData) = .done got rest)
    (parses : json.parseEncoded fresh got.buffer = .ok parsed) :
    Frame.Deliverable t ⟨boundary, json.print object⟩ ∧ got.buffer = json.print object := by
  rw [Sender.wire_eq t reads.nulFree] at finished
  have front := prefix_of_run_frame reads.nulFree finished
  have whole : got.buffer = json.print object := by
    by_contra part
    have nothing := reads.front got.buffer front part
    rw [JsonC.parseEncoded, nothing] at parses
    cases parses
  exact ⟨deliverable_of_run_frame reads.nulFree reads.brace (by decide) finished whole, whole⟩

theorem parseEncoded_get (accessors : json.Reads) {path : CString}
    (reads : json.ReadsBack (stringifyCommandGet path)) :
    json.parseEncoded fresh (json.print (stringifyCommandGet path)) =
      .ok (.request (.get path)) :=
  parseEncoded_stringify accessors (show (Message.get path).Exact from trivial) reads

theorem parseEncoded_post (accessors : json.Reads) {data dest : CString} {size : Nat}
    (reads : json.ReadsBack (stringifyCommandPost data dest size)) (small : size < 2 ^ 31) :
    json.parseEncoded fresh (json.print (stringifyCommandPost data dest size)) =
      .ok (.request (.post data dest size)) :=
  parseEncoded_stringify accessors (show (Message.post data dest size).Exact from small) reads

theorem parseEncoded_data (accessors : json.Reads) {data : CString} {size : Nat}
    (reads : json.ReadsBack (stringifyData data size)) :
    json.parseEncoded fresh (json.print (stringifyData data size)) =
      .ok (.data (data.bytes ++ [fresh])) :=
  parseEncoded_stringify accessors (show (Message.data data size).Exact from trivial) reads

/-- The copied reply is a string if the byte behind it is a zero. -/
theorem getHandler_data (accessors : json.Reads) {data : CString} {size : Nat}
    (reads : json.ReadsBack (stringifyData data size)) (decoded : Bytes) :
    getHandler json fresh (json.print (stringifyData data size)) = .ok (some decoded) ↔
      fresh = 0 ∧ decodeToRawData data.bytes = .ok decoded := by
  simp only [getHandler, bind_eq_ok, parseEncoded_data accessors reads, Except.ok.injEq,
    exists_eq_left', terminated_append, pure_eq_ok, Option.some.injEq]
  constructor
  · intro given
    obtain ⟨string, ended, bytes, decodes, rfl⟩ := given
    split_ifs at ended with zero
    cases ended
    exact ⟨zero, decodes⟩
  · intro given
    obtain ⟨zero, decodes⟩ := given
    exact ⟨data.bytes, if_pos zero, decoded, decodes, rfl⟩

end Messages

/-! ## Posted and fetched -/

section Fetched

variable {t : Transport} {json : JsonC} {c : Fetch} {contents decoded : Bytes}

/-- What a post that is answered `File OK` has inserted and written. -/
theorem calls_of_answeredFileOk {session : FsUser} {fileAlias : CString} {calls : List Answered}
    (accessors : json.Reads) (reads : json.ReadsBack (postObject fileAlias contents))
    (digits : encodeRawData contents <:+: json.print (postObject fileAlias contents))
    (posted : AnsweredFileOk t json session fileAlias contents calls) :
    ∃ inserted written, calls.map Answered.event =
      [⟨.askForFileToDb fileAlias session, none⟩, ⟨.insertAliasInDb fileAlias session, inserted⟩,
        ⟨.fileFromRawData (filePath session fileAlias) contents contents.length, written⟩,
        reply (ascii "File OK") 7] := by
  obtain ⟨boundary, closed, got, rest, fresh, parsed, err, result, finished, parses, runs, sent⟩ :=
    posted
  obtain ⟨deliverable, whole⟩ := of_parsed reads finished parses
  -- the digits are part of a message that fits the buffer
  have small : contents.length < 2 ^ 31 := by
    have inside := digits.length_le
    rw [length_encodeRawData] at inside
    have fits := deliverable.fits
    have room : bufferLength t = 2048 := by cases t <;> rfl
    simp only at fits
    omega
  rw [whole, postObject, parseEncoded_post accessors reads small, Except.ok.injEq] at parses
  subst parses
  obtain ⟨inner, ran, -⟩ := runs_map.mp runs
  rcases runs_processPostCmd ran with ⟨row, shape, -⟩ |
    ⟨inserted, ⟨e, fails, -, -⟩ | ⟨block, written, decodes, shape, -⟩⟩
  · have text := List.mem_map_of_mem (f := replyText) sent
    rw [shape] at text
    simp only [List.map_cons, List.map_nil, replyText, reply] at text
    exact absurd text (by decide)
  · rw [encodedString, decode_encode] at fails
    cases fails
  · rw [encodedString, decode_encode, Except.ok.injEq] at decodes
    subst decodes
    exact ⟨inserted, written, shape⟩

/-- If the insert and the write of the post took hold, its row is found and its file has
not been changed, then the bytes posted are there. -/
theorem holds_of_posted {world : World} {beyond : Bytes} {calls : List Answered}
    (shape : ∃ inserted written, calls.map Answered.event =
      [⟨.askForFileToDb c.fileAlias c.session, none⟩,
        ⟨.insertAliasInDb c.fileAlias c.session, inserted⟩,
        ⟨.fileFromRawData (filePath c.session c.fileAlias) contents contents.length, written⟩,
        reply (ascii "File OK") 7])
    (held : ∀ answered ∈ calls, answered.held = true)
    (row : c.row.map CString.bytes = some (aliasRow c.fileAlias c.session).path)
    (unchanged : c.contents (filePath c.session c.fileAlias) =
      (world.afterAll beyond calls).contents (filePath c.session c.fileAlias)) :
    c.Holds contents := by
  obtain ⟨inserted, written, shape⟩ := shape
  have stored : (world.afterAll beyond calls).contents (filePath c.session c.fileAlias) =
      some contents := by
    rcases calls with _ | ⟨first, _ | ⟨second, _ | ⟨third, _ | ⟨fourth, _ | ⟨_, _⟩⟩⟩⟩⟩
    all_goals simp only [List.map_cons, List.map_nil, List.cons.injEq, List.nil_eq, reduceCtorEq,
      and_false, and_true] at shape
    obtain ⟨asks, inserts, writes, replies⟩ := shape
    simp only [List.mem_cons, List.not_mem_nil, or_false, forall_eq_or_imp, forall_eq] at held
    simp only [World.afterAll, List.foldl_cons, List.foldl_nil, World.step, held, if_true, asks,
      inserts, writes, replies, reply, World.after, World.contents, List.lookup_cons_self,
      List.take_left]
  left
  obtain ⟨path, found, bytes⟩ := Option.map_eq_some_iff.mp row
  rw [Fetch.found, found, Option.bind_some, bytes, ← stored, ← unchanged]
  rfl

theorem Fetch.wire_asks (sender : Sender) (reads : json.ReadsBack (stringifyCommandGet c.fileAlias)) :
    Sender.wire t (c.requestFrame json) sender =
      Sender.wire t (c.requestFrame json) .commSendData := by
  rw [Sender.wire_eq t reads.nulFree, Sender.wire_eq t reads.nulFree]

theorem framesWire_one (frame : Frame) :
    framesWire t [frame] = Sender.wire t frame .commSendData := List.append_nil _

/-- The reply that the answers lead to. -/
theorem Fetch.getHandler_reply (accessors : json.Reads) (reads : json.ReadsBack c.replyObject) :
    getHandler json c.fresh (json.print c.replyObject) = .ok (some decoded) ↔
      c.fresh = 0 ∧ (c.found = some decoded ∨
        (c.found = none ∧ decodeToRawData (ascii "FILE IS NOT IN DB") = .ok decoded)) := by
  unfold Fetch.replyObject at reads ⊢
  cases found : c.found with
  | some contents =>
      rw [found] at reads
      rw [getHandler_data accessors reads, encodedString, decode_encode]
      simp
  | none =>
      rw [found] at reads
      rw [getHandler_data accessors reads]
      simp only [reduceCtorEq, false_or, true_and]
      rfl

/-- What can be decoded at the end shows what the way there was. -/
theorem Fetch.sound_of_yields (accessors : json.Reads)
    (getReads : json.ReadsBack (stringifyCommandGet c.fileAlias))
    (replyReads : json.ReadsBack c.replyObject) (yields : c.Yields t json decoded) :
    c.Sound t json decoded := by
  obtain ⟨sends, got, rest, fresh, parsed, err, trace, worker, err', got', rest', asked, parses,
    runs, answered, replied, decodes⟩ := yields
  have notHelp : c.fileAlias.bytes ≠ ascii "help" := by
    intro help
    simp [cmdGet, asksForHelp, help] at sends
  rw [wire_asks .commSendDataAsync getReads] at asked
  obtain ⟨deliverable, whole⟩ := of_parsed getReads asked parses
  rw [whole, parseEncoded_get accessors getReads, Except.ok.injEq] at parses
  subst parses
  -- whichever the answers, one reply goes out and it is the one they lead to
  have replies : replyFrames json c.replyBoundary trace = [c.replyFrame json] ∧
      (c.found = none → c.row = none) := by
    obtain ⟨inner, ran, result⟩ := runs_map.mp runs
    rcases runs_processGetCmd ran with ⟨rfl, -⟩ | ⟨row, ⟨rfl, rfl⟩ | ⟨contents, rfl, -⟩⟩
    · have row : none = c.row := answered _ List.mem_cons_self
      have nothing : c.found = none := by rw [Fetch.found, ← row, Option.bind_none]
      rw [Fetch.replyFrame, Fetch.replyObject, nothing]
      exact ⟨rfl, fun _ => row.symm⟩
    · cases result
    · have asks : some row = c.row := answered _ List.mem_cons_self
      have reads : some contents = c.contents _ :=
        answered _ (List.mem_cons_of_mem _ List.mem_cons_self)
      have something : c.found = some contents := by
        rw [Fetch.found, ← asks, Option.bind_some, ← reads]
      rw [Fetch.replyFrame, Fetch.replyObject, something]
      refine ⟨?_, nofun⟩
      have digits : blockString (encodeRawData contents) = encodedString contents :=
        blockString_of_nulFree (nulFree_encodeRawData contents)
      simp [replyFrames, List.filterMap_cons, IpcFtp.replyObject, reply, digits]
  rw [replies.1, framesWire_one] at replied
  obtain ⟨parsed', parses', -⟩ := bind_eq_ok.mp decodes
  obtain ⟨deliverable', whole'⟩ := of_parsed replyReads replied parses'
  rw [whole', getHandler_reply accessors replyReads] at decodes
  obtain ⟨ended, found | ⟨nothing, text⟩⟩ := decodes
  · exact ⟨notHelp, deliverable, deliverable', ended, .inl found⟩
  · exact ⟨notHelp, deliverable, deliverable', ended, .inr ⟨replies.2 nothing, text⟩⟩

theorem Fetch.yields_of_sound (accessors : json.Reads)
    (getReads : json.ReadsBack (stringifyCommandGet c.fileAlias))
    (replyReads : json.ReadsBack c.replyObject) (sound : c.Sound t json decoded) :
    c.Yields t json decoded := by
  have sends : cmdGet true true [c.fileAlias] = .sends (stringifyCommandGet c.fileAlias) := by
    simp [cmdGet, asksForHelp, sound.notHelp]
  have asked := sound.asks.run_reader .commSendDataAsync .commReceiveData none []
  have replied := sound.replies.run_reader .commSendData .dataListener none []
  rw [List.append_nil] at asked replied
  have decodes : getHandler json c.fresh (json.print c.replyObject) = .ok (some decoded) := by
    rw [getHandler_reply accessors replyReads]
    refine ⟨sound.ended, sound.holds.imp_right fun nothing => ⟨?_, nothing.2⟩⟩
    rw [Fetch.found, nothing.1, Option.bind_none]
  have parses : json.parseEncoded 0 (json.print (stringifyCommandGet c.fileAlias)) =
      .ok (.request (.get c.fileAlias)) := parseEncoded_get accessors getReads
  rcases sound.holds with found | ⟨row, -⟩
  · obtain ⟨row, asks, reads⟩ := Option.bind_eq_some_iff.mp found
    refine ⟨sends, _, [], 0, _, ⟨0, []⟩, [⟨.askForFileToDb c.fileAlias c.session, some row⟩,
      ⟨.rawDataFromFile (ascii "." ++ row.bytes), some decoded⟩,
      reply (encodeRawData decoded) decoded.length], ⟨some c.session, c.closed⟩,
      ⟨errOk, ascii "OK"⟩, receivedOk (json.print c.replyObject), [], asked, parses,
      .call (.call (.call (.ret _))), ?_, ?_, decodes⟩
    · simp only [List.mem_cons, List.not_mem_nil, or_false, forall_eq_or_imp, forall_eq]
      exact ⟨asks.symm, reads.symm, trivial⟩
    · have digits : blockString (encodeRawData decoded) = encodedString decoded :=
        blockString_of_nulFree (nulFree_encodeRawData decoded)
      have frames : replyFrames json c.replyBoundary
          [⟨.askForFileToDb c.fileAlias c.session, some row⟩,
            ⟨.rawDataFromFile (ascii "." ++ row.bytes), some decoded⟩,
            reply (encodeRawData decoded) decoded.length] = [c.replyFrame json] := by
        simp [replyFrames, Fetch.replyFrame, Fetch.replyObject, found, List.filterMap_cons,
          IpcFtp.replyObject, reply, digits]
      rw [frames, framesWire_one]
      exact replied
  · refine ⟨sends, _, [], 0, _, ⟨0, []⟩, [⟨.askForFileToDb c.fileAlias c.session, none⟩,
      reply (ascii "FILE IS NOT IN DB") 17], ⟨some c.session, c.closed⟩, _,
      receivedOk (json.print c.replyObject), [], asked, parses, .call (.call (.ret _)), ?_, ?_,
      decodes⟩
    · simp only [List.mem_cons, List.not_mem_nil, or_false, forall_eq_or_imp, forall_eq]
      exact ⟨row.symm, trivial⟩
    · have nothing : c.found = none := by rw [Fetch.found, row, Option.bind_none]
      have frames : replyFrames json c.replyBoundary
          [⟨.askForFileToDb c.fileAlias c.session, none⟩, reply (ascii "FILE IS NOT IN DB") 17] =
            [c.replyFrame json] := by
        simp [replyFrames, Fetch.replyFrame, Fetch.replyObject, nothing, List.filterMap_cons,
          IpcFtp.replyObject, reply]
      rw [frames, framesWire_one]
      exact replied

end Fetched

/-- Of a file whose post was answered `File OK`, a `get` of its alias decodes the bytes
posted exactly if its circumstances are sound; and the right bytes are found if the
insert and the write of the post took hold, the select finds its row, and its file has
not been changed since. -/
theorem get_gives_back_posted {t : Transport} {json : JsonC} (accessors : json.Reads)
    {c : Fetch} {contents : Bytes} {world : World} {beyond : Bytes} {calls : List Answered}
    (postReads : json.ReadsBack (postObject c.fileAlias contents))
    (digits : encodeRawData contents <:+: json.print (postObject c.fileAlias contents))
    (getReads : json.ReadsBack (stringifyCommandGet c.fileAlias))
    (replyReads : json.ReadsBack c.replyObject)
    (posted : AnsweredFileOk t json c.session c.fileAlias contents calls) :
    (c.Yields t json contents ↔ c.Sound t json contents) ∧
      ((∀ answered ∈ calls, answered.held = true) →
        c.row.map CString.bytes = some (aliasRow c.fileAlias c.session).path →
        c.contents (filePath c.session c.fileAlias) =
          (world.afterAll beyond calls).contents (filePath c.session c.fileAlias) →
        c.Holds contents) :=
  ⟨⟨Fetch.sound_of_yields accessors getReads replyReads,
    Fetch.yields_of_sound accessors getReads replyReads⟩,
    holds_of_posted (calls_of_answeredFileOk accessors postReads digits posted)⟩

/-! ## A file of one byte -/

def ann : FsUser := ⟨⟨ascii "ann", nulFree_ann⟩, ⟨ascii "/fs/ann", nulFree_annHome⟩, 0, 3⟩

def aliasX : CString := ⟨ascii "x", nulFree_x⟩

/-- `get x` by `ann`, who has posted the byte 65 as `x`. -/
def fetchX (fresh : Byte) : Fetch where
  session := ann
  closed := false
  fileAlias := aliasX
  requestBoundary := genBoundary 7
  replyBoundary := genBoundary 8
  row := some ⟨ascii "/fs/ann/x", by decide⟩
  contents := fun path => if path = ascii "./fs/ann/x" then some [65] else none
  fresh := fresh

/-- The calls of the post. -/
def postXCalls : List Answered :=
  [⟨⟨.askForFileToDb aliasX ann, none⟩, true⟩, ⟨⟨.insertAliasInDb aliasX ann, 0⟩, true⟩,
    ⟨⟨.fileFromRawData (filePath ann aliasX) [65] 1, 0⟩, true⟩,
    ⟨reply (ascii "File OK") 7, true⟩]

def jsonX : JsonC :=
  plainJson [postObject aliasX [65], stringifyCommandGet aliasX, stringifyData (encodedString [65]) 1]

theorem reads_jsonX : jsonX.Reads := reads_plainJson _

theorem readsBack_postX : jsonX.ReadsBack (postObject aliasX [65]) :=
  readsBack_plainJson rfl (by decide +kernel) (by decide +kernel)

theorem readsBack_getX : jsonX.ReadsBack (stringifyCommandGet aliasX) :=
  readsBack_plainJson rfl (by decide +kernel) (by decide +kernel)

theorem readsBack_dataX : jsonX.ReadsBack (stringifyData (encodedString [65]) 1) :=
  readsBack_plainJson rfl (by decide +kernel) (by decide +kernel)

theorem answeredFileOk_postX : AnsweredFileOk .fifo jsonX ann aliasX [65] postXCalls := by
  have deliverable : Frame.Deliverable .fifo ⟨genBoundary 6, jsonX.print (postObject aliasX [65])⟩ :=
    ⟨by decide, by decide, by decide, by decide⟩
  have finished := deliverable.run_reader .commSendData .commReceiveData none []
  rw [List.append_nil] at finished
  have parses : jsonX.parseEncoded 0 (jsonX.print (postObject aliasX [65])) = _ :=
    parseEncoded_post reads_jsonX readsBack_postX (by decide)
  exact ⟨_, false, _, _, 0, _, ⟨0, []⟩, _, finished, parses, .call (.call (.call (.call (.ret _)))),
    by simp [postXCalls]⟩

/-- With a zero behind the copied reply `get x` gives the byte back. -/
theorem get_gives_back_x :
    (fetchX 0).Yields .fifo jsonX [65] ∧ (fetchX 0).Holds [65] := by
  have sound := @get_gives_back_posted .fifo jsonX reads_jsonX (fetchX 0) [65] .empty [] _
    readsBack_postX (by decide +kernel) readsBack_getX readsBack_dataX answeredFileOk_postX
  have held := sound.2 (by decide) (by decide) (by decide)
  exact ⟨sound.1.mpr ⟨by decide, ⟨by decide, by decide, by decide, by decide⟩,
    ⟨by decide, by decide, by decide, by decide⟩, rfl, held⟩, held⟩

/-- With a digit behind it the same `get` does not. -/
theorem get_x_reads_on :
    AnsweredFileOk .fifo jsonX ann aliasX [65] postXCalls ∧ (fetchX (chr '1')).Holds [65] ∧
      ¬ (fetchX (chr '1')).Yields .fifo jsonX [65] := by
  refine ⟨answeredFileOk_postX, .inl rfl, fun yields => ?_⟩
  have sound := Fetch.sound_of_yields (c := fetchX (chr '1')) reads_jsonX readsBack_getX
    readsBack_dataX yields
  exact absurd sound.ended (by decide)

end IpcFtp
