import IpcFtp.Communication.Connection
import IpcFtp.Lib.Contract
import IpcFtp.Lib.Processes

/-!
# The handshake of one client and one server

`connection_open` and `comm_accept` on the same FIFOs, their calls in any order.  Each makes
the calls of a script (`openScript`, `acceptScript`) as long as every call is answered as the
script has it, and the FIFOs hold what the numbers of calls say (`Stage.Shows`); so every call
is answered so (`Along.call`).  The two never wait for each other at once
(`Stage.InOrder.moves`).
-/

namespace IpcFtp

open Lib Program

/-! ## Both programs -/

/-- The client's address was made from its url, and both sides know the name of the server. -/
structure Introduced (url : CString) (serverHost : Bytes) (client server : Connection) : Prop where
  parses : (addressFromUrl .fifo url.bytes .new).1 = addressOk
  client_addr : client.clientAddr = some (addressFromUrl .fifo url.bytes .new).2
  server_addr : ∃ address, client.serverAddr = some address ∧ address.valid = true ∧
    address.host = some serverHost
  own_addr : ∃ address, server.serverAddr = some address ∧ address.host = some serverHost
  connection_file : server.connectionFile = some (connectionPath serverHost)

/-- The host of a url. -/
def urlHost (url : CString) : Bytes := (addressFromUrl .fifo url.bytes .new).2.host.getD []

theorem address_of_parses {url : Bytes} (parses : (addressFromUrl .fifo url .new).1 = addressOk) :
    (addressFromUrl .fifo url .new).2.url = url ∧
      (addressFromUrl .fifo url .new).2.valid = true ∧
        ∃ host, (addressFromUrl .fifo url .new).2.host = some host := by
  simp only [addressFromUrl, addressUpToHost] at parses ⊢
  split_ifs at parses ⊢ with scheme
  · cases parses
  · split at parses
    · cases parses
    · split_ifs at parses ⊢ with token
      · cases parses
      · exact ⟨rfl, rfl, _, rfl⟩

/-- The calls of `connection_open`. -/
def openScript (connectionFile responseFifo requestFifo word : Bytes) :
    List (Event (FifoCall Bytes Byte)) :=
  [⟨.mkfifo responseFifo, true⟩, ⟨.access connectionFile, true⟩] ++
    ((script connectionFile .writing word ++ [closing connectionFile .writing]) ++
      (script responseFifo .reading word ++ script requestFifo .writing word))

/-- The calls of `comm_accept`. -/
def acceptScript (connectionFile responseFifo requestFifo word : Bytes) :
    List (Event (FifoCall Bytes Byte)) :=
  (script connectionFile .reading word ++ [closing connectionFile .reading]) ++
    ([⟨.mkfifo requestFifo, true⟩] ++
      (script responseFifo .writing word ++ script requestFifo .reading word))

theorem openScript_eq {connectionFile responseFifo requestFifo word : Bytes} :
    openScript connectionFile responseFifo requestFifo word =
      ⟨.mkfifo responseFifo, true⟩ :: ⟨.access connectionFile, true⟩ ::
        ([⟨.openEnd connectionFile .writing, some ⟨connectionFile, .writing, 0⟩⟩,
            ⟨.await ⟨connectionFile, .writing, 0⟩, ()⟩] ++
          (word.map (transfer connectionFile · .writing) ++
            (closing connectionFile .writing ::
              ([⟨.openEnd responseFifo .reading, some ⟨responseFifo, .reading, 0⟩⟩,
                  ⟨.await ⟨responseFifo, .reading, 0⟩, ()⟩] ++
                (word.map (transfer responseFifo · .reading) ++
                  ([⟨.openEnd requestFifo .writing, some ⟨requestFifo, .writing, 0⟩⟩,
                      ⟨.await ⟨requestFifo, .writing, 0⟩, ()⟩] ++
                    (word.map (transfer requestFifo · .writing) ++ []))))))) := by
  simp [openScript, script]

theorem acceptScript_eq {connectionFile responseFifo requestFifo word : Bytes} :
    acceptScript connectionFile responseFifo requestFifo word =
      [⟨.openEnd connectionFile .reading, some ⟨connectionFile, .reading, 0⟩⟩,
          ⟨.await ⟨connectionFile, .reading, 0⟩, ()⟩] ++
        (word.map (transfer connectionFile · .reading) ++
          (closing connectionFile .reading :: ⟨.mkfifo requestFifo, true⟩ ::
            ([⟨.openEnd responseFifo .writing, some ⟨responseFifo, .writing, 0⟩⟩,
                ⟨.await ⟨responseFifo, .writing, 0⟩, ()⟩] ++
              (word.map (transfer responseFifo · .writing) ++
                ([⟨.openEnd requestFifo .reading, some ⟨requestFifo, .reading, 0⟩⟩,
                    ⟨.await ⟨requestFifo, .reading, 0⟩, ()⟩] ++
                  (word.map (transfer requestFifo · .reading) ++ [])))))) := by
  simp [acceptScript, script]

section Programs

variable {url : CString} {serverHost : Bytes} {client server : Connection}

theorem runs_connectionOpen (introduced : Introduced url serverHost client server)
    (fresh : Nat → Byte) :
    Runs (connectionOpen fresh client)
      (openScript (connectionPath serverHost) (fifoPath serverHost (urlHost url))
        (fifoPath (urlHost url) serverHost) (url.bytes ++ [0]))
      (.ok (connectionOk, { client with
        connectionFile := some (connectionPath serverHost)
        state := .opened
        reqFd := some ⟨fifoPath (urlHost url) serverHost, .writing, 0⟩
        resFd := some ⟨fifoPath serverHost (urlHost url), .reading, 0⟩
        sense := .clientServer })) := by
  obtain ⟨address, known, valid, hosted⟩ := introduced.server_addr
  obtain ⟨sameUrl, clientValid, host, clientHost⟩ := address_of_parses introduced.parses
  have named : urlHost url = host := by rw [urlHost, clientHost, Option.getD_some]
  have acked : cstr ([] ++ (url.bytes ++ [0])) = url.bytes := by
    rw [List.nil_append, cstr_append_of_nulFree url.nulFree]
    exact List.append_nil _
  unfold connectionOpen
  simp only [introduced.client_addr, deref, ret_bind, clientValid, known, valid, clientHost, hosted,
    sameUrl, named]
  rw [openScript_eq]
  refine .call (.call (runs_openFifo.bind (.bind (runs_writeOneByOne url.nulFree le_rfl) (.call ?_))))
  refine runs_openFifo.bind (.bind (runs_readAck url.nulFree fresh []) ?_)
  rw [if_neg (not_not_intro acked)]
  refine runs_openFifo.bind (.bind (runs_writeOneByOne url.nulFree (Nat.le_succ _)) ?_)
  exact .ret _

theorem runs_commAccept (introduced : Introduced url serverHost client server)
    (short : url.bytes.length < bufferLength .fifo) :
    Runs (commAccept server)
      (acceptScript (connectionPath serverHost) (fifoPath serverHost (urlHost url))
        (fifoPath (urlHost url) serverHost) (url.bytes ++ [0]))
      (.ok (⟨noCommError, ascii "Accept Sucessful"⟩, { server with
        clientAddr := some (addressFromUrl .fifo url.bytes .new).2
        state := .opened
        reqFd := some ⟨fifoPath serverHost (urlHost url), .writing, 0⟩
        resFd := some ⟨fifoPath (urlHost url) serverHost, .reading, 0⟩ })) := by
  obtain ⟨address, known, hosted⟩ := introduced.own_addr
  obtain ⟨-, -, host, clientHost⟩ := address_of_parses introduced.parses
  have named : urlHost url = host := by rw [urlHost, clientHost, Option.getD_some]
  unfold commAccept
  rw [introduced.connection_file, acceptScript_eq]
  refine runs_openFifo.bind (.bind (runs_readUrl url.nulFree short []) (.call ?_))
  rw [List.nil_append]
  change Runs (commAnswer server url.bytes) _ _
  unfold commAnswer
  simp only [introduced.parses, clientHost, deref, ret_bind, known, hosted, named]
  refine .call (runs_openFifo.bind (.bind (runs_writeOneByOne url.nulFree (Nat.le_add_right _ 2)) ?_))
  refine runs_openFifo.bind (.bind (runs_readBack url.nulFree (Nat.le_succ _) []) ?_)
  rw [List.nil_append, if_neg (not_not_intro rfl)]
  dsimp only
  rw [known, introduced.connection_file]
  exact .ret _

end Programs

/-! ## How far both are -/

/-- The three paths are different. -/
structure PathsApart (connectionFile responseFifo requestFifo : Bytes) : Prop where
  response : responseFifo ≠ connectionFile
  request : requestFifo ≠ connectionFile
  each : requestFifo ≠ responseFifo

/-- The calls both have made: the client its first two, then those on the connection, the
response and the request FIFO; the server those on the connection FIFO, the creation of the
request FIFO, and those on the response and the request FIFO. -/
structure Stage : Type where
  made : Nat
  sent : Nat
  acked : Nat
  confirmed : Nat
  received : Nat
  created : Nat
  answered : Nat
  checked : Nat

namespace Stage

/-- All calls of the client. -/
def client (stage : Stage) : Nat := stage.made + (stage.sent + (stage.acked + stage.confirmed))

/-- All calls of the server. -/
def server (stage : Stage) : Nat :=
  stage.received + (stage.created + (stage.answered + stage.checked))

def start : Stage := ⟨0, 0, 0, 0, 0, 0, 0, 0⟩

/-- Each makes its calls in order, and waits for the other, for a word of `n` bytes. -/
structure InOrder (n : Nat) (stage : Stage) : Prop where
  connection : Paired n stage.sent stage.received
  response : Paired n stage.answered stage.acked
  request : Paired n stage.confirmed stage.checked
  made_le : stage.made ≤ 2
  sent_le : stage.sent ≤ n + 3
  acked_le : stage.acked ≤ n + 2
  confirmed_le : stage.confirmed ≤ n + 2
  made : 0 < stage.sent → stage.made = 2
  sent : 0 < stage.acked → stage.sent = n + 3
  acked : 0 < stage.confirmed → stage.acked = n + 2
  received_le : stage.received ≤ n + 3
  created_le : stage.created ≤ 1
  answered_le : stage.answered ≤ n + 2
  checked_le : stage.checked ≤ n + 2
  received : 0 < stage.created → stage.received = n + 3
  created : 0 < stage.answered → stage.created = 1
  answered : 0 < stage.checked → stage.answered = n + 2

/-- The client waits for the server. -/
def ClientBlocks (capacity n : Nat) (stage : Stage) : Prop :=
  (stage.made = 2 ∧ stage.sent < n + 3 ∧ WriterBlocks capacity n stage.sent stage.received) ∨
    (stage.sent = n + 3 ∧ stage.acked < n + 2 ∧ ReaderBlocks n stage.answered stage.acked) ∨
      (stage.acked = n + 2 ∧ WriterBlocks capacity n stage.confirmed stage.checked)

/-- The server waits for the client. -/
def ServerBlocks (capacity n : Nat) (stage : Stage) : Prop :=
  (stage.received < n + 3 ∧ ReaderBlocks n stage.sent stage.received) ∨
    (stage.created = 1 ∧ stage.answered < n + 2 ∧
      WriterBlocks capacity n stage.answered stage.acked) ∨
      (stage.answered = n + 2 ∧ ReaderBlocks n stage.confirmed stage.checked)

variable {capacity n : Nat} {stage : Stage}

/-- They do not wait for each other, and neither waits for one that has ended. -/
theorem InOrder.moves (order : stage.InOrder n) (room : 0 < capacity) (word : 0 < n)
    (client : stage.confirmed = n + 2 ∨ stage.ClientBlocks capacity n)
    (server : stage.checked = n + 2 ∨ stage.ServerBlocks capacity n) :
    stage.confirmed = n + 2 ∧ stage.checked = n + 2 := by
  rcases server with checked | ⟨-, reads⟩ | ⟨created, -, answers⟩ | ⟨answered, checks⟩
  · have answered := order.answered (by omega)
    have created := order.created (by omega)
    have received := order.received (by omega)
    rcases client with confirmed | ⟨-, -, sends⟩ | ⟨-, -, acks⟩ | ⟨-, confirms⟩
    · exact ⟨confirmed, checked⟩
    · exact absurd sends (not_writerBlocks_of_read room (by omega))
    · exact absurd acks (not_readerBlocks_of_written (by omega))
    · exact absurd confirms (not_writerBlocks_of_read room (by omega))
  · -- the server reads the connection FIFO
    have waits : stage.sent < n + 2 := by
      by_contra written
      exact not_readerBlocks_of_written (Nat.le_of_not_lt written) reads
    rcases client with confirmed | ⟨-, -, sends⟩ | ⟨sent, -, -⟩ | ⟨acked, -⟩
    · have := order.sent (by have := order.acked (by omega); omega)
      omega
    · exact absurd sends (not_writerBlocks_of_readerBlocks room reads)
    · omega
    · have := order.sent (by omega)
      omega
  · -- it writes to the response FIFO
    have received := order.received (by omega)
    have waits : stage.acked < n + 2 := by
      by_contra read
      exact not_writerBlocks_of_read room (Nat.le_of_not_lt read) answers
    rcases client with confirmed | ⟨-, -, sends⟩ | ⟨-, -, acks⟩ | ⟨acked, -⟩
    · have := order.acked (by omega)
      omega
    · exact absurd sends (not_writerBlocks_of_read room (by omega))
    · exact absurd answers (not_writerBlocks_of_readerBlocks room acks)
    · omega
  · -- it reads the request FIFO
    have created := order.created (by omega)
    have received := order.received (by omega)
    rcases client with confirmed | ⟨-, -, sends⟩ | ⟨-, -, acks⟩ | ⟨-, confirms⟩
    · exact absurd checks (not_readerBlocks_of_written (by omega))
    · exact absurd sends (not_writerBlocks_of_read room (by omega))
    · exact absurd acks (not_readerBlocks_of_written (by omega))
    · exact absurd confirms (not_writerBlocks_of_readerBlocks room checks)

/-! ## One call -/

/-- What the FIFOs hold. -/
structure Shows (connectionFile responseFifo requestFifo word : Bytes) (stage : Stage)
    (s : Fifos Bytes Byte) : Prop where
  connection : s connectionFile = some (.channel word stage.sent stage.received)
  response : s responseFifo =
    if stage.made = 0 then none else some (.channel word stage.answered stage.acked)
  request : s requestFifo =
    if stage.created = 0 then none else some (.channel word stage.confirmed stage.checked)

section Calls

variable {connectionFile responseFifo requestFifo word : Bytes} {s : Fifos Bytes Byte}
  {event : Event (FifoCall Bytes Byte)}

/-- The call behind `stage` is answered as it is to be, and leads to a stage of the counts. -/
def Advances (connectionFile responseFifo requestFifo word : Bytes) (capacity : Nat)
    (s : Fifos Bytes Byte) (event : Event (FifoCall Bytes Byte)) (client server : Nat) : Prop :=
  ∃ (stage : Stage) (s' : Fifos Bytes Byte), s.answer capacity event.call = some (event.answer, s') ∧
    stage.InOrder word.length ∧ stage.Shows connectionFile responseFifo requestFifo word s' ∧
      stage.client = client ∧ stage.server = server

variable (shows : stage.Shows connectionFile responseFifo requestFifo word s)
  (order : stage.InOrder word.length) (distinct : PathsApart connectionFile responseFifo requestFifo)

include order in
theorem InOrder.quiet (early : stage.made < 2) :
    stage.sent = 0 ∧ stage.acked = 0 ∧ stage.confirmed = 0 ∧ stage.created = 0 ∧
      stage.answered = 0 ∧ stage.checked = 0 := by
  have made := order.made
  have sent := order.sent
  have acked := order.acked
  have received := order.received
  have created := order.created
  have answered := order.answered
  have met := order.connection.reader_met
  omega

include shows order distinct in
/-- The first two calls of the client. -/
theorem Shows.makes (early : stage.made < 2)
    (next : [(⟨.mkfifo responseFifo, true⟩ : Event (FifoCall Bytes Byte)),
      ⟨.access connectionFile, true⟩][stage.made]? = some event) :
    Advances connectionFile responseFifo requestFifo word capacity s event (stage.client + 1)
      stage.server := by
  obtain ⟨sent, acked, confirmed, created, answered, checked⟩ := order.quiet early
  have inOrder : ({ stage with made := stage.made + 1 } : Stage).InOrder word.length :=
    { order with
      made_le := early
      made := fun some => absurd sent (Nat.ne_of_gt some) }
  have client : ({ stage with made := stage.made + 1 } : Stage).client = stage.client + 1 := by
    simp only [Stage.client]
    omega
  obtain first | second : stage.made = 0 ∨ stage.made = 1 := by omega
  · rw [first] at next
    cases next
    have absent : s responseFifo = none := by rw [shows.response, if_pos first]
    refine ⟨_, s.replace responseFifo .empty, ?_, inOrder, ⟨?_, ?_, ?_⟩, client, rfl⟩
    · simp only [Fifos.answer, absent]
    · exact (Function.update_of_ne distinct.response.symm ..).trans shows.connection
    · apply (Function.update_self ..).trans
      rw [if_neg (Nat.succ_ne_zero _), answered, acked, channel_zero]
    · exact (Function.update_of_ne distinct.each ..).trans shows.request
  · rw [second] at next
    cases next
    refine ⟨_, s, ?_, inOrder, ⟨shows.connection, ?_, shows.request⟩, client, rfl⟩
    · simp only [Fifos.answer, shows.connection, Option.isSome_some]
    · rw [shows.response, if_neg (by omega), if_neg (Nat.succ_ne_zero _)]

include shows order distinct in
/-- The server creates the request FIFO. -/
theorem Shows.creates (received : stage.received = word.length + 3) (none : stage.created = 0) :
    Advances connectionFile responseFifo requestFifo word capacity s
      ⟨.mkfifo requestFifo, true⟩ stage.client (stage.server + 1) := by
  have absent : s requestFifo = .none := by rw [shows.request, if_pos none]
  have acked := order.acked
  have created := order.created
  have answered := order.answered
  have met := order.response.reader_met
  refine ⟨{ stage with created := stage.created + 1 }, s.replace requestFifo .empty, ?_, ?_,
    ⟨?_, ?_, ?_⟩, rfl, ?_⟩
  · simp only [Fifos.answer, absent]
  · exact { order with
      created_le := by
        dsimp only
        omega
      received := fun _ => received
      created := fun some => absurd (created some) (by omega) }
  · exact (Function.update_of_ne distinct.request.symm ..).trans shows.connection
  · exact (Function.update_of_ne distinct.each.symm ..).trans shows.response
  · apply (Function.update_self ..).trans
    have confirmed : stage.confirmed = 0 := by omega
    have checked : stage.checked = 0 := by omega
    rw [if_neg (Nat.succ_ne_zero _), confirmed, checked, channel_zero]
  · simp only [Stage.server]
    omega

include shows order distinct in
/-- On the connection FIFO. -/
theorem Shows.sends (made : stage.made = 2) (during : stage.sent < word.length + 3)
    (none : stage.acked = 0)
    (next : (script connectionFile .writing word ++ [closing connectionFile .writing])[stage.sent]? =
      some event) :
    (s.answer capacity event.call = .none ∧
        WriterBlocks capacity word.length stage.sent stage.received) ∨
      Advances connectionFile responseFifo requestFifo word capacity s event (stage.client + 1)
        stage.server := by
  have answered : s.answer capacity event.call = _ :=
    answer_writing shows.connection order.connection next
  by_cases blocks : WriterBlocks capacity word.length stage.sent stage.received
  · rw [if_pos blocks] at answered
    exact .inl ⟨answered, blocks⟩
  · rw [if_neg blocks] at answered
    refine .inr ⟨{ stage with sent := stage.sent + 1 }, _, answered, ?_, ⟨?_, ?_, ?_⟩, ?_, rfl⟩
    · exact { order with
        connection := order.connection.write blocks
        sent_le := during
        made := fun _ => made
        sent := fun some => absurd none (Nat.ne_of_gt some) }
    · exact Function.update_self ..
    · exact (Function.update_of_ne distinct.response ..).trans shows.response
    · exact (Function.update_of_ne distinct.request ..).trans shows.request
    · simp only [Stage.client]
      omega

include shows order distinct in
theorem Shows.receives (during : stage.received < word.length + 3) (none : stage.created = 0)
    (next : (script connectionFile .reading word ++
      [closing connectionFile .reading])[stage.received]? = some event) :
    (s.answer capacity event.call = .none ∧ ReaderBlocks word.length stage.sent stage.received) ∨
      Advances connectionFile responseFifo requestFifo word capacity s event stage.client
        (stage.server + 1) := by
  have answered : s.answer capacity event.call = _ :=
    answer_reading shows.connection order.connection next
  by_cases blocks : ReaderBlocks word.length stage.sent stage.received
  · rw [if_pos blocks] at answered
    exact .inl ⟨answered, blocks⟩
  · rw [if_neg blocks] at answered
    refine .inr ⟨{ stage with received := stage.received + 1 }, _, answered, ?_, ⟨?_, ?_, ?_⟩, rfl, ?_⟩
    · exact { order with
        connection := order.connection.read blocks
        received_le := during
        received := fun some => absurd none (Nat.ne_of_gt some) }
    · exact Function.update_self ..
    · exact (Function.update_of_ne distinct.response ..).trans shows.response
    · exact (Function.update_of_ne distinct.request ..).trans shows.request
    · simp only [Stage.server]
      omega

include shows order distinct in
/-- On the response FIFO. -/
theorem Shows.acks (sent : stage.sent = word.length + 3) (during : stage.acked < word.length + 2)
    (none : stage.confirmed = 0)
    (next : (script responseFifo .reading word)[stage.acked]? = some event) :
    (s.answer capacity event.call = .none ∧ ReaderBlocks word.length stage.answered stage.acked) ∨
      Advances connectionFile responseFifo requestFifo word capacity s event (stage.client + 1)
        stage.server := by
  have made := order.made (by omega)
  have there := shows.response
  rw [if_neg (by omega)] at there
  have answered : s.answer capacity event.call = _ :=
    answer_reading there order.response (getElem?_append_of_some next)
  by_cases blocks : ReaderBlocks word.length stage.answered stage.acked
  · rw [if_pos blocks] at answered
    exact .inl ⟨answered, blocks⟩
  · rw [if_neg blocks] at answered
    refine .inr ⟨{ stage with acked := stage.acked + 1 }, _, answered, ?_, ⟨?_, ?_, ?_⟩, ?_, rfl⟩
    · exact { order with
        response := order.response.read blocks
        acked_le := during
        sent := fun _ => sent
        acked := fun some => absurd none (Nat.ne_of_gt some) }
    · exact (Function.update_of_ne distinct.response.symm ..).trans shows.connection
    · apply (Function.update_self ..).trans
      dsimp only
      rw [if_neg (by omega)]
    · exact (Function.update_of_ne distinct.each ..).trans shows.request
    · simp only [Stage.client]
      omega

include shows order distinct in
theorem Shows.answers (created : stage.created = 1) (during : stage.answered < word.length + 2)
    (none : stage.checked = 0)
    (next : (script responseFifo .writing word)[stage.answered]? = some event) :
    (s.answer capacity event.call = .none ∧
        WriterBlocks capacity word.length stage.answered stage.acked) ∨
      Advances connectionFile responseFifo requestFifo word capacity s event stage.client
        (stage.server + 1) := by
  have received := order.received (by omega)
  have made := order.made (order.connection.reader_met (by omega))
  have there := shows.response
  rw [if_neg (by omega)] at there
  have answered : s.answer capacity event.call = _ :=
    answer_writing there order.response (getElem?_append_of_some next)
  by_cases blocks : WriterBlocks capacity word.length stage.answered stage.acked
  · rw [if_pos blocks] at answered
    exact .inl ⟨answered, blocks⟩
  · rw [if_neg blocks] at answered
    refine .inr ⟨{ stage with answered := stage.answered + 1 }, _, answered, ?_, ⟨?_, ?_, ?_⟩, rfl, ?_⟩
    · exact { order with
        response := order.response.write blocks
        answered_le := during
        created := fun _ => created
        answered := fun some => absurd none (Nat.ne_of_gt some) }
    · exact (Function.update_of_ne distinct.response.symm ..).trans shows.connection
    · apply (Function.update_self ..).trans
      dsimp only
      rw [if_neg (by omega)]
    · exact (Function.update_of_ne distinct.each ..).trans shows.request
    · simp only [Stage.server]
      omega

include shows order distinct in
/-- On the request FIFO. -/
theorem Shows.confirms (acked : stage.acked = word.length + 2)
    (next : (script requestFifo .writing word)[stage.confirmed]? = some event) :
    (s.answer capacity event.call = .none ∧
        WriterBlocks capacity word.length stage.confirmed stage.checked) ∨
      Advances connectionFile responseFifo requestFifo word capacity s event (stage.client + 1)
        stage.server := by
  have during := (List.getElem?_eq_some_iff.mp next).1
  rw [length_script] at during
  have created := order.created (order.response.reader_met (by omega))
  have there := shows.request
  rw [if_neg (by omega)] at there
  have answered : s.answer capacity event.call = _ :=
    answer_writing there order.request (getElem?_append_of_some next)
  by_cases blocks : WriterBlocks capacity word.length stage.confirmed stage.checked
  · rw [if_pos blocks] at answered
    exact .inl ⟨answered, blocks⟩
  · rw [if_neg blocks] at answered
    refine .inr ⟨{ stage with confirmed := stage.confirmed + 1 }, _, answered, ?_, ⟨?_, ?_, ?_⟩, ?_, rfl⟩
    · exact { order with
        request := order.request.write blocks
        confirmed_le := during
        acked := fun _ => acked }
    · exact (Function.update_of_ne distinct.request.symm ..).trans shows.connection
    · exact (Function.update_of_ne distinct.each.symm ..).trans shows.response
    · apply (Function.update_self ..).trans
      dsimp only
      rw [if_neg (by omega)]
    · simp only [Stage.client]
      omega

include shows order distinct in
theorem Shows.checks (all : stage.answered = word.length + 2)
    (next : (script requestFifo .reading word)[stage.checked]? = some event) :
    (s.answer capacity event.call = .none ∧ ReaderBlocks word.length stage.confirmed stage.checked) ∨
      Advances connectionFile responseFifo requestFifo word capacity s event stage.client
        (stage.server + 1) := by
  have during := (List.getElem?_eq_some_iff.mp next).1
  rw [length_script] at during
  have created := order.created (by omega)
  have there := shows.request
  rw [if_neg (by omega)] at there
  have answered : s.answer capacity event.call = _ :=
    answer_reading there order.request (getElem?_append_of_some next)
  by_cases blocks : ReaderBlocks word.length stage.confirmed stage.checked
  · rw [if_pos blocks] at answered
    exact .inl ⟨answered, blocks⟩
  · rw [if_neg blocks] at answered
    refine .inr ⟨{ stage with checked := stage.checked + 1 }, _, answered, ?_, ⟨?_, ?_, ?_⟩, rfl, ?_⟩
    · exact { order with
        request := order.request.read blocks
        checked_le := during
        answered := fun _ => all }
    · exact (Function.update_of_ne distinct.request.symm ..).trans shows.connection
    · exact (Function.update_of_ne distinct.each.symm ..).trans shows.response
    · apply (Function.update_self ..).trans
      dsimp only
      rw [if_neg (by omega)]
    · simp only [Stage.server]
      omega

include shows order distinct in
/-- A call of the client, answered as it is to be unless it blocks. -/
theorem Shows.client
    (next : (openScript connectionFile responseFifo requestFifo word)[stage.client]? = some event) :
    (s.answer capacity event.call = none ∧ stage.ClientBlocks capacity word.length) ∨
      Advances connectionFile responseFifo requestFifo word capacity s event (stage.client + 1)
        stage.server := by
  have sent := order.sent
  have acked := order.acked
  have made_le := order.made_le
  have sent_le := order.sent_le
  have acked_le := order.acked_le
  rcases getElem?_append_cases next with ⟨early, next⟩ | ⟨k, at_k, next⟩
  · replace early : stage.made < 2 := by
      simp only [List.length_cons, List.length_nil, Stage.client] at early
      omega
    obtain ⟨sent, acked, confirmed, -⟩ := order.quiet early
    rw [Stage.client, sent, acked, confirmed] at next
    exact .inr (shows.makes order distinct early next)
  simp only [List.length_cons, List.length_nil, Stage.client] at at_k
  have made : stage.made = 2 := by
    have := order.made
    omega
  obtain rfl : stage.sent + (stage.acked + stage.confirmed) = k := by omega
  rcases getElem?_append_cases next with ⟨during, next⟩ | ⟨k, at_k, next⟩
  · simp only [List.length_append, length_script, List.length_cons, List.length_nil] at during
    have none : stage.acked = 0 := by omega
    have none' : stage.confirmed = 0 := by omega
    rw [none, none'] at next
    rcases shows.sends order distinct made (by omega) none next with ⟨answered, blocks⟩ | advances
    · exact .inl ⟨answered, .inl ⟨made, by omega, blocks⟩⟩
    · exact .inr advances
  simp only [List.length_append, length_script, List.length_cons, List.length_nil] at at_k
  have all : stage.sent = word.length + 3 := by omega
  obtain rfl : stage.acked + stage.confirmed = k := by omega
  rcases getElem?_append_cases next with ⟨during, next⟩ | ⟨k, at_k, next⟩
  · rw [length_script] at during
    have none : stage.confirmed = 0 := by omega
    rw [none] at next
    rcases shows.acks order distinct all (by omega) none next with ⟨answered, blocks⟩ | advances
    · exact .inl ⟨answered, .inr (.inl ⟨all, by omega, blocks⟩)⟩
    · exact .inr advances
  · rw [length_script] at at_k
    have all' : stage.acked = word.length + 2 := by omega
    obtain rfl : stage.confirmed = k := by omega
    rcases shows.confirms order distinct all' next with ⟨answered, blocks⟩ | advances
    · exact .inl ⟨answered, .inr (.inr ⟨all', blocks⟩)⟩
    · exact .inr advances

include shows order distinct in
/-- A call of the server. -/
theorem Shows.server
    (next : (acceptScript connectionFile responseFifo requestFifo word)[stage.server]? = some event) :
    (s.answer capacity event.call = none ∧ stage.ServerBlocks capacity word.length) ∨
      Advances connectionFile responseFifo requestFifo word capacity s event stage.client
        (stage.server + 1) := by
  have received := order.received
  have created := order.created
  have answered := order.answered
  have received_le := order.received_le
  have created_le := order.created_le
  have answered_le := order.answered_le
  rcases getElem?_append_cases next with ⟨during, next⟩ | ⟨k, at_k, next⟩
  · simp only [List.length_append, length_script, List.length_cons, List.length_nil,
      Stage.server] at during
    have none : stage.created = 0 := by omega
    have rest : stage.server = stage.received := by
      unfold Stage.server
      omega
    rw [rest] at next
    rcases shows.receives order distinct (by omega) none next with ⟨answered, blocks⟩ | advances
    · exact .inl ⟨answered, .inl ⟨by omega, blocks⟩⟩
    · exact .inr advances
  simp only [List.length_append, length_script, List.length_cons, List.length_nil,
    Stage.server] at at_k
  have all : stage.received = word.length + 3 := by omega
  obtain rfl : stage.created + (stage.answered + stage.checked) = k := by omega
  rcases getElem?_append_cases next with ⟨during, next⟩ | ⟨k, at_k, next⟩
  · simp only [List.length_cons, List.length_nil] at during
    have none : stage.created = 0 := by omega
    rw [show stage.created + (stage.answered + stage.checked) = 0 by omega] at next
    cases next
    exact .inr (shows.creates order distinct all none)
  simp only [List.length_cons, List.length_nil] at at_k
  have all' : stage.created = 1 := by omega
  obtain rfl : stage.answered + stage.checked = k := by omega
  rcases getElem?_append_cases next with ⟨during, next⟩ | ⟨k, at_k, next⟩
  · rw [length_script] at during
    have none : stage.checked = 0 := by omega
    rw [none] at next
    rcases shows.answers order distinct all' (by omega) none next with ⟨answered, blocks⟩ | advances
    · exact .inl ⟨answered, .inr (.inl ⟨all', by omega, blocks⟩)⟩
    · exact .inr advances
  · rw [length_script] at at_k
    have all'' : stage.answered = word.length + 2 := by omega
    obtain rfl : stage.checked = k := by omega
    rcases shows.checks order distinct all'' next with ⟨answered, blocks⟩ | advances
    · exact .inl ⟨answered, .inr (.inr ⟨all'', blocks⟩)⟩
    · exact .inr advances

end Calls

end Stage

/-- What `comm_listen` leaves when it creates the connection FIFO. -/
theorem commListen_creates {server : Connection} {address : CommAddr} {serverHost : Bytes}
    {capacity : Nat} {fifos : Fifos Bytes Byte} (own : server.serverAddr = some address)
    (hosted : address.host = some serverHost) (absent : fifos (connectionPath serverHost) = none) :
    ∃ trace server', Runs (commListen server) trace
        (.ok (⟨noCommError, ascii "Listen Sucessful"⟩, server')) ∧
      Through (Fifos.happens capacity) fifos trace (fifos.replace (connectionPath serverHost) .empty) ∧
        server'.connectionFile = some (connectionPath serverHost) ∧
          server'.serverAddr = some address := by
  refine ⟨[⟨.access (connectionPath serverHost), false⟩, ⟨.mkfifo (connectionPath serverHost), true⟩],
    { server with
      connectionFile := some (connectionPath serverHost)
      state := .idle
      sense := .serverClient }, ?_, ⟨fifos, ?_, _, ?_, rfl⟩, rfl, own⟩
  · unfold commListen
    simp only [own, deref, ret_bind, hosted]
    exact .call (.call (.ret _))
  · simp only [Fifos.happens, Fifos.answer, absent, Option.isSome_none]
  · simp only [Fifos.happens, Fifos.answer, absent]

/-! ## Both at once -/

inductive Role : Type
  | client
  | server
  deriving DecidableEq

/-- What the two return. -/
inductive HandshakeResult : Type
  | opened (code : Int) (conn : Connection)
  | accepted (error : CommError) (conn : Connection)
  deriving DecidableEq

abbrev Handshaking : Type 1 :=
  Processes (FifoCall Bytes Byte) Halt HandshakeResult (Fifos Bytes Byte) Unit Role

abbrev HandshakingAct : Type 1 := ProcessesAct (FifoCall Bytes Byte) Halt HandshakeResult Unit Role

/-- `connection_open` and `comm_accept` before their first calls. -/
def Handshaking.start (fresh : Nat → Byte) (client server : Connection) (fifos : Fifos Bytes Byte) :
    Handshaking where
  shared := fifos
  running
    | .client => some (connectionOpen fresh client >>= fun r => pure (.opened r.1 r.2))
    | .server => some (commAccept server >>= fun r => pure (.accepted r.1 r.2))
  notes := fun _ => ()

/-- One call of one of them. -/
abbrev Handshaking.step (capacity : Nat) : Handshaking → HandshakingAct → Handshaking → Prop :=
  Processes.Step (Fifos.happens capacity) (fun _ _ => ()) () fun _ _ => False

/-- Nobody is stopped. -/
def onlyCalls (_ : Handshaking) : HandshakingAct → Prop
  | .call _ _ => True
  | _ => False

/-- An open of a FIFO that is not there. -/
def FailedOpen : Event (FifoCall Bytes Byte) → Prop
  | ⟨.openEnd _ _, none⟩ => True
  | _ => False

/-- It has returned. -/
def Handshaking.Ended (s : Handshaking) (role : Role) : Prop := ∃ r, s.running role = some (.ret r)

/-- What a handshake is to be, so far and at its end. -/
structure Handshaking.Sound (capacity : Nat) (url : CString) (client : Connection) (serverHost : Bytes)
    (acts : List HandshakingAct) (s : Handshaking) : Prop where
  created : ∀ role event, ProcessesAct.call role event ∈ acts → ¬ FailedOpen event
  faultless : ∀ role e, s.running role ≠ some (.fault e)
  opened : ∀ r, s.running .client = some (.ret r) →
    ∃ conn, r = .opened connectionOk conn ∧ conn.state = .opened
  accepted : ∀ r, s.running .server = some (.ret r) →
    ∃ error conn, r = .accepted error conn ∧ error.code = noCommError ∧ conn.state = .opened ∧
      ∃ address address', conn.clientAddr = some address ∧ client.clientAddr = some address' ∧
        address.url = url.bytes ∧ address'.url = url.bytes
  drained : s.Ended .client → s.Ended .server →
    ∀ path ∈ [connectionPath serverHost, fifoPath serverHost (urlHost url),
      fifoPath (urlHost url) serverHost], ∃ fifo, s.shared path = some fifo ∧ fifo.data = []
  moves : (s.Ended .client ∧ s.Ended .server) ∨
    ∃ act s', onlyCalls s act ∧ Handshaking.step capacity s act s'
  bounded : acts.length ≤ 6 * url.bytes.length + 23

section Runs

variable {url : CString} {serverHost : Bytes} {client server : Connection} {capacity : Nat}
  {fresh : Nat → Byte} {fifos : Fifos Bytes Byte}

/-- The word a url is sent as. -/
def urlWord (url : CString) : Bytes := url.bytes ++ [0]

theorem length_urlWord : (urlWord url).length = url.bytes.length + 1 := by
  rw [urlWord, List.length_append, List.length_singleton]

/-- The calls of each. -/
def roleScript (url : CString) (serverHost : Bytes) : Role → List (Event (FifoCall Bytes Byte))
  | .client => openScript (connectionPath serverHost) (fifoPath serverHost (urlHost url))
      (fifoPath (urlHost url) serverHost) (urlWord url)
  | .server => acceptScript (connectionPath serverHost) (fifoPath serverHost (urlHost url))
      (fifoPath (urlHost url) serverHost) (urlWord url)

def Stage.calls (stage : Stage) : Role → Nat
  | .client => stage.client
  | .server => stage.server

/-- What each returns. -/
def handshakeResult (url : CString) (serverHost : Bytes) (client server : Connection) :
    Role → HandshakeResult
  | .client => .opened connectionOk { client with
      connectionFile := some (connectionPath serverHost)
      state := .opened
      reqFd := some ⟨fifoPath (urlHost url) serverHost, .writing, 0⟩
      resFd := some ⟨fifoPath serverHost (urlHost url), .reading, 0⟩
      sense := .clientServer }
  | .server => .accepted ⟨noCommError, ascii "Accept Sucessful"⟩ { server with
      clientAddr := some (addressFromUrl .fifo url.bytes .new).2
      state := .opened
      reqFd := some ⟨fifoPath serverHost (urlHost url), .writing, 0⟩
      resFd := some ⟨fifoPath (urlHost url) serverHost, .reading, 0⟩ }

theorem not_failedOpen {role : Role} : ∀ event ∈ roleScript url serverHost role, ¬ FailedOpen event := by
  have transfers : ∀ (path : Bytes) (side : Side) (word : Bytes), ∀ event ∈ script path side word,
      ¬ FailedOpen event := by
    intro path side word event member
    rcases List.mem_cons.mp member with rfl | member
    · exact id
    rcases List.mem_cons.mp member with rfl | member
    · exact id
    obtain ⟨c, -, rfl⟩ := List.mem_map.mp member
    cases side <;> exact id
  intro event member
  cases role with
  | client =>
      simp only [roleScript, openScript, List.mem_append, List.mem_cons, List.not_mem_nil,
        or_false] at member
      rcases member with (rfl | rfl) | (member | rfl) | member | member
      · exact id
      · exact id
      · exact transfers _ _ _ _ member
      · exact id
      · exact transfers _ _ _ _ member
      · exact transfers _ _ _ _ member
  | server =>
      simp only [roleScript, acceptScript, List.mem_append, List.mem_cons, List.not_mem_nil,
        or_false] at member
      rcases member with (member | rfl) | rfl | member | member
      · exact transfers _ _ _ _ member
      · exact id
      · exact id
      · exact transfers _ _ _ _ member
      · exact transfers _ _ _ _ member

theorem length_roleScript_client :
    (roleScript url serverHost .client).length = 3 * (urlWord url).length + 9 := by
  simp only [roleScript, openScript, List.length_append, length_script, List.length_cons,
    List.length_nil]
  omega

theorem length_roleScript_server :
    (roleScript url serverHost .server).length = 3 * (urlWord url).length + 8 := by
  simp only [roleScript, acceptScript, List.length_append, length_script, List.length_cons,
    List.length_nil]
  omega

/-- Both follow their scripts. -/
structure Along (url : CString) (serverHost : Bytes) (client server : Connection)
    (acts : List HandshakingAct) (stage : Stage) (s : Handshaking) : Prop where
  order : stage.InOrder (urlWord url).length
  shows : stage.Shows (connectionPath serverHost) (fifoPath serverHost (urlHost url))
    (fifoPath (urlHost url) serverHost) (urlWord url) s.shared
  follows : ∀ role, ∃ p, s.running role = some p ∧
    Runs p ((roleScript url serverHost role).drop (stage.calls role))
      (.ok (handshakeResult url serverHost client server role))
  count : acts.length = stage.client + stage.server
  created : ∀ role event, ProcessesAct.call role event ∈ acts → ¬ FailedOpen event

theorem along_start (introduced : Introduced url serverHost client server)
    (short : url.bytes.length < bufferLength .fifo)
    (listening : fifos (connectionPath serverHost) = some .empty)
    (absent : fifos (fifoPath serverHost (urlHost url)) = none)
    (absent' : fifos (fifoPath (urlHost url) serverHost) = none) :
    Along url serverHost client server [] .start (.start fresh client server fifos) where
  order := ⟨⟨by decide, by decide, by simp [Stage.start]⟩, ⟨by decide, by decide, by simp [Stage.start]⟩,
    ⟨by decide, by decide, by simp [Stage.start]⟩, by decide, Nat.zero_le _, Nat.zero_le _,
    Nat.zero_le _, by decide, nofun, nofun, Nat.zero_le _, by decide, Nat.zero_le _, Nat.zero_le _,
    nofun, nofun, nofun⟩
  shows := ⟨listening.trans (congrArg some channel_zero.symm), absent, absent'⟩
  follows
    | .client => ⟨_, rfl, runs_map.mpr ⟨_, runs_connectionOpen introduced fresh, rfl⟩⟩
    | .server => ⟨_, rfl, runs_map.mpr ⟨_, runs_commAccept introduced short, rfl⟩⟩
  count := rfl
  created := nofun

def Stage.Blocks (capacity n : Nat) (stage : Stage) : Role → Prop
  | .client => stage.ClientBlocks capacity n
  | .server => stage.ServerBlocks capacity n

section Steps

variable {acts : List HandshakingAct} {stage : Stage} {s s' : Handshaking} {role : Role}
  (distinct : PathsApart (connectionPath serverHost) (fifoPath serverHost (urlHost url))
    (fifoPath (urlHost url) serverHost))
  (along : Along url serverHost client server acts stage s)

include distinct along

/-- The next call of either. -/
theorem Along.answers (capacity : Nat) {event : Event (FifoCall Bytes Byte)}
    (next : (roleScript url serverHost role)[stage.calls role]? = some event) :
    (s.shared.answer capacity event.call = none ∧
        stage.Blocks capacity (urlWord url).length role) ∨
      ∃ (stage' : Stage) (fifos : Fifos Bytes Byte),
        s.shared.answer capacity event.call = some (event.answer, fifos) ∧
          stage'.InOrder (urlWord url).length ∧
            stage'.Shows (connectionPath serverHost) (fifoPath serverHost (urlHost url))
              (fifoPath (urlHost url) serverHost) (urlWord url) fifos ∧
              stage'.calls role = stage.calls role + 1 ∧
                ∀ other, other ≠ role → stage'.calls other = stage.calls other := by
  cases role with
  | client =>
      rcases along.shows.client along.order distinct next with blocked |
        ⟨stage', fifos, answered, order, shows, client, server⟩
      · exact .inl blocked
      · refine .inr ⟨stage', fifos, answered, order, shows, client, fun other different => ?_⟩
        cases other with
        | client => exact absurd rfl different
        | server => exact server
  | server =>
      rcases along.shows.server along.order distinct next with blocked |
        ⟨stage', fifos, answered, order, shows, client, server⟩
      · exact .inl blocked
      · refine .inr ⟨stage', fifos, answered, order, shows, server, fun other different => ?_⟩
        cases other with
        | client => exact client
        | server => exact absurd rfl different

/-- A call keeps both on their scripts. -/
theorem Along.call {event : Event (FifoCall Bytes Byte)}
    (taken : Handshaking.step capacity s (.call role event) s') :
    ∃ stage', Along url serverHost client server (acts ++ [.call role event]) stage' s' := by
  cases taken with
  | @call _ β c b next shared runs happens =>
      obtain ⟨p, running, follows⟩ := along.follows role
      obtain rfl : p = .call c next := Option.some.inj (running.symm.trans runs)
      obtain ⟨b', rest, split, later⟩ := runs_call.mp follows
      obtain ⟨at_k, tail⟩ := getElem?_of_drop split
      rcases along.answers distinct capacity at_k with ⟨blocked, -⟩ |
        ⟨stage', fifos, answered, order, shows, own, others⟩
      · cases blocked.symm.trans happens
      obtain ⟨rfl, rfl⟩ := Prod.mk.inj (Option.some.inj (answered.symm.trans happens))
      refine ⟨stage', order, shows, fun other => ?_, ?_, ?_⟩
      · by_cases same : other = role
        · subst same
          refine ⟨_, Function.update_self .., ?_⟩
          rwa [own, tail]
        · obtain ⟨q, running', follows'⟩ := along.follows other
          refine ⟨q, (Function.update_of_ne same ..).trans running', ?_⟩
          rwa [others other same]
      · rw [List.length_append, along.count]
        cases role with
        | client =>
            have same := others .server (by decide)
            simp only [Stage.calls] at own same
            simp only [List.length_singleton]
            omega
        | server =>
            have same := others .client (by decide)
            simp only [Stage.calls] at own same
            simp only [List.length_singleton]
            omega
      · intro role' event' member
        rcases List.mem_append.mp member with before | last
        · exact along.created role' event' before
        · cases List.mem_singleton.mp last
          exact not_failedOpen _ (List.mem_of_getElem? at_k)

omit distinct in
/-- What one that has returned has returned, and that it has made all its calls. -/
theorem Along.of_ret {r : HandshakeResult} (runs : s.running role = some (.ret r)) :
    r = handshakeResult url serverHost client server role ∧
      (roleScript url serverHost role).length ≤ stage.calls role := by
  obtain ⟨p, running, follows⟩ := along.follows role
  obtain rfl : p = .ret r := Option.some.inj (running.symm.trans runs)
  obtain ⟨all, same⟩ := runs_ret.mp follows
  exact ⟨(Except.ok.inj same).symm, List.drop_eq_nil_iff.mp all⟩

omit distinct in
/-- One that has made all its calls has returned. -/
theorem Along.ended (all : (roleScript url serverHost role).length ≤ stage.calls role) :
    s.Ended role := by
  obtain ⟨p, running, follows⟩ := along.follows role
  rw [List.drop_eq_nil_of_le all] at follows
  exact ⟨_, running.trans (congrArg some follows.of_nil)⟩

/-- The others wait or can make their next call. -/
theorem Along.blocks_or_moves (capacity : Nat) (role : Role)
    (unfinished : stage.calls role < (roleScript url serverHost role).length) :
    stage.Blocks capacity (urlWord url).length role ∨
      ∃ act s', onlyCalls s act ∧ Handshaking.step capacity s act s' := by
  obtain ⟨p, running, follows⟩ := along.follows role
  rw [List.drop_eq_getElem_cons unfinished] at follows
  obtain ⟨next, rfl, -⟩ := follows.of_cons
  rcases along.answers distinct capacity (List.getElem?_eq_getElem unfinished) with ⟨-, blocks⟩ |
    ⟨stage', fifos, answered, -⟩
  · exact .inl blocks
  · exact .inr ⟨.call role ⟨_, _⟩, _, trivial, .call running answered⟩

theorem Along.moves (room : 0 < capacity) : (s.Ended .client ∧ s.Ended .server) ∨
    ∃ act s', onlyCalls s act ∧ Handshaking.step capacity s act s' := by
  have order := along.order
  have client : stage.confirmed = (urlWord url).length + 2 ↔
      (roleScript url serverHost .client).length ≤ stage.calls .client := by
    have := order.made
    have := order.sent
    have := order.acked
    have := order.made_le
    have := order.sent_le
    have := order.acked_le
    have := order.confirmed_le
    rw [length_roleScript_client]
    simp only [Stage.calls, Stage.client]
    omega
  have server : stage.checked = (urlWord url).length + 2 ↔
      (roleScript url serverHost .server).length ≤ stage.calls .server := by
    have := order.received
    have := order.created
    have := order.answered
    have := order.received_le
    have := order.created_le
    have := order.answered_le
    have := order.checked_le
    rw [length_roleScript_server]
    simp only [Stage.calls, Stage.server]
    omega
  by_contra stuck
  rw [not_or] at stuck
  have clientStuck : stage.confirmed = (urlWord url).length + 2 ∨
      stage.ClientBlocks capacity (urlWord url).length := by
    rw [client, ← Nat.not_lt]
    by_cases unfinished : stage.calls .client < (roleScript url serverHost .client).length
    · exact .inr ((along.blocks_or_moves distinct capacity .client unfinished).resolve_right stuck.2)
    · exact .inl unfinished
  have serverStuck : stage.checked = (urlWord url).length + 2 ∨
      stage.ServerBlocks capacity (urlWord url).length := by
    rw [server, ← Nat.not_lt]
    by_cases unfinished : stage.calls .server < (roleScript url serverHost .server).length
    · exact .inr ((along.blocks_or_moves distinct capacity .server unfinished).resolve_right stuck.2)
    · exact .inl unfinished
  obtain ⟨confirmed, checked⟩ :=
    order.moves room (by rw [length_urlWord]; omega) clientStuck serverStuck
  exact stuck.1 ⟨along.ended (client.mp confirmed), along.ended (server.mp checked)⟩

theorem Along.sound (room : 0 < capacity) (introduced : Introduced url serverHost client server) :
    s.Sound capacity url client serverHost acts := by
  have order := along.order
  have made_le := order.made_le
  have sent_le := order.sent_le
  have acked_le := order.acked_le
  have confirmed_le := order.confirmed_le
  have received_le := order.received_le
  have created_le := order.created_le
  have answered_le := order.answered_le
  have checked_le := order.checked_le
  have word : (urlWord url).length = url.bytes.length + 1 := length_urlWord
  have clientEnds (all : (roleScript url serverHost .client).length ≤ stage.calls .client) :
      stage.sent = (urlWord url).length + 3 ∧ stage.acked = (urlWord url).length + 2 ∧
        stage.confirmed = (urlWord url).length + 2 ∧ stage.made ≠ 0 := by
    rw [length_roleScript_client] at all
    simp only [Stage.calls, Stage.client] at all
    omega
  have serverEnds (all : (roleScript url serverHost .server).length ≤ stage.calls .server) :
      stage.received = (urlWord url).length + 3 ∧ stage.answered = (urlWord url).length + 2 ∧
        stage.checked = (urlWord url).length + 2 ∧ stage.created ≠ 0 := by
    rw [length_roleScript_server] at all
    simp only [Stage.calls, Stage.server] at all
    omega
  refine ⟨along.created, ?_, ?_, ?_, ?_, ?_, ?_⟩
  · intro role e runs
    obtain ⟨p, running, follows⟩ := along.follows role
    obtain rfl : p = .fault e := Option.some.inj (running.symm.trans runs)
    cases (runs_fault.mp follows).2
  · intro r runs
    obtain ⟨rfl, -⟩ := along.of_ret runs
    exact ⟨_, rfl, rfl⟩
  · intro r runs
    obtain ⟨rfl, -⟩ := along.of_ret runs
    have sent := (address_of_parses introduced.parses).1
    exact ⟨_, _, rfl, rfl, rfl, _, _, rfl, introduced.client_addr, sent, sent⟩
  · rintro ⟨r, clientRuns⟩ ⟨r', serverRuns⟩ path member
    obtain ⟨sent, acked, confirmed, made⟩ := clientEnds (along.of_ret clientRuns).2
    obtain ⟨received, answered, checked, created⟩ := serverEnds (along.of_ret serverRuns).2
    have drained {w r : Nat} (all : (urlWord url).length + 2 ≤ r) :
        (Fifo.channel (urlWord url) w r).data = [] := by
      apply List.drop_eq_nil_of_le
      rw [List.length_take]
      omega
    simp only [List.mem_cons, List.not_mem_nil, or_false] at member
    rcases member with rfl | rfl | rfl
    · exact ⟨_, along.shows.connection, drained (by omega)⟩
    · exact ⟨_, along.shows.response.trans (if_neg made), drained (by omega)⟩
    · exact ⟨_, along.shows.request.trans (if_neg created), drained (by omega)⟩
  · exact along.moves distinct room
  · rw [along.count, Stage.client, Stage.server]
    omega

end Steps

end Runs

/-- At some stage. -/
def OnScript (url : CString) (serverHost : Bytes) (client server : Connection)
    (acts : List HandshakingAct) (s : Handshaking) : Prop :=
  ∃ stage, Along url serverHost client server acts stage s

/-- Every interleaving of `connection_open` and `comm_accept`, as far as it goes. -/
theorem handshake_of_run {url : CString} {serverHost : Bytes} {client server : Connection}
    {capacity : Nat} {fresh : Nat → Byte} {fifos : Fifos Bytes Byte} {acts : List HandshakingAct}
    {s : Handshaking} (room : 0 < capacity) (introduced : Introduced url serverHost client server)
    (short : url.bytes.length < bufferLength .fifo)
    (distinct : PathsApart (connectionPath serverHost) (fifoPath serverHost (urlHost url))
      (fifoPath (urlHost url) serverHost))
    (listening : fifos (connectionPath serverHost) = some .empty)
    (absent : fifos (fifoPath serverHost (urlHost url)) = none)
    (absent' : fifos (fifoPath (urlHost url) serverHost) = none)
    (run : Run (Handshaking.step capacity) onlyCalls (.start fresh client server fifos) acts s) :
    s.Sound capacity url client serverHost acts := by
  have along : OnScript url serverHost client server acts s := by
    refine run.history ⟨_, along_start introduced short listening absent absent'⟩ ?_
    rintro past s s' act ⟨stage, along⟩ allowed taken
    cases act with
    | call role event => exact along.call distinct taken
    | start | stop => exact allowed.elim
  obtain ⟨stage, along⟩ := along
  exact along.sound distinct room introduced

/-! ## One handshake -/

/-- `address_from_url` of the server's url. -/
def serverS : CommAddr := (addressFromUrl .fifo (ascii "f://s") .new).2

def urlC : CString := ⟨ascii "f://c", by decide⟩

def clientC : Connection :=
  ⟨some (addressFromUrl .fifo urlC.bytes .new).2, some serverS, none, .other 0, none, none, .serverClient⟩

def listeningS : Connection :=
  ⟨none, some serverS, some (connectionPath (ascii "s")), .idle, none, none, .serverClient⟩

def fifosS : Fifos Bytes Byte := Function.update (fun _ => none) (connectionPath (ascii "s")) (some .empty)

/-- The client waits for the server to open the connection FIFO, and each then goes on as far as
it can. -/
def turns : List Role :=
  List.replicate 3 .client ++ List.replicate 2 .server ++ List.replicate 9 .client ++
    List.replicate 17 .server ++ List.replicate 15 .client ++ List.replicate 7 .server

theorem introduced_urlC : Introduced urlC (ascii "s") clientC listeningS where
  parses := by decide
  client_addr := rfl
  server_addr := ⟨_, rfl, by decide, by decide⟩
  own_addr := ⟨_, rfl, by decide⟩
  connection_file := rfl

/-- The whole handshake of `f://c`. -/
theorem handshake_of_run_urlC : ∃ acts s, Handshaking.Sound 6 urlC clientC (ascii "s") acts s ∧
    s.Ended .client ∧ s.Ended .server := by
  have outcome : ((Handshaking.start (fun _ => 7) clientC listeningS fifosS).follow (Fifos.answer 6)
      (fun _ _ => ()) turns).map (fun r => ((r.2.result .client).isSome, (r.2.result .server).isSome)) =
        some (true, true) := by
    decide +kernel
  obtain ⟨⟨events, s⟩, followed, ended⟩ := Option.map_eq_some_iff.mp outcome
  obtain ⟨client, server⟩ := Prod.mk.inj ended
  obtain ⟨r, client⟩ := Option.isSome_iff_exists.mp client
  obtain ⟨r', server⟩ := Option.isSome_iff_exists.mp server
  have run : Run (Handshaking.step 6) onlyCalls (.start (fun _ => 7) clientC listeningS fifosS) _ s :=
    Processes.run_of_follow (fun _ _ _ _ answered => ⟨trivial, answered⟩) followed
  exact ⟨_, s, handshake_of_run (by decide) introduced_urlC (by decide)
    ⟨by decide, by decide, by decide⟩ (Function.update_self ..) (by decide) (by decide) run,
    ⟨r, Processes.running_of_result client⟩, ⟨r', Processes.running_of_result server⟩⟩

end IpcFtp
