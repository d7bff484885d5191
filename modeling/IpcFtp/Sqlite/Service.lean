import IpcFtp.Server.SqlHelpers

/-!
# The SQL process reads its pipe

`run_sqlite_query` writes a statement into the pipe byte by byte, without its
terminator; the loop of `init_sqlite_server` collects bytes until it has seen a
semicolon, or until its counter stops it, and hands what it has to `sqlite3_exec`.
-/

namespace IpcFtp

/-- `SQL_CONNECTION_CLOSE_STR`. -/
def sqlConnectionCloseStr : Bytes := ascii "CLOSE CONNECTION;"

/-- `query_buffer` and the counter `q` of `init_sqlite_server`. -/
structure QueryBuffer : Type where
  text : Bytes
  q : Nat
  deriving DecidableEq

/-- The buffer at the start of a turn. -/
def QueryBuffer.empty : QueryBuffer := ⟨[], 0⟩

/-- Where the inner loop stands after one more byte. -/
inductive QueryRead : Type
  | more (buffer : QueryBuffer)
  | complete (text : Bytes)

/-- One pass of the inner loop: `strcat(query_buffer, aux)` appends the string that
starts at `aux`, which is empty for a NUL, and the loop goes on
`while (strcmp(";", aux) && q++ < 100)`. -/
def QueryBuffer.read (buffer : QueryBuffer) (aux : Byte) : QueryRead :=
  let text := buffer.text ++ cstr [aux]
  if aux ≠ chr ';' ∧ buffer.q < 100 then .more ⟨text, buffer.q + 1⟩ else .complete text

/-- The texts handed to `sqlite3_exec` while the bytes of the pipe last.  After
`SQL_CONNECTION_CLOSE_STR` the process reads no more. -/
def initSqliteServer : QueryBuffer → Bytes → List Bytes
  | _, [] => []
  | buffer, aux :: pipe =>
    match buffer.read aux with
    | .more buffer => initSqliteServer buffer pipe
    | .complete text =>
      if text = sqlConnectionCloseStr then [] else text :: initSqliteServer .empty pipe

/-- What `run_sqlite_query` writes: its loop writes before it compares, so an empty text
would send its terminator. -/
def writtenQuery : Bytes → Bytes
  | [] => [0]
  | text => text

/-! ## What a turn can take -/

/-- A text the reader takes whole: at most 101 bytes, with its only semicolon last. -/
def TakenWhole (text : Bytes) : Prop := text.length ≤ 101 ∧ chr ';' ∉ text.dropLast

instance (text : Bytes) : Decidable (TakenWhole text) := inferInstanceAs (Decidable (_ ∧ _))

/-- What the inner loop keeps between two reads. -/
structure QueryBuffer.Open (buffer : QueryBuffer) : Prop where
  counter : buffer.q ≤ 100
  held : buffer.text.length ≤ buffer.q
  noEnd : chr ';' ∉ buffer.text

theorem QueryBuffer.open_empty : QueryBuffer.empty.Open := ⟨by decide, by decide, by decide⟩

theorem mem_cstr_singleton {c aux : Byte} (member : c ∈ cstr [aux]) : c = aux :=
  List.mem_singleton.mp ((List.takeWhile_sublist _).mem member)

theorem QueryBuffer.Open.of_more {buffer next : QueryBuffer} {aux : Byte}
    (opened : buffer.Open) (read : buffer.read aux = .more next) : next.Open := by
  unfold QueryBuffer.read at read
  split at read
  · rename_i goesOn
    obtain rfl : ⟨buffer.text ++ cstr [aux], buffer.q + 1⟩ = next := by simpa using read
    have one : (cstr [aux]).length ≤ 1 := length_cstr_le [aux]
    have before := opened.held
    refine ⟨goesOn.2, by simp only [List.length_append]; omega, ?_⟩
    rw [List.mem_append, not_or]
    exact ⟨opened.noEnd, fun inside => goesOn.1 (mem_cstr_singleton inside).symm⟩
  · cases read

theorem QueryBuffer.Open.takenWhole {buffer : QueryBuffer} {aux : Byte} {text : Bytes}
    (opened : buffer.Open) (read : buffer.read aux = .complete text) : TakenWhole text := by
  unfold QueryBuffer.read at read
  split at read
  · cases read
  · obtain rfl : buffer.text ++ cstr [aux] = text := by simpa using read
    have one : (cstr [aux]).length ≤ 1 := length_cstr_le [aux]
    have before := opened.held
    have counter := opened.counter
    refine ⟨by simp only [List.length_append]; omega, fun inside => opened.noEnd ?_⟩
    by_cases nul : aux = 0
    · rw [nul, show cstr [0] = [] from rfl, List.append_nil] at inside
      exact List.mem_of_mem_dropLast inside
    · rwa [show cstr [aux] = [aux] by simp [cstr, nul], List.dropLast_concat] at inside

/-- Whatever is in the pipe, every text that is executed was taken whole. -/
theorem takenWhole_of_mem_initSqliteServer {buffer : QueryBuffer} {pipe text : Bytes}
    (opened : buffer.Open) (executed : text ∈ initSqliteServer buffer pipe) :
    TakenWhole text := by
  induction pipe generalizing buffer with
  | nil => cases executed
  | cons aux pipe ih =>
      rw [initSqliteServer] at executed
      cases read : buffer.read aux with
      | more next =>
          rw [read] at executed
          exact ih (opened.of_more read) executed
      | complete taken =>
          simp only [read] at executed
          split at executed
          · cases executed
          · rcases List.mem_cons.mp executed with rfl | later
            · exact opened.takenWhole read
            · exact ih QueryBuffer.open_empty later

/-! ## Texts that are taken whole -/

/-- Bytes that end nothing are collected. -/
theorem initSqliteServer_append {buffer : QueryBuffer} {front : Bytes} (nulFree : 0 ∉ front)
    (noEnd : chr ';' ∉ front) (short : buffer.q + front.length ≤ 100) (rest : Bytes) :
    initSqliteServer buffer (front ++ rest) =
      initSqliteServer ⟨buffer.text ++ front, buffer.q + front.length⟩ rest := by
  induction front generalizing buffer with
  | nil => simp
  | cons aux front ih =>
      rw [List.mem_cons, not_or] at nulFree noEnd
      rw [List.length_cons] at short
      have read : buffer.read aux = .more ⟨buffer.text ++ [aux], buffer.q + 1⟩ := by
        rw [QueryBuffer.read, if_pos ⟨Ne.symm noEnd.1, by omega⟩,
          cstr_of_nulFree (by simpa using nulFree.1)]
      rw [List.cons_append, initSqliteServer, read]
      simp only
      rw [ih nulFree.2 noEnd.2 (by simp only; omega)]
      simp [Nat.add_comm 1, Nat.add_assoc]

/-- A statement that is taken whole is executed, and the loop starts afresh. -/
theorem initSqliteServer_statement {body : Bytes} (nulFree : 0 ∉ body)
    (whole : TakenWhole (body ++ [chr ';'])) (running : body ++ [chr ';'] ≠ sqlConnectionCloseStr)
    (rest : Bytes) :
    initSqliteServer .empty (body ++ [chr ';'] ++ rest) =
      (body ++ [chr ';']) :: initSqliteServer .empty rest := by
  obtain ⟨short, single⟩ := whole
  rw [List.dropLast_concat] at single
  rw [List.length_append, List.length_singleton] at short
  rw [List.append_assoc, List.singleton_append,
    initSqliteServer_append nulFree single (by simp only [QueryBuffer.empty]; omega),
    initSqliteServer, QueryBuffer.read, if_neg (fun goesOn => goesOn.1 rfl)]
  simp only [QueryBuffer.empty, List.nil_append, show cstr [chr ';'] = [chr ';'] by decide]
  rw [if_neg running]

/-- What the reader needs to know of a statement that a helper built. -/
theorem SqlCall.shape_of_text_eq_ok {call : SqlCall} {text : Bytes}
    (built : call.text = .ok text) :
    ∃ body, text = body ++ [chr ';'] ∧ 0 ∉ body ∧
      body ++ [chr ';'] ≠ sqlConnectionCloseStr := by
  obtain ⟨_, rfl⟩ := SqlCall.text_eq_ok.mp built
  obtain ⟨body, ends⟩ := call.statement_eq_append
  refine ⟨body, ends, fun inside => call.nulFree_statement ?_, fun close => ?_⟩
  · rw [ends]
    exact List.mem_append_left _ inside
  · have head := call.head_statement
    rw [ends, close] at head
    exact absurd head (by decide)

/-- For the statements the helpers build, the SQL process executes exactly what was
written if and only if each of them can be taken whole. -/
theorem executes_written_queries_iff {texts : List Bytes}
    (built : ∀ text ∈ texts, ∃ call : SqlCall, call.text = .ok text) :
    initSqliteServer .empty (texts.flatMap writtenQuery) = texts ↔
      ∀ text ∈ texts, TakenWhole text := by
  constructor
  · intro executed text member
    rw [← executed] at member
    exact takenWhole_of_mem_initSqliteServer QueryBuffer.open_empty member
  · intro whole
    induction texts with
    | nil => rfl
    | cons text texts ih =>
        obtain ⟨call, builds⟩ := built text List.mem_cons_self
        obtain ⟨body, rfl, nulFree, running⟩ := SqlCall.shape_of_text_eq_ok builds
        have others := ih (fun other member => built other (.tail _ member))
          fun other member => whole other (.tail _ member)
        rw [List.flatMap_cons, show writtenQuery (body ++ [chr ';']) = body ++ [chr ';'] by
          cases body <;> rfl,
          initSqliteServer_statement nulFree (whole _ List.mem_cons_self) running, others]

/-- A short new password, and a question behind it, are executed as written. -/
theorem executes_written_queries_short :
    let update := SqlCall.updatePassInDb 2 ⟨ascii "pw", by decide⟩
    let ask := SqlCall.userInDb ⟨ascii "a", nulFree_a⟩
    initSqliteServer .empty ([update.statement, ask.statement].flatMap writtenQuery) =
      [update.statement, ask.statement] := by
  intro update ask
  refine (executes_written_queries_iff (List.forall_mem_cons.mpr
    ⟨?_, List.forall_mem_singleton.mpr ?_⟩)).mpr (by decide)
  · exact ⟨update, SqlCall.text_eq_ok.mpr ⟨by decide, rfl⟩⟩
  · exact ⟨ask, SqlCall.text_eq_ok.mpr ⟨by decide, rfl⟩⟩

/-- A password of 63 characters moves the hundred-and-first byte of the `UPDATE` to the
end of its constant condition: the condition on `user_id` is cut off and every user gets
the new password. -/
theorem update_loses_its_condition :
    let call := SqlCall.updatePassInDb 2 ⟨List.replicate 63 (chr 'a'), by decide⟩
    call.text = .ok call.statement ∧
      initSqliteServer .empty (writtenQuery call.statement) =
        [ascii "UPDATE users SET password=\"" ++ List.replicate 63 (chr 'a') ++
            ascii "\" WHERE 1=1", ascii " AND user_id = 2;"] ∧
      initSqliteServer .empty (writtenQuery call.statement) ≠ [call.statement] := by
  refine ⟨SqlCall.text_eq_ok.mpr ⟨by decide +kernel, rfl⟩, ?_, ?_⟩ <;> decide +kernel

end IpcFtp
