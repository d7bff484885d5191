import IpcFtp.Logging.Delivery

/-!
# Reading the log

An entry is written as its kind, its text and a line end, and nothing escapes a line end in the
text.  A text that holds a line end with the beginning of an entry behind it looks like more than
one; the log of texts without one can be read back.
-/

namespace IpcFtp

open Lib

/-- How an entry of a kind begins. -/
def LogKind.mark (kind : LogKind) : Bytes := kind.name ++ ascii ": "

/-- The text holds no line end with the beginning of an entry behind it. -/
def LogEntry.Clean (entry : LogEntry) : Prop :=
  ∀ kind : LogKind, ¬ chr '\n' :: kind.mark <:+: entry.str.bytes

/-- What is written for some entries. -/
def logOf (entries : List LogEntry) : Bytes := entries.flatMap LogEntry.text

theorem text_eq (entry : LogEntry) :
    entry.text = entry.kind.mark ++ (entry.str.bytes ++ [chr '\n']) := by
  have newline : ascii "\n" = [chr '\n'] := rfl
  unfold LogEntry.text logText LogKind.mark
  rw [newline, List.append_assoc _ entry.str.bytes]

theorem newline_notMem_mark (kind : LogKind) : chr '\n' ∉ kind.mark := by
  cases kind <;> decide

/-- The first letter tells the kind. -/
theorem kind_of_mark {kind kind' : LogKind} {rest rest' : Bytes}
    (same : kind.mark ++ rest = kind'.mark ++ rest') : kind = kind' := by
  have heads (kind : LogKind) (rest : Bytes) :
      (kind.mark ++ rest).head? = kind.name.head? := by
    cases kind <;> rfl
  have letters := congrArg List.head? same
  rw [heads, heads] at letters
  revert letters
  cases kind <;> cases kind' <;> decide

theorem logOf_cons (entry : LogEntry) (entries : List LogEntry) : logOf (entry :: entries) =
    entry.kind.mark ++ (entry.str.bytes ++ chr '\n' :: logOf entries) := by
  rw [logOf, List.flatMap_cons, text_eq, List.append_assoc, List.append_assoc,
    List.singleton_append]
  rfl

/-- An entry whose text goes on where another's ends. -/
theorem not_clean_of_longer {entry : LogEntry} {kind : LogKind} {text more rest rest' : Bytes}
    (longer : entry.str.bytes = text ++ chr '\n' :: more)
    (same : kind.mark ++ rest = more ++ chr '\n' :: rest') : ¬ entry.Clean := by
  intro clean
  rcases List.append_eq_append_iff.mp same with ⟨left, inside, -⟩ | ⟨left, front, tail⟩
  · apply clean kind
    rw [longer, inside]
    exact ⟨text, left, by simp⟩
  · cases left with
    | nil =>
        apply clean kind
        rw [longer, front, List.append_nil]
        exact ⟨text, [], by simp⟩
    | cons c left =>
        obtain ⟨rfl, -⟩ := List.cons.inj tail
        exact newline_notMem_mark kind (front ▸ List.mem_append_right _ List.mem_cons_self)

/-- Behind a shorter text comes the rest of a longer one, or the next entry. -/
theorem eq_nil_of_longer {entry : LogEntry} {text more rest : Bytes} {others : List LogEntry}
    (clean : others ≠ [] → entry.Clean) (longer : entry.str.bytes = text ++ more)
    (same : chr '\n' :: logOf others = more ++ chr '\n' :: rest) : more = [] := by
  cases more with
  | nil => rfl
  | cons c more =>
      obtain ⟨rfl, later⟩ := List.cons.inj same
      cases others with
      | nil => simp [logOf] at later
      | cons other others =>
          rw [logOf_cons] at later
          exact absurd (clean (List.cons_ne_nil _ _)) (not_clean_of_longer longer later)

theorem logOf_eq_nil {entries : List LogEntry} : logOf entries = [] ↔ entries = [] := by
  cases entries with
  | nil => exact iff_of_true rfl rfl
  | cons entry entries =>
      rw [logOf_cons]
      simp

/-- Entries that begin the same text are the same. -/
theorem entry_of_logOf_cons {entry entry' : LogEntry} {entries entries' : List LogEntry}
    (clean : entries' ≠ [] → entry.Clean) (clean' : entries ≠ [] → entry'.Clean)
    (same : logOf (entry :: entries) = logOf (entry' :: entries')) :
    entry = entry' ∧ logOf entries = logOf entries' := by
  rw [logOf_cons, logOf_cons] at same
  have kinds := kind_of_mark same
  rw [kinds, List.append_cancel_left_eq] at same
  have texts : entry.str.bytes = entry'.str.bytes ∧ logOf entries = logOf entries' := by
    rcases List.append_eq_append_iff.mp same with ⟨more, longer, tail⟩ | ⟨more, longer, tail⟩
    · obtain rfl := eq_nil_of_longer clean' longer tail
      exact ⟨by rw [longer, List.append_nil], (List.cons.inj tail).2⟩
    · obtain rfl := eq_nil_of_longer clean longer tail
      exact ⟨by rw [longer, List.append_nil], (List.cons.inj tail).2.symm⟩
  obtain ⟨kind, str⟩ := entry
  obtain ⟨kind', str'⟩ := entry'
  obtain rfl : kind = kind' := kinds
  obtain rfl := CString.bytes_inj.mp texts.1
  exact ⟨rfl, texts.2⟩

/-- A log of clean entries is the log of no other clean entries. -/
theorem entries_of_log {entries entries' : List LogEntry} (clean : ∀ entry ∈ entries, entry.Clean)
    (clean' : ∀ entry ∈ entries', entry.Clean) (same : logOf entries = logOf entries') :
    entries = entries' := by
  induction entries generalizing entries' with
  | nil => exact (logOf_eq_nil.mp same.symm).symm
  | cons entry entries ih =>
      cases entries' with
      | nil => exact logOf_eq_nil.mp same
      | cons entry' entries' =>
          rw [List.forall_mem_cons] at clean clean'
          obtain ⟨rfl, later⟩ :=
            entry_of_logOf_cons (fun _ => clean.1) (fun _ => clean'.1) same
          rw [ih clean.2 clean'.2 later]

/-- A text that is not clean reads as two entries. -/
theorem exists_two_of_not_clean {entry : LogEntry} (unclean : ¬ entry.Clean) :
    ∃ first second, logOf [first, second] = logOf [entry] := by
  unfold LogEntry.Clean at unclean
  push Not at unclean
  obtain ⟨kind, front, back, split⟩ := unclean
  have plain : 0 ∉ front ++ chr '\n' :: kind.mark ++ back := split ▸ entry.str.nulFree
  simp only [List.mem_append, not_or] at plain
  let first : LogEntry := ⟨entry.kind, ⟨front, plain.1.1⟩⟩
  let second : LogEntry := ⟨kind, ⟨back, plain.2⟩⟩
  refine ⟨first, second, ?_⟩
  rw [logOf_cons, logOf_cons, logOf_cons, ← split]
  simp [first, second]

/-- What is written for one entry can be taken for nothing else exactly if it is clean; else it
can be taken for two. -/
theorem readable_iff (entry : LogEntry) :
    ((∀ entries, logOf entries = logOf [entry] → entries = [entry]) ↔ entry.Clean) ∧
      (¬ entry.Clean → ∃ first second, logOf [first, second] = logOf [entry]) := by
  refine ⟨⟨?_, ?_⟩, exists_two_of_not_clean⟩
  · intro only
    by_contra unclean
    obtain ⟨first, second, two⟩ := exists_two_of_not_clean unclean
    have one := congrArg List.length (only _ two)
    simp at one
  · intro clean entries same
    cases entries with
    | nil => exact absurd (logOf_eq_nil.mp same.symm) (List.cons_ne_nil _ _)
    | cons first others =>
        obtain ⟨rfl, later⟩ :=
          entry_of_logOf_cons (fun none => absurd rfl none) (fun _ => clean) same
        rw [logOf_eq_nil.mp later]

/-! ## The file of the service -/

theorem cstr_text (entry : LogEntry) : cstr entry.text = entry.text :=
  cstr_of_nulFree (not_mem_nul_text entry)

theorem flatMap_cstr_text (entries : List LogEntry) :
    (entries.map LogEntry.text).flatMap cstr = logOf entries := by
  rw [List.flatMap_map, logOf]
  simp only [cstr_text]

theorem queue_of_run {turns : Nat} {leftOver : List Bytes} {file : Bytes} {acts : List LogAct}
    {s : LogProcesses}
    (run : Run LogProcesses.step unguarded (.start turns leftOver file) acts s)
    (fits : leftOver.length ≤ maxMsg) : s.shared.queue.length ≤ maxMsg :=
  @MessageQueue.length_of_run _ _ _ transferred maxMsg (fun s => s.shared.queue) _ _ _ _ _
    moves_of_step run fits

/-- Once the service has made it, the file has one reading as clean entries: the first of the
texts that were left in the queue or logged, in their order; it lacks no more than a full queue
and the one in the hands of the service. -/
theorem read_of_run {turns : Nat} {file : Bytes} {acts : List LogAct} {s : LogProcesses}
    {leftOver entries : List LogEntry}
    (run : Run LogProcesses.step unguarded (.start turns (leftOver.map LogEntry.text) file) acts s)
    (opened : created acts) (sent : sentMessages acts = entries.map LogEntry.text)
    (fits : leftOver.length ≤ maxMsg) (clean : ∀ entry ∈ leftOver ++ entries, entry.Clean) :
    ∃ read, (∀ entry ∈ read, entry.Clean) ∧ logOf read = s.shared.file ∧
      (∀ other, (∀ entry ∈ other, entry.Clean) → logOf other = s.shared.file → other = read) ∧
      read <+: leftOver ++ entries ∧
      (leftOver ++ entries).length ≤ read.length + 1 + maxMsg := by
  obtain ⟨written, inHand, order, one, recorded⟩ := recorded_of_run run opened
  rw [sent, ← List.map_append, List.append_assoc] at order
  have front : written = ((leftOver ++ entries).take written.length).map LogEntry.text := by
    rw [List.map_take, order, List.take_left]
  have file : logOf ((leftOver ++ entries).take written.length) = s.shared.file := by
    rw [recorded, ← flatMap_cstr_text, ← front]
  have cleanRead : ∀ entry ∈ (leftOver ++ entries).take written.length, entry.Clean :=
    fun entry member => clean entry (List.mem_of_mem_take member)
  have waiting := queue_of_run run (by rwa [List.length_map])
  have sizes := congrArg List.length order
  simp only [List.length_map, List.length_append] at sizes
  refine ⟨_, cleanRead, file, fun other cleanOther reads => ?_, List.take_prefix _ _, ?_⟩
  · exact entries_of_log cleanOther cleanRead (reads.trans file.symm)
  · rw [List.length_take, List.length_append]
    omega

/-! ## A forged entry -/

theorem nulFree_forged : 0 ∉ ascii "a\nERROR: p" := by decide

/-- `a`, with another entry behind it. -/
def forged : LogEntry := ⟨.info, ⟨ascii "a\nERROR: p", nulFree_forged⟩⟩

/-- One text looks like two entries. -/
example : logOf [infoA, errorP] = logOf [forged] := by decide

theorem clean_infoA : infoA.Clean := by
  intro kind inside
  have short := inside.length_le
  revert short
  cases kind <;> decide

theorem clean_errorP : errorP.Clean := by
  intro kind inside
  have short := inside.length_le
  revert short
  cases kind <;> decide

/-- The file tells that `a` was logged, behind what was left over. -/
theorem read_of_run_infoA : ∃ read : List LogEntry,
    logOf read = ascii "ERROR: p\nINFO: a\n" ∧ read <+: [errorP, infoA] := by
  obtain ⟨s, run, shared⟩ := run_actsA
  have clean : ∀ entry ∈ [errorP] ++ [infoA], entry.Clean := by
    simp only [List.cons_append, List.nil_append, List.forall_mem_cons]
    exact ⟨clean_errorP, clean_infoA, List.forall_mem_nil _⟩
  obtain ⟨read, -, reads, -, front, -⟩ := read_of_run run created_actsA rfl (by decide) clean
  rw [shared] at reads
  exact ⟨read, reads, front⟩

end IpcFtp
