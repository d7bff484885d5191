import IpcFtp.Communication.Handshake
import Mathlib.Data.List.Nodup

/-!
# Clients that take turns

Any number of clients run `connection_open` against one server, which accepts one after
another.  All write their urls, byte by byte, to one connection FIFO, and `comm_accept` takes
what it reads up to a terminator for the url of one of them.

If an end of the connection FIFO is opened only when nobody has it open and nobody who has the
other end open has been met, then one url at a time is on its way (`Traffic`).
-/

namespace IpcFtp

open Lib Program

/-! ## What each has to do with the connection FIFO -/

/-- A client has not opened the FIFO, has its `number`-th description, waiting or with what it
has sent, or has closed it. -/
inductive ClientPhase : Type
  | before
  | opening (number : Nat)
  | sending (number : Nat) (sent : Bytes)
  | after

/-- The server does not have the FIFO open, with the last url it has read, waits, has read
some bytes, or has read a url to its end. -/
inductive ServerPhase : Type
  | idle (last : Option Bytes)
  | opening (number : Nat)
  | reading (number : Nat) (got : Bytes)
  | closing (number : Nat) (text : Bytes)

section Phases

variable (path : Bytes)

def ClientPhase.next (phase : ClientPhase) (event : Event (FifoCall Bytes Byte)) : ClientPhase :=
  if event.call.path = path then
    match phase, event with
    | .before, ⟨.openEnd _ _, some fd⟩ => .opening fd.number
    | .opening number, ⟨.await _, _⟩ => .sending number []
    | .sending number sent, ⟨.write _ c, _⟩ => .sending number (sent ++ [c])
    | .sending _ _, ⟨.close _, _⟩ => .after
    | phase, _ => phase
  else phase

def ServerPhase.next (phase : ServerPhase) (event : Event (FifoCall Bytes Byte)) : ServerPhase :=
  if event.call.path = path then
    match phase, event with
    | .idle _, ⟨.openEnd _ _, some fd⟩ => .opening fd.number
    | .opening number, ⟨.await _, _⟩ => .reading number []
    | .reading number got, ⟨.read _, c⟩ =>
      if c.getD 0 = 0 then .closing number got else .reading number (got ++ [c.getD 0])
    | .closing _ text, ⟨.close _, _⟩ => .idle (some text)
    | phase, _ => phase
  else phase

/-- The calls a client that answers on `responseFifo` makes on the FIFO. -/
def ClientPhase.allowed (word responseFifo : Bytes) (phase : ClientPhase) {β : Type}
    (call : FifoCall Bytes Byte β) : Prop :=
  call.path = path →
    match phase, call with
    | _, .mkfifo _ | _, .access _ => True
    | .before, .openEnd _ side => side = .writing ∧ responseFifo ≠ path
    | .opening number, .await fd => fd = ⟨path, .writing, number⟩
    | .sending number sent, .write fd c => fd = ⟨path, .writing, number⟩ ∧ sent ++ [c] <+: word
    | .sending number sent, .close fd => fd = ⟨path, .writing, number⟩ ∧ sent = word
    | _, _ => False

/-- The calls the server makes on the FIFO; it opens it for writing only to answer. -/
def ServerPhase.allowed (response : Bytes → Bytes) (phase : ServerPhase) {β : Type}
    (call : FifoCall Bytes Byte β) : Prop :=
  call.path = path →
    match phase, call with
    | _, .mkfifo _ | _, .access _ => True
    | .idle _, .openEnd _ .reading => True
    | .idle last, .openEnd _ .writing => ∃ text, last = some text ∧ response text = path
    | .opening number, .await fd => fd = ⟨path, .reading, number⟩
    | .reading number _, .read fd => fd = ⟨path, .reading, number⟩
    | .closing number _, .close fd => fd = ⟨path, .reading, number⟩
    | _, _ => False

end Phases

/-- It has a description. -/
def ClientPhase.Holds : ClientPhase → Prop
  | .opening _ | .sending _ _ => True
  | _ => False

/-- What a client with this word has sent. -/
def ClientPhase.wrote (word : Bytes) : ClientPhase → Bytes
  | .sending _ sent => sent
  | .after => word
  | _ => []

/-- What the server has read of a url. -/
def ServerPhase.got : ServerPhase → Bytes
  | .reading _ got => got
  | _ => []

/-! ## One url at a time -/

/-- The client that has a description, if one has. -/
def Holder (phases : Nat → ClientPhase) (holder : Option Nat) : Prop :=
  ∀ k, (phases k).Holds ↔ holder = some k

/-- The clients that have closed the FIFO were served, but for one. -/
def Settled (phases : Nat → ClientPhase) (served : List Nat) (late : Option Nat) : Prop :=
  ∀ k, phases k = .after → k ∈ served ∨ late = some k

/-- The server receives. -/
def ServerPhase.Receives (phase : ServerPhase) (number : Nat) (got : Bytes) : Prop :=
  (phase = .opening number ∧ got = []) ∨ (phase = .reading number got ∧ 0 ∉ got)

/-- The client sends. -/
def ClientPhase.Sends (phase : ClientPhase) (number : Nat) (sent : Bytes) : Prop :=
  (phase = .opening number ∧ sent = []) ∨ phase = .sending number sent

/-- The words of the clients on their way, one at a time. -/
inductive Traffic (word : Nat → Bytes) (phases : Nat → ClientPhase) (served : List Nat)
    (f : Fifo Byte) : ServerPhase → Prop
  | free {last : Option Bytes} :
    Holder phases none → Settled phases served none → f.Sole .writing none → f.Sole .reading none →
    f.data = [] → Traffic word phases served f (.idle last)
  | serverWaits {m : Nat} :
    Holder phases none → Settled phases served none → f.Sole .writing none →
    f.Sole .reading (some (m, false)) → f.data = [] → Traffic word phases served f (.opening m)
  | clientWaits {k n : Nat} {last : Option Bytes} :
    Holder phases (some k) → Settled phases served none → phases k = .opening n → k ∉ served →
    f.Sole .writing (some (n, false)) → f.Sole .reading none → f.data = [] →
    Traffic word phases served f (.idle last)
  | joined {k n m : Nat} {server : ServerPhase} {got sent : Bytes} :
    Holder phases (some k) → Settled phases served none → (phases k).Sends n sent → k ∉ served →
    sent <+: word k → f.Sole .writing (some (n, true)) → f.Sole .reading (some (m, true)) →
    server.Receives m got → got ++ f.data = sent → Traffic word phases served f server
  | left {k m : Nat} {server : ServerPhase} {got : Bytes} :
    Holder phases none → Settled phases served (some k) → phases k = .after → k ∉ served →
    f.Sole .writing none → f.Sole .reading (some (m, true)) → server.Receives m got →
    got ++ f.data = word k → Traffic word phases served f server
  | taken {k n m : Nat} {text : Bytes} :
    Holder phases (some k) → Settled phases served none → phases k = .sending n (word k) →
    k ∈ served → f.Sole .writing (some (n, true)) → f.Sole .reading (some (m, true)) → f.data = [] →
    Traffic word phases served f (.closing m text)
  | stays {k n : Nat} {last : Option Bytes} :
    Holder phases (some k) → Settled phases served none → phases k = .sending n (word k) →
    k ∈ served → f.Sole .writing (some (n, true)) → f.Sole .reading none → f.data = [] →
    Traffic word phases served f (.idle last)
  | closing {m : Nat} {text : Bytes} :
    Holder phases none → Settled phases served none → f.Sole .writing none →
    f.Sole .reading (some (m, true)) → f.data = [] → Traffic word phases served f (.closing m text)

section Traffic

variable {word : Nat → Bytes} {phases : Nat → ClientPhase} {served : List Nat} {f : Fifo Byte}
  {server : ServerPhase} {k n m : Nat} {holder late : Option Nat}

theorem Holder.update {phase : ClientPhase} (held : Holder phases holder) (own : phase.Holds)
    (sole : holder = none ∨ holder = some k) :
    Holder (Function.update phases k phase) (some k) := by
  intro j
  by_cases same : j = k
  · subst same
    rw [Function.update_self]
    exact iff_of_true own rfl
  · rw [Function.update_of_ne same, held j]
    rcases sole with rfl | rfl
    · exact iff_of_false nofun fun other => same (Option.some.inj other).symm
    · rfl

theorem Holder.release (held : Holder phases (some k)) :
    Holder (Function.update phases k .after) none := by
  intro j
  by_cases same : j = k
  · subst same
    rw [Function.update_self]
    exact iff_of_false id nofun
  · rw [Function.update_of_ne same, held j]
    exact iff_of_false (fun other => same (Option.some.inj other).symm) nofun

/-- Whoever has a description is the holder. -/
theorem Holder.eq (held : Holder phases holder) (own : (phases k).Holds) : holder = some k :=
  (held k).mp own

theorem Settled.update {phase : ClientPhase} (settled : Settled phases served late)
    (unfinished : phase ≠ .after) : Settled (Function.update phases k phase) served late := by
  intro j
  by_cases same : j = k
  · subst same
    rw [Function.update_self]
    exact fun ended => absurd ended unfinished
  · rw [Function.update_of_ne same]
    exact settled j

theorem Settled.release (settled : Settled phases served none) (known : k ∈ served ∨ late = some k) :
    Settled (Function.update phases k .after) served late := by
  intro j
  by_cases same : j = k
  · subst same
    exact fun _ => known
  · rw [Function.update_of_ne same]
    intro ended
    rcases settled j ended with inside | late
    · exact .inl inside
    · cases late

/-- A client that sends is the only one, and the server receives what it sends or has taken its
whole word. -/
theorem Traffic.of_sending {sent : Bytes} (traffic : Traffic word phases served f server)
    (sends : phases k = .sending n sent) :
    Holder phases (some k) ∧ Settled phases served none ∧ f.Sole .writing (some (n, true)) ∧
      ((∃ m got, k ∉ served ∧ f.Sole .reading (some (m, true)) ∧ server.Receives m got ∧
          got ++ f.data = sent) ∨
        (k ∈ served ∧ sent = word k ∧ f.data = [] ∧
          ((∃ m text, server = .closing m text ∧ f.Sole .reading (some (m, true))) ∨
            ∃ last, server = .idle last ∧ f.Sole .reading none))) := by
  have holds : (phases k).Holds := sends ▸ trivial
  cases traffic with
  | free holder | serverWaits holder | left holder | closing holder => cases holder.eq holds
  | clientWaits holder _ same =>
      obtain rfl := Option.some.inj (holder.eq holds)
      cases same.symm.trans sends
  | joined holder settled same new _ writing reading receives split =>
      obtain rfl := Option.some.inj (holder.eq holds)
      rcases same with ⟨same, -⟩ | same
      · cases same.symm.trans sends
      · obtain ⟨rfl, rfl⟩ := ClientPhase.sending.inj (same.symm.trans sends)
        exact ⟨holder, settled, writing, .inl ⟨_, _, new, reading, receives, split⟩⟩
  | taken holder settled same old writing reading data =>
      obtain rfl := Option.some.inj (holder.eq holds)
      obtain ⟨rfl, rfl⟩ := ClientPhase.sending.inj (same.symm.trans sends)
      exact ⟨holder, settled, writing, .inr ⟨old, rfl, data, .inl ⟨_, _, rfl, reading⟩⟩⟩
  | stays holder settled same old writing reading data =>
      obtain rfl := Option.some.inj (holder.eq holds)
      obtain ⟨rfl, rfl⟩ := ClientPhase.sending.inj (same.symm.trans sends)
      exact ⟨holder, settled, writing, .inr ⟨old, rfl, data, .inr ⟨_, rfl, reading⟩⟩⟩

/-- While the server reads, what it has read and what it can read is what one client has sent. -/
theorem Traffic.of_reading {got : Bytes} (traffic : Traffic word phases served f (.reading m got)) :
    0 ∉ got ∧ f.Sole .reading (some (m, true)) ∧ ∃ k, k ∉ served ∧
      ((∃ n, Holder phases (some k) ∧ Settled phases served none ∧
          (phases k).Sends n (got ++ f.data) ∧ got ++ f.data <+: word k ∧
            f.Sole .writing (some (n, true))) ∨
        (Holder phases none ∧ Settled phases served (some k) ∧ phases k = .after ∧
          got ++ f.data = word k ∧ f.Sole .writing none)) := by
  generalize same : ServerPhase.reading m got = server at traffic
  have reads {m' : Nat} {got' : Bytes} (receives : (ServerPhase.reading m got).Receives m' got') :
      m' = m ∧ got' = got ∧ 0 ∉ got := by
    rcases receives with ⟨other, -⟩ | ⟨same, free⟩
    · cases other
    · obtain ⟨rfl, rfl⟩ := ServerPhase.reading.inj same
      exact ⟨rfl, rfl, free⟩
  cases traffic with
  | @joined k n _ _ _ _ holder settled sends new part writing reading receives split =>
      subst same
      obtain ⟨rfl, rfl, free⟩ := reads receives
      subst split
      exact ⟨free, reading, k, new, .inl ⟨n, holder, settled, sends, part, writing⟩⟩
  | @left k _ _ _ holder settled ended new writing reading receives split =>
      subst same
      obtain ⟨rfl, rfl, free⟩ := reads receives
      exact ⟨free, reading, k, new, .inr ⟨holder, settled, ended, split, writing⟩⟩
  | free | serverWaits | clientWaits | taken | stays | closing => cases same

/-- A client opens the FIFO. -/
theorem Traffic.client_opens (traffic : Traffic word phases served f server)
    (free : f.free .writing = true) (new : k ∉ served) :
    Traffic word (Function.update phases k (.opening (f.ends .writing).length)) served
      (f.openEnd .writing) server := by
  have closed := Fifo.not_held_of_free free
  have unmet {m : Nat} : f.met .reading m ≠ some true := Fifo.not_met_of_free free
  have own : Function.update phases k (.opening (f.ends .writing).length) k =
    .opening (f.ends .writing).length := Function.update_self ..
  cases traffic with
  | free holder settled writing reading data =>
      have opened := writing.openEnd
      rw [Side.other, reading.held] at opened
      have meets : (f.openEnd .writing).Sole Side.writing.other _ := Fifo.Sole.meets reading
      exact .clientWaits (holder.update trivial (.inl rfl)) (settled.update (by simp)) own new opened
        meets data
  | serverWaits holder settled writing reading data =>
      have opened := writing.openEnd
      rw [Side.other, reading.held] at opened
      have meets : (f.openEnd .writing).Sole Side.writing.other _ := Fifo.Sole.meets reading
      exact .joined (holder.update trivial (.inl rfl)) (settled.update (by simp)) (.inl ⟨own, rfl⟩) new
        List.nil_prefix opened meets (.inl ⟨rfl, rfl⟩) data
  | clientWaits _ _ _ _ writing | joined _ _ _ _ _ writing | taken _ _ _ _ writing
  | stays _ _ _ _ writing =>
      rw [writing.held] at closed
      cases closed
  | left _ _ _ _ _ reading | closing _ _ _ reading => exact absurd reading.met_self unmet

/-- A client stops waiting. -/
theorem Traffic.client_awaits (traffic : Traffic word phases served f server)
    (waiting : phases k = .opening n) (met : f.met .writing n ≠ some false) :
    Traffic word (Function.update phases k (.sending n [])) served f server := by
  have holds : (phases k).Holds := waiting ▸ trivial
  cases traffic with
  | free holder | serverWaits holder | left holder | closing holder => cases holder.eq holds
  | clientWaits holder _ same _ writing =>
      obtain rfl := Option.some.inj (holder.eq holds)
      obtain rfl := ClientPhase.opening.inj (same.symm.trans waiting)
      exact absurd writing.met_self met
  | joined holder settled sends new part writing reading receives split =>
      obtain rfl := Option.some.inj (holder.eq holds)
      rcases sends with ⟨same, rfl⟩ | same
      · obtain rfl := ClientPhase.opening.inj (same.symm.trans waiting)
        exact .joined (holder.update trivial (.inr rfl)) (settled.update nofun)
          (.inr (Function.update_self ..)) new part writing reading receives split
      · cases same.symm.trans waiting
  | taken holder _ same | stays holder _ same =>
      obtain rfl := Option.some.inj (holder.eq holds)
      cases same.symm.trans waiting

/-- A client writes a byte. -/
theorem Traffic.client_writes {sent : Bytes} {c : Byte} (traffic : Traffic word phases served f server)
    (sends : phases k = .sending n sent) (part : sent ++ [c] <+: word k) :
    Traffic word (Function.update phases k (.sending n (sent ++ [c]))) served
      { f with data := f.data ++ [c] } server := by
  obtain ⟨holder, settled, writing, ⟨m, got, new, reading, receives, split⟩ | ⟨-, rfl, -⟩⟩ :=
    traffic.of_sending sends
  · refine .joined (holder.update trivial (.inr rfl)) (settled.update nofun)
      (.inr (Function.update_self ..)) new part writing reading receives ?_
    rw [← List.append_assoc, split]
  · -- a client that has sent its word does not write
    have longer := part.length_le
    rw [List.length_append, List.length_singleton] at longer
    omega

/-- A client that has sent its word closes the FIFO. -/
theorem Traffic.client_closes (traffic : Traffic word phases served f server)
    (sent : phases k = .sending n (word k)) :
    Traffic word (Function.update phases k .after) served (f.close .writing n) server := by
  have own : Function.update phases k .after k = .after := Function.update_self ..
  obtain ⟨holder, settled, writing, ⟨m, got, new, reading, receives, split⟩ |
    ⟨old, -, data, ⟨m, text, rfl, reading⟩ | ⟨last, rfl, reading⟩⟩⟩ := traffic.of_sending sent
  · refine .left holder.release (settled.release (.inr rfl)) own new writing.closes
      reading.close_other receives ?_
    rw [Fifo.data_close reading (.inl rfl), split]
  · exact .closing holder.release (settled.release (.inl old)) writing.closes reading.close_other
      ((Fifo.data_close reading (.inr data)).trans data)
  · exact .free holder.release (settled.release (.inl old)) writing.closes reading.close_other
      ((Fifo.data_close reading (.inr data)).trans data)

/-- The server opens the FIFO. -/
theorem Traffic.server_opens {last : Option Bytes} (traffic : Traffic word phases served f (.idle last))
    (free : f.free .reading = true) :
    Traffic word phases served (f.openEnd .reading) (.opening (f.ends .reading).length) := by
  have unmet {m : Nat} : f.met .writing m ≠ some true := Fifo.not_met_of_free free
  generalize same : ServerPhase.idle last = server at traffic
  cases traffic with
  | free holder settled writing reading data =>
      have opened := reading.openEnd
      rw [Side.other, writing.held] at opened
      have meets : (f.openEnd .reading).Sole Side.reading.other _ := Fifo.Sole.meets writing
      exact .serverWaits holder settled meets opened data
  | clientWaits holder settled waits new writing reading data =>
      have opened := reading.openEnd
      rw [Side.other, writing.held] at opened
      have meets : (f.openEnd .reading).Sole Side.reading.other _ := Fifo.Sole.meets writing
      exact .joined holder settled (.inl ⟨waits, rfl⟩) new List.nil_prefix meets opened
        (.inl ⟨rfl, rfl⟩) data
  | stays _ _ _ _ writing => exact absurd writing.met_self unmet
  | joined _ _ _ _ _ _ _ receives | left _ _ _ _ _ _ receives =>
      subst same
      rcases receives with ⟨other, -⟩ | ⟨other, -⟩ <;> cases other
  | serverWaits | taken | closing => cases same

/-- The server stops waiting. -/
theorem Traffic.server_awaits (traffic : Traffic word phases served f (.opening m))
    (met : f.met .reading m ≠ some false) : Traffic word phases served f (.reading m []) := by
  generalize same : ServerPhase.opening m = server at traffic
  cases traffic with
  | serverWaits _ _ _ reading =>
      cases same
      exact absurd reading.met_self met
  | joined holder settled sends new part writing reading receives split =>
      subst same
      rcases receives with ⟨waiting, rfl⟩ | ⟨other, -⟩
      · obtain rfl := ServerPhase.opening.inj waiting
        exact .joined holder settled sends new part writing reading (.inr ⟨rfl, List.not_mem_nil⟩) split
      · cases other
  | left holder settled ended new writing reading receives split =>
      subst same
      rcases receives with ⟨waiting, rfl⟩ | ⟨other, -⟩
      · obtain rfl := ServerPhase.opening.inj waiting
        exact .left holder settled ended new writing reading (.inr ⟨rfl, List.not_mem_nil⟩) split
      · cases other
  | free | clientWaits | taken | stays | closing => cases same

/-- The server closes the FIFO. -/
theorem Traffic.server_closes {text : Bytes} (traffic : Traffic word phases served f (.closing m text)) :
    Traffic word phases served (f.close .reading m) (.idle (some text)) := by
  generalize same : ServerPhase.closing m text = server at traffic
  cases traffic with
  | taken holder settled sent old writing reading data =>
      cases same
      exact .stays holder settled sent old writing.close_other reading.closes
        ((Fifo.data_close writing (.inr data)).trans data)
  | closing holder settled writing reading data =>
      cases same
      exact .free holder settled writing.close_other reading.closes
        ((Fifo.data_close writing (.inr data)).trans data)
  | joined _ _ _ _ _ _ _ receives | left _ _ _ _ _ _ receives =>
      subst same
      rcases receives with ⟨other, -⟩ | ⟨other, -⟩ <;> cases other
  | free | serverWaits | clientWaits | stays => cases same

/-- A byte that is not a terminator is one more of the url. -/
theorem Traffic.server_reads {got rest : Bytes} {c : Byte}
    (traffic : Traffic word phases served f (.reading m got)) (first : f.data = c :: rest)
    (more : c ≠ 0) :
    Traffic word phases served { f with data := rest } (.reading m (got ++ [c])) := by
  obtain ⟨free, reading, k, new, one⟩ := traffic.of_reading
  have split : got ++ f.data = (got ++ [c]) ++ rest := by
    rw [first, List.append_assoc]
    rfl
  have free' : 0 ∉ got ++ [c] := by
    rw [List.mem_append, List.mem_singleton, not_or]
    exact ⟨free, Ne.symm more⟩
  rw [split] at one
  rcases one with ⟨n, holder, settled, sends, part, writing⟩ | ⟨holder, settled, ended, whole, writing⟩
  · exact .joined holder settled sends new part writing reading (.inr ⟨rfl, free'⟩) rfl
  · exact .left holder settled ended new writing reading (.inr ⟨rfl, free'⟩) whole

theorem Settled.append (settled : Settled phases served late) (closer : late = none ∨ late = some k) :
    Settled phases (served ++ [k]) none := by
  intro j ended
  refine .inl (List.mem_append.mpr ?_)
  rcases settled j ended with inside | same
  · exact .inl inside
  · rcases closer with rfl | rfl
    · cases same
    · exact .inr (List.mem_singleton.mpr (Option.some.inj same).symm)

/-- A front of a word up to a terminator is the whole word. -/
theorem whole_of_prefix {got rest text : Bytes} (nulFree : 0 ∉ text) (free : 0 ∉ got)
    (part : got ++ 0 :: rest <+: text ++ [0]) : got = text ∧ rest = [] := by
  obtain ⟨tail, split⟩ := part
  rw [List.append_assoc, List.cons_append] at split
  have same := congrArg cstr split
  rw [cstr_append_of_nulFree free, cstr_append_of_nulFree nulFree] at same
  obtain rfl : got = text := by simpa [cstr] using same
  have ends := List.append_cancel_left split
  simp only [List.cons.injEq, List.append_eq_nil_iff, true_and] at ends
  exact ⟨rfl, ends.1⟩

/-- The terminator ends the url of a client that has not been served. -/
theorem Traffic.server_finishes {url : Nat → CString} {got rest : Bytes}
    (traffic : Traffic (fun k => urlWord (url k)) phases served f (.reading m got))
    (first : f.data = 0 :: rest) :
    ∃ k, got = (url k).bytes ∧ k ∉ served ∧ phases k ≠ .before ∧
      Traffic (fun k => urlWord (url k)) phases (served ++ [k]) { f with data := rest }
        (.closing m got) := by
  obtain ⟨free, reading, k, new, one⟩ := traffic.of_reading
  rw [first] at one
  rcases one with ⟨n, holder, settled, sends, part, writing⟩ | ⟨holder, settled, ended, whole, writing⟩
  · obtain ⟨rfl, rfl⟩ := whole_of_prefix (url k).nulFree free part
    rcases sends with ⟨-, empty⟩ | sends
    · simp at empty
    · refine ⟨k, rfl, new, by simp [sends], ?_⟩
      exact .taken holder (settled.append (.inl rfl)) sends
        (List.mem_append_right _ (List.mem_singleton_self k)) writing reading rfl
  · have part : got ++ 0 :: rest <+: (url k).bytes ++ [0] := whole ▸ List.prefix_refl _
    obtain ⟨rfl, rfl⟩ := whole_of_prefix (url k).nulFree free part
    refine ⟨k, rfl, new, by simp [ended], ?_⟩
    exact .closing holder (settled.append (.inr rfl)) writing reading rfl

/-- The server does not read past the end of what a client has sent. -/
theorem Traffic.held_of_empty {url : Nat → CString} {got : Bytes}
    (traffic : Traffic (fun k => urlWord (url k)) phases served f (.reading m got))
    (empty : f.data = []) : f.held .writing = true := by
  obtain ⟨free, -, k, -, one⟩ := traffic.of_reading
  rw [empty, List.append_nil] at one
  rcases one with ⟨n, -, -, -, -, writing⟩ | ⟨-, -, -, whole, -⟩
  · exact writing.held
  · -- a client that has closed the FIFO has sent a terminator
    refine absurd ?_ free
    rw [whole]
    exact List.mem_append_right _ (List.mem_singleton_self 0)

end Traffic

/-! ## The calls of each program -/

section Contracts

variable {path : Bytes} {α : Type}

/-- A program that does not call on the FIFO. -/
def Quiet (path : Bytes) (good : Except Halt α → Prop) (p : FifoProgram α) : Prop :=
  p.Meets (fun (_ : Unit) event _ => Fifos.Possible path event) (fun _ {_} call => call.path ≠ path)
    (fun result _ => good result) ()

/-- Such a program keeps any contract about the FIFO. -/
theorem Quiet.meets {σ : Type} {happens : σ → Event (FifoCall Bytes Byte) → σ → Prop}
    {allowed : σ → ∀ {β : Type}, FifoCall Bytes Byte β → Prop} {good : Except Halt α → Prop}
    {p : FifoProgram α} {s : σ} (quiet : Quiet path good p)
    (possible : ∀ event s', event.call.path ≠ path → happens s event s' →
      Fifos.Possible path event ∧ s' = s)
    (free : ∀ {β : Type} (call : FifoCall Bytes Byte β), call.path ≠ path → allowed s call) :
    p.Meets happens allowed (fun result s' => good result ∧ s' = s) s := by
  induction p with
  | ret a => exact ⟨quiet, rfl⟩
  | fault e => exact ⟨quiet, rfl⟩
  | call c next ih =>
      obtain ⟨elsewhere, later⟩ := quiet
      refine ⟨free c elsewhere, fun b s' taken => ?_⟩
      obtain ⟨can, rfl⟩ := possible ⟨c, b⟩ s' elsewhere taken
      exact ih b (later b () can)

variable {fd : Fd} {other : Bytes} {side : Side}

theorem quiet_openFifo (elsewhere : other ≠ path) :
    Quiet path (fun result => ∀ fd, result = .ok (some fd) → fd.path = other)
      (openFifo other side) := by
  refine ⟨elsewhere, ?_⟩
  intro opened _ given
  obtain ⟨-, named⟩ := given
  cases opened with
  | none => exact nofun
  | some fd =>
      have same := (named fd rfl).1
      refine ⟨fun here => elsewhere (same.symm.trans here), fun _ _ _ => ?_⟩
      intro _ given
      cases given
      exact same

theorem quiet_writeOneByOne (elsewhere : fd.path ≠ path) (data : Bytes) (size : Nat) :
    Quiet path (fun _ => True) (writeOneByOne fd data size) := by
  induction data generalizing size with
  | nil => exact ⟨elsewhere, fun _ _ _ => trivial⟩
  | cons c data ih =>
      rcases size with _ | size
      · exact ⟨elsewhere, fun _ _ _ => trivial⟩
      · rw [writeOneByOne]
        split_ifs
        · exact ⟨elsewhere, fun _ _ _ => trivial⟩
        · exact ⟨elsewhere, fun _ _ _ => ih size⟩

theorem quiet_readAck (elsewhere : fd.path ≠ path) (fresh : Nat → Byte) (left : Nat) (cells : Bytes) :
    Quiet path (fun _ => True) (readAck fd fresh left cells) := by
  induction left generalizing cells with
  | zero => exact ⟨elsewhere, fun _ _ _ => trivial⟩
  | succ left ih =>
      refine ⟨elsewhere, fun c _ _ => ?_⟩
      change Meets _ _ _ (ite _ _ _) ()
      split_ifs
      · trivial
      · exact ih _

theorem quiet_readBack (elsewhere : fd.path ≠ path) (left : Nat) (got : Bytes) :
    Quiet path (fun _ => True) (readBack fd left got) := by
  induction left generalizing got with
  | zero =>
      refine ⟨elsewhere, fun c _ _ => ?_⟩
      change Meets _ _ _ (ite _ _ (ite _ _ _)) ()
      split_ifs <;> trivial
  | succ left ih =>
      refine ⟨elsewhere, fun c _ _ => ?_⟩
      change Meets _ _ _ (ite _ _ _) ()
      split_ifs
      · trivial
      · exact ih _

theorem quiet_connectionConfirm {responseFifo requestFifo : Bytes} (response : responseFifo ≠ path)
    (request : requestFifo ≠ path) (fresh : Nat → Byte) (conn : Connection) (url : Bytes) :
    Quiet path (fun _ => True) (connectionConfirm fresh conn url responseFifo requestFifo) := by
  refine Meets.bind ((quiet_openFifo response).mono ?_)
  rintro (e | opened) _ named
  · trivial
  cases opened with
  | none => trivial
  | some fd =>
      have elsewhere : fd.path ≠ path := named fd rfl ▸ response
      refine Meets.bind ((quiet_readAck elsewhere fresh _ []).mono ?_)
      rintro (e | cells) _ -
      · trivial
      change Meets _ _ _ (ite _ _ _) ()
      split_ifs
      · trivial
      refine Meets.bind ((quiet_openFifo request).mono ?_)
      rintro (e | opened) _ named
      · trivial
      cases opened with
      | none => trivial
      | some fd =>
          refine Meets.bind ((quiet_writeOneByOne (named fd rfl ▸ request) _ _).mono ?_)
          rintro (e | done) _ - <;> trivial

/-- What the master goes on with. -/
def SameServer (conn : Connection) : Except Halt (CommError × Connection) → Prop
  | .ok (_, conn') => conn'.connectionFile = conn.connectionFile ∧ conn'.serverAddr = conn.serverAddr
  | .error _ => True

theorem quiet_commConfirm {responseFifo requestFifo : Bytes} (response : responseFifo ≠ path)
    (request : requestFifo ≠ path) (conn : Connection) (buffer : Bytes) :
    Quiet path (SameServer conn) (commConfirm conn buffer requestFifo responseFifo) := by
  refine Meets.bind ((quiet_openFifo response).mono ?_)
  rintro (e | opened) _ named
  · trivial
  cases opened with
  | none => trivial
  | some fd =>
      refine Meets.bind ((quiet_writeOneByOne (named fd rfl ▸ response) _ _).mono ?_)
      rintro (e | done) _ -
      · trivial
      refine Meets.bind ((quiet_openFifo request).mono ?_)
      rintro (e | opened) _ named
      · trivial
      cases opened with
      | none => exact ⟨rfl, rfl⟩
      | some fd =>
          refine Meets.bind ((quiet_readBack (named fd rfl ▸ request) _ []).mono ?_)
          rintro (e | again) _ -
          · trivial
          change Meets _ _ _ (ite _ _ _) ()
          split_ifs
          · exact ⟨rfl, rfl⟩
          · exact ⟨rfl, rfl⟩

/-! ### The client -/

/-- A step of the FIFO's business of a client. -/
def ClientPhase.happens (path : Bytes) (phase : ClientPhase) (event : Event (FifoCall Bytes Byte))
    (phase' : ClientPhase) : Prop :=
  Fifos.Possible path event ∧ phase' = phase.next path event

abbrev ClientKeeps (path word responseFifo : Bytes) (post : Except Halt α → ClientPhase → Prop)
    (p : FifoProgram α) (phase : ClientPhase) : Prop :=
  p.Meets (ClientPhase.happens path) (fun phase {_} call => phase.allowed path word responseFifo call)
    post phase

variable {word responseFifo : Bytes}

theorem Quiet.client {good : Except Halt α → Prop} {p : FifoProgram α} (quiet : Quiet path good p)
    (phase : ClientPhase) :
    ClientKeeps path word responseFifo (fun result phase' => good result ∧ phase' = phase) p phase := by
  refine quiet.meets ?_ ?_
  · intro event phase' elsewhere given
    obtain ⟨possible, rfl⟩ := given
    exact ⟨possible, if_neg elsewhere⟩
  · exact fun call elsewhere here => absurd here elsewhere

/-- Calls that make or look for a FIFO change nothing. -/
theorem ClientPhase.next_mkfifo {phase : ClientPhase} {made : Bool} :
    phase.next path ⟨.mkfifo other, made⟩ = phase := by
  unfold ClientPhase.next
  split_ifs
  · cases phase <;> rfl
  · rfl

theorem ClientPhase.next_access {phase : ClientPhase} {there : Bool} :
    phase.next path ⟨.access other, there⟩ = phase := by
  unfold ClientPhase.next
  split_ifs
  · cases phase <;> rfl
  · rfl

variable {number number' : Nat} {sent : Bytes}

theorem ClientPhase.next_opens : ClientPhase.next path .before
    ⟨.openEnd path side, some ⟨other, side, number⟩⟩ = .opening number := if_pos rfl

theorem ClientPhase.next_awaits : ClientPhase.next path (.opening number)
    ⟨.await ⟨path, side, number'⟩, ()⟩ = .sending number [] := if_pos rfl

theorem ClientPhase.next_writes {c : Byte} {written : Bool} :
    ClientPhase.next path (.sending number sent) ⟨.write ⟨path, side, number'⟩ c, written⟩ =
      .sending number (sent ++ [c]) := if_pos rfl

theorem ClientPhase.next_closes : ClientPhase.next path (.sending number sent)
    ⟨.close ⟨path, side, number'⟩, ()⟩ = .after := if_pos rfl

theorem clientKeeps_writeOneByOne {data : Bytes} (nulFree : 0 ∉ data)
    (whole : sent ++ (data ++ [0]) = word) :
    ClientKeeps path word responseFifo
      (fun result phase => result = .ok () ∧ phase = .sending number word)
      (writeOneByOne ⟨path, .writing, number⟩ data data.length) (.sending number sent) := by
  induction data generalizing sent with
  | nil =>
      refine ⟨fun _ => ⟨rfl, whole ▸ List.prefix_refl _⟩, ?_⟩
      intro written _ given
      obtain ⟨-, rfl⟩ := given
      exact ⟨rfl, (if_pos rfl).trans (congrArg _ whole)⟩
  | cons c data ih =>
      rw [List.mem_cons, not_or] at nulFree
      rw [List.length_cons, writeOneByOne, if_neg (Ne.symm nulFree.1)]
      have whole' : (sent ++ [c]) ++ (data ++ [0]) = word := by
        rw [← whole, List.append_assoc]
        rfl
      refine ⟨fun _ => ⟨rfl, ⟨_, whole'⟩⟩, ?_⟩
      intro written _ given
      obtain ⟨-, rfl⟩ := given
      rw [ClientPhase.next_writes]
      exact ih nulFree.2 whole'

theorem clientKeeps_openFifo (response : responseFifo ≠ path) :
    ClientKeeps path word responseFifo
      (fun result phase => ∃ number, result = .ok (some ⟨path, .writing, number⟩) ∧
        phase = .sending number [])
      (openFifo path .writing) .before := by
  refine ⟨fun _ => ⟨rfl, response⟩, ?_⟩
  intro opened _ given
  obtain ⟨⟨there, named⟩, rfl⟩ := given
  obtain ⟨⟨other, side, number⟩, rfl⟩ := Option.ne_none_iff_exists'.mp (there rfl)
  obtain ⟨rfl, rfl⟩ := named _ rfl
  rw [ClientPhase.next_opens]
  refine ⟨fun _ => rfl, ?_⟩
  intro _ _ given
  obtain ⟨-, rfl⟩ := given
  exact ⟨number, rfl, ClientPhase.next_awaits⟩

theorem clientKeeps_connectionReach {url : CString} {clientHost serverHost : Bytes}
    (fresh : Nat → Byte) (conn : Connection) :
    ClientKeeps (connectionPath serverHost) (urlWord url) (fifoPath serverHost clientHost)
      (fun _ _ => True) (connectionReach fresh conn url.bytes clientHost serverHost) .before := by
  unfold connectionReach
  simp only [perform_bind]
  refine ⟨fun _ => trivial, ?_⟩
  intro made _ given
  obtain ⟨possible, rfl⟩ := given
  rw [ClientPhase.next_mkfifo]
  cases made with
  | false => trivial
  | true =>
  have response := possible rfl
  have request : fifoPath clientHost serverHost ≠ connectionPath serverHost :=
    fun same => response (fifoPath_eq_connectionPath same)
  dsimp only
  rw [if_neg (by decide)]
  refine ⟨fun _ => trivial, ?_⟩
  intro there _ given
  obtain ⟨-, rfl⟩ := given
  rw [ClientPhase.next_access]
  cases there with
  | false => trivial
  | true =>
  dsimp only
  rw [if_neg (by decide)]
  refine Meets.bind ((clientKeeps_openFifo response).mono ?_)
  intro _ _ given
  obtain ⟨number, rfl, rfl⟩ := given
  have whole : [] ++ (url.bytes ++ [0]) = urlWord url := rfl
  refine Meets.bind ((clientKeeps_writeOneByOne url.nulFree whole).mono ?_)
  intro _ _ given
  obtain ⟨rfl, rfl⟩ := given
  refine ⟨fun _ => ⟨rfl, rfl⟩, ?_⟩
  intro _ _ given
  obtain ⟨-, rfl⟩ := given
  have quiet := quiet_connectionConfirm response request fresh { conn with
    connectionFile := some (connectionPath serverHost) } url.bytes
  exact (quiet.client _).mono fun _ _ _ => trivial

theorem clientKeeps_connectionOpen {url : CString} {serverHost : Bytes} {conn : Connection}
    (fresh : Nat → Byte) (client : conn.clientAddr = some (addressFromUrl .fifo url.bytes .new).2)
    (server : ∃ address, conn.serverAddr = some address ∧ address.host = some serverHost) :
    ClientKeeps (connectionPath serverHost) (urlWord url) (fifoPath serverHost (urlHost url))
      (fun _ _ => True) (connectionOpen fresh conn) .before := by
  obtain ⟨address, known, hosted⟩ := server
  unfold connectionOpen
  rw [client, known]
  simp only [deref, ret_bind]
  split_ifs
  · trivial
  · trivial
  rw [hosted]
  cases host : (addressFromUrl .fifo url.bytes .new).2.host with
  | none => trivial
  | some clientHost =>
      have named : urlHost url = clientHost := by rw [urlHost, host, Option.getD_some]
      rw [named, addressFromUrl_url]
      exact clientKeeps_connectionReach fresh _

/-! ### The server -/

/-- The loop of `listen_connections` around `comm_accept`, cut off after `n` connections; what
the worker it forks does is not its business. -/
def acceptLoop : Nat → CommError → Connection → FifoProgram (CommError × Connection)
  | 0, error, conn => .ret (error, conn)
  | n + 1, _, conn => do
    let (error, conn) ← commAccept conn
    if error.code ≠ 0 then
      return (error, conn)
    else
      acceptLoop n error conn

/-- The host in a url. -/
def hostOf (text : Bytes) : Bytes := (addressFromUrl .fifo text .new).2.host.getD []

/-- An open for writing. -/
def OpensForWriting (path : Bytes) : Event (FifoCall Bytes Byte) → Prop
  | ⟨.openEnd other .writing, _⟩ => other = path
  | _ => False

/-- A step of the server that does not open the connection FIFO for writing. -/
def ServerPhase.happens (path : Bytes) (phase : ServerPhase) (event : Event (FifoCall Bytes Byte))
    (phase' : ServerPhase) : Prop :=
  (Fifos.Possible path event ∧ ¬ OpensForWriting path event) ∧ phase' = phase.next path event

abbrev ServerKeeps (path : Bytes) (response : Bytes → Bytes)
    (post : Except Halt α → ServerPhase → Prop) (p : FifoProgram α) (phase : ServerPhase) : Prop :=
  p.Meets (ServerPhase.happens path) (fun phase {_} call => phase.allowed path response call) post phase

variable {response : Bytes → Bytes} {last : Option Bytes} {got text : Bytes}

theorem Quiet.server {good : Except Halt α → Prop} {p : FifoProgram α} (quiet : Quiet path good p)
    (phase : ServerPhase) :
    ServerKeeps path response (fun result phase' => good result ∧ phase' = phase) p phase := by
  refine quiet.meets ?_ ?_
  · intro event phase' elsewhere given
    obtain ⟨⟨possible, -⟩, rfl⟩ := given
    exact ⟨possible, if_neg elsewhere⟩
  · exact fun call elsewhere here => absurd here elsewhere

theorem ServerPhase.next_mkfifo {phase : ServerPhase} {made : Bool} :
    phase.next path ⟨.mkfifo other, made⟩ = phase := by
  unfold ServerPhase.next
  split_ifs
  · cases phase <;> rfl
  · rfl

theorem ServerPhase.next_access {phase : ServerPhase} {there : Bool} :
    phase.next path ⟨.access other, there⟩ = phase := by
  unfold ServerPhase.next
  split_ifs
  · cases phase <;> rfl
  · rfl

theorem ServerPhase.next_opens : ServerPhase.next path (.idle last)
    ⟨.openEnd path side, some ⟨other, side, number⟩⟩ = .opening number := if_pos rfl

theorem ServerPhase.next_awaits : ServerPhase.next path (.opening number)
    ⟨.await ⟨path, side, number'⟩, ()⟩ = .reading number [] := if_pos rfl

theorem ServerPhase.next_reads {c : Option Byte} : ServerPhase.next path (.reading number got)
    ⟨.read ⟨path, side, number'⟩, c⟩ =
      if c.getD 0 = 0 then .closing number got else .reading number (got ++ [c.getD 0]) := if_pos rfl

theorem ServerPhase.next_closes : ServerPhase.next path (.closing number text)
    ⟨.close ⟨path, side, number'⟩, ()⟩ = .idle (some text) := if_pos rfl

theorem serverKeeps_openFifo :
    ServerKeeps path response
      (fun result phase => ∃ number, result = .ok (some ⟨path, .reading, number⟩) ∧
        phase = .reading number [])
      (openFifo path .reading) (.idle last) := by
  refine ⟨fun _ => trivial, ?_⟩
  intro opened _ given
  obtain ⟨⟨⟨there, named⟩, -⟩, rfl⟩ := given
  obtain ⟨⟨other, side, number⟩, rfl⟩ := Option.ne_none_iff_exists'.mp (there rfl)
  obtain ⟨rfl, rfl⟩ := named _ rfl
  rw [ServerPhase.next_opens]
  refine ⟨fun _ => rfl, ?_⟩
  intro _ _ given
  obtain ⟨-, rfl⟩ := given
  exact ⟨number, rfl, ServerPhase.next_awaits⟩

theorem serverKeeps_readUrl (room : Nat) (got : Bytes) :
    ServerKeeps path response
      (fun result phase => ∀ text, result = .ok text → phase = .closing number text)
      (readUrl ⟨path, .reading, number⟩ room got) (.reading number got) := by
  induction room generalizing got with
  | zero => exact nofun
  | succ room ih =>
      refine ⟨fun _ => rfl, ?_⟩
      intro c _ given
      obtain ⟨-, rfl⟩ := given
      rw [ServerPhase.next_reads]
      change Meets _ _ _ (ite _ _ _) _
      split_ifs
      · intro _ given
        cases given
        rfl
      · exact ih _

/-- Between two connections. -/
def Idles (conn : Connection) (result : Except Halt (CommError × Connection)) (phase : ServerPhase) :
    Prop :=
  SameServer conn result ∧ ((∃ e, result = .error e) ∨ ∃ last, phase = .idle last)

theorem serverKeeps_commAnswer {serverHost : Bytes} {address : CommAddr} {conn : Connection}
    (own : conn.serverAddr = some address) (hosted : address.host = some serverHost) (text : Bytes) :
    ServerKeeps path (fun text => fifoPath serverHost (hostOf text)) (Idles conn)
      (commAnswer conn text) (.idle (some text)) := by
  unfold commAnswer
  dsimp only
  split_ifs
  · exact ⟨⟨rfl, rfl⟩, .inr ⟨_, rfl⟩⟩
  cases host : (addressFromUrl .fifo text .new).2.host with
  | none => exact ⟨trivial, .inl ⟨_, rfl⟩⟩
  | some clientHost =>
  have named : hostOf text = clientHost := by rw [hostOf, host, Option.getD_some]
  simp only [deref, ret_bind, own, hosted, perform_bind]
  refine ⟨fun _ => trivial, ?_⟩
  intro made _ given
  obtain ⟨⟨possible, -⟩, rfl⟩ := given
  rw [ServerPhase.next_mkfifo]
  cases made with
  | false => exact ⟨⟨rfl, rfl⟩, .inr ⟨_, rfl⟩⟩
  | true =>
  have request := possible rfl
  dsimp only
  rw [if_neg (by decide)]
  by_cases response : fifoPath serverHost clientHost = path
  · refine ⟨fun _ => ⟨text, rfl, ?_⟩, ?_⟩
    · exact (congrArg (fifoPath serverHost) named).trans response
    · intro opened _ given
      obtain ⟨⟨-, elsewhere⟩, -⟩ := given
      exact absurd response elsewhere
  · have quiet := quiet_commConfirm response request conn text
    exact (quiet.server _).mono fun _ _ ends => ⟨ends.1, .inr ⟨_, ends.2⟩⟩

theorem serverKeeps_commAccept {serverHost : Bytes} {address : CommAddr} {conn : Connection}
    (listens : conn.connectionFile = some path) (own : conn.serverAddr = some address)
    (hosted : address.host = some serverHost) (last : Option Bytes) :
    ServerKeeps path (fun text => fifoPath serverHost (hostOf text)) (Idles conn)
      (commAccept conn) (.idle last) := by
  unfold commAccept
  rw [listens]
  refine Meets.bind (serverKeeps_openFifo.mono ?_)
  intro _ _ given
  obtain ⟨number, rfl, rfl⟩ := given
  refine Meets.bind ((serverKeeps_readUrl _ []).mono ?_)
  rintro (e | text) phase ends
  · exact ⟨trivial, .inl ⟨e, rfl⟩⟩
  obtain rfl := ends text rfl
  refine ⟨fun _ => rfl, ?_⟩
  intro _ _ given
  obtain ⟨-, rfl⟩ := given
  rw [ServerPhase.next_closes]
  exact serverKeeps_commAnswer own hosted text

theorem serverKeeps_acceptLoop {serverHost : Bytes} {address : CommAddr} {conn : Connection}
    (listens : conn.connectionFile = some path) (own : conn.serverAddr = some address)
    (hosted : address.host = some serverHost) (n : Nat) (error : CommError) (last : Option Bytes) :
    ServerKeeps path (fun text => fifoPath serverHost (hostOf text)) (fun _ _ => True)
      (acceptLoop n error conn) (.idle last) := by
  induction n generalizing error conn last with
  | zero => trivial
  | succ n ih =>
      refine Meets.bind ((serverKeeps_commAccept listens own hosted last).mono ?_)
      rintro (e | ⟨error', conn'⟩) phase ⟨same, idles⟩
      · trivial
      obtain ⟨last', rfl⟩ := idles.resolve_left nofun
      change Meets _ _ _ (ite _ _ _) _
      split_ifs
      · trivial
      · exact ih (same.1.trans listens) (same.2.trans own) error' last'

end Contracts

end IpcFtp
