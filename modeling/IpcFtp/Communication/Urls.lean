import IpcFtp.Communication.Connection

/-!
# Which urls are addresses

What `address_from_url` of each build takes for an address, what it takes out of it, and what
it says of the rest: its code, and the flag `valid` that `connection_open` tests.
-/

namespace IpcFtp

open Lib Program

/-! ## Parts of a url -/

def DelimiterFree (text : Bytes) : Prop := ∀ c ∈ text, isDelimiter c = false

instance (text : Bytes) : Decidable (DelimiterFree text) :=
  inferInstanceAs (Decidable (∀ c ∈ text, isDelimiter c = false))

/-- A url as far as both builds read it alike. -/
structure UrlParts (scheme : Byte) (url protocol host rest : Bytes) : Prop where
  text : url = protocol ++ ascii "://" ++ host ++ rest
  scheme : protocol.head? = some scheme
  protocol : DelimiterFree protocol
  host : DelimiterFree host
  rest : ∀ c ∈ rest.head?, isDelimiter c = true

/-- A url of the socket build. -/
structure SocketUrl (url protocol host digits rest : Bytes) : Prop where
  text : url = protocol ++ ascii "://" ++ host ++ ascii ":" ++ digits ++ rest
  scheme : protocol.head? = some (chr 's')
  protocol : DelimiterFree protocol
  host : DelimiterFree host
  digits : ∀ c ∈ digits, isDigit c
  rest : ∀ c ∈ rest.head?, c = chr '\n' ∨ c = 255

section Parts

variable {text rest : Bytes}

theorem beforeDelimiter_append (free : DelimiterFree text)
    (ends : ∀ c ∈ rest.head?, isDelimiter c = true) : beforeDelimiter (text ++ rest) = text := by
  rw [beforeDelimiter, List.takeWhile_append_of_pos (fun c member => by simp [free c member])]
  cases rest with
  | nil => exact List.append_nil text
  | cons c rest => simp [ends c rfl]

theorem fromDelimiter_append (free : DelimiterFree text)
    (ends : ∀ c ∈ rest.head?, isDelimiter c = true) : fromDelimiter (text ++ rest) = rest := by
  rw [fromDelimiter, List.dropWhile_append_of_pos (fun c member => by simp [free c member])]
  cases rest with
  | nil => rfl
  | cons c rest => simp [ends c rfl]

theorem delimiterFree_beforeDelimiter (text : Bytes) : DelimiterFree (beforeDelimiter text) := by
  intro c member
  simpa using List.mem_takeWhile_imp member

theorem isDelimiter_fromDelimiter (text : Bytes) :
    ∀ c ∈ (fromDelimiter text).head?, isDelimiter c = true := by
  intro c first
  have stops := List.head?_dropWhile_not (fun c => !isDelimiter c) text
  rw [← fromDelimiter, first] at stops
  simpa using stops

theorem beforeDelimiter_append_fromDelimiter (text : Bytes) :
    beforeDelimiter text ++ fromDelimiter text = text := List.takeWhile_append_dropWhile

/-- The delimiter at the end of a line, or the byte 255. -/
theorem isDelimiter_of_endsPort {c : Byte} (ends : c = chr '\n' ∨ c = 255) :
    isDelimiter c = true := by
  rcases ends with rfl | rfl <;> rfl

theorem not_isDelimiter_of_isDigit {c : Byte} (digit : isDigit c) : isDelimiter c = false := by
  by_contra delimiter
  simp only [isDelimiter, Bool.not_eq_false, decide_eq_true_eq] at delimiter
  rcases delimiter with rfl | rfl | rfl <;> exact absurd digit (by decide)

end Parts

/-! ## Up to the host -/

section UpToHost

variable {scheme : Byte} {url protocol host rest : Bytes} {address : CommAddr}

/-- A url that has the parts is read into them. -/
theorem addressUpToHost_of_parts (parts : UrlParts scheme url protocol host rest)
    (address : CommAddr) :
    addressUpToHost scheme url address = (addressOk, { address with
      valid := true, url := url, protocol := some protocol, host := some host }, rest) := by
  have front : url = protocol ++ (chr ':' :: (ascii "//" ++ (host ++ rest))) := by
    rw [parts.text]
    simp [ascii, chr]
  have colon : ∀ c ∈ (chr ':' :: (ascii "//" ++ (host ++ rest))).head?, isDelimiter c = true := by
    intro c first
    cases first
    rfl
  have first : url.head? = some scheme := by
    rw [front, List.head?_append, parts.scheme]
    rfl
  have before : beforeDelimiter url = protocol := by
    rw [front]
    exact beforeDelimiter_append parts.protocol colon
  have behind : fromDelimiter url = chr ':' :: (ascii "//" ++ (host ++ rest)) := by
    rw [front]
    exact fromDelimiter_append parts.protocol colon
  have slashes : (ascii "//" ++ (host ++ rest)).take 2 = ascii "//" := List.take_left' rfl
  have afterSlashes : (ascii "//" ++ (host ++ rest)).drop 2 = host ++ rest := List.drop_left' rfl
  unfold addressUpToHost
  simp only [first, behind, before, slashes, afterSlashes, not_true_eq_false, or_self, if_false,
    ne_eq, beforeDelimiter_append parts.host parts.rest, fromDelimiter_append parts.host parts.rest]

/-- What is read without an error has the parts. -/
theorem parts_of_addressUpToHost (plain : isDelimiter scheme = false)
    (reads : (addressUpToHost scheme url address).1 = addressOk) :
    ∃ protocol host rest, UrlParts scheme url protocol host rest := by
  unfold addressUpToHost at reads
  dsimp only at reads
  split_ifs at reads with first
  · cases reads
  · rw [ne_eq, not_not] at first
    split at reads
    · cases reads
    · rename_i c behind found
      split_ifs at reads with slashes
      · cases reads
      · rw [not_or, ne_eq, ne_eq, not_not, not_not] at slashes
        obtain ⟨rfl, slashes⟩ := slashes
        have front := beforeDelimiter_append_fromDelimiter url
        have tail := beforeDelimiter_append_fromDelimiter (behind.drop 2)
        have whole : behind = ascii "//" ++ behind.drop 2 := by
          rw [← slashes, List.take_append_drop]
        refine ⟨beforeDelimiter url, beforeDelimiter (behind.drop 2), fromDelimiter (behind.drop 2),
          ?_, ?_, delimiterFree_beforeDelimiter _, delimiterFree_beforeDelimiter _,
          isDelimiter_fromDelimiter _⟩
        · rw [List.append_assoc, tail, List.append_assoc]
          change url = beforeDelimiter url ++ (chr ':' :: (ascii "//" ++ behind.drop 2))
          rw [← whole, ← found, front]
        · -- the first byte is no delimiter
          rw [beforeDelimiter, List.head?_takeWhile, first]
          simp [plain]

end UpToHost

/-! ## Addresses of FIFOs -/

/-- The FIFO build takes a url for an address exactly if it has the parts, and takes out of it
its protocol and its host. -/
def ReadsFifoUrls (url : Bytes) (address : CommAddr) : Prop :=
  ((addressFromUrl .fifo url address).1 = addressOk ↔
      ∃ protocol host rest, UrlParts (chr 'f') url protocol host rest) ∧
    ∀ protocol host rest, UrlParts (chr 'f') url protocol host rest →
      (addressFromUrl .fifo url address).2.protocol = some protocol ∧
        (addressFromUrl .fifo url address).2.host = some host

theorem readsFifoUrls (url : Bytes) (address : CommAddr) : ReadsFifoUrls url address := by
  have reads (protocol host rest : Bytes) (parts : UrlParts (chr 'f') url protocol host rest) :
      addressFromUrl .fifo url address = (addressOk, { address with
        valid := true, url := url, protocol := some protocol, host := some host }) := by
    rw [addressFromUrl, addressUpToHost_of_parts parts]
  refine ⟨⟨parts_of_addressUpToHost rfl, ?_⟩, ?_⟩
  · intro given
    obtain ⟨protocol, host, rest, parts⟩ := given
    rw [reads protocol host rest parts]
  · intro protocol host rest parts
    rw [reads protocol host rest parts]
    exact ⟨rfl, rfl⟩

/-! ## Addresses of sockets -/

section Sockets

variable {url protocol host digits rest : Bytes}

theorem SocketUrl.parts (socket : SocketUrl url protocol host digits rest) :
    UrlParts (chr 's') url protocol host (chr ':' :: (digits ++ rest)) := by
  refine ⟨?_, socket.scheme, socket.protocol, socket.host, ?_⟩
  · rw [socket.text]
    simp [ascii, chr]
  · intro c first
    cases first
    rfl

/-- The digits are all that stands before the end of the port. -/
theorem SocketUrl.takeWhile_port (socket : SocketUrl url protocol host digits rest) :
    (digits ++ rest).takeWhile (fun c => !(c = chr '\n' || c = 255)) = digits := by
  rw [List.takeWhile_append_of_pos]
  · cases rest with
    | nil => exact List.append_nil digits
    | cons c rest =>
        have ends := socket.rest c rfl
        have stops : ¬ (!(decide (c = chr '\n') || decide (c = 255))) = true := by
          rcases ends with rfl | rfl <;> decide
        rw [List.takeWhile_cons, if_neg stops, List.append_nil]
  · intro c member
    have plain := not_isDelimiter_of_isDigit (socket.digits c member)
    simp only [isDelimiter, decide_eq_false_iff_not, not_or] at plain
    simp [plain.2.1, plain.2.2]

theorem addressFromUrl_of_socketUrl (socket : SocketUrl url protocol host digits rest)
    (address : CommAddr) :
    addressFromUrl .socket url address = (addressOk, { address with
      valid := true, url := url, protocol := some protocol, host := some host
      port := some (atoi (digits ++ rest) % 2 ^ 32) }) := by
  have digitsOnly : digits.all (fun c => decide (isDigit c)) = true := by
    simpa using socket.digits
  simp only [addressFromUrl, addressUpToHost_of_parts socket.parts, ne_eq, not_true_eq_false,
    if_false, socket.takeWhile_port, digitsOnly, if_true]

theorem socketUrl_of_addressFromUrl {address : CommAddr}
    (reads : (addressFromUrl .socket url address).1 = addressOk) :
    ∃ protocol host digits rest, SocketUrl url protocol host digits rest := by
  have upToHost : (addressUpToHost (chr 's') url address).1 = addressOk := by
    by_contra fails
    rw [addressFromUrl] at reads
    simp only [ne_eq, fails, not_false_eq_true, if_true] at reads
  obtain ⟨protocol, host, rest, parts⟩ := parts_of_addressUpToHost rfl upToHost
  simp only [addressFromUrl, addressUpToHost_of_parts parts, ne_eq, not_true_eq_false,
    if_false] at reads
  split at reads
  · cases reads
  · rename_i c start
    split_ifs at reads with colon digitsOnly
    · subst colon
      refine ⟨protocol, host, start.takeWhile fun c => !(c = chr '\n' || c = 255),
        start.dropWhile fun c => !(c = chr '\n' || c = 255), ?_, parts.scheme, parts.protocol, parts.host,
        by simpa using digitsOnly, ?_⟩
      · rw [List.append_assoc, List.takeWhile_append_dropWhile, parts.text]
        simp [ascii, chr]
      · intro c first
        have stops := List.head?_dropWhile_not (fun c => !(c = chr '\n' || c = 255)) start
        rw [first] at stops
        exact Classical.or_iff_not_imp_left.mpr (by simpa using stops)
    · cases reads
    · cases reads

end Sockets

/-! ## Ports -/

/-- `atoi` makes 0 of the text: its number is a multiple of 2^32, as an `int` has 32 bits, or it is
below the bounds of `long`. -/
def ReadsAsZero (text : Bytes) : Prop :=
  let text := text.dropWhile fun c => decide (isSpace c)
  let unsigned :=
    if text.head? = some (chr '-') ∨ text.head? = some (chr '+') then text.tail else text
  let value := digitsValue (unsigned.takeWhile fun c => decide (isDigit c))
  (2 ^ 32 ∣ value ∧ value < 2 ^ 63) ∨ (text.head? = some (chr '-') ∧ 2 ^ 63 ≤ value)

instance (text : Bytes) : Decidable (ReadsAsZero text) := inferInstanceAs (Decidable (_ ∨ _))

theorem atoi_eq_zero_iff (text : Bytes) : atoi text = 0 ↔ ReadsAsZero text := by
  unfold atoi
  rw [← Int.dvd_iff_bmod_eq_zero]
  unfold strtol ReadsAsZero
  simp only [List.mem_cons, List.not_mem_nil, or_false]
  generalize List.dropWhile (fun c => decide (isSpace c)) text = body
  generalize digitsValue _ = value
  split_ifs with minus
  · simp only [minus, true_and]
    omega
  · simp only [minus, false_and, or_false]
    omega

theorem atoi_space {c : Byte} (space : isSpace c) (text : Bytes) : atoi (c :: text) = atoi text := by
  unfold atoi strtol
  rw [List.dropWhile_cons_of_pos (by simpa using space)]

/-- `atoi` of a text that does not start like a number. -/
theorem atoi_other {c : Byte} (space : ¬ isSpace c) (minus : c ≠ chr '-') (plus : c ≠ chr '+')
    (digit : ¬ isDigit c) (text : Bytes) : atoi (c :: text) = 0 := by
  unfold atoi strtol
  rw [List.dropWhile_cons_of_neg (by simpa using space)]
  simp only [List.head?_cons, Option.some.injEq, List.mem_cons, minus, plus, List.not_mem_nil, or_self,
    if_false]
  rw [List.takeWhile_cons_of_neg (by simpa using digit)]
  rfl

/-- `atoi` of a run of digits. -/
theorem atoi_digits {digits rest : Bytes} (nonempty : digits ≠ [])
    (digitsOnly : ∀ c ∈ digits, isDigit c) (ends : ∀ c ∈ rest.head?, ¬ isDigit c)
    (small : digitsValue digits < 2 ^ 31) : atoi (digits ++ rest) = digitsValue digits := by
  obtain ⟨c, digits, rfl⟩ := List.exists_cons_of_ne_nil nonempty
  have digit : isDigit c := digitsOnly c List.mem_cons_self
  have minus : c ≠ chr '-' := fun same => absurd (same ▸ digit) (by decide)
  have plus : c ≠ chr '+' := fun same => absurd (same ▸ digit) (by decide)
  have run : ((c :: digits) ++ rest).takeWhile (fun c => decide (isDigit c)) = c :: digits := by
    rw [List.takeWhile_append_of_pos (fun d member => decide_eq_true (digitsOnly d member))]
    cases rest with
    | nil => exact List.append_nil _
    | cons d rest =>
        rw [List.takeWhile_cons_of_neg (by simpa using ends d rfl), List.append_nil]
  rw [List.cons_append] at run ⊢
  unfold atoi strtol
  rw [List.dropWhile_cons_of_neg (by simpa using not_isSpace_of_isDigit digit)]
  simp only [List.head?_cons, Option.some.injEq, List.mem_cons, minus, plus, List.not_mem_nil, or_self,
    if_false, run]
  rw [Int.min_eq_left (by omega)]
  exact Int.bmod_eq_of_le (by omega) (by omega)

/-- The socket build takes a url for an address exactly if it has the parts of one, and takes out
of it its protocol, its host, and the number of its digits if that is an `int`. -/
def ReadsSocketUrls (url : Bytes) (address : CommAddr) : Prop :=
  ((addressFromUrl .socket url address).1 = addressOk ↔
      ∃ protocol host digits rest, SocketUrl url protocol host digits rest) ∧
    ∀ protocol host digits rest, SocketUrl url protocol host digits rest →
      (addressFromUrl .socket url address).2.protocol = some protocol ∧
        (addressFromUrl .socket url address).2.host = some host ∧
          (digitsValue digits < 2 ^ 31 →
            (addressFromUrl .socket url address).2.port = some (digitsValue digits : Int))

/-- Behind an empty port and the end of the line there is another number. -/
def PortOnNextLine (url : Bytes) : Prop :=
  ∃ protocol host rest, SocketUrl url protocol host [] (chr '\n' :: rest) ∧ ¬ ReadsAsZero rest

/-- The port is read up to the end of the line only if there is none. -/
theorem port_of_socketUrl {url protocol host digits rest : Bytes}
    (socket : SocketUrl url protocol host digits rest) (own : ¬ PortOnNextLine url)
    (small : digitsValue digits < 2 ^ 31) : atoi (digits ++ rest) = digitsValue digits := by
  have ends : ∀ c ∈ rest.head?, ¬ isDigit c := by
    intro c first digit
    have delimiter := isDelimiter_of_endsPort (socket.rest c first)
    rw [not_isDelimiter_of_isDigit digit] at delimiter
    cases delimiter
  by_cases nonempty : digits = []
  · subst nonempty
    rcases rest with _ | ⟨c, rest⟩
    · rfl
    · rcases socket.rest c rfl with rfl | rfl
      · -- `atoi` takes the end of the line for white space
        rw [List.nil_append, atoi_space (by decide)]
        apply (atoi_eq_zero_iff rest).mpr
        by_contra number
        exact own ⟨protocol, host, rest, socket, number⟩
      · exact atoi_other (by decide) (by decide) (by decide) (by decide) rest
  · exact atoi_digits nonempty socket.digits ends small

/-- `address_from_url` of both builds reads urls as it should, but for a port that is empty: then
it takes what `atoi` finds on the next line. -/
theorem reads_urls_iff (url : CString) (address : CommAddr) :
    (ReadsFifoUrls url.bytes address ∧ ReadsSocketUrls url.bytes address) ↔
      ¬ PortOnNextLine url.bytes := by
  constructor
  · intro given next
    obtain ⟨-, -, reads⟩ := given
    obtain ⟨protocol, host, rest, socket, number⟩ := next
    have port := (reads protocol host [] _ socket).2.2 (by decide)
    rw [addressFromUrl_of_socketUrl socket] at port
    apply number
    rw [← atoi_eq_zero_iff, ← atoi_space (c := chr '\n') (by decide)]
    have range := atoi_range (chr '\n' :: rest)
    have zero : atoi (chr '\n' :: rest) % 2 ^ 32 = 0 := Option.some.inj port
    omega
  · intro own
    refine ⟨readsFifoUrls url.bytes address, ⟨socketUrl_of_addressFromUrl, ?_⟩, ?_⟩
    · intro given
      obtain ⟨protocol, host, digits, rest, socket⟩ := given
      rw [addressFromUrl_of_socketUrl socket]
    · intro protocol host digits rest socket
      rw [addressFromUrl_of_socketUrl socket]
      refine ⟨rfl, rfl, fun small => ?_⟩
      rw [port_of_socketUrl socket own small, Int.emod_eq_of_lt (by omega) (by omega)]

/-- The port of `socket://h:` is taken from the line below. -/
theorem port_from_next_line :
    SocketUrl (ascii "socket://h:\n21") (ascii "socket") (ascii "h") [] (ascii "\n21") ∧
      (addressFromUrl .socket (ascii "socket://h:\n21") .new).2.port = some 21 ∧
        ¬ ReadsSocketUrls (ascii "socket://h:\n21") .new := by
  have socket :
      SocketUrl (ascii "socket://h:\n21") (ascii "socket") (ascii "h") [] (ascii "\n21") :=
    ⟨by decide, by decide, by decide +kernel, by decide +kernel, by simp,
      fun c first => .inl (by cases first; rfl)⟩
  have port : (addressFromUrl .socket (ascii "socket://h:\n21") .new).2.port = some 21 := by decide
  refine ⟨socket, port, ?_⟩
  intro given
  have other := (given.2 _ _ _ _ socket).2.2 (by decide)
  rw [port] at other
  cases other

/-! ## The flag of an address -/

/-- `connection_open` over FIFOs ends at its test of the addresses, whichever side this one is
of. -/
def IsRejected (address : CommAddr) : Prop :=
  ∀ fresh conn other, (conn.clientAddr = some address ∧ conn.serverAddr = some other) ∨
      (conn.clientAddr = some other ∧ conn.serverAddr = some address) →
    connectionOpen fresh conn = .ret (errInvalidAddress, { conn with state := .closed })

theorem isRejected_of_not_valid {address : CommAddr} (invalid : address.valid = false) :
    IsRejected address := by
  intro fresh conn other given
  rcases given with ⟨client, server⟩ | ⟨client, server⟩
  · simp only [connectionOpen, client, deref, ret_bind, invalid, if_true]
    rfl
  · simp only [connectionOpen, client, server, deref, ret_bind, invalid, if_true, ite_self]
    rfl

/-- The flag tells whether the url was an address, and `connection_open` rejects what was not
filled in; it has no such test over sockets. -/
structure FlagTells (t : Transport) (url : Bytes) : Prop where
  flag : ∀ address, (addressFromUrl t url address).2.valid = true ↔
    (addressFromUrl t url address).1 = addressOk
  rejects : t = .fifo → (addressFromUrl t url .new).2.protocol = none ∨
    (addressFromUrl t url .new).2.host = none → IsRejected (addressFromUrl t url .new).2

/-- Where the flag is cleared on every error: the url starts like one of the build, and over
sockets its host is not the last of it or of its line. -/
def ClearsFlag (t : Transport) (url : Bytes) : Prop :=
  match t with
  | .fifo => url.head? = some (chr 'f')
  | .socket => url.head? = some (chr 's') ∧
    ¬ ∃ protocol host rest, UrlParts (chr 's') url protocol host rest ∧ rest.head? ≠ some (chr ':')

section Flag

variable {scheme : Byte} {url : Bytes} {address : CommAddr}

theorem addressUpToHost_of_other (other : url.head? ≠ some scheme) :
    addressUpToHost scheme url address =
      (addressInvalidProtocol, { address with valid := true, url := url }, []) := by
  unfold addressUpToHost
  rw [if_pos other]

/-- With the right first byte there are the parts, or the flag is cleared. -/
theorem valid_addressUpToHost (first : url.head? = some scheme) :
    (addressUpToHost scheme url address).2.1.valid = true ↔
      (addressUpToHost scheme url address).1 = addressOk := by
  have missing : addressMissingProtocolToken ≠ addressOk := by decide
  unfold addressUpToHost
  rw [if_neg (by simpa using first)]
  dsimp only
  split
  · exact iff_of_false (by simp) missing
  · split_ifs
    · exact iff_of_false (by simp) missing
    · exact iff_of_true rfl rfl

theorem filled_of_addressUpToHost (reads : (addressUpToHost scheme url address).1 = addressOk) :
    (addressUpToHost scheme url address).2.1.protocol ≠ none ∧
      (addressUpToHost scheme url address).2.1.host ≠ none := by
  unfold addressUpToHost at reads ⊢
  dsimp only at reads ⊢
  split_ifs at reads ⊢
  · cases reads
  · split at reads
    · cases reads
    · split_ifs at reads ⊢
      · cases reads
      · exact ⟨Option.some_ne_none _, Option.some_ne_none _⟩

end Flag

theorem flagTells_fifo_iff (url : Bytes) :
    FlagTells .fifo url ↔ url.head? = some (chr 'f') := by
  have invalid : addressInvalidProtocol ≠ addressOk := by decide
  constructor
  · intro tells
    by_contra other
    have flag := tells.flag .new
    simp only [addressFromUrl, addressUpToHost_of_other other, true_iff] at flag
    exact invalid flag
  · intro first
    refine ⟨fun address => valid_addressUpToHost first, fun _ missing => ?_⟩
    apply isRejected_of_not_valid
    rw [← Bool.not_eq_true]
    intro valid
    obtain ⟨protocol, host⟩ := filled_of_addressUpToHost ((valid_addressUpToHost first).mp valid)
    rcases missing with none | none
    · exact protocol none
    · exact host none

section Sockets

variable {url protocol host rest : Bytes} {address : CommAddr}

theorem addressFromUrl_of_fails (fails : (addressUpToHost (chr 's') url address).1 ≠ addressOk) :
    addressFromUrl .socket url address = ((addressUpToHost (chr 's') url address).1,
      (addressUpToHost (chr 's') url address).2.1) := by
  rw [addressFromUrl]
  simp only [ne_eq, fails, not_false_eq_true, if_true]

/-- Behind the host the flag is cleared on every error but the missing port. -/
theorem valid_of_parts (parts : UrlParts (chr 's') url protocol host rest) :
    ((addressFromUrl .socket url address).2.valid = true ↔
      (addressFromUrl .socket url address).1 = addressOk) ↔ rest.head? = some (chr ':') := by
  have missing : addressMissingPortToken ≠ addressOk := by decide
  have invalid : addressInvalidPort ≠ addressOk := by decide
  simp only [addressFromUrl, addressUpToHost_of_parts parts, ne_eq, not_true_eq_false, if_false]
  cases rest with
  | nil => simp [missing]
  | cons c start =>
      by_cases colon : c = chr ':'
      · subst colon
        dsimp only
        rw [if_neg (by simp)]
        refine iff_of_true ?_ rfl
        split_ifs
        · exact iff_of_true rfl rfl
        · exact iff_of_false (by simp) invalid
      · simp [colon, missing]

theorem flagTells_socket_iff (url : Bytes) :
    FlagTells .socket url ↔ ClearsFlag .socket url := by
  have invalid : addressInvalidProtocol ≠ addressOk := by decide
  constructor
  · intro tells
    refine ⟨?_, ?_⟩
    · by_contra other
      have fails : (addressUpToHost (chr 's') url .new).1 ≠ addressOk := by
        rw [addressUpToHost_of_other other]
        exact invalid
      have flag := tells.flag .new
      rw [addressFromUrl_of_fails fails, addressUpToHost_of_other other] at flag
      exact invalid (flag.mp rfl)
    · intro given
      obtain ⟨protocol, host, rest, parts, noColon⟩ := given
      exact noColon ((valid_of_parts parts).mp (tells.flag .new))
  · intro clears
    obtain ⟨first, colon⟩ := clears
    refine ⟨fun address => ?_, by simp⟩
    by_cases reads : (addressUpToHost (chr 's') url address).1 = addressOk
    · obtain ⟨protocol, host, rest, parts⟩ := parts_of_addressUpToHost rfl reads
      apply (valid_of_parts parts).mpr
      by_contra noColon
      exact colon ⟨protocol, host, rest, parts, noColon⟩
    · rw [addressFromUrl_of_fails reads]
      exact valid_addressUpToHost first

end Sockets

/-- The flag is left set on a first byte that is not the build's, and over sockets on a port that
is missing altogether. -/
theorem flag_tells_iff (t : Transport) (url : CString) :
    FlagTells t url.bytes ↔ ClearsFlag t url.bytes := by
  cases t with
  | fifo => exact flagTells_fifo_iff url.bytes
  | socket => exact flagTells_socket_iff url.bytes

/-- A url of the other build leaves the flag set and the host null, which `connection_open`
reads. -/
theorem flag_set_on_other_protocol :
    (addressFromUrl .fifo (ascii "socket://h") .new).1 = addressInvalidProtocol ∧
      (addressFromUrl .fifo (ascii "socket://h") .new).2.valid = true ∧
        (addressFromUrl .fifo (ascii "socket://h") .new).2.host = none ∧
          ¬ FlagTells .fifo (ascii "socket://h") := by
  have valid : (addressFromUrl .fifo (ascii "socket://h") .new).2.valid = true := by decide
  refine ⟨by decide, valid, by decide, ?_⟩
  intro tells
  exact absurd ((tells.flag .new).mp valid) (by decide)

end IpcFtp
