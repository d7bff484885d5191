import IpcFtp.Communication.Frame
import IpcFtp.Utils

/-!
# Addresses

`address_from_url` of both builds.  A url is read up to its terminator; the loops stop at
a colon, a line end, the byte 255 (`EOF` as a `char`) and the terminator.
-/

namespace IpcFtp

/-- `comm_addr_t`; a field that has not been filled is none. -/
structure CommAddr : Type where
  url : Bytes
  protocol : Option Bytes
  host : Option Bytes
  valid : Bool
  port : Option Int
  deriving DecidableEq

def addressOk : Int := 0
def addressInvalidProtocol : Int := 1
def addressMissingProtocolToken : Int := 2
def addressMissingPortToken : Int := 3
def addressInvalidPort : Int := 4

/-- Where the loops stop, besides at the terminator. -/
def isDelimiter (c : Byte) : Bool := c = chr ':' ∨ c = chr '\n' ∨ c = 255

/-- What the loops pass, and what they stop at. -/
def beforeDelimiter (text : Bytes) : Bytes := text.takeWhile fun c => !isDelimiter c

def fromDelimiter (text : Bytes) : Bytes := text.dropWhile fun c => !isDelimiter c

/-- The part of both functions up to the host: its code, the address, and what follows the
host. -/
def addressUpToHost (scheme : Byte) (url : Bytes) (address : CommAddr) :
    Int × CommAddr × Bytes :=
  let address := { address with valid := true, url := url }
  if url.head? ≠ some scheme then (addressInvalidProtocol, address, [])
  else
    match fromDelimiter url with
    | [] => (addressMissingProtocolToken, { address with valid := false }, [])
    | c :: rest =>
      if c ≠ chr ':' ∨ rest.take 2 ≠ ascii "//" then
        (addressMissingProtocolToken, { address with valid := false }, [])
      else
        let rest := rest.drop 2
        (addressOk, { address with
          protocol := some (beforeDelimiter url)
          host := some (beforeDelimiter rest) }, fromDelimiter rest)

/-- `address_from_url`. -/
def addressFromUrl (t : Transport) (url : Bytes) (address : CommAddr) : Int × CommAddr :=
  match t with
  | .fifo => ((addressUpToHost (chr 'f') url address).1,
      (addressUpToHost (chr 'f') url address).2.1)
  | .socket =>
    match addressUpToHost (chr 's') url address with
    | (code, address, rest) =>
      if code ≠ addressOk then (code, address)
      else
        match rest with
        | [] => (addressMissingPortToken, address)
        | c :: start =>
          if c ≠ chr ':' then (addressMissingPortToken, address)
          else
            let digits := start.takeWhile fun c => !(c = chr '\n' || c = 255)
            if digits.all fun c => decide (isDigit c) then
              -- into an `unsigned int`
              (addressOk, { address with port := some (atoi start % 2 ^ 32) })
            else (addressInvalidPort, { address with valid := false })

theorem host_of_addressUpToHost (scheme : Byte) (url : Bytes) (address : CommAddr)
    (parses : (addressUpToHost scheme url address).1 = addressOk) :
    ∃ host, (addressUpToHost scheme url address).2.1.host = some host := by
  unfold addressUpToHost at parses ⊢
  dsimp only at parses ⊢
  split_ifs at parses ⊢
  · cases parses
  · split at parses
    · cases parses
    · split_ifs at parses ⊢
      · cases parses
      · exact ⟨_, rfl⟩

/-- The address keeps the url it was made from. -/
theorem addressFromUrl_url (url : Bytes) (address : CommAddr) :
    (addressFromUrl .fifo url address).2.url = url := by
  simp only [addressFromUrl, addressUpToHost]
  split_ifs
  · rfl
  · split
    · rfl
    · split_ifs <;> rfl

/-- `NEW(comm_addr_t)`. -/
def CommAddr.new : CommAddr := ⟨[], none, none, false, none⟩

example : (addressFromUrl .fifo (ascii "fifo://ann:3000") .new).2.host = some (ascii "ann") := by
  decide

end IpcFtp
