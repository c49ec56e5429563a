import FreeRDP.Gateway.Chunked
import FreeRDP.Gateway.Websocket

/-!
# Packets of the gateway

`rdg_read_data_packet` of `rdg.c` and what it calls.  A read that returns 0 leaves no retry flag, so that
`BIO_should_retry` does not hold then.

What is written back (a keep-alive packet, or the answer to a close) is left out, and so is the error
code of a close.  Whether the message of the service is presented is up to `present`.
-/

namespace FreeRDP.Gateway

open Wire (u16le u32le)

def pktTypeServiceMessage : ℕ := 0xB

def pktTypeKeepalive : ℕ := 0xD

def pktTypeCloseChannel : ℕ := 0x10

/-! ### Sockets -/

/-- A connection, and `rdg_http_encoding_context`. -/
inductive Socket
  | identity (net : List (List UInt8))
  | chunked (s : ChunkedSource)
  | websocket (s : WebsocketSource)

/-- The network of a connection. -/
def Socket.net : Socket → List (List UInt8)
  | identity net => net
  | chunked s => s.2
  | websocket s => s.2

def rdgSocketRead (size : ℕ) : Socket → ReadStatus × Socket
  | .identity net => (.ok (bioRead size net).1, .identity (bioRead size net).2)
  | .chunked s => ((rdgChunckedRead size s).1, .chunked (rdgChunckedRead size s).2)
  | .websocket s => ((rdgWebsocketRead size s).1, .websocket (rdgWebsocketRead size s).2)

/-- A loop that reads until there are `size` bytes in the buffer.  If there is nothing to read it tries
again, unless `giveUp` holds of the number of bytes.  Each round reads something from the network. -/
def readFully (giveUp : ℕ → Bool) (size : ℕ) : ℕ → List UInt8 → Socket → ReadStatus × Socket
  | 0, _, s => (.error .endless, s)
  | rounds + 1, buffer, s =>
    if buffer.length < size then
      match rdgSocketRead (size - buffer.length) s with
      | (.error fault, s) => (.error fault, s)
      | (.ok none, s) => if giveUp buffer.length then (.ok none, s) else readFully giveUp size
          rounds buffer s
      | (.ok (some []), s) => (.error .refused, s)
      | (.ok (some data), s) =>
        if (buffer ++ data).length > intMax then (.error .refused, s)
        else readFully giveUp size rounds (buffer ++ data) s
    else (.ok (some buffer), s)

/-- The rounds of a loop that reads. -/
def Socket.rounds (s : Socket) : ℕ := netSize s.net + 1

/-! ### Control packets -/

def rdgReadHttpUnicodeString (s : List UInt8) : Option (List UInt8) :=
  if s.length < 4 then none
  else
    match u16le s with
    | none => none
    | some (strLenBytes, s) => if s.length < strLenBytes then none else some (s.take strLenBytes)

/-- The end of `rdg_process_control_packet`, where `s` is the payload if there is one. -/
def processControl (present : List UInt8 → Bool) (type : ℕ) (s : Option (List UInt8)) :
    Except ReadFault Bool :=
  if type = pktTypeCloseChannel then
    match s with
    | none => .error .nullPointer
    | some s => .ok (4 ≤ s.length)
  else if type = pktTypeKeepalive then .ok true
  else if type = pktTypeServiceMessage then
    match s with
    | none => .ok false
    | some s =>
      match rdgReadHttpUnicodeString s with
      | none => .ok false
      | some msg => .ok (present msg)
  else .ok true

/-- 0 or -1, which `rdg_read_data_packet` makes of the result of `rdg_process_control_packet`. -/
def controlStatus (present : List UInt8 → Bool) (type : ℕ) (payload : Option (List UInt8)) : ReadStatus :=
  match processControl present type payload with
  | .error fault => .error fault
  | .ok false => .error .refused
  | .ok true => .ok none

def rdgProcessControlPacket (present : List UInt8 → Bool) (type packetLength : ℕ) (s : Socket) :
    ReadStatus × Socket :=
  if packetLength < 8 then (.error .refused, s)
  else if packetLength - 8 = 0 then (controlStatus present type none, s)
  else
    match readFully (fun _ => false) (packetLength - 8) s.rounds [] s with
    | (.error fault, s) => (.error fault, s)
    | (.ok none, s) => (.error .refused, s)
    | (.ok (some payload), s) => (controlStatus present type (some payload), s)

/-! ### Data packets -/

/-- The fields of `rdp_rdg` that are used. -/
structure Rdg where
  socket : Socket
  packetRemainingCount : ℕ

/-- `RdgPacketHeader`: the type and the length. -/
def rdgPacketHeader : Wire.Reader (ℕ × ℕ) := do
  let type ← u16le
  let _ ← u16le
  let packetLength ← u32le
  return (type, packetLength)

/-- The end of `rdg_read_data_packet`: a part of the data. -/
def readPacketData (size : ℕ) (rdg : Rdg) : ReadStatus × Rdg :=
  let readSize := if rdg.packetRemainingCount < size then rdg.packetRemainingCount else size
  match rdgSocketRead readSize rdg.socket with
  | (.error fault, s) => (.error fault, { rdg with socket := s })
  | (.ok none, s) => (.ok none, { rdg with socket := s })
  | (.ok (some []), s) => (.error .refused, { rdg with socket := s })
  | (.ok (some data), s) => (.ok (some data), ⟨s, rdg.packetRemainingCount - data.length⟩)

/-- `rdg_read_data_packet`, where `.ok none` is 0. -/
def rdgReadDataPacket (present : List UInt8 → Bool) (size : ℕ) (rdg : Rdg) : ReadStatus × Rdg :=
  if rdg.packetRemainingCount = 0 then
    match readFully (fun readCount => readCount = 0) 8 rdg.socket.rounds [] rdg.socket with
    | (.error fault, s) => (.error fault, { rdg with socket := s })
    | (.ok none, s) => (.ok none, { rdg with socket := s })
    | (.ok (some header), s) =>
      match rdgPacketHeader header with
      | none => (.error .assertion, { rdg with socket := s })
      | some ((type, packetLength), _) =>
        if type ≠ pktTypeData then
          let r := rdgProcessControlPacket present type packetLength s
          (r.1, { rdg with socket := r.2 })
        else
          -- this loop would go on after a status of 0, which is not returned for one or two bytes
          match readFully (fun _ => false) 2 s.rounds [] s with
          | (.ok (some count), s) =>
            readPacketData size ⟨s, (u16le count).elim 0 Prod.fst⟩
          | (.ok none, s) => (.error .refused, { rdg with socket := s })
          | (.error fault, s) => (.error fault, { rdg with socket := s })
  else readPacketData size rdg

end FreeRDP.Gateway
