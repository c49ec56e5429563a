import FreeRDP.Gateway.Chunked
import FreeRDP.Gateway.Websocket
import FreeRDP.Lib.Traced

/-!
# Websocket frames that are written

`rdg_write_websocket` and `rdg_write_websocket_data_packet` of `rdg.c`, and the answers to a ping and to a
close.  The host is little-endian, the masking keys are what `winpr_RAND` has given, and there is memory for
the streams.  A frame is what `BIO_write` or `tls_write_all` is given.
-/

namespace FreeRDP.Gateway

open Traced
open Wire (be16 be32)

/-! ### Words -/

/-- `Stream_Write_UINT16`. -/
def write16 (x : UInt16) : List UInt8 := [x.toUInt8, (x >>> 8).toUInt8]

/-- `Stream_Write_UINT32`. -/
def write32 (x : UInt32) : List UInt8 :=
  [x.toUInt8, (x >>> 8).toUInt8, (x >>> 16).toUInt8, (x >>> 24).toUInt8]

/-- `Stream_Read_UINT32`, which is also a word of the memory. -/
def read32 (a b c d : UInt8) : UInt32 :=
  a.toUInt32 + b.toUInt32 <<< 8 + c.toUInt32 <<< 16 + d.toUInt32 <<< 24

def keyByte (maskingKey : UInt32) (i : ℕ) : UInt8 := (write32 maskingKey).getD i 0

/-! ### Streams -/

/-- A byte of the stream that is sent or answered, or of the stream of the frame; and the capacity of that
stream. -/
inductive StreamAccess
  | packet (i capacity : ℕ)
  | frame (i capacity : ℕ)
deriving DecidableEq, Repr

/-- A stream whose length is sealed: its bytes, and its capacity. -/
structure SealedStream where
  bytes : List UInt8
  capacity : ℕ
deriving DecidableEq, Repr

/-- `count` bytes of a stream are read. -/
def readPacket (count : ℕ) (s : SealedStream) : Traced StreamAccess Unit :=
  accesses ((List.range count).map (.packet · s.capacity))

def writeFrame (frame : List UInt8) (capacity : ℕ) : Traced StreamAccess Unit :=
  accesses ((List.range frame.length).map (.frame · capacity))

/-! ### Masking -/

def maskBytes (maskingKey : UInt32) : ℕ → List UInt8 → List UInt8
  | _, [] => []
  | streamPos, data :: payload =>
    (data ^^^ keyByte maskingKey (streamPos % 4)) :: maskBytes maskingKey (streamPos + 1) payload

/-- The loop that masks with 32 bit accesses, and then the rest. -/
def maskPayload (maskingKey : UInt32) : ℕ → List UInt8 → List UInt8
  | streamPos, a :: b :: c :: d :: payload =>
    write32 (read32 a b c d ^^^ maskingKey) ++ maskPayload maskingKey (streamPos + 4) payload
  | streamPos, payload => maskBytes maskingKey streamPos payload

/-! ### Frames -/

def websocketPongOpcode : UInt8 := 0xa

def websocketFinBit : UInt8 := 0x80

def websocketMaskBit : UInt8 := 0x80

def websocketFullLen (len : ℕ) : ℕ :=
  if len < 126 then len + 6 else if len < 0x10000 then len + 8 else len + 14

/-- What stands in front of the payload. -/
def websocketHeader (opcode : UInt8) (len : ℕ) (maskingKey : UInt32) : List UInt8 :=
  (websocketFinBit ||| opcode) ::
    ((if len < 126 then [UInt8.ofNat len ||| websocketMaskBit]
      else if len < 0x10000 then (126 ||| websocketMaskBit) :: be16 len
      else (127 ||| websocketMaskBit) :: (be32 0 ++ be32 len)) ++ write32 maskingKey)

/-- `rdg_write_websocket`, if the packet is not refused. -/
def rdgWriteWebsocket (maskingKey : UInt32) (opcode : UInt8) (sPacket : SealedStream) :
    Traced StreamAccess (Option (List UInt8)) :=
  let len := sPacket.bytes.length
  if len > intMax then return none
  else do
    let frame := websocketHeader opcode len maskingKey ++ maskPayload maskingKey 0 sPacket.bytes
    readPacket len sPacket
    writeFrame frame (websocketFullLen len)
    return some frame

/-- Two bytes of the masking key. -/
def keyHalf (low high : UInt8) : UInt16 := low.toUInt16 ||| high.toUInt16 <<< 8

def maskedDataPacketHeader (maskingKey : UInt32) (isize : ℕ) : List UInt8 :=
  let maskingKeyByte1 := keyByte maskingKey 0
  let maskingKeyByte2 := keyByte maskingKey 1
  let maskingKeyByte3 := keyByte maskingKey 2
  let maskingKeyByte4 := keyByte maskingKey 3
  write16 (UInt16.ofNat pktTypeData ^^^ keyHalf maskingKeyByte1 maskingKeyByte2) ++
    write16 (0 ^^^ keyHalf maskingKeyByte3 maskingKeyByte4) ++
    write32 (UInt32.ofNat (isize + 10) ^^^ maskingKey) ++
    write16 (UInt16.ofNat isize ^^^ keyHalf maskingKeyByte1 maskingKeyByte2)

/-- `rdg_write_websocket_data_packet`, if the packet is not refused. -/
def rdgWriteWebsocketDataPacket (maskingKey : UInt32) (buf : List UInt8) : Option (List UInt8) :=
  let isize := buf.length
  let payloadSize := isize + 10
  if isize > 0xFFFF then none
  else if payloadSize < 1 then some []
  else
    -- the header is not a multiple of four bytes
    let rotated := (maskingKey &&& 0xFFFF) <<< 16 ||| maskingKey >>> 16
    some (websocketHeader websocketBinaryOpcode payloadSize maskingKey ++
      maskedDataPacketHeader maskingKey isize ++ maskPayload rotated 0 buf)

/-! ### Answers -/

def rdgWebsocketReplyPong (maskingKey : UInt32) :
    Option SealedStream → Traced StreamAccess (Option (List UInt8))
  | some s => rdgWriteWebsocket maskingKey websocketPongOpcode s
  | none => do
    let closeFrame := [websocketFinBit ||| websocketPongOpcode, 0 ||| websocketMaskBit] ++
      write32 maskingKey
    writeFrame closeFrame 6
    return some closeFrame

def closeDataLen : Option SealedStream → ℕ
  | some s => if s.bytes.length ≥ 2 then 2 else 0
  | none => 0

/-- The masking of the data, which reads and writes the stream of the close. -/
def maskCloseData : Option SealedStream → Traced StreamAccess Unit
  | some s =>
    if s.bytes.length ≥ 2 then do
      readPacket 2 s
      accesses [.packet 2 s.capacity, .packet 3 s.capacity]
    else return ()
  | none => return ()

def rdgWebsocketReplyClose (maskingKey1 maskingKey2 : UInt16) (s : Option SealedStream) :
    Traced StreamAccess (List UInt8) := do
  let closeFrame :=
    [websocketFinBit ||| websocketPongOpcode, UInt8.ofNat (closeDataLen s) ||| websocketMaskBit] ++
      write16 maskingKey1 ++ write16 maskingKey2
  writeFrame closeFrame (6 + closeDataLen s)
  maskCloseData s
  return closeFrame

/-- What `winpr_RAND` gives. -/
structure MaskingKeys where
  maskingKey : UInt32
  maskingKey1 : UInt16
  maskingKey2 : UInt16
deriving DecidableEq, Repr

/-- The stream of an answer, whose length is sealed when it is complete. -/
def Websocket.packet (ctx : Websocket) : Option SealedStream :=
  ctx.responseStreamBuffer.map fun s => ⟨s.2, s.1⟩

/-- The answer to a ping, unless a close has been sent. -/
def Websocket.replyPong (keys : MaskingKeys) (ctx : Websocket) : Traced StreamAccess (List (List UInt8)) :=
  if ctx.closeSent then return []
  else do
    let frame ← rdgWebsocketReplyPong keys.maskingKey ctx.packet
    return frame.toList

def Websocket.replyClose (keys : MaskingKeys) (ctx : Websocket) : Traced StreamAccess
    (List (List UInt8)) := do
  let frame ← rdgWebsocketReplyClose keys.maskingKey1 keys.maskingKey2 ctx.packet
  return [frame]

/-- The answer, when the payload is complete. -/
def Websocket.answer (reply : Websocket → Traced StreamAccess (List (List UInt8))) (ctx : Websocket) :
    Traced StreamAccess (List (List UInt8)) :=
  if ctx.payloadLength = 0 then reply ctx else return []

/-- The cases of a ping and of a close, with the frames that are written back. -/
def websocketAnswerControl (reply : Websocket → Traced StreamAccess (List (List UInt8)))
    (finish : Websocket → Websocket) (ctx : Websocket) (net : List (List UInt8)) :
    Traced StreamAccess (List (List UInt8) × ReadStatus × WebsocketSource) :=
  match rdgWebsocketReadWstream bioRead ctx.newResponse net with
  | (.error fault, ctx, net) => return ([], .error fault, ctx, net)
  | (.ok none, ctx, net) => return ([], .ok none, ctx, net)
  | (.ok (some _), ctx, net) => do
    let frames ← ctx.answer reply
    return (frames, .ok (some []), ctx.endResponse finish, net)

/-- `rdg_websocket_handle_payload`, with the frames that are written back. -/
def rdgWebsocketAnswerPayload (keys : MaskingKeys) (size : ℕ) (ctx : Websocket) (net : List (List UInt8)) :
    Traced StreamAccess (List (List UInt8) × ReadStatus × WebsocketSource) :=
  if ctx.effectiveOpcode = websocketPingOpcode then
    websocketAnswerControl (Websocket.replyPong keys) id ctx net
  else if ctx.effectiveOpcode = websocketCloseOpcode then
    websocketAnswerControl (Websocket.replyClose keys) (fun ctx => { ctx with closeSent := true }) ctx net
  else return ([], rdgWebsocketHandlePayload bioRead size ctx net)

/-- What is written back in a round of `rdg_websocket_read` that begins in a state. -/
def websocketAnswer (keys : MaskingKeys) (s : WebsocketSource) : Traced StreamAccess (List (List UInt8)) :=
  if s.1.state = .payload then do
    let r ← rdgWebsocketAnswerPayload keys 0 s.1 s.2
    return r.1
  else return []

end FreeRDP.Gateway
