import FreeRDP.Gateway.Basic

/-!
# Websocket frames

`rdg_websocket_read` of `rdg.c` and what it calls.  What is written back (a pong, or the answer to a
close) is left out, since nothing that is read depends on it.  The functions that read from the network
have `BIO_read` as a parameter, so that they also stand for a connection that is closed
(`Gateway.Closed`).

The loop also returns the states in which its rounds begin.
-/

namespace FreeRDP.Gateway

inductive WebsocketState
  | opcodeAndFin
  | lengthAndMasking
  | shortLength
  | longLength
  | maskingKey
  | payload
deriving DecidableEq, Repr

def websocketContinuationOpcode : UInt8 := 0x0

def websocketBinaryOpcode : UInt8 := 0x2

def websocketCloseOpcode : UInt8 := 0x8

def websocketPingOpcode : UInt8 := 0x9

/-- `rdg_http_websocket_context`.  `responseStreamBuffer` is a capacity, and the bytes up to the
position. -/
structure Websocket where
  payloadLength : ℕ
  masking : Bool
  closeSent : Bool
  opcode : UInt8
  fragmentOriginalOpcode : UInt8
  lengthAndMaskPosition : ℕ
  state : WebsocketState
  responseStreamBuffer : Option (ℕ × List UInt8)
deriving DecidableEq, Repr

/-- A context whose memory is zero. -/
def Websocket.zero : Websocket := ⟨0, false, false, 0, 0, 0, .opcodeAndFin, none⟩

abbrev WebsocketSource := Websocket × List (List UInt8)

/-! ### Payload -/

/-- `payloadLength -= status`, which is a `size_t`, and a frame that ends. -/
def Websocket.consume (status : ℕ) (ctx : Websocket) : Websocket :=
  let payloadLength := (ctx.payloadLength + (2 ^ 64 - status)) % 2 ^ 64
  { ctx with
    payloadLength := payloadLength
    state := if payloadLength = 0 then .opcodeAndFin else ctx.state }

section Reading

variable (read : BioRead)

def rdgWebsocketReadData (size : ℕ) (ctx : Websocket) (net : List (List UInt8)) :
    Option (List UInt8) × WebsocketSource :=
  if ctx.payloadLength = 0 then (some [], { ctx with state := .opcodeAndFin }, net)
  else
    match read (if ctx.payloadLength < size then ctx.payloadLength else size) net with
    | (none, net) => (none, ctx, net)
    | (some [], net) => (some [], ctx, net)
    | (some data, net) => (some data, ctx.consume data.length, net)

/-- `rdg_websocket_read_discard`.  The status is the number of bytes, which are not kept. -/
def rdgWebsocketReadDiscard (ctx : Websocket) (net : List (List UInt8)) :
    Option (List UInt8) × WebsocketSource :=
  if ctx.payloadLength = 0 then (some [], { ctx with state := .opcodeAndFin }, net)
  else
    match read 256 net with
    | (none, net) => (none, ctx, net)
    | (some [], net) => (some [], ctx, net)
    | (some data, net) => (some data, ctx.consume data.length, net)

/-- `rdg_websocket_read_wstream` into `responseStreamBuffer`. -/
def rdgWebsocketReadWstream (ctx : Websocket) (net : List (List UInt8)) : ReadStatus × WebsocketSource :=
  if ctx.payloadLength = 0 then (.ok (some []), { ctx with state := .opcodeAndFin }, net)
  else
    match ctx.responseStreamBuffer with
    | none => (.error .refused, ctx, net)
    | some (capacity, s) =>
      if capacity - s.length ≠ ctx.payloadLength then (.error .refused, ctx, net)
      else
        match read ctx.payloadLength net with
        | (none, net) => (.ok none, ctx, net)
        | (some [], net) => (.ok (some []), ctx, net)
        | (some data, net) =>
          (.ok (some data), { ctx.consume data.length with
            responseStreamBuffer := some (capacity, s ++ data) }, net)

/-- `effectiveOpcode` of `rdg_websocket_handle_payload`. -/
def Websocket.effectiveOpcode (ctx : Websocket) : UInt8 :=
  if ctx.opcode &&& 0xf = websocketContinuationOpcode then ctx.fragmentOriginalOpcode &&& 0xf
  else ctx.opcode &&& 0xf

/-- `Stream_New` for a response, unless there is one. -/
def Websocket.newResponse (ctx : Websocket) : Websocket :=
  match ctx.responseStreamBuffer with
  | some _ => ctx
  | none =>
    { ctx with
      responseStreamBuffer := if ctx.payloadLength = 0 then none else some (ctx.payloadLength, []) }

/-- A response that is complete is sent and freed; then `finish` is done. -/
def Websocket.endResponse (finish : Websocket → Websocket) (ctx : Websocket) : Websocket :=
  if ctx.payloadLength = 0 then { finish ctx with responseStreamBuffer := none } else ctx

/-- The cases of a ping and of a close. -/
def websocketHandleControl (finish : Websocket → Websocket) (ctx : Websocket) (net : List (List UInt8)) :
    ReadStatus × WebsocketSource :=
  match rdgWebsocketReadWstream read ctx.newResponse net with
  | (.error fault, ctx, net) => (.error fault, ctx, net)
  | (.ok none, ctx, net) => (.ok none, ctx, net)
  | (.ok (some _), ctx, net) => (.ok (some []), ctx.endResponse finish, net)

/-- The case of any other opcode, whose payload is dropped. -/
def websocketReadDropped (ctx : Websocket) (net : List (List UInt8)) : ReadStatus × WebsocketSource :=
  match rdgWebsocketReadDiscard read ctx net with
  | (none, s) => (.ok none, s)
  | (some _, s) => (.ok (some []), s)

def rdgWebsocketHandlePayload (size : ℕ) (ctx : Websocket) (net : List (List UInt8)) :
    ReadStatus × WebsocketSource :=
  if ctx.effectiveOpcode = websocketBinaryOpcode then
    ((.ok (rdgWebsocketReadData read size ctx net).1), (rdgWebsocketReadData read size ctx net).2)
  else if ctx.effectiveOpcode = websocketPingOpcode then websocketHandleControl read id ctx net
  else if ctx.effectiveOpcode = websocketCloseOpcode then
    websocketHandleControl read (fun ctx => { ctx with closeSent := true }) ctx net
  else websocketReadDropped read ctx net

end Reading

/-! ### Headers -/

/-- The end of `WebsocketStateOpcodeAndFin`. -/
def Websocket.takeOpcode (byte : UInt8) (ctx : Websocket) : Websocket :=
  { ctx with
    opcode := byte
    fragmentOriginalOpcode :=
      if byte &&& 0xf ≠ websocketContinuationOpcode ∧ byte &&& 0xf < 0x08 then byte
      else ctx.fragmentOriginalOpcode
    state := .lengthAndMasking }

def Websocket.behindLength (ctx : Websocket) : WebsocketState :=
  if ctx.masking then .maskingKey else .payload

/-- The end of `WebsocketStateLengthAndMasking`. -/
def Websocket.takeLength (byte : UInt8) (ctx : Websocket) : Websocket :=
  let ctx := { ctx with masking := byte &&& 0x80 = 0x80, lengthAndMaskPosition := 0, payloadLength := 0 }
  let len := byte &&& 0x7f
  if len < 126 then { ctx with payloadLength := len.toNat, state := ctx.behindLength }
  else if len = 126 then { ctx with state := .shortLength }
  else { ctx with state := .longLength }

/-- The loop over the bytes of a length: `none` if it comes to its end, and the status otherwise. -/
def websocketLengthLoop (read : BioRead) (lenLength : ℕ) :
    ℕ → Websocket → List (List UInt8) → Option (Option (List UInt8)) × WebsocketSource
  | 0, ctx, net => (none, ctx, net)
  | rounds + 1, ctx, net =>
    if ctx.lengthAndMaskPosition < lenLength then
      match read 1 net with
      | (some (byte :: _), net) =>
        websocketLengthLoop read lenLength rounds
          { ctx with
            payloadLength := ctx.payloadLength <<< 8 % 2 ^ 64 ||| byte.toNat
            lengthAndMaskPosition := ctx.lengthAndMaskPosition + 1 }
          net
      | (status, net) => (some status, ctx, net)
    else (none, ctx, net)

/-- `WebsocketStateShortLength` and `WebsocketStateLongLength`. -/
def websocketReadLength (ctx : Websocket) (net : List (List UInt8)) :
    Option (Option (List UInt8)) × WebsocketSource :=
  let lenLength := if ctx.state = .shortLength then 2 else 8
  match websocketLengthLoop bioRead lenLength lenLength ctx net with
  | (none, ctx, net) => (none, { ctx with state := ctx.behindLength }, net)
  | (some status, s) => (some status, s)

/-! ### Reading -/

/-- A round begins in `s`. -/
def visit (s : WebsocketSource) (r : ReadStatus × WebsocketSource × List WebsocketSource) :
    ReadStatus × WebsocketSource × List WebsocketSource :=
  (r.1, r.2.1, s :: r.2.2)

/-- The loop of `rdg_websocket_read`, with what is in the buffer. -/
def websocketReadLoop : ℕ → ℕ → List UInt8 → Websocket → List (List UInt8) →
    ReadStatus × WebsocketSource × List WebsocketSource
  | 0, _, _, ctx, net => (.error .endless, (ctx, net), [])
  | rounds + 1, size, buffer, ctx, net =>
    visit (ctx, net) <|
      match ctx.state with
      | .opcodeAndFin =>
        match bioRead 1 net with
        | (some (byte :: _), net) => websocketReadLoop rounds size buffer (ctx.takeOpcode byte) net
        | (status, net) => (effective buffer status, (ctx, net), [])
      | .lengthAndMasking =>
        match bioRead 1 net with
        | (some (byte :: _), net) => websocketReadLoop rounds size buffer (ctx.takeLength byte) net
        | (status, net) => (effective buffer status, (ctx, net), [])
      | .shortLength | .longLength =>
        match websocketReadLength ctx net with
        | (none, ctx, net) => websocketReadLoop rounds size buffer ctx net
        | (some status, s) => (effective buffer status, s, [])
      | .maskingKey => (.error .refused, (ctx, net), [])
      | .payload =>
        match rdgWebsocketHandlePayload bioRead size ctx net with
        | (.error fault, s) => (if buffer.length > 0 then .ok (some buffer) else .error fault, s, [])
        | (.ok none, s) => (effective buffer none, s, [])
        | (.ok (some data), ctx, net) =>
          if data.length = size then (.ok (some (buffer ++ data)), (ctx, net), [])
          else websocketReadLoop rounds (size - data.length) (buffer ++ data) ctx net

/-- `rdg_websocket_read`, and the states in which its rounds begin.  Each byte is read in a round, and
behind each there may be an empty frame. -/
def rdgWebsocketReadVisits (size : ℕ) (s : WebsocketSource) :
    ReadStatus × WebsocketSource × List WebsocketSource :=
  websocketReadLoop (2 * s.2.flatten.length + 2) size [] s.1 s.2

def rdgWebsocketRead (size : ℕ) (s : WebsocketSource) : ReadStatus × WebsocketSource :=
  ((rdgWebsocketReadVisits size s).1, (rdgWebsocketReadVisits size s).2.1)

end FreeRDP.Gateway
