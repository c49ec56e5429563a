import FreeRDP.Gateway.Chunked
import FreeRDP.Gateway.Websocket
import FreeRDP.Lib.Iterate

/-!
# Reading from a connection that is closed

`rdg_websocket_read` and `rdg_chuncked_read` round by round, for any `BIO_read`.  With `bioReadClosed` the
status is 0 when the input is at its end; with `bioRead` the functions are those that are read with before
(`websocketReadLoop_eq`).
-/

namespace FreeRDP.Gateway

/-- `BIO_read` of a connection that has been closed behind the input. -/
def bioReadClosed : BioRead := fun len net => if net = [] then (some [], []) else bioRead len net

variable (read : BioRead)

/-! ### Websocket frames -/

/-- A call of `rdg_websocket_read` in progress: what is left of the buffer, and what is in it. -/
structure WebsocketCall where
  size : ℕ
  buffer : List UInt8
  ctx : Websocket
  net : List (List UInt8)
deriving DecidableEq, Repr

/-- `WebsocketStateOpcodeAndFin` and `WebsocketStateLengthAndMasking`, which take a byte. -/
def websocketByteRound (take : UInt8 → Websocket) (c : WebsocketCall) :
    WebsocketCall ⊕ (ReadStatus × WebsocketSource) :=
  match read 1 c.net with
  | (some (byte :: _), net) => .inl { c with ctx := take byte, net := net }
  | (status, net) => .inr (effective c.buffer status, c.ctx, net)

/-- `WebsocketStateShortLength` and `WebsocketStateLongLength`. -/
def websocketLengthRound (lenLength : ℕ) (c : WebsocketCall) :
    WebsocketCall ⊕ (ReadStatus × WebsocketSource) :=
  match websocketLengthLoop read lenLength lenLength c.ctx c.net with
  | (none, ctx, net) => .inl { c with ctx := { ctx with state := ctx.behindLength }, net := net }
  | (some status, s) => .inr (effective c.buffer status, s)

/-- `WebSocketStatePayload`. -/
def websocketPayloadRound (c : WebsocketCall) : WebsocketCall ⊕ (ReadStatus × WebsocketSource) :=
  match rdgWebsocketHandlePayload read c.size c.ctx c.net with
  | (.error fault, s) => .inr (if c.buffer.length > 0 then .ok (some c.buffer) else .error fault, s)
  | (.ok none, s) => .inr (effective c.buffer none, s)
  | (.ok (some data), ctx, net) =>
    if data.length = c.size then .inr (.ok (some (c.buffer ++ data)), ctx, net)
    else .inl ⟨c.size - data.length, c.buffer ++ data, ctx, net⟩

/-- A round of the loop of `rdg_websocket_read`. -/
def websocketRound (c : WebsocketCall) : WebsocketCall ⊕ (ReadStatus × WebsocketSource) :=
  match c.ctx.state with
  | .opcodeAndFin => websocketByteRound read c.ctx.takeOpcode c
  | .lengthAndMasking => websocketByteRound read c.ctx.takeLength c
  | .shortLength => websocketLengthRound read 2 c
  | .longLength => websocketLengthRound read 8 c
  | .maskingKey => .inr (.error .refused, c.ctx, c.net)
  | .payload => websocketPayloadRound read c

/-! ### Chunks -/

/-- A call of `rdg_chuncked_read` in progress: `lenLoop` is the variable `_haveNewLine` in the loop of
`ChunkStateLenghHeader`. -/
structure ChunkedCall where
  lenLoop : Option Bool
  size : ℕ
  buffer : List UInt8
  ctx : Chunked
  net : List (List UInt8)
deriving DecidableEq, Repr

/-- A round of the loop of `ChunkStateLenghHeader`, or what follows it. -/
def chunkedLenRound (haveNewLine : Bool) (c : ChunkedCall) :
    ChunkedCall ⊕ (ReadStatus × ChunkedSource) :=
  if c.ctx.headerFooterPos < 10 ∧ haveNewLine = false then
    match read 1 c.net with
    | (none, net) => .inr (effective c.buffer none, c.ctx, net)
    | (some data, net) =>
      let dst := data.headD (c.ctx.lenBuffer.getD c.ctx.headerFooterPos 0)
      let ctx := { c.ctx with
        lenBuffer := c.ctx.lenBuffer.set c.ctx.headerFooterPos dst
        headerFooterPos := c.ctx.headerFooterPos + data.length }
      .inl { c with lenLoop := some (dst = 10), ctx := ctx, net := net }
  else .inl { c with lenLoop := none, ctx := chunkedStartData c.ctx }

/-- A round of one of the loops of `rdg_chuncked_read`. -/
def chunkedRound (c : ChunkedCall) : ChunkedCall ⊕ (ReadStatus × ChunkedSource) :=
  match c.lenLoop with
  | some haveNewLine => chunkedLenRound read haveNewLine c
  | none =>
    match c.ctx.state with
    | .data =>
      match read (if c.size > c.ctx.nextOffset then c.ctx.nextOffset else c.size) c.net with
      | (none, net) => .inr (effective c.buffer none, c.ctx, net)
      | (some [], net) => .inr (effective c.buffer (some []), c.ctx, net)
      | (some data, net) =>
        let ctx := chunkedTakeData data.length c.ctx
        if data.length = c.size then .inr (.ok (some (c.buffer ++ data)), ctx, net)
        else .inl ⟨none, c.size - data.length, c.buffer ++ data, ctx, net⟩
    | .footer =>
      if c.ctx.nextOffset = 0 ∧ c.ctx.headerFooterPos < 2 then
        match read (2 - c.ctx.headerFooterPos) c.net with
        | (none, net) => .inr (effective c.buffer none, c.ctx, net)
        | (some data, net) => .inl { c with ctx := chunkedTakeFooter data.length c.ctx, net := net }
      else .inr (.error .assertion, c.ctx, c.net)
    | .lenghHeader =>
      if c.ctx.nextOffset = 0 then .inl { c with lenLoop := some false }
      else .inr (.error .assertion, c.ctx, c.net)

end FreeRDP.Gateway
