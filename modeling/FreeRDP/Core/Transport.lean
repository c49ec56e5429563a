import FreeRDP.Core.Tpkt

/-!
# Reading PDUs from the transport

`transport.c` of `libfreerdp/core`, in non-blocking mode.  The caller passes the same stream until it gets
a PDU, and an empty one after that.

A stream is the list of the bytes up to its position.  The network is a list of what it delivers: `BIO_read`
gives bytes of the first element, and an empty element is a time at which there is nothing to read.  There
is memory for the streams, and the connection does not fail.
-/

namespace FreeRDP.Core

/-! ### `BIO_read` -/

/-- `BIO_read` of up to `r` bytes, `none` if it should be tried again. -/
def bioRead (r : ℕ) : List (List UInt8) → Option (List UInt8) × List (List UInt8)
  | [] => (none, [])
  | [] :: net => (none, net)
  | data :: net => if data.length ≤ r then (some data, net) else (some (data.take r), data.drop r :: net)

/-- The loop of `transport_read_layer`: `bytes` are missing, and each round reads at least one. -/
def readLayerLoop : ℕ → ℕ → List (List UInt8) → List UInt8 × List (List UInt8)
  | 0, _, net => ([], net)
  | rounds + 1, bytes, net =>
    if bytes = 0 then ([], net)
    else
      match bioRead bytes net with
      | (none, net) => ([], net)
      | (some data, net) =>
        let (more, net) := readLayerLoop rounds (bytes - data.length) net
        (data ++ more, net)

def transportReadLayer (bytes : ℕ) (net : List (List UInt8)) : List UInt8 × List (List UInt8) :=
  readLayerLoop bytes bytes net

/-- `transport_read_layer_bytes`, and whether it returns 1.  It returns 0 if nothing has been read. -/
def transportReadLayerBytes (toRead : ℕ) (s : List UInt8) (net : List (List UInt8)) :
    List UInt8 × List (List UInt8) × Bool :=
  let (data, net) := transportReadLayer toRead net
  if data.length = 0 then (s, net, false) else (s ++ data, net, data.length = toRead)

/-! ### Headers -/

/-- The length that a header announces: `none` is an error, and `some none` an incomplete header. -/
def announcedLength (nlaMode : Bool) (b₀ b₁ : UInt8) (rest : List UInt8) : Option (Option ℕ) :=
  if nlaMode then
    if b₀ = 0x30 then
      if b₁.toNat &&& 0x80 ≠ 0 then
        if b₁.toNat &&& 0x7F = 1 then
          match rest with
          | b₂ :: _ => some (some (b₂.toNat + 3))
          | [] => some none
        else if b₁.toNat &&& 0x7F = 2 then
          match rest with
          | b₂ :: b₃ :: _ => some (some ((b₂.toNat <<< 8 ||| b₃.toNat) + 4))
          | _ => some none
        else none
      else some (some (b₁.toNat + 2))
    else some (some 0)
  else if b₀ = 0x03 then
    match rest with
    | b₂ :: b₃ :: _ =>
      let pduLength := b₂.toNat <<< 8 ||| b₃.toNat
      if pduLength < 7 ∨ pduLength > 0xFFFF then none else some (some pduLength)
    | _ => some none
  else if b₁.toNat &&& 0x80 ≠ 0 then
    match rest with
    | b₂ :: _ =>
      let pduLength := (b₁.toNat &&& 0x7F) <<< 8 ||| b₂.toNat
      if pduLength < 3 ∨ pduLength > 0x8000 then none else some (some pduLength)
    | [] => some none
  else
    let pduLength := b₁.toNat
    if pduLength < 3 ∨ pduLength > 0x8000 then none else some (some pduLength)

/-- `transport_parse_pdu`: the length of the PDU, or 0 as long as that is not known, and whether it is
incomplete. -/
def transportParsePdu (nlaMode : Bool) (s : List UInt8) : Option (ℕ × Bool) :=
  match s with
  | b₀ :: b₁ :: rest =>
    match announcedLength nlaMode b₀ b₁ rest with
    | none => none
    | some none => some (0, true)
    | some (some pduLength) =>
      if s.length > pduLength then none else some (pduLength, s.length < pduLength)
  | _ => some (0, true)

/-! ### PDUs -/

/-- What a call returns: -1, 0, or the length of the PDU that is in the stream. -/
inductive ReadStatus
  | error
  | again
  | pdu (length : ℕ)
deriving DecidableEq, Repr

/-- The loop of `transport_default_read_pdu`, which reads the header byte by byte. -/
def readHeaderLoop (nlaMode : Bool) :
    ℕ → List UInt8 → List (List UInt8) → List UInt8 × List (List UInt8) × ReadStatus
  | 0, s, net => (s, net, .again)
  | rounds + 1, s, net =>
    match transportParsePdu nlaMode s with
    | none => (s, net, .error)
    | some (0, true) =>
      match transportReadLayerBytes 1 s net with
      | (s, net, false) => (s, net, .again)
      | (s, net, true) => readHeaderLoop nlaMode rounds s net
    | some (pduLength, _) => (s, net, .pdu pduLength)

/-- `transport_default_read_pdu`.  No header has more than four bytes. -/
def transportDefaultReadPdu (nlaMode : Bool) (s : List UInt8) (net : List (List UInt8)) :
    List UInt8 × List (List UInt8) × ReadStatus :=
  match readHeaderLoop nlaMode 5 s net with
  | (s, net, .pdu pduLength) =>
    if s.length > pduLength then (s, net, .error)
    else
      match transportReadLayerBytes (pduLength - s.length) s net with
      | (s, net, false) => (s, net, .again)
      | (s, net, true) => (s, net, .pdu s.length)
  | (s, net, status) => (s, net, status)

/-! ### Callers -/

/-- A caller: its stream, what the network is going to deliver, the PDUs that it has got, and whether a call
has failed. -/
structure PduReader where
  s : List UInt8
  net : List (List UInt8)
  pdus : List (List UInt8)
  failed : Bool
deriving DecidableEq, Repr

/-- A call.  The caller takes a PDU out of the stream. -/
def PduReader.call (nlaMode : Bool) (r : PduReader) : PduReader :=
  match transportDefaultReadPdu nlaMode r.s r.net with
  | (s, net, .error) => { r with s := s, net := net, failed := true }
  | (s, net, .again) => { r with s := s, net := net }
  | (s, net, .pdu length) => { r with s := [], net := net, pdus := r.pdus ++ [s.take length] }

/-- A caller after `n` calls. -/
def PduReader.calls (nlaMode : Bool) (net : List (List UInt8)) : ℕ → PduReader
  | 0 => ⟨[], net, [], false⟩
  | n + 1 => (PduReader.calls nlaMode net n).call nlaMode

end FreeRDP.Core
