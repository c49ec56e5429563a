import FreeRDP.Core.Nego

/-!
# Connection Requests

`nego_send_negotiation_request` and `nego_read_request` of `libfreerdp/core/nego.c`.  A request may have a
routing token or a cookie, either of which ends with a line break, and an `RDP_NEG_REQ`.

The client writes into a stream of 512 bytes that does not grow.  A write beyond it gives `none`.  The
allocations succeed.
-/

namespace FreeRDP.Core

open Wire

/-- What the requests use of an `rdp_nego`. -/
structure NegoRequest where
  state : NegoState
  routingToken : Option (List UInt8)
  cookie : Option (List UInt8)
  cookieMaxLength : ℕ
  requestedProtocols : ℕ
  sendNegoData : Bool
  restrictedAdminModeRequired : Bool
deriving DecidableEq

def typeRdpNegReq : ℕ := 1

def restrictedAdminModeRequired : ℕ := 1

def tpduConnectionRequestLength : ℕ := tpktHeaderLength + 7

def crlf : List UInt8 := [0x0D, 0x0A]

/-- `Cookie: mstshash=`. -/
def cookiePrefix : List UInt8 :=
  [67, 111, 111, 107, 105, 101, 58, 32, 109, 115, 116, 115, 104, 97, 115, 104, 61]

/-! ### Sending -/

/-- The size of the stream of a request. -/
def requestCapacity : ℕ := 512

/-- `Stream_Write`: `bs` is written behind `s`. -/
def requestWrite (bs s : List UInt8) : Option (List UInt8) :=
  if s.length + bs.length ≤ requestCapacity then some (s ++ bs) else none

/-- The routing token, or else the cookie, with the new length of the packet. -/
def writeTokenOrCookie (n : NegoRequest) (length : ℕ) (s : List UInt8) : Option (List UInt8 × ℕ) :=
  match n.routingToken, n.cookie with
  | some token, _ => do
    let s ← requestWrite token s
    if token.length > 2 ∧ token.drop (token.length - 2) = crlf then
      return (s, length + token.length)
    else
      let s ← requestWrite crlf s
      return (s, length + (token.length + 2))
  | none, some cookie => do
    let cookieLength := if cookie.length > n.cookieMaxLength then n.cookieMaxLength else cookie.length
    let s ← requestWrite cookiePrefix s
    let s ← requestWrite (cookie.take cookieLength) s
    let s ← requestWrite crlf s
    return (s, length + (cookieLength + 19))
  | none, none => some (s, length)

/-- Whether a request has an `RDP_NEG_REQ`. -/
def NegoRequest.SendsNegoData (n : NegoRequest) : Prop :=
  n.requestedProtocols > protocolRdp ∨ n.sendNegoData = true

instance (n : NegoRequest) : Decidable n.SendsNegoData := instDecidableOr

/-- The `RDP_NEG_REQ`. -/
def negReq (n : NegoRequest) : List UInt8 :=
  byte typeRdpNegReq ++
    byte (if n.restrictedAdminModeRequired then restrictedAdminModeRequired else 0) ++
    le16 8 ++ le32 n.requestedProtocols

/-- The `RDP_NEG_REQ` is written, if there is one. -/
def writeNegReq (n : NegoRequest) (p : List UInt8 × ℕ) : Option (List UInt8 × ℕ) :=
  if n.SendsNegoData then do
    let s ← requestWrite (negReq n) p.1
    return (s, p.2 + 8)
  else some p

/-- `nego_send_negotiation_request`: the packet, or nothing where it returns `FALSE`.  The transport
takes the packet if `written`. -/
def negoSendNegotiationRequest (written : Bool) (n : NegoRequest) : Option (Option (List UInt8)) := do
  let s ← requestWrite (List.replicate tpduConnectionRequestLength 0) []
  let p ← writeTokenOrCookie n tpduConnectionRequestLength s
  let (s, length) ← writeNegReq n p
  if length > 0xFFFF then return none
  else
    let header := tpktWriteHeader length ++ tpduWriteHeader (length - 5) x224TpduConnectionRequest
    if written then return some (header ++ s.drop tpduConnectionRequestLength) else return none

/-! ### Reading -/

/-- `tpdu_read_connection_request`, with the length indicator. -/
def tpduReadConnectionRequest (tpktlength : ℕ) : Reader ℕ := do
  let (code, li) ← tpduReadHeader tpktlength
  check (code = x224TpduConnectionRequest)
  return li

/-- The number of bytes in front of the first line break, and what comes behind it. -/
def scanCrlf : List UInt8 → Option (ℕ × List UInt8)
  | a :: b :: s =>
    if a = 0x0D ∧ b = 0x0A then some (0, s)
    else do
      let (k, s) ← scanCrlf (b :: s)
      return (k + 1, s)
  | _ => none

/-- `nego_read_request_token_or_cookie`.  The comparison with the beginning of a cookie looks at 17
bytes, if there are at least 15. -/
def negoReadRequestTokenOrCookie (n : NegoRequest) : Reader NegoRequest := fun s =>
  if s.length < 15 then some (n, s)
  else if s.take 17 ≠ cookiePrefix then do
    let (len, rest) ← scanCrlf s
    if 0 ∈ s.take len ∨ len = 0 then none
    else return ({ n with routingToken := some (s.take len) }, rest)
  else if s.length < 19 then some (n, s)
  else do
    let (len, rest) ← scanCrlf (s.drop 17)
    if 0 ∈ s.take (17 + len) then none
    else return ({ n with cookie := some (s.take (17 + len)) }, rest)

def negoProcessNegotiationRequest (n : NegoRequest) : Reader NegoRequest := do
  need 7
  let _flags ← u8
  let _length ← u16le
  let requestedProtocols ← u32le
  return { n with requestedProtocols := requestedProtocols, state := .final }

/-- `Stream_GetRemainingLength`. -/
def remainingLength : Reader ℕ := fun s => some (s.length, s)

/-- The `RDP_NEG_REQ` of a request, if there is one. -/
def negoReadNegReq (n : NegoRequest) : Reader NegoRequest := fun s =>
  if s.length ≥ 8 then
    (do
      let type ← u8
      check (type = typeRdpNegReq)
      negoProcessNegotiationRequest n : Reader NegoRequest) s
  else some (n, s)

def negoReadRequest (n : NegoRequest) : Reader NegoRequest := do
  let length ← tpktReadHeader
  let li ← tpduReadConnectionRequest length
  let remaining ← remainingLength
  check (li = remaining + 6)
  let n ← negoReadRequestTokenOrCookie n
  let n ← negoReadNegReq n
  let rest ← remainingLength
  check (rest = 0)
  return n

end FreeRDP.Core
