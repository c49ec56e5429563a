import FreeRDP.Gateway.Basic

/-!
# Chunked transfer encoding

`rdg_chuncked_read` and `rdg_write_chunked_data_packet` of `rdg.c`.  That the socket is closed at the end of
the stream is left out.
-/

namespace FreeRDP.Gateway

open Wire (le16 le32)

/-! ### Numbers -/

def hexValue (c : UInt8) : Option ℕ :=
  if 48 ≤ c ∧ c ≤ 57 then some (c.toNat - 48)
  else if 65 ≤ c ∧ c ≤ 70 then some (c.toNat - 55)
  else if 97 ≤ c ∧ c ≤ 102 then some (c.toNat - 87)
  else none

/-- The digits in front of the first other character. -/
def strtoulDigits (acc : ℕ) : List UInt8 → ℕ
  | [] => acc
  | c :: s =>
    match hexValue c with
    | some d => strtoulDigits (acc * 16 + d) s
    | none => acc

/-- The digits behind an optional prefix `0x`. -/
def strtoulPrefixed : List UInt8 → ℕ
  | 48 :: x :: c :: s =>
    if (x = 120 ∨ x = 88) ∧ (hexValue c).isSome then strtoulDigits 0 (c :: s)
    else strtoulDigits 0 (48 :: x :: c :: s)
  | s => strtoulDigits 0 s

/-- `strtoul` of base 16, for a string that is too short for an overflow. -/
def strtoul (s : List UInt8) : ℕ :=
  match s.dropWhile fun c => c = 32 ∨ (9 ≤ c ∧ c ≤ 13) with
  | 45 :: s => (2 ^ 64 - strtoulPrefixed s) % 2 ^ 64
  | 43 :: s => strtoulPrefixed s
  | s => strtoulPrefixed s

/-! ### Reading -/

inductive ChunkState
  | lenghHeader
  | data
  | footer
deriving DecidableEq, Repr

/-- `rdg_http_encoding_chunked_context`. -/
structure Chunked where
  nextOffset : ℕ
  headerFooterPos : ℕ
  state : ChunkState
  lenBuffer : List UInt8
deriving DecidableEq, Repr

/-- A context whose memory is zero. -/
def Chunked.zero : Chunked := ⟨0, 0, .lenghHeader, List.replicate 11 0⟩

/-- The loop of `ChunkStateLenghHeader`, and whether it comes to its end.  Each round reads a byte. -/
def chunkedLenLoop : ℕ → Bool → Chunked → List (List UInt8) → Bool × Chunked × List (List UInt8)
  | 0, _, ctx, net => (true, ctx, net)
  | rounds + 1, haveNewLine, ctx, net =>
    if ctx.headerFooterPos < 10 ∧ haveNewLine = false then
      match bioRead 1 net with
      | (none, net) => (false, ctx, net)
      | (some data, net) =>
        let dst := data.headD (ctx.lenBuffer.getD ctx.headerFooterPos 0)
        chunkedLenLoop rounds (dst = 10)
          { ctx with
            lenBuffer := ctx.lenBuffer.set ctx.headerFooterPos dst
            headerFooterPos := ctx.headerFooterPos + data.length }
          net
    else (true, ctx, net)

/-- The end of `ChunkStateLenghHeader`. -/
def chunkedStartData (ctx : Chunked) : Chunked :=
  let lenBuffer := ctx.lenBuffer.set ctx.headerFooterPos 0
  let tmp := strtoul lenBuffer
  if tmp = 0 then { nextOffset := 0, headerFooterPos := 0, state := .footer, lenBuffer := lenBuffer }
  else { ctx with nextOffset := tmp, state := .data, lenBuffer := lenBuffer }

/-- `count` bytes of the data have been read. -/
def chunkedTakeData (count : ℕ) (ctx : Chunked) : Chunked :=
  if ctx.nextOffset - count = 0 then { ctx with nextOffset := 0, state := .footer, headerFooterPos := 0 }
  else { ctx with nextOffset := ctx.nextOffset - count }

/-- `count` bytes of the footer have been read. -/
def chunkedTakeFooter (count : ℕ) (ctx : Chunked) : Chunked :=
  if ctx.headerFooterPos + count = 2 then { ctx with state := .lenghHeader, headerFooterPos := 0 }
  else { ctx with headerFooterPos := ctx.headerFooterPos + count }

/-- The loop of `rdg_chuncked_read`, with what is in the buffer. -/
def chunkedReadLoop : ℕ → ℕ → List UInt8 → Chunked → List (List UInt8) →
    ReadStatus × Chunked × List (List UInt8)
  | 0, _, _, ctx, net => (.error .endless, ctx, net)
  | rounds + 1, size, buffer, ctx, net =>
    match ctx.state with
    | .data =>
      match bioRead (if size > ctx.nextOffset then ctx.nextOffset else size) net with
      | (none, net) => (effective buffer none, ctx, net)
      | (some [], net) => (effective buffer (some []), ctx, net)
      | (some data, net) =>
        let ctx := chunkedTakeData data.length ctx
        if data.length = size then (.ok (some (buffer ++ data)), ctx, net)
        else chunkedReadLoop rounds (size - data.length) (buffer ++ data) ctx net
    | .footer =>
      if ctx.nextOffset = 0 ∧ ctx.headerFooterPos < 2 then
        match bioRead (2 - ctx.headerFooterPos) net with
        | (none, net) => (effective buffer none, ctx, net)
        | (some data, net) => chunkedReadLoop rounds size buffer (chunkedTakeFooter data.length ctx) net
      else (.error .assertion, ctx, net)
    | .lenghHeader =>
      if ctx.nextOffset = 0 then
        match chunkedLenLoop 10 false ctx net with
        | (false, ctx, net) => (effective buffer none, ctx, net)
        | (true, ctx, net) => chunkedReadLoop rounds size buffer (chunkedStartData ctx) net
      else (.error .assertion, ctx, net)

abbrev ChunkedSource := Chunked × List (List UInt8)

/-- `rdg_chuncked_read`.  No more rounds are needed than there are bytes. -/
def rdgChunckedRead (size : ℕ) (s : ChunkedSource) : ReadStatus × ChunkedSource :=
  chunkedReadLoop (s.2.flatten.length + 1) size [] s.1 s.2

/-! ### Writing -/

/-- A digit of `%x`. -/
def hexDigit (d : ℕ) : UInt8 := if d < 10 then UInt8.ofNat (48 + d) else UInt8.ofNat (87 + d)

/-- `%x`. -/
def printHex (n : ℕ) : List UInt8 :=
  if n < 16 then [hexDigit n] else printHex (n / 16) ++ [hexDigit (n % 16)]

def pktTypeData : ℕ := 0xA

def dataPacketHeader (size : ℕ) : List UInt8 :=
  le16 pktTypeData ++ le16 0 ++ le32 (size + 10) ++ le16 size

/-- `rdg_write_chunked_data_packet`: what is written, if the packet is not refused. -/
def rdgWriteChunkedDataPacket (buf : List UInt8) : Option (List UInt8) :=
  if buf.length > 0xFFFF then none
  else if buf.length < 1 then some []
  else some (printHex (buf.length + 10) ++ [13, 10] ++ dataPacketHeader buf.length ++ buf ++ [13, 10])

end FreeRDP.Gateway
