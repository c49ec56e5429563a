import FreeRDP.BitStream.Basic
import FreeRDP.Lib.ForwardCopy
import FreeRDP.Lib.Iterate

/-!
# MPPC bulk compression

`mppc_compress` and `mppc_decompress`, the Lempel–Ziv coder of RDP4 (level 0, a history of 8192
bytes) and RDP5 (level 1, 65536 bytes).

`HistoryBuffer` is a function on indices; the decoder, which runs on bytes from the network, checks
every index it reads or writes against the 65536 bytes of the array and reports a `Stop.fault`
where the C code would leave it.  Pointers into the buffer are indices.  A loop of the source is
`iterate` of its body with a number of rounds; `Stop.rounds` is a loop that had not ended by then.
-/

namespace FreeRDP.Mppc

open ForwardCopy Iterate

/-! ### Constants and contexts -/

def PACKET_COMPRESSED : ℕ := 0x20

def PACKET_AT_FRONT : ℕ := 0x40

def PACKET_FLUSHED : ℕ := 0x80

/-- The number of bytes of `HistoryBuffer`, whatever the level. -/
def historyBytes : ℕ := 65536

/-- The entries of `MPPC_MATCH_TABLE`, which are the multiples of the second one. -/
def MPPC_MATCH_TABLE : Array ℕ := ((List.range 256).map fun sym => sym * 0x009CCF93).toArray

/-- `MPPC_MATCH_INDEX`, in 32-bit arithmetic. -/
def matchIndex (sym1 sym2 sym3 : UInt8) : ℕ :=
  let entry (sym : UInt8) : ℕ := MPPC_MATCH_TABLE.getD sym.toNat 0
  (((entry sym3 <<< 16) + (entry sym2 <<< 8) + entry sym1) % 2 ^ 32 &&& 0x07FFF000) >>> 12

/-- `struct _MPPC_CONTEXT`, without `Compressor`, which nothing reads.  The level is 0 or 1 and
determines the size of the history. -/
structure Context where
  bs : BitStream
  historyPtr : ℕ
  historyOffset : ℕ
  historyBufferSize : ℕ
  historyBuffer : ℕ → UInt8
  matchBuffer : ℕ → UInt16
  compressionLevel : ℕ
  level_size : (compressionLevel = 0 ∧ historyBufferSize = 8192) ∨
    (compressionLevel = 1 ∧ historyBufferSize = 65536)

def mppcSetCompressionLevel (mppc : Context) (level : ℕ) : Context :=
  if level < 1 then
    { mppc with compressionLevel := 0, historyBufferSize := 8192, level_size := .inl ⟨rfl, rfl⟩ }
  else
    { mppc with compressionLevel := 1, historyBufferSize := 65536, level_size := .inr ⟨rfl, rfl⟩ }

def mppcContextReset (mppc : Context) (flush : Bool) : Context :=
  { mppc with
    historyBuffer := fun _ => 0
    matchBuffer := fun _ => 0
    historyOffset := if flush then mppc.historyBufferSize + 1 else 0
    historyPtr := 0 }

/-- `mppc_context_new`, the allocations succeeding. -/
def mppcContextNew (level : ℕ) : Context :=
  let mppc : Context :=
    { bs := BitStream.new
      historyPtr := 0
      historyOffset := 0
      historyBufferSize := 8192
      historyBuffer := fun _ => 0
      matchBuffer := fun _ => 0
      compressionLevel := 0
      level_size := .inl ⟨rfl, rfl⟩ }
  mppcContextReset (mppcSetCompressionLevel mppc level) false

/-- Why a call did not return. -/
inductive Stop where
  /-- a loop was still running after its number of rounds -/
  | rounds
  /-- the byte `index` of `HistoryBuffer`, outside the array, was read or written -/
  | fault (index : ℕ)
  deriving DecidableEq, Repr

/-! ### The two prefix codes -/

/-- One branch of the decoder's `else if` chains: where `(accumulator & mask) == code` it reads
`((accumulator >> shift) & low) + base` and shifts the stream by `nbits`. -/
structure DecodeRow where
  mask : ℕ
  code : ℕ
  shift : ℕ
  low : ℕ
  base : ℕ
  nbits : ℕ
  deriving DecidableEq, Repr

/-- `CopyOffset` for RDP5. -/
def copyOffsetRows5 : List DecodeRow :=
  [⟨0xF8000000, 0xF8000000, 21, 0x3F, 0, 11⟩,
   ⟨0xF8000000, 0xF0000000, 19, 0xFF, 64, 13⟩,
   ⟨0xF0000000, 0xE0000000, 17, 0x7FF, 320, 15⟩,
   ⟨0xE0000000, 0xC0000000, 13, 0xFFFF, 2368, 19⟩]

/-- `CopyOffset` for RDP4. -/
def copyOffsetRows4 : List DecodeRow :=
  [⟨0xF0000000, 0xF0000000, 22, 0x3F, 0, 10⟩,
   ⟨0xF0000000, 0xE0000000, 20, 0xFF, 64, 12⟩,
   ⟨0xE0000000, 0xC0000000, 16, 0x1FFF, 320, 16⟩]

def copyOffsetRows (level : ℕ) : List DecodeRow :=
  if level ≠ 0 then copyOffsetRows5 else copyOffsetRows4

/-- `LengthOfMatch`; the last three branches are guarded by `CompressionLevel`. -/
def lengthOfMatchRows (level : ℕ) : List DecodeRow :=
  [⟨0x80000000, 0x00000000, 31, 0x0000, 3, 1⟩,
   ⟨0xC0000000, 0x80000000, 28, 0x0003, 0x0004, 4⟩,
   ⟨0xE0000000, 0xC0000000, 26, 0x0007, 0x0008, 6⟩,
   ⟨0xF0000000, 0xE0000000, 24, 0x000F, 0x0010, 8⟩,
   ⟨0xF8000000, 0xF0000000, 22, 0x001F, 0x0020, 10⟩,
   ⟨0xFC000000, 0xF8000000, 20, 0x003F, 0x0040, 12⟩,
   ⟨0xFE000000, 0xFC000000, 18, 0x007F, 0x0080, 14⟩,
   ⟨0xFF000000, 0xFE000000, 16, 0x00FF, 0x0100, 16⟩,
   ⟨0xFF800000, 0xFF000000, 14, 0x01FF, 0x0200, 18⟩,
   ⟨0xFFC00000, 0xFF800000, 12, 0x03FF, 0x0400, 20⟩,
   ⟨0xFFE00000, 0xFFC00000, 10, 0x07FF, 0x0800, 22⟩,
   ⟨0xFFF00000, 0xFFE00000, 8, 0x0FFF, 0x1000, 24⟩] ++
  if level ≠ 0 then
    [⟨0xFFF80000, 0xFFF00000, 6, 0x1FFF, 0x2000, 26⟩,
     ⟨0xFFFC0000, 0xFFF80000, 4, 0x3FFF, 0x4000, 28⟩,
     ⟨0xFFFE0000, 0xFFFC0000, 2, 0x7FFF, 0x8000, 30⟩]
  else []

/-- Takes the first branch that applies to the accumulator; gives the value read and the shifted
stream. -/
def readRow (rows : List DecodeRow) (bs : BitStream) : Option (ℕ × BitStream) :=
  (rows.find? fun r => bs.accumulator &&& r.mask = r.code).map fun r =>
    (((bs.accumulator >>> r.shift) &&& r.low) + r.base, bs.shift r.nbits)

/-- One branch of the encoder's `else if` chains: a value `v` with `lo ≤ v < hi` is written as
`code | ((v - base) & low)` in `nbits` bits. -/
structure EncodeRow where
  lo : ℕ
  hi : ℕ
  code : ℕ
  base : ℕ
  low : ℕ
  nbits : ℕ
  deriving DecidableEq, Repr

/-- `CopyOffset` for RDP5; the last branch is a plain `else`, of a `DWORD`. -/
def copyOffsetCodes5 : List EncodeRow :=
  [⟨0, 64, 0x07C0, 0, 0x003F, 11⟩,
   ⟨64, 320, 0x1E00, 64, 0x00FF, 13⟩,
   ⟨320, 2368, 0x7000, 320, 0x07FF, 15⟩,
   ⟨2368, 2 ^ 32, 0x060000, 2368, 0xFFFF, 19⟩]

/-- `CopyOffset` for RDP4. -/
def copyOffsetCodes4 : List EncodeRow :=
  [⟨0, 64, 0x03C0, 0, 0x003F, 10⟩,
   ⟨64, 320, 0x0E00, 64, 0x00FF, 12⟩,
   ⟨320, 8192, 0xC000, 320, 0x1FFF, 16⟩]

def copyOffsetCodes (level : ℕ) : List EncodeRow :=
  if level ≠ 0 then copyOffsetCodes5 else copyOffsetCodes4

def lengthOfMatchCodes (level : ℕ) : List EncodeRow :=
  [⟨3, 4, 0, 0, 0, 1⟩,
   ⟨4, 8, 0x0008, 0, 0x0003, 4⟩,
   ⟨8, 16, 0x0030, 0, 0x0007, 6⟩,
   ⟨16, 32, 0x00E0, 0, 0x000F, 8⟩,
   ⟨32, 64, 0x03C0, 0, 0x001F, 10⟩,
   ⟨64, 128, 0x0F80, 0, 0x003F, 12⟩,
   ⟨128, 256, 0x3F00, 0, 0x007F, 14⟩,
   ⟨256, 512, 0xFE00, 0, 0x00FF, 16⟩,
   ⟨512, 1024, 0x3FC00, 0, 0x01FF, 18⟩,
   ⟨1024, 2048, 0xFF800, 0, 0x03FF, 20⟩,
   ⟨2048, 4096, 0x3FF000, 0, 0x07FF, 22⟩,
   ⟨4096, 8192, 0xFFE000, 0, 0x0FFF, 24⟩] ++
  if level ≠ 0 then
    [⟨8192, 16384, 0x3FFC000, 0, 0x1FFF, 26⟩,
     ⟨16384, 32768, 0xFFF8000, 0, 0x3FFF, 28⟩,
     ⟨32768, 65536, 0x3FFF0000, 0, 0x7FFF, 30⟩]
  else []

/-- The bits of `v`, with their number; nothing where no branch applies. -/
def codeOf (rows : List EncodeRow) (v : ℕ) : List (ℕ × ℕ) :=
  match rows.find? fun r => r.lo ≤ v ∧ v < r.hi with
  | some r => [(r.nbits, r.code ||| ((v - r.base) &&& r.low))]
  | none => []

/-- A literal: 8 bits as they are below `0x80`, else `10` and the lower 7 bits. -/
def literalCode (b : UInt8) : List (ℕ × ℕ) :=
  if b.toNat < 0x80 then [(8, b.toNat)] else [(9, 0x100 ||| (b.toNat &&& 0x7F))]

/-- `BitStream_Write_Bits` for each of the fields. -/
def writeFields (bs : BitStream) (fs : List (ℕ × ℕ)) : BitStream :=
  fs.foldl (fun bs f => bs.writeBits f.2 f.1) bs

/-! ### `mppc_decompress` -/

/-- What the decoding loop changes. -/
structure Decoder where
  bs : BitStream
  historyBuffer : ℕ → UInt8
  historyPtr : ℕ

/-- Stores a literal, checked against the array, and shifts by its `nbits` bits. -/
def Decoder.putLiteral (d : Decoder) (literal nbits : ℕ) :
    Decoder ⊕ Except Stop (ℤ × Decoder) :=
  if historyBytes ≤ d.historyPtr then .inr (.error (.fault d.historyPtr))
  else .inl
    { bs := d.bs.shift nbits
      historyBuffer := Function.update d.historyBuffer d.historyPtr (UInt8.ofNat literal)
      historyPtr := d.historyPtr + 1 }

/-- The index of the first byte of a back-reference. -/
def sourceIndex (level historyPtr copyOffset : ℕ) : ℕ :=
  (historyPtr + 2 ^ 64 - copyOffset) &&& (if level ≠ 0 then 0xFFFF else 0x1FFF)

/-- The copy of a back-reference, after the destination has been checked. -/
def Decoder.copyMatch (d : Decoder) (level copyOffset lengthOfMatch : ℕ) (bs : BitStream) :
    Decoder ⊕ Except Stop (ℤ × Decoder) :=
  match checkedCopy historyBytes d.historyBuffer d.historyPtr
      (sourceIndex level d.historyPtr copyOffset) lengthOfMatch with
  | .error i => .inr (.error (.fault i))
  | .ok historyBuffer => .inl ⟨bs, historyBuffer, d.historyPtr + lengthOfMatch⟩

/-- The part of the loop that follows when no literal was found. -/
def Decoder.readMatch (d : Decoder) (level size : ℕ) : Decoder ⊕ Except Stop (ℤ × Decoder) :=
  match readRow (copyOffsetRows level) d.bs with
  | none => .inr (.ok (if level ≠ 0 then -1001 else -1002, d))
  | some (copyOffset, bs) =>
    match readRow (lengthOfMatchRows level) bs with
    | none => .inr (.ok (-1003, { d with bs := bs }))
    | some (lengthOfMatch, bs) =>
      if size - 1 < d.historyPtr + lengthOfMatch - 1 then .inr (.ok (-1005, { d with bs := bs }))
      else d.copyMatch level copyOffset lengthOfMatch bs

/-- One round of the loop of `mppc_decompress`. -/
def decompressStep (level size : ℕ) (d : Decoder) : Decoder ⊕ Except Stop (ℤ × Decoder) :=
  if d.bs.remainingLength < 8 then .inr (.ok (1, d))
  else if size - 1 < d.historyPtr then .inr (.ok (-1004, d))
  else if d.bs.accumulator &&& 0x80000000 = 0x00000000 then
    d.putLiteral ((d.bs.accumulator &&& 0x7F000000) >>> 24) 8
  else if d.bs.accumulator &&& 0xC0000000 = 0x80000000 then
    d.putLiteral (((d.bs.accumulator &&& 0x3F800000) >>> 23) + 0x80) 9
  else d.readMatch level size

/-- A round of the loop writes at least one byte and none starts past the end, so that more rounds
than the history has bytes are never needed. -/
def decompressRounds : ℕ := historyBytes + 2

/-- What a call of `mppc_decompress` leaves: its status, the context, and the bytes at `*ppDstData`
where it has set them. -/
structure Decompressed where
  status : ℤ
  mppc : Context
  dst : Option (List UInt8)

/-- The effect of `PACKET_AT_FRONT` and `PACKET_FLUSHED` on the receiving context. -/
def applyFlags (mppc : Context) (flags : ℕ) : Context :=
  let mppc := if flags &&& PACKET_AT_FRONT ≠ 0 then
    { mppc with historyOffset := 0, historyPtr := 0 } else mppc
  if flags &&& PACKET_FLUSHED ≠ 0 then
    { mppc with
      historyOffset := 0
      historyPtr := 0
      historyBuffer := fun i => if i < mppc.historyBufferSize then 0 else mppc.historyBuffer i }
  else mppc

def bufferOf (src : List UInt8) : ℕ → UInt8 := fun i => src.getD i 0

/-- The bytes of a buffer from `start` on. -/
def slice (buffer : ℕ → UInt8) (start n : ℕ) : List UInt8 :=
  (List.range n).map fun i => buffer (start + i)

/-- The call after its loop: the history stays as the loop left it, whatever the status, and
`mppc->HistoryPtr` moves on only on success. -/
def finishDecompress (mppc : Context) (status : ℤ) (d : Decoder) : Decompressed :=
  let left := { mppc with bs := d.bs, historyBuffer := d.historyBuffer }
  if status = 1 then
    { status := 1
      mppc := { left with historyPtr := d.historyPtr }
      dst := some (slice d.historyBuffer mppc.historyPtr (d.historyPtr - mppc.historyPtr)) }
  else { status := status, mppc := left, dst := none }

/-- The state in which the loop of `mppc_decompress` starts. -/
def startDecoder (mppc : Context) (src : List UInt8) : Decoder :=
  { bs := (mppc.bs.attach (bufferOf src) src.length).fetch
    historyBuffer := mppc.historyBuffer
    historyPtr := mppc.historyPtr }

def mppcDecompress (mppc : Context) (src : List UInt8) (flags : ℕ) : Except Stop Decompressed :=
  let mppc := applyFlags mppc flags
  let d := startDecoder mppc src
  if flags &&& PACKET_COMPRESSED = 0 then
    .ok { status := 1, mppc := { mppc with bs := d.bs }, dst := some src }
  else
    match iterate (decompressStep mppc.compressionLevel mppc.historyBufferSize)
        decompressRounds d with
    | none => .error .rounds
    | some (.error stop) => .error stop
    | some (.ok (status, d)) => .ok (finishDecompress mppc status d)

/-! ### `mppc_compress` -/

/-- What the encoding loops change.  `highWater` is `mppc->HistoryPtr`, the end of the history as
far as it has been written; `src` is what is left from `pSrcPtr` to `pSrcEnd`. -/
structure Encoder where
  bs : BitStream
  historyBuffer : ℕ → UInt8
  matchBuffer : ℕ → UInt16
  historyPtr : ℕ
  highWater : ℕ
  src : List UInt8

/-- `((bs->position / 8) + n) > (DstSize - 1)`: the test before each of the three flush exits. -/
def noRoom (bs : BitStream) (n dstSize : ℕ) : Prop :=
  (dstSize + 2 ^ 32 - 1) % 2 ^ 32 < bs.position / 8 + n

instance (bs : BitStream) (n dstSize : ℕ) : Decidable (noRoom bs n dstSize) :=
  inferInstanceAs (Decidable (_ < _))

/-- Moves one symbol into the history and enters it in the match table. -/
def Encoder.advance (e : Encoder) (sym1 sym2 sym3 : UInt8) (src : List UInt8) : Encoder :=
  let index := matchIndex sym1 sym2 sym3
  { bs := e.bs
    historyBuffer := Function.update e.historyBuffer e.historyPtr sym1
    matchBuffer :=
      if (e.matchBuffer index).toNat ≠ e.historyPtr then
        Function.update e.matchBuffer index (UInt16.ofNat (e.historyPtr + 1))
      else e.matchBuffer
    historyPtr := e.historyPtr + 1
    highWater := max e.highWater (e.historyPtr + 1)
    src := src }

/-- The condition under which the symbol goes out as a literal, once it is in the history.  For
`MatchPtr == HistoryBuffer` the first comparison of the source reads the byte before the array; the
sixth makes its result irrelevant. -/
def Encoder.NoMatch (e : Encoder) (matchPtr : ℕ) (sym1 sym2 sym3 : UInt8) : Prop :=
  sym1 ≠ e.historyBuffer (matchPtr - 1) ∨ sym2 ≠ e.historyBuffer matchPtr ∨
    sym3 ≠ e.historyBuffer (matchPtr + 1) ∨ e.highWater < matchPtr + 1 ∨ matchPtr = 0 ∨
    matchPtr = e.historyPtr - 1 ∨ matchPtr = e.historyPtr

instance (e : Encoder) (matchPtr : ℕ) (sym1 sym2 sym3 : UInt8) :
    Decidable (e.NoMatch matchPtr sym1 sym2 sym3) := inferInstanceAs (Decidable (_ ∨ _))

/-- The loop that lengthens a match, from `LengthOfMatch` on.  It stops before the last symbol. -/
def extendMatch (highWater : ℕ) : List UInt8 → (ℕ → UInt8) → ℕ → ℕ → ℕ →
    (ℕ → UInt8) × ℕ × ℕ × List UInt8
  | b :: c :: src, historyBuffer, historyPtr, matchPtr, lengthOfMatch =>
    if b = historyBuffer matchPtr ∧ matchPtr ≤ highWater then
      extendMatch highWater (c :: src) (Function.update historyBuffer historyPtr b)
        (historyPtr + 1) (matchPtr + 1) (lengthOfMatch + 1)
    else (historyBuffer, historyPtr, lengthOfMatch, b :: c :: src)
  | src, historyBuffer, historyPtr, _, lengthOfMatch =>
    (historyBuffer, historyPtr, lengthOfMatch, src)

/-- The bits of a back-reference. -/
def matchCode (level copyOffset lengthOfMatch : ℕ) : List (ℕ × ℕ) :=
  codeOf (copyOffsetCodes level) copyOffset ++ codeOf (lengthOfMatchCodes level) lengthOfMatch

/-- `CopyOffset = (HistoryBufferSize - 1) & (HistoryPtr - MatchPtr)`. -/
def copyOffsetOf (size historyPtr matchPtr : ℕ) : ℕ :=
  (size - 1) &&& (historyPtr + 2 ^ 64 - matchPtr)

/-- The branch of the main loop that writes a literal; `error` is the flush exit, with the stream
as it stands there. -/
def Encoder.putLiteral (e : Encoder) (dstSize : ℕ) (b : UInt8) : Except BitStream Encoder :=
  if noRoom e.bs 2 dstSize then .error e.bs
  else .ok { e with bs := writeFields e.bs (literalCode b) }

/-- The branch of the main loop that writes a back-reference; the other two symbols of the match
are already off `src`. -/
def Encoder.putMatch (e : Encoder) (level size dstSize matchPtr : ℕ) (sym2 sym3 : UInt8) :
    Except BitStream Encoder :=
  let historyBuffer := Function.update (Function.update e.historyBuffer e.historyPtr sym2)
    (e.historyPtr + 1) sym3
  let (historyBuffer, historyPtr, lengthOfMatch, src) :=
    extendMatch e.highWater e.src historyBuffer (e.historyPtr + 2) (matchPtr + 2) 3
  if noRoom e.bs 7 dstSize then .error e.bs
  else .ok { e with
    bs := writeFields e.bs (matchCode level (copyOffsetOf size e.historyPtr matchPtr) lengthOfMatch)
    historyBuffer := historyBuffer
    historyPtr := historyPtr
    src := src }

/-- One round of the main loop, `pSrcPtr < pSrcEnd - 2`; it leaves with `error` at a flush exit. -/
def compressStep (level size dstSize : ℕ) (e : Encoder) : Encoder ⊕ Except BitStream Encoder :=
  match e.src with
  | sym1 :: sym2 :: sym3 :: sym4 :: src =>
    let matchPtr := (e.matchBuffer (matchIndex sym1 sym2 sym3)).toNat
    let lit := e.advance sym1 sym2 sym3 (sym2 :: sym3 :: sym4 :: src)
    let next :=
      if lit.NoMatch matchPtr sym1 sym2 sym3 then lit.putLiteral dstSize sym1
      else (e.advance sym1 sym2 sym3 (sym4 :: src)).putMatch level size dstSize matchPtr sym2 sym3
    match next with
    | .ok e => .inl e
    | .error bs => .inr (.error bs)
  | _ => .inr (.ok e)

/-- The loop that writes the trailing symbols as literals; `error` is its flush exit. -/
def putTrailing (dstSize : ℕ) : List UInt8 → Encoder → Except BitStream Encoder
  | [], e => .ok e
  | b :: src, e =>
    if noRoom e.bs 2 dstSize then .error e.bs
    else putTrailing dstSize src
      { e with
        bs := writeFields e.bs (literalCode b)
        historyBuffer := Function.update e.historyBuffer e.historyPtr b
        historyPtr := e.historyPtr + 1
        src := src }

/-- What a call of `mppc_compress` leaves: its status, the context, the bytes at `*ppDstData`
(`none` where the call sets nothing) and `*pFlags`. -/
structure Compressed where
  status : ℤ
  mppc : Context
  dst : Option (List UInt8)
  flags : ℕ

/-- The three flush exits: the context is reset and the packet goes out as it is. -/
def flushCompress (mppc : Context) (bs : BitStream) (src : List UInt8) : Compressed :=
  { status := 1
    mppc := mppcContextReset { mppc with bs := bs } true
    dst := some src
    flags := PACKET_FLUSHED ||| mppc.compressionLevel }

/-- The end of `mppc_compress` after its loops. -/
def finishCompress (mppc : Context) (atFront flushed : Bool) (e : Encoder) : Compressed :=
  let bs := e.bs.flush
  { status := 1
    mppc := { mppc with
      bs := bs
      historyBuffer := e.historyBuffer
      matchBuffer := e.matchBuffer
      historyPtr := e.historyPtr
      historyOffset := e.historyPtr }
    dst := some (slice bs.buffer 0 ((bs.position + 7) / 8))
    flags := PACKET_COMPRESSED ||| mppc.compressionLevel |||
      (if atFront then PACKET_AT_FRONT else 0) ||| (if flushed then PACKET_FLUSHED else 0) }

/-- The packet does not fit behind the history, or there is none: it starts at the front. -/
def startsAtFront (mppc : Context) (srcSize : ℕ) : Bool :=
  ¬ ((mppc.historyOffset + srcSize) % 2 ^ 32 < mppc.historyBufferSize - 3 ∧
    mppc.historyOffset ≠ 0)

/-- The last packet was flushed. -/
def wasFlushed (mppc : Context) (srcSize : ℕ) : Bool :=
  startsAtFront mppc srcSize ∧ mppc.historyOffset = mppc.historyBufferSize + 1

/-- The state in which the loops of `mppc_compress` start. -/
def startEncoder (mppc : Context) (src : List UInt8) (dst : ℕ → UInt8) (dstSize : ℕ) : Encoder :=
  { bs := mppc.bs.attach dst dstSize
    historyBuffer := mppc.historyBuffer
    matchBuffer := mppc.matchBuffer
    historyPtr := if startsAtFront mppc src.length then 0 else mppc.historyOffset
    highWater := mppc.historyPtr
    src := src }

/-- `mppc_compress` of the bytes `src` into a buffer of `dstSize` bytes with the contents `dst`,
or into no buffer at all. -/
def mppcCompress (mppc : Context) (src : List UInt8) (dst : Option (ℕ → UInt8)) (dstSize : ℕ) :
    Except Stop Compressed :=
  match dst with
  | none => .ok { status := -1, mppc := mppc, dst := none, flags := 0 }
  | some dst =>
    let dstSize := min dstSize src.length
    let e := startEncoder mppc src dst dstSize
    match iterate (compressStep mppc.compressionLevel mppc.historyBufferSize dstSize)
        (src.length + 1) e with
    | none => .error .rounds
    | some (.error bs) => .ok (flushCompress mppc bs src)
    | some (.ok e) =>
      match putTrailing dstSize e.src e with
      | .error bs => .ok (flushCompress mppc bs src)
      | .ok e => .ok (finishCompress mppc (startsAtFront mppc src.length)
          (wasFlushed mppc src.length) e)

end FreeRDP.Mppc
