import FreeRDP.Lib.Traced
import FreeRDP.Zgfx.Basic

/-!
# The accesses of `zgfx_decompress_segment`

The functions of the decoder once more, with a record of the bytes that they read from the segment and
of those that they write to `OutputBuffer`.  Offsets into the segment count from its header byte, so that
`pbSegment` is at offset 1.
-/

namespace FreeRDP.Zgfx

open Traced

inductive Access where
  | load (offset : ℕ)
  | store (offset : ℕ)
  deriving DecidableEq, Repr

/-- The bytes of `pbSegment` from `start` on. -/
def loads (start n : ℕ) : List Access := (List.range n).map fun i => .load (start + i + 1)

/-- The bytes of `OutputBuffer` from `start` on. -/
def stores (start n : ℕ) : List Access := (List.range n).map fun i => .store (start + i)

/-- The access stays in a segment of `segmentSize` bytes and in `OutputBuffer`. -/
def Access.InBounds (segmentSize : ℕ) : Access → Prop
  | .load offset => offset < segmentSize
  | .store offset => offset < outputBufferSize

/-! ### Reading bits -/

def Reader.loadByteTraced (r : Reader) : Traced Access Reader :=
  ⟨r.loadByte, if r.current < r.inputEnd then [.load (r.current + 1)] else []⟩

def Reader.loadBytesTraced (r : Reader) : ℕ → Traced Access Reader
  | 0 => pure r
  | n + 1 => do
    let r ← r.loadByteTraced
    r.loadBytesTraced n

def Reader.getBitsTraced (r : Reader) (nbits : ℕ) : Traced Access Reader := do
  let _ ← r.loadBytesTraced ((nbits - r.cBitsCurrent + 7) / 8)
  pure (r.getBits nbits)

def Reader.readPrefixTraced (r : Reader) : ℕ → ℕ → Traced Access (Reader × ℕ)
  | 0, inPrefix => pure (r, inPrefix)
  | n + 1, inPrefix => do
    let r ← r.getBitsTraced 1
    r.readPrefixTraced n ((inPrefix <<< 1) + r.bits)

def Reader.findTokenTraced (r : Reader) :
    List TokenRow → ℕ → ℕ → Traced Access (Reader × Option TokenRow)
  | [], _, _ => pure (r, none)
  | row :: rows, haveBits, inPrefix => do
    let read ← r.readPrefixTraced (row.prefixLength - haveBits) inPrefix
    if read.2 = row.prefixCode then pure (read.1, some row)
    else read.1.findTokenTraced rows (max haveBits row.prefixLength) read.2

def Reader.countLoopTraced (r : Reader) : ℕ → ℕ → ℕ → Traced Access (Option (Reader × ℕ × ℕ))
  | 0, _, _ => pure none
  | rounds + 1, count, extra =>
    if r.bits = 1 then do
      let r ← r.getBitsTraced 1
      r.countLoopTraced rounds (count * 2 % 2 ^ 32) ((extra + 1) % 2 ^ 32)
    else pure (some (r, count, extra))

def Reader.readUnaryTraced (r : Reader) : Traced Access (Option (Reader × ℕ × ℕ)) := do
  let r ← r.getBitsTraced 1
  r.countLoopTraced (8 * (r.inputEnd - r.current) + 9) 4 2

/-- A loop that never ends has the loads of its first pass through the values of `cBitsCurrent`. -/
def Reader.readCountTraced (r : Reader) : Traced Access (Option (Reader × ℕ)) := do
  let r ← r.getBitsTraced 1
  if r.bits = 0 then pure (some (r, 3))
  else
    match ← r.readUnaryTraced with
    | none => pure none
    | some (r, count, extra) =>
      let read ← r.getBitsTraced extra
      pure (if r.Endless extra then none else some (read, (count + read.bits) % 2 ^ 32))

/-! ### `zgfx_decompress_segment` -/

def Decoder.putLiteralTraced (d : Decoder) (c : UInt8) :
    Traced Access (Decoder ⊕ Except Stop (Bool × Decoder)) := do
  accesses (if outputBufferSize ≤ d.output.length then [] else stores d.output.length 1)
  pure (d.putLiteral c)

def Decoder.putMatchTraced (d : Decoder) (distance count : ℕ) :
    Traced Access (Decoder ⊕ Except Stop (Bool × Decoder)) := do
  accesses (if outputBufferSize - d.output.length < count then [] else stores d.output.length count)
  pure (d.putMatch distance count)

/-- The bytes of the run are read twice, by `CopyMemory` and by `zgfx_history_buffer_ring_write`. -/
def Decoder.putUnencodedTraced (d : Decoder) (count : ℕ) :
    Traced Access (Decoder ⊕ Except Stop (Bool × Decoder)) := do
  accesses
    (if outputBufferSize - d.output.length < count then []
    else loads d.reader.current count ++ stores d.output.length count ++ loads d.reader.current count)
  pure (d.putUnencoded count)

def Decoder.readMatchTraced (d : Decoder) (distance : ℕ) :
    Traced Access (Decoder ⊕ Except Stop (Bool × Decoder)) :=
  if distance ≠ 0 then do
    match ← d.reader.readCountTraced with
    | none => pure (.inr (.error .rounds))
    | some (reader, count) => Decoder.putMatchTraced { d with reader := reader } distance count
  else do
    let reader ← d.reader.getBitsTraced 15
    Decoder.putUnencodedTraced { d with reader := reader } reader.bits

def decompressStepTraced (d : Decoder) : Traced Access (Decoder ⊕ Except Stop (Bool × Decoder)) :=
  if d.reader.cBitsRemaining = 0 then pure (.inr (.ok (true, d)))
  else do
    match ← d.reader.findTokenTraced ZGFX_TOKEN_TABLE 0 0 with
    | (reader, none) => pure (.inl { d with reader := reader })
    | (reader, some row) =>
      let reader ← reader.getBitsTraced row.valueBits
      let value := row.valueBase + reader.bits
      if row.tokenType = 0 then
        Decoder.putLiteralTraced { d with reader := reader } (UInt8.ofNat value)
      else Decoder.readMatchTraced { d with reader := reader } value

/-- The last byte of the segment is read; in a segment of one byte that is the header. -/
def startReaderTraced (flags : UInt8) (pbSegment : List UInt8) (cbSegment : ℕ) :
    Traced Access Reader :=
  ⟨startReader flags pbSegment cbSegment, [.load cbSegment]⟩

/-- The accesses for data that is not compressed. -/
def rawAccesses (cbSegment : ℕ) : List Access :=
  loads (cbSegment - historyBufferSize) (min cbSegment historyBufferSize) ++
    (if outputBufferSize < cbSegment then [] else loads 0 cbSegment ++ stores 0 cbSegment)

/-- The loop, for at most `rounds` rounds, and what it leaves; `stream` is what follows the segment. -/
def decompressLoopTraced (rounds : ℕ) (d : Decoder) (stream : List UInt8) :
    Traced Access (Except Stop SegmentResult) := do
  match ← loop decompressStepTraced rounds d with
  | none => pure (.error .rounds)
  | some (.error stop) => pure (.error stop)
  | some (.ok (ok, d)) =>
    pure (.ok { ok := ok, zgfx := d.zgfx, output := d.output, stream := stream })

def decompressSegmentDataTraced (zgfx : Context) (flags : UInt8) (pbSegment : List UInt8)
    (cbSegment : ℕ) : Traced Access (Except Stop SegmentResult) :=
  if flags.toNat &&& PACKET_COMPRESSED = 0 then do
    accesses (rawAccesses cbSegment)
    pure (decompressSegmentData zgfx flags pbSegment cbSegment)
  else do
    let reader ← startReaderTraced flags pbSegment cbSegment
    decompressLoopTraced (decompressRounds cbSegment) ⟨reader, zgfx, []⟩ (pbSegment.drop cbSegment)

def zgfxDecompressSegmentTraced (zgfx : Context) (stream : List UInt8) (segmentSize : ℕ) :
    Traced Access (Except Stop SegmentResult) :=
  if stream.length < segmentSize ∨ segmentSize < 1 ∨ segmentSize > 2 ^ 32 - 1 then
    pure (.ok { ok := false, zgfx := zgfx, output := [], stream := stream })
  else do
    access (.load 0)
    decompressSegmentDataTraced zgfx (stream.headD 0) (stream.drop 1) (segmentSize - 1)

end FreeRDP.Zgfx
