import FreeRDP.Lib.Ring
import FreeRDP.Lib.Iterate

/-!
# ZGFX (RDP8) bulk compression

`zgfx_decompress` decodes segments of literals, back-references and unencoded runs over a ring of
the last 2500000 bytes; `zgfx_compress_to_stream` frames data into segments without compressing it.

A `UINT32` is a natural number, reduced modulo `2 ^ 32` where its arithmetic can leave the range.
The first `OutputCount` bytes of `OutputBuffer` are the list `output`.  Allocations succeed.  A loop
is `iterate` of its body; `Stop.rounds` is a loop that had not ended in its number of rounds, and
`Stop.fault` a read behind the end of the source buffer.
-/

namespace FreeRDP.Zgfx

open ForwardCopy Iterate

/-! ### Constants and contexts -/

def ZGFX_SEGMENTED_SINGLE : UInt8 := 0xE0

def ZGFX_SEGMENTED_MULTIPART : UInt8 := 0xE1

def ZGFX_PACKET_COMPR_TYPE_RDP8 : ℕ := 0x04

def ZGFX_SEGMENTED_MAXSIZE : ℕ := 65535

def PACKET_COMPRESSED : ℕ := 0x20

/-- `HistoryBufferSize`, which never changes. -/
@[irreducible] def historyBufferSize : ℕ := 2500000

theorem historyBufferSize_pos : 0 < historyBufferSize := by
  unfold historyBufferSize
  decide

/-- `sizeof(zgfx->OutputBuffer)`. -/
def outputBufferSize : ℕ := 65536

/-- The part of `struct _ZGFX_CONTEXT` that outlives a call: the history ring. -/
structure Context where
  historyBuffer : ℕ → UInt8
  historyIndex : ℕ
  index_lt : historyIndex < historyBufferSize

def zgfxContextNew : Context := ⟨fun _ => 0, 0, historyBufferSize_pos⟩

/-- Why a call did not return. -/
inductive Stop where
  | rounds
  | fault
  deriving DecidableEq, Repr

/-- `struct _ZGFX_TOKEN`. -/
structure TokenRow where
  prefixLength : ℕ
  prefixCode : ℕ
  valueBits : ℕ
  tokenType : ℕ
  valueBase : ℕ
  deriving DecidableEq, Repr

/-- The table without its closing row. -/
def ZGFX_TOKEN_TABLE : List TokenRow :=
  [⟨1, 0, 8, 0, 0⟩, ⟨5, 17, 5, 1, 0⟩, ⟨5, 18, 7, 1, 32⟩, ⟨5, 19, 9, 1, 160⟩,
   ⟨5, 20, 10, 1, 672⟩, ⟨5, 21, 12, 1, 1696⟩, ⟨5, 24, 0, 0, 0x00⟩, ⟨5, 25, 0, 0, 0x01⟩,
   ⟨6, 44, 14, 1, 5792⟩, ⟨6, 45, 15, 1, 22176⟩, ⟨6, 52, 0, 0, 0x02⟩, ⟨6, 53, 0, 0, 0x03⟩,
   ⟨6, 54, 0, 0, 0xFF⟩, ⟨7, 92, 18, 1, 54944⟩, ⟨7, 93, 20, 1, 317088⟩, ⟨7, 110, 0, 0, 0x04⟩,
   ⟨7, 111, 0, 0, 0x05⟩, ⟨7, 112, 0, 0, 0x06⟩, ⟨7, 113, 0, 0, 0x07⟩, ⟨7, 114, 0, 0, 0x08⟩,
   ⟨7, 115, 0, 0, 0x09⟩, ⟨7, 116, 0, 0, 0x0A⟩, ⟨7, 117, 0, 0, 0x0B⟩, ⟨7, 118, 0, 0, 0x3A⟩,
   ⟨7, 119, 0, 0, 0x3B⟩, ⟨7, 120, 0, 0, 0x3C⟩, ⟨7, 121, 0, 0, 0x3D⟩, ⟨7, 122, 0, 0, 0x3E⟩,
   ⟨7, 123, 0, 0, 0x3F⟩, ⟨7, 124, 0, 0, 0x40⟩, ⟨7, 125, 0, 0, 0x80⟩, ⟨8, 188, 20, 1, 1365664⟩,
   ⟨8, 189, 21, 1, 2414240⟩, ⟨8, 252, 0, 0, 0x0C⟩, ⟨8, 253, 0, 0, 0x38⟩, ⟨8, 254, 0, 0, 0x39⟩,
   ⟨8, 255, 0, 0, 0x66⟩, ⟨9, 380, 22, 1, 4511392⟩, ⟨9, 381, 23, 1, 8705696⟩, ⟨9, 382, 24, 1, 17094304⟩]

theorem valueBits_tokenTable : ∀ t ∈ ZGFX_TOKEN_TABLE, t.valueBits ≤ 24 := by decide

/-! ### The history ring -/

/-- `HistoryIndex` after `count` bytes have been written at `index`. -/
def ringIndex (index count : ℕ) : ℕ :=
  if index + count ≤ historyBufferSize then
    if index + count = historyBufferSize then 0 else index + count
  else count - (historyBufferSize - index)

theorem ringIndex_lt {index count : ℕ} (hi : index < historyBufferSize)
    (hc : count ≤ historyBufferSize) : ringIndex index count < historyBufferSize := by
  unfold ringIndex
  split_ifs <;> omega

/-- The bytes of `src` that `zgfx_history_buffer_ring_write` keeps, when there are too many. -/
def ringResidue (src : List UInt8) : ℕ := src.length - historyBufferSize

/-- `zgfx_history_buffer_ring_write`. -/
def ringWrite (zgfx : Context) (src : List UInt8) : Context :=
  let index := (zgfx.historyIndex + ringResidue src) % historyBufferSize
  let src := src.drop (ringResidue src)
  have hlen : src.length ≤ historyBufferSize := by
    simp only [src, List.length_drop, ringResidue]
    omega
  { historyBuffer := Ring.write historyBufferSize zgfx.historyBuffer index src
    historyIndex := ringIndex index src.length
    index_lt := ringIndex_lt (Nat.mod_lt _ historyBufferSize_pos) hlen }

/-- The bytes of a buffer from `start` on. -/
def slice (buffer : ℕ → UInt8) (start n : ℕ) : List UInt8 :=
  (List.range n).map fun i => buffer (start + i)

/-- The doubling loop of `zgfx_history_buffer_ring_read`: it copies what stands at the start of
the destination until `bytesLeft` more bytes are there. -/
def repeatCopy : ℕ → ℕ → List UInt8 → List UInt8
  | 0, _, dst => dst
  | rounds + 1, bytesLeft, dst =>
    if bytesLeft = 0 then dst
    else repeatCopy rounds (bytesLeft - min dst.length bytesLeft)
      (dst ++ dst.take (min dst.length bytesLeft))

/-- `zgfx_history_buffer_ring_read`. -/
def ringRead (zgfx : Context) (offset count : ℕ) : List UInt8 :=
  let index := (zgfx.historyIndex + historyBufferSize + 2 ^ 32 - offset) % 2 ^ 32 %
    historyBufferSize
  let bytes := min count offset
  let dst :=
    if index + bytes ≤ historyBufferSize then slice zgfx.historyBuffer index bytes
    else slice zgfx.historyBuffer index (historyBufferSize - index) ++
      slice zgfx.historyBuffer 0 (bytes - (historyBufferSize - index))
  repeatCopy count (count - bytes) dst

/-! ### Reading bits -/

/-- The members of the context that read one segment.  `input` is the source buffer from the
segment on; `current` and `inputEnd` are `pbInputCurrent` and `pbInputEnd` as indices into it. -/
structure Reader where
  input : List UInt8
  current : ℕ
  inputEnd : ℕ
  bits : ℕ
  cBitsRemaining : ℕ
  bitsCurrent : ℕ
  cBitsCurrent : ℕ

/-- The body of the loop of `zgfx_GetBits`. -/
def Reader.loadByte (r : Reader) : Reader :=
  { r with
    bitsCurrent := ((r.bitsCurrent <<< 8) % 2 ^ 32 +
      (if r.current < r.inputEnd then (r.input.getD r.current 0).toNat else 0)) % 2 ^ 32
    current := if r.current < r.inputEnd then r.current + 1 else r.current
    cBitsCurrent := (r.cBitsCurrent + 8) % 2 ^ 32 }

def Reader.loadBytes (r : Reader) : ℕ → Reader
  | 0 => r
  | n + 1 => r.loadByte.loadBytes n

/-- The loop of `zgfx_GetBits` never ends: `cBitsCurrent` wraps before it reaches `nbits`, and runs through the
same values again. -/
def Reader.Endless (r : Reader) (nbits : ℕ) : Prop :=
  2 ^ 32 ≤ r.cBitsCurrent + 8 * ((nbits - r.cBitsCurrent + 7) / 8)

instance (r : Reader) (nbits : ℕ) : Decidable (r.Endless nbits) := inferInstanceAs (Decidable (_ ≤ _))

/-- `zgfx_GetBits`, when its loop ends: it runs until `cBitsCurrent` has reached `nbits`. -/
def Reader.getBits (r : Reader) (nbits : ℕ) : Reader :=
  let r := r.loadBytes ((nbits - r.cBitsCurrent + 7) / 8)
  { r with
    cBitsRemaining := (r.cBitsRemaining + 2 ^ 32 - nbits) % 2 ^ 32
    cBitsCurrent := r.cBitsCurrent - nbits
    bits := r.bitsCurrent >>> (r.cBitsCurrent - nbits)
    bitsCurrent := r.bitsCurrent &&& ((1 <<< (r.cBitsCurrent - nbits)) - 1) }

/-- Reads `n` more bits of a prefix, one at a time. -/
def Reader.readPrefix (r : Reader) : ℕ → ℕ → Reader × ℕ
  | 0, inPrefix => (r, inPrefix)
  | n + 1, inPrefix =>
    let r := r.getBits 1
    r.readPrefix n ((inPrefix <<< 1) + r.bits)

/-- The loop over the table: the row whose prefix stands at the reader, which then stands behind
the prefix. -/
def Reader.findToken (r : Reader) : List TokenRow → ℕ → ℕ → Reader × Option TokenRow
  | [], _, _ => (r, none)
  | row :: rows, haveBits, inPrefix =>
    let read := r.readPrefix (row.prefixLength - haveBits) inPrefix
    if read.2 = row.prefixCode then (read.1, some row)
    else read.1.findToken rows (max haveBits row.prefixLength) read.2

/-- The loop that reads the unary part of a match length. -/
def Reader.countLoop (r : Reader) : ℕ → ℕ → ℕ → Option (Reader × ℕ × ℕ)
  | 0, _, _ => none
  | rounds + 1, count, extra =>
    if r.bits = 1 then (r.getBits 1).countLoop rounds (count * 2 % 2 ^ 32) ((extra + 1) % 2 ^ 32)
    else some (r, count, extra)

/-- The unary part of a match length.  Past its end the input reads as zeros, which end it. -/
def Reader.readUnary (r : Reader) : Option (Reader × ℕ × ℕ) :=
  let r := r.getBits 1
  r.countLoop (8 * (r.inputEnd - r.current) + 9) 4 2

/-- The length of a match. -/
def Reader.readCount (r : Reader) : Option (Reader × ℕ) :=
  let r := r.getBits 1
  if r.bits = 0 then some (r, 3)
  else
    match r.readUnary with
    | none => none
    | some (r, count, extra) =>
      if r.Endless extra then none
      else
        let r := r.getBits extra
        some (r, (count + r.bits) % 2 ^ 32)

/-- The realignment before an unencoded run: the cached bits are dropped. -/
def Reader.align (r : Reader) : Reader :=
  { r with
    cBitsRemaining := (r.cBitsRemaining + 2 ^ 32 - r.cBitsCurrent) % 2 ^ 32
    cBitsCurrent := 0
    bitsCurrent := 0 }

/-- `pbInputCurrent += count; cBitsRemaining -= (8 * count)`. -/
def Reader.skip (r : Reader) (count : ℕ) : Reader :=
  { r with
    current := r.current + count
    cBitsRemaining := (r.cBitsRemaining + 2 ^ 32 - 8 * count % 2 ^ 32) % 2 ^ 32 }

/-! ### `zgfx_decompress_segment` -/

/-- What the decoding loop changes. -/
structure Decoder where
  reader : Reader
  zgfx : Context
  output : List UInt8

/-- A literal: into the history first, and then, if there is room, into the output. -/
def Decoder.putLiteral (d : Decoder) (c : UInt8) : Decoder ⊕ Except Stop (Bool × Decoder) :=
  let d := { d with zgfx := ringWrite d.zgfx [c] }
  if outputBufferSize ≤ d.output.length then .inr (.ok (false, d))
  else .inl { d with output := d.output ++ [c] }

def Decoder.putMatch (d : Decoder) (distance count : ℕ) :
    Decoder ⊕ Except Stop (Bool × Decoder) :=
  if outputBufferSize - d.output.length < count then .inr (.ok (false, d))
  else
    let bytes := ringRead d.zgfx distance count
    .inl { d with zgfx := ringWrite d.zgfx bytes, output := d.output ++ bytes }

/-- An unencoded run, behind its 15-bit count.  Realigning does not move `pbInputCurrent`. -/
def Decoder.putUnencoded (d : Decoder) (count : ℕ) : Decoder ⊕ Except Stop (Bool × Decoder) :=
  if outputBufferSize - d.output.length < count then
    .inr (.ok (false, { d with reader := d.reader.align }))
  else if d.reader.input.length < d.reader.current + count then .inr (.error .fault)
  else
    let bytes := (d.reader.input.drop d.reader.current).take count
    .inl
      { reader := d.reader.align.skip count
        zgfx := ringWrite d.zgfx bytes
        output := d.output ++ bytes }

/-- The branch for a token row that is not a literal. -/
def Decoder.readMatch (d : Decoder) (distance : ℕ) : Decoder ⊕ Except Stop (Bool × Decoder) :=
  if distance ≠ 0 then
    match d.reader.readCount with
    | none => .inr (.error .rounds)
    | some (reader, count) => { d with reader := reader }.putMatch distance count
  else
    let reader := d.reader.getBits 15
    { d with reader := reader }.putUnencoded reader.bits

/-- One round of the loop `while (zgfx->cBitsRemaining)`. -/
def decompressStep (d : Decoder) : Decoder ⊕ Except Stop (Bool × Decoder) :=
  if d.reader.cBitsRemaining = 0 then .inr (.ok (true, d))
  else
    match d.reader.findToken ZGFX_TOKEN_TABLE 0 0 with
    | (reader, none) => .inl { d with reader := reader }
    | (reader, some row) =>
      let reader := reader.getBits row.valueBits
      let value := row.valueBase + reader.bits
      if row.tokenType = 0 then { d with reader := reader }.putLiteral (UInt8.ofNat value)
      else { d with reader := reader }.readMatch value

/-- What a call of `zgfx_decompress_segment` leaves: its result, the context, the output and the
rest of the stream. -/
structure SegmentResult where
  ok : Bool
  zgfx : Context
  output : List UInt8
  stream : List UInt8

/-- The reader at the start of a compressed segment of `cbSegment` bytes behind its header byte;
the last of them gives the number of unused bits before it. -/
def startReader (flags : UInt8) (pbSegment : List UInt8) (cbSegment : ℕ) : Reader :=
  let last := if cbSegment = 0 then flags else pbSegment.getD (cbSegment - 1) 0
  { input := pbSegment
    current := 0
    inputEnd := cbSegment - 1
    bits := 0
    cBitsRemaining := (8 * cbSegment + 2 ^ 32 - 8 - last.toNat) % 2 ^ 32
    bitsCurrent := 0
    cBitsCurrent := 0 }

/-- A round of the loop produces output or consumes input. -/
def decompressRounds (cbSegment : ℕ) : ℕ := outputBufferSize + 8 * cbSegment + 2

/-- `zgfx_decompress_segment` behind the header byte. -/
def decompressSegmentData (zgfx : Context) (flags : UInt8) (pbSegment : List UInt8)
    (cbSegment : ℕ) : Except Stop SegmentResult :=
  if flags.toNat &&& PACKET_COMPRESSED = 0 then
    if outputBufferSize < cbSegment then
      .ok
        { ok := false
          zgfx := ringWrite zgfx (pbSegment.take cbSegment)
          output := []
          stream := pbSegment.drop cbSegment }
    else
      .ok
        { ok := true
          zgfx := ringWrite zgfx (pbSegment.take cbSegment)
          output := pbSegment.take cbSegment
          stream := pbSegment.drop cbSegment }
  else
    match iterate decompressStep (decompressRounds cbSegment)
        ⟨startReader flags pbSegment cbSegment, zgfx, []⟩ with
    | none => .error .rounds
    | some (.error stop) => .error stop
    | some (.ok (ok, d)) =>
      .ok { ok := ok, zgfx := d.zgfx, output := d.output, stream := pbSegment.drop cbSegment }

def zgfxDecompressSegment (zgfx : Context) (stream : List UInt8) (segmentSize : ℕ) :
    Except Stop SegmentResult :=
  if stream.length < segmentSize ∨ segmentSize < 1 ∨ segmentSize > 2 ^ 32 - 1 then
    .ok { ok := false, zgfx := zgfx, output := [], stream := stream }
  else decompressSegmentData zgfx (stream.headD 0) (stream.drop 1) (segmentSize - 1)

/-! ### `zgfx_decompress` -/

/-- `Stream_Read_UINT16`. -/
def readU16 (stream : List UInt8) : ℕ := (stream.getD 0 0).toNat + (stream.getD 1 0).toNat * 2 ^ 8

/-- `Stream_Read_UINT32`. -/
def readU32 (stream : List UInt8) : ℕ :=
  (stream.getD 0 0).toNat + (stream.getD 1 0).toNat * 2 ^ 8 + (stream.getD 2 0).toNat * 2 ^ 16 +
    (stream.getD 3 0).toNat * 2 ^ 24

/-- What a call of `zgfx_decompress` leaves: its status, the context, the bytes written at
`*ppDstData` and `*pDstSize`. -/
structure Decompressed where
  status : ℤ
  zgfx : Context
  dst : List UInt8
  dstSize : ℕ

/-- What the loop over the segments of a multipart message changes. -/
structure Concatenation where
  segmentNumber : ℕ
  zgfx : Context
  stream : List UInt8
  dst : List UInt8

/-- The loop is left with a status. -/
def Concatenation.leave (l : Concatenation) (uncompressedSize : ℕ) (status : ℤ) (zgfx : Context) :
    Concatenation ⊕ Except Stop Decompressed :=
  .inr (.ok { status := status, zgfx := zgfx, dst := l.dst, dstSize := uncompressedSize })

/-- The checks on the output of a segment, which is then copied behind the others. -/
def Concatenation.add (l : Concatenation) (uncompressedSize : ℕ) (r : SegmentResult) :
    Concatenation ⊕ Except Stop Decompressed :=
  if ¬ r.ok then l.leave uncompressedSize (-1) r.zgfx
  else if r.output.length > 2 ^ 32 - 1 - l.dst.length then l.leave uncompressedSize (-1) r.zgfx
  else if l.dst.length + r.output.length > uncompressedSize then
    l.leave uncompressedSize (-1) r.zgfx
  else .inl ⟨l.segmentNumber + 1, r.zgfx, r.stream, l.dst ++ r.output⟩

/-- One test of the loop over the segments, and its body. -/
def segmentStep (segmentCount uncompressedSize : ℕ) (l : Concatenation) :
    Concatenation ⊕ Except Stop Decompressed :=
  if segmentCount ≤ l.segmentNumber then l.leave uncompressedSize 1 l.zgfx
  else if l.stream.length < 4 then l.leave uncompressedSize (-1) l.zgfx
  else
    match zgfxDecompressSegment l.zgfx (l.stream.drop 4) (readU32 l.stream) with
    | .error stop => .inr (.error stop)
    | .ok r => l.add uncompressedSize r

/-- The loop over the segments of a multipart message. -/
def decompressSegments (segmentCount uncompressedSize : ℕ) (l : Concatenation) :
    Except Stop Decompressed :=
  match iterate (segmentStep segmentCount uncompressedSize) (segmentCount - l.segmentNumber + 1) l with
  | none => .error .rounds
  | some r => r

/-- `zgfx_decompress` of the first `srcSize` bytes of `src`. -/
def zgfxDecompress (zgfx : Context) (src : List UInt8) (srcSize : ℕ) : Except Stop Decompressed :=
  match src.take srcSize with
  | [] => .ok { status := -1, zgfx := zgfx, dst := [], dstSize := 0 }
  | descriptor :: stream =>
    if descriptor = ZGFX_SEGMENTED_SINGLE then
      match zgfxDecompressSegment zgfx stream stream.length with
      | .error stop => .error stop
      | .ok r =>
        if ¬ r.ok ∨ r.output = [] then .ok { status := -1, zgfx := r.zgfx, dst := [], dstSize := 0 }
        else .ok { status := 1, zgfx := r.zgfx, dst := r.output, dstSize := r.output.length }
    else if descriptor = ZGFX_SEGMENTED_MULTIPART then
      if stream.length < 6 then .ok { status := -1, zgfx := zgfx, dst := [], dstSize := 0 }
      else
        let segmentCount := readU16 stream
        let uncompressedSize := readU32 (stream.drop 2)
        let stream := stream.drop 6
        if stream.length < segmentCount * 4 then
          .ok { status := -1, zgfx := zgfx, dst := [], dstSize := 0 }
        else decompressSegments segmentCount uncompressedSize ⟨0, zgfx, stream, []⟩
    else .ok { status := -1, zgfx := zgfx, dst := [], dstSize := 0 }

/-! ### `zgfx_compress_to_stream` -/

/-- A `wStream` that is written to; its buffer grows as needed. -/
structure WStream where
  buffer : ℕ → UInt8
  position : ℕ
  length : ℕ

def WStream.write (s : WStream) (bytes : List UInt8) : WStream :=
  { s with buffer := store s.buffer s.position bytes, position := s.position + bytes.length }

def WStream.seek (s : WStream) (n : ℕ) : WStream := { s with position := s.position + n }

def WStream.setPosition (s : WStream) (position : ℕ) : WStream := { s with position := position }

/-- The bytes of `Stream_Write_UINT16`. -/
def u16le (n : ℕ) : List UInt8 := [UInt8.ofNat n, UInt8.ofNat (n / 2 ^ 8)]

/-- The bytes of `Stream_Write_UINT32`. -/
def u32le (n : ℕ) : List UInt8 :=
  [UInt8.ofNat n, UInt8.ofNat (n / 2 ^ 8), UInt8.ofNat (n / 2 ^ 16), UInt8.ofNat (n / 2 ^ 24)]

/-- What the loop over the fragments changes; `src` is what is left of the data. -/
structure Framer where
  fragment : ℕ
  src : List UInt8
  posSegmentCount : ℕ
  flags : ℕ
  stream : WStream

/-- `zgfx_compress_segment`: the header byte and the raw data. -/
def zgfxCompressSegment (s : WStream) (src : List UInt8) (flags : ℕ) : WStream :=
  (s.write [UInt8.ofNat flags]).write src

/-- The size of the next fragment. -/
def Framer.srcSize (f : Framer) : ℕ :=
  if f.src.length > ZGFX_SEGMENTED_MAXSIZE then ZGFX_SEGMENTED_MAXSIZE else f.src.length

/-- What is left behind the next fragment; `totalLength` is its length. -/
def Framer.rest (f : Framer) : List UInt8 := f.src.drop f.srcSize

/-- The headers of the first fragment: the descriptor, and in a multipart message the place of
`segmentCount`, which is `posSegmentCount`, and `uncompressedSize`. -/
def Framer.writeHeader (f : Framer) (uncompressedSize : ℕ) : ℕ × WStream :=
  if f.fragment = 0 then
    if f.rest.length = 0 then (f.posSegmentCount, f.stream.write [ZGFX_SEGMENTED_SINGLE])
    else
      let s := f.stream.write [ZGFX_SEGMENTED_MULTIPART]
      (s.position, (s.seek 2).write (u32le uncompressedSize))
  else (f.posSegmentCount, f.stream)

/-- Fills in the size of the segment that was written from `posDataStart` on. -/
def WStream.fillSize (s : WStream) (posDstSize posDataStart : ℕ) : WStream :=
  if posDstSize ≠ 0 then
    let dstSize := s.position - posDataStart
    ((s.setPosition posDstSize).write (u32le dstSize)).setPosition (posDataStart + dstSize)
  else s

/-- The body of the loop over the fragments. -/
def compressFragment (uncompressedSize : ℕ) (f : Framer) : Framer :=
  let header := f.writeHeader uncompressedSize
  let flags := f.flags ||| ZGFX_PACKET_COMPR_TYPE_RDP8
  let data := f.src.take f.srcSize
  { fragment := f.fragment + 1
    src := f.rest
    posSegmentCount := header.1
    flags := flags
    stream :=
      if f.fragment > 0 ∨ f.rest.length > 0 then
        let s := header.2.seek 4
        (zgfxCompressSegment s data flags).fillSize header.2.position s.position
      else (zgfxCompressSegment header.2 data flags).fillSize 0 header.2.position }

/-- One test of the loop, and its body. -/
def compressStep (uncompressedSize : ℕ) (f : Framer) : Framer ⊕ Framer :=
  if f.src.length > 0 ∨ f.fragment = 0 then .inl (compressFragment uncompressedSize f) else .inr f

/-- What follows the loop: the length is sealed and the number of segments filled in. -/
def sealStream (f : Framer) : WStream :=
  let s := { f.stream with length := f.stream.position }
  if f.posSegmentCount ≠ 0 then
    ((s.setPosition f.posSegmentCount).write (u16le f.fragment)).setPosition s.length
  else s

/-- `zgfx_compress_to_stream`, with `*pFlags` as `flags`. -/
def zgfxCompressToStream (s : WStream) (src : List UInt8) (flags : ℕ) : Except Stop WStream :=
  match iterate (compressStep src.length) (src.length + 2)
      { fragment := 0, src := src, posSegmentCount := 0, flags := flags, stream := s } with
  | none => .error .rounds
  | some f => .ok (sealStream f)

end FreeRDP.Zgfx
