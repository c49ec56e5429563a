import Mathlib.Algebra.Group.Nat.Defs
import Mathlib.Data.Nat.Log

/-!
# The ClearCodec decoder

`clear_decompress` of `codec/clear.c`, with the four layers of a ClearCodec message (glyph,
residual, bands, subcodecs) and the caches that live in a `CLEAR_CONTEXT`.

The model is about where the decoder reads and writes.  No branch of the decoder depends on the
colour of a pixel, so colours are left out: a block of memory is the number of bytes it has, and
every access is an `Event` in a log.  The log also holds the headers the decoder finds in the
message.  `Env` answers the questions that the source leaves to its surroundings: whether an
allocation succeeds and whether an NSCodec bitmap decodes.

A function that returns `FALSE` keeps what it has changed, so the functions are programs over
`EStateM`.  The `UINT32` variables are natural numbers, reduced modulo `2 ^ 32` where the C
arithmetic can leave the range.
-/

namespace FreeRDP.Clear

/-! ### Pixel formats -/

/-- `GetBitsPerPixel`. -/
def bitsPerPixel (format : ℕ) : ℕ := (format >>> 24) &&& 0x3F

/-- `GetBytesPerPixel`. -/
def bytesPerPixel (format : ℕ) : ℕ := (bitsPerPixel format + 7) / 8

/-- Whether `WriteColor` supports the format; otherwise it writes nothing and returns `FALSE`. -/
def writable (format : ℕ) : Bool :=
  bitsPerPixel format = 32 || bitsPerPixel format = 24 || bitsPerPixel format = 16 ||
    bitsPerPixel format = 15 || bitsPerPixel format = 8

/-- `AreColorFormatsEqualNoAlpha`: the formats agree outside bit 15. -/
def formatsEqualNoAlpha (first second : ℕ) : Bool :=
  first &&& (2 ^ 32 - 1 - 8 <<< 12) = second &&& (2 ^ 32 - 1 - 8 <<< 12)

def PIXEL_FORMAT_BGRX32 : ℕ := 0x20040888

def PIXEL_FORMAT_BGRA32 : ℕ := 0x20048888

def PIXEL_FORMAT_BGR24 : ℕ := 0x18020888

def PIXEL_FORMAT_RGB16 : ℕ := 0x10010565

/-! ### The context -/

/-- `CLEAR_VBAR_ENTRY` and `CLEAR_GLYPH_ENTRY`.  `pixels` is the size of the allocation, in bytes. -/
structure Entry where
  size : ℕ
  count : ℕ
  pixels : Option ℕ

def Entry.allocated (e : Entry) : ℕ := e.pixels.getD 0

/-- The three caches of a context. -/
inductive Cache where
  | glyph
  | vBar
  | shortVBar
deriving DecidableEq, Repr

structure Context where
  seqNumber : ℕ
  tempSize : ℕ
  format : ℕ
  vBarStorageCursor : ℕ
  shortVBarStorageCursor : ℕ
  entries : Cache → ℕ → Entry

/-- The entries of `GlyphCache`. -/
def GLYPH_CACHE_SIZE : ℕ := 4000

def CLEARCODEC_VBAR_SIZE : ℕ := 32768

def CLEARCODEC_VBAR_SHORT_SIZE : ℕ := 16384

def CLEARCODEC_FLAG_GLYPH_INDEX : ℕ := 0x01

def CLEARCODEC_FLAG_GLYPH_HIT : ℕ := 0x02

def CLEARCODEC_FLAG_CACHE_RESET : ℕ := 0x04

/-! ### Calls, events and programs -/

/-- The arguments of a call of `clear_decompress`, for a destination that is not `NULL`.  `src` are
the `SrcSize` bytes at `pSrcData`. -/
structure Call where
  src : List UInt8
  nWidth : ℕ
  nHeight : ℕ
  dstFormat : ℕ
  nXDst : ℕ
  nYDst : ℕ
  nDstWidth : ℕ
  nDstHeight : ℕ

/-- What a call does, in the order in which it does it. -/
inductive Event where
  /-- the header of a run of the residual layer: `pixelIndex` and `runLengthFactor` -/
  | run (pixelIndex runLengthFactor : ℕ)
  /-- the header of a band -/
  | band (xStart xEnd yStart yEnd : ℕ)
  /-- the header of a subcodec bitmap -/
  | subcodec (id xStart yStart width height : ℕ)
  /-- a rectangle of pixels of the destination is written -/
  | dst (x y width height : ℕ)
  /-- `count` pixels of `TempBuffer` are written, from pixel `first` on -/
  | temp (first count : ℕ)
  /-- the first `bytes` bytes of a cache entry that has `allocated` bytes are read or written -/
  | entry (bytes allocated : ℕ)
deriving DecidableEq, Repr

/-- The answers of the surroundings, by the number of questions asked before. -/
structure Env where
  /-- whether the allocation for a cache entry succeeds -/
  entryAlloc : ℕ → Bool
  /-- whether the allocation of `TempBuffer` succeeds -/
  tempAlloc : ℕ → Bool
  /-- whether `nsc_process_message` gets as far as its copy to the destination -/
  nscDecodes : ℕ → Bool

structure State where
  clear : Context
  stream : List UInt8
  asked : ℕ
  log : List Event

/-- A program that may return `FALSE`. -/
abbrev M := EStateM Unit State

/-- Goes on if the condition holds and returns `FALSE` otherwise. -/
def require (c : Prop) [Decidable c] : M Unit := if c then pure () else throw ()

/-- Runs a program under a condition. -/
def onlyIf (c : Prop) [Decidable c] (x : M Unit) : M Unit := if c then x else pure ()

def emit (e : Event) : M Unit := modify fun s => { s with log := s.log ++ [e] }

def getClear : M Context := do return (← get).clear

def modifyClear (f : Context → Context) : M Unit := modify fun s => { s with clear := f s.clear }

/-- Asks the surroundings a question. -/
def ask (answers : ℕ → Bool) : M Bool :=
  modifyGet fun s => (answers s.asked, { s with asked := s.asked + 1 })

/-- `Stream_GetRemainingLength`. -/
def remaining : M ℕ := do return (← get).stream.length

/-- Returns `FALSE` if fewer than `n` bytes are left. -/
def requireBytes (n : ℕ) : M Unit := do
  let left ← remaining
  require (n ≤ left)

/-- `Stream_Read_UINT8`. -/
def readU8 : M ℕ :=
  modifyGet fun s => ((s.stream.headD 0).toNat, { s with stream := s.stream.tail })

/-- `Stream_Read_UINT16`. -/
def readU16 : M ℕ := do
  let lo ← readU8
  let hi ← readU8
  return lo + 2 ^ 8 * hi

/-- `Stream_Read_UINT32`. -/
def readU32 : M ℕ := do
  let lo ← readU16
  let hi ← readU16
  return lo + 2 ^ 16 * hi

def seek (n : ℕ) : M Unit := modify fun s => { s with stream := s.stream.drop n }

/-! ### Copies to the destination -/

/-- `freerdp_image_copy` to the destination, through pointers that are not `NULL`.  Between equal
formats it copies lines; otherwise it converts pixel by pixel and writes the first pixel of each line
before it looks at the width. -/
def imageCopy (call : Call) (srcFormat x y width height : ℕ) : M Unit := do
  require (height < 2 ^ 31 ∧ width < 2 ^ 31)
  if formatsEqualNoAlpha srcFormat call.dstFormat then emit (.dst x y width height)
  else onlyIf (writable call.dstFormat) (emit (.dst x y (max 1 width) height))

/-- The clipping of one axis in `convert_color`. -/
def clipped (n x limit : ℕ) : ℕ :=
  if (n + x) % 2 ^ 32 > limit then (limit + 2 ^ 32 - x) % 2 ^ 32 else n

def convertColor (call : Call) (srcFormat x y width height : ℕ) : M Unit :=
  imageCopy call srcFormat x y (clipped width x call.nDstWidth) (clipped height y call.nDstHeight)

/-! ### The residual layer -/

variable (env : Env) (call : Call)

def clearResizeBuffer (width height : ℕ) : M Unit := do
  let clear ← getClear
  let size := (width + 16) * (height + 16) * bytesPerPixel clear.format % 2 ^ 32
  if size > clear.tempSize then do
    let ok ← ask env.tempAlloc
    require ok
    modifyClear fun clear => { clear with tempSize := size }
  else pure ()

/-- The run length of the residual layer and of the RLEX subcodec, whose first byte has been read: one,
two or four bytes more.  It comes with the number of bytes it takes. -/
def readRunLength (first : ℕ) : M (ℕ × ℕ) :=
  if first ≥ 0xFF then do
    requireBytes 2
    let second ← readU16
    if second ≥ 0xFFFF then do
      requireBytes 4
      let third ← readU32
      return (third, 6)
    else return (second, 2)
  else return (first, 0)

/-- The loop of `clear_decompress_residual_data`.  `written` counts the pixels that `dstBuffer` has
moved on by.  It returns `pixelIndex`. -/
def residualLoop (residualByteCount pixelCount : ℕ) : ℕ → ℕ → ℕ → ℕ → M ℕ
  | 0, _, pixelIndex, _ => return pixelIndex
  | rounds + 1, suboffset, pixelIndex, written =>
    if suboffset < residualByteCount then do
      requireBytes 4
      seek 3
      let first ← readU8
      let (runLengthFactor, bytes) ← readRunLength first
      emit (.run pixelIndex runLengthFactor)
      require ((pixelIndex + runLengthFactor) % 2 ^ 32 ≤ pixelCount)
      let clear ← getClear
      onlyIf (writable clear.format) (emit (.temp written runLengthFactor))
      residualLoop residualByteCount pixelCount rounds (suboffset + 4 + bytes)
        ((pixelIndex + runLengthFactor) % 2 ^ 32) (written + runLengthFactor)
    else return pixelIndex

def clearDecompressResidualData (residualByteCount : ℕ) : M Unit := do
  requireBytes residualByteCount
  let pixelCount := call.nWidth * call.nHeight % 2 ^ 32
  clearResizeBuffer env call.nWidth call.nHeight
  let left ← remaining
  let pixelIndex ← residualLoop residualByteCount pixelCount (left + 1) 0 0 0
  require (pixelIndex = pixelCount)
  let clear ← getClear
  convertColor call clear.format call.nXDst call.nYDst call.nWidth call.nHeight

/-! ### The bands layer -/

def getEntry (cache : Cache) (i : ℕ) : M Entry := do return (← get).clear.entries cache i

def setEntry (cache : Cache) (i : ℕ) (e : Entry) : M Unit :=
  modifyClear fun clear =>
    { clear with
      entries := Function.update clear.entries cache (Function.update (clear.entries cache) i e) }

/-- `n` pixels from the start of an entry are read or written. -/
def touchEntry (cache : Cache) (i n : ℕ) : M Unit := do
  let clear ← getClear
  emit (.entry (n * bytesPerPixel clear.format) (clear.entries cache i).allocated)

/-- The reallocation in `resize_vbar_entry`: the size is set first, and the bytes that are new are
cleared. -/
def reallocEntry (cache : Cache) (i : ℕ) : M Unit := do
  let clear ← getClear
  let e := clear.entries cache i
  setEntry cache i { e with size := e.count }
  let ok ← ask env.entryAlloc
  require ok
  setEntry cache i
    { e with size := e.count, pixels := some (e.count * bytesPerPixel clear.format) }
  touchEntry cache i e.count

def resizeVbarEntry (cache : Cache) (i : ℕ) : M Unit := do
  let e ← getEntry cache i
  onlyIf (e.count > e.size) (reallocEntry env cache i)
  let e ← getEntry cache i
  require ¬ (e.pixels = none ∧ e.size ≠ 0)

/-- Sets `count` of an entry and resizes it. -/
def setCount (cache : Cache) (i count : ℕ) : M Unit := do
  let e ← getEntry cache i
  setEntry cache i { e with count := count }
  resizeVbarEntry env cache i

/-- The `SHORT_VBAR_CACHE_MISS` branch: the short bar at the cursor is filled from the stream.  It
returns its index, `vBarYOn`, the number of its pixels and the number of bytes read. -/
def shortVBarMiss (vBarHeader : ℕ) : M (ℕ × ℕ × ℕ × ℕ) := do
  let vBarYOn := vBarHeader &&& 0xFF
  let vBarYOff := (vBarHeader >>> 8) &&& 0x3F
  require (vBarYOn ≤ vBarYOff)
  let vBarShortPixelCount := vBarYOff - vBarYOn
  require (vBarShortPixelCount ≤ 52)
  requireBytes (vBarShortPixelCount * 3)
  let clear ← getClear
  let cursor := clear.shortVBarStorageCursor
  require (cursor < CLEARCODEC_VBAR_SHORT_SIZE)
  setCount env .shortVBar cursor vBarShortPixelCount
  require (vBarShortPixelCount = 0 ∨ writable clear.format)
  touchEntry .shortVBar cursor vBarShortPixelCount
  seek (vBarShortPixelCount * 3)
  modifyClear fun clear =>
    { clear with shortVBarStorageCursor := (cursor + 1) % CLEARCODEC_VBAR_SHORT_SIZE }
  return (cursor, vBarYOn, vBarShortPixelCount, vBarShortPixelCount * 3)

/-- The number of pixels of a bar of `vBarPixelCount` pixels that a run of `count` pixels from `y` on
covers. -/
def cutCount (vBarPixelCount y count : ℕ) : ℕ :=
  if y + count > vBarPixelCount then (if vBarPixelCount > y then vBarPixelCount - y else 0)
  else count

/-- The `vBarUpdate` block: the bar at the cursor is composed of background, the short bar and
background.  It returns the index of the bar. -/
def updateVBar (vBarHeight shortIndex vBarYOn vBarShortPixelCount : ℕ) : M ℕ := do
  let clear ← getClear
  let cursor := clear.vBarStorageCursor
  require (cursor < CLEARCODEC_VBAR_SIZE)
  setCount env .vBar cursor vBarHeight
  let above := cutCount vBarHeight 0 vBarYOn
  let inside := cutCount vBarHeight vBarYOn vBarShortPixelCount
  let below := if vBarHeight > vBarYOn + vBarShortPixelCount then
    vBarHeight - (vBarYOn + vBarShortPixelCount) else 0
  require (inside + below = 0 ∨ writable clear.format)
  onlyIf (inside > 0) (touchEntry .shortVBar shortIndex inside)
  onlyIf (writable clear.format) (touchEntry .vBar cursor (above + inside + below))
  let e ← getEntry .vBar cursor
  setEntry .vBar cursor { e with count := vBarHeight }
  modifyClear fun clear =>
    { clear with vBarStorageCursor := (cursor + 1) % CLEARCODEC_VBAR_SIZE }
  return cursor

/-- The four branches on `vBarHeader`: the index of the bar in `VBarStorage` and the number of bytes
read for it. -/
def selectVBar (vBarHeader vBarHeight : ℕ) : M (ℕ × ℕ) :=
  if vBarHeader &&& 0xC000 = 0x4000 then do
    let vBarIndex := vBarHeader &&& 0x3FFF
    requireBytes 1
    let vBarYOn ← readU8
    let short ← getEntry .shortVBar vBarIndex
    let index ← updateVBar env vBarHeight vBarIndex vBarYOn short.count
    return (index, 1)
  else if vBarHeader &&& 0xC000 = 0 then do
    let (shortIndex, vBarYOn, vBarShortPixelCount, bytes) ← shortVBarMiss env vBarHeader
    let index ← updateVBar env vBarHeight shortIndex vBarYOn vBarShortPixelCount
    return (index, bytes)
  else do
    -- the last branch of the source, an invalid header, has no header left
    let vBarIndex := vBarHeader &&& 0x7FFF
    let e ← getEntry .vBar vBarIndex
    onlyIf (e.size = 0) (setCount env .vBar vBarIndex vBarHeight)
    return (vBarIndex, 0)

/-- Draws the bar `index` as column `i` of the band. -/
def drawVBar (xStart yStart i index : ℕ) : M Unit :=
  if i < call.nWidth then do
    let e ← getEntry .vBar index
    let count := if e.count > call.nHeight then call.nHeight else e.count
    require (count = 0 ∨ writable call.dstFormat)
    touchEntry .vBar index count
    emit (.dst ((call.nXDst + xStart + i) % 2 ^ 32) ((call.nYDst + yStart) % 2 ^ 32) 1 count)
  else pure ()

/-- The loop over the bars of a band: `n` bars are left, and bar `i` is next.  It returns
`suboffset`. -/
def vBarLoop (xStart yStart yEnd : ℕ) : ℕ → ℕ → ℕ → M ℕ
  | 0, _, suboffset => return suboffset
  | n + 1, i, suboffset => do
    requireBytes 2
    let vBarHeader ← readU16
    let vBarHeight := yEnd - yStart + 1
    require (vBarHeight ≤ 52)
    let (index, bytes) ← selectVBar env vBarHeader vBarHeight
    let e ← getEntry .vBar index
    onlyIf (e.count ≠ vBarHeight) (setCount env .vBar index vBarHeight)
    drawVBar call xStart yStart i index
    vBarLoop xStart yStart yEnd n (i + 1) (suboffset + 2 + bytes)

/-- The loop of `clear_decompress_bands_data`. -/
def bandsLoop (bandsByteCount : ℕ) : ℕ → ℕ → M Unit
  | 0, _ => pure ()
  | rounds + 1, suboffset =>
    if suboffset < bandsByteCount then do
      requireBytes 11
      let xStart ← readU16
      let xEnd ← readU16
      let yStart ← readU16
      let yEnd ← readU16
      seek 3
      require (xStart ≤ xEnd)
      require (yStart ≤ yEnd)
      emit (.band xStart xEnd yStart yEnd)
      let suboffset ← vBarLoop env call xStart yStart yEnd (xEnd - xStart + 1) 0 (suboffset + 11)
      bandsLoop bandsByteCount rounds suboffset
    else pure ()

def clearDecompressBandsData (bandsByteCount : ℕ) : M Unit := do
  requireBytes bandsByteCount
  let left ← remaining
  bandsLoop env call bandsByteCount (left + 1) 0

/-! ### The subcodecs layer -/

/-- One guarded pixel of the RLEX subcodec, and the step of its position `(x, y)`. -/
def putRlexPixel (nXDstRel nYDstRel width : ℕ) (xy : ℕ × ℕ) : M (ℕ × ℕ) := do
  let x := (nXDstRel + xy.1) % 2 ^ 32
  let y := (nYDstRel + xy.2) % 2 ^ 32
  onlyIf (x < call.nDstWidth ∧ y < call.nDstHeight ∧ writable call.dstFormat) (emit (.dst x y 1 1))
  return if xy.1 + 1 ≥ width then (0, xy.2 + 1) else (xy.1 + 1, xy.2)

/-- `n` such pixels. -/
def putRlexPixels (nXDstRel nYDstRel width : ℕ) : ℕ → ℕ × ℕ → M (ℕ × ℕ)
  | 0, xy => return xy
  | n + 1, xy => do
    let xy ← putRlexPixel call nXDstRel nYDstRel width xy
    putRlexPixels nXDstRel nYDstRel width n xy

/-- `CLEAR_8BIT_MASKS`. -/
def mask8 (n : ℕ) : ℕ := 2 ^ n - 1

/-- The loop of `clear_decompress_subcode_rlex`.  It returns `pixelIndex`, a `size_t`. -/
def rlexLoop (bitmapDataByteCount paletteCount nXDstRel nYDstRel width pixelCount : ℕ) :
    ℕ → ℕ → ℕ → ℕ × ℕ → M ℕ
  | 0, _, pixelIndex, _ => return pixelIndex
  | rounds + 1, bitmapDataOffset, pixelIndex, xy =>
    if bitmapDataOffset < bitmapDataByteCount then do
      requireBytes 2
      let tmp ← readU8
      let first ← readU8
      let numBits := Nat.log2 (paletteCount - 1) + 1
      let suiteDepth := (tmp >>> numBits) &&& mask8 (8 - numBits)
      let stopIndex := tmp &&& mask8 numBits
      let startIndex := (stopIndex + 2 ^ 8 - suiteDepth) % 2 ^ 8
      let (runLengthFactor, bytes) ← readRunLength first
      require (startIndex < paletteCount)
      require (stopIndex < paletteCount)
      require (startIndex ≤ 127)
      require (pixelIndex + runLengthFactor ≤ pixelCount)
      let xy ← putRlexPixels call nXDstRel nYDstRel width runLengthFactor xy
      require (pixelIndex + runLengthFactor + (suiteDepth + 1) ≤ pixelCount)
      -- `suiteIndex` runs from `startIndex` to `stopIndex` and stays below 128
      let xy ← putRlexPixels call nXDstRel nYDstRel width (suiteDepth + 1) xy
      rlexLoop bitmapDataByteCount paletteCount nXDstRel nYDstRel width pixelCount rounds
        (bitmapDataOffset + 2 + bytes) (pixelIndex + runLengthFactor + (suiteDepth + 1)) xy
    else return pixelIndex

def clearDecompressSubcodeRlex (bitmapDataByteCount width height nXDstRel nYDstRel : ℕ) :
    M Unit := do
  requireBytes bitmapDataByteCount
  requireBytes 1
  let paletteCount ← readU8
  require (1 ≤ paletteCount ∧ paletteCount ≤ 127)
  requireBytes (3 * paletteCount)
  seek (3 * paletteCount)
  let left ← remaining
  let pixelIndex ← rlexLoop call bitmapDataByteCount paletteCount nXDstRel nYDstRel width
    (width * height % 2 ^ 32) (left + 1) (1 + paletteCount * 3) 0 (0, 0)
  require (pixelIndex = width * height % 2 ^ 32)

def clearDecompressNscodec (width height bitmapDataByteCount nXDstRel nYDstRel : ℕ) :
    M Unit := do
  requireBytes bitmapDataByteCount
  let ok ← ask env.nscDecodes
  require ok
  imageCopy call PIXEL_FORMAT_BGRA32 nXDstRel nYDstRel width height
  seek bitmapDataByteCount

/-- The switch on `subcodecId`. -/
def decodeSubcodec (subcodecId bitmapDataByteCount width height nXDstRel nYDstRel : ℕ) : M Unit :=
  match subcodecId with
  | 0 => do
    require (bitmapDataByteCount = width * 3 * height % 2 ^ 32)
    convertColor call PIXEL_FORMAT_BGR24 nXDstRel nYDstRel width height
    seek bitmapDataByteCount
  | 1 => clearDecompressNscodec env call width height bitmapDataByteCount nXDstRel nYDstRel
  | 2 => clearDecompressSubcodeRlex call bitmapDataByteCount width height nXDstRel nYDstRel
  | _ => throw ()

/-- The loop of `clear_decompress_subcodecs_data`. -/
def subcodecsLoop (subcodecByteCount : ℕ) : ℕ → ℕ → M Unit
  | 0, _ => pure ()
  | rounds + 1, suboffset =>
    if suboffset < subcodecByteCount then do
      requireBytes 13
      let xStart ← readU16
      let yStart ← readU16
      let width ← readU16
      let height ← readU16
      let bitmapDataByteCount ← readU32
      let subcodecId ← readU8
      requireBytes bitmapDataByteCount
      emit (.subcodec subcodecId xStart yStart width height)
      require (width ≤ call.nWidth)
      require (height ≤ call.nHeight)
      clearResizeBuffer env width height
      decodeSubcodec env call subcodecId bitmapDataByteCount width height
        ((call.nXDst + xStart) % 2 ^ 32) ((call.nYDst + yStart) % 2 ^ 32)
      subcodecsLoop subcodecByteCount rounds (suboffset + 13 + bitmapDataByteCount)
    else pure ()

def clearDecompressSubcodecsData (subcodecByteCount : ℕ) : M Unit := do
  requireBytes subcodecByteCount
  let left ← remaining
  subcodecsLoop env call subcodecByteCount (left + 1) 0

/-! ### The glyph layer -/

/-- The branch of a glyph hit: the glyph is copied to the destination.  The copy reads lines of the
glyph, `nWidth` pixels apart. -/
def drawGlyph (glyphIndex : ℕ) : M Unit := do
  let e ← getEntry .glyph glyphIndex
  require (e.pixels ≠ none)
  require (call.nWidth * call.nHeight % 2 ^ 32 ≤ e.count)
  let width := clipped call.nWidth call.nXDst call.nDstWidth
  let height := clipped call.nHeight call.nYDst call.nDstHeight
  onlyIf (width < 2 ^ 31 ∧ height < 2 ^ 31 ∧ 0 < width ∧ 0 < height)
    (touchEntry .glyph glyphIndex ((height - 1) * call.nWidth + width))
  let clear ← getClear
  convertColor call clear.format call.nXDst call.nYDst call.nWidth call.nHeight

/-- The reallocation of a glyph entry; the size is set after it. -/
def reallocGlyph (glyphIndex : ℕ) : M Unit := do
  let clear ← getClear
  let e := clear.entries .glyph glyphIndex
  let ok ← ask env.entryAlloc
  require ok
  setEntry .glyph glyphIndex
    { e with size := e.count, pixels := some (e.count * bytesPerPixel clear.format) }

/-- The branch that enters a glyph: room is made for it. -/
def enterGlyph (glyphIndex : ℕ) : M Unit := do
  let e ← getEntry .glyph glyphIndex
  let count := call.nWidth * call.nHeight % 2 ^ 32
  setEntry .glyph glyphIndex { e with count := count }
  onlyIf (count > e.size) (reallocGlyph env glyphIndex)
  let e ← getEntry .glyph glyphIndex
  require (e.pixels ≠ none)

/-- `clear_decompress_glyph_data`: the index of the glyph that is to be stored at the end of the call,
if there is one. -/
def clearDecompressGlyphData (glyphFlags : ℕ) : M (Option ℕ) := do
  require ¬ (glyphFlags &&& CLEARCODEC_FLAG_GLYPH_HIT ≠ 0 ∧
    glyphFlags &&& CLEARCODEC_FLAG_GLYPH_INDEX = 0)
  if glyphFlags &&& CLEARCODEC_FLAG_GLYPH_INDEX = 0 then return none
  else do
    require (call.nWidth * call.nHeight % 2 ^ 32 ≤ 1024 * 1024)
    requireBytes 2
    let glyphIndex ← readU16
    require (glyphIndex < GLYPH_CACHE_SIZE)
    if glyphFlags &&& CLEARCODEC_FLAG_GLYPH_HIT ≠ 0 then do
      drawGlyph call glyphIndex
      return none
    else do
      enterGlyph env call glyphIndex
      return some glyphIndex

/-- The last copy of `clear_decompress`: the rectangle of the destination becomes the glyph. -/
def storeGlyph (glyph : Option ℕ) : M Unit :=
  match glyph with
  | none => pure ()
  | some glyphIndex => touchEntry .glyph glyphIndex (call.nWidth * call.nHeight)

/-! ### `clear_decompress` -/

/-- The header of a message: the glyph flags.  The sequence number has to be the expected one. -/
def readHeader : M ℕ := do
  requireBytes 2
  modifyClear fun clear => { clear with format := call.dstFormat }
  let glyphFlags ← readU8
  let seqNumber ← readU8
  modifyClear fun clear =>
    if clear.seqNumber = 0 ∧ seqNumber ≠ 0 then { clear with seqNumber := seqNumber } else clear
  let clear ← getClear
  require (seqNumber = clear.seqNumber)
  modifyClear fun clear => { clear with seqNumber := (seqNumber + 1) % 256 }
  onlyIf (glyphFlags &&& CLEARCODEC_FLAG_CACHE_RESET ≠ 0)
    (modifyClear fun clear =>
      { clear with vBarStorageCursor := 0, shortVBarStorageCursor := 0 })
  return glyphFlags

/-- The three layers behind the composition header. -/
def decompressLayers : M Unit := do
  let residualByteCount ← readU32
  let bandsByteCount ← readU32
  let subcodecByteCount ← readU32
  onlyIf (residualByteCount > 0) (clearDecompressResidualData env call residualByteCount)
  onlyIf (bandsByteCount > 0) (clearDecompressBandsData env call bandsByteCount)
  onlyIf (subcodecByteCount > 0) (clearDecompressSubcodecsData env call subcodecByteCount)

/-- The body of `clear_decompress` behind the checks of its arguments. -/
def decompressBody : M Unit := do
  let glyphFlags ← readHeader call
  let glyph ← clearDecompressGlyphData env call glyphFlags
  let left ← remaining
  if left < 12 then
    require (glyphFlags &&& (CLEARCODEC_FLAG_GLYPH_HIT ||| CLEARCODEC_FLAG_GLYPH_INDEX) =
      CLEARCODEC_FLAG_GLYPH_HIT ||| CLEARCODEC_FLAG_GLYPH_INDEX)
  else do
    decompressLayers env call
    storeGlyph call glyph

/-- What a call leaves: the number it returns, the context, the number of questions asked and the
log. -/
structure Outcome where
  rc : ℤ
  clear : Context
  asked : ℕ
  log : List Event

def clearDecompress (clear : Context) (asked : ℕ) : Outcome :=
  if call.nDstWidth = 0 ∨ call.nDstHeight = 0 then ⟨-1022, clear, asked, []⟩
  else if call.nWidth > 0xFFFF ∨ call.nHeight > 0xFFFF then ⟨-1004, clear, asked, []⟩
  else
    match decompressBody env call ⟨clear, call.src, asked, []⟩ with
    | .ok _ s => ⟨0, s.clear, s.asked, s.log⟩
    | .error _ s => ⟨-1, s.clear, s.asked, s.log⟩

def clearContextReset (clear : Context) : Context := { clear with seqNumber := 0 }

/-- `clear_context_new`, where nothing fails. -/
def clearContextNew : Context :=
  clearContextReset
    { seqNumber := 0
      tempSize := (512 + 16) * (512 + 16) * bytesPerPixel PIXEL_FORMAT_BGRX32
      format := PIXEL_FORMAT_BGRX32
      vBarStorageCursor := 0
      shortVBarStorageCursor := 0
      entries := fun _ _ => ⟨0, 0, none⟩ }

/-! ### Runs -/

/-- What a client does with a context. -/
inductive Op where
  | decompress (call : Call)
  | reset

/-- One operation: the context it leaves, the number of questions asked and the log. -/
def Op.run (op : Op) (clear : Context) (asked : ℕ) : Context × ℕ × List Event :=
  match op with
  | .decompress call =>
    let o := clearDecompress env call clear asked
    (o.clear, o.asked, o.log)
  | .reset => (clearContextReset clear, asked, [])

end FreeRDP.Clear
