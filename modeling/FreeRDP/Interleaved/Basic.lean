import FreeRDP.Lib.ForwardCopy
import FreeRDP.Lib.Iterate
import Mathlib.Algebra.Group.Nat.Defs

/-!
# Interleaved run-length encoding of bitmaps

`freerdp_bitmap_compress` encodes the lines of an image, the last one first, as a stream of orders;
`RLEDECOMPRESS` executes the orders.  A pixel is a natural number.  The encoder follows five kinds
of runs at once and keeps the pixels since the last order in a temporary stream; when a run breaks
that is at least as long as all the others, the pixels before it are sent as a copy and the run as
an order of its own.

The encoder is one definition for its three pixel formats.  `e` is 0, as for the only caller.  A
count never exceeds the number of pixels, which is less than 16384 (`out_count`), so `UINT16` does
not wrap.
-/

namespace FreeRDP.Interleaved

open ForwardCopy Iterate

/-! ### Pixels -/

/-- The low `b` bytes of a pixel, the lowest first. -/
def pixelBytes : ℕ → ℕ → List UInt8
  | 0, _ => []
  | b + 1, p => UInt8.ofNat p :: pixelBytes b (p / 2 ^ 8)

/-- The pixel that some bytes spell. -/
def pixelOf : List UInt8 → ℕ
  | [] => 0
  | c :: l => c.toNat + 2 ^ 8 * pixelOf l

/-- The pixel that is left when only `b` bytes of a pixel are written. -/
def visible (b p : ℕ) : ℕ := p % 2 ^ (8 * b)

/-! ### The orders of the encoder -/

/-- The stream `temp_s`. -/
structure TempStream where
  buffer : ℕ → UInt8
  position : ℕ

/-- The header of an order with a run length: a code with the length in it, a code and a byte, or a
code and two bytes. -/
def runHeader (limit code mega n : ℕ) : List UInt8 :=
  if n < limit then [UInt8.ofNat (code ||| n)]
  else if n < 256 + limit then [UInt8.ofNat code, UInt8.ofNat (n - limit)]
  else UInt8.ofNat mega :: pixelBytes 2 n

/-- `out_color_count_2` and `out_color_count_3`. -/
def outColorCount (b count data : ℕ) : List UInt8 :=
  if count > 0 then runHeader 32 0x60 0xf3 count ++ pixelBytes b data else []

/-- The bytes of a buffer from `start` on. -/
def slice (buffer : ℕ → UInt8) (start n : ℕ) : List UInt8 :=
  (List.range n).map fun i => buffer (start + i)

/-- `out_copy_count_2`: the pixels are read from the start of the temporary stream. -/
def outCopyCount2 (count : ℕ) (data : TempStream) : List UInt8 :=
  if count > 0 then runHeader 32 0x80 0xf4 count ++ slice data.buffer 0 (count * 2) else []

/-- `out_copy_count_3`: the pixels are read from the position of the temporary stream on. -/
def outCopyCount3 (count : ℕ) (data : TempStream) : List UInt8 :=
  if count > 0 then runHeader 32 0x80 0xf4 count ++ slice data.buffer data.position (count * 3)
  else []

/-- `out_bicolor_count_2` and `out_bicolor_count_3`. -/
def outBicolorCount (b count color1 color2 : ℕ) : List UInt8 :=
  if count > 0 then
    runHeader 16 0xe0 0xf8 (count / 2) ++ (pixelBytes b color1 ++ pixelBytes b color2)
  else []

/-- `out_fill_count_2` and `out_fill_count_3`. -/
def outFillCount (count : ℕ) : List UInt8 :=
  if count > 0 then runHeader 32 0x00 0xf0 count else []

/-- `out_mix_count_2` and `out_mix_count_3`. -/
def outMixCount (count : ℕ) : List UInt8 :=
  if count > 0 then runHeader 32 0x20 0xf1 count else []

/-- The header of a fill-or-mix order, whose short form counts in eights. -/
def fomHeader (n : ℕ) : List UInt8 :=
  if n % 8 = 0 ∧ n < 249 then [UInt8.ofNat (0x40 ||| n / 8)]
  else if n < 256 then [0x40, UInt8.ofNat (n - 1)]
  else 0xf2 :: pixelBytes 2 n

/-- `out_from_count_2` and `out_from_count_3`. -/
def outFromCount (count : ℕ) (mask : List UInt8) : List UInt8 :=
  if count > 0 then fomHeader count ++ mask else []

/-! ### The encoder -/

/-- What tells the copies of the encoder apart: the bytes of a pixel, the constant `mix`, and how
the pending pixels are written. -/
structure Format where
  bytes : ℕ
  mix : ℕ
  outCopyCount : ℕ → TempStream → List UInt8

def rgb16 : Format := ⟨2, 0xFFFF, outCopyCount2⟩

def rgb15 : Format := ⟨2, 0xBA1F, outCopyCount2⟩

def bgr24 : Format := ⟨3, 0xFFFFFF, outCopyCount3⟩

/-- The variables of the encoder.  `s` is what has been written; `fomMask` is the first
`fom_mask_len` bytes of `fom_mask`. -/
structure Encoder where
  s : List UInt8
  temp : TempStream
  count : ℕ
  lastPixel : ℕ
  fillCount : ℕ
  mixCount : ℕ
  colorCount : ℕ
  bicolorCount : ℕ
  bicolor1 : ℕ
  bicolor2 : ℕ
  bicolorSpin : Bool
  fomCount : ℕ
  fomMask : List UInt8

/-- The five kinds of runs. -/
inductive Run where
  | fill
  | mix
  | color
  | bicolor
  | fom
  deriving DecidableEq, Repr

def TestFill (firstLine : Bool) (pixel ypixel : ℕ) : Prop :=
  firstLine = true ∧ pixel = 0 ∨ firstLine = false ∧ pixel = ypixel

def TestMix (mix : ℕ) (firstLine : Bool) (pixel ypixel : ℕ) : Prop :=
  firstLine = true ∧ pixel = mix ∨ firstLine = false ∧ pixel = ypixel ^^^ mix

instance (firstLine : Bool) (pixel ypixel : ℕ) : Decidable (TestFill firstLine pixel ypixel) :=
  inferInstanceAs (Decidable (_ ∨ _))

instance (mix : ℕ) (firstLine : Bool) (pixel ypixel : ℕ) :
    Decidable (TestMix mix firstLine pixel ypixel) := inferInstanceAs (Decidable (_ ∨ _))

/-- `fom_mask[fom_mask_len - 1] |= (1 << k)`. -/
def setLastBit (mask : List UInt8) (k : ℕ) : List UInt8 :=
  mask.dropLast ++ [UInt8.ofNat ((mask.getLastD 0).toNat ||| 1 <<< k)]

namespace Encoder

/-- The encoder before its first pixel. -/
def start (temp : TempStream) : Encoder :=
  { s := [], temp := temp, count := 0, lastPixel := 0, fillCount := 0, mixCount := 0
    colorCount := 0, bicolorCount := 0, bicolor1 := 0, bicolor2 := 0, bicolorSpin := false
    fomCount := 0, fomMask := [] }

def resetCounts (e : Encoder) : Encoder :=
  { e with
    bicolorCount := 0, fillCount := 0, colorCount := 0, mixCount := 0, fomCount := 0
    fomMask := [], bicolorSpin := false }

def length (e : Encoder) : Run → ℕ
  | .fill => e.fillCount
  | .mix => e.mixCount
  | .color => e.colorCount
  | .bicolor => e.bicolorCount
  | .fom => e.fomCount

/-- The length of a run as it is sent: a two-colour run of odd length gives up its first pixel. -/
def sent (e : Encoder) : Run → ℕ
  | .bicolor => e.bicolorCount - e.bicolorCount % 2
  | r => e.length r

def order (f : Format) (e : Encoder) : Run → List UInt8
  | .fill => outFillCount e.fillCount
  | .mix => outMixCount e.mixCount
  | .color => outColorCount f.bytes e.colorCount e.lastPixel
  | .bicolor => outBicolorCount f.bytes (e.sent .bicolor) e.bicolor2 e.bicolor1
  | .fom => outFromCount e.fomCount e.fomMask

def TestBicolor (e : Encoder) (pixel : ℕ) : Prop :=
  pixel ≠ e.lastPixel ∧
    (e.bicolorSpin = false ∧ pixel = e.bicolor1 ∧ e.lastPixel = e.bicolor2 ∨
      e.bicolorSpin = true ∧ pixel = e.bicolor2 ∧ e.lastPixel = e.bicolor1)

instance (e : Encoder) (pixel : ℕ) : Decidable (e.TestBicolor pixel) :=
  inferInstanceAs (Decidable (_ ∧ _))

/-- The test of a run: the pixel goes on with it. -/
def Continues (f : Format) (firstLine : Bool) (pixel ypixel : ℕ) (e : Encoder) : Run → Prop
  | .fill => TestFill firstLine pixel ypixel
  | .mix => TestMix f.mix firstLine pixel ypixel
  | .color => pixel = e.lastPixel
  | .bicolor => e.TestBicolor pixel
  | .fom => TestFill firstLine pixel ypixel ∨ TestMix f.mix firstLine pixel ypixel

instance (f : Format) (firstLine : Bool) (pixel ypixel : ℕ) (e : Encoder) (r : Run) :
    Decidable (e.Continues f firstLine pixel ypixel r) := by
  cases r <;> unfold Continues <;> infer_instance

/-- A run is longer than three pixels and no shorter than the other runs. -/
def Wins (e : Encoder) (r : Run) : Prop :=
  e.length r > 3 ∧ e.length r ≥ e.fillCount ∧ e.length r ≥ e.mixCount ∧
    e.length r ≥ e.colorCount ∧ e.length r ≥ e.bicolorCount ∧ e.length r ≥ e.fomCount

instance (e : Encoder) (r : Run) : Decidable (e.Wins r) := inferInstanceAs (Decidable (_ ∧ _))

/-- The pixels before the last `n` are sent as a copy, and these as the order `run`; `none` is the
result -1. -/
def flush (f : Format) (e : Encoder) (n : ℕ) (run : List UInt8) : Option Encoder :=
  if n > e.count then none
  else some (resetCounts
    { e with
      s := e.s ++ (f.outCopyCount (e.count - n) e.temp ++ run)
      temp := { e.temp with position := 0 }
      count := 0 })

def flushRun (f : Format) (e : Encoder) (r : Run) : Option Encoder :=
  e.flush f (e.sent r) (e.order f r)

/-- A run starts again at the given pixel. -/
def clear (pixel : ℕ) (e : Encoder) : Run → Encoder
  | .fill => { e with fillCount := 0 }
  | .mix => { e with mixCount := 0 }
  | .color => { e with colorCount := 0 }
  | .bicolor =>
    { e with bicolorCount := 0, bicolor1 := e.lastPixel, bicolor2 := pixel, bicolorSpin := false }
  | .fom => { e with fomCount := 0, fomMask := [] }

/-- A run breaks: it is flushed if it wins, and starts again. -/
def breakRun (f : Format) (pixel : ℕ) (e : Encoder) (r : Run) : Option Encoder :=
  (if e.Wins r then e.flushRun f r else some e).map fun e => e.clear pixel r

/-- The runs of a list that the pixel breaks, one after another. -/
def breakRuns (f : Format) (firstLine : Bool) (pixel ypixel : ℕ) :
    List Run → Encoder → Option Encoder
  | [], e => some e
  | r :: rs, e =>
    if e.Continues f firstLine pixel ypixel r then breakRuns f firstLine pixel ypixel rs e
    else (e.breakRun f pixel r).bind (breakRuns f firstLine pixel ypixel rs)

/-- The mask of a fill-or-mix run with one more pixel. -/
def nextMask (e : Encoder) (mixed : Bool) : List UInt8 :=
  let mask := if e.fomCount % 8 = 0 then e.fomMask ++ [0] else e.fomMask
  if mixed then setLastBit mask (e.fomCount % 8) else mask

def countPixel (f : Format) (firstLine : Bool) (pixel ypixel : ℕ) (e : Encoder) : Encoder :=
  let goesOn := e.Continues f firstLine pixel ypixel
  { s := e.s
    temp :=
      { buffer := store e.temp.buffer e.temp.position (pixelBytes f.bytes pixel)
        position := e.temp.position + f.bytes }
    count := e.count + 1
    lastPixel := pixel
    fillCount := if goesOn .fill then e.fillCount + 1 else e.fillCount
    mixCount := if goesOn .mix then e.mixCount + 1 else e.mixCount
    colorCount := if goesOn .color then e.colorCount + 1 else e.colorCount
    bicolorCount := if goesOn .bicolor then e.bicolorCount + 1 else e.bicolorCount
    bicolor1 := e.bicolor1
    bicolor2 := e.bicolor2
    bicolorSpin := if goesOn .bicolor then !e.bicolorSpin else e.bicolorSpin
    fomCount := if goesOn .fom then e.fomCount + 1 else e.fomCount
    fomMask := if goesOn .fom then e.nextMask (pixel = ypixel ^^^ f.mix) else e.fomMask }

/-- The runs in the order in which a pixel is tested for them. -/
def runs : List Run := [.fill, .mix, .color, .bicolor, .fom]

/-- The body of the loop over the pixels of a line; a pixel comes with the one above it. -/
def addPixel (f : Format) (firstLine : Bool) (p : ℕ × ℕ) (e : Encoder) : Option Encoder :=
  (breakRuns f firstLine p.1 p.2 runs e).map (countPixel f firstLine p.1 p.2)

/-- The loop over the pixels of a line. -/
def addLine (f : Format) (firstLine : Bool) : List (ℕ × ℕ) → Encoder → Option Encoder
  | [], e => some e
  | p :: ps, e => (e.addPixel f firstLine p).bind (addLine f firstLine ps)

/-- What follows the first line: no run of these kinds goes on past it. -/
def endRuns (f : Format) : List Run → Encoder → Option Encoder
  | [], e => some e
  | r :: rs, e => (e.breakRun f 0 r).bind (endRuns f rs)

/-- The test that leaves the loop over the lines: whatever run were sent next, the limit is
reached. -/
def Full (f : Format) (byteLimit : ℕ) (e : Encoder) : Prop :=
  ∀ r ∈ runs, byteLimit ≤ e.s.length + e.count * f.bytes - e.length r * f.bytes

instance (f : Format) (byteLimit : ℕ) (e : Encoder) : Decidable (e.Full f byteLimit) :=
  inferInstanceAs (Decidable (∀ r ∈ runs, _))

def sendLine (f : Format) (width : ℕ) (lastLine : Option (List ℕ)) (line : List ℕ)
    (e : Encoder) : Option Encoder :=
  (e.addLine f lastLine.isNone (line.zip (lastLine.getD (List.replicate width 0)))).bind fun e =>
  if lastLine.isNone then e.endRuns f [.fill, .mix, .fom] else some e

/-- The loop over the lines; `outCount` is `out_count` and `sent` is `lines_sent`. -/
def addLines (f : Format) (width byteLimit : ℕ) :
    List (List ℕ) → Option (List ℕ) → ℕ → ℕ → Encoder → Option (ℕ × Encoder)
  | [], _, _, sent, e => some (sent, e)
  | line :: lines, lastLine, outCount, sent, e =>
    if 32768 ≤ outCount ∨ e.Full f byteLimit then some (sent, e)
    else
      (e.sendLine f width lastLine line).bind
        (addLines f width byteLimit lines (some line) (outCount + width * f.bytes) (sent + 1))

/-- `Stream_SetPosition(temp_s, 0)`. -/
def rewind (e : Encoder) : Encoder := { e with temp := { e.temp with position := 0 } }

/-- The last order.  `OUT_BICOLOR_COUNT` sets `bicolor_count` and `count` to zero, so that the
second two-colour order of the source is never written. -/
def lastFlush (f : Format) (e : Encoder) : Option Encoder :=
  match runs.find? (fun r => e.Wins r) with
  | some r => e.flushRun f r
  | none => e.flush f 0 []

end Encoder

/-- The lines of an image of the given width, from line `n - 1` down to line 0. -/
def linesOf (image : ℕ → ℕ → ℕ) (width : ℕ) : ℕ → List (List ℕ)
  | 0 => []
  | n + 1 => (List.range width).map (fun x => image x n) :: linesOf image width n

/-- The encoder of one format: the number of lines sent and the bytes written. -/
def bitmapCompress (f : Format) (image : ℕ → ℕ → ℕ) (width byteLimit startLine : ℕ)
    (temp : TempStream) : Option (ℕ × List UInt8) :=
  (Encoder.addLines f width byteLimit (linesOf image width (startLine + 1)) none
    (width * f.bytes) 0 (.start temp)).bind fun r =>
  (r.2.rewind.lastFlush f).map fun e => (r.1, e.s)

def freerdpBitmapCompress16 (bpp : ℕ) : (ℕ → ℕ → ℕ) → ℕ → ℕ → ℕ → TempStream →
    Option (ℕ × List UInt8) :=
  bitmapCompress (if bpp = 15 then rgb15 else rgb16)

/-- `freerdp_bitmap_compress_24`; the pixels are 32-bit words. -/
def freerdpBitmapCompress24 : (ℕ → ℕ → ℕ) → ℕ → ℕ → ℕ → TempStream → Option (ℕ × List UInt8) :=
  bitmapCompress bgr24

def freerdpBitmapCompress (bpp : ℕ) (image : ℕ → ℕ → ℕ) (width byteLimit startLine : ℕ)
    (temp : TempStream) : Option (ℕ × List UInt8) :=
  if bpp = 15 ∨ bpp = 16 then
    freerdpBitmapCompress16 bpp image width byteLimit startLine { temp with position := 0 }
  else if bpp = 24 then
    freerdpBitmapCompress24 image width byteLimit startLine { temp with position := 0 }
  else none

/-! ### The decoder -/

def REGULAR_BG_RUN : ℕ := 0x00

def MEGA_MEGA_BG_RUN : ℕ := 0xF0

def REGULAR_FG_RUN : ℕ := 0x01

def MEGA_MEGA_FG_RUN : ℕ := 0xF1

def LITE_SET_FG_FG_RUN : ℕ := 0x0C

def MEGA_MEGA_SET_FG_RUN : ℕ := 0xF6

def LITE_DITHERED_RUN : ℕ := 0x0E

def MEGA_MEGA_DITHERED_RUN : ℕ := 0xF8

def REGULAR_COLOR_RUN : ℕ := 0x03

def MEGA_MEGA_COLOR_RUN : ℕ := 0xF3

def REGULAR_FGBG_IMAGE : ℕ := 0x02

def MEGA_MEGA_FGBG_IMAGE : ℕ := 0xF2

def LITE_SET_FG_FGBG_IMAGE : ℕ := 0x0D

def MEGA_MEGA_SET_FGBG_IMAGE : ℕ := 0xF7

def REGULAR_COLOR_IMAGE : ℕ := 0x04

def MEGA_MEGA_COLOR_IMAGE : ℕ := 0xF4

def SPECIAL_FGBG_1 : ℕ := 0xF9

def SPECIAL_FGBG_2 : ℕ := 0xFA

def SPECIAL_WHITE : ℕ := 0xFD

def SPECIAL_BLACK : ℕ := 0xFE

def BLACK_PIXEL : ℕ := 0

/-- `WHITE_PIXEL` of the instance with `b` bytes a pixel. -/
def whitePixel (b : ℕ) : ℕ := 2 ^ (8 * b) - 1

def extractCodeId (bOrderHdr : ℕ) : ℕ :=
  if bOrderHdr &&& 0xC0 ≠ 0xC0 then bOrderHdr >>> 5
  else if bOrderHdr &&& 0xF0 = 0xF0 then bOrderHdr
  else bOrderHdr >>> 4

/-- The byte behind the header, if it is there. -/
def byteAt (src : List UInt8) (i : ℕ) : Option ℕ := src[i]?.map UInt8.toNat

/-- `ExtractRunLength`: the length and the size of the header; `none` is a read behind the end. -/
def extractRunLength (code : ℕ) (src : List UInt8) : Option (ℕ × ℕ) :=
  (byteAt src 0).bind fun hdr =>
  if code = REGULAR_FGBG_IMAGE ∨ code = LITE_SET_FG_FGBG_IMAGE then
    let n := hdr &&& (if code = REGULAR_FGBG_IMAGE then 0x1F else 0x0F)
    if n = 0 then (byteAt src 1).map fun c => (c + 1, 2) else some (n * 8, 1)
  else if code = REGULAR_BG_RUN ∨ code = REGULAR_FG_RUN ∨ code = REGULAR_COLOR_RUN ∨
      code = REGULAR_COLOR_IMAGE then
    if hdr &&& 0x1F = 0 then (byteAt src 1).map fun c => (c + 32, 2) else some (hdr &&& 0x1F, 1)
  else if code = LITE_SET_FG_FG_RUN ∨ code = LITE_DITHERED_RUN then
    if hdr &&& 0x0F = 0 then (byteAt src 1).map fun c => (c + 16, 2) else some (hdr &&& 0x0F, 1)
  else if code = MEGA_MEGA_BG_RUN ∨ code = MEGA_MEGA_FG_RUN ∨ code = MEGA_MEGA_SET_FG_RUN ∨
      code = MEGA_MEGA_DITHERED_RUN ∨ code = MEGA_MEGA_COLOR_RUN ∨ code = MEGA_MEGA_FGBG_IMAGE ∨
      code = MEGA_MEGA_SET_FGBG_IMAGE ∨ code = MEGA_MEGA_COLOR_IMAGE then
    (byteAt src 1).bind fun lo => (byteAt src 2).map fun hi => (lo + 2 ^ 8 * hi, 3)
  else some (0, 1)

/-- The variables of `RLEDECOMPRESS`.  `src` is what is left of the source; `dest` and `position`
count in pixels. -/
structure Decoder where
  src : List UInt8
  dest : ℕ → ℕ
  position : ℕ
  fgPel : ℕ
  insertFgPel : Bool
  firstLine : Bool

/-- Why a call did not return: a loop that had not ended in its number of rounds, or a read behind
the end of the source. -/
inductive Stop where
  | rounds
  | fault
  deriving DecidableEq, Repr

namespace Decoder

/-- `DESTWRITEPIXEL` and `DESTNEXTPIXEL`. -/
def put (b : ℕ) (d : Decoder) (p : ℕ) : Decoder :=
  { d with dest := Function.update d.dest d.position (visible b p), position := d.position + 1 }

/-- `n` pixels; `pixel i` is the `i`-th of them, given what has been written before. -/
def paint (b : ℕ) (pixel : Decoder → ℕ → ℕ) : ℕ → ℕ → Decoder → Decoder
  | 0, _, d => d
  | n + 1, i, d => paint b pixel n (i + 1) (d.put b (pixel d i))

/-- `DESTREADPIXEL(_, pbDest - rowDelta)`. -/
def above (width : ℕ) (d : Decoder) : ℕ := d.dest (d.position - width)

def background (width : ℕ) (d : Decoder) : ℕ := if d.firstLine then BLACK_PIXEL else d.above width

def foreground (width : ℕ) (d : Decoder) : ℕ :=
  if d.firstLine then d.fgPel else d.above width ^^^ d.fgPel

/-- The pixel of a foreground/background image. -/
def fgbgPixel (width bitmask : ℕ) (d : Decoder) (i : ℕ) : ℕ :=
  if bitmask.testBit i then d.foreground width else d.background width

/-- The watch for the end of the first scanline. -/
def watchLine (width : ℕ) (d : Decoder) : Decoder :=
  if d.firstLine ∧ width ≤ d.position then { d with firstLine := false, insertFgPel := false }
  else d

/-- What a round of the loop leads to. -/
abbrev Round := Decoder ⊕ Except Stop (Bool × Decoder)

/-- `return FALSE`. -/
def fail (d : Decoder) : Round := .inr (.ok (false, d))

/-- `ENSURE_CAPACITY`, and `n` pixels. -/
def paintChecked (b size : ℕ) (pixel : Decoder → ℕ → ℕ) (n : ℕ) (d : Decoder) : Round :=
  if d.position + n ≤ size then .inl (d.paint b pixel n 0) else d.fail

/-- `SRCREADPIXEL` and `SRCNEXTPIXEL`, with the check before them. -/
def readPixel (b : ℕ) (d : Decoder) (next : ℕ → Decoder → Round) : Round :=
  if d.src = [] then d.fail
  else if d.src.length < b then .inr (.error .fault)
  else next (pixelOf (d.src.take b)) { d with src := d.src.drop b }

def readRun (code : ℕ) (d : Decoder) (next : ℕ → Decoder → Round) : Round :=
  match extractRunLength code d.src with
  | none => .inr (.error .fault)
  | some (runLength, advance) => next runLength { d with src := d.src.drop advance }

/-- A background run.  Behind another one it starts with a foreground pixel; `runLength - 1` then
wraps if the length is zero. -/
def bgRun (b width size : ℕ) (n : ℕ) (d : Decoder) : Round :=
  if d.insertFgPel then
    if d.position + 1 ≤ size then
      paintChecked b size (fun d _ => d.background width) ((n + (2 ^ 32 - 1)) % 2 ^ 32)
        (d.put b (d.foreground width))
    else d.fail
  else
    match paintChecked b size (fun d _ => d.background width) n d with
    | .inl d => .inl { d with insertFgPel := true }
    | .inr r => .inr r

/-- The rounds over the bytes of the mask of an image of `n` pixels. -/
def fgbgImage (b width size : ℕ) : ℕ → ℕ → Decoder → Round
  | 0, _, d => .inl d
  | k + 1, n, d =>
    match d.src with
    | [] => .inr (.error .fault)
    | c :: src =>
      match paintChecked b size (fgbgPixel width c.toNat) (min n 8) { d with src := src } with
      | .inl d => fgbgImage b width size k (n - min n 8) d
      | .inr r => .inr r

def colorImage (b : ℕ) : ℕ → Decoder → Round
  | 0, d => .inl d
  | n + 1, d =>
    match d.readPixel b (fun p d => .inl (d.put b p)) with
    | .inl d => colorImage b n d
    | .inr r => .inr r

/-- An order that is not a background run. -/
def otherOrder (b width size code : ℕ) (d : Decoder) : Round :=
  if code = REGULAR_FG_RUN ∨ code = MEGA_MEGA_FG_RUN then
    d.readRun code fun n d => d.paintChecked b size (fun d _ => d.foreground width) n
  else if code = LITE_SET_FG_FG_RUN ∨ code = MEGA_MEGA_SET_FG_RUN then
    d.readRun code fun n d => d.readPixel b fun p d =>
      { d with fgPel := p }.paintChecked b size (fun d _ => d.foreground width) n
  else if code = LITE_DITHERED_RUN ∨ code = MEGA_MEGA_DITHERED_RUN then
    d.readRun code fun n d => d.readPixel b fun pixelA d => d.readPixel b fun pixelB d =>
      d.paintChecked b size (fun _ i => if i % 2 = 0 then pixelA else pixelB) (n * 2)
  else if code = REGULAR_COLOR_RUN ∨ code = MEGA_MEGA_COLOR_RUN then
    d.readRun code fun n d => d.readPixel b fun pixelA d =>
      d.paintChecked b size (fun _ _ => pixelA) n
  else if code = REGULAR_FGBG_IMAGE ∨ code = MEGA_MEGA_FGBG_IMAGE then
    d.readRun code fun n d =>
      if d.src = [] then d.fail else d.fgbgImage b width size ((n + 7) / 8) n
  else if code = LITE_SET_FG_FGBG_IMAGE ∨ code = MEGA_MEGA_SET_FGBG_IMAGE then
    d.readRun code fun n d => d.readPixel b fun p d =>
      { d with fgPel := p }.fgbgImage b width size ((n + 7) / 8) n
  else if code = REGULAR_COLOR_IMAGE ∨ code = MEGA_MEGA_COLOR_IMAGE then
    d.readRun code fun n d =>
      if d.position + n ≤ size then d.colorImage b n else d.fail
  else if code = SPECIAL_FGBG_1 then
    { d with src := d.src.drop 1 }.paintChecked b size (fgbgPixel width 0x03) 8
  else if code = SPECIAL_FGBG_2 then
    { d with src := d.src.drop 1 }.paintChecked b size (fgbgPixel width 0x05) 8
  else if code = SPECIAL_WHITE then
    { d with src := d.src.drop 1 }.paintChecked b size (fun _ _ => whitePixel b) 1
  else if code = SPECIAL_BLACK then
    { d with src := d.src.drop 1 }.paintChecked b size (fun _ _ => BLACK_PIXEL) 1
  else d.fail

def order (b width size code : ℕ) (d : Decoder) : Round :=
  if code = REGULAR_BG_RUN ∨ code = MEGA_MEGA_BG_RUN then
    d.readRun code fun n d => d.bgRun b width size n
  else { d with insertFgPel := false }.otherOrder b width size code

/-- One round of the loop `while (pbSrc < pbEnd)`. -/
def step (b width height : ℕ) (d : Decoder) : Round :=
  match d.src with
  | [] => .inr (.ok (true, d))
  | hdr :: _ =>
    (d.watchLine width).order b width (width * height) (extractCodeId hdr.toNat)

end Decoder

/-- `RLEDECOMPRESS` with `b` bytes a pixel and `rowDelta = width * b`: the buffer behind
`pbDestBuffer` in pixels, or `none` for `FALSE`. -/
def rleDecompress (b : ℕ) (src : List UInt8) (dest : ℕ → ℕ) (width height : ℕ) :
    Except Stop (Option (ℕ → ℕ)) :=
  if width = 0 then .ok none
  else
    match iterate (Decoder.step b width height) (src.length + 1)
        { src := src, dest := dest, position := 0, fgPel := whitePixel b, insertFgPel := false
          firstLine := true } with
    | none => .error .rounds
    | some (.error stop) => .error stop
    | some (.ok (ok, d)) => .ok (if ok then some d.dest else none)

/-! ### `interleaved_compress` and `interleaved_decompress` -/

/-- `freerdp_image_copy` between two buffers of one format, as pixels by column and row. -/
def freerdpImageCopy (dst : ℕ → ℕ → ℕ) (nXDst nYDst nWidth nHeight : ℕ) (src : ℕ → ℕ → ℕ)
    (nXSrc nYSrc : ℕ) (flipVertical : Bool) : ℕ → ℕ → ℕ := fun x y =>
  if nXDst ≤ x ∧ x < nXDst + nWidth ∧ nYDst ≤ y ∧ y < nYDst + nHeight then
    src (nXSrc + (x - nXDst))
      (if flipVertical then nHeight - 1 - (nYSrc + (y - nYDst)) else nYSrc + (y - nYDst))
  else dst x y

/-- `BITMAP_INTERLEAVED_CONTEXT`: the temporary image, and the temporary stream. -/
structure Context where
  tempBuffer : ℕ → ℕ
  bts : TempStream

/-- A buffer of pixels as an image of the given width. -/
def imageOf (buffer : ℕ → ℕ) (width : ℕ) : ℕ → ℕ → ℕ := fun x y => buffer (y * width + x)

/-- `interleaved_compress` with 16 bits a pixel and a source in the same format: the lines sent and
the bytes written, or `none` for `FALSE`. -/
def interleavedCompress (interleaved : Context) (nWidth nHeight : ℕ) (src : ℕ → ℕ → ℕ)
    (nXSrc nYSrc : ℕ) : Option (ℕ × List UInt8) :=
  if nWidth = 0 ∨ nHeight = 0 then none
  else if nWidth % 4 ≠ 0 then none
  else if nWidth > 64 ∨ nHeight > 64 then none
  else
    freerdpBitmapCompress 16
      (freerdpImageCopy (imageOf interleaved.tempBuffer nWidth) 0 0 nWidth nHeight src nXSrc nYSrc
        false)
      nWidth (64 * 64 * 4) (nHeight - 1) interleaved.bts

/-- `interleaved_decompress` with 16 bits a pixel and a destination in the same format and of the
same size. -/
def interleavedDecompress (interleaved : Context) (src : List UInt8) (nSrcWidth nSrcHeight : ℕ)
    (dst : ℕ → ℕ → ℕ) (nXDst nYDst : ℕ) : Except Stop (Option (ℕ → ℕ → ℕ)) :=
  (rleDecompress 2 src interleaved.tempBuffer nSrcWidth nSrcHeight).map fun r => r.map fun dest =>
    freerdpImageCopy dst nXDst nYDst nSrcWidth nSrcHeight (imageOf dest nSrcWidth) 0 0 true

end FreeRDP.Interleaved
