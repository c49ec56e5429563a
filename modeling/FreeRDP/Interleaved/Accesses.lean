import FreeRDP.Interleaved.Basic
import FreeRDP.Lib.Traced

/-!
# The accesses of the interleaved decoder

`RLEDECOMPRESS` byte by byte, with any `rowDelta` and a source that goes on past its end.  Offsets into
the source count from `pbSrcBuffer`, and offsets into the destination from `pbDestBuffer`; the ones that
are read may be negative.  The functions record every byte that they read or write.

`ensure_capacity` multiplies as `size_t`, so that its product does not wrap.
-/

namespace FreeRDP.Interleaved

open Traced

/-- What a call is given.  The three instances of the source have 1, 2 and 3 `bytes` a pixel. -/
structure Call where
  bytes : ℕ
  src : ℕ → UInt8
  cbSrcBuffer : ℕ
  rowDelta : ℕ
  width : ℕ
  height : ℕ

/-- `pbDestEnd`. -/
def Call.destEnd (c : Call) : ℕ := c.rowDelta * c.height % 2 ^ 32

inductive Access where
  | source (offset : ℕ)
  | destLoad (offset : ℤ)
  | destStore (offset : ℤ)
  deriving DecidableEq, Repr

/-- The variables of a call, and the memory around the destination. -/
structure Cursor where
  pbSrc : ℕ
  pbDest : ℕ
  fgPel : ℕ
  fInsertFgPel : Bool
  fFirstLine : Bool
  dest : ℤ → UInt8

/-- What an order leads to; `none` is `return FALSE`. -/
abbrev OrderResult := Traced Access (Option Cursor)

namespace Call

variable (c : Call)

/-! ### Pixels -/

def EnsureCapacity (s : Cursor) (size : ℕ) : Prop :=
  size * c.bytes ≤ c.destEnd - s.pbDest ∧ s.pbDest ≤ c.destEnd

instance (s : Cursor) (size : ℕ) : Decidable (c.EnsureCapacity s size) :=
  inferInstanceAs (Decidable (_ ∧ _))

/-- `SRCREADPIXEL`. -/
def srcReadPixel (s : Cursor) : Traced Access ℕ := do
  accesses ((List.range c.bytes).map fun i => .source (s.pbSrc + i))
  pure (pixelOf ((List.range c.bytes).map fun i => c.src (s.pbSrc + i)))

/-- `SRCNEXTPIXEL`. -/
def srcNextPixel (s : Cursor) : Cursor := { s with pbSrc := s.pbSrc + c.bytes }

/-- `DESTREADPIXEL(_, pbDest - rowDelta)`. -/
def destReadAbove (s : Cursor) : Traced Access ℕ := do
  accesses ((List.range c.bytes).map fun i : ℕ => .destLoad (s.pbDest - c.rowDelta + i))
  pure (pixelOf ((List.range c.bytes).map fun i : ℕ => s.dest (s.pbDest - c.rowDelta + i)))

/-- `DESTWRITEPIXEL` and `DESTNEXTPIXEL`. -/
def destPutPixel (pixel : ℕ) (s : Cursor) : Traced Access Cursor := do
  accesses ((List.range c.bytes).map fun i : ℕ => .destStore (s.pbDest + i))
  pure
    { s with
      pbDest := s.pbDest + c.bytes
      dest := fun o =>
        if s.pbDest ≤ o ∧ o < s.pbDest + c.bytes then
          (pixelBytes c.bytes pixel).getD (o - s.pbDest).toNat 0
        else s.dest o }

/-- `UNROLL` of `n` pixels; `pixel i` is the `i`-th of them. -/
def paint (pixel : ℕ → Cursor → Traced Access ℕ) : ℕ → ℕ → Cursor → Traced Access Cursor
  | 0, _, s => pure s
  | n + 1, i, s => do
    let p ← pixel i s
    let s ← c.destPutPixel p s
    paint pixel n (i + 1) s

/-- `ENSURE_CAPACITY`, and `n` pixels. -/
def paintTraced (pixel : ℕ → Cursor → Traced Access ℕ) (n : ℕ) (s : Cursor) : OrderResult :=
  if c.EnsureCapacity s n then do
    let s ← c.paint pixel n 0 s
    pure (some s)
  else pure none

def background (_ : ℕ) (s : Cursor) : Traced Access ℕ :=
  if s.fFirstLine then pure BLACK_PIXEL else c.destReadAbove s

def foreground (_ : ℕ) (s : Cursor) : Traced Access ℕ :=
  if s.fFirstLine then pure s.fgPel
  else do
    let temp ← c.destReadAbove s
    pure (temp ^^^ s.fgPel)

/-- The pixel of a foreground/background image: `WRITEFGBGIMAGE` and `WRITEFIRSTLINEFGBGIMAGE`. -/
def fgbgPixel (bitmask i : ℕ) (s : Cursor) : Traced Access ℕ :=
  if s.fFirstLine then pure (if bitmask.testBit i then s.fgPel else BLACK_PIXEL)
  else do
    let xorPixel ← c.destReadAbove s
    pure (if bitmask.testBit i then xorPixel ^^^ s.fgPel else xorPixel)

/-- A pixel that needs no access. -/
def plain (pixel : ℕ → ℕ) (i : ℕ) (_ : Cursor) : Traced Access ℕ := pure (pixel i)

/-! ### Headers and operands -/

/-- `ExtractRunLength`: the length and the size of the header. -/
def extractRunLengthTraced (code offset : ℕ) : Traced Access (ℕ × ℕ) :=
  if code = REGULAR_FGBG_IMAGE ∨ code = LITE_SET_FG_FGBG_IMAGE then do
    access (.source offset)
    let runLength :=
      (c.src offset).toNat &&& (if code = REGULAR_FGBG_IMAGE then 0x1F else 0x0F)
    if runLength = 0 then
      access (.source (offset + 1))
      pure ((c.src (offset + 1)).toNat + 1, 2)
    else pure (runLength * 8, 1)
  else if code = REGULAR_BG_RUN ∨ code = REGULAR_FG_RUN ∨ code = REGULAR_COLOR_RUN ∨
      code = REGULAR_COLOR_IMAGE then do
    access (.source offset)
    if (c.src offset).toNat &&& 0x1F = 0 then
      access (.source (offset + 1))
      pure ((c.src (offset + 1)).toNat + 32, 2)
    else pure ((c.src offset).toNat &&& 0x1F, 1)
  else if code = LITE_SET_FG_FG_RUN ∨ code = LITE_DITHERED_RUN then do
    access (.source offset)
    if (c.src offset).toNat &&& 0x0F = 0 then
      access (.source (offset + 1))
      pure ((c.src (offset + 1)).toNat + 16, 2)
    else pure ((c.src offset).toNat &&& 0x0F, 1)
  else if code = MEGA_MEGA_BG_RUN ∨ code = MEGA_MEGA_FG_RUN ∨ code = MEGA_MEGA_SET_FG_RUN ∨
      code = MEGA_MEGA_DITHERED_RUN ∨ code = MEGA_MEGA_COLOR_RUN ∨ code = MEGA_MEGA_FGBG_IMAGE ∨
      code = MEGA_MEGA_SET_FGBG_IMAGE ∨ code = MEGA_MEGA_COLOR_IMAGE then do
    access (.source (offset + 1))
    access (.source (offset + 2))
    pure ((c.src (offset + 1)).toNat + 2 ^ 8 * (c.src (offset + 2)).toNat, 3)
  else pure (0, 1)

def readRun (code : ℕ) (s : Cursor) (next : ℕ → Cursor → OrderResult) : OrderResult := do
  let run ← c.extractRunLengthTraced code s.pbSrc
  next run.1 { s with pbSrc := s.pbSrc + run.2 }

/-- A pixel of the source, with the check before it. -/
def readPixel (s : Cursor) (next : ℕ → Cursor → OrderResult) : OrderResult :=
  if c.cbSrcBuffer ≤ s.pbSrc then pure none
  else do
    let pixel ← c.srcReadPixel s
    next pixel (c.srcNextPixel s)

/-! ### Orders -/

/-- A background run of `n` pixels.  Behind another one it starts with a foreground pixel, for which the
line above is read before the capacity is checked; `runLength - 1` then wraps if the length is zero. -/
def bgRun (n : ℕ) (s : Cursor) : OrderResult :=
  if s.fInsertFgPel then do
    let pixel ← c.foreground 0 s
    if c.EnsureCapacity s 1 then
      let s ← c.destPutPixel pixel s
      c.paintTraced c.background ((n + (2 ^ 32 - 1)) % 2 ^ 32) s
    else pure none
  else do
    let next ← c.paintTraced c.background n s
    pure (next.map fun s => { s with fInsertFgPel := true })

/-- The rounds over the bytes of the mask of an image of `n` pixels. -/
def fgbgImage : ℕ → ℕ → Cursor → OrderResult
  | 0, _, s => pure (some s)
  | k + 1, n, s => do
    access (.source s.pbSrc)
    let bitmask := (c.src s.pbSrc).toNat
    match ← c.paintTraced (c.fgbgPixel bitmask) (min n 8) { s with pbSrc := s.pbSrc + 1 } with
    | some s => fgbgImage k (n - min n 8) s
    | none => pure none

def colorImage : ℕ → Cursor → OrderResult
  | 0, s => pure (some s)
  | n + 1, s => c.readPixel s fun temp s => do
    let s ← c.destPutPixel temp s
    colorImage n s

def special (pixel : ℕ → Cursor → Traced Access ℕ) (n : ℕ) (s : Cursor) : OrderResult :=
  c.paintTraced pixel n { s with pbSrc := s.pbSrc + 1 }

/-- An order that is not a background run. -/
def otherOrder (code : ℕ) (s : Cursor) : OrderResult :=
  if code = REGULAR_FG_RUN ∨ code = MEGA_MEGA_FG_RUN then
    c.readRun code s fun n s => c.paintTraced c.foreground n s
  else if code = LITE_SET_FG_FG_RUN ∨ code = MEGA_MEGA_SET_FG_RUN then
    c.readRun code s fun n s => c.readPixel s fun p s =>
      c.paintTraced c.foreground n { s with fgPel := p }
  else if code = LITE_DITHERED_RUN ∨ code = MEGA_MEGA_DITHERED_RUN then
    c.readRun code s fun n s => c.readPixel s fun pixelA s => c.readPixel s fun pixelB s =>
      c.paintTraced (plain fun i => if i % 2 = 0 then pixelA else pixelB) (n * 2) s
  else if code = REGULAR_COLOR_RUN ∨ code = MEGA_MEGA_COLOR_RUN then
    c.readRun code s fun n s => c.readPixel s fun pixelA s =>
      c.paintTraced (plain fun _ => pixelA) n s
  else if code = REGULAR_FGBG_IMAGE ∨ code = MEGA_MEGA_FGBG_IMAGE then
    c.readRun code s fun n s =>
      if c.cbSrcBuffer ≤ s.pbSrc then pure none else c.fgbgImage ((n + 7) / 8) n s
  else if code = LITE_SET_FG_FGBG_IMAGE ∨ code = MEGA_MEGA_SET_FGBG_IMAGE then
    c.readRun code s fun n s => c.readPixel s fun p s =>
      c.fgbgImage ((n + 7) / 8) n { s with fgPel := p }
  else if code = REGULAR_COLOR_IMAGE ∨ code = MEGA_MEGA_COLOR_IMAGE then
    c.readRun code s fun n s =>
      if c.EnsureCapacity s n then c.colorImage n s else pure none
  else if code = SPECIAL_FGBG_1 then c.special (c.fgbgPixel 0x03) 8 s
  else if code = SPECIAL_FGBG_2 then c.special (c.fgbgPixel 0x05) 8 s
  else if code = SPECIAL_WHITE then c.special (plain fun _ => whitePixel c.bytes) 1 s
  else if code = SPECIAL_BLACK then c.special (plain fun _ => BLACK_PIXEL) 1 s
  else pure none

def order (code : ℕ) (s : Cursor) : OrderResult :=
  if code = REGULAR_BG_RUN ∨ code = MEGA_MEGA_BG_RUN then
    c.readRun code s fun n s => c.bgRun n s
  else c.otherOrder code { s with fInsertFgPel := false }

/-- The watch for the end of the first scanline. -/
def watchLine (s : Cursor) : Cursor :=
  if s.fFirstLine ∧ c.rowDelta ≤ s.pbDest % 2 ^ 32 then
    { s with fFirstLine := false, fInsertFgPel := false }
  else s

/-- One test of the loop `while (pbSrc < pbEnd)`, and its body.  The loop is left with the memory, or
with `none` for `return FALSE`. -/
def step (s : Cursor) : Traced Access (Cursor ⊕ Option (ℤ → UInt8)) :=
  if s.pbSrc < c.cbSrcBuffer then do
    access (.source s.pbSrc)
    match ← c.order (extractCodeId (c.src s.pbSrc).toNat) (c.watchLine s) with
    | some s => pure (.inl s)
    | none => pure (.inr none)
  else pure (.inr (some s.dest))

/-- The variables before the loop. -/
def start (dest : ℤ → UInt8) : Cursor :=
  { pbSrc := 0
    pbDest := 0
    fgPel := whitePixel c.bytes
    fInsertFgPel := false
    fFirstLine := true
    dest := dest }

/-- `RLEDECOMPRESS`, its loop for at most `rounds` rounds; the outer `none` is a loop that has not
ended then. -/
def rleDecompressTraced (rounds : ℕ) (dest : ℤ → UInt8) :
    Traced Access (Option (Option (ℤ → UInt8))) :=
  if c.rowDelta = 0 ∨ c.rowDelta < c.width then pure (some none)
  else loop c.step rounds (c.start dest)

end Call

end FreeRDP.Interleaved
