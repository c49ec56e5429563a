import FreeRDP.ClearCodec.Basic
import FreeRDP.Lib.Traced

/-!
# The RLEX subcodec with its colours

`clear_decompress_subcode_rlex` of `codec/clear.c`.  A call records the bytes that it reads from the stream,
counted from the position of the stream when it starts, and the pixels that it writes.  `FreeRDPGetColor`
is a parameter: nothing depends on which number a colour is.

Every round of the loop takes at least two bytes off the stream, so that one more round than it has bytes is
enough.
-/

namespace FreeRDP.Clear

open Traced

inductive Access where
  | load (offset : ℕ)
  | store (x y color : ℕ)
  deriving DecidableEq, Repr

/-- The arguments of a call, and the stream, of which `remaining` bytes are left. -/
structure Rlex where
  stream : ℕ → UInt8
  remaining : ℕ
  bitmapDataByteCount : ℕ
  width : ℕ
  height : ℕ
  dstFormat : ℕ
  nXDstRel : ℕ
  nYDstRel : ℕ
  nDstWidth : ℕ
  nDstHeight : ℕ
  getColor : ℕ → ℕ → ℕ → ℕ

/-- The variables of a call; `position` is that of the stream. -/
structure RlexState where
  position : ℕ
  bitmapDataOffset : ℕ
  pixelIndex : ℕ
  x : ℕ
  y : ℕ

namespace Rlex

variable (c : Rlex)

/-- The byte of the stream at `p`. -/
def byte (p : ℕ) : ℕ := (c.stream p).toNat

/-- The `n` bytes at `p` are read. -/
def loads (p n : ℕ) : Traced Access Unit := accesses ((List.range n).map fun i => .load (p + i))

def paletteCount : ℕ := c.byte 0

def palette (i : ℕ) : ℕ :=
  if i < c.paletteCount then c.getColor (c.byte (3 * i + 3)) (c.byte (3 * i + 2)) (c.byte (3 * i + 1))
  else 0

def pixelCount : ℕ := c.width * c.height % 2 ^ 32

def numBits : ℕ := Nat.log2 (c.paletteCount - 1) + 1

/-- `WriteColor`, behind its guard: only pixels of the destination are written. -/
def writeColor (color : ℕ) (s : RlexState) : Traced Access Unit :=
  let x := (c.nXDstRel + s.x) % 2 ^ 32
  let y := (c.nYDstRel + s.y) % 2 ^ 32
  if x < c.nDstWidth ∧ y < c.nDstHeight ∧ writable c.dstFormat then access (.store x y color)
  else pure ()

/-- The step of `x` and `y`. -/
def advance (s : RlexState) : RlexState :=
  if s.x + 1 ≥ c.width then { s with x := 0, y := s.y + 1 } else { s with x := s.x + 1 }

def put (color : ℕ) (s : RlexState) : Traced Access RlexState := do
  c.writeColor color s
  pure (c.advance s)

/-- The loop over a run of `n` pixels. -/
def putRun (color : ℕ) : ℕ → RlexState → Traced Access RlexState
  | 0, s => pure s
  | n + 1, s => do
    let s ← c.put color s
    putRun color n s

/-- The loop over a suite of `n` pixels. -/
def putSuite : ℕ → ℕ → RlexState → Traced Access (Option RlexState)
  | 0, _, s => pure (some s)
  | n + 1, suiteIndex, s =>
    let color := c.palette suiteIndex
    if suiteIndex > 127 then pure none
    else do
      let s ← c.put color s
      putSuite n ((suiteIndex + 1) % 2 ^ 8) s

/-- The run length whose first byte is at `p`, and the position behind it; `none` if the stream is short. -/
def readRunLength (p : ℕ) : Traced Access (Option (ℕ × ℕ)) := do
  loads p 1
  let first := c.byte p
  if first ≥ 0xFF then
    if c.remaining < p + 1 + 2 then pure none
    else do
      loads (p + 1) 2
      let second := c.byte (p + 1) + 2 ^ 8 * c.byte (p + 2)
      if second ≥ 0xFFFF then
        if c.remaining < p + 3 + 4 then pure none
        else do
          loads (p + 3) 4
          let third := c.byte (p + 3) + 2 ^ 8 * c.byte (p + 4) + 2 ^ 16 * c.byte (p + 5) +
            2 ^ 24 * c.byte (p + 6)
          pure (some (third, p + 7))
      else pure (some (second, p + 3))
  else pure (some (first, p + 1))

/-- What follows the header of a round: the run, and the suite from `startIndex` on. -/
def putSegment (startIndex suiteDepth runLengthFactor : ℕ) (s : RlexState) :
    Traced Access (RlexState ⊕ Option Unit) :=
  if s.pixelIndex + runLengthFactor > c.pixelCount then pure (.inr none)
  else do
    let s ← c.putRun (c.palette startIndex) runLengthFactor s
    let s := { s with pixelIndex := s.pixelIndex + runLengthFactor }
    if s.pixelIndex + (suiteDepth + 1) > c.pixelCount then pure (.inr none)
    else do
      match ← c.putSuite (suiteDepth + 1) startIndex s with
      | none => pure (.inr none)
      | some s => pure (.inl { s with pixelIndex := s.pixelIndex + (suiteDepth + 1) })

/-- A round of the loop, or what follows it: `some ()` is `return TRUE`. -/
def step (s : RlexState) : Traced Access (RlexState ⊕ Option Unit) :=
  if s.bitmapDataOffset < c.bitmapDataByteCount then
    if c.remaining < s.position + 2 then pure (.inr none)
    else do
      loads s.position 1
      let tmp := c.byte s.position
      let suiteDepth := (tmp >>> c.numBits) &&& mask8 (8 - c.numBits)
      let stopIndex := tmp &&& mask8 c.numBits
      let startIndex := (stopIndex + (2 ^ 8 - suiteDepth)) % 2 ^ 8
      match ← c.readRunLength (s.position + 1) with
      | none => pure (.inr none)
      | some (runLengthFactor, position) =>
        if startIndex ≥ c.paletteCount then pure (.inr none)
        else if stopIndex ≥ c.paletteCount then pure (.inr none)
        else if startIndex > 127 then pure (.inr none)
        else
          c.putSegment startIndex suiteDepth runLengthFactor
            { s with
              position := position
              bitmapDataOffset := (s.bitmapDataOffset + (position - s.position)) % 2 ^ 32 }
  else if s.pixelIndex ≠ c.pixelCount then pure (.inr none)
  else pure (.inr (some ()))

/-- `clear_decompress_subcode_rlex`: `none` if it is still running, `some none` if it returns `FALSE`. -/
def decompress : Traced Access (Option (Option Unit)) :=
  if c.remaining < c.bitmapDataByteCount then pure (some none)
  else if c.remaining < 1 then pure (some none)
  else do
    loads 0 1
    if c.paletteCount > 127 ∨ c.paletteCount < 1 then pure (some none)
    else if c.remaining < 1 + 3 * c.paletteCount then pure (some none)
    else do
      loads 1 (3 * c.paletteCount)
      loop c.step (c.remaining + 1) ⟨1 + 3 * c.paletteCount, 1 + 3 * c.paletteCount, 0, 0, 0⟩

end Rlex

end FreeRDP.Clear
