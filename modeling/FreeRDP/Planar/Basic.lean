import FreeRDP.Lib.Traced
import Mathlib.Data.Nat.Bitwise

/-!
# The run-length code of the planar codec

`planar_skip_plane_rle`, `planar_decompress_plane_rle_only` and `planar_decompress_plane_rle` of
`libfreerdp/codec/planar.c`.  The source goes on past its end.  The decoders record the bytes that they
read, by their offset, and the bytes that they write; the two of them differ in their `Target` only.

Every round of the loop over a scanline takes a byte off the source, so that `SrcSize + 1` of them are
enough; a result `none` is a loop that is still running.
-/

namespace FreeRDP.Planar

open Traced Iterate

def INT32_MAX : ℕ := 2 ^ 31 - 1

/-- The run length and the raw bytes of a control byte, with the two long runs. -/
def control (controlByte : ℕ) : ℕ × ℕ :=
  let nRunLength := controlByte &&& 0x0F
  let cRawBytes := (controlByte >>> 4) &&& 0x0F
  if nRunLength = 1 then (cRawBytes + 16, 0)
  else if nRunLength = 2 then (cRawBytes + 32, 0)
  else (nRunLength, cRawBytes)

/-! ### The size of a plane -/

/-- The loop over a scanline in `planar_skip_plane_rle`: `x` and `used`. -/
def skipStep (src : ℕ → UInt8) (SrcSize nWidth : ℕ) : ℕ × ℕ → (ℕ × ℕ) ⊕ Option ℕ := fun (x, used) =>
  if x < nWidth then
    if used ≥ SrcSize then .inr none
    else
      let (nRunLength, cRawBytes) := control (src used).toNat
      let used := ((used + 1) % 2 ^ 32 + cRawBytes) % 2 ^ 32
      let x := ((x + cRawBytes) % 2 ^ 32 + nRunLength) % 2 ^ 32
      if x > nWidth then .inr none
      else if used > SrcSize then .inr none
      else .inl (x, used)
  else .inr (some used)

/-- The loop over the scanlines. -/
def skipRows (src : ℕ → UInt8) (SrcSize nWidth : ℕ) : ℕ → ℕ → OptionT Option ℕ
  | 0, used => pure used
  | rows + 1, used => do
    let used ← (iterate (skipStep src SrcSize nWidth) (SrcSize + 1) (0, used) : OptionT Option ℕ)
    skipRows src SrcSize nWidth rows used

/-- `planar_skip_plane_rle`, with `some none` for -1. -/
def planarSkipPlaneRle (src : ℕ → UInt8) (SrcSize nWidth nHeight : ℕ) : OptionT Option ℕ := do
  let used ← skipRows src SrcSize nWidth nHeight 0
  if used > INT32_MAX then failure
  else pure used

/-! ### Decoding a plane -/

inductive Access where
  | load (offset : ℕ)
  | store (offset : ℤ)
  deriving DecidableEq, Repr

/-- Where the scanlines are, in the order in which they are decoded, the bytes from one pixel to the next,
and the bytes of a scanline. -/
structure Target where
  scanline : ℕ → ℤ
  stride : ℕ
  limit : ℕ

/-- The variables of a decoder, and its destination. -/
structure Walk where
  x : ℕ
  srcp : ℕ
  pixel : ℕ
  dst : ℤ → UInt8

/-- `pixel` of a raw byte: an absolute value in the first scanline, and a delta in the others. -/
def pixelOf (first : Bool) (code : UInt8) : ℕ :=
  let deltaValue := code.toNat
  if first then deltaValue
  else if deltaValue &&& 1 ≠ 0 then (2 ^ 32 - (deltaValue >>> 1 + 1)) % 2 ^ 32
  else deltaValue >>> 1

namespace Target

variable (t : Target)

def pixelAt (row x : ℕ) : ℤ := t.scanline row + t.stride * x

/-- The value that is written: `pixel`, on top of the previous scanline if there is one. -/
def valueOf (row : ℕ) (s : Walk) : UInt8 :=
  if row = 0 then UInt8.ofNat s.pixel
  else UInt8.ofNat ((s.dst (t.pixelAt (row - 1) s.x)).toNat + s.pixel)

def put (row : ℕ) (s : Walk) : Traced Access Walk := do
  access (.store (t.pixelAt row s.x))
  pure { s with x := s.x + 1, dst := Function.update s.dst (t.pixelAt row s.x) (t.valueOf row s) }

/-- `while (cRawBytes > 0)`. -/
def putRaw (src : ℕ → UInt8) (row : ℕ) : ℕ → Walk → Traced Access Walk
  | 0, s => pure s
  | cRawBytes + 1, s => do
    access (.load s.srcp)
    let s ← t.put row { s with pixel := pixelOf (row = 0) (src s.srcp), srcp := s.srcp + 1 }
    putRaw src row cRawBytes s

/-- `while (nRunLength > 0)`. -/
def putRun (row : ℕ) : ℕ → Walk → Traced Access Walk
  | 0, s => pure s
  | nRunLength + 1, s => do
    let s ← t.put row s
    putRun row nRunLength s

/-- The loop over a scanline. -/
def decodeStep (src : ℕ → UInt8) (SrcSize nWidth row : ℕ) (s : Walk) :
    Traced Access (Walk ⊕ Option Walk) :=
  if s.x < nWidth then do
    access (.load s.srcp)
    let (nRunLength, cRawBytes) := control (src s.srcp).toNat
    if s.srcp + 1 > SrcSize then pure (.inr none)
    else if t.stride * s.x + (cRawBytes + nRunLength) > t.limit then pure (.inr none)
    else do
      let s ← t.putRaw src row cRawBytes { s with srcp := s.srcp + 1 }
      let s ← t.putRun row nRunLength s
      pure (.inl s)
  else pure (.inr (some s))

/-- The loop over the scanlines, of which there are `rows` from `row` on. -/
def decodeRows (src : ℕ → UInt8) (SrcSize nWidth : ℕ) :
    ℕ → ℕ → Walk → Traced Access (Option (Option Walk))
  | 0, _, s => pure (some (some s))
  | rows + 1, row, s => do
    match ← loop (t.decodeStep src SrcSize nWidth row) (SrcSize + 1) { s with x := 0, pixel := 0 } with
    | some (some s) => decodeRows src SrcSize nWidth rows (row + 1) s
    | r => pure r

/-- The value that is returned, and the destination. -/
def decode (src : ℕ → UInt8) (SrcSize nWidth nHeight : ℕ) (dst : ℤ → UInt8) :
    Traced Access (Option (Option (ℤ × (ℤ → UInt8)))) := do
  let r ← t.decodeRows src SrcSize nWidth nHeight 0 ⟨0, 0, 0, dst⟩
  pure (r.map fun r => r.map fun s => (Int.bmod s.srcp (2 ^ 32), s.dst))

end Target

/-- The target of `planar_decompress_plane_rle_only`: the offset of a scanline is an `INT32`. -/
def onlyTarget (nWidth : ℕ) : Target := ⟨fun y => Int.bmod (y * nWidth) (2 ^ 32), 1, nWidth⟩

/-- `planar_decompress_plane_rle_only`, with `some none` for the -1 of an error. -/
def planarDecompressPlaneRleOnly (src : ℕ → UInt8) (SrcSize : ℕ) (dst : ℤ → UInt8)
    (nWidth nHeight : ℕ) : Traced Access (Option (Option (ℤ × (ℤ → UInt8)))) :=
  if nHeight > INT32_MAX ∨ nWidth > INT32_MAX then pure (some none)
  else (onlyTarget nWidth).decode src SrcSize nWidth nHeight dst

/-- The place of a plane of pixels of four bytes. -/
structure Place where
  nDstStep : ℤ
  nXDst : ℕ
  nYDst : ℕ
  nChannel : ℕ
  vFlip : Bool

/-- `y`, in the order in which the scanlines are decoded. -/
def Place.rowOf (p : Place) (nHeight row : ℕ) : ℤ :=
  if p.vFlip then nHeight - 1 - row else row

/-- The target of `planar_decompress_plane_rle`: the offset of a scanline is a `UINT32`. -/
def Place.target (p : Place) (nWidth nHeight : ℕ) : Target where
  scanline row := ((p.nYDst + p.rowOf nHeight row) * p.nDstStep + p.nXDst * 4 + p.nChannel) % 2 ^ 32
  stride := 4
  limit := nWidth * 4 % 2 ^ 32

def planarDecompressPlaneRle (src : ℕ → UInt8) (SrcSize : ℕ) (dst : ℤ → UInt8) (p : Place)
    (nWidth nHeight : ℕ) : Traced Access (Option (Option (ℤ × (ℤ → UInt8)))) :=
  if nHeight > INT32_MAX ∨ nWidth > INT32_MAX ∨ p.nDstStep > INT32_MAX then pure (some none)
  else (p.target nWidth nHeight).decode src SrcSize nWidth nHeight dst

end FreeRDP.Planar
