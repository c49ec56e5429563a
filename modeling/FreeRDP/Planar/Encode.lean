import FreeRDP.Lib.Memory
import Mathlib.Data.Nat.Bitwise

/-!
# Encoding a plane of the planar codec

`freerdp_bitmap_planar_delta_encode_plane`, `freerdp_bitmap_planar_write_rle_bytes`,
`freerdp_bitmap_planar_encode_rle_bytes` and `freerdp_bitmap_planar_compress_plane_rle` of
`libfreerdp/codec/planar.c`.  A `char` is signed.  A result `none` is a return value of 0 or `FALSE`; the
functions that write bytes also return how much room is left.
-/

namespace FreeRDP.Planar

open Memory

/-! ### Deltas -/

def toByte (x : ℤ) : ℤ := x % 2 ^ 8

def toChar (x : ℤ) : ℤ := Int.bmod x (2 ^ 8)

/-- `(UINT32)`. -/
def toUInt32 (x : ℤ) : ℤ := x % 2 ^ 32

def foldDelta (delta : ℤ) : UInt8 :=
  let s2c := if delta ≥ 0 then toChar delta else toChar (Int.not (toByte (-delta)) + 1)
  let s2c :=
    if s2c ≥ 0 then toChar (toUInt32 (toUInt32 s2c * 2))
    else toChar (toUInt32 (toUInt32 (toUInt32 (Int.not (toByte s2c) + 1) * 2) - 1))
  UInt8.ofNat (toByte s2c).toNat

/-- What stands for a byte behind the byte of the previous line. -/
def deltaCode (src prevLine : UInt8) : UInt8 := foldDelta ((src.toNat : ℤ) - prevLine.toNat)

/-- `freerdp_bitmap_planar_delta_encode_plane`: the byte `i` of the plane. -/
def deltaEncodePlane (inPlane : ℕ → UInt8) (width i : ℕ) : UInt8 :=
  if i < width then inPlane i else deltaCode (inPlane i) (inPlane (i - width))

/-! ### Runs -/

def controlByte (nRunLength cRawBytes : ℕ) : ℕ := (nRunLength &&& 0x0F) ||| (cRawBytes &&& 0x0F) <<< 4

/-- The run length and the raw bytes of the next control byte, when there are raw bytes. -/
def rawSegment (cRawBytes nRunLength : ℕ) : ℕ × ℕ :=
  if cRawBytes < 16 then
    if nRunLength > 15 then if nRunLength < 18 then (13, cRawBytes) else (15, cRawBytes)
    else (nRunLength, cRawBytes)
  else (0, 15)

/-- `while (cRawBytes)`, with at most `n` rounds: what is written, what is left of the run, and the room. -/
def writeRaw (src : ℕ → UInt8) : ℕ → ℕ → ℕ → ℕ → ℕ → Option (List UInt8 × ℕ × ℕ)
  | 0, _, _, nRunLength, outBufferSize => some ([], nRunLength, outBufferSize)
  | n + 1, pInput, cRawBytes, nRunLength, outBufferSize =>
    if cRawBytes = 0 then some ([], nRunLength, outBufferSize)
    else
      let (run, raw) := rawSegment cRawBytes nRunLength
      let control := controlByte run raw
      let nBytesToWrite := control >>> 4
      if outBufferSize < 1 then none
      else if outBufferSize - 1 < nBytesToWrite then none
      else
        let bytes := bytesAt src pInput nBytesToWrite
        (writeRaw src n (pInput + nBytesToWrite) (cRawBytes - raw) (nRunLength - run)
          (outBufferSize - 1 - nBytesToWrite)).map fun (out, rest) =>
            (UInt8.ofNat control :: bytes ++ out, rest)

/-- The control byte for a run, and what is left of the run. -/
def runSegment (nRunLength : ℕ) : ℕ × ℕ :=
  if nRunLength > 47 then
    if nRunLength < 50 then (controlByte 2 13, nRunLength - 45)
    else (controlByte 2 15, nRunLength - 47)
  else if nRunLength > 31 then (controlByte 2 (nRunLength - 32), 0)
  else if nRunLength > 15 then (controlByte 1 (nRunLength - 16), 0)
  else (controlByte nRunLength 0, 0)

/-- `while (nRunLength)`, with at most `n` rounds: what is written, and the room. -/
def writeRun : ℕ → ℕ → ℕ → Option (List UInt8 × ℕ)
  | 0, _, outBufferSize => some ([], outBufferSize)
  | n + 1, nRunLength, outBufferSize =>
    if nRunLength = 0 then some ([], outBufferSize)
    else
      let (control, nRunLength) := runSegment nRunLength
      if outBufferSize < 1 then none
      else
        (writeRun n nRunLength (outBufferSize - 1)).map fun (out, outBufferSize) =>
          (UInt8.ofNat control :: out, outBufferSize)

/-- `freerdp_bitmap_planar_write_rle_bytes`. -/
def writeRleBytes (src : ℕ → UInt8) (pInput cRawBytes nRunLength outBufferSize : ℕ) :
    Option (List UInt8 × ℕ) :=
  if cRawBytes = 0 ∧ nRunLength = 0 then none
  else
    let (cRawBytes, nRunLength) :=
      if nRunLength < 3 then (cRawBytes + nRunLength, 0) else (cRawBytes, nRunLength)
    (writeRaw src cRawBytes pInput cRawBytes nRunLength outBufferSize).bind
      fun (out, nRunLength, outBufferSize) =>
        (writeRun nRunLength nRunLength outBufferSize).map fun (out', outBufferSize) =>
          (out ++ out', outBufferSize)

/-! ### Scanlines -/

/-- The variables of `freerdp_bitmap_planar_encode_rle_bytes`. -/
structure Encoder where
  symbol : UInt8
  cRawBytes : ℕ
  nRunLength : ℕ
  pInput : ℕ
  out : List UInt8
  outBufferSize : ℕ

/-- `cRawBytes + nRunLength` bytes before the input are written, when `ahead` bytes have been read behind
them. -/
def Encoder.flush (src : ℕ → UInt8) (ahead : ℕ) (e : Encoder) : Option Encoder :=
  (writeRleBytes src (e.pInput - (e.cRawBytes + e.nRunLength + ahead)) e.cRawBytes e.nRunLength
    e.outBufferSize).map fun (bytes, room) =>
      { e with cRawBytes := 0, nRunLength := 0, out := e.out ++ bytes, outBufferSize := room }

def encodeStep (src : ℕ → UInt8) (e : Encoder) : Option Encoder :=
  let bSymbolMatch : Bool := e.symbol = src e.pInput
  let e := { e with symbol := src e.pInput, pInput := e.pInput + 1 }
  let flushed :=
    if e.nRunLength ≠ 0 ∧ ¬ bSymbolMatch then
      if e.nRunLength < 3 then
        some { e with cRawBytes := e.cRawBytes + e.nRunLength, nRunLength := 0 }
      else e.flush src 1
    else some e
  flushed.map fun e =>
    { e with
      nRunLength := e.nRunLength + bSymbolMatch.toNat
      cRawBytes := e.cRawBytes + (!bSymbolMatch).toNat }

/-- The loop: what is left of the scanline when it ends, and the variables. -/
def encodeLoop (src : ℕ → UInt8) : ℕ → Encoder → Option (ℕ × Encoder)
  | 0, e => some (0, e)
  | inBufferSize + 1, e =>
    (encodeStep src e).bind fun e =>
      if e.outBufferSize = 0 then some (inBufferSize, e) else encodeLoop src inBufferSize e

def encodeRest (src : ℕ → UInt8) (inBufferSize : ℕ) (e : Encoder) : Option Encoder :=
  let flushed := if e.cRawBytes ≠ 0 ∨ e.nRunLength ≠ 0 then e.flush src 0 else some e
  flushed.bind fun e => if inBufferSize ≠ 0 then none else some e

/-- `freerdp_bitmap_planar_encode_rle_bytes`, from `pInBuffer` on. -/
def encodeRleBytes (src : ℕ → UInt8) (pInBuffer inBufferSize outBufferSize : ℕ) :
    Option (List UInt8 × ℕ) :=
  if outBufferSize = 0 then none
  else
    (encodeLoop src inBufferSize ⟨0, 0, 0, pInBuffer, [], outBufferSize⟩).bind fun (left, e) =>
      (encodeRest src left e).bind fun e =>
        if e.out.length = 0 then none else some (e.out, e.outBufferSize)

/-- The loop over the scanlines, of which there are `rows` left. -/
def compressRows (inPlane : ℕ → UInt8) (width : ℕ) : ℕ → ℕ → ℕ → Option (List UInt8)
  | 0, _, _ => some []
  | rows + 1, pInput, outBufferSize =>
    if outBufferSize = 0 then some []
    else
      (encodeRleBytes inPlane pInput width outBufferSize).bind fun (out, outBufferSize) =>
        (compressRows inPlane width rows (pInput + width) outBufferSize).map fun rest => out ++ rest

/-- `freerdp_bitmap_planar_compress_plane_rle`, of at least one scanline. -/
def compressPlaneRle (inPlane : ℕ → UInt8) (width height dstSize : ℕ) : Option (List UInt8) :=
  compressRows inPlane width (max height 1) 0 dstSize

end FreeRDP.Planar
