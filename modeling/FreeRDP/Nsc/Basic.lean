import FreeRDP.Lib.Memory
import FreeRDP.Lib.Traced
import Mathlib.Data.Nat.Bitwise

/-!
# The planes of NSCodec

`nsc_rle_encode` and `nsc_rle_compress_data` of `nsc_encode.c`, `nsc_rle_decode` and
`nsc_rle_decompress_data` of `nsc.c`.  A buffer that is read goes on past its end.  The decoder records
every byte that it reads or writes: offsets into the plane count from `rle`, and those into the output from
the start of its buffer.

The decoder runs for at most `n` rounds: nothing in it bounds them.
-/

namespace FreeRDP.Nsc

open Traced Memory

/-! ### The encoder -/

/-- `originalSize - 4`. -/
def encodeLimit (originalSize : ℕ) : ℕ := (originalSize + (2 ^ 32 - 4)) % 2 ^ 32

/-- The variables of `nsc_rle_encode`. -/
structure Encoder where
  input : ℕ
  out : List UInt8
  runlength : ℕ
  planeSize : ℕ

def emit (value : UInt8) (runlength : ℕ) : List UInt8 :=
  if runlength = 1 then [value]
  else if runlength < 256 then [value, value, UInt8.ofNat (runlength - 2)]
  else
    [value, value, 0xFF,
      UInt8.ofNat (runlength &&& 0x000000FF),
      UInt8.ofNat ((runlength &&& 0x0000FF00) >>> 8),
      UInt8.ofNat ((runlength &&& 0x00FF0000) >>> 16),
      UInt8.ofNat ((runlength &&& 0xFF000000) >>> 24)]

def encodeStep (src : ℕ → UInt8) (left : ℕ) (e : Encoder) : Encoder :=
  let value := src e.input
  if left > 5 ∧ value = src (e.input + 1) then
    { e with input := e.input + 1, runlength := e.runlength + 1 }
  else
    { input := e.input + 1
      out := e.out ++ emit value e.runlength
      runlength := 1
      planeSize := (e.planeSize + (emit value e.runlength).length) % 2 ^ 32 }

/-- The loop, which is left early when the data gets too long. -/
def encodeLoop (src : ℕ → UInt8) (originalSize : ℕ) : ℕ → Encoder → Encoder
  | 0, e => e
  | left + 1, e =>
    if left + 1 > 4 ∧ e.planeSize < encodeLimit originalSize then
      encodeLoop src originalSize left (encodeStep src (left + 1) e)
    else e

/-- `nsc_rle_encode`: what is written to `out`, and the size that is returned. -/
def nscRleEncode (src : ℕ → UInt8) (originalSize : ℕ) : List UInt8 × ℕ :=
  let e := encodeLoop src originalSize originalSize ⟨0, [], 1, 0⟩
  (if e.planeSize < encodeLimit originalSize then e.out ++ bytesAt src e.input 4 else e.out,
    (e.planeSize + 4) % 2 ^ 32)

/-- A plane in `nsc_rle_compress_data`: what is left in the first `PlaneByteCount` bytes of its buffer, and
that count. -/
def nscRleCompressPlane (buffer : ℕ → UInt8) (originalSize : ℕ) : List UInt8 × ℕ :=
  if originalSize = 0 then ([], 0)
  else
    let (out, planeSize) := nscRleEncode buffer originalSize
    if planeSize < originalSize then (out.take planeSize, planeSize)
    else (bytesAt buffer 0 originalSize, originalSize)

/-! ### The sizes of the planes -/

def roundUpTo (b n : ℕ) : ℕ := b + (n - b % n) % n

/-- `tempWidth * tempHeight`. -/
def roundedSize (width height : ℕ) : ℕ := roundUpTo width 8 * roundUpTo height 2 % 2 ^ 32

/-- The `OrgByteCount`s of `nsc_context_initialize_encode`. -/
def orgByteCounts (chromaSubsampling : Bool) (width height : ℕ) : List ℕ :=
  let all := width * height % 2 ^ 32
  if chromaSubsampling then
    let half := roundedSize width height / 4
    [roundUpTo width 8 * height % 2 ^ 32, half, half, all]
  else [all, all, all, all]

/-! ### The decoder -/

inductive Access where
  | load (offset : ℕ)
  | store (offset : ℕ)
  deriving DecidableEq, Repr

/-- The variables of `nsc_rle_decode`; `out` is what has been written. -/
structure Decoder where
  input : ℕ
  out : List UInt8
  outSize : ℕ
  left : ℕ

/-- `n` bytes from `p` on are read. -/
def loads (p n : ℕ) : Traced Access Unit := accesses ((List.range n).map fun i => .load (p + i))

/-- `n` bytes from `p` on are written. -/
def stores (p n : ℕ) : Traced Access Unit := accesses ((List.range n).map fun i => .store (p + i))

/-- Four bytes, the lowest one first. -/
def le32At (src : ℕ → UInt8) (p : ℕ) : ℕ :=
  (src p).toNat ||| (src (p + 1)).toNat <<< 8 ||| (src (p + 2)).toNat <<< 16 |||
    (src (p + 3)).toNat <<< 24

/-- `len` bytes of the value, if there is room for them; `input` is what is read next. -/
def fill (value : UInt8) (len input : ℕ) (d : Decoder) :
    Traced Access (Decoder ⊕ Option (List UInt8)) :=
  if d.outSize < len then pure (.inr none)
  else do
    stores d.out.length len
    pure (.inl
      { input := input
        out := d.out ++ List.replicate len value
        outSize := d.outSize - len
        left := (d.left + (2 ^ 32 - len)) % 2 ^ 32 })

/-- A round of the loop, or what follows it. -/
def decodeStep (src : ℕ → UInt8) (d : Decoder) : Traced Access (Decoder ⊕ Option (List UInt8)) :=
  if d.left > 4 then do
    loads d.input 1
    let value := src d.input
    if d.left = 5 then fill value 1 (d.input + 1) d
    else do
      loads (d.input + 1) 1
      if value = src (d.input + 1) then do
        loads (d.input + 2) 1
        if (src (d.input + 2)).toNat < 0xFF then
          fill value ((src (d.input + 2)).toNat + 2) (d.input + 3) d
        else do
          loads (d.input + 3) 4
          fill value (le32At src (d.input + 3)) (d.input + 7) d
      else fill value 1 (d.input + 1) d
  else if d.outSize < 4 ∨ d.left < 4 then pure (.inr none)
  else do
    loads d.input 4
    stores d.out.length 4
    pure (.inr (some (d.out ++ bytesAt src d.input 4)))

/-- `nsc_rle_decode`: `none` if it is still running, `some none` if it returns `FALSE`, and what it has
written if it returns `TRUE`. -/
def nscRleDecode (src : ℕ → UInt8) (outSize originalSize n : ℕ) :
    Traced Access (Option (Option (List UInt8))) :=
  loop (decodeStep src) n ⟨0, [], outSize, originalSize⟩

/-- A plane in `nsc_rle_decompress_data`. -/
def nscRleDecompressPlane (rle : ℕ → UInt8) (planeBuffersLength originalSize planeSize n : ℕ) :
    OptionT Option (List UInt8) :=
  if planeSize = 0 then
    if planeBuffersLength < originalSize then some none
    else some (some (List.replicate originalSize 0xFF))
  else if planeSize < originalSize then (nscRleDecode rle planeBuffersLength originalSize n).value
  else if planeBuffersLength < originalSize then some none
  else some (some (bytesAt rle 0 originalSize))

/-- `nsc_rle_decompress_data`, of planes with their `OrgByteCount` and `PlaneByteCount`. -/
def nscRleDecompressData (planes : ℕ → UInt8) (planeBuffersLength n : ℕ) :
    ℕ → List (ℕ × ℕ) → OptionT Option (List (List UInt8))
  | _, [] => pure []
  | rle, (originalSize, planeSize) :: sizes => do
    let plane ←
      nscRleDecompressPlane (fun i => planes (rle + i)) planeBuffersLength originalSize planeSize n
    let rest ← nscRleDecompressData planes planeBuffersLength n (rle + planeSize) sizes
    pure (plane :: rest)

end FreeRDP.Nsc
