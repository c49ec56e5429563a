import Mathlib.Data.Int.Basic
import FreeRDP.BitStream.Basic
import FreeRDP.Lib.Iterate

/-!
# The RLGR entropy coder of RemoteFX

`rfx_rlgr_encode` and `rfx_rlgr_decode` of `codec/rfx_rlgr.c`, in the two variants `RLGR1` and
`RLGR3`.  Encoder and decoder each adapt two parameters, `kp` (run lengths) and `krp` (Golomb-Rice
codes), and code in run-length mode while `k = kp >> LSGR` is not zero and in Golomb-Rice mode
otherwise.  The encoder writes through the `RFX_BITSTREAM` of `codec/rfx_bitstream.h`, the decoder
reads through a `wBitStream`.

Coefficients are `Int16`, the other numbers natural numbers with the C conversions written out.
`kp` and `krp` are clamped to `0 .. KPMAX` at every update.  Behaviour that C leaves undefined (the
overflow of an `int`, a shift by the width of the type, a `memset` of a negative size) is an
explicit result: `none` of the encoder, `Exit.undefined` of a round of the decoder and `none` of the
decoder.
-/

namespace FreeRDP.Rlgr

open Iterate

inductive Mode where
  | rlgr1
  | rlgr3
deriving DecidableEq, Repr

/-- The largest value of `kp` and `krp`. -/
def KPMAX : ℕ := 80

/-- The shift from `kp` to `k`. -/
def LSGR : ℕ := 3

/-- The increase of `kp` after a zero run in run-length mode. -/
def UP_GR : ℕ := 4

/-- The decrease of `kp` after a nonzero symbol in run-length mode. -/
def DN_GR : ℕ := 6

/-- The increase of `kp` after a zero symbol in Golomb-Rice mode. -/
def UQ_GR : ℕ := 3

/-- The decrease of `kp` after a nonzero symbol in Golomb-Rice mode. -/
def DQ_GR : ℕ := 3

/-- The conversion of an unsigned number to `int`. -/
def toInt (n : ℕ) : ℤ := Int.bmod n (2 ^ 32)

/-! ### `RFX_BITSTREAM` -/

/-- `struct _RFX_BITSTREAM`. -/
structure RfxBitstream where
  buffer : ℕ → UInt8
  nbytes : ℤ
  bytePos : ℕ
  bitsLeft : ℕ

namespace RfxBitstream

/-- `rfx_bitstream_attach`; `nbytes` is an `int` member. -/
def attach (buffer : ℕ → UInt8) (nbytes : ℕ) : RfxBitstream where
  buffer := buffer
  nbytes := toInt nbytes
  bytePos := 0
  bitsLeft := 8

/-- One round of the loop of `rfx_bitstream_put_bits`: the `b` bits that still fit into the current
byte. -/
def putChunk (bs : RfxBitstream) (bits nbits b : ℕ) : RfxBitstream :=
  let chunk := ((bits >>> (nbits - b)) &&& ((1 <<< b) - 1)) <<< (bs.bitsLeft - b)
  let byte := bs.buffer bs.bytePos ||| UInt8.ofNat chunk
  { bs with
    buffer := Function.update bs.buffer bs.bytePos byte
    bytePos := if bs.bitsLeft - b = 0 then bs.bytePos + 1 else bs.bytePos
    bitsLeft := if bs.bitsLeft - b = 0 then 8 else bs.bitsLeft - b }

/-- The loop of `rfx_bitstream_put_bits`; every round writes at least one bit. -/
def putLoop : ℕ → RfxBitstream → ℕ → ℕ → RfxBitstream
  | 0, bs, _, _ => bs
  | rounds + 1, bs, bits, nbits =>
    if (bs.bytePos : ℤ) < bs.nbytes ∧ 0 < nbits then
      let b := if nbits > bs.bitsLeft then bs.bitsLeft else nbits
      putLoop rounds (bs.putChunk bits nbits b) bits (nbits - b)
    else bs

/-- `rfx_bitstream_put_bits`; `bits` is a `UINT16`. -/
def putBits (bs : RfxBitstream) (bits nbits : ℕ) : RfxBitstream :=
  putLoop nbits bs (bits % 2 ^ 16) nbits

def flush (bs : RfxBitstream) : RfxBitstream :=
  if bs.bitsLeft ≠ 8 then bs.putBits 0 (8 - bs.bitsLeft) else bs

/-- `rfx_bitstream_get_processed_bytes`. -/
def processedBytes (bs : RfxBitstream) : ℕ :=
  if bs.bitsLeft < 8 then bs.bytePos + 1 else bs.bytePos

end RfxBitstream

/-! ### `rfx_rlgr_encode` -/

/-- The loop of `GetMinBits`; a `UINT32` is shifted away in 32 rounds. -/
def minBitsLoop : ℕ → ℕ → ℕ
  | 0, _ => 0
  | rounds + 1, v => if v = 0 then 0 else minBitsLoop rounds (v >>> 1) + 1

/-- `GetMinBits`: the least number of bits that represent a value. -/
def getMinBits (v : ℕ) : ℕ := minBitsLoop 32 v

/-- `UpdateParam`: the parameter moved by `delta` and clamped to `0 .. KPMAX`. -/
def updateParam (param : ℕ) (delta : ℤ) : ℕ :=
  let param := (param : ℤ) + delta
  let param := if param > KPMAX then (KPMAX : ℤ) else param
  if param < 0 then 0 else param.toNat

/-- `GetNextInput`: the next coefficient and those after it, zero past the end. -/
def getNextInput : List Int16 → Int16 × List Int16
  | [] => (0, [])
  | x :: data => (x, data)

/-- The loop of `OutputBit`: up to 16 equal bits a round. -/
def outputBitLoop (b : ℕ) : ℕ → RfxBitstream → ℕ → RfxBitstream
  | 0, bs, _ => bs
  | rounds + 1, bs, c =>
    if 0 < c then outputBitLoop b rounds (bs.putBits b (if c > 16 then 16 else c)) (c - 16) else bs

/-- `OutputBit`: `count` times the bit `bit`. -/
def outputBit (bs : RfxBitstream) (count : ℕ) (bit : Bool) : RfxBitstream :=
  outputBitLoop (if bit then 0xFFFF else 0) count bs count

def outputBits (bs : RfxBitstream) (numBits bitPattern : ℕ) : RfxBitstream :=
  bs.putBits bitPattern numBits

/-- `Get2MagSign`: twice the magnitude, less one for a negative number. -/
def get2MagSign (input : Int16) : ℕ :=
  (if input.toInt ≥ 0 then 2 * input.toInt else -2 * input.toInt - 1).toNat

/-- `rfx_rlgr_code_gr`: the stream and `*krp` after the code of `val`. -/
def rfxRlgrCodeGr (bs : RfxBitstream) (krp val : ℕ) : RfxBitstream × ℕ :=
  let kr := krp >>> LSGR
  let vk := val >>> kr
  let bs := outputBit bs vk true
  let bs := outputBit bs 1 false
  let bs := if kr ≠ 0 then outputBits bs kr (val &&& ((1 <<< kr) - 1)) else bs
  (bs, if vk = 0 then updateParam krp (-2) else if vk > 1 then updateParam krp vk else krp)

/-- What the main loop of `rfx_rlgr_encode` changes: the coefficients that are left, the parameters
and the stream. -/
structure Encoder where
  data : List Int16
  k : ℕ
  kp : ℕ
  krp : ℕ
  bs : RfxBitstream

/-- The loop that collects a run of zeros: `numZeros`, the coefficient behind the run and the
coefficients after that.  `none` is the overflow of `numZeros`. -/
def collectZeros : List Int16 → Int16 → ℕ → Option (ℕ × Int16 × List Int16)
  | [], input, numZeros => some (numZeros, input, [])
  | x :: data, input, numZeros =>
    if input = 0 then
      if numZeros + 1 < 2 ^ 31 then collectZeros data x (numZeros + 1) else none
    else some (numZeros, input, x :: data)

/-- The loop that writes a zero bit for each `1 << k` zeros; `k` stands for `kp >> LSGR`.  It leaves
the stream, the zeros that are left and `kp`. -/
def emitZeros : ℕ → RfxBitstream → ℕ → ℕ → RfxBitstream × ℕ × ℕ
  | 0, bs, numZeros, kp => (bs, numZeros, kp)
  | rounds + 1, bs, numZeros, kp =>
    if numZeros ≥ 1 <<< (kp >>> LSGR) then
      emitZeros rounds (outputBit bs 1 false) (numZeros - 1 <<< (kp >>> LSGR))
        (updateParam kp UP_GR)
    else (bs, numZeros, kp)

/-- `mag`, the absolute value of a coefficient as an `int`. -/
def magnitude (input : Int16) : ℕ := input.toInt.natAbs

/-- The run-length branch once the run of zeros is collected. -/
def encodeRun (e : Encoder) (numZeros : ℕ) (input : Int16) (data : List Int16) : Encoder :=
  let (bs, numZeros, kp) := emitZeros numZeros e.bs numZeros e.kp
  let bs := outputBit bs 1 true
  let bs := outputBits bs (kp >>> LSGR) numZeros
  let mag := magnitude input
  let bs := outputBit bs 1 (decide (input.toInt < 0))
  let (bs, krp) := rfxRlgrCodeGr bs e.krp (if mag ≠ 0 then mag - 1 else 0)
  let kp := updateParam kp (-DN_GR)
  { data := data, k := kp >>> LSGR, kp := kp, krp := krp, bs := bs }

/-- The Golomb-Rice branch of `RLGR1`. -/
def encodeSingle (e : Encoder) : Encoder :=
  let (input, data) := getNextInput e.data
  let twoMs := get2MagSign input
  let (bs, krp) := rfxRlgrCodeGr e.bs e.krp twoMs
  let kp := if twoMs ≠ 0 then updateParam e.kp (-DQ_GR) else updateParam e.kp UQ_GR
  { data := data, k := kp >>> LSGR, kp := kp, krp := krp, bs := bs }

/-- The Golomb-Rice branch of `RLGR3`: two coefficients share a code. -/
def encodePair (e : Encoder) : Encoder :=
  let (input1, data) := getNextInput e.data
  let twoMs1 := get2MagSign input1
  let (input2, data) := getNextInput data
  let twoMs2 := get2MagSign input2
  let sum2Ms := twoMs1 + twoMs2
  let (bs, krp) := rfxRlgrCodeGr e.bs e.krp sum2Ms
  let bs := outputBits bs (getMinBits sum2Ms) twoMs1
  let kp :=
    if twoMs1 ≠ 0 ∧ twoMs2 ≠ 0 then updateParam e.kp (-2 * DQ_GR)
    else if twoMs1 = 0 ∧ twoMs2 = 0 then updateParam e.kp (2 * UQ_GR)
    else e.kp
  { data := data, k := kp >>> LSGR, kp := kp, krp := krp, bs := bs }

/-- One round of the main loop of `rfx_rlgr_encode`; it leaves with the stream, or with `none` where
`numZeros` overflows. -/
def encodeStep (mode : Mode) (e : Encoder) : Encoder ⊕ Option RfxBitstream :=
  if e.data.length > 0 then
    if e.k ≠ 0 then
      let (input, data) := getNextInput e.data
      match collectZeros data input 0 with
      | some (numZeros, input, data) => .inl (encodeRun e numZeros input data)
      | none => .inr none
    else
      match mode with
      | .rlgr1 => .inl (encodeSingle e)
      | .rlgr3 => .inl (encodePair e)
  else .inr (some e.bs)

/-- The encoder before its first round. -/
def startEncoder (data : List Int16) (buffer : ℕ → UInt8) (bufferSize : ℕ) : Encoder where
  data := data
  k := 1
  kp := 1 <<< LSGR
  krp := 1 <<< LSGR
  bs := .attach buffer bufferSize

/-- What `rfx_rlgr_encode` leaves: the number it returns and the buffer. -/
structure Encoded where
  processedSize : ℕ
  buffer : ℕ → UInt8

/-- `rfx_rlgr_encode`, with an allocation that succeeds. -/
def rfxRlgrEncode (mode : Mode) (data : List Int16) (buffer : ℕ → UInt8) (bufferSize : ℕ) :
    Option Encoded :=
  match iterate (encodeStep mode) (data.length + 1) (startEncoder data buffer bufferSize) with
  | some (some bs) => some ⟨bs.flush.processedBytes, bs.flush.buffer⟩
  | _ => none

/-! ### `rfx_rlgr_decode` -/

/-- One halving of the search in `lzcnt_s`. -/
def lzcntHalve (s : ℕ) (nx : ℕ × ℕ) : ℕ × ℕ :=
  if nx.2 >>> s ≠ 0 then (nx.1 - s, nx.2 >>> s) else nx

/-- `lzcnt_s`, the leading zeros of a `UINT32`, as computed without the `lzcnt` instruction. -/
def lzcntS (x : ℕ) : ℕ :=
  if x = 0 then 32
  else
    let (n, x) := lzcntHalve 2 (lzcntHalve 4 (lzcntHalve 8 (lzcntHalve 16 (32, x))))
    if x >>> 1 ≠ 0 then n - 2 else n - x

/-- How a round of the decoder ends other than by going on: by one of its `break`s, or in undefined
behaviour. -/
inductive Exit where
  | leave
  | undefined
deriving DecidableEq, Repr

/-- `cnt`: the leading bits of the accumulator that equal `b`, no more than are left. -/
def leadingBits (b : Bool) (bs : BitStream) : ℕ :=
  let cnt := lzcntS (if b then 2 ^ 32 - 1 - bs.accumulator else bs.accumulator)
  if cnt > bs.remainingLength then bs.remainingLength else cnt

def shift32 (bs : BitStream) : BitStream := (bs.shift 16).shift 16

/-- The loop that goes on counting while whole accumulators consist of the bit `b`; it leaves the
stream and `vk`. -/
def leadingLoop (b : Bool) : ℕ → BitStream → ℕ → ℕ → BitStream × ℕ
  | 0, bs, _, vk => (bs, vk)
  | rounds + 1, bs, cnt, vk =>
    if cnt = 32 ∧ bs.remainingLength > 0 then
      leadingLoop b rounds (shift32 bs) (leadingBits b (shift32 bs))
        (vk + leadingBits b (shift32 bs))
    else (bs, vk)

/-- Counts the bits `b` up to the first other one and drops them and that one: the lines from
`cnt = lzcnt_s(..)` to `BitStream_Shift(bs, 1)` that the decoder has three times.  `nbits` is an
`int`: with `2 ^ 31` bits or more left it is negative, `vk` becomes negative and is then counted
down or shifted left. -/
def readUnary (b : Bool) (bs : BitStream) : Except Exit (ℕ × BitStream) :=
  if 2 ^ 31 ≤ bs.remainingLength then .error .undefined
  else
    let cnt := leadingBits b bs
    let (bs, vk) := leadingLoop b bs.remainingLength bs cnt cnt
    let bs := bs.shift (vk % 32)
    if bs.remainingLength < 1 then .error .leave else .ok (vk, bs.shift 1)

/-- Reads an `n`-bit number.  Shifting the `int` 1 by 31 or more is undefined. -/
def readBits (n : ℕ) (bs : BitStream) : Except Exit (ℕ × BitStream) :=
  if bs.remainingLength < n then .error .leave
  else if 31 ≤ n then .error .undefined
  else
    let mask := (1 <<< n) - 1
    let val := if n > 0 then (bs.accumulator >>> (32 - n)) &&& mask else 0
    .ok (val, bs.shift n)

def readSign (bs : BitStream) : Except Exit (Bool × BitStream) :=
  if bs.remainingLength < 1 then .error .leave
  else .ok (decide (bs.accumulator &&& 0x80000000 ≠ 0), bs.shift 1)

/-- `kp += up; if (kp > KPMAX) kp = KPMAX`. -/
def raise (param up : ℕ) : ℕ := if param + up > KPMAX then KPMAX else param + up

/-- `kp -= down; if (kp < 0) kp = 0`, which is the subtraction of natural numbers. -/
def lower (param down : ℕ) : ℕ := param - down

/-- The loop `while (vk--)`: adds `1 << k` to `run` and raises `kp`; `k` stands for `kp >> LSGR`. -/
def addRuns : ℕ → ℕ → ℕ → Except Exit (ℕ × ℕ)
  | 0, run, kp => .ok (run, kp)
  | vk + 1, run, kp =>
    if run + 1 <<< (kp >>> LSGR) < 2 ^ 31 then
      addRuns vk (run + 1 <<< (kp >>> LSGR)) (raise kp UP_GR)
    else .error .undefined

/-- What the main loop of `rfx_rlgr_decode` changes; `output` is what stands from `pDstData` to
`pOutput`. -/
structure Decoder where
  bs : BitStream
  k : ℕ
  kp : ℕ
  kr : ℕ
  krp : ℕ
  output : List Int16

/-- The update of `krp` after a code with `vk` leading ones. -/
def nextKrp (krp vk : ℕ) : ℕ :=
  if vk = 0 then lower krp 2 else if vk ≠ 1 then raise krp vk else krp

/-- `code`, put together from its unary and its binary part; `vk << kr` and `krp + vk` are `int`s. -/
def joinCode (kr krp vk rest : ℕ) : Except Exit ℕ :=
  if 2 ^ 31 ≤ vk <<< kr ∨ 2 ^ 31 ≤ krp + vk then .error .undefined
  else .ok ((rest ||| vk <<< kr) % 2 ^ 16)

/-- Reads a Golomb-Rice code and updates `kr` and `krp`: the lines that both modes have from
"count number of leading 1s" on. -/
def readCode (d : Decoder) : Except Exit (ℕ × Decoder) := do
  let (vk, bs) ← readUnary true d.bs
  let (rest, bs) ← readBits d.kr bs
  let code ← joinCode d.kr d.krp vk rest
  let krp := nextKrp d.krp vk
  return (code, { d with bs := bs, krp := krp, kr := krp >>> LSGR })

/-- Writes one coefficient, if there is room. -/
def putCoefficient (dstSize : ℕ) (output : List Int16) (mag : Int16) : List Int16 :=
  if output.length < dstSize then output ++ [mag] else output

/-- Writes `run` zeros, no more than there is room for.  `offset + size` is a `size_t`. -/
def putZeros (dstSize : ℕ) (output : List Int16) (run : ℤ) : Except Exit (List Int16) :=
  let size := if (output.length + run) % 2 ^ 64 > dstSize then toInt (dstSize - output.length)
    else run
  if size < 0 then .error .undefined else .ok (output ++ List.replicate size.toNat 0)

def runLengthRound (dstSize : ℕ) (d : Decoder) : Except Exit Decoder := do
  let (vk, bs) ← readUnary false d.bs
  let (run, kp) ← addRuns vk 0 d.kp
  let (rest, bs) ← readBits (kp >>> LSGR) bs
  let (sign, bs) ← readSign bs
  let (code, d) ← readCode { d with bs := bs }
  let kp := lower kp DN_GR
  let mag := if sign then -Int16.ofNat (code + 1) else Int16.ofNat (code + 1)
  let output ← putZeros dstSize d.output (toInt (run + rest))
  return { d with kp := kp, k := kp >>> LSGR, output := putCoefficient dstSize output mag }

/-- The coefficient of the code `2 * mag - sign`; `code` is a `UINT32`. -/
def unfold2MagSign (code : ℕ) : Int16 :=
  if code &&& 1 ≠ 0 then -Int16.ofNat (((code + 1) % 2 ^ 32) >>> 1) else Int16.ofNat (code >>> 1)

/-- A round in Golomb-Rice mode of `RLGR1`. -/
def singleRound (dstSize : ℕ) (d : Decoder) : Except Exit Decoder := do
  let (code, d) ← readCode d
  let kp := if code = 0 then raise d.kp UQ_GR else lower d.kp DQ_GR
  let mag := if code = 0 then 0 else unfold2MagSign code
  return { d with kp := kp, k := kp >>> LSGR, output := putCoefficient dstSize d.output mag }

/-- `nIdx`, the number of bits of the code.  The code passes through the `INT16` variable `mag` on its
way to `lzcnt_s`, which sign-extends it. -/
def codeWidth (code : ℕ) : ℕ :=
  if code ≠ 0 then 32 - lzcntS ((Int16.ofNat code).toInt % 2 ^ 32).toNat else 0

/-- `val2 = code - val1`, of `UINT32`s. -/
def secondCode (code val1 : ℕ) : ℕ := (code + 2 ^ 32 - val1) % 2 ^ 32

/-- A round in Golomb-Rice mode of `RLGR3`. -/
def pairRound (dstSize : ℕ) (d : Decoder) : Except Exit Decoder := do
  let (code, d) ← readCode d
  let (val1, bs) ← readBits (codeWidth code) d.bs
  let val2 := secondCode code val1
  let kp :=
    if val1 ≠ 0 ∧ val2 ≠ 0 then lower d.kp (2 * DQ_GR)
    else if val1 = 0 ∧ val2 = 0 then raise d.kp (2 * UQ_GR)
    else d.kp
  let output := putCoefficient dstSize d.output (unfold2MagSign val1)
  return { d with
    bs := bs
    kp := kp
    k := kp >>> LSGR
    output := putCoefficient dstSize output (unfold2MagSign val2) }

/-- The body of the main loop of `rfx_rlgr_decode`. -/
def decodeRound (mode : Mode) (dstSize : ℕ) (d : Decoder) : Except Exit Decoder :=
  if d.k ≠ 0 then runLengthRound dstSize d
  else
    match mode with
    | .rlgr1 => singleRound dstSize d
    | .rlgr3 => pairRound dstSize d

/-- One round of the main loop with its condition; it leaves with what has been written, or with
`none` where the behaviour is undefined.  A `break` comes before the round writes. -/
def decodeStep (mode : Mode) (dstSize : ℕ) (d : Decoder) : Decoder ⊕ Option (List Int16) :=
  if d.bs.remainingLength > 0 ∧ d.output.length < dstSize then
    match decodeRound mode dstSize d with
    | .ok d => .inl d
    | .error .leave => .inr (some d.output)
    | .error .undefined => .inr none
  else .inr (some d.output)

/-- The decoder before its first round. -/
def startDecoder (src : ℕ → UInt8) (srcSize : ℕ) : Decoder where
  bs := (BitStream.new.attach src srcSize).fetch
  k := 1
  kp := 1 <<< LSGR
  kr := 1
  krp := 1 <<< LSGR
  output := []

/-- The end of `rfx_rlgr_decode`: the rest of the destination is zeroed.  `size * 2` is an `int`. -/
def finishDecode (dstSize : ℕ) (output : List Int16) : Option (ℤ × List Int16) :=
  if output.length < dstSize then
    if dstSize - output.length < 2 ^ 30 then
      some (1, output ++ List.replicate (dstSize - output.length) 0)
    else none
  else some (1, output)

/-- `rfx_rlgr_decode` of `srcSize` bytes into `dstSize` coefficients, through pointers that are not
`NULL`: the number it returns and the coefficients it has written. -/
def rfxRlgrDecode (mode : Mode) (src : ℕ → UInt8) (srcSize dstSize : ℕ) :
    Option (ℤ × List Int16) :=
  if srcSize = 0 ∨ dstSize = 0 then some (-1, [])
  else
    match iterate (decodeStep mode dstSize) (8 * srcSize + 1) (startDecoder src srcSize) with
    | some (some output) => finishDecode dstSize output
    | _ => none

end FreeRDP.Rlgr
