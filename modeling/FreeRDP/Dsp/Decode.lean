import FreeRDP.Channels.Basic
import FreeRDP.Dsp.Ms
import FreeRDP.Lib.Traced

/-!
# Decoders with their accesses

`freerdp_dsp_decode_ima_adpcm` and `freerdp_dsp_decode_ms_adpcm` of `dsp.c`, with what they read of the
source, of the tables and of the format, and where they write to the output.  The source is a memory,
`size` is a `size_t` that wraps around, and an `INT32` wraps around, too.

The loops end for no number of rounds that is known in advance, so that they are run for at most `rounds`.
-/

namespace FreeRDP.Dsp.Decode

open Traced
open Channels (WStream)

/-! ### Accesses -/

/-- What a decoder divides by, reads and writes. -/
inductive DecodeAccess
  | remainder (divisor : ℕ)
  | source (i : ℕ)
  | imaStepIndexTable (i : ℕ)
  | imaStepSizeTable (i : ℤ)
  | msAdpcmCoeffs (i : ℕ)
  | msAdpcmAdaptationTable (i : ℕ)
  | write (i : ℕ)
deriving DecidableEq, Repr

/-- The state of a decoder: `context->adpcm`, how far `src` has moved, `size`, the position of `dst` in the
output, and the output. -/
structure DecodeState (σ : Type) where
  adpcm : σ
  src : ℕ
  size : ℕ
  dst : ℕ
  buffer : List UInt8
deriving Repr

def sizeSub (size n : ℕ) : ℕ := (size + 2 ^ 64 - n) % 2 ^ 64

def readByte (src : ℕ → UInt8) (i : ℕ) : Traced DecodeAccess UInt8 := do
  access (.source i)
  return src i

/-- `read_int16`. -/
def readSample (src : ℕ → UInt8) (i : ℕ) : Traced DecodeAccess ℤ := do
  let lo ← readByte src i
  let hi ← readByte src (i + 1)
  return readInt16 lo hi

/-- `write_int16`. -/
def writeSample (pos : ℕ) (x : ℤ) (buffer : List UInt8) : Traced DecodeAccess (List UInt8) := do
  accesses [.write pos, .write (pos + 1)]
  return putInt16 pos x buffer

section Loop

variable {σ : Type}

def beginBlock (blockSize : ℕ) (header : DecodeState σ → Traced DecodeAccess (DecodeState σ))
    (s : DecodeState σ) : Traced DecodeAccess (DecodeState σ) :=
  if s.size % blockSize = 0 then header s else return s

def decodeStep (blockSize : ℕ) (header round : DecodeState σ → Traced DecodeAccess (DecodeState σ))
    (s : DecodeState σ) : Traced DecodeAccess (DecodeState σ ⊕ DecodeState σ) :=
  if s.size = 0 then return .inr s
  else do
    access (.remainder blockSize)
    let s ← beginBlock blockSize header s
    let s ← round s
    return .inl s

/-- A decoder before its loop. -/
def start (size : ℕ) (out : WStream) (adpcm : σ) : DecodeState σ :=
  ⟨adpcm, 0, size, out.position, out.buffer⟩

/-- `Stream_EnsureCapacity`, and the loop for at most `rounds` rounds.  The result is `some none` for
`FALSE`. -/
def decode (step : DecodeState σ → Traced DecodeAccess (DecodeState σ ⊕ DecodeState σ)) (rounds : ℕ)
    (memory : Bool) (size : ℕ) (out : WStream) (adpcm : σ) :
    Traced DecodeAccess (Option (Option (DecodeState σ))) :=
  match out.ensureCapacity memory (size * 4 % 2 ^ 64) with
  | none => return some none
  | some out => do
    let result ← loop step rounds (start size out adpcm)
    return result.map some

end Loop

/-! ### IMA ADPCM -/

/-- `dsp_decode_ima_adpcm_sample`. -/
def imaSample (channel sample : ℕ) (ima : Ima) : Traced DecodeAccess Ima := do
  access (.imaStepSizeTable (ima.get channel).lastStep)
  access (.imaStepIndexTable sample)
  return ima.set channel (dspDecodeImaAdpcmSample sample (ima.get channel))

def imaHeaderChannel (src : ℕ → UInt8) (channel : ℕ) (s : DecodeState Ima) :
    Traced DecodeAccess (DecodeState Ima) := do
  let lastSample ← readSample src s.src
  let lastStep ← readByte src (s.src + 2)
  return { s with
    adpcm := s.adpcm.set channel ⟨lastSample, lastStep.toNat⟩
    src := s.src + 4
    size := sizeSub s.size 4 }

def imaHeader (channels : ℕ) (src : ℕ → UInt8) (s : DecodeState Ima) : Traced DecodeAccess
    (DecodeState Ima) := do
  let s ← imaHeaderChannel src 0 s
  if channels > 1 then imaHeaderChannel src 1 s else return s

/-- The two samples of a byte, which go to `pos` and `pos'`. -/
def imaByte (src : ℕ → UInt8) (channel pos pos' : ℕ) (s : DecodeState Ima) :
    Traced DecodeAccess (DecodeState Ima) := do
  let byte ← readByte src s.src
  let ima ← imaSample channel (byte.toNat &&& 0x0F) s.adpcm
  let buffer ← writeSample pos (ima.get channel).lastSample s.buffer
  let ima ← imaSample channel (byte.toNat >>> 4) ima
  let buffer ← writeSample pos' (ima.get channel).lastSample buffer
  return { s with
    adpcm := ima
    src := s.src + 1
    buffer := buffer }

/-- A round of the loop over `i`. -/
def imaGroupByte (src : ℕ → UInt8) (s : DecodeState Ima) (i : ℕ) : Traced DecodeAccess (DecodeState Ima) :=
  let channel := if i < 4 then 0 else 1
  let pos := s.dst + ((i &&& 3) <<< 3 + channel <<< 1)
  imaByte src channel pos (pos + 4) s

def imaRound (channels : ℕ) (src : ℕ → UInt8) (s : DecodeState Ima) : Traced DecodeAccess
    (DecodeState Ima) :=
  if channels > 1 then do
    let s ← (List.range 8).foldlM (imaGroupByte src) s
    return { s with
      dst := s.dst + 32
      size := sizeSub s.size 8 }
  else do
    let s ← imaByte src 0 s.dst (s.dst + 2) s
    return { s with
      dst := s.dst + 4
      size := sizeSub s.size 1 }

def freerdpDspDecodeImaAdpcm (rounds : ℕ) (memory : Bool) (channels nBlockAlign : ℕ)
    (src : ℕ → UInt8) (size : ℕ)
    (out : WStream) (ima : Ima) : Traced DecodeAccess (Option (Option (DecodeState Ima))) :=
  decode (decodeStep nBlockAlign (imaHeader channels src) (imaRound channels src)) rounds memory
    size out ima

/-! ### MS ADPCM -/

/-- An `INT32` that wraps around. -/
def wrap (x : ℤ) : ℤ := x.bmod (2 ^ 32)

/-- The new state of a channel in `freerdp_dsp_decode_ms_adpcm_sample`. -/
def msNext (sample : ℕ) (c : MsChannel) : MsChannel :=
  let nibble : ℤ := if sample &&& 0x08 ≠ 0 then (sample : ℤ) - 16 else sample
  let coeff1 := msAdpcmCoeffs1.getD c.predictor.toNat 0
  let coeff2 := msAdpcmCoeffs2.getD c.predictor.toNat 0
  let presample := (wrap (wrap (c.sample1 * coeff1) + wrap (c.sample2 * coeff2))).tdiv 256
  let presample := wrap (presample + wrap (nibble * c.delta))
  let delta := (wrap (c.delta * msAdpcmAdaptationTable.getD sample 0)).tdiv 256
  { c with
    sample2 := c.sample1
    sample1 := clampInt16 presample
    delta := if delta < 16 then 16 else delta }

/-- `freerdp_dsp_decode_ms_adpcm_sample`. -/
def msSample (channel sample : ℕ) (ms : Ms) : Traced DecodeAccess Ms := do
  access (.msAdpcmCoeffs (ms.get channel).predictor.toNat)
  access (.msAdpcmAdaptationTable sample)
  return ms.set channel (msNext sample (ms.get channel))

def msHeaderMono (src : ℕ → UInt8) (s : DecodeState Ms) : Traced DecodeAccess (DecodeState Ms) := do
  let predictor ← readByte src s.src
  let delta ← readSample src (s.src + 1)
  let sample1 ← readSample src (s.src + 3)
  let sample2 ← readSample src (s.src + 5)
  let buffer ← writeSample s.dst sample2 s.buffer
  let buffer ← writeSample (s.dst + 2) sample1 buffer
  return { s with
    adpcm := s.adpcm.set 0 ⟨predictor, delta, sample1, sample2⟩
    src := s.src + 7
    size := sizeSub s.size 7
    dst := s.dst + 4
    buffer := buffer }

/-- The header of a block of two channels. -/
def msHeaderStereo (src : ℕ → UInt8) (s : DecodeState Ms) : Traced DecodeAccess (DecodeState Ms) := do
  let predictor ← readByte src s.src
  let predictor' ← readByte src (s.src + 1)
  let delta ← readSample src (s.src + 2)
  let delta' ← readSample src (s.src + 4)
  let sample1 ← readSample src (s.src + 6)
  let sample1' ← readSample src (s.src + 8)
  let sample2 ← readSample src (s.src + 10)
  let sample2' ← readSample src (s.src + 12)
  let buffer ← writeSample s.dst sample2 s.buffer
  let buffer ← writeSample (s.dst + 2) sample2' buffer
  let buffer ← writeSample (s.dst + 4) sample1 buffer
  let buffer ← writeSample (s.dst + 6) sample1' buffer
  return { s with
    adpcm := ⟨⟨predictor, delta, sample1, sample2⟩, ⟨predictor', delta', sample1', sample2'⟩⟩
    src := s.src + 14
    size := sizeSub s.size 14
    dst := s.dst + 8
    buffer := buffer }

def msHeader (channels : ℕ) (src : ℕ → UInt8) (s : DecodeState Ms) : Traced DecodeAccess (DecodeState Ms) :=
  if channels > 1 then msHeaderStereo src s else msHeaderMono src s

/-- The two samples of a byte, of which the second one belongs to `channel`. -/
def msByte (src : ℕ → UInt8) (channel : ℕ) (s : DecodeState Ms) : Traced DecodeAccess (DecodeState Ms) := do
  let byte ← readByte src s.src
  let ms ← msSample 0 (byte.toNat >>> 4) s.adpcm
  let buffer ← writeSample s.dst (ms.get 0).sample1 s.buffer
  let ms ← msSample channel (byte.toNat &&& 0x0F) ms
  let buffer ← writeSample (s.dst + 2) (ms.get channel).sample1 buffer
  return {
    adpcm := ms
    src := s.src + 1
    size := sizeSub s.size 1
    dst := s.dst + 4
    buffer := buffer }

def msRound (channels : ℕ) (src : ℕ → UInt8) (s : DecodeState Ms) : Traced DecodeAccess (DecodeState Ms) :=
  if channels > 1 then do
    let s ← msByte src 1 s
    msByte src 1 s
  else msByte src 0 s

def freerdpDspDecodeMsAdpcm (rounds : ℕ) (memory : Bool) (channels nBlockAlign : ℕ)
    (src : ℕ → UInt8) (size : ℕ)
    (out : WStream) (ms : Ms) : Traced DecodeAccess (Option (Option (DecodeState Ms))) :=
  decode (decodeStep nBlockAlign (msHeader channels src) (msRound channels src)) rounds memory size out ms

end FreeRDP.Dsp.Decode
