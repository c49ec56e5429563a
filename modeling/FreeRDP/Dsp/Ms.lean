import FreeRDP.Dsp.Ima

/-!
# MS ADPCM

`freerdp_dsp_decode_ms_adpcm` and `freerdp_dsp_encode_ms_adpcm` of `dsp.c`.

A result is `none` when an `INT32` overflows, when a table or the input is read behind its end, and when
there is a division by zero.  The encoder also returns what it has reconstructed, in the order of its
input, and the contexts that it goes through.  The output streams are long enough.
-/

namespace FreeRDP.Dsp

/-! ### Tables -/

def msAdpcmAdaptationTable : List ℤ :=
  [230, 230, 230, 230, 307, 409, 512, 614, 768, 614, 512, 409, 307, 230, 230, 230]

def msAdpcmCoeffs1 : List ℤ := [256, 512, 0, 192, 240, 460, 392]

def msAdpcmCoeffs2 : List ℤ := [0, -256, 0, 64, 0, -208, -232]

/-! ### State -/

structure MsChannel where
  predictor : UInt8
  delta : ℤ
  sample1 : ℤ
  sample2 : ℤ
deriving DecidableEq, Repr

/-- `ms` of `ADPCM`. -/
structure Ms where
  channel0 : MsChannel
  channel1 : MsChannel
deriving DecidableEq, Repr

/-- A context whose memory is zero. -/
def Ms.zero : Ms := ⟨⟨0, 0, 0, 0⟩, ⟨0, 0, 0, 0⟩⟩

def Ms.get (channel : ℕ) (ms : Ms) : MsChannel := if channel = 0 then ms.channel0 else ms.channel1

def Ms.set (channel : ℕ) (c : MsChannel) (ms : Ms) : Ms :=
  if channel = 0 then { ms with channel0 := c } else { ms with channel1 := c }

/-- An `INT32`, if it does not overflow. -/
def int32 (x : ℤ) : Option ℤ := if -2 ^ 31 ≤ x ∧ x < 2 ^ 31 then some x else none

/-- The prediction of a sample, with which both directions begin. -/
def MsChannel.presample (c : MsChannel) : Option ℤ := do
  let coeff1 ← msAdpcmCoeffs1[c.predictor.toNat]?
  let coeff2 ← msAdpcmCoeffs2[c.predictor.toNat]?
  let x ← int32 (c.sample1 * coeff1)
  let y ← int32 (c.sample2 * coeff2)
  let sum ← int32 (x + y)
  return sum.tdiv 256

/-- The new state of a channel, with which both directions end: `index` is the place in the table. -/
def MsChannel.advance (presample : ℤ) (index : ℕ) (c : MsChannel) : Option MsChannel := do
  let factor ← msAdpcmAdaptationTable[index]?
  let delta ← int32 (c.delta * factor)
  let delta := delta.tdiv 256
  return { c with
    sample2 := c.sample1
    sample1 := clampInt16 presample
    delta := if delta < 16 then 16 else delta }

/-! ### Decoding -/

/-- `freerdp_dsp_decode_ms_adpcm_sample`.  The result is the new `sample1`. -/
def freerdpDspDecodeMsAdpcmSample (sample : ℕ) (c : MsChannel) : Option MsChannel := do
  let nibble : ℤ := if sample &&& 0x08 ≠ 0 then (sample : ℤ) - 16 else sample
  let presample ← c.presample
  let product ← int32 (nibble * c.delta)
  let presample ← int32 (presample + product)
  c.advance presample sample

/-- The header of a block: the context, what is left of the input, and the samples. -/
def msReadHeader (channels : ℕ) (src : List UInt8) (ms : Ms) : Option (Ms × List UInt8 × List ℤ) :=
  if channels > 1 then
    match src with
    | p :: q :: d0 :: d1 :: e0 :: e1 :: x0 :: x1 :: y0 :: y1 :: z0 :: z1 :: w0 :: w1 :: src =>
      let channel0 : MsChannel := ⟨p, readInt16 d0 d1, readInt16 x0 x1, readInt16 z0 z1⟩
      let channel1 : MsChannel := ⟨q, readInt16 e0 e1, readInt16 y0 y1, readInt16 w0 w1⟩
      some (⟨channel0, channel1⟩, src,
        [channel0.sample2, channel1.sample2, channel0.sample1, channel1.sample1])
    | _ => none
  else
    match src with
    | p :: d0 :: d1 :: x0 :: x1 :: z0 :: z1 :: src =>
      let channel0 : MsChannel := ⟨p, readInt16 d0 d1, readInt16 x0 x1, readInt16 z0 z1⟩
      some ({ ms with channel0 := channel0 }, src, [channel0.sample2, channel0.sample1])
    | _ => none

def msBeginBlock (channels blockSize : ℕ) (src : List UInt8) (ms : Ms) :
    Option (Ms × List UInt8 × List ℤ) :=
  if src.length % blockSize = 0 then msReadHeader channels src ms else some (ms, src, [])

/-- The two samples of a byte, of which the second one belongs to `channel`. -/
def msDecodeByte (channel : ℕ) (byte : UInt8) (ms : Ms) : Option (Ms × List ℤ) := do
  let c ← freerdpDspDecodeMsAdpcmSample (byte.toNat >>> 4) ms.channel0
  let ms := { ms with channel0 := c }
  let c' ← freerdpDspDecodeMsAdpcmSample (byte.toNat &&& 0x0F) (ms.get channel)
  return (ms.set channel c', [c.sample1, c'.sample1])

/-- One round of the decoder, without the header. -/
def msDecodeRound (channels : ℕ) (src : List UInt8) (ms : Ms) : Option (Ms × List UInt8 × List ℤ) :=
  if channels > 1 then
    match src with
    | byte :: byte' :: src => do
      let (ms, samples) ← msDecodeByte 1 byte ms
      let (ms, samples') ← msDecodeByte 1 byte' ms
      return (ms, src, samples ++ samples')
    | _ => none
  else
    match src with
    | byte :: src => do
      let (ms, samples) ← msDecodeByte 0 byte ms
      return (ms, src, samples)
    | _ => none

/-- The loop of `freerdp_dsp_decode_ms_adpcm`: the output and the context.  Each round reads at least one
byte. -/
def msDecodeLoop (channels blockSize : ℕ) : ℕ → List UInt8 → Ms → Option (List UInt8 × Ms)
  | 0, _, ms => some ([], ms)
  | rounds + 1, src, ms =>
    if src.length = 0 then some ([], ms)
    else do
      let (ms, src, samples) ← msBeginBlock channels blockSize src ms
      let (ms, src, samples') ← msDecodeRound channels src ms
      let (out, ms) ← msDecodeLoop channels blockSize rounds src ms
      return ((samples ++ samples').flatMap writeInt16 ++ out, ms)

def freerdpDspDecodeMsAdpcm (channels nBlockAlign : ℕ) (src : List UInt8) (ms : Ms) :
    Option (List UInt8 × Ms) :=
  msDecodeLoop channels nBlockAlign src.length src ms

/-! ### Encoding -/

/-- The `errordelta` of a residual. -/
def msErrordelta (diff delta : ℤ) : Option ℤ := do
  let errordelta ← (if delta = 0 then none else int32 (diff.tdiv delta))
  let errordelta ← int32 (if diff.tmod delta > delta.tdiv 2 then errordelta + 1 else errordelta)
  return if errordelta > 7 then 7 else if errordelta < -8 then -8 else errordelta

def freerdpDspEncodeMsAdpcmSample (sample : ℤ) (c : MsChannel) : Option (ℕ × MsChannel) := do
  let presample ← c.presample
  let diff ← int32 (sample - presample)
  let errordelta ← msErrordelta diff c.delta
  let product ← int32 (c.delta * errordelta)
  let presample ← int32 (presample + product)
  -- `((BYTE)errordelta) & 0x0F`
  let code := (errordelta % 2 ^ 8).toNat &&& 0x0F
  let c ← c.advance presample code
  return (code, c)

/-- The header of a block: its bytes, the context, what is left of the input, and the samples. -/
def msHeader (channels : ℕ) (src : List UInt8) (ms : Ms) : Option (List UInt8 × Ms × List UInt8 × List ℤ) :=
  if channels > 1 then
    match src with
    | z0 :: z1 :: w0 :: w1 :: x0 :: x1 :: y0 :: y1 :: src =>
      let channel0 := { ms.channel0 with sample1 := readInt16 x0 x1, sample2 := readInt16 z0 z1 }
      let channel1 := { ms.channel1 with sample1 := readInt16 y0 y1, sample2 := readInt16 w0 w1 }
      some ([channel0.predictor, channel1.predictor] ++ writeInt16 channel0.delta ++
          writeInt16 channel1.delta ++ writeInt16 channel0.sample1 ++ writeInt16 channel1.sample1 ++
          writeInt16 channel0.sample2 ++ writeInt16 channel1.sample2,
        ⟨channel0, channel1⟩, src, [channel0.sample2, channel1.sample2, channel0.sample1, channel1.sample1])
    | _ => none
  else
    match src with
    | z0 :: z1 :: x0 :: x1 :: src =>
      let channel0 := { ms.channel0 with sample1 := readInt16 x0 x1, sample2 := readInt16 z0 z1 }
      some ([channel0.predictor] ++ writeInt16 channel0.delta ++ writeInt16 channel0.sample1 ++
          writeInt16 channel0.sample2,
        { ms with channel0 := channel0 }, src, [channel0.sample2, channel0.sample1])
    | _ => none

/-- The header, when `written` bytes have been written. -/
def msBeginHeader (channels nBlockAlign written : ℕ) (src : List UInt8) (ms : Ms) :
    Option (List UInt8 × Ms × List UInt8 × List ℤ) :=
  if written % nBlockAlign = 0 then msHeader channels src ms else some ([], ms, src, [])

/-- The byte of two samples, of which the second one belongs to `channel`. -/
def msEncodeByte (channel : ℕ) (src : List UInt8) (ms : Ms) :
    Option (UInt8 × Ms × List UInt8 × List ℤ × List Ms) :=
  match src with
  | x0 :: x1 :: y0 :: y1 :: src => do
    let (code, c) ← freerdpDspEncodeMsAdpcmSample (readInt16 x0 x1) ms.channel0
    let ms := { ms with channel0 := c }
    let (code', c') ← freerdpDspEncodeMsAdpcmSample (readInt16 y0 y1) (ms.get channel)
    let byte := UInt8.ofNat (code <<< 4 &&& 0xFF) + UInt8.ofNat code'
    return (byte, ms.set channel c', src, [c.sample1, c'.sample1], [ms, ms.set channel c'])
  | _ => none

/-- `step` of `freerdp_dsp_encode_ms_adpcm`. -/
def msStep (channels : ℕ) : ℕ := 8 + if channels > 1 then 4 else 0

/-- The loop of `freerdp_dsp_encode_ms_adpcm`, when `written` bytes have been written: the output, the
reconstruction, and the contexts.  Each round reads at least one byte. -/
def msEncodeLoop (channels nBlockAlign : ℕ) :
    ℕ → ℕ → List UInt8 → Ms → Option (List UInt8 × List ℤ × List Ms)
  | 0, _, _, _ => some ([], [], [])
  | rounds + 1, written, src, ms =>
    if src.length < msStep channels then some ([], [], [])
    else do
      let (header, ms, src, samples) ← msBeginHeader channels nBlockAlign written src ms
      let (byte, ms', src, samples', states) ← msEncodeByte (if channels > 1 then 1 else 0) src ms
      let bytes := header ++ [byte]
      let (out, more, states') ← msEncodeLoop channels nBlockAlign rounds (written + bytes.length) src ms'
      return (bytes ++ out, samples ++ samples' ++ more, ms :: states ++ states')

/-- `freerdp_dsp_encode_ms_adpcm`: the output, the reconstruction, and the contexts. -/
def freerdpDspEncodeMsAdpcm (channels nBlockAlign : ℕ) (src : List UInt8) (ms : Ms) :
    Option (List UInt8 × List ℤ × List Ms) := do
  let raise (c : MsChannel) : MsChannel := if c.delta < 16 then { c with delta := 16 } else c
  let ms : Ms := ⟨raise ms.channel0, raise ms.channel1⟩
  let (out, samples, states) ← msEncodeLoop channels nBlockAlign src.length 0 src ms
  return (out, samples, ms :: states)

end FreeRDP.Dsp
