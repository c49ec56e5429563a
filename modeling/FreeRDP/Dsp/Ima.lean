import Mathlib.Data.Int.Bitwise

/-!
# Samples

The `INT16` samples of `dsp.c` of `libfreerdp/codec`, and their bytes.
-/

namespace FreeRDP.Dsp

def readInt16 (lo hi : UInt8) : ℤ := ((lo.toNat ||| hi.toNat <<< 8 : ℕ) : ℤ).bmod (2 ^ 16)

def writeInt16 (x : ℤ) : List UInt8 :=
  [UInt8.ofNat (x % 2 ^ 8).toNat, UInt8.ofNat (x / 2 ^ 8 % 2 ^ 8).toNat]

def readInt16s : List UInt8 → List ℤ
  | lo :: hi :: src => readInt16 lo hi :: readInt16s src
  | _ => []

/-- A value that is clamped to `INT16`. -/
def clampInt16 (x : ℤ) : ℤ := if x < -32768 then -32768 else if x > 32767 then 32767 else x

def IsInt16 (x : ℤ) : Prop := -2 ^ 15 ≤ x ∧ x < 2 ^ 15

theorem isInt16_clampInt16 (x : ℤ) : IsInt16 (clampInt16 x) := by
  unfold IsInt16 clampInt16
  split_ifs <;> omega

theorem or_shiftLeft (lo hi : UInt8) : lo.toNat ||| hi.toNat <<< 8 = lo.toNat + hi.toNat * 2 ^ 8 := by
  rw [Nat.lor_comm, ← Nat.shiftLeft_add_eq_or_of_lt lo.toNat_lt, Nat.shiftLeft_eq]
  exact Nat.add_comm _ _

theorem isInt16_readInt16 (lo hi : UInt8) : IsInt16 (readInt16 lo hi) := by
  have hle := Int.le_bmod (x := ((lo.toNat ||| hi.toNat <<< 8 : ℕ) : ℤ)) (m := 2 ^ 16) (Nat.two_pow_pos 16)
  have hlt := Int.bmod_lt (x := ((lo.toNat ||| hi.toNat <<< 8 : ℕ) : ℤ)) (m := 2 ^ 16) (Nat.two_pow_pos 16)
  unfold IsInt16 readInt16
  omega

theorem toNat_lowByte (x : ℤ) : ((UInt8.ofNat (x % 2 ^ 8).toNat).toNat : ℤ) = x % 2 ^ 8 := by
  rw [UInt8.toNat_ofNat', Nat.mod_eq_of_lt (by omega)]
  omega

theorem bmod_of_isInt16 {x : ℤ} (h : IsInt16 x) : x.bmod (2 ^ 16) = x := by
  unfold IsInt16 at h
  exact Int.bmod_eq_of_le (by omega) (by omega)

theorem readInt16_eq {x : ℤ} {lo hi : UInt8} (h : IsInt16 x) (hlo : (lo.toNat : ℤ) = x % 2 ^ 8)
    (hhi : (hi.toNat : ℤ) = x / 2 ^ 8 % 2 ^ 8) : readInt16 lo hi = x := by
  have hsum : ((lo.toNat + hi.toNat * 2 ^ 8 : ℕ) : ℤ) = x % (2 ^ 16 : ℕ) := by omega
  unfold readInt16
  rw [or_shiftLeft, hsum, Int.emod_bmod, bmod_of_isInt16 h]

theorem readInt16_write {x : ℤ} (h : IsInt16 x) :
    readInt16 (UInt8.ofNat (x % 2 ^ 8).toNat) (UInt8.ofNat (x / 2 ^ 8 % 2 ^ 8).toNat) = x :=
  readInt16_eq h (toNat_lowByte x) (toNat_lowByte (x / 2 ^ 8))

theorem length_writeInt16 (x : ℤ) : (writeInt16 x).length = 2 := rfl

/-- When all bytes are a multiple of the block size, the places where the encoder begins a block are those
where the decoder does. -/
theorem mod_left_eq_zero_iff {b n m : ℕ} (h : b ∣ n + m) : m % b = 0 ↔ n % b = 0 := by
  rw [← Nat.dvd_iff_mod_eq_zero, ← Nat.dvd_iff_mod_eq_zero]
  exact ⟨fun hm => (Nat.dvd_add_left hm).mp h, fun hn => (Nat.dvd_add_right hn).mp h⟩

end FreeRDP.Dsp

/-!
## IMA ADPCM

`freerdp_dsp_decode_ima_adpcm` and `freerdp_dsp_encode_ima_adpcm` of `dsp.c`.

Both return the state of a channel after each sample, in the order in which the samples are processed: the
`last_sample` of the encoder is its reconstruction.  A result is `none` when the decoder reads behind the
end of its input.  The output streams are long enough.
-/

namespace FreeRDP.Dsp

/-! ### Tables -/

def imaStepIndexTable : List ℤ := [-1, -1, -1, -1, 2, 4, 6, 8, -1, -1, -1, -1, 2, 4, 6, 8]

def imaStepSizeTable : List ℕ :=
  [7, 8, 9, 10, 11, 12, 13, 14, 16, 17, 19, 21, 23, 25, 28, 31, 34, 37, 41, 45, 50, 55, 60, 66, 73, 80, 88,
    97, 107, 118, 130, 143, 157, 173, 190, 209, 230, 253, 279, 307, 337, 371, 408, 449, 494, 544, 598, 658,
    724, 796, 876, 963, 1060, 1166, 1282, 1411, 1552, 1707, 1878, 2066, 2272, 2499, 2749, 3024, 3327, 3660,
    4026, 4428, 4871, 5358, 5894, 6484, 7132, 7845, 8630, 9493, 10442, 11487, 12635, 13899, 15289, 16818,
    18500, 20350, 22385, 24623, 27086, 29794, 32767]

/-- `ima_stereo_encode_map`: the number of a byte, and a shift. -/
def imaStereoEncodeMap : List (ℕ × ℕ) :=
  [(0, 0), (4, 0), (0, 4), (4, 4), (1, 0), (5, 0), (1, 4), (5, 4), (2, 0), (6, 0), (2, 4), (6, 4), (3, 0),
    (7, 0), (3, 4), (7, 4)]

/-! ### State -/

/-- The `last_sample` and the `last_step` of a channel. -/
structure ImaChannel where
  lastSample : ℤ
  lastStep : ℤ
deriving DecidableEq, Repr

/-- `ima` of `ADPCM`. -/
structure Ima where
  channel0 : ImaChannel
  channel1 : ImaChannel
deriving DecidableEq, Repr

/-- A context whose memory is zero. -/
def Ima.zero : Ima := ⟨⟨0, 0⟩, ⟨0, 0⟩⟩

def Ima.get (channel : ℕ) (ima : Ima) : ImaChannel := if channel = 0 then ima.channel0 else ima.channel1

def Ima.set (channel : ℕ) (c : ImaChannel) (ima : Ima) : Ima :=
  if channel = 0 then { ima with channel0 := c } else { ima with channel1 := c }

def ImaChannel.stepSize (c : ImaChannel) : ℕ := imaStepSizeTable.getD c.lastStep.toNat 0

/-- The end of `dsp_decode_ima_adpcm_sample` and of `dsp_encode_ima_adpcm_sample`, which is the same. -/
def ImaChannel.advance (d : ℤ) (code : ℕ) (c : ImaChannel) : ImaChannel where
  lastSample := clampInt16 d
  lastStep :=
    let lastStep := c.lastStep + imaStepIndexTable.getD code 0
    if lastStep < 0 then 0 else if lastStep > 88 then 88 else lastStep

/-! ### Decoding -/

/-- `dsp_decode_ima_adpcm_sample`.  The result is the new `last_sample`. -/
def dspDecodeImaAdpcmSample (sample : ℕ) (c : ImaChannel) : ImaChannel :=
  let ss := c.stepSize
  let d := ss >>> 3
  let d := if sample &&& 1 ≠ 0 then d + ss >>> 2 else d
  let d := if sample &&& 2 ≠ 0 then d + ss >>> 1 else d
  let d := if sample &&& 4 ≠ 0 then d + ss else d
  let d : ℤ := if sample &&& 8 ≠ 0 then -d else d
  c.advance (d + c.lastSample) sample

def imaReadHeaderChannel : List UInt8 → Option (ImaChannel × List UInt8)
  | lo :: hi :: step :: _ :: src => some (⟨readInt16 lo hi, step.toNat⟩, src)
  | _ => none

def imaReadHeader (channels : ℕ) (src : List UInt8) (ima : Ima) : Option (Ima × List UInt8) := do
  let (channel0, src) ← imaReadHeaderChannel src
  let ima := { ima with channel0 := channel0 }
  if channels > 1 then
    let (channel1, src) ← imaReadHeaderChannel src
    return ({ ima with channel1 := channel1 }, src)
  else return (ima, src)

def imaBeginBlock (channels blockSize : ℕ) (src : List UInt8) (ima : Ima) : Option (Ima × List UInt8) :=
  if src.length % blockSize = 0 then imaReadHeader channels src ima else some (ima, src)

/-- A sample is written into the output. -/
def putInt16 (pos : ℕ) (x : ℤ) (dst : List UInt8) : List UInt8 :=
  (dst.set pos (UInt8.ofNat (x % 2 ^ 8).toNat)).set (pos + 1) (UInt8.ofNat (x / 2 ^ 8 % 2 ^ 8).toNat)

/-- The loop over the eight bytes of both channels, from the `i`-th byte on. -/
def imaDecodeGroup : ℕ → ℕ → List UInt8 → List UInt8 → Ima →
    Option (List UInt8 × List UInt8 × Ima × List ImaChannel)
  | 0, _, src, dst, ima => some (src, dst, ima, [])
  | _ + 1, _, [], _, _ => none
  | rounds + 1, i, byte :: src, dst, ima => do
    let channel := if i < 4 then 0 else 1
    let pos := (i &&& 3) <<< 3 + channel <<< 1
    let low := dspDecodeImaAdpcmSample (byte.toNat &&& 0x0F) (ima.get channel)
    let high := dspDecodeImaAdpcmSample (byte.toNat >>> 4) low
    let dst := putInt16 (pos + 4) high.lastSample (putInt16 pos low.lastSample dst)
    let (src, dst, ima, states) ← imaDecodeGroup rounds (i + 1) src dst (ima.set channel high)
    return (src, dst, ima, low :: high :: states)

/-- One round of the decoder, without the header. -/
def imaDecodeRound (channels : ℕ) (src : List UInt8) (ima : Ima) :
    Option (List UInt8 × List UInt8 × Ima × List ImaChannel) :=
  if channels > 1 then imaDecodeGroup 8 0 src (List.replicate 32 0) ima
  else
    match src with
    | [] => none
    | byte :: src =>
      let low := dspDecodeImaAdpcmSample (byte.toNat &&& 0x0F) ima.channel0
      let high := dspDecodeImaAdpcmSample (byte.toNat >>> 4) low
      some (src, writeInt16 low.lastSample ++ writeInt16 high.lastSample, { ima with channel0 := high },
        [low, high])

/-- The loop of `freerdp_dsp_decode_ima_adpcm`: the output, the context, and its states.  Each round
reads at least one byte. -/
def imaDecodeLoop (channels blockSize : ℕ) :
    ℕ → List UInt8 → Ima → Option (List UInt8 × Ima × List ImaChannel)
  | 0, _, ima => some ([], ima, [])
  | rounds + 1, src, ima =>
    if src.length = 0 then some ([], ima, [])
    else do
      let (ima, src) ← imaBeginBlock channels blockSize src ima
      let (src, dst, ima, states) ← imaDecodeRound channels src ima
      let (out, ima, more) ← imaDecodeLoop channels blockSize rounds src ima
      return (dst ++ out, ima, states ++ more)

def freerdpDspDecodeImaAdpcm (channels nBlockAlign : ℕ) (src : List UInt8) (ima : Ima) :
    Option (List UInt8 × Ima × List ImaChannel) :=
  imaDecodeLoop channels nBlockAlign src.length src ima

/-! ### Encoding -/

/-- One bit of the code, and what is left of the residual. -/
def imaEncodeBit (bit ss : ℕ) (p : ℕ × ℤ) : ℕ × ℤ := if p.2 ≥ ss then (p.1 ||| bit, p.2 - ss) else p

def dspEncodeImaAdpcmSample (sample : ℤ) (c : ImaChannel) : ℕ × ImaChannel :=
  let ss := c.stepSize
  let d := sample - c.lastSample
  let diff := ss >>> 3
  let p := if d < 0 then (8, -d) else (0, d)
  let p := imaEncodeBit 4 ss p
  let ss := ss >>> 1
  let p := imaEncodeBit 2 ss p
  let ss := ss >>> 1
  let p := imaEncodeBit 1 ss p
  let diff := if d < 0 then d + p.2 - diff else d - p.2 + diff
  (p.1, c.advance (diff + c.lastSample) p.1)

def imaHeaderChannel (c : ImaChannel) : List UInt8 :=
  writeInt16 c.lastSample ++ [UInt8.ofNat (c.lastStep % 2 ^ 8).toNat, 0]

def imaHeader (channels : ℕ) (ima : Ima) : List UInt8 :=
  imaHeaderChannel ima.channel0 ++ if channels > 1 then imaHeaderChannel ima.channel1 else []

/-- The loop over sixteen samples of both channels, from the `i`-th sample on. -/
def imaEncodeGroup : List (ℕ × ℕ) → ℕ → List ℤ → List ℕ → Ima → List ℕ × Ima × List ImaChannel
  | (byteNum, byteShift) :: map, i, sample :: samples, dst, ima =>
    let (encoded, c) := dspEncodeImaAdpcmSample sample (ima.get (i % 2))
    let dst := dst.modify byteNum (· ||| encoded <<< byteShift)
    let (dst, ima, states) := imaEncodeGroup map (i + 1) samples dst (ima.set (i % 2) c)
    (dst, ima, c :: states)
  | _, _, _, dst, ima => (dst, ima, [])

/-- The two samples of one byte of a single channel. -/
def imaEncodePair : List ℤ → Ima → List ℕ × Ima × List ImaChannel
  | sample :: sample' :: _, ima =>
    let (encoded, c) := dspEncodeImaAdpcmSample sample ima.channel0
    let (encoded', c') := dspEncodeImaAdpcmSample sample' c
    ([encoded ||| encoded' <<< 4], { ima with channel0 := c' }, [c, c'])
  | _, ima => ([], ima, [])

/-- The number of bytes that one round of the encoder reads. -/
def imaAlign (channels : ℕ) : ℕ := if channels > 1 then 32 else 4

/-- One round of the encoder, without the header. -/
def imaEncodeRound (channels : ℕ) (src : List UInt8) (ima : Ima) : List ℕ × Ima × List ImaChannel :=
  let samples := readInt16s (src.take (imaAlign channels))
  if channels > 1 then imaEncodeGroup imaStereoEncodeMap 0 samples (List.replicate 8 0) ima
  else imaEncodePair samples ima

/-- The loop of `freerdp_dsp_encode_ima_adpcm`, when `written` bytes have been written: the output, the
context, and the states of the channels.  Each round reads at least one byte. -/
def imaEncodeLoop (channels nBlockAlign : ℕ) :
    ℕ → ℕ → List UInt8 → Ima → List UInt8 × Ima × List ImaChannel
  | 0, _, _, ima => ([], ima, [])
  | rounds + 1, written, src, ima =>
    if src.length ≤ imaAlign channels then ([], ima, [])
    else
      let header := if written % nBlockAlign = 0 then imaHeader channels ima else []
      let (dst, ima, states) := imaEncodeRound channels src ima
      let bytes := header ++ dst.map UInt8.ofNat
      let (out, ima, more) := imaEncodeLoop channels nBlockAlign rounds (written + bytes.length)
        (src.drop (imaAlign channels)) ima
      (bytes ++ out, ima, states ++ more)

def freerdpDspEncodeImaAdpcm (channels nBlockAlign : ℕ) (src : List UInt8) (ima : Ima) :
    List UInt8 × Ima × List ImaChannel :=
  imaEncodeLoop channels nBlockAlign src.length 0 src ima

end FreeRDP.Dsp
