import FreeRDP.Dsp.Ms
import FreeRDP.Lib.Iterate
import Mathlib.Tactic.IntervalCases
import Mathlib.Tactic.Linarith

/-!
# MS ADPCM in lock step

A large factor for the delta needs a residual that is large for it: a code that multiplies the delta by more
than one stands for a residual of at least three deltas, and a residual is a difference of two `INT16`.
Hence the delta stays an `INT16` (`exists_encodeMs`), and its field in the header is exact.

`ms_lockstep`: nothing overflows, and the decoder puts out what the encoder has reconstructed.
-/

namespace FreeRDP.Dsp

variable {c : MsChannel} {ms ms' : Ms} {sample d δ e x : ℤ} {channels b rounds n m code : ℕ}
  {src rest out : List UInt8}

theorem int32_eq (hle : -2 ^ 31 ≤ x) (hlt : x < 2 ^ 31) : int32 x = some x := if_pos ⟨hle, hlt⟩

/-- The state of a channel that is used: the first predictor, and a delta for which the field in the
header is exact. -/
structure MsChannel.Valid (c : MsChannel) : Prop where
  predictor : c.predictor = 0
  le_delta : 16 ≤ c.delta
  delta_le : c.delta ≤ 32767
  sample1 : IsInt16 c.sample1
  sample2 : IsInt16 c.sample2

/-- The states of both channels are valid. -/
structure Ms.Valid (ms : Ms) : Prop where
  channel0 : ms.channel0.Valid
  channel1 : ms.channel1.Valid

/-! ### Samples -/

/-- The first predictor repeats the last sample. -/
theorem MsChannel.Valid.presample (hc : c.Valid) : c.presample = some c.sample1 := by
  have hsample := hc.sample1
  unfold IsInt16 at hsample
  have h256 : (c.sample1 * 256).tdiv 256 = c.sample1 := Int.mul_tdiv_cancel _ (by decide)
  have hx : int32 (c.sample1 * 256) = some (c.sample1 * 256) := int32_eq (by omega) (by omega)
  have hy : int32 (c.sample2 * 0) = some 0 := by
    rw [mul_zero]
    rfl
  have hsum : int32 (c.sample1 * 256 + 0) = some (c.sample1 * 256) := by rw [add_zero, hx]
  simp only [MsChannel.presample, hc.predictor, msAdpcmCoeffs1, msAdpcmCoeffs2, UInt8.toNat_zero,
    List.getElem?_cons_zero, Option.bind_eq_bind, Option.bind_some, hx, hy, hsum, h256, Option.pure_def]

/-- A residual that is not negative is rounded to the next code. -/
theorem msErrordelta_of_nonneg (hδ : 16 ≤ δ) (hd : 0 ≤ d) (hd' : d ≤ 65535) :
    ∃ e, msErrordelta d δ = some e ∧ 0 ≤ e ∧ e ≤ 7 ∧ (0 < e → δ * (e - 1) ≤ 65535) := by
  have hsum := Int.mul_tdiv_add_tmod d δ
  have hr := Int.tmod_nonneg δ hd
  have hq := Int.tdiv_nonneg hd (show 0 ≤ δ by omega)
  have hqle : d.tdiv δ ≤ δ * d.tdiv δ := le_mul_of_one_le_left hq (by omega)
  have hq32 := int32_eq (x := d.tdiv δ) (by omega) (by omega)
  unfold msErrordelta
  rw [if_neg (by omega), hq32, Option.bind_eq_bind, Option.bind_some]
  obtain ⟨v, hv, hle, hge⟩ : ∃ v, (if d.tmod δ > δ.tdiv 2 then d.tdiv δ + 1 else d.tdiv δ) = v ∧ 0 ≤ v ∧
      v - 1 ≤ d.tdiv δ := by
    split
    · exact ⟨_, rfl, by omega, by omega⟩
    · exact ⟨_, rfl, by omega, by omega⟩
  rw [hv, int32_eq (by omega) (by omega), Option.bind_some]
  refine ⟨_, rfl, ?_, ?_, fun h => ?_⟩
  · split_ifs <;> omega
  · split_ifs <;> omega
  · have hmul : δ * ((if v > 7 then 7 else if v < -8 then -8 else v) - 1) ≤ δ * d.tdiv δ := by
      refine mul_le_mul_of_nonneg_left ?_ (by omega)
      split_ifs <;> omega
    omega

/-- A negative residual is cut off. -/
theorem msErrordelta_of_neg (hδ : 16 ≤ δ) (hd : d < 0) (hd' : -65535 ≤ d) :
    ∃ e, msErrordelta d δ = some e ∧ -8 ≤ e ∧ e ≤ 0 ∧ -65535 ≤ δ * e := by
  have hsum := Int.mul_tdiv_add_tmod d δ
  have hr : d.tmod δ ≤ 0 := by
    have hneg := Int.tmod_nonneg δ (show 0 ≤ -d by omega)
    rw [Int.neg_tmod] at hneg
    omega
  have hq : d.tdiv δ ≤ 0 := by
    have hneg := Int.tdiv_nonneg (show 0 ≤ -d by omega) (show 0 ≤ δ by omega)
    rw [Int.neg_tdiv] at hneg
    omega
  have hqle : δ * d.tdiv δ ≤ d.tdiv δ := mul_le_of_one_le_left hq (by omega)
  have hhalf := Int.tdiv_nonneg (show 0 ≤ δ by omega) (show (0 : ℤ) ≤ 2 by decide)
  have hq32 := int32_eq (x := d.tdiv δ) (by omega) (by omega)
  unfold msErrordelta
  rw [if_neg (by omega), hq32, Option.bind_eq_bind, Option.bind_some, if_neg (by omega), hq32,
    Option.bind_some]
  refine ⟨_, rfl, ?_, ?_, ?_⟩
  · split_ifs <;> omega
  · split_ifs <;> omega
  · have hmul : δ * d.tdiv δ ≤ δ *
        (if d.tdiv δ > 7 then 7 else if d.tdiv δ < -8 then -8 else d.tdiv δ) := by
      refine mul_le_mul_of_nonneg_left ?_ (by omega)
      split_ifs <;> omega
    omega

/-- The code and the residual: many deltas are not more than two `INT16` can differ. -/
theorem msErrordelta_spec (hδ : 16 ≤ δ) (hd : -65535 ≤ d) (hd' : d ≤ 65535) :
    ∃ e, msErrordelta d δ = some e ∧ -8 ≤ e ∧ e ≤ 7 ∧ (0 < e → δ * (e - 1) ≤ 65535) ∧
      (e < 0 → -65535 ≤ δ * e) := by
  by_cases hsign : 0 ≤ d
  · obtain ⟨e, he, hnonneg, hle, hmul⟩ := msErrordelta_of_nonneg hδ hsign hd'
    exact ⟨e, he, by omega, hle, hmul, fun hneg => by omega⟩
  · obtain ⟨e, he, hge, hnonpos, hmul⟩ := msErrordelta_of_neg hδ (not_le.mp hsign) hd
    exact ⟨e, he, hge, by omega, fun hpos => by omega, fun _ => hmul⟩

/-- The new delta is inside of its bounds, whatever the code is. -/
theorem MsChannel.Valid.advance (hc : c.Valid) (x : ℤ) (hle : -8 ≤ e) (hle' : e ≤ 7)
    (hpos : 0 < e → c.delta * (e - 1) ≤ 65535) (hneg : e < 0 → -65535 ≤ c.delta * e) :
    ∃ c', c.advance x ((e % 2 ^ 8).toNat &&& 0x0F) = some c' ∧ c'.Valid := by
  have hδ := hc.le_delta
  have hδ' := hc.delta_le
  obtain ⟨factor, hfactor, hfactor', hfactor'', hbound⟩ :
      ∃ factor, msAdpcmAdaptationTable[(e % 2 ^ 8).toNat &&& 0x0F]? = some factor ∧ 0 ≤ factor ∧
        factor ≤ 768 ∧ c.delta * factor ≤ 32767 * 256 := by
    interval_cases e <;> exact ⟨_, rfl, by decide, by decide, by omega⟩
  have hmul : 0 ≤ c.delta * factor := mul_nonneg (by omega) hfactor'
  have h32 := int32_eq (x := c.delta * factor) (by omega) (by omega)
  unfold MsChannel.advance
  rw [hfactor, Option.bind_eq_bind, Option.bind_some, h32, Option.bind_some]
  refine ⟨_, rfl, ⟨hc.predictor, ?_, ?_, isInt16_clampInt16 x, hc.sample1⟩⟩
  · dsimp only
    split <;> omega
  · dsimp only
    split
    · decide
    · rw [Int.tdiv_eq_ediv_of_nonneg hmul]
      omega

/-- The decoder gets the `errordelta` back from the code. -/
theorem nibble_code (hle : -8 ≤ e) (hle' : e ≤ 7) :
    (if ((e % 2 ^ 8).toNat &&& 0x0F) &&& 0x08 ≠ 0 then (((e % 2 ^ 8).toNat &&& 0x0F : ℕ) : ℤ) - 16
      else ((e % 2 ^ 8).toNat &&& 0x0F : ℕ)) = e := by
  interval_cases e <;> decide

/-- What is encoded does not overflow, and is decoded to the same state. -/
theorem exists_encodeMs (hc : c.Valid) (hsample : IsInt16 sample) :
    ∃ code c', freerdpDspEncodeMsAdpcmSample sample c = some (code, c') ∧
      freerdpDspDecodeMsAdpcmSample code c = some c' ∧ code < 2 ^ 4 ∧ c'.Valid := by
  have hlast := hc.sample1
  unfold IsInt16 at hsample hlast
  have hδ := hc.le_delta
  have hδ' := hc.delta_le
  obtain ⟨e, he, hle, hle', hpos, hneg⟩ :=
    msErrordelta_spec (d := sample - c.sample1) hδ (by omega) (by omega)
  have hmul : -8 * 32767 ≤ c.delta * e ∧ c.delta * e ≤ 7 * 32767 := by
    interval_cases e <;> omega
  have hdiff : int32 (sample - c.sample1) = some (sample - c.sample1) := int32_eq (by omega) (by omega)
  have hproduct : int32 (c.delta * e) = some (c.delta * e) := int32_eq (by omega) (by omega)
  have hsum : int32 (c.sample1 + c.delta * e) = some (c.sample1 + c.delta * e) :=
    int32_eq (by omega) (by omega)
  obtain ⟨c', hadvance, hvalid⟩ := hc.advance (c.sample1 + c.delta * e) hle hle' hpos hneg
  refine ⟨(e % 2 ^ 8).toNat &&& 0x0F, c', ?_, ?_, ?_, hvalid⟩
  · simp only [freerdpDspEncodeMsAdpcmSample, hc.presample, Option.bind_eq_bind, Option.bind_some,
      hdiff, he, hproduct, hsum, hadvance, Option.pure_def]
  · unfold freerdpDspDecodeMsAdpcmSample
    dsimp only
    rw [nibble_code hle hle', mul_comm e, hc.presample, hproduct]
    simp only [Option.bind_eq_bind, Option.bind_some, hsum, hadvance]
  · exact Nat.and_lt_two_pow _ (by decide)

/-! ### Bytes and headers -/

/-- The states of the channels that are used are the same. -/
structure Ms.Agrees (channels : ℕ) (ms ms' : Ms) : Prop where
  channel0 : ms.channel0 = ms'.channel0
  channel1 : channels > 1 → ms.channel1 = ms'.channel1

theorem nibbles_add (hn : n < 2 ^ 4) (hm : m < 2 ^ 4) :
    (UInt8.ofNat (n <<< 4 &&& 0xFF) + UInt8.ofNat m).toNat >>> 4 = n ∧
      (UInt8.ofNat (n <<< 4 &&& 0xFF) + UInt8.ofNat m).toNat &&& 0x0F = m := by
  have hmask (k : ℕ) : k &&& 0x0F = k % 2 ^ 4 := Nat.and_two_pow_sub_one_eq_mod k 4
  have hmask' (k : ℕ) : k &&& 0xFF = k % 2 ^ 8 := Nat.and_two_pow_sub_one_eq_mod k 8
  rw [hmask, hmask', UInt8.toNat_add, UInt8.toNat_ofNat', UInt8.toNat_ofNat', Nat.shiftLeft_eq,
    Nat.shiftRight_eq_div_pow]
  omega

theorem msEncodeByte_spec (hms : ms.Valid) (hsrc : 4 ≤ src.length) (channels : ℕ) :
    ∃ byte ms' samples states, msEncodeByte (if channels > 1 then 1 else 0) src ms =
        some (byte, ms', src.drop 4, samples, states) ∧ ms'.Valid ∧
      ∀ dec, ms.Agrees channels dec → ∃ dec', msDecodeByte (if channels > 1 then 1 else 0) byte dec =
        some (dec', samples) ∧ ms'.Agrees channels dec' := by
  match src, hsrc with
  | x0 :: x1 :: y0 :: y1 :: src, _ =>
    obtain ⟨code, c, hcode, hdecode, hlt, hc⟩ := exists_encodeMs hms.channel0 (isInt16_readInt16 x0 x1)
    by_cases hstereo : channels > 1
    · obtain ⟨code', c', hcode', hdecode', hlt', hc'⟩ :=
        exists_encodeMs hms.channel1 (isInt16_readInt16 y0 y1)
      obtain ⟨hhigh, hlow⟩ := nibbles_add hlt hlt'
      rw [if_pos hstereo]
      simp only [msEncodeByte, hcode, Ms.get, Ms.set, hcode', one_ne_zero, ↓reduceIte, Option.bind_eq_bind,
        Option.bind_some, Option.pure_def]
      refine ⟨_, _, _, _, rfl, ⟨hc, hc'⟩, fun dec hdec => ?_⟩
      simp only [msDecodeByte, hhigh, ← hdec.channel0, hdecode, Ms.get, Ms.set, hlow,
        ← hdec.channel1 hstereo, hdecode', one_ne_zero, ↓reduceIte, Option.bind_eq_bind, Option.bind_some,
        Option.pure_def]
      exact ⟨_, rfl, ⟨rfl, fun _ => rfl⟩⟩
    · obtain ⟨code', c', hcode', hdecode', hlt', hc'⟩ := exists_encodeMs hc (isInt16_readInt16 y0 y1)
      obtain ⟨hhigh, hlow⟩ := nibbles_add hlt hlt'
      rw [if_neg hstereo]
      simp only [msEncodeByte, hcode, Ms.get, Ms.set, hcode', ↓reduceIte, Option.bind_eq_bind,
        Option.bind_some, Option.pure_def]
      refine ⟨_, _, _, _, rfl, ⟨hc', hms.channel1⟩, fun dec hdec => ?_⟩
      simp only [msDecodeByte, hhigh, ← hdec.channel0, hdecode, Ms.get, Ms.set, hlow, hdecode',
        ↓reduceIte, Option.bind_eq_bind, Option.bind_some, Option.pure_def]
      exact ⟨_, rfl, ⟨rfl, fun h => absurd h hstereo⟩⟩

/-- A header does not change the predictor and the delta. -/
theorem MsChannel.Valid.header (hc : c.Valid) (hx : IsInt16 x) (hsample : IsInt16 sample) :
    MsChannel.Valid { c with sample1 := x, sample2 := sample } :=
  ⟨hc.predictor, hc.le_delta, hc.delta_le, hx, hsample⟩

/-- The header is read back, whatever the decoder has got before. -/
theorem msHeader_spec (hms : ms.Valid) (hsrc : msStep channels ≤ src.length) :
    ∃ header ms' src' samples, msHeader channels src ms = some (header, ms', src', samples) ∧ ms'.Valid ∧
      4 ≤ src'.length ∧ (channels > 1 → 2 ∣ header.length) ∧ ∀ dec rest, ∃ dec',
        msReadHeader channels (header ++ rest) dec = some (dec', rest, samples) ∧
          ms'.Agrees channels dec' := by
  have hdelta0 := readInt16_write (x := ms.channel0.delta)
    ⟨by have := hms.channel0.le_delta; omega, by have := hms.channel0.delta_le; omega⟩
  have hdelta1 := readInt16_write (x := ms.channel1.delta)
    ⟨by have := hms.channel1.le_delta; omega, by have := hms.channel1.delta_le; omega⟩
  unfold msStep at hsrc
  unfold msHeader msReadHeader
  by_cases hstereo : channels > 1
  · simp only [if_pos hstereo] at hsrc ⊢
    match src, hsrc with
    | z0 :: z1 :: w0 :: w1 :: x0 :: x1 :: y0 :: y1 :: src, hsrc =>
      refine ⟨_, _, _, _, rfl, ⟨?_, ?_⟩, ?_, fun _ => ⟨7, rfl⟩, fun dec rest => ?_⟩
      · exact hms.channel0.header (isInt16_readInt16 x0 x1) (isInt16_readInt16 z0 z1)
      · exact hms.channel1.header (isInt16_readInt16 y0 y1) (isInt16_readInt16 w0 w1)
      · simp only [List.length_cons] at hsrc
        omega
      · simp only [writeInt16, List.cons_append, List.nil_append, hdelta0, hdelta1,
          readInt16_write (isInt16_readInt16 _ _)]
        exact ⟨_, rfl, ⟨rfl, fun _ => rfl⟩⟩
  · simp only [if_neg hstereo] at hsrc ⊢
    match src, hsrc with
    | z0 :: z1 :: x0 :: x1 :: src, hsrc =>
      refine ⟨_, _, _, _, rfl, ⟨?_, hms.channel1⟩, ?_, fun h => absurd h hstereo, fun dec rest => ?_⟩
      · exact hms.channel0.header (isInt16_readInt16 x0 x1) (isInt16_readInt16 z0 z1)
      · simp only [List.length_cons] at hsrc
        omega
      · simp only [writeInt16, List.cons_append, List.nil_append, hdelta0,
          readInt16_write (isInt16_readInt16 _ _)]
        exact ⟨_, rfl, ⟨rfl, fun h => absurd h hstereo⟩⟩

/-! ### Runs -/

/-- One round of the encoder: the header of a block or nothing, and a byte. -/
structure MsRound (channels b n : ℕ) (ms ms' ms'' : Ms) (header : List UInt8) (byte : UInt8)
    (samples samples' : List ℤ) : Prop where
  even : channels > 1 → 2 ∣ header.length
  inside : n % b ≠ 0 → header = [] ∧ samples = [] ∧ ms' = ms
  begin_eq {dec : Ms} {rest : List UInt8} : b ∣ n + (header ++ rest).length → n % b = 0 ∨
    ms.Agrees channels dec →
    ∃ dec', msBeginBlock channels b (header ++ rest) dec = some (dec', rest, samples) ∧
      ms'.Agrees channels dec'
  byte_eq {dec : Ms} : ms'.Agrees channels dec → ∃ dec',
    msDecodeByte (if channels > 1 then 1 else 0) byte dec = some (dec', samples') ∧
      ms''.Agrees channels dec'

/-- The encoder goes on from a valid context with a round and from a valid context. -/
theorem msEncodeLoop_succ (hms : ms.Valid) (hsrc : msStep channels ≤ src.length) (b rounds n : ℕ) :
    ∃ header byte ms' ms'' src' samples samples' states,
      MsRound channels b n ms ms' ms'' header byte samples samples' ∧ ms''.Valid ∧
      msEncodeLoop channels b (rounds + 1) n src ms =
        (msEncodeLoop channels b rounds (n + header.length + 1) src' ms'').map fun r =>
          (header ++ byte :: r.1, samples ++ samples' ++ r.2.1, states ++ r.2.2) := by
  obtain ⟨header, ms', src', samples, hheader, hms', hsrc', heven, hinside, hbegin⟩ :
      ∃ header ms' src' samples, msBeginHeader channels b n src ms = some (header, ms', src', samples) ∧
        ms'.Valid ∧ 4 ≤ src'.length ∧ (channels > 1 → 2 ∣ header.length) ∧
        (n % b ≠ 0 → header = [] ∧ samples = [] ∧ ms' = ms) ∧
        ∀ dec rest, b ∣ n + (header ++ rest).length → n % b = 0 ∨ ms.Agrees channels dec →
          ∃ dec', msBeginBlock channels b (header ++ rest) dec = some (dec', rest, samples) ∧
            ms'.Agrees channels dec' := by
    unfold msBeginHeader msBeginBlock
    by_cases hn : n % b = 0
    · obtain ⟨header, ms', src', samples, hheader, hms', hsrc', heven, hread⟩ := msHeader_spec hms hsrc
      rw [if_pos hn]
      refine ⟨_, _, _, _, hheader, hms', hsrc', heven, fun h => absurd hn h, fun dec rest h _ => ?_⟩
      rw [if_pos ((mod_left_eq_zero_iff h).mpr hn)]
      exact hread dec rest
    · rw [if_neg hn]
      have hlength : 4 ≤ src.length := by
        unfold msStep at hsrc
        omega
      refine ⟨_, _, _, _, rfl, hms, hlength, fun _ => ⟨0, rfl⟩, fun _ => ⟨rfl, rfl, rfl⟩,
        fun dec rest h hor => ?_⟩
      rw [if_neg (fun hrest => hn ((mod_left_eq_zero_iff h).mp hrest))]
      exact ⟨dec, rfl, hor.resolve_left hn⟩
  obtain ⟨byte, ms'', samples', states, hbyte, hms'', hdecode⟩ :=
    msEncodeByte_spec hms' hsrc' channels
  refine ⟨header, byte, ms', ms'', src'.drop 4, samples, samples', ms' :: states,
    ⟨heven, hinside, hbegin _ _, hdecode _⟩, hms'', ?_⟩
  rw [msEncodeLoop, if_neg (by omega), hheader]
  simp only [Option.bind_eq_bind, Option.bind_some, hbyte, List.length_append, List.length_singleton,
    Option.pure_def, add_assoc]
  cases msEncodeLoop channels b rounds (n + (header.length + 1)) (src'.drop 4) ms'' with
  | none => rfl
  | some r => simp

theorem exists_msEncodeLoop (hms : ms.Valid) (channels b rounds n : ℕ) (src : List UInt8) :
    ∃ r, msEncodeLoop channels b rounds n src ms = some r := by
  induction rounds generalizing n src ms with
  | zero => exact ⟨_, rfl⟩
  | succ rounds ih =>
    by_cases hsrc : src.length < msStep channels
    · rw [msEncodeLoop, if_pos hsrc]
      exact ⟨_, rfl⟩
    · obtain ⟨header, byte, ms', ms'', src', samples, samples', states, -, hms'', hloop⟩ :=
        msEncodeLoop_succ hms (not_lt.mp hsrc) b rounds n
      obtain ⟨r, hr⟩ := ih hms'' (n + header.length + 1) src'
      rw [hloop, hr]
      exact ⟨_, rfl⟩

/-- The encoder has come to its end, or it makes a round. -/
theorem msEncodeLoop_cases {r : List UInt8 × List ℤ × List Ms}
    (hr : msEncodeLoop channels b rounds n src ms = some r) :
    r = ([], [], []) ∨ ∃ k, rounds = k + 1 ∧ msStep channels ≤ src.length := by
  cases rounds with
  | zero => exact .inl (Option.some.inj hr).symm
  | succ k =>
    by_cases hsrc : src.length < msStep channels
    · rw [msEncodeLoop, if_pos hsrc] at hr
      exact .inl (Option.some.inj hr).symm
    · exact .inr ⟨k, rfl, not_lt.mp hsrc⟩

theorem msDecodeLoop_nil (channels b rounds : ℕ) (ms : Ms) :
    msDecodeLoop channels b rounds [] ms = some ([], ms) := by
  cases rounds with
  | zero => rfl
  | succ rounds => rfl

/-- The loops for one channel, when the encoder has written `n` bytes. -/
theorem msDecode_encodeLoop_mono (hmono : ¬channels > 1) {dec : Ms} {r : List UInt8 × List ℤ × List Ms}
    (hms : ms.Valid) (hr : msEncodeLoop channels b rounds n src ms = some r) (h : b ∣ n + r.1.length)
    (hm : r.1.length ≤ m) (hdec : n % b = 0 ∨ ms.Agrees channels dec) :
    ∃ dec', msDecodeLoop channels b m r.1 dec = some (r.2.1.flatMap writeInt16, dec') := by
  induction rounds generalizing n m src ms dec r with
  | zero =>
    obtain rfl := Option.some.inj hr
    exact ⟨dec, msDecodeLoop_nil _ _ _ _⟩
  | succ rounds ih =>
    by_cases hsrc : src.length < msStep channels
    · rw [msEncodeLoop, if_pos hsrc] at hr
      obtain rfl := Option.some.inj hr
      exact ⟨dec, msDecodeLoop_nil _ _ _ _⟩
    · obtain ⟨header, byte, ms', ms'', src', samples, samples', states, hround, hms'', hloop⟩ :=
        msEncodeLoop_succ hms (not_lt.mp hsrc) b rounds n
      obtain ⟨r, hr', rfl⟩ := Option.map_eq_some_iff.mp (hloop.symm.trans hr)
      obtain ⟨dec₁, hbegin, hdec₁⟩ := hround.begin_eq h hdec
      obtain ⟨dec₂, hbyte, hdec₂⟩ := hround.byte_eq hdec₁
      simp only [List.length_append, List.length_cons] at h hm
      obtain ⟨m, rfl⟩ : ∃ k, m = k + 1 := ⟨m - 1, by omega⟩
      obtain ⟨dec', hmore⟩ := ih (m := m) hms'' hr' (by rwa [add_assoc, add_assoc, Nat.add_comm 1])
        (by omega) (.inr hdec₂)
      rw [if_neg hmono] at hbyte
      rw [msDecodeLoop, if_neg (by simp), hbegin]
      simp only [msDecodeRound, if_neg hmono, hbyte, hmore, Option.bind_eq_bind, Option.bind_some,
        Option.pure_def, List.flatMap_append]
      exact ⟨_, rfl⟩

/-- The loops for two channels: the decoder takes two bytes at once, and no block begins between them. -/
theorem msDecode_encodeLoop_stereo (hstereo : channels > 1) (hb : 2 ∣ b) {dec : Ms}
    {r : List UInt8 × List ℤ × List Ms} {size : ℕ} (hms : ms.Valid) (hn : 2 ∣ n)
    (hr : msEncodeLoop channels b rounds n src ms = some r) (h : b ∣ n + r.1.length)
    (hsize : r.1.length ≤ size) (hdec : n % b = 0 ∨ ms.Agrees channels dec) :
    ∃ dec', msDecodeLoop channels b size r.1 dec = some (r.2.1.flatMap writeInt16, dec') := by
  induction rounds using Nat.strong_induction_on generalizing n size src ms dec r with
  | _ rounds ih =>
    have heven : 2 ∣ r.1.length := (Nat.dvd_add_right hn).mp (hb.trans h)
    obtain rfl | ⟨k, rfl, hsrc⟩ := msEncodeLoop_cases hr
    · exact ⟨dec, msDecodeLoop_nil _ _ _ _⟩
    obtain ⟨header, byte, ms₁, ms₂, src', samples, samples', states, hround, hms₂, hloop⟩ :=
      msEncodeLoop_succ hms hsrc b k n
    obtain ⟨r₁, hr₁, rfl⟩ := Option.map_eq_some_iff.mp (hloop.symm.trans hr)
    have hheader := hround.even hstereo
    simp only [List.length_append, List.length_cons] at heven
    obtain rfl | ⟨k, rfl, hsrc'⟩ := msEncodeLoop_cases hr₁
    · rw [List.length_nil] at heven
      omega
    obtain ⟨header', byte', ms₃, ms₄, src'', none, samples'', states', hround', hms₄, hloop'⟩ :=
      msEncodeLoop_succ hms₂ hsrc' b k (n + header.length + 1)
    obtain ⟨r₂, hr₂, rfl⟩ := Option.map_eq_some_iff.mp (hloop'.symm.trans hr₁)
    -- the second round is at an odd place
    have hodd : (n + header.length + 1) % b ≠ 0 := by
      intro hmod
      have hdvd := hb.trans (Nat.dvd_of_mod_eq_zero hmod)
      omega
    obtain ⟨rfl, rfl, rfl⟩ := hround'.inside hodd
    obtain ⟨dec₁, hbegin, hdec₁⟩ := hround.begin_eq h hdec
    obtain ⟨dec₂, hbyte, hdec₂⟩ := hround.byte_eq hdec₁
    obtain ⟨dec₃, hbyte', hdec₃⟩ := hround'.byte_eq hdec₂
    simp only [List.length_append, List.length_cons, List.nil_append] at h hsize
    rw [List.length_nil, add_zero] at hr₂
    obtain ⟨size, rfl⟩ : ∃ k, size = k + 1 := ⟨size - 1, by omega⟩
    have hrest : b ∣ n + header.length + 1 + 1 + r₂.1.length := by
      convert h using 1
      omega
    have hroom : r₂.1.length ≤ size := by omega
    obtain ⟨dec', hmore⟩ := ih k (by omega) hms₄ (by omega) hr₂ hrest hroom (.inr hdec₃)
    rw [if_pos hstereo] at hbyte hbyte'
    rw [msDecodeLoop, if_neg (by simp), hbegin]
    simp only [msDecodeRound, if_pos hstereo, List.nil_append, hbyte, hbyte', hmore, Option.bind_eq_bind,
      Option.bind_some, Option.pure_def, List.flatMap_append, List.append_assoc]
    exact ⟨_, rfl⟩

/-! ### Reconstruction -/

def msHeaderBytes (channels : ℕ) : ℕ := if channels > 1 then 14 else 7

def msHeaderSamples (channels : ℕ) : ℕ := if channels > 1 then 4 else 2

/-- The samples of a block: those of its header, and two in each other byte. -/
def msBlockSamples (channels b : ℕ) : ℕ := msHeaderSamples channels + 2 * (b - msHeaderBytes channels)

/-- The reconstruction of the `i`-th sample: in a header the sample itself, behind it the new `sample1` of its
channel. -/
def msSample (channels b i : ℕ) (sample : ℤ) (ms : Ms) : Option (ℤ × Ms) :=
  let channel := if channels > 1 then i % 2 else 0
  let c := ms.get channel
  if i % msBlockSamples channels b < msHeaderSamples channels then
    some (sample, ms.set channel { c with sample1 := sample, sample2 := c.sample1 })
  else (freerdpDspEncodeMsAdpcmSample sample c).map fun r => (r.2.sample1, ms.set channel r.2)

/-- `i` samples have been taken when `n` bytes are written, and no header is begun. -/
def MsPlace (channels b n i : ℕ) : Prop :=
  n % b = 0 ∧ i % msBlockSamples channels b = 0 ∨ msHeaderBytes channels < n % b ∧
    i % msBlockSamples channels b = msHeaderSamples channels + 2 * (n % b - msHeaderBytes channels)

theorem add_mod_cases {j : ℕ} (h : n % b + j ≤ b) :
    (n + j) % b = 0 ∧ n % b + j = b ∨ (n + j) % b = n % b + j ∧ n % b + j < b := by
  have hmod : (n + j) % b = (n % b + j) % b := by
    conv_lhs => rw [← Nat.div_add_mod n b, Nat.add_assoc, Nat.mul_add_mod]
  rcases h.eq_or_lt with heq | hlt
  · exact .inl ⟨by rw [hmod, heq, Nat.mod_self], heq⟩
  · exact .inr ⟨by rw [hmod, Nat.mod_eq_of_lt hlt], hlt⟩

/-- The place behind a byte and the header in front of it; the samples of the byte are not in the header. -/
theorem MsPlace.next {i k : ℕ} (h : MsPlace channels b n i) (hb : msHeaderBytes channels < b)
    (hk : k = if n % b = 0 then 1 else 0) :
    MsPlace channels b (n + k * msHeaderBytes channels + 1) (i + k * msHeaderSamples channels + 2) ∧
      ∀ j < 2, ¬(i + k * msHeaderSamples channels + j) % msBlockSamples channels b <
        msHeaderSamples channels := by
  have hS : msBlockSamples channels b = msHeaderSamples channels + 2 * (b - msHeaderBytes channels) := rfl
  have hlt := Nat.mod_lt n (Nat.zero_lt_of_lt hb)
  have hsamples (j : ℕ) (hj : i % msBlockSamples channels b + j ≤ msBlockSamples channels b) :=
    add_mod_cases hj
  rcases h with ⟨hn, hi⟩ | ⟨hn, hi⟩
  · rw [if_pos hn] at hk
    subst hk
    have hbytes := add_mod_cases (n := n) (b := b) (j := msHeaderBytes channels + 1) (by omega)
    rw [one_mul, one_mul, Nat.add_assoc, Nat.add_assoc i]
    refine ⟨?_, fun j hj => ?_⟩
    · have hnext := hsamples (msHeaderSamples channels + 2) (by omega)
      unfold MsPlace
      omega
    · have hplace := hsamples (msHeaderSamples channels + j) (by omega)
      rw [Nat.add_assoc]
      omega
  · rw [if_neg (by omega)] at hk
    subst hk
    have hbytes := add_mod_cases (n := n) (b := b) (j := 1) (by omega)
    simp only [zero_mul, Nat.add_zero]
    refine ⟨?_, fun j hj => ?_⟩
    · have hnext := hsamples 2 (by omega)
      unfold MsPlace
      omega
    · have hplace := hsamples j (by omega)
      omega

theorem MsPlace.even {i : ℕ} (h : MsPlace channels b n i) : i % 2 = 0 := by
  have hheader : msHeaderSamples channels % 2 = 0 := by
    unfold msHeaderSamples
    split <;> rfl
  have hS : msBlockSamples channels b = msHeaderSamples channels + 2 * (b - msHeaderBytes channels) := rfl
  have hmod := Nat.mod_mod_of_dvd i (show 2 ∣ msBlockSamples channels b by omega)
  rcases h with ⟨-, hi⟩ | ⟨-, hi⟩ <;> omega

theorem msSample_header {i : ℕ} (h : i % msBlockSamples channels b < msHeaderSamples channels) (x : ℤ) (ms : Ms) :
    msSample channels b i x ms = some (x, ms.set (if channels > 1 then i % 2 else 0)
      { ms.get (if channels > 1 then i % 2 else 0) with
        sample1 := x
        sample2 := (ms.get (if channels > 1 then i % 2 else 0)).sample1 }) :=
  if_pos h

theorem scan_header_stereo {i : ℕ} (hstereo : channels > 1) (heven : i % 2 = 0)
    (hin : ∀ j < 4, (i + j) % msBlockSamples channels b < msHeaderSamples channels) (z w x y : ℤ) (ms : Ms) :
    Iterate.scan (msSample channels b) i [z, w, x, y] ms = some ([z, w, x, y],
      ⟨{ ms.channel0 with sample1 := x, sample2 := z }, { ms.channel1 with sample1 := y, sample2 := w }⟩) := by
  have hodd : (i + 1) % 2 = 1 ∧ (i + 1 + 1) % 2 = 0 ∧ (i + 1 + 1 + 1) % 2 = 1 := by omega
  have h1 := hin 1 (by decide)
  have h2 := hin 2 (by decide)
  have h3 := hin 3 (by decide)
  rw [Iterate.scan, msSample_header (i := i) (hin 0 (by decide)), Option.bind_some, Iterate.scan, msSample_header h1,
    Option.bind_some, Iterate.scan, msSample_header h2, Option.bind_some, Iterate.scan, msSample_header h3,
    if_pos hstereo, if_pos hstereo, if_pos hstereo, if_pos hstereo, heven, hodd.1, hodd.2.1, hodd.2.2]
  rfl

theorem scan_header_mono {i : ℕ} (hmono : ¬channels > 1)
    (hin : ∀ j < 2, (i + j) % msBlockSamples channels b < msHeaderSamples channels) (z x : ℤ) (ms : Ms) :
    Iterate.scan (msSample channels b) i [z, x] ms = some ([z, x],
      { ms with channel0 := { ms.channel0 with sample1 := x, sample2 := z } }) := by
  rw [Iterate.scan, msSample_header (i := i) (hin 0 (by decide)), Option.bind_some, Iterate.scan,
    msSample_header (hin 1 (by decide)), if_neg hmono, if_neg hmono]
  rfl

theorem scan_msHeader {i : ℕ} {header src' : List UInt8} {samples : List ℤ}
    (hi : i % msBlockSamples channels b = 0) (heven : i % 2 = 0) (hsrc : msStep channels ≤ src.length)
    (h : msHeader channels src ms = some (header, ms', src', samples)) :
    readInt16s src = samples ++ readInt16s src' ∧ src.length = src'.length + 2 * samples.length ∧
      header.length = msHeaderBytes channels ∧ samples.length = msHeaderSamples channels ∧
      Iterate.scan (msSample channels b) i samples ms = some (samples, ms') := by
  have hS : msBlockSamples channels b = msHeaderSamples channels + 2 * (b - msHeaderBytes channels) := rfl
  have hin (j : ℕ) (hj : j < msHeaderSamples channels) :
      (i + j) % msBlockSamples channels b < msHeaderSamples channels := by
    have hplace := add_mod_cases (n := i) (b := msBlockSamples channels b) (j := j) (by omega)
    omega
  unfold msStep at hsrc
  by_cases hstereo : channels > 1
  · have hsamples : msHeaderSamples channels = 4 := if_pos hstereo
    rw [if_pos hstereo] at hsrc
    match src, hsrc, h with
    | z0 :: z1 :: w0 :: w1 :: x0 :: x1 :: y0 :: y1 :: src, _, h =>
      unfold msHeader at h
      rw [if_pos hstereo] at h
      obtain ⟨rfl, rfl, rfl, rfl⟩ : _ ∧ _ ∧ _ ∧ _ := by simpa using h
      exact ⟨rfl, rfl, (if_pos hstereo).symm, hsamples.symm,
        scan_header_stereo hstereo heven (fun j hj => hin j (by omega)) _ _ _ _ ms⟩
  · have hsamples : msHeaderSamples channels = 2 := if_neg hstereo
    rw [if_neg hstereo] at hsrc
    match src, hsrc, h with
    | z0 :: z1 :: x0 :: x1 :: src, _, h =>
      unfold msHeader at h
      rw [if_neg hstereo] at h
      obtain ⟨rfl, rfl, rfl, rfl⟩ : _ ∧ _ ∧ _ ∧ _ := by simpa using h
      exact ⟨rfl, rfl, (if_neg hstereo).symm, hsamples.symm,
        scan_header_mono hstereo (fun j hj => hin j (by omega)) _ _ ms⟩

theorem scan_msBeginHeader {i : ℕ} {header src' : List UInt8} {samples : List ℤ} (hplace : MsPlace channels b n i)
    (hsrc : msStep channels ≤ src.length)
    (h : msBeginHeader channels b n src ms = some (header, ms', src', samples)) :
    ∃ k, k = (if n % b = 0 then 1 else 0) ∧ readInt16s src = samples ++ readInt16s src' ∧
      src.length = src'.length + 2 * samples.length ∧ header.length = k * msHeaderBytes channels ∧
      samples.length = k * msHeaderSamples channels ∧
      Iterate.scan (msSample channels b) i samples ms = some (samples, ms') := by
  unfold msBeginHeader at h
  by_cases hn : n % b = 0
  · rw [if_pos hn] at h ⊢
    have hi : i % msBlockSamples channels b = 0 := by
      rcases hplace with ⟨-, hi⟩ | ⟨hlt, -⟩
      · exact hi
      · omega
    refine ⟨1, rfl, ?_⟩
    rw [one_mul, one_mul]
    exact scan_msHeader hi hplace.even hsrc h
  · rw [if_neg hn] at h ⊢
    obtain ⟨rfl, rfl, rfl, rfl⟩ : _ ∧ _ ∧ _ ∧ _ := by simpa using h
    exact ⟨0, rfl, rfl, rfl, (Nat.zero_mul _).symm, (Nat.zero_mul _).symm, rfl⟩

/-- The two samples of a byte are reconstructed one after the other. -/
theorem scan_msEncodeByte {i : ℕ} {byte : UInt8} {src' : List UInt8} {samples : List ℤ} {states : List Ms}
    (heven : i % 2 = 0) (hi : ¬i % msBlockSamples channels b < msHeaderSamples channels)
    (hi' : ¬(i + 1) % msBlockSamples channels b < msHeaderSamples channels)
    (h : msEncodeByte (if channels > 1 then 1 else 0) src ms = some (byte, ms', src', samples, states)) :
    ∃ x y, readInt16s src = x :: y :: readInt16s src' ∧ src.length = src'.length + 4 ∧ samples.length = 2 ∧
      Iterate.scan (msSample channels b) i [x, y] ms = some (samples, ms') := by
  match src, h with
  | x0 :: x1 :: y0 :: y1 :: src, h =>
    simp only [msEncodeByte, Option.bind_eq_bind, Option.bind_eq_some_iff, Option.pure_def] at h
    obtain ⟨⟨code, c⟩, hcode, ⟨code', c'⟩, hcode', h⟩ := h
    obtain ⟨rfl, rfl, rfl, rfl, rfl⟩ : _ ∧ _ ∧ _ ∧ _ ∧ _ := by simpa using h
    refine ⟨readInt16 x0 x1, readInt16 y0 y1, rfl, rfl, rfl, ?_⟩
    have hfirst : msSample channels b i (readInt16 x0 x1) ms =
        some (c.sample1, { ms with channel0 := c }) := by
      simp [msSample, hi, heven, Ms.get, Ms.set, hcode]
    have hodd : (if channels > 1 then (i + 1) % 2 else 0) = if channels > 1 then 1 else 0 := by
      rw [show (i + 1) % 2 = 1 by omega]
    have hsecond : msSample channels b (i + 1) (readInt16 y0 y1) { ms with channel0 := c } =
        some (c'.sample1, Ms.set (if channels > 1 then 1 else 0) c' { ms with channel0 := c }) := by
      simp only [msSample, if_neg hi', hodd, hcode', Option.map_some]
    simp only [Iterate.scan, hfirst, hsecond, Option.bind_some, Option.map_some]

/-- The encoder reconstructs one sample after another, and leaves less than it takes for a round. -/
theorem scan_msEncodeLoop {i : ℕ} {r : List UInt8 × List ℤ × List Ms} (hb : msHeaderBytes channels < b)
    (hplace : MsPlace channels b n i) (hrounds : src.length ≤ rounds)
    (hr : msEncodeLoop channels b rounds n src ms = some r) :
    (Iterate.scan (msSample channels b) i ((readInt16s src).take r.2.1.length) ms).map Prod.fst =
        some r.2.1 ∧
      2 * r.2.1.length ≤ src.length ∧ src.length < 2 * r.2.1.length + msStep channels := by
  induction rounds generalizing n i src ms r with
  | zero =>
    obtain rfl := Option.some.inj hr
    have hstep : 0 < msStep channels := Nat.add_pos_left (by decide) _
    exact ⟨rfl, Nat.zero_le _, by simpa using (Nat.le_zero.mp hrounds).trans_lt hstep⟩
  | succ rounds ih =>
    rw [msEncodeLoop] at hr
    by_cases hsrc : src.length < msStep channels
    · rw [if_pos hsrc] at hr
      obtain rfl := Option.some.inj hr
      exact ⟨rfl, Nat.zero_le _, by simpa using hsrc⟩
    · rw [if_neg hsrc] at hr
      simp only [Option.bind_eq_bind, Option.bind_eq_some_iff, Option.pure_def] at hr
      obtain ⟨⟨header, ms₁, src₁, samples⟩, hheader, ⟨byte, ms₂, src₂, samples', states⟩, hbyte,
        ⟨out, more, states'⟩, hmore, hr⟩ := hr
      obtain rfl := Option.some.inj hr
      obtain ⟨k, hk, hsplit, hlength, hheader, hsamples, hscan⟩ :=
        scan_msBeginHeader hplace (not_lt.mp hsrc) hheader
      obtain ⟨hnext, hbehind⟩ := hplace.next hb hk
      have heven := hnext.even
      obtain ⟨x, y, hsplit', hlength', hsamples', hscan'⟩ := scan_msEncodeByte (b := b)
        (i := i + k * msHeaderSamples channels) (by omega) (hbehind 0 (by decide)) (hbehind 1 (by decide)) hbyte
      dsimp only at hlength' hscan' hmore
      rw [List.length_append, List.length_singleton, hheader, ← Nat.add_assoc] at hmore
      obtain ⟨hmap, hle, hlt⟩ := ih hnext (by omega) hmore
      dsimp only at hmap hle hlt ⊢
      have htotal : (samples ++ samples' ++ more).length = samples.length + (2 + more.length) := by
        rw [List.length_append, List.length_append, hsamples', Nat.add_assoc]
      rw [htotal]
      refine ⟨?_, by omega, by omega⟩
      have htake : (readInt16s src₁).take (2 + more.length) = [x, y] ++ (readInt16s src₂).take more.length := by
        rw [hsplit', Nat.add_comm]
        rfl
      obtain ⟨⟨more', ms'⟩, hrest, rfl⟩ := Option.map_eq_some_iff.mp hmap
      rw [hsplit, List.take_length_add_append, Iterate.scan_append, hscan, Option.bind_some, hsamples, htake,
        Iterate.scan_append, hscan', Option.bind_some, List.length_cons, List.length_singleton, hrest]
      simp only [Option.map_some, List.append_assoc]

theorem isInt16_of_mem {x : ℤ} (h : x ∈ readInt16s src) : IsInt16 x := by
  induction src using readInt16s.induct with
  | case1 lo hi src ih =>
    rcases List.mem_cons.mp h with h | h
    · rw [h]
      exact isInt16_readInt16 lo hi
    · exact ih h
  | case2 src hsrc =>
    rw [readInt16s.eq_2 src hsrc] at h
    exact absurd h List.not_mem_nil

theorem valid_msSample {i : ℕ} {x : ℤ} {r : ℤ × Ms} (hms : ms.Valid) (hx : IsInt16 x)
    (h : msSample channels b i x ms = some r) : r.2.Valid := by
  have hget (channel : ℕ) : (ms.get channel).Valid := by
    unfold Ms.get
    split
    · exact hms.channel0
    · exact hms.channel1
  have hset {c : MsChannel} (hc : c.Valid) (channel : ℕ) : (ms.set channel c).Valid := by
    unfold Ms.set
    split
    · exact ⟨hc, hms.channel1⟩
    · exact ⟨hms.channel0, hc⟩
  unfold msSample at h
  dsimp only at h
  split at h
  · obtain rfl := Option.some.inj h
    exact hset ((hget _).header hx (hget _).sample1) _
  · obtain ⟨code, c', hcode, -, -, hc'⟩ := exists_encodeMs (hget (if channels > 1 then i % 2 else 0)) hx
    rw [hcode] at h
    obtain rfl := Option.some.inj h
    exact hset hc' _

/-- Nothing overflows, every delta is exact in 16 bits, and the decoder puts out what the encoder has
reconstructed: one sample after another, and less than a round needs is left. -/
theorem ms_lockstep (src : List UInt8) (hb : msHeaderBytes channels < b) (heven : channels > 1 → 2 ∣ b) :
    ∃ bytes samples states, freerdpDspEncodeMsAdpcm channels b src Ms.zero = some (bytes, samples, states) ∧
      (∀ k ≤ samples.length, ∃ ms, Iterate.scan (msSample channels b) 0 ((readInt16s src).take k)
          ⟨⟨0, 16, 0, 0⟩, ⟨0, 16, 0, 0⟩⟩ = some (samples.take k, ms) ∧
        (16 ≤ ms.channel0.delta ∧ ms.channel0.delta ≤ 32767) ∧
        16 ≤ ms.channel1.delta ∧ ms.channel1.delta ≤ 32767) ∧
      2 * samples.length ≤ src.length ∧ src.length < 2 * samples.length + msStep channels ∧
      (b ∣ bytes.length → ∃ ms, freerdpDspDecodeMsAdpcm channels b bytes Ms.zero =
        some (samples.flatMap writeInt16, ms)) := by
  have hstart : Ms.Valid ⟨⟨0, 16, 0, 0⟩, ⟨0, 16, 0, 0⟩⟩ := by
    have hchannel : MsChannel.Valid ⟨0, 16, 0, 0⟩ :=
      ⟨rfl, by decide, by decide, ⟨by decide, by decide⟩, by decide, by decide⟩
    exact ⟨hchannel, hchannel⟩
  obtain ⟨⟨bytes, samples, states⟩, hloop⟩ := exists_msEncodeLoop hstart channels b src.length 0 src
  have hencode : freerdpDspEncodeMsAdpcm channels b src Ms.zero =
      some (bytes, samples, ⟨⟨0, 16, 0, 0⟩, ⟨0, 16, 0, 0⟩⟩ :: states) := by
    change (msEncodeLoop channels b src.length 0 src ⟨⟨0, 16, 0, 0⟩, ⟨0, 16, 0, 0⟩⟩).bind _ = _
    rw [hloop]
    rfl
  have hplace : MsPlace channels b 0 0 := .inl ⟨Nat.zero_mod _, Nat.zero_mod _⟩
  obtain ⟨hscan, hle, hlt⟩ := scan_msEncodeLoop hb hplace le_rfl hloop
  refine ⟨bytes, samples, _, hencode, fun k hk => ?_, hle, hlt, fun hbytes => ?_⟩
  · obtain ⟨⟨samples, ms⟩, hrun, rfl⟩ := Option.map_eq_some_iff.mp hscan
    obtain ⟨ms', htake, hms'⟩ := Iterate.scan_take
      (fun i x hx s r hs => valid_msSample hs (isInt16_of_mem (List.mem_of_mem_take hx))) hstart hrun k
    rw [List.take_take, min_eq_left hk] at htake
    exact ⟨ms', htake, ⟨hms'.channel0.le_delta, hms'.channel0.delta_le⟩, hms'.channel1.le_delta,
      hms'.channel1.delta_le⟩
  · have hmultiple : b ∣ 0 + bytes.length := by rwa [Nat.zero_add]
    by_cases hstereo : channels > 1
    · exact msDecode_encodeLoop_stereo hstereo (heven hstereo) hstart (Nat.dvd_zero 2) hloop hmultiple le_rfl
        (.inl (Nat.zero_mod b))
    · exact msDecode_encodeLoop_mono hstereo hstart hloop hmultiple le_rfl (.inl (Nat.zero_mod b))

theorem ms_lockstep_example : ∃ ms, freerdpDspDecodeMsAdpcm 2 16
    [0, 0, 16, 0, 16, 0, 208, 7, 184, 11, 0, 0, 232, 3, 136, 135] Ms.zero =
      some ([0, 1000, 2000, 3000, 1872, 2872, 1488, 3208].flatMap writeInt16, ms) := by
  obtain ⟨bytes, samples, states, hencode, -, -, -, hdecode⟩ := ms_lockstep
    [0, 0, 232, 3, 208, 7, 184, 11, 24, 252, 48, 248, 0, 0, 255, 127, 0, 128, 1, 0, 0, 0, 0, 0]
    (by decide : msHeaderBytes 2 < 16) (fun _ => ⟨8, rfl⟩)
  have hrun : (freerdpDspEncodeMsAdpcm 2 16
      [0, 0, 232, 3, 208, 7, 184, 11, 24, 252, 48, 248, 0, 0, 255, 127, 0, 128, 1, 0, 0, 0, 0, 0] Ms.zero).map
        (fun r => (r.1, r.2.1)) = some ([0, 0, 16, 0, 16, 0, 208, 7, 184, 11, 0, 0, 232, 3, 136, 135],
          [0, 1000, 2000, 3000, 1872, 2872, 1488, 3208]) := by
    decide +kernel
  rw [hencode] at hrun
  obtain ⟨rfl, rfl⟩ := Prod.mk.inj (Option.some.inj hrun)
  exact hdecode ⟨1, rfl⟩

end FreeRDP.Dsp
