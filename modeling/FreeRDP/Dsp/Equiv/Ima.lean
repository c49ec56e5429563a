import FreeRDP.Dsp.Ima
import FreeRDP.Lib.Iterate

/-!
# IMA ADPCM in lock step

The decoder and the encoder change the state of a channel in the same way (`decode_encode_sample`), so that
the header of a block only repeats what the decoder has already got.  The encoder begins a block when the
number of bytes that it has written is a multiple of `nBlockAlign`, and the decoder when the number of bytes
that are left is one; these are the same places if the length of all bytes is a multiple.

`ima_lockstep`: the decoder puts out what the encoder has reconstructed.
-/

namespace FreeRDP.Dsp

variable {c : ImaChannel} {ima ima' : Ima} {sample : ℤ} {channels b rounds n m code : ℕ}
  {src rest out : List UInt8} {states : List ImaChannel}

/-! ### Samples -/

/-- The step index is inside of the table, and the sample is an `INT16`. -/
structure ImaChannel.Valid (c : ImaChannel) : Prop where
  sample : IsInt16 c.lastSample
  step_nonneg : 0 ≤ c.lastStep
  step_le : c.lastStep ≤ 88

/-- The states of both channels are valid. -/
structure Ima.Valid (ima : Ima) : Prop where
  channel0 : ima.channel0.Valid
  channel1 : ima.channel1.Valid

theorem Ima.valid_zero : Ima.zero.Valid := by
  have hzero : ImaChannel.Valid ⟨0, 0⟩ := ⟨⟨by decide, by decide⟩, by decide, by decide⟩
  exact ⟨hzero, hzero⟩

/-- Whatever is decoded or encoded, the state is valid after it. -/
theorem ImaChannel.valid_advance (d : ℤ) (code : ℕ) (c : ImaChannel) : (c.advance d code).Valid := by
  refine ⟨isInt16_clampInt16 d, ?_, ?_⟩
  · unfold ImaChannel.advance
    dsimp only
    split_ifs <;> omega
  · unfold ImaChannel.advance
    dsimp only
    split_ifs <;> omega

theorem valid_decode (code : ℕ) (c : ImaChannel) : (dspDecodeImaAdpcmSample code c).Valid :=
  ImaChannel.valid_advance _ _ _

theorem Ima.Valid.set (h : ima.Valid) (channel : ℕ) (hc : c.Valid) : (ima.set channel c).Valid := by
  unfold Ima.set
  split
  · exact ⟨hc, h.channel1⟩
  · exact ⟨h.channel0, hc⟩

theorem valid_encode (sample : ℤ) (c : ImaChannel) : (dspEncodeImaAdpcmSample sample c).2.Valid :=
  ImaChannel.valid_advance _ _ _

theorem imaEncodeBit_cases (bit ss : ℕ) (p : ℕ × ℤ) :
    ∃ b : Bool, imaEncodeBit bit ss p = (p.1 ||| (if b then bit else 0),
      p.2 - (if b then ss else 0 : ℕ)) := by
  unfold imaEncodeBit
  split
  · exact ⟨true, rfl⟩
  · refine ⟨false, ?_⟩
    ext
    · simp
    · simp

/-- The code of a sample: the sign and three bits, which say how the residual is rebuilt. -/
theorem dspEncodeImaAdpcmSample_cases (sample : ℤ) (c : ImaChannel) :
    ∃ b₈ b₄ b₂ b₁ : Bool, ∃ code, code = (((if b₈ then 8 else 0) ||| (if b₄ then 4 else 0)) |||
        (if b₂ then 2 else 0)) ||| (if b₁ then 1 else 0) ∧
      dspEncodeImaAdpcmSample sample c = (code, c.advance ((if b₈ then -1 else 1) *
        ((c.stepSize >>> 3 + (if b₁ then c.stepSize >>> 2 else 0) + (if b₂ then c.stepSize >>> 1 else 0) +
          (if b₄ then c.stepSize else 0) : ℕ) : ℤ) + c.lastSample) code) := by
  have hshift : c.stepSize >>> 1 >>> 1 = c.stepSize >>> 2 := by rw [← Nat.shiftRight_add]
  unfold dspEncodeImaAdpcmSample
  dsimp only
  rw [hshift]
  generalize c.stepSize = ss
  generalize sample - c.lastSample = d
  obtain ⟨b₄, h₄⟩ := imaEncodeBit_cases 4 ss (if d < 0 then (8, -d) else (0, d))
  obtain ⟨b₂, h₂⟩ := imaEncodeBit_cases 2 (ss >>> 1) (imaEncodeBit 4 ss (if d < 0 then (8, -d) else (0, d)))
  obtain ⟨b₁, h₁⟩ := imaEncodeBit_cases 1 (ss >>> 2)
    (imaEncodeBit 2 (ss >>> 1) (imaEncodeBit 4 ss (if d < 0 then (8, -d) else (0, d))))
  rw [h₁, h₂, h₄]
  by_cases hsign : d < 0
  · refine ⟨true, b₄, b₂, b₁, _, rfl, ?_⟩
    simp only [if_pos hsign]
    congr 2
    simp only [↓reduceIte]
    push_cast
    omega
  · refine ⟨false, b₄, b₂, b₁, _, rfl, ?_⟩
    simp only [if_neg hsign]
    congr 2
    simp only [Bool.false_eq_true, ↓reduceIte]
    push_cast
    omega

/-- The decoder makes of a code what the encoder has made of it. -/
theorem decode_encode_sample (sample : ℤ) (c : ImaChannel) :
    dspDecodeImaAdpcmSample (dspEncodeImaAdpcmSample sample c).1 c =
      (dspEncodeImaAdpcmSample sample c).2 := by
  obtain ⟨b₈, b₄, b₂, b₁, code, hcode, heq⟩ := dspEncodeImaAdpcmSample_cases sample c
  rw [heq]
  unfold dspDecodeImaAdpcmSample
  dsimp only
  congr 2
  subst hcode
  cases b₈ <;> cases b₄ <;> cases b₂ <;> cases b₁ <;> simp

theorem code_lt (sample : ℤ) (c : ImaChannel) : (dspEncodeImaAdpcmSample sample c).1 < 16 := by
  obtain ⟨b₈, b₄, b₂, b₁, code, hcode, heq⟩ := dspEncodeImaAdpcmSample_cases sample c
  rw [heq]
  dsimp only
  rw [hcode]
  clear hcode heq
  revert b₈ b₄ b₂ b₁
  decide

/-- A code and a state that belong together. -/
theorem exists_encode (sample : ℤ) (c : ImaChannel) :
    ∃ code c', dspEncodeImaAdpcmSample sample c = (code, c') ∧ dspDecodeImaAdpcmSample code c = c' ∧
      code < 2 ^ 4 :=
  ⟨_, _, rfl, decode_encode_sample sample c, code_lt sample c⟩

/-! ### Groups -/

theorem nibbles (hn : n < 2 ^ 4) (hm : m < 2 ^ 4) :
    (UInt8.ofNat (n ||| m <<< 4)).toNat &&& 0x0F = n ∧ (UInt8.ofNat (n ||| m <<< 4)).toNat >>> 4 = m := by
  have hor : n ||| m <<< 4 = n + m * 2 ^ 4 := by
    rw [Nat.lor_comm, ← Nat.shiftLeft_add_eq_or_of_lt hn, Nat.shiftLeft_eq]
    exact Nat.add_comm _ _
  have hmask (k : ℕ) : k &&& 0x0F = k % 2 ^ 4 := Nat.and_two_pow_sub_one_eq_mod k 4
  rw [hmask, UInt8.toNat_ofNat', hor, Nat.shiftRight_eq_div_pow]
  omega

theorem imaDecode_encodeGroup {samples : List ℤ} (hlength : samples.length = 16) (ima : Ima)
    (rest : List UInt8) :
    let r := imaEncodeGroup imaStereoEncodeMap 0 samples (List.replicate 8 0) ima
    ∃ states, imaDecodeGroup 8 0 (r.1.map UInt8.ofNat ++ rest) (List.replicate 32 0) ima =
      some (rest, r.2.2.flatMap fun c => writeInt16 c.lastSample, r.2.1, states) := by
  match samples, hlength with
  | [x0, x1, x2, x3, x4, x5, x6, x7, x8, x9, x10, x11, x12, x13, x14, x15], _ =>
    obtain ⟨n0, c0, h0, hd0, hn0⟩ := exists_encode x0 ima.channel0
    obtain ⟨n1, c1, h1, hd1, hn1⟩ := exists_encode x1 ima.channel1
    obtain ⟨n2, c2, h2, hd2, hn2⟩ := exists_encode x2 c0
    obtain ⟨n3, c3, h3, hd3, hn3⟩ := exists_encode x3 c1
    obtain ⟨n4, c4, h4, hd4, hn4⟩ := exists_encode x4 c2
    obtain ⟨n5, c5, h5, hd5, hn5⟩ := exists_encode x5 c3
    obtain ⟨n6, c6, h6, hd6, hn6⟩ := exists_encode x6 c4
    obtain ⟨n7, c7, h7, hd7, hn7⟩ := exists_encode x7 c5
    obtain ⟨n8, c8, h8, hd8, hn8⟩ := exists_encode x8 c6
    obtain ⟨n9, c9, h9, hd9, hn9⟩ := exists_encode x9 c7
    obtain ⟨n10, c10, h10, hd10, hn10⟩ := exists_encode x10 c8
    obtain ⟨n11, c11, h11, hd11, hn11⟩ := exists_encode x11 c9
    obtain ⟨n12, c12, h12, hd12, hn12⟩ := exists_encode x12 c10
    obtain ⟨n13, c13, h13, hd13, hn13⟩ := exists_encode x13 c11
    obtain ⟨n14, c14, h14, hd14, hn14⟩ := exists_encode x14 c12
    obtain ⟨n15, c15, h15, hd15, hn15⟩ := exists_encode x15 c13
    simp only [imaStereoEncodeMap, imaEncodeGroup, Ima.get, Ima.set, h0, h1, h2, h3, h4, h5, h6, h7, h8, h9,
      h10, h11, h12, h13, h14, h15, List.replicate, List.modify_zero_cons, List.modify_succ_cons,
      Nat.reduceAdd, Nat.reduceMod, one_ne_zero, ↓reduceIte]
    obtain ⟨l0, u0⟩ := nibbles hn0 hn2
    obtain ⟨l1, u1⟩ := nibbles hn4 hn6
    obtain ⟨l2, u2⟩ := nibbles hn8 hn10
    obtain ⟨l3, u3⟩ := nibbles hn12 hn14
    obtain ⟨l4, u4⟩ := nibbles hn1 hn3
    obtain ⟨l5, u5⟩ := nibbles hn5 hn7
    obtain ⟨l6, u6⟩ := nibbles hn9 hn11
    obtain ⟨l7, u7⟩ := nibbles hn13 hn15
    simp only [List.map_cons, List.map_nil, List.cons_append, List.nil_append, Nat.zero_or,
      Nat.shiftLeft_zero]
    simp only [imaDecodeGroup, Ima.get, Ima.set, putInt16, l0, u0, l1, u1, l2, u2, l3, u3, l4, u4,
      l5, u5, l6,
      u6, l7, u7, hd0, hd1, hd2, hd3, hd4, hd5, hd6, hd7, hd8, hd9, hd10, hd11, hd12, hd13, hd14, hd15,
      List.set_cons_zero, List.set_cons_succ, Nat.reduceAdd, Nat.reduceLT, Nat.reduceShiftLeft,
      Nat.reduceAnd, one_ne_zero, ↓reduceIte]
    exact ⟨_, rfl⟩

/-- A group has as many bytes as there is room for, and its states are valid. -/
theorem imaEncodeGroup_spec {map : List (ℕ × ℕ)} {i : ℕ} {samples : List ℤ} {dst : List ℕ}
    (hima : ima.Valid) :
    (imaEncodeGroup map i samples dst ima).1.length = dst.length ∧
      (imaEncodeGroup map i samples dst ima).2.1.Valid ∧
      ∀ c ∈ (imaEncodeGroup map i samples dst ima).2.2, c.Valid := by
  induction map generalizing i samples dst ima with
  | nil => exact ⟨rfl, hima, nofun⟩
  | cons entry map ih =>
    match samples with
    | [] => exact ⟨rfl, hima, nofun⟩
    | sample :: samples =>
      have hvalid := valid_encode sample (ima.get (i % 2))
      obtain ⟨hlength, hima', hstates⟩ := @ih _ (i + 1) samples
        (dst.modify entry.1 (· ||| (dspEncodeImaAdpcmSample sample (ima.get (i % 2))).1 <<< entry.2))
        (hima.set (i % 2) hvalid)
      refine ⟨hlength.trans (List.length_modify _ _ _), hima', ?_⟩
      exact List.forall_mem_cons.mpr ⟨hvalid, hstates⟩

theorem imaDecodeGroup_valid {i : ℕ} {dst : List UInt8}
    {r : List UInt8 × List UInt8 × Ima × List ImaChannel}
    (h : imaDecodeGroup rounds i src dst ima = some r) : ∀ c ∈ r.2.2.2, c.Valid := by
  induction rounds generalizing i src dst ima r with
  | zero =>
    obtain rfl := Option.some.inj h
    exact nofun
  | succ rounds ih =>
    cases src with
    | nil => exact nomatch h
    | cons byte src =>
      obtain ⟨r', hr', heq⟩ := Option.bind_eq_some_iff.mp h
      obtain rfl := Option.some.inj heq
      have hrest := ih hr'
      exact List.forall_mem_cons.mpr ⟨valid_decode _ _, List.forall_mem_cons.mpr ⟨valid_decode _ _, hrest⟩⟩

/-! ### Blocks -/

theorem imaReadHeaderChannel_write (hc : c.Valid) (rest : List UInt8) :
    imaReadHeaderChannel (imaHeaderChannel c ++ rest) = some (c, rest) := by
  have hstep : ((UInt8.ofNat (c.lastStep % 2 ^ 8).toNat).toNat : ℤ) = c.lastStep := by
    have hle := hc.step_le
    have hnonneg := hc.step_nonneg
    exact (toNat_lowByte _).trans (Int.emod_eq_of_lt hnonneg (by omega))
  simp only [imaHeaderChannel, writeInt16, List.cons_append, List.nil_append, imaReadHeaderChannel,
    readInt16_write hc.sample, hstep]

theorem imaReadHeader_write (hima : ima.Valid) (channels : ℕ) (rest : List UInt8) :
    imaReadHeader channels (imaHeader channels ima ++ rest) ima = some (ima, rest) := by
  unfold imaReadHeader imaHeader
  by_cases hstereo : channels > 1
  · simp only [if_pos hstereo, List.append_assoc, imaReadHeaderChannel_write hima.channel0,
      imaReadHeaderChannel_write hima.channel1, Option.pure_def, Option.bind_eq_bind, Option.bind_some]
  · simp only [if_neg hstereo, List.append_nil, imaReadHeaderChannel_write hima.channel0, Option.pure_def,
      Option.bind_eq_bind, Option.bind_some]

theorem length_readInt16s (src : List UInt8) : (readInt16s src).length = src.length / 2 := by
  fun_induction readInt16s src with
  | case1 lo hi src ih =>
    simp only [List.length_cons, ih]
    omega
  | case2 src h =>
    match src, h with
    | [], _ => rfl
    | [_], _ => simp
    | lo :: hi :: src, h => exact (h lo hi src rfl).elim

theorem imaEncodeRound_spec (hima : ima.Valid) (hsrc : imaAlign channels < src.length) :
    (imaEncodeRound channels src ima).1.length = (if channels > 1 then 8 else 1) ∧
      (imaEncodeRound channels src ima).2.1.Valid ∧
      ∀ c ∈ (imaEncodeRound channels src ima).2.2, c.Valid := by
  unfold imaEncodeRound
  dsimp only
  by_cases hstereo : channels > 1
  · rw [if_pos hstereo, if_pos hstereo]
    exact imaEncodeGroup_spec hima
  · rw [if_neg hstereo, if_neg hstereo]
    have hlength := length_readInt16s (src.take (imaAlign channels))
    rw [imaAlign, if_neg hstereo] at hsrc hlength
    rw [List.length_take_of_le hsrc.le] at hlength
    rw [imaAlign, if_neg hstereo]
    match readInt16s (src.take 4), hlength with
    | [sample, sample'], _ =>
      have hsample := valid_encode sample ima.channel0
      have hsample' := valid_encode sample' (dspEncodeImaAdpcmSample sample ima.channel0).2
      refine ⟨rfl, ⟨hsample', hima.channel1⟩, ?_⟩
      exact List.forall_mem_cons.mpr ⟨hsample, List.forall_mem_cons.mpr ⟨hsample', nofun⟩⟩

theorem imaDecode_encodeRound (hsrc : imaAlign channels < src.length) (ima : Ima) (rest : List UInt8) :
    ∃ states, imaDecodeRound channels ((imaEncodeRound channels src ima).1.map UInt8.ofNat ++ rest) ima =
      some (rest, (imaEncodeRound channels src ima).2.2.flatMap fun c => writeInt16 c.lastSample,
        (imaEncodeRound channels src ima).2.1, states) ∧ ∀ c ∈ states, c.Valid := by
  unfold imaDecodeRound imaEncodeRound
  have hlength := length_readInt16s (src.take (imaAlign channels))
  rw [List.length_take_of_le hsrc.le] at hlength
  dsimp only
  by_cases hstereo : channels > 1
  · simp only [if_pos hstereo]
    rw [imaAlign, if_pos hstereo] at hlength ⊢
    obtain ⟨states, hdecode⟩ := imaDecode_encodeGroup hlength ima rest
    exact ⟨states, hdecode, imaDecodeGroup_valid hdecode⟩
  · simp only [if_neg hstereo]
    rw [imaAlign, if_neg hstereo] at hlength ⊢
    match readInt16s (src.take 4), hlength with
    | [sample, sample'], _ =>
      obtain ⟨code, c, hencode, hdecode, hcode⟩ := exists_encode sample ima.channel0
      obtain ⟨code', c', hencode', hdecode', hcode'⟩ := exists_encode sample' c
      obtain ⟨hlow, hhigh⟩ := nibbles hcode hcode'
      have hvalid := valid_decode code ima.channel0
      have hvalid' := valid_decode code' c
      rw [hdecode] at hvalid
      rw [hdecode'] at hvalid'
      simp only [imaEncodePair, hencode, hencode', List.map_cons, List.map_nil, List.cons_append,
        List.nil_append, hlow, hhigh, hdecode, hdecode']
      exact ⟨_, rfl, List.forall_mem_cons.mpr ⟨hvalid, List.forall_mem_cons.mpr ⟨hvalid', nofun⟩⟩⟩

/-! ### Runs -/

theorem imaDecodeLoop_nil (channels b rounds : ℕ) (ima : Ima) :
    imaDecodeLoop channels b rounds [] ima = some ([], ima, []) := by
  cases rounds with
  | zero => rfl
  | succ rounds => rfl

/-- The loops, when the encoder has written `n` bytes. -/
theorem imaDecode_encodeLoop (hima : ima.Valid)
    (h : b ∣ n + (imaEncodeLoop channels b rounds n src ima).1.length)
    (hm : (imaEncodeLoop channels b rounds n src ima).1.length ≤ m) :
    (∀ c ∈ (imaEncodeLoop channels b rounds n src ima).2.2, c.Valid) ∧
      ∃ states, imaDecodeLoop channels b m (imaEncodeLoop channels b rounds n src ima).1 ima =
        some ((imaEncodeLoop channels b rounds n src ima).2.2.flatMap fun c => writeInt16 c.lastSample,
          (imaEncodeLoop channels b rounds n src ima).2.1, states) ∧ ∀ c ∈ states, c.Valid := by
  induction rounds generalizing n m src ima with
  | zero => exact ⟨nofun, [], imaDecodeLoop_nil _ _ _ _, nofun⟩
  | succ rounds ih =>
    rw [imaEncodeLoop] at h hm ⊢
    by_cases hsrc : src.length ≤ imaAlign channels
    · rw [if_pos hsrc]
      exact ⟨nofun, [], imaDecodeLoop_nil _ _ _ _, nofun⟩
    · rw [if_neg hsrc] at h hm ⊢
      obtain ⟨hdst, hima', hstates⟩ := imaEncodeRound_spec hima (not_le.mp hsrc)
      have hround := imaDecode_encodeRound (not_le.mp hsrc) ima
      generalize imaEncodeRound channels src ima = round at hdst hima' hstates hround h hm ⊢
      obtain ⟨dst, ima', states⟩ := round
      dsimp only at hdst hima' hstates hround h hm ⊢
      obtain ⟨header, hheader⟩ : ∃ header, header = if n % b = 0 then imaHeader channels ima else [] :=
        ⟨_, rfl⟩
      rw [← hheader] at h hm ⊢
      have hpos : 0 < (header ++ dst.map UInt8.ofNat).length := by
        rw [List.length_append, List.length_map, hdst]
        split <;> omega
      replace ih := fun m => @ih ima' (n + (header ++ dst.map UInt8.ofNat).length) m
        (src.drop (imaAlign channels)) hima'
      generalize imaEncodeLoop channels b rounds (n + (header ++ dst.map UInt8.ofNat).length)
        (src.drop (imaAlign channels)) ima' = tail at ih h hm ⊢
      obtain ⟨out, ima'', more⟩ := tail
      dsimp only at ih h hm ⊢
      rw [List.length_append] at h hm
      obtain ⟨hmore, more', hout, hmore'⟩ := ih (m - 1) (by rwa [add_assoc]) (by omega)
      obtain ⟨states', hdecode, hstates'⟩ := hround out
      refine ⟨List.forall_mem_append.mpr ⟨hstates, hmore⟩, states' ++ more', ?_,
        List.forall_mem_append.mpr ⟨hstates', hmore'⟩⟩
      obtain ⟨m, rfl⟩ : ∃ k, m = k + 1 := ⟨m - 1, by omega⟩
      have hhead : imaBeginBlock channels b (header ++ dst.map UInt8.ofNat ++ out) ima =
          some (ima, dst.map UInt8.ofNat ++ out) := by
        rw [imaBeginBlock, List.length_append]
        by_cases hn : n % b = 0
        · rw [if_pos ((mod_left_eq_zero_iff h).mpr hn), hheader, if_pos hn, List.append_assoc,
            imaReadHeader_write hima]
        · rw [if_neg (fun hm => hn ((mod_left_eq_zero_iff h).mp hm)), hheader, if_neg hn, List.nil_append]
      rw [imaDecodeLoop, if_neg (by rw [List.length_append]; omega), hhead]
      simp only [Option.bind_eq_bind, Option.bind_some, hdecode, Nat.add_sub_cancel,
        Option.pure_def] at hout ⊢
      rw [hout]
      simp only [Option.bind_some, List.flatMap_append]

/-! ### Reconstruction -/

/-- The bytes of samples can be split between two samples. -/
theorem readInt16s_split (k : ℕ) (src : List UInt8) :
    readInt16s src = readInt16s (src.take (2 * k)) ++ readInt16s (src.drop (2 * k)) := by
  induction k generalizing src with
  | zero => rfl
  | succ k ih =>
    match src with
    | [] => rfl
    | [_] => rfl
    | lo :: hi :: src =>
      rw [Nat.mul_succ, List.take_succ_cons, List.take_succ_cons, List.drop_succ_cons, List.drop_succ_cons,
        readInt16s, readInt16s, ih src, List.cons_append]

/-- The `i`-th sample of the input: its channel encodes it. -/
def imaSample (channels i : ℕ) (sample : ℤ) (ima : Ima) : Option (ImaChannel × Ima) :=
  let channel := if channels > 1 then i % 2 else 0
  let c := (dspEncodeImaAdpcmSample sample (ima.get channel)).2
  some (c, ima.set channel c)

/-- The number of samples that are consumed: a round needs more bytes than it reads. -/
def imaConsumed (channels : ℕ) (src : List UInt8) : ℕ :=
  (src.length - 1) / imaAlign channels * (imaAlign channels / 2)

theorem scan_imaEncodeGroup (hstereo : channels > 1) {map : List (ℕ × ℕ)} {i j : ℕ} {samples : List ℤ}
    {dst : List ℕ} (hlength : samples.length = map.length) (hj : j % 2 = i % 2) :
    Iterate.scan (imaSample channels) j samples ima =
      some ((imaEncodeGroup map i samples dst ima).2.2, (imaEncodeGroup map i samples dst ima).2.1) := by
  induction map generalizing i j samples dst ima with
  | nil =>
    obtain rfl := List.length_eq_zero_iff.mp hlength
    rfl
  | cons entry map ih =>
    match samples, hlength with
    | sample :: samples, hlength =>
      have hsample : imaSample channels j sample ima =
          some ((dspEncodeImaAdpcmSample sample (ima.get (i % 2))).2,
            ima.set (i % 2) (dspEncodeImaAdpcmSample sample (ima.get (i % 2))).2) := by
        rw [imaSample, if_pos hstereo, hj]
      rw [Iterate.scan, hsample, Option.bind_some, ih (i := i + 1) (Nat.succ.inj hlength) (by omega)]
      rfl

theorem scan_imaEncodeRound (hsrc : imaAlign channels < src.length) {j : ℕ} (hj : j % 2 = 0) :
    Iterate.scan (imaSample channels) j (readInt16s (src.take (imaAlign channels))) ima =
      some ((imaEncodeRound channels src ima).2.2, (imaEncodeRound channels src ima).2.1) := by
  have hlength := length_readInt16s (src.take (imaAlign channels))
  rw [List.length_take_of_le hsrc.le] at hlength
  unfold imaEncodeRound
  dsimp only
  by_cases hstereo : channels > 1
  · rw [imaAlign, if_pos hstereo] at hlength ⊢
    rw [if_pos hstereo]
    exact scan_imaEncodeGroup hstereo hlength hj
  · rw [imaAlign, if_neg hstereo] at hlength ⊢
    rw [if_neg hstereo]
    match readInt16s (src.take 4), hlength with
    | [sample, sample'], _ =>
      simp only [Iterate.scan, imaSample, if_neg hstereo, Ima.get, Ima.set, if_true, Option.bind_some,
        Option.map_some, imaEncodePair]

/-- The encoder's states are those that its samples lead to, one after another. -/
theorem scan_imaEncodeLoop (hrounds : src.length ≤ rounds) {j : ℕ} (hj : j % 2 = 0) :
    Iterate.scan (imaSample channels) j ((readInt16s src).take (imaConsumed channels src)) ima =
      some ((imaEncodeLoop channels b rounds n src ima).2.2, (imaEncodeLoop channels b rounds n src ima).2.1) := by
  obtain ⟨k, hk, heven⟩ : ∃ k, imaAlign channels = 2 * k ∧ 0 < k ∧ k % 2 = 0 := by
    unfold imaAlign
    split
    · exact ⟨16, rfl, by decide, rfl⟩
    · exact ⟨2, rfl, by decide, rfl⟩
  induction rounds generalizing n src ima j with
  | zero =>
    obtain rfl := List.length_eq_zero_iff.mp (Nat.le_zero.mp hrounds)
    have hnone : imaConsumed channels [] = 0 := by simp [imaConsumed]
    rw [hnone]
    rfl
  | succ rounds ih =>
    rw [imaEncodeLoop]
    by_cases hsrc : src.length ≤ imaAlign channels
    · have hnone : imaConsumed channels src = 0 := by
        rw [imaConsumed, Nat.div_eq_of_lt (by omega), Nat.zero_mul]
      rw [if_pos hsrc, hnone]
      rfl
    · rw [if_neg hsrc]
      have hmore : imaConsumed channels src = k + imaConsumed channels (src.drop (imaAlign channels)) := by
        have hdiv : (src.length - 1) / (2 * k) = (src.length - 2 * k - 1) / (2 * k) + 1 := by
          rw [← Nat.add_div_right _ (by omega)]
          congr 1
          omega
        rw [imaConsumed, imaConsumed, List.length_drop, hk, hdiv, Nat.mul_div_cancel_left k (by decide),
          Nat.add_one_mul, Nat.add_comm]
      have hlength : (readInt16s (src.take (imaAlign channels))).length = k := by
        rw [length_readInt16s, List.length_take_of_le (by omega), hk, Nat.mul_div_cancel_left k (by decide)]
      have htake : (readInt16s src).take (k + imaConsumed channels (src.drop (imaAlign channels))) =
          readInt16s (src.take (imaAlign channels)) ++ (readInt16s (src.drop (imaAlign channels))).take
            (imaConsumed channels (src.drop (imaAlign channels))) := by
        rw [readInt16s_split k src, ← hk, List.take_append, hlength, List.take_of_length_le (by omega),
          Nat.add_sub_cancel_left]
      rw [hmore, htake, Iterate.scan_append, scan_imaEncodeRound (not_le.mp hsrc) hj, Option.bind_some, hlength,
        ih (by rw [List.length_drop]; omega) (by omega)]
      rfl

theorem imaConsumed_le (channels : ℕ) (src : List UInt8) : imaConsumed channels src ≤ (readInt16s src).length := by
  have hle := Nat.div_mul_le_self (src.length - 1) (imaAlign channels)
  rw [length_readInt16s, imaConsumed]
  unfold imaAlign at hle ⊢
  by_cases hstereo : channels > 1
  · rw [if_pos hstereo] at hle ⊢
    omega
  · rw [if_neg hstereo] at hle ⊢
    omega

/-- The decoder puts out what the encoder has reconstructed: one sample after another, all that it has consumed.
Both stay inside of the tables. -/
theorem ima_lockstep (channels b : ℕ) (src : List UInt8)
    (h : b ∣ (freerdpDspEncodeImaAdpcm channels b src Ima.zero).1.length) :
    Iterate.scan (imaSample channels) 0 ((readInt16s src).take (imaConsumed channels src)) Ima.zero =
      some ((freerdpDspEncodeImaAdpcm channels b src Ima.zero).2.2,
        (freerdpDspEncodeImaAdpcm channels b src Ima.zero).2.1) ∧
      (freerdpDspEncodeImaAdpcm channels b src Ima.zero).2.2.length = imaConsumed channels src ∧
      (∀ c ∈ (freerdpDspEncodeImaAdpcm channels b src Ima.zero).2.2, 0 ≤ c.lastStep ∧ c.lastStep ≤ 88) ∧
      ∃ ima states, freerdpDspDecodeImaAdpcm channels b (freerdpDspEncodeImaAdpcm channels b src Ima.zero).1
          Ima.zero =
        some ((freerdpDspEncodeImaAdpcm channels b src Ima.zero).2.2.flatMap fun c =>
          writeInt16 c.lastSample, ima, states) ∧ ∀ c ∈ states, 0 ≤ c.lastStep ∧ c.lastStep ≤ 88 := by
  unfold freerdpDspEncodeImaAdpcm at h ⊢
  obtain ⟨hstates, states, hdecode, hstates'⟩ :=
    imaDecode_encodeLoop Ima.valid_zero (n := 0) (by rwa [Nat.zero_add]) le_rfl
  have hscan : Iterate.scan (imaSample channels) 0 _ Ima.zero =
      some ((imaEncodeLoop channels b src.length 0 src Ima.zero).2.2, _) :=
    scan_imaEncodeLoop (Nat.le_refl src.length) rfl
  have hlength := Iterate.length_scan hscan
  rw [List.length_take_of_le (imaConsumed_le channels src)] at hlength
  exact ⟨hscan, hlength, fun c hc => ⟨(hstates c hc).step_nonneg, (hstates c hc).step_le⟩, _, states, hdecode,
    fun c hc => ⟨(hstates' c hc).step_nonneg, (hstates' c hc).step_le⟩⟩

theorem ima_lockstep_example :
    let src := [0, 0, 232, 3, 208, 7, 184, 11, 24, 252, 48, 248, 0, 0, 255, 127, 0, 128, 1, 0]
    ∃ ima states, freerdpDspDecodeImaAdpcm 1 6 (freerdpDspEncodeImaAdpcm 1 6 src Ima.zero).1 Ima.zero =
      some ((freerdpDspEncodeImaAdpcm 1 6 src Ima.zero).2.2.flatMap fun c => writeInt16 c.lastSample, ima,
        states) ∧ ∀ c ∈ states, 0 ≤ c.lastStep ∧ c.lastStep ≤ 88 :=
  (ima_lockstep 1 6 [0, 0, 232, 3, 208, 7, 184, 11, 24, 252, 48, 248, 0, 0, 255, 127, 0, 128, 1, 0]
    (by decide +kernel)).2.2.2

end FreeRDP.Dsp
