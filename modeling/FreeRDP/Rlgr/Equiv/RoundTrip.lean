import FreeRDP.Rlgr.Equiv.Decoder

/-!
# Decoding what was encoded

`Coded mode kp krp data bits out` says that the encoder, from the parameters `kp` and `krp` on, codes
the coefficients `data` as `bits`, and that these bits stand for the coefficients `out`.  The run
lemmas of the two sides are inductions on it: `Coded.encode` for the encoder, `Coded.decode` for the
decoder, and `Coded.agrees` compares `out` with `data`.
-/

namespace FreeRDP.Rlgr

open BitField BitList Iterate

variable {mode : Mode} {kp krp n : ℕ} {data out : List Int16} {bits : List Bool}

/-- The coding of a block, round by round. -/
inductive Coded (mode : Mode) : ℕ → ℕ → List Int16 → List Bool → List Int16 → Prop
  | nil {kp krp : ℕ} : Coded mode kp krp [] [] []
  | cons {kp krp kp' krp' : ℕ} {data rest o os : List Int16} {b bs : List Bool} :
      Round mode kp krp data b kp' krp' rest o → Writes mode kp krp data b kp' krp' rest →
      Coded mode kp' krp' rest bs os → Coded mode kp krp data (b ++ bs) (o ++ os)

/-- The state `e'` comes up when the main loop of `rfx_rlgr_encode` runs from `e`. -/
def Reaches (mode : Mode) : Encoder → Encoder → Prop :=
  Relation.ReflTransGen fun e e' => encodeStep mode e = .inl e'

/-! ### Rounds and their coefficients -/

theorem Round.ne_nil {kp' krp' : ℕ} {rest : List Int16}
    (h : Round mode kp krp data bits kp' krp' rest out) : data ≠ [] := by
  cases h <;> simp

theorem Round.bits_pos {kp' krp' : ℕ} {rest : List Int16}
    (h : Round mode kp krp data bits kp' krp' rest out) : 0 < bits.length := by
  cases h with
  | run => simp [runBits]
  | single => simp [grBits]
  | pair => simp [pairBits, grBits]

/-- What a reader puts out after a round: the coefficients of the round; or, at the end of the data,
these with padding behind them; or, at the end of a run of zeros, a one in place of the last. -/
theorem Round.cases_out {kp' krp' : ℕ} {rest : List Int16}
    (h : Round mode kp krp data bits kp' krp' rest out) :
    data = out ++ rest ∨ (rest = [] ∧ out = data ++ [0]) ∨
      (rest = [] ∧ kp >>> LSGR ≠ 0 ∧ (∀ v ∈ data, v = 0) ∧ out = data.dropLast ++ [1]) := by
  cases h with
  | @run _ _ _ zeros _ _ _ v _ hk hlast hsplit =>
    by_cases hv : v = 0
    · refine Or.inr (Or.inr ⟨hlast hv, hk, ?_, ?_⟩)
      · rw [hlast hv, hv]
        intro w hw
        rcases List.mem_append.mp hw with hw | hw
        · exact List.eq_of_mem_replicate hw
        · exact List.mem_singleton.mp hw
      · rw [hlast hv, List.dropLast_concat, if_pos hv]
    · rw [if_neg hv]
      exact Or.inl (by simp)
  | single => exact Or.inl rfl
  | @pair _ _ v tail hk =>
    cases tail with
    | nil => exact Or.inr (Or.inl ⟨rfl, rfl⟩)
    | cons w tail => exact Or.inl rfl

theorem Round.length_eq {kp' krp' : ℕ} {rest : List Int16}
    (h : Round mode kp krp data bits kp' krp' rest out) :
    min data.length out.length + rest.length = data.length := by
  have hne := List.length_pos_of_ne_nil h.ne_nil
  rcases h.cases_out with h | ⟨rfl, rfl⟩ | ⟨rfl, -, -, rfl⟩
  · rw [h, List.length_append]
    omega
  · simp
  · rw [List.length_append, List.length_dropLast, List.length_singleton, List.length_nil]
    omega

/-! ### The encoder -/

/-- Every block that is not too long is coded, where the pairs of `RLGR3` fit 16 bits. -/
theorem exists_coded {bs : RfxBitstream} {l : List Bool} (hkp : kp ≤ KPMAX) (hkrp : krp ≤ KPMAX)
    (hlen : data.length ≤ 2 ^ 31) (hbs : bs.Wrote n l)
    (hsum : ∀ e, Reaches mode (encoderOf kp krp data bs) e → e.data ≠ [] → mode = .rlgr3 →
      e.k = 0 → pairSum e.data < 2 ^ 16) :
    ∃ bits out, Coded mode kp krp data bits out := by
  induction hm : data.length using Nat.strong_induction_on generalizing kp krp data bs l with
  | _ m ih =>
    by_cases hne : data = []
    · rw [hne]
      exact ⟨[], [], .nil⟩
    obtain ⟨b, kp', krp', rest, o, hround, hkp', hkrp', hwrites⟩ := exists_round hkp hkrp hne hlen
      (fun (hmode : mode = .rlgr3) hk => hsum (encoderOf kp krp data bs) .refl hne hmode hk)
    have hshorter : rest.length < data.length := by
      have hpos := List.length_pos_of_ne_nil hne
      have hlength := hround.length_eq
      have hout : 0 < o.length := by cases hround <;> simp
      omega
    obtain ⟨bs', hstep, hbs'⟩ := hwrites n l bs hbs
    obtain ⟨bits, out, hcoded⟩ := ih rest.length (by omega) hkp' hkrp' (by omega) hbs'
      (fun e he => hsum e (.head hstep he)) rfl
    exact ⟨b ++ bits, o ++ out, .cons hround hwrites hcoded⟩

theorem exists_coded_start {bufferSize : ℕ} (hlen : data.length ≤ 2 ^ 31)
    (hsize : bufferSize < 2 ^ 31)
    (hsum : ∀ e, Reaches mode (startEncoder data (fun _ => 0) bufferSize) e → e.data ≠ [] →
      mode = .rlgr3 → e.k = 0 → pairSum e.data < 2 ^ 16) :
    ∃ bits out, Coded mode (1 <<< LSGR) (1 <<< LSGR) data bits out := by
  have hstart : 1 <<< LSGR ≤ KPMAX := by decide
  exact exists_coded hstart hstart hlen (RfxBitstream.wrote_attach hsize) hsum

theorem encodeStep_nil (bs : RfxBitstream) :
    encodeStep mode (encoderOf kp krp [] bs) = .inr (some bs) := by
  unfold encodeStep
  exact if_neg (Nat.lt_irrefl 0)

/-- The encoder's loop ends with the bits of the block in its stream. -/
theorem Coded.encode (h : Coded mode kp krp data bits out) {bs : RfxBitstream} {l : List Bool}
    (hbs : bs.Wrote n l) {rounds : ℕ} (hrounds : data.length < rounds) :
    ∃ bs', iterate (encodeStep mode) rounds (encoderOf kp krp data bs) = some (some bs') ∧
      bs'.Wrote n (l ++ bits) := by
  induction h generalizing bs l rounds with
  | nil =>
    obtain ⟨rounds, rfl⟩ : ∃ r, rounds = r + 1 := ⟨rounds - 1, by omega⟩
    refine ⟨bs, ?_, by simpa using hbs⟩
    exact iterate_inr (encodeStep_nil bs) rounds
  | @cons kp krp kp' krp' data rest o os b bits hround hwrites hcoded ih =>
    obtain ⟨rounds, rfl⟩ : ∃ r, rounds = r + 1 := ⟨rounds - 1, by omega⟩
    have hlength := hround.length_eq
    have hpos := List.length_pos_of_ne_nil hround.ne_nil
    have hout : 0 < o.length := by cases hround <;> simp
    obtain ⟨bs1, hstep, hbs1⟩ := hwrites n l bs hbs
    obtain ⟨bs', heq, hbs'⟩ := ih hbs1 (show rest.length < rounds by omega)
    refine ⟨bs', ?_, by rwa [List.append_assoc] at hbs'⟩
    rw [iterate_inl hstep, heq]

/-- The bits that `rfx_rlgr_encode` puts into its buffer: the code and the padding. -/
def padded (bits : List Bool) : List Bool := bits ++ List.replicate (bits.length % 8) false

theorem rfxRlgrEncode_coded (h : Coded mode (1 <<< LSGR) (1 <<< LSGR) data bits out)
    {bufferSize : ℕ} (hsize : bufferSize < 2 ^ 31) :
    ∃ e, rfxRlgrEncode mode data (fun _ => 0) bufferSize = some e ∧
      e.processedSize = min (((padded bits).length + 7) / 8) bufferSize ∧
      ∀ i, byteBit e.buffer i = ((padded bits).take (8 * bufferSize)).getD i false := by
  obtain ⟨bs, heq, hbs⟩ := h.encode (RfxBitstream.wrote_attach hsize) (Nat.lt_succ_self _)
  have hflush := hbs.flush
  refine ⟨⟨bs.flush.processedBytes, bs.flush.buffer⟩, ?_, hflush.processedBytes, hflush.bit⟩
  unfold rfxRlgrEncode
  rw [show startEncoder data (fun _ => 0) bufferSize =
    encoderOf (1 <<< LSGR) (1 <<< LSGR) data (.attach (fun _ => 0) bufferSize) from rfl, heq]

/-! ### The decoder -/

theorem take_take_append {α : Type} (n : ℕ) (l m : List α) :
    (l.take n ++ m).take n = (l ++ m).take n := by
  rw [List.take_append, List.take_append, List.take_take, Nat.min_self, List.length_take]
  congr 2
  omega

theorem Coded.of_nil (h : Coded mode kp krp [] bits out) : bits = [] ∧ out = [] := by
  cases h with
  | nil => exact ⟨rfl, rfl⟩
  | cons hround => exact absurd rfl hround.ne_nil

theorem decodeStep_of_ok {dstSize : ℕ} {d d' : Decoder} (hremaining : 0 < d.bs.remainingLength)
    (hroom : d.output.length < dstSize) (h : decodeRound mode dstSize d = .ok d') :
    decodeStep mode dstSize d = .inl d' := by
  unfold decodeStep
  rw [if_pos ⟨hremaining, hroom⟩, h]

/-- The decoder's loop ends with the coefficients the bits stand for, as many as it has room for. -/
theorem Coded.decode (h : Coded mode kp krp data bits out) {bit : ℕ → Bool} {len p dstSize : ℕ}
    {d : Decoder} {bs : RfxBitstream} {l : List Bool} (hbs : bs.Wrote n l)
    (hd : d.Holds bit len p kp krp) (hshows : Shows bit p bits) (hlen : p + bits.length ≤ len)
    (hdst : d.output.length + data.length = dstSize) (hdst' : dstSize ≤ 2 ^ 31)
    (hsum : ∀ e, Reaches mode (encoderOf kp krp data bs) e → e.data ≠ [] → mode = .rlgr3 →
      e.k = 0 → pairSum e.data < 2 ^ 15)
    {rounds : ℕ} (hrounds : bits.length < rounds) :
    iterate (decodeStep mode dstSize) rounds d = some (some ((d.output ++ out).take dstSize)) := by
  induction h generalizing p d bs l rounds with
  | nil =>
    obtain ⟨rounds, rfl⟩ : ∃ r, rounds = r + 1 := ⟨rounds - 1, by omega⟩
    have hfull : d.output.length = dstSize := by simpa using hdst
    have hexit : decodeStep mode dstSize d = .inr (some d.output) := by
      unfold decodeStep
      rw [if_neg (by omega)]
    rw [iterate_inr hexit, List.append_nil, List.take_of_length_le hfull.le]
  | @cons kp krp kp' krp' data rest o os b bits hround hwrites hcoded ih =>
    obtain ⟨rounds, rfl⟩ : ∃ r, rounds = r + 1 := ⟨rounds - 1, by omega⟩
    rw [List.length_append] at hlen hrounds
    rw [shows_append] at hshows
    have hpos := hround.bits_pos
    have hne := List.length_pos_of_ne_nil hround.ne_nil
    have hlength := hround.length_eq
    obtain ⟨d', heq, hd', hout⟩ := decodeRound_spec hround hd hshows.1 (by omega) hdst hdst'
      (fun hmode hk => hsum (encoderOf kp krp data bs) .refl hround.ne_nil hmode hk)
    obtain ⟨bs', hstep, hbs'⟩ := hwrites n l bs hbs
    have hroom : d'.output.length + rest.length = dstSize := by
      rw [hout, List.length_take, List.length_append]
      omega
    rw [iterate_inl (decodeStep_of_ok (by rw [hd.stands.remaining]; omega) (by omega) heq),
      ih hbs' hd' hshows.2 (by omega) hroom (fun e he => hsum e (.head hstep he)) (by omega), hout,
      take_take_append, List.append_assoc]

/-! ### What comes back -/

/-- From the state `e` on, the encoder reaches the last coefficient inside a run of zeros. -/
def EndsInRun (mode : Mode) (e : Encoder) : Prop :=
  ∃ e', Reaches mode e e' ∧ e'.data ≠ [] ∧ e'.k ≠ 0 ∧ ∀ v ∈ e'.data, v = 0

/-- The coefficients `out` are those of the block `data`, except that the last one may differ where
the encoder reaches it inside a run of zeros. -/
def AgreesUpToRun (mode : Mode) (e : Encoder) (data out : List Int16) : Prop :=
  out = data ∨ (EndsInRun mode e ∧ out.length = data.length ∧ out.dropLast = data.dropLast)

theorem EndsInRun.head {e e' : Encoder} (hstep : encodeStep mode e = .inl e')
    (h : EndsInRun mode e') : EndsInRun mode e := by
  obtain ⟨e'', hreach, hend⟩ := h
  exact ⟨e'', .head hstep hreach, hend⟩

theorem AgreesUpToRun.append {e e' : Encoder} {rest t : List Int16}
    (hstep : encodeStep mode e = .inl e') (h : AgreesUpToRun mode e' rest t) (o : List Int16) :
    AgreesUpToRun mode e (o ++ rest) (o ++ t) := by
  rcases h with rfl | ⟨hend, hlen, hdrop⟩
  · exact Or.inl rfl
  · refine Or.inr ⟨hend.head hstep, by rw [List.length_append, List.length_append, hlen], ?_⟩
    by_cases hne : rest = []
    · obtain rfl : t = [] := by
        rw [hne] at hlen
        exact List.eq_nil_of_length_eq_zero hlen
      rw [hne]
    · have hne' : t ≠ [] := by
        rintro rfl
        exact hne (List.eq_nil_of_length_eq_zero hlen.symm)
      rw [List.dropLast_append_of_ne_nil hne', List.dropLast_append_of_ne_nil hne, hdrop]

/-- The coefficients that the bits of a block stand for agree with the block. -/
theorem Coded.agrees (h : Coded mode kp krp data bits out) {bs : RfxBitstream} {l : List Bool}
    (hbs : bs.Wrote n l) :
    AgreesUpToRun mode (encoderOf kp krp data bs) data (out.take data.length) := by
  induction h generalizing bs l with
  | nil => exact Or.inl rfl
  | @cons kp krp kp' krp' data rest o os b bits hround hwrites hcoded ih =>
    obtain ⟨bs', hstep, hbs'⟩ := hwrites n l bs hbs
    rcases hround.cases_out with hdata | ⟨rfl, rfl⟩ | ⟨rfl, hk, hzero, rfl⟩
    · have hagrees := (ih hbs').append hstep o
      rwa [← hdata, ← List.take_length_add_append, ← List.length_append, ← hdata] at hagrees
    · refine Or.inl ?_
      rw [hcoded.of_nil.2, List.append_nil, List.take_left]
    · have hpos := List.length_pos_of_ne_nil hround.ne_nil
      have hlen : (data.dropLast ++ [1]).length = data.length := by
        rw [List.length_append, List.length_dropLast, List.length_singleton]
        omega
      refine Or.inr ⟨⟨_, .refl, hround.ne_nil, hk, hzero⟩, ?_, ?_⟩
      · rw [hcoded.of_nil.2, List.append_nil, List.take_of_length_le hlen.le, hlen]
      · rw [hcoded.of_nil.2, List.append_nil, List.take_of_length_le hlen.le, List.dropLast_concat]

theorem holds_startDecoder {src : ℕ → UInt8} {srcSize : ℕ} (h : srcSize < 2 ^ 28) :
    (startDecoder src srcSize).Holds (byteBit fun i => if i < srcSize then src i else 0)
      (8 * srcSize) 0 (1 <<< LSGR) (1 <<< LSGR) where
  stands := ⟨BitStream.readsAt_fetch _ _ _, rfl, by
    show srcSize * 8 % 2 ^ 32 = 8 * srcSize
    omega, Nat.zero_le _, by omega⟩
  k_eq := rfl
  kp_eq := rfl
  kr_eq := rfl
  krp_eq := rfl
  kp_le := by decide
  krp_le := by decide

/-- A longer buffer would not make the encoding longer: the encoder never runs out of room.  The
size is an `int`. -/
def NeverFull (mode : Mode) (data : List Int16) (bufferSize : ℕ) : Prop :=
  bufferSize < 2 ^ 31 ∧ ∀ size, bufferSize ≤ size → size < 2 ^ 31 →
    (rfxRlgrEncode mode data (fun _ => 0) size).map Encoded.processedSize =
      (rfxRlgrEncode mode data (fun _ => 0) bufferSize).map Encoded.processedSize

theorem NeverFull.room (h : Coded mode (1 <<< LSGR) (1 <<< LSGR) data bits out) {bufferSize : ℕ}
    (hfull : NeverFull mode data bufferSize) {e : Encoded}
    (he : rfxRlgrEncode mode data (fun _ => 0) bufferSize = some e)
    (hshort : e.processedSize < 2 ^ 28) :
    (padded bits).length ≤ 8 * bufferSize ∧ e.processedSize = ((padded bits).length + 7) / 8 := by
  obtain ⟨e', he', hsize', -⟩ := rfxRlgrEncode_coded h hfull.1
  obtain ⟨e'', he'', hsize'', -⟩ := rfxRlgrEncode_coded h (show 2 ^ 31 - 1 < 2 ^ 31 by omega)
  have hsame := hfull.2 (2 ^ 31 - 1) (by have := hfull.1; omega) (by omega)
  rw [he', he''] at hsame
  obtain rfl : e' = e := by rw [he'] at he; exact Option.some.inj he
  have hsame' : e''.processedSize = e'.processedSize := Option.some.inj hsame
  omega

theorem neverFull_of_lt (h : Coded mode (1 <<< LSGR) (1 <<< LSGR) data bits out) {bufferSize : ℕ}
    (hsize : bufferSize < 2 ^ 31) {e : Encoded}
    (he : rfxRlgrEncode mode data (fun _ => 0) bufferSize = some e)
    (hlt : e.processedSize < bufferSize) : NeverFull mode data bufferSize := by
  refine ⟨hsize, fun size hle hsize' => ?_⟩
  obtain ⟨e', he', hprocessed', -⟩ := rfxRlgrEncode_coded h hsize'
  obtain ⟨e'', he'', hprocessed'', -⟩ := rfxRlgrEncode_coded h hsize
  obtain rfl : e'' = e := by rw [he''] at he; exact Option.some.inj he
  rw [he', he'', Option.map_some, Option.map_some]
  congr 1
  omega

/-- The bits of the code stand at the front of the processed bytes. -/
theorem shows_processed {bufferSize : ℕ} {e : Encoded}
    (hbit : ∀ i, byteBit e.buffer i = ((padded bits).take (8 * bufferSize)).getD i false)
    (hroom : (padded bits).length ≤ 8 * bufferSize)
    (hsize : e.processedSize = ((padded bits).length + 7) / 8) :
    Shows (byteBit fun i => if i < e.processedSize then e.buffer i else 0) 0 bits := by
  have hpadded : bits.length ≤ (padded bits).length := by simp [padded]
  rw [shows_iff]
  intro i hi
  have hin : i / 8 < e.processedSize := by omega
  have hsame : byteBit (fun j => if j < e.processedSize then e.buffer j else 0) (0 + i) =
      byteBit e.buffer i := by
    unfold byteBit
    dsimp only
    rw [Nat.zero_add, if_pos hin]
  rw [hsame, hbit, List.take_of_length_le hroom, padded, List.getD_append _ _ _ _ hi,
    List.getD_eq_getElem _ _ hi]

/-- Decoding the encoding of a block gives the block back, where the pairs of `RLGR3` have sums
below `2 ^ 15`. -/
theorem decode_encode (hlen : data.length ≤ 2 ^ 31) {bufferSize : ℕ}
    (hfull : NeverFull mode data bufferSize) (hne : data ≠ [])
    (hcoded : Coded mode (1 <<< LSGR) (1 <<< LSGR) data bits out) {e : Encoded}
    (he : rfxRlgrEncode mode data (fun _ => 0) bufferSize = some e)
    (hshort : e.processedSize < 2 ^ 28)
    (hsum : ∀ e, Reaches mode (startEncoder data (fun _ => 0) bufferSize) e → e.data ≠ [] →
      mode = .rlgr3 → e.k = 0 → pairSum e.data < 2 ^ 15) :
    rfxRlgrDecode mode e.buffer e.processedSize data.length =
      some (1, out.take data.length) := by
  obtain ⟨hroom, hsize⟩ := hfull.room hcoded he hshort
  obtain ⟨e', he', -, hbit⟩ := rfxRlgrEncode_coded hcoded hfull.1
  obtain rfl : e' = e := by rw [he'] at he; exact Option.some.inj he
  have hpadded : bits.length ≤ (padded bits).length := by simp [padded]
  have hpos : 0 < bits.length := by
    cases hcoded with
    | nil => exact absurd rfl hne
    | cons hround =>
      rw [List.length_append]
      have := hround.bits_pos
      omega
  have hloop := hcoded.decode (d := startDecoder e'.buffer e'.processedSize)
    (RfxBitstream.wrote_attach hfull.1) (holds_startDecoder hshort)
    (shows_processed hbit hroom hsize) (by omega) (Nat.zero_add _) hlen hsum
    (show bits.length < 8 * e'.processedSize + 1 by omega)
  have hagrees := hcoded.agrees (RfxBitstream.wrote_attach hfull.1)
  have hlength : (out.take data.length).length = data.length := by
    rcases hagrees with h | ⟨-, h, -⟩
    · rw [h]
    · exact h
  unfold rfxRlgrDecode
  rw [if_neg (by have := List.length_pos_of_ne_nil hne; omega), hloop]
  show finishDecode data.length (out.take data.length) = _
  unfold finishDecode
  rw [if_neg (by omega)]

/-! ### `RLGR1` -/

/-- `RLGR1`: a block whose encoding is shorter than `2 ^ 28` bytes comes back, up to a last
coefficient inside a run of zeros.  The bound keeps the decoder's count of the bits that are left,
an `int`, positive; the bound on the block keeps the encoder's count of zeros, also an `int`, in
range. -/
theorem rfxRlgrDecode_rfxRlgrEncode (data : List Int16) (bufferSize : ℕ) (hne : data ≠ [])
    (hlen : data.length ≤ 2 ^ 31) (hfull : NeverFull .rlgr1 data bufferSize) :
    ∃ e, rfxRlgrEncode .rlgr1 data (fun _ => 0) bufferSize = some e ∧
      (e.processedSize < 2 ^ 28 →
        ∃ out, rfxRlgrDecode .rlgr1 e.buffer e.processedSize data.length = some (1, out) ∧
          AgreesUpToRun .rlgr1 (startEncoder data (fun _ => 0) bufferSize) data out) := by
  obtain ⟨bits, out, hcoded⟩ := exists_coded_start hlen hfull.1
    (fun _ _ _ (h : Mode.rlgr1 = .rlgr3) => absurd h Mode.noConfusion)
  obtain ⟨e, he, -, -⟩ := rfxRlgrEncode_coded hcoded hfull.1
  refine ⟨e, he, fun hshort => ⟨out.take data.length, ?_, ?_⟩⟩
  · exact decode_encode hlen hfull hne hcoded he hshort (fun _ _ _ h => by contradiction)
  · exact hcoded.agrees (RfxBitstream.wrote_attach hfull.1)

/-- With `2 ^ 31` bits or more to read, the first count of leading zeros is negative. -/
theorem rfxRlgrDecode_of_long {src : ℕ → UInt8} {srcSize dstSize : ℕ} (hlo : 2 ^ 28 ≤ srcSize)
    (hhi : srcSize < 2 ^ 29) (hdst : 0 < dstSize) :
    rfxRlgrDecode mode src srcSize dstSize = none := by
  have hremaining : (startDecoder src srcSize).bs.remainingLength = 8 * srcSize := by
    show (srcSize * 8 % 2 ^ 32 + 2 ^ 32 - 0) % 2 ^ 32 = 8 * srcSize
    omega
  have hunary : readUnary false (startDecoder src srcSize).bs = .error .undefined := by
    unfold readUnary
    rw [hremaining, if_pos (by omega)]
  have hround : decodeRound mode dstSize (startDecoder src srcSize) = .error .undefined := by
    unfold decodeRound
    rw [if_pos (show (startDecoder src srcSize).k ≠ 0 from Nat.one_ne_zero)]
    unfold runLengthRound
    rw [hunary]
    rfl
  have hstep : decodeStep mode dstSize (startDecoder src srcSize) = .inr none := by
    unfold decodeStep
    rw [hremaining, if_pos ⟨by omega, hdst⟩, hround]
  unfold rfxRlgrDecode
  rw [if_neg (by omega), iterate_inr hstep]

theorem Round.of_one {kp' krp' : ℕ} {rest : List Int16}
    (h : Round .rlgr1 kp krp (1 :: data) bits kp' krp' rest out) :
    rest = data ∧ if kp >>> LSGR = 0 then
      bits.length = 2 >>> (krp >>> LSGR) + 1 + krp >>> LSGR ∧ kp' = lower kp DQ_GR ∧
        krp' = nextKrp krp (2 >>> (krp >>> LSGR))
    else bits.length = 1 + kp >>> LSGR + 1 + (1 + krp >>> LSGR) ∧ kp' = lower kp DN_GR ∧
      krp' = nextKrp krp 0 := by
  generalize hd : 1 :: data = block at h
  cases h with
  | @run _ _ _ zeros vk kp1 r v _ hk hlast hsplit =>
    rw [if_neg hk]
    cases zeros with
    | succ zeros => simp [List.replicate_succ] at hd
    | zero =>
      obtain ⟨rfl, rfl⟩ : 1 = v ∧ data = rest := by simpa using hd
      cases hsplit with
      | more hle => simp [Nat.one_shiftLeft] at hle
      | done =>
        have hmag : magnitude 1 - 1 = 0 := by decide
        refine ⟨rfl, ?_, rfl, by rw [hmag, Nat.zero_shiftRight]⟩
        unfold runBits grBits
        rw [hmag, Nat.zero_shiftRight]
        simp
        omega
  | @single _ _ v _ hk =>
    obtain ⟨rfl, rfl⟩ : 1 = v ∧ data = rest := by simpa using hd
    have hmag : get2MagSign 1 = 2 := by decide
    rw [if_pos hk, hmag, length_grBits]
    exact ⟨rfl, rfl, rfl, rfl⟩

/-- Once `kp` and `krp` have settled, a one takes three bits. -/
theorem Coded.length_ones (h : Coded .rlgr1 kp krp data bits out) {m : ℕ} (hkp : kp = 0)
    (hkrp : krp = 8) (hdata : data = List.replicate m 1) : bits.length = 3 * m := by
  induction h generalizing m with
  | nil =>
    obtain rfl : m = 0 := by simpa using hdata.symm
    rfl
  | @cons kp krp kp' krp' data rest o os b bits hround hwrites hcoded ih =>
    subst hkp hkrp
    obtain ⟨m, rfl⟩ : ∃ k, m = k + 1 := by
      refine ⟨m - 1, ?_⟩
      have hne := hround.ne_nil
      rw [hdata] at hne
      have : m ≠ 0 := fun h => hne (by rw [h]; rfl)
      omega
    rw [hdata, List.replicate_succ] at hround
    obtain ⟨rfl, hone⟩ := hround.of_one
    rw [if_pos (by decide)] at hone
    obtain ⟨hlen, rfl, rfl⟩ := hone
    rw [List.length_append, ih (by decide) (by decide) rfl, hlen]
    show 3 + 3 * m = 3 * (m + 1)
    omega

/-- The code of a block of ones: five bits for the first, three for each other one. -/
theorem length_ones {m : ℕ}
    (h : Coded .rlgr1 (1 <<< LSGR) (1 <<< LSGR) (List.replicate (m + 2) 1) bits out) :
    bits.length = 3 * (m + 2) + 2 := by
  generalize hdata : List.replicate (m + 2) (1 : Int16) = block at h
  cases h with
  | nil => simp [List.replicate_succ] at hdata
  | @cons _ _ kp1 krp1 _ rest1 o1 _ b1 bits1 hround1 _ hcoded1 =>
    rw [← hdata, List.replicate_succ] at hround1
    obtain ⟨rfl, hone1⟩ := hround1.of_one
    rw [if_neg (by decide)] at hone1
    obtain ⟨hlen1, rfl, rfl⟩ := hone1
    generalize hdata' : List.replicate (m + 1) (1 : Int16) = block' at hcoded1
    cases hcoded1 with
    | nil => simp [List.replicate_succ] at hdata'
    | @cons _ _ kp2 krp2 _ rest2 o2 _ b2 bits2 hround2 _ hcoded2 =>
      rw [← hdata', List.replicate_succ] at hround2
      obtain ⟨rfl, hone2⟩ := hround2.of_one
      rw [if_pos (by decide)] at hone2
      obtain ⟨hlen2, rfl, rfl⟩ := hone2
      rw [List.length_append, List.length_append, hlen1, hlen2,
        hcoded2.length_ones (by decide) (by decide) rfl]
      show 5 + (3 + 3 * m) = 3 * (m + 2) + 2
      omega

/-- The number of bytes that a block of `m + 2` ones needs, with the padding of the last byte. -/
def onesSize (m : ℕ) : ℕ := (3 * (m + 2) + 2 + (3 * (m + 2) + 2) % 8 + 7) / 8

theorem encode_ones {m size : ℕ} (hm : m + 2 ≤ 2 ^ 31) (hsize : size < 2 ^ 31)
    (hroom : onesSize m ≤ size) :
    ∃ e, rfxRlgrEncode .rlgr1 (List.replicate (m + 2) 1) (fun _ => 0) size = some e ∧
      e.processedSize = onesSize m := by
  have hlen : (List.replicate (m + 2) (1 : Int16)).length ≤ 2 ^ 31 := by
    rw [List.length_replicate]
    exact hm
  obtain ⟨bits, out, hcoded⟩ := exists_coded_start hlen hsize
    (fun _ _ _ (h : Mode.rlgr1 = .rlgr3) => absurd h Mode.noConfusion)
  obtain ⟨e, he, hprocessed, -⟩ := rfxRlgrEncode_coded hcoded hsize
  refine ⟨e, he, ?_⟩
  rw [hprocessed, padded, List.length_append, List.length_replicate, length_ones hcoded]
  exact Nat.min_eq_left hroom

theorem neverFull_ones {m size : ℕ} (hm : m + 2 ≤ 2 ^ 31) (hsize : size < 2 ^ 31)
    (hroom : onesSize m ≤ size) : NeverFull .rlgr1 (List.replicate (m + 2) 1) size := by
  refine ⟨hsize, fun size' hle hlt => ?_⟩
  obtain ⟨e, he, hprocessed⟩ := encode_ones hm hlt (hroom.trans hle)
  obtain ⟨e', he', hprocessed'⟩ := encode_ones hm hsize hroom
  rw [he, he', Option.map_some, Option.map_some, hprocessed, hprocessed']

theorem collectZeros_overflow {m numZeros : ℕ} (h : 2 ^ 31 ≤ numZeros + m)
    (hlt : numZeros < 2 ^ 31) : collectZeros (List.replicate m 0) 0 numZeros = none := by
  induction m generalizing numZeros with
  | zero => omega
  | succ m ih =>
    rw [List.replicate_succ, collectZeros, if_pos rfl]
    split_ifs with hroom
    · exact ih (by omega) hroom
    · rfl

/-- A block of more than `2 ^ 31` zeros overflows the count of zeros. -/
theorem encode_zeros {m size : ℕ} (h : 2 ^ 31 ≤ m) :
    rfxRlgrEncode mode (List.replicate (m + 1) 0) (fun _ => 0) size = none := by
  have hstep : encodeStep mode (startEncoder (List.replicate (m + 1) 0) (fun _ => 0) size) =
      .inr none := by
    have hgo : (startEncoder (List.replicate (m + 1) 0) (fun _ => 0) size).data.length > 0 := by
      show (List.replicate (m + 1) (0 : Int16)).length > 0
      simp
    have hk : (startEncoder (List.replicate (m + 1) 0) (fun _ => 0) size).k ≠ 0 := Nat.one_ne_zero
    have hnext : getNextInput (startEncoder (List.replicate (m + 1) 0) (fun _ => 0) size).data =
        (0, List.replicate m 0) := rfl
    unfold encodeStep
    rw [if_pos hgo, if_pos hk, hnext]
    dsimp only
    rw [collectZeros_overflow (by omega) (by omega)]
  unfold rfxRlgrEncode
  rw [iterate_inr hstep]

/-- The two limits are sharp: `(2 ^ 31 - 2) / 3` ones have an encoding of `2 ^ 28` bytes, which is
beyond the decoder, and one zero more than `2 ^ 31` is beyond the encoder. -/
theorem rfxRlgrDecode_rfxRlgrEncode_long :
    NeverFull .rlgr1 (List.replicate 715827882 1) (2 ^ 28) ∧
      (∃ e, rfxRlgrEncode .rlgr1 (List.replicate 715827882 1) (fun _ => 0) (2 ^ 28) = some e ∧
        rfxRlgrDecode .rlgr1 e.buffer e.processedSize 715827882 = none) ∧
      rfxRlgrEncode .rlgr1 (List.replicate 2147483649 0) (fun _ => 0) (2 ^ 28) = none := by
  have hsize : onesSize 715827880 = 2 ^ 28 := by
    unfold onesSize
    norm_num
  obtain ⟨e, he, hprocessed⟩ := encode_ones (show 715827880 + 2 ≤ 2 ^ 31 by norm_num)
    (show 2 ^ 28 < 2 ^ 31 by norm_num) hsize.le
  refine ⟨neverFull_ones (m := 715827880) (by norm_num) (by norm_num) hsize.le, ⟨e, he, ?_⟩,
    encode_zeros (m := 2147483648) (by norm_num)⟩
  rw [hprocessed, hsize]
  exact rfxRlgrDecode_of_long le_rfl (by norm_num) (by norm_num)

/-- Two ones fill one byte. -/
theorem rfxRlgrDecode_rfxRlgrEncode_ones :
    NeverFull .rlgr1 [1, 1] 1 ∧
      ∃ e, rfxRlgrEncode .rlgr1 [1, 1] (fun _ => 0) 1 = some e ∧
        (e.processedSize < 2 ^ 28 →
          ∃ out, rfxRlgrDecode .rlgr1 e.buffer e.processedSize 2 = some (1, out) ∧
            AgreesUpToRun .rlgr1 (startEncoder [1, 1] (fun _ => 0) 1) [1, 1] out) := by
  have hfull : NeverFull .rlgr1 [1, 1] 1 :=
    neverFull_ones (m := 0) (by norm_num) (by norm_num) (by decide)
  exact ⟨hfull, rfxRlgrDecode_rfxRlgrEncode [1, 1] 1 (by decide) (by decide) hfull⟩

end FreeRDP.Rlgr
