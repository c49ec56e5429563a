import Mathlib.Data.List.Infix
import FreeRDP.Rlgr.Equiv.RoundTrip

/-!
# The pairs of `RLGR3`

In Golomb-Rice mode `RLGR3` codes the sum of two folded coefficients and then the first of them in
as many bits as the sum has.  The decoder passes the sum through an `INT16` before it counts these
bits.  A sum of `2 ^ 15` or more turns negative there, the decoder asks for 32 bits and either leaves
its loop or shifts by the width of an `int`.  A block therefore comes back exactly where the sums
stay below `2 ^ 15`.
-/

namespace FreeRDP.Rlgr

open BitField BitList Iterate

variable {kp krp n : ℕ} {data out : List Int16} {bits : List Bool} {mode : Mode}

/-- A code of `2 ^ 15` or more is negative as an `INT16`. -/
theorem codeWidth_of_ge {code : ℕ} (hlo : 2 ^ 15 ≤ code) (hhi : code < 2 ^ 16) :
    codeWidth code = 32 := by
  have hneg : ((Int16.ofNat code).toInt % 2 ^ 32).toNat = 2 ^ 32 - 2 ^ 16 + code := by
    rw [Int16.toInt_ofNat', Int.bmod_def, Int16.size]
    omega
  unfold codeWidth
  rw [if_pos (by omega), hneg, lzcntS_eq (j := 31) (by omega) (by omega) (by omega)]

theorem pairRound_of_ge {bit : ℕ → Bool} {len p : ℕ} (dstSize : ℕ) {d : Decoder} {v w : Int16}
    (h : d.Holds bit len p kp krp) (hshows : Shows bit p (pairBits krp v w))
    (hlen : p + (pairBits krp v w).length ≤ len) (hlo : 2 ^ 15 ≤ get2MagSign v + get2MagSign w)
    (hhi : get2MagSign v + get2MagSign w < 2 ^ 16) :
    ∃ x, pairRound dstSize d = .error x := by
  unfold pairBits at *
  rw [List.length_append, length_bitsOf] at *
  rw [shows_append] at hshows
  obtain ⟨d1, hcode, -, -⟩ := h.readCode (get2MagSign v + get2MagSign w) hhi hshows.1 (by omega)
  have hbits : ∃ x, readBits 32 d1.bs = .error x := by
    unfold readBits
    split_ifs
    · exact ⟨_, rfl⟩
    · exact ⟨_, rfl⟩
    · omega
  obtain ⟨x, hx⟩ := hbits
  refine ⟨x, ?_⟩
  unfold pairRound
  rw [hcode, ok_bind]
  dsimp only
  rw [codeWidth_of_ge hlo hhi, hx]
  rfl

theorem Reaches.of_nil {bs : RfxBitstream} {e : Encoder}
    (h : Reaches mode (encoderOf kp krp [] bs) e) : e.data = [] := by
  rcases h.cases_head with rfl | ⟨e', hstep, -⟩
  · rfl
  · rw [encodeStep_nil] at hstep
    exact absurd hstep Sum.inr_ne_inl

/-- A state that comes up is the first one or comes up after the first round. -/
theorem Reaches.cases_step {e e' e'' : Encoder} (h : Reaches mode e e'')
    (hstep : encodeStep mode e = .inl e') : e'' = e ∨ Reaches mode e' e'' := by
  rcases h.cases_head with rfl | ⟨e1, hstep1, hreach⟩
  · exact Or.inl rfl
  · rw [hstep] at hstep1
    rw [Sum.inl.inj hstep1]
    exact Or.inr hreach

theorem Round.rest_of_zeros {kp' krp' : ℕ} {rest : List Int16}
    (h : Round mode kp krp data bits kp' krp' rest out) (hk : kp >>> LSGR ≠ 0)
    (hzero : ∀ v ∈ data, v = 0) : rest = [] := by
  cases h with
  | run _ hlast => exact hlast (hzero _ (by simp))
  | single hk' => exact absurd hk' hk
  | pair hk' => exact absurd hk' hk

/-- Where the data go on after a round, the zeros that end them come later. -/
theorem not_endsInRun {kp' krp' : ℕ} {rest : List Int16} {bs bs' : RfxBitstream}
    (hround : Round mode kp krp data bits kp' krp' rest out)
    (hstep : encodeStep mode (encoderOf kp krp data bs) = .inl (encoderOf kp' krp' rest bs'))
    (hgoes : kp >>> LSGR = 0 ∨ rest ≠ [])
    (h : ¬ EndsInRun mode (encoderOf kp' krp' rest bs')) :
    ¬ EndsInRun mode (encoderOf kp krp data bs) := by
  rintro ⟨e, hreach, hne, hk, hzero⟩
  rcases hreach.cases_step hstep with rfl | hreach'
  · rcases hgoes with hk' | hrest
    · exact hk hk'
    · exact hrest (hround.rest_of_zeros hk hzero)
  · exact h ⟨e, hreach', hne, hk, hzero⟩

theorem not_endsInRun_nil {bs : RfxBitstream} :
    ¬ EndsInRun mode (encoderOf kp krp [] bs) := by
  rintro ⟨e, hreach, hne, -, -⟩
  exact hne hreach.of_nil

/-- The part `suf` of a block that was not decoded is not all zeros, in a place that counts. -/
def Lost (mode : Mode) (e : Encoder) (suf : List Int16) : Prop :=
  (∃ v ∈ suf.dropLast, v ≠ 0) ∨ ((∃ v ∈ suf, v ≠ 0) ∧ ¬ EndsInRun mode e)

theorem lost_pair {kp' krp' : ℕ} {bs bs' : RfxBitstream} {v : Int16} {tail : List Int16}
    (hround : Round .rlgr3 kp krp (v :: tail) bits kp' krp' (getNextInput tail).2 out)
    (hstep : encodeStep .rlgr3 (encoderOf kp krp (v :: tail) bs) =
      .inl (encoderOf kp' krp' (getNextInput tail).2 bs'))
    (hk : kp >>> LSGR = 0) (hlo : 2 ^ 15 ≤ pairSum (v :: tail)) :
    Lost .rlgr3 (encoderOf kp krp (v :: tail) bs) (v :: tail) := by
  have hnonzero : v ≠ 0 ∨ (getNextInput tail).1 ≠ 0 := by
    by_contra hzero
    push Not at hzero
    have hsum : pairSum (v :: tail) = get2MagSign v + get2MagSign (getNextInput tail).1 := rfl
    rw [hsum, hzero.1, hzero.2] at hlo
    exact absurd hlo (by decide)
  have hend : (getNextInput tail).2 = [] →
      ¬ EndsInRun .rlgr3 (encoderOf kp krp (v :: tail) bs) := fun hnil =>
    not_endsInRun hround hstep (Or.inl hk) (by rw [hnil]; exact not_endsInRun_nil)
  match tail, hend, hnonzero with
  | [], hend, hnonzero =>
    refine Or.inr ⟨⟨v, by simp, ?_⟩, hend rfl⟩
    rcases hnonzero with h | h
    · exact h
    · exact absurd rfl h
  | [w], hend, hnonzero =>
    refine Or.inr ⟨?_, hend rfl⟩
    rcases hnonzero with h | h
    · exact ⟨v, by simp, h⟩
    · exact ⟨w, by simp, h⟩
  | w :: x :: tail, _, hnonzero =>
    refine Or.inl ?_
    rcases hnonzero with h | h
    · exact ⟨v, by simp, h⟩
    · exact ⟨w, by simp, h⟩

/-- A pair whose sum is `2 ^ 15` or more stops the decoder, or worse, and the pair is lost. -/
theorem Coded.decode_of_ge (h : Coded .rlgr3 kp krp data bits out) {bit : ℕ → Bool}
    {len p dstSize : ℕ} {d : Decoder} {bs : RfxBitstream} {l : List Bool} (hbs : bs.Wrote n l)
    (hd : d.Holds bit len p kp krp) (hshows : Shows bit p bits) (hlen : p + bits.length ≤ len)
    (hdst : d.output.length + data.length = dstSize) (hdst' : dstSize ≤ 2 ^ 31)
    (hsum : ∀ e, Reaches .rlgr3 (encoderOf kp krp data bs) e → e.data ≠ [] → e.k = 0 →
      pairSum e.data < 2 ^ 16)
    {e : Encoder} (hreach : Reaches .rlgr3 (encoderOf kp krp data bs) e) (hne : e.data ≠ [])
    (hk : e.k = 0) (hlo : 2 ^ 15 ≤ pairSum e.data) {rounds : ℕ} (hrounds : bits.length < rounds) :
    iterate (decodeStep .rlgr3 dstSize) rounds d = some none ∨
      ∃ pre suf, iterate (decodeStep .rlgr3 dstSize) rounds d = some (some (d.output ++ pre)) ∧
        data = pre ++ suf ∧ Lost .rlgr3 (encoderOf kp krp data bs) suf := by
  induction h generalizing p d bs l rounds with
  | nil => exact absurd hreach.of_nil hne
  | @cons kp krp kp' krp' data rest o os b bits hround hwrites hcoded ih =>
    obtain ⟨rounds, rfl⟩ : ∃ r, rounds = r + 1 := ⟨rounds - 1, by omega⟩
    rw [List.length_append] at hlen hrounds
    rw [shows_append] at hshows
    have hpos := hround.bits_pos
    have hdata := List.length_pos_of_ne_nil hround.ne_nil
    obtain ⟨bs', hstep, hbs'⟩ := hwrites n l bs hbs
    have hgo : d.bs.remainingLength > 0 ∧ d.output.length < dstSize := by
      rw [hd.stands.remaining]
      omega
    by_cases hcur : kp >>> LSGR = 0 ∧ 2 ^ 15 ≤ pairSum data
    · -- the decoder fails at this pair
      obtain ⟨hk0, hge⟩ := hcur
      have hlt := hsum (encoderOf kp krp data bs) .refl hround.ne_nil hk0
      cases hround with
      | run hk' => exact absurd hk0 hk'
      | @pair _ _ v tail _ =>
        obtain ⟨x, hx⟩ := pairRound_of_ge dstSize hd hshows.1 (by omega) hge hlt
        have hdecode : decodeRound .rlgr3 dstSize d = .error x := by
          unfold decodeRound
          rw [hd.k_eq, if_neg (not_not.mpr hk0)]
          exact hx
        have hlost := lost_pair (.pair hk0) hstep hk0 hge
        cases x with
        | leave =>
          have hexit : decodeStep .rlgr3 dstSize d = .inr (some d.output) := by
            unfold decodeStep
            rw [if_pos hgo, hdecode]
          exact Or.inr ⟨[], v :: tail, by rw [iterate_inr hexit, List.append_nil], rfl, hlost⟩
        | undefined =>
          have hexit : decodeStep .rlgr3 dstSize d = .inr none := by
            unfold decodeStep
            rw [if_pos hgo, hdecode]
          exact Or.inl (iterate_inr hexit rounds)
    · -- this round is decoded, and the pair comes later
      have hreach' : Reaches .rlgr3 (encoderOf kp' krp' rest bs') e := by
        rcases hreach.cases_step hstep with rfl | hreach'
        · exact absurd ⟨hk, hlo⟩ hcur
        · exact hreach'
      have hrest : rest ≠ [] := by
        rintro rfl
        exact hne hreach'.of_nil
      have hsplit : data = o ++ rest := by
        rcases hround.cases_out with h | ⟨h, -⟩ | ⟨h, -⟩
        · exact h
        · exact absurd h hrest
        · exact absurd h hrest
      have hlength : data.length = o.length + rest.length := by
        rw [hsplit, List.length_append]
      obtain ⟨d', heq, hd', hout⟩ := decodeRound_spec hround hd hshows.1 (by omega) hdst hdst'
        (fun _ hk0 => Nat.lt_of_not_le fun hge => hcur ⟨hk0, hge⟩)
      rw [List.take_of_length_le (by rw [List.length_append]; omega)] at hout
      have hroom : d'.output.length + rest.length = dstSize := by
        rw [hout, List.length_append]
        omega
      rw [iterate_inl (decodeStep_of_ok hgo.1 hgo.2 heq)]
      rcases ih hbs' hd' hshows.2 (by omega) hroom (fun e he => hsum e (.head hstep he)) hreach'
        (show bits.length < rounds by omega) with hnone | ⟨pre, suf, hsome, hrest', hlost⟩
      · exact Or.inl hnone
      · refine Or.inr ⟨o ++ pre, suf, ?_, by rw [hsplit, hrest', List.append_assoc], ?_⟩
        · rw [hsome, hout, List.append_assoc]
        · rcases hlost with hlost | ⟨hlost, hend⟩
          · exact Or.inl hlost
          · exact Or.inr ⟨hlost, not_endsInRun hround hstep (Or.inr hrest) hend⟩

/-- Every two coefficients of the block that the encoder codes together have a sum of folded
magnitudes below `bound`. -/
def PairsBelow (bound : ℕ) (data : List Int16) (bufferSize : ℕ) : Prop :=
  ∀ e, Reaches .rlgr3 (startEncoder data (fun _ => 0) bufferSize) e → e.data ≠ [] → e.k = 0 →
    pairSum e.data < bound

theorem not_agrees_of_lost {e : Encoder} {pre suf : List Int16} (h : Lost mode e suf) :
    ¬ AgreesUpToRun mode e (pre ++ suf) (pre ++ List.replicate suf.length 0) := by
  have hne : suf ≠ [] := by
    rintro rfl
    rcases h with ⟨v, hv, -⟩ | ⟨⟨v, hv, -⟩, -⟩ <;> simp at hv
  rintro (hsame | ⟨hend, -, hdrop⟩)
  · have hsuf := List.append_cancel_left hsame
    rcases h with ⟨v, hv, hv0⟩ | ⟨⟨v, hv, hv0⟩, -⟩
    · have hmem := (List.dropLast_sublist _).subset hv
      rw [← hsuf] at hmem
      exact hv0 (List.eq_of_mem_replicate hmem)
    · rw [← hsuf] at hv
      exact hv0 (List.eq_of_mem_replicate hv)
  · rcases h with ⟨v, hv, hv0⟩ | ⟨-, hnot⟩
    · have hne' : List.replicate suf.length (0 : Int16) ≠ [] := by simpa using hne
      rw [List.dropLast_append_of_ne_nil hne', List.dropLast_append_of_ne_nil hne] at hdrop
      rw [← List.append_cancel_left hdrop] at hv
      exact hv0 (List.eq_of_mem_replicate ((List.dropLast_sublist _).subset hv))
    · exact hnot hend

/-- Where some pair has a sum of `2 ^ 15` or more, the block does not come back. -/
theorem not_agrees_of_ge {bufferSize : ℕ} (hlen : data.length ≤ 2 ^ 31)
    (hfull : NeverFull .rlgr3 data bufferSize)
    (hcoded : Coded .rlgr3 (1 <<< LSGR) (1 <<< LSGR) data bits out) {enc : Encoded}
    (henc : rfxRlgrEncode .rlgr3 data (fun _ => 0) bufferSize = some enc)
    (hshort : enc.processedSize < 2 ^ 28) (hsum : PairsBelow (2 ^ 16) data bufferSize)
    (hbad : ¬ PairsBelow (2 ^ 15) data bufferSize) {r : ℤ} {got : List Int16}
    (hgot : rfxRlgrDecode .rlgr3 enc.buffer enc.processedSize data.length = some (r, got)) :
    ¬ AgreesUpToRun .rlgr3 (startEncoder data (fun _ => 0) bufferSize) data got := by
  unfold PairsBelow at hbad
  push Not at hbad
  obtain ⟨e, hreach, hne, hk, hge⟩ := hbad
  obtain ⟨hroom, hsize⟩ := hfull.room hcoded henc hshort
  obtain ⟨enc', henc', -, hbit⟩ := rfxRlgrEncode_coded hcoded hfull.1
  obtain rfl : enc' = enc := by rw [henc'] at henc; exact Option.some.inj henc
  have hpadded : bits.length ≤ (padded bits).length := by simp [padded]
  have hloop := hcoded.decode_of_ge (d := startDecoder enc'.buffer enc'.processedSize)
    (RfxBitstream.wrote_attach hfull.1) (holds_startDecoder hshort)
    (shows_processed hbit hroom hsize) (by omega) (Nat.zero_add _) hlen hsum hreach hne hk hge
    (show bits.length < 8 * enc'.processedSize + 1 by omega)
  unfold rfxRlgrDecode at hgot
  split_ifs at hgot with hempty
  · -- the encoding has bits and the block coefficients
    exfalso
    cases hcoded with
    | nil =>
      have hstart : Reaches .rlgr3 (encoderOf (1 <<< LSGR) (1 <<< LSGR) []
          (.attach (fun _ => 0) bufferSize)) e := hreach
      exact hne hstart.of_nil
    | cons hround =>
      have hpos := hround.bits_pos
      have hdata := List.length_pos_of_ne_nil hround.ne_nil
      rw [List.length_append] at hpadded
      omega
  rcases hloop with hnone | ⟨pre, suf, hsome, rfl, hlost⟩
  · rw [hnone] at hgot
    exact absurd hgot (by simp)
  · rw [hsome] at hgot
    have hsuf : 0 < suf.length := by
      rcases hlost with ⟨v, hv, -⟩ | ⟨⟨v, hv, -⟩, -⟩
      · exact List.length_pos_of_mem ((List.dropLast_sublist _).subset hv)
      · exact List.length_pos_of_mem hv
    have hfinish : finishDecode (pre ++ suf).length pre = some (r, got) := hgot
    unfold finishDecode at hfinish
    rw [List.length_append, if_pos (by omega), Nat.add_sub_cancel_left] at hfinish
    split_ifs at hfinish
    · obtain rfl : pre ++ List.replicate suf.length 0 = got := by
        have := Option.some.inj hfinish
        exact congrArg Prod.snd this
      exact not_agrees_of_lost hlost

/-- `RLGR3`: a block whose pairs have sums below `2 ^ 16` and whose encoding is shorter than
`2 ^ 28` bytes comes back, up to a last coefficient inside a run of zeros, exactly if its pairs have
sums below `2 ^ 15`. -/
theorem rfxRlgrDecode_rfxRlgrEncode_pairs (data : List Int16) (bufferSize : ℕ)
    (hlen : data.length ≤ 2 ^ 31) (hfull : NeverFull .rlgr3 data bufferSize)
    (hsum : PairsBelow (2 ^ 16) data bufferSize) :
    ∃ e, rfxRlgrEncode .rlgr3 data (fun _ => 0) bufferSize = some e ∧
      (e.processedSize < 2 ^ 28 →
        ((∃ r out, rfxRlgrDecode .rlgr3 e.buffer e.processedSize data.length = some (r, out) ∧
          AgreesUpToRun .rlgr3 (startEncoder data (fun _ => 0) bufferSize) data out) ↔
            PairsBelow (2 ^ 15) data bufferSize)) := by
  obtain ⟨bits, out, hcoded⟩ := exists_coded_start hlen hfull.1
    (fun e he hne (_ : Mode.rlgr3 = .rlgr3) hk => hsum e he hne hk)
  obtain ⟨e, he, -, -⟩ := rfxRlgrEncode_coded hcoded hfull.1
  refine ⟨e, he, fun hshort => ⟨?_, fun hgood => ?_⟩⟩
  · rintro ⟨r, got, hgot, hagrees⟩
    by_contra hbad
    exact not_agrees_of_ge hlen hfull hcoded he hshort hsum hbad hgot hagrees
  · have hagrees := hcoded.agrees (RfxBitstream.wrote_attach hfull.1)
    by_cases hne : data = []
    · subst hne
      refine ⟨-1, [], ?_, Or.inl rfl⟩
      unfold rfxRlgrDecode
      rw [if_pos (show e.processedSize = 0 ∨ ([] : List Int16).length = 0 from Or.inr rfl)]
    · exact ⟨1, out.take data.length, decode_encode hlen hfull hne hcoded he hshort
        (fun e he hne _ hk => hgood e he hne hk), hagrees⟩

/-! ### Two blocks -/

theorem suffix_collectZeros {data rest : List Int16} {input v : Int16} {m zeros : ℕ}
    (h : collectZeros data input m = some (zeros, v, rest)) : rest <:+ data := by
  induction data generalizing input m with
  | nil =>
    obtain ⟨-, -, rfl⟩ : m = zeros ∧ input = v ∧ [] = rest := by simpa [collectZeros] using h
    exact List.suffix_rfl
  | cons x data ih =>
    rw [collectZeros] at h
    split_ifs at h
    · exact (ih h).trans (List.suffix_cons x data)
    · obtain ⟨-, -, rfl⟩ : m = zeros ∧ input = v ∧ x :: data = rest := by simpa using h
      exact List.suffix_rfl

theorem suffix_getNextInput (data : List Int16) : (getNextInput data).2 <:+ data := by
  cases data with
  | nil => exact List.suffix_rfl
  | cons x data => exact List.suffix_cons x data

/-- A round takes its coefficients off the front. -/
theorem suffix_encodeStep {e e' : Encoder} (h : encodeStep mode e = .inl e') :
    e'.data <:+ e.data := by
  unfold encodeStep at h
  split_ifs at h with hgo hk
  · dsimp only at h
    split at h
    · next zeros v rest hcollect =>
      rw [← Sum.inl.inj h]
      exact (suffix_collectZeros hcollect).trans (suffix_getNextInput _)
    · exact absurd h Sum.inr_ne_inl
  · cases mode with
    | rlgr1 =>
      rw [← Sum.inl.inj h]
      exact suffix_getNextInput _
    | rlgr3 =>
      rw [← Sum.inl.inj h]
      exact (suffix_getNextInput _).trans (suffix_getNextInput _)

theorem Reaches.mem_tails {e : Encoder} {bufferSize : ℕ}
    (h : Reaches mode (startEncoder data (fun _ => 0) bufferSize) e) : e.data ∈ data.tails := by
  rw [List.mem_tails]
  induction h with
  | refl => exact List.suffix_rfl
  | tail _ hstep ih => exact (suffix_encodeStep hstep).trans ih

theorem pairsBelow_of_tails {bound bufferSize : ℕ}
    (h : ∀ s ∈ data.tails, pairSum s < bound) : PairsBelow bound data bufferSize :=
  fun e hreach _ _ => h e.data hreach.mem_tails

/-- Two small coefficients come back. -/
theorem rfxRlgrDecode_rfxRlgrEncode_pairs_small :
    NeverFull .rlgr3 [1, -2] 8 ∧ PairsBelow (2 ^ 16) [1, -2] 8 ∧
      ∃ e, rfxRlgrEncode .rlgr3 [1, -2] (fun _ => 0) 8 = some e ∧
        (e.processedSize < 2 ^ 28 →
          ((∃ r out, rfxRlgrDecode .rlgr3 e.buffer e.processedSize 2 = some (r, out) ∧
            AgreesUpToRun .rlgr3 (startEncoder [1, -2] (fun _ => 0) 8) [1, -2] out) ↔
              PairsBelow (2 ^ 15) [1, -2] 8)) := by
  have hlen : ([1, -2] : List Int16).length ≤ 2 ^ 31 := by decide
  have hsum : PairsBelow (2 ^ 16) [1, -2] 8 := pairsBelow_of_tails (by decide +kernel)
  have hsize : (rfxRlgrEncode .rlgr3 [1, -2] (fun _ => 0) 8).map Encoded.processedSize = some 2 := by
    decide +kernel
  obtain ⟨bits, out, hcoded⟩ := exists_coded_start hlen (show 8 < 2 ^ 31 by decide)
    (fun e he hne (_ : Mode.rlgr3 = .rlgr3) hk => hsum e he hne hk)
  obtain ⟨e, he, hprocessed⟩ := Option.map_eq_some_iff.mp hsize
  have hfull : NeverFull .rlgr3 [1, -2] 8 := neverFull_of_lt hcoded (by decide) he (by omega)
  exact ⟨hfull, hsum, rfxRlgrDecode_rfxRlgrEncode_pairs [1, -2] 8 hlen hfull hsum⟩

/-- The coefficient 16384 has the folded magnitude `2 ^ 15`: coded alone at the end of a block of
two, it is lost. -/
theorem rfxRlgrDecode_rfxRlgrEncode_pairs_large :
    NeverFull .rlgr3 [161, 16384] 32 ∧ PairsBelow (2 ^ 16) [161, 16384] 32 ∧
      ∃ e, rfxRlgrEncode .rlgr3 [161, 16384] (fun _ => 0) 32 = some e ∧ e.processedSize = 18 ∧
        rfxRlgrDecode .rlgr3 e.buffer e.processedSize 2 = some (1, [161, 0]) ∧
        ¬ AgreesUpToRun .rlgr3 (startEncoder [161, 16384] (fun _ => 0) 32) [161, 16384]
          [161, 0] := by
  have hlen : ([161, 16384] : List Int16).length ≤ 2 ^ 31 := by decide
  have hsum : PairsBelow (2 ^ 16) [161, 16384] 32 := pairsBelow_of_tails (by decide +kernel)
  have hrun : ((rfxRlgrEncode .rlgr3 [161, 16384] (fun _ => 0) 32).map fun e =>
      (e.processedSize, rfxRlgrDecode .rlgr3 e.buffer e.processedSize 2)) =
        some (18, some (1, [161, 0])) := by decide +kernel
  obtain ⟨e, he, hresult⟩ := Option.map_eq_some_iff.mp hrun
  obtain ⟨hsize, hgot⟩ : e.processedSize = 18 ∧
      rfxRlgrDecode .rlgr3 e.buffer e.processedSize 2 = some (1, [161, 0]) := by
    simpa using hresult
  obtain ⟨bits, out, hcoded⟩ := exists_coded_start hlen (show 32 < 2 ^ 31 by decide)
    (fun e he hne (_ : Mode.rlgr3 = .rlgr3) hk => hsum e he hne hk)
  refine ⟨neverFull_of_lt hcoded (by decide) he (by omega), hsum, e, he, hsize, hgot, ?_⟩
  rintro (hsame | ⟨⟨e', hreach, hne, -, hzero⟩, -, -⟩)
  · exact absurd hsame (by decide)
  · -- every part of the block that the encoder can have left ends in 16384
    have hmem := hreach.mem_tails
    have hlast : (16384 : Int16) ∈ e'.data := by
      simp only [List.tails, List.mem_cons, List.not_mem_nil, or_false] at hmem
      rcases hmem with h | h | h
      · rw [h]
        simp
      · rw [h]
        simp
      · exact absurd h hne
    exact absurd (hzero 16384 hlast) (by decide)

end FreeRDP.Rlgr
