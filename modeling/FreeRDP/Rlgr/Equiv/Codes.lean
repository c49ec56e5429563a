import FreeRDP.Rlgr.Equiv.Reader

/-!
# One round of the coder

`Round mode kp krp data bits kp' krp' rest out` says what a round does to the coefficients `data`
that are left: the bits it writes, the parameters and coefficients it leaves, and the coefficients
`out` that a reader of these bits puts out.  A round of `rfx_rlgr_encode` is such a round, and a
round of `rfx_rlgr_decode` undoes it.
-/

namespace FreeRDP.Rlgr

open BitField BitList

/-! ### The parameters -/

theorem updateParam_raise {param : ℕ} (up : ℕ) : updateParam param up = raise param up := by
  unfold updateParam raise KPMAX
  dsimp only
  split_ifs <;> omega

theorem updateParam_lower {param down : ℕ} (h : param ≤ KPMAX) :
    updateParam param (-down) = lower param down := by
  unfold updateParam lower
  unfold KPMAX at *
  dsimp only
  split_ifs <;> omega

theorem raise_le (param up : ℕ) : raise param up ≤ KPMAX := by
  unfold raise
  split_ifs <;> omega

theorem lower_le {param : ℕ} (h : param ≤ KPMAX) (down : ℕ) : lower param down ≤ KPMAX :=
  (Nat.sub_le _ _).trans h

theorem shiftRight_le {param : ℕ} (h : param ≤ KPMAX) : param >>> LSGR ≤ 10 := by
  unfold KPMAX at h
  rw [LSGR, Nat.shiftRight_eq_div_pow]
  omega

theorem nextKrp_le {krp : ℕ} (h : krp ≤ KPMAX) (vk : ℕ) : nextKrp krp vk ≤ KPMAX := by
  unfold nextKrp
  split_ifs
  · exact lower_le h 2
  · exact raise_le krp vk
  · exact h

theorem snd_codeGr (bs : RfxBitstream) {krp : ℕ} (val : ℕ) (h : krp ≤ KPMAX) :
    (rfxRlgrCodeGr bs krp val).2 = nextKrp krp (val >>> (krp >>> LSGR)) := by
  unfold rfxRlgrCodeGr nextKrp
  dsimp only
  generalize val >>> (krp >>> LSGR) = vk
  split_ifs with h0 h1 h2 h3
  · exact updateParam_lower h
  · exact updateParam_raise vk
  · omega
  · omega
  · rfl

/-! ### Runs of zeros -/

/-- A run of `zeros` zeros is coded, from `kp` on, as `vk` full runs and `rest` single zeros. -/
inductive Splits : ℕ → ℕ → ℕ → ℕ → ℕ → Prop
  | done {kp zeros : ℕ} : zeros < 1 <<< (kp >>> LSGR) → Splits kp zeros 0 kp zeros
  | more {kp zeros vk kp' rest : ℕ} : 1 <<< (kp >>> LSGR) ≤ zeros →
      Splits (raise kp UP_GR) (zeros - 1 <<< (kp >>> LSGR)) vk kp' rest →
      Splits kp zeros (vk + 1) kp' rest

theorem Splits.rest_lt {kp zeros vk kp' rest : ℕ} (h : Splits kp zeros vk kp' rest) :
    rest < 2 ^ (kp' >>> LSGR) := by
  induction h with
  | done h => rwa [Nat.one_shiftLeft] at h
  | more _ _ ih => exact ih

theorem Splits.le {kp zeros vk kp' rest : ℕ} (h : Splits kp zeros vk kp' rest) :
    rest ≤ zeros := by
  induction h with
  | done => exact le_rfl
  | more _ _ ih => exact ih.trans (Nat.sub_le _ _)

theorem Splits.kp_le {kp zeros vk kp' rest : ℕ} (h : Splits kp zeros vk kp' rest)
    (hkp : kp ≤ KPMAX) : kp' ≤ KPMAX := by
  induction h with
  | done => exact hkp
  | more _ _ ih => exact ih (raise_le _ _)

/-- The encoder's loop writes one zero bit for each full run. -/
theorem emitZeros_spec (rounds zeros kp : ℕ) (hrounds : zeros ≤ rounds) :
    ∃ vk kp' rest, Splits kp zeros vk kp' rest ∧
      ∀ (n : ℕ) (l : List Bool) (bs : RfxBitstream), bs.Wrote n l →
        ∃ bs', emitZeros rounds bs zeros kp = (bs', rest, kp') ∧
          bs'.Wrote n (l ++ List.replicate vk false) := by
  induction rounds generalizing zeros kp with
  | zero =>
    obtain rfl : zeros = 0 := by omega
    refine ⟨0, kp, 0, .done ?_, fun n l bs h => ⟨bs, rfl, by simpa using h⟩⟩
    rw [Nat.one_shiftLeft]
    exact Nat.two_pow_pos _
  | succ rounds ih =>
    by_cases hfull : zeros ≥ 1 <<< (kp >>> LSGR)
    · have hpos : 0 < 1 <<< (kp >>> LSGR) := by
        rw [Nat.one_shiftLeft]
        exact Nat.two_pow_pos _
      obtain ⟨vk, kp', rest, hsplit, hwrote⟩ := ih (zeros - 1 <<< (kp >>> LSGR))
        (raise kp UP_GR) (by omega)
      refine ⟨vk + 1, kp', rest, .more hfull hsplit, fun n l bs h => ?_⟩
      obtain ⟨bs', heq, hbs'⟩ := hwrote n _ _ (Wrote.outputOne h false)
      refine ⟨bs', ?_, ?_⟩
      · rw [emitZeros, if_pos hfull, updateParam_raise, heq]
      · rwa [List.append_assoc, List.singleton_append, ← List.replicate_succ] at hbs'
    · refine ⟨0, kp, zeros, .done (Nat.lt_of_not_le hfull), fun n l bs h => ⟨bs, ?_, by simpa using h⟩⟩
      rw [emitZeros, if_neg hfull]

/-- The decoder's loop adds the full runs up. -/
theorem addRuns_spec {kp zeros vk kp' rest : ℕ} (h : Splits kp zeros vk kp' rest) {run : ℕ}
    (hrun : run + zeros < 2 ^ 31) : addRuns vk run kp = .ok (run + (zeros - rest), kp') := by
  induction h generalizing run with
  | done => rw [addRuns, Nat.sub_self, Nat.add_zero]
  | @more kp zeros vk kp' rest hle hrest ih =>
    have hrest_le := hrest.le
    rw [addRuns]
    generalize 1 <<< (kp >>> LSGR) = full at *
    rw [if_pos (by omega), ih (by omega)]
    congr 2
    omega

theorem collectZeros_spec (data : List Int16) (input : Int16) {numZeros : ℕ}
    (h : numZeros + data.length < 2 ^ 31) :
    ∃ zeros v rest, collectZeros data input numZeros = some (numZeros + zeros, v, rest) ∧
      input :: data = List.replicate zeros 0 ++ v :: rest ∧ (v = 0 → rest = []) := by
  induction data generalizing input numZeros with
  | nil => exact ⟨0, input, [], rfl, rfl, fun _ => rfl⟩
  | cons x data ih =>
    rw [List.length_cons] at h
    rw [collectZeros]
    split_ifs with h0 hlt
    · obtain ⟨zeros, v, rest, heq, hdata, hlast⟩ := ih x
        (show numZeros + 1 + data.length < 2 ^ 31 by omega)
      refine ⟨zeros + 1, v, rest, by rw [heq, Nat.add_assoc, Nat.add_comm 1], ?_, hlast⟩
      rw [hdata, h0, List.replicate_succ, List.cons_append]
    · omega
    · exact ⟨0, input, x :: data, rfl, rfl, fun h => absurd h h0⟩

/-! ### Rounds -/

/-- The update of `kp` in Golomb-Rice mode of `RLGR1`. -/
def nextKpSingle (kp code : ℕ) : ℕ := if code = 0 then raise kp UQ_GR else lower kp DQ_GR

/-- The update of `kp` in Golomb-Rice mode of `RLGR3`. -/
def nextKpPair (kp code1 code2 : ℕ) : ℕ :=
  if code1 ≠ 0 ∧ code2 ≠ 0 then lower kp (2 * DQ_GR)
  else if code1 = 0 ∧ code2 = 0 then raise kp (2 * UQ_GR)
  else kp

/-- The bits of a run of zeros, already split, and the coefficient behind it. -/
def runBits (vk kp rest krp : ℕ) (v : Int16) : List Bool :=
  List.replicate vk false ++ true :: (bitsOf (kp >>> LSGR) rest ++
    decide (v.toInt < 0) :: grBits (krp >>> LSGR) (magnitude v - 1))

/-- The bits of two coefficients coded together. -/
def pairBits (krp : ℕ) (v w : Int16) : List Bool :=
  grBits (krp >>> LSGR) (get2MagSign v + get2MagSign w) ++
    bitsOf (getMinBits (get2MagSign v + get2MagSign w)) (get2MagSign v)

/-- What one round does: the coefficients before it, the bits it writes, the parameters and the
coefficients it leaves, and the coefficients a reader of its bits puts out.  The zero that ends the
data inside a run is written like a one. -/
inductive Round : Mode → ℕ → ℕ → List Int16 → List Bool → ℕ → ℕ → List Int16 → List Int16 → Prop
  | run {mode : Mode} {kp krp zeros vk kp' rest : ℕ} {v : Int16} {data : List Int16} :
      kp >>> LSGR ≠ 0 → (v = 0 → data = []) → Splits kp zeros vk kp' rest →
      Round mode kp krp (List.replicate zeros 0 ++ v :: data) (runBits vk kp' rest krp v)
        (lower kp' DN_GR) (nextKrp krp ((magnitude v - 1) >>> (krp >>> LSGR))) data
        (List.replicate zeros 0 ++ [if v = 0 then 1 else v])
  | single {kp krp : ℕ} {v : Int16} {data : List Int16} : kp >>> LSGR = 0 →
      Round .rlgr1 kp krp (v :: data) (grBits (krp >>> LSGR) (get2MagSign v))
        (nextKpSingle kp (get2MagSign v)) (nextKrp krp (get2MagSign v >>> (krp >>> LSGR))) data [v]
  | pair {kp krp : ℕ} {v : Int16} {data : List Int16} : kp >>> LSGR = 0 →
      Round .rlgr3 kp krp (v :: data) (pairBits krp v (getNextInput data).1)
        (nextKpPair kp (get2MagSign v) (get2MagSign (getNextInput data).1))
        (nextKrp krp ((get2MagSign v + get2MagSign (getNextInput data).1) >>> (krp >>> LSGR)))
        (getNextInput data).2 [v, (getNextInput data).1]

/-! ### The encoder -/

theorem getMinBits_of_lt {v j : ℕ} (hv : v < 2 ^ j) : getMinBits v ≤ j := by
  have hloop : ∀ rounds v j : ℕ, v < 2 ^ j → minBitsLoop rounds v ≤ j := by
    intro rounds
    induction rounds with
    | zero => intro v j _; exact Nat.zero_le j
    | succ rounds ih =>
      intro v j hv
      rw [minBitsLoop]
      split_ifs with h0
      · exact Nat.zero_le j
      · obtain ⟨j, rfl⟩ : ∃ i, j = i + 1 := ⟨j - 1, by
          rcases Nat.eq_zero_or_pos j with rfl | hpos
          · rw [pow_zero] at hv
            omega
          · omega⟩
        have := ih (v >>> 1) j (by rw [Nat.shiftRight_eq_div_pow]; omega)
        omega
  exact hloop 32 v j hv

/-- The sum of the folded magnitudes of the next two coefficients. -/
def pairSum (data : List Int16) : ℕ :=
  get2MagSign (getNextInput data).1 + get2MagSign (getNextInput (getNextInput data).2).1

/-- The encoder with the coefficients `data` to code, between two rounds. -/
def encoderOf (kp krp : ℕ) (data : List Int16) (bs : RfxBitstream) : Encoder where
  data := data
  k := kp >>> LSGR
  kp := kp
  krp := krp
  bs := bs

/-- A round of the encoder writes `bits`, whatever its stream already holds, and leaves the
parameters `kp'` and `krp'` and the coefficients `rest`. -/
def Writes (mode : Mode) (kp krp : ℕ) (data : List Int16) (bits : List Bool) (kp' krp' : ℕ)
    (rest : List Int16) : Prop :=
  ∀ (n : ℕ) (l : List Bool) (bs : RfxBitstream), bs.Wrote n l →
    ∃ bs', encodeStep mode (encoderOf kp krp data bs) = .inl (encoderOf kp' krp' rest bs') ∧
      bs'.Wrote n (l ++ bits)

theorem nextKpPair_le {kp : ℕ} (h : kp ≤ KPMAX) (a b : ℕ) : nextKpPair kp a b ≤ KPMAX := by
  unfold nextKpPair
  split_ifs
  · exact lower_le h _
  · exact raise_le kp _
  · exact h

theorem nextKpSingle_le {kp : ℕ} (h : kp ≤ KPMAX) (a : ℕ) : nextKpSingle kp a ≤ KPMAX := by
  unfold nextKpSingle
  split_ifs
  · exact raise_le kp _
  · exact lower_le h _

variable {mode : Mode} {kp krp : ℕ} {data : List Int16}

theorem encodeStep_run {x v : Int16} {tail rest : List Int16} {zeros : ℕ} {bs : RfxBitstream}
    (hk : kp >>> LSGR ≠ 0) (hcollect : collectZeros tail x 0 = some (zeros, v, rest)) :
    encodeStep mode (encoderOf kp krp (x :: tail) bs) =
      .inl (encodeRun (encoderOf kp krp (x :: tail) bs) zeros v rest) := by
  have hgo : (encoderOf kp krp (x :: tail) bs).data.length > 0 := Nat.zero_lt_succ _
  have hrun : (encoderOf kp krp (x :: tail) bs).k ≠ 0 := hk
  have hnext : getNextInput (encoderOf kp krp (x :: tail) bs).data = (x, tail) := rfl
  unfold encodeStep
  rw [if_pos hgo, if_pos hrun, hnext]
  dsimp only
  rw [hcollect]

theorem encodeStep_golombRice {x : Int16} {tail : List Int16} {bs : RfxBitstream}
    (hk : kp >>> LSGR = 0) :
    encodeStep mode (encoderOf kp krp (x :: tail) bs) =
      match mode with
      | .rlgr1 => .inl (encodeSingle (encoderOf kp krp (x :: tail) bs))
      | .rlgr3 => .inl (encodePair (encoderOf kp krp (x :: tail) bs)) := by
  have hgo : (encoderOf kp krp (x :: tail) bs).data.length > 0 := Nat.zero_lt_succ _
  have hrun : ¬ (encoderOf kp krp (x :: tail) bs).k ≠ 0 := not_not.mpr hk
  unfold encodeStep
  refine (if_pos hgo).trans ?_
  exact if_neg hrun

theorem writes_run (hk : kp >>> LSGR ≠ 0) (hkp : kp ≤ KPMAX) (hkrp : krp ≤ KPMAX)
    (hne : data ≠ []) (hlen : data.length ≤ 2 ^ 31) :
    ∃ bits kp' krp' rest out, Round mode kp krp data bits kp' krp' rest out ∧ kp' ≤ KPMAX ∧
      krp' ≤ KPMAX ∧ Writes mode kp krp data bits kp' krp' rest := by
  obtain ⟨x, tail, rfl⟩ := List.exists_cons_of_ne_nil hne
  rw [List.length_cons] at hlen
  obtain ⟨zeros, v, rest, hcollect, hdata, hlast⟩ :=
    collectZeros_spec tail x (show 0 + tail.length < 2 ^ 31 by omega)
  rw [Nat.zero_add] at hcollect
  obtain ⟨vk, kp', r, hsplit, hemit⟩ := emitZeros_spec zeros zeros kp le_rfl
  have hkp' := hsplit.kp_le hkp
  have hround : Round mode kp krp (x :: tail) (runBits vk kp' r krp v) (lower kp' DN_GR)
      (nextKrp krp ((magnitude v - 1) >>> (krp >>> LSGR))) rest
      (List.replicate zeros 0 ++ [if v = 0 then 1 else v]) := by
    rw [hdata]
    exact .run hk hlast hsplit
  refine ⟨_, _, _, rest, _, hround, lower_le hkp' _, nextKrp_le hkrp _, fun n l bs h => ?_⟩
  obtain ⟨bs', heq, hbs'⟩ := hemit n l bs h
  have hkr := shiftRight_le hkrp
  have hk' := shiftRight_le hkp'
  have hmag : (if magnitude v ≠ 0 then magnitude v - 1 else 0) = magnitude v - 1 := by
    split_ifs <;> omega
  have hsign := Wrote.outputOne (Wrote.outputBits (Wrote.outputOne hbs' true) r
    (show kp' >>> LSGR ≤ 16 by omega)) (decide (v.toInt < 0))
  have hwrote := Wrote.codeGr hsign (magnitude v - 1) (show krp >>> LSGR ≤ 16 by omega)
  have hbits : l ++ runBits vk kp' r krp v = l ++ List.replicate vk false ++ [true] ++
      bitsOf (kp' >>> LSGR) r ++ [decide (v.toInt < 0)] ++
        grBits (krp >>> LSGR) (magnitude v - 1) := by simp [runBits]
  rw [← hbits] at hwrote
  refine ⟨_, ?_, hwrote⟩
  rw [encodeStep_run hk hcollect]
  unfold encodeRun encoderOf
  dsimp only
  rw [heq]
  dsimp only
  rw [hmag, updateParam_lower hkp', snd_codeGr _ _ hkrp]

theorem writes_single (hk : kp >>> LSGR = 0) (hkp : kp ≤ KPMAX) (hkrp : krp ≤ KPMAX) (v : Int16)
    (rest : List Int16) :
    Writes .rlgr1 kp krp (v :: rest) (grBits (krp >>> LSGR) (get2MagSign v))
      (nextKpSingle kp (get2MagSign v)) (nextKrp krp (get2MagSign v >>> (krp >>> LSGR))) rest := by
  intro n l bs h
  have hkr := shiftRight_le hkrp
  refine ⟨_, ?_, Wrote.codeGr h (get2MagSign v) (show krp >>> LSGR ≤ 16 by omega)⟩
  have hnext : nextKpSingle kp (get2MagSign v) = if get2MagSign v ≠ 0 then
      updateParam kp (-DQ_GR) else updateParam kp UQ_GR := by
    unfold nextKpSingle
    rw [updateParam_lower hkp, updateParam_raise]
    split_ifs <;> first | rfl | contradiction
  rw [encodeStep_golombRice hk, ← snd_codeGr bs _ hkrp, hnext]
  rfl

theorem writes_pair (hk : kp >>> LSGR = 0) (hkp : kp ≤ KPMAX) (hkrp : krp ≤ KPMAX) {v : Int16}
    {tail : List Int16} (hsum : pairSum (v :: tail) < 2 ^ 16) :
    Writes .rlgr3 kp krp (v :: tail) (pairBits krp v (getNextInput tail).1)
      (nextKpPair kp (get2MagSign v) (get2MagSign (getNextInput tail).1))
      (nextKrp krp ((get2MagSign v + get2MagSign (getNextInput tail).1) >>> (krp >>> LSGR)))
      (getNextInput tail).2 := by
  intro n l bs h
  have hkr := shiftRight_le hkrp
  have hbits : getMinBits (get2MagSign v + get2MagSign (getNextInput tail).1) ≤ 16 :=
    getMinBits_of_lt hsum
  have hwrote := Wrote.outputBits (Wrote.codeGr h
    (get2MagSign v + get2MagSign (getNextInput tail).1)
    (show krp >>> LSGR ≤ 16 by omega)) (get2MagSign v) hbits
  rw [List.append_assoc] at hwrote
  refine ⟨_, ?_, hwrote⟩
  have hnext : nextKpPair kp (get2MagSign v) (get2MagSign (getNextInput tail).1) =
      if get2MagSign v ≠ 0 ∧ get2MagSign (getNextInput tail).1 ≠ 0 then
        updateParam kp (-2 * DQ_GR)
      else if get2MagSign v = 0 ∧ get2MagSign (getNextInput tail).1 = 0 then
        updateParam kp (2 * UQ_GR)
      else kp := by
    rw [show (-2 * (DQ_GR : ℤ)) = -((2 * DQ_GR : ℕ) : ℤ) by push_cast; ring,
      show (2 * (UQ_GR : ℤ)) = ((2 * UQ_GR : ℕ) : ℤ) by push_cast; ring, updateParam_lower hkp,
      updateParam_raise]
    rfl
  rw [encodeStep_golombRice hk, ← snd_codeGr bs _ hkrp, hnext]
  rfl

/-- While coefficients are left, a round of the encoder is a round of the coder. -/
theorem exists_round (hkp : kp ≤ KPMAX) (hkrp : krp ≤ KPMAX) (hne : data ≠ [])
    (hlen : data.length ≤ 2 ^ 31)
    (hsum : mode = .rlgr3 → kp >>> LSGR = 0 → pairSum data < 2 ^ 16) :
    ∃ bits kp' krp' rest out, Round mode kp krp data bits kp' krp' rest out ∧ kp' ≤ KPMAX ∧
      krp' ≤ KPMAX ∧ Writes mode kp krp data bits kp' krp' rest := by
  by_cases hk : kp >>> LSGR = 0
  · obtain ⟨v, tail, rfl⟩ := List.exists_cons_of_ne_nil hne
    cases mode with
    | rlgr1 =>
      exact ⟨_, _, _, _, _, .single hk, nextKpSingle_le hkp _, nextKrp_le hkrp _,
        writes_single hk hkp hkrp v tail⟩
    | rlgr3 =>
      exact ⟨_, _, _, _, _, .pair hk, nextKpPair_le hkp _ _, nextKrp_le hkrp _,
        writes_pair hk hkp hkrp (hsum rfl hk)⟩
  · exact writes_run hk hkp hkrp hne hlen

/-! ### Coefficients -/

theorem get2MagSign_lt (v : Int16) : get2MagSign v < 2 ^ 16 := by
  have hlo := v.le_toInt
  have hhi := v.toInt_lt
  unfold get2MagSign
  split_ifs <;> omega

theorem get2MagSign_eq_zero {v : Int16} : get2MagSign v = 0 ↔ v = 0 := by
  rw [← Int16.toInt_inj, Int16.toInt_zero]
  unfold get2MagSign
  split_ifs <;> omega

theorem magnitude_le (v : Int16) : magnitude v ≤ 2 ^ 15 := by
  have hlo := v.le_toInt
  have hhi := v.toInt_lt
  unfold magnitude
  omega

theorem toInt_signed (neg : Bool) (m : ℕ) :
    (if neg then -Int16.ofNat m else Int16.ofNat m).toInt =
      (if neg then -(m : ℤ) else m).bmod (2 ^ 16) := by
  cases neg with
  | false => simp
  | true => simp [Int16.toInt_neg]

/-- The sign and the magnitude give the coefficient back; zero comes back as one. -/
theorem signed_magnitude (v : Int16) :
    (if decide (v.toInt < 0) then -Int16.ofNat (magnitude v - 1 + 1)
      else Int16.ofNat (magnitude v - 1 + 1)) = if v = 0 then 1 else v := by
  have hlo := v.le_toInt
  have hhi := v.toInt_lt
  have hzero : v = 0 ↔ v.toInt = 0 := by rw [← Int16.toInt_inj, Int16.toInt_zero]
  rw [← Int16.toInt_inj, toInt_signed, Int.bmod_def]
  unfold magnitude
  by_cases h0 : v = 0
  · rw [if_pos h0, hzero.mp h0]
    decide
  · rw [if_neg h0]
    rw [hzero] at h0
    by_cases hneg : v.toInt < 0
    · simp only [hneg, decide_true, if_true]
      omega
    · simp only [hneg, decide_false, Bool.false_eq_true, if_false]
      omega

theorem unfold2MagSign_get2MagSign (v : Int16) : unfold2MagSign (get2MagSign v) = v := by
  have hlo := v.le_toInt
  have hhi := v.toInt_lt
  have hlt := get2MagSign_lt v
  unfold unfold2MagSign
  have hodd : (get2MagSign v &&& 1 ≠ 0) ↔ v.toInt < 0 := by
    rw [Nat.and_one_is_mod]
    unfold get2MagSign
    split_ifs <;> omega
  rw [Nat.mod_eq_of_lt (by omega), Nat.shiftRight_eq_div_pow, Nat.shiftRight_eq_div_pow, pow_one,
    ← Int16.toInt_inj]
  by_cases hneg : v.toInt < 0
  · rw [if_pos (hodd.mpr hneg), Int16.toInt_neg, Int16.toInt_ofNat', Int.bmod_def, Int.bmod_def]
    unfold get2MagSign Int16.size
    rw [if_neg (by omega)]
    omega
  · rw [if_neg (fun h => hneg (hodd.mp h)), Int16.toInt_ofNat', Int.bmod_def]
    unfold get2MagSign Int16.size
    rw [if_pos (by omega)]
    omega

/-! ### The decoder -/

theorem getMinBits_eq {v j : ℕ} (hj : j < 32) (hlo : 2 ^ j ≤ v) (hhi : v < 2 ^ (j + 1)) :
    getMinBits v = j + 1 := by
  have hloop : ∀ rounds v j : ℕ, j < rounds → 2 ^ j ≤ v → v < 2 ^ (j + 1) →
      minBitsLoop rounds v = j + 1 := by
    intro rounds
    induction rounds with
    | zero => intro v j hj _ _; omega
    | succ rounds ih =>
      intro v j hj hlo hhi
      have hpos := Nat.two_pow_pos j
      rw [minBitsLoop, if_neg (by omega), Nat.shiftRight_eq_div_pow]
      cases j with
      | zero =>
        obtain rfl : v = 1 := by omega
        cases rounds <;> rfl
      | succ j => rw [ih (v / 2 ^ 1) j (by omega) (by omega) (by omega)]
  exact hloop 32 v j hj hlo hhi

/-- A code below `2 ^ 15` survives the way through an `INT16`, and the reader finds the same width
as the writer. -/
theorem codeWidth_eq {code : ℕ} (h : code < 2 ^ 15) : codeWidth code = getMinBits code := by
  unfold codeWidth
  split_ifs with h0
  · have hlo : 2 ^ Nat.log2 code ≤ code := Nat.log2_self_le h0
    have hhi : code < 2 ^ (Nat.log2 code + 1) := Nat.lt_log2_self
    have hlog : Nat.log2 code < 15 := (Nat.log2_lt h0).mpr h
    have hcode : ((code : ℤ) % 2 ^ 32).toNat = code := by omega
    rw [Int16.toInt_ofNat_of_lt h, hcode, lzcntS_eq (by omega) hlo hhi,
      getMinBits_eq (by omega) hlo hhi]
    omega
  · obtain rfl : code = 0 := by omega
    rfl

end FreeRDP.Rlgr
