import FreeRDP.Rlgr.Equiv.Codes

/-!
# The decoder undoes a round

A decoder whose parameters are those of the encoder and whose stream shows the bits of a round puts
out the coefficients of that round and ends with the encoder's parameters behind these bits.
-/

namespace FreeRDP.Rlgr

open BitField BitList

variable {bit : ℕ → Bool} {len p kp krp : ℕ} {d : Decoder}

theorem mod_or_shift (val kr : ℕ) : val % 2 ^ kr ||| val >>> kr <<< kr = val := by
  apply Nat.eq_of_testBit_eq
  intro i
  rw [Nat.testBit_or, Nat.testBit_mod_two_pow, Nat.testBit_shiftLeft, Nat.testBit_shiftRight]
  rcases Nat.lt_or_ge i kr with hi | hi
  · simp [hi]
  · rw [Nat.add_sub_cancel' hi]
    simp [hi]

/-- How a computation goes on after a part that succeeds. -/
theorem ok_bind {ε α β : Type} (a : α) (f : α → Except ε β) : (Except.ok a >>= f) = f a := rfl

theorem joinCode_of_lt {kr krp val : ℕ} (hkrp : krp ≤ KPMAX) (hval : val < 2 ^ 16) :
    joinCode kr krp (val >>> kr) (val % 2 ^ kr) = .ok val := by
  have hvk : val >>> kr ≤ val := by
    rw [Nat.shiftRight_eq_div_pow]
    exact Nat.div_le_self _ _
  have hvk' : val >>> kr <<< kr ≤ val := by
    rw [Nat.shiftRight_eq_div_pow, Nat.shiftLeft_eq]
    exact Nat.div_mul_le_self _ _
  unfold KPMAX at hkrp
  unfold joinCode
  rw [if_neg (by omega), mod_or_shift, Nat.mod_eq_of_lt hval]

theorem length_grBits (kr val : ℕ) : (grBits kr val).length = val >>> kr + 1 + kr := by
  simp [grBits]
  omega

theorem readCode_spec {val : ℕ} (h : Stands d.bs bit len p) (hkr : d.kr ≤ 10)
    (hkrp : d.krp ≤ KPMAX) (hval : val < 2 ^ 16) (hshows : Shows bit p (grBits d.kr val))
    (hlen : p + (grBits d.kr val).length ≤ len) :
    ∃ bs', readCode d = .ok (val, { d with
        bs := bs'
        krp := nextKrp d.krp (val >>> d.kr)
        kr := nextKrp d.krp (val >>> d.kr) >>> LSGR }) ∧
      Stands bs' bit len (p + (grBits d.kr val).length) := by
  rw [length_grBits] at hlen ⊢
  unfold grBits at hshows
  obtain ⟨bs1, hunary, hbs1⟩ := readUnary_spec (b := true) h hshows (by omega)
  rw [shows_append, shows_cons, List.length_replicate] at hshows
  obtain ⟨bs2, hbits, hbs2⟩ := readBits_spec hbs1 hshows.2.2 (by omega) (by omega)
  refine ⟨bs2, ?_, by rwa [Nat.add_assoc p, Nat.add_assoc p] at hbs2⟩
  unfold readCode
  rw [hunary, ok_bind]
  dsimp only
  rw [hbits, ok_bind]
  dsimp only
  rw [joinCode_of_lt hkrp hval, ok_bind]
  rfl

/-- The decoder's parameters are those given and its stream stands at bit `p`. -/
structure Decoder.Holds (d : Decoder) (bit : ℕ → Bool) (len p kp krp : ℕ) : Prop where
  stands : Stands d.bs bit len p
  k_eq : d.k = kp >>> LSGR
  kp_eq : d.kp = kp
  kr_eq : d.kr = krp >>> LSGR
  krp_eq : d.krp = krp
  kp_le : kp ≤ KPMAX
  krp_le : krp ≤ KPMAX

theorem Decoder.Holds.readCode (h : d.Holds bit len p kp krp) (val : ℕ) (hval : val < 2 ^ 16)
    (hshows : Shows bit p (grBits (krp >>> LSGR) val))
    (hlen : p + (grBits (krp >>> LSGR) val).length ≤ len) :
    ∃ d', readCode d = .ok (val, d') ∧ d'.output = d.output ∧
      d'.Holds bit len (p + (grBits (krp >>> LSGR) val).length) kp
        (nextKrp krp (val >>> (krp >>> LSGR))) := by
  rw [← h.kr_eq] at hshows hlen ⊢
  have hkr := shiftRight_le h.krp_le
  have hkrp := h.krp_le
  rw [← h.kr_eq] at hkr
  rw [← h.krp_eq] at hkrp ⊢
  obtain ⟨bs', heq, hbs'⟩ := readCode_spec h.stands hkr hkrp hval hshows hlen
  exact ⟨_, heq, rfl, hbs', h.k_eq, h.kp_eq, rfl, rfl, h.kp_le, nextKrp_le hkrp _⟩

theorem putZeros_of_le {dstSize zeros : ℕ} {output : List Int16}
    (h : output.length + zeros ≤ dstSize) (hdst : dstSize < 2 ^ 32) :
    putZeros dstSize output zeros = .ok (output ++ List.replicate zeros 0) := by
  unfold putZeros
  dsimp only
  rw [if_neg (show ¬ ((output.length : ℤ) + zeros) % 2 ^ 64 > dstSize by omega),
    if_neg (by omega), Int.toNat_natCast]

theorem putCoefficient_of_lt {dstSize : ℕ} {output : List Int16} (mag : Int16)
    (h : output.length < dstSize) : putCoefficient dstSize output mag = output ++ [mag] :=
  if_pos h

theorem toInt_of_lt {n : ℕ} (h : n < 2 ^ 31) : toInt n = n := by
  unfold toInt
  rw [Int.bmod_eq_of_le (by omega) (by omega)]

theorem runLengthRound_spec {zeros vk kp' rest dstSize : ℕ} {v : Int16}
    (h : d.Holds bit len p kp krp) (hsplit : Splits kp zeros vk kp' rest)
    (hshows : Shows bit p (runBits vk kp' rest krp v))
    (hlen : p + (runBits vk kp' rest krp v).length ≤ len)
    (hdst : d.output.length + zeros < dstSize) (hdst' : dstSize ≤ 2 ^ 31) :
    ∃ d', runLengthRound dstSize d = .ok d' ∧
      d'.Holds bit len (p + (runBits vk kp' rest krp v).length) (lower kp' DN_GR)
        (nextKrp krp ((magnitude v - 1) >>> (krp >>> LSGR))) ∧
      d'.output = d.output ++ (List.replicate zeros 0 ++ [if v = 0 then 1 else v]) := by
  have hk' := shiftRight_le (hsplit.kp_le h.kp_le)
  have hmag := magnitude_le v
  have hrest := hsplit.rest_lt
  have hrest' := hsplit.le
  have hlength : (runBits vk kp' rest krp v).length =
      vk + 1 + kp' >>> LSGR + 1 + (grBits (krp >>> LSGR) (magnitude v - 1)).length := by
    simp only [runBits, List.length_append, List.length_replicate, List.length_cons, length_bitsOf]
    ring
  rw [hlength] at hlen ⊢
  unfold runBits at hshows
  generalize hk : kp' >>> LSGR = k' at *
  obtain ⟨bs1, hunary, hbs1⟩ := readUnary_spec (b := false) h.stands hshows (by omega)
  simp only [shows_append, shows_cons, List.length_replicate, length_bitsOf] at hshows
  obtain ⟨-, -, hnum, hsign, hcode⟩ := hshows
  obtain ⟨bs2, hbits, hbs2⟩ := readBits_spec hbs1 hnum (by omega) (by omega)
  obtain ⟨bs3, hread, hbs3⟩ := readSign_spec hbs2 hsign (by omega)
  have hd3 : Decoder.Holds { d with bs := bs3 } bit len _ kp krp :=
    ⟨hbs3, h.k_eq, h.kp_eq, h.kr_eq, h.krp_eq, h.kp_le, h.krp_le⟩
  obtain ⟨d4, hcodeq, hout, hd4⟩ := hd3.readCode (magnitude v - 1) (by omega) hcode (by omega)
  have hruns : addRuns vk 0 d.kp = .ok (0 + (zeros - rest), kp') := by
    rw [h.kp_eq]
    exact addRuns_spec hsplit (by omega)
  have hrun : toInt (0 + (zeros - rest) + rest % 2 ^ k') = (zeros : ℤ) := by
    rw [Nat.mod_eq_of_lt hrest, Nat.zero_add, Nat.sub_add_cancel hrest', toInt_of_lt (by omega)]
  refine ⟨{ d4 with
    kp := lower kp' DN_GR
    k := lower kp' DN_GR >>> LSGR
    output := d.output ++ (List.replicate zeros 0 ++ [if v = 0 then 1 else v]) }, ?_, ?_, rfl⟩
  · unfold runLengthRound
    rw [hunary, ok_bind]
    dsimp only
    rw [hruns, ok_bind]
    dsimp only
    rw [hk, hbits, ok_bind]
    dsimp only
    rw [hread, ok_bind]
    dsimp only
    rw [hcodeq, ok_bind]
    dsimp only
    rw [hrun, hout, putZeros_of_le hdst.le (by omega), ok_bind,
      putCoefficient_of_lt _ (by rw [List.length_append, List.length_replicate]; exact hdst),
      signed_magnitude, List.append_assoc]
    rfl
  · refine ⟨?_, rfl, rfl, hd4.kr_eq, hd4.krp_eq, lower_le (hsplit.kp_le h.kp_le) _, hd4.krp_le⟩
    have hstands := hd4.stands
    rwa [show p + vk + 1 + k' + 1 + (grBits (krp >>> LSGR) (magnitude v - 1)).length =
      p + (vk + 1 + k' + 1 + (grBits (krp >>> LSGR) (magnitude v - 1)).length) by omega] at hstands

theorem singleRound_spec {dstSize : ℕ} {v : Int16} (h : d.Holds bit len p kp krp)
    (hshows : Shows bit p (grBits (krp >>> LSGR) (get2MagSign v)))
    (hlen : p + (grBits (krp >>> LSGR) (get2MagSign v)).length ≤ len)
    (hdst : d.output.length < dstSize) :
    ∃ d', singleRound dstSize d = .ok d' ∧
      d'.Holds bit len (p + (grBits (krp >>> LSGR) (get2MagSign v)).length)
        (nextKpSingle kp (get2MagSign v)) (nextKrp krp (get2MagSign v >>> (krp >>> LSGR))) ∧
      d'.output = d.output ++ [v] := by
  obtain ⟨d1, hcode, hout, hd1⟩ := h.readCode _ (get2MagSign_lt v) hshows hlen
  have hmag : (if get2MagSign v = 0 then 0 else unfold2MagSign (get2MagSign v)) = v := by
    rw [unfold2MagSign_get2MagSign]
    split_ifs with h0
    · exact (get2MagSign_eq_zero.mp h0).symm
    · rfl
  refine ⟨{ d1 with
    kp := nextKpSingle kp (get2MagSign v)
    k := nextKpSingle kp (get2MagSign v) >>> LSGR
    output := d.output ++ [v] }, ?_, ?_, rfl⟩
  · unfold singleRound
    rw [hcode, ok_bind]
    dsimp only
    rw [hmag, hout, putCoefficient_of_lt v hdst, hd1.kp_eq]
    rfl
  · exact ⟨hd1.stands, rfl, rfl, hd1.kr_eq, hd1.krp_eq, nextKpSingle_le h.kp_le _, hd1.krp_le⟩

/-- Two coefficients coded together, the second of which may be padding. -/
theorem pairRound_spec {dstSize : ℕ} {v w : Int16} (h : d.Holds bit len p kp krp)
    (hshows : Shows bit p (pairBits krp v w)) (hlen : p + (pairBits krp v w).length ≤ len)
    (hdst : d.output.length < dstSize) (hsum : get2MagSign v + get2MagSign w < 2 ^ 15) :
    ∃ d', pairRound dstSize d = .ok d' ∧
      d'.Holds bit len (p + (pairBits krp v w).length)
        (nextKpPair kp (get2MagSign v) (get2MagSign w))
        (nextKrp krp ((get2MagSign v + get2MagSign w) >>> (krp >>> LSGR))) ∧
      d'.output = (d.output ++ [v, w]).take dstSize := by
  unfold pairBits at *
  rw [List.length_append, length_bitsOf] at *
  rw [shows_append] at hshows
  obtain ⟨d1, hcode, hout, hd1⟩ := h.readCode (get2MagSign v + get2MagSign w) (by omega)
    hshows.1 (by omega)
  have hmin : getMinBits (get2MagSign v + get2MagSign w) ≤ 15 := getMinBits_of_lt hsum
  obtain ⟨bs2, hbits, hbs2⟩ := readBits_spec hd1.stands hshows.2 (by omega) (by omega)
  have hval : get2MagSign v % 2 ^ getMinBits (get2MagSign v + get2MagSign w) = get2MagSign v := by
    apply Nat.mod_eq_of_lt
    rcases Nat.eq_zero_or_pos (get2MagSign v + get2MagSign w) with h0 | hpos
    · have := Nat.two_pow_pos (getMinBits (get2MagSign v + get2MagSign w))
      omega
    · have hlog : Nat.log2 (get2MagSign v + get2MagSign w) < 15 :=
        (Nat.log2_lt (by omega)).mpr hsum
      have hself : get2MagSign v + get2MagSign w < 2 ^ (Nat.log2 (get2MagSign v + get2MagSign w) + 1) :=
        Nat.lt_log2_self
      rw [getMinBits_eq (by omega) (Nat.log2_self_le (by omega)) hself]
      omega
  have hval2 : secondCode (get2MagSign v + get2MagSign w) (get2MagSign v) = get2MagSign w := by
    unfold secondCode
    omega
  have hput : putCoefficient dstSize (d.output ++ [v]) w = (d.output ++ [v, w]).take dstSize := by
    unfold putCoefficient
    rw [List.length_append, List.length_singleton, List.append_assoc]
    split_ifs with hroom
    · rw [List.take_of_length_le (by simp; omega)]
      rfl
    · rw [show d.output ++ [v, w] = d.output ++ [v] ++ [w] by simp,
        List.take_append_of_le_length (by simp; omega), List.take_of_length_le (by simp; omega)]
  refine ⟨{ d1 with
    bs := bs2
    kp := nextKpPair kp (get2MagSign v) (get2MagSign w)
    k := nextKpPair kp (get2MagSign v) (get2MagSign w) >>> LSGR
    output := (d.output ++ [v, w]).take dstSize }, ?_, ?_, rfl⟩
  · unfold pairRound
    rw [hcode, ok_bind]
    dsimp only
    rw [codeWidth_eq hsum, hbits, ok_bind]
    dsimp only
    rw [hval, hval2, unfold2MagSign_get2MagSign, unfold2MagSign_get2MagSign, hout,
      putCoefficient_of_lt v hdst, hput, hd1.kp_eq]
    rfl
  · refine ⟨?_, rfl, rfl, hd1.kr_eq, hd1.krp_eq, nextKpPair_le h.kp_le _ _, hd1.krp_le⟩
    rwa [Nat.add_assoc] at hbs2

/-- The decoder undoes a round, except that a pair of codes of `2 ^ 15` or more in `RLGR3` is
beyond it. -/
theorem decodeRound_spec {mode : Mode} {data rest out : List Int16} {bits : List Bool}
    {kp' krp' dstSize : ℕ} (hround : Round mode kp krp data bits kp' krp' rest out)
    (h : d.Holds bit len p kp krp) (hshows : Shows bit p bits) (hlen : p + bits.length ≤ len)
    (hdst : d.output.length + data.length = dstSize) (hdst' : dstSize ≤ 2 ^ 31)
    (hsum : mode = .rlgr3 → kp >>> LSGR = 0 → pairSum data < 2 ^ 15) :
    ∃ d', decodeRound mode dstSize d = .ok d' ∧ d'.Holds bit len (p + bits.length) kp' krp' ∧
      d'.output = (d.output ++ out).take dstSize := by
  unfold decodeRound
  cases hround with
  | @run _ _ _ zeros vk kp1 r v _ hk hlast hsplit =>
    rw [List.length_append, List.length_replicate, List.length_cons] at hdst
    rw [h.k_eq, if_pos hk]
    obtain ⟨d', heq, hd', hout⟩ := runLengthRound_spec h hsplit hshows hlen (by omega) hdst'
    refine ⟨d', heq, hd', ?_⟩
    rw [hout, List.take_of_length_le]
    simp
    omega
  | @single _ _ v _ hk =>
    rw [List.length_cons] at hdst
    rw [h.k_eq, if_neg (not_not.mpr hk)]
    obtain ⟨d', heq, hd', hout⟩ := singleRound_spec h hshows hlen
      (show d.output.length < dstSize by omega)
    refine ⟨d', heq, hd', ?_⟩
    rw [hout, List.take_of_length_le]
    simp
    omega
  | @pair _ _ v tail hk =>
    rw [List.length_cons] at hdst
    rw [h.k_eq, if_neg (not_not.mpr hk)]
    exact pairRound_spec h hshows hlen (by omega) (hsum rfl hk)

end FreeRDP.Rlgr
