import FreeRDP.Mppc.Equiv.Receiver

/-!
# The MPPC encoder writes tokens

`Sending` is the invariant of the encoding loops: the bits written so far are those of tokens that,
executed on the history at the start of the packet, append exactly the symbols consumed so far, and
the history buffer already holds them.  The match table needs no invariant, because the encoder
compares the bytes of every match with the buffer itself; the comparisons are the ones a forward
copy would make at the decoder (`forwardCopy_of_match`).
-/

namespace FreeRDP.Mppc

open BitField PrefixCode BitStream ForwardCopy Iterate

/-! ### Writing fields -/

@[simp] theorem capacity_writeFields (bs : BitStream) (fs : List (ℕ × ℕ)) :
    (writeFields bs fs).capacity = bs.capacity := by
  induction fs generalizing bs with
  | nil => rfl
  | cons f fs ih => exact (ih _).trans (capacity_writeBits _ _ _)

/-- Each field has between 0 and 31 bits and a value that fits. -/
def Fit (fs : List (ℕ × ℕ)) : Prop := ∀ f ∈ fs, f.1 < 32 ∧ f.2 < 2 ^ f.1

theorem writesAt_writeFields {bs : BitStream} {fs gs : List (ℕ × ℕ)} (h : bs.WritesAt fs)
    (hgs : Fit gs) (hcap : width fs + width gs ≤ 8 * bs.capacity)
    (hlt : width fs + width gs < 2 ^ 32) : (writeFields bs gs).WritesAt (fs ++ gs) := by
  induction gs generalizing bs fs with
  | nil => simpa [writeFields] using h
  | cons g gs ih =>
    rw [width_cons] at hcap hlt
    obtain ⟨hg, hv⟩ := hgs g List.mem_cons_self
    have hone := h.writeBits hg hv (by omega) (by omega)
    have := ih hone (fun f hf => hgs f (List.mem_cons_of_mem _ hf))
      (by simp only [width_append, width_cons, width_nil, capacity_writeBits]; omega)
      (by simp only [width_append, width_cons, width_nil]; omega)
    rwa [List.append_assoc] at this

theorem fit_literalCode (b : UInt8) : Fit (literalCode b) := by
  obtain ⟨r, hr, hspan, hcode⟩ := literalCode_eq b
  have hsize : ∀ r ∈ literalRows, r.size < 32 ∧ r.prefixCode < 2 ^ r.prefixLength := by decide
  rw [hcode]
  intro f hf
  obtain rfl : f = (r.size, r.code b.toNat) := by simpa using hf
  exact ⟨(hsize r hr).1, Row.code_lt hspan (hsize r hr).2⟩

theorem fit_matchCode {level offset length : ℕ} (hoff : offset < historySize level)
    (h3 : 3 ≤ length) (hlen : length < historySize level) :
    Fit (matchCode level offset length) ∧ width (matchCode level offset length) ≤ 49 := by
  obtain ⟨r, hr, hspan, hcode⟩ := codeOf_copyOffset level hoff
  obtain ⟨s, hs, hspan', hcode'⟩ := codeOf_lengthOfMatch level h3 hlen
  have hr' := size_copyOffsetRows level r hr
  have hs' := size_lengthOfMatchRows level s hs
  rw [matchCode, hcode, hcode']
  refine ⟨?_, by simp only [List.cons_append, List.nil_append, width_cons, width_nil]; omega⟩
  intro f hf
  simp only [List.cons_append, List.nil_append, List.mem_cons, List.not_mem_nil, or_false] at hf
  rcases hf with rfl | rfl
  · exact ⟨by dsimp only; omega, Row.code_lt hspan hr'.2.2⟩
  · exact ⟨by dsimp only; omega, Row.code_lt hspan' hs'.2.2⟩

/-! ### Matches -/

/-- The symbols a match is extended by are those a forward copy reads at its turn. -/
theorem extendMatch_spec (highWater : ℕ) (src : List UInt8) (mem : ℕ → UInt8)
    (historyPtr matchPtr lengthOfMatch : ℕ) :
    ∃ ext rest, src = ext ++ rest ∧
      extendMatch highWater src mem historyPtr matchPtr lengthOfMatch =
        (store mem historyPtr ext, historyPtr + ext.length, lengthOfMatch + ext.length, rest) ∧
      (∀ k, (hk : k < ext.length) → store mem historyPtr (ext.take k) (matchPtr + k) = ext[k]) ∧
      (ext ≠ [] → matchPtr + ext.length ≤ highWater + 1) := by
  induction src generalizing mem historyPtr matchPtr lengthOfMatch with
  | nil => exact ⟨[], [], rfl, rfl, by simp, by simp⟩
  | cons b src ih =>
    cases src with
    | nil => exact ⟨[], [b], rfl, rfl, by simp, by simp⟩
    | cons c src =>
      rw [extendMatch]
      split_ifs with hb
      · obtain ⟨ext, rest, hsrc, heq, hmatch, hhw⟩ :=
          ih (Function.update mem historyPtr b) (historyPtr + 1) (matchPtr + 1) (lengthOfMatch + 1)
        refine ⟨b :: ext, rest, by rw [hsrc]; rfl, ?_, ?_, ?_⟩
        · rw [heq, List.length_cons, store_cons]
          congr 2
          · omega
          · congr 1
            omega
        · intro k hk
          cases k with
          | zero => exact hb.1.symm
          | succ k =>
            have := hmatch k (by simpa using hk)
            rw [List.take_succ_cons, store_cons, List.getElem_cons_succ, ← this]
            congr 1
            omega
        · intro _
          rcases List.eq_nil_or_concat ext with rfl | ⟨l, a, rfl⟩
          · simp only [List.length_cons, List.length_nil]
            omega
          · have := hhw (by simp)
            rw [List.length_cons]
            omega
      · exact ⟨[], b :: c :: src, rfl, rfl, by simp, by simp⟩

/-- A match that the encoder found is a forward copy of the symbols it covers. -/
theorem forwardCopy_of_match {mem : ℕ → UInt8} {p matchPtr : ℕ} {sym1 sym2 sym3 : UInt8}
    (ext : List UInt8)
    (h1 : Function.update mem p sym1 (matchPtr - 1) = sym1)
    (h2 : Function.update mem p sym1 matchPtr = sym2)
    (h3 : Function.update mem p sym1 (matchPtr + 1) = sym3)
    (hzero : matchPtr ≠ 0) (hp : matchPtr ≠ p) (hp1 : matchPtr ≠ p + 1)
    (hext : ∀ k, (hk : k < ext.length) → store (store mem p [sym1, sym2, sym3]) (p + 3)
      (ext.take k) (matchPtr + 2 + k) = ext[k]) :
    forwardCopy mem p (matchPtr - 1) (3 + ext.length) =
      store mem p (sym1 :: sym2 :: sym3 :: ext) := by
  have hlen : 3 + ext.length = (sym1 :: sym2 :: sym3 :: ext).length := by simp; omega
  rw [hlen]
  apply forwardCopy_eq_store
  intro k hk
  rcases k with _ | _ | _ | k
  · -- the first symbol is already in the buffer when it is compared
    rw [Function.update_of_ne (by omega)] at h1
    simpa using h1
  · rw [show matchPtr - 1 + (0 + 1) = matchPtr by omega]
    simpa [store_cons] using h2
  · -- the third is compared before the second is stored
    rw [show matchPtr - 1 + (0 + 1 + 1) = matchPtr + 1 by omega]
    simp only [List.take_succ_cons, List.take_zero, store_cons, store_nil]
    rw [Function.update_of_ne (by omega), h3]
    rfl
  · have := hext k (by simp only [List.length_cons] at hk; omega)
    rw [show matchPtr - 1 + (k + 1 + 1 + 1) = matchPtr + 2 + k by omega]
    simpa only [List.take_succ_cons, store_cons, store_nil, List.getElem_cons_succ,
      Nat.add_assoc] using this

/-- The offset the encoder sends leads the decoder back to the start of the match. -/
theorem sourceIndex_copyOffsetOf (level p matchPtr : ℕ) (hm : 0 < matchPtr)
    (hm' : matchPtr ≤ historySize level) (hp : p < historySize level) :
    sourceIndex level p (copyOffsetOf (historySize level) (p + 1) matchPtr) = matchPtr - 1 ∧
      copyOffsetOf (historySize level) (p + 1) matchPtr < historySize level := by
  unfold sourceIndex copyOffsetOf
  unfold historySize at *
  by_cases h : level = 0
  · simp only [h, if_true, ne_eq, not_true_eq_false, if_false] at *
    rw [Nat.and_comm (8192 - 1), show (0x1FFF : ℕ) = 2 ^ 13 - 1 by rfl, show 8192 - 1 = 2 ^ 13 - 1 by rfl,
      Nat.and_two_pow_sub_one_eq_mod, Nat.and_two_pow_sub_one_eq_mod]
    omega
  · simp only [h, if_false, ne_eq, not_false_eq_true, if_true] at *
    rw [Nat.and_comm (65536 - 1), show (0xFFFF : ℕ) = 2 ^ 16 - 1 by rfl, show 65536 - 1 = 2 ^ 16 - 1 by rfl,
      Nat.and_two_pow_sub_one_eq_mod, Nat.and_two_pow_sub_one_eq_mod]
    omega

/-! ### The invariant of the loops -/

/-- The encoder has sent the tokens `ts`, which spell the symbols of `packet` before `e.src`. -/
structure Sending (level dstSize : ℕ) (mem : ℕ → UInt8) (p : ℕ) (packet : List UInt8)
    (e : Encoder) (ts : List Token) (sent : List UInt8) : Prop where
  packet_eq : packet = sent ++ e.src
  writes : e.bs.WritesAt (fieldsOf level ts)
  capacity : e.bs.capacity = dstSize
  width_le : width (fieldsOf level ts) ≤ 8 * dstSize
  fit : Fit (fieldsOf level ts)
  emits : Emits level mem p ts sent
  buffer : e.historyBuffer = store mem p sent
  pointer : e.historyPtr = p + sent.length
  highWater : e.highWater ≤ historySize level - 4
  room : p + packet.length ≤ historySize level - 4
  small : 0 < dstSize ∧ dstSize < 2 ^ 28

theorem fieldsOf_concat (level : ℕ) (ts : List Token) (t : Token) :
    fieldsOf level (ts ++ [t]) = fieldsOf level ts ++ t.fields level := by
  simp [fieldsOf]

/-- Sending one more token, whose bits still fit. -/
theorem Sending.concat {level dstSize : ℕ} {mem : ℕ → UInt8} {p : ℕ} {packet : List UInt8}
    {e e' : Encoder} {ts : List Token} {sent : List UInt8} {t : Token}
    (h : Sending level dstSize mem p packet e ts sent) (out : List UInt8)
    (ht : t.Emits level (store mem p sent) (p + sent.length) out)
    (hsrc : e.src = out ++ e'.src) (hfit : Fit (t.fields level))
    (hroom : width (fieldsOf level ts) + width (t.fields level) ≤ 8 * dstSize)
    (hbs : e'.bs = writeFields e.bs (t.fields level))
    (hbuf : e'.historyBuffer = store e.historyBuffer e.historyPtr out)
    (hptr : e'.historyPtr = e.historyPtr + out.length)
    (hhw : e'.highWater ≤ historySize level - 4) :
    Sending level dstSize mem p packet e' (ts ++ [t]) (sent ++ out) where
  packet_eq := by rw [h.packet_eq, hsrc, List.append_assoc]
  writes := by
    have := h.small
    rw [hbs, fieldsOf_concat]
    exact writesAt_writeFields h.writes hfit (by rw [h.capacity]; exact hroom) (by omega)
  capacity := by rw [hbs, capacity_writeFields, h.capacity]
  width_le := by rw [fieldsOf_concat, width_append]; exact hroom
  fit := by
    rw [fieldsOf_concat]
    intro f hf
    rcases List.mem_append.mp hf with hf | hf
    · exact h.fit f hf
    · exact hfit f hf
  emits := h.emits.concat ht
  buffer := by rw [hbuf, h.buffer, h.pointer, store_append]
  pointer := by rw [hptr, h.pointer, List.length_append, Nat.add_assoc]
  highWater := hhw
  room := h.room
  small := h.small

/-- The test before a flush exit leaves room for `8 * n - 7` bits. -/
theorem room_of_not_noRoom {bs : BitStream} {fs : List (ℕ × ℕ)} {n dstSize : ℕ}
    (h : bs.WritesAt fs) (hsmall : 0 < dstSize ∧ dstSize < 2 ^ 28)
    (hroom : ¬ noRoom bs n dstSize) : width fs + (8 * n + 1) ≤ 8 * dstSize := by
  unfold noRoom at hroom
  rw [h.position] at hroom
  omega

/-! ### The main loop -/

section Loop

variable {level dstSize p : ℕ} {mem : ℕ → UInt8} {packet : List UInt8} {e e' : Encoder}
  {ts : List Token} {sent : List UInt8}

theorem Sending.putLiteral {sym1 sym2 sym3 : UInt8} {src : List UInt8}
    (h : Sending level dstSize mem p packet e ts sent) (hsrc : e.src = sym1 :: src)
    (hput : (e.advance sym1 sym2 sym3 src).putLiteral dstSize sym1 = .ok e') :
    Sending level dstSize mem p packet e' (ts ++ [.literal sym1]) (sent ++ [sym1]) := by
  have hlen : packet.length = sent.length + (src.length + 1) := by
    rw [h.packet_eq, hsrc, List.length_append, List.length_cons]
  unfold Encoder.putLiteral at hput
  split_ifs at hput with hroom
  have hwidth := (width_literalCode sym1).2
  have := room_of_not_noRoom h.writes h.small hroom
  obtain rfl := Except.ok.inj hput
  refine h.concat [sym1] rfl hsrc (fit_literalCode sym1) (by rw [Token.fields]; omega) rfl
    rfl rfl ?_
  have hroom' := h.room
  have hhw := h.highWater
  have hptr := h.pointer
  simp only [Encoder.advance]
  omega

/-- The match branch, once the extent of the match is known. -/
private theorem putMatch_eq (e : Encoder) {size matchPtr historyPtr lengthOfMatch : ℕ}
    {sym2 sym3 : UInt8} {buffer : ℕ → UInt8} {src : List UInt8}
    (h : extendMatch e.highWater e.src (Function.update (Function.update e.historyBuffer
      e.historyPtr sym2) (e.historyPtr + 1) sym3) (e.historyPtr + 2) (matchPtr + 2) 3 =
        (buffer, historyPtr, lengthOfMatch, src)) :
    e.putMatch level size dstSize matchPtr sym2 sym3 =
      if noRoom e.bs 7 dstSize then .error e.bs
      else .ok { e with
        bs := writeFields e.bs
          (matchCode level (copyOffsetOf size e.historyPtr matchPtr) lengthOfMatch)
        historyBuffer := buffer
        historyPtr := historyPtr
        src := src } := by
  rw [Encoder.putMatch, h]

theorem Sending.putMatch {sym1 sym2 sym3 sym4 : UInt8} {src : List UInt8} {matchPtr : ℕ}
    (h : Sending level dstSize mem p packet e ts sent)
    (hsrc : e.src = sym1 :: sym2 :: sym3 :: sym4 :: src)
    (hmatch : ¬ (e.advance sym1 sym2 sym3 (sym2 :: sym3 :: sym4 :: src)).NoMatch matchPtr
      sym1 sym2 sym3)
    (hput : (e.advance sym1 sym2 sym3 (sym4 :: src)).putMatch level (historySize level) dstSize
      matchPtr sym2 sym3 = .ok e') :
    ∃ t out, Sending level dstSize mem p packet e' (ts ++ [t]) (sent ++ out) ∧
      e'.src.length < e.src.length := by
  have hlen : packet.length = sent.length + (src.length + 4) := by
    rw [h.packet_eq, hsrc, List.length_append]
    rfl
  have hroom' := h.room
  have hhw := h.highWater
  have hptr := h.pointer
  have hsize := historySize_bounds level
  simp only [Encoder.NoMatch, Encoder.advance, not_or, not_not, not_lt] at hmatch
  obtain ⟨h1, h2, h3, hle, hzero, hprev, hcur⟩ := hmatch
  set hw := max e.highWater (e.historyPtr + 1) with hhw_def
  have hhw' : hw ≤ historySize level - 4 := by omega
  obtain ⟨ext, rest, hext, heq, hcmp, hbound⟩ := extendMatch_spec hw (sym4 :: src)
    (store e.historyBuffer e.historyPtr [sym1, sym2, sym3]) (e.historyPtr + 3) (matchPtr + 2) 3
  obtain ⟨hsource, hoffset⟩ := sourceIndex_copyOffsetOf level e.historyPtr matchPtr
    (by omega) (by omega) (by omega)
  rw [putMatch_eq (e.advance sym1 sym2 sym3 (sym4 :: src)) heq] at hput
  by_cases hroom : noRoom (e.advance sym1 sym2 sym3 (sym4 :: src)).bs 7 dstSize
  · rw [if_pos hroom] at hput
    cases hput
  rw [if_neg hroom] at hput
  rw [show (e.advance sym1 sym2 sym3 (sym4 :: src)).historyPtr = e.historyPtr + 1 from rfl] at hput
  generalize copyOffsetOf (historySize level) (e.historyPtr + 1) matchPtr = offset at *
  obtain rfl := Except.ok.inj hput
  have hextlen : ext.length + rest.length = src.length + 1 := by
    rw [← List.length_append, ← hext, List.length_cons]
  -- the last index compared lies below the high-water mark
  have hlast : matchPtr - 1 + (3 + ext.length) ≤ hw + 1 := by
    rcases List.eq_nil_or_concat ext with rfl | ⟨l, a, rfl⟩
    · simp only [List.length_nil]
      omega
    · have := hbound (by simp)
      omega
  have hcopy := forwardCopy_of_match ext h1.symm h2.symm h3.symm hzero (by omega)
    (by omega) hcmp
  have hfit := fit_matchCode hoffset (Nat.le_add_right 3 ext.length) (by omega)
  have := room_of_not_noRoom h.writes h.small hroom
  refine ⟨.copy offset (3 + ext.length), sym1 :: sym2 :: sym3 :: ext, ?_, ?_⟩
  · refine h.concat _ ⟨by simp; omega, by omega, by omega, hoffset, ?_, ?_⟩
      (by rw [hsrc, hext]; rfl) hfit.1 (by rw [Token.fields]; have := hfit.2; omega) rfl ?_ ?_ hhw'
    · rw [← hptr, hsource, historyBytes]
      omega
    · rw [← hptr, hsource, ← h.buffer, hcopy]
    · exact (store_append e.historyBuffer e.historyPtr [sym1, sym2, sym3] ext).symm
    · simp only [List.length_cons]
      omega
  · simp only [hsrc, List.length_cons]
    omega

/-- A round of the main loop keeps the invariant and consumes symbols. -/
theorem Sending.step (h : Sending level dstSize mem p packet e ts sent)
    (hstep : compressStep level (historySize level) dstSize e = .inl e') :
    (∃ ts sent, Sending level dstSize mem p packet e' ts sent) ∧
      e'.src.length < e.src.length := by
  unfold compressStep at hstep
  split at hstep
  case h_2 => cases hstep
  case h_1 sym1 sym2 sym3 sym4 src hsrc =>
    dsimp only at hstep
    by_cases hmatch : (e.advance sym1 sym2 sym3 (sym2 :: sym3 :: sym4 :: src)).NoMatch
        (e.matchBuffer (matchIndex sym1 sym2 sym3)).toNat sym1 sym2 sym3
    · rw [if_pos hmatch] at hstep
      split at hstep
      case h_2 => cases hstep
      case h_1 e1 hput =>
        obtain rfl := Sum.inl.inj hstep
        have hnext := h.putLiteral hsrc hput
        refine ⟨⟨_, _, hnext⟩, ?_⟩
        have := congrArg List.length (hnext.packet_eq.symm.trans h.packet_eq)
        simp only [List.length_append, List.length_cons, List.length_nil] at this
        omega
    · rw [if_neg hmatch] at hstep
      split at hstep
      case h_2 => cases hstep
      case h_1 e1 hput =>
        obtain rfl := Sum.inl.inj hstep
        obtain ⟨t, out, hnext, hlt⟩ := h.putMatch hsrc hmatch hput
        exact ⟨⟨_, _, hnext⟩, hlt⟩

/-- The main loop leaves unfinished only at a flush exit. -/
theorem Sending.exit {r : Except BitStream Encoder}
    (h : Sending level dstSize mem p packet e ts sent)
    (hstep : compressStep level (historySize level) dstSize e = .inr r) :
    ∀ e', r = .ok e' → ∃ ts sent, Sending level dstSize mem p packet e' ts sent := by
  rintro e' rfl
  unfold compressStep at hstep
  split at hstep
  case h_1 =>
    dsimp only at hstep
    split at hstep <;> cases hstep
  case h_2 =>
    obtain rfl := Except.ok.inj (Sum.inr.inj hstep)
    exact ⟨ts, sent, h⟩

/-- The trailing symbols go out as literals. -/
theorem Sending.putTrailing {src : List UInt8} (h : Sending level dstSize mem p packet e ts sent)
    (hsrc : e.src = src) (hput : putTrailing dstSize src e = .ok e') :
    ∃ ts, Sending level dstSize mem p packet e' ts packet := by
  induction src generalizing e ts sent with
  | nil =>
    obtain rfl := Except.ok.inj hput
    have hall : packet = sent := by rw [h.packet_eq, hsrc, List.append_nil]
    exact ⟨ts, by rw [hall] at h ⊢; exact h⟩
  | cons b src ih =>
    rw [Mppc.putTrailing] at hput
    split_ifs at hput with hroom
    have hwidth := (width_literalCode b).2
    have := room_of_not_noRoom h.writes h.small hroom
    have hnext : Sending level dstSize mem p packet
        { e with
          bs := writeFields e.bs (literalCode b)
          historyBuffer := Function.update e.historyBuffer e.historyPtr b
          historyPtr := e.historyPtr + 1
          src := src } (ts ++ [.literal b]) (sent ++ [b]) :=
      h.concat [b] rfl hsrc (fit_literalCode b) (by rw [Token.fields]; omega) rfl rfl rfl h.highWater
    exact ih hnext rfl hput

end Loop

end FreeRDP.Mppc
