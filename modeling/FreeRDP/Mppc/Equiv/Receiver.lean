import FreeRDP.Mppc.Equiv.Codes

/-!
# The MPPC decoder executes tokens

A compressed packet is a list of tokens.  `Emits level mem p ts out` says that executing the tokens
`ts` on the history `mem` from index `p` on appends the bytes `out`, each back-reference staying
inside the history.  `iterate_decompressStep` shows that the decoder, on a stream that spells such
tokens, appends `out` and leaves the loop with status 1.
-/

namespace FreeRDP.Mppc

open BitField PrefixCode BitStream ForwardCopy Iterate

/-! ### Tokens -/

inductive Token where
  | literal (b : UInt8)
  | copy (offset length : ℕ)

namespace Token

def fields (level : ℕ) : Token → List (ℕ × ℕ)
  | literal b => literalCode b
  | copy offset length => matchCode level offset length

/-- On the history `mem` the token appends `out` at index `p`. -/
def Emits (level : ℕ) (mem : ℕ → UInt8) (p : ℕ) : Token → List UInt8 → Prop
  | literal b, out => out = [b]
  | copy offset length, out =>
    out.length = length ∧ 3 ≤ length ∧ length < historySize level ∧ offset < historySize level ∧
      sourceIndex level p offset + length ≤ historyBytes ∧
      forwardCopy mem p (sourceIndex level p offset) length = store mem p out

theorem Emits.length_pos {level p : ℕ} {mem : ℕ → UInt8} {t : Token} {out : List UInt8}
    (h : t.Emits level mem p out) : 0 < out.length := by
  cases t with
  | literal b => rw [show out = [b] from h]; simp
  | copy offset length => have := h.1; have := h.2.1; omega

end Token

def fieldsOf (level : ℕ) (ts : List Token) : List (ℕ × ℕ) := ts.flatMap (Token.fields level)

/-- On the history `mem` the tokens append `out` from index `p` on. -/
def Emits (level : ℕ) : (ℕ → UInt8) → ℕ → List Token → List UInt8 → Prop
  | _, _, [], out => out = []
  | mem, p, t :: ts, out =>
    ∃ a b, out = a ++ b ∧ t.Emits level mem p a ∧ Emits level (store mem p a) (p + a.length) ts b

theorem Emits.concat {level : ℕ} {mem : ℕ → UInt8} {p : ℕ} {ts : List Token} {t : Token}
    {a b : List UInt8} (h : Emits level mem p ts a)
    (ht : t.Emits level (store mem p a) (p + a.length) b) :
    Emits level mem p (ts ++ [t]) (a ++ b) := by
  induction ts generalizing mem p a with
  | nil =>
    obtain rfl : a = [] := h
    exact ⟨b, [], by simp, by simpa using ht, rfl⟩
  | cons u ts ih =>
    obtain ⟨a1, a2, rfl, hu, hts⟩ := h
    refine ⟨a1, a2 ++ b, by simp, hu, ih hts ?_⟩
    rwa [store_append, List.length_append, ← Nat.add_assoc] at ht

theorem Emits.length_le {level : ℕ} {mem : ℕ → UInt8} {p : ℕ} {ts : List Token}
    {out : List UInt8} (h : Emits level mem p ts out) : ts.length ≤ out.length := by
  induction ts generalizing mem p out with
  | nil => simp
  | cons t ts ih =>
    obtain ⟨a, b, rfl, ht, hts⟩ := h
    have := ht.length_pos
    have := ih hts
    simp only [List.length_cons, List.length_append]
    omega

/-! ### Widths of tokens -/

theorem width_literalCode (b : UInt8) : 8 ≤ width (literalCode b) ∧ width (literalCode b) ≤ 9 := by
  unfold literalCode
  split_ifs <;> simp

/-- The bounds of the two fields of a back-reference, by the rows of their tables. -/
theorem size_copyOffsetRows (level : ℕ) :
    ∀ r ∈ rowsOf (copyOffsetRows level), r.size ≤ 19 ∧ 10 ≤ r.size ∧
      r.prefixCode < 2 ^ r.prefixLength := by
  unfold copyOffsetRows
  split_ifs <;> decide

theorem size_lengthOfMatchRows (level : ℕ) :
    ∀ r ∈ rowsOf (lengthOfMatchRows level), r.size ≤ 30 ∧ 0 < r.size ∧
      r.prefixCode < 2 ^ r.prefixLength := by
  unfold lengthOfMatchRows
  split_ifs <;> decide

/-! ### One round -/

section Round

variable {level : ℕ} {d : Decoder} {q : ℕ}

/-- The decoder's test for the first literal form. -/
private theorem literal_short (h : d.bs.ReadsAt q) :
    d.bs.accumulator &&& 0x80000000 = 0x00000000 ↔ (⟨1, 0, 7, 0⟩ : Row).Matches d.bs.inputBit q := by
  rw [h.accumulator]
  exact and_mask_eq_iff (k := 1) (c := 0) (by omega)

/-- The decoder's test for the second literal form. -/
private theorem literal_long (h : d.bs.ReadsAt q) :
    d.bs.accumulator &&& 0xC0000000 = 0x80000000 ↔
      (⟨2, 2, 7, 0x80⟩ : Row).Matches d.bs.inputBit q := by
  rw [h.accumulator]
  exact and_mask_eq_iff (k := 2) (c := 2) (by omega)

private theorem literal_short_value (h : d.bs.ReadsAt q) :
    (d.bs.accumulator &&& 0x7F000000) >>> 24 = (⟨1, 0, 7, 0⟩ : Row).valueAt d.bs.inputBit q := by
  rw [h.accumulator, Nat.shiftRight_and_distrib]
  exact shift_and_low (k := 1) (v := 7) (by omega)

private theorem literal_long_value (h : d.bs.ReadsAt q) :
    ((d.bs.accumulator &&& 0x3F800000) >>> 23) + 0x80 =
      (⟨2, 2, 7, 0x80⟩ : Row).valueAt d.bs.inputBit q := by
  rw [h.accumulator, Nat.shiftRight_and_distrib]
  exact congrArg (· + 0x80) (shift_and_low (k := 2) (v := 7) (by omega))

theorem decompressStep_literal (level : ℕ) {b : UInt8} (h : d.bs.ReadsAt q)
    (hs : Spells d.bs.inputBit q (literalCode b)) (hrem : 8 ≤ d.bs.remainingLength)
    (hp : d.historyPtr < historySize level) :
    ∃ n, 0 < n ∧ n < 32 ∧ n = width (literalCode b) ∧
      decompressStep level (historySize level) d =
        .inl ⟨d.bs.shift n, Function.update d.historyBuffer d.historyPtr b, d.historyPtr + 1⟩ := by
  have hsize := historySize_bounds level
  obtain ⟨r, hr, hspan, hcode⟩ := literalCode_eq b
  rw [hcode] at hs ⊢
  obtain ⟨hmatch, hvalue⟩ := Row.matches_of_code hspan hs.1
  have hput : ∀ n, d.putLiteral (r.valueAt d.bs.inputBit q) n =
      .inl ⟨d.bs.shift n, Function.update d.historyBuffer d.historyPtr b, d.historyPtr + 1⟩ := by
    intro n
    rw [Decoder.putLiteral, if_neg (by rw [historyBytes]; omega), hvalue, UInt8.ofNat_toNat]
  simp only [literalRows, List.mem_cons, List.not_mem_nil, or_false] at hr
  rcases hr with rfl | rfl
  · refine ⟨8, by omega, by omega, rfl, ?_⟩
    rw [decompressStep, if_neg (by omega), if_neg (by omega), if_pos ((literal_short h).mpr hmatch),
      literal_short_value h, hput]
  · have hno : ¬ (⟨1, 0, 7, 0⟩ : Row).Matches d.bs.inputBit q :=
      Row.Apart.not_matches (by decide) hmatch
    refine ⟨9, by omega, by omega, rfl, ?_⟩
    rw [decompressStep, if_neg (by omega), if_neg (by omega),
      if_neg (fun hc => hno ((literal_short h).mp hc)), if_pos ((literal_long h).mpr hmatch),
      literal_long_value h, hput]

theorem decompressStep_copy {offset length : ℕ} {out : List UInt8} (h : d.bs.ReadsAt q)
    (hs : Spells d.bs.inputBit q (matchCode level offset length))
    (hrem : 8 ≤ d.bs.remainingLength) (hq : q + width (matchCode level offset length) < 2 ^ 32)
    (hp : d.historyPtr + length ≤ historySize level)
    (he : (Token.copy offset length).Emits level d.historyBuffer d.historyPtr out) :
    ∃ n m, 0 < n ∧ n < 32 ∧ 0 < m ∧ m < 32 ∧ n + m = width (matchCode level offset length) ∧
      decompressStep level (historySize level) d =
        .inl ⟨(d.bs.shift n).shift m, store d.historyBuffer d.historyPtr out,
          d.historyPtr + length⟩ := by
  have hsize := historySize_bounds level
  obtain ⟨-, h3, hlen, hoff, hsrc, hcopy⟩ := he
  obtain ⟨r, hr, hspan, hcode⟩ := codeOf_copyOffset level hoff
  obtain ⟨s, hs', hspan', hcode'⟩ := codeOf_lengthOfMatch level h3 hlen
  obtain ⟨hr19, hr10, -⟩ := size_copyOffsetRows level r hr
  obtain ⟨hs30, hs0, -⟩ := size_lengthOfMatchRows level s hs'
  have hwidth : width (matchCode level offset length) = r.size + s.size := by
    rw [matchCode, hcode, hcode']
    simp
  rw [matchCode, hcode, hcode'] at hs
  obtain ⟨hfirst, hsecond, -⟩ := hs
  -- the copy offset: its row is the only one of all token rows that matches
  have hmem : r ∈ literalRows ++ rowsOf (copyOffsetRows level) := List.mem_append_right _ hr
  have hfree := prefixFree_tokenRows level
  have hmatch := Row.matches_of_code hspan hfirst
  have hno : ∀ l ∈ literalRows, ¬ l.Matches d.bs.inputBit q := by
    intro l hl
    exact ((List.pairwise_append.mp hfree).2.2 l hl r hr).symm.not_matches hmatch.1
  have hread : readRow (copyOffsetRows level) d.bs = some (offset, d.bs.shift r.size) := by
    rw [readRow_of_readsAt (wellFormed_copyOffsetRows level) h,
      decode_of_matches (List.pairwise_append.mp hfree).2.1 hr hmatch.1, Option.map_some, hmatch.2]
  -- the length, at the shifted stream
  have h' : (d.bs.shift r.size).ReadsAt (q + r.size) := h.shift (by omega) (by omega) (by omega)
  have hread' : readRow (lengthOfMatchRows level) (d.bs.shift r.size) =
      some (length, (d.bs.shift r.size).shift s.size) := by
    have hdec := decode_of_code (prefixFree_lengthOfMatchRows level) hs' hspan' hsecond
    rw [readRow_of_readsAt (wellFormed_lengthOfMatchRows level) h', inputBit_shift, hdec.1,
      Option.map_some, hdec.2]
  refine ⟨r.size, s.size, by omega, by omega, by omega, by omega, hwidth.symm, ?_⟩
  rw [decompressStep, if_neg (by omega), if_neg (by omega),
    if_neg (fun hc => hno _ (by decide) ((literal_short h).mp hc)),
    if_neg (fun hc => hno _ (by decide) ((literal_long h).mp hc)), Decoder.readMatch, hread]
  simp only [hread']
  rw [if_neg (by omega), Decoder.copyMatch, checkedCopy_of_le _ hsrc (by rw [historyBytes]; omega), hcopy]

end Round

/-! ### Whole packets -/

theorem remainingLength_of_readsAt {bs : BitStream} {q : ℕ} (h : bs.ReadsAt q)
    (hq : q ≤ bs.length) (hlen : bs.length < 2 ^ 32) : bs.remainingLength = bs.length - q := by
  rw [remainingLength, h.position]
  omega

/-- A round on a stream that spells the token `t` executes it and moves past its bits. -/
theorem decompressStep_token {level : ℕ} {d : Decoder} {q : ℕ} {t : Token} {out : List UInt8}
    (h : d.bs.ReadsAt q) (hs : Spells d.bs.inputBit q (t.fields level))
    (hrem : 8 ≤ d.bs.remainingLength) (hq : q + width (t.fields level) < 2 ^ 32)
    (hp : d.historyPtr + out.length ≤ historySize level)
    (he : t.Emits level d.historyBuffer d.historyPtr out) :
    ∃ bs, decompressStep level (historySize level) d =
        .inl ⟨bs, store d.historyBuffer d.historyPtr out, d.historyPtr + out.length⟩ ∧
      bs.ReadsAt (q + width (t.fields level)) ∧ bs.inputBit = d.bs.inputBit ∧
      bs.length = d.bs.length := by
  cases t with
  | literal b =>
    obtain rfl : out = [b] := he
    obtain ⟨n, hn, hn', hw, hstep⟩ := decompressStep_literal level h hs hrem
      (by simp at hp; omega)
    refine ⟨d.bs.shift n, hstep, ?_, inputBit_shift _ _, length_shift _ _⟩
    rw [Token.fields] at hq ⊢
    rw [← hw] at hq ⊢
    exact h.shift hn hn' hq
  | copy offset length =>
    obtain ⟨n, m, hn, hn', hm, hm', hw, hstep⟩ :=
      decompressStep_copy h hs hrem hq (by rw [← he.1]; exact hp) he
    refine ⟨(d.bs.shift n).shift m, by rw [hstep, he.1], ?_, by simp, by simp⟩
    rw [Token.fields] at hq ⊢
    rw [← hw] at hq ⊢
    rw [← Nat.add_assoc]
    exact (h.shift hn hn' (by omega)).shift hm hm' (by omega)

theorem width_fields_ge {level : ℕ} {mem : ℕ → UInt8} {p : ℕ} {t : Token} {out : List UInt8}
    (he : t.Emits level mem p out) : 8 ≤ width (t.fields level) := by
  cases t with
  | literal b => exact (width_literalCode b).1
  | copy offset length =>
    obtain ⟨-, h3, hlen, hoff, -, -⟩ := he
    obtain ⟨r, hr, -, hcode⟩ := codeOf_copyOffset level hoff
    have := size_copyOffsetRows level r hr
    rw [Token.fields, matchCode, hcode]
    simp only [List.cons_append, List.nil_append, width_cons]
    omega

/-- The decoding loop on a stream that spells the tokens `ts` and less than a byte of padding. -/
theorem iterate_decompressStep {level : ℕ} {ts : List Token} {d : Decoder} {q n : ℕ}
    (out : List UInt8) (h : d.bs.ReadsAt q) (hs : Spells d.bs.inputBit q (fieldsOf level ts))
    (hlen : d.bs.length < 2 ^ 32) (hlo : q + width (fieldsOf level ts) ≤ d.bs.length)
    (hhi : d.bs.length < q + width (fieldsOf level ts) + 8)
    (hp : d.historyPtr + out.length ≤ historySize level)
    (he : Emits level d.historyBuffer d.historyPtr ts out) (hn : ts.length < n) :
    ∃ bs, iterate (decompressStep level (historySize level)) n d =
      some (.ok (1, ⟨bs, store d.historyBuffer d.historyPtr out, d.historyPtr + out.length⟩)) := by
  induction ts generalizing d q n out with
  | nil =>
    obtain ⟨n, rfl⟩ : ∃ k, n = k + 1 := ⟨n - 1, by simp at hn; omega⟩
    obtain rfl : out = [] := he
    simp only [fieldsOf, List.flatMap_nil, width_nil, Nat.add_zero] at hlo hhi
    have hrem := remainingLength_of_readsAt h hlo hlen
    refine ⟨d.bs, iterate_inr ?_ n⟩
    rw [decompressStep, if_pos (by omega)]
    rfl
  | cons t ts ih =>
    obtain ⟨n, rfl⟩ : ∃ k, n = k + 1 := ⟨n - 1, by simp at hn; omega⟩
    obtain ⟨a, b, rfl, ht, hts⟩ := he
    have hfields : fieldsOf level (t :: ts) = t.fields level ++ fieldsOf level ts := rfl
    rw [hfields, width_append] at hlo hhi
    rw [hfields, spells_append] at hs
    rw [List.length_append] at hp
    have hge := width_fields_ge ht
    have hrem := remainingLength_of_readsAt h (by omega) hlen
    obtain ⟨bs, hstep, hbs, hbit, hlength⟩ :=
      decompressStep_token h hs.1 (by omega) (by omega) (by omega) ht
    obtain ⟨bs', hrun⟩ := ih (d := ⟨bs, store d.historyBuffer d.historyPtr a,
        d.historyPtr + a.length⟩) (n := n) b hbs (by rw [hbit]; exact hs.2)
      (by rw [hlength]; exact hlen) (by rw [hlength]; omega) (by rw [hlength]; omega)
      (by dsimp only; omega) hts (by simp at hn; omega)
    refine ⟨bs', ?_⟩
    rw [iterate_inl hstep, hrun, store_append, List.length_append, Nat.add_assoc]

end FreeRDP.Mppc
