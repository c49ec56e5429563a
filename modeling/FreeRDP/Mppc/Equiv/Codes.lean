import FreeRDP.Mppc.Basic
import FreeRDP.BitStream.Equiv
import FreeRDP.Lib.PrefixCode
import Mathlib.Tactic.FinCases

/-!
# The prefix codes of MPPC

The decoder's branches compare masked accumulators, the encoder's branches compare ranges.  Both
describe one prefix-free table of `PrefixCode.Row`s: a well-formed `DecodeRow` reads what its row
reads (`readRow_of_readsAt`), and each `EncodeRow` writes the code word of the row that agrees with
it (`codeOf_eq`).
-/

namespace FreeRDP.Mppc

open BitField PrefixCode BitStream

/-! ### Masks -/

private theorem and_highMask {w j : ℕ} (hw : w < 2 ^ 32) (hj : j ≤ 32) :
    w &&& (2 ^ 32 - 2 ^ j) = w / 2 ^ j * 2 ^ j := by
  have hmask : 2 ^ 32 - 2 ^ j = (2 ^ (32 - j) - 1) <<< j := by
    rw [Nat.shiftLeft_eq, Nat.sub_mul, Nat.one_mul, ← pow_add, show 32 - j + j = 32 by omega]
  apply Nat.eq_of_testBit_eq
  intro i
  rw [hmask, Nat.testBit_and, Nat.testBit_shiftLeft, Nat.testBit_two_pow_sub_one,
    ← Nat.shiftLeft_eq, Nat.testBit_shiftLeft, Nat.testBit_div_two_pow]
  by_cases hi : j ≤ i
  · by_cases hlt : i - j < 32 - j
    · simp [hi, hlt]
    · have hbig : w < 2 ^ i := lt_of_lt_of_le hw (Nat.pow_le_pow_right (by omega) (by omega))
      simp [hi, Nat.testBit_lt_two_pow hbig]
  · simp [hi]

/-- The top `k` bits of the accumulator, compared under a mask. -/
theorem and_mask_eq_iff {bit : ℕ → Bool} {p k c : ℕ} (hk : k ≤ 32) :
    fieldAt bit p 32 &&& (2 ^ 32 - 2 ^ (32 - k)) = c * 2 ^ (32 - k) ↔ fieldAt bit p k = c := by
  have hdiv := fieldAt_div bit p k (32 - k)
  rw [show k + (32 - k) = 32 by omega] at hdiv
  rw [and_highMask (fieldAt_lt _ _ _) (by omega), hdiv]
  exact Nat.mul_left_inj (Nat.two_pow_pos _).ne'

/-- The `v` bits that follow the top `k` bits of the accumulator. -/
theorem shift_and_low {bit : ℕ → Bool} {p k v : ℕ} (hkv : k + v ≤ 32) :
    (fieldAt bit p 32 >>> (32 - (k + v))) &&& (2 ^ v - 1) = fieldAt bit (p + k) v := by
  have hdiv := fieldAt_div bit p (k + v) (32 - (k + v))
  rw [show k + v + (32 - (k + v)) = 32 by omega] at hdiv
  rw [Nat.and_two_pow_sub_one_eq_mod, Nat.shiftRight_eq_div_pow, hdiv, fieldAt_mod]

/-! ### The rows of the decoder -/

namespace DecodeRow

/-- The prefix code that a branch of the decoder reads. -/
def row (r : DecodeRow) : Row where
  prefixLength := r.nbits - r.low.size
  prefixCode := r.code / 2 ^ (32 - (r.nbits - r.low.size))
  valueBits := r.low.size
  valueBase := r.base

/-- The constants of a branch fit together. -/
def WellFormed (r : DecodeRow) : Prop :=
  r.mask = 2 ^ 32 - 2 ^ (32 - r.row.prefixLength) ∧
    r.code = r.row.prefixCode * 2 ^ (32 - r.row.prefixLength) ∧
    r.shift = 32 - r.nbits ∧ r.low = 2 ^ r.row.valueBits - 1 ∧
    r.nbits = r.row.prefixLength + r.row.valueBits ∧ 0 < r.nbits ∧ r.nbits < 32

instance (r : DecodeRow) : Decidable r.WellFormed := inferInstanceAs (Decidable (_ ∧ _))

end DecodeRow

/-- The table of a list of branches. -/
def rowsOf (rows : List DecodeRow) : List Row := rows.map DecodeRow.row

/-- On a reading stream the branches read what the table reads. -/
theorem readRow_of_readsAt {rows : List DecodeRow} (hrows : ∀ r ∈ rows, r.WellFormed)
    {bs : BitStream} {p : ℕ} (h : bs.ReadsAt p) :
    readRow rows bs =
      (decode (rowsOf rows) bs.inputBit p).map fun r => (r.valueAt bs.inputBit p, bs.shift r.size) := by
  induction rows with
  | nil => rfl
  | cons r rows ih =>
    obtain ⟨hmask, hcode, hshift, hlow, hnbits, -, hlt⟩ := hrows r List.mem_cons_self
    have ih := ih fun s hs => hrows s (List.mem_cons_of_mem _ hs)
    have hiff : bs.accumulator &&& r.mask = r.code ↔ r.row.Matches bs.inputBit p := by
      rw [h.accumulator, hmask, hcode]
      exact and_mask_eq_iff (by omega)
    by_cases hm : r.row.Matches bs.inputBit p
    · have hvalue : (bs.accumulator >>> r.shift) &&& r.low =
          fieldAt bs.inputBit (p + r.row.prefixLength) r.row.valueBits := by
        rw [h.accumulator, hshift, hlow, hnbits]
        exact shift_and_low (by omega)
      rw [readRow, List.find?_cons_of_pos (by simpa using hiff.mpr hm), decode, rowsOf,
        List.map_cons, List.find?_cons_of_pos (by simpa using hm), Option.map_some,
        Option.map_some, hvalue, hnbits]
      rfl
    · rw [readRow] at ih ⊢
      rw [decode, rowsOf] at ih
      rw [List.find?_cons_of_neg (by simpa using fun h => hm (hiff.mp h)), ih, decode, rowsOf,
        List.map_cons, List.find?_cons_of_neg (by simpa using hm)]

/-- The two literal branches of the decoder, as rows. -/
def literalRows : List Row := [⟨1, 0, 7, 0⟩, ⟨2, 2, 7, 0x80⟩]

theorem wellFormed_copyOffsetRows (level : ℕ) : ∀ r ∈ copyOffsetRows level, r.WellFormed := by
  unfold copyOffsetRows
  split_ifs <;> decide

theorem wellFormed_lengthOfMatchRows (level : ℕ) :
    ∀ r ∈ lengthOfMatchRows level, r.WellFormed := by
  unfold lengthOfMatchRows
  split_ifs <;> decide

/-- Literals and copy offsets are told apart by their prefixes. -/
theorem prefixFree_tokenRows (level : ℕ) :
    PrefixFree (literalRows ++ rowsOf (copyOffsetRows level)) := by
  unfold copyOffsetRows
  split_ifs <;> decide

theorem prefixFree_lengthOfMatchRows (level : ℕ) : PrefixFree (rowsOf (lengthOfMatchRows level)) := by
  unfold lengthOfMatchRows
  split_ifs <;> decide

/-! ### The rows of the encoder -/

/-- The branch `e` of the encoder writes code words of the row `r`, for values below `bound`. -/
def Agrees (bound : ℕ) (e : EncodeRow) (r : Row) : Prop :=
  e.nbits = r.size ∧ e.code = r.prefixCode * 2 ^ r.valueBits ∧ e.low = 2 ^ r.valueBits - 1 ∧
    r.valueBase ≤ e.lo ∧ min e.hi bound ≤ r.valueBase + 2 ^ r.valueBits ∧
    (e.base = r.valueBase ∨ e.base = 0 ∧ r.valueBase % 2 ^ r.valueBits = 0)

instance (bound : ℕ) (e : EncodeRow) (r : Row) : Decidable (Agrees bound e r) :=
  inferInstanceAs (Decidable (_ ∧ _))

theorem Agrees.code_eq {bound v : ℕ} {e : EncodeRow} {r : Row} (h : Agrees bound e r)
    (hlo : e.lo ≤ v) (hhi : v < e.hi) (hv : v < bound) :
    r.Spans v ∧ e.code ||| ((v - e.base) &&& e.low) = r.code v := by
  obtain ⟨-, hcode, hlow, hbase, hmax, hsub⟩ := h
  have hspan : r.Spans v := ⟨by omega, by omega⟩
  have hlt : v - r.valueBase < 2 ^ r.valueBits := by have := hspan.1; have := hspan.2; omega
  have hpayload : (v - e.base) % 2 ^ r.valueBits = v - r.valueBase := by
    rcases hsub with heq | ⟨hzero, hmod⟩
    · rw [heq, Nat.mod_eq_of_lt hlt]
    · have hsplit : v = r.valueBase + (v - r.valueBase) := by have := hspan.1; omega
      rw [hzero, Nat.sub_zero, hsplit, Nat.add_mod, hmod, Nat.zero_add, Nat.mod_mod,
        Nat.mod_eq_of_lt (by omega)]
      omega
  refine ⟨hspan, ?_⟩
  rw [hlow, Nat.and_two_pow_sub_one_eq_mod, hpayload, hcode, ← Nat.shiftLeft_eq,
    ← Nat.shiftLeft_add_eq_or_of_lt hlt, Nat.shiftLeft_eq]
  rfl

/-- A value that some branch covers is written as a code word of an agreeing row. -/
theorem codeOf_eq {bound v : ℕ} {codes : List EncodeRow} {rows : List Row}
    (hagree : ∀ e ∈ codes, ∃ r ∈ rows, Agrees bound e r) (hv : v < bound)
    (hcover : ∃ e ∈ codes, e.lo ≤ v ∧ v < e.hi) :
    ∃ r ∈ rows, r.Spans v ∧ codeOf codes v = [(r.size, r.code v)] := by
  unfold codeOf
  cases hfind : codes.find? fun e => e.lo ≤ v ∧ v < e.hi with
  | none =>
    obtain ⟨e, he, hlo, hhi⟩ := hcover
    have := List.find?_eq_none.mp hfind e he
    simp [hlo, hhi] at this
  | some e =>
    obtain ⟨r, hr, h⟩ := hagree e (List.mem_of_find?_eq_some hfind)
    have hin := List.find?_some hfind
    simp only [decide_eq_true_eq] at hin
    obtain ⟨hspan, hcode⟩ := h.code_eq hin.1 hin.2 hv
    exact ⟨r, hr, hspan, by simp only [hcode, h.1]⟩

private theorem agrees_copyOffset (level : ℕ) :
    ∀ e ∈ copyOffsetCodes level, ∃ r ∈ rowsOf (copyOffsetRows level), Agrees 65536 e r := by
  unfold copyOffsetCodes copyOffsetRows
  split_ifs <;> decide

private theorem agrees_lengthOfMatch (level : ℕ) :
    ∀ e ∈ lengthOfMatchCodes level, ∃ r ∈ rowsOf (lengthOfMatchRows level), Agrees 65536 e r := by
  unfold lengthOfMatchCodes lengthOfMatchRows
  split_ifs <;> decide

def historySize (level : ℕ) : ℕ := if level = 0 then 8192 else 65536

theorem historySize_bounds (level : ℕ) : 8192 ≤ historySize level ∧ historySize level ≤ 65536 := by
  unfold historySize
  split_ifs <;> omega

theorem historySize_level (mppc : Context) :
    historySize mppc.compressionLevel = mppc.historyBufferSize := by
  unfold historySize
  rcases mppc.level_size with ⟨h, h'⟩ | ⟨h, h'⟩ <;> simp [h, h']

theorem codeOf_copyOffset (level : ℕ) {v : ℕ} (hv : v < historySize level) :
    ∃ r ∈ rowsOf (copyOffsetRows level), r.Spans v ∧
      codeOf (copyOffsetCodes level) v = [(r.size, r.code v)] := by
  have hsize := historySize_bounds level
  apply codeOf_eq (agrees_copyOffset level) (by omega)
  unfold historySize at hv
  unfold copyOffsetCodes
  by_cases h : level = 0
  · simp [h, copyOffsetCodes4] at hv ⊢
    omega
  · simp [h, copyOffsetCodes5] at hv ⊢
    omega

theorem codeOf_lengthOfMatch (level : ℕ) {v : ℕ} (h3 : 3 ≤ v) (hv : v < historySize level) :
    ∃ r ∈ rowsOf (lengthOfMatchRows level), r.Spans v ∧
      codeOf (lengthOfMatchCodes level) v = [(r.size, r.code v)] := by
  have hsize := historySize_bounds level
  apply codeOf_eq (agrees_lengthOfMatch level) (by omega)
  unfold historySize at hv
  unfold lengthOfMatchCodes
  by_cases h : level = 0
  · simp [h] at hv ⊢
    omega
  · simp [h] at hv ⊢
    omega

/-- A literal is written as a code word of one of the literal rows. -/
theorem literalCode_eq (b : UInt8) :
    ∃ r ∈ literalRows, r.Spans b.toNat ∧ literalCode b = [(r.size, r.code b.toNat)] := by
  have hb := b.toNat_lt
  unfold literalCode
  split_ifs with h
  · exact ⟨⟨1, 0, 7, 0⟩, by decide, ⟨by simp, by simpa using h⟩, by simp [Row.size, Row.code]⟩
  · have hpay : 0x100 ||| (b.toNat &&& 0x7F) = 0x100 + (b.toNat - 0x80) := by
      rw [show (0x7F : ℕ) = 2 ^ 7 - 1 by rfl, Nat.and_two_pow_sub_one_eq_mod,
        show (0x100 : ℕ) = 2 <<< 7 by rfl, ← Nat.shiftLeft_add_eq_or_of_lt (Nat.mod_lt _ (by omega))]
      omega
    refine ⟨⟨2, 2, 7, 0x80⟩, by decide, ⟨by simpa using h, by simp; omega⟩, ?_⟩
    simp [Row.size, Row.code, hpay]

end FreeRDP.Mppc
