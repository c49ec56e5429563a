import FreeRDP.Lib.BitField

/-!
# Tables of prefix codes

A row of a code table is a prefix of `prefixLength` bits followed by `valueBits` bits of payload,
which is added to `valueBase`.  `decode rows bit p` finds the first row whose prefix stands at bit
`p` of the stream.  In a prefix-free table no two rows can match at one place, so decoding inverts
encoding (`decode_of_spells`), whatever the order of the rows.
-/

namespace PrefixCode

open BitField

/-- One row of a code table. -/
structure Row where
  prefixLength : ℕ
  prefixCode : ℕ
  valueBits : ℕ
  valueBase : ℕ
  deriving DecidableEq, Repr

namespace Row

/-- The prefix of the row stands at bit `p`. -/
def Matches (r : Row) (bit : ℕ → Bool) (p : ℕ) : Prop :=
  fieldAt bit p r.prefixLength = r.prefixCode

instance (r : Row) (bit : ℕ → Bool) (p : ℕ) : Decidable (r.Matches bit p) :=
  inferInstanceAs (Decidable (_ = _))

/-- The number of bits of a code word of the row. -/
def size (r : Row) : ℕ := r.prefixLength + r.valueBits

/-- The value at bit `p`, once the row is known to match there. -/
def valueAt (r : Row) (bit : ℕ → Bool) (p : ℕ) : ℕ :=
  fieldAt bit (p + r.prefixLength) r.valueBits + r.valueBase

/-- The row spells `v`: its payload can hold `v - valueBase`. -/
def Spans (r : Row) (v : ℕ) : Prop := r.valueBase ≤ v ∧ v < r.valueBase + 2 ^ r.valueBits

instance (r : Row) (v : ℕ) : Decidable (r.Spans v) := inferInstanceAs (Decidable (_ ∧ _))

/-- The code word of `v` as one number. -/
def code (r : Row) (v : ℕ) : ℕ := r.prefixCode * 2 ^ r.valueBits + (v - r.valueBase)

/-- Neither prefix is a prefix of the other. -/
def Apart (r s : Row) : Prop :=
  r.prefixCode / 2 ^ (r.prefixLength - s.prefixLength) ≠
    s.prefixCode / 2 ^ (s.prefixLength - r.prefixLength)

instance (r s : Row) : Decidable (r.Apart s) := inferInstanceAs (Decidable (_ ≠ _))

theorem Apart.symm {r s : Row} (h : r.Apart s) : s.Apart r := Ne.symm h

/-- Two rows that match at one place are not apart. -/
theorem Apart.not_matches {r s : Row} (h : r.Apart s) {bit : ℕ → Bool} {p : ℕ}
    (hr : r.Matches bit p) : ¬ s.Matches bit p := by
  intro hs
  apply h
  rw [← hr, ← hs]
  rcases Nat.le_total r.prefixLength s.prefixLength with hle | hle
  · have := fieldAt_div bit p r.prefixLength (s.prefixLength - r.prefixLength)
    rw [Nat.add_sub_cancel' hle] at this
    rw [this, Nat.sub_eq_zero_of_le hle, pow_zero, Nat.div_one]
  · have := fieldAt_div bit p s.prefixLength (r.prefixLength - s.prefixLength)
    rw [Nat.add_sub_cancel' hle] at this
    rw [this, Nat.sub_eq_zero_of_le hle, pow_zero, Nat.div_one]

/-- A stream that spells the code word of `v` matches the row and carries `v`. -/
theorem matches_of_code {r : Row} {v : ℕ} (hv : r.Spans v) {bit : ℕ → Bool} {p : ℕ}
    (h : fieldAt bit p r.size = r.code v) : r.Matches bit p ∧ r.valueAt bit p = v := by
  have hlt : v - r.valueBase < 2 ^ r.valueBits := by have := hv.2; have := hv.1; omega
  have hdiv := fieldAt_div bit p r.prefixLength r.valueBits
  have hmod := fieldAt_mod bit p r.prefixLength r.valueBits
  rw [size] at h
  rw [h, code, Nat.mul_comm, Nat.mul_add_div (Nat.two_pow_pos _), Nat.div_eq_of_lt hlt,
    Nat.add_zero] at hdiv
  rw [h, code, Nat.mul_comm, Nat.mul_add_mod, Nat.mod_eq_of_lt hlt] at hmod
  refine ⟨hdiv.symm, ?_⟩
  rw [valueAt, ← hmod]
  exact Nat.sub_add_cancel hv.1

theorem code_lt {r : Row} {v : ℕ} (hv : r.Spans v) (hc : r.prefixCode < 2 ^ r.prefixLength) :
    r.code v < 2 ^ r.size := by
  have hlt : v - r.valueBase < 2 ^ r.valueBits := by have := hv.2; have := hv.1; omega
  calc r.code v < (r.prefixCode + 1) * 2 ^ r.valueBits := by rw [code, Nat.succ_mul]; omega
    _ ≤ 2 ^ r.prefixLength * 2 ^ r.valueBits := Nat.mul_le_mul_right _ hc
    _ = 2 ^ r.size := by rw [size, pow_add]

end Row

/-- Rows whose values follow each other from `base` on, up to `top`. -/
def Consecutive : ℕ → List Row → ℕ → Prop
  | base, [], top => base = top
  | base, r :: rows, top => r.valueBase = base ∧ Consecutive (base + 2 ^ r.valueBits) rows top

instance decidableConsecutive : (base : ℕ) → (rows : List Row) → (top : ℕ) →
    Decidable (Consecutive base rows top)
  | base, [], top => inferInstanceAs (Decidable (base = top))
  | base, r :: rows, top =>
    have := decidableConsecutive (base + 2 ^ r.valueBits) rows top
    inferInstanceAs (Decidable (_ ∧ _))

/-- Consecutive rows span all values between their ends. -/
theorem Consecutive.exists_spans {base top v : ℕ} {rows : List Row} (h : Consecutive base rows top)
    (hv : base ≤ v) (hv' : v < top) : ∃ r ∈ rows, r.Spans v := by
  induction rows generalizing base with
  | nil =>
    have : base = top := h
    omega
  | cons r rows ih =>
    obtain ⟨hbase, hrest⟩ := h
    by_cases hr : v < base + 2 ^ r.valueBits
    · exact ⟨r, by simp, by omega, by omega⟩
    · obtain ⟨s, hs, hspans⟩ := ih hrest (by omega)
      exact ⟨s, List.mem_cons_of_mem _ hs, hspans⟩

/-- The first row of a table whose prefix stands at bit `p`. -/
def decode (rows : List Row) (bit : ℕ → Bool) (p : ℕ) : Option Row :=
  rows.find? (fun r => r.Matches bit p)

/-- No prefix of the table is a prefix of another. -/
def PrefixFree (rows : List Row) : Prop := rows.Pairwise Row.Apart

instance (rows : List Row) : Decidable (PrefixFree rows) :=
  inferInstanceAs (Decidable (rows.Pairwise _))

/-- In a prefix-free table a row that matches is the one that is found. -/
theorem decode_of_matches {rows : List Row} (hrows : PrefixFree rows) {r : Row} (hr : r ∈ rows)
    {bit : ℕ → Bool} {p : ℕ} (h : r.Matches bit p) : decode rows bit p = some r := by
  induction rows with
  | nil => simp at hr
  | cons s rows ih =>
    obtain ⟨hs, hrest⟩ := List.pairwise_cons.mp hrows
    rcases List.mem_cons.mp hr with rfl | hmem
    · simp [decode, h]
    · have hno : ¬ s.Matches bit p := (hs r hmem).symm.not_matches h
      have := ih hrest hmem
      rw [decode] at this ⊢
      rw [List.find?_cons_of_neg (by simpa using hno), this]

/-- Decoding the code word of `v` finds its row and gives `v` back. -/
theorem decode_of_code {rows : List Row} (hrows : PrefixFree rows) {r : Row} (hr : r ∈ rows)
    {v : ℕ} (hv : r.Spans v) {bit : ℕ → Bool} {p : ℕ} (h : fieldAt bit p r.size = r.code v) :
    decode rows bit p = some r ∧ r.valueAt bit p = v :=
  have hm := Row.matches_of_code hv h
  ⟨decode_of_matches hrows hr hm.1, hm.2⟩

end PrefixCode
