import FreeRDP.Lib.BitField

/-!
# Lists of bits in a bit stream

A code word is a list of bits, first bit first.  `bitsOf n v` is the list of the low `n` bits of
`v`, most significant first, and `Shows bit p l` says that the stream `bit` shows the list `l` from
position `p` on.  `fieldAt_bounds` says how large a window is whose first set bit is known, which
is what finds the length of a unary code.
-/

namespace BitList

open BitField

variable {bit : ℕ → Bool} {p : ℕ}

/-! ### Lists of bits -/

/-- The low `n` bits of `v`, most significant first. -/
def bitsOf (n v : ℕ) : List Bool := (List.range n).map fun i => v.testBit (n - 1 - i)

@[simp] theorem length_bitsOf (n v : ℕ) : (bitsOf n v).length = n := by simp [bitsOf]

@[simp] theorem bitsOf_zero (v : ℕ) : bitsOf 0 v = [] := rfl

theorem getElem_bitsOf (n v : ℕ) {i : ℕ} (h : i < (bitsOf n v).length) :
    (bitsOf n v)[i] = v.testBit (n - 1 - i) := by simp [bitsOf]

theorem bitsOf_congr {n v w : ℕ} (h : ∀ i < n, v.testBit i = w.testBit i) :
    bitsOf n v = bitsOf n w := by
  unfold bitsOf
  apply List.map_congr_left
  intro i hi
  rw [List.mem_range] at hi
  exact h _ (by omega)

theorem bitsOf_mod {n m v : ℕ} (h : n ≤ m) : bitsOf n (v % 2 ^ m) = bitsOf n v := by
  apply bitsOf_congr
  intro i hi
  rw [Nat.testBit_mod_two_pow, decide_eq_true (by omega), Bool.true_and]

theorem drop_bitsOf (n b v : ℕ) : (bitsOf n v).drop b = bitsOf (n - b) v := by
  apply List.ext_getElem
  · simp
  · intro i h1 h2
    rw [List.getElem_drop, getElem_bitsOf, getElem_bitsOf]
    congr 1
    omega

theorem bitsOf_ones {n : ℕ} (h : n ≤ 16) : bitsOf n 0xFFFF = List.replicate n true := by
  apply List.ext_getElem
  · simp
  · intro i h1 h2
    rw [length_bitsOf] at h1
    rw [getElem_bitsOf, List.getElem_replicate, show 0xFFFF = 2 ^ 16 - 1 by rfl,
      Nat.testBit_two_pow_sub_one]
    exact decide_eq_true (by omega)

theorem bitsOf_zeros (n : ℕ) : bitsOf n 0 = List.replicate n false := by
  apply List.ext_getElem
  · simp
  · intro i h1 h2
    rw [getElem_bitsOf, List.getElem_replicate, Nat.zero_testBit]

/-! ### Streams -/

/-- The stream `bit` shows the list `l` from position `p` on. -/
def Shows (bit : ℕ → Bool) : ℕ → List Bool → Prop
  | _, [] => True
  | p, b :: l => bit p = b ∧ Shows bit (p + 1) l

@[simp] theorem shows_nil : Shows bit p [] := trivial

@[simp] theorem shows_cons (b : Bool) (l : List Bool) :
    Shows bit p (b :: l) ↔ bit p = b ∧ Shows bit (p + 1) l := Iff.rfl

@[simp] theorem shows_append (l m : List Bool) :
    Shows bit p (l ++ m) ↔ Shows bit p l ∧ Shows bit (p + l.length) m := by
  induction l generalizing p with
  | nil => simp
  | cons b l ih => simp [ih, and_assoc, Nat.add_assoc, Nat.add_comm 1]

theorem shows_iff (l : List Bool) :
    Shows bit p l ↔ ∀ (i : ℕ) (h : i < l.length), bit (p + i) = l[i] := by
  induction l generalizing p with
  | nil => simp
  | cons b l ih =>
    rw [shows_cons, ih]
    constructor
    · rintro ⟨h0, h⟩ i hi
      cases i with
      | zero => exact h0
      | succ i =>
        rw [List.getElem_cons_succ, ← h i (by simpa using hi)]
        congr 1
        omega
    · intro h
      refine ⟨h 0 (by simp), fun i hi => ?_⟩
      have := h (i + 1) (by simpa using hi)
      rw [List.getElem_cons_succ] at this
      rw [← this]
      congr 1
      omega

theorem Shows.fieldAt {n v : ℕ} (h : Shows bit p (bitsOf n v)) :
    fieldAt bit p n = v % 2 ^ n := by
  apply fieldAt_of_testBit
  intro i hi
  rw [shows_iff] at h
  rw [h i (by simpa using hi), getElem_bitsOf]

theorem shows_replicate {n : ℕ} {b : Bool} :
    Shows bit p (List.replicate n b) ↔ ∀ i < n, bit (p + i) = b := by
  rw [shows_iff]
  simp

/-! ### Leading bits of a window -/

theorem fieldAt_not (bit : ℕ → Bool) (p w : ℕ) :
    fieldAt (fun i => !bit i) p w = 2 ^ w - 1 - fieldAt bit p w := by
  induction w with
  | zero => simp
  | succ w ih =>
    have hlt := fieldAt_lt bit p w
    rw [fieldAt_succ, fieldAt_succ, ih, pow_succ]
    cases bit (p + w) <;> simp <;> omega

/-- A window whose first `c` bits are zero and whose next one is set. -/
theorem fieldAt_bounds (bit : ℕ → Bool) (p : ℕ) {w c : ℕ} (hc : c < w)
    (hzero : ∀ i < c, bit (p + i) = false)
    (hone : bit (p + c) = true) :
    2 ^ (w - 1 - c) ≤ fieldAt bit p w ∧ fieldAt bit p w < 2 ^ (w - c) := by
  have hlead : fieldAt bit p c = 0 := by
    rw [fieldAt_of_testBit (n := 0) (fun i hi => by rw [hzero i hi, Nat.zero_testBit]),
      Nat.zero_mod]
  have hsplit := fieldAt_add bit p c (w - c)
  have hnext := fieldAt_add bit (p + c) 1 (w - 1 - c)
  have hbit : fieldAt bit (p + c) 1 = 1 := by rw [fieldAt_succ, Nat.add_zero, hone]; simp
  have hlt := fieldAt_lt bit (p + c) (w - c)
  rw [show c + (w - c) = w by omega, hlead, Nat.zero_mul, Nat.zero_add] at hsplit
  rw [show 1 + (w - 1 - c) = w - c by omega, hbit, Nat.one_mul] at hnext
  omega

theorem fieldAt_eq_zero {w : ℕ} (hzero : ∀ i < w, bit (p + i) = false) : fieldAt bit p w = 0 := by
  rw [fieldAt_of_testBit (n := 0) (fun i hi => by rw [hzero i hi, Nat.zero_testBit]), Nat.zero_mod]

end BitList
