import Mathlib.Data.Nat.Bitwise
import Mathlib.Algebra.BigOperators.Group.List.Basic
import Mathlib.Tactic.Ring

/-!
# Bit fields of a most-significant-bit-first stream

A bit stream is a function `bit : ℕ → Bool`.  `fieldAt bit p w` is the number spelled by the `w`
bits from position `p` on, most significant bit first, and `Spells bit p fs` says that from `p`
on the stream spells the fields `fs` (pairs of a width and a value) one after another.  The two
are connected by `spells_iff`: spelling a list of fields is spelling one number of the total
width, so a writer that keeps a number and a reader that keeps a window can be compared field by
field.

`byteBit buf` is the bit stream of a byte buffer.
-/

namespace BitField

variable {bit bit' : ℕ → Bool}

/-! ### Fields -/

/-- The number spelled by the `w` bits of `bit` from position `p` on, most significant first. -/
def fieldAt (bit : ℕ → Bool) (p : ℕ) : ℕ → ℕ
  | 0 => 0
  | w + 1 => 2 * fieldAt bit p w + (bit (p + w)).toNat

@[simp] theorem fieldAt_zero (bit : ℕ → Bool) (p : ℕ) : fieldAt bit p 0 = 0 := rfl

theorem fieldAt_succ (bit : ℕ → Bool) (p w : ℕ) :
    fieldAt bit p (w + 1) = 2 * fieldAt bit p w + (bit (p + w)).toNat := rfl

theorem fieldAt_lt (bit : ℕ → Bool) (p w : ℕ) : fieldAt bit p w < 2 ^ w := by
  induction w with
  | zero => simp
  | succ w ih =>
    have hb := Bool.toNat_le (bit (p + w))
    rw [fieldAt_succ, pow_succ]
    omega

theorem fieldAt_add (bit : ℕ → Bool) (p a b : ℕ) :
    fieldAt bit p (a + b) = fieldAt bit p a * 2 ^ b + fieldAt bit (p + a) b := by
  induction b with
  | zero => simp
  | succ b ih =>
    rw [← Nat.add_assoc, fieldAt_succ, ih, fieldAt_succ, pow_succ, ← Nat.add_assoc p a b]
    ring

/-- The leading `a` bits of a field of `a + b` bits. -/
theorem fieldAt_div (bit : ℕ → Bool) (p a b : ℕ) :
    fieldAt bit p (a + b) / 2 ^ b = fieldAt bit p a := by
  rw [fieldAt_add, Nat.mul_comm, Nat.mul_add_div (Nat.two_pow_pos b),
    Nat.div_eq_of_lt (fieldAt_lt _ _ _), Nat.add_zero]

/-- The trailing `b` bits of a field of `a + b` bits. -/
theorem fieldAt_mod (bit : ℕ → Bool) (p a b : ℕ) :
    fieldAt bit p (a + b) % 2 ^ b = fieldAt bit (p + a) b := by
  rw [fieldAt_add, Nat.mul_comm, Nat.mul_add_mod, Nat.mod_eq_of_lt (fieldAt_lt _ _ _)]

theorem fieldAt_congr {p w : ℕ} (h : ∀ i < w, bit (p + i) = bit' (p + i)) :
    fieldAt bit p w = fieldAt bit' p w := by
  induction w with
  | zero => rfl
  | succ w ih =>
    rw [fieldAt_succ, fieldAt_succ, ih (fun i hi => h i (by omega)), h w (by omega)]

/-- A stream whose bits are those of `n`, from bit `w - 1` down, spells `n` modulo `2 ^ w`. -/
theorem fieldAt_of_testBit {p w n : ℕ} (h : ∀ i < w, bit (p + i) = n.testBit (w - 1 - i)) :
    fieldAt bit p w = n % 2 ^ w := by
  induction w generalizing n with
  | zero => simp [Nat.mod_one]
  | succ w ih =>
    have hrest : ∀ i < w, bit (p + i) = (n / 2).testBit (w - 1 - i) := by
      intro i hi
      rw [h i (by omega), Nat.testBit_div_two]
      congr 1
      omega
    have hlast : (bit (p + w)).toNat = n % 2 := by
      rw [h w (by omega), show w + 1 - 1 - w = 0 by omega, Nat.testBit_zero]
      rcases Nat.mod_two_eq_zero_or_one n with hn | hn <;> simp [hn]
    rw [fieldAt_succ, ih hrest, hlast, pow_succ, Nat.mul_comm (2 ^ w) 2, Nat.mod_mul]
    omega

/-! ### Byte buffers -/

/-- Bit `i` of a byte buffer: the bytes in order, each from its most significant bit down. -/
def byteBit (buf : ℕ → UInt8) (i : ℕ) : Bool := (buf (i / 8)).toNat.testBit (7 - i % 8)

theorem fieldAt_byteBit (buf : ℕ → UInt8) (k : ℕ) :
    fieldAt (byteBit buf) (8 * k) 8 = (buf k).toNat := by
  have h : ∀ i < 8, byteBit buf (8 * k + i) = (buf k).toNat.testBit (8 - 1 - i) := by
    intro i hi
    rw [byteBit, show (8 * k + i) / 8 = k by omega, show (8 * k + i) % 8 = i by omega]
  rw [fieldAt_of_testBit h]
  exact Nat.mod_eq_of_lt (buf k).toNat_lt

/-- Two buffers that agree below byte `n` spell the same fields below bit `8 * n`. -/
theorem fieldAt_byteBit_congr {buf buf' : ℕ → UInt8} {n p w : ℕ}
    (h : ∀ k < n, buf k = buf' k) (hw : p + w ≤ 8 * n) :
    fieldAt (byteBit buf) p w = fieldAt (byteBit buf') p w := by
  apply fieldAt_congr
  intro i hi
  unfold byteBit
  rw [h _ (by omega)]

/-! ### Lists of fields -/

/-- From position `p` on, `bit` spells the fields `fs` (width and value) one after another. -/
def Spells (bit : ℕ → Bool) : ℕ → List (ℕ × ℕ) → Prop
  | _, [] => True
  | p, f :: fs => fieldAt bit p f.1 = f.2 ∧ Spells bit (p + f.1) fs

/-- The number of bits of a list of fields. -/
def width : List (ℕ × ℕ) → ℕ
  | [] => 0
  | f :: fs => f.1 + width fs

/-- The number a list of fields spells. -/
def value : List (ℕ × ℕ) → ℕ
  | [] => 0
  | f :: fs => f.2 * 2 ^ width fs + value fs

@[simp] theorem width_nil : width [] = 0 := rfl

@[simp] theorem width_cons (f : ℕ × ℕ) (fs : List (ℕ × ℕ)) :
    width (f :: fs) = f.1 + width fs := rfl

@[simp] theorem width_append (fs gs : List (ℕ × ℕ)) :
    width (fs ++ gs) = width fs + width gs := by
  induction fs with
  | nil => simp
  | cons f fs ih => simp [ih, Nat.add_assoc]

theorem value_append_singleton (fs : List (ℕ × ℕ)) (w v : ℕ) :
    value (fs ++ [(w, v)]) = value fs * 2 ^ w + v := by
  induction fs with
  | nil => simp [value]
  | cons f fs ih =>
    simp only [List.cons_append, value, ih, width_append, width_cons, width_nil, Nat.add_zero]
    rw [pow_add]
    ring

theorem spells_append (p : ℕ) (fs gs : List (ℕ × ℕ)) :
    Spells bit p (fs ++ gs) ↔ Spells bit p fs ∧ Spells bit (p + width fs) gs := by
  induction fs generalizing p with
  | nil => simp [Spells]
  | cons f fs ih => simp [Spells, ih, and_assoc, Nat.add_assoc]

theorem value_lt {fs : List (ℕ × ℕ)} (h : ∀ f ∈ fs, f.2 < 2 ^ f.1) :
    value fs < 2 ^ width fs := by
  induction fs with
  | nil => simp [value]
  | cons f fs ih =>
    have hf : f.2 + 1 ≤ 2 ^ f.1 := h f (by simp)
    have hfs := ih (fun g hg => h g (List.mem_cons_of_mem _ hg))
    calc value (f :: fs) < (f.2 + 1) * 2 ^ width fs := by rw [value, Nat.succ_mul]; omega
      _ ≤ 2 ^ f.1 * 2 ^ width fs := Nat.mul_le_mul_right _ hf
      _ = 2 ^ width (f :: fs) := by rw [width_cons, pow_add]

/-- Spelling fields whose values fit their widths is spelling one number of the total width. -/
theorem spells_iff {p : ℕ} {fs : List (ℕ × ℕ)} (h : ∀ f ∈ fs, f.2 < 2 ^ f.1) :
    Spells bit p fs ↔ fieldAt bit p (width fs) = value fs := by
  induction fs generalizing p with
  | nil => simp [Spells, value]
  | cons f fs ih =>
    have hfs : ∀ g ∈ fs, g.2 < 2 ^ g.1 := fun g hg => h g (List.mem_cons_of_mem _ hg)
    have hlt := fieldAt_lt bit (p + f.1) (width fs)
    have hv := value_lt hfs
    rw [Spells, ih hfs, width_cons, fieldAt_add, value]
    constructor
    · rintro ⟨h1, h2⟩
      rw [h1, h2]
    · intro heq
      -- both sides are `head * 2 ^ width fs + tail` with `tail < 2 ^ width fs`
      have hdiv := congrArg (· / 2 ^ width fs) heq
      have hmod := congrArg (· % 2 ^ width fs) heq
      simp only [Nat.mul_comm _ (2 ^ width fs), Nat.mul_add_div (Nat.two_pow_pos _),
        Nat.mul_add_mod, Nat.div_eq_of_lt hlt, Nat.div_eq_of_lt hv, Nat.mod_eq_of_lt hlt,
        Nat.mod_eq_of_lt hv, Nat.add_zero] at hdiv hmod
      exact ⟨hdiv, hmod⟩

/-- The bytes of the number `n`, most significant first. -/
def bytesOf (n : ℕ) : ℕ → List UInt8
  | 0 => []
  | k + 1 => UInt8.ofNat (n >>> (8 * k)) :: bytesOf n k

@[simp] theorem length_bytesOf (n k : ℕ) : (bytesOf n k).length = k := by
  induction k with
  | zero => rfl
  | succ k ih => rw [bytesOf, List.length_cons, ih]

theorem getD_bytesOf (n : ℕ) {k i : ℕ} (hi : i < k) :
    (bytesOf n k).getD i 0 = UInt8.ofNat (n >>> (8 * (k - 1 - i))) := by
  induction k generalizing i with
  | zero => omega
  | succ k ih =>
    cases i with
    | zero => rw [bytesOf, List.getD_cons_zero, Nat.add_sub_cancel, Nat.sub_zero]
    | succ i =>
      rw [bytesOf, List.getD_cons_succ, ih (by omega)]
      congr 3
      omega

/-- Fields whose values fit their widths can be written into bytes, with unused bits behind them. -/
theorem exists_spells {fs : List (ℕ × ℕ)} (h : ∀ f ∈ fs, f.2 < 2 ^ f.1) (unused : ℕ) {k : ℕ}
    (hk : width fs + unused = 8 * k) :
    ∃ data : List UInt8, data.length = k ∧ Spells (byteBit fun i => data.getD i 0) 0 fs := by
  refine ⟨bytesOf (value fs * 2 ^ unused) k, length_bytesOf _ _, (spells_iff h).mpr ?_⟩
  generalize hn : value fs * 2 ^ unused = n
  have hbits : ∀ i < 8 * k, byteBit (fun i => (bytesOf n k).getD i 0) (0 + i) =
      n.testBit (8 * k - 1 - i) := by
    intro i hi
    rw [Nat.zero_add, byteBit, getD_bytesOf n (by omega), UInt8.toNat_ofNat', Nat.testBit_mod_two_pow,
      Nat.testBit_shiftRight]
    have hlow : 7 - i % 8 < 8 := by omega
    rw [decide_eq_true hlow, Bool.true_and]
    congr 1
    omega
  have hall := fieldAt_of_testBit hbits
  have hdiv := fieldAt_div (byteBit fun i => (bytesOf n k).getD i 0) 0 (width fs) unused
  have hlt : n < 2 ^ (8 * k) := by
    rw [← hn, ← hk, pow_add]
    exact Nat.mul_lt_mul_of_pos_right (value_lt h) (Nat.two_pow_pos _)
  rw [hk, hall, Nat.mod_eq_of_lt hlt, ← hn, Nat.mul_div_cancel _ (Nat.two_pow_pos _)] at hdiv
  rw [← hn]
  exact hdiv.symm

end BitField
