import FreeRDP.BitStream.Equiv
import FreeRDP.Rlgr.Equiv.Writer

/-!
# What the decoder reads

`Stands bs bit len p` says that a stream over the bits `bit`, of `len` bits, stands at bit `p`.
Each read of the decoder takes the code word off that the stream shows there and moves on behind it.
-/

namespace FreeRDP.Rlgr

open BitField BitList

/-! ### `lzcnt_s` -/

/-- One halving keeps the distance between `n` and the place of the leading bit. -/
theorem lzcntHalve_spec {s n x j : ℕ} (hn : 2 * s ≤ n) (hj : j < 2 * s) (hlo : 2 ^ j ≤ x)
    (hhi : x < 2 ^ (j + 1)) :
    ∃ j', j' < s ∧ 2 ^ j' ≤ (lzcntHalve s (n, x)).2 ∧ (lzcntHalve s (n, x)).2 < 2 ^ (j' + 1) ∧
      s ≤ (lzcntHalve s (n, x)).1 ∧ (lzcntHalve s (n, x)).1 + j = n + j' := by
  unfold lzcntHalve
  dsimp only
  by_cases hjs : s ≤ j
  · have hdiv : 2 ^ (j - s) ≤ x / 2 ^ s := by
      rw [Nat.le_div_iff_mul_le (Nat.two_pow_pos s), ← pow_add, Nat.sub_add_cancel hjs]
      exact hlo
    have hdiv' : x / 2 ^ s < 2 ^ (j - s + 1) := by
      rw [Nat.div_lt_iff_lt_mul (Nat.two_pow_pos s), ← pow_add,
        show j - s + 1 + s = j + 1 by omega]
      exact hhi
    have hne : x >>> s ≠ 0 := by
      rw [Nat.shiftRight_eq_div_pow]
      have := Nat.two_pow_pos (j - s)
      omega
    rw [if_pos hne]
    dsimp only
    rw [Nat.shiftRight_eq_div_pow]
    exact ⟨j - s, by omega, hdiv, hdiv', by omega, by omega⟩
  · have hzero : ¬ x >>> s ≠ 0 := by
      rw [not_not, Nat.shiftRight_eq_div_pow, Nat.div_eq_zero_iff]
      exact Or.inr (lt_of_lt_of_le hhi (Nat.pow_le_pow_right (by omega) (by omega)))
    rw [if_neg hzero]
    exact ⟨j, by omega, hlo, hhi, by dsimp only; omega, rfl⟩

/-- `lzcnt_s` of a number whose leading bit has the value `2 ^ j`. -/
theorem lzcntS_eq {x j : ℕ} (hj : j < 32) (hlo : 2 ^ j ≤ x) (hhi : x < 2 ^ (j + 1)) :
    lzcntS x = 31 - j := by
  have hpos := Nat.two_pow_pos j
  obtain ⟨j1, hj1, hlo1, hhi1, hs1, hn1⟩ := lzcntHalve_spec (s := 16) (n := 32) (by omega) hj hlo hhi
  unfold lzcntS
  rw [if_neg (by omega)]
  generalize lzcntHalve 16 (32, x) = nx1 at *
  obtain ⟨n1, x1⟩ := nx1
  dsimp only at *
  obtain ⟨j2, hj2, hlo2, hhi2, hs2, hn2⟩ := lzcntHalve_spec (s := 8) (n := n1) (by omega) hj1 hlo1 hhi1
  generalize lzcntHalve 8 (n1, x1) = nx2 at *
  obtain ⟨n2, x2⟩ := nx2
  dsimp only at *
  obtain ⟨j3, hj3, hlo3, hhi3, hs3, hn3⟩ := lzcntHalve_spec (s := 4) (n := n2) (by omega) hj2 hlo2 hhi2
  generalize lzcntHalve 4 (n2, x2) = nx3 at *
  obtain ⟨n3, x3⟩ := nx3
  dsimp only at *
  obtain ⟨j4, hj4, hlo4, hhi4, hs4, hn4⟩ := lzcntHalve_spec (s := 2) (n := n3) (by omega) hj3 hlo3 hhi3
  generalize lzcntHalve 2 (n3, x3) = nx4 at *
  obtain ⟨n4, x4⟩ := nx4
  dsimp only at *
  -- what is left is one of 1, 2 and 3
  rw [Nat.shiftRight_eq_div_pow]
  obtain rfl | rfl : j4 = 0 ∨ j4 = 1 := by omega
  · rw [if_neg (by omega)]
    omega
  · rw [if_pos (by omega)]
    omega

/-! ### Reading from a stream -/

/-- A stream over the bits `bit`, of `len` bits, that stands at bit `p`. -/
structure Stands (bs : BitStream) (bit : ℕ → Bool) (len p : ℕ) : Prop where
  reads : bs.ReadsAt p
  bits : bs.inputBit = bit
  length : bs.length = len
  le : p ≤ len
  short : len < 2 ^ 31

variable {bs : BitStream} {bit : ℕ → Bool} {len p : ℕ}

theorem Stands.remaining (h : Stands bs bit len p) : bs.remainingLength = len - p := by
  have hpos := h.reads.position
  have hlen := h.length
  have hle := h.le
  have hshort := h.short
  unfold BitStream.remainingLength
  omega

theorem Stands.shift (h : Stands bs bit len p) {n : ℕ} (hn : n < 32) (hp : p + n ≤ len) :
    Stands (bs.shift n) bit len (p + n) := by
  have hshort := h.short
  refine ⟨?_, by rw [BitStream.inputBit_shift, h.bits], by rw [BitStream.length_shift, h.length], hp,
    hshort⟩
  rcases Nat.eq_zero_or_pos n with rfl | hpos
  · simpa [BitStream.shift] using h.reads
  · exact h.reads.shift hpos hn (by omega)

theorem Stands.shift32 (h : Stands bs bit len p) (hp : p + 32 ≤ len) :
    Stands (shift32 bs) bit len (p + 32) :=
  (h.shift (n := 16) (by omega) (by omega)).shift (by omega) (by omega)

/-- The window under `lzcnt_s`: the next 32 bits, each compared with `b`. -/
theorem Stands.window (h : Stands bs bit len p) (b : Bool) :
    (if b then 2 ^ 32 - 1 - bs.accumulator else bs.accumulator) =
      fieldAt (fun i => bit i != b) p 32 := by
  rw [h.reads.accumulator, h.bits]
  cases b with
  | false => simp
  | true =>
    rw [if_pos rfl, ← fieldAt_not]
    congr 1
    funext i
    cases bit i <;> rfl

theorem leadingBits_of_lt {b : Bool} {c : ℕ} (h : Stands bs bit len p) (hc : c < 32)
    (hlead : ∀ i < c, bit (p + i) = b) (hstop : bit (p + c) ≠ b) (hlen : p + c < len) :
    leadingBits b bs = c := by
  obtain ⟨hlo, hhi⟩ := fieldAt_bounds (fun i => bit i != b) p hc
    (fun i hi => by simp [hlead i hi]) (by simpa using hstop)
  unfold leadingBits
  rw [h.window b, lzcntS_eq (j := 31 - c) (by omega) hlo (by rwa [show 31 - c + 1 = 32 - c by omega]),
    h.remaining]
  dsimp only
  rw [if_neg (by omega)]
  omega

theorem leadingBits_full {b : Bool} (h : Stands bs bit len p)
    (hlead : ∀ i < 32, bit (p + i) = b) (hlen : p + 32 ≤ len) : leadingBits b bs = 32 := by
  have hzero : fieldAt (fun i => bit i != b) p 32 = 0 :=
    fieldAt_eq_zero (fun i hi => by simp [hlead i hi])
  unfold leadingBits
  rw [h.window b, hzero, h.remaining]
  simp only [lzcntS, if_true]
  rw [if_neg (by omega)]

/-- The counting loop finds the length of the run of bits `b` and stops within its last window. -/
theorem leadingLoop_spec {b : Bool} (rounds : ℕ) {vk m : ℕ} (h : Stands bs bit len p)
    (hlead : ∀ i < vk, bit (p + i) = b) (hstop : bit (p + vk) ≠ b) (hlen : p + vk < len)
    (hrounds : len - p ≤ rounds) :
    ∃ bs', leadingLoop b rounds bs (leadingBits b bs) (m + leadingBits b bs) = (bs', m + vk) ∧
      Stands bs' bit len (p + (vk - vk % 32)) := by
  induction rounds generalizing bs p vk m with
  | zero => omega
  | succ rounds ih =>
    rw [leadingLoop]
    rcases Nat.lt_or_ge vk 32 with hvk | hvk
    · rw [leadingBits_of_lt h hvk hlead hstop hlen, if_neg (by omega), Nat.mod_eq_of_lt hvk,
        Nat.sub_self, Nat.add_zero]
      exact ⟨bs, rfl, h⟩
    · rw [leadingBits_full h (fun i hi => hlead i (by omega)) (by omega), h.remaining,
        if_pos ⟨rfl, by omega⟩]
      have hlead' : ∀ i < vk - 32, bit (p + 32 + i) = b := by
        intro i hi
        rw [Nat.add_assoc]
        exact hlead _ (by omega)
      have hstop' : bit (p + 32 + (vk - 32)) ≠ b := by
        rwa [Nat.add_assoc, Nat.add_sub_cancel' hvk]
      obtain ⟨bs', heq, hbs'⟩ := ih (m := m + 32) (h.shift32 (by omega)) hlead' hstop' (by omega)
        (by omega)
      refine ⟨bs', ?_, ?_⟩
      · rw [heq, Nat.add_assoc, Nat.add_sub_cancel' hvk]
      · rwa [Nat.add_assoc, show 32 + (vk - 32 - (vk - 32) % 32) = vk - vk % 32 by omega] at hbs'

theorem readUnary_spec {b : Bool} {vk : ℕ} {l : List Bool} (h : Stands bs bit len p)
    (hshows : Shows bit p (List.replicate vk b ++ (!b) :: l)) (hlen : p + vk < len) :
    ∃ bs', readUnary b bs = .ok (vk, bs') ∧ Stands bs' bit len (p + vk + 1) := by
  have hshort := h.short
  rw [shows_append, shows_replicate, List.length_replicate, shows_cons] at hshows
  obtain ⟨hlead, hstop, -⟩ := hshows
  obtain ⟨bs', heq, hbs'⟩ := leadingLoop_spec (len - p) (m := 0) h hlead
    (by rw [hstop]; cases b <;> decide) hlen le_rfl
  rw [Nat.zero_add, Nat.zero_add] at heq
  have hshift := hbs'.shift (n := vk % 32) (by omega) (by omega)
  rw [show p + (vk - vk % 32) + vk % 32 = p + vk by omega] at hshift
  refine ⟨(bs'.shift (vk % 32)).shift 1, ?_, hshift.shift (by omega) (by omega)⟩
  unfold readUnary
  rw [h.remaining, if_neg (by omega)]
  dsimp only
  rw [heq]
  dsimp only
  rw [hshift.remaining, if_neg (by omega)]

theorem readBits_spec {n v : ℕ} (h : Stands bs bit len p) (hshows : Shows bit p (bitsOf n v))
    (hn : n < 31) (hlen : p + n ≤ len) :
    ∃ bs', readBits n bs = .ok (v % 2 ^ n, bs') ∧ Stands bs' bit len (p + n) := by
  refine ⟨bs.shift n, ?_, h.shift (by omega) hlen⟩
  unfold readBits
  rw [h.remaining, if_neg (by omega), if_neg (by omega)]
  dsimp only
  split_ifs with hpos
  · have hval : fieldAt bit p n = v % 2 ^ n := hshows.fieldAt
    have hdiv := fieldAt_div bit p n (32 - n)
    rw [Nat.add_sub_cancel' (show n ≤ 32 by omega)] at hdiv
    rw [h.reads.accumulator, h.bits, Nat.shiftRight_eq_div_pow, hdiv, hval, Nat.one_shiftLeft,
      Nat.and_two_pow_sub_one_eq_mod, Nat.mod_mod]
  · obtain rfl : n = 0 := by omega
    rw [pow_zero, Nat.mod_one]

theorem readSign_spec {b : Bool} (h : Stands bs bit len p) (hshows : bit p = b) (hlen : p < len) :
    ∃ bs', readSign bs = .ok (b, bs') ∧ Stands bs' bit len (p + 1) := by
  refine ⟨bs.shift 1, ?_, h.shift (by omega) (by omega)⟩
  unfold readSign
  rw [h.remaining, if_neg (by omega)]
  have htop : (bs.accumulator &&& 0x80000000 ≠ 0) ↔ b = true := by
    have hdiv := fieldAt_div bit p 1 31
    have hbit : fieldAt bit p 1 = b.toNat := by rw [fieldAt_succ, Nat.add_zero, hshows]; simp
    have hmask := Nat.and_two_pow bs.accumulator 31
    rw [h.reads.accumulator, h.bits] at hmask ⊢
    rw [show (0x80000000 : ℕ) = 2 ^ 31 by rfl, hmask, Nat.testBit_eq_decide_div_mod_eq, hdiv, hbit]
    cases b <;> simp
  cases b with
  | false => simp [htop]
  | true => simp [htop]

end FreeRDP.Rlgr
