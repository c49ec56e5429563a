import FreeRDP.BitStream.Basic
import FreeRDP.Lib.BitField
import Mathlib.Tactic.NormNum

/-!
# Correctness of the winpr bit stream

`ReadsAt bs p` says that a reading stream stands at bit `p` of its input, taken as zero past
`capacity`: the accumulator is the 32-bit field at `p` and the prefetched bits are those up to the
next word boundary.  `attach`, `fetch` establish it at `0` and `shift` moves it on.

`WritesAt bs fs` says that a writing stream has been given exactly the fields `fs`.  `writeBits`
appends a field, and after the last `flush` the buffer spells `fs` (`spells_flush`).
-/

namespace FreeRDP.BitStream

open BitField

/-! ### Words and bytes -/

private theorem mul_pow_or {a b n : ℕ} (hb : b < 2 ^ n) : a * 2 ^ n ||| b = a * 2 ^ n + b := by
  rw [← Nat.shiftLeft_eq, Nat.shiftLeft_add_eq_or_of_lt hb]

/-- The input bits of a stream: those of its buffer, zero at and past `capacity`. -/
def inputBit (bs : BitStream) : ℕ → Bool :=
  byteBit (fun i => if i < bs.capacity then bs.buffer i else 0)

/-- The bits of the bytes that a stream fetches, where the index of a byte is a `UINT32`. -/
def fetchBit (bs : BitStream) : ℕ → Bool :=
  byteBit (fun i => if i % 2 ^ 32 < bs.capacity then bs.buffer i else 0)

theorem fetchByte_eq (bs : BitStream) (k s : ℕ) :
    bs.fetchByte k s = fieldAt bs.fetchBit (8 * (bs.pointer + k)) 8 * 2 ^ s := by
  unfold fetchByte fetchBit
  rw [fieldAt_byteBit]
  split_ifs <;> simp [Nat.shiftLeft_eq]

theorem fetchWord_eq (bs : BitStream) (k : ℕ) :
    bs.fetchWord k = fieldAt bs.fetchBit (8 * (bs.pointer + k)) 32 := by
  unfold fetchWord
  rw [fetchByte_eq, fetchByte_eq, fetchByte_eq, fetchByte_eq]
  have hsplit : fieldAt bs.fetchBit (8 * (bs.pointer + k)) (8 + (8 + (8 + 8))) =
      fieldAt bs.fetchBit (8 * (bs.pointer + k)) 8 * 2 ^ 24 +
        (fieldAt bs.fetchBit (8 * (bs.pointer + (k + 1))) 8 * 2 ^ 16 +
          (fieldAt bs.fetchBit (8 * (bs.pointer + (k + 2))) 8 * 2 ^ 8 +
            fieldAt bs.fetchBit (8 * (bs.pointer + (k + 3))) 8)) := by
    rw [fieldAt_add, fieldAt_add, fieldAt_add]
    congr 5
  have h1 := fieldAt_lt bs.fetchBit (8 * (bs.pointer + (k + 1))) 8
  have h2 := fieldAt_lt bs.fetchBit (8 * (bs.pointer + (k + 2))) 8
  have h3 := fieldAt_lt bs.fetchBit (8 * (bs.pointer + (k + 3))) 8
  rw [show 32 = 8 + (8 + (8 + 8)) by rfl, hsplit]
  generalize fieldAt bs.fetchBit (8 * (bs.pointer + k)) 8 = b0
  generalize fieldAt bs.fetchBit (8 * (bs.pointer + (k + 1))) 8 = b1 at *
  generalize fieldAt bs.fetchBit (8 * (bs.pointer + (k + 2))) 8 = b2 at *
  generalize fieldAt bs.fetchBit (8 * (bs.pointer + (k + 3))) 8 = b3 at *
  rw [mul_pow_or (by omega : b1 * 2 ^ 16 < 2 ^ 24),
    show b0 * 2 ^ 24 + b1 * 2 ^ 16 = (b0 * 2 ^ 8 + b1) * 2 ^ 16 by ring,
    mul_pow_or (by omega : b2 * 2 ^ 8 < 2 ^ 16),
    show (b0 * 2 ^ 8 + b1) * 2 ^ 16 + b2 * 2 ^ 8 = (b0 * 2 ^ 16 + b1 * 2 ^ 8 + b2) * 2 ^ 8 by ring,
    mul_pow_or (by omega : b3 * 2 ^ 0 < 2 ^ 8)]
  ring

/-! ### Reading -/

/-- The stream stands at bit `p` of its input. -/
structure ReadsAt (bs : BitStream) (p : ℕ) : Prop where
  position : bs.position = p
  pointer : 8 * bs.pointer + bs.offset = p
  offset_lt : bs.offset < 32
  accumulator : bs.accumulator = fieldAt bs.inputBit p 32
  prefetch : bs.prefetch = fieldAt bs.inputBit (p + 32) (32 - bs.offset) * 2 ^ bs.offset

/-- The accumulator and the prefetched bits are those that come at bit `p`, wherever `position` is. -/
structure FetchedAt (bs : BitStream) (p : ℕ) : Prop where
  pointer : 8 * bs.pointer + bs.offset = p
  offset_lt : bs.offset < 32
  accumulator : bs.accumulator = fieldAt bs.fetchBit p 32
  prefetch : bs.prefetch = fieldAt bs.fetchBit (p + 32) (32 - bs.offset) * 2 ^ bs.offset

/-- The indices of the first bytes do not wrap. -/
theorem fieldAt_fetchBit (bs : BitStream) {p w : ℕ} (h : p + w ≤ 8 * 2 ^ 32) :
    fieldAt bs.fetchBit p w = fieldAt bs.inputBit p w := by
  refine fieldAt_byteBit_congr (n := 2 ^ 32) (fun k hk => ?_) h
  rw [Nat.mod_eq_of_lt hk]

theorem readsAt_iff {bs : BitStream} {p : ℕ} (hp : p < 2 ^ 32) :
    bs.ReadsAt p ↔ bs.position = p ∧ bs.FetchedAt p := by
  constructor
  · rintro ⟨hpos, hptr, hoff, hacc, hpre⟩
    refine ⟨hpos, hptr, hoff, ?_, ?_⟩
    · rw [hacc, fieldAt_fetchBit bs (by omega)]
    · rw [hpre, fieldAt_fetchBit bs (by omega)]
  · rintro ⟨hpos, hptr, hoff, hacc, hpre⟩
    refine ⟨hpos, hptr, hoff, ?_, ?_⟩
    · rw [hacc, fieldAt_fetchBit bs (by omega)]
    · rw [hpre, fieldAt_fetchBit bs (by omega)]

@[simp] theorem inputBit_attach_fetch (bs : BitStream) (buffer : ℕ → UInt8) (capacity : ℕ) :
    (bs.attach buffer capacity).fetch.inputBit =
      byteBit (fun i => if i < capacity then buffer i else 0) := rfl

theorem fetchedAt_fetch (bs : BitStream) (buffer : ℕ → UInt8) (capacity : ℕ) :
    ((bs.attach buffer capacity).fetch).FetchedAt 0 where
  pointer := rfl
  offset_lt := Nat.zero_lt_succ 31
  accumulator := fetchWord_eq (bs.attach buffer capacity) 0
  prefetch := by
    show BitStream.fetchWord { bs.attach buffer capacity with
      accumulator := (bs.attach buffer capacity).fetchWord 0 } 4 =
        fieldAt _ 32 32 * 2 ^ 0
    rw [fetchWord_eq, pow_zero, Nat.mul_one]
    rfl

theorem readsAt_fetch (bs : BitStream) (buffer : ℕ → UInt8) (capacity : ℕ) :
    ((bs.attach buffer capacity).fetch).ReadsAt 0 :=
  (readsAt_iff (Nat.two_pow_pos 32)).mpr ⟨rfl, fetchedAt_fetch bs buffer capacity⟩

@[simp] theorem buffer_nextWord (bs : BitStream) : bs.nextWord.buffer = bs.buffer := by
  simp only [nextWord]
  split_ifs <;> rfl

@[simp] theorem capacity_nextWord (bs : BitStream) : bs.nextWord.capacity = bs.capacity := by
  simp only [nextWord]
  split_ifs <;> rfl

@[simp] theorem length_nextWord (bs : BitStream) : bs.nextWord.length = bs.length := by
  simp only [nextWord]
  split_ifs <;> rfl

@[simp] theorem buffer_shift (bs : BitStream) (n : ℕ) : (bs.shift n).buffer = bs.buffer := by
  unfold shift
  split_ifs <;> simp [shiftWord, topUp]

@[simp] theorem capacity_shift (bs : BitStream) (n : ℕ) : (bs.shift n).capacity = bs.capacity := by
  unfold shift
  split_ifs <;> simp [shiftWord, topUp]

@[simp] theorem length_shift (bs : BitStream) (n : ℕ) : (bs.shift n).length = bs.length := by
  unfold shift
  split_ifs <;> simp [shiftWord, topUp]

@[simp] theorem offset_nextWord (bs : BitStream) : bs.nextWord.offset = bs.offset - 32 := by
  simp only [nextWord]
  split_ifs <;> rfl

theorem offset_shift_lt {bs : BitStream} (h : bs.offset < 32) (n : ℕ) :
    (bs.shift n).offset < 32 := by
  unfold shift
  split_ifs with h0 hn hword
  · exact h
  · exact hword
  · rw [offset_nextWord]
    show bs.offset + n - 32 < 32
    omega
  · exact h

@[simp] theorem inputBit_shift (bs : BitStream) (n : ℕ) : (bs.shift n).inputBit = bs.inputBit := by
  simp only [inputBit, buffer_shift, capacity_shift]

/-- Dropping the leading `n` bits of a word and appending zeros. -/
private theorem shiftLeft_mod (bit : ℕ → Bool) (p n k : ℕ) :
    fieldAt bit p (n + k) * 2 ^ n % 2 ^ (n + k) = fieldAt bit (p + n) k * 2 ^ n := by
  have hlt : fieldAt bit (p + n) k * 2 ^ n < 2 ^ (n + k) := by
    rw [Nat.add_comm n k, pow_add]
    exact Nat.mul_lt_mul_of_pos_right (fieldAt_lt _ _ _) (Nat.two_pow_pos n)
  rw [fieldAt_add, Nat.add_mul, Nat.mul_assoc, ← pow_add, Nat.add_comm k n,
    Nat.mul_comm (fieldAt bit p n), Nat.mul_add_mod, Nat.mod_eq_of_lt hlt]

/-- The top `n` of `k` prefetched bits, as `topUp` masks them out. -/
private theorem topBits (bit : ℕ → Bool) (q : ℕ) {n k : ℕ} (hn : n ≤ k) (hk : k ≤ 32) :
    ((fieldAt bit q k * 2 ^ (32 - k)) >>> (32 - n)) &&& ((1 <<< n) - 1) = fieldAt bit q n := by
  have h := fieldAt_div bit q n (k - n)
  rw [show n + (k - n) = k by omega] at h
  rw [Nat.shiftLeft_eq, Nat.one_mul, Nat.and_two_pow_sub_one_eq_mod, Nat.shiftRight_eq_div_pow,
    show 32 - n = (k - n) + (32 - k) by omega, pow_add,
    Nat.mul_div_mul_right _ _ (Nat.two_pow_pos _), h, Nat.mod_eq_of_lt (fieldAt_lt _ _ _)]

/-- The prefetched bits left over once the top `n` of `k` have moved on. -/
private theorem restBits (bit : ℕ → Bool) (q : ℕ) {n k : ℕ} (hn : n ≤ k) (hk : k ≤ 32) :
    ((fieldAt bit q k * 2 ^ (32 - k)) <<< n) % 2 ^ 32 =
      fieldAt bit (q + n) (k - n) * 2 ^ (32 - (k - n)) := by
  have h := shiftLeft_mod bit q n (k - n)
  rw [show n + (k - n) = k by omega] at h
  rw [Nat.shiftLeft_eq, Nat.mul_right_comm,
    show (2 : ℕ) ^ 32 = 2 ^ k * 2 ^ (32 - k) by rw [← pow_add]; congr 1; omega,
    Nat.mul_mod_mul_right, h, Nat.mul_assoc, ← pow_add]
  congr 2
  omega

@[simp] theorem fetchBit_shift (bs : BitStream) (n : ℕ) : (bs.shift n).fetchBit = bs.fetchBit := by
  simp only [fetchBit, buffer_shift, capacity_shift]

@[simp] theorem position_nextWord (bs : BitStream) : bs.nextWord.position = bs.position := by
  simp only [nextWord]
  split_ifs <;> rfl

theorem position_shift (bs : BitStream) {n : ℕ} (hn : 0 < n) (hn' : n < 32) :
    (bs.shift n).position = (bs.position + n) % 2 ^ 32 := by
  rw [shift, if_neg (by omega), if_pos hn']
  split_ifs
  · rfl
  · rw [position_nextWord]
    rfl

theorem FetchedAt.shift {bs : BitStream} {p n : ℕ} (h : bs.FetchedAt p) (hn : 0 < n) (hn' : n < 32) :
    (bs.shift n).FetchedAt (p + n) := by
  obtain ⟨hptr, hoff, hacc, hpre⟩ := h
  obtain ⟨buffer, pointer, position, length, capacity, o, pre, acc⟩ := bs
  dsimp only at hptr hoff hacc hpre
  set bs : BitStream := ⟨buffer, pointer, position, length, capacity, o, pre, acc⟩ with hbs
  set B := bs.fetchBit with hB
  have hpre' : pre = fieldAt B (p + 32) (32 - o) * 2 ^ (32 - (32 - o)) := by
    rw [hpre, show 32 - (32 - o) = o by omega]
  -- the accumulator without its leading `n` bits
  have hacc1 : (acc <<< n) % 2 ^ 32 = fieldAt B (p + n) (32 - n) * 2 ^ n := by
    have := shiftLeft_mod B p n (32 - n)
    rw [show n + (32 - n) = 32 by omega] at this
    rw [hacc, Nat.shiftLeft_eq, this]
  have hB' := fetchBit_shift bs n
  by_cases hlt : o + n < 32
  · have hsh : bs.shift n = ⟨buffer, pointer, (position + n) % 2 ^ 32, length, capacity, o + n,
        (pre <<< n) % 2 ^ 32, (acc <<< n) % 2 ^ 32 ||| ((pre >>> (32 - n)) &&& ((1 <<< n) - 1))⟩ := by
      simp [BitStream.shift, shiftWord, hbs, topUp, show n ≠ 0 by omega, hn', hlt]
    refine ⟨by rw [hsh]; show 8 * pointer + (o + n) = _; omega, by rw [hsh]; exact hlt, ?_, ?_⟩
    · rw [hB', hsh]
      show _ ||| _ = fieldAt B (p + n) 32
      rw [hacc1, hpre', topBits B _ (by omega) (by omega), mul_pow_or (fieldAt_lt _ _ _),
        show p + 32 = p + n + (32 - n) by omega, ← fieldAt_add,
        show 32 - n + n = 32 by omega]
    · rw [hB', hsh]
      show (pre <<< n) % 2 ^ 32 = fieldAt B (p + n + 32) (32 - (o + n)) * 2 ^ (o + n)
      rw [hpre', restBits B _ (by omega) (by omega), show p + 32 + n = p + n + 32 by
        omega, show 32 - o - n = 32 - (o + n) by omega, show 32 - (32 - (o + n)) = o + n by omega]
  · -- the shift crosses a word boundary and consumes `m` bits of the next word
    obtain ⟨m, hm⟩ : ∃ m, o + n = 32 + m := ⟨o + n - 32, by omega⟩
    have hm32 : m < 32 := by omega
    set acc1 := (acc <<< n) % 2 ^ 32 ||| ((pre >>> (32 - n)) &&& ((1 <<< n) - 1)) with hacc1_def
    set bs1 : BitStream := ⟨buffer, pointer + 4, (position + n) % 2 ^ 32, length, capacity, m,
      (pre <<< n) % 2 ^ 32, acc1⟩ with hbs1
    have hword : bs1.fetchWord 4 = fieldAt B (p + 32 + (32 - o)) 32 := by
      rw [fetchWord_eq]
      show fieldAt B (8 * (pointer + 4 + 4)) 32 = _
      congr 1
      omega
    have hlow : (pre >>> (32 - n)) &&& ((1 <<< n) - 1) =
        fieldAt B (p + 32) (32 - o) * 2 ^ m := by
      have hlt' : fieldAt B (p + 32) (32 - o) * 2 ^ m < 2 ^ n := by
        rw [show n = (32 - o) + m by omega, pow_add]
        exact Nat.mul_lt_mul_of_pos_right (fieldAt_lt _ _ _) (Nat.two_pow_pos m)
      rw [hpre, Nat.shiftLeft_eq, Nat.one_mul, Nat.and_two_pow_sub_one_eq_mod,
        Nat.shiftRight_eq_div_pow, show 2 ^ o = 2 ^ m * 2 ^ (32 - n) by
          rw [← pow_add]; congr 1; omega, ← Nat.mul_assoc,
        Nat.mul_div_cancel _ (Nat.two_pow_pos _), Nat.mod_eq_of_lt hlt']
    have hacc2 : fieldAt B (p + n) 32 = fieldAt B (p + n) (32 - n) * 2 ^ n +
        (fieldAt B (p + 32) (32 - o) * 2 ^ m + fieldAt B (p + 32 + (32 - o)) m) := by
      rw [← fieldAt_add, show 32 - o + m = n by omega,
        show p + 32 = p + n + (32 - n) by omega, ← fieldAt_add,
        show 32 - n + n = 32 by omega]
    have hsh : bs.shift n = if m = 0 then bs1.prefetchWord else bs1.prefetchWord.topUp m := by
      simp [BitStream.shift, shiftWord, nextWord, hbs, hbs1, hacc1_def, topUp, prefetchWord,
        fetchWord, fetchByte, show n ≠ 0 by omega, hn', hm]
    have hpoint : 8 * (pointer + 4) + m = p + n := by omega
    by_cases hm0 : m = 0
    · rw [if_pos hm0] at hsh
      refine ⟨by rw [hsh]; exact hpoint, by rw [hsh]; exact hm32, ?_, ?_⟩
      · rw [hB', hsh]
        show acc1 = fieldAt B (p + n) 32
        rw [hacc1_def, hacc1, hlow, hacc2, hm0, mul_pow_or]
        · simp
        · have := fieldAt_lt B (p + 32) (32 - o)
          rwa [pow_zero, Nat.mul_one, show n = 32 - o by omega]
      · rw [hB', hsh]
        show bs1.fetchWord 4 = fieldAt B (p + n + 32) (32 - m) * 2 ^ m
        rw [hword, hm0, Nat.sub_zero, pow_zero, Nat.mul_one]
        congr 1
        omega
    · rw [if_neg hm0] at hsh
      refine ⟨by rw [hsh]; exact hpoint, by rw [hsh]; exact hm32, ?_, ?_⟩
      · rw [hB', hsh]
        show acc1 ||| ((bs1.fetchWord 4 >>> (32 - m)) &&& ((1 <<< m) - 1)) =
          fieldAt B (p + n) 32
        have := topBits B (p + 32 + (32 - o)) (n := m) (k := 32) (by omega) (by omega)
        rw [Nat.sub_self, pow_zero, Nat.mul_one] at this
        rw [hword, this, hacc1_def, hacc1, hlow, hacc2, Nat.or_assoc,
          mul_pow_or (fieldAt_lt _ _ _), mul_pow_or]
        rw [← fieldAt_add, show 32 - o + m = n by omega]
        exact fieldAt_lt _ _ _
      · rw [hB', hsh]
        show (bs1.fetchWord 4 <<< m) % 2 ^ 32 = fieldAt B (p + n + 32) (32 - m) * 2 ^ m
        have := restBits B (p + 32 + (32 - o)) (n := m) (k := 32) (by omega) (by omega)
        rw [Nat.sub_self, pow_zero, Nat.mul_one] at this
        rw [hword, this, show p + 32 + (32 - o) + m = p + n + 32 by omega,
          show 32 - (32 - m) = m by omega]

theorem ReadsAt.shift {bs : BitStream} {p n : ℕ} (h : bs.ReadsAt p) (hn : 0 < n) (hn' : n < 32)
    (hp : p + n < 2 ^ 32) : (bs.shift n).ReadsAt (p + n) := by
  obtain ⟨hpos, hfetched⟩ := (readsAt_iff (by omega)).mp h
  refine (readsAt_iff hp).mpr ⟨?_, hfetched.shift hn hn'⟩
  rw [position_shift bs hn hn', hpos, Nat.mod_eq_of_lt hp]

/-! ### Writing -/

theorem storeByte_apply (bs : BitStream) {k : ℕ} (v : ℕ) (buffer : ℕ → UInt8) (i : ℕ)
    (hk : bs.pointer + k < 2 ^ 32) :
    bs.storeByte k v buffer i =
      if i = bs.pointer + k ∧ i < bs.capacity then UInt8.ofNat v else buffer i := by
  unfold storeByte
  rw [Nat.mod_eq_of_lt hk]
  by_cases hi : i = bs.pointer + k
  · subst hi
    split_ifs <;> simp_all
  · split_ifs <;> simp_all

/-- `BitStream_Flush` stores the accumulator big-endian at `pointer`, below `capacity`. -/
theorem buffer_flush (bs : BitStream) (hp : bs.pointer + 3 < 2 ^ 32) (i : ℕ) :
    bs.flush.buffer i =
      if bs.pointer ≤ i ∧ i < bs.pointer + 4 ∧ i < bs.capacity then
        UInt8.ofNat (bs.accumulator >>> (24 - 8 * (i - bs.pointer)))
      else bs.buffer i := by
  simp only [flush]
  rw [storeByte_apply bs _ _ i (by omega), storeByte_apply bs _ _ i (by omega),
    storeByte_apply bs _ _ i (by omega), storeByte_apply bs _ _ i (by omega)]
  by_cases hc : i < bs.capacity
  · rcases (by omega : i < bs.pointer ∨ i = bs.pointer ∨ i = bs.pointer + 1 ∨ i = bs.pointer + 2 ∨
      i = bs.pointer + 3 ∨ bs.pointer + 4 ≤ i) with h | h | h | h | h | h
    · simp [show i ≠ bs.pointer + 3 by omega, show i ≠ bs.pointer + 2 by omega,
        show i ≠ bs.pointer + 1 by omega, show i ≠ bs.pointer by omega,
        show ¬ bs.pointer ≤ i by omega]
    · simp [h, h ▸ hc]
    · simp [h, h ▸ hc]
    · simp [h, h ▸ hc]
    · simp [h, h ▸ hc]
    · simp [show i ≠ bs.pointer + 3 by omega, show i ≠ bs.pointer + 2 by omega,
        show i ≠ bs.pointer + 1 by omega, show i ≠ bs.pointer by omega,
        show ¬ i < bs.pointer + 4 by omega]
  · simp [hc]

/-- A buffer that holds a word big-endian at byte `q` spells the word there. -/
private theorem fieldAt_word {buf : ℕ → UInt8} {q a : ℕ} (ha : a < 2 ^ 32)
    (h : ∀ j < 4, buf (q + j) = UInt8.ofNat (a >>> (24 - 8 * j))) :
    fieldAt (byteBit buf) (8 * q) 32 = a := by
  have hbyte : ∀ j < 4, fieldAt (byteBit buf) (8 * q + 8 * j) 8 = a / 2 ^ (24 - 8 * j) % 256 := by
    intro j hj
    rw [← Nat.mul_add, fieldAt_byteBit, h j hj, Nat.shiftRight_eq_div_pow]
    simp
  have h0 := hbyte 0 (by omega)
  have h1 := hbyte 1 (by omega)
  have h2 := hbyte 2 (by omega)
  have h3 := hbyte 3 (by omega)
  have hsplit : fieldAt (byteBit buf) (8 * q) (8 + (8 + (8 + 8))) =
      fieldAt (byteBit buf) (8 * q + 8 * 0) 8 * 2 ^ 24 +
        (fieldAt (byteBit buf) (8 * q + 8 * 1) 8 * 2 ^ 16 +
          (fieldAt (byteBit buf) (8 * q + 8 * 2) 8 * 2 ^ 8 +
            fieldAt (byteBit buf) (8 * q + 8 * 3) 8)) := by
    rw [fieldAt_add, fieldAt_add, fieldAt_add]
    simp only [Nat.mul_zero, Nat.add_zero, Nat.add_assoc, Nat.reduceAdd, Nat.reduceMul]
  rw [show 32 = 8 + (8 + (8 + 8)) by rfl, hsplit, h0, h1, h2, h3]
  norm_num
  omega

/-- The stream holds the fields `fs`, wherever `position` is: whole words are in the buffer, the bits of
the last word are at the top of the accumulator. -/
structure HoldsFields (bs : BitStream) (fs : List (ℕ × ℕ)) : Prop where
  pointer : 8 * bs.pointer + bs.offset = width fs
  offset_lt : bs.offset < 32
  buffer : fieldAt (byteBit bs.buffer) 0 (8 * bs.pointer) = value fs / 2 ^ bs.offset
  accumulator : bs.accumulator = value fs % 2 ^ bs.offset * 2 ^ (32 - bs.offset)

/-- The stream has been given exactly the fields `fs`. -/
structure WritesAt (bs : BitStream) (fs : List (ℕ × ℕ)) : Prop extends HoldsFields bs fs where
  position : bs.position = width fs

theorem holdsFields_attach (bs : BitStream) (buffer : ℕ → UInt8) (capacity : ℕ) :
    (bs.attach buffer capacity).HoldsFields [] where
  pointer := rfl
  offset_lt := Nat.zero_lt_succ 31
  buffer := by simp [attach, value]
  accumulator := by simp [attach, value]

theorem writesAt_attach (bs : BitStream) (buffer : ℕ → UInt8) (capacity : ℕ) :
    (bs.attach buffer capacity).WritesAt [] :=
  ⟨holdsFields_attach bs buffer capacity, rfl⟩

theorem HoldsFields.accumulator_lt {bs : BitStream} {fs : List (ℕ × ℕ)} (h : bs.HoldsFields fs) :
    bs.accumulator < 2 ^ 32 := by
  have ho := h.offset_lt
  rw [h.accumulator, show (2 : ℕ) ^ 32 = 2 ^ bs.offset * 2 ^ (32 - bs.offset) by
    rw [← pow_add]; congr 1; omega]
  exact Nat.mul_lt_mul_of_pos_right (Nat.mod_lt _ (Nat.two_pow_pos _)) (Nat.two_pow_pos _)

/-- The value of `fs` followed by a field, split at the last `o + n` bits. -/
private theorem append_div_mod (fs : List (ℕ × ℕ)) {v n : ℕ} (o : ℕ) (hv : v < 2 ^ n) :
    value (fs ++ [(n, v)]) / 2 ^ (o + n) = value fs / 2 ^ o ∧
      value (fs ++ [(n, v)]) % 2 ^ (o + n) = value fs % 2 ^ o * 2 ^ n + v := by
  rw [value_append_singleton, Nat.add_comm o n, pow_add, ← Nat.div_div_eq_div_mul,
    Nat.mul_comm (value fs), Nat.mul_add_div (Nat.two_pow_pos n), Nat.div_eq_of_lt hv,
    Nat.add_zero, Nat.mod_mul, Nat.mul_add_div (Nat.two_pow_pos n), Nat.div_eq_of_lt hv,
    Nat.add_zero, Nat.mul_add_mod, Nat.mod_eq_of_lt hv]
  exact ⟨rfl, by ring⟩

/-- After a full word has been stored the buffer spells one word more. -/
private theorem fieldAt_flush (bs : BitStream) (hcap : bs.pointer + 4 ≤ bs.capacity)
    (hp : bs.pointer + 3 < 2 ^ 32) (ha : bs.accumulator < 2 ^ 32) :
    fieldAt (byteBit bs.flush.buffer) 0 (8 * (bs.pointer + 4)) =
      fieldAt (byteBit bs.buffer) 0 (8 * bs.pointer) * 2 ^ 32 + bs.accumulator := by
  have hold : fieldAt (byteBit bs.flush.buffer) 0 (8 * bs.pointer) =
      fieldAt (byteBit bs.buffer) 0 (8 * bs.pointer) := by
    apply fieldAt_byteBit_congr (n := bs.pointer) _ (by omega)
    intro k hk
    rw [buffer_flush bs hp, if_neg (by omega)]
  have hnew : fieldAt (byteBit bs.flush.buffer) (8 * bs.pointer) 32 = bs.accumulator := by
    apply fieldAt_word ha
    intro j hj
    rw [buffer_flush bs hp, if_pos (by omega), Nat.add_sub_cancel_left]
  rw [show 8 * (bs.pointer + 4) = 8 * bs.pointer + 32 by ring, fieldAt_add, Nat.zero_add, hold,
    hnew]

/-- `BitStream_Write_Bits` appends a field, as long as the buffer has room for it. -/
theorem HoldsFields.writeBits {bs : BitStream} {fs : List (ℕ × ℕ)} {v n : ℕ} (h : bs.HoldsFields fs)
    (hn : n < 32) (hv : v < 2 ^ n) (hcap : width fs + n ≤ 8 * bs.capacity)
    (hlt : bs.pointer + 3 < 2 ^ 32) : (bs.writeBits v n).HoldsFields (fs ++ [(n, v)]) := by
  have hacc_lt := h.accumulator_lt
  obtain ⟨hptr, hoff, hbuf, hacc⟩ := h
  obtain ⟨buffer, pointer, position, length, capacity, o, pre, acc⟩ := bs
  dsimp only at *
  have hw : width (fs ++ [(n, v)]) = width fs + n := by simp
  by_cases hon : o + n < 32
  · obtain ⟨hdiv, hmod⟩ := append_div_mod fs o hv
    have hwr : BitStream.writeBits ⟨buffer, pointer, position, length, capacity, o, pre, acc⟩ v n =
        ⟨buffer, pointer, (position + n) % 2 ^ 32, length, capacity, o + n, pre,
          acc ||| (v <<< (32 - (o + n))) % 2 ^ 32⟩ := by
      simp [BitStream.writeBits, hon]
    have hvlt : v * 2 ^ (32 - (o + n)) < 2 ^ (32 - o) := by
      rw [show 32 - o = n + (32 - (o + n)) by omega, pow_add]
      exact Nat.mul_lt_mul_of_pos_right hv (Nat.two_pow_pos _)
    rw [hwr]
    refine ⟨by show 8 * pointer + (o + n) = _; omega, hon, by rw [hdiv]; exact hbuf, ?_⟩
    show acc ||| _ = _
    rw [hmod, Nat.shiftLeft_eq, Nat.mod_eq_of_lt (lt_of_lt_of_le hvlt
      (Nat.pow_le_pow_right (by omega) (by omega))), hacc, mul_pow_or hvlt, Nat.add_mul,
      Nat.mul_assoc, ← pow_add, show n + (32 - (o + n)) = 32 - o by omega]
  · -- the field fills the word and `m` bits are left for the next one
    obtain ⟨m, hm⟩ : ∃ m, o + n = 32 + m := ⟨o + n - 32, by omega⟩
    have hm_lt : m < 32 := by omega
    obtain ⟨hdiv, hmod⟩ := append_div_mod fs o hv
    have hnm : n - m = 32 - o := by omega
    have hhigh : (v >>> m) &&& ((1 <<< (n - m)) - 1) = v / 2 ^ m := by
      have : v / 2 ^ m < 2 ^ (n - m) := by
        rw [Nat.div_lt_iff_lt_mul (Nat.two_pow_pos m), ← pow_add, show n - m + m = n by omega]
        exact hv
      rw [Nat.shiftLeft_eq, Nat.one_mul, Nat.and_two_pow_sub_one_eq_mod,
        Nat.shiftRight_eq_div_pow, Nat.mod_eq_of_lt this]
    have hhigh_lt : v / 2 ^ m < 2 ^ (32 - o) := by
      rw [Nat.div_lt_iff_lt_mul (Nat.two_pow_pos m), ← pow_add, show 32 - o + m = n by omega]
      exact hv
    set acc' := acc ||| ((v >>> m) &&& ((1 <<< (n - m)) - 1)) with hacc_def
    have hacc' : acc' = value fs % 2 ^ o * 2 ^ (32 - o) + v / 2 ^ m := by
      rw [hacc_def, hhigh, hacc, mul_pow_or hhigh_lt]
    have hacc_lt' : acc' < 2 ^ 32 := by
      rw [hacc_def, hhigh]
      exact Nat.or_lt_two_pow hacc_lt
        (lt_of_lt_of_le hhigh_lt (Nat.pow_le_pow_right (by omega) (by omega)))
    set full : BitStream := ⟨buffer, pointer, (position + n) % 2 ^ 32, length, capacity, m, pre,
      acc'⟩ with hfull
    have hwr : BitStream.writeBits ⟨buffer, pointer, position, length, capacity, o, pre, acc⟩ v n =
        { full.flush with
          pointer := pointer + 4
          accumulator := if m = 0 then 0
            else ((v &&& ((1 <<< m) - 1)) <<< (32 - m)) % 2 ^ 32 } := by
      simp [BitStream.writeBits, writeWord, hm, hfull, flush, hacc_def]
    -- everything written so far, cut `m` bits before the end
    have hvm : value (fs ++ [(n, v)]) / 2 ^ m = value fs / 2 ^ o * 2 ^ 32 + acc' := by
      have hv0 := Nat.div_add_mod (value fs) (2 ^ o)
      have hn' : 2 ^ n = 2 ^ (32 - o) * 2 ^ m := by rw [← pow_add]; congr 1; omega
      have h32 : (2 : ℕ) ^ 32 = 2 ^ o * 2 ^ (32 - o) := by rw [← pow_add]; congr 1; omega
      have hsum : value (fs ++ [(n, v)]) = 2 ^ m * (value fs * 2 ^ (32 - o)) + v := by
        rw [value_append_singleton, hn']; ring
      rw [hsum, Nat.mul_add_div (Nat.two_pow_pos m), hacc', h32, ← Nat.add_assoc,
        Nat.add_right_cancel_iff, ← Nat.mul_assoc, ← Nat.add_mul, Nat.mul_comm _ (2 ^ o), hv0]
    have hvmod : value (fs ++ [(n, v)]) % 2 ^ m = v % 2 ^ m := by
      have hn' : 2 ^ n = 2 ^ (32 - o) * 2 ^ m := by rw [← pow_add]; congr 1; omega
      rw [value_append_singleton, hn', ← Nat.mul_assoc, Nat.mul_comm _ (2 ^ m), Nat.mul_add_mod]
    rw [hwr]
    refine ⟨by show 8 * (pointer + 4) + m = _; omega, hm_lt, ?_, ?_⟩
    · have := fieldAt_flush full (by show pointer + 4 ≤ capacity; omega)
        hlt hacc_lt'
      show fieldAt (byteBit full.flush.buffer) 0 (8 * (pointer + 4)) = _ / 2 ^ m
      rw [hvm, this]
      show fieldAt (byteBit buffer) 0 (8 * pointer) * 2 ^ 32 + acc' = _
      rw [hbuf]
    · show (if m = 0 then 0 else ((v &&& ((1 <<< m) - 1)) <<< (32 - m)) % 2 ^ 32) =
        value (fs ++ [(n, v)]) % 2 ^ m * 2 ^ (32 - m)
      rw [hvmod]
      split_ifs with hm0
      · simp [hm0, Nat.mod_one]
      · have hlt' : v % 2 ^ m * 2 ^ (32 - m) < 2 ^ 32 := by
          rw [show (2 : ℕ) ^ 32 = 2 ^ m * 2 ^ (32 - m) by rw [← pow_add]; congr 1; omega]
          exact Nat.mul_lt_mul_of_pos_right (Nat.mod_lt _ (Nat.two_pow_pos _)) (Nat.two_pow_pos _)
        rw [Nat.shiftLeft_eq 1, Nat.one_mul, Nat.and_two_pow_sub_one_eq_mod, Nat.shiftLeft_eq,
          Nat.mod_eq_of_lt hlt']

theorem position_writeBits (bs : BitStream) (v n : ℕ) :
    (bs.writeBits v n).position = (bs.position + n) % 2 ^ 32 := by
  unfold BitStream.writeBits
  simp only [writeWord]
  split_ifs <;> rfl

theorem WritesAt.writeBits {bs : BitStream} {fs : List (ℕ × ℕ)} {v n : ℕ} (h : bs.WritesAt fs)
    (hn : n < 32) (hv : v < 2 ^ n) (hcap : width fs + n ≤ 8 * bs.capacity)
    (hlt : width fs + n < 2 ^ 32) : (bs.writeBits v n).WritesAt (fs ++ [(n, v)]) := by
  have hptr := h.pointer
  refine ⟨h.toHoldsFields.writeBits hn hv hcap (by omega), ?_⟩
  rw [position_writeBits, h.position, Nat.mod_eq_of_lt hlt]
  simp

@[simp] theorem capacity_writeBits (bs : BitStream) (v n : ℕ) :
    (bs.writeBits v n).capacity = bs.capacity := by
  unfold BitStream.writeBits
  simp only [writeWord]
  split_ifs <;> rfl

/-- After the last `BitStream_Flush` the buffer spells the fields that were written. -/
theorem HoldsFields.spells_flush {bs : BitStream} {fs : List (ℕ × ℕ)} (h : bs.HoldsFields fs)
    (hfs : ∀ f ∈ fs, f.2 < 2 ^ f.1) (hcap : width fs ≤ 8 * bs.capacity)
    (hp : bs.pointer + 3 < 2 ^ 32) : Spells (byteBit bs.flush.buffer) 0 fs := by
  have ha := h.accumulator_lt
  obtain ⟨hptr, hoff, hbuf, hacc⟩ := h
  rw [spells_iff hfs]
  -- the last, partial word, written without regard to `capacity`
  set full : ℕ → UInt8 := fun i => if bs.pointer ≤ i ∧ i < bs.pointer + 4 then
    UInt8.ofNat (bs.accumulator >>> (24 - 8 * (i - bs.pointer))) else bs.buffer i with hfull
  have hagree : ∀ k < (width fs + 7) / 8, bs.flush.buffer k = full k := by
    intro k hk
    rw [buffer_flush bs hp, hfull]
    simp [show k < bs.capacity by omega]
  have hword : fieldAt (byteBit full) (8 * bs.pointer) 32 = bs.accumulator := by
    apply fieldAt_word ha
    intro j hj
    simp [hfull, hj]
  have hhead : fieldAt (byteBit full) (8 * bs.pointer) bs.offset = value fs % 2 ^ bs.offset := by
    have := fieldAt_div (byteBit full) (8 * bs.pointer) bs.offset (32 - bs.offset)
    rw [show bs.offset + (32 - bs.offset) = 32 by omega, hword, hacc,
      Nat.mul_div_cancel _ (Nat.two_pow_pos _)] at this
    exact this.symm
  have hlow : fieldAt (byteBit full) 0 (8 * bs.pointer) = value fs / 2 ^ bs.offset := by
    rw [← hbuf]
    apply fieldAt_byteBit_congr (n := bs.pointer) _ (by omega)
    intro k hk
    simp [hfull, show ¬ bs.pointer ≤ k by omega]
  rw [fieldAt_byteBit_congr hagree (by omega), ← hptr, fieldAt_add, Nat.zero_add, hlow, hhead,
    Nat.mul_comm, Nat.div_add_mod]

theorem WritesAt.spells_flush {bs : BitStream} {fs : List (ℕ × ℕ)} (h : bs.WritesAt fs)
    (hfs : ∀ f ∈ fs, f.2 < 2 ^ f.1) (hcap : width fs ≤ 8 * bs.capacity)
    (hlt : width fs < 2 ^ 32) : Spells (byteBit bs.flush.buffer) 0 fs := by
  have hptr := h.pointer
  exact h.toHoldsFields.spells_flush hfs hcap (by omega)

/-! ### Sequences of calls -/

section Sequences

variable {bs : BitStream} {fs gs : List (ℕ × ℕ)} {p n : ℕ}

theorem shiftAll_cons (bs : BitStream) (n : ℕ) (ns : List ℕ) :
    bs.shiftAll (n :: ns) = (bs.shift n).shiftAll ns := rfl

theorem shifted_cons (n : ℕ) (ns : List ℕ) :
    shifted (n :: ns) = (if n < 32 then n else 0) + shifted ns := by
  rw [shifted, List.map_cons, List.sum_cons, ← shifted]

/-- A shift by a count that is out of range changes nothing. -/
theorem shift_of_le (bs : BitStream) (h : n = 0 ∨ 32 ≤ n) : bs.shift n = bs := by
  rw [shift]
  split_ifs
  · rfl
  · omega
  · omega
  · rfl

/-- Shifts move a reading stream on by the bits that they drop. -/
theorem FetchedAt.shiftAll (h : bs.FetchedAt p) (hlt : bs.position < 2 ^ 32) (ns : List ℕ) :
    (bs.shiftAll ns).FetchedAt (p + shifted ns) ∧ (bs.shiftAll ns).fetchBit = bs.fetchBit ∧
      (bs.shiftAll ns).inputBit = bs.inputBit ∧
      (bs.shiftAll ns).position = (bs.position + shifted ns) % 2 ^ 32 := by
  induction ns generalizing bs p with
  | nil => exact ⟨h, rfl, rfl, (Nat.mod_eq_of_lt hlt).symm⟩
  | cons n ns ih =>
    rw [shiftAll_cons, shifted_cons]
    by_cases hn : n = 0 ∨ 32 ≤ n
    · have hzero : (if n < 32 then n else 0) = 0 := by split_ifs <;> omega
      rw [shift_of_le bs hn, hzero, Nat.zero_add]
      exact ih h hlt
    · have hn' : n < 32 := by omega
      have hshift := position_shift bs (n := n) (by omega) hn'
      obtain ⟨hfetched, hfetch, hinput, hposition⟩ := ih (h.shift (by omega) hn')
        (by rw [hshift]; exact Nat.mod_lt _ (Nat.two_pow_pos 32))
      rw [fetchBit_shift] at hfetch
      rw [inputBit_shift] at hinput
      rw [hshift, Nat.mod_add_mod] at hposition
      rw [if_pos hn', ← Nat.add_assoc, ← Nat.add_assoc]
      exact ⟨hfetched, hfetch, hinput, hposition⟩

theorem FetchedAt.top (h : bs.FetchedAt p) (hn : n ≤ 32) :
    bs.accumulator >>> (32 - n) = fieldAt bs.fetchBit p n := by
  have hdiv := fieldAt_div bs.fetchBit p n (32 - n)
  rw [Nat.add_sub_cancel' hn] at hdiv
  rw [h.accumulator, Nat.shiftRight_eq_div_pow, hdiv]

theorem dvd_pointer_writeBits (v n : ℕ) (h : 4 ∣ bs.pointer) : 4 ∣ (bs.writeBits v n).pointer := by
  unfold BitStream.writeBits
  simp only [writeWord]
  split_ifs with hlt hrest
  · exact h
  · exact (Nat.dvd_add_right h).mpr (Nat.dvd_refl 4)
  · exact (Nat.dvd_add_right h).mpr (Nat.dvd_refl 4)

/-- A stream that has room for all of the fields holds them once they have been written. -/
theorem HoldsFields.writeFields (h : bs.HoldsFields fs) (hdvd : 4 ∣ bs.pointer)
    (hcapacity : bs.capacity < 2 ^ 32) (hgs : ∀ g ∈ gs, g.1 < 32 ∧ g.2 < 2 ^ g.1)
    (hwidth : width (fs ++ gs) ≤ 8 * bs.capacity) :
    (bs.writeFields gs).HoldsFields (fs ++ gs) ∧ 4 ∣ (bs.writeFields gs).pointer ∧
      (bs.writeFields gs).capacity = bs.capacity := by
  induction gs generalizing bs fs with
  | nil => exact ⟨by rwa [List.append_nil], hdvd, rfl⟩
  | cons g gs ih =>
    obtain ⟨⟨hlt, hvalue⟩, hgs⟩ := List.forall_mem_cons.mp hgs
    rw [width_append, width_cons] at hwidth
    have hptr := h.pointer
    have hnext := h.writeBits hlt hvalue (by omega) (by omega)
    obtain ⟨hfields, hdvd', hcapacity'⟩ := ih hnext (dvd_pointer_writeBits g.2 g.1 hdvd)
      (by rwa [capacity_writeBits]) hgs (by
        rw [capacity_writeBits, width_append, width_append, width_cons, width_nil]
        omega)
    rw [List.append_assoc] at hfields
    exact ⟨hfields, hdvd', hcapacity'.trans (capacity_writeBits bs g.2 g.1)⟩

/-- What has been written is in the buffer, whatever its length is. -/
theorem spells_writeFields (bs : BitStream) (buffer : ℕ → UInt8) {capacity : ℕ}
    (hcapacity : capacity < 2 ^ 32) (hfs : ∀ f ∈ fs, f.1 < 32 ∧ f.2 < 2 ^ f.1)
    (hwidth : width fs ≤ 8 * capacity) :
    Spells (byteBit ((bs.attach buffer capacity).writeFields fs).flush.buffer) 0 fs := by
  obtain ⟨hfields, hdvd, hcapacity'⟩ := (holdsFields_attach bs buffer capacity).writeFields
    (Nat.dvd_zero 4) hcapacity hfs hwidth
  have hcap : ((bs.attach buffer capacity).writeFields fs).capacity = capacity := hcapacity'
  have hptr := hfields.pointer
  rw [List.nil_append] at hptr
  refine hfields.spells_flush (fun f hf => (hfs f hf).2) (by rwa [hcap]) ?_
  omega

theorem shifted_widths (hfs : ∀ f ∈ fs, f.1 < 32) : shifted (fs.map Prod.fst) = width fs := by
  induction fs with
  | nil => rfl
  | cons f fs ih =>
    obtain ⟨hf, hfs⟩ := List.forall_mem_cons.mp hfs
    rw [List.map_cons, shifted_cons, if_pos hf, ih hfs, width_cons]

end Sequences

/-- What is written is read back, field by field; and as long as `position` does not wrap, the accumulator
has the bits that it is for. -/
theorem bitStream_faithful (bs bs' : BitStream) (buffer : ℕ → UInt8) (capacity : ℕ)
    (hcapacity : capacity < 2 ^ 32) :
    (∀ fs f gs, (∀ g ∈ fs ++ f :: gs, 1 ≤ g.1 ∧ g.1 ≤ 31 ∧ g.2 < 2 ^ g.1) →
      width (fs ++ f :: gs) ≤ 8 * capacity →
      ((bs'.attach ((bs.attach buffer capacity).writeFields (fs ++ f :: gs)).flush.buffer
        capacity).fetch.shiftAll (fs.map Prod.fst)).accumulator >>> (32 - f.1) = f.2) ∧
    ∀ ns, shifted ns < 2 ^ 32 →
      ((bs.attach buffer capacity).fetch.shiftAll ns).accumulator =
        fieldAt (byteBit fun i => if i < capacity then buffer i else 0)
          ((bs.attach buffer capacity).fetch.shiftAll ns).position 32 := by
  constructor
  · intro fs f gs hfs hwidth
    have hspells := spells_writeFields bs buffer hcapacity
      (fun g hg => ⟨by have := (hfs g hg).2.1; omega, (hfs g hg).2.2⟩) hwidth
    generalize ((bs.attach buffer capacity).writeFields (fs ++ f :: gs)).flush.buffer = written at hspells ⊢
    have hwidths : shifted (fs.map Prod.fst) = width fs := shifted_widths fun g hg => by
      have := (hfs g (List.mem_append_left _ hg)).2.1
      omega
    obtain ⟨hfetched, hfetch, -, -⟩ := (fetchedAt_fetch bs' written capacity).shiftAll
      (Nat.two_pow_pos 32) (fs.map Prod.fst)
    have hle := (hfs f (List.mem_append_right _ List.mem_cons_self)).2.1
    rw [width_append, width_cons] at hwidth
    rw [spells_append, Spells, Nat.zero_add] at hspells
    rw [hfetched.top (by omega), hfetch, hwidths, Nat.zero_add, ← hspells.2.1]
    refine fieldAt_byteBit_congr (n := capacity) (fun k hk => ?_) (by omega)
    change (if k % 2 ^ 32 < capacity then written k else 0) = written k
    rw [Nat.mod_eq_of_lt (Nat.lt_trans hk hcapacity), if_pos hk]
  · intro ns hns
    obtain ⟨hfetched, -, hinput, hposition⟩ := (fetchedAt_fetch bs buffer capacity).shiftAll
      (Nat.two_pow_pos 32) ns
    have hzero : (bs.attach buffer capacity).fetch.position = 0 := rfl
    rw [hzero, Nat.zero_add, Nat.mod_eq_of_lt hns] at hposition
    rw [Nat.zero_add] at hfetched
    have hreads := (readsAt_iff hns).mpr ⟨hposition, hfetched⟩
    rw [hreads.accumulator, hposition, hinput]
    rfl

theorem bitStream_faithful_bytes :
    (4 : ℕ) < 2 ^ 32 ∧
      ((new.attach ((new.attach (fun _ => 0) 4).writeFields [(5, 17), (9, 300)]).flush.buffer
        4).fetch.shiftAll [5]).accumulator >>> (32 - 9) = 300 :=
  ⟨by decide, (bitStream_faithful new new (fun _ => 0) 4 (by decide)).1 [(5, 17)] (9, 300) []
    (by decide) (by decide)⟩

theorem fieldAt_eq_zero {bit : ℕ → Bool} {p w : ℕ} (h : ∀ i < w, bit (p + i) = false) :
    fieldAt bit p w = 0 := by
  have hzero := fieldAt_of_testBit (n := 0) (w := w) fun i hi => (h i hi).trans (Nat.zero_testBit _).symm
  rwa [Nat.zero_mod] at hzero

theorem shifted_replicate (n k : ℕ) (hk : k < 32) : shifted (List.replicate n k) = n * k := by
  rw [shifted, List.map_replicate, List.sum_replicate_nat, if_pos hk]

/-- Behind `2 ^ 32` bits, `position` is 0 again, but the accumulator is not what it was at first. -/
theorem bitStream_not_faithful :
    ¬ ∀ ns, ((new.attach (fun _ => 255) 4).fetch.shiftAll ns).accumulator =
      fieldAt (byteBit fun i => if i < 4 then 255 else 0)
        ((new.attach (fun _ => 255) 4).fetch.shiftAll ns).position 32 := by
  intro h
  have hshifted : shifted (List.replicate (2 ^ 28) 16) = 2 ^ 32 := shifted_replicate _ _ (by decide)
  have hns := h (List.replicate (2 ^ 28) 16)
  obtain ⟨hfetched, hfetch, -, hposition⟩ := (fetchedAt_fetch new (fun _ => 255) 4).shiftAll
    (Nat.two_pow_pos 32) (List.replicate (2 ^ 28) 16)
  have hzero : (new.attach (fun _ => 255) 4).fetch.position = 0 := rfl
  rw [hshifted, hzero, Nat.zero_add, Nat.mod_self] at hposition
  have hbits : fieldAt (new.attach (fun _ => 255) 4).fetch.fetchBit (2 ^ 32) 32 = 0 := by
    refine fieldAt_eq_zero fun i hi => ?_
    change ((if (2 ^ 32 + i) / 8 % 2 ^ 32 < 4 then (255 : UInt8) else 0).toNat).testBit _ = false
    rw [if_neg (by omega)]
    exact Nat.zero_testBit _
  rw [hshifted, Nat.zero_add] at hfetched
  rw [hposition, hfetched.accumulator, hfetch, hbits] at hns
  exact absurd hns (by decide)

end FreeRDP.BitStream
