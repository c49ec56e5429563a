import FreeRDP.Lib.BitList
import FreeRDP.Rlgr.Basic

/-!
# What the encoder's bit stream holds

`Wrote bs l` says that the list of bits `l` has been put into the stream: the buffer holds as much
of `l` as fits into `nbytes` bytes and zeros behind it.  Every output operation of the encoder
appends to the list, whether or not there is room for all of its bits.
-/

namespace FreeRDP.Rlgr

open BitField BitList

namespace RfxBitstream

/-- The bits `l` have been put into a stream of `n` bytes, as far as there is room for them. -/
structure Wrote (bs : RfxBitstream) (n : ℕ) (l : List Bool) : Prop where
  nbytes : bs.nbytes.toNat = n
  bitsLeft_pos : 0 < bs.bitsLeft
  bitsLeft_le : bs.bitsLeft ≤ 8
  position : 8 * bs.bytePos + (8 - bs.bitsLeft) = min l.length (8 * n)
  bit : ∀ i, byteBit bs.buffer i = (l.take (8 * n)).getD i false

variable {bs : RfxBitstream} {n : ℕ} {l : List Bool}

theorem wrote_attach (h : n < 2 ^ 31) : (attach (fun _ => 0) n).Wrote n [] where
  nbytes := by
    unfold attach toInt
    rw [Int.bmod_eq_of_le (by omega) (by omega), Int.toNat_natCast]
  bitsLeft_pos := by simp [attach]
  bitsLeft_le := by simp [attach]
  position := by simp [attach]
  bit i := by simp [attach, byteBit]

/-- The bits of a chunk stand in the byte below the `8 - bitsLeft` bits that are already there. -/
theorem testBit_chunk {bits nbits b left t : ℕ} (hb : b ≤ nbits) (hleft : b ≤ left) :
    (((bits >>> (nbits - b)) &&& ((1 <<< b) - 1)) <<< (left - b)).testBit t =
      (decide (left - b ≤ t ∧ t < left) && bits.testBit (nbits + t - left)) := by
  rw [Nat.testBit_shiftLeft, Nat.one_shiftLeft, Nat.testBit_and, Nat.testBit_shiftRight,
    Nat.testBit_two_pow_sub_one]
  by_cases h : left - b ≤ t ∧ t < left
  · obtain ⟨h1, h2⟩ := h
    rw [decide_eq_true h1, decide_eq_true (show t - (left - b) < b by omega),
      decide_eq_true (show left - b ≤ t ∧ t < left from ⟨h1, h2⟩),
      show nbits - b + (t - (left - b)) = nbits + t - left by omega]
    simp
  · rw [decide_eq_false h]
    by_cases h1 : left - b ≤ t
    · rw [decide_eq_false (show ¬ t - (left - b) < b by omega)]
      simp
    · rw [decide_eq_false h1]
      simp

/-- One round of `rfx_bitstream_put_bits` sets the bits from the position on. -/
theorem bit_putChunk {bs : RfxBitstream} {bits nbits b : ℕ} (hb : b ≤ nbits)
    (hleft : b ≤ bs.bitsLeft) (hle : bs.bitsLeft ≤ 8) (i : ℕ) :
    byteBit (bs.putChunk bits nbits b).buffer i =
      (byteBit bs.buffer i || (decide (8 * bs.bytePos + (8 - bs.bitsLeft) ≤ i ∧
        i < 8 * bs.bytePos + (8 - bs.bitsLeft) + b) &&
          bits.testBit (nbits - 1 - (i - (8 * bs.bytePos + (8 - bs.bitsLeft)))))) := by
  unfold putChunk byteBit
  dsimp only
  by_cases hi : i / 8 = bs.bytePos
  · rw [hi, Function.update_self, UInt8.toNat_or, Nat.testBit_or, UInt8.toNat_ofNat',
      Nat.testBit_mod_two_pow, decide_eq_true (show 7 - i % 8 < 8 by omega), Bool.true_and,
      testBit_chunk hb hleft]
    by_cases hr : bs.bitsLeft - b ≤ 7 - i % 8 ∧ 7 - i % 8 < bs.bitsLeft
    · rw [decide_eq_true hr, decide_eq_true (by omega)]
      congr 3
      omega
    · rw [decide_eq_false hr, decide_eq_false (by omega)]
      simp
  · rw [Function.update_of_ne hi, decide_eq_false (by omega)]
    simp

/-- A round that finds room appends the first `b` of the `nbits` bits. -/
theorem Wrote.putChunk (bits : ℕ) {nbits b : ℕ} (h : bs.Wrote n l)
    (hroom : (bs.bytePos : ℤ) < bs.nbytes) (hpos : 0 < b) (hb : b ≤ nbits)
    (hleft : b ≤ bs.bitsLeft) :
    (bs.putChunk bits nbits b).Wrote n (l ++ (bitsOf nbits bits).take b) := by
  have hle := h.bitsLeft_le
  have hbyte : 8 * bs.bytePos + 8 ≤ 8 * n := by
    have := h.nbytes
    omega
  have hposition := h.position
  have hlen : 8 * bs.bytePos + (8 - bs.bitsLeft) = l.length := by
    have := h.bitsLeft_pos
    omega
  have hlen' : (l ++ (bitsOf nbits bits).take b).length = l.length + b := by simp [hb]
  constructor
  · exact h.nbytes
  · unfold RfxBitstream.putChunk
    dsimp only
    split_ifs <;> omega
  · unfold RfxBitstream.putChunk
    dsimp only
    split_ifs <;> omega
  · rw [hlen']
    unfold RfxBitstream.putChunk
    dsimp only
    split_ifs <;> omega
  · intro i
    rw [bit_putChunk hb hleft hle, h.bit, hlen,
      List.take_of_length_le (show (l ++ (bitsOf nbits bits).take b).length ≤ 8 * n by omega),
      List.take_of_length_le (show l.length ≤ 8 * n by omega)]
    rcases Nat.lt_or_ge i l.length with hi | hi
    · rw [List.getD_append _ _ _ _ hi, decide_eq_false (by omega)]
      simp
    · rw [List.getD_append_right _ _ _ _ hi, List.getD_eq_default _ _ hi, Bool.false_or]
      rcases Nat.lt_or_ge (i - l.length) b with hi' | hi'
      · rw [decide_eq_true (by omega), Bool.true_and,
          List.getD_eq_getElem _ _ (by simp; omega), List.getElem_take, getElem_bitsOf]
      · rw [decide_eq_false (by omega), List.getD_eq_default _ _ (by simp; omega), Bool.false_and]

/-- A full stream takes no more bits. -/
theorem Wrote.of_full (h : bs.Wrote n l) (hfull : ¬ (bs.bytePos : ℤ) < bs.nbytes)
    (m : List Bool) : bs.Wrote n (l ++ m) := by
  have hposition := h.position
  have hlen : 8 * n ≤ l.length := by
    have := h.nbytes
    omega
  refine ⟨h.nbytes, h.bitsLeft_pos, h.bitsLeft_le, ?_, fun i => ?_⟩
  · rw [h.position, List.length_append]
    omega
  · rw [h.bit, List.take_append_of_le_length hlen]

theorem Wrote.putLoop {bits : ℕ} (rounds : ℕ) {nbits : ℕ} (h : bs.Wrote n l)
    (hrounds : nbits ≤ rounds) : (putLoop rounds bs bits nbits).Wrote n (l ++ bitsOf nbits bits) := by
  induction rounds generalizing nbits bs l with
  | zero =>
    obtain rfl : nbits = 0 := by omega
    rw [bitsOf_zero, List.append_nil]
    exact h
  | succ rounds ih =>
    rw [RfxBitstream.putLoop]
    by_cases hgo : (bs.bytePos : ℤ) < bs.nbytes ∧ 0 < nbits
    · rw [if_pos hgo]
      dsimp only
      have hleft := h.bitsLeft_pos
      generalize hb : (if nbits > bs.bitsLeft then bs.bitsLeft else nbits) = b
      have hchunk : 0 < b ∧ b ≤ nbits ∧ b ≤ bs.bitsLeft := by split_ifs at hb <;> omega
      have hnext := ih (h.putChunk bits hgo.1 hchunk.1 hchunk.2.1 hchunk.2.2)
        (show nbits - b ≤ rounds by omega)
      rw [List.append_assoc, ← drop_bitsOf, List.take_append_drop] at hnext
      exact hnext
    · rw [if_neg hgo]
      rcases Nat.eq_zero_or_pos nbits with rfl | hn
      · rw [bitsOf_zero, List.append_nil]
        exact h
      · exact h.of_full (fun hlt => hgo ⟨hlt, hn⟩) _

/-- `rfx_bitstream_put_bits` appends the `nbits` bits of its argument. -/
theorem Wrote.putBits (h : bs.Wrote n l) (bits : ℕ) {nbits : ℕ} (hn : nbits ≤ 16) :
    (bs.putBits bits nbits).Wrote n (l ++ bitsOf nbits bits) := by
  have hloop : (RfxBitstream.putLoop nbits bs (bits % 2 ^ 16) nbits).Wrote n
      (l ++ bitsOf nbits (bits % 2 ^ 16)) := h.putLoop nbits le_rfl
  rwa [bitsOf_mod hn] at hloop

/-- `rfx_bitstream_flush` pads with zero bits, as many as the last byte already holds. -/
theorem Wrote.flush (h : bs.Wrote n l) :
    bs.flush.Wrote n (l ++ List.replicate (l.length % 8) false) := by
  have hle := h.bitsLeft_le
  have hpos := h.bitsLeft_pos
  have hposition := h.position
  have hbytes := h.nbytes
  unfold RfxBitstream.flush
  rcases Nat.lt_or_ge l.length (8 * n) with hroom | hroom
  · have hmod : l.length % 8 = 8 - bs.bitsLeft := by omega
    split_ifs with h8
    · rw [hmod, ← bitsOf_zeros]
      exact h.putBits 0 (by omega)
    · obtain h8 : bs.bitsLeft = 8 := by omega
      rw [hmod, h8]
      simpa using h
  · have hfull : ¬ (bs.bytePos : ℤ) < bs.nbytes := by omega
    have h8 : ¬ bs.bitsLeft ≠ 8 := by omega
    rw [if_neg h8]
    exact h.of_full hfull _

theorem Wrote.processedBytes (h : bs.Wrote n l) :
    bs.processedBytes = min ((l.length + 7) / 8) n := by
  have hle := h.bitsLeft_le
  have hpos := h.bitsLeft_pos
  have hposition := h.position
  unfold RfxBitstream.processedBytes
  split_ifs <;> omega

end RfxBitstream

open RfxBitstream

/-! ### The output operations of the encoder -/

section Outputs

variable {bs : RfxBitstream} {n : ℕ} {l : List Bool}

theorem bitsOf_pattern (bit : Bool) {c : ℕ} (h : c ≤ 16) :
    bitsOf c (if bit then 0xFFFF else 0) = List.replicate c bit := by
  cases bit with
  | false => exact bitsOf_zeros c
  | true => exact bitsOf_ones h

theorem Wrote.outputBitLoop (bit : Bool) (rounds : ℕ) {c : ℕ} (h : bs.Wrote n l)
    (hc : c ≤ rounds) :
    (outputBitLoop (if bit then 0xFFFF else 0) rounds bs c).Wrote n (l ++ List.replicate c bit) := by
  induction rounds generalizing c bs l with
  | zero =>
    obtain rfl : c = 0 := by omega
    simpa [Rlgr.outputBitLoop] using h
  | succ rounds ih =>
    rw [Rlgr.outputBitLoop]
    by_cases hpos : 0 < c
    · rw [if_pos hpos]
      generalize hm : (if c > 16 then 16 else c) = m
      have hm16 : m ≤ 16 ∧ m ≤ c ∧ c - 16 = c - m := by split_ifs at hm <;> omega
      have hput := h.putBits (if bit then 0xFFFF else 0) hm16.1
      have hnext := ih hput (show c - 16 ≤ rounds by omega)
      rw [bitsOf_pattern bit hm16.1, List.append_assoc, List.replicate_append_replicate,
        hm16.2.2, Nat.add_sub_cancel' hm16.2.1] at hnext
      rw [hm16.2.2]
      exact hnext
    · obtain rfl : c = 0 := by omega
      simpa using h

theorem Wrote.outputBit (h : bs.Wrote n l) (count : ℕ) (bit : Bool) :
    (outputBit bs count bit).Wrote n (l ++ List.replicate count bit) :=
  Wrote.outputBitLoop bit count h le_rfl

theorem Wrote.outputOne (h : bs.Wrote n l) (bit : Bool) :
    (Rlgr.outputBit bs 1 bit).Wrote n (l ++ [bit]) := Wrote.outputBit h 1 bit

theorem Wrote.outputBits (h : bs.Wrote n l) {numBits : ℕ} (bitPattern : ℕ) (hn : numBits ≤ 16) :
    (outputBits bs numBits bitPattern).Wrote n (l ++ bitsOf numBits bitPattern) :=
  h.putBits bitPattern hn

/-- The Golomb-Rice code of `val` with parameter `kr`. -/
def grBits (kr val : ℕ) : List Bool :=
  List.replicate (val >>> kr) true ++ false :: bitsOf kr val

/-- `rfx_rlgr_code_gr` appends a Golomb-Rice code. -/
theorem Wrote.codeGr (h : bs.Wrote n l) {krp : ℕ} (val : ℕ) (hkr : krp >>> LSGR ≤ 16) :
    (rfxRlgrCodeGr bs krp val).1.Wrote n (l ++ grBits (krp >>> LSGR) val) := by
  unfold rfxRlgrCodeGr grBits
  generalize krp >>> LSGR = kr at *
  have hunary := Wrote.outputOne (Wrote.outputBit h (val >>> kr) true) false
  rw [List.append_assoc] at hunary
  dsimp only
  split_ifs with hkr0
  · have hput := Wrote.outputBits hunary (val % 2 ^ kr) hkr
    rw [bitsOf_mod le_rfl, List.append_assoc, List.append_assoc] at hput
    rw [Nat.one_shiftLeft, Nat.and_two_pow_sub_one_eq_mod]
    exact hput
  · obtain rfl : kr = 0 := by simpa using hkr0
    exact hunary

end Outputs

end FreeRDP.Rlgr
