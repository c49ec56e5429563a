import FreeRDP.Zgfx.Accesses
import Mathlib.Tactic.Ring

/-!
# Reading with a record of the accesses

The recorded functions have the values of the functions without a record
(`value_zgfxDecompressSegmentTraced`).  A reader has bits `left`; what it reads uses them up (`Reads`),
and when none are left it reads zeros, so that every loop over its bits ends.
-/

namespace FreeRDP.Zgfx

open Traced Iterate

/-! ### The bits that are left -/

/-- The cached bits are less than a byte. -/
structure Reader.Cached (r : Reader) : Prop where
  bitsCurrent : r.bitsCurrent < 2 ^ r.cBitsCurrent
  lt : r.cBitsCurrent < 8

/-- Only zeros will be read. -/
def Reader.Exhausted (r : Reader) : Prop := r.bitsCurrent = 0 ∧ r.inputEnd ≤ r.current

instance (r : Reader) : Decidable r.Exhausted := inferInstanceAs (Decidable (_ ∧ _))

/-- The number of bits before the zeros. -/
def Reader.left (r : Reader) : ℕ :=
  if r.Exhausted then 0 else r.cBitsCurrent + 8 * (r.inputEnd - r.current)

/-- What `n` bits that are read change. -/
structure Reader.Reads (n : ℕ) (r r' : Reader) : Prop where
  input : r'.input = r.input
  inputEnd : r'.inputEnd = r.inputEnd
  current : r'.current ≤ max r.current r.inputEnd
  cached : r'.Cached
  left : r'.left ≤ r.left - n

variable {r r' r'' : Reader} {n m : ℕ}

theorem Reader.Reads.refl (h : r.Cached) : r.Reads 0 r :=
  ⟨rfl, rfl, Nat.le_max_left _ _, h, Nat.le_refl _⟩

theorem Reader.Reads.trans (h : r.Reads n r') (h' : r'.Reads m r'') : r.Reads (n + m) r'' := by
  have hcurrent := h'.current
  have hcurrent' := h.current
  have hleft := h'.left
  have hleft' := h.left
  rw [h.inputEnd] at hcurrent
  exact ⟨h'.input.trans h.input, h'.inputEnd.trans h.inputEnd, by omega, h'.cached, by omega⟩

theorem Reader.Reads.weaken (h : r.Reads n r') (hm : m ≤ n) : r.Reads m r' :=
  ⟨h.input, h.inputEnd, h.current, h.cached, h.left.trans (by omega)⟩

theorem Reader.Cached.exhausted (h : r.Cached) (hleft : r.left = 0) : r.Exhausted := by
  unfold Reader.left at hleft
  split_ifs at hleft with hex
  · exact hex
  · have hbits := h.bitsCurrent
    rw [show r.cBitsCurrent = 0 by omega, pow_zero] at hbits
    exact ⟨by omega, by omega⟩

theorem Reader.left_le (h : r.Cached) : r.left ≤ 8 * (r.inputEnd - r.current) + 7 := by
  have hlt := h.lt
  unfold Reader.left
  split_ifs <;> omega

/-! ### Bytes -/

theorem Reader.loadBytes_input (r : Reader) (k : ℕ) : (r.loadBytes k).input = r.input := by
  induction k generalizing r with
  | zero => rfl
  | succ k ih => rw [Reader.loadBytes, ih, Reader.loadByte]

theorem Reader.loadBytes_inputEnd (r : Reader) (k : ℕ) :
    (r.loadBytes k).inputEnd = r.inputEnd := by
  induction k generalizing r with
  | zero => rfl
  | succ k ih => rw [Reader.loadBytes, ih, Reader.loadByte]

theorem Reader.loadBytes_cBitsCurrent {k : ℕ} (h : r.cBitsCurrent + 8 * k < 2 ^ 32) :
    (r.loadBytes k).cBitsCurrent = r.cBitsCurrent + 8 * k := by
  induction k generalizing r with
  | zero => rfl
  | succ k ih =>
    have hload : r.loadByte.cBitsCurrent = r.cBitsCurrent + 8 := Nat.mod_eq_of_lt (by omega)
    rw [Reader.loadBytes, ih (by omega), hload]
    omega

theorem Reader.loadByte_current (r : Reader) :
    r.loadByte.current = if r.current < r.inputEnd then r.current + 1 else r.current := rfl

theorem Reader.loadBytes_current (r : Reader) (k : ℕ) :
    (r.loadBytes k).current = if r.current < r.inputEnd then min (r.current + k) r.inputEnd
      else r.current := by
  induction k generalizing r with
  | zero =>
    show r.current = _
    split_ifs <;> omega
  | succ k ih =>
    have hend : r.loadByte.inputEnd = r.inputEnd := rfl
    rw [Reader.loadBytes, ih, hend, Reader.loadByte_current]
    split_ifs <;> omega

theorem Reader.loadBytes_zero (r : Reader) {k : ℕ} (hk : 1 ≤ k) (hend : r.inputEnd < r.current + k) :
    (r.loadBytes k).bitsCurrent % 2 ^ 8 = 0 := by
  induction k generalizing r with
  | zero => omega
  | succ k ih =>
    rw [Reader.loadBytes]
    rcases Nat.eq_zero_or_pos k with rfl | hpos
    · show ((r.bitsCurrent <<< 8) % 2 ^ 32 + (if r.current < r.inputEnd then _ else 0)) % 2 ^ 32 %
        2 ^ 8 = 0
      rw [if_neg (by omega), Nat.shiftLeft_eq]
      omega
    · refine ih r.loadByte hpos ?_
      show r.inputEnd < r.loadByte.current + k
      rw [Reader.loadByte_current]
      split_ifs <;> omega

theorem Reader.Exhausted.loadByte (h : r.Exhausted) : r.loadByte.Exhausted := by
  obtain ⟨hbits, hend⟩ := h
  constructor
  · show ((r.bitsCurrent <<< 8) % 2 ^ 32 + (if r.current < r.inputEnd then _ else 0)) % 2 ^ 32 = 0
    rw [hbits, if_neg (by omega), Nat.zero_shiftLeft, Nat.zero_mod, Nat.zero_add, Nat.zero_mod]
  · show r.inputEnd ≤ r.loadByte.current
    rw [Reader.loadByte_current, if_neg (by omega)]
    exact hend

theorem Reader.Exhausted.loadBytes (h : r.Exhausted) (k : ℕ) : (r.loadBytes k).Exhausted := by
  induction k generalizing r with
  | zero => exact h
  | succ k ih => exact ih h.loadByte

/-! ### Bits -/

theorem Reader.getBits_bitsCurrent (r : Reader) (n : ℕ) :
    (r.getBits n).bitsCurrent = (r.loadBytes ((n - r.cBitsCurrent + 7) / 8)).bitsCurrent %
      2 ^ (r.getBits n).cBitsCurrent := by
  show _ &&& ((1 <<< _) - 1) = _
  rw [Nat.one_shiftLeft, Nat.and_two_pow_sub_one_eq_mod]
  rfl

/-- The loop for a few bits ends. -/
theorem Reader.Cached.not_endless (h : r.Cached) (hn : n ≤ 24) : ¬ r.Endless n := by
  have hlt := h.lt
  unfold Reader.Endless
  omega

theorem Reader.getBits_cBitsCurrent (h : ¬ r.Endless n) :
    (r.getBits n).cBitsCurrent = r.cBitsCurrent + 8 * ((n - r.cBitsCurrent + 7) / 8) - n := by
  rw [← Reader.loadBytes_cBitsCurrent (not_le.mp h)]
  rfl

theorem Reader.getBits_current (r : Reader) (n : ℕ) :
    (r.getBits n).current = if r.current < r.inputEnd then
      min (r.current + (n - r.cBitsCurrent + 7) / 8) r.inputEnd else r.current := by
  rw [← Reader.loadBytes_current]
  rfl

theorem Reader.getBits_input (r : Reader) (n : ℕ) : (r.getBits n).input = r.input :=
  Reader.loadBytes_input r _

theorem Reader.getBits_inputEnd (r : Reader) (n : ℕ) : (r.getBits n).inputEnd = r.inputEnd :=
  Reader.loadBytes_inputEnd r _

/-- Past the end zeros are read. -/
theorem Reader.Exhausted.getBits (h : r.Exhausted) (n : ℕ) :
    (r.getBits n).Exhausted ∧ (r.getBits n).bits = 0 := by
  obtain ⟨hbits, hend⟩ := h.loadBytes ((n - r.cBitsCurrent + 7) / 8)
  refine ⟨⟨?_, hend⟩, ?_⟩
  · rw [Reader.getBits_bitsCurrent, hbits, Nat.zero_mod]
  · show _ >>> _ = 0
    rw [hbits, Nat.zero_shiftRight]

/-- Bits beyond the last ones exhaust the reader. -/
theorem Reader.Cached.getBits_exhausted (h : r.Cached) (hends : ¬ r.Endless n)
    (hn : r.cBitsCurrent + 8 * (r.inputEnd - r.current) < n) : (r.getBits n).Exhausted := by
  have hlt := h.lt
  have hcached : (r.getBits n).cBitsCurrent ≤ 8 := by
    rw [Reader.getBits_cBitsCurrent hends]
    omega
  have hzero := r.loadBytes_zero (k := (n - r.cBitsCurrent + 7) / 8) (by omega) (by omega)
  constructor
  · rw [Reader.getBits_bitsCurrent]
    exact Nat.mod_eq_zero_of_dvd
      ((Nat.pow_dvd_pow 2 hcached).trans (Nat.dvd_of_mod_eq_zero hzero))
  · rw [Reader.getBits_inputEnd, Reader.getBits_current]
    split_ifs <;> omega

/-- `zgfx_GetBits` uses up the bits that it reads. -/
theorem Reader.Cached.getBits (h : r.Cached) (hends : ¬ r.Endless n) : r.Reads n (r.getBits n) := by
  have hlt := h.lt
  have hcBits := Reader.getBits_cBitsCurrent hends
  have hcurrent := r.getBits_current n
  refine ⟨r.getBits_input n, r.getBits_inputEnd n, ?_, ⟨?_, ?_⟩, ?_⟩
  · rw [hcurrent]
    split_ifs <;> omega
  · rw [Reader.getBits_bitsCurrent]
    exact Nat.mod_lt _ (Nat.two_pow_pos _)
  · omega
  · by_cases hbeyond : r.cBitsCurrent + 8 * (r.inputEnd - r.current) < n
    · rw [Reader.left, if_pos (h.getBits_exhausted hends hbeyond)]
      exact Nat.zero_le _
    · by_cases hex : r.Exhausted
      · rw [Reader.left, if_pos (hex.getBits n).1]
        exact Nat.zero_le _
      · have hleft : r.left = r.cBitsCurrent + 8 * (r.inputEnd - r.current) := if_neg hex
        rw [hleft, Reader.left, Reader.getBits_inputEnd, hcBits, hcurrent]
        split_ifs <;> omega

theorem Reader.Cached.getBit (h : r.Cached) : r.Reads 1 (r.getBits 1) :=
  h.getBits (h.not_endless (by decide))

/-! ### Tokens and match lengths -/

theorem Reader.Cached.readPrefix (h : r.Cached) (n inPrefix : ℕ) :
    r.Reads n (r.readPrefix n inPrefix).1 := by
  induction n generalizing r inPrefix with
  | zero => exact .refl h
  | succ n ih =>
    have hbit := h.getBit
    have hrest := ih hbit.cached ((inPrefix <<< 1) + (r.getBits 1).bits)
    exact (hbit.trans hrest).weaken (Nat.add_comm n 1).le

/-- The bits of the first prefix are read in any case. -/
theorem Reader.Cached.findToken (h : r.Cached) (rows : List TokenRow) (haveBits inPrefix : ℕ) :
    r.Reads ((rows.head?.map TokenRow.prefixLength).getD 0 - haveBits)
      (r.findToken rows haveBits inPrefix).1 := by
  induction rows generalizing r haveBits inPrefix with
  | nil =>
    rw [List.head?_nil, Option.map_none, Option.getD_none, Nat.zero_sub]
    exact .refl h
  | cons row rows ih =>
    have hread := h.readPrefix (row.prefixLength - haveBits) inPrefix
    rw [List.head?_cons, Option.map_some, Option.getD_some, Reader.findToken]
    split_ifs
    · exact hread
    · exact (hread.trans (ih hread.cached _ _)).weaken (Nat.le_add_right _ _)

theorem Reader.findToken_mem {rows : List TokenRow} {haveBits inPrefix : ℕ} {row : TokenRow}
    (h : (r.findToken rows haveBits inPrefix).2 = some row) : row ∈ rows := by
  induction rows generalizing r haveBits inPrefix with
  | nil => exact nomatch h
  | cons first rows ih =>
    rw [Reader.findToken] at h
    split_ifs at h
    · exact List.mem_cons.mpr (.inl (Option.some.inj h).symm)
    · exact List.mem_cons_of_mem first (ih h)

theorem Reader.Cached.findToken_table (h : r.Cached) :
    r.Reads 1 (r.findToken ZGFX_TOKEN_TABLE 0 0).1 := h.findToken ZGFX_TOKEN_TABLE 0 0

/-- The zeros that are read past the end are the first row of the table. -/
theorem Reader.Exhausted.findToken (h : r.Exhausted) :
    r.findToken ZGFX_TOKEN_TABLE 0 0 = (r.getBits 1, some ⟨1, 0, 8, 0, 0⟩) := by
  obtain ⟨rows, hrows⟩ : ∃ rows, ZGFX_TOKEN_TABLE = ⟨1, 0, 8, 0, 0⟩ :: rows := ⟨_, rfl⟩
  have hread : r.readPrefix (1 - 0) 0 = (r.getBits 1, 0) := by
    show (r.getBits 1, 0 <<< 1 + (r.getBits 1).bits) = _
    rw [(h.getBits 1).2, Nat.zero_shiftLeft]
  rw [hrows, Reader.findToken]
  dsimp only
  rw [hread, if_pos rfl]

/-- The loop for the unary part of a match length ends. -/
theorem Reader.Cached.countLoop (h : r.Cached) {rounds : ℕ} (hrounds : r.left + 2 ≤ rounds)
    (count extra : ℕ) :
    ∃ r' count' extra', r.countLoop rounds count extra = some (r', count', extra') ∧
      r.Reads 0 r' := by
  induction rounds generalizing r count extra with
  | zero => omega
  | succ rounds ih =>
    rw [Reader.countLoop]
    split_ifs with hone
    · have hread := h.getBit
      by_cases hleft : r.left = 0
      · -- the next bit is a zero
        have hbit := ((h.exhausted hleft).getBits 1).2
        obtain ⟨rounds, rfl⟩ : ∃ k, rounds = k + 1 := ⟨rounds - 1, by omega⟩
        refine ⟨r.getBits 1, count * 2 % 2 ^ 32, (extra + 1) % 2 ^ 32, ?_, hread.weaken (Nat.zero_le 1)⟩
        rw [Reader.countLoop, if_neg (by omega)]
      · have hless := hread.left
        obtain ⟨r', count', extra', hloop, hreads⟩ := ih hread.cached (by omega)
          (count * 2 % 2 ^ 32) ((extra + 1) % 2 ^ 32)
        exact ⟨r', count', extra', hloop, (hread.trans hreads).weaken (Nat.zero_le _)⟩
    · exact ⟨r, count, extra, rfl, .refl h⟩

theorem Reader.Cached.readUnary (h : r.Cached) :
    ∃ r' count extra, r.readUnary = some (r', count, extra) ∧ r.Reads 0 r' := by
  have hfirst := h.getBit
  have hleft := Reader.left_le hfirst.cached
  obtain ⟨r', count, extra, hloop, hreads⟩ := hfirst.cached.countLoop
    (show _ ≤ 8 * ((r.getBits 1).inputEnd - (r.getBits 1).current) + 9 by omega) 4 2
  exact ⟨r', count, extra, hloop, (hfirst.trans hreads).weaken (Nat.zero_le _)⟩

/-- The bits that the unary part of a match length announces are read to the end. -/
def Reader.LengthEnds (r : Reader) : Prop :=
  (r.getBits 1).bits ≠ 0 → ∀ reader count extra, (r.getBits 1).readUnary = some (reader, count, extra) →
    ¬ reader.Endless extra

theorem Reader.Cached.readCount (h : r.Cached) (hends : r.LengthEnds) :
    ∃ r' count, r.readCount = some (r', count) ∧ r.Reads 0 r' := by
  have hfirst := h.getBit
  rw [Reader.readCount]
  by_cases hzero : (r.getBits 1).bits = 0
  · exact ⟨r.getBits 1, 3, if_pos hzero, hfirst.weaken (Nat.zero_le 1)⟩
  · obtain ⟨r', count, extra, hunary, hreads⟩ := hfirst.cached.readUnary
    have hextra := hends hzero r' count extra hunary
    have hlast := hreads.cached.getBits hextra
    refine ⟨r'.getBits extra, (count + (r'.getBits extra).bits) % 2 ^ 32, ?_,
      ((hfirst.trans hreads).trans hlast).weaken (Nat.zero_le _)⟩
    rw [if_neg hzero, hunary]
    exact if_neg hextra

theorem Reader.readCount_endless (h : ¬ r.LengthEnds) : r.readCount = none := by
  unfold Reader.LengthEnds at h
  push Not at h
  obtain ⟨hone, reader, count, extra, hunary, hextra⟩ := h
  rw [Reader.readCount, if_neg hone, hunary]
  exact if_pos hextra

/-! ### Values -/

@[simp] theorem value_loadBytesTraced (r : Reader) (n : ℕ) :
    (r.loadBytesTraced n).value = r.loadBytes n := by
  induction n generalizing r with
  | zero => rfl
  | succ n ih => exact ih r.loadByte

@[simp] theorem value_getBitsTraced (r : Reader) (n : ℕ) :
    (r.getBitsTraced n).value = r.getBits n := rfl

@[simp] theorem value_readPrefixTraced (r : Reader) (n inPrefix : ℕ) :
    (r.readPrefixTraced n inPrefix).value = r.readPrefix n inPrefix := by
  induction n generalizing r inPrefix with
  | zero => rfl
  | succ n ih => exact ih (r.getBits 1) _

@[simp] theorem value_findTokenTraced (r : Reader) (rows : List TokenRow) (haveBits inPrefix : ℕ) :
    (r.findTokenTraced rows haveBits inPrefix).value = r.findToken rows haveBits inPrefix := by
  induction rows generalizing r haveBits inPrefix with
  | nil => rfl
  | cons row rows ih =>
    rw [Reader.findTokenTraced, Reader.findToken, value_bind, value_readPrefixTraced, value_ite,
      ih, value_pure]

@[simp] theorem value_countLoopTraced (r : Reader) (rounds count extra : ℕ) :
    (r.countLoopTraced rounds count extra).value = r.countLoop rounds count extra := by
  induction rounds generalizing r count extra with
  | zero => rfl
  | succ rounds ih =>
    rw [Reader.countLoopTraced, Reader.countLoop, value_ite, value_bind, ih, value_getBitsTraced,
      value_pure]

@[simp] theorem value_readUnaryTraced (r : Reader) : r.readUnaryTraced.value = r.readUnary :=
  value_countLoopTraced _ _ 4 2

@[simp] theorem value_readCountTraced (r : Reader) : r.readCountTraced.value = r.readCount := by
  rw [Reader.readCountTraced, Reader.readCount, value_bind, value_getBitsTraced, value_ite, value_bind,
    value_readUnaryTraced]
  dsimp only
  cases (r.getBits 1).readUnary with
  | none => rfl
  | some result => rfl

@[simp] theorem value_readMatchTraced (d : Decoder) (distance : ℕ) :
    (d.readMatchTraced distance).value = d.readMatch distance := by
  unfold Decoder.readMatchTraced Decoder.readMatch
  split_ifs
  · rw [value_bind, value_readCountTraced]
    cases d.reader.readCount with
    | none => rfl
    | some result => rfl
  · rfl

@[simp] theorem value_decompressStepTraced (d : Decoder) :
    (decompressStepTraced d).value = decompressStep d := by
  unfold decompressStepTraced decompressStep
  split_ifs
  · rfl
  · rw [value_bind, value_findTokenTraced]
    generalize d.reader.findToken ZGFX_TOKEN_TABLE 0 0 = found
    obtain ⟨reader, token⟩ := found
    cases token with
    | none => rfl
    | some row =>
      dsimp only
      rw [value_bind, value_getBitsTraced, value_ite, value_readMatchTraced]
      rfl

theorem value_decompressLoopTraced (rounds : ℕ) (d : Decoder) (stream : List UInt8) :
    (decompressLoopTraced rounds d stream).value =
      match iterate decompressStep rounds d with
      | none => .error .rounds
      | some (.error stop) => .error stop
      | some (.ok (ok, d)) =>
        .ok { ok := ok, zgfx := d.zgfx, output := d.output, stream := stream } := by
  have hstep : (fun d => (decompressStepTraced d).value) = decompressStep := by
    funext d
    exact value_decompressStepTraced d
  rw [decompressLoopTraced, value_bind, value_loop, hstep]
  generalize iterate decompressStep rounds d = result
  match result with
  | none => rfl
  | some (.error stop) => rfl
  | some (.ok (ok, d)) => rfl

@[simp] theorem value_startReaderTraced (flags : UInt8) (pbSegment : List UInt8) (cbSegment : ℕ) :
    (startReaderTraced flags pbSegment cbSegment).value = startReader flags pbSegment cbSegment := rfl

theorem value_decompressSegmentDataTraced (zgfx : Context) (flags : UInt8) (pbSegment : List UInt8)
    (cbSegment : ℕ) :
    (decompressSegmentDataTraced zgfx flags pbSegment cbSegment).value =
      decompressSegmentData zgfx flags pbSegment cbSegment := by
  by_cases hraw : flags.toNat &&& PACKET_COMPRESSED = 0
  · rw [decompressSegmentDataTraced, if_pos hraw, value_bind, value_pure]
  · rw [decompressSegmentDataTraced, if_neg hraw, value_bind, value_decompressLoopTraced,
      value_startReaderTraced, decompressSegmentData, if_neg hraw]
    all_goals
      generalize iterate decompressStep _ _ = result
      cases result with
      | none => rfl
      | some r =>
        cases r with
        | error stop => rfl
        | ok r => rfl

theorem value_zgfxDecompressSegmentTraced (zgfx : Context) (stream : List UInt8)
    (segmentSize : ℕ) :
    (zgfxDecompressSegmentTraced zgfx stream segmentSize).value =
      zgfxDecompressSegment zgfx stream segmentSize := by
  unfold zgfxDecompressSegmentTraced zgfxDecompressSegment
  split_ifs
  · rfl
  · rw [value_bind, value_decompressSegmentDataTraced]

end FreeRDP.Zgfx
