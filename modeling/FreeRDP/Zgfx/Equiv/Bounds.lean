import FreeRDP.Zgfx.Equiv.Accesses

/-!
# The ZGFX decoder stays in bounds, but for long unencoded runs

All accesses of `zgfx_decompress_segment` are in bounds, with one exception: the length of an unencoded
run is compared with the room in the output buffer, and not with what is left of the segment.  And a call
ends, with one exception: a match length whose unary part has almost `2 ^ 32` ones asks for more bits than
`cBitsCurrent` can count.  `zgfxDecompressSegment_bounded_iff` says that a call ends and stays in bounds if
and only if the runs that it meets lie in the segment and the lengths end.
-/

namespace FreeRDP.Zgfx

open Traced Iterate

/-! ### Unencoded runs and match lengths -/

/-- The reader behind the length of the unencoded run that the next round meets, if it meets one; the
length is in `bits`. -/
def Decoder.nextRun (d : Decoder) : Option Reader :=
  if d.reader.cBitsRemaining = 0 then none
  else
    match d.reader.findToken ZGFX_TOKEN_TABLE 0 0 with
    | (_, none) => none
    | (reader, some row) =>
      let reader := reader.getBits row.valueBits
      if row.tokenType ≠ 0 ∧ row.valueBase + reader.bits = 0 then some (reader.getBits 15) else none

/-- The bytes of a run that there is room for lie in the segment. -/
def Decoder.RunFits (cbSegment : ℕ) (d : Decoder) : Prop :=
  ∀ reader, d.nextRun = some reader → reader.bits ≤ outputBufferSize - d.output.length →
    reader.current + reader.bits ≤ cbSegment

/-- The reader at the length of the match that the next round meets, if it meets one. -/
def Decoder.nextLength (d : Decoder) : Option Reader :=
  if d.reader.cBitsRemaining = 0 then none
  else
    match d.reader.findToken ZGFX_TOKEN_TABLE 0 0 with
    | (_, none) => none
    | (reader, some row) =>
      let reader := reader.getBits row.valueBits
      if row.tokenType ≠ 0 ∧ row.valueBase + reader.bits ≠ 0 then some reader else none

/-- The length of the match is read to its end. -/
def Decoder.LengthEnds (d : Decoder) : Prop := ∀ reader, d.nextLength = some reader → reader.LengthEnds

/-- The runs of compressed data lie in the segment, and the lengths of its matches are read to their ends. -/
def RunsFit (zgfx : Context) (flags : UInt8) (pbSegment : List UInt8) (cbSegment : ℕ) : Prop :=
  flags.toNat &&& PACKET_COMPRESSED ≠ 0 →
    ∀ d, Visits decompressStepTraced ⟨startReader flags pbSegment cbSegment, zgfx, []⟩ d →
      d.RunFits cbSegment ∧ d.LengthEnds

/-- The first check of `zgfx_decompress_segment`. -/
def Accepted (stream : List UInt8) (segmentSize : ℕ) : Prop :=
  ¬ (stream.length < segmentSize ∨ segmentSize < 1 ∨ segmentSize > 2 ^ 32 - 1)

/-- A call returns, reads inside the segment and writes inside `OutputBuffer`. -/
def Bounded (zgfx : Context) (stream : List UInt8) (segmentSize : ℕ) : Prop :=
  (∃ r, (zgfxDecompressSegmentTraced zgfx stream segmentSize).value = .ok r) ∧
    (zgfxDecompressSegmentTraced zgfx stream segmentSize).Safe (Access.InBounds segmentSize)

variable {r : Reader} {d : Decoder} {cbSegment : ℕ}

/-! ### Ranges -/

theorem forall_loads {start n : ℕ} :
    (∀ a ∈ loads start n, a.InBounds (cbSegment + 1)) ↔ n = 0 ∨ start + n ≤ cbSegment := by
  simp only [loads, List.forall_mem_map, List.mem_range, Access.InBounds]
  constructor
  · intro h
    by_cases hn : n = 0
    · exact .inl hn
    · have := h (n - 1) (by omega)
      omega
  · intro h i hi
    omega

theorem forall_stores {start n segmentSize : ℕ} :
    (∀ a ∈ stores start n, a.InBounds segmentSize) ↔ n = 0 ∨ start + n ≤ outputBufferSize := by
  simp only [stores, List.forall_mem_map, List.mem_range, Access.InBounds]
  constructor
  · intro h
    by_cases hn : n = 0
    · exact .inl hn
    · have := h (n - 1) (by omega)
      omega
  · intro h i hi
    omega

/-! ### Reading -/

theorem Reader.safe_loadBytesTraced (hend : r.inputEnd ≤ cbSegment) (n : ℕ) :
    (r.loadBytesTraced n).Safe (Access.InBounds (cbSegment + 1)) := by
  induction n generalizing r with
  | zero => exact (safe_pure r).mpr trivial
  | succ n ih =>
    refine (safe_bind _ _).mpr ⟨?_, ih hend⟩
    intro a ha
    simp only [Reader.loadByteTraced] at ha
    split_ifs at ha with hlt
    · obtain rfl := List.mem_singleton.mp ha
      show r.current + 1 < cbSegment + 1
      omega
    · exact nomatch ha

theorem Reader.safe_getBitsTraced (hend : r.inputEnd ≤ cbSegment) (n : ℕ) :
    (r.getBitsTraced n).Safe (Access.InBounds (cbSegment + 1)) :=
  (safe_bind _ _).mpr ⟨r.safe_loadBytesTraced hend _, (safe_pure _).mpr trivial⟩

theorem Reader.safe_readPrefixTraced (hend : r.inputEnd ≤ cbSegment) (n inPrefix : ℕ) :
    (r.readPrefixTraced n inPrefix).Safe (Access.InBounds (cbSegment + 1)) := by
  induction n generalizing r inPrefix with
  | zero => exact (safe_pure _).mpr trivial
  | succ n ih =>
    refine (safe_bind _ _).mpr ⟨r.safe_getBitsTraced hend 1, ih ?_ _⟩
    rw [value_getBitsTraced, r.getBits_inputEnd]
    exact hend

theorem Reader.Cached.safe_findTokenTraced (h : r.Cached) (hend : r.inputEnd ≤ cbSegment)
    (rows : List TokenRow) (haveBits inPrefix : ℕ) :
    (r.findTokenTraced rows haveBits inPrefix).Safe (Access.InBounds (cbSegment + 1)) := by
  induction rows generalizing r haveBits inPrefix with
  | nil => exact (safe_pure _).mpr trivial
  | cons row rows ih =>
    have hread := h.readPrefix (row.prefixLength - haveBits) inPrefix
    rw [Reader.findTokenTraced, safe_bind, value_readPrefixTraced, safe_ite]
    refine ⟨r.safe_readPrefixTraced hend _ _, fun _ => (safe_pure _).mpr trivial, fun _ => ?_⟩
    exact ih hread.cached (by rw [hread.inputEnd]; exact hend) _ _

theorem Reader.safe_countLoopTraced (hend : r.inputEnd ≤ cbSegment) (rounds count extra : ℕ) :
    (r.countLoopTraced rounds count extra).Safe (Access.InBounds (cbSegment + 1)) := by
  induction rounds generalizing r count extra with
  | zero => exact (safe_pure _).mpr trivial
  | succ rounds ih =>
    rw [Reader.countLoopTraced, safe_ite, safe_bind, value_getBitsTraced]
    refine ⟨fun _ => ⟨r.safe_getBitsTraced hend 1, ih ?_ _ _⟩, fun _ => (safe_pure _).mpr trivial⟩
    rw [r.getBits_inputEnd]
    exact hend

theorem Reader.Cached.safe_readCountTraced (h : r.Cached) (hend : r.inputEnd ≤ cbSegment) :
    r.readCountTraced.Safe (Access.InBounds (cbSegment + 1)) := by
  have hfirst := h.getBit
  have hend' : (r.getBits 1).inputEnd ≤ cbSegment := by
    rw [hfirst.inputEnd]
    exact hend
  have hunaryTraced : (r.getBits 1).readUnaryTraced.Safe (Access.InBounds (cbSegment + 1)) := by
    refine (safe_bind _ _).mpr ⟨Reader.safe_getBitsTraced hend' 1, Reader.safe_countLoopTraced ?_ _ 4 2⟩
    rw [value_getBitsTraced, Reader.getBits_inputEnd]
    exact hend'
  obtain ⟨r', count, extra, hunary, hreads⟩ := hfirst.cached.readUnary
  rw [Reader.readCountTraced, safe_bind, value_getBitsTraced, safe_ite]
  refine ⟨r.safe_getBitsTraced hend 1, fun _ => (safe_pure _).mpr trivial, fun _ => ?_⟩
  rw [safe_bind, value_readUnaryTraced, hunary]
  refine ⟨hunaryTraced, (safe_bind _ _).mpr ⟨r'.safe_getBitsTraced ?_ extra, (safe_pure _).mpr trivial⟩⟩
  rw [hreads.inputEnd]
  exact hend'

/-! ### Output -/

theorem length_slice (buffer : ℕ → UInt8) (start n : ℕ) : (slice buffer start n).length = n := by
  simp [slice]

theorem length_repeatCopy {rounds left : ℕ} {dst : List UInt8} (hdst : 1 ≤ dst.length)
    (hleft : left ≤ rounds) : (repeatCopy rounds left dst).length = dst.length + left := by
  induction rounds generalizing left dst with
  | zero =>
    obtain rfl := Nat.le_zero.mp hleft
    rfl
  | succ rounds ih =>
    rw [repeatCopy]
    split_ifs with hzero
    · rw [hzero, Nat.add_zero]
    · rw [ih (by rw [List.length_append]; omega) (by omega), List.length_append, List.length_take]
      omega

/-- A match of any distance yields as many bytes as it is asked for. -/
theorem length_ringRead (zgfx : Context) {offset : ℕ} (hoffset : 1 ≤ offset) (count : ℕ) :
    (ringRead zgfx offset count).length = count := by
  unfold ringRead
  generalize hindex : (zgfx.historyIndex + historyBufferSize + 2 ^ 32 - offset) % 2 ^ 32 %
    historyBufferSize = index
  have hlt : index < historyBufferSize := by
    rw [← hindex]
    exact Nat.mod_lt _ historyBufferSize_pos
  have hblock : (if index + min count offset ≤ historyBufferSize then
      slice zgfx.historyBuffer index (min count offset)
      else slice zgfx.historyBuffer index (historyBufferSize - index) ++
        slice zgfx.historyBuffer 0 (min count offset - (historyBufferSize - index))).length =
      min count offset := by
    split_ifs
    · exact length_slice _ _ _
    · rw [List.length_append, length_slice, length_slice]
      omega
  rcases Nat.eq_zero_or_pos count with rfl | hpos
  · exact hblock.trans (Nat.zero_min offset)
  · rw [length_repeatCopy (by rw [hblock]; omega) (by omega), hblock]
    omega

/-! ### One round -/

/-- The decoder has not left the segment or the output buffer. -/
structure Decoder.Within (cbSegment : ℕ) (d : Decoder) : Prop where
  cached : d.reader.Cached
  inputEnd : d.reader.inputEnd = cbSegment - 1
  current : d.reader.current ≤ cbSegment
  input : cbSegment ≤ d.reader.input.length
  output : d.output.length ≤ outputBufferSize

/-- What is left to read and to write. -/
def Decoder.rest (d : Decoder) : ℕ := d.reader.left + (outputBufferSize - d.output.length)

/-- A round goes on within the bounds, with `n` bits less to read or to write, or returns. -/
def Decoder.GoesOn (cbSegment n : ℕ) (d : Decoder) : Decoder ⊕ Except Stop (Bool × Decoder) → Prop
  | .inl d' => d'.Within cbSegment ∧ d'.rest + n ≤ d.rest
  | .inr r => ∃ result, r = .ok result

/-- Reading does not leave the bounds. -/
theorem Decoder.Within.reads (h : d.Within cbSegment) {n : ℕ} {reader : Reader}
    (hreads : d.reader.Reads n reader) : ({ d with reader := reader } : Decoder).Within cbSegment := by
  have hcurrent := hreads.current
  have hend := h.inputEnd
  have hle := h.current
  refine ⟨hreads.cached, ?_, ?_, ?_, h.output⟩
  · dsimp only
    rw [hreads.inputEnd, hend]
  · dsimp only
    omega
  · dsimp only
    rw [hreads.input]
    exact h.input

theorem Decoder.Within.inputEnd_le (h : d.Within cbSegment) : d.reader.inputEnd ≤ cbSegment := by
  rw [h.inputEnd]
  exact Nat.sub_le _ _

theorem Decoder.Within.putLiteral (h : d.Within cbSegment) (c : UInt8) :
    (d.putLiteralTraced c).Safe (Access.InBounds (cbSegment + 1)) ∧
      d.GoesOn cbSegment 1 (d.putLiteral c) := by
  have hout := h.output
  rw [Decoder.putLiteralTraced, safe_bind, safe_accesses, Decoder.putLiteral]
  dsimp only
  by_cases hfull : outputBufferSize ≤ d.output.length
  · rw [if_pos hfull, if_pos hfull]
    exact ⟨⟨nofun, (safe_pure _).mpr trivial⟩, _, rfl⟩
  · rw [if_neg hfull, if_neg hfull]
    have hlen : (d.output ++ [c]).length = d.output.length + 1 := by simp
    refine ⟨⟨forall_stores.mpr (.inr (by omega)), (safe_pure _).mpr trivial⟩, ?_, ?_⟩
    · refine ⟨h.cached, h.inputEnd, h.current, h.input, ?_⟩
      dsimp only
      omega
    · simp only [Decoder.rest, hlen]
      omega

theorem Decoder.Within.putMatch (h : d.Within cbSegment) {distance : ℕ} (hd : distance ≠ 0)
    (count : ℕ) :
    (d.putMatchTraced distance count).Safe (Access.InBounds (cbSegment + 1)) ∧
      d.GoesOn cbSegment 0 (d.putMatch distance count) := by
  have hout := h.output
  rw [Decoder.putMatchTraced, safe_bind, safe_accesses, Decoder.putMatch]
  by_cases hroom : outputBufferSize - d.output.length < count
  · rw [if_pos hroom, if_pos hroom]
    exact ⟨⟨nofun, (safe_pure _).mpr trivial⟩, _, rfl⟩
  · rw [if_neg hroom, if_neg hroom]
    have hlen : (d.output ++ ringRead d.zgfx distance count).length = d.output.length + count := by
      rw [List.length_append, length_ringRead _ (by omega)]
    refine ⟨⟨forall_stores.mpr (.inr (by omega)), (safe_pure _).mpr trivial⟩, ?_, ?_⟩
    · refine ⟨h.cached, h.inputEnd, h.current, h.input, ?_⟩
      dsimp only
      omega
    · simp only [Decoder.rest, hlen]
      omega

/-- The reader behind a run: nothing is cached, and the bytes of the run are passed over. -/
theorem Reader.align_skip (r : Reader) (count : ℕ) :
    (r.align.skip count).input = r.input ∧ (r.align.skip count).inputEnd = r.inputEnd ∧
      (r.align.skip count).current = r.current + count ∧
      (r.align.skip count).bitsCurrent = 0 ∧ (r.align.skip count).cBitsCurrent = 0 := by
  cases r
  exact ⟨rfl, rfl, rfl, rfl, rfl⟩

theorem Reader.cached_align_skip (r : Reader) (count : ℕ) : (r.align.skip count).Cached := by
  obtain ⟨-, -, -, hbits, hcBits⟩ := r.align_skip count
  refine ⟨?_, ?_⟩
  · rw [hbits]
    exact Nat.two_pow_pos _
  · omega

theorem Reader.left_align_skip (r : Reader) (count : ℕ) : (r.align.skip count).left ≤ r.left := by
  obtain ⟨-, hend, hcurrent, hbits, hcBits⟩ := r.align_skip count
  generalize r.align.skip count = r' at hend hcurrent hbits hcBits
  unfold Reader.left
  by_cases hex : r.Exhausted
  · rw [if_pos ⟨hbits, by rw [hend, hcurrent]; exact Nat.le_add_right_of_le hex.2⟩]
    exact Nat.zero_le _
  · rw [if_neg hex, hcBits, hend, hcurrent]
    split_ifs <;> omega

/-- The run is read from the segment if and only if it lies in it. -/
theorem Decoder.Within.putUnencoded (h : d.Within cbSegment) (count : ℕ) :
    ((d.putUnencodedTraced count).Safe (Access.InBounds (cbSegment + 1)) ↔
      (count ≤ outputBufferSize - d.output.length → d.reader.current + count ≤ cbSegment)) ∧
    ((count ≤ outputBufferSize - d.output.length → d.reader.current + count ≤ cbSegment) →
      d.GoesOn cbSegment 0 (d.putUnencoded count)) := by
  have hout := h.output
  have hcurrent := h.current
  have hinput := h.input
  rw [Decoder.putUnencodedTraced, safe_bind, safe_accesses, safe_pure, and_true,
    Decoder.putUnencoded]
  by_cases hroom : outputBufferSize - d.output.length < count
  · rw [if_pos hroom, if_pos hroom]
    exact ⟨⟨fun _ hle => by omega, fun _ => nofun⟩, fun _ => ⟨_, rfl⟩⟩
  rw [if_neg hroom, if_neg hroom, List.forall_mem_append, List.forall_mem_append, forall_loads,
    forall_stores]
  constructor
  · constructor
    · intro h' _
      omega
    · intro h'
      have := h' (by omega)
      omega
  · intro hfits
    have hle := hfits (by omega)
    rw [if_neg (by omega)]
    have hlen : (d.output ++ (d.reader.input.drop d.reader.current).take count).length =
        d.output.length + count := by
      rw [List.length_append, List.length_take, List.length_drop]
      omega
    have hleft := d.reader.left_align_skip count
    have hcached := d.reader.cached_align_skip count
    obtain ⟨hin, hend, hskip, -, -⟩ := d.reader.align_skip count
    generalize d.reader.align.skip count = reader at hleft hcached hin hend hskip
    refine ⟨⟨hcached, hend.trans h.inputEnd, hskip.trans_le hle, ?_, ?_⟩, ?_⟩
    · dsimp only
      rw [hin]
      exact hinput
    · dsimp only
      omega
    · simp only [Decoder.rest, hlen]
      omega

/-! ### The loop -/

theorem Decoder.rest_reads {n : ℕ} {reader : Reader} (h : d.reader.Reads n reader) :
    ({ d with reader := reader } : Decoder).rest + min n d.reader.left ≤ d.rest := by
  have hleft := h.left
  simp only [Decoder.rest]
  omega

theorem Decoder.GoesOn.trans {d' : Decoder} {n m : ℕ} {next : Decoder ⊕ Except Stop (Bool × Decoder)}
    (h : d'.GoesOn cbSegment n next) (hrest : d'.rest + m ≤ d.rest) :
    d.GoesOn cbSegment (n + m) next := by
  cases next with
  | inl d'' =>
    refine ⟨h.1, ?_⟩
    have := h.2
    omega
  | inr r => exact h

/-- While only zeros are left, a round reads a literal. -/
theorem Decoder.left_pos {reader : Reader} {token : Option TokenRow} (h : d.reader.Cached)
    (hfound : d.reader.findToken ZGFX_TOKEN_TABLE 0 0 = (reader, token))
    (htoken : ∀ row, token = some row → row.tokenType ≠ 0) : 0 < d.reader.left := by
  by_contra hzero
  have hex := h.exhausted (by omega)
  rw [hex.findToken] at hfound
  exact htoken ⟨1, 0, 8, 0, 0⟩ (Prod.mk.inj hfound).2.symm rfl

/-- A round is safe if and only if the run that it meets lies in the segment, and then it makes
progress, if the length that it meets is read to its end. -/
theorem Decoder.Within.step (h : d.Within cbSegment) :
    ((decompressStepTraced d).Safe (Access.InBounds (cbSegment + 1)) ↔ d.RunFits cbSegment) ∧
      (d.RunFits cbSegment → d.LengthEnds → d.GoesOn cbSegment 1 (decompressStep d)) := by
  unfold decompressStepTraced decompressStep Decoder.RunFits Decoder.nextRun Decoder.LengthEnds Decoder.nextLength
  -- without a run there is nothing that has to fit
  have hnone : ∀ reader : Reader, none = some reader →
      reader.bits ≤ outputBufferSize - d.output.length → reader.current + reader.bits ≤ cbSegment :=
    fun reader hreader => absurd hreader (Option.some_ne_none reader).symm
  by_cases hdone : d.reader.cBitsRemaining = 0
  · rw [if_pos hdone, if_pos hdone, if_pos hdone, if_pos hdone]
    exact ⟨⟨fun _ => hnone, fun _ => (safe_pure _).mpr trivial⟩, fun _ _ => ⟨_, rfl⟩⟩
  rw [if_neg hdone, if_neg hdone, if_neg hdone, if_neg hdone, safe_bind, value_findTokenTraced]
  have hsafe := h.cached.safe_findTokenTraced h.inputEnd_le ZGFX_TOKEN_TABLE 0 0
  have hread := h.cached.findToken_table
  simp only [hsafe, true_and]
  cases hfound : d.reader.findToken ZGFX_TOKEN_TABLE 0 0 with
  | mk reader token =>
  rw [hfound] at hread
  cases token with
  | none =>
    have hpos := Decoder.left_pos h.cached hfound fun row hrow =>
      absurd hrow (Option.some_ne_none row).symm
    have hrest := Decoder.rest_reads hread
    refine ⟨⟨fun _ => hnone, fun _ => (safe_pure _).mpr trivial⟩, fun _ _ => ⟨h.reads hread, ?_⟩⟩
    dsimp only at hrest ⊢
    omega
  | some row =>
    dsimp only at hread ⊢
    -- the value behind the prefix is read in any case
    have hvalueBits := valueBits_tokenTable row (Reader.findToken_mem (congrArg Prod.snd hfound))
    have hvalue := hread.cached.getBits (hread.cached.not_endless hvalueBits)
    have hreads := (hread.trans hvalue).weaken (Nat.le_add_right 1 _)
    have hend : reader.inputEnd ≤ cbSegment := by
      rw [hread.inputEnd]
      exact h.inputEnd_le
    have hwithin := h.reads hreads
    have hrest := Decoder.rest_reads hreads
    rw [safe_bind, value_getBitsTraced]
    simp only [reader.safe_getBitsTraced hend, true_and]
    by_cases htype : row.tokenType = 0
    · -- a literal
      obtain ⟨hput, hgoes⟩ := hwithin.putLiteral
        (UInt8.ofNat (row.valueBase + (reader.getBits row.valueBits).bits))
      rw [if_pos htype, if_pos htype, if_neg fun hc => hc.1 htype]
      exact ⟨⟨fun _ => hnone, fun _ => hput⟩, fun _ _ => hgoes.trans (m := 0) (by omega)⟩
    have hpos := Decoder.left_pos h.cached hfound fun row' hrow' => by
      rw [← Option.some.inj hrow']
      exact htype
    rw [if_neg htype, if_neg htype, Decoder.readMatchTraced, Decoder.readMatch]
    by_cases hdistance : row.valueBase + (reader.getBits row.valueBits).bits = 0
    · -- an unencoded run
      have hcount := hwithin.cached.getBits (hwithin.cached.not_endless (n := 15) (by decide))
      have hwithin' := hwithin.reads hcount
      have hrest' := Decoder.rest_reads hcount
      obtain ⟨hput, hgoes⟩ := hwithin'.putUnencoded ((reader.getBits row.valueBits).getBits 15).bits
      rw [if_neg (not_not.mpr hdistance), if_neg (not_not.mpr hdistance), if_pos ⟨htype, hdistance⟩,
        safe_bind, value_getBitsTraced]
      simp only [Reader.safe_getBitsTraced hwithin.inputEnd_le, true_and, Option.some.injEq,
        forall_eq']
      refine ⟨hput, fun hfits _ => ?_⟩
      have hgoes' := hgoes hfits
      exact hgoes'.trans (m := 1) (by dsimp only at hrest hrest' ⊢; omega)
    · -- a match
      rw [if_pos hdistance, if_pos hdistance, if_neg fun hc => hdistance hc.2, if_pos ⟨htype, hdistance⟩,
        safe_bind, value_readCountTraced]
      simp only [hwithin.cached.safe_readCountTraced hwithin.inputEnd_le, true_and, Option.some.injEq, forall_eq']
      by_cases hends : (reader.getBits row.valueBits).LengthEnds
      · obtain ⟨reader', count, hsome, hreads'⟩ := hwithin.cached.readCount hends
        have hrest' := Decoder.rest_reads hreads'
        obtain ⟨hput, hgoes⟩ := (hwithin.reads hreads').putMatch hdistance count
        dsimp only at hsome
        rw [hsome]
        refine ⟨⟨fun _ => hnone, fun _ => hput⟩, fun _ _ => ?_⟩
        exact hgoes.trans (m := 1) (by dsimp only at hrest hrest' ⊢; omega)
      · rw [Reader.readCount_endless hends]
        exact ⟨⟨fun _ => hnone, fun _ => (safe_pure _).mpr trivial⟩, fun _ h => absurd h hends⟩

/-- A length that is not read to its end stops the loop. -/
theorem Decoder.step_endless (h : ¬ d.LengthEnds) : decompressStep d = .inr (.error .rounds) := by
  unfold Decoder.LengthEnds Decoder.nextLength at h
  unfold decompressStep
  by_cases hdone : d.reader.cBitsRemaining = 0
  · rw [if_pos hdone] at h
    exact absurd (fun reader hreader => absurd hreader (Option.some_ne_none reader).symm) h
  rw [if_neg hdone] at h ⊢
  cases hfound : d.reader.findToken ZGFX_TOKEN_TABLE 0 0 with
  | mk reader token =>
  rw [hfound] at h
  cases token with
  | none => exact absurd (fun reader hreader => absurd hreader (Option.some_ne_none reader).symm) h
  | some row =>
    dsimp only at h ⊢
    split_ifs at h with hmatch
    · rw [if_neg hmatch.1, Decoder.readMatch, if_pos hmatch.2]
      dsimp only
      rw [Reader.readCount_endless fun hends => h fun reader' hreader' => Option.some.inj hreader' ▸ hends]
    · exact absurd (fun _ hfalse => hfalse.elim) h

theorem Decoder.Within.next (h : d.Within cbSegment) (hfits : d.RunFits cbSegment) {d' : Decoder}
    (hnext : Next decompressStepTraced d d') : d'.Within cbSegment ∧ d'.rest + 1 ≤ d.rest := by
  have hstep : decompressStep d = .inl d' := by
    rw [← value_decompressStepTraced]
    exact hnext
  have hends : d.LengthEnds := by
    by_contra hendless
    rw [Decoder.step_endless hendless] at hstep
    cases hstep
  have hgoes := h.step.2 hfits hends
  rw [hstep] at hgoes
  exact hgoes

/-- What the rounds keep as long as the runs fit. -/
theorem Decoder.Within.visits (h : d.Within cbSegment) {d' : Decoder}
    (hvisits : Visits decompressStepTraced d d')
    (hfits : ∀ d', Visits decompressStepTraced d d' → d'.RunFits cbSegment) :
    d'.Within cbSegment := by
  induction hvisits with
  | refl => exact h
  | @tail t t' ht hlast ih => exact (ih.next (hfits t ht) hlast).1

/-- The loop ends and is safe if and only if the runs fit and the lengths end. -/
theorem Decoder.Within.loop_iff (h : d.Within cbSegment) {rounds : ℕ} (hrounds : d.rest < rounds)
    (stream : List UInt8) :
    (∃ r, (decompressLoopTraced rounds d stream).value = .ok r) ∧
        (decompressLoopTraced rounds d stream).Safe (Access.InBounds (cbSegment + 1)) ↔
      ∀ d', Visits decompressStepTraced d d' → d'.RunFits cbSegment ∧ d'.LengthEnds := by
  have hloop := Traced.loop_iff (P := Access.InBounds (cbSegment + 1)) (μ := Decoder.rest)
    (fun t t' ht hfits hnext => ht.next hfits hnext) (fun t ht => ht.step.1) h hrounds
  rw [decompressLoopTraced, safe_bind, value_bind]
  constructor
  · rintro ⟨⟨r, hr⟩, hsafe, -⟩
    have hend : (loop decompressStepTraced rounds d).value ≠ none := by
      intro hnone
      rw [hnone] at hr
      cases hr
    intro d' hd'
    refine ⟨hloop.mp ⟨hend, hsafe⟩ d' hd', ?_⟩
    by_contra hendless
    obtain ⟨result, hresult⟩ := Option.ne_none_iff_exists'.mp hend
    have hexit : (decompressStepTraced d').value = .inr (.error .rounds) :=
      (value_decompressStepTraced d').trans (Decoder.step_endless hendless)
    rw [hresult, hd'.result hexit hresult] at hr
    cases hr
  · intro hfits
    obtain ⟨hend, hsafe⟩ := hloop.mpr fun d' hd' => (hfits d' hd').1
    obtain ⟨result, hresult⟩ := Option.ne_none_iff_exists'.mp hend
    obtain ⟨t, ht, hexit⟩ := exists_exit hresult
    -- the loop is left with a result, and not for want of rounds or of input
    have hgoes := (h.visits ht fun d' hd' => (hfits d' hd').1).step.2 (hfits t ht).1 (hfits t ht).2
    rw [← value_decompressStepTraced, hexit] at hgoes
    obtain ⟨⟨ok, d'⟩, rfl⟩ := hgoes
    rw [hresult]
    exact ⟨⟨_, rfl⟩, hsafe, (safe_pure _).mpr trivial⟩

/-! ### Segments -/

theorem within_startReader (zgfx : Context) (flags : UInt8) {pbSegment : List UInt8}
    (h : cbSegment ≤ pbSegment.length) :
    (⟨startReader flags pbSegment cbSegment, zgfx, []⟩ : Decoder).Within cbSegment :=
  ⟨⟨Nat.zero_lt_one, Nat.succ_pos 7⟩, rfl, Nat.zero_le _, h, Nat.zero_le _⟩

theorem rest_startReader (zgfx : Context) (flags : UInt8) (pbSegment : List UInt8) (cbSegment : ℕ) :
    (⟨startReader flags pbSegment cbSegment, zgfx, []⟩ : Decoder).rest <
      decompressRounds cbSegment := by
  have hend : (startReader flags pbSegment cbSegment).inputEnd = cbSegment - 1 := rfl
  have hcurrent : (startReader flags pbSegment cbSegment).current = 0 := rfl
  have hcBits : (startReader flags pbSegment cbSegment).cBitsCurrent = 0 := rfl
  have hleft : (startReader flags pbSegment cbSegment).left ≤ 8 * cbSegment := by
    unfold Reader.left
    rw [hend, hcurrent, hcBits]
    split_ifs <;> omega
  unfold decompressRounds
  simp only [Decoder.rest, List.length_nil]
  omega

theorem safe_rawAccesses : ∀ a ∈ rawAccesses cbSegment, a.InBounds (cbSegment + 1) := by
  rw [rawAccesses, List.forall_mem_append, forall_loads]
  refine ⟨.inr (by omega), ?_⟩
  split_ifs with hlarge
  · exact nofun
  · rw [List.forall_mem_append, forall_loads, forall_stores]
    exact ⟨.inr (by omega), .inr (by omega)⟩

theorem decompressSegmentData_bounded_iff (zgfx : Context) (flags : UInt8) {pbSegment : List UInt8}
    (hlength : cbSegment ≤ pbSegment.length) :
    (∃ r, (decompressSegmentDataTraced zgfx flags pbSegment cbSegment).value = .ok r) ∧
        (decompressSegmentDataTraced zgfx flags pbSegment cbSegment).Safe
          (Access.InBounds (cbSegment + 1)) ↔
      RunsFit zgfx flags pbSegment cbSegment := by
  unfold RunsFit
  by_cases hraw : flags.toNat &&& PACKET_COMPRESSED = 0
  · rw [value_decompressSegmentDataTraced, decompressSegmentDataTraced, if_pos hraw, safe_bind,
      decompressSegmentData, if_pos hraw]
    refine ⟨fun _ hflags => absurd hraw hflags,
      fun _ => ⟨?_, safe_rawAccesses, (safe_pure _).mpr trivial⟩⟩
    split_ifs
    · exact ⟨_, rfl⟩
    · exact ⟨_, rfl⟩
  · -- the last byte of the segment is read first
    have hstart : (startReaderTraced flags pbSegment cbSegment).Safe
        (Access.InBounds (cbSegment + 1)) :=
      List.forall_mem_singleton.mpr (Nat.lt_succ_self cbSegment)
    have hloop := (within_startReader zgfx flags hlength).loop_iff
      (rest_startReader zgfx flags pbSegment cbSegment) (pbSegment.drop cbSegment)
    rw [decompressSegmentDataTraced, if_neg hraw, safe_bind, value_bind, value_startReaderTraced]
    simp only [hstart, true_and]
    rw [hloop]
    exact ⟨fun h _ => h, fun h => h hraw⟩

/-- A call of `zgfx_decompress_segment` returns, reads bytes of the segment only and writes inside
`OutputBuffer` if and only if the unencoded runs that it meets lie in the segment, and the lengths of matches
are read to their ends. -/
theorem zgfxDecompressSegment_bounded_iff (zgfx : Context) (stream : List UInt8)
    (segmentSize : ℕ) :
    Bounded zgfx stream segmentSize ↔
      (Accepted stream segmentSize →
        RunsFit zgfx (stream.headD 0) (stream.drop 1) (segmentSize - 1)) := by
  unfold Bounded Accepted zgfxDecompressSegmentTraced
  by_cases hrejected : stream.length < segmentSize ∨ segmentSize < 1 ∨ segmentSize > 2 ^ 32 - 1
  · rw [if_pos hrejected]
    exact ⟨fun _ h => absurd hrejected h, fun _ => ⟨⟨_, rfl⟩, (safe_pure _).mpr trivial⟩⟩
  · obtain ⟨cbSegment, rfl⟩ : ∃ k, segmentSize = k + 1 := ⟨segmentSize - 1, by omega⟩
    have hheader : Safe (Access.InBounds (cbSegment + 1)) (access (.load 0)) :=
      (safe_access _).mpr (Nat.succ_pos cbSegment)
    have hlength : cbSegment ≤ (stream.drop 1).length := by
      rw [List.length_drop]
      omega
    rw [if_neg hrejected, safe_bind, value_bind, Nat.add_sub_cancel]
    simp only [hheader, true_and]
    rw [decompressSegmentData_bounded_iff zgfx (stream.headD 0) hlength]
    exact ⟨fun h _ => h, fun h => h hrejected⟩

/-- An unencoded run of four bytes with one byte left in the segment: three bytes behind the segment are
read. -/
theorem zgfxDecompressSegment_not_bounded :
    ¬ Bounded zgfxContextNew [0x24, 0x88, 0x00, 0x02, 0x00, 7] 6 := by
  rintro ⟨hvalue, hsafe⟩
  have hlength : 5 ≤ ([0x88, 0x00, 0x02, 0x00, 7] : List UInt8).length := Nat.le_refl 5
  rw [zgfxDecompressSegmentTraced, if_neg (by decide)] at hvalue hsafe
  rw [safe_bind] at hsafe
  have hfits := (decompressSegmentData_bounded_iff zgfxContextNew 0x24 hlength).mp
    ⟨hvalue, hsafe.2⟩ (by decide) _ .refl
  have hrun : (Decoder.nextRun ⟨startReader 0x24 [0x88, 0x00, 0x02, 0x00, 7] 5, zgfxContextNew,
      []⟩).map (fun reader => (reader.current, reader.bits)) = some (4, 4) := by decide
  obtain ⟨reader, hreader, hpair⟩ := Option.map_eq_some_iff.mp hrun
  have hle := hfits.1 reader hreader
  rw [(Prod.mk.inj hpair).1, (Prod.mk.inj hpair).2] at hle
  exact absurd (hle (by decide)) (by decide)

end FreeRDP.Zgfx
