import FreeRDP.Zgfx.Equiv.Bounds

/-!
# What a multipart message announces

`zgfx_decompress` allocates as many bytes as a multipart message announces and hands all of them back.
While it copies the segments it makes sure that they do not exceed the announced size; it never checks
that they reach it.  `segmentsSize` adds up the sizes of the tokens, and decodes nothing;
`zgfxDecompress_determined_iff` says that every byte handed back was written if and only if the announced
size is no larger.
-/

namespace FreeRDP.Zgfx

open Iterate

/-- The reader behind the next token and the number of bytes that the token stands for; `none` for a
length that does not end and for a run behind the end of the input. -/
def Reader.token (r : Reader) : Option (Reader × ℕ) :=
  match r.findToken ZGFX_TOKEN_TABLE 0 0 with
  | (r, none) => some (r, 0)
  | (r, some row) =>
    let r := r.getBits row.valueBits
    if row.tokenType = 0 then some (r, 1)
    else if row.valueBase + r.bits ≠ 0 then r.readCount
    else
      let r := r.getBits 15
      if r.input.length < r.current + r.bits then none else some (r.align.skip r.bits, r.bits)

/-- One round over the tokens: it adds up their sizes as long as there is room for them. -/
def tokenStep (s : Reader × ℕ) : (Reader × ℕ) ⊕ Option ℕ :=
  if s.1.cBitsRemaining = 0 then .inr (some s.2)
  else
    match s.1.token with
    | none => .inr none
    | some (r, size) =>
      if outputBufferSize - s.2 < size then .inr none else .inl (r, s.2 + size)

/-- The number of bytes that the segment at the start of a stream, behind its size, stands for, and the
stream behind it. -/
def segmentSize (stream : List UInt8) : Option (ℕ × List UInt8) :=
  let flags := (stream.drop 4).headD 0
  let pbSegment := (stream.drop 4).drop 1
  let cbSegment := readU32 stream - 1
  if stream.length < 4 + readU32 stream ∨ readU32 stream < 1 then none
  else
    (if flags.toNat &&& PACKET_COMPRESSED = 0 then
        if outputBufferSize < cbSegment then none else some cbSegment
      else (iterate tokenStep (decompressRounds cbSegment)
        (startReader flags pbSegment cbSegment, 0)).join).map (·, pbSegment.drop cbSegment)

/-- The segment that stands behind its size at the start of a stream, if it decodes. -/
def nextSegment (zgfx : Context) (stream : List UInt8) : Option SegmentResult :=
  if stream.length < 4 then none
  else
    match zgfxDecompressSegment zgfx (stream.drop 4) (readU32 stream) with
    | .error _ => none
    | .ok segment => if segment.ok then some segment else none

/-- The number of bytes that `n` segments of a stream stand for, if none of them fails. -/
def segmentsSize : ℕ → List UInt8 → Option ℕ
  | 0, _ => some 0
  | n + 1, stream =>
    (segmentSize stream).bind fun segment => (segmentsSize n segment.2).map (segment.1 + ·)

/-- The size that a multipart message announces, and the one that its segments stand for. -/
def announcedAndDecoded (message : List UInt8) : Option (ℕ × ℕ) :=
  match message with
  | [] => none
  | descriptor :: stream =>
    if descriptor = ZGFX_SEGMENTED_MULTIPART ∧ 6 ≤ stream.length ∧
        readU16 stream * 4 ≤ (stream.drop 6).length then
      (segmentsSize (readU16 stream) (stream.drop 6)).map (readU32 (stream.drop 2), ·)
    else none

/-- A message does not announce more than it contains. -/
def AnnouncesNoMore (message : List UInt8) : Prop :=
  ∀ announced decoded, announcedAndDecoded message = some (announced, decoded) →
    announced ≤ decoded

/-- All bytes that a successful call hands back were written by it. -/
def Determined (zgfx : Context) (src : List UInt8) (srcSize : ℕ) : Prop :=
  ∀ r, zgfxDecompress zgfx src srcSize = .ok r → 0 ≤ r.status → r.dst.length = r.dstSize

variable {segmentCount uncompressedSize : ℕ} {l : Concatenation} {r : Decompressed}
  {segment : SegmentResult} {k total : ℕ}

theorem readU32_lt (stream : List UInt8) : readU32 stream < 2 ^ 32 := by
  have h0 := (stream.getD 0 0).toNat_lt
  have h1 := (stream.getD 1 0).toNat_lt
  have h2 := (stream.getD 2 0).toNat_lt
  have h3 := (stream.getD 3 0).toNat_lt
  unfold readU32
  omega

/-! ### The size of a segment -/

/-- The size that a loop leaves, if it succeeds. -/
def sizeLeft : Except Stop (Bool × Decoder) → Option ℕ
  | .ok (true, d) => some d.output.length
  | _ => none

/-- A round of the decoder adds the size of its token. -/
theorem tokenStep_eq (d : Decoder) :
    tokenStep (d.reader, d.output.length) =
      (decompressStep d).map (fun d => (d.reader, d.output.length)) sizeLeft := by
  unfold tokenStep decompressStep Reader.token
  by_cases hdone : d.reader.cBitsRemaining = 0
  · rw [if_pos hdone, if_pos hdone]
    rfl
  rw [if_neg hdone, if_neg hdone]
  rcases d.reader.findToken ZGFX_TOKEN_TABLE 0 0 with ⟨reader, _ | row⟩
  · rfl
  dsimp only
  by_cases hliteral : row.tokenType = 0
  · rw [if_pos hliteral, if_pos hliteral, Decoder.putLiteral]
    dsimp only
    by_cases hfull : outputBufferSize ≤ d.output.length
    · rw [if_pos hfull, if_pos (by omega)]
      rfl
    · rw [if_neg hfull, if_neg (by omega), Sum.map_inl, List.length_append, List.length_singleton]
  rw [if_neg hliteral, if_neg hliteral, Decoder.readMatch]
  by_cases hdistance : row.valueBase + (reader.getBits row.valueBits).bits ≠ 0
  · rw [if_pos hdistance, if_pos hdistance]
    dsimp only
    cases (reader.getBits row.valueBits).readCount with
    | none => rfl
    | some read =>
      dsimp only
      rw [Decoder.putMatch]
      split_ifs
      · rfl
      · rw [Sum.map_inl, List.length_append, length_ringRead _ (Nat.pos_of_ne_zero hdistance)]
  · rw [if_neg hdistance, if_neg hdistance, Decoder.putUnencoded]
    dsimp only
    generalize (reader.getBits row.valueBits).getBits 15 = r
    split_ifs with hshort hfull hfull
    · rfl
    · rfl
    · dsimp only
      rw [if_pos hfull]
      rfl
    · dsimp only
      rw [if_neg hfull, Sum.map_inl, List.length_append, List.length_take_of_le]
      rw [List.length_drop]
      omega

theorem segmentSize_eq (zgfx : Context) (stream : List UInt8) :
    segmentSize stream =
      (nextSegment zgfx stream).map fun segment => (segment.output.length, segment.stream) := by
  have hlt := readU32_lt stream
  have hdrop : (stream.drop 4).length = stream.length - 4 := List.length_drop
  unfold segmentSize nextSegment
  dsimp only
  by_cases hlen : stream.length < 4
  · rw [if_pos hlen, if_pos (by omega), Option.map_none]
  rw [if_neg hlen, zgfxDecompressSegment]
  by_cases hsize : stream.length < 4 + readU32 stream ∨ readU32 stream < 1
  · rw [if_pos hsize, if_pos (by omega)]
    rfl
  have haccepted : ¬ ((stream.drop 4).length < readU32 stream ∨ readU32 stream < 1 ∨
      readU32 stream > 2 ^ 32 - 1) := by omega
  rw [if_neg hsize, if_neg haccepted, decompressSegmentData]
  generalize hcbSegment : readU32 stream - 1 = cbSegment
  by_cases hraw : ((stream.drop 4).headD 0).toNat &&& PACKET_COMPRESSED = 0
  · rw [if_pos hraw, if_pos hraw]
    by_cases hroom : outputBufferSize < cbSegment
    · rw [if_pos hroom, if_pos hroom]
      rfl
    · rw [if_neg hroom, if_neg hroom]
      dsimp only
      rw [if_pos rfl, Option.map_some, Option.map_some, List.length_take_of_le]
      rw [List.length_drop]
      omega
  · rw [if_neg hraw, if_neg hraw]
    have hrun := iterate_map tokenStep_eq (decompressRounds cbSegment)
      ⟨startReader ((stream.drop 4).headD 0) ((stream.drop 4).drop 1) cbSegment, zgfx, []⟩
    rw [List.length_nil] at hrun
    rw [hrun]
    rcases iterate decompressStep _ _ with _ | _ | ⟨_ | _, d⟩ <;> rfl

/-! ### The loop over the segments -/

theorem nextSegment_eq_some {zgfx : Context} {stream : List UInt8} :
    nextSegment zgfx stream = some segment ↔
      4 ≤ stream.length ∧
        zgfxDecompressSegment zgfx (stream.drop 4) (readU32 stream) = .ok segment ∧
        segment.ok = true := by
  unfold nextSegment
  generalize zgfxDecompressSegment zgfx (stream.drop 4) (readU32 stream) = result
  by_cases hlen : stream.length < 4
  · rw [if_pos hlen]
    exact ⟨nofun, fun h => by omega⟩
  · rw [if_neg hlen]
    cases result with
    | error stop => exact ⟨nofun, fun h => nomatch h.2.1⟩
    | ok other =>
      dsimp only
      split_ifs with hok
      · constructor
        · intro h
          obtain rfl := Option.some.inj h
          exact ⟨by omega, rfl, hok⟩
        · intro h
          rw [Except.ok.inj h.2.1]
      · constructor
        · exact nofun
        · intro h
          obtain rfl := Except.ok.inj h.2.1
          exact absurd h.2.2 hok

/-- Behind the last segment the loop is left with success. -/
theorem segmentStep_last (h : segmentCount ≤ l.segmentNumber) :
    segmentStep segmentCount uncompressedSize l = l.leave uncompressedSize 1 l.zgfx := if_pos h

theorem segmentStep_add (h : l.segmentNumber < segmentCount)
    (hnext : nextSegment l.zgfx l.stream = some segment) (hsize : uncompressedSize < 2 ^ 32)
    (hfit : l.dst.length + segment.output.length ≤ uncompressedSize) :
    segmentStep segmentCount uncompressedSize l =
      .inl ⟨l.segmentNumber + 1, segment.zgfx, segment.stream, l.dst ++ segment.output⟩ := by
  obtain ⟨hlen, hsegment, hok⟩ := nextSegment_eq_some.mp hnext
  rw [segmentStep, if_neg (by omega), if_neg (by omega), hsegment]
  dsimp only
  rw [Concatenation.add, if_neg (not_not.mpr hok), if_neg (by omega), if_neg (by omega)]

/-- Otherwise the loop is left, and not with success. -/
theorem segmentStep_fails (h : l.segmentNumber < segmentCount)
    (hno : ¬ ∃ segment, nextSegment l.zgfx l.stream = some segment ∧
      l.dst.length + segment.output.length ≤ uncompressedSize) :
    ∃ result, segmentStep segmentCount uncompressedSize l = .inr result ∧
      ∀ r, result = .ok r → r.status = -1 := by
  have hleave (zgfx : Context) : ∃ result, l.leave uncompressedSize (-1) zgfx = .inr result ∧
      ∀ r, result = .ok r → r.status = -1 := by
    refine ⟨_, rfl, fun r hr => ?_⟩
    rw [← Except.ok.inj hr]
  rw [segmentStep, if_neg (by omega)]
  by_cases hlen : l.stream.length < 4
  · rw [if_pos hlen]
    exact hleave l.zgfx
  rw [if_neg hlen]
  cases hsegment : zgfxDecompressSegment l.zgfx (l.stream.drop 4) (readU32 l.stream) with
  | error stop => exact ⟨.error stop, rfl, nofun⟩
  | ok segment =>
    dsimp only
    by_cases hok : segment.ok = true
    · have hnofit : ¬ l.dst.length + segment.output.length ≤ uncompressedSize := fun hfit =>
        hno ⟨segment, nextSegment_eq_some.mpr ⟨by omega, hsegment, hok⟩, hfit⟩
      rw [Concatenation.add, if_neg (not_not.mpr hok)]
      split_ifs
      · exact hleave segment.zgfx
      · exact hleave segment.zgfx
      · omega
    · rw [Concatenation.add, if_pos hok]
      exact hleave segment.zgfx

/-- A successful loop has decoded all segments, and what they decode to is what is written. -/
theorem iterate_segmentStep_ok (hk : l.segmentNumber + k = segmentCount)
    (hsize : uncompressedSize < 2 ^ 32) (hfit : l.dst.length ≤ uncompressedSize)
    (hrun : iterate (segmentStep segmentCount uncompressedSize) (k + 1) l = some (.ok r))
    (hstatus : 0 ≤ r.status) :
    r.dstSize = uncompressedSize ∧ r.dst.length ≤ uncompressedSize ∧
      ∃ total, segmentsSize k l.stream = some total ∧
        r.dst.length = l.dst.length + total := by
  induction k generalizing l with
  | zero =>
    rw [iterate_inr (segmentStep_last (by omega))] at hrun
    obtain rfl := Except.ok.inj (Option.some.inj hrun)
    exact ⟨rfl, hfit, 0, rfl, rfl⟩
  | succ k ih =>
    have hlt : l.segmentNumber < segmentCount := by omega
    by_cases hnext : ∃ segment, nextSegment l.zgfx l.stream = some segment ∧
        l.dst.length + segment.output.length ≤ uncompressedSize
    · obtain ⟨segment, hsegment, hle⟩ := hnext
      rw [iterate_inl (segmentStep_add hlt hsegment hsize hle)] at hrun
      obtain ⟨hdstSize, hbound, total, htotal, hdst⟩ := ih (by dsimp only; omega)
        (by rw [List.length_append]; omega) hrun
      refine ⟨hdstSize, hbound, segment.output.length + total, ?_, ?_⟩
      · rw [segmentsSize, segmentSize_eq l.zgfx, hsegment, Option.map_some, Option.bind_some, htotal,
          Option.map_some]
      · rw [hdst, List.length_append, Nat.add_assoc]
    · obtain ⟨result, hstep, hfails⟩ := segmentStep_fails hlt hnext
      rw [iterate_inr hstep] at hrun
      have hminus := hfails r (Option.some.inj hrun)
      omega

/-- Segments that decode to no more than is left of the announced size are copied successfully. -/
theorem exists_iterate_segmentStep (hk : l.segmentNumber + k = segmentCount)
    (hsize : uncompressedSize < 2 ^ 32) (htotal : segmentsSize k l.stream = some total)
    (hfit : l.dst.length + total ≤ uncompressedSize) :
    ∃ r, iterate (segmentStep segmentCount uncompressedSize) (k + 1) l = some (.ok r) ∧
      0 ≤ r.status := by
  induction k generalizing l total with
  | zero =>
    refine ⟨_, iterate_inr (segmentStep_last (by omega)) 0, ?_⟩
    show (0 : ℤ) ≤ 1
    decide
  | succ k ih =>
    rw [segmentsSize, segmentSize_eq l.zgfx, Option.bind_map] at htotal
    obtain ⟨segment, hsegment, hmap⟩ := Option.bind_eq_some_iff.mp htotal
    obtain ⟨rest, hrest, rfl⟩ := Option.map_eq_some_iff.mp hmap
    dsimp only at hfit
    have hlt : l.segmentNumber < segmentCount := by omega
    rw [iterate_inl (segmentStep_add hlt hsegment hsize (by omega))]
    exact ih (by dsimp only; omega) hrest (by rw [List.length_append]; omega)

/-- The loop is decided by what the segments decode to. -/
theorem decompressSegments_determined_iff (zgfx : Context) (stream : List UInt8)
    (hsize : uncompressedSize < 2 ^ 32) :
    (∀ r, decompressSegments segmentCount uncompressedSize ⟨0, zgfx, stream, []⟩ = .ok r →
        0 ≤ r.status → r.dst.length = r.dstSize) ↔
      ∀ total, segmentsSize segmentCount stream = some total → uncompressedSize ≤ total := by
  have hloop (r : Decompressed) :
      decompressSegments segmentCount uncompressedSize ⟨0, zgfx, stream, []⟩ = .ok r ↔
        iterate (segmentStep segmentCount uncompressedSize) (segmentCount + 1)
          ⟨0, zgfx, stream, []⟩ = some (.ok r) := by
    unfold decompressSegments
    dsimp only
    rw [Nat.sub_zero]
    cases iterate (segmentStep segmentCount uncompressedSize) (segmentCount + 1)
      ⟨0, zgfx, stream, []⟩ with
    | none => simp
    | some result => simp
  constructor
  · intro h total htotal
    by_contra hlt
    -- the segments are copied, and do not fill what was announced
    obtain ⟨r, hrun, hstatus⟩ := exists_iterate_segmentStep (l := ⟨0, zgfx, stream, []⟩)
      (Nat.zero_add segmentCount) hsize htotal (by rw [List.length_nil]; omega)
    have hall := h r ((hloop r).mpr hrun) hstatus
    obtain ⟨hdst, -, total', htotal', hlen⟩ := iterate_segmentStep_ok (l := ⟨0, zgfx, stream, []⟩)
      (Nat.zero_add segmentCount) hsize (Nat.zero_le _) hrun hstatus
    obtain rfl : total = total' := Option.some.inj (htotal.symm.trans htotal')
    rw [List.length_nil] at hlen
    omega
  · intro h r hr hstatus
    obtain ⟨hdst, hle, total, htotal, hlen⟩ := iterate_segmentStep_ok (l := ⟨0, zgfx, stream, []⟩)
      (Nat.zero_add segmentCount) hsize (Nat.zero_le _) ((hloop r).mp hr) hstatus
    have hge := h total htotal
    rw [List.length_nil] at hlen
    omega

/-! ### Messages -/

/-- A message of one segment hands back what the segment decodes to. -/
theorem determined_single (zgfx : Context) (stream : List UInt8) (r : Decompressed)
    (h : (match zgfxDecompressSegment zgfx stream stream.length with
      | .error stop => .error stop
      | .ok segment =>
        if ¬ segment.ok ∨ segment.output = [] then
          .ok { status := -1, zgfx := segment.zgfx, dst := [], dstSize := 0 }
        else
          .ok { status := 1, zgfx := segment.zgfx, dst := segment.output,
                dstSize := segment.output.length } : Except Stop Decompressed) = .ok r) :
    r.dst.length = r.dstSize := by
  split at h
  · exact nomatch h
  · split_ifs at h
    · obtain rfl := Except.ok.inj h
      rfl
    · obtain rfl := Except.ok.inj h
      rfl

/-- Every byte that a successful call of `zgfx_decompress` hands back was written by it if and only if the
message does not announce more than its segments decode to. -/
theorem zgfxDecompress_determined_iff (zgfx : Context) (src : List UInt8) (srcSize : ℕ) :
    Determined zgfx src srcSize ↔ AnnouncesNoMore (src.take srcSize) := by
  have hfailed (r : Decompressed)
      (h : (.ok { status := -1, zgfx := zgfx, dst := [], dstSize := 0 } : Except Stop Decompressed) =
        .ok r) : r.dst.length = r.dstSize := by
    obtain rfl := Except.ok.inj h
    rfl
  unfold Determined AnnouncesNoMore zgfxDecompress announcedAndDecoded
  cases src.take srcSize with
  | nil => exact ⟨fun _ => nofun, fun _ r hr _ => hfailed r hr⟩
  | cons descriptor stream =>
    dsimp only
    by_cases hsingle : descriptor = ZGFX_SEGMENTED_SINGLE
    · have hno : descriptor ≠ ZGFX_SEGMENTED_MULTIPART := by
        rw [hsingle]
        decide
      simp only [if_pos hsingle, hno, false_and, if_false]
      exact ⟨fun _ => nofun, fun _ r hr _ => determined_single zgfx stream r hr⟩
    rw [if_neg hsingle]
    by_cases hmulti : descriptor = ZGFX_SEGMENTED_MULTIPART
    · rw [if_pos hmulti]
      by_cases hshort : stream.length < 6
      · rw [if_pos hshort, if_neg fun h => by omega]
        exact ⟨fun _ => nofun, fun _ r hr _ => hfailed r hr⟩
      rw [if_neg hshort]
      by_cases hcount : (stream.drop 6).length < readU16 stream * 4
      · rw [if_pos hcount, if_neg fun h => by omega]
        exact ⟨fun _ => nofun, fun _ r hr _ => hfailed r hr⟩
      · rw [if_neg hcount, if_pos ⟨hmulti, by omega, by omega⟩,
          decompressSegments_determined_iff zgfx (stream.drop 6) (readU32_lt _)]
        simp only [Option.map_eq_some_iff, Prod.mk.injEq]
        constructor
        · rintro h announced decoded ⟨total, htotal, rfl, rfl⟩
          exact h _ htotal
        · intro h total htotal
          exact h _ _ ⟨total, htotal, rfl, rfl⟩
    · simp only [hmulti, false_and, if_false]
      exact ⟨fun _ => nofun, fun _ r hr _ => hfailed r hr⟩

/-- A message that announces a byte and has no segment: the byte is handed back, and was not written. -/
theorem zgfxDecompress_not_determined :
    ¬ Determined zgfxContextNew [0xE1, 0, 0, 1, 0, 0, 0] 7 := by
  intro h
  have hloop : decompressSegments 0 1 ⟨0, zgfxContextNew, [], []⟩ =
      .ok { status := 1, zgfx := zgfxContextNew, dst := [], dstSize := 1 } := by
    rw [decompressSegments, iterate_inr (segmentStep_last (Nat.le_refl 0))]
  have hrun : zgfxDecompress zgfxContextNew [0xE1, 0, 0, 1, 0, 0, 0] 7 =
      .ok { status := 1, zgfx := zgfxContextNew, dst := [], dstSize := 1 } := by
    simpa [zgfxDecompress, ZGFX_SEGMENTED_SINGLE, ZGFX_SEGMENTED_MULTIPART, readU16, readU32]
      using hloop
  exact absurd (h _ hrun Int.one_nonneg) Nat.zero_ne_one

end FreeRDP.Zgfx
