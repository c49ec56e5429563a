import FreeRDP.ClearCodec.Equiv.Entries

/-!
# The layers of a ClearCodec message keep the invariant

One statement for each function of the decoder, in the order of `ClearCodec.Basic`.
-/

namespace FreeRDP.Clear

open Triples

variable {env : Env} {call : Call} {fit : Prop} {facts : List Event} {held : List (Cache × ℕ × ℕ)}

/-! ### Copies to the destination -/

/-- What `convert_color` leaves of a side of the rectangle ends inside the destination, unless it is
too long for the copy. -/
theorem clipped_le {n x limit : ℕ} (hx : x + 0xFFFF < 2 ^ 32 ∧ x ≤ limit + 2 ^ 31)
    (hn : n ≤ 0xFFFF) (hlt : clipped n x limit < 2 ^ 31) : x + clipped n x limit ≤ limit := by
  unfold clipped at *
  split_ifs at * <;> omega

theorem clipped_le_self {n x limit : ℕ} (hx : x + 0xFFFF < 2 ^ 32 ∧ x ≤ limit + 2 ^ 31)
    (hn : n ≤ 0xFFFF) (hlt : clipped n x limit < 2 ^ 31) : clipped n x limit ≤ n := by
  unfold clipped at *
  split_ifs at * <;> omega

theorem inside_of_le {x y width height : ℕ}
    (h : height = 0 ∨ (x + width ≤ call.nDstWidth ∧ y + height ≤ call.nDstHeight)) :
    (Event.dst x y width height).Inside call := by
  intro i hi j hj
  omega

theorem stays_imageCopy {srcFormat x y width height : ℕ}
    (hin : call.Near → (∀ r ∈ facts, r.Sane call) → width < 2 ^ 31 → height < 2 ^ 31 →
      height = 0 ∨ (x + (if formatsEqualNoAlpha srcFormat call.dstFormat then width
        else max 1 width) ≤ call.nDstWidth ∧ y + height ≤ call.nDstHeight)) :
    Stays env call fit facts held (imageCopy call srcFormat x y width height) := by
  unfold imageCopy
  refine guarded fun hsize => ?_
  split_ifs with heq
  · refine stays_emit (fun hnear hsane => ?_) trivial
    have hin := hin hnear hsane hsize.2 hsize.1
    rw [if_pos heq] at hin
    exact inside_of_le hin
  · refine Stays.onlyIf fun _ => stays_emit (fun hnear hsane => ?_) trivial
    have hin := hin hnear hsane hsize.2 hsize.1
    rw [if_neg heq] at hin
    exact inside_of_le hin

/-- A copy from a source of the destination's own format, as the residual and the glyph layer make
it. -/
theorem stays_convertColor_same {srcFormat : ℕ} (hformat : srcFormat = call.dstFormat)
    (hw : call.nWidth ≤ 0xFFFF) (hh : call.nHeight ≤ 0xFFFF) :
    Stays env call fit facts held
      (convertColor call srcFormat call.nXDst call.nYDst call.nWidth call.nHeight) := by
  refine stays_imageCopy fun hnear _ hwidth hheight => ?_
  unfold Call.Near at hnear
  have hequal : formatsEqualNoAlpha srcFormat call.dstFormat = true := by
    rw [hformat, formatsEqualNoAlpha, decide_eq_true rfl]
  rw [if_pos hequal]
  exact Or.inr ⟨clipped_le (by omega) hw hwidth, clipped_le (by omega) hh hheight⟩

/-! ### The residual layer -/

theorem stays_clearResizeBuffer (width height : ℕ) :
    Stays env call fit facts held (clearResizeBuffer env width height) := by
  unfold clearResizeBuffer
  refine stays_getClear.bind fun clear => ?_
  dsimp only
  split_ifs
  · exact (stays_ask _).bind fun _ => (stays_require _).bind fun _ =>
      stays_modifyClear (fun _ => rfl) fun _ => rfl
  · exact stays_pure _

theorem stays_readRunLength (first : ℕ) : Stays env call fit facts held (readRunLength first) := by
  unfold readRunLength
  split_ifs
  · refine (stays_requireBytes 2).bind fun _ => stays_readU16.bind fun second => ?_
    split_ifs
    · exact (stays_requireBytes 4).bind fun _ => stays_readU32.bind fun _ => stays_pure _
    · exact stays_pure _
  · exact stays_pure _

/-- The pixels written to `TempBuffer` are those counted, as long as the count does not wrap. -/
theorem stays_residualLoop {residualByteCount pixelCount : ℕ}
    (hcount : pixelCount ≤ call.nWidth * call.nHeight) (rounds : ℕ) {suboffset pixelIndex written : ℕ}
    (hindex : (∀ r ∈ facts, r.Sane call) → written = pixelIndex) :
    Stays env call fit facts held
      (residualLoop residualByteCount pixelCount rounds suboffset pixelIndex written) := by
  induction rounds generalizing facts suboffset pixelIndex written with
  | zero => exact stays_pure _
  | succ rounds ih =>
    rw [residualLoop]
    split_ifs
    · refine (stays_requireBytes 4).bind fun _ => (stays_seek 3).bind fun _ =>
        stays_readU8.bind fun first => (stays_readRunLength first).bind fun r => ?_
      obtain ⟨runLengthFactor, bytes⟩ := r
      -- from here on the header of the run is a fact
      refine Stays.note trivial trivial (guarded fun hle => ?_)
      have hsane : (∀ r ∈ Event.run pixelIndex runLengthFactor :: facts, r.Sane call) →
          written = pixelIndex ∧ pixelIndex + runLengthFactor < 2 ^ 32 := fun h =>
        ⟨hindex fun r hr => h r (List.mem_cons_of_mem _ hr), h _ List.mem_cons_self⟩
      refine stays_getClear.bind fun clear => ?_
      refine Stays.bind (Stays.onlyIf fun _ => stays_emit (fun _ h => ?_) trivial) fun _ => ?_
      · obtain ⟨hwritten, hlt⟩ := hsane h
        show written + runLengthFactor ≤ call.nWidth * call.nHeight
        omega
      · refine ih fun h => ?_
        obtain ⟨hwritten, hlt⟩ := hsane h
        omega
    · exact stays_pure _

theorem stays_clearDecompressResidualData (hw : call.nWidth ≤ 0xFFFF) (hh : call.nHeight ≤ 0xFFFF)
    (residualByteCount : ℕ) :
    Stays env call fit facts held (clearDecompressResidualData env call residualByteCount) := by
  unfold clearDecompressResidualData
  refine (stays_requireBytes _).bind fun _ => (stays_clearResizeBuffer _ _).bind fun _ =>
    stays_remaining.bind fun left => ?_
  refine (stays_residualLoop (Nat.mod_le _ _) _ fun _ => rfl).bind fun pixelIndex => ?_
  refine (stays_require _).bind fun _ => Stays.bind_of getClear_format fun clear hformat => ?_
  exact stays_convertColor_same hformat hw hh

/-! ### The bands layer -/

/-- The short bar that is returned has as many pixels as it is said to have. -/
theorem shortVBarMiss_spec (hfree : Free .shortVBar held) (vBarHeader : ℕ) :
    Triple (Inv env call fit [] []) (Inv env call fit facts held) (shortVBarMiss env vBarHeader)
      fun r => Inv env call fit facts ((.shortVBar, r.1, r.2.2.1) :: held) := by
  unfold shortVBarMiss
  dsimp only
  refine guarded fun _ => guarded fun _ => Triple.bind (stays_requireBytes _) fun _ =>
    Triple.bind stays_getClear fun clear => guarded fun _ =>
    Triple.bind (setCount_spec hfree _ _) fun _ => guarded fun _ => ?_
  refine Triple.bind (stays_touchEntry fun _ _ => ⟨_, le_rfl, List.mem_cons_self⟩) fun _ =>
    Triple.bind (stays_seek _) fun _ =>
    Triple.bind (stays_modifyClear (fun _ => rfl) fun _ => rfl) fun _ => ?_
  exact fun _ h => h

theorem cutCount_le (vBarPixelCount y count : ℕ) : cutCount vBarPixelCount y count ≤ count := by
  unfold cutCount
  split_ifs <;> omega

/-- The background above, the short bar and the background below make up the bar. -/
theorem cutCounts_le (height yOn count : ℕ) :
    cutCount height 0 yOn + cutCount height yOn count +
      (if height > yOn + count then height - (yOn + count) else 0) ≤ height := by
  unfold cutCount
  split_ifs <;> omega

theorem stays_recount {cache : Cache} {i n : ℕ} (hr : (cache, i, n) ∈ held) {x : M ℕ}
    (hx : Stays env call fit facts held x) :
    Stays env call fit facts held (do
      let e ← getEntry cache i
      setEntry cache i { e with count := n }
      x) := by
  intro s h
  have hn : (s.clear.entries cache i).count = n := h.held _ hr
  refine hx (s.put cache i { s.clear.entries cache i with count := n }) (h.put cache i _ ?_ ?_)
  · intro hfit
    have hok := h.ok hfit cache i
    exact ⟨hn ▸ hok.count_le, hok.size_le⟩
  · rintro r hmem ⟨hcache, hi⟩
    subst hcache hi
    exact hn.symm.trans (h.held r hmem)

theorem stays_updateVBar {shortIndex vBarShortPixelCount : ℕ} (hfree : Free .vBar held)
    (hshort : (.shortVBar, shortIndex, vBarShortPixelCount) ∈ held) (vBarHeight vBarYOn : ℕ) :
    Stays env call fit facts held
      (updateVBar env vBarHeight shortIndex vBarYOn vBarShortPixelCount) := by
  unfold updateVBar
  refine stays_getClear.bind fun clear => guarded fun _ => ?_
  refine Stays.holding (setCount_spec hfree _ _) fun _ => ?_
  refine guarded fun _ => Stays.bind (Stays.onlyIf fun _ => ?_) fun _ =>
    Stays.bind (Stays.onlyIf fun _ => ?_) fun _ => stays_recount List.mem_cons_self ?_
  · exact stays_touchEntry fun _ _ => ⟨_, cutCount_le _ _ _, List.mem_cons_of_mem _ hshort⟩
  · exact stays_touchEntry fun _ _ => ⟨_, cutCounts_le _ _ _, List.mem_cons_self⟩
  · refine Stays.bind (stays_modifyClear ?_ ?_) fun _ => stays_pure _
    · exact fun _ => rfl
    · exact fun _ => rfl

theorem stays_selectVBar (hshort : Free .shortVBar held) (hbar : Free .vBar held)
    (vBarHeader vBarHeight : ℕ) :
    Stays env call fit facts held (selectVBar env vBarHeader vBarHeight) := by
  have hcons : ∀ i n, Free .vBar ((.shortVBar, i, n) :: held) := by
    intro i n r hr
    rcases List.mem_cons.mp hr with rfl | hr
    · exact Cache.noConfusion
    · exact hbar r hr
  unfold selectVBar
  split_ifs
  · refine (stays_requireBytes 1).bind fun _ => stays_readU8.bind fun vBarYOn =>
      Stays.holding (getEntry_spec _ _) fun short => ?_
    exact (stays_updateVBar (hcons _ _) List.mem_cons_self _ _).bind fun _ => stays_pure _
  · refine Stays.holding (shortVBarMiss_spec hshort vBarHeader) fun r => ?_
    obtain ⟨shortIndex, vBarYOn, vBarShortPixelCount, bytes⟩ := r
    exact (stays_updateVBar (hcons _ _) List.mem_cons_self _ _).bind fun _ => stays_pure _
  · refine (stays_getEntry _ _).bind fun e => Stays.bind (Stays.onlyIf fun _ => ?_) fun _ =>
      stays_pure _
    exact stays_setCount hbar _ _

theorem stays_drawVBar (hw : call.nWidth ≤ 0xFFFF) {xStart xEnd yStart yEnd i index : ℕ}
    (hx : xStart < 2 ^ 16) (hy : yStart < 2 ^ 16) (hi : i < xEnd - xStart + 1)
    (hband : .band xStart xEnd yStart yEnd ∈ facts)
    (hheld : (.vBar, index, yEnd - yStart + 1) ∈ held) :
    Stays env call fit facts held (drawVBar call xStart yStart i index) := by
  unfold drawVBar
  split_ifs with hin
  · refine Stays.bind_of (getEntry_held hheld) fun e hcount => ?_
    rw [hcount]
    refine guarded fun _ => Stays.bind (stays_touchEntry fun _ _ => ⟨_, ?_, hheld⟩) fun _ => ?_
    · split_ifs <;> omega
    · refine stays_emit (fun hnear hsane => inside_of_le ?_) trivial
      have hsane := hsane _ hband
      unfold Event.Sane at hsane
      unfold Call.Near at hnear
      split_ifs <;> omega
  · exact stays_pure _

theorem stays_vBarLoop (hw : call.nWidth ≤ 0xFFFF) (hshort : Free .shortVBar held)
    (hbar : Free .vBar held) {xStart xEnd yStart yEnd : ℕ} (hx : xStart < 2 ^ 16)
    (hy : yStart < 2 ^ 16) (hband : .band xStart xEnd yStart yEnd ∈ facts) (n : ℕ) {i suboffset : ℕ}
    (hn : i + n ≤ xEnd - xStart + 1) :
    Stays env call fit facts held (vBarLoop env call xStart yStart yEnd n i suboffset) := by
  induction n generalizing i suboffset with
  | zero => exact stays_pure _
  | succ n ih =>
    rw [vBarLoop]
    refine (stays_requireBytes 2).bind fun _ => stays_readU16.bind fun vBarHeader =>
      guarded fun _ => (stays_selectVBar hshort hbar _ _).bind fun r => ?_
    obtain ⟨index, bytes⟩ := r
    refine (getEntry_spec .vBar index).bind fun e => ?_
    -- whichever way the bar was found, it now gets the height of the band
    have hheight : Triple (Inv env call fit [] [])
      (Inv env call fit facts ((.vBar, index, e.count) :: held))
        (onlyIf (e.count ≠ yEnd - yStart + 1) (setCount env .vBar index (yEnd - yStart + 1)))
        fun _ => Inv env call fit facts ((.vBar, index, yEnd - yStart + 1) :: held) := by
      unfold onlyIf
      split_ifs with hcount
      · exact (setCount_spec hbar _ _).conseq (fun _ h => h.release) fun _ _ h => h
      · rw [← not_not.mp hcount]
        exact stays_pure ()
    have hi : i < xEnd - xStart + 1 := by omega
    refine hheight.bind fun _ =>
      Triple.bind (stays_drawVBar hw hx hy hi hband List.mem_cons_self) fun _ => ?_
    exact (ih (by omega)).conseq (fun _ h => h.release) fun _ _ h => h

theorem stays_bandsLoop (hw : call.nWidth ≤ 0xFFFF) (hshort : Free .shortVBar held)
    (hbar : Free .vBar held) (bandsByteCount rounds : ℕ) {suboffset : ℕ} :
    Stays env call fit facts held (bandsLoop env call bandsByteCount rounds suboffset) := by
  induction rounds generalizing facts suboffset with
  | zero => exact stays_pure _
  | succ rounds ih =>
    rw [bandsLoop]
    split_ifs
    · refine (stays_requireBytes 11).bind fun _ => Stays.bind_of readU16_lt fun xStart hx =>
        stays_readU16.bind fun xEnd => Stays.bind_of readU16_lt fun yStart hy =>
        stays_readU16.bind fun yEnd => (stays_seek 3).bind fun _ => guarded fun _ => guarded fun _ =>
        Stays.note trivial trivial ?_
      exact (stays_vBarLoop hw hshort hbar hx hy List.mem_cons_self _ (by omega)).bind fun _ => ih
    · exact stays_pure _

theorem stays_clearDecompressBandsData (hw : call.nWidth ≤ 0xFFFF) (hshort : Free .shortVBar held)
    (hbar : Free .vBar held) (bandsByteCount : ℕ) :
    Stays env call fit facts held (clearDecompressBandsData env call bandsByteCount) := by
  unfold clearDecompressBandsData
  exact (stays_requireBytes _).bind fun _ => stays_remaining.bind fun left =>
    stays_bandsLoop hw hshort hbar _ _

/-! ### The subcodecs layer -/

/-- The RLEX subcodec looks at each pixel before it writes it. -/
theorem stays_putRlexPixel (nXDstRel nYDstRel width : ℕ) (xy : ℕ × ℕ) :
    Stays env call fit facts held (putRlexPixel call nXDstRel nYDstRel width xy) := by
  unfold putRlexPixel
  refine Stays.bind (Stays.onlyIf fun hin => stays_emit (fun _ _ => ?_) trivial) fun _ =>
    stays_pure _
  exact inside_of_le (Or.inr ⟨hin.1, hin.2.1⟩)

theorem stays_putRlexPixels (nXDstRel nYDstRel width n : ℕ) {xy : ℕ × ℕ} :
    Stays env call fit facts held (putRlexPixels call nXDstRel nYDstRel width n xy) := by
  induction n generalizing xy with
  | zero => exact stays_pure _
  | succ n ih => exact (stays_putRlexPixel _ _ _ _).bind fun _ => ih

theorem stays_rlexLoop (bitmapDataByteCount paletteCount nXDstRel nYDstRel width pixelCount : ℕ)
    (rounds : ℕ) {bitmapDataOffset pixelIndex : ℕ} {xy : ℕ × ℕ} :
    Stays env call fit facts held
      (rlexLoop call bitmapDataByteCount paletteCount nXDstRel nYDstRel width pixelCount rounds
        bitmapDataOffset pixelIndex xy) := by
  induction rounds generalizing bitmapDataOffset pixelIndex xy with
  | zero => exact stays_pure _
  | succ rounds ih =>
    rw [rlexLoop]
    split_ifs
    · refine (stays_requireBytes 2).bind fun _ => stays_readU8.bind fun tmp =>
        stays_readU8.bind fun first => (stays_readRunLength first).bind fun r => ?_
      obtain ⟨runLengthFactor, bytes⟩ := r
      refine guarded fun _ => guarded fun _ => guarded fun _ => guarded fun _ => ?_
      refine (stays_putRlexPixels _ _ _ _).bind fun _ => guarded fun _ => ?_
      exact (stays_putRlexPixels _ _ _ _).bind fun _ => ih
    · exact stays_pure _

theorem stays_clearDecompressSubcodeRlex
    (bitmapDataByteCount width height nXDstRel nYDstRel : ℕ) :
    Stays env call fit facts held
      (clearDecompressSubcodeRlex call bitmapDataByteCount width height nXDstRel nYDstRel) := by
  unfold clearDecompressSubcodeRlex
  refine (stays_requireBytes _).bind fun _ => (stays_requireBytes 1).bind fun _ =>
    stays_readU8.bind fun paletteCount => guarded fun _ => (stays_requireBytes _).bind fun _ =>
    (stays_seek _).bind fun _ => stays_remaining.bind fun left => ?_
  exact (stays_rlexLoop _ _ _ _ _ _ _).bind fun _ => stays_require _

/-- The bitmap is decoded to where its header says. -/
theorem stays_decodeSubcodec {subcodecId xStart yStart width height : ℕ} (hx : xStart < 2 ^ 16)
    (hy : yStart < 2 ^ 16) (hwidth : width ≤ 0xFFFF) (hheight : height ≤ 0xFFFF)
    (hheader : .subcodec subcodecId xStart yStart width height ∈ facts) (bitmapDataByteCount : ℕ) :
    Stays env call fit facts held
      (decodeSubcodec env call subcodecId bitmapDataByteCount width height
        ((call.nXDst + xStart) % 2 ^ 32) ((call.nYDst + yStart) % 2 ^ 32)) := by
  have hmod : call.Near → (call.nXDst + xStart) % 2 ^ 32 = call.nXDst + xStart ∧
      (call.nYDst + yStart) % 2 ^ 32 = call.nYDst + yStart := by
    unfold Call.Near
    omega
  unfold decodeSubcodec
  split
  · refine guarded fun _ => Stays.bind (stays_imageCopy fun hnear hsane hcw hch => ?_) fun _ =>
      stays_seek _
    have hsane : call.nXDst + xStart ≠ call.nDstWidth ∨
      formatsEqualNoAlpha PIXEL_FORMAT_BGR24 call.dstFormat = true := hsane _ hheader
    rw [(hmod hnear).1] at hcw ⊢
    rw [(hmod hnear).2] at hch ⊢
    unfold Call.Near at hnear
    have hcx := clipped_le (by omega) hwidth hcw
    have hcy := clipped_le (by omega) hheight hch
    split_ifs with hequal
    · exact Or.inr ⟨hcx, hcy⟩
    · have hne := hsane.resolve_right hequal
      exact Or.inr ⟨by omega, hcy⟩
  · refine (stays_requireBytes _).bind fun _ => (stays_ask _).bind fun _ => guarded fun _ =>
      Stays.bind (stays_imageCopy fun hnear hsane _ _ => ?_) fun _ => stays_seek _
    have hsane : height = 0 ∨ (call.nXDst + xStart + max 1 width ≤ call.nDstWidth ∧
      call.nYDst + yStart + height ≤ call.nDstHeight) := hsane _ hheader
    rw [(hmod hnear).1, (hmod hnear).2]
    split_ifs <;> omega
  · exact stays_clearDecompressSubcodeRlex _ _ _ _ _
  · exact stays_throw

theorem stays_subcodecsLoop (hw : call.nWidth ≤ 0xFFFF) (hh : call.nHeight ≤ 0xFFFF)
    (subcodecByteCount rounds : ℕ) {suboffset : ℕ} :
    Stays env call fit facts held (subcodecsLoop env call subcodecByteCount rounds suboffset) := by
  induction rounds generalizing facts suboffset with
  | zero => exact stays_pure _
  | succ rounds ih =>
    rw [subcodecsLoop]
    split_ifs
    · refine (stays_requireBytes 13).bind fun _ => Stays.bind_of readU16_lt fun xStart hx =>
        Stays.bind_of readU16_lt fun yStart hy => stays_readU16.bind fun width =>
        stays_readU16.bind fun height => stays_readU32.bind fun bitmapDataByteCount =>
        stays_readU8.bind fun subcodecId => (stays_requireBytes _).bind fun _ => ?_
      refine Stays.note trivial trivial (guarded fun hwidth => guarded fun hheight => ?_)
      refine Stays.bind (stays_clearResizeBuffer _ _) fun _ => Stays.bind ?_ fun _ => ih
      exact stays_decodeSubcodec hx hy (hwidth.trans hw) (hheight.trans hh) List.mem_cons_self _
    · exact stays_pure _

theorem stays_clearDecompressSubcodecsData (hw : call.nWidth ≤ 0xFFFF) (hh : call.nHeight ≤ 0xFFFF)
    (subcodecByteCount : ℕ) :
    Stays env call fit facts held (clearDecompressSubcodecsData env call subcodecByteCount) := by
  unfold clearDecompressSubcodecsData
  exact (stays_requireBytes _).bind fun _ => stays_remaining.bind fun left =>
    stays_subcodecsLoop hw hh _ _

/-! ### The glyph layer -/

theorem mul_lt_two_pow {width height : ℕ} (hw : width ≤ 0xFFFF) (hh : height ≤ 0xFFFF) :
    width * height < 2 ^ 32 :=
  (Nat.mul_le_mul hw hh).trans_lt (by decide)

/-- A glyph is drawn from an entry that holds it. -/
theorem stays_drawGlyph (hw : call.nWidth ≤ 0xFFFF) (hh : call.nHeight ≤ 0xFFFF) (glyphIndex : ℕ) :
    Stays env call fit facts held (drawGlyph call glyphIndex) := by
  unfold drawGlyph
  refine Stays.holding (getEntry_spec _ _) fun e => guarded fun _ => guarded fun hcount => ?_
  refine Stays.bind (Stays.onlyIf fun hpos => ?_) fun _ =>
    Stays.bind_of getClear_format fun clear hformat => stays_convertColor_same hformat hw hh
  refine stays_touchEntry fun _ hnear => ⟨_, ?_, List.mem_cons_self⟩
  obtain ⟨hlw, hlh, hpw, hph⟩ := hpos
  unfold Call.Near at hnear
  have hcw := clipped_le_self (by omega) hw hlw
  have hch := clipped_le_self (by omega) hh hlh
  rw [Nat.mod_eq_of_lt (mul_lt_two_pow hw hh)] at hcount
  -- the last line of the copy ends in the last line of the glyph
  calc _ ≤ (call.nHeight - 1) * call.nWidth + call.nWidth :=
        Nat.add_le_add (Nat.mul_le_mul_right _ (Nat.sub_le_sub_right hch 1)) hcw
    _ = (call.nHeight - 1 + 1) * call.nWidth := (Nat.succ_mul _ _).symm
    _ = call.nWidth * call.nHeight := by rw [Nat.sub_add_cancel (Nat.le_trans hph hch), Nat.mul_comm]
    _ ≤ e.count := hcount

/-- The entry of the glyph that is to be stored at the end of the call. -/
def glyphHeld (call : Call) (glyph : Option ℕ) : List (Cache × ℕ × ℕ) :=
  glyph.toList.map fun i => (.glyph, i, call.nWidth * call.nHeight)

theorem glyphHeld_free {cache : Cache} (hcache : cache ≠ .glyph) (glyph : Option ℕ) :
    Free cache (glyphHeld call glyph) := by
  intro r hr
  obtain ⟨i, -, rfl⟩ := List.mem_map.mp hr
  exact hcache.symm

/-- If a glyph is to be stored at the end, there is room for it. -/
theorem clearDecompressGlyphData_spec (hw : call.nWidth ≤ 0xFFFF) (hh : call.nHeight ≤ 0xFFFF)
    (glyphFlags : ℕ) :
    Triple (Inv env call fit [] []) (Inv env call fit facts [])
      (clearDecompressGlyphData env call glyphFlags)
      fun glyph => Inv env call fit facts (glyphHeld call glyph) := by
  unfold clearDecompressGlyphData
  refine guarded fun _ => ?_
  split
  · exact fun _ h => h
  · refine guarded fun _ => Triple.bind (stays_requireBytes 2) fun _ =>
      Triple.bind stays_readU16 fun glyphIndex => guarded fun _ => ?_
    split
    · exact Triple.bind (stays_drawGlyph hw hh glyphIndex) fun _ _ h => h
    · refine Triple.bind (enterGlyph_spec (fun r hr => absurd hr List.not_mem_nil) glyphIndex)
        fun _ s h => ?_
      rw [Nat.mod_eq_of_lt (mul_lt_two_pow hw hh)] at h
      exact h

theorem stays_storeGlyph (glyph : Option ℕ) :
    Stays env call fit facts (glyphHeld call glyph) (storeGlyph call glyph) := by
  cases glyph with
  | none => exact stays_pure ()
  | some i => exact stays_touchEntry fun _ _ => ⟨_, le_rfl, List.mem_cons_self⟩

/-! ### A whole call -/

theorem stays_decompressLayers (hw : call.nWidth ≤ 0xFFFF) (hh : call.nHeight ≤ 0xFFFF)
    (hshort : Free .shortVBar held) (hbar : Free .vBar held) :
    Stays env call fit facts held (decompressLayers env call) := by
  unfold decompressLayers
  refine stays_readU32.bind fun residualByteCount => stays_readU32.bind fun bandsByteCount =>
    stays_readU32.bind fun subcodecByteCount => ?_
  refine Stays.bind (Stays.onlyIf fun _ => ?_) fun _ => Stays.bind (Stays.onlyIf fun _ => ?_) fun _ =>
    Stays.onlyIf fun _ => ?_
  · exact stays_clearDecompressResidualData hw hh _
  · exact stays_clearDecompressBandsData hw hshort hbar _
  · exact stays_clearDecompressSubcodecsData hw hh _

/-- A call has done nothing, or its format is set and the invariant holds. -/
def Settled (env : Env) (call : Call) (fit : Prop) (clear : Context) (s : State) : Prop :=
  (s.clear = clear ∧ s.log = []) ∨ Inv env call fit [] [] s

section Call

variable {s : State}

theorem requireBytes_eq (n : ℕ) (s : State) :
    requireBytes n s = if n ≤ s.stream.length then .ok () s else .error () s := by
  show require (n ≤ s.stream.length) s = _
  unfold require
  split_ifs <;> rfl

/-- The header sets the format of the context, unless it is missing. -/
theorem readHeader_spec (hlog : s.log = []) (halloc : fit → env.Allocates)
    (hok : fit → ∀ cache i, (s.clear.entries cache i).Ok (bytesPerPixel call.dstFormat)) :
    Triple (Settled env call fit s.clear) (fun s' => s' = s) (readHeader call)
      fun _ => Inv env call fit [] [] := by
  have hrequire : Triple (Settled env call fit s.clear) (fun s' => s' = s) (requireBytes 2)
      fun _ s' => s' = s := by
    rintro s' rfl
    rw [requireBytes_eq]
    split_ifs
    · rfl
    · exact Or.inl ⟨rfl, hlog⟩
  refine hrequire.bind fun _ => ?_
  refine Triple.bind (Q := fun _ => Inv env call fit [] []) ?_ fun _ => ?_
  · rintro s' rfl
    exact
      { alloc := halloc
        format := rfl
        safe := fun _ _ e he => absurd he (by rw [show State.log _ = [] from hlog]; exact List.not_mem_nil)
        mem := fun e he => absurd he List.not_mem_nil
        ok := hok
        held := fun r hr => absurd hr List.not_mem_nil
        within := fun _ _ e he => absurd he
          (by rw [show State.log _ = [] from hlog]; exact List.not_mem_nil) }
  · refine Triple.conseq_error ?_ fun _ h => Or.inr h
    refine stays_readU8.bind fun glyphFlags => stays_readU8.bind fun seqNumber =>
      Stays.bind (stays_modifyClear ?_ ?_) fun _ => stays_getClear.bind fun clear =>
      guarded fun _ => Stays.bind (stays_modifyClear ?_ ?_) fun _ =>
      Stays.bind (Stays.onlyIf fun _ => stays_modifyClear ?_ ?_) fun _ => stays_pure _
    any_goals exact fun _ => rfl
    all_goals
      intro clear
      split_ifs <;> rfl

theorem decompressBody_spec (hw : call.nWidth ≤ 0xFFFF) (hh : call.nHeight ≤ 0xFFFF)
    (hlog : s.log = []) (halloc : fit → env.Allocates)
    (hok : fit → ∀ cache i, (s.clear.entries cache i).Ok (bytesPerPixel call.dstFormat)) :
    Triple (Settled env call fit s.clear) (fun s' => s' = s) (decompressBody env call)
      fun _ => Inv env call fit [] [] := by
  unfold decompressBody
  refine (readHeader_spec hlog halloc hok).bind fun glyphFlags => ?_
  refine Triple.conseq_error (E := Inv env call fit [] []) ?_ fun _ h => Or.inr h
  refine (clearDecompressGlyphData_spec hw hh glyphFlags).bind fun glyph => ?_
  have hstays : Stays env call fit [] (glyphHeld call glyph) (do
      decompressLayers env call
      storeGlyph call glyph) :=
    (stays_decompressLayers hw hh (glyphHeld_free (by decide) glyph)
      (glyphHeld_free (by decide) glyph)).bind fun _ => stays_storeGlyph glyph
  refine Triple.bind stays_remaining fun left => ?_
  split
  · exact (stays_require _).conseq (fun _ h => h) fun _ _ h => h.weaken
  · exact hstays.conseq (fun _ h => h) fun _ _ h => h.weaken

end Call

end FreeRDP.Clear
