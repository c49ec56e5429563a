import FreeRDP.Planar.Equiv.Grammar

/-!
# The three walkers over an encoded plane

When `planar_skip_plane_rle` has found the size of a plane, its source is of the grammar
(`coded_of_skip`), and both decoders turn it into the values of its codes (`walkers_agree`), as long as the
sizes fit the integers of the decoders.
-/

namespace FreeRDP.Planar

open Traced Iterate Relation

variable {src : ℕ → UInt8} {SrcSize nWidth nHeight n x used q : ℕ} {c c' : ℕ → UInt8}

/-! ### What has been skipped -/

theorem control_le (controlByte : ℕ) : (control controlByte).1 ≤ 47 ∧ (control controlByte).2 ≤ 15 := by
  have hrun : controlByte &&& 0x0F ≤ 15 := Nat.and_le_right
  have hraw : (controlByte >>> 4) &&& 0x0F ≤ 15 := Nat.and_le_right
  unfold control
  dsimp only
  split_ifs <;> dsimp only <;> omega

theorem lastCode_congr (h : ∀ k < x, c k = c' k) : lastCode c x = lastCode c' x := by
  unfold lastCode
  by_cases hzero : x = 0
  · rw [if_pos hzero, if_pos hzero]
  · rw [if_neg hzero, if_neg hzero, h (x - 1) (by omega)]

/-- The codes of a segment at `used`, behind those before `x`. -/
def segmentCodes (src : ℕ → UInt8) (x used cRawBytes : ℕ) (c : ℕ → UInt8) : ℕ → UInt8 :=
  let raw k := if k < x then c k else src (used + 1 + (k - x))
  fun k => if k < x + cRawBytes then raw k else lastCode raw (x + cRawBytes)

/-- What a round of the loop over a scanline has checked. -/
theorem skipStep_inl {s s' : ℕ × ℕ} (hsrc : SrcSize + 15 < 2 ^ 32) (hwidth : nWidth ≤ INT32_MAX)
    (h : skipStep src SrcSize nWidth s = .inl s') :
    s.1 < nWidth ∧ s.2 < SrcSize ∧
      s'.1 = s.1 + (control (src s.2).toNat).2 + (control (src s.2).toNat).1 ∧ s'.1 ≤ nWidth ∧
      s'.2 = s.2 + 1 + (control (src s.2).toNat).2 ∧ s'.2 ≤ SrcSize := by
  obtain ⟨x, used⟩ := s
  have hcontrol := control_le (src used).toNat
  have hmax : INT32_MAX < 2 ^ 31 := by decide
  dsimp only [skipStep] at h ⊢
  generalize control (src used).toNat = r at h hcontrol ⊢
  obtain ⟨nRunLength, cRawBytes⟩ := r
  dsimp only at h hcontrol ⊢
  split_ifs at h with hlt hend hlong hread
  cases h
  dsimp only at hlong hread ⊢
  rw [Nat.mod_eq_of_lt (a := used + 1) (by omega), Nat.mod_eq_of_lt (by omega)] at hread ⊢
  rw [Nat.mod_eq_of_lt (a := x + cRawBytes) (by omega), Nat.mod_eq_of_lt (by omega)] at hlong ⊢
  omega

theorem skipStep_inr {s : ℕ × ℕ} (h : skipStep src SrcSize nWidth s = .inr (some q)) :
    ¬ s.1 < nWidth ∧ q = s.2 := by
  obtain ⟨x, used⟩ := s
  dsimp only [skipStep] at h ⊢
  generalize control (src used).toNat = r at h
  obtain ⟨nRunLength, cRawBytes⟩ := r
  by_cases hlt : x < nWidth
  · rw [if_pos hlt] at h
    split_ifs at h <;> cases h
  · rw [if_neg hlt] at h
    exact ⟨hlt, (Option.some.inj (Sum.inr.inj h)).symm⟩

/-- A scanline that has been skipped is made of segments. -/
theorem segments_of_skip (hsrc : SrcSize + 15 < 2 ^ 32) (hwidth : nWidth ≤ INT32_MAX)
    (hx : x ≤ nWidth) (hused : used ≤ SrcSize)
    (h : iterate (skipStep src SrcSize nWidth) n (x, used) = some (some q)) (c : ℕ → UInt8) :
    ∃ c', (∀ k < x, c' k = c k) ∧ q ≤ SrcSize ∧
      ReflTransGen (Segment src nWidth c') (x, used) (nWidth, q) := by
  induction n generalizing x used c with
  | zero => cases h
  | succ n ih =>
    cases hstep : skipStep src SrcSize nWidth (x, used) with
    | inl s =>
      rw [iterate_inl hstep] at h
      obtain ⟨hlt, hend, hx', hle, hused', hread⟩ := skipStep_inl hsrc hwidth hstep
      obtain ⟨x', used'⟩ := s
      dsimp only at hlt hend hx' hle hused' hread
      generalize hcontrol : control (src used).toNat = r at hx' hused'
      obtain ⟨nRunLength, cRawBytes⟩ := r
      dsimp only at hx' hused'
      obtain ⟨c', hc', hq, hsegs⟩ := ih hle hread h (segmentCodes src x used cRawBytes c)
      refine ⟨c', fun k hk => ?_, hq, ReflTransGen.head ?_ hsegs⟩
      · rw [hc' k (by omega), segmentCodes]
        dsimp only
        rw [if_pos (by omega), if_pos hk]
      · constructor
        · exact hlt
        · rw [hcontrol]
          exact hx'
        · exact hle
        · rw [hcontrol]
          exact hused'
        · rw [hcontrol]
          intro i hi
          dsimp only at hi ⊢
          rw [hc' (x + i) (by omega), segmentCodes]
          dsimp only
          rw [if_pos (by omega), if_neg (by omega), Nat.add_sub_cancel_left]
        · rw [hcontrol]
          intro i hi
          dsimp only at hi ⊢
          rw [hc' (x + cRawBytes + i) (by omega), segmentCodes]
          dsimp only
          rw [if_neg (by omega)]
          refine lastCode_congr fun k hk => ?_
          rw [hc' k (by omega), segmentCodes]
          dsimp only
          rw [if_pos hk]
    | inr r =>
      rw [iterate_inr hstep] at h
      cases h
      obtain ⟨hend, rfl⟩ := skipStep_inr hstep
      obtain rfl : x = nWidth := Nat.le_antisymm hx (Nat.le_of_not_lt hend)
      exact ⟨c, fun _ _ => rfl, hused, ReflTransGen.refl⟩

theorem coded_of_skipRows (hsrc : SrcSize + 15 < 2 ^ 32) (hwidth : nWidth ≤ INT32_MAX)
    (hused : used ≤ SrcSize) (h : skipRows src SrcSize nWidth nHeight used = some (some n)) :
    ∃ (C : ℕ → ℕ → UInt8) (P : ℕ → ℕ), P 0 = used ∧ P nHeight = n ∧
      ∀ row < nHeight, ReflTransGen (Segment src nWidth (C row)) (0, P row) (nWidth, P (row + 1)) := by
  induction nHeight generalizing used with
  | zero =>
    have hn : used = n := Option.some.inj (Option.some.inj h)
    exact ⟨fun _ _ => 0, fun _ => used, rfl, hn, nofun⟩
  | succ rows ih =>
    obtain ⟨r, hr, h⟩ := Option.bind_eq_some_iff.mp h
    cases r with
    | none => cases h
    | some used' =>
      obtain ⟨c, -, hle, hsegs⟩ := segments_of_skip hsrc hwidth (Nat.zero_le _) hused hr fun _ => 0
      obtain ⟨C, P, hfirst, hlast, hP⟩ := ih hle h
      refine ⟨fun row => row.casesOn c C, fun row => row.casesOn used P, rfl, hlast, ?_⟩
      intro row hrow
      cases row with
      | zero =>
        show ReflTransGen (Segment src nWidth c) (0, used) (nWidth, P 0)
        rwa [hfirst]
      | succ row => exact hP row (by omega)

/-- A plane whose size has been found is of the grammar. -/
theorem coded_of_skip (hsrc : SrcSize + 15 < 2 ^ 32) (hwidth : nWidth ≤ INT32_MAX)
    (h : planarSkipPlaneRle src SrcSize nWidth nHeight = some (some n)) :
    n < 2 ^ 31 ∧ ∃ C, Coded src nWidth nHeight C n := by
  obtain ⟨r, hr, h⟩ := Option.bind_eq_some_iff.mp h
  cases r with
  | none => cases h
  | some used =>
    have hmax : INT32_MAX < 2 ^ 31 := by decide
    have h : (if used > INT32_MAX then failure else pure used : OptionT Option ℕ) = some (some n) := h
    by_cases hlong : used > INT32_MAX
    · rw [if_pos hlong] at h
      cases h
    · rw [if_neg hlong] at h
      obtain rfl : used = n := Option.some.inj (Option.some.inj h)
      obtain ⟨C, P, hP⟩ := coded_of_skipRows hsrc hwidth (Nat.zero_le _) hr
      exact ⟨by omega, C, P, hP⟩

/-! ### The targets -/

/-- Pixels of scanlines that do not overlap. -/
theorem pixel_inj {step stride x x' y y' : ℕ} (hpos : 0 < stride) (hx : stride * x < step)
    (hx' : stride * x' < step) (h : y * step + stride * x = y' * step + stride * x') :
    y = y' ∧ x = x' := by
  have hy : y = y' := by
    have hdiv := congrArg (· / step) h
    rw [Nat.add_comm, Nat.add_mul_div_right _ _ (by omega), Nat.div_eq_of_lt hx, Nat.add_comm (y' * step),
      Nat.add_mul_div_right _ _ (by omega), Nat.div_eq_of_lt hx'] at hdiv
    omega
  subst hy
  exact ⟨rfl, Nat.eq_of_mul_eq_mul_left hpos (Nat.add_left_cancel h)⟩

/-- The byte of a pixel of a plane without gaps. -/
def planePixel (nWidth row x : ℕ) : ℤ := row * nWidth + x

/-- The byte of a pixel, in the order in which the scanlines are decoded. -/
def Place.pixel (p : Place) (nHeight row x : ℕ) : ℤ :=
  (p.nYDst + p.rowOf nHeight row) * p.nDstStep + (p.nXDst + x) * 4 + p.nChannel

/-- The scanlines do not overlap, and their offsets fit the integers. -/
structure Place.Fits (p : Place) (nWidth nHeight : ℕ) : Prop where
  width : 4 * (nWidth : ℤ) ≤ p.nDstStep
  step : p.nDstStep ≤ INT32_MAX
  offset : ∀ y < nHeight, (p.nYDst + y) * p.nDstStep + p.nXDst * 4 + p.nChannel < 2 ^ 32

/-- `y`, as a natural number. -/
theorem Place.exists_rowOf (p : Place) {row : ℕ} (hrow : row < nHeight) :
    ∃ y < nHeight, p.rowOf nHeight row = y ∧ y = if p.vFlip then nHeight - 1 - row else row := by
  refine ⟨if p.vFlip then nHeight - 1 - row else row, ?_, ?_, rfl⟩
  · split_ifs <;> omega
  · unfold rowOf
    split_ifs <;> omega

section Targets

variable {row : ℕ} {p : Place}

theorem bmod_of_le {n : ℕ} (h : n ≤ INT32_MAX) : Int.bmod n (2 ^ 32) = n := by
  have hlt : n < 2 ^ 31 := Nat.lt_of_le_of_lt h (by decide)
  exact Int.bmod_eq_of_le (by omega) (by omega)

theorem onlyTarget_pixelAt (hoffset : ∀ y < nHeight, y * nWidth ≤ INT32_MAX) (hrow : row < nHeight) :
    (onlyTarget nWidth).pixelAt row x = planePixel nWidth row x := by
  have hmod := bmod_of_le (hoffset row hrow)
  rw [Int.natCast_mul] at hmod
  unfold Target.pixelAt onlyTarget planePixel
  dsimp only
  rw [hmod, Int.natCast_one, Int.one_mul]

theorem onlyTarget_fits (hoffset : ∀ y < nHeight, y * nWidth ≤ INT32_MAX) :
    (onlyTarget nWidth).Fits nWidth nHeight where
  inj {row x row' x'} hrow hx hrow' hx' h := by
    rw [onlyTarget_pixelAt hoffset hrow, onlyTarget_pixelAt hoffset hrow', planePixel, planePixel] at h
    have h : row * nWidth + 1 * x = row' * nWidth + 1 * x' := by
      rw [Nat.one_mul, Nat.one_mul]
      exact_mod_cast h
    exact pixel_inj Nat.one_pos (by omega) (by omega) h
  stride_pos := Nat.one_pos
  limit := (Nat.one_mul _).symm

theorem Place.Fits.pixelAt (h : p.Fits nWidth nHeight) (hrow : row < nHeight) :
    (p.target nWidth nHeight).pixelAt row x = p.pixel nHeight row x := by
  obtain ⟨y, hy, hrowOf, -⟩ := p.exists_rowOf hrow
  have hlt := h.offset y hy
  have hstep : 0 ≤ p.nDstStep := by
    have := h.width
    omega
  have hpos : 0 ≤ (p.nYDst + (y : ℤ)) * p.nDstStep := Int.mul_nonneg (by omega) hstep
  unfold Target.pixelAt Place.target Place.pixel
  dsimp only
  rw [hrowOf, Int.emod_eq_of_lt (by omega) hlt]
  omega

theorem Place.Fits.target_fits (h : p.Fits nWidth nHeight) :
    (p.target nWidth nHeight).Fits nWidth nHeight where
  inj {row x row' x'} hrow hx hrow' hx' heq := by
    rw [h.pixelAt hrow, h.pixelAt hrow', Place.pixel, Place.pixel] at heq
    obtain ⟨y, hy, hrowOf, hrowy⟩ := p.exists_rowOf hrow
    obtain ⟨y', hy', hrowOf', hrowy'⟩ := p.exists_rowOf hrow'
    have hwidth := h.width
    obtain ⟨step, hstep⟩ := Int.eq_ofNat_of_zero_le (show 0 ≤ p.nDstStep by omega)
    rw [hrowOf, hrowOf', hstep] at heq
    rw [hstep] at hwidth
    have hsum : ((p.nYDst : ℤ) + y) * step + 4 * x = (p.nYDst + y') * step + 4 * x' := by omega
    have heq : (p.nYDst + y) * step + 4 * x = (p.nYDst + y') * step + 4 * x' := by
      exact_mod_cast hsum
    obtain ⟨hrows, hcols⟩ := pixel_inj (by decide) (by omega) (by omega) heq
    refine ⟨?_, hcols⟩
    split_ifs at hrowy hrowy' <;> omega
  stride_pos := Nat.succ_pos 3
  limit := by
    have hwidth := h.width
    have hstep := h.step
    have hmax : INT32_MAX < 2 ^ 31 := by decide
    show nWidth * 4 % 2 ^ 32 = 4 * nWidth
    omega

end Targets

/-! ### The decoders after the skip -/

/-- Accesses in a plane whose pixels are at the same bytes. -/
theorem Access.Within.congr {f g : ℕ → ℕ → ℤ} (h : ∀ row < nHeight, ∀ x < nWidth, f row x = g row x)
    (a : Access) (ha : a.Within f nWidth nHeight n) : a.Within g nWidth nHeight n := by
  cases a with
  | load o => exact ha
  | store o =>
    obtain ⟨row, hrow, x, hx, rfl⟩ := ha
    exact ⟨row, hrow, x, hx, h row hrow x hx⟩

/-- A decoder whose pixels are at the given bytes. -/
theorem Target.decode_coded_at {t : Target} {f : ℕ → ℕ → ℤ} {C : ℕ → ℕ → UInt8}
    (hfit : t.Fits nWidth nHeight) (hpixel : ∀ row < nHeight, ∀ x < nWidth, t.pixelAt row x = f row x)
    (hcoded : Coded src nWidth nHeight C n) (hn : n < 2 ^ 31) (dst : ℤ → UInt8) :
    (t.decode src n nWidth nHeight dst).Safe (Access.Within f nWidth nHeight n) ∧
      ∃ dst', (t.decode src n nWidth nHeight dst).value = some (some ((n : ℤ), dst')) ∧
        ∀ row < nHeight, ∀ x < nWidth, dst' (f row x) = values C row x := by
  obtain ⟨hsafe, dst', hvalue, hvalues⟩ := t.decode_coded hfit hcoded hn dst
  refine ⟨hsafe.mono (Access.Within.congr hpixel), dst', hvalue, fun row hrow x hx => ?_⟩
  rw [← hpixel row hrow x hx]
  exact hvalues row hrow x hx

/-- When a size has been found for a plane, both decoders take the bytes of that size, write pixels of the
plane only, and agree on their values. -/
theorem walkers_agree (src : ℕ → UInt8) (SrcSize nWidth nHeight n : ℕ) (hsrc : SrcSize + 15 < 2 ^ 32)
    (hwidth : nWidth ≤ INT32_MAX) (hheight : nHeight ≤ INT32_MAX)
    (hskip : planarSkipPlaneRle src SrcSize nWidth nHeight = some (some n)) :
    ∃ value : ℕ → ℕ → UInt8,
      ((∀ y < nHeight, y * nWidth ≤ INT32_MAX) → ∀ dst,
        (planarDecompressPlaneRleOnly src n dst nWidth nHeight).Safe
            (Access.Within (planePixel nWidth) nWidth nHeight n) ∧
          ∃ dst', (planarDecompressPlaneRleOnly src n dst nWidth nHeight).value =
              some (some ((n : ℤ), dst')) ∧
            ∀ row < nHeight, ∀ x < nWidth, dst' (planePixel nWidth row x) = value row x) ∧
      ∀ p : Place, p.Fits nWidth nHeight → ∀ dst,
        (planarDecompressPlaneRle src n dst p nWidth nHeight).Safe
            (Access.Within (p.pixel nHeight) nWidth nHeight n) ∧
          ∃ dst', (planarDecompressPlaneRle src n dst p nWidth nHeight).value =
              some (some ((n : ℤ), dst')) ∧
            ∀ row < nHeight, ∀ x < nWidth, dst' (p.pixel nHeight row x) = value row x := by
  obtain ⟨hn, C, hcoded⟩ := coded_of_skip hsrc hwidth hskip
  refine ⟨values C, fun hoffset dst => ?_, fun p hp dst => ?_⟩
  · rw [planarDecompressPlaneRleOnly, if_neg (by omega)]
    exact Target.decode_coded_at (onlyTarget_fits hoffset)
      (fun row hrow x _ => onlyTarget_pixelAt hoffset hrow) hcoded hn dst
  · have hstep := hp.step
    rw [planarDecompressPlaneRle, if_neg (by omega)]
    exact Target.decode_coded_at hp.target_fits (fun row hrow x _ => hp.pixelAt hrow) hcoded hn dst

/-- Two scanlines of two pixels, the second of deltas. -/
def smallCode : ℕ → UInt8 := fun i => [0x20, 9, 9, 0x20, 2, 1].getD i 0

/-- Both decoders, the second one for the first channel of a flipped image. -/
theorem walkers_agree_small :
    (∃ dst', (planarDecompressPlaneRleOnly smallCode 6 (fun _ => 0) 2 2).value =
        some (some (((6 : ℕ) : ℤ), dst'))) ∧
      ∃ dst', (planarDecompressPlaneRle smallCode 6 (fun _ => 0) ⟨8, 0, 0, 0, true⟩ 2 2).value =
        some (some (((6 : ℕ) : ℤ), dst')) := by
  have hfits : Place.Fits ⟨8, 0, 0, 0, true⟩ 2 2 := ⟨by decide, by decide, by decide⟩
  obtain ⟨value, honly, hplace⟩ := walkers_agree smallCode 6 2 2 6 (by decide) (by decide) (by decide) rfl
  obtain ⟨-, only, honly, -⟩ := honly (by decide) fun _ => 0
  obtain ⟨-, placed, hplaced, -⟩ := hplace _ hfits fun _ => 0
  exact ⟨⟨only, honly⟩, placed, hplaced⟩

/-- The size of a plane without pixels is found, however many scanlines there are. -/
theorem planarSkipPlaneRle_zero (src : ℕ → UInt8) (SrcSize nHeight : ℕ) :
    planarSkipPlaneRle src SrcSize 0 nHeight = some (some 0) := by
  have hrows : skipRows src SrcSize 0 nHeight 0 = some (some 0) := by
    induction nHeight with
    | zero => rfl
    | succ rows ih => exact ih
  exact Option.bind_eq_some_iff.mpr ⟨some 0, hrows, rfl⟩

/-- More scanlines than an `INT32` counts are refused by a decoder. -/
theorem not_walkers_agree :
    planarSkipPlaneRle (fun _ => 0) 0 0 (2 ^ 31) = some (some 0) ∧
      ∀ dst, (planarDecompressPlaneRleOnly (fun _ => 0) 0 dst 0 (2 ^ 31)).value = some none := by
  constructor
  · exact planarSkipPlaneRle_zero _ _ _
  · intro dst
    rw [planarDecompressPlaneRleOnly, if_pos (Or.inl (by decide)), value_pure]

end FreeRDP.Planar
