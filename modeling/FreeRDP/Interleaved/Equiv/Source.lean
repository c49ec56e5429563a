import FreeRDP.Interleaved.Equiv.Destination

/-!
# What the interleaved decoder reads of its source

The decoder checks that its source has not ended before it reads an order and, for most orders, a pixel;
it never checks that the whole header, the whole pixel or the next byte of a mask is there.
`Call.rleDecompressTraced_inSource_iff` says that the source is not left if and only if these are there in
every round (`Call.Fits`).
-/

namespace FreeRDP.Interleaved

open Traced

variable {c : Call} {s s' : Cursor} {code k n : ℕ} {x : OrderResult}
  {pixel : ℕ → Cursor → Traced Access ℕ}

def Access.InSource (cbSrcBuffer : ℕ) : Access → Prop
  | .source o => o < cbSrcBuffer
  | .destLoad _ => True
  | .destStore _ => True

namespace Call

/-! ### What an order needs -/

/-- The pixels that are read at the offset, each if the source has not ended before it, are there as a
whole. -/
def PixelsFit (c : Call) (offset n : ℕ) : Prop :=
  ∀ j < n, offset + j * c.bytes < c.cbSrcBuffer → offset + (j + 1) * c.bytes ≤ c.cbSrcBuffer

/-- The bytes of the mask of an image of `n` pixels, each of which is read if the destination has room for
the eight pixels of every byte before it, are there. -/
def MasksFit (c : Call) (pbDest offset n : ℕ) : Prop :=
  ∀ j, 8 * j < n → pbDest + j * (8 * c.bytes) ≤ c.destEnd → offset + j < c.cbSrcBuffer

/-- The pixels that follow the header of an order. -/
def operands (code : ℕ) : ℕ :=
  if code = LITE_SET_FG_FG_RUN ∨ code = MEGA_MEGA_SET_FG_RUN ∨ code = REGULAR_COLOR_RUN ∨
      code = MEGA_MEGA_COLOR_RUN ∨ code = LITE_SET_FG_FGBG_IMAGE ∨
      code = MEGA_MEGA_SET_FGBG_IMAGE then 1
  else if code = LITE_DITHERED_RUN ∨ code = MEGA_MEGA_DITHERED_RUN then 2
  else 0

def IsFgBgImage (code : ℕ) : Prop :=
  code = REGULAR_FGBG_IMAGE ∨ code = MEGA_MEGA_FGBG_IMAGE ∨ code = LITE_SET_FG_FGBG_IMAGE ∨
    code = MEGA_MEGA_SET_FGBG_IMAGE

def IsColorImage (code : ℕ) : Prop := code = REGULAR_COLOR_IMAGE ∨ code = MEGA_MEGA_COLOR_IMAGE

/-- The header of the order is there, and what is read after it. -/
def OrderFits (c : Call) (code : ℕ) (s : Cursor) : Prop :=
  let run := (c.extractRunLengthTraced code s.pbSrc).value
  let operand := s.pbSrc + run.2
  operand ≤ c.cbSrcBuffer ∧ c.PixelsFit operand (operands code) ∧
    (IsFgBgImage code → operand < c.cbSrcBuffer →
      c.MasksFit s.pbDest (operand + operands code * c.bytes) run.1) ∧
    (IsColorImage code → c.EnsureCapacity s run.1 → c.PixelsFit operand run.1)

/-- If a round starts here, its order is there. -/
def Fits (c : Call) (s : Cursor) : Prop :=
  s.pbSrc < c.cbSrcBuffer → c.OrderFits (extractCodeId (c.src s.pbSrc).toNat) s

/-! ### Pixels and headers -/

theorem safe_paintTraced_inSource (hpixel : c.LooksAbove pixel) (n : ℕ) (s : Cursor) :
    (c.paintTraced pixel n s).Safe (Access.InSource c.cbSrcBuffer) := by
  have habove (t : Cursor) : (c.destReadAbove t).Safe (Access.InSource c.cbSrcBuffer) := by
    rw [destReadAbove, safe_bind, safe_accesses, List.forall_mem_map]
    exact ⟨fun _ _ => trivial, (safe_pure _).mpr trivial⟩
  unfold paintTraced
  by_cases hcapacity : c.EnsureCapacity s n
  · rw [if_pos hcapacity, safe_bind]
    refine ⟨safe_paint (fun j _ i dest => hpixel _ i _ fun _ => habove _) fun _ _ _ => trivial, ?_⟩
    exact (safe_pure _).mpr trivial
  · rw [if_neg hcapacity]
    exact (safe_pure _).mpr trivial

theorem safe_destPutPixel_inSource (p : ℕ) (s : Cursor) :
    (c.destPutPixel p s).Safe (Access.InSource c.cbSrcBuffer) :=
  safe_destPutPixel.mpr fun _ _ => trivial

/-- The header of an order whose first byte is there is read safely if and only if it is there. -/
theorem safe_extractRunLengthTraced_iff {offset : ℕ} (hoffset : offset < c.cbSrcBuffer) :
    (c.extractRunLengthTraced code offset).Safe (Access.InSource c.cbSrcBuffer) ↔
      offset + (c.extractRunLengthTraced code offset).value.2 ≤ c.cbSrcBuffer := by
  have hsource (o : ℕ) : Access.InSource c.cbSrcBuffer (.source o) ↔ o < c.cbSrcBuffer := Iff.rfl
  unfold extractRunLengthTraced
  dsimp only
  split_ifs
  all_goals simp only [safe_bind, safe_access, safe_pure, and_true, true_iff, value_bind,
    value_pure, hsource]
  all_goals omega

theorem safe_readRun_iff {next : ℕ → Cursor → OrderResult} (hsrc : s.pbSrc < c.cbSrcBuffer) :
    (c.readRun code s next).Safe (Access.InSource c.cbSrcBuffer) ↔
      s.pbSrc + (c.extractRunLengthTraced code s.pbSrc).value.2 ≤ c.cbSrcBuffer ∧
        (next (c.extractRunLengthTraced code s.pbSrc).value.1
          { s with pbSrc := s.pbSrc + (c.extractRunLengthTraced code s.pbSrc).value.2 }).Safe
          (Access.InSource c.cbSrcBuffer) := by
  rw [readRun, safe_bind, safe_extractRunLengthTraced_iff hsrc]

/-- A pixel that the source has not ended before is read safely if and only if it is there. -/
theorem safe_readPixel_iff {next : ℕ → Cursor → OrderResult} :
    (c.readPixel s next).Safe (Access.InSource c.cbSrcBuffer) ↔
      (s.pbSrc < c.cbSrcBuffer → s.pbSrc + c.bytes ≤ c.cbSrcBuffer ∧
        (next (c.srcReadPixel s).value (c.srcNextPixel s)).Safe (Access.InSource c.cbSrcBuffer)) := by
  unfold readPixel
  by_cases hend : c.cbSrcBuffer ≤ s.pbSrc
  · rw [if_pos hend]
    exact ⟨fun _ hlt => absurd hlt (Nat.not_lt.mpr hend), fun _ => (safe_pure _).mpr trivial⟩
  · have hread : (c.srcReadPixel s).Safe (Access.InSource c.cbSrcBuffer) ↔
        s.pbSrc + c.bytes ≤ c.cbSrcBuffer := by
      rw [srcReadPixel, safe_bind, safe_accesses, List.forall_mem_map, safe_pure, and_true]
      constructor
      · intro h
        by_contra hlt
        have hlast : s.pbSrc + (c.bytes - 1) < c.cbSrcBuffer := h _ (List.mem_range.mpr (by omega))
        omega
      · intro h i hi
        have hlt := List.mem_range.mp hi
        show s.pbSrc + i < c.cbSrcBuffer
        omega
    rw [if_neg hend, safe_bind, hread]
    exact ⟨fun h _ => h, fun h => h (Nat.lt_of_not_le hend)⟩

theorem pixelsFit_zero (c : Call) (offset : ℕ) : c.PixelsFit offset 0 :=
  fun _ h => absurd h (Nat.not_lt_zero _)

theorem pixelsFit_succ {offset : ℕ} :
    c.PixelsFit offset (n + 1) ↔
      (offset < c.cbSrcBuffer → offset + c.bytes ≤ c.cbSrcBuffer ∧ c.PixelsFit (offset + c.bytes) n) := by
  have hnext (j : ℕ) : offset + c.bytes + j * c.bytes = offset + (j + 1) * c.bytes := by
    rw [Nat.succ_mul]
    omega
  constructor
  · intro h hlt
    refine ⟨?_, fun j hj hpel => ?_⟩
    · have hfirst := h 0 (Nat.succ_pos n) (by rwa [Nat.zero_mul])
      rwa [Nat.zero_add, Nat.one_mul] at hfirst
    · rw [hnext] at hpel ⊢
      exact h (j + 1) (by omega) hpel
  · intro h j hj hpel
    cases j with
    | zero =>
      rw [Nat.zero_mul] at hpel
      rw [Nat.zero_add, Nat.one_mul]
      exact (h hpel).1
    | succ j =>
      have hrest := (h (Nat.lt_of_le_of_lt (Nat.le_add_right _ _) hpel)).2 j (by omega)
      rw [hnext, hnext] at hrest
      exact hrest hpel

theorem pixelsFit_one {offset : ℕ} :
    c.PixelsFit offset 1 ↔ (offset < c.cbSrcBuffer → offset + c.bytes ≤ c.cbSrcBuffer) := by
  rw [pixelsFit_succ]
  exact forall_congr' fun _ => and_iff_left (c.pixelsFit_zero _)

/-! ### Images -/

theorem safe_colorImage_iff :
    (c.colorImage n s).Safe (Access.InSource c.cbSrcBuffer) ↔ c.PixelsFit s.pbSrc n := by
  induction n generalizing s with
  | zero => exact ⟨fun _ => c.pixelsFit_zero _, fun _ => (safe_pure _).mpr trivial⟩
  | succ n ih =>
    rw [colorImage, safe_readPixel_iff, pixelsFit_succ]
    refine forall_congr' fun _ => and_congr_right fun _ => ?_
    rw [safe_bind, ih]
    exact and_iff_right (safe_destPutPixel_inSource _ _)

theorem masksFit_zero (c : Call) (pbDest offset : ℕ) : c.MasksFit pbDest offset 0 :=
  fun _ h => absurd h (Nat.not_lt_zero _)

/-- The first byte of a mask, and the others if the destination has room for its pixels. -/
theorem masksFit_iff {pbDest offset : ℕ} (hdest : pbDest ≤ c.destEnd) (hn : 0 < n) :
    c.MasksFit pbDest offset n ↔
      offset < c.cbSrcBuffer ∧ (8 < n → pbDest + 8 * c.bytes ≤ c.destEnd →
        c.MasksFit (pbDest + 8 * c.bytes) (offset + 1) (n - 8)) := by
  constructor
  · intro h
    refine ⟨h 0 hn (by omega), fun hlt hroom j hj hrest => ?_⟩
    have hnext := h (j + 1) (by omega) (by rw [Nat.succ_mul]; omega)
    omega
  · rintro ⟨hfirst, hrest⟩ j hj hroom
    cases j with
    | zero => exact hfirst
    | succ j =>
      rw [Nat.succ_mul] at hroom
      have hnext := hrest (by omega) (by omega) j (by omega) (by omega)
      omega

theorem safe_fgbgImage_iff (hdest : s.pbDest ≤ c.destEnd) :
    (c.fgbgImage ((n + 7) / 8) n s).Safe (Access.InSource c.cbSrcBuffer) ↔
      c.MasksFit s.pbDest s.pbSrc n := by
  generalize hk : (n + 7) / 8 = k
  induction k generalizing n s with
  | zero =>
    obtain rfl : n = 0 := by omega
    exact ⟨fun _ => c.masksFit_zero _ _, fun _ => (safe_pure _).mpr trivial⟩
  | succ k ih =>
    have hsource : Access.InSource c.cbSrcBuffer (.source s.pbSrc) ↔ s.pbSrc < c.cbSrcBuffer := Iff.rfl
    rw [fgbgImage, safe_bind, safe_access, hsource, safe_bind, masksFit_iff hdest (by omega)]
    refine and_congr_right fun _ => (and_iff_right
      (safe_paintTraced_inSource (c.looksAbove_fgbgPixel _) _ _)).trans ?_
    unfold paintTraced
    by_cases hcapacity : c.EnsureCapacity { s with pbSrc := s.pbSrc + 1 } (min n 8)
    · rw [if_pos hcapacity, value_bind]
      obtain ⟨dest, hpaint⟩ := c.value_paint (c.fgbgPixel (c.src s.pbSrc).toNat) (min n 8) 0
        { s with pbSrc := s.pbSrc + 1 }
      rw [hpaint, value_pure]
      dsimp only
      have hsize : min n 8 * c.bytes ≤ c.destEnd - s.pbDest := hcapacity.1
      rw [ih (by show s.pbDest + _ ≤ _; omega) (by omega)]
      by_cases hlast : 8 < n
      · rw [Nat.min_eq_right (by omega)] at hsize ⊢
        exact ⟨fun h _ _ => h, fun h => h hlast (by omega)⟩
      · rw [Nat.min_eq_left (by omega), Nat.sub_self]
        exact ⟨fun _ h => absurd h hlast, fun _ => c.masksFit_zero _ _⟩
    · rw [if_neg hcapacity, value_pure]
      refine ⟨fun _ hlt hroom => absurd ⟨?_, hdest⟩ hcapacity, fun _ => (safe_pure _).mpr trivial⟩
      rw [Nat.min_eq_right (by omega)]
      show 8 * c.bytes ≤ c.destEnd - s.pbDest
      omega

/-! ### Orders -/

/-- What follows the header of an order without an image. -/
theorem orderFits_of_operands (hoperands : operands code = k) (hfgbg : ¬ IsFgBgImage code)
    (hcolor : ¬ IsColorImage code) :
    c.OrderFits code s ↔
      s.pbSrc + (c.extractRunLengthTraced code s.pbSrc).value.2 ≤ c.cbSrcBuffer ∧
        c.PixelsFit (s.pbSrc + (c.extractRunLengthTraced code s.pbSrc).value.2) k := by
  rw [OrderFits, hoperands]
  exact ⟨fun h => ⟨h.1, h.2.1⟩, fun h => ⟨h.1, h.2, fun h' => absurd h' hfgbg,
    fun h' => absurd h' hcolor⟩⟩

theorem safe_special_iff (hsrc : s.pbSrc < c.cbSrcBuffer) (hpixel : c.LooksAbove pixel)
    (hheader : (c.extractRunLengthTraced code s.pbSrc).value.2 = 1) (hoperands : operands code = 0)
    (hfgbg : ¬ IsFgBgImage code) (hcolor : ¬ IsColorImage code) :
    (c.special pixel n s).Safe (Access.InSource c.cbSrcBuffer) ↔ c.OrderFits code s := by
  rw [orderFits_of_operands hoperands hfgbg hcolor, hheader]
  exact ⟨fun _ => ⟨hsrc, c.pixelsFit_zero _⟩, fun _ => safe_paintTraced_inSource hpixel n _⟩

instance (code : ℕ) : Decidable (IsFgBgImage code) := inferInstanceAs (Decidable (_ ∨ _))

instance (code : ℕ) : Decidable (IsColorImage code) := inferInstanceAs (Decidable (_ ∨ _))

theorem safe_header_iff (hsrc : s.pbSrc < c.cbSrcBuffer) (hoperands : operands code = 0)
    (hfgbg : ¬ IsFgBgImage code) (hcolor : ¬ IsColorImage code) {next : ℕ → Cursor → OrderResult}
    (hnext : ∀ n t, (next n t).Safe (Access.InSource c.cbSrcBuffer)) :
    (c.readRun code s next).Safe (Access.InSource c.cbSrcBuffer) ↔ c.OrderFits code s := by
  rw [safe_readRun_iff hsrc, orderFits_of_operands hoperands hfgbg hcolor]
  exact and_congr_right fun _ => ⟨fun _ => c.pixelsFit_zero _, fun _ => hnext _ _⟩

theorem safe_headerPixel_iff (hsrc : s.pbSrc < c.cbSrcBuffer) (hoperands : operands code = 1)
    (hfgbg : ¬ IsFgBgImage code) (hcolor : ¬ IsColorImage code)
    {next : ℕ → ℕ → Cursor → OrderResult}
    (hnext : ∀ n p t, (next n p t).Safe (Access.InSource c.cbSrcBuffer)) :
    (c.readRun code s fun n s => c.readPixel s (next n)).Safe (Access.InSource c.cbSrcBuffer) ↔
      c.OrderFits code s := by
  rw [safe_readRun_iff hsrc, orderFits_of_operands hoperands hfgbg hcolor, safe_readPixel_iff,
    pixelsFit_one]
  exact and_congr_right fun _ => forall_congr' fun _ => and_iff_left (hnext _ _ _)

theorem safe_headerPixels_iff (hsrc : s.pbSrc < c.cbSrcBuffer) (hoperands : operands code = 2)
    (hfgbg : ¬ IsFgBgImage code) (hcolor : ¬ IsColorImage code)
    {next : ℕ → ℕ → ℕ → Cursor → OrderResult}
    (hnext : ∀ n p p' t, (next n p p' t).Safe (Access.InSource c.cbSrcBuffer)) :
    (c.readRun code s fun n s => c.readPixel s fun p s => c.readPixel s (next n p)).Safe
        (Access.InSource c.cbSrcBuffer) ↔
      c.OrderFits code s := by
  rw [safe_readRun_iff hsrc, orderFits_of_operands hoperands hfgbg hcolor, safe_readPixel_iff,
    pixelsFit_succ]
  refine and_congr_right fun _ => forall_congr' fun _ => and_congr_right fun _ => ?_
  rw [safe_readPixel_iff, pixelsFit_one]
  exact forall_congr' fun _ => and_iff_left (hnext _ _ _ _)

theorem safe_fgbgOrder_iff (hsrc : s.pbSrc < c.cbSrcBuffer) (hdest : s.pbDest ≤ c.destEnd)
    (hoperands : operands code = 0) (hfgbg : IsFgBgImage code) (hcolor : ¬ IsColorImage code) :
    (c.readRun code s fun n s =>
        if c.cbSrcBuffer ≤ s.pbSrc then pure none else c.fgbgImage ((n + 7) / 8) n s).Safe
        (Access.InSource c.cbSrcBuffer) ↔
      c.OrderFits code s := by
  have himage (n k : ℕ) : (c.fgbgImage ((n + 7) / 8) n { s with pbSrc := k }).Safe
      (Access.InSource c.cbSrcBuffer) ↔ c.MasksFit s.pbDest k n := safe_fgbgImage_iff hdest
  rw [safe_readRun_iff hsrc, OrderFits, hoperands, Nat.zero_mul, safe_ite, himage]
  constructor
  · rintro ⟨hheader, -, hmasks⟩
    exact ⟨hheader, c.pixelsFit_zero _, fun _ hlt => hmasks (Nat.not_le.mpr hlt),
      fun h => absurd h hcolor⟩
  · rintro ⟨hheader, -, hmasks, -⟩
    exact ⟨hheader, fun _ => (safe_pure _).mpr trivial, fun hlt => hmasks hfgbg (Nat.not_le.mp hlt)⟩

/-- A foreground/background image that sets the foreground pixel. -/
theorem safe_setFgbgOrder_iff (hsrc : s.pbSrc < c.cbSrcBuffer) (hdest : s.pbDest ≤ c.destEnd)
    (hoperands : operands code = 1) (hfgbg : IsFgBgImage code) (hcolor : ¬ IsColorImage code) :
    (c.readRun code s fun n s => c.readPixel s fun p s =>
        c.fgbgImage ((n + 7) / 8) n { s with fgPel := p }).Safe (Access.InSource c.cbSrcBuffer) ↔
      c.OrderFits code s := by
  have himage (n k p : ℕ) : (c.fgbgImage ((n + 7) / 8) n { s with pbSrc := k, fgPel := p }).Safe
      (Access.InSource c.cbSrcBuffer) ↔ c.MasksFit s.pbDest k n := safe_fgbgImage_iff hdest
  rw [safe_readRun_iff hsrc, OrderFits, hoperands, Nat.one_mul, pixelsFit_one, safe_readPixel_iff]
  constructor
  · rintro ⟨hheader, hrest⟩
    exact ⟨hheader, fun hlt => (hrest hlt).1, fun _ hlt => (himage _ _ _).mp (hrest hlt).2,
      fun h => absurd h hcolor⟩
  · rintro ⟨hheader, hpel, hmasks, -⟩
    exact ⟨hheader, fun hlt => ⟨hpel hlt, (himage _ _ _).mpr (hmasks hfgbg hlt)⟩⟩

/-- A colour image, which is not read if the destination has no room for it. -/
theorem safe_colorOrder_iff (hsrc : s.pbSrc < c.cbSrcBuffer) (hoperands : operands code = 0)
    (hfgbg : ¬ IsFgBgImage code) (hcolor : IsColorImage code) :
    (c.readRun code s fun n s =>
        if c.EnsureCapacity s n then c.colorImage n s else pure none).Safe
        (Access.InSource c.cbSrcBuffer) ↔
      c.OrderFits code s := by
  rw [safe_readRun_iff hsrc, OrderFits, hoperands, safe_ite, safe_colorImage_iff]
  constructor
  · rintro ⟨hheader, himage, -⟩
    exact ⟨hheader, c.pixelsFit_zero _, fun h => absurd h hfgbg, fun _ hcapacity => himage hcapacity⟩
  · rintro ⟨hheader, -, -, himage⟩
    exact ⟨hheader, fun hcapacity => himage hcolor hcapacity, fun _ => (safe_pure _).mpr trivial⟩

/-- The orders without a run length have a header of one byte. -/
theorem extractRunLengthTraced_special (c : Call) {code : ℕ}
    (hcode : code ∉ [REGULAR_FGBG_IMAGE, LITE_SET_FG_FGBG_IMAGE, REGULAR_BG_RUN, REGULAR_FG_RUN,
      REGULAR_COLOR_RUN, REGULAR_COLOR_IMAGE, LITE_SET_FG_FG_RUN, LITE_DITHERED_RUN,
      MEGA_MEGA_BG_RUN, MEGA_MEGA_FG_RUN, MEGA_MEGA_SET_FG_RUN, MEGA_MEGA_DITHERED_RUN,
      MEGA_MEGA_COLOR_RUN, MEGA_MEGA_FGBG_IMAGE, MEGA_MEGA_SET_FGBG_IMAGE, MEGA_MEGA_COLOR_IMAGE])
    (offset : ℕ) : (c.extractRunLengthTraced code offset).value.2 = 1 := by
  simp only [List.mem_cons, List.not_mem_nil, or_false, not_or] at hcode
  simp only [extractRunLengthTraced, hcode, or_self, if_false, value_pure]

/-- An order is read safely if and only if it is there. -/
theorem safe_otherOrder_iff (hsrc : s.pbSrc < c.cbSrcBuffer) (hdest : s.pbDest ≤ c.destEnd)
    (hbg : ¬ (code = REGULAR_BG_RUN ∨ code = MEGA_MEGA_BG_RUN)) :
    (c.otherOrder code s).Safe (Access.InSource c.cbSrcBuffer) ↔ c.OrderFits code s := by
  unfold otherOrder
  by_cases h1 : code = REGULAR_FG_RUN ∨ code = MEGA_MEGA_FG_RUN
  · rw [if_pos h1]
    refine safe_header_iff hsrc ?_ ?_ ?_ fun n t => safe_paintTraced_inSource c.looksAbove_foreground n t
    all_goals rcases h1 with rfl | rfl <;> decide
  rw [if_neg h1]
  by_cases h2 : code = LITE_SET_FG_FG_RUN ∨ code = MEGA_MEGA_SET_FG_RUN
  · rw [if_pos h2]
    refine safe_headerPixel_iff hsrc ?_ ?_ ?_ fun n p t =>
      safe_paintTraced_inSource c.looksAbove_foreground n _
    all_goals rcases h2 with rfl | rfl <;> decide
  rw [if_neg h2]
  by_cases h3 : code = LITE_DITHERED_RUN ∨ code = MEGA_MEGA_DITHERED_RUN
  · rw [if_pos h3]
    refine safe_headerPixels_iff hsrc ?_ ?_ ?_ fun n p p' t =>
      safe_paintTraced_inSource (c.looksAbove_plain _) _ _
    all_goals rcases h3 with rfl | rfl <;> decide
  rw [if_neg h3]
  by_cases h4 : code = REGULAR_COLOR_RUN ∨ code = MEGA_MEGA_COLOR_RUN
  · rw [if_pos h4]
    refine safe_headerPixel_iff hsrc ?_ ?_ ?_ fun n p t =>
      safe_paintTraced_inSource (c.looksAbove_plain _) _ _
    all_goals rcases h4 with rfl | rfl <;> decide
  rw [if_neg h4]
  by_cases h5 : code = REGULAR_FGBG_IMAGE ∨ code = MEGA_MEGA_FGBG_IMAGE
  · rw [if_pos h5]
    refine safe_fgbgOrder_iff hsrc hdest ?_ ?_ ?_
    all_goals rcases h5 with rfl | rfl <;> decide
  rw [if_neg h5]
  by_cases h6 : code = LITE_SET_FG_FGBG_IMAGE ∨ code = MEGA_MEGA_SET_FGBG_IMAGE
  · rw [if_pos h6]
    refine safe_setFgbgOrder_iff hsrc hdest ?_ ?_ ?_
    all_goals rcases h6 with rfl | rfl <;> decide
  rw [if_neg h6]
  by_cases h7 : code = REGULAR_COLOR_IMAGE ∨ code = MEGA_MEGA_COLOR_IMAGE
  · rw [if_pos h7]
    refine safe_colorOrder_iff hsrc ?_ ?_ ?_
    all_goals rcases h7 with rfl | rfl <;> decide
  rw [if_neg h7]
  have hspecial {code' : ℕ} (hcode : code' ∈ [SPECIAL_FGBG_1, SPECIAL_FGBG_2, SPECIAL_WHITE,
      SPECIAL_BLACK]) (pixel : ℕ → Cursor → Traced Access ℕ) (hpixel : c.LooksAbove pixel) (n : ℕ) :
      (c.special pixel n s).Safe (Access.InSource c.cbSrcBuffer) ↔ c.OrderFits code' s := by
    simp only [List.mem_cons, List.not_mem_nil, or_false] at hcode
    refine safe_special_iff hsrc hpixel (c.extractRunLengthTraced_special ?_ _) ?_ ?_ ?_
    all_goals rcases hcode with rfl | rfl | rfl | rfl <;> decide
  by_cases h8 : code = SPECIAL_FGBG_1
  · rw [if_pos h8, h8]
    exact hspecial (by decide) _ (c.looksAbove_fgbgPixel _) 8
  rw [if_neg h8]
  by_cases h9 : code = SPECIAL_FGBG_2
  · rw [if_pos h9, h9]
    exact hspecial (by decide) _ (c.looksAbove_fgbgPixel _) 8
  rw [if_neg h9]
  by_cases h10 : code = SPECIAL_WHITE
  · rw [if_pos h10, h10]
    exact hspecial (by decide) _ (c.looksAbove_plain _) 1
  rw [if_neg h10]
  by_cases h11 : code = SPECIAL_BLACK
  · rw [if_pos h11, h11]
    exact hspecial (by decide) _ (c.looksAbove_plain _) 1
  rw [if_neg h11]
  -- an unknown code, behind which nothing is read
  push Not at hbg h1 h2 h3 h4 h5 h6 h7
  have hcode : operands code = 0 ∧ ¬ IsFgBgImage code ∧ ¬ IsColorImage code := by
    simp [operands, IsFgBgImage, IsColorImage, *]
  have hheader : (c.extractRunLengthTraced code s.pbSrc).value.2 = 1 :=
    c.extractRunLengthTraced_special (by simp [*]) s.pbSrc
  rw [orderFits_of_operands hcode.1 hcode.2.1 hcode.2.2, hheader]
  exact ⟨fun _ => ⟨hsrc, c.pixelsFit_zero _⟩, fun _ => (safe_pure _).mpr trivial⟩

theorem safe_bgRun_inSource (n : ℕ) (s : Cursor) :
    (c.bgRun n s).Safe (Access.InSource c.cbSrcBuffer) := by
  have hbackground (n : ℕ) (t : Cursor) := safe_paintTraced_inSource c.looksAbove_background n t
  have habove (P : Access → Prop) (hP : ∀ o, P (.destLoad o)) : (c.destReadAbove s).Safe P := by
    rw [destReadAbove, safe_bind, safe_accesses, List.forall_mem_map]
    exact ⟨fun _ _ => hP _, (safe_pure _).mpr trivial⟩
  unfold bgRun
  by_cases hinsert : s.fInsertFgPel = true
  · rw [if_pos hinsert, safe_bind]
    refine ⟨c.looksAbove_foreground _ 0 s fun _ => habove _ fun _ => trivial, ?_⟩
    by_cases hcapacity : c.EnsureCapacity s 1
    · rw [if_pos hcapacity, safe_bind]
      exact ⟨safe_destPutPixel_inSource _ s, hbackground _ _⟩
    · rw [if_neg hcapacity]
      exact (safe_pure _).mpr trivial
  · rw [if_neg hinsert, safe_bind]
    exact ⟨hbackground n s, (safe_pure _).mpr trivial⟩

theorem safe_order_iff (hsrc : s.pbSrc < c.cbSrcBuffer) (hdest : s.pbDest ≤ c.destEnd) :
    (c.order code s).Safe (Access.InSource c.cbSrcBuffer) ↔ c.OrderFits code s := by
  unfold order
  by_cases hbg : code = REGULAR_BG_RUN ∨ code = MEGA_MEGA_BG_RUN
  · rw [if_pos hbg]
    refine safe_header_iff hsrc ?_ ?_ ?_ fun n t => safe_bgRun_inSource n t
    all_goals rcases hbg with rfl | rfl <;> decide
  · rw [if_neg hbg]
    exact safe_otherOrder_iff (s := { s with fInsertFgPel := false }) hsrc hdest hbg

theorem orderFits_watchLine (c : Call) (code : ℕ) (s : Cursor) :
    c.OrderFits code (c.watchLine s) ↔ c.OrderFits code s := by
  unfold watchLine
  by_cases hend : s.fFirstLine = true ∧ c.rowDelta ≤ s.pbDest % 2 ^ 32
  · rw [if_pos hend]
    exact Iff.rfl
  · rw [if_neg hend]

/-- A round reads inside the source if and only if its order is there. -/
theorem safe_step_iff (hs : s.Within c) :
    (c.step s).Safe (Access.InSource c.cbSrcBuffer) ↔ c.Fits s := by
  unfold step Fits
  by_cases hleft : s.pbSrc < c.cbSrcBuffer
  · obtain ⟨hwatch, hsame⟩ := within_watchLine hs
    rw [if_pos hleft, safe_bind, safe_bind, safe_order_iff (by omega) hwatch.inside,
      orderFits_watchLine]
    constructor
    · exact fun h _ => h.2.1
    · refine fun h => ⟨(safe_access _).mpr hleft, h hleft, ?_⟩
      cases (c.order (extractCodeId (c.src s.pbSrc).toNat) (c.watchLine s)).value with
      | none => exact (safe_pure _).mpr trivial
      | some t => exact (safe_pure _).mpr trivial
  · rw [if_neg hleft]
    exact ⟨fun _ h => absurd h hleft, fun _ => (safe_pure _).mpr trivial⟩

/-- The decoder reads inside its source if and only if it refuses its line length, or in every round that
it reaches the order is there. -/
theorem rleDecompressTraced_inSource_iff {rounds : ℕ} (hrounds : c.cbSrcBuffer < rounds)
    (dest : ℤ → UInt8) :
    (c.rleDecompressTraced rounds dest).Safe (Access.InSource c.cbSrcBuffer) ↔
      (c.rowDelta = 0 ∨ c.rowDelta < c.width) ∨
        ∀ s, Visits c.step (c.start dest) s → c.Fits s := by
  unfold rleDecompressTraced
  by_cases hfalse : c.rowDelta = 0 ∨ c.rowDelta < c.width
  · rw [if_pos hfalse]
    exact ⟨fun _ => .inl hfalse, fun _ => (safe_pure _).mpr trivial⟩
  have hany := allows_any c
  rw [if_neg hfalse, safe_loop_iff (hany.loop hrounds dest).1, or_iff_right hfalse]
  refine forall_congr' fun s => forall_congr' fun hvisit => safe_step_iff ?_
  exact hvisit.invariant (c.within_start dest) fun t t' ht ht' => ((hany.step ht).2 t' ht').1

theorem rleDecompressTraced_inSource_iff_lines :
    twoLines.cbSrcBuffer < 5 ∧
      ((twoLines.rleDecompressTraced 5 fun _ => 0).Safe (Access.InSource 4) ↔
        (twoLines.rowDelta = 0 ∨ twoLines.rowDelta < twoLines.width) ∨
          ∀ s, Visits twoLines.step (twoLines.start fun _ => 0) s → twoLines.Fits s) :=
  ⟨by decide, rleDecompressTraced_inSource_iff (by decide) _⟩

/-- A background run whose length would be in the byte behind the source. -/
theorem rleDecompressTraced_not_inSource :
    ∃ c : Call, (c.bytes = 1 ∨ c.bytes = 2 ∨ c.bytes = 3) ∧ c.rowDelta = c.width * c.bytes ∧
      ∃ (rounds : ℕ) (dest : ℤ → UInt8),
        ¬ (c.rleDecompressTraced rounds dest).Safe (Access.InSource c.cbSrcBuffer) := by
  refine ⟨⟨1, fun _ => 0, 1, 1, 1, 1⟩, .inl rfl, rfl, 2, fun _ => 0, fun hsafe => ?_⟩
  have haccess : 1 < 1 := hsafe (.source 1) (by decide +kernel)
  exact absurd haccess (by decide)

end Call

end FreeRDP.Interleaved
