import FreeRDP.Cache.Glyph
import Mathlib.Data.Int.ConditionallyCompleteOrder
import Mathlib.Order.ConditionallyCompleteLattice.Basic
import Mathlib.Order.Interval.Set.LinearOrder
import Mathlib.Algebra.Order.Ring.Int

/-!
# The clipping of glyphs

A glyph is drawn inside of a rectangle.  `Exact` says that `Draw` is called if and only if the two have a
point in common, and with their intersection.

The code gets the left and the upper edge right.  Where a glyph goes beyond the right or the lower edge, it
subtracts the wrong way around, and does not draw the glyph.  `draws_exactly_iff` says that otherwise the
clipping is exact, as far as its signed sums are defined.
-/

namespace FreeRDP.Cache.Text

open Traced

variable {ctx : TextContext} {order : TextOrder} {bound : RdpRect} {glyph : Glyph} {s : TextState}

/-! ### Rectangles -/

def Glyph.left (glyph : Glyph) (s : TextState) : ℤ := glyph.x.toInt + s.x.toInt

/-- The upper edge of a glyph at the pen. -/
def Glyph.top (glyph : Glyph) (s : TextState) : ℤ := glyph.y.toInt + s.y.toInt

def Glyph.right (glyph : Glyph) (s : TextState) : ℤ := glyph.left s + glyph.cx.toNat

/-- The lower edge of a glyph at the pen. -/
def Glyph.bottom (glyph : Glyph) (s : TextState) : ℤ := glyph.top s + glyph.cy.toNat

theorem add_left (glyph : Glyph) (s : TextState) : glyph.x.toInt + s.x.toInt = glyph.left s := rfl

theorem add_top (glyph : Glyph) (s : TextState) : glyph.y.toInt + s.y.toInt = glyph.top s := rfl

def Glyph.area (glyph : Glyph) (s : TextState) : Set (ℤ × ℤ) :=
  Set.Ico (glyph.left s) (glyph.right s) ×ˢ Set.Ico (glyph.top s) (glyph.bottom s)

def RdpRect.area (bound : RdpRect) : Set (ℤ × ℤ) :=
  Set.Ico bound.x.toInt bound.right ×ˢ Set.Ico bound.y.toInt bound.bottom

/-- The points that are drawn. -/
def GlyphDraw.area (call : GlyphDraw) : Set (ℤ × ℤ) :=
  Set.Ico call.x.toInt (call.x.toInt + call.w.toInt) ×ˢ Set.Ico call.y.toInt (call.y.toInt + call.h.toInt)

/-- What is drawn is what the glyph and the bound have in common, with its place in the glyph. -/
def Exact (bound : RdpRect) (glyph : Glyph) (s : TextState) (call : Option GlyphDraw) : Prop :=
  (call.isSome ↔ (glyph.area s ∩ bound.area).Nonempty) ∧
    ∀ d, call = some d → d.glyph = glyph ∧ d.area = glyph.area s ∩ bound.area ∧
      d.sx.toInt = d.x.toInt - glyph.left s ∧ d.sy.toInt = d.y.toInt - glyph.top s

theorem area_inter (bound : RdpRect) (glyph : Glyph) (s : TextState) :
    glyph.area s ∩ bound.area =
      Set.Ico (max (glyph.left s) bound.x.toInt) (min (glyph.right s) bound.right) ×ˢ
        Set.Ico (max (glyph.top s) bound.y.toInt) (min (glyph.bottom s) bound.bottom) := by
  rw [Glyph.area, RdpRect.area, Set.prod_inter_prod, Set.Ico_inter_Ico, Set.Ico_inter_Ico]

theorem area_inter_nonempty_iff : (glyph.area s ∩ bound.area).Nonempty ↔
    max (glyph.left s) bound.x.toInt < min (glyph.right s) bound.right ∧
      max (glyph.top s) bound.y.toInt < min (glyph.bottom s) bound.bottom := by
  rw [area_inter, Set.prod_nonempty_iff, Set.nonempty_Ico, Set.nonempty_Ico]

/-! ### Sums -/

/-- A signed sum is defined. -/
def Fits : TextAccess → Prop
  | .sum z => -2 ^ 31 ≤ z ∧ z < 2 ^ 31
  | _ => True

theorem safe_signed_iff (z : ℤ) : (signed z).Safe Fits ↔ -2 ^ 31 ≤ z ∧ z < 2 ^ 31 := by
  rw [signed, safe_bind, safe_access]
  exact and_iff_left ((safe_pure _).mpr trivial)

theorem toInt_signed {z : ℤ} (hmin : -2 ^ 31 ≤ z) (hmax : z < 2 ^ 31) : (signed z).value.toInt = z :=
  Int32.toInt_ofInt_of_le hmin hmax

/-- The sums of `clipStart` are defined, for a glyph that begins at `a`. -/
def StartFits (a bound : ℤ) : Prop := -2 ^ 31 ≤ a ∧ a < 2 ^ 31 ∧ bound - a < 2 ^ 31

/-- The sums of `clipExtent` are defined, for a glyph of the extent `c` that begins at `a`. -/
def EndFits (a c bound stop : ℤ) : Prop :=
  if c - max 0 (bound - a) < 2 ^ 31 then a + c < 2 ^ 31 ∧ a + c ≤ stop + 2 ^ 31 else 2 ^ 31 ≤ a + c

section Axis

variable {d d' s' : Int32} {b : Int16} {c : UInt32} {stop : ℤ}

theorem safe_clipStart_iff : (clipStart d b).Safe Fits ↔ b.toInt - d.toInt < 2 ^ 31 := by
  have hd := d.toInt_lt
  have hb := b.le_toInt
  rw [clipStart, safe_ite, safe_bind, safe_signed_iff]
  simp only [safe_pure, and_true, implies_true]
  omega

theorem value_clipStart (h : b.toInt - d.toInt < 2 ^ 31) :
    (clipStart d b).value.1.toInt = max d.toInt b.toInt ∧
      (clipStart d b).value.2.toInt = max 0 (b.toInt - d.toInt) := by
  unfold clipStart
  split_ifs with hlt
  · rw [value_bind, value_pure]
    dsimp only
    rw [Int16.toInt_toInt32, toInt_signed (by omega) h]
    omega
  · rw [value_pure]
    have hzero : (0 : Int32).toInt = 0 := rfl
    dsimp only
    rw [hzero]
    omega

/-- The extent behind the part that is left out, as the code has it. -/
theorem toInt_extent {a : ℤ} (hs : s'.toInt = max 0 (b.toInt - a)) :
    (Int32.ofInt (c.toNat - s'.toInt)).toInt =
      if (c.toNat : ℤ) - max 0 (b.toInt - a) < 2 ^ 31 then (c.toNat : ℤ) - max 0 (b.toInt - a)
      else (c.toNat : ℤ) - max 0 (b.toInt - a) - 2 ^ 32 := by
  have hc := c.toNat_lt
  have hs' := s'.toInt_lt
  rw [Int32.toInt_ofInt, hs, Int.bmod_def]
  have hsize : ((Int32.size : ℕ) : ℤ) = 2 ^ 32 := rfl
  rw [hsize]
  omega

theorem safe_clipExtent_iff {a : ℤ} (ha : -2 ^ 31 ≤ a) (hs : s'.toInt = max 0 (b.toInt - a))
    (hd : d'.toInt = max a b.toInt) (hstop : max a b.toInt ≤ stop) (hmax : stop < 2 ^ 17) :
    (clipExtent c s' d' stop).Safe Fits ↔ EndFits a c.toNat b.toInt stop := by
  have hb := b.le_toInt
  have hc := c.toNat_lt
  have hlt := s'.toInt_lt
  rw [clipExtent, safe_bind, safe_signed_iff, safe_ite, safe_signed_iff, toInt_extent hs, hd, EndFits]
  simp only [safe_pure, implies_true, and_true]
  constructor
  · rintro ⟨⟨hmin, hsum⟩, hrest⟩
    rw [toInt_signed hmin hsum] at hrest
    split_ifs at hrest hmin hsum ⊢ with hsmall
    · omega
    · omega
  · intro h
    split_ifs at h ⊢ with hsmall
    · refine ⟨by omega, ?_⟩
      rw [toInt_signed (by omega) (by omega)]
      omega
    · refine ⟨by omega, ?_⟩
      rw [toInt_signed (by omega) (by omega)]
      omega

/-- The extent is positive if the glyph begins and ends within the bound. -/
theorem value_clipExtent {a : ℤ} (ha : -2 ^ 31 ≤ a) (hs : s'.toInt = max 0 (b.toInt - a))
    (hd : d'.toInt = max a b.toInt) (hstop : max a b.toInt ≤ stop) (hmax : stop < 2 ^ 17)
    (h : EndFits a c.toNat b.toInt stop) :
    (0 < (clipExtent c s' d' stop).value.toInt ↔
        max a b.toInt < a + c.toNat ∧ a + c.toNat ≤ stop) ∧
      (a + c.toNat ≤ stop → (clipExtent c s' d' stop).value.toInt = a + c.toNat - max a b.toInt) := by
  have hb := b.le_toInt
  have hc := c.toNat_lt
  have hlt := s'.toInt_lt
  unfold EndFits at h
  unfold clipExtent
  rw [value_bind, toInt_extent hs, hd]
  split_ifs at h with hsmall
  · rw [if_pos hsmall, toInt_signed (by omega) (by omega)]
    split_ifs with hcut
    · rw [toInt_signed (by omega) (by omega)]
      omega
    · rw [value_pure, toInt_extent hs, if_pos hsmall]
      omega
  · rw [if_neg hsmall, toInt_signed (by omega) (by omega), if_neg (by omega), value_pure, toInt_extent hs,
      if_neg hsmall]
    omega

end Axis

/-! ### Glyphs -/

/-- The sums of a glyph are defined, and it does not go beyond the right or the lower edge, unless
nothing of it is to be seen. -/
structure Drawable (bound : RdpRect) (glyph : Glyph) (s : TextState) : Prop where
  left : StartFits (glyph.left s) bound.x.toInt
  top : StartFits (glyph.top s) bound.y.toInt
  stop : max (glyph.left s) bound.x.toInt ≤ bound.right → max (glyph.top s) bound.y.toInt ≤ bound.bottom →
    EndFits (glyph.left s) glyph.cx.toNat bound.x.toInt bound.right ∧
      EndFits (glyph.top s) glyph.cy.toNat bound.y.toInt bound.bottom
  uncut : (glyph.area s ∩ bound.area).Nonempty →
    glyph.right s ≤ bound.right ∧ glyph.bottom s ≤ bound.bottom

theorem RdpRect.right_lt (bound : RdpRect) : bound.right < 2 ^ 17 := by
  have hx := bound.x.toInt_lt
  have hwidth := bound.width.toInt_lt
  unfold RdpRect.right
  omega

theorem RdpRect.bottom_lt (bound : RdpRect) : bound.bottom < 2 ^ 17 := by
  have hy := bound.y.toInt_lt
  have hheight := bound.height.toInt_lt
  unfold RdpRect.bottom
  omega

theorem safe_start_iff (a : ℤ) (b : Int16) :
    (signed a).Safe Fits ∧ (clipStart (signed a).value b).Safe Fits ↔ StartFits a b.toInt := by
  rw [safe_signed_iff, safe_clipStart_iff, StartFits]
  constructor
  · rintro ⟨⟨hmin, hmax⟩, h⟩
    rw [toInt_signed hmin hmax] at h
    exact ⟨hmin, hmax, h⟩
  · rintro ⟨hmin, hmax, h⟩
    rw [toInt_signed hmin hmax]
    exact ⟨⟨hmin, hmax⟩, h⟩

theorem value_start {a : ℤ} {b : Int16} (h : StartFits a b.toInt) :
    (clipStart (signed a).value b).value.1.toInt = max a b.toInt ∧
      (clipStart (signed a).value b).value.2.toInt = max 0 (b.toInt - a) := by
  obtain ⟨hmin, hmax, h⟩ := h
  have hd := toInt_signed hmin hmax
  rw [← hd] at h
  obtain ⟨hstart, hskip⟩ := value_clipStart h
  rw [hd] at hstart hskip
  exact ⟨hstart, hskip⟩

theorem safe_clipGlyph_iff (order : TextOrder) (bound : RdpRect) (glyph : Glyph) (s : TextState) :
    (clipGlyph order bound glyph s).Safe Fits ↔
      StartFits (glyph.left s) bound.x.toInt ∧ StartFits (glyph.top s) bound.y.toInt ∧
        (max (glyph.left s) bound.x.toInt ≤ bound.right → max (glyph.top s) bound.y.toInt ≤ bound.bottom →
          EndFits (glyph.left s) glyph.cx.toNat bound.x.toInt bound.right ∧
            EndFits (glyph.top s) glyph.cy.toNat bound.y.toInt bound.bottom) := by
  unfold clipGlyph
  simp only [safe_bind, safe_ite, safe_pure, implies_true, and_true, add_left, add_top]
  constructor
  · rintro ⟨hleft, htop, hx, hy, hrest⟩
    have hstartx := (safe_start_iff _ _).mp ⟨hleft, hx⟩
    have hstarty := (safe_start_iff _ _).mp ⟨htop, hy⟩
    obtain ⟨hdx, hsx⟩ := value_start hstartx
    obtain ⟨hdy, hsy⟩ := value_start hstarty
    refine ⟨hstartx, hstarty, fun hright hbottom => ?_⟩
    obtain ⟨hw, hh⟩ := hrest ⟨hdx.trans_le hright, hdy.trans_le hbottom⟩
    rw [safe_clipExtent_iff hstartx.1 hsx hdx hright bound.right_lt] at hw
    rw [safe_clipExtent_iff hstarty.1 hsy hdy hbottom bound.bottom_lt] at hh
    exact ⟨hw, hh⟩
  · rintro ⟨hstartx, hstarty, hrest⟩
    obtain ⟨hleft, hx⟩ := (safe_start_iff _ _).mpr hstartx
    obtain ⟨htop, hy⟩ := (safe_start_iff _ _).mpr hstarty
    obtain ⟨hdx, hsx⟩ := value_start hstartx
    obtain ⟨hdy, hsy⟩ := value_start hstarty
    refine ⟨hleft, htop, hx, hy, fun hin => ?_⟩
    have hright := hdx.symm.trans_le hin.1
    have hbottom := hdy.symm.trans_le hin.2
    obtain ⟨hw, hh⟩ := hrest hright hbottom
    rw [safe_clipExtent_iff hstartx.1 hsx hdx hright bound.right_lt,
      safe_clipExtent_iff hstarty.1 hsy hdy hbottom bound.bottom_lt]
    exact ⟨hw, hh⟩

/-- A glyph is drawn if something of it is to be seen, and nothing of it lies behind the right or the lower
edge. -/
theorem value_clipGlyph (order : TextOrder) (h : (clipGlyph order bound glyph s).Safe Fits) :
    ((clipGlyph order bound glyph s).value.isSome ↔
        (max (glyph.left s) bound.x.toInt < glyph.right s ∧ glyph.right s ≤ bound.right) ∧
          max (glyph.top s) bound.y.toInt < glyph.bottom s ∧ glyph.bottom s ≤ bound.bottom) ∧
      ∀ d, (clipGlyph order bound glyph s).value = some d → d.glyph = glyph ∧
        (d.x.toInt = max (glyph.left s) bound.x.toInt ∧ d.x.toInt + d.w.toInt = glyph.right s ∧
          d.sx.toInt = d.x.toInt - glyph.left s) ∧
        (d.y.toInt = max (glyph.top s) bound.y.toInt ∧ d.y.toInt + d.h.toInt = glyph.bottom s ∧
          d.sy.toInt = d.y.toInt - glyph.top s) := by
  obtain ⟨hleft, htop, hend⟩ := (safe_clipGlyph_iff order bound glyph s).mp h
  obtain ⟨hdx, hsx⟩ := value_start hleft
  obtain ⟨hdy, hsy⟩ := value_start htop
  have hright : glyph.right s = glyph.left s + glyph.cx.toNat := rfl
  have hbottom : glyph.bottom s = glyph.top s + glyph.cy.toNat := rfl
  unfold clipGlyph
  simp only [value_bind, add_left, add_top]
  rw [hright, hbottom]
  split_ifs with hin
  · have hinx := hdx.symm.trans_le hin.1
    have hiny := hdy.symm.trans_le hin.2
    obtain ⟨hendx, hendy⟩ := hend hinx hiny
    obtain ⟨hposw, hw⟩ := value_clipExtent hleft.1 hsx hdx hinx bound.right_lt hendx
    obtain ⟨hposh, hh⟩ := value_clipExtent htop.1 hsy hdy hiny bound.bottom_lt hendy
    simp only [value_bind]
    rw [value_ite]
    simp only [hposw, hposh]
    split_ifs with hpos
    · refine ⟨⟨fun _ => ⟨hpos.2, hpos.1⟩, fun _ => rfl⟩, fun d hd => ?_⟩
      obtain rfl := Option.some.inj hd
      specialize hw hpos.2.2
      specialize hh hpos.1.2
      refine ⟨rfl, ⟨hdx, ?_, ?_⟩, hdy, ?_, ?_⟩
      · dsimp only
        omega
      · dsimp only
        omega
      · dsimp only
        omega
      · dsimp only
        omega
    · refine ⟨⟨fun hsome => absurd hsome Bool.false_ne_true, fun hall => absurd ⟨hall.2, hall.1⟩ hpos⟩,
        fun d hd => absurd hd (Option.some_ne_none d).symm⟩
  · refine ⟨⟨fun hsome => absurd hsome Bool.false_ne_true, fun hall => absurd ?_ hin⟩,
      fun d hd => absurd hd (Option.some_ne_none d).symm⟩
    exact ⟨hdx.trans_le (by omega), hdy.trans_le (by omega)⟩

/-- The clipping of a glyph is exact, and defined, if and only if the glyph is drawable. -/
theorem clipGlyph_exact_iff (order : TextOrder) (bound : RdpRect) (glyph : Glyph) (s : TextState) :
    (clipGlyph order bound glyph s).Safe Fits ∧
        Exact bound glyph s (clipGlyph order bound glyph s).value ↔ Drawable bound glyph s := by
  constructor
  · rintro ⟨hsafe, hexact⟩
    obtain ⟨hleft, htop, hend⟩ := (safe_clipGlyph_iff order bound glyph s).mp hsafe
    obtain ⟨hsome, -⟩ := value_clipGlyph order hsafe
    refine ⟨hleft, htop, hend, fun hseen => ?_⟩
    obtain ⟨hx, hy⟩ := hsome.mp (hexact.1.mpr hseen)
    exact ⟨hx.2, hy.2⟩
  · intro h
    have hsafe := (safe_clipGlyph_iff order bound glyph s).mpr ⟨h.left, h.top, h.stop⟩
    obtain ⟨hsome, hvalue⟩ := value_clipGlyph order hsafe
    have hiff : (clipGlyph order bound glyph s).value.isSome ↔ (glyph.area s ∩ bound.area).Nonempty := by
      rw [hsome]
      constructor
      · intro hall
        rw [area_inter_nonempty_iff]
        omega
      · intro hseen
        obtain ⟨hright, hbottom⟩ := h.uncut hseen
        rw [area_inter_nonempty_iff] at hseen
        omega
    refine ⟨hsafe, hiff, fun d hd => ?_⟩
    obtain ⟨hglyph, ⟨hx, hw, hsx⟩, hy, hh, hsy⟩ := hvalue d hd
    obtain ⟨hright, hbottom⟩ := h.uncut (hiff.mp (by rw [hd]; rfl))
    refine ⟨hglyph, ?_, hsx, hsy⟩
    rw [GlyphDraw.area, hw, hh, hx, hy, area_inter, min_eq_left hright, min_eq_left hbottom]

@[simp] theorem TextState.advance_drawn (glyph : Glyph) (s : TextState) :
    (s.advance order glyph).drawn = s.drawn := by
  unfold TextState.advance
  split_ifs <;> rfl

theorem TextState.draw_drawn (ctx : TextContext) (call : Option GlyphDraw) (s : TextState) :
    (s.draw ctx call).1.drawn = s.drawn ++ call.toList := by
  cases call with
  | none => exact (List.append_nil s.drawn).symm
  | some call => rfl

theorem safe_glyphCacheLookup_fits (id index : ℕ) (c : GlyphCache) :
    (glyphCacheLookup id index c).Safe Fits := by
  unfold glyphCacheLookup
  simp only [safe_ite, safe_bind, safe_access, safe_pure, implies_true, and_true, Fits]

/-- A glyph that the cache has is drawn exactly, and without an overflow, if and only if it is drawable. -/
theorem draws_exactly_iff (ctx : TextContext) (order : TextOrder) (bound : RdpRect) {op name : ℕ}
    {s : TextState} (hget : (glyphCacheLookup order.cacheId op s.store.cache).value = some name) :
    ((updateProcessGlyph ctx order bound op s).Safe Fits ∧
        ∃ call, (updateProcessGlyph ctx order bound op s).value.1.drawn = s.drawn ++ call.toList ∧
          Exact bound (ctx.glyph name) s call) ↔
      Drawable bound (ctx.glyph name) s := by
  rw [← clipGlyph_exact_iff order]
  have hdrawn : (updateProcessGlyph ctx order bound op s).value.1.drawn =
      s.drawn ++ (clipGlyph order bound (ctx.glyph name) s).value.toList := by
    unfold updateProcessGlyph
    rw [value_bind, hget]
    dsimp only
    rw [value_bind, value_pure]
    dsimp only
    rw [← TextState.draw_drawn ctx]
    split_ifs
    · rw [TextState.advance_drawn]
    · rfl
  have hsafe : (updateProcessGlyph ctx order bound op s).Safe Fits ↔
      (clipGlyph order bound (ctx.glyph name) s).Safe Fits := by
    unfold updateProcessGlyph
    rw [safe_bind, hget]
    dsimp only
    rw [safe_bind]
    simp only [safe_pure, and_true]
    exact and_iff_right (safe_glyphCacheLookup_fits order.cacheId op s.store.cache)
  rw [hsafe, hdrawn]
  refine and_congr_right fun _ => ?_
  constructor
  · rintro ⟨call, hcall, hexact⟩
    have heq := congrArg List.head? (List.append_cancel_left hcall)
    rw [Option.head?_toList, Option.head?_toList] at heq
    rwa [heq]
  · exact fun hexact => ⟨_, rfl, hexact⟩

/-- A store with a glyph in each cache. -/
def oneEntry : GlyphStore := ⟨⟨List.replicate 10 ⟨1, [some 0]⟩, List.replicate 256 ⟨none, 0⟩⟩, []⟩

/-- A context whose glyphs have ten columns and five rows. -/
def wideGlyphs : TextContext where
  glyph := fun _ => ⟨0, 0, 10, 5⟩
  desktopWidth := 1024
  beginDraw := fun _ _ _ _ => true
  setBounds := fun _ => true
  draw := fun _ _ => true
  endDraw := fun _ _ _ => true
  malloc := fun _ => true

def oneGlyphText : TextOrder where
  data := fun _ => 0
  length := 1
  length_lt := by decide
  cacheId := 0
  ulCharInc := 10
  flAccel := soHorizontal
  bgcolor := 0
  fgcolor := 0
  x := 5
  y := 0
  bk := ⟨0, 0, 10, 10⟩
  op := ⟨0, 0, 10, 10⟩
  fOpRedundant := false

theorem draws_exactly_iff_oneGlyphText :
    ((updateProcessGlyph wideGlyphs oneGlyphText ⟨0, 0, 10, 10⟩ 0 ⟨oneEntry, 0, 0, []⟩).Safe Fits ∧
        ∃ call, (updateProcessGlyph wideGlyphs oneGlyphText ⟨0, 0, 10, 10⟩ 0
            ⟨oneEntry, 0, 0, []⟩).value.1.drawn = [] ++ call.toList ∧
          Exact ⟨0, 0, 10, 10⟩ ⟨0, 0, 10, 5⟩ ⟨oneEntry, 0, 0, []⟩ call) ↔
      Drawable ⟨0, 0, 10, 10⟩ ⟨0, 0, 10, 5⟩ ⟨oneEntry, 0, 0, []⟩ :=
  draws_exactly_iff wideGlyphs oneGlyphText ⟨0, 0, 10, 10⟩ rfl

/-- Five columns of the glyph are to be seen, but nothing is drawn. -/
theorem not_draws_exactly : ¬ ∀ (ctx : TextContext) (order : TextOrder) (bound : RdpRect) (op name : ℕ)
    (s : TextState), 0 ≤ bound.width.toInt → 0 ≤ bound.height.toInt →
    (glyphCacheLookup order.cacheId op s.store.cache).value = some name →
    ∃ call, (updateProcessGlyph ctx order bound op s).value.1.drawn = s.drawn ++ call.toList ∧
      Exact bound (ctx.glyph name) s call := by
  intro h
  obtain ⟨call, hcall, hexact⟩ := h wideGlyphs oneGlyphText ⟨0, 0, 10, 10⟩ 0 0 ⟨oneEntry, 5, 0, []⟩
    (by decide) (by decide) rfl
  have hnone : call.toList = [] := hcall.symm.trans (by decide +kernel)
  have hseen : ((5, 0) : ℤ × ℤ) ∈ Glyph.area ⟨0, 0, 10, 5⟩ ⟨oneEntry, 5, 0, []⟩ ∩
      RdpRect.area ⟨0, 0, 10, 10⟩ := by
    rw [area_inter, Set.mem_prod, Set.mem_Ico, Set.mem_Ico]
    decide +kernel
  have hsome := hexact.1.mpr ⟨_, hseen⟩
  rw [Option.toList_eq_nil_iff.mp hnone] at hsome
  exact Bool.false_ne_true hsome

end FreeRDP.Cache.Text
