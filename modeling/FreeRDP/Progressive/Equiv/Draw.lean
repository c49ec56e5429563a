import FreeRDP.Progressive.Decompress
import FreeRDP.Region.Equiv.Canonical

/-!
# Drawing the updated tiles

The last part of `progressive_decompress` in terms of points: a copy is made for each rectangle in the
intersection of a tile with the clipping rectangles, and as long as the 16-bit coordinates do not
wrap these are the points that tile and rectangles have in common.
-/

namespace FreeRDP.Progressive

open Region

/-! ### Clipping rectangles -/

/-- The rectangle is not empty, and neither end of it leaves the 16 bits of a coordinate. -/
def RfxRect.Sane (call : Call) (rect : RfxRect) : Prop :=
  0 < rect.width ∧ 0 < rect.height ∧ call.nXDst + rect.x + rect.width < 2 ^ 16 ∧
    call.nYDst + rect.y + rect.height < 2 ^ 16

instance (call : Call) (rect : RfxRect) : Decidable (rect.Sane call) :=
  inferInstanceAs (Decidable (_ ∧ _))

/-- The points of the destination in a rectangle, in unbounded numbers. -/
def RfxRect.Covers (call : Call) (rect : RfxRect) (x y : ℕ) : Prop :=
  call.nXDst + rect.x ≤ x ∧ x < call.nXDst + rect.x + rect.width ∧
    call.nYDst + rect.y ≤ y ∧ y < call.nYDst + rect.y + rect.height

/-- The intersections with the region `clip` have the points that satisfy `P`, in non-empty
rectangles. -/
structure Clips (clip : Region16) (P : ℕ → ℕ → Prop) : Prop where
  nonempty : ∀ rect : Rect, ∀ r ∈ (intersectRect clip rect).rects,
    r.left < r.right ∧ r.top < r.bottom
  covers : ∀ (rect : Rect) (x y : ℕ),
    CoversPoint (intersectRect clip rect).rects x y ↔ P x y ∧ rect.Has x y

variable {call : Call}

theorem clippingRect_sane {rect : RfxRect} (h : rect.Sane call) :
    (clippingRect call rect).left < (clippingRect call rect).right ∧
      (clippingRect call rect).top < (clippingRect call rect).bottom ∧
      ∀ x y, (clippingRect call rect).Has x y ↔ rect.Covers call x y := by
  obtain ⟨hw, hh, hx, hy⟩ := h
  simp only [clippingRect, Rect.Has, RfxRect.Covers]
  refine ⟨by omega, by omega, fun x y => ?_⟩
  omega

theorem wellFormed_clear : WellFormed region16Clear :=
  wellFormed_of_banded ⟨by simp [region16Clear], by simp [region16Clear]⟩ rfl

theorem foldl_union {α : Type} (f : α → Rect) {as : List α} {region : Region16}
    (hregion : WellFormed region)
    (has : ∀ a ∈ as, (f a).left < (f a).right ∧ (f a).top < (f a).bottom) :
    WellFormed (as.foldl (fun region a => unionRect region (f a)) region) ∧
      ∀ x y, CoversPoint (as.foldl (fun region a => unionRect region (f a)) region).rects
        x y ↔ CoversPoint region.rects x y ∨ ∃ a ∈ as, (f a).Has x y := by
  induction as generalizing region with
  | nil => exact ⟨hregion, by simp⟩
  | cons a as ih =>
    obtain ⟨ha, has⟩ := List.forall_mem_cons.mp has
    obtain ⟨hwf, hcovers⟩ := hregion.union ha.1 ha.2
    obtain ⟨hwf', hcovers'⟩ := ih hwf has
    refine ⟨hwf', fun x y => ?_⟩
    rw [List.foldl_cons, hcovers', hcovers, List.exists_mem_cons_iff, or_assoc]

/-- The rectangles of a region that was skipped. -/
def RfxRect.zero : RfxRect := ⟨0, 0, 0, 0⟩

/-- Uniting an empty rectangle with itself changes nothing. -/
theorem union_empty (left top : ℕ) :
    unionRect ⟨⟨left, top, left, top⟩, [⟨left, top, left, top⟩]⟩ ⟨left, top, left, top⟩ =
      ⟨⟨left, top, left, top⟩, [⟨left, top, left, top⟩]⟩ := by
  have hbands : unionBands ⟨left, top, left, top⟩ [⟨left, top, left, top⟩] =
      [⟨left, top, left, top⟩] := by
    simp [unionBands, unionBand, copyBandWithUnion, interBand, toBand]
  simp [unionRect, unionRects, joinExtents, topPiece, bottomPiece, hbands, joinBands_singleton]

/-- The clipping rectangles of a skipped region have no points. -/
theorem clippingRects_replicate (call : Call) (n : ℕ) :
    clippingRects call (List.replicate n .zero) = region16Clear ∨
      ∃ left top, clippingRects call (List.replicate n .zero) =
        ⟨⟨left, top, left, top⟩, [⟨left, top, left, top⟩]⟩ := by
  have hzero : ∃ left top, clippingRect call .zero = ⟨left, top, left, top⟩ :=
    ⟨call.nXDst % 2 ^ 16, call.nYDst % 2 ^ 16, by simp [clippingRect, RfxRect.zero]⟩
  obtain ⟨left, top, hzero⟩ := hzero
  unfold clippingRects
  cases n with
  | zero => exact Or.inl rfl
  | succ n =>
    refine Or.inr ⟨left, top, ?_⟩
    rw [List.replicate_succ, List.foldl_cons, hzero]
    have hfirst : unionRect region16Clear ⟨left, top, left, top⟩ =
        ⟨⟨left, top, left, top⟩, [⟨left, top, left, top⟩]⟩ := if_pos rfl
    rw [hfirst]
    induction n with
    | zero => rfl
    | succ n ih => rw [List.replicate_succ, List.foldl_cons, hzero, union_empty, ih]

/-- The rectangles of a region are fit for the origin of a call: they are sane, or the region has
been skipped. -/
def RectsFit (call : Call) (rects : List RfxRect) : Prop :=
  (∀ rect ∈ rects, rect.Sane call) ∨ ∃ n, rects = List.replicate n .zero

theorem clips_clippingRects {rects : List RfxRect} (h : RectsFit call rects) :
    Clips (clippingRects call rects) fun x y => ∃ rect ∈ rects, rect.Covers call x y := by
  rcases h with h | ⟨n, rfl⟩
  · obtain ⟨hwf, hcovers⟩ := foldl_union (clippingRect call) wellFormed_clear fun rect hrect =>
      ⟨(clippingRect_sane (h rect hrect)).1, (clippingRect_sane (h rect hrect)).2.1⟩
    refine ⟨fun rect => (hwf.intersect rect).1, fun rect x y => ?_⟩
    have hpoints := (hwf.intersect rect).2 x y
    rw [hcovers] at hpoints
    refine hpoints.trans ?_
    have hiff : (∃ r ∈ rects, (clippingRect call r).Has x y) ↔ ∃ r ∈ rects, r.Covers call x y :=
      exists_congr fun r => and_congr_right fun hr => (clippingRect_sane (h r hr)).2.2 x y
    simp [hiff, region16Clear, CoversPoint]
  · have hnone : ∀ rect : Rect, (intersectRect
        (clippingRects call (List.replicate n .zero)) rect).rects = [] := by
      intro rect
      rcases clippingRects_replicate call n with hclip | ⟨left, top, hclip⟩
      · rw [hclip]
        rfl
      · have hinter : rectanglesIntersection ⟨left, top, left, top⟩ rect = none :=
          if_neg (by dsimp only; omega)
        rw [hclip, intersectRect, hinter]
        rfl
    refine ⟨fun rect r hr => ?_, fun rect x y => ?_⟩
    · rw [hnone] at hr
      exact absurd hr List.not_mem_nil
    · rw [hnone]
      constructor
      · rintro ⟨r, hr, -⟩
        exact absurd hr List.not_mem_nil
      · rintro ⟨⟨r, hr, -, hcovers⟩, -⟩
        obtain rfl := List.eq_of_mem_replicate hr
        simp only [RfxRect.zero] at hcovers
        omega

/-! ### The loops -/

/-- The rectangles of the tile `zIdx` that are drawn. -/
def tileRects (call : Call) (surface : Surface) (clip : Region16) (zIdx : ℕ) : List Rect :=
  (intersectRect clip (updateRect call (surface.tiles zIdx))).rects

/-- The copy for a rectangle of the tile `zIdx`. -/
def copyOf (call : Call) (surface : Surface) (zIdx : ℕ) (rect : Rect) : Copy where
  rect := rect
  zIdx := zIdx
  data := (surface.tiles zIdx).data
  nXSrc := (rect.left + 2 ^ 32 - (call.nXDst + (surface.tiles zIdx).x) % 2 ^ 32) % 2 ^ 32
  nYSrc := (rect.top + 2 ^ 32 - (call.nYDst + (surface.tiles zIdx).y) % 2 ^ 32) % 2 ^ 32

theorem drawRects_eq {surface : Surface} {zIdx : ℕ} {rects : List Rect} (drawn : Drawn)
    (h : ∀ rect ∈ rects, rect.left < rect.right ∧ rect.top < rect.bottom) :
    drawRects call (surface.tiles zIdx) zIdx rects drawn =
      { copies := drawn.copies ++ rects.map (copyOf call surface zIdx)
        invalidRegion := drawn.invalidRegion.map fun region => rects.foldl unionRect region
        rc := drawn.rc } := by
  induction rects generalizing drawn with
  | nil => simp [drawRects]
  | cons rect rects ih =>
    obtain ⟨hrect, h⟩ := List.forall_mem_cons.mp h
    rw [drawRects, if_neg (by omega), ih _ h]
    simp [copyOf, Function.comp_def]

/-- Every updated tile is drawn, in the order of the updates. -/
theorem drawTiles_eq {surface : Surface} {clip : Region16} {P : ℕ → ℕ → Prop} (hclip : Clips clip P)
    (tiles : List ℕ) (drawn : Drawn) :
    drawTiles call surface clip tiles drawn =
      { copies := drawn.copies ++
          tiles.flatMap fun z => (tileRects call surface clip z).map (copyOf call surface z)
        invalidRegion := drawn.invalidRegion.map fun region =>
          (tiles.flatMap (tileRects call surface clip)).foldl unionRect region
        rc := drawn.rc } := by
  induction tiles generalizing drawn with
  | nil => simp [drawTiles]
  | cons z tiles ih =>
    rw [drawTiles, drawRects_eq drawn (hclip.nonempty _), ih]
    simp [tileRects, List.foldl_append, Function.comp_def]

end FreeRDP.Progressive
