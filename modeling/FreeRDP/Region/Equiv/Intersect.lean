import FreeRDP.Region.Equiv.Canonical

/-!
# Intersection of a region and a rectangle

`region16_intersect_rect` and `region16_intersects_rect` take short cuts: both stop at the first
rectangle below the argument, and both look at the extents only when there is one rectangle.  On
well-formed regions they compute the common points all the same
(`region16IntersectRectAt_correct`), also when the region is intersected in place, unless there are so many
common rectangles that the `int` of `region16_simplify_bands` wraps.
-/

namespace FreeRDP.Region

open Bands Intervals

variable {src : Region16} {rect : Rect}

/-! ### The result in memory -/

/-- Whether the source is the destination makes no difference. -/
theorem region16IntersectRectAt_eq {ι : Type} [DecidableEq ι] (regions : ι → Region16) (dst src : ι)
    (rect : Rect) :
    region16IntersectRectAt regions dst src rect =
      (region16IntersectRect (regions src) rect).map (Function.update regions dst) := by
  unfold region16IntersectRectAt region16IntersectRect
  split
  · rfl
  · cases rectanglesIntersection (regions src).extents rect with
    | none => rfl
    | some common =>
      dsimp only
      rw [Function.update_self, region16UnionRect_clear, Option.map_some, Option.map_some,
        Function.update_idem]
  · rw [Option.map_map]
    rfl

/-! ### Well-formedness -/

theorem wellFormed_region16Clear : WellFormed region16Clear :=
  wellFormed_of_banded ⟨nofun, List.Pairwise.nil⟩ rfl

/-- Bands that cover nothing give an empty array, with and without joining them. -/
private theorem rectsOf_coalesce_eq_nil {bs : List Band} (h : Bands.WellFormed bs) :
    rectsOf (coalesce bs) = [] ↔ rectsOf bs = [] := by
  have hpoints : ∀ {cs : List Band}, Bands.WellFormed cs →
      (rectsOf cs = [] ↔ ∀ x y, ¬ CoversPoint (rectsOf cs) x y) := by
    intro cs hcs
    constructor
    · rintro hnil x y ⟨r, hr, -⟩
      rw [hnil] at hr
      exact nomatch hr
    · intro hnone
      by_contra hne
      obtain ⟨r, hr⟩ := List.exists_mem_of_ne_nil _ hne
      obtain ⟨hleft, htop⟩ := (banded_rectsOf hcs).1 r hr
      exact hnone r.left r.top ⟨r, hr, ⟨Nat.le_refl _, hleft, Nat.le_refl _, htop⟩⟩
  rw [hpoints (wellFormed_coalesce h), hpoints h]
  simp only [coversPoint_rectsOf, covers_coalesce h]

/-- The intersection is well-formed, its extents included. -/
theorem WellFormed.intersect_wellFormed (h : WellFormed src) (rect : Rect) :
    WellFormed (intersectRect src rect) := by
  obtain ⟨bs, hbs, hrects⟩ := exists_rectsOf h.banded
  unfold intersectRect
  split
  · exact wellFormed_region16Clear
  · cases hcommon : rectanglesIntersection src.extents rect with
    | none => exact wellFormed_region16Clear
    | some common =>
      obtain ⟨hleft, htop⟩ := rectanglesIntersection_some hcommon
      exact (wellFormed_region16Clear.union hleft htop).1
  · have hclip := clipBands_wellFormed rect hbs
    obtain ⟨hitems, hext⟩ :=
      intersectRects_spec rect (e := ⟨0, 0, 0, 0⟩) [] h.rows (by simp) (by simp)
    rw [List.nil_append, ← hrects, clipRects_rectsOf] at hitems hext
    dsimp only
    rw [hrects] at hitems hext
    rw [hitems, joinBands_rectsOf hclip]
    have hbanded := banded_rectsOf (wellFormed_coalesce hclip)
    refine wellFormed_of_banded hbanded ?_
    dsimp only
    -- the extents were those of the clipped rectangles, before bands were joined
    simp only [rectsOf_coalesce_eq_nil hclip]
    split_ifs at hext ⊢
    · exact hext
    · refine hext.congr (banded_rectsOf hclip).1 hbanded.1 fun x y => ?_
      rw [coversPoint_rectsOf, coversPoint_rectsOf, covers_coalesce hclip]

/-! ### The test -/

/-- Two rectangles intersect if they have a common point. -/
theorem rectanglesIntersects_iff {r1 r2 : Rect} :
    rectanglesIntersects r1 r2 = true ↔ ∃ x y, r1.Has x y ∧ r2.Has x y := by
  unfold rectanglesIntersects rectanglesIntersection Rect.Has
  split_ifs with hne
  · refine iff_of_true rfl ⟨max r1.left r2.left, max r1.top r2.top, ?_⟩
    omega
  · refine iff_of_false nofun ?_
    rintro ⟨x, y, hxy⟩
    omega

/-- The loop finds a rectangle that intersects, if there is one. -/
theorem intersectsRects_iff {rects : List Rect} (hrows : rects.Pairwise fun r s => r.top ≤ s.top) :
    intersectsRects rect rects = true ↔ ∃ r ∈ rects, rectanglesIntersects r rect = true := by
  induction rects with
  | nil => exact iff_of_false nofun fun ⟨r, hr, _⟩ => nomatch hr
  | cons r rects ih =>
    obtain ⟨hle, hrows⟩ := List.pairwise_cons.mp hrows
    unfold intersectsRects
    split_ifs with hrow hfound
    · exact iff_of_true rfl ⟨r, List.mem_cons_self, hfound⟩
    · rw [ih hrows]
      constructor
      · rintro ⟨s, hs, hinter⟩
        exact ⟨s, List.mem_cons_of_mem r hs, hinter⟩
      · rintro ⟨s, hs, hinter⟩
        rcases List.mem_cons.mp hs with rfl | hs
        · exact absurd hinter hfound
        · exact ⟨s, hs, hinter⟩
    · -- all further rectangles start below the argument
      refine iff_of_false nofun ?_
      rintro ⟨s, hs, hinter⟩
      have htop : r.top ≤ s.top := by
        rcases List.mem_cons.mp hs with rfl | hs
        · exact Nat.le_refl _
        · exact hle s hs
      obtain ⟨x, y, hxy, hrect⟩ := rectanglesIntersects_iff.mp hinter
      unfold Rect.Has at hxy hrect
      omega

theorem WellFormed.intersectsRect_iff (h : WellFormed src) (rect : Rect) :
    region16IntersectsRect src rect = true ↔ ∃ x y, CoversPoint src.rects x y ∧ rect.Has x y := by
  have hpoints : (∃ r ∈ src.rects, rectanglesIntersects r rect = true) ↔
      ∃ x y, CoversPoint src.rects x y ∧ rect.Has x y := by
    simp only [rectanglesIntersects_iff, CoversPoint]
    constructor
    · rintro ⟨r, hr, x, y, hxy, hrect⟩
      exact ⟨x, y, ⟨r, hr, hxy⟩, hrect⟩
    · rintro ⟨x, y, ⟨r, hr, hxy⟩, hrect⟩
      exact ⟨r, hr, x, y, hxy, hrect⟩
  rw [← hpoints]
  have he := h.extents
  unfold region16IntersectsRect
  split
  · next hnil =>
    rw [hnil]
    refine iff_of_false Bool.false_ne_true ?_
    rintro ⟨r, hr, -⟩
    exact absurd hr List.not_mem_nil
  · next r hone =>
    rw [h.extents_singleton hone, hone]
    simp
  · next hnil hone =>
    have hne : src.rects ≠ [] := hnil
    rw [if_neg hne] at he
    split_ifs with hextents
    · exact intersectsRects_iff h.rows
    · -- the extents contain every rectangle
      refine iff_of_false not_false ?_
      rintro ⟨r, hr, hinter⟩
      obtain ⟨x, y, hxy, hrect⟩ := rectanglesIntersects_iff.mp hinter
      refine hextents (rectanglesIntersects_iff.mpr ⟨x, y, ?_, hrect⟩)
      have hsub := he.1 r hr
      unfold Rect.Sub at hsub
      unfold Rect.Has at hxy ⊢
      omega

/-! ### Intersection is exact -/

/-- With fewer than `2 ^ 28` common rectangles `region16_intersect_rect` leaves the common points in `dst`,
which is well-formed, whether `dst` is `src` or another region, and `region16_intersects_rect` tells whether
there are any. -/
theorem region16IntersectRectAt_correct {ι : Type} [DecidableEq ι] (regions : ι → Region16)
    (dst src : ι) (rect : Rect) (hsrc : WellFormed (regions src)) :
    ((clipRects rect (regions src).rects).length < 2 ^ 28 →
      ∃ regions', region16IntersectRectAt regions dst src rect = some regions' ∧
        WellFormed (regions' dst) ∧
        (∀ x y, CoversPoint (regions' dst).rects x y ↔
          CoversPoint (regions src).rects x y ∧ rect.Has x y) ∧
        ∀ other, other ≠ dst → regions' other = regions other) ∧
      (region16IntersectsRect (regions src) rect = true ↔
        ∃ x y, CoversPoint (regions src).rects x y ∧ rect.Has x y) := by
  refine ⟨fun hclip => ?_, hsrc.intersectsRect_iff rect⟩
  refine ⟨Function.update regions dst (intersectRect (regions src) rect), ?_, ?_, ?_, ?_⟩
  · rw [region16IntersectRectAt_eq, region16IntersectRect_eq hsrc.rows hclip, Option.map_some]
  · rw [Function.update_self]
    exact hsrc.intersect_wellFormed rect
  · rw [Function.update_self]
    exact (hsrc.intersect rect).2
  · exact fun other hne => Function.update_of_ne hne _ _

/-- Two bands, cut in place so that they can be joined. -/
theorem region16IntersectRectAt_correct_joined :
    let regions : Unit → Region16 := fun _ => ⟨⟨0, 0, 20, 20⟩, [⟨0, 0, 20, 10⟩, ⟨0, 10, 10, 20⟩]⟩
    WellFormed (regions ()) ∧
      (∃ regions', region16IntersectRectAt regions () () ⟨5, 5, 10, 15⟩ = some regions' ∧
        WellFormed (regions' ()) ∧
        ∀ x y, CoversPoint (regions' ()).rects x y ↔
          CoversPoint (regions ()).rects x y ∧ (⟨5, 5, 10, 15⟩ : Rect).Has x y) ∧
      region16IntersectsRect (regions ()) ⟨5, 5, 10, 15⟩ = true := by
  intro regions
  have hsrc : WellFormed (regions ()) := by
    refine wellFormed_of_banded ⟨by simp [regions], by simp [regions, Before]⟩ ?_
    rw [if_neg (List.cons_ne_nil _ _)]
    refine ⟨by simp [regions, Rect.Sub], fun e' he' => ?_⟩
    have h1 := he' ⟨0, 0, 20, 10⟩ (by simp [regions])
    have h2 := he' ⟨0, 10, 10, 20⟩ (by simp [regions])
    simp only [regions, Rect.Sub] at *
    omega
  obtain ⟨hresult, htest⟩ := region16IntersectRectAt_correct regions () () ⟨5, 5, 10, 15⟩ hsrc
  obtain ⟨regions', hsome, hwf, hpoints, -⟩ := hresult (by decide)
  refine ⟨hsrc, ⟨regions', hsome, hwf, hpoints⟩, htest.mpr ⟨5, 5, ⟨⟨0, 0, 20, 10⟩, ?_, ?_⟩, ?_⟩⟩
  · simp [regions]
  · exact ⟨by decide, by decide, by decide, by decide⟩
  · exact ⟨by decide, by decide, by decide, by decide⟩

/-! ### Too many rectangles -/

theorem clipBands_inside {bs : List Band} (h : Bands.WellFormed bs)
    (hin : ∀ b ∈ bs, rect.top ≤ b.top ∧ b.bottom ≤ rect.bottom ∧
      ∀ i ∈ b.items, rect.left ≤ i.1 ∧ i.2 ≤ rect.right) : clipBands rect bs = bs := by
  have hband : ∀ b ∈ bs, clipBand rect b = b := by
    intro b hb
    obtain ⟨htop, hbottom, hitems⟩ := hin b hb
    have hmap : (b.items.map fun i => (max i.1 rect.left, min i.2 rect.right)) = b.items := by
      conv_rhs => rw [← List.map_id b.items]
      refine List.map_congr_left fun i hi => ?_
      rw [Nat.max_eq_left (hitems i hi).1, Nat.min_eq_left (hitems i hi).2]
      rfl
    rw [clipBand, clipItems, hmap, Nat.max_eq_left htop, Nat.min_eq_left hbottom,
      List.filter_eq_self.mpr fun i hi => decide_eq_true ((h.1 b hb).sorted.1 i hi)]
  have hmap : bs.map (clipBand rect) = bs := by
    conv_rhs => rw [← List.map_id bs]
    exact List.map_congr_left hband
  rw [clipBands, hmap, List.filter_eq_self]
  exact fun b hb => decide_eq_true ⟨(h.1 b hb).top_lt, (h.1 b hb).items_ne⟩

variable {n : ℕ}

/-- Without its last column the first two bands of the comb are equal. -/
theorem clipBands_combBands (hn : 0 < n) (hle : n ≤ 2 ^ 14) :
    clipBands ⟨0, 0, 65534, 65535⟩ (combBands n) = ⟨0, 1, [(0, 2)]⟩ :: ⟨1, 2, [(0, 2)]⟩ :: comb n := by
  have hwf := wellFormed_combBands hn
  obtain ⟨-, -, hcomb⟩ := Bands.wellFormed_cons.mp (Bands.wellFormed_cons.mp hwf).2.2
  have hinside : clipBands ⟨0, 0, 65534, 65535⟩ (comb n) = comb n := by
    refine clipBands_inside hcomb fun b hb => ?_
    obtain ⟨j, hj, -, hbottom, hitems⟩ := mem_comb hb
    refine ⟨Nat.zero_le _, by dsimp only; omega, fun i hi => ⟨Nat.zero_le _, ?_⟩⟩
    obtain ⟨k, hk, rfl⟩ := List.mem_map.mp (hitems ▸ hi)
    have := List.mem_range.mp hk
    dsimp only
    omega
  rw [clipBands] at hinside
  rw [clipBands, combBands, List.map_cons, List.map_cons, List.filter_cons_of_pos (by decide),
    List.filter_cons_of_pos (by decide), hinside]
  rfl

theorem intersect_combRegion (hn : 0 < n) (hle : n ≤ 2 ^ 14) (hsquare : n * n = 2 ^ 28) :
    region16IntersectRect (combRegion n) ⟨0, 0, 65534, 65535⟩ = none := by
  have hitems := (intersectRects_spec ⟨0, 0, 65534, 65535⟩ (e := ⟨0, 0, 0, 0⟩) []
    (wellFormed_combRegion hn hle).1.rows (by simp) (by simp)).1
  have hclip : clipRects ⟨0, 0, 65534, 65535⟩ (combRegion n).rects =
      rectsOf (⟨0, 1, [(0, 2)]⟩ :: ⟨1, 2, [(0, 2)]⟩ :: comb n) := by
    rw [← clipBands_combBands hn hle]
    exact clipRects_rectsOf _ _
  rw [List.nil_append, hclip] at hitems
  unfold region16IntersectRect
  split
  · next hnil => exact absurd hnil (combRegion_ne_nil hn)
  · next r hone => exact absurd (congrArg List.tail hone) (List.cons_ne_nil _ _)
  · dsimp only
    rw [hitems, simplifyBands_comb (List.cons_ne_nil _ _) (by decide) hsquare]
    rfl

/-- The region of `2 ^ 28 + 3` rectangles, cut so that its first two bands become equal: `MoveMemory` is
given a negative number of bytes. -/
theorem region16IntersectRectAt_runs_away :
    ∃ (regions : Unit → Region16) (rect : Rect), WellFormed (regions ()) ∧
      (∀ r ∈ (regions ()).rects, r.right < 2 ^ 16 ∧ r.bottom < 2 ^ 16) ∧
      rect.left < rect.right ∧ rect.right < 2 ^ 16 ∧ rect.top < rect.bottom ∧ rect.bottom < 2 ^ 16 ∧
      region16IntersectRectAt regions () () rect = none := by
  obtain ⟨hwf, hsides⟩ := wellFormed_combRegion (n := 2 ^ 14) (by decide) (Nat.le_refl _)
  have hnone := intersect_combRegion (n := 2 ^ 14) (by decide) (Nat.le_refl _) (by decide)
  refine ⟨fun _ => combRegion (2 ^ 14), ⟨0, 0, 65534, 65535⟩, hwf, hsides, by decide, by decide, by decide,
    by decide, ?_⟩
  rw [region16IntersectRectAt_eq, hnone, Option.map_none]

end FreeRDP.Region
