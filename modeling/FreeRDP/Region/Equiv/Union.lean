import FreeRDP.Region.Equiv.Bands
import Mathlib.Data.List.Pairwise

/-!
# Union of a region and a rectangle

`unionB` is the band walk of `region16_union_rect` on bands: each band is copied, or split and
merged, and the gaps between bands are filled.  Band by band the result covers the points of the
source and of the rectangle, so that `region16UnionRect` is exact as long as the bytes that are moved
when bands are joined fit an `int` (`region16UnionRect_correct`).
-/

namespace FreeRDP.Region

open Bands Intervals

/-! ### The walk on bands -/

/-- The rectangle lies inside one rectangle of the band. -/
def Contained (rect : Rect) (b : Band) : Prop :=
  b.top ≤ rect.top ∧ rect.bottom ≤ b.bottom ∧
    containedInItems b.top rect (rectsAt b.top b.bottom b.items)

instance (rect : Rect) (b : Band) : Decidable (Contained rect b) :=
  inferInstanceAs (Decidable (_ ∧ _))

/-- What becomes of one band. -/
def pieces (rect : Rect) (b : Band) : List Band :=
  if b.bottom ≤ rect.top ∨ rect.bottom ≤ b.top ∨ Contained rect b then [b]
  else
    (if b.top < rect.top then [⟨b.top, rect.top, b.items⟩] else []) ++
      ⟨max b.top rect.top, min b.bottom rect.bottom,
        Intervals.insert rect.left rect.right b.items⟩ ::
      (if rect.bottom < b.bottom then [⟨rect.bottom, b.bottom, b.items⟩] else [])

/-- The piece of the rectangle between a band and the next one. -/
def gap (rect : Rect) (b : Band) : List Band → List Band
  | [] => []
  | c :: _ =>
    if c.top ≠ b.bottom ∧ b.bottom < rect.bottom ∧ rect.top < c.top then
      [⟨max b.bottom rect.top, min c.top rect.bottom, [(rect.left, rect.right)]⟩]
    else []

/-- The band walk. -/
def unionB (rect : Rect) : List Band → List Band
  | [] => []
  | b :: bs => pieces rect b ++ gap rect b bs ++ unionB rect bs

theorem containedInItems_append {refY bottom : ℕ} {items : List (ℕ × ℕ)} {tail : List Rect}
    (rect : Rect) (htail : ∀ r ∈ tail, r.top ≠ refY) :
    containedInItems refY rect (rectsAt refY bottom items ++ tail) =
      containedInItems refY rect (rectsAt refY bottom items) := by
  induction items with
  | nil =>
    cases tail with
    | nil => rfl
    | cons r tail =>
      have hr := htail r List.mem_cons_self
      simp [rectsAt, containedInItems, hr]
  | cons i items ih => simp only [rectsAt_cons, List.cons_append, containedInItems, ih]

/-- A contained rectangle lies inside an interval of the band. -/
theorem exists_of_containedInItems {refY bottom : ℕ} {items : List (ℕ × ℕ)} {rect : Rect}
    (h : containedInItems refY rect (rectsAt refY bottom items)) :
    ∃ i ∈ items, i.1 ≤ rect.left ∧ rect.right ≤ i.2 := by
  induction items with
  | nil => simp [rectsAt, containedInItems] at h
  | cons i items ih =>
    rw [rectsAt_cons, containedInItems] at h
    simp only [true_and] at h
    split_ifs at h with h1 h2
    · exact ⟨i, List.mem_cons_self, h1, h2⟩
    · obtain ⟨j, hj, hle⟩ := ih h
      exact ⟨j, List.mem_cons_of_mem _ hj, hle⟩

theorem unionBand_rectsOf (rect : Rect) {r : Rect} {b : Band} {tail : List Rect}
    (hb : b.top < b.bottom) (hr : r.top = b.top ∧ r.bottom = b.bottom)
    (htail : ∀ r ∈ tail, r.top ≠ b.top) :
    (unionBand rect r (rectsAt b.top b.bottom b.items ++ tail)).items = rectsOf (pieces rect b) ∧
      (unionBand rect r (rectsAt b.top b.bottom b.items ++ tail)).nextBand = tail ∧
      (b.bottom < rect.bottom → (unionBand rect r
        (rectsAt b.top b.bottom b.items ++ tail)).topInterBand = max b.bottom rect.top) := by
  have hnone := fun t u => copyBand_none t u b.bottom b.items htail
  have hcond : (r.bottom ≤ rect.top ∨ rect.bottom ≤ r.top ∨ rectangleContainedInBand r
      (rectsAt b.top b.bottom b.items ++ tail) rect = true) ↔
      (b.bottom ≤ rect.top ∨ rect.bottom ≤ b.top ∨ Contained rect b) := by
    rw [hr.1, hr.2, rectangleContainedInBand, Contained, hr.1, hr.2,
      containedInItems_append rect htail]
    split_ifs with h
    · simp only [or_false]
      omega
    · have h1 : b.top ≤ rect.top := by omega
      have h2 : rect.bottom ≤ b.bottom := by omega
      simp only [h1, h2, true_and]
  refine ⟨?_, ?_, ?_⟩
  · rw [unionBand, pieces]
    by_cases h : b.bottom ≤ rect.top ∨ rect.bottom ≤ b.top ∨ Contained rect b
    · rw [if_pos (hcond.mpr h), if_pos h]
      dsimp only
      rw [hr.1, hr.2, hnone]
      simp [rectsOf]
    · rw [if_neg (fun hc => h (hcond.mp hc)), if_neg h]
      simp only [hr.1, hr.2, hnone, copyBand_some rect htail]
      rw [show max b.top rect.top = if rect.top > b.top then rect.top else b.top by
          split_ifs <;> omega,
        show min b.bottom rect.bottom = if rect.bottom < b.bottom then rect.bottom else b.bottom by
          split_ifs <;> omega]
      by_cases h1 : b.top < rect.top <;> by_cases h2 : rect.bottom < b.bottom <;>
        simp [h1, h2, rectsOf]
  · rw [nextBand_unionBand, hr.1, dropWhile_band _ _ htail]
  · intro hlt
    rw [unionBand]
    by_cases h : b.bottom ≤ rect.top ∨ rect.bottom ≤ b.top ∨ Contained rect b
    · rw [if_pos (hcond.mpr h)]
      dsimp only
      rcases h with h | h | h
      · omega
      · omega
      · have := h.2.1
        omega
    · rw [if_neg (fun hc => h (hcond.mp hc))]
      simp only [not_or] at h
      dsimp only
      split_ifs <;> simp only [hr.2] <;> omega

/-- The walk over the array is the walk over its bands. -/
theorem unionBands_rectsOf {rect : Rect} {bs : List Band} (h : Bands.WellFormed bs) :
    unionBands rect (rectsOf bs) = rectsOf (unionB rect bs) := by
  induction bs with
  | nil => rw [rectsOf_nil, unionBands]; rfl
  | cons b bs ih =>
    obtain ⟨hb, hle, hrest⟩ := Bands.wellFormed_cons.mp h
    obtain ⟨i, items, hitems⟩ := List.exists_cons_of_ne_nil hb.items_ne
    obtain ⟨hpieces, hnext, hinter⟩ := unionBand_rectsOf rect (b := b)
      (r := ⟨i.1, b.top, i.2, b.bottom⟩) hb.top_lt ⟨rfl, rfl⟩ (fun r hr => top_ne_of_mem_tail h hr)
    have hgap : interBand rect ⟨i.1, b.top, i.2, b.bottom⟩
        (unionBand rect ⟨i.1, b.top, i.2, b.bottom⟩
          (rectsAt b.top b.bottom b.items ++ rectsOf bs)).topInterBand (rectsOf bs) =
        rectsOf (gap rect b bs) := by
      cases bs with
      | nil => rfl
      | cons c cs =>
        have hc := (Bands.wellFormed_cons.mp hrest).1
        obtain ⟨j, items', hitems'⟩ := List.exists_cons_of_ne_nil hc.items_ne
        rw [gap]
        conv_lhs => rw [rectsOf_cons c cs, hitems', rectsAt_cons, List.cons_append]
        rw [interBand]
        dsimp only
        split_ifs with hcond
        · rw [← List.cons_append, ← rectsAt_cons, ← hitems', ← rectsOf_cons, hinter hcond.2.1]
          rfl
        · rfl
    rw [unionB, rectsOf_append, rectsOf_append, ← ih hrest, ← hpieces, ← hgap, ← hnext]
    conv_lhs => rw [rectsOf_cons, hitems, rectsAt_cons, List.cons_append, unionBands]
    rw [← List.cons_append, ← rectsAt_cons, ← hitems, hnext]

/-! ### What the walk covers -/

/-- The bands lie in the rows `[lo, hi)`. -/
def Within (lo hi : ℕ) (bs : List Band) : Prop := ∀ b ∈ bs, lo ≤ b.top ∧ b.bottom ≤ hi

/-- The bottom of the last of the bands `b :: bs`. -/
def lastBottom (b : Band) : List Band → ℕ
  | [] => b.bottom
  | c :: bs => lastBottom c bs

theorem wellFormed_append_of_within {bs cs : List Band} {lo mid hi : ℕ}
    (hbs : Bands.WellFormed bs) (hcs : Bands.WellFormed cs) (hb : Within lo mid bs)
    (hc : Within mid hi cs) : Bands.WellFormed (bs ++ cs) :=
  Bands.wellFormed_append.mpr ⟨hbs, hcs, fun b hb' c hc' =>
    Nat.le_trans (hb b hb').2 (hc c hc').1⟩

theorem within_append {bs cs : List Band} {lo mid hi : ℕ} (hb : Within lo mid bs)
    (hc : Within mid hi cs) (hlo : lo ≤ mid) (hhi : mid ≤ hi) : Within lo hi (bs ++ cs) := by
  intro b hb'
  rcases List.mem_append.mp hb' with h | h
  · have := hb b h
    omega
  · have := hc b h
    omega

theorem wellFormed_single {top bottom left right : ℕ} (h1 : top < bottom) (h2 : left < right) :
    Bands.WellFormed [⟨top, bottom, [(left, right)]⟩] :=
  Bands.wellFormed_cons.mpr
    ⟨⟨h1, by simp, by simpa [Sorted] using h2⟩, by simp, ⟨by simp, List.Pairwise.nil⟩⟩

/-- A band with one interval, if there is one. -/
theorem covers_optional {p : Prop} [Decidable p] {top bottom left right x y : ℕ} :
    Bands.Covers (if p then [⟨top, bottom, [(left, right)]⟩] else []) x y ↔
      p ∧ left ≤ x ∧ x < right ∧ top ≤ y ∧ y < bottom := by
  split_ifs with h
  · simp only [Bands.covers_cons, Bands.covers_nil, or_false, Band.Has, Intervals.covers_cons,
      Intervals.covers_nil]
    tauto
  · simp [h]

theorem wellFormed_optional {p : Prop} [Decidable p] {left right : ℕ} (top bottom lo hi : ℕ)
    (hlr : left < right) (h : p → lo ≤ top ∧ top < bottom ∧ bottom ≤ hi) :
    Bands.WellFormed (if p then [⟨top, bottom, [(left, right)]⟩] else []) ∧
      Within lo hi (if p then [⟨top, bottom, [(left, right)]⟩] else []) := by
  split_ifs with hp
  · obtain ⟨hlo, hlt, hhi⟩ := h hp
    refine ⟨wellFormed_single hlt hlr, fun d hd => ?_⟩
    obtain rfl := List.mem_singleton.mp hd
    exact ⟨hlo, hhi⟩
  · exact ⟨⟨by simp, List.Pairwise.nil⟩, by simp [Within]⟩

section Walk

variable {rect : Rect} {b c : Band} {bs : List Band} {x y : ℕ}

theorem covers_pieces (hb : b.WellFormed) :
    Bands.Covers (pieces rect b) x y ↔
      b.Has x y ∨ (rect.Has x y ∧ b.top ≤ y ∧ y < b.bottom) := by
  unfold pieces
  split_ifs with h h1 h2 h2
  · -- outside the rows of the band, or inside one of its rectangles
    simp only [Bands.covers_cons, Bands.covers_nil, or_false, Band.Has, Rect.Has]
    constructor
    · exact .inl
    · rintro (h' | ⟨h', hy⟩)
      · exact h'
      · rcases h with h | h | ⟨h1, h2, h3⟩
        · omega
        · omega
        · obtain ⟨i, hi, hle⟩ := exists_of_containedInItems h3
          exact ⟨hy.1, hy.2, i, hi, by omega, by omega⟩
  all_goals
    simp only [List.singleton_append, List.nil_append, Bands.covers_cons, Bands.covers_nil,
      or_false, Band.Has, Rect.Has, covers_insert hb.sorted, not_or] at *
    by_cases hx : Intervals.Covers b.items x
    · simp only [hx, true_or, and_true]
      omega
    · simp only [hx, false_or, and_false, or_false]
      omega

theorem wellFormed_pieces (hb : b.WellFormed) (hr : rect.left < rect.right)
    (hb' : rect.top < rect.bottom) :
    Bands.WellFormed (pieces rect b) ∧ Within b.top b.bottom (pieces rect b) := by
  have htb := hb.top_lt
  have hins := sorted_insert hb.sorted hr
  have hne := insert_ne_nil rect.left rect.right b.items
  unfold pieces
  split_ifs with h h1 h2 h2
  · exact ⟨Bands.wellFormed_cons.mpr ⟨hb, by simp, ⟨by simp, List.Pairwise.nil⟩⟩, by simp [Within]⟩
  all_goals
    simp only [not_or] at h
    refine ⟨⟨?_, ?_⟩, ?_⟩
    · intro d hd
      simp only [List.singleton_append, List.nil_append, List.mem_cons, List.not_mem_nil,
        or_false] at hd
      rcases hd with rfl | rfl | rfl
      all_goals first
        | exact ⟨by dsimp only; omega, hb.items_ne, hb.sorted⟩
        | exact ⟨by dsimp only; omega, hne, hins⟩
    · simp
      try omega
    · intro d hd
      simp only [List.singleton_append, List.nil_append, List.mem_cons, List.not_mem_nil,
        or_false] at hd
      rcases hd with rfl | rfl | rfl
      all_goals (dsimp only; omega)

theorem covers_gap :
    Bands.Covers (gap rect b (c :: bs)) x y ↔ rect.Has x y ∧ b.bottom ≤ y ∧ y < c.top := by
  rw [gap, covers_optional, Rect.Has]
  omega

theorem wellFormed_gap (bs : List Band) (hle : b.bottom ≤ c.top) (hr : rect.left < rect.right)
    (hb' : rect.top < rect.bottom) :
    Bands.WellFormed (gap rect b (c :: bs)) ∧ Within b.bottom c.top (gap rect b (c :: bs)) := by
  rw [gap]
  exact wellFormed_optional _ _ _ _ hr (by omega)

theorem bottom_le_lastBottom (h : Bands.WellFormed (b :: bs)) : b.bottom ≤ lastBottom b bs := by
  induction bs generalizing b with
  | nil => exact Nat.le_refl _
  | cons c bs ih =>
    obtain ⟨hb, hle, hrest⟩ := Bands.wellFormed_cons.mp h
    have hc := (Bands.wellFormed_cons.mp hrest).1.top_lt
    have := hle c List.mem_cons_self
    have := ih hrest
    rw [lastBottom]
    omega

/-- Between the first and the last row of the source, the walk adds the rectangle. -/
theorem covers_unionB (h : Bands.WellFormed (b :: bs)) :
    Bands.Covers (unionB rect (b :: bs)) x y ↔
      Bands.Covers (b :: bs) x y ∨ (rect.Has x y ∧ b.top ≤ y ∧ y < lastBottom b bs) := by
  induction bs generalizing b with
  | nil =>
    have hb := (Bands.wellFormed_cons.mp h).1
    simp only [unionB, gap, List.append_nil, covers_pieces hb, Bands.covers_cons,
      Bands.covers_nil, or_false, lastBottom]
  | cons c bs ih =>
    obtain ⟨hb, hle, hrest⟩ := Bands.wellFormed_cons.mp h
    have hbc := hle c List.mem_cons_self
    have hbt := hb.top_lt
    have hct := (Bands.wellFormed_cons.mp hrest).1.top_lt
    have hlast := bottom_le_lastBottom hrest
    rw [unionB, Bands.covers_append, Bands.covers_append, covers_pieces hb, covers_gap,
      ih hrest, Bands.covers_cons (b := b), lastBottom]
    constructor
    · rintro (((h1 | ⟨h1, hy⟩) | ⟨h1, hy⟩) | h1 | ⟨h1, hy⟩)
      · exact .inl (.inl h1)
      · exact .inr ⟨h1, by omega⟩
      · exact .inr ⟨h1, by omega⟩
      · exact .inl (.inr h1)
      · exact .inr ⟨h1, by omega⟩
    · rintro ((h1 | h1) | ⟨h1, hy⟩)
      · exact .inl (.inl (.inl h1))
      · exact .inr (.inl h1)
      · -- the rows of the rectangle fall into the band, the gap, or the rest
        by_cases hy1 : y < b.bottom
        · exact .inl (.inl (.inr ⟨h1, hy.1, hy1⟩))
        · by_cases hy2 : y < c.top
          · exact .inl (.inr ⟨h1, by omega, hy2⟩)
          · exact .inr (.inr ⟨h1, by omega, hy.2⟩)

theorem wellFormed_unionB (h : Bands.WellFormed (b :: bs)) (hr : rect.left < rect.right)
    (hb' : rect.top < rect.bottom) :
    Bands.WellFormed (unionB rect (b :: bs)) ∧
      Within b.top (lastBottom b bs) (unionB rect (b :: bs)) := by
  induction bs generalizing b with
  | nil =>
    have hb := (Bands.wellFormed_cons.mp h).1
    simpa [unionB, gap, lastBottom] using wellFormed_pieces hb hr hb'
  | cons c bs ih =>
    obtain ⟨hb, hle, hrest⟩ := Bands.wellFormed_cons.mp h
    have hbc := hle c List.mem_cons_self
    have hbt := hb.top_lt
    have hct := (Bands.wellFormed_cons.mp hrest).1.top_lt
    have hlast := bottom_le_lastBottom hrest
    obtain ⟨hp, hp'⟩ := wellFormed_pieces hb hr hb'
    obtain ⟨hg, hg'⟩ := wellFormed_gap bs hbc hr hb'
    obtain ⟨hu, hu'⟩ := ih hrest
    have hpg := within_append hp' hg' (by omega) hbc
    rw [unionB, lastBottom]
    exact ⟨wellFormed_append_of_within (wellFormed_append_of_within hp hg hp' hg') hu hpg hu',
      within_append hpg hu' (by omega) (by omega)⟩

end Walk

/-! ### The whole union -/

/-- The bands of a union before they are joined. -/
def unionAll (rect : Rect) (b : Band) (bs : List Band) : List Band :=
  (if rect.top < b.top then
    [⟨rect.top, min b.top rect.bottom, [(rect.left, rect.right)]⟩] else []) ++
  unionB rect (b :: bs) ++
  (if lastBottom b bs < rect.bottom then
    [⟨max (lastBottom b bs) rect.top, rect.bottom, [(rect.left, rect.right)]⟩] else [])

section All

variable {rect : Rect} {b : Band} {bs : List Band} {x y : ℕ}

theorem covers_unionAll (h : Bands.WellFormed (b :: bs)) :
    Bands.Covers (unionAll rect b bs) x y ↔ Bands.Covers (b :: bs) x y ∨ rect.Has x y := by
  have hbt := (Bands.wellFormed_cons.mp h).1.top_lt
  have hlast := bottom_le_lastBottom h
  have htop : Bands.Covers (if rect.top < b.top then
      [⟨rect.top, min b.top rect.bottom, [(rect.left, rect.right)]⟩] else []) x y ↔
      rect.Has x y ∧ y < b.top := by
    rw [covers_optional, Rect.Has]
    omega
  have hbottom : Bands.Covers (if lastBottom b bs < rect.bottom then
      [⟨max (lastBottom b bs) rect.top, rect.bottom, [(rect.left, rect.right)]⟩] else []) x y ↔
      rect.Has x y ∧ lastBottom b bs ≤ y := by
    rw [covers_optional, Rect.Has]
    omega
  rw [unionAll, Bands.covers_append, Bands.covers_append, htop, hbottom, covers_unionB h]
  constructor
  · rintro ((h1 | h1 | h1) | h1)
    · exact .inr h1.1
    · exact .inl h1
    · exact .inr h1.1
    · exact .inr h1.1
  · rintro (h1 | h1)
    · exact .inl (.inr (.inl h1))
    · by_cases hy1 : y < b.top
      · exact .inl (.inl ⟨h1, hy1⟩)
      · by_cases hy2 : y < lastBottom b bs
        · exact .inl (.inr (.inr ⟨h1, by omega, hy2⟩))
        · exact .inr ⟨h1, by omega⟩

theorem wellFormed_unionAll (h : Bands.WellFormed (b :: bs)) (hr : rect.left < rect.right)
    (hb' : rect.top < rect.bottom) : Bands.WellFormed (unionAll rect b bs) := by
  have hbt := (Bands.wellFormed_cons.mp h).1.top_lt
  have hlast := bottom_le_lastBottom h
  obtain ⟨hu, hu'⟩ := wellFormed_unionB h hr hb'
  obtain ⟨htop, htop'⟩ := wellFormed_optional (p := rect.top < b.top) rect.top
    (min b.top rect.bottom) 0 b.top hr (by omega)
  obtain ⟨hbottom, hbottom'⟩ := wellFormed_optional (p := lastBottom b bs < rect.bottom)
    (max (lastBottom b bs) rect.top) rect.bottom (lastBottom b bs)
    (max (lastBottom b bs) rect.bottom) hr (by omega)
  have hfront := within_append htop' hu' (by omega) (by omega)
  exact wellFormed_append_of_within (wellFormed_append_of_within htop hu htop' hu') hbottom
    hfront hbottom'

end All

/-! ### Well-formed regions -/

/-- `r` lies inside `e`. -/
def Rect.Sub (r e : Rect) : Prop :=
  e.left ≤ r.left ∧ e.top ≤ r.top ∧ r.right ≤ e.right ∧ r.bottom ≤ e.bottom

/-- `e` is the smallest rectangle that contains the rectangles of the list. -/
def IsExtents (e : Rect) (rects : List Rect) : Prop :=
  (∀ r ∈ rects, r.Sub e) ∧ ∀ e' : Rect, (∀ r ∈ rects, r.Sub e') → e.Sub e'

/-- The form of a region that `region.c` describes: non-empty rectangles, sorted by top and then by
left side, in bands of a common top and bottom that do not overlap, the rectangles of a band not
overlapping either, with the smallest enclosing rectangle as extents. -/
structure WellFormed (region : Region16) : Prop where
  nonempty : ∀ r ∈ region.rects, r.left < r.right ∧ r.top < r.bottom
  sorted : region.rects.Pairwise fun r s => r.top < s.top ∨ (r.top = s.top ∧ r.left < s.left)
  bands : ∀ r ∈ region.rects, ∀ s ∈ region.rects, r.top = s.top → r.bottom = s.bottom
  vertical : ∀ r ∈ region.rects, ∀ s ∈ region.rects, r.top < s.top → r.bottom ≤ s.top
  horizontal : ∀ r ∈ region.rects, ∀ s ∈ region.rects, r.top = s.top → r.left < s.left →
    r.right ≤ s.left
  extents : if region.rects = [] then region.extents = ⟨0, 0, 0, 0⟩
    else IsExtents region.extents region.rects

theorem WellFormed.banded {region : Region16} (h : WellFormed region) : Banded region.rects := by
  refine ⟨h.nonempty, h.sorted.imp_of_mem fun {r s} hr hs hrs => ?_⟩
  rcases hrs with hlt | ⟨heq, hlt⟩
  · exact .inr (h.vertical r hr s hs hlt)
  · exact .inl ⟨heq, h.bands r hr s hs heq, h.horizontal r hr s hs heq hlt⟩

/-- Two rectangles of a banded array are equal or come one before the other. -/
private theorem Banded.cases {rects : List Rect} (h : Banded rects) {r s : Rect} (hr : r ∈ rects)
    (hs : s ∈ rects) : r = s ∨ Before r s ∨ Before s r := by
  by_cases heq : r = s
  · exact .inl heq
  · have hsymm : rects.Pairwise fun r s => Before r s ∨ Before s r := h.2.imp .inl
    have : Std.Symm fun r s => Before r s ∨ Before s r := ⟨fun _ _ h => h.symm⟩
    exact .inr (hsymm.forall hr hs heq)

theorem wellFormed_of_banded {region : Region16} (h : Banded region.rects)
    (he : if region.rects = [] then region.extents = ⟨0, 0, 0, 0⟩
      else IsExtents region.extents region.rects) : WellFormed region where
  nonempty := h.1
  sorted := h.2.imp_of_mem fun {r s} hr hs hrs => by
    have := h.1 r hr
    rcases hrs with h' | h' <;> omega
  bands := by
    intro r hr s hs heq
    have h1 := h.1 r hr
    have h2 := h.1 s hs
    rcases h.cases hr hs with rfl | (h' | h') | h' | h' <;> omega
  vertical := by
    intro r hr s hs hlt
    have h1 := h.1 r hr
    have h2 := h.1 s hs
    rcases h.cases hr hs with rfl | (h' | h') | h' | h' <;> omega
  horizontal := by
    intro r hr s hs heq hlt
    have h1 := h.1 r hr
    have h2 := h.1 s hs
    rcases h.cases hr hs with rfl | (h' | h') | h' | h' <;> omega
  extents := he

/-- A list of non-empty rectangles lies inside `e` when all its points do. -/
theorem forall_sub_iff {rects : List Rect} (hne : ∀ r ∈ rects, r.left < r.right ∧ r.top < r.bottom)
    (e : Rect) : (∀ r ∈ rects, r.Sub e) ↔ ∀ x y, CoversPoint rects x y → e.Has x y := by
  constructor
  · rintro h x y ⟨r, hr, hxy⟩
    have := h r hr
    simp only [Rect.Sub, Rect.Has] at *
    omega
  · intro h r hr
    have := hne r hr
    have h1 := h r.left r.top ⟨r, hr, by simp only [Rect.Has]; omega⟩
    have h2 := h (r.right - 1) (r.bottom - 1) ⟨r, hr, by simp only [Rect.Has]; omega⟩
    simp only [Rect.Sub, Rect.Has] at *
    omega

/-- The extents of a union, from the points it covers. -/
theorem isExtents_joinExtents {rects rects' : List Rect} {e rect : Rect}
    (hne : ∀ r ∈ rects, r.left < r.right ∧ r.top < r.bottom)
    (hne' : ∀ r ∈ rects', r.left < r.right ∧ r.top < r.bottom)
    (hrect : rect.left < rect.right ∧ rect.top < rect.bottom) (he : IsExtents e rects)
    (h : ∀ x y, CoversPoint rects' x y ↔ CoversPoint rects x y ∨ rect.Has x y) :
    IsExtents (joinExtents rect e) rects' := by
  -- containing the union is containing both parts
  have hiff : ∀ e' : Rect, (∀ r ∈ rects', r.Sub e') ↔ (∀ r ∈ rects, r.Sub e') ∧ rect.Sub e' := by
    intro e'
    have hrect' : ∀ r ∈ [rect], r.left < r.right ∧ r.top < r.bottom := by simpa using hrect
    have hone := forall_sub_iff hrect' e'
    simp only [List.mem_singleton, forall_eq] at hone
    rw [forall_sub_iff hne', forall_sub_iff hne, hone]
    constructor
    · exact fun h' => ⟨fun x y hxy => h' x y ((h x y).mpr (.inl hxy)),
        fun x y ⟨r, hr, hxy⟩ => h' x y ((h x y).mpr (.inr (List.mem_singleton.mp hr ▸ hxy)))⟩
    · rintro ⟨h1, h2⟩ x y hxy
      rcases (h x y).mp hxy with hxy | hxy
      · exact h1 x y hxy
      · exact h2 x y ⟨rect, by simp, hxy⟩
  refine ⟨(hiff _).mpr ⟨fun r hr => ?_, ?_⟩, fun e' he' => ?_⟩
  · have := he.1 r hr
    simp only [Rect.Sub, joinExtents] at *
    omega
  · simp only [Rect.Sub, joinExtents]
    omega
  · have h1 := he.2 e' ((hiff e').mp he').1
    have h2 := ((hiff e').mp he').2
    simp only [Rect.Sub, joinExtents] at *
    omega

theorem within_lastBottom {b : Band} {bs : List Band} (h : Bands.WellFormed (b :: bs)) :
    Within b.top (lastBottom b bs) (b :: bs) ∧ ∃ c ∈ b :: bs, c.bottom = lastBottom b bs := by
  induction bs generalizing b with
  | nil => exact ⟨by simp [Within, lastBottom], b, by simp, rfl⟩
  | cons c bs ih =>
    obtain ⟨hb, hle, hrest⟩ := Bands.wellFormed_cons.mp h
    have hbc := hle c List.mem_cons_self
    have hbt := hb.top_lt
    have hct := (Bands.wellFormed_cons.mp hrest).1.top_lt
    have hlast := bottom_le_lastBottom h
    obtain ⟨hwithin, d, hd, hbottom⟩ := ih hrest
    refine ⟨fun d hd => ?_, d, List.mem_cons_of_mem _ hd, hbottom⟩
    rcases List.mem_cons.mp hd with rfl | hd
    · exact ⟨Nat.le_refl _, hlast⟩
    · have := hwithin d hd
      rw [lastBottom]
      omega

/-- The extents of bands start with the first and end with the last band. -/
theorem extents_rows {e : Rect} {b : Band} {bs : List Band} (h : Bands.WellFormed (b :: bs))
    (he : IsExtents e (rectsOf (b :: bs))) : e.top = b.top ∧ e.bottom = lastBottom b bs := by
  obtain ⟨hin, hsmall⟩ := he
  obtain ⟨hwithin, c, hc, hlast⟩ := within_lastBottom h
  have hrow : ∀ d ∈ b :: bs, ∃ r ∈ rectsOf (b :: bs), r.top = d.top ∧ r.bottom = d.bottom := by
    intro d hd
    obtain ⟨i, hi⟩ := List.exists_mem_of_ne_nil _ (h.1 d hd).items_ne
    exact ⟨⟨i.1, d.top, i.2, d.bottom⟩, mem_rectsOf.mpr ⟨d, hd, rfl, rfl, hi⟩, rfl, rfl⟩
  obtain ⟨r, hr, hrtop, -⟩ := hrow b List.mem_cons_self
  obtain ⟨s, hs, -, hsbottom⟩ := hrow c hc
  have h1 := hin r hr
  have h2 := hin s hs
  -- the extents cut down to the rows of the bands still contain them
  have h3 := hsmall { e with top := b.top, bottom := lastBottom b bs } fun t ht => by
    obtain ⟨d, hd, htop, hbottom, -⟩ := mem_rectsOf.mp ht
    have := hwithin d hd
    have := hin t ht
    simp only [Rect.Sub] at *
    omega
  simp only [Rect.Sub] at *
  omega

theorem coversPoint_singleton {r : Rect} {x y : ℕ} : CoversPoint [r] x y ↔ r.Has x y := by
  simp [CoversPoint]

/-- The rectangles of a union with a non-empty region, before bands are joined. -/
theorem unionRects_rectsOf {src : Region16} {rect : Rect} {b : Band} {bs : List Band}
    (hbs : Bands.WellFormed (b :: bs)) (hrects : rectsOf (b :: bs) = src.rects)
    (he : IsExtents src.extents src.rects) : unionRects src rect = rectsOf (unionAll rect b bs) := by
  obtain ⟨htop, hbottom⟩ := extents_rows hbs (hrects ▸ he)
  rw [unionRects, ← hrects, unionBands_rectsOf hbs, unionAll, rectsOf_append, rectsOf_append, topPiece,
    bottomPiece, htop, hbottom]
  split_ifs <;> rfl

/-- The rectangles of a union with a non-empty region. -/
theorem rects_unionRect {src : Region16} {rect : Rect} {b : Band} {bs : List Band}
    (hbs : Bands.WellFormed (b :: bs)) (hrects : rectsOf (b :: bs) = src.rects)
    (he : IsExtents src.extents src.rects) (hr : rect.left < rect.right)
    (hb : rect.top < rect.bottom) :
    unionRect src rect =
      ⟨joinExtents rect src.extents, rectsOf (coalesce (unionAll rect b bs))⟩ := by
  have hne : src.rects ≠ [] := hrects ▸ rectsOf_ne_nil hbs
  rw [unionRect, if_neg hne, unionRects_rectsOf hbs hrects he,
    joinBands_rectsOf (wellFormed_unionAll hbs hr hb)]

/-- The union with a rectangle covers the points of both and is well-formed again. -/
theorem WellFormed.union {src : Region16} (hsrc : WellFormed src) {rect : Rect}
    (hr : rect.left < rect.right) (hb : rect.top < rect.bottom) :
    WellFormed (unionRect src rect) ∧
      ∀ x y, CoversPoint (unionRect src rect).rects x y ↔
        CoversPoint src.rects x y ∨ rect.Has x y := by
  obtain ⟨bs, hbs, hrects⟩ := exists_rectsOf hsrc.banded
  cases bs with
  | nil =>
    have hnil : src.rects = [] := hrects.symm
    rw [unionRect, if_pos hnil]
    refine ⟨wellFormed_of_banded ⟨by simpa using ⟨hr, hb⟩, by simp⟩ ?_, fun x y => ?_⟩
    · rw [if_neg (by simp)]
      exact ⟨by simp [Rect.Sub], fun e' he' => he' rect (by simp)⟩
    · rw [hnil, coversPoint_singleton]
      simp [CoversPoint]
  | cons b bs =>
    have hne : src.rects ≠ [] := hrects ▸ rectsOf_ne_nil hbs
    have he := hsrc.extents
    rw [if_neg hne] at he
    have hall := wellFormed_unionAll hbs hr hb
    have hbanded := banded_rectsOf (wellFormed_coalesce hall)
    have hcover : ∀ x y, CoversPoint (rectsOf (coalesce (unionAll rect b bs))) x y ↔
        CoversPoint src.rects x y ∨ rect.Has x y := by
      intro x y
      rw [coversPoint_rectsOf, covers_coalesce hall, covers_unionAll hbs, ← hrects,
        coversPoint_rectsOf]
    rw [rects_unionRect hbs hrects he hr hb]
    refine ⟨wellFormed_of_banded hbanded ?_, hcover⟩
    have hsome : rectsOf (coalesce (unionAll rect b bs)) ≠ [] := by
      intro hempty
      have := (hcover rect.left rect.top).mpr (.inr (by simp only [Rect.Has]; omega))
      rw [hempty] at this
      simp [CoversPoint] at this
    rw [if_neg hsome]
    exact isExtents_joinExtents hsrc.nonempty hbanded.1 ⟨hr, hb⟩ he hcover

theorem wellFormed_of_rect {r : Rect} (hr : r.left < r.right) (hb : r.top < r.bottom) :
    WellFormed ⟨r, [r]⟩ := by
  refine wellFormed_of_banded ⟨by simpa using ⟨hr, hb⟩, by simp⟩ ?_
  rw [if_neg (by simp)]
  exact ⟨by simp [Rect.Sub], fun e' he' => he' r (by simp)⟩

/-! ### The scratch array -/

section Scratch

variable {bs : List Band}

@[simp] theorem length_rectsAt (top bottom : ℕ) (items : List (ℕ × ℕ)) :
    (rectsAt top bottom items).length = items.length := List.length_map _

@[simp] theorem length_rectsOf_cons (b : Band) (bs : List Band) :
    (rectsOf (b :: bs)).length = b.items.length + (rectsOf bs).length := by
  rw [rectsOf_cons, List.length_append, length_rectsAt]

/-- A band is emitted three times only if the rectangle ends inside of it, so that no gap is filled
behind it. -/
theorem length_pieces_gap_le (rect : Rect) {b : Band} (bs : List Band) (hb : b.items ≠ []) :
    (rectsOf (pieces rect b ++ gap rect b bs)).length ≤ 4 * b.items.length := by
  have hpos : 0 < b.items.length := List.length_pos_iff.mpr hb
  have hinsert := length_insert_le rect.left rect.right b.items
  have hgap : (rectsOf (gap rect b bs)).length ≤ if b.bottom < rect.bottom then 1 else 0 := by
    cases bs with
    | nil => exact Nat.zero_le _
    | cons c bs =>
      rw [gap]
      split_ifs with h h'
      · simp
      · exact absurd h.2.1 h'
      · exact Nat.zero_le _
      · exact Nat.zero_le _
  have hpieces : (rectsOf (pieces rect b)).length + (if b.bottom < rect.bottom then 1 else 0) ≤
      4 * b.items.length := by
    unfold pieces
    split_ifs <;> simp <;> omega
  rw [rectsOf_append, List.length_append]
  omega

/-- The walk writes at most four rectangles for each rectangle of the source. -/
theorem length_unionB_le (rect : Rect) (h : Bands.WellFormed bs) :
    (rectsOf (unionB rect bs)).length ≤ 4 * (rectsOf bs).length := by
  induction bs with
  | nil => exact Nat.zero_le _
  | cons b bs ih =>
    obtain ⟨hb, -, hrest⟩ := Bands.wellFormed_cons.mp h
    have hround := length_pieces_gap_le rect bs hb.items_ne
    rw [unionB, rectsOf_append, List.length_append, length_rectsOf_cons]
    have := ih hrest
    omega

end Scratch

/-- The product does not overflow. -/
theorem newItemsLength_eq {src : Region16} (h : src.rects.length + 1 < 2 ^ 29) :
    newItemsLength src = 4 * (src.rects.length + 1) := by
  have hmod : ((1 + src.rects.length) * 4 : ℤ) % ((2 ^ 32 : ℕ) : ℤ) = (1 + src.rects.length) * 4 := by
    apply Int.emod_eq_of_lt <;> omega
  unfold newItemsLength
  rw [Int.bmod_def, hmod]
  split_ifs <;> omega

/-- The rectangles that are written, at most four for each of the source and four more. -/
theorem WellFormed.length_unionRects_le {src : Region16} (hsrc : WellFormed src) (rect : Rect) :
    usedRects src rect ≤ 4 * (src.rects.length + 1) := by
  obtain ⟨bs, hbs, hrects⟩ := exists_rectsOf hsrc.banded
  have hwalk := length_unionB_le rect hbs
  have htop : (topPiece src.extents rect).length ≤ 1 := by
    unfold topPiece
    split_ifs <;> simp
  have hbottom : (bottomPiece src.extents rect).length ≤ 1 := by
    unfold bottomPiece
    split_ifs <;> simp
  rw [← unionBands_rectsOf hbs, hrects] at hwalk
  rw [usedRects, unionRects, List.length_append, List.length_append]
  omega

/-- `newItems` has room for the rectangles that `region16_union_rect` writes before it simplifies
them. -/
theorem usedRects_le (src : Region16) (rect : Rect) (hsrc : WellFormed src) (hne : src.rects ≠ [])
    (hr : rect.left < rect.right) (hb : rect.top < rect.bottom) :
    usedRects src rect ≤ 4 * (src.rects.length + 1) ∧
      (src.rects.length + 1 < 2 ^ 29 → newItemsLength src = 4 * (src.rects.length + 1)) :=
  ⟨hsrc.length_unionRects_le rect, newItemsLength_eq⟩

theorem usedRects_le_square :
    ∃ src : Region16, src.rects = [⟨0, 0, 10, 10⟩] ∧
      usedRects src ⟨5, 5, 20, 15⟩ ≤ 4 * (src.rects.length + 1) ∧
      (src.rects.length + 1 < 2 ^ 29 → newItemsLength src = 4 * (src.rects.length + 1)) :=
  ⟨⟨⟨0, 0, 10, 10⟩, [⟨0, 0, 10, 10⟩]⟩, rfl, usedRects_le _ _
    (wellFormed_of_rect (by decide) (by decide)) (List.cons_ne_nil _ _) (by decide) (by decide)⟩

/-! ### The union in memory -/

section Memory

variable {src : Region16} {rect : Rect}

theorem WellFormed.room (hsrc : WellFormed src) (hsize : src.rects.length + 1 < 2 ^ 29) (rect : Rect) :
    ¬ newItemsLength src < usedRects src rect := by
  have hused := hsrc.length_unionRects_le rect
  rw [newItemsLength_eq hsize]
  omega

/-- With fewer than `2 ^ 28` rectangles before the bands are joined nothing wraps. -/
theorem region16UnionRect_eq (hroom : ¬ newItemsLength src < usedRects src rect)
    (hused : usedRects src rect < 2 ^ 28) : region16UnionRect src rect = some (unionRect src rect) := by
  unfold region16UnionRect unionRect
  split_ifs
  · rfl
  · rw [simplifyBands_eq hused]
    rfl

/-- The union with a few bands, whose result can be computed. -/
theorem region16UnionRect_rectsOf {e : Rect} {b : Band} {bs : List Band} (hbs : Bands.WellFormed (b :: bs))
    (hsrc : WellFormed ⟨e, rectsOf (b :: bs)⟩) (hr : rect.left < rect.right) (hb : rect.top < rect.bottom)
    (hfew : (rectsOf (b :: bs)).length < 2 ^ 20) :
    let dst : Region16 := ⟨joinExtents rect e, rectsOf (coalesce (unionAll rect b bs))⟩
    region16UnionRect ⟨e, rectsOf (b :: bs)⟩ rect = some dst ∧ WellFormed dst ∧
      usedRects ⟨e, rectsOf (b :: bs)⟩ rect < 2 ^ 28 := by
  have hle := hsrc.length_unionRects_le rect
  have hused : usedRects ⟨e, rectsOf (b :: bs)⟩ rect < 2 ^ 28 := by
    dsimp only at hle
    omega
  have he := hsrc.extents
  rw [if_neg (rectsOf_ne_nil hbs)] at he
  have hunion : unionRect ⟨e, rectsOf (b :: bs)⟩ rect = _ := rects_unionRect hbs rfl he hr hb
  rw [region16UnionRect_eq (hsrc.room (by dsimp only; omega) rect) hused, ← hunion]
  exact ⟨rfl, (hsrc.union hr hb).1, hused⟩

/-- `region16_union_rect` is exact: the result is well-formed and covers the points of the source
region and of the rectangle, and no others. -/
theorem region16UnionRect_correct (src : Region16) (rect : Rect) (hsrc : WellFormed src)
    (hr : rect.left < rect.right) (hb : rect.top < rect.bottom) (hsize : src.rects.length + 1 < 2 ^ 29)
    (hused : usedRects src rect < 2 ^ 28) :
    ∃ dst, region16UnionRect src rect = some dst ∧ WellFormed dst ∧
      ∀ x y, CoversPoint dst.rects x y ↔ CoversPoint src.rects x y ∨ rect.Has x y :=
  ⟨unionRect src rect, region16UnionRect_eq (hsrc.room hsize rect) hused, hsrc.union hr hb⟩

theorem region16UnionRect_correct_two :
    WellFormed ⟨⟨0, 0, 10, 10⟩, [⟨0, 0, 10, 10⟩]⟩ ∧
      ∃ dst, region16UnionRect ⟨⟨0, 0, 10, 10⟩, [⟨0, 0, 10, 10⟩]⟩ ⟨5, 5, 20, 15⟩ = some dst ∧
        WellFormed dst ∧ ∀ x y, CoversPoint dst.rects x y ↔
          CoversPoint [⟨0, 0, 10, 10⟩] x y ∨ (⟨5, 5, 20, 15⟩ : Rect).Has x y := by
  have hsrc : WellFormed ⟨⟨0, 0, 10, 10⟩, [⟨0, 0, 10, 10⟩]⟩ :=
    wellFormed_of_rect (by decide) (by decide)
  have hused := hsrc.length_unionRects_le ⟨5, 5, 20, 15⟩
  exact ⟨hsrc, region16UnionRect_correct _ ⟨5, 5, 20, 15⟩ hsrc (by decide) (by decide) (by decide)
    (Nat.lt_of_le_of_lt hused (by decide))⟩

end Memory

/-! ### Too many rectangles -/

/-- `n` rectangles beside each other. -/
def teeth (n : ℕ) : List (ℕ × ℕ) := (List.range n).map fun k => (4 * k, 4 * k + 2)

/-- `n` bands of `n` rectangles, from the row 3 on. -/
def comb (n : ℕ) : List Band := (List.range n).map fun j => ⟨3 + 2 * j, 4 + 2 * j, teeth n⟩

/-- Two bands in front of them, where the second one has a rectangle more. -/
def combBands (n : ℕ) : List Band := ⟨0, 1, [(0, 2)]⟩ :: ⟨1, 2, [(0, 2), (65534, 65535)]⟩ :: comb n

def combRegion (n : ℕ) : Region16 := ⟨⟨0, 0, 65535, 2 * n + 2⟩, rectsOf (combBands n)⟩

section Comb

variable {n : ℕ}

theorem sorted_teeth (n : ℕ) : Sorted (teeth n) := by
  refine ⟨?_, List.pairwise_map.mpr (List.pairwise_lt_range.imp fun {j k} hjk => ?_)⟩
  · intro i hi
    obtain ⟨k, -, rfl⟩ := List.mem_map.mp hi
    exact Nat.lt_add_of_pos_right Nat.zero_lt_two
  · dsimp only
    omega

theorem mem_comb {b : Band} (hb : b ∈ comb n) :
    ∃ j < n, b.top = 3 + 2 * j ∧ b.bottom = 4 + 2 * j ∧ b.items = teeth n := by
  obtain ⟨j, hj, rfl⟩ := List.mem_map.mp hb
  exact ⟨j, List.mem_range.mp hj, rfl, rfl, rfl⟩

theorem length_comb (n : ℕ) : (rectsOf (comb n)).length = n * n := by
  have hteeth : (teeth n).length = n := by rw [teeth, List.length_map, List.length_range]
  have hrows : ∀ rows : List ℕ, (rectsOf (rows.map fun j => ⟨3 + 2 * j, 4 + 2 * j, teeth n⟩)).length =
      rows.length * n := by
    intro rows
    induction rows with
    | nil => exact (Nat.zero_mul n).symm
    | cons j rows ih =>
      rw [List.map_cons, length_rectsOf_cons, ih, hteeth, List.length_cons, Nat.add_one_mul]
      exact Nat.add_comm _ _
  have := hrows (List.range n)
  rwa [List.length_range] at this

theorem wellFormed_combBands (hn : 0 < n) : Bands.WellFormed (combBands n) := by
  have hne : teeth n ≠ [] := by
    unfold teeth
    simp
    omega
  have hcomb : Bands.WellFormed (comb n) := by
    refine ⟨fun b hb => ?_, List.pairwise_map.mpr (List.pairwise_lt_range.imp fun {j k} hjk => ?_)⟩
    · obtain ⟨j, -, htop, hbottom, hitems⟩ := mem_comb hb
      exact ⟨by omega, hitems ▸ hne, hitems ▸ sorted_teeth n⟩
    · dsimp only
      omega
  refine Bands.wellFormed_cons.mpr ⟨⟨by decide, by decide, by simp [Sorted]⟩, ?_,
    Bands.wellFormed_cons.mpr ⟨⟨by decide, by decide, by simp [Sorted]⟩, ?_, hcomb⟩⟩
  · refine List.forall_mem_cons.mpr ⟨Nat.le_refl 1, fun b hb => ?_⟩
    obtain ⟨j, -, htop, -⟩ := mem_comb hb
    dsimp only
    omega
  · intro b hb
    obtain ⟨j, -, htop, -⟩ := mem_comb hb
    dsimp only
    omega

/-- The bands lie in the rows up to `2 * n + 2` and in the columns up to 65535. -/
theorem le_of_mem_combBands (hn : 0 < n) (hle : n ≤ 2 ^ 14) {b : Band} (hb : b ∈ combBands n) :
    b.bottom ≤ 2 * n + 2 ∧ ∀ i ∈ b.items, i.2 ≤ 65535 := by
  rcases List.mem_cons.mp hb with rfl | hb
  · exact ⟨by dsimp only; omega, by simp⟩
  rcases List.mem_cons.mp hb with rfl | hb
  · exact ⟨by dsimp only; omega, by simp⟩
  obtain ⟨j, hj, -, hbottom, hitems⟩ := mem_comb hb
  refine ⟨by omega, fun i hi => ?_⟩
  obtain ⟨k, hk, rfl⟩ := List.mem_map.mp (hitems ▸ hi)
  have := List.mem_range.mp hk
  dsimp only
  omega

theorem combRegion_ne_nil (hn : 0 < n) : (combRegion n).rects ≠ [] := rectsOf_ne_nil (wellFormed_combBands hn)

theorem wellFormed_combRegion (hn : 0 < n) (hle : n ≤ 2 ^ 14) :
    WellFormed (combRegion n) ∧ ∀ r ∈ (combRegion n).rects, r.right < 2 ^ 16 ∧ r.bottom < 2 ^ 16 := by
  have hwf := wellFormed_combBands hn
  have hin : ∀ r ∈ rectsOf (combBands n), r.right ≤ 65535 ∧ r.bottom ≤ 2 * n + 2 := by
    intro r hr
    obtain ⟨b, hb, -, hbottom, hi⟩ := mem_rectsOf.mp hr
    obtain ⟨hrows, hcolumns⟩ := le_of_mem_combBands hn hle hb
    exact ⟨hcolumns _ hi, hbottom ▸ hrows⟩
  have hrect : ∀ b ∈ combBands n, ∀ i ∈ b.items, ⟨i.1, b.top, i.2, b.bottom⟩ ∈ rectsOf (combBands n) :=
    fun b hb i hi => mem_rectsOf.mpr ⟨b, hb, rfl, rfl, hi⟩
  refine ⟨wellFormed_of_banded (banded_rectsOf hwf) ?_, fun r hr => ?_⟩
  · rw [if_neg (combRegion_ne_nil hn)]
    refine ⟨fun r hr => ?_, fun e he => ?_⟩
    · obtain ⟨hright, hbottom⟩ := hin r hr
      exact ⟨Nat.zero_le _, Nat.zero_le _, hright, hbottom⟩
    · -- the first two bands and the last one reach the sides
      have hfirst := he _ (hrect ⟨0, 1, [(0, 2)]⟩ List.mem_cons_self (0, 2) List.mem_cons_self)
      have hsecond := he _ (hrect ⟨1, 2, [(0, 2), (65534, 65535)]⟩
        (List.mem_cons_of_mem _ List.mem_cons_self) (65534, 65535)
        (List.mem_cons_of_mem _ List.mem_cons_self))
      have hlast := he _ (hrect ⟨3 + 2 * (n - 1), 4 + 2 * (n - 1), teeth n⟩
        (List.mem_cons_of_mem _ (List.mem_cons_of_mem _ (List.mem_map.mpr
          ⟨n - 1, List.mem_range.mpr (by omega), rfl⟩))) (4 * 0, 4 * 0 + 2)
        (List.mem_map.mpr ⟨0, List.mem_range.mpr hn, rfl⟩))
      simp only [Rect.Sub, combRegion] at hfirst hsecond hlast ⊢
      omega
  · obtain ⟨hright, hbottom⟩ := hin r hr
    omega

theorem unionB_below {rect : Rect} {bs : List Band} (hbs : Bands.WellFormed bs)
    (hbelow : ∀ b ∈ bs, rect.bottom ≤ b.top) : unionB rect bs = bs := by
  induction bs with
  | nil => rfl
  | cons b bs ih =>
    obtain ⟨hb, -, hrest⟩ := Bands.wellFormed_cons.mp hbs
    have htop := hbelow b List.mem_cons_self
    have hlt := hb.top_lt
    have hgap : gap rect b bs = [] := by
      cases bs with
      | nil => rfl
      | cons c bs => exact if_neg fun h => by omega
    rw [unionB, pieces, if_pos (.inr (.inl htop)), hgap,
      ih hrest fun c hc => hbelow c (List.mem_cons_of_mem _ hc)]
    rfl

theorem unionRects_combRegion (hn : 0 < n) (hle : n ≤ 2 ^ 14) :
    unionRects (combRegion n) ⟨65534, 0, 65535, 1⟩ =
      rectsOf (⟨0, 1, [(0, 2), (65534, 65535)]⟩ :: ⟨1, 2, [(0, 2), (65534, 65535)]⟩ :: comb n) := by
  have hwf := wellFormed_combBands hn
  obtain ⟨-, -, hrest⟩ := Bands.wellFormed_cons.mp hwf
  have he := (wellFormed_combRegion hn hle).1.extents
  rw [if_neg (combRegion_ne_nil hn)] at he
  have hlast : 1 ≤ lastBottom ⟨0, 1, [(0, 2)]⟩ (⟨1, 2, [(0, 2), (65534, 65535)]⟩ :: comb n) :=
    bottom_le_lastBottom hwf
  have hfirst : pieces ⟨65534, 0, 65535, 1⟩ ⟨0, 1, [(0, 2)]⟩ = [⟨0, 1, [(0, 2), (65534, 65535)]⟩] := by
    decide
  rw [unionRects_rectsOf hwf rfl he, unionAll, unionB, unionB_below hrest, hfirst, gap,
    if_neg (Nat.lt_irrefl _), if_neg fun h => h.1 rfl, if_neg (Nat.not_lt.mpr hlast)]
  · rw [List.append_nil]
    rfl
  · intro b hb
    rcases List.mem_cons.mp hb with rfl | hb
    · exact Nat.le_refl 1
    · obtain ⟨j, -, htop, -⟩ := mem_comb hb
      dsimp only
      omega

theorem toMove_neg {behind : List Rect} (h : behind.length = 2 ^ 28) : toMove behind < 0 := by
  unfold toMove
  generalize behind.length = n at h
  have hmod : (8 * n : ℤ) % ((2 ^ 32 : ℕ) : ℤ) = 2 ^ 31 := by omega
  rw [Int.bmod_def, hmod]
  decide

/-- Two bands of the same items in front of the comb: the bytes behind them are a negative `int`. -/
theorem simplifyBands_comb {items : List (ℕ × ℕ)} (hne : items ≠ []) (hfew : items.length ≤ 2)
    (hle : n * n = 2 ^ 28) :
    simplifyBands (rectsOf (⟨0, 1, items⟩ :: ⟨1, 2, items⟩ :: comb n)) = none := by
  have hpos := List.length_pos_iff.mpr hne
  have hlength := length_comb n
  rw [hle] at hlength
  have htops : ∀ r ∈ rectsOf (comb n), 3 ≤ r.top := by
    intro r hr
    obtain ⟨b, hb, htop, -⟩ := mem_rectsOf.mp hr
    obtain ⟨j, -, hj, -⟩ := mem_comb hb
    omega
  have hmove : toMove (rectsOf (comb n)) < 0 := toMove_neg hlength
  unfold simplifyBands
  rw [if_neg]
  · exact simplifyFrom_none (b := ⟨0, 1, items⟩) (c := ⟨1, 2, items⟩) hne hne Nat.zero_ne_one
      (fun r hr h => by have := htops r hr; dsimp only at h; omega)
      (fun r hr h => by have := htops r hr; dsimp only at h; omega) ⟨rfl, rfl⟩ hmove
  · rw [length_rectsOf_cons, length_rectsOf_cons, Int.bmod_eq_of_le] <;> dsimp only <;> omega

theorem union_combRegion (hn : 0 < n) (hle : n ≤ 2 ^ 14) (hsquare : n * n = 2 ^ 28) :
    usedRects (combRegion n) ⟨65534, 0, 65535, 1⟩ ≤ newItemsLength (combRegion n) ∧
      region16UnionRect (combRegion n) ⟨65534, 0, 65535, 1⟩ = none := by
  have hsize : (combRegion n).rects.length + 1 < 2 ^ 29 := by
    have hlength : (combRegion n).rects.length = _ := length_rectsOf_cons _ _
    rw [length_rectsOf_cons, length_comb, hsquare] at hlength
    rw [hlength]
    simp
  have hroom := (wellFormed_combRegion hn hle).1.room hsize ⟨65534, 0, 65535, 1⟩
  refine ⟨Int.not_lt.mp hroom, ?_⟩
  rw [region16UnionRect, if_neg (combRegion_ne_nil hn), if_neg hroom, unionRects_combRegion hn hle,
    simplifyBands_comb (List.cons_ne_nil _ _) (Nat.le_of_eq rfl) hsquare]
  rfl

/-- A region of `2 ^ 28 + 3` rectangles, whose first two bands a rectangle makes equal: there is room for
the rectangles of the union, but `MoveMemory` is given a negative number of bytes. -/
theorem region16UnionRect_runs_away :
    ∃ src rect, WellFormed src ∧ (∀ r ∈ src.rects, r.right < 2 ^ 16 ∧ r.bottom < 2 ^ 16) ∧
      rect.left < rect.right ∧ rect.right < 2 ^ 16 ∧ rect.top < rect.bottom ∧ rect.bottom < 2 ^ 16 ∧
      usedRects src rect ≤ newItemsLength src ∧ region16UnionRect src rect = none := by
  obtain ⟨hwf, hsides⟩ := wellFormed_combRegion (n := 2 ^ 14) (by decide) (Nat.le_refl _)
  obtain ⟨hroom, hnone⟩ := union_combRegion (n := 2 ^ 14) (by decide) (Nat.le_refl _) (by decide)
  exact ⟨_, _, hwf, hsides, by decide, by decide, by decide, by decide, hroom, hnone⟩

end Comb

end FreeRDP.Region
