import FreeRDP.Region.Equiv.Union

/-!
# Canonical regions

The comment at the head of `region.c` promises more than well-formedness: no two rectangles of a
band touch, and bands that could be one are one.  In `region16_copy_band_with_union` an item that
touches the inserted rectangle on the left is joined, but one that touches it on the right is not.
As long as no inserted rectangle ends exactly where a rectangle beside it starts, every reachable
region is canonical, and is then the only one that covers its points (`reachable_canonical`).
-/

namespace FreeRDP.Region

open Bands Intervals

/-! ### The canonical form -/

/-- The horizontal intervals of the band with the given top. -/
def intervalsAt (rects : List Rect) (top : ℕ) : List (ℕ × ℕ) :=
  (rects.filter fun r => r.top = top).map fun r => (r.left, r.right)

/-- No two rectangles of a band touch, and no two bands that touch have the same intervals. -/
structure CanonicalRects (rects : List Rect) : Prop where
  apart : ∀ r ∈ rects, ∀ s ∈ rects, r.top = s.top → r.right ≠ s.left
  joined : ∀ r ∈ rects, ∀ s ∈ rects, r.bottom = s.top →
    intervalsAt rects r.top ≠ intervalsAt rects s.top

theorem intervalsAt_rectsOf {bs : List Band} (h : Bands.WellFormed bs) {b : Band} (hb : b ∈ bs) :
    intervalsAt (rectsOf bs) b.top = b.items := by
  have hkeep : ∀ b : Band, ((rectsAt b.top b.bottom b.items).filter fun r => r.top = b.top) =
      rectsAt b.top b.bottom b.items := fun b => by
    rw [List.filter_eq_self]
    exact fun r hr => by simpa using top_of_mem_rectsAt hr
  have hitems : ∀ b : Band,
      (rectsAt b.top b.bottom b.items).map (fun r => (r.left, r.right)) = b.items := fun b => by
    rw [rectsAt, List.map_map]
    exact List.map_id _
  induction bs with
  | nil => simp at hb
  | cons c bs ih =>
    obtain ⟨hc, hle, hrest⟩ := Bands.wellFormed_cons.mp h
    rw [rectsOf_cons, intervalsAt, List.filter_append, List.map_append]
    rcases List.mem_cons.mp hb with rfl | hb
    · have hnone : ((rectsOf bs).filter fun r => r.top = b.top) = [] := by
        rw [List.filter_eq_nil_iff]
        exact fun r hr => by simpa using top_ne_of_mem_tail h hr
      rw [hkeep, hnone, hitems]
      simp
    · have hne : c.top ≠ b.top := by
        have := hle b hb
        have := hc.top_lt
        omega
      have hnone : ((rectsAt c.top c.bottom c.items).filter fun r => r.top = b.top) = [] := by
        rw [List.filter_eq_nil_iff]
        exact fun r hr => by simpa [top_of_mem_rectsAt hr] using hne
      rw [hnone, List.map_nil, List.nil_append]
      exact ih hrest hb

/-- Bands that touch are neighbours in the list, so that none could be joined. -/
private theorem not_joins_of_mem {bs : List Band} (h : Bands.WellFormed bs)
    (hchain : bs.IsChain fun b c => ¬ Joins b c) {b c : Band} (hb : b ∈ bs) (hc : c ∈ bs) :
    ¬ Joins b c := by
  induction bs with
  | nil => simp at hb
  | cons d bs ih =>
    obtain ⟨hd, hle, hrest⟩ := Bands.wellFormed_cons.mp h
    have hdt := hd.top_lt
    have hbt := (h.1 b hb).top_lt
    rcases List.mem_cons.mp hb with rfl | hb'
    · rcases List.mem_cons.mp hc with rfl | hc
      · intro hj
        have := hj.1
        omega
      · cases bs with
        | nil => simp at hc
        | cons e bs =>
          rcases List.mem_cons.mp hc with rfl | hc
          · exact (List.isChain_cons_cons.mp hchain).1
          · -- a band in between would have no rows
            obtain ⟨he, hle', -⟩ := Bands.wellFormed_cons.mp hrest
            intro hj
            have h1 := hj.1
            have h2 := hle e List.mem_cons_self
            have h3 := hle' c hc
            have h4 := he.top_lt
            omega
    · rcases List.mem_cons.mp hc with rfl | hc
      · intro hj
        have h1 := hj.1
        have h2 := hle b hb'
        omega
      · exact ih hrest (List.isChain_of_isChain_cons hchain) hb' hc

theorem canonicalRects_rectsOf {bs : List Band} (h : Bands.Canonical bs) :
    CanonicalRects (rectsOf bs) := by
  have hwf := h.wellFormed
  have htops : ∀ b ∈ bs, ∀ c ∈ bs, b.top = c.top → b = c := by
    intro b hb c hc heq
    by_contra hne
    have hsymm : bs.Pairwise fun b c => b.bottom ≤ c.top ∨ c.bottom ≤ b.top := hwf.2.imp .inl
    have : Std.Symm fun b c : Band => b.bottom ≤ c.top ∨ c.bottom ≤ b.top := ⟨fun _ _ h => h.symm⟩
    have h1 := hsymm.forall hb hc hne
    have h2 := (hwf.1 b hb).top_lt
    have h3 := (hwf.1 c hc).top_lt
    omega
  constructor
  · intro r hr s hs htop
    obtain ⟨b, hb, hrt, -, hri⟩ := mem_rectsOf.mp hr
    obtain ⟨c, hc, hst, -, hsi⟩ := mem_rectsOf.mp hs
    obtain rfl := htops b hb c hc (by omega)
    have hlt := (hwf.1 b hb).sorted.1
    by_cases heq : (r.left, r.right) = (s.left, s.right)
    · have := hlt _ hsi
      simp only [Prod.mk.injEq] at heq
      dsimp only at this
      omega
    · have hsymm : b.items.Pairwise fun i j => i.2 < j.1 ∨ j.2 < i.1 :=
        (h.separated b hb).imp .inl
      have : Std.Symm fun i j : ℕ × ℕ => i.2 < j.1 ∨ j.2 < i.1 := ⟨fun _ _ h => h.symm⟩
      have h1 := hsymm.forall hri hsi heq
      have h2 := hlt _ hri
      have h3 := hlt _ hsi
      dsimp only at h1 h2 h3
      omega
  · intro r hr s hs htouch
    obtain ⟨b, hb, hrt, hrb, -⟩ := mem_rectsOf.mp hr
    obtain ⟨c, hc, hst, -, -⟩ := mem_rectsOf.mp hs
    rw [hrt, hst, intervalsAt_rectsOf hwf hb, intervalsAt_rectsOf hwf hc]
    exact fun hitems => not_joins_of_mem hwf h.apart hb hc ⟨by omega, hitems⟩

/-! ### The invariant of the operations -/

/-- The rectangles are those of canonical bands, and the extents enclose them. -/
structure Good (region : Region16) (bs : List Band) : Prop where
  canonical : Bands.Canonical bs
  rects : rectsOf bs = region.rects
  extents : region.rects ≠ [] → IsExtents region.extents region.rects

theorem good_clear : Good region16Clear [] := ⟨canonical_nil, rfl, fun h => absurd rfl h⟩

/-- No rectangle beside `rect` starts exactly where `rect` ends. -/
def NoRightTouch (src : Region16) (rect : Rect) : Prop :=
  ∀ r ∈ src.rects, r.top < rect.bottom → rect.top < r.bottom → r.left ≠ rect.right

theorem separated_unionAll {rect : Rect} {b : Band} {bs : List Band}
    (h : Bands.Canonical (b :: bs))
    (hno : ∀ c ∈ b :: bs, c.top < rect.bottom → rect.top < c.bottom →
      ∀ i ∈ c.items, i.1 ≠ rect.right) :
    ∀ c ∈ unionAll rect b bs, Separated c.items := by
  have hone : ∀ top bottom, Separated (⟨top, bottom, [(rect.left, rect.right)]⟩ : Band).items :=
    fun _ _ => List.pairwise_singleton _ _
  have hwalk : ∀ cs : List Band, (∀ c ∈ cs, c ∈ b :: bs) → ∀ d ∈ unionB rect cs, Separated d.items := by
    intro cs hcs
    induction cs with
    | nil => simp [unionB]
    | cons c cs ih =>
      obtain ⟨hc, hcs⟩ := List.forall_mem_cons.mp hcs
      have hsep := h.separated c hc
      rw [unionB, List.forall_mem_append, List.forall_mem_append]
      refine ⟨⟨?_, ?_⟩, ih hcs⟩
      · intro d hd
        unfold pieces at hd
        split_ifs at hd with hcopy
        · obtain rfl : d = c := by simpa using hd
          exact hsep
        all_goals
          have hins := separated_insert rect.left hsep (h.wellFormed.1 c hc).sorted.1
            (hno c hc (by omega) (by omega))
          simp only [List.singleton_append, List.nil_append, List.mem_cons, List.not_mem_nil,
            or_false] at hd
          rcases hd with rfl | rfl | rfl <;> assumption
      · intro d hd
        cases cs with
        | nil => simp [gap] at hd
        | cons e cs =>
          rw [gap] at hd
          split_ifs at hd
          · obtain rfl : d = _ := by simpa using hd
            exact hone _ _
          · simp at hd
  intro c hc
  rw [unionAll, List.mem_append, List.mem_append] at hc
  rcases hc with (hc | hc) | hc
  · split_ifs at hc
    · obtain rfl : c = _ := by simpa using hc
      exact hone _ _
    · simp at hc
  · exact hwalk (b :: bs) (fun _ h => h) c hc
  · split_ifs at hc
    · obtain rfl : c = _ := by simpa using hc
      exact hone _ _
    · simp at hc

/-- Union keeps the invariant, under the condition. -/
theorem Good.union {src : Region16} {bs : List Band} (h : Good src bs) {rect : Rect}
    (hr : rect.left < rect.right) (hb : rect.top < rect.bottom) (hno : NoRightTouch src rect) :
    ∃ cs, Good (unionRect src rect) cs := by
  cases bs with
  | nil =>
    have hnil : src.rects = [] := h.rects.symm
    refine ⟨[⟨rect.top, rect.bottom, [(rect.left, rect.right)]⟩], ?_, ?_, fun _ => ?_⟩
    · exact ⟨wellFormed_single hb hr, by simp [Separated], List.IsChain.singleton _⟩
    · rw [unionRect, if_pos hnil]
      rfl
    · rw [unionRect, if_pos hnil]
      exact ⟨by simp [Rect.Sub], fun e' he' => he' rect (by simp)⟩
  | cons b bs =>
    have hwf := h.canonical.wellFormed
    have hne : src.rects ≠ [] := h.rects ▸ rectsOf_ne_nil hwf
    have hall := wellFormed_unionAll hwf hr hb
    rw [rects_unionRect hwf h.rects (h.extents hne) hr hb]
    refine ⟨coalesce (unionAll rect b bs), canonical_coalesce hall (separated_unionAll h.canonical ?_),
      rfl, fun _ => ?_⟩
    · intro c hc h1 h2 i hi
      have := hno ⟨i.1, c.top, i.2, c.bottom⟩
        (by rw [← h.rects]; exact mem_rectsOf.mpr ⟨c, hc, rfl, rfl, hi⟩) h1 h2
      exact this
    · refine isExtents_joinExtents ?_ (banded_rectsOf (wellFormed_coalesce hall)).1 ⟨hr, hb⟩
        (h.extents hne) fun x y => ?_
      · rw [← h.rects]
        exact (banded_rectsOf hwf).1
      · rw [coversPoint_rectsOf, covers_coalesce hall, covers_unionAll hwf, ← h.rects,
          coversPoint_rectsOf]

/-! ### Intersection -/

/-- The rectangles of the intersection, as its loop collects them. -/
def clipRects (rect : Rect) (rects : List Rect) : List Rect :=
  rects.filterMap fun r => rectanglesIntersection r rect

def clipItems (rect : Rect) (items : List (ℕ × ℕ)) : List (ℕ × ℕ) :=
  (items.map fun i => (max i.1 rect.left, min i.2 rect.right)).filter fun i => i.1 < i.2

/-- The bands of the intersection, some of them without rows or intervals. -/
def clipBand (rect : Rect) (b : Band) : Band :=
  ⟨max b.top rect.top, min b.bottom rect.bottom, clipItems rect b.items⟩

/-- The bands of the intersection. -/
def clipBands (rect : Rect) (bs : List Band) : List Band :=
  (bs.map (clipBand rect)).filter fun b => b.top < b.bottom ∧ b.items ≠ []

theorem rectanglesIntersection_some {r1 r2 dst : Rect}
    (h : rectanglesIntersection r1 r2 = some dst) :
    dst.left < dst.right ∧ dst.top < dst.bottom := by
  unfold rectanglesIntersection at h
  split_ifs at h with hne
  obtain rfl := Option.some.inj h
  exact hne

theorem clipRects_rectsAt (rect : Rect) (top bottom : ℕ) (items : List (ℕ × ℕ)) :
    clipRects rect (rectsAt top bottom items) =
      if max top rect.top < min bottom rect.bottom then
        rectsAt (max top rect.top) (min bottom rect.bottom) (clipItems rect items)
      else [] := by
  induction items with
  | nil => simp [clipRects, rectsAt, clipItems]
  | cons i items ih =>
    have hitems : clipItems rect (i :: items) =
        if max i.1 rect.left < min i.2 rect.right then
          (max i.1 rect.left, min i.2 rect.right) :: clipItems rect items
        else clipItems rect items := by
      rw [clipItems, List.map_cons, List.filter_cons]
      simp only [decide_eq_true_eq]
      rfl
    rw [clipRects] at ih
    rw [rectsAt_cons, clipRects, List.filterMap_cons, ih, hitems, rectanglesIntersection]
    dsimp only
    by_cases h1 : max top rect.top < min bottom rect.bottom
    · by_cases h2 : max i.1 rect.left < min i.2 rect.right
      · rw [if_pos ⟨h2, h1⟩, if_pos h1, if_pos h1, if_pos h2, rectsAt_cons]
      · rw [if_neg (fun h => h2 h.1), if_pos h1, if_pos h1, if_neg h2]
    · rw [if_neg (fun h => h1 h.2), if_neg h1, if_neg h1]

theorem clipRects_rectsOf (rect : Rect) (bs : List Band) :
    clipRects rect (rectsOf bs) = rectsOf (clipBands rect bs) := by
  induction bs with
  | nil => rfl
  | cons b bs ih =>
    have happ : clipRects rect (rectsOf (b :: bs)) =
        clipRects rect (rectsAt b.top b.bottom b.items) ++ clipRects rect (rectsOf bs) := by
      rw [rectsOf_cons, clipRects, List.filterMap_append]
      rfl
    have hcons : clipBands rect (b :: bs) =
        if max b.top rect.top < min b.bottom rect.bottom ∧ clipItems rect b.items ≠ [] then
          clipBand rect b :: clipBands rect bs
        else clipBands rect bs := by
      rw [clipBands, List.map_cons, List.filter_cons]
      simp only [decide_eq_true_eq]
      rfl
    rw [happ, ih, clipRects_rectsAt, hcons]
    by_cases h1 : max b.top rect.top < min b.bottom rect.bottom
    · by_cases h2 : clipItems rect b.items = []
      · -- rows, but no intervals
        rw [if_pos h1, if_neg (fun h => h.2 h2), h2]
        rfl
      · rw [if_pos h1, if_pos ⟨h1, h2⟩, rectsOf_cons]
        rfl
    · rw [if_neg h1, if_neg (fun h => h1 h.1), List.nil_append]

theorem clipBands_wellFormed (rect : Rect) {bs : List Band} (h : Bands.WellFormed bs) :
    Bands.WellFormed (clipBands rect bs) := by
  refine ⟨fun c hc => ?_, ?_⟩
  · obtain ⟨hmem, hne⟩ := List.mem_filter.mp hc
    obtain ⟨b, hb, rfl⟩ := List.mem_map.mp hmem
    simp only [decide_eq_true_eq] at hne
    refine ⟨hne.1, hne.2, fun i hi => ?_, ?_⟩
    · simpa using (List.mem_filter.mp hi).2
    · refine List.Pairwise.filter _ (List.pairwise_map.mpr ((h.1 b hb).sorted.2.imp fun hij => ?_))
      dsimp only
      omega
  · refine List.Pairwise.filter _ (List.pairwise_map.mpr (h.2.imp fun hbc => ?_))
    simp only [clipBand]
    omega

theorem clipBands_separated {rect : Rect} {bs : List Band} (h : ∀ b ∈ bs, Separated b.items) :
    ∀ b ∈ clipBands rect bs, Separated b.items := by
  intro c hc
  obtain ⟨hmem, -⟩ := List.mem_filter.mp hc
  obtain ⟨b, hb, rfl⟩ := List.mem_map.mp hmem
  refine List.Pairwise.filter _ (List.pairwise_map.mpr ((h b hb).imp fun hij => ?_))
  dsimp only
  omega

theorem isExtents_growExtents {e r : Rect} {rects : List Rect}
    (hne : ∀ r ∈ rects, r.left < r.right ∧ r.top < r.bottom)
    (he : if rects = [] then e = ⟨0, 0, 0, 0⟩ else IsExtents e rects) :
    IsExtents (growExtents e r) (rects ++ [r]) := by
  cases rects with
  | nil =>
    simp only [if_true] at he
    subst he
    exact ⟨by simp [growExtents, rectangleIsEmpty, Rect.Sub], fun e' he' => he' r (by simp)⟩
  | cons s rects =>
    rw [if_neg (by simp)] at he
    have hs := hne s List.mem_cons_self
    have hsub := he.1 s List.mem_cons_self
    have hnot : rectangleIsEmpty e = false := by
      simp only [Rect.Sub, rectangleIsEmpty] at *
      simp only [decide_eq_false_iff_not]
      omega
    rw [growExtents, hnot, if_neg (by simp)]
    refine ⟨fun t ht => ?_, fun e' he' => ?_⟩
    · rcases List.mem_append.mp ht with ht | ht
      · have := he.1 t ht
        simp only [Rect.Sub, joinExtents] at *
        omega
      · obtain rfl : t = r := by simpa using ht
        simp only [Rect.Sub, joinExtents]
        omega
    · have h1 := he.2 e' fun t ht => he' t (List.mem_append_left _ ht)
      have h2 := he' r (by simp)
      simp only [Rect.Sub, joinExtents] at *
      omega

/-- The loop of the intersection collects the clipped rectangles and their extents. -/
theorem intersectRects_spec (rect : Rect) {e : Rect} {rects : List Rect} (items : List Rect)
    (hrows : rects.Pairwise fun r s => r.top ≤ s.top)
    (hne : ∀ r ∈ items, r.left < r.right ∧ r.top < r.bottom)
    (he : if items = [] then e = ⟨0, 0, 0, 0⟩ else IsExtents e items) :
    (intersectRects rect rects (items, e)).1 = items ++ clipRects rect rects ∧
      (if items ++ clipRects rect rects = [] then
        (intersectRects rect rects (items, e)).2 = ⟨0, 0, 0, 0⟩
      else IsExtents (intersectRects rect rects (items, e)).2 (items ++ clipRects rect rects)) := by
  induction rects generalizing items e with
  | nil => simpa [intersectRects, clipRects] using he
  | cons r rects ih =>
    obtain ⟨hle, hrows⟩ := List.pairwise_cons.mp hrows
    by_cases hrow : rect.bottom > r.top
    · have hclip : clipRects rect (r :: rects) = (rectanglesIntersection r rect).toList ++
          clipRects rect rects := by
        rw [clipRects, List.filterMap_cons]
        cases rectanglesIntersection r rect <;> rfl
      cases hc : rectanglesIntersection r rect with
      | none =>
        rw [hclip, hc, intersectRects, if_pos hrow, hc]
        exact ih items hrows hne he
      | some common =>
        have hext := isExtents_growExtents (r := common) hne he
        have hnext := ih (e := growExtents e common) (items ++ [common]) hrows
          (fun s hs => by
            rcases List.mem_append.mp hs with hs | hs
            · exact hne s hs
            · obtain rfl : s = common := by simpa using hs
              exact rectanglesIntersection_some hc)
          (by rw [if_neg (by simp)]; exact hext)
        rw [List.append_assoc] at hnext
        rw [hclip, hc, intersectRects, if_pos hrow, hc]
        exact hnext
    · -- all further rectangles lie below
      have hnone : clipRects rect (r :: rects) = [] := by
        rw [clipRects, List.filterMap_eq_nil_iff]
        intro s hs
        have hs' : r.top ≤ s.top := by
          rcases List.mem_cons.mp hs with rfl | hs
          · exact Nat.le_refl _
          · exact hle s hs
        rw [rectanglesIntersection, if_neg (by omega)]
      rw [hnone, List.append_nil, intersectRects, if_neg hrow]
      exact ⟨rfl, he⟩

/-- The smallest enclosing rectangle depends on the points only. -/
theorem IsExtents.congr {e : Rect} {rects rects' : List Rect}
    (hne : ∀ r ∈ rects, r.left < r.right ∧ r.top < r.bottom)
    (hne' : ∀ r ∈ rects', r.left < r.right ∧ r.top < r.bottom)
    (h : ∀ x y, CoversPoint rects x y ↔ CoversPoint rects' x y) (he : IsExtents e rects) :
    IsExtents e rects' := by
  have hiff : ∀ e' : Rect, (∀ r ∈ rects, r.Sub e') ↔ ∀ r ∈ rects', r.Sub e' := fun e' => by
    rw [forall_sub_iff hne, forall_sub_iff hne']
    simp only [h]
  exact ⟨(hiff e).mp he.1, fun e' he' => he.2 e' ((hiff e').mpr he')⟩

theorem WellFormed.rows {src : Region16} (h : WellFormed src) :
    src.rects.Pairwise fun r s => r.top ≤ s.top := h.sorted.imp fun {r s} hrs => by omega

theorem Good.rows {src : Region16} {bs : List Band} (h : Good src bs) :
    src.rects.Pairwise fun r s => r.top ≤ s.top := by
  have hbanded := banded_rectsOf h.canonical.wellFormed
  rw [← h.rects]
  refine hbanded.2.imp_of_mem fun {r s} hr _ hrs => ?_
  have := hbanded.1 r hr
  rcases hrs with hrs | hrs <;> omega

theorem Good.intersect {src : Region16} {bs : List Band} (h : Good src bs) (rect : Rect) :
    ∃ cs, Good (intersectRect src rect) cs := by
  unfold intersectRect
  split
  · exact ⟨[], good_clear⟩
  · split
    · rename_i common hcommon
      obtain ⟨h1, h2⟩ := rectanglesIntersection_some hcommon
      exact good_clear.union h1 h2 fun r hr => by simp [region16Clear] at hr
    · exact ⟨[], good_clear⟩
  · have hwf := h.canonical.wellFormed
    have hclip := clipBands_wellFormed rect hwf
    have hbanded := banded_rectsOf hwf
    have hbanded' := banded_rectsOf hclip
    obtain ⟨hitems, hext⟩ := intersectRects_spec rect (e := ⟨0, 0, 0, 0⟩) [] h.rows (by simp)
      (by simp)
    rw [List.nil_append, ← h.rects, clipRects_rectsOf] at hitems hext
    dsimp only
    rw [h.rects] at hitems hext
    rw [hitems, joinBands_rectsOf hclip]
    refine ⟨coalesce (clipBands rect bs),
      canonical_coalesce hclip (clipBands_separated h.canonical.separated), rfl, fun hne => ?_⟩
    have hcover : ∀ x y, CoversPoint (rectsOf (clipBands rect bs)) x y ↔
        CoversPoint (rectsOf (coalesce (clipBands rect bs))) x y := fun x y => by
      rw [coversPoint_rectsOf, coversPoint_rectsOf, covers_coalesce hclip]
    rw [if_neg] at hext
    · exact hext.congr hbanded'.1 (banded_rectsOf (wellFormed_coalesce hclip)).1 hcover
    · intro hnil
      cases hcs : clipBands rect bs with
      | nil => rw [hcs] at hne; exact hne rfl
      | cons c cs => rw [hcs] at hnil hclip; exact rectsOf_ne_nil hclip hnil

theorem coversPoint_clipRects {rect : Rect} {rects : List Rect} {x y : ℕ} :
    CoversPoint (clipRects rect rects) x y ↔ CoversPoint rects x y ∧ rect.Has x y := by
  have hinter : ∀ r dst : Rect, rectanglesIntersection r rect = some dst →
      (dst.Has x y ↔ r.Has x y ∧ rect.Has x y) := by
    intro r dst h
    unfold rectanglesIntersection at h
    split_ifs at h
    obtain rfl := Option.some.inj h
    simp only [Rect.Has]
    omega
  constructor
  · rintro ⟨dst, hdst, hxy⟩
    obtain ⟨r, hr, hrd⟩ := List.mem_filterMap.mp hdst
    exact ⟨⟨r, hr, ((hinter r dst hrd).mp hxy).1⟩, ((hinter r dst hrd).mp hxy).2⟩
  · rintro ⟨⟨r, hr, hxy⟩, hrect⟩
    cases hrd : rectanglesIntersection r rect with
    | none =>
      -- a common point makes the intersection non-empty
      unfold rectanglesIntersection at hrd
      split_ifs at hrd with hne
      simp only [Rect.Has] at hxy hrect
      omega
    | some dst =>
      exact ⟨dst, List.mem_filterMap.mpr ⟨r, hr, hrd⟩, (hinter r dst hrd).mpr ⟨hxy, hrect⟩⟩

theorem WellFormed.extents_singleton {src : Region16} (h : WellFormed src) {r : Rect}
    (hone : src.rects = [r]) :
    src.extents = r := by
  have he := h.extents
  rw [hone, if_neg (List.cons_ne_nil r [])] at he
  obtain ⟨hsub, hleast⟩ := he
  have hin := hsub r (List.mem_singleton_self r)
  have hsmall := hleast r fun s hs => by
    obtain rfl := List.mem_singleton.mp hs
    exact ⟨Nat.le_refl _, Nat.le_refl _, Nat.le_refl _, Nat.le_refl _⟩
  cases hse : src.extents
  cases r
  simp only [hse, Rect.Sub] at hin hsmall
  simp only [Rect.mk.injEq]
  omega

/-- The intersection with a rectangle covers the common points, in non-empty rectangles. -/
theorem WellFormed.intersect {src : Region16} (h : WellFormed src) (rect : Rect) :
    (∀ r ∈ (intersectRect src rect).rects, r.left < r.right ∧ r.top < r.bottom) ∧
      ∀ x y, CoversPoint (intersectRect src rect).rects x y ↔
        CoversPoint src.rects x y ∧ rect.Has x y := by
  obtain ⟨bs, hbs, hrects⟩ := exists_rectsOf h.banded
  unfold intersectRect
  split
  · rename_i hnil
    rw [hnil]
    simp [region16Clear, CoversPoint]
  · rename_i r hone
    have hclip : ∀ x y, CoversPoint (clipRects rect [r]) x y ↔
        CoversPoint src.rects x y ∧ rect.Has x y := fun x y => by
      rw [coversPoint_clipRects, hone]
    rw [h.extents_singleton hone]
    rw [clipRects, List.filterMap_cons, List.filterMap_nil] at hclip
    cases hc : rectanglesIntersection r rect with
    | none =>
      rw [hc] at hclip
      exact ⟨by simp [region16Clear], hclip⟩
    | some common =>
      rw [hc] at hclip
      refine ⟨?_, hclip⟩
      intro s hs
      rw [List.mem_singleton.mp hs]
      exact rectanglesIntersection_some hc
  · have hclip := clipBands_wellFormed rect hbs
    have hitems := (intersectRects_spec rect (e := ⟨0, 0, 0, 0⟩) [] h.rows (by simp) (by simp)).1
    rw [List.nil_append, ← hrects, clipRects_rectsOf] at hitems
    dsimp only
    rw [hrects] at hitems
    rw [hitems, joinBands_rectsOf hclip]
    refine ⟨(banded_rectsOf (wellFormed_coalesce hclip)).1, fun x y => ?_⟩
    rw [coversPoint_rectsOf, covers_coalesce hclip, ← coversPoint_rectsOf, ← clipRects_rectsOf,
      coversPoint_clipRects, hrects]

/-! ### The operations in memory -/

/-- A union that returns is the ideal one, with fewer than `2 ^ 28` rectangles. -/
theorem eq_of_region16UnionRect {src dst : Region16} {rect : Rect}
    (h : region16UnionRect src rect = some dst) (hused : usedRects src rect < 2 ^ 28) :
    dst = unionRect src rect := by
  by_cases hroom : newItemsLength src < usedRects src rect
  · unfold region16UnionRect at h
    unfold unionRect
    split_ifs at h ⊢
    exact (Option.some.inj h).symm
  · exact (Option.some.inj ((region16UnionRect_eq hroom hused).symm.trans h)).symm

theorem region16UnionRect_clear (rect : Rect) :
    region16UnionRect region16Clear rect = some (unionRect region16Clear rect) := rfl

/-- With fewer than `2 ^ 28` common rectangles nothing wraps. -/
theorem region16IntersectRect_eq {src : Region16} {rect : Rect}
    (hrows : src.rects.Pairwise fun r s => r.top ≤ s.top)
    (hclip : (clipRects rect src.rects).length < 2 ^ 28) :
    region16IntersectRect src rect = some (intersectRect src rect) := by
  have hitems := (intersectRects_spec rect (e := ⟨0, 0, 0, 0⟩) [] hrows (by simp) (by simp)).1
  rw [List.nil_append] at hitems
  unfold region16IntersectRect intersectRect
  split
  · rfl
  · cases rectanglesIntersection src.extents rect with
    | none => rfl
    | some common => exact region16UnionRect_clear common
  · dsimp only
    rw [hitems, simplifyBands_eq hclip]
    rfl

/-! ### Reachable regions -/

/-- The regions reachable from `region16_init`, where each union meets the condition `P` on the
region and the rectangle, and each intersection meets `Q`.  The destination of an operation may be any
region: it is overwritten. -/
inductive Reachable (P Q : Region16 → Rect → Prop) : Region16 → Prop where
  | clear : Reachable P Q region16Clear
  | copy {src : Region16} : Reachable P Q src → Reachable P Q (region16Copy src)
  | union {src dst : Region16} {rect : Rect} : Reachable P Q src → rect.left < rect.right →
      rect.top < rect.bottom → P src rect → region16UnionRect src rect = some dst → Reachable P Q dst
  | intersect {src dst : Region16} {rect : Rect} : Reachable P Q src → rect.left < rect.right →
      rect.top < rect.bottom → Q src rect → region16IntersectRect src rect = some dst →
      Reachable P Q dst

/-- The condition on a union: no rectangle beside `rect` starts where it ends, and fewer than `2 ^ 28`
rectangles are written before the bands are joined. -/
structure KeepsUnion (src : Region16) (rect : Rect) : Prop where
  noRightTouch : NoRightTouch src rect
  few : usedRects src rect < 2 ^ 28

/-- The condition on an intersection: fewer than `2 ^ 28` rectangles have rows and columns in `rect`. -/
def KeepsIntersect (src : Region16) (rect : Rect) : Prop := (clipRects rect src.rects).length < 2 ^ 28

section Reachable

variable {region : Region16}

theorem Reachable.good (h : Reachable KeepsUnion KeepsIntersect region) : ∃ bs, Good region bs := by
  induction h with
  | clear => exact ⟨[], good_clear⟩
  | copy _ ih => exact ih
  | union _ hr hb hkeeps hdst ih =>
    obtain ⟨bs, hbs⟩ := ih
    obtain rfl := eq_of_region16UnionRect hdst hkeeps.few
    exact hbs.union hr hb hkeeps.noRightTouch
  | intersect _ _ _ hkeeps hdst ih =>
    obtain ⟨bs, hbs⟩ := ih
    rw [region16IntersectRect_eq hbs.rows hkeeps] at hdst
    obtain rfl := Option.some.inj hdst
    exact hbs.intersect _

/-- Where every union and every intersection meets its condition, every reachable region is in canonical
form, and two that cover the same points are made of the same rectangles. -/
theorem reachable_canonical (r : Region16) (hr : Reachable KeepsUnion KeepsIntersect r) :
    CanonicalRects r.rects ∧
      ∀ s, Reachable KeepsUnion KeepsIntersect s →
        (∀ x y, CoversPoint r.rects x y ↔ CoversPoint s.rects x y) → r.rects = s.rects := by
  obtain ⟨bs, hbs⟩ := hr.good
  refine ⟨by rw [← hbs.rects]; exact canonicalRects_rectsOf hbs.canonical, ?_⟩
  intro s hs hcover
  obtain ⟨cs, hcs⟩ := hs.good
  rw [← hbs.rects, ← hcs.rects] at hcover ⊢
  rw [hbs.canonical.eq_of_covers hcs.canonical fun x y => by
    rw [← coversPoint_rectsOf, ← coversPoint_rectsOf, hcover x y]]

theorem Reachable.first {P Q : Region16 → Rect → Prop} {rect : Rect} (hr : rect.left < rect.right)
    (hb : rect.top < rect.bottom) (hP : P region16Clear rect) : Reachable P Q ⟨rect, [rect]⟩ :=
  .union .clear hr hb hP rfl

/-- Two rectangles that touch, and one beside them in other rows. -/
theorem reachable_canonical_three :
    ∃ r, Reachable KeepsUnion KeepsIntersect r ∧ r.rects =
        [⟨0, 0, 20, 5⟩, ⟨0, 5, 20, 10⟩, ⟨30, 5, 40, 10⟩, ⟨30, 10, 40, 15⟩] ∧
      CanonicalRects r.rects ∧ ∀ s, Reachable KeepsUnion KeepsIntersect s →
        (∀ x y, CoversPoint r.rects x y ↔ CoversPoint s.rects x y) → r.rects = s.rects := by
  have hfirst : Reachable KeepsUnion KeepsIntersect ⟨⟨0, 0, 10, 10⟩, [⟨0, 0, 10, 10⟩]⟩ :=
    .first (by decide) (by decide) ⟨by simp [NoRightTouch, region16Clear],
      by simp [usedRects, unionRects, unionBands, topPiece, bottomPiece, region16Clear]⟩
  obtain ⟨htwo, hwf, hfew⟩ : region16UnionRect ⟨⟨0, 0, 10, 10⟩, [⟨0, 0, 10, 10⟩]⟩ ⟨10, 0, 20, 10⟩ =
      some ⟨⟨0, 0, 20, 10⟩, [⟨0, 0, 20, 10⟩]⟩ ∧ WellFormed ⟨⟨0, 0, 20, 10⟩, [⟨0, 0, 20, 10⟩]⟩ ∧ _ :=
    region16UnionRect_rectsOf
      (wellFormed_single (by decide) (by decide) : Bands.WellFormed [⟨0, 10, [(0, 10)]⟩])
      (wellFormed_of_rect (by decide) (by decide)) (by decide) (by decide) (by decide)
  obtain ⟨hthree, -, hfew'⟩ : region16UnionRect ⟨⟨0, 0, 20, 10⟩, [⟨0, 0, 20, 10⟩]⟩ ⟨30, 5, 40, 15⟩ =
      some ⟨⟨0, 0, 40, 15⟩, _⟩ ∧ _ :=
    region16UnionRect_rectsOf
      (wellFormed_single (by decide) (by decide) : Bands.WellFormed [⟨0, 10, [(0, 20)]⟩]) hwf (by decide)
      (by decide) (by decide)
  have h := (hfirst.union (by decide) (by decide) ⟨by simp [NoRightTouch], hfew⟩ htwo).union (by decide)
    (by decide) ⟨by simp [NoRightTouch], hfew'⟩ hthree
  exact ⟨_, h, by decide, reachable_canonical _ h⟩

/-- Inserting `[0, 10)` beside `[10, 20)` in one band leaves the two rectangles touching, while
`[0, 20)` inserted at once covers the same points with one. -/
theorem reachable_touching :
    ∃ r s, Reachable (fun _ _ => True) (fun _ _ => True) r ∧
      Reachable (fun _ _ => True) (fun _ _ => True) s ∧
      r.rects = [⟨0, 0, 10, 10⟩, ⟨10, 0, 20, 10⟩] ∧ s.rects = [⟨0, 0, 20, 10⟩] ∧
      (∀ x y, CoversPoint r.rects x y ↔ CoversPoint s.rects x y) ∧ ¬ CanonicalRects r.rects := by
  obtain ⟨hsecond, -⟩ := region16UnionRect_rectsOf
    (wellFormed_single (by decide) (by decide) : Bands.WellFormed [⟨0, 10, [(10, 20)]⟩])
    (wellFormed_of_rect (by decide) (by decide))
    (by decide : Rect.left ⟨0, 0, 10, 10⟩ < Rect.right ⟨0, 0, 10, 10⟩) (by decide) (by decide)
  have hrects : rectsOf (coalesce (unionAll ⟨0, 0, 10, 10⟩ ⟨0, 10, [(10, 20)]⟩ [])) =
      [⟨0, 0, 10, 10⟩, ⟨10, 0, 20, 10⟩] := by decide
  rw [hrects] at hsecond
  refine ⟨_, ⟨⟨0, 0, 20, 10⟩, [⟨0, 0, 20, 10⟩]⟩,
    .union (.first (by decide) (by decide) trivial) (by decide) (by decide) trivial hsecond,
    .first (by decide) (by decide) trivial, rfl, rfl, fun x y => ?_, fun hcanon => ?_⟩
  · simp only [CoversPoint, List.mem_cons, List.not_mem_nil, or_false, exists_eq_or_imp, exists_eq_left,
      Rect.Has]
    omega
  · exact hcanon.apart _ List.mem_cons_self _ (List.mem_cons_of_mem _ List.mem_cons_self) rfl rfl

end Reachable

end FreeRDP.Region
