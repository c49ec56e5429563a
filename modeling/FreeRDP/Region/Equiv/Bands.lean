import FreeRDP.Region.Basic
import FreeRDP.Lib.Bands

/-!
# The rectangle array as a list of bands

`rectsOf` lists the rectangles of bands from top to bottom.  Every array in which equal tops are
consecutive with equal bottoms, rectangles do not overlap, and bands lie below each other is of
this form (`exists_rectsOf`).  On such arrays the walks of `region.c` act band by band:
`copyBandWithUnion` copies a band or inserts an interval into it, `joinBands` is `coalesce`.
-/

namespace FreeRDP.Region

open Bands Intervals

/-! ### Rectangles of bands -/

/-- The rectangles over the rows `[top, bottom)` with the given intervals. -/
def rectsAt (top bottom : ℕ) (items : List (ℕ × ℕ)) : List Rect :=
  items.map fun i => ⟨i.1, top, i.2, bottom⟩

def rectsOf (bs : List Band) : List Rect := bs.flatMap fun b => rectsAt b.top b.bottom b.items

@[simp] theorem rectsOf_nil : rectsOf [] = [] := rfl

theorem rectsOf_cons (b : Band) (bs : List Band) :
    rectsOf (b :: bs) = rectsAt b.top b.bottom b.items ++ rectsOf bs := rfl

theorem rectsOf_append (bs cs : List Band) : rectsOf (bs ++ cs) = rectsOf bs ++ rectsOf cs := by
  simp [rectsOf]

theorem rectsAt_cons (top bottom : ℕ) (i : ℕ × ℕ) (items : List (ℕ × ℕ)) :
    rectsAt top bottom (i :: items) = ⟨i.1, top, i.2, bottom⟩ :: rectsAt top bottom items := rfl

theorem top_of_mem_rectsAt {top bottom : ℕ} {items : List (ℕ × ℕ)} {r : Rect}
    (h : r ∈ rectsAt top bottom items) : r.top = top := by
  obtain ⟨i, -, rfl⟩ := List.mem_map.mp h
  rfl

theorem mem_rectsOf {bs : List Band} {r : Rect} :
    r ∈ rectsOf bs ↔ ∃ b ∈ bs, r.top = b.top ∧ r.bottom = b.bottom ∧ (r.left, r.right) ∈ b.items := by
  simp only [rectsOf, rectsAt, List.mem_flatMap, List.mem_map]
  refine exists_congr fun b => and_congr_right fun _ => ?_
  constructor
  · rintro ⟨i, hi, rfl⟩
    exact ⟨rfl, rfl, hi⟩
  · obtain ⟨left, top, right, bottom⟩ := r
    rintro ⟨rfl, rfl, hi⟩
    exact ⟨(left, right), hi, rfl⟩

theorem rectsOf_ne_nil {b : Band} {bs : List Band} (h : Bands.WellFormed (b :: bs)) :
    rectsOf (b :: bs) ≠ [] := by
  rw [rectsOf_cons]
  simp [rectsAt, (Bands.wellFormed_cons.mp h).1.items_ne]

/-- The rectangle contains the point `(x, y)`. -/
def Rect.Has (r : Rect) (x y : ℕ) : Prop := r.left ≤ x ∧ x < r.right ∧ r.top ≤ y ∧ y < r.bottom

/-- Some rectangle of the list contains the point `(x, y)`. -/
def CoversPoint (rects : List Rect) (x y : ℕ) : Prop := ∃ r ∈ rects, r.Has x y

theorem coversPoint_rectsOf {bs : List Band} {x y : ℕ} :
    CoversPoint (rectsOf bs) x y ↔ Bands.Covers bs x y := by
  constructor
  · rintro ⟨r, hr, hx1, hx2, hy1, hy2⟩
    obtain ⟨b, hb, htop, hbottom, hi⟩ := mem_rectsOf.mp hr
    exact ⟨b, hb, by omega, by omega, _, hi, hx1, hx2⟩
  · rintro ⟨b, hb, hy1, hy2, i, hi, hx1, hx2⟩
    exact ⟨⟨i.1, b.top, i.2, b.bottom⟩, mem_rectsOf.mpr ⟨b, hb, rfl, rfl, hi⟩, hx1, hx2, hy1, hy2⟩

/-! ### Arrays that come from bands -/

/-- `a` comes before `b` in the array: to its left in one band, or in a higher band. -/
def Before (a b : Rect) : Prop :=
  (a.top = b.top ∧ a.bottom = b.bottom ∧ a.right ≤ b.left) ∨ a.bottom ≤ b.top

/-- The rectangles are non-empty and in y-x-banded order. -/
def Banded (rects : List Rect) : Prop :=
  (∀ r ∈ rects, r.left < r.right ∧ r.top < r.bottom) ∧ rects.Pairwise Before

theorem banded_rectsOf {bs : List Band} (h : Bands.WellFormed bs) : Banded (rectsOf bs) := by
  refine ⟨fun r hr => ?_, ?_⟩
  · obtain ⟨b, hb, htop, hbottom, hi⟩ := mem_rectsOf.mp hr
    have hwf := h.1 b hb
    have hlr := hwf.sorted.1 _ hi
    have htb := hwf.top_lt
    dsimp only at hlr
    omega
  · induction bs with
    | nil => exact List.Pairwise.nil
    | cons b bs ih =>
      obtain ⟨hb, hle, hrest⟩ := Bands.wellFormed_cons.mp h
      rw [rectsOf_cons, List.pairwise_append]
      refine ⟨?_, ih hrest, ?_⟩
      · rw [rectsAt, List.pairwise_map]
        exact hb.sorted.2.imp fun hij => .inl ⟨rfl, rfl, hij⟩
      · intro r hr s hs
        obtain ⟨i, -, rfl⟩ := List.mem_map.mp hr
        obtain ⟨c, hc, htop, -, -⟩ := mem_rectsOf.mp hs
        exact .inr (by have := hle c hc; dsimp only; omega)

/-- A banded array is the array of well-formed bands. -/
theorem exists_rectsOf {rects : List Rect} (h : Banded rects) :
    ∃ bs, Bands.WellFormed bs ∧ rectsOf bs = rects := by
  induction rects with
  | nil => exact ⟨[], ⟨by simp, List.Pairwise.nil⟩, rfl⟩
  | cons r rects ih =>
    obtain ⟨hne, hpair⟩ := h
    obtain ⟨hr, hne⟩ := List.forall_mem_cons.mp hne
    obtain ⟨hbefore, hpair⟩ := List.pairwise_cons.mp hpair
    obtain ⟨bs, hbs, rfl⟩ := ih ⟨hne, hpair⟩
    have hnew : (⟨r.top, r.bottom, [(r.left, r.right)]⟩ : Band).WellFormed :=
      ⟨hr.2, by simp, by simpa [Sorted] using hr.1⟩
    cases bs with
    | nil =>
      exact ⟨[⟨r.top, r.bottom, [(r.left, r.right)]⟩],
        Bands.wellFormed_cons.mpr ⟨hnew, by simp, hbs⟩, rfl⟩
    | cons b bs =>
      obtain ⟨hb, hle, hrest⟩ := Bands.wellFormed_cons.mp hbs
      have hmem : ∀ i ∈ b.items, (⟨i.1, b.top, i.2, b.bottom⟩ : Rect) ∈ rectsOf (b :: bs) :=
        fun i hi => mem_rectsOf.mpr ⟨b, List.mem_cons_self, rfl, rfl, hi⟩
      obtain ⟨i, hi⟩ := List.exists_mem_of_ne_nil _ hb.items_ne
      have htb := hb.top_lt
      by_cases hsame : r.top = b.top
      · -- the rectangle joins the first band, on its left
        have hbottom : r.bottom = b.bottom := by
          rcases hbefore _ (hmem i hi) with h' | h'
          · exact h'.2.1
          · dsimp only at h'; omega
        have hleft : ∀ j ∈ b.items, r.right ≤ j.1 := by
          intro j hj
          rcases hbefore _ (hmem j hj) with h' | h'
          · exact h'.2.2
          · dsimp only at h'; omega
        refine ⟨⟨b.top, b.bottom, (r.left, r.right) :: b.items⟩ :: bs,
          Bands.wellFormed_cons.mpr ⟨⟨htb, by simp,
            sorted_cons.mpr ⟨hr.1, hleft, hb.sorted⟩⟩, hle, hrest⟩, ?_⟩
        rw [rectsOf_cons, rectsAt_cons, rectsOf_cons, ← hsame, ← hbottom]
        rfl
      · -- the rectangle starts a band of its own
        have habove : r.bottom ≤ b.top := by
          rcases hbefore _ (hmem i hi) with h' | h'
          · exact absurd h'.1 hsame
          · exact h'
        refine ⟨⟨r.top, r.bottom, [(r.left, r.right)]⟩ :: b :: bs,
          Bands.wellFormed_cons.mpr ⟨hnew, ?_, hbs⟩, rfl⟩
        refine List.forall_mem_cons.mpr ⟨habove, fun c hc => ?_⟩
        have := hle c hc
        dsimp only
        omega

/-! ### Copying a band -/

section Copy

variable {refY newTop newBottom bottom : ℕ} {items : List (ℕ × ℕ)} {tail : List Rect}

/-- The band at the head of an array, and what follows it. -/
theorem takeWhile_band (bottom : ℕ) (items : List (ℕ × ℕ)) (htail : ∀ r ∈ tail, r.top ≠ refY) :
    ((rectsAt refY bottom items ++ tail).takeWhile fun r => r.top = refY) =
      rectsAt refY bottom items := by
  rw [List.takeWhile_append_of_pos fun r hr => by simpa using top_of_mem_rectsAt hr]
  cases tail with
  | nil => simp
  | cons r tail => rw [List.takeWhile_cons_of_neg (by simpa using htail r List.mem_cons_self),
      List.append_nil]

theorem dropWhile_band (bottom : ℕ) (items : List (ℕ × ℕ)) (htail : ∀ r ∈ tail, r.top ≠ refY) :
    ((rectsAt refY bottom items ++ tail).dropWhile fun r => r.top = refY) = tail := by
  rw [List.dropWhile_append_of_pos fun r hr => by simpa using top_of_mem_rectsAt hr]
  cases tail with
  | nil => rfl
  | cons r tail => rw [List.dropWhile_cons_of_neg (by simpa using htail r List.mem_cons_self)]

theorem map_toBand (items : List (ℕ × ℕ)) :
    (rectsAt refY bottom items).map (toBand newTop newBottom) = rectsAt newTop newBottom items := by
  simp [rectsAt, toBand]

theorem copyBand_none (newTop newBottom bottom : ℕ) (items : List (ℕ × ℕ))
    (htail : ∀ r ∈ tail, r.top ≠ refY) :
    copyBandWithUnion refY newTop newBottom none (rectsAt refY bottom items ++ tail) =
      (rectsAt newTop newBottom items, tail) := by
  rw [copyBandWithUnion, takeWhile_band _ _ htail, dropWhile_band _ _ htail, map_toBand]

private theorem joinOverlap_band (newTop newBottom bottom : ℕ) (items : List (ℕ × ℕ)) (left : ℕ)
    (u : Rect) (htail : ∀ r ∈ tail, r.top ≠ refY) :
    (joinOverlap refY newTop newBottom left u (rectsAt refY bottom items ++ tail)).1 ::
        ((joinOverlap refY newTop newBottom left u
          (rectsAt refY bottom items ++ tail)).2.takeWhile fun r => r.top = refY).map
            (toBand newTop newBottom) =
      rectsAt newTop newBottom (absorb left u.right items) := by
  induction items with
  | nil =>
    rw [joinOverlap]
    cases tail with
    | nil => rfl
    | cons r tail =>
      have hr := htail r List.mem_cons_self
      rw [show rectsAt refY bottom [] ++ r :: tail = r :: tail from rfl,
        List.dropWhile_cons_of_neg (by simp [hr])]
      simp only [hr, false_and, if_false]
      rw [List.takeWhile_cons_of_neg (by simpa using hr)]
      rfl
  | cons i items ih =>
    rw [rectsAt_cons, List.cons_append, absorb]
    by_cases h1 : i.2 < u.right
    · rw [if_pos h1, ← ih, joinOverlap, joinOverlap,
        List.dropWhile_cons_of_pos (by simpa using h1)]
    · rw [if_neg h1, joinOverlap, List.dropWhile_cons_of_neg (by simpa using h1)]
      simp only [true_and]
      by_cases h2 : i.1 < u.right
      · simp only [h2, if_true]
        rw [takeWhile_band _ _ htail, map_toBand]
        rfl
      · simp only [h2, if_false]
        rw [← List.cons_append, ← rectsAt_cons, takeWhile_band _ _ htail, map_toBand]
        rfl

/-- Copying a band with a rectangle inserts an interval. -/
theorem copyBand_some (u : Rect) (htail : ∀ r ∈ tail, r.top ≠ refY) :
    copyBandWithUnion refY newTop newBottom (some u) (rectsAt refY bottom items ++ tail) =
      (rectsAt newTop newBottom (Intervals.insert u.left u.right items), tail) := by
  refine Prod.ext ?_ ((copyBandWithUnion_snd _ _ _ _ _).trans (dropWhile_band _ _ htail))
  induction items with
  | nil =>
    have hjoin := joinOverlap_band newTop newBottom bottom [] u.left u htail
    rw [copyBandWithUnion]
    dsimp only
    cases tail with
    | nil => rfl
    | cons r tail =>
      have hr := htail r List.mem_cons_self
      rw [show rectsAt refY bottom [] ++ r :: tail = r :: tail from rfl] at hjoin ⊢
      rw [List.takeWhile_cons_of_neg (by simp [hr]), List.dropWhile_cons_of_neg (by simp [hr]),
        List.map_nil, List.nil_append, startOverlapLeft, if_neg (by simp [hr]), hjoin]
      rfl
  | cons i items ih =>
    rw [Intervals.insert]
    rw [copyBandWithUnion] at ih ⊢
    dsimp only at ih ⊢
    by_cases h : i.2 < u.left
    · rw [if_pos h, rectsAt_cons, List.cons_append, List.takeWhile_cons_of_pos (by simpa using h),
        List.dropWhile_cons_of_pos (by simpa using h), List.map_cons, List.cons_append, ih]
      rfl
    · have hjoin := joinOverlap_band newTop newBottom bottom (i :: items) (min i.1 u.left) u htail
      have hstart : startOverlapLeft refY u (rectsAt refY bottom (i :: items) ++ tail) =
          min i.1 u.left := by
        rw [rectsAt_cons, List.cons_append, startOverlapLeft]
        split_ifs with hlt <;> simp only [true_and] at hlt ⊢ <;> omega
      rw [if_neg h, ← hjoin, ← hstart, rectsAt_cons, List.cons_append,
        List.takeWhile_cons_of_neg (by simpa using h),
        List.dropWhile_cons_of_neg (by simpa using h), List.map_nil, List.nil_append]

end Copy

/-! ### Simplification -/

/-- In well-formed bands, the rectangles behind the first band have other tops. -/
theorem top_ne_of_mem_tail {b : Band} {bs : List Band} (h : Bands.WellFormed (b :: bs)) {r : Rect}
    (hr : r ∈ rectsOf bs) : r.top ≠ b.top := by
  obtain ⟨hb, hle, -⟩ := Bands.wellFormed_cons.mp h
  obtain ⟨c, hc, htop, -, -⟩ := mem_rectsOf.mp hr
  have := hle c hc
  have := hb.top_lt
  omega

/-- `band_match` compares the intervals of two bands. -/
theorem bandMatch_iff (top bottom : ℕ) {refY : ℕ} (bottom' : ℕ) (items items' : List (ℕ × ℕ))
    {tail : List Rect} (htail : ∀ r ∈ tail, r.top ≠ refY) :
    bandMatch refY (rectsAt top bottom items) (rectsAt refY bottom' items' ++ tail) ↔
      items = items' := by
  induction items generalizing items' with
  | nil =>
    cases items' with
    | nil =>
      cases tail with
      | nil => simp [rectsAt, bandMatch]
      | cons r tail => simpa [rectsAt, bandMatch] using htail r List.mem_cons_self
    | cons i' items' => simp [rectsAt, bandMatch]
  | cons i items ih =>
    cases items' with
    | nil =>
      cases tail with
      | nil => simp [rectsAt, bandMatch]
      | cons r tail => simp [rectsAt, bandMatch, htail r List.mem_cons_self]
    | cons i' items' =>
      rw [rectsAt_cons, rectsAt_cons, List.cons_append, bandMatch, if_pos rfl]
      dsimp only
      split_ifs with hne
      · simp only [List.cons.injEq, false_iff, not_and]
        rintro rfl
        simp at hne
      · rw [ih, List.cons.injEq]
        simp only [not_or, not_not] at hne
        simp [Prod.ext_iff, hne]

theorem drop_length_rectsAt {top bottom top' bottom' : ℕ} {items : List (ℕ × ℕ)}
    {tail : List Rect} :
    (rectsAt top bottom items ++ tail).drop (rectsAt top' bottom' items).length = tail := by
  rw [List.drop_append_of_le_length (by simp [rectsAt])]
  simp [rectsAt]

theorem joinBands_cons {r r2 : Rect} {rs band2 : List Rect}
    (h : ((r :: rs).dropWhile fun s => s.top = r.top) = r2 :: band2) :
    joinBands (r :: rs) =
      let band1 := (r :: rs).takeWhile fun s => s.top = r.top
      if r.bottom = r2.top ∧ bandMatch r2.top band1 (r2 :: band2) then
        joinBands (band1.map (fun s => { s with bottom := r2.bottom }) ++
          (r2 :: band2).drop band1.length)
      else band1 ++ joinBands (r2 :: band2) := by
  rw [joinBands]
  split
  · next hnil => rw [h] at hnil; cases hnil
  · next hsome => cases h.symm.trans hsome; rfl

theorem joinBands_singleton (r : Rect) : joinBands [r] = [r] := by
  rw [joinBands]
  split <;> simp_all

private theorem joinBands_last {b : Band} (hb : b.items ≠ []) :
    joinBands (rectsAt b.top b.bottom b.items) = rectsAt b.top b.bottom b.items := by
  obtain ⟨i, items, hitems⟩ := List.exists_cons_of_ne_nil hb
  have hnil : ∀ r ∈ ([] : List Rect), r.top ≠ b.top := by simp
  have htake := takeWhile_band b.bottom (i :: items) hnil
  have hdrop := dropWhile_band b.bottom (i :: items) hnil
  rw [List.append_nil, rectsAt_cons] at htake hdrop
  rw [hitems, rectsAt_cons, joinBands]
  split
  case h_1 heq => exact htake
  case h_2 heq => rw [hdrop] at heq; cases heq

/-- What a round of the simplification finds at the head of two bands. -/
private theorem exists_round {b c : Band} {tail : List Rect} (hb : b.items ≠ []) (hc : c.items ≠ [])
    (hbc : b.top ≠ c.top) (htail : ∀ r ∈ tail, r.top ≠ b.top) (htail' : ∀ r ∈ tail, r.top ≠ c.top) :
    ∃ r rs r2 band2, rectsAt b.top b.bottom b.items ++ (rectsAt c.top c.bottom c.items ++ tail) = r :: rs ∧
      ((r :: rs).takeWhile fun s => s.top = r.top) = rectsAt b.top b.bottom b.items ∧
      ((r :: rs).dropWhile fun s => s.top = r.top) = r2 :: band2 ∧
      r2 :: band2 = rectsAt c.top c.bottom c.items ++ tail ∧ r2.bottom = c.bottom ∧
      (r.bottom = r2.top ∧ bandMatch r2.top (rectsAt b.top b.bottom b.items) (r2 :: band2) ↔ Joins b c) := by
  obtain ⟨i, items, hitems⟩ := List.exists_cons_of_ne_nil hb
  obtain ⟨j, items', hitems'⟩ := List.exists_cons_of_ne_nil hc
  have htail'' : ∀ r ∈ rectsAt c.top c.bottom c.items ++ tail, r.top ≠ b.top := by
    intro r hr
    rcases List.mem_append.mp hr with hr | hr
    · rw [top_of_mem_rectsAt hr]
      exact Ne.symm hbc
    · exact htail r hr
  have htake := takeWhile_band b.bottom b.items htail''
  have hdrop := dropWhile_band b.bottom b.items htail''
  have hmatch := bandMatch_iff b.top b.bottom c.bottom b.items c.items htail'
  have hhead : rectsAt b.top b.bottom b.items ++ (rectsAt c.top c.bottom c.items ++ tail) =
      ⟨i.1, b.top, i.2, b.bottom⟩ ::
        (rectsAt b.top b.bottom items ++ (rectsAt c.top c.bottom c.items ++ tail)) := by
    rw [hitems, rectsAt_cons, List.cons_append]
  have hsecond : rectsAt c.top c.bottom c.items ++ tail =
      ⟨j.1, c.top, j.2, c.bottom⟩ :: (rectsAt c.top c.bottom items' ++ tail) := by
    rw [hitems', rectsAt_cons, List.cons_append]
  rw [hhead] at htake hdrop
  refine ⟨_, _, _, _, hhead, htake, hdrop.trans hsecond, hsecond.symm, rfl, ?_⟩
  rw [← hsecond]
  exact and_congr Iff.rfl hmatch

theorem map_bottom (top bottom newBottom : ℕ) (items : List (ℕ × ℕ)) :
    (rectsAt top bottom items).map (fun s => { s with bottom := newBottom }) =
      rectsAt top newBottom items := by simp [rectsAt]

private theorem joinBands_round {b c : Band} {tail : List Rect} (hb : b.items ≠ [])
    (hc : c.items ≠ []) (hbc : b.top ≠ c.top) (htail : ∀ r ∈ tail, r.top ≠ b.top)
    (htail' : ∀ r ∈ tail, r.top ≠ c.top) :
    joinBands (rectsAt b.top b.bottom b.items ++ (rectsAt c.top c.bottom c.items ++ tail)) =
      if Joins b c then joinBands (rectsAt b.top c.bottom b.items ++ tail)
      else rectsAt b.top b.bottom b.items ++
        joinBands (rectsAt c.top c.bottom c.items ++ tail) := by
  obtain ⟨r, rs, r2, band2, hhead, htake, hdrop, hsecond, hbottom, hjoins⟩ :=
    exists_round hb hc hbc htail htail'
  rw [hhead, joinBands_cons hdrop, htake]
  dsimp only
  by_cases hj : Joins b c
  · rw [if_pos hj, if_pos (hjoins.mpr hj), hsecond, hbottom, map_bottom, hj.2, drop_length_rectsAt]
  · rw [if_neg hj, if_neg fun h => hj (hjoins.mp h), hsecond]

theorem joinBands_rectsOf {bs : List Band} (h : Bands.WellFormed bs) :
    joinBands (rectsOf bs) = rectsOf (coalesce bs) := by
  cases bs with
  | nil => rw [rectsOf_nil, joinBands]; rfl
  | cons b bs =>
    rw [coalesce]
    induction bs generalizing b with
    | nil =>
      rw [coalesceFrom, rectsOf_cons, rectsOf_nil, List.append_nil]
      exact joinBands_last (Bands.wellFormed_cons.mp h).1.items_ne
    | cons c bs ih =>
      obtain ⟨hb, hle, hrest⟩ := Bands.wellFormed_cons.mp h
      obtain ⟨hc, hle', hrest'⟩ := Bands.wellFormed_cons.mp hrest
      have hbt := hb.top_lt
      have hct := hc.top_lt
      have hbc := hle c List.mem_cons_self
      rw [rectsOf_cons, rectsOf_cons, joinBands_round hb.items_ne hc.items_ne (by omega)
        (fun r hr => top_ne_of_mem_tail h (by rw [rectsOf_cons]; exact List.mem_append_right _ hr))
        (fun r hr => top_ne_of_mem_tail hrest hr), coalesceFrom]
      split_ifs with hj
      · have := hj.1
        exact ih { b with bottom := c.bottom } (Bands.wellFormed_cons.mpr
          ⟨⟨by dsimp only; omega, hb.items_ne, hb.sorted⟩, hle', hrest'⟩)
      · rw [rectsOf_cons, ← ih c hrest, rectsOf_cons]

/-! ### Sizes that fit an `int` -/

theorem toMove_eq {behind : List Rect} (h : behind.length < 2 ^ 28) :
    toMove behind = 8 * behind.length := by
  unfold toMove
  rw [Int.bmod_eq_of_le] <;> omega

/-- Everything behind the second band is moved if there are fewer than `2 ^ 28` rectangles. -/
theorem moveMemory_eq (band2 : List Rect) {behind : List Rect} (h : behind.length < 2 ^ 28) :
    moveMemory band2 behind = behind := by
  have hmoved : (toMove behind).toNat / 8 = behind.length := by
    rw [toMove_eq h]
    omega
  unfold moveMemory
  rw [hmoved]
  simp

theorem simplifyFrom_cons {r r2 : Rect} {rs band2 : List Rect}
    (h : ((r :: rs).dropWhile fun s => s.top = r.top) = r2 :: band2) :
    simplifyFrom (r :: rs) =
      let band1 := (r :: rs).takeWhile fun s => s.top = r.top
      if r.bottom = r2.top ∧ bandMatch r2.top band1 (r2 :: band2) then
        if toMove ((r2 :: band2).drop band1.length) < 0 then none
        else simplifyFrom (band1.map (fun s => { s with bottom := r2.bottom }) ++
          moveMemory ((r2 :: band2).take band1.length) ((r2 :: band2).drop band1.length))
      else (simplifyFrom (r2 :: band2)).map (band1 ++ ·) := by
  rw [simplifyFrom]
  split
  · next hnil => rw [h] at hnil; cases hnil
  · next hsome => cases h.symm.trans hsome; rfl

/-- With fewer than `2 ^ 28` rectangles the loop joins the bands. -/
theorem simplifyFrom_eq {rects : List Rect} (h : rects.length < 2 ^ 28) :
    simplifyFrom rects = some (joinBands rects) := by
  induction rects using joinBands.induct with
  | case1 => rw [simplifyFrom, joinBands]
  | case2 r rs hdrop =>
    rw [simplifyFrom, joinBands]
    split
    · rfl
    · next hsome => rw [hdrop] at hsome; cases hsome
  | case3 r rs band1 r2 band2 hdrop hjoins ih =>
    have hlt : band1.length + ((r2 :: band2).drop band1.length).length < (r :: rs).length :=
      length_joined_lt hdrop
    have hbehind : ((r2 :: band2).drop band1.length).length < 2 ^ 28 := by omega
    have hpos : ¬ toMove ((r2 :: band2).drop band1.length) < 0 := by
      rw [toMove_eq hbehind]
      omega
    rw [simplifyFrom_cons hdrop, joinBands_cons hdrop]
    dsimp only
    rw [if_pos hjoins, if_pos hjoins, if_neg hpos, moveMemory_eq _ hbehind]
    refine ih ?_
    rw [List.length_append, List.length_map]
    omega
  | case4 r rs band1 r2 band2 hdrop hno ih =>
    have hlt := length_dropWhile_lt r rs
    rw [hdrop] at hlt
    rw [simplifyFrom_cons hdrop, joinBands_cons hdrop]
    dsimp only
    rw [if_neg hno, if_neg hno, ih (by omega)]
    rfl

/-- Two bands that are joined in front of too many rectangles. -/
theorem simplifyFrom_none {b c : Band} {tail : List Rect} (hb : b.items ≠ []) (hc : c.items ≠ [])
    (hbc : b.top ≠ c.top) (htail : ∀ r ∈ tail, r.top ≠ b.top) (htail' : ∀ r ∈ tail, r.top ≠ c.top)
    (hj : Joins b c) (hmove : toMove tail < 0) :
    simplifyFrom (rectsAt b.top b.bottom b.items ++ (rectsAt c.top c.bottom c.items ++ tail)) = none := by
  obtain ⟨r, rs, r2, band2, hhead, htake, hdrop, hsecond, -, hjoins⟩ := exists_round hb hc hbc htail htail'
  rw [hhead, simplifyFrom_cons hdrop, htake]
  dsimp only
  rw [if_pos (hjoins.mpr hj), hsecond, hj.2, drop_length_rectsAt, if_pos hmove]

theorem simplifyBands_eq {rects : List Rect} (h : rects.length < 2 ^ 28) :
    simplifyBands rects = some (joinBands rects) := by
  unfold simplifyBands
  split_ifs with hfew
  · rw [Int.bmod_eq_of_le (by omega) (by omega)] at hfew
    match rects with
    | [] => rw [joinBands]
    | [r] => rw [joinBands_singleton]
  · exact simplifyFrom_eq h

end FreeRDP.Region
