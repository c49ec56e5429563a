import FreeRDP.Lib.Intervals

/-!
# Sets of points in bands

A band is a horizontal strip `[top, bottom)` with a list of intervals; a list of bands, from top to
bottom, describes a set of points.  Bands are `Canonical` when the intervals of each are separated
and no band could be joined to the one below it.  `coalesce` joins what can be joined, and a set of
points has at most one canonical description (`Canonical.eq_of_covers`).
-/

namespace Bands

open Intervals

/-- A strip of rows with the intervals that are covered in each of them. -/
structure Band where
  top : ℕ
  bottom : ℕ
  items : List (ℕ × ℕ)
  deriving DecidableEq, Repr

/-- The band contains the point `(x, y)`. -/
def Band.Has (b : Band) (x y : ℕ) : Prop := b.top ≤ y ∧ y < b.bottom ∧ Intervals.Covers b.items x

/-- The rows and the intervals of a band are non-empty, the intervals in order. -/
structure Band.WellFormed (b : Band) : Prop where
  top_lt : b.top < b.bottom
  items_ne : b.items ≠ []
  sorted : Sorted b.items

/-- Some band contains the point `(x, y)`. -/
def Covers (bs : List Band) (x y : ℕ) : Prop := ∃ b ∈ bs, b.Has x y

/-- Well-formed bands from top to bottom, without overlap. -/
def WellFormed (bs : List Band) : Prop :=
  (∀ b ∈ bs, b.WellFormed) ∧ bs.Pairwise fun b c => b.bottom ≤ c.top

/-- Two bands that could be one. -/
def Joins (b c : Band) : Prop := b.bottom = c.top ∧ b.items = c.items

instance (b c : Band) : Decidable (Joins b c) := inferInstanceAs (Decidable (_ ∧ _))

variable {b c : Band} {bs cs : List Band} {x y m : ℕ}

@[simp] theorem covers_nil : ¬ Covers [] x y := by simp [Covers]

@[simp] theorem covers_cons : Covers (b :: bs) x y ↔ b.Has x y ∨ Covers bs x y := by simp [Covers]

@[simp] theorem covers_append : Covers (bs ++ cs) x y ↔ Covers bs x y ∨ Covers cs x y := by
  simp [Covers, or_and_right, exists_or]

theorem wellFormed_cons :
    WellFormed (b :: bs) ↔ b.WellFormed ∧ (∀ c ∈ bs, b.bottom ≤ c.top) ∧ WellFormed bs := by
  simp only [WellFormed, List.forall_mem_cons, List.pairwise_cons]
  tauto

theorem wellFormed_append :
    WellFormed (bs ++ cs) ↔
      WellFormed bs ∧ WellFormed cs ∧ ∀ b ∈ bs, ∀ c ∈ cs, b.bottom ≤ c.top := by
  simp only [WellFormed, List.forall_mem_append, List.pairwise_append]
  tauto

/-- A well-formed band covers a point of each of its rows. -/
theorem Band.WellFormed.exists_covers (h : b.WellFormed) : ∃ x, Intervals.Covers b.items x := by
  obtain ⟨i, hi⟩ := List.exists_mem_of_ne_nil _ h.items_ne
  exact ⟨i.1, i, hi, Nat.le_refl _, h.sorted.1 i hi⟩

/-! ### Joining bands -/

/-- Joins `b` with as many of the following bands as possible, and so on with the rest. -/
def coalesceFrom (b : Band) : List Band → List Band
  | [] => [b]
  | c :: bs =>
    if Joins b c then coalesceFrom { b with bottom := c.bottom } bs
    else b :: coalesceFrom c bs

def coalesce : List Band → List Band
  | [] => []
  | b :: bs => coalesceFrom b bs

theorem covers_coalesceFrom (h : WellFormed (b :: bs)) :
    Covers (coalesceFrom b bs) x y ↔ Covers (b :: bs) x y := by
  induction bs generalizing b with
  | nil => rfl
  | cons c bs ih =>
    obtain ⟨hb, hle, hrest⟩ := wellFormed_cons.mp h
    obtain ⟨hc, hle', hrest'⟩ := wellFormed_cons.mp hrest
    rw [coalesceFrom]
    split_ifs with hj
    · have hbc := hb.top_lt
      have hcc := hc.top_lt
      obtain ⟨htouch, hitems⟩ := hj
      rw [ih (b := { b with bottom := c.bottom })
          (wellFormed_cons.mpr ⟨⟨by dsimp only; omega, hb.items_ne, hb.sorted⟩, hle', hrest'⟩),
        covers_cons, covers_cons, covers_cons, ← or_assoc]
      refine or_congr_left ?_
      simp only [Band.Has, ← hitems]
      by_cases hy : y < c.top
      · constructor
        · intro h'; exact .inl ⟨h'.1, by omega, h'.2.2⟩
        · rintro (h' | h')
          · exact ⟨h'.1, by omega, h'.2.2⟩
          · omega
      · constructor
        · intro h'; exact .inr ⟨by omega, h'.2⟩
        · rintro (h' | h')
          · omega
          · exact ⟨by omega, h'.2⟩
    · rw [covers_cons, ih hrest, covers_cons (b := b)]

/-- What does not depend on the bottom of a band holds of the bands that are joined. -/
theorem forall_coalesceFrom {P : Band → Prop} (hP : ∀ b bottom, P b → P { b with bottom := bottom })
    (hb : P b) (hbs : ∀ c ∈ bs, P c) : ∀ c ∈ coalesceFrom b bs, P c := by
  induction bs generalizing b with
  | nil => exact List.forall_mem_singleton.mpr hb
  | cons c bs ih =>
    obtain ⟨hc, hrest⟩ := List.forall_mem_cons.mp hbs
    rw [coalesceFrom]
    split_ifs
    · exact ih (hP b c.bottom hb) hrest
    · exact List.forall_mem_cons.mpr ⟨hb, ih hc hrest⟩

theorem wellFormed_coalesceFrom (h : WellFormed (b :: bs)) : WellFormed (coalesceFrom b bs) := by
  induction bs generalizing b with
  | nil => exact h
  | cons c bs ih =>
    obtain ⟨hb, hle, hrest⟩ := wellFormed_cons.mp h
    obtain ⟨hc, hle', hrest'⟩ := wellFormed_cons.mp hrest
    rw [coalesceFrom]
    split_ifs with hj
    · have hbc := hb.top_lt
      have hcc := hc.top_lt
      have := hj.1
      exact ih (wellFormed_cons.mpr ⟨⟨by dsimp only; omega, hb.items_ne, hb.sorted⟩, hle', hrest'⟩)
    · refine wellFormed_cons.mpr ⟨hb, ?_, ih hrest⟩
      obtain ⟨hbc, hle⟩ := List.forall_mem_cons.mp hle
      exact forall_coalesceFrom (P := fun d => b.bottom ≤ d.top) (fun _ _ h => h) hbc hle

/-- The first band of the result starts as the first band did. -/
theorem head_coalesceFrom (b : Band) (bs : List Band) :
    ∃ bottom rest, coalesceFrom b bs = { b with bottom := bottom } :: rest := by
  induction bs generalizing b with
  | nil => exact ⟨b.bottom, [], rfl⟩
  | cons c bs ih =>
    rw [coalesceFrom]
    split_ifs
    · exact ih { b with bottom := c.bottom }
    · exact ⟨b.bottom, _, rfl⟩

theorem isChain_coalesceFrom (b : Band) (bs : List Band) :
    (coalesceFrom b bs).IsChain fun b c => ¬ Joins b c := by
  induction bs generalizing b with
  | nil => exact List.IsChain.singleton b
  | cons c bs ih =>
    rw [coalesceFrom]
    split_ifs with hj
    · exact ih { b with bottom := c.bottom }
    · -- `c` may grow at its bottom, but not at its top
      obtain ⟨bottom, rest, heq⟩ := head_coalesceFrom c bs
      have htail := ih c
      rw [heq] at htail ⊢
      exact List.IsChain.cons_cons hj htail

/-! ### Canonical descriptions -/

/-- Well-formed, with separated intervals, and nothing to join. -/
structure Canonical (bs : List Band) : Prop where
  wellFormed : WellFormed bs
  separated : ∀ b ∈ bs, Separated b.items
  apart : bs.IsChain fun b c => ¬ Joins b c

theorem canonical_nil : Canonical [] :=
  ⟨⟨by simp, List.Pairwise.nil⟩, by simp, List.IsChain.nil⟩

theorem canonical_coalesce (h : WellFormed bs) (hs : ∀ b ∈ bs, Separated b.items) :
    Canonical (coalesce bs) := by
  cases bs with
  | nil => exact canonical_nil
  | cons b bs =>
    obtain ⟨hb, hbs⟩ := List.forall_mem_cons.mp hs
    exact ⟨wellFormed_coalesceFrom h, forall_coalesceFrom (P := fun d => Separated d.items)
      (fun _ _ h => h) hb hbs, isChain_coalesceFrom b bs⟩

theorem wellFormed_coalesce (h : WellFormed bs) : WellFormed (coalesce bs) := by
  cases bs with
  | nil => exact h
  | cons b bs => exact wellFormed_coalesceFrom h

theorem covers_coalesce (h : WellFormed bs) : Covers (coalesce bs) x y ↔ Covers bs x y := by
  cases bs with
  | nil => rfl
  | cons b bs => exact covers_coalesceFrom h

theorem Canonical.tail (h : Canonical (b :: bs)) : Canonical bs :=
  ⟨(wellFormed_cons.mp h.wellFormed).2.2, (List.forall_mem_cons.mp h.separated).2,
    List.isChain_of_isChain_cons h.apart⟩

/-- Nothing lies above the first band. -/
theorem le_of_covers_cons (h : WellFormed (b :: bs)) (hxy : Covers (b :: bs) x y) : b.top ≤ y := by
  obtain ⟨hb, hle, -⟩ := wellFormed_cons.mp h
  have := hb.top_lt
  rw [covers_cons] at hxy
  rcases hxy with hxy | ⟨c, hc, hxy⟩
  · exact hxy.1
  · have := hle c hc
    have := hxy.1
    omega

/-- Within the rows of the first band, its intervals are all there is. -/
theorem covers_row (h : WellFormed (b :: bs)) (h1 : b.top ≤ y) (h2 : y < b.bottom) :
    Covers (b :: bs) x y ↔ Intervals.Covers b.items x := by
  obtain ⟨-, hle, -⟩ := wellFormed_cons.mp h
  rw [covers_cons]
  constructor
  · rintro (hxy | ⟨c, hc, hxy⟩)
    · exact hxy.2.2
    · have := hle c hc
      have := hxy.1
      omega
  · exact fun hx => .inl ⟨h1, h2, hx⟩

theorem covers_tail_iff (h : WellFormed (b :: bs)) :
    Covers bs x y ↔ Covers (b :: bs) x y ∧ b.bottom ≤ y := by
  obtain ⟨hb, hle, -⟩ := wellFormed_cons.mp h
  rw [covers_cons]
  constructor
  · rintro ⟨c, hc, hxy⟩
    exact ⟨.inr ⟨c, hc, hxy⟩, Nat.le_trans (hle c hc) hxy.1⟩
  · rintro ⟨hxy | hxy, hy⟩
    · have := hxy.2.1
      omega
    · exact hxy

/-- In a canonical list the row below the first band differs from the band. -/
theorem Canonical.row_bottom_ne (h : Canonical (b :: bs)) :
    ¬ ∀ x, Covers (b :: bs) x b.bottom ↔ Intervals.Covers b.items x := by
  intro hrow
  obtain ⟨hb, hle, hrest⟩ := wellFormed_cons.mp h.wellFormed
  have hrow' : ∀ x, Covers bs x b.bottom ↔ Intervals.Covers b.items x := by
    intro x
    rw [covers_tail_iff h.wellFormed, hrow x]
    simp
  obtain ⟨x, hx⟩ := hb.exists_covers
  cases bs with
  | nil => exact covers_nil ((hrow' x).mpr hx)
  | cons c bs =>
    -- the next band starts right here, with the same intervals
    have htop : c.top = b.bottom :=
      Nat.le_antisymm (le_of_covers_cons hrest ((hrow' x).mpr hx)) (hle c List.mem_cons_self)
    have hc := (wellFormed_cons.mp hrest).1
    have hitems : b.items = c.items := by
      have hsep := List.forall_mem_cons.mp h.separated
      refine Intervals.eq_of_covers hsep.1 hb.sorted.1 (hsep.2 c List.mem_cons_self) hc.sorted.1 ?_
      intro x
      rw [← hrow' x, covers_row hrest (by omega) (by have := hc.top_lt; omega)]
    exact (List.isChain_cons_cons.mp h.apart).1 ⟨htop.symm, hitems⟩

/-- A set of points has at most one canonical description. -/
theorem Canonical.eq_of_covers (hb : Canonical bs) (hc : Canonical cs)
    (h : ∀ x y, Covers bs x y ↔ Covers cs x y) : bs = cs := by
  induction bs generalizing cs with
  | nil =>
    cases cs with
    | nil => rfl
    | cons c cs =>
      have hwf := (wellFormed_cons.mp hc.wellFormed).1
      obtain ⟨x, hx⟩ := hwf.exists_covers
      exact absurd ((h x c.top).mpr (covers_cons.mpr (.inl ⟨Nat.le_refl _, hwf.top_lt, hx⟩)))
        covers_nil
  | cons b bs ih =>
    have hbwf := (wellFormed_cons.mp hb.wellFormed).1
    obtain ⟨x, hx⟩ := hbwf.exists_covers
    have hbtop : Covers (b :: bs) x b.top := covers_cons.mpr (.inl ⟨Nat.le_refl _, hbwf.top_lt, hx⟩)
    cases cs with
    | nil => exact absurd ((h x b.top).mp hbtop) covers_nil
    | cons c cs =>
      have hcwf := (wellFormed_cons.mp hc.wellFormed).1
      obtain ⟨x', hx'⟩ := hcwf.exists_covers
      have hctop : Covers (c :: cs) x' c.top :=
        covers_cons.mpr (.inl ⟨Nat.le_refl _, hcwf.top_lt, hx'⟩)
      have htop : b.top = c.top := Nat.le_antisymm
        (le_of_covers_cons hb.wellFormed ((h x' c.top).mpr hctop))
        (le_of_covers_cons hc.wellFormed ((h x b.top).mp hbtop))
      -- the first rows agree, hence the intervals
      have hitems : b.items = c.items := by
        refine Intervals.eq_of_covers (hb.separated b List.mem_cons_self) hbwf.sorted.1
          (hc.separated c List.mem_cons_self) hcwf.sorted.1 fun x => ?_
        rw [← covers_row hb.wellFormed (Nat.le_refl _) hbwf.top_lt, h x b.top,
          covers_row hc.wellFormed (by omega) (by have := hcwf.top_lt; omega)]
      -- the first bands end where the rows stop agreeing
      have hbottom : b.bottom = c.bottom := by
        by_contra hne
        rcases Nat.lt_or_gt_of_ne hne with hlt | hlt
        · refine hb.row_bottom_ne fun x => ?_
          rw [h x b.bottom, covers_row hc.wellFormed (by have := hbwf.top_lt; omega) hlt, hitems]
        · refine hc.row_bottom_ne fun x => ?_
          rw [← h x c.bottom, covers_row hb.wellFormed (by have := hcwf.top_lt; omega) hlt, hitems]
      have heq : b = c := by
        obtain ⟨bt, bb, bi⟩ := b
        obtain ⟨ct, cb, ci⟩ := c
        simp only [Band.mk.injEq]
        exact ⟨htop, hbottom, hitems⟩
      subst heq
      rw [ih hb.tail hc.tail fun x y => by
        rw [covers_tail_iff hb.wellFormed, covers_tail_iff hc.wellFormed, h x y]]

end Bands
