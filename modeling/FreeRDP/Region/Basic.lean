import Mathlib.Algebra.Group.Int.Defs
import Mathlib.Algebra.Group.Nat.Defs
import Mathlib.Data.List.Basic
import Mathlib.Order.Basic

/-!
# Regions

`region.c` keeps a set of screen points as an array of rectangles in y-x bands: the rectangles are
sorted by their top and then by their left side, those with one top form a band and share their
bottom.

Coordinates are `UINT16`; they are only compared, so that natural numbers stand for them.  A walk
of the source over the array is a walk over the list of the rectangles from the current pointer to
the end.  A function that fills a destination region returns it; allocations succeed.  The `UINT32`
counters do not wrap, as fewer than `2 ^ 32` rectangles have such coordinates, but the number of
rectangles is an `int` in places, and so is the number of bytes that are moved when bands are joined:
`unionRect` and `intersectRect` are what the functions do with arrays for which these do not wrap.
-/

namespace FreeRDP.Region

/-- `RECTANGLE_16`. -/
structure Rect where
  left : ℕ
  top : ℕ
  right : ℕ
  bottom : ℕ
  deriving DecidableEq, Repr

/-- `REGION16`: the extents and the rectangles behind `data`. -/
structure Region16 where
  extents : Rect
  rects : List Rect
  deriving DecidableEq, Repr

/-! ### Rectangles -/

def rectangleIsEmpty (rect : Rect) : Bool := rect.left = rect.right ∨ rect.top = rect.bottom

/-- `rectangles_intersection`; `none` where it returns `FALSE`. -/
def rectanglesIntersection (r1 r2 : Rect) : Option Rect :=
  let dst : Rect :=
    { left := max r1.left r2.left
      right := min r1.right r2.right
      top := max r1.top r2.top
      bottom := min r1.bottom r2.bottom }
  if max r1.left r2.left < min r1.right r2.right ∧ max r1.top r2.top < min r1.bottom r2.bottom then
    some dst
  else none

/-! ### Bands -/

/-- A rectangle moved to the rows of a new band. -/
def toBand (newTop newBottom : ℕ) (r : Rect) : Rect := { r with top := newTop, bottom := newBottom }

/-- The part of `region16_copy_band_with_union` that joins the items that overlap `unionRect` into
one, whose left side is already known; gives the item and the items behind it. -/
def joinOverlap (refY newTop newBottom left : ℕ) (unionRect : Rect) (src : List Rect) :
    Rect × List Rect :=
  match src.dropWhile fun r => r.top = refY ∧ r.right < unionRect.right with
  | [] => (⟨left, newTop, unionRect.right, newBottom⟩, [])
  | r :: src =>
    if r.top = refY ∧ r.left < unionRect.right then (⟨left, newTop, r.right, newBottom⟩, src)
    else (⟨left, newTop, unionRect.right, newBottom⟩, r :: src)

/-- The left side of `startOverlap`. -/
def startOverlapLeft (refY : ℕ) (unionRect : Rect) : List Rect → ℕ
  | [] => unionRect.left
  | r :: _ => if r.top = refY ∧ r.left < unionRect.left then r.left else unionRect.left

/-- `region16_copy_band_with_union` for the band with top `refY` at the head of `src`: the items it
writes, and `srcPtr`. -/
def copyBandWithUnion (refY newTop newBottom : ℕ) (unionRect : Option Rect) (src : List Rect) :
    List Rect × List Rect :=
  match unionRect with
  | none =>
    ((src.takeWhile fun r => r.top = refY).map (toBand newTop newBottom),
      src.dropWhile fun r => r.top = refY)
  | some u =>
    let before := src.takeWhile fun r => r.top = refY ∧ r.right < u.left
    let src := src.dropWhile fun r => r.top = refY ∧ r.right < u.left
    let joined := joinOverlap refY newTop newBottom (startOverlapLeft refY u src) u src
    (before.map (toBand newTop newBottom) ++ joined.1 ::
        (joined.2.takeWhile fun r => r.top = refY).map (toBand newTop newBottom),
      joined.2.dropWhile fun r => r.top = refY)

/-- `rectangle_contained_in_band`: the loop, on the items of the band with top `refY`. -/
def containedInItems (refY : ℕ) (rect : Rect) : List Rect → Bool
  | [] => false
  | item :: items =>
    if item.top = refY ∧ item.left ≤ rect.left then
      if rect.right ≤ item.right then true else containedInItems refY rect items
    else false

def rectangleContainedInBand (band : Rect) (src : List Rect) (rect : Rect) : Bool :=
  if band.top > rect.top ∨ rect.bottom > band.bottom then false
  else containedInItems band.top rect src

/-- `band_match`, with the top of the second band. -/
def bandMatch (refBand2 : ℕ) : List Rect → List Rect → Bool
  | [], [] => true
  | [], r2 :: _ => r2.top ≠ refBand2
  | _ :: _, [] => false
  | r1 :: band1, r2 :: band2 =>
    if r2.top = refBand2 then
      if r1.left ≠ r2.left ∨ r1.right ≠ r2.right then false else bandMatch refBand2 band1 band2
    else false

theorem length_dropWhile_lt (r : Rect) (rs : List Rect) :
    ((r :: rs).dropWhile fun s => s.top = r.top).length < (r :: rs).length := by
  rw [List.dropWhile_cons_of_pos (by simp)]
  exact Nat.lt_succ_of_le (List.dropWhile_sublist _).length_le

/-- Joining bands makes the array shorter. -/
theorem length_joined_lt {r r2 : Rect} {rs band2 : List Rect}
    (h : ((r :: rs).dropWhile fun s => s.top = r.top) = r2 :: band2) :
    ((r :: rs).takeWhile fun s => s.top = r.top).length +
        ((r2 :: band2).drop ((r :: rs).takeWhile fun s => s.top = r.top).length).length <
      (r :: rs).length := by
  have hsplit := congrArg List.length (List.takeWhile_append_dropWhile
    (p := fun s : Rect => decide (s.top = r.top)) (l := r :: rs))
  rw [List.length_append, h] at hsplit
  have hpos : 0 < ((r :: rs).takeWhile fun s => s.top = r.top).length := by
    rw [List.takeWhile_cons_of_pos (by simp)]
    simp
  simp only [List.length_drop, List.length_cons] at hsplit ⊢
  omega

/-- The loop of `region16_simplify_bands`, from `band1` on, if nothing wraps: consecutive bands that touch
and have the same items are joined. -/
def joinBands : List Rect → List Rect
  | [] => []
  | r :: rs =>
    let band1 := (r :: rs).takeWhile fun s => s.top = r.top
    match h : (r :: rs).dropWhile fun s => s.top = r.top with
    | [] => band1
    | r2 :: band2 =>
      if r.bottom = r2.top ∧ bandMatch r2.top band1 (r2 :: band2) then
        joinBands (band1.map (fun s => { s with bottom := r2.bottom }) ++
          (r2 :: band2).drop band1.length)
      else band1 ++ joinBands (r2 :: band2)
termination_by rects => rects.length
decreasing_by
  · rw [List.length_append, List.length_map]
    exact length_joined_lt h
  · have := length_dropWhile_lt r rs
    rwa [h] at this

/-- `toMove`, for the rectangles behind the second band.  A `RECTANGLE_16` has 8 bytes. -/
def toMove (behind : List Rect) : ℤ := (8 * behind.length : ℤ).bmod (2 ^ 32)

/-- `MoveMemory` of `toMove` bytes from `endBand` to `band2`: the array from `band2` up to the new end. -/
def moveMemory (band2 behind : List Rect) : List Rect :=
  let moved := (toMove behind).toNat / 8
  behind.take moved ++ ((band2 ++ behind).drop moved).take (behind.length - moved)

theorem length_moveMemory_le (band2 behind : List Rect) :
    (moveMemory band2 behind).length ≤ behind.length := by
  simp only [moveMemory, List.length_append, List.length_take]
  omega

/-- The loop of `region16_simplify_bands`; `none` where `toMove` is negative, and `MoveMemory` runs beyond
the array. -/
def simplifyFrom : List Rect → Option (List Rect)
  | [] => some []
  | r :: rs =>
    let band1 := (r :: rs).takeWhile fun s => s.top = r.top
    match h : (r :: rs).dropWhile fun s => s.top = r.top with
    | [] => some band1
    | r2 :: band2 =>
      if r.bottom = r2.top ∧ bandMatch r2.top band1 (r2 :: band2) then
        let behind := (r2 :: band2).drop band1.length
        if toMove behind < 0 then none
        else simplifyFrom (band1.map (fun s => { s with bottom := r2.bottom }) ++
          moveMemory ((r2 :: band2).take band1.length) behind)
      else (simplifyFrom (r2 :: band2)).map (band1 ++ ·)
termination_by rects => rects.length
decreasing_by
  · rw [List.length_append, List.length_map]
    exact Nat.lt_of_le_of_lt (Nat.add_le_add_left (length_moveMemory_le _ _) _) (length_joined_lt h)
  · have := length_dropWhile_lt r rs
    rwa [h] at this

/-- `region16_simplify_bands`; `nbRects` is an `int`. -/
def simplifyBands (rects : List Rect) : Option (List Rect) :=
  if (rects.length : ℤ).bmod (2 ^ 32) < 2 then some rects else simplifyFrom rects

/-! ### `region16_union_rect` -/

/-- What one round of the band walk writes for the current band, where the next band starts, and
`topInterBand`. -/
structure BandStep where
  items : List Rect
  nextBand : List Rect
  topInterBand : ℕ

/-- The first half of the round: the current band is copied, or split and merged with `rect`. -/
def unionBand (rect currentBand : Rect) (src : List Rect) : BandStep :=
  if currentBand.bottom ≤ rect.top ∨ rect.bottom ≤ currentBand.top ∨
      rectangleContainedInBand currentBand src rect then
    let copied := copyBandWithUnion currentBand.top currentBand.top currentBand.bottom none src
    ⟨copied.1, copied.2, rect.top⟩
  else
    let topSplit :=
      if rect.top > currentBand.top then
        (copyBandWithUnion currentBand.top currentBand.top rect.top none src).1
      else []
    let mergeTop := if rect.top > currentBand.top then rect.top else currentBand.top
    let mergeBottom := if rect.bottom < currentBand.bottom then rect.bottom else currentBand.bottom
    let merged := copyBandWithUnion currentBand.top mergeTop mergeBottom (some rect) src
    let bottomSplit := copyBandWithUnion currentBand.top mergeBottom currentBand.bottom none src
    if rect.bottom < currentBand.bottom then
      ⟨topSplit ++ merged.1 ++ bottomSplit.1, bottomSplit.2, currentBand.bottom⟩
    else ⟨topSplit ++ merged.1, merged.2, currentBand.bottom⟩

/-- The second half: a piece of `rect` between the current band and the next one. -/
def interBand (rect currentBand : Rect) (topInterBand : ℕ) (nextBand : List Rect) : List Rect :=
  match nextBand with
  | [] => []
  | next :: _ =>
    if next.top ≠ currentBand.bottom ∧ rect.bottom > currentBand.bottom ∧ rect.top < next.top then
      [⟨rect.left, topInterBand, rect.right, min next.top rect.bottom⟩]
    else []

private theorem dropWhile_dropWhile {p q : Rect → Bool} (h : ∀ r, q r → p r) (src : List Rect) :
    (src.dropWhile q).dropWhile p = src.dropWhile p := by
  induction src with
  | nil => rfl
  | cons r src ih =>
    by_cases hq : q r
    · rw [List.dropWhile_cons_of_pos hq, List.dropWhile_cons_of_pos (h r hq), ih]
    · rw [List.dropWhile_cons_of_neg hq]

private theorem dropWhile_joinOverlap (refY newTop newBottom left : ℕ) (u : Rect)
    (src : List Rect) :
    ((joinOverlap refY newTop newBottom left u src).2.dropWhile fun r => r.top = refY) =
      src.dropWhile fun r => r.top = refY := by
  have hdrop := dropWhile_dropWhile (p := fun r => decide (r.top = refY))
    (q := fun r => decide (r.top = refY ∧ r.right < u.right))
    (fun r hr => decide_eq_true (of_decide_eq_true hr).1) src
  rw [← hdrop, joinOverlap]
  split
  case h_1 heq => rw [heq]
  case h_2 r rest heq =>
    rw [heq]
    split_ifs with hr
    · rw [List.dropWhile_cons_of_pos (by simpa using hr.1)]
    · rfl

/-- Whatever is merged in, the copy ends behind the band. -/
theorem copyBandWithUnion_snd (refY newTop newBottom : ℕ) (unionRect : Option Rect)
    (src : List Rect) :
    (copyBandWithUnion refY newTop newBottom unionRect src).2 =
      src.dropWhile fun r => r.top = refY := by
  cases unionRect with
  | none => rfl
  | some u =>
    rw [copyBandWithUnion]
    dsimp only
    rw [dropWhile_joinOverlap, dropWhile_dropWhile]
    exact fun r hr => decide_eq_true (of_decide_eq_true hr).1

theorem nextBand_unionBand (rect currentBand : Rect) (src : List Rect) :
    (unionBand rect currentBand src).nextBand = src.dropWhile fun r => r.top = currentBand.top := by
  unfold unionBand
  dsimp only
  split_ifs <;> exact copyBandWithUnion_snd _ _ _ _ _

/-- The band walk of `region16_union_rect`, from `currentBand` on. -/
def unionBands (rect : Rect) : List Rect → List Rect
  | [] => []
  | currentBand :: rest =>
    let step := unionBand rect currentBand (currentBand :: rest)
    step.items ++ interBand rect currentBand step.topInterBand step.nextBand ++
      unionBands rect step.nextBand
termination_by src => src.length
decreasing_by
  rw [nextBand_unionBand]
  exact length_dropWhile_lt currentBand rest

/-- The piece of `rect` on the top of `src`. -/
def topPiece (extents rect : Rect) : List Rect :=
  if rect.top < extents.top then
    [⟨rect.left, rect.top, rect.right, min extents.top rect.bottom⟩]
  else []

/-- The piece of `rect` below `src`. -/
def bottomPiece (extents rect : Rect) : List Rect :=
  if extents.bottom < rect.bottom then
    [⟨rect.left, max extents.bottom rect.top, rect.right, rect.bottom⟩]
  else []

/-- The smallest rectangle around two others. -/
def joinExtents (r1 r2 : Rect) : Rect :=
  { top := min r1.top r2.top
    left := min r1.left r2.left
    bottom := max r1.bottom r2.bottom
    right := max r1.right r2.right }

/-- The rectangles that `region16_union_rect` writes through `dstRect`, before they are simplified. -/
def unionRects (src : Region16) (rect : Rect) : List Rect :=
  topPiece src.extents rect ++ unionBands rect src.rects ++ bottomPiece src.extents rect

/-- `usedRects`, before the simplification. -/
def usedRects (src : Region16) (rect : Rect) : ℕ := (unionRects src rect).length

/-- The argument of `allocateRegion` for `newItems`, an `int`. -/
def newItemsLength (src : Region16) : ℤ := ((1 + src.rects.length) * 4 : ℤ).bmod (2 ^ 32)

/-- `region16_union_rect`, if nothing wraps. -/
def unionRect (src : Region16) (rect : Rect) : Region16 :=
  if src.rects = [] then ⟨rect, [rect]⟩
  else ⟨joinExtents rect src.extents, joinBands (unionRects src rect)⟩

/-- `region16_union_rect`; `none` where the `int` that `allocateRegion` is given is negative or too small
for the rectangles that are written. -/
def region16UnionRect (src : Region16) (rect : Rect) : Option Region16 :=
  if src.rects = [] then some ⟨rect, [rect]⟩
  else if newItemsLength src < usedRects src rect then none
  else (simplifyBands (unionRects src rect)).map (⟨joinExtents rect src.extents, ·⟩)

/-! ### The other operations -/

/-- `region16_init` and `region16_clear`. -/
def region16Clear : Region16 := ⟨⟨0, 0, 0, 0⟩, []⟩

def region16Copy (src : Region16) : Region16 := { extents := src.extents, rects := src.rects }

/-- The extents of the intersection, accumulated as in its loop. -/
def growExtents (newExtents common : Rect) : Rect :=
  if rectangleIsEmpty newExtents then common else joinExtents common newExtents

/-- The loop of `region16_intersect_rect`. -/
def intersectRects (rect : Rect) : List Rect → List Rect × Rect → List Rect × Rect
  | [], acc => acc
  | srcPtr :: src, (items, newExtents) =>
    if rect.bottom > srcPtr.top then
      match rectanglesIntersection srcPtr rect with
      | some common => intersectRects rect src (items ++ [common], growExtents newExtents common)
      | none => intersectRects rect src (items, newExtents)
    else (items, newExtents)

/-- `region16_intersect_rect`, if nothing wraps. -/
def intersectRect (src : Region16) (rect : Rect) : Region16 :=
  match src.rects with
  | [] => region16Clear
  | [_] =>
    match rectanglesIntersection src.extents rect with
    | some common => unionRect region16Clear common
    | none => region16Clear
  | rects =>
    let (items, newExtents) := intersectRects rect rects ([], ⟨0, 0, 0, 0⟩)
    { extents := newExtents, rects := joinBands items }

def region16IntersectRect (src : Region16) (rect : Rect) : Option Region16 :=
  match src.rects with
  | [] => some region16Clear
  | [_] =>
    match rectanglesIntersection src.extents rect with
    | some common => region16UnionRect region16Clear common
    | none => some region16Clear
  | rects =>
    let (items, newExtents) := intersectRects rect rects ([], ⟨0, 0, 0, 0⟩)
    (simplifyBands items).map (⟨newExtents, ·⟩)

/-- `region16_intersect_rect` on regions in memory, where `dst` and `src` may be the same one.  The
branch for one rectangle clears `dst` and then joins the common rectangle to it. -/
def region16IntersectRectAt {ι : Type} [DecidableEq ι] (regions : ι → Region16) (dst src : ι)
    (rect : Rect) : Option (ι → Region16) :=
  match (regions src).rects with
  | [] => some (Function.update regions dst region16Clear)
  | [_] =>
    let intersects := rectanglesIntersection (regions src).extents rect
    let cleared := Function.update regions dst region16Clear
    match intersects with
    | some common => (region16UnionRect (cleared dst) common).map (Function.update cleared dst)
    | none => some cleared
  | rects =>
    let (items, newExtents) := intersectRects rect rects ([], ⟨0, 0, 0, 0⟩)
    (simplifyBands items).map fun items => Function.update regions dst ⟨newExtents, items⟩

def rectanglesIntersects (r1 r2 : Rect) : Bool := (rectanglesIntersection r1 r2).isSome

/-- The loop of `region16_intersects_rect`. -/
def intersectsRects (arg2 : Rect) : List Rect → Bool
  | [] => false
  | rect :: rects =>
    if arg2.bottom > rect.top then
      if rectanglesIntersects rect arg2 then true else intersectsRects arg2 rects
    else false

def region16IntersectsRect (src : Region16) (arg2 : Rect) : Bool :=
  match src.rects with
  | [] => false
  | [_] => rectanglesIntersects src.extents arg2
  | rects => if rectanglesIntersects src.extents arg2 then intersectsRects arg2 rects else false

end FreeRDP.Region
