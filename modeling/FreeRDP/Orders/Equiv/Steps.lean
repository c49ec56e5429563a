import FreeRDP.Orders.Primary

/-!
# The steps of the decoders

What each step reads, looks at and assigns to: `Step.width` bytes, the cells of the members in
`Step.reads` and those in `Step.writes`.
-/

namespace FreeRDP.Orders

open Wire Retain

/-- The members that a step looks at, if coordinates are absolute. -/
def Step.reads : Step → List Member
  | colorByte _ _ _ => [.color]
  | cachedBrush => [.brushStyle, .brushHatch]
  | brushRows _ => [.brushHatch]
  | deltaRects _ number => [number]
  | startPoints number => [number]
  | deltaPoints _ _ => [.num]
  | checkCacheId | splitCacheId => [.cacheId]
  | splitRop2 => [.bRop2]
  | _ => []

def Step.writes : Step → List Member
  | coord _ m | byte _ m | uint16 _ m | int16 _ m | uint32 _ m | color _ m => [m]
  | twoBytes _ m₁ m₂ => [m₁, m₂]
  | word _ | checkCacheId => []
  | colorByte _ _ _ => [.color]
  | cachedBrush => [.brushIndex, .brushBpp]
  | brushRows _ => [.brushData, .brushP8x8]
  | deltaRects _ _ => [.cbData, .rectanglesLeft, .rectanglesTop, .rectanglesWidth, .rectanglesHeight]
  | startPoints _ | endPoints => [.num]
  | deltaPoints _ number => [.cbData, number, .pointsX, .pointsY]
  | glyphs _ => [.cbData, .data]
  | glyph _ => [.cbData, .data, .glyphCacheIndex, .glyphX, .glyphY, .glyphCx, .glyphCy, .glyphCb,
      .glyphAj]
  | splitCacheId => [.colorIndex, .cacheId, .bitmap]
  | splitRop2 => [.backMode, .bRop2]

/-- The number of bytes of a field, but for those whose length is in their bytes. -/
def Step.width (delta : Bool) : Step → Option ℕ
  | coord _ _ => some (if delta then 1 else 2)
  | byte _ _ | colorByte _ _ _ => some 1
  | twoBytes _ _ _ | uint16 _ _ | word _ | int16 _ _ => some 2
  | color _ _ => some 3
  | uint32 _ _ => some 4
  | brushRows _ => some 7
  | _ => none

variable {s t : OrderStruct} {delta : Bool} {step : Step} {c : List UInt8} {ms : List Member}

/-! ### Members that are assigned to -/

/-- The reader assigns to cells of the members in `ms` alone. -/
abbrev AssignsTo (ms : List Member) (x : Reader (List (Cell × ℤ))) : Prop :=
  Yields (fun ws => ∀ w ∈ ws, w.1.1 ∈ ms) x

theorem mem_array {m : Member} {l : List ℤ} {w : Cell × ℤ} (h : w ∈ m.array l) : w.1.1 = m := by
  obtain ⟨v, -, rfl⟩ := List.mem_map.mp h
  rfl

theorem assignsTo_readGlyphData (n : ℕ) : AssignsTo
    [.glyphCacheIndex, .glyphX, .glyphY, .glyphCx, .glyphCy, .glyphCb, .glyphAj] (readGlyphData n) := by
  refine Yields.bind fun cacheIndex => ?_
  split
  · refine Yields.bind fun x => Yields.bind fun y => Yields.bind fun cx =>
      Yields.bind fun cy => Yields.bind fun aj => Yields.pure fun w hw => ?_
    obtain hw | hw := List.mem_append.mp hw
    · simp only [List.mem_cons, List.not_mem_nil, or_false] at hw
      rcases hw with rfl | rfl | rfl | rfl | rfl | rfl <;> simp
    · rw [mem_array hw]
      simp
  · exact Yields.pure (by simp)

theorem Step.writes_read (step : Step) (s : OrderStruct) (delta : Bool) :
    AssignsTo step.writes (step.read delta s) := by
  cases step with
  | coord n m => exact Yields.bind fun _ => Yields.pure (by simp [Step.writes])
  | byte n m | uint16 n m | int16 n m | uint32 n m | colorByte n m k =>
    exact Yields.bind fun _ => Yields.bind fun _ => Yields.pure (by simp [Step.writes])
  | color n m => exact Yields.bind fun _ => Yields.pure (by simp [Step.writes])
  | twoBytes n m₁ m₂ =>
    exact Yields.bind fun _ => Yields.bind fun _ => Yields.bind fun _ =>
      Yields.pure (by simp [Step.writes])
  | word n => exact Yields.bind fun _ => Yields.bind fun _ => Yields.pure (by simp)
  | cachedBrush =>
    simp only [Step.read]
    split
    · intro bs ws rest h
      obtain ⟨bpp, -, heq⟩ := Option.map_eq_some_iff.mp h
      obtain ⟨rfl, -⟩ := Prod.mk.inj heq
      simp [Step.writes]
    · exact Yields.pure (by simp)
  | brushRows n =>
    exact Yields.bind fun _ => Yields.bind fun _ => Yields.bind fun _ => Yields.bind
      fun _ => Yields.bind fun _ => Yields.bind fun _ => Yields.bind fun _ =>
      Yields.bind fun _ => Yields.pure (by simp [Step.writes])
  | deltaRects n number =>
    refine Yields.bind fun _ => Yields.bind fun cbData => Yields.bind fun rects =>
      Yields.pure fun w hw => ?_
    simp only [List.mem_cons, List.mem_append] at hw
    rcases hw with rfl | ((hw | hw) | hw) | hw
    · simp [Step.writes]
    all_goals rw [mem_array hw]; simp [Step.writes]
  | deltaPoints n number =>
    refine Yields.bind fun _ => Yields.bind fun _ => Yields.bind fun cbData =>
      Yields.bind fun points => Yields.pure fun w hw => ?_
    simp only [List.mem_cons, List.mem_append] at hw
    rcases hw with rfl | rfl | hw | hw
    · simp [Step.writes]
    · simp [Step.writes]
    all_goals rw [mem_array hw]; simp [Step.writes]
  | glyphs n =>
    refine Yields.bind fun _ => Yields.bind fun cbData => Yields.bind fun _ =>
      Yields.bind fun data => Yields.pure fun w hw => ?_
    obtain rfl | hw := List.mem_cons.mp hw
    · simp [Step.writes]
    · rw [mem_array hw]
      simp [Step.writes]
  | glyph n =>
    refine Yields.bind fun _ => Yields.bind fun cbData => Yields.bind fun data =>
      Yields.bind fun _ => ?_
    intro bs ws rest h
    obtain ⟨⟨glyph, rest'⟩, hglyph, hws⟩ := Option.bind_eq_some_iff.mp h
    obtain ⟨⟨glyph', rest''⟩, hread, heq⟩ := Option.map_eq_some_iff.mp hglyph
    obtain ⟨rfl, rfl⟩ := Prod.mk.inj heq
    obtain ⟨rfl, -⟩ := Prod.mk.inj (Option.some.inj hws)
    intro w hw
    simp only [List.mem_cons, List.mem_append] at hw
    rcases hw with rfl | hw | hw
    · simp [Step.writes]
    · rw [mem_array hw]
      simp [Step.writes]
    · have hmem := assignsTo_readGlyphData cbData data glyph' rest'' hread w hw
      exact List.mem_cons_of_mem _ (List.mem_cons_of_mem _ hmem)
  | startPoints number | endPoints | splitCacheId | splitRop2 =>
    exact Yields.pure (by simp [Step.writes])
  | checkCacheId => exact Yields.bind fun _ => Yields.pure (by simp)

theorem Step.writes_part (step : Step) (delta : Bool) :
    (step.part delta).Writes fun k => k.1 ∈ step.writes :=
  fun s c ws rest h => step.writes_read s delta c ws rest h

/-! ### Members that are looked at -/

theorem Step.read_congr (step : Step) (h : ∀ m ∈ step.reads, s (m, 0) = t (m, 0)) :
    step.read false s = step.read false t := by
  cases step with
  | colorByte n mask shift => simp only [Step.read, h .color (by simp [Step.reads])]
  | cachedBrush =>
    simp only [Step.read, h .brushStyle (by simp [Step.reads]), h .brushHatch (by simp [Step.reads])]
  | brushRows n => simp only [Step.read, h .brushHatch (by simp [Step.reads])]
  | deltaRects n number => simp only [Step.read, h number (by simp [Step.reads])]
  | startPoints number => simp only [Step.read, h number (by simp [Step.reads])]
  | deltaPoints n number =>
    simp only [Step.read]
    rw [h .num (by simp [Step.reads])]
  | checkCacheId =>
    simp only [Step.read]
    rw [h .cacheId (by simp [Step.reads])]
  | splitCacheId => simp only [Step.read, h .cacheId (by simp [Step.reads])]
  | splitRop2 => simp only [Step.read, h .bRop2 (by simp [Step.reads])]
  | coord n m => rfl
  | _ => rfl

/-- A step does not look at other members. -/
theorem Step.ignores_part (step : Step) {X : Cell → Prop} (hX : ∀ m ∈ step.reads, ¬ X (m, 0)) :
    (step.part false).Ignores X :=
  fun _ _ h => step.read_congr fun m hm => h (m, 0) (hX m hm)

/-! ### Bytes that are read -/

theorem takes_updateReadCoord (v : ℤ) (delta : Bool) :
    Takes (if delta then 1 else 2) (updateReadCoord v delta) := by
  cases delta
  · exact Takes.need (Takes.u16le.map _)
  · exact Takes.need (Takes.u8.map _)

theorem Step.takes_read {n : ℕ} (hn : step.width delta = some n) (s : OrderStruct) :
    Takes n (step.read delta s) := by
  cases step with
  | coord m =>
    obtain rfl := Option.some.inj hn
    exact (takes_updateReadCoord _ _).map _
  | byte m | colorByte m mask shift =>
    obtain rfl := Option.some.inj hn
    exact Takes.need (Takes.u8.map _)
  | twoBytes m₁ m₂ =>
    obtain rfl := Option.some.inj hn
    exact Takes.need (Takes.u8.bind fun _ => Takes.u8.map _)
  | uint16 m | word | int16 m =>
    obtain rfl := Option.some.inj hn
    exact Takes.need (Takes.u16le.map _)
  | uint32 m =>
    obtain rfl := Option.some.inj hn
    exact Takes.need (Takes.u32le.map _)
  | color m =>
    obtain rfl := Option.some.inj hn
    exact (Takes.need (Takes.u8.bind fun _ => Takes.u8.bind fun _ => Takes.u8.map _)).map _
  | brushRows =>
    obtain rfl := Option.some.inj hn
    exact Takes.need (Takes.u8.bind fun _ => Takes.u8.bind fun _ => Takes.u8.bind fun _ =>
      Takes.u8.bind fun _ => Takes.u8.bind fun _ => Takes.u8.bind fun _ => Takes.u8.map _)
  | _ => exact nomatch hn

theorem Step.exact_part {n : ℕ} (hn : step.width delta = some n) (hc : c.length = n) :
    (step.part delta).Exact c :=
  Part.exact_of_takes (fun s => Step.takes_read hn s) hc

theorem Step.exact_of_none (hstep : step.field = none) : (step.part delta).Exact [] := by
  intro s
  cases step with
  | cachedBrush =>
    by_cases hcached : (s (.brushStyle, 0)).toNat &&& CACHED_BRUSH ≠ 0
    · refine ⟨(getBmfBpp (s (.brushStyle, 0)).toNat).map fun bpp =>
        [((.brushIndex, 0), s (.brushHatch, 0)),
          ((.brushBpp, 0), ((if bpp = 0 then 1 else bpp : ℕ) : ℤ))], fun rest => ?_⟩
      simp only [Step.part, Step.read, if_pos hcached, Option.map_map]
      rfl
    · refine ⟨some [], fun rest => ?_⟩
      simp only [Step.part, Step.read, if_neg hcached]
      rfl
  | checkCacheId =>
    by_cases hcheck : ¬ s (.cacheId, 0) > 9
    · refine ⟨some [], fun rest => ?_⟩
      have hread : (Step.checkCacheId.part delta).read s ([] ++ rest) =
          (check (¬ s (.cacheId, 0) > 9) rest).bind fun r => some ([], r.2) := rfl
      rw [hread, check, if_pos hcheck]
      rfl
    · refine ⟨none, fun rest => ?_⟩
      have hread : (Step.checkCacheId.part delta).read s ([] ++ rest) =
          (check (¬ s (.cacheId, 0) > 9) rest).bind fun r => some ([], r.2) := rfl
      rw [hread, check, if_neg hcheck]
      rfl
  | startPoints number | endPoints | splitCacheId | splitRop2 => exact ⟨some _, fun rest => rfl⟩
  | _ => exact absurd hstep (Option.some_ne_none _)

theorem extends_updateReadDelta : Extends updateReadDelta :=
  (Extends.need 1).bind fun _ => Extends.u8.bind fun _ =>
    ((Extends.need 1).bind fun _ => Extends.u8.bind fun _ => Extends.pure _).ite (Extends.pure _)

theorem extends_readDeltaRects (zeroBits : List UInt8) (i n : ℕ) (last : DeltaRect) :
    Extends (readDeltaRects zeroBits i last n) := by
  induction n generalizing i last with
  | zero => exact Extends.pure []
  | succ n ih =>
    exact (extends_updateReadDelta.ite (Extends.pure _)).bind fun _ =>
      (extends_updateReadDelta.ite (Extends.pure _)).bind fun _ =>
      (extends_updateReadDelta.ite (Extends.pure _)).bind fun _ =>
      (extends_updateReadDelta.ite (Extends.pure _)).bind fun _ =>
      (ih _ _).bind fun _ => Extends.pure _

theorem extends_readDeltaPoints (zeroBits : List UInt8) (i n : ℕ) :
    Extends (readDeltaPoints zeroBits i n) := by
  induction n generalizing i with
  | zero => exact Extends.pure []
  | succ n ih =>
    exact (extends_updateReadDelta.ite (Extends.pure _)).bind fun _ =>
      (extends_updateReadDelta.ite (Extends.pure _)).bind fun _ =>
      (ih _).bind fun _ => Extends.pure _

theorem Step.extends_part (hfield : step.field ≠ none) (hwidth : step.width delta = none) :
    (step.part delta).Extends := by
  intro s
  cases step with
  | deltaRects n number =>
    exact (Extends.need 2).bind fun _ => Extends.u16le.bind fun _ =>
      ((Extends.check _).bind fun _ => (Extends.need _).bind fun _ => (Extends.bytes _).bind fun _ =>
        extends_readDeltaRects _ _ _ _).bind fun _ => Extends.pure _
  | deltaPoints n number =>
    exact (Extends.check _).bind fun _ => (Extends.need 1).bind fun _ => Extends.u8.bind fun _ =>
      ((Extends.need _).bind fun _ => (Extends.bytes _).bind fun _ =>
        extends_readDeltaPoints _ _ _).bind fun _ => Extends.pure _
  | glyphs n =>
    exact (Extends.need 1).bind fun _ => Extends.u8.bind fun _ => (Extends.need _).bind fun _ =>
      (Extends.bytes _).bind fun _ => Extends.pure _
  | glyph n =>
    refine (Extends.need 1).bind fun _ => Extends.u8.bind fun _ => (Extends.bytes _).bind fun data =>
      (Extends.check _).bind fun _ => Extends.bind ?_ fun _ => Extends.pure _
    intro bs glyph rest more h
    obtain ⟨r, hread, heq⟩ := Option.map_eq_some_iff.mp h
    obtain ⟨rfl, rfl⟩ := Prod.mk.inj heq
    rw [hread]
    rfl
  | cachedBrush | startPoints _ | endPoints | checkCacheId | splitCacheId | splitRop2 =>
    exact absurd rfl hfield
  | _ => exact nomatch hwidth

end FreeRDP.Orders
