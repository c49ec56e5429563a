import FreeRDP.Orders.Equiv.Messages

/-!
# Behind the steps of an order

What the steps of an order leave of a structure: the fields that they keep, and the value of a member
that one of them alone assigns to.
-/

namespace FreeRDP.Orders

open Wire Retain

/-- The structure behind the steps `qs` of an order. -/
def behind (delta : Bool) (has : ℕ → Bool) (field : ℕ → List UInt8) (qs : List Step)
    (s : OrderStruct) : Option OrderStruct :=
  decodeFields has field (qs.map (Step.part delta)) s

def byteValue : List UInt8 → ℕ
  | [b] => b.toNat
  | _ => 0

/-- The number in the two bytes of a field. -/
def wordValue : List UInt8 → ℕ
  | [a, b] => a.toNat + 2 ^ 8 * b.toNat
  | _ => 0

/-- The value of the member `m` behind the byte field `n`. -/
def byteBehind (has : ℕ → Bool) (field : ℕ → List UInt8) (s : OrderStruct) (n : ℕ) (m : Member) : ℤ :=
  if has n then byteValue (field n) else s (m, 0)

/-- `step` is one of the steps, and the only one that assigns to `m`. -/
def assignsAlone (step : Step) (m : Member) (qs : List Step) : Bool :=
  decide (step ∈ qs) && qs.all fun q => q == step || m ∉ q.writes

variable {delta : Bool} {has : ℕ → Bool} {field : ℕ → List UInt8} {qs qs' : List Step}
  {s s' : OrderStruct} {step : Step} {c : List UInt8} {m : Member} {n i : ℕ} {v : ℤ}

theorem behind_append :
    behind delta has field (qs ++ qs') s =
      (behind delta has field qs s).bind (behind delta has field qs') := by
  rw [behind, List.map_append, decodeFields_append]
  rfl

theorem behind_cons :
    behind delta has field (step :: qs) s =
      (if step.field.all has then
          (step.part delta).take ((step.part delta).chunk field) s
        else some s).bind (behind delta has field qs) := rfl

theorem behind_cons_of_none (h : step.field = none) :
    behind delta has field (step :: qs) s =
      ((step.part delta).take [] s).bind (behind delta has field qs) := by
  have hchunk : (step.part delta).chunk field = [] := by
    rw [Part.chunk, Step.part, h]
    rfl
  rw [behind_cons, hchunk, h]
  rfl

theorem chunk_part (h : step.field = some n) : (step.part delta).chunk field = field n := by
  rw [Part.chunk, Step.part, h]
  rfl

theorem behind_cons_of_some (h : step.field = some n) :
    behind delta has field (step :: qs) s =
      (if has n then (step.part delta).take (field n) s else some s).bind
        (behind delta has field qs) := by
  rw [behind_cons, chunk_part h, h]
  rfl

theorem behind_keeps {Q : OrderStruct → Prop}
    (h : ∀ q ∈ qs, q.field.all has = true →
      ∀ s s', (q.part delta).take ((q.part delta).chunk field) s = some s' → Q s → Q s')
    (hs : Q s) (hbehind : behind delta has field qs s = some s') : Q s' := by
  refine decodeFields_keeps (fun p hp hhas => ?_) hs hbehind
  obtain ⟨q, hq, rfl⟩ := List.mem_map.mp hp
  exact h q hq hhas

/-- A member that no step assigns to. -/
theorem behind_frame (h : ∀ q ∈ qs, m ∉ q.writes)
    (hbehind : behind delta has field qs s = some s') : s' (m, i) = s (m, i) := by
  refine behind_keeps (Q := fun s' => s' (m, i) = s (m, i)) (fun q hq _ s₁ s₂ htake hs => ?_) rfl
    hbehind
  rw [← hs]
  exact (q.writes_part delta).frame htake (h q hq)

theorem HeldAt.behind (h : HeldAt step v c s) (hfield : step.field ≠ none)
    (hapart : ∀ q ∈ qs, q.apart step = true) (hbehind : behind delta has field qs s = some s') :
    HeldAt step v c s' :=
  behind_keeps (fun q hq _ _ _ htake hs => hs.keep hfield (hapart q hq) htake) h hbehind

/-- The value of a member that one step alone assigns to. -/
theorem value_behind {f : List UInt8 → ℤ}
    (hstep : ∀ c s s', (step.part delta).take c s = some s' → s' (m, 0) = f c)
    (hfield : step.field = some n) (halone : assignsAlone step m qs = true)
    (hbehind : behind delta has field qs s = some s') :
    s' (m, 0) = if has n then f (field n) else s (m, 0) := by
  obtain ⟨hmem, hothers⟩ := Bool.and_eq_true_iff.mp halone
  have hothers (q : Step) (hq : q ∈ qs) : q = step ∨ m ∉ q.writes := by
    simpa using List.all_eq_true.mp hothers q hq
  have hframe {q : Step} {c : List UInt8} {s₁ s₂ : OrderStruct}
      (htake : (q.part delta).take c s₁ = some s₂) (hm : m ∉ q.writes) : s₂ (m, 0) = s₁ (m, 0) :=
    (q.writes_part delta).frame htake hm
  by_cases hhas : has n = true
  · rw [if_pos hhas]
    obtain ⟨pre, post, rfl⟩ := List.append_of_mem (of_decide_eq_true hmem)
    rw [behind_append, Option.bind_eq_some_iff] at hbehind
    obtain ⟨s₁, -, hrest⟩ := hbehind
    rw [behind_cons_of_some hfield, if_pos hhas, Option.bind_eq_some_iff] at hrest
    obtain ⟨s₂, htake, hpost⟩ := hrest
    refine behind_keeps (Q := fun s => s (m, 0) = f (field n)) (fun q hq _ s₃ s₄ hq' hs => ?_)
      (hstep _ _ _ htake) hpost
    obtain rfl | hm := hothers q (List.mem_append_right _ (List.mem_cons_of_mem _ hq))
    · rw [chunk_part hfield] at hq'
      exact hstep _ _ _ hq'
    · rw [hframe hq' hm, hs]
  · rw [if_neg hhas]
    refine behind_keeps (Q := fun s' => s' (m, 0) = s (m, 0)) (fun q hq hall s₁ s₂ htake hs => ?_)
      rfl hbehind
    obtain rfl | hm := hothers q hq
    · rw [hfield, Option.all_some] at hall
      exact absurd hall hhas
    · rw [hframe htake hm, hs]

theorem byteBehind_eq (halone : assignsAlone (.byte n m) m qs = true)
    (hbehind : behind delta has field qs s = some s') : s' (m, 0) = byteBehind has field s n m := by
  refine value_behind (f := fun c => byteValue c) (fun c s s' htake => ?_) rfl halone hbehind
  obtain ⟨b, rfl, rfl⟩ := take_byte htake
  exact Function.update_self _ _ _

theorem wordBehind_eq (halone : assignsAlone (.uint16 n m) m qs = true)
    (hbehind : behind delta has field qs s = some s') :
    s' (m, 0) = if has n then (wordValue (field n) : ℤ) else s (m, 0) := by
  refine value_behind (f := fun c => wordValue c) (fun c s s' htake => ?_) rfl halone hbehind
  obtain _ | ⟨a, _ | ⟨b, _ | ⟨b', c⟩⟩⟩ := c
  · exact nomatch htake
  · exact nomatch htake
  · rw [← Option.some.inj htake]
    exact Function.update_self _ _ _
  · exact nomatch htake

end FreeRDP.Orders

/-!
## The decoders side by side

What the decoders of the 22 types of orders have in common, and where they differ: the steps that split
what a field has given, and those whose meaning depends on another field.
-/

namespace FreeRDP.Orders

open Wire Retain

/-- The steps at the end of a decoder that put elsewhere what has been read. -/
def OrderType.finish : OrderType → List Step
  | polyline | polygonSc => [.endPoints]
  | polygonCb => [.splitRop2, .endPoints]
  | _ => []

/-- The steps in front of these. -/
def OrderType.body (t : OrderType) : List Step :=
  t.decoder.take (t.decoder.length - t.finish.length)

/-- The steps whose fields other steps change in the structure. -/
def OrderType.special : OrderType → List Step
  | polyline | polygonSc => [.byte 6 .num]
  | polygonCb => [.byte 12 .num, .byte 3 .bRop2]
  | memblt | mem3blt => [.uint16 1 .cacheId]
  | _ => []

/-- The step reads a number of points. -/
def Step.isCount : Step → Bool
  | byte _ .num => true
  | _ => false

def Step.isPoints : Step → Bool
  | deltaPoints _ _ => true
  | _ => false

/-- The ways to take an element out of a list, with what is in front of it and behind it. -/
def splits {α : Type} : List α → List (List α × α × List α)
  | [] => []
  | a :: l => ([], a, l) :: (splits l).map fun r => (a :: r.1, r.2)

theorem mem_splits {α : Type} (pre : List α) (a : α) (post : List α) :
    (pre, a, post) ∈ splits (pre ++ a :: post) := by
  induction pre with
  | nil => exact List.mem_cons_self
  | cons b pre ih => exact List.mem_cons_of_mem _ (List.mem_map.mpr ⟨_, ih, rfl⟩)

theorem body_append_finish (t : OrderType) : t.body ++ t.finish = t.decoder := by
  cases t <;> rfl

/-! ### Steps with a field -/

/-- With the special ones aside, a step is the only one that assigns to its members. -/
theorem apart_or_special (t : OrderType) : ∀ r ∈ splits t.decoder,
    r.2.1.field = none ∨ r.2.1 ∈ t.special ∨ ∀ q ∈ r.1 ++ r.2.2, q.apart r.2.1 = true := by
  cases t <;> decide

theorem stable_of_mem (t : OrderType) :
    ∀ step ∈ t.decoder, step.field = none ∨ step.stable = true := by
  cases t <;> decide

theorem mem_special (t : OrderType) : ∀ step ∈ t.special, step.isCount = true ∨
    step = .uint16 1 .cacheId ∧ .splitCacheId ∈ t.decoder ∨
    step = .byte 3 .bRop2 ∧ .splitRop2 ∈ t.decoder := by
  cases t <;> decide

/-- Where the value comes from that the meaning of a field depends on. -/
def Step.fed (pre post : List Step) : Step → Bool
  | brushRows n => assignsAlone (.byte (n - 1) .brushHatch) .brushHatch pre
  | deltaRects n number => assignsAlone (.byte (n - 1) number) number pre &&
      post.all fun q => number ∉ q.writes
  | deltaPoints n number => pre.head? == some (.startPoints number) &&
      assignsAlone (.byte (n - 1) .num) .num pre.tail
  | _ => true

theorem fed_of_mem (t : OrderType) :
    ∀ r ∈ splits t.decoder, r.2.1.fed r.1 r.2.2 = true := by
  cases t <;> decide

/-- The number of points is in front of the points, and nothing else reads it. -/
def Step.counts (pre post : List Step) : Step → Bool
  | byte n .num =>
    match pre, post with
    | startPoints number :: pre, deltaPoints n' number' :: post =>
      n' == n + 1 && number' == number && pre.all (fun q => .num ∉ q.writes) &&
        (pre ++ post).all fun q => !q.isPoints
    | _, _ => false
  | _ => true

theorem counts_of_mem (t : OrderType) :
    ∀ r ∈ splits t.decoder, r.2.1.counts r.1 r.2.2 = true := by
  cases t <;> decide

/-! ### Steps that split a field -/

theorem splitCacheId_mem (t : OrderType) (h : .splitCacheId ∈ t.decoder) :
    t.decoder = t.decoder.dropLast ++ [.splitCacheId] ∧
      assignsAlone (.uint16 1 .cacheId) .cacheId t.decoder.dropLast = true := by
  revert h
  cases t <;> decide

theorem cacheId_first (t : OrderType) :
    ∀ r ∈ splits t.decoder, r.2.1 = .uint16 1 .cacheId → r.1 = [] := by
  cases t <;> decide

theorem splitRop2_mem (t : OrderType) (h : .splitRop2 ∈ t.decoder) :
    t.finish = [.splitRop2, .endPoints] ∧
      assignsAlone (.byte 3 .bRop2) .bRop2 t.body = true ∧
      .bRop2 ∉ t.body.flatMap Step.reads := by
  revert h
  cases t <;> decide

theorem finish_cases (t : OrderType) :
    t.finish = [] ∧ .splitRop2 ∉ t.decoder ∧ .endPoints ∉ t.decoder ∨
      t.finish = [.endPoints] ∧ .splitRop2 ∉ t.decoder ∨
      t.finish = [.splitRop2, .endPoints] ∧ .splitRop2 ∈ t.decoder := by
  cases t <;> decide

theorem endPoints_mem (t : OrderType) :
    ∀ step ∈ t.decoder, step.isPoints = true → .endPoints ∈ t.decoder := by
  cases t <;> decide

theorem mem_reads_body (t : OrderType) :
    ∀ step ∈ t.body, .num ∈ step.reads → step.isPoints = true := by
  cases t <;> decide

end FreeRDP.Orders
