import FreeRDP.Orders.Equiv.Steps
import Mathlib.Data.List.Nodup

/-!
# Fields that a structure holds

`HeldAt step v c s`: to read the field `c` once more changes nothing in `s`, if the member that the
meaning of the field depends on is `v`.  A step keeps this for the fields of other steps, and what it
reads is held behind it.
-/

namespace FreeRDP.Orders

open Wire Retain

variable {s s' t t' : OrderStruct} {delta : Bool} {step q : Step} {c c' : List UInt8} {v : ℤ}

/-- The member that the meaning of a field depends on, and the cell that has kept its value since the
field has been read. -/
def Step.link : Step → Option (Member × Cell)
  | brushRows _ => some (.brushHatch, (.brushP8x8, 0))
  | deltaRects _ number => some (number, (number, 0))
  | deltaPoints _ number => some (.num, (number, 0))
  | _ => none

/-- The structure with `v` in the member that the meaning of the field depends on. -/
def Step.relink (step : Step) (v : ℤ) (s : OrderStruct) : OrderStruct :=
  match step.link with
  | some (m, _) => Function.update s (m, 0) v
  | none => s

/-- The value of that member when the field has been read. -/
def Step.anchor (step : Step) (s : OrderStruct) : ℤ :=
  match step.link with
  | some (_, k) => s k
  | none => 0

/-- To read `c` once more changes nothing, if the member that its meaning depends on is `v`. -/
def HeldAt (step : Step) (v : ℤ) (c : List UInt8) (s : OrderStruct) : Prop :=
  (step.part false).Absorbs c (step.relink v s)

theorem relink_of_eq (h : ∀ m k, step.link = some (m, k) → s (m, 0) = v) : step.relink v s = s := by
  unfold Step.relink
  cases hlink : step.link with
  | some r =>
    dsimp only
    rw [← h r.1 r.2 hlink, Function.update_eq_self]
  | none => rfl

theorem relink_of_none (h : step.link = none) : step.relink v s = s :=
  relink_of_eq fun _ _ hlink => nomatch h.symm.trans hlink

theorem relink_of_ne {k : Cell} (h : ∀ m k', step.link = some (m, k') → k ≠ (m, 0)) :
    step.relink v s k = s k := by
  unfold Step.relink
  cases hlink : step.link with
  | some r => exact Function.update_of_ne (h r.1 r.2 hlink) _ _
  | none => rfl

theorem relink_self {m : Member} {k : Cell} (h : step.link = some (m, k)) :
    step.relink v s (m, 0) = v := by
  unfold Step.relink
  rw [h]
  exact Function.update_self _ _ _

/-- A step with a field looks at the member that its meaning depends on and at those that it assigns
to, at most. -/
theorem mem_reads {m : Member} (hfield : step.field ≠ none) (hm : m ∈ step.reads) :
    (∃ k, step.link = some (m, k)) ∨ m ∈ step.writes := by
  cases step with
  | colorByte _ _ _ => exact Or.inr hm
  | brushRows _ | deltaRects _ _ | deltaPoints _ _ =>
    obtain rfl := List.mem_singleton.mp hm
    exact Or.inl ⟨_, rfl⟩
  | cachedBrush | startPoints _ | checkCacheId | splitCacheId | splitRop2 => exact absurd rfl hfield
  | _ => exact nomatch hm

/-- Whether a field is held depends on the members that its step assigns to. -/
theorem HeldAt.congr (h : HeldAt step v c s) (hfield : step.field ≠ none)
    (heq : ∀ k : Cell, k.1 ∈ step.writes → s k = t k) : HeldAt step v c t := by
  have hrelink (k : Cell) (hk : k.1 ∈ step.writes ∨ ∃ m k', step.link = some (m, k') ∧ k = (m, 0)) :
      step.relink v s k = step.relink v t k := by
    by_cases hlink : ∃ m k', step.link = some (m, k') ∧ k = (m, 0)
    · obtain ⟨m, k', hlink, rfl⟩ := hlink
      rw [relink_self hlink, relink_self hlink]
    · have hne : ∀ m k', step.link = some (m, k') → k ≠ (m, 0) :=
        fun m k' hmk heq => hlink ⟨m, k', hmk, heq⟩
      rw [relink_of_ne hne, relink_of_ne hne]
      exact heq k (hk.resolve_right hlink)
  refine Part.Absorbs.congr (X := fun k => ¬ (k.1 ∈ step.reads ∧ k.2 = 0)) h
    (step.writes_part false) (step.ignores_part fun m hm => not_not.mpr ⟨hm, rfl⟩) ?_
  rintro ⟨m, i⟩ (hk | hk)
  · exact hrelink _ (Or.inl hk)
  · obtain ⟨hm, rfl⟩ : m ∈ step.reads ∧ i = 0 := not_not.mp hk
    obtain ⟨k', hlink⟩ | hwrites := mem_reads hfield hm
    · exact hrelink _ (Or.inr ⟨m, k', hlink, rfl⟩)
    · exact hrelink _ (Or.inl hwrites)

/-! ### The bytes of a color -/

/-- The masks of the bytes of a color, and where the bytes are. -/
def colorBytes : List (ℕ × ℕ) := [(0x00FFFF00, 0), (0x00FF00FF, 8), (0x0000FFFF, 16)]

theorem shift_of_mem {mask shift : ℕ} (h : (mask, shift) ∈ colorBytes) :
    shift = 0 ∨ shift = 8 ∨ shift = 16 := by
  simp only [colorBytes, List.mem_cons, Prod.mk.injEq, List.not_mem_nil, or_false] at h
  omega

theorem testBit_mask {mask shift : ℕ} (h : (mask, shift) ∈ colorBytes) (i : ℕ) :
    mask.testBit i = decide (i < 24 ∧ ¬ (shift ≤ i ∧ i < shift + 8)) := by
  by_cases hi : i < 24
  · have hall : ∀ r ∈ colorBytes, ∀ i < 24,
        r.1.testBit i = decide (i < 24 ∧ ¬ (r.2 ≤ i ∧ i < r.2 + 8)) := by decide
    exact hall _ h i hi
  · have hlt : mask < 2 ^ 24 := by
      have hall : ∀ r ∈ colorBytes, r.1 < 2 ^ 24 := by decide
      exact hall _ h
    rw [Nat.testBit_eq_false_of_lt (hlt.trans_le (Nat.pow_le_pow_right (by decide) (by omega)))]
    simp [hi]

theorem testBit_byte {b shift : ℕ} (hb : b < 2 ^ 8) {i : ℕ} (hi : ¬ (shift ≤ i ∧ i < shift + 8)) :
    (b <<< shift).testBit i = false := by
  rw [Nat.testBit_shiftLeft]
  by_cases hle : shift ≤ i
  · have hlt : b < 2 ^ (i - shift) := hb.trans_le (Nat.pow_le_pow_right (by decide) (by omega))
    rw [Nat.testBit_eq_false_of_lt hlt, Bool.and_false]
  · rw [decide_eq_false (by omega), Bool.false_and]

theorem color_byte_keep {mask shift mask' shift' color b b' : ℕ} (h : (mask, shift) ∈ colorBytes)
    (h' : (mask', shift') ∈ colorBytes) (hne : shift ≠ shift') (hb : b < 2 ^ 8) (hb' : b' < 2 ^ 8)
    (hcolor : color &&& mask ||| b <<< shift = color) :
    (color &&& mask' ||| b' <<< shift') &&& mask ||| b <<< shift =
      color &&& mask' ||| b' <<< shift' := by
  have hshift := shift_of_mem h
  have hshift' := shift_of_mem h'
  refine Nat.eq_of_testBit_eq fun i => ?_
  have hbit := congrArg (Nat.testBit · i) hcolor
  simp only [Nat.testBit_or, Nat.testBit_and, testBit_mask h, testBit_mask h'] at hbit ⊢
  by_cases hin : shift ≤ i ∧ i < shift + 8
  · -- a bit of the byte that is held
    have hout : ¬ (shift' ≤ i ∧ i < shift' + 8) := by omega
    have hlt : i < 24 := by omega
    simpa [hin, hout, hlt, testBit_byte hb' hout] using hbit
  · by_cases hlt : i < 24
    · simp [hin, hlt, testBit_byte hb hin]
    · have hout : ¬ (shift' ≤ i ∧ i < shift' + 8) := by omega
      simp [hlt, testBit_byte hb hin, testBit_byte hb' hout]

theorem color_byte_twice (color mask b : ℕ) :
    (color &&& mask ||| b) &&& mask ||| b = color &&& mask ||| b := by
  refine Nat.eq_of_testBit_eq fun i => ?_
  simp only [Nat.testBit_or, Nat.testBit_and]
  cases color.testBit i <;> cases mask.testBit i <;> cases b.testBit i <;> rfl

theorem take_colorByte {n mask shift : ℕ}
    (h : ((Step.colorByte n mask shift).part delta).take c s = some s') : ∃ b : UInt8, c = [b] ∧
      s' = Function.update s (.color, 0)
        ((s (.color, 0)).toNat &&& mask ||| b.toNat <<< shift : ℕ) := by
  obtain _ | ⟨b, _ | ⟨b', c⟩⟩ := c
  · exact nomatch h
  · exact ⟨b, rfl, (Option.some.inj h).symm⟩
  · exact nomatch h

theorem take_byte {n : ℕ} {m : Member} (h : ((Step.byte n m).part delta).take c s = some s') :
    ∃ b : UInt8, c = [b] ∧ s' = Function.update s (m, 0) (b.toNat : ℤ) := by
  obtain _ | ⟨b, _ | ⟨b', c⟩⟩ := c
  · exact nomatch h
  · exact ⟨b, rfl, (Option.some.inj h).symm⟩
  · exact nomatch h

theorem absorbs_colorByte {n mask shift : ℕ} {b : UInt8}
    (h : s (.color, 0) = ((s (.color, 0)).toNat &&& mask ||| b.toNat <<< shift : ℕ)) :
    ((Step.colorByte n mask shift).part delta).Absorbs [b] s := by
  refine congrArg some ?_
  rw [write_cons, write_nil, ← h, Function.update_eq_self]

/-! ### What keeps a field -/

/-- The steps assign to different members, or to different bytes of a color. -/
def Step.apart : Step → Step → Bool
  | colorByte _ mask shift, colorByte _ mask' shift' =>
    (mask, shift) ∈ colorBytes && (mask', shift') ∈ colorBytes && shift ≠ shift'
  | a, b => a.writes.all fun m => m ∉ b.writes

/-- A field is held behind a step that assigns to other members. -/
theorem HeldAt.keep (h : HeldAt step v c s) (hfield : step.field ≠ none)
    (hapart : q.apart step = true) (htake : (q.part delta).take c' s = some s') :
    HeldAt step v c s' := by
  unfold Step.apart at hapart
  split at hapart
  · -- two bytes of a color
    rw [HeldAt, relink_of_none rfl] at h ⊢
    obtain ⟨b', -, rfl⟩ := take_colorByte htake
    obtain ⟨b, rfl, hsame⟩ := take_colorByte h
    simp only [Bool.and_eq_true, decide_eq_true_eq] at hapart
    obtain ⟨⟨hmask', hmask⟩, hne⟩ := hapart
    have hcolor := congrFun hsame (.color, 0)
    rw [Function.update_self] at hcolor
    have hnat := congrArg Int.toNat hcolor
    rw [Int.toNat_natCast] at hnat
    have hkeep := color_byte_keep hmask hmask' hne.symm b.toNat_lt b'.toNat_lt hnat.symm
    exact absorbs_colorByte (by rw [Function.update_self, Int.toNat_natCast, hkeep])
  · refine h.congr hfield fun k hk => Eq.symm ?_
    refine (q.writes_part delta).frame htake fun hq => ?_
    have hnot := List.all_eq_true.mp hapart k.1 hq
    exact absurd hk (of_decide_eq_true hnot)

/-! ### Fields that have been read -/

/-- The step does not look at what it assigns to, but for the other bytes of a color. -/
def Step.stable : Step → Bool
  | colorByte _ _ _ => true
  | step => step.writes.Nodup && step.reads.all fun m => m ∉ step.writes

/-- The bytes of an absolute coordinate with the value `v`. -/
def coordBytes (v : ℤ) : List UInt8 := le16 (v % 2 ^ 16).toNat

/-- The bytes that give the value that `c` has given: those of the coordinate if it is relative. -/
def Step.resend (delta : Bool) (s' : OrderStruct) (c : List UInt8) : Step → List UInt8
  | coord _ m => if delta then coordBytes (s' (m, 0)) else c
  | _ => c

/-- A coordinate that fits its two bytes. -/
def Step.Fits (s : OrderStruct) : Step → Prop
  | coord _ m => -2 ^ 15 ≤ s (m, 0) ∧ s (m, 0) < 2 ^ 15
  | _ => True

theorem signed_emod {v : ℤ} (hlow : -2 ^ 15 ≤ v) (hhigh : v < 2 ^ 15) :
    signed 16 (v % 2 ^ 16).toNat = v := by
  have hmod : ((v % 2 ^ 16).toNat : ℤ) = v % 2 ^ 16 := Int.toNat_of_nonneg (by omega)
  rw [signed, hmod, Int.bmod_def]
  push_cast
  split <;> omega

theorem absorbs_coordBytes {n : ℕ} {m : Member} (h : (Step.coord n m).Fits s) :
    ((Step.coord n m).part false).Absorbs (coordBytes (s (m, 0))) s := by
  have hlt : (s (m, 0) % 2 ^ 16).toNat < 2 ^ 16 := by omega
  have hreads : Reads ((Step.coord n m).read false s) (coordBytes (s (m, 0)))
      [((m, 0), signed 16 (s (m, 0) % 2 ^ 16).toNat)] :=
    Reads.map (Reads.need (x := fun _ => u16le >>= fun w => pure (signed 16 w)) le_rfl
      ((Reads.u16le hlt).map rfl)) rfl
  rw [Part.Absorbs, Part.take_of_reads (p := (Step.coord n m).part false) hreads, write_cons,
    write_nil, signed_emod h.1 h.2, Function.update_eq_self]

/-- With coordinates aside, relative or absolute makes no difference. -/
theorem read_of_ne_coord (h : ∀ n m, step ≠ .coord n m) :
    step.read delta s = step.read false s := by
  cases step with
  | coord n m => exact absurd rfl (h n m)
  | _ => rfl

/-- Behind a field, the member that its meaning depends on is still what it has been. -/
theorem link_of_take {m : Member} {k : Cell} (hstable : step.stable = true)
    (hlink : step.link = some (m, k)) (htake : (step.part false).take c s = some s') :
    s' (m, 0) = s' k := by
  have hframe {m : Member} (hm : m ∉ step.writes) : s' (m, 0) = s (m, 0) :=
    (step.writes_part false).frame htake hm
  obtain ⟨ws, hread, hwrite⟩ := Part.take_eq_some.mp htake
  cases step with
  | brushRows n =>
    obtain ⟨rfl, rfl⟩ := Prod.mk.inj (Option.some.inj hlink)
    rw [hframe (by simp [Step.writes])]
    -- the hatch is assigned last
    have hlast : Yields (fun ws => ∃ l, ws = l ++ [((.brushP8x8, 0), s (.brushHatch, 0))])
        ((Step.brushRows n).read false s) :=
      Yields.bind fun _ => Yields.bind fun _ => Yields.bind fun _ => Yields.bind fun _ =>
        Yields.bind fun _ => Yields.bind fun _ => Yields.bind fun _ => Yields.bind fun _ =>
        Yields.pure ⟨[_, _, _, _, _, _, _, _], rfl⟩
    obtain ⟨l, rfl⟩ := hlast _ _ _ hread
    rw [← hwrite, write_append, write_cons, write_nil, Function.update_self]
  | deltaRects n number =>
    obtain ⟨rfl, rfl⟩ := Prod.mk.inj (Option.some.inj hlink)
    rfl
  | deltaPoints n number =>
    obtain ⟨rfl, rfl⟩ := Prod.mk.inj (Option.some.inj hlink)
    obtain ⟨hnodup, hnum⟩ := Bool.and_eq_true_iff.mp hstable
    simp only [Step.writes, List.nodup_cons, decide_eq_true_eq, List.mem_cons, not_or] at hnodup
    rw [hframe (by simpa [Step.reads] using hnum)]
    have hcount : Yields (fun ws => ∃ (cbData : ℤ) (xs ys : List ℤ), ws = ((.cbData, 0), cbData) ::
        ((number, 0), s (.num, 0)) :: (Member.array .pointsX xs ++ Member.array .pointsY ys))
        ((Step.deltaPoints n number).read false s) :=
      Yields.bind fun _ => Yields.bind fun _ => Yields.bind fun _ => Yields.bind fun _ =>
        Yields.pure ⟨_, _, _, rfl⟩
    obtain ⟨cbData, xs, ys, rfl⟩ := hcount _ _ _ hread
    rw [← hwrite, write_cons, write_cons, write_of_ne, Function.update_self]
    intro w hw heq
    obtain hw | hw := List.mem_append.mp hw
    · exact hnodup.2.1.1 ((congrArg Prod.fst heq).symm.trans (mem_array hw))
    · exact hnodup.2.1.2.1 ((congrArg Prod.fst heq).symm.trans (mem_array hw))
  | _ => exact absurd hlink (Option.some_ne_none _).symm

theorem absorbs_of_take_part (hstable : step.stable = true)
    (htake : (step.part false).take c s = some s') : (step.part false).Absorbs c s' := by
  unfold Step.stable at hstable
  split at hstable
  · obtain ⟨b, rfl, rfl⟩ := take_colorByte htake
    refine absorbs_colorByte ?_
    rw [Function.update_self, Int.toNat_natCast, color_byte_twice]
  · obtain ⟨-, hreads⟩ := Bool.and_eq_true_iff.mp hstable
    refine Part.absorbs_of_take (Step.writes_part _ false) (Step.ignores_part _ ?_) htake
    intro m hm
    exact of_decide_eq_true (List.all_eq_true.mp hreads m hm)

theorem held_of_take (hstable : step.stable = true)
    (htake : (step.part delta).take c s = some s') (hfits : step.Fits s') :
    HeldAt step (step.anchor s') (step.resend delta s' c) s' := by
  have habsolute (htake : (step.part false).take c s = some s') :
      HeldAt step (step.anchor s') c s' := by
    rw [HeldAt, relink_of_eq]
    · exact absorbs_of_take_part hstable htake
    · intro m k hlink
      rw [Step.anchor, hlink]
      exact link_of_take hstable hlink htake
  by_cases hcoord : ∃ n m, step = .coord n m
  · obtain ⟨n, m, rfl⟩ := hcoord
    cases delta with
    | false => exact habsolute htake
    | true =>
      rw [HeldAt, relink_of_none rfl]
      exact absorbs_coordBytes hfits
  · push Not at hcoord
    have hsame : (step.part delta).take c s = (step.part false).take c s := by
      simp only [Part.take, Step.part, read_of_ne_coord hcoord]
    have hresend : step.resend delta s' c = c := by
      cases step with
      | coord n m => exact absurd rfl (hcoord n m)
      | _ => rfl
    rw [hresend]
    exact habsolute (hsame ▸ htake)

end FreeRDP.Orders
