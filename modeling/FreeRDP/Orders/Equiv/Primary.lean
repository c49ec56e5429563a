import FreeRDP.Orders.Equiv.Fields
import FreeRDP.Orders.Equiv.Behind

/-!
# Fields that are left out

A field that an order leaves out is as it has been sent last, if the structure still holds what the field
has meant: `Step.Current`.
-/

namespace FreeRDP.Orders

open Wire Retain

/-- The structure still holds what `c`, the last bytes of the field that an order leaves out, has meant.

A coordinate has to fit its bytes, and what has been split off `cacheId` and `bRop2` must not be there.
The rows of a brush depend on its hatch, and rectangles and points depend on their number. -/
def Step.Current (t : OrderType) (has : ℕ → Bool) (field : ℕ → List UInt8)
    (sent : ℕ → Option (List UInt8)) (s : OrderStruct) (c : List UInt8) : Step → Prop
  | coord _ m => -2 ^ 15 ≤ s (m, 0) ∧ s (m, 0) < 2 ^ 15
  | uint16 _ .cacheId => .splitCacheId ∈ t.decoder → s (.colorIndex, 0) = 0
  | byte _ .bRop2 => .splitRop2 ∈ t.decoder → s (.backMode, 0) ≠ BACKMODE_TRANSPARENT
  | byte n .num => ∀ number, .deltaPoints (n + 1) number ∈ t.decoder →
      filled sent has (n + 1) = true → s (number, 0) = byteValue c
  | brushRows n => byteBehind has field s (n - 1) .brushHatch = s (.brushP8x8, 0)
  | deltaRects n number | deltaPoints n number =>
    byteBehind has field s (n - 1) number = s (number, 0)
  | _ => True

/-- The fields that have been sent last are held by the structure. -/
structure Holds (t : OrderType) (s : OrderStruct) (sent : ℕ → Option (List UInt8)) : Prop where
  sized : ∀ step ∈ t.decoder, ∀ n w c, step.field = some n → step.width false = some w →
    sent n = some c → c.length = w
  held : ∀ step ∈ t.decoder, step ∉ t.special → ∀ n c, step.field = some n → sent n = some c →
    step.Fits s → HeldAt step (step.anchor s) c s
  cacheId : .splitCacheId ∈ t.decoder → ∀ c, sent 1 = some c →
    s (.colorIndex, 0) = (wordValue c >>> 8 : ℕ) ∧ s (.cacheId, 0) = (wordValue c &&& 0xFF : ℕ)
  rop2 : .splitRop2 ∈ t.decoder → ∀ c, sent 3 = some c →
    s (.backMode, 0) = (if byteValue c &&& 0x80 ≠ 0 then BACKMODE_TRANSPARENT else BACKMODE_OPAQUE) ∧
      s (.bRop2, 0) = (byteValue c &&& 0x1F : ℕ)

variable {t : OrderType} {delta : Bool} {has : ℕ → Bool} {field : ℕ → List UInt8}
  {sent : ℕ → Option (List UInt8)} {s s₁ s' : OrderStruct} {step : Step} {c : List UInt8} {n : ℕ}
  {pre post : List Step}

/-! ### The turn of a field -/

theorem Step.Current.fits (h : step.Current t has field sent s c) : step.Fits s := by
  cases step with
  | coord n m => exact h
  | _ => trivial

/-- What the meaning of a field depends on, when it is the turn of the field. -/
theorem link_behind (hfed : step.fed pre post = true) (h : step.Current t has field sent s c)
    (hbehind : behind delta has field pre s = some s₁) {m : Member} {k : Cell}
    (hlink : step.link = some (m, k)) : s₁ (m, 0) = step.anchor s := by
  cases step with
  | brushRows n =>
    obtain ⟨rfl, -⟩ := Prod.mk.inj (Option.some.inj hlink)
    rw [byteBehind_eq hfed hbehind]
    exact h
  | deltaRects n number =>
    obtain ⟨rfl, -⟩ := Prod.mk.inj (Option.some.inj hlink)
    rw [byteBehind_eq (Bool.and_eq_true_iff.mp hfed).1 hbehind]
    exact h
  | deltaPoints n number =>
    obtain ⟨rfl, -⟩ := Prod.mk.inj (Option.some.inj hlink)
    obtain ⟨hhead, halone⟩ := Bool.and_eq_true_iff.mp hfed
    obtain _ | ⟨q, pre⟩ := pre
    · exact nomatch hhead
    obtain rfl : q = .startPoints number := by simpa using hhead
    rw [behind_cons_of_none rfl] at hbehind
    obtain ⟨s₀, hstart, hpre⟩ := Option.bind_eq_some_iff.mp hbehind
    obtain rfl := Option.some.inj hstart
    have hnumber : byteBehind has field (write [((.num, 0), s (number, 0))] s) (n - 1) .num =
        byteBehind has field s (n - 1) number := by
      rw [byteBehind, byteBehind, write_cons, write_nil, Function.update_self]
    rw [byteBehind_eq halone hpre, hnumber]
    exact h
  | _ => exact nomatch hlink

/-- A field that is held is absorbed when it is its turn. -/
theorem absorbs_behind (hholds : Holds t s sent) (hsplit : t.decoder = pre ++ step :: post)
    (hn : step.field = some n) (hspecial : step ∉ t.special) (hsent : sent n = some c)
    (hcurrent : step.Current t has field sent s c)
    (hbehind : behind delta has field pre s = some s₁) : (step.part false).Absorbs c s₁ := by
  have hsplits : (pre, step, post) ∈ splits t.decoder := hsplit ▸ mem_splits pre step post
  have hmem : step ∈ t.decoder := hsplit ▸ List.mem_append_right _ List.mem_cons_self
  have hfield : step.field ≠ none := by simp [hn]
  have hapart := ((apart_or_special t _ hsplits).resolve_left hfield).resolve_left hspecial
  have hheld := (hholds.held step hmem hspecial n c hn hsent hcurrent.fits).behind hfield
    (fun q hq => hapart q (List.mem_append_left _ hq)) hbehind
  have hlink : step.relink (step.anchor s) s₁ = s₁ :=
    relink_of_eq fun m k hlink => link_behind (fed_of_mem t _ hsplits) hcurrent hbehind hlink
  rwa [HeldAt, hlink] at hheld

/-! ### A field that is sent once more -/

/-- The cells of which nobody takes notice before the end of an order: those of `bRop2` if it is split
there, and those of a number of points if there are none. -/
def Unnoticed (t : OrderType) (filled : ℕ → Bool) (k : Cell) : Prop :=
  k = (.bRop2, 0) ∧ .splitRop2 ∈ t.decoder ∨
    k = (.num, 0) ∧ .endPoints ∈ t.decoder ∧
      ∀ q ∈ t.decoder, q.isPoints = true → q.field.all filled = false

theorem ignores_unnoticed {filled : ℕ → Bool} (hstep : step ∈ t.body)
    (hfilled : step.field.all filled = true) :
    (step.part false).Ignores (Unnoticed t filled) := by
  have hmem : step ∈ t.decoder := body_append_finish t ▸ List.mem_append_left _ hstep
  refine step.ignores_part fun m hm => ?_
  rintro (⟨hk, hsplit⟩ | ⟨hk, -, hpoints⟩)
  · obtain ⟨-, -, hreads⟩ := splitRop2_mem t hsplit
    obtain rfl : m = .bRop2 := congrArg Prod.fst hk
    exact hreads (List.mem_flatMap.mpr ⟨step, hstep, hm⟩)
  · obtain rfl : m = .num := congrArg Prod.fst hk
    have hnot := hpoints step hmem (mem_reads_body t step hstep hm)
    exact absurd hfilled (by simp [hnot])

theorem read_byte {m : Member} {b : UInt8} :
    ((Step.byte n m).part delta).read s [b] = some ([((m, 0), (b.toNat : ℤ))], []) := rfl

theorem absorbs_byte {m : Member} {b : UInt8} (h : s (m, 0) = b.toNat) :
    ((Step.byte n m).part delta).Absorbs [b] s := by
  rw [Part.Absorbs, Part.take_eq_some.mpr ⟨_, read_byte, rfl⟩, write_cons, write_nil, ← h,
    Function.update_eq_self]

/-- Two bytes that are there already. -/
theorem absorbs_word {m : Member} {a b : UInt8} (h : s (m, 0) = wordValue [a, b]) :
    ((Step.uint16 n m).part delta).Absorbs [a, b] s := by
  refine Part.take_eq_some.mpr ⟨[((m, 0), (wordValue [a, b] : ℤ))], rfl, ?_⟩
  rw [write_cons, write_nil, ← h, Function.update_eq_self]

theorem num_behind (hsplit : t.decoder = pre ++ .byte n .num :: post)
    (hbehind : behind delta has field pre s = some s₁) : ∃ number,
      .deltaPoints (n + 1) number ∈ t.decoder ∧ s₁ (.num, 0) = s (number, 0) ∧
      ∀ q ∈ t.decoder, q.isPoints = true → q = .deltaPoints (n + 1) number := by
  have hcounts := counts_of_mem t _ (hsplit ▸ mem_splits pre (.byte n .num) post)
  dsimp only [Step.counts] at hcounts
  split at hcounts
  · next number pre n' number' post =>
    simp only [Bool.and_eq_true, beq_iff_eq, List.all_eq_true, decide_eq_true_eq] at hcounts
    obtain ⟨⟨⟨rfl, rfl⟩, hpre⟩, hothers⟩ := hcounts
    rw [behind_cons_of_none rfl] at hbehind
    obtain ⟨s₀, hstart, hpre'⟩ := Option.bind_eq_some_iff.mp hbehind
    obtain rfl := Option.some.inj hstart
    refine ⟨number', by simp [hsplit], ?_, fun q hq hpoints => ?_⟩
    · rw [behind_frame hpre hpre', write_cons, write_nil, Function.update_self]
    · rw [hsplit] at hq
      simp only [List.cons_append, List.mem_cons, List.mem_append] at hq
      obtain rfl | hq | rfl | rfl | hq := hq
      · exact nomatch hpoints
      · exact absurd hpoints (by simpa using hothers q (List.mem_append_left _ hq))
      · exact nomatch hpoints
      · rfl
      · exact absurd hpoints (by simpa using hothers q (List.mem_append_right _ hq))
  · exact absurd hcounts Bool.false_ne_true

/-- A field that is sent once more is absorbed, or nobody takes notice of it. -/
theorem quiet_behind (hholds : Holds t s sent) (hsplit : t.body = pre ++ step :: post)
    (hn : step.field = some n) (hsent : sent n = some c)
    (hcurrent : step.Current t has field sent s c)
    (hbehind : behind delta has field pre s = some s₁) :
    (step.part false).Absorbs c s₁ ∨ ∃ ws, (step.part false).read s₁ c = some (ws, []) ∧
      ∀ w ∈ ws, Unnoticed t (filled sent has) w.1 := by
  have hdecoder : t.decoder = pre ++ step :: (post ++ t.finish) := by
    rw [← body_append_finish t, hsplit, List.append_assoc, List.cons_append]
  have hsplits : (pre, step, post ++ t.finish) ∈ splits t.decoder := hdecoder ▸ mem_splits pre step _
  have hmem : step ∈ t.decoder := hdecoder ▸ List.mem_append_right _ List.mem_cons_self
  have hbyte {k : ℕ} {m : Member} (hstep : step = .byte k m) : ∃ b : UInt8, c = [b] := by
    subst hstep
    exact List.length_eq_one_iff.mp (hholds.sized _ hmem n 1 c hn rfl hsent)
  by_cases hspecial : step ∈ t.special
  · obtain hcount | ⟨rfl, hcache⟩ | ⟨rfl, hrop⟩ := mem_special t step hspecial
    · obtain ⟨k, rfl⟩ : ∃ k, step = .byte k .num := by
        unfold Step.isCount at hcount
        split at hcount
        · exact ⟨_, rfl⟩
        · exact absurd hcount Bool.false_ne_true
      obtain rfl := Option.some.inj hn
      obtain ⟨b, rfl⟩ := hbyte rfl
      obtain ⟨number, hpoints, hnum, honly⟩ := num_behind hdecoder hbehind
      by_cases hfilled : filled sent has (k + 1) = true
      · exact Or.inl (absorbs_byte (hnum.trans (hcurrent number hpoints hfilled)))
      · -- there are no points
        refine Or.inr ⟨_, read_byte, fun w hw => ?_⟩
        obtain rfl := List.mem_singleton.mp hw
        refine Or.inr ⟨rfl, endPoints_mem t _ hpoints rfl, fun q hq hisPoints => ?_⟩
        rw [honly q hq hisPoints]
        exact eq_false_of_ne_true hfilled
    · -- the lower byte is all there is of `cacheId`
      obtain rfl := cacheId_first t _ hsplits rfl
      obtain rfl := Option.some.inj hbehind
      obtain rfl := Option.some.inj hn
      obtain ⟨a, b, rfl⟩ := List.length_eq_two.mp (hholds.sized _ hmem 1 2 c rfl rfl hsent)
      obtain ⟨hcolor, hcacheId⟩ := hholds.cacheId hcache _ hsent
      have hzero : wordValue [a, b] >>> 8 = 0 := by
        exact_mod_cast hcolor.symm.trans (hcurrent hcache)
      refine Or.inl (absorbs_word ?_)
      rw [hcacheId, and_0xFF]
      rw [Nat.shiftRight_eq_div_pow] at hzero
      omega
    · -- `bRop2` is looked at when it is split
      obtain ⟨b, rfl⟩ := hbyte rfl
      refine Or.inr ⟨_, read_byte, fun w hw => ?_⟩
      obtain rfl := List.mem_singleton.mp hw
      exact Or.inl ⟨rfl, hrop⟩
  · exact Or.inl (absorbs_behind hholds hdecoder hn hspecial hsent hcurrent hbehind)

/-! ### Orders with the fields that they leave out -/

theorem update_congr {s₁ s₂ : OrderStruct} {k k' : Cell} {v : ℤ} (h : k' ≠ k → s₁ k' = s₂ k') :
    Function.update s₁ k v k' = Function.update s₂ k v k' := by
  by_cases hk : k' = k
  · rw [hk, Function.update_self, Function.update_self]
  · rw [Function.update_of_ne hk, Function.update_of_ne hk, h hk]

/-- The end of a decoder takes no notice of the cells that may differ. -/
theorem finish_congr {filled has' : ℕ → Bool} {field' : ℕ → List UInt8} {s₂ : OrderStruct}
    (h : Agree (Unnoticed t filled) s₁ s₂)
    (hrop : .splitRop2 ∈ t.decoder →
      (s₁ (.bRop2, 0)).toNat &&& 0x80 = (s₂ (.bRop2, 0)).toNat &&& 0x80 ∧
        (s₁ (.bRop2, 0)).toNat &&& 0x1F = (s₂ (.bRop2, 0)).toNat &&& 0x1F) :
    behind delta has field t.finish s₁ = behind delta has' field' t.finish s₂ := by
  obtain ⟨hfinish, hsplit, hend⟩ | ⟨hfinish, hsplit⟩ | ⟨hfinish, hsplit⟩ := finish_cases t
  · rw [hfinish]
    refine congrArg some (funext fun k => h k ?_)
    rintro (⟨-, hmem⟩ | ⟨-, hmem, -⟩)
    · exact hsplit hmem
    · exact hend hmem
  · rw [hfinish]
    refine congrArg some (funext fun k => update_congr fun hk => h k ?_)
    rintro (⟨-, hmem⟩ | ⟨hnum, -⟩)
    · exact hsplit hmem
    · exact hk hnum
  · obtain ⟨hhigh, hlow⟩ := hrop hsplit
    have hbehind (has : ℕ → Bool) (field : ℕ → List UInt8) (s : OrderStruct) :
        behind delta has field [.splitRop2, .endPoints] s =
          some (Function.update (Function.update (Function.update s (.backMode, 0)
            (if (s (.bRop2, 0)).toNat &&& 0x80 ≠ 0 then BACKMODE_TRANSPARENT else BACKMODE_OPAQUE))
            (.bRop2, 0) ((s (.bRop2, 0)).toNat &&& 0x1F : ℕ)) (.num, 0) 0) := rfl
    rw [hfinish, hbehind, hbehind, hhigh, hlow]
    refine congrArg some (funext fun k => update_congr fun hnum => update_congr fun hrop2 =>
      update_congr fun _ => h k ?_)
    rintro (⟨hk, -⟩ | ⟨hk, -⟩)
    · exact hrop2 hk
    · exact hnum hk

/-- With no mode split off, the lower bits are all there is of `bRop2`. -/
theorem rop2_whole (hholds : Holds t s sent) (hsplit : .splitRop2 ∈ t.decoder)
    (hsent : sent 3 = some c) (hmode : s (.backMode, 0) ≠ BACKMODE_TRANSPARENT) :
    byteValue c &&& 0x80 = 0 ∧ s (.bRop2, 0) = (byteValue c &&& 0x1F : ℕ) := by
  obtain ⟨hback, hrop⟩ := hholds.rop2 hsplit c hsent
  refine ⟨by_contra fun hne => hmode ?_, hrop⟩
  rw [hback, if_pos hne]

/-- An order gives what it gives with the fields that it leaves out. -/
theorem behind_filled (hholds : Holds t s sent)
    (hcurrent : ∀ step ∈ t.decoder, ∀ n c, step.field = some n → has n = false → sent n = some c →
      step.Current t has field sent s c) :
    behind false has field t.decoder s =
      behind false (filled sent has) (fillField sent has field) t.decoder s := by
  have hrel : Option.Rel (Agree (Unnoticed t (filled sent has))) (behind false has field t.body s)
      (behind false (filled sent has) (fillField sent has field) t.body s) := by
    refine fill_agree (fun _ _ => rfl) ?_ ?_
    · intro p hp hfilled
      obtain ⟨step, hstep, rfl⟩ := List.mem_map.mp hp
      exact ignores_unnoticed hstep hfilled
    · intro pre p post n c s₁ hsplit hn hleft hsent hbehind
      obtain ⟨pre, rest, hbody, rfl, hrest⟩ := List.map_eq_append_iff.mp hsplit
      obtain ⟨step, post, rfl, rfl, rfl⟩ := List.map_eq_cons_iff.mp hrest
      have hmem : step ∈ t.decoder := by
        rw [← body_append_finish, hbody]
        simp
      exact quiet_behind hholds hbody hn hsent (hcurrent step hmem n c hn hleft hsent) hbehind
  rw [← body_append_finish, behind_append, behind_append]
  cases hleft : behind false has field t.body s <;>
    cases hfull : behind false (filled sent has) (fillField sent has field) t.body s
  all_goals rw [hleft, hfull] at hrel
  · rfl
  · nomatch hrel
  · nomatch hrel
  · cases hrel with
    | some hagree =>
      rw [Option.bind_some, Option.bind_some]
      refine finish_congr hagree fun hsplit => ?_
      obtain ⟨-, halone, -⟩ := splitRop2_mem t hsplit
      have hmem : .byte 3 .bRop2 ∈ t.body := of_decide_eq_true (Bool.and_eq_true_iff.mp halone).1
      rw [byteBehind_eq halone hleft, byteBehind_eq halone hfull, byteBehind, byteBehind, fillField]
      cases hhas : has 3 with
      | true => simp [filled, hhas]
      | false =>
        cases hsent : sent 3 with
        | none => simp [filled, hhas, hsent]
        | some c =>
          have hdecoder : .byte 3 .bRop2 ∈ t.decoder :=
            body_append_finish t ▸ List.mem_append_left _ hmem
          obtain ⟨hmode, hbits⟩ := rop2_whole hholds hsplit hsent
            (hcurrent _ hdecoder 3 c rfl hhas hsent hsplit)
          simp [filled, hsent, hbits, hmode, Nat.and_assoc]

/-! ### Behind an order -/

theorem length_resend {w : ℕ} (hw : step.width false = some w)
    (hc : ∀ w', step.width delta = some w' → c.length = w') : (step.resend delta s c).length = w := by
  cases step with
  | coord n m =>
    obtain rfl := Option.some.inj hw
    cases delta with
    | false => exact hc _ rfl
    | true => rfl
  | _ => exact hc _ hw

theorem apart_frame {q : Step} (h : q.apart step = true)
    (hcolor : ∀ n mask shift, step ≠ .colorByte n mask shift) {m : Member} (hm : m ∈ step.writes) :
    m ∉ q.writes := by
  unfold Step.apart at h
  split at h
  · exact absurd rfl (hcolor _ _ _)
  · intro hq
    exact of_decide_eq_true (List.all_eq_true.mp h m hq) hm

/-- The cell that has kept what the meaning of a field depends on is not assigned to behind it. -/
theorem anchor_behind (hfed : step.fed pre post = true) (hapart : ∀ q ∈ post, q.apart step = true)
    (hbehind : behind delta has field post s = some s') : step.anchor s' = step.anchor s := by
  cases step with
  | brushRows n =>
    exact behind_frame (fun q hq => apart_frame (hapart q hq) (by simp) (by simp [Step.writes])) hbehind
  | deltaRects n number =>
    refine behind_frame (fun q hq => ?_) hbehind
    simpa using List.all_eq_true.mp (Bool.and_eq_true_iff.mp hfed).2 q hq
  | deltaPoints n number =>
    exact behind_frame (fun q hq => apart_frame (hapart q hq) (by simp) (by simp [Step.writes])) hbehind
  | _ => rfl

/-- It is not assigned to in front of a field that is left out, either. -/
theorem anchor_turn (hfed : step.fed pre post = true) (hapart : ∀ q ∈ pre, q.apart step = true)
    (hcurrent : step.Current t has field sent s c)
    (hbehind : behind delta has field pre s = some s₁) : step.anchor s₁ = step.anchor s := by
  cases step with
  | brushRows n =>
    exact behind_frame (fun q hq => apart_frame (hapart q hq) (by simp) (by simp [Step.writes])) hbehind
  | deltaRects n number => exact link_behind hfed hcurrent hbehind rfl
  | deltaPoints n number =>
    exact behind_frame (fun q hq => apart_frame (hapart q hq) (by simp) (by simp [Step.writes])) hbehind
  | _ => rfl

/-- A coordinate is not assigned to behind its field. -/
theorem coord_behind (hapart : ∀ q ∈ post, q.apart step = true)
    (hbehind : behind delta has field post s = some s') :
    (step.Fits s' → step.Fits s) ∧ step.resend delta s' c = step.resend delta s c := by
  cases step with
  | coord n m =>
    have hframe : s' (m, 0) = s (m, 0) :=
      behind_frame (fun q hq => apart_frame (hapart q hq) (by simp) (by simp [Step.writes])) hbehind
    exact ⟨fun h => ⟨hframe ▸ h.1, hframe ▸ h.2⟩, by simp only [Step.resend, hframe]⟩
  | _ => exact ⟨fun _ => trivial, rfl⟩

variable {sent' : ℕ → Option (List UInt8)}

/-- An order takes `s` to `s'`, and the fields that have been sent from `sent` to `sent'`.  What it leaves out
is current. -/
structure Leads (t : OrderType) (delta : Bool) (has : ℕ → Bool) (field : ℕ → List UInt8)
    (s s' : OrderStruct) (sent sent' : ℕ → Option (List UInt8)) : Prop where
  holds : Holds t s sent
  current : ∀ step ∈ t.decoder, ∀ n c, step.field = some n → has n = false → sent n = some c →
    step.Current t has field sent s c
  sent_eq : ∀ step ∈ t.decoder, ∀ n, step.field = some n →
    sent' n = if has n then some (step.resend delta s' (field n)) else sent n
  behind : behind delta has field t.decoder s = some s'

/-- The fields of the steps that nobody meddles with are held behind an order. -/
theorem Leads.held (h : Leads t delta has field s s' sent sent') (hmem : step ∈ t.decoder)
    (hspecial : step ∉ t.special) (hn : step.field = some n) (hc : sent' n = some c)
    (hfits : step.Fits s') : HeldAt step (step.anchor s') c s' := by
  have hfield : step.field ≠ none := by simp [hn]
  have hbehind := h.behind
  rw [h.sent_eq step hmem n hn] at hc
  obtain ⟨pre, post, hsplit⟩ := List.append_of_mem hmem
  have hsplits : (pre, step, post) ∈ splits t.decoder := hsplit ▸ mem_splits pre step post
  have hfed := fed_of_mem t _ hsplits
  have hapart := ((apart_or_special t _ hsplits).resolve_left hfield).resolve_left hspecial
  have hpost (q : Step) (hq : q ∈ post) := hapart q (List.mem_append_right _ hq)
  have hpre (q : Step) (hq : q ∈ pre) := hapart q (List.mem_append_left _ hq)
  rw [hsplit, behind_append, Option.bind_eq_some_iff] at hbehind
  obtain ⟨s₁, hs₁, hrest⟩ := hbehind
  rw [behind_cons_of_some hn, Option.bind_eq_some_iff] at hrest
  obtain ⟨s₂, hstep, hs'⟩ := hrest
  rw [anchor_behind hfed hpost hs']
  refine HeldAt.behind ?_ hfield hpost hs'
  cases hhas : has n with
  | true =>
    rw [hhas, if_pos rfl] at hstep hc
    obtain rfl := Option.some.inj hc
    obtain ⟨hfit, hresend⟩ := coord_behind (c := field n) hpost hs'
    rw [hresend]
    exact held_of_take ((stable_of_mem t step hmem).resolve_left hfield) hstep (hfit hfits)
  | false =>
    rw [hhas, if_neg Bool.false_ne_true] at hstep hc
    obtain rfl := Option.some.inj hstep
    have hcur := h.current step hmem n c hn hhas hc
    rw [anchor_turn hfed hpre hcur hs₁]
    exact (h.holds.held step hmem hspecial n c hn hc hcur.fits).behind hfield hpre hs₁

theorem take_splitCacheId (h : (Step.splitCacheId.part delta).take [] s = some s') {w : ℕ}
    (hw : s (.cacheId, 0) = w) :
    s' (.colorIndex, 0) = (w >>> 8 : ℕ) ∧ s' (.cacheId, 0) = (w &&& 0xFF : ℕ) := by
  obtain rfl := Option.some.inj h
  rw [hw, Int.toNat_natCast]
  simp [Function.update]

theorem take_splitRop2 (h : (Step.splitRop2.part delta).take [] s = some s') {b : ℕ}
    (hb : s (.bRop2, 0) = b) :
    s' (.backMode, 0) = (if b &&& 0x80 ≠ 0 then BACKMODE_TRANSPARENT else BACKMODE_OPAQUE) ∧
      s' (.bRop2, 0) = (b &&& 0x1F : ℕ) := by
  obtain rfl := Option.some.inj h
  rw [hb, Int.toNat_natCast]
  simp [Function.update]

theorem Leads.cacheId (h : Leads t delta has field s s' sent sent') (hsplit : .splitCacheId ∈ t.decoder)
    (hc : sent' 1 = some c) :
    s' (.colorIndex, 0) = (wordValue c >>> 8 : ℕ) ∧ s' (.cacheId, 0) = (wordValue c &&& 0xFF : ℕ) := by
  obtain ⟨hdecoder, halone⟩ := splitCacheId_mem t hsplit
  have hmem : .uint16 1 .cacheId ∈ t.decoder :=
    List.dropLast_subset _ (of_decide_eq_true (Bool.and_eq_true_iff.mp halone).1)
  have hbehind := h.behind
  rw [h.sent_eq _ hmem 1 rfl] at hc
  rw [hdecoder, behind_append, Option.bind_eq_some_iff] at hbehind
  obtain ⟨s₁, hs₁, hlast⟩ := hbehind
  have hlast : (Step.splitCacheId.part delta).take [] s₁ = some s' := hlast
  have hvalue := wordBehind_eq halone hs₁
  cases hhas : has 1 with
  | true =>
    rw [hhas, if_pos rfl] at hc hvalue
    obtain rfl := Option.some.inj hc
    exact take_splitCacheId hlast hvalue
  | false =>
    rw [hhas, if_neg Bool.false_ne_true] at hc hvalue
    obtain ⟨hcolor, hcacheId⟩ := h.holds.cacheId hsplit c hc
    have hzero : wordValue c >>> 8 = 0 := by
      exact_mod_cast hcolor.symm.trans (h.current _ hmem 1 c rfl hhas hc hsplit)
    obtain ⟨hhigh, hlow⟩ := take_splitCacheId hlast (hvalue.trans hcacheId)
    refine ⟨hhigh.trans ?_, hlow.trans ?_⟩
    · rw [hzero, Nat.shiftRight_and_distrib, hzero, Nat.zero_and]
    · rw [Nat.and_assoc, Nat.and_self]

theorem Leads.rop2 (h : Leads t delta has field s s' sent sent') (hsplit : .splitRop2 ∈ t.decoder)
    (hc : sent' 3 = some c) :
    s' (.backMode, 0) =
        (if byteValue c &&& 0x80 ≠ 0 then BACKMODE_TRANSPARENT else BACKMODE_OPAQUE) ∧
      s' (.bRop2, 0) = (byteValue c &&& 0x1F : ℕ) := by
  obtain ⟨hfinish, halone, -⟩ := splitRop2_mem t hsplit
  have hmem : .byte 3 .bRop2 ∈ t.decoder := body_append_finish t ▸
    List.mem_append_left _ (of_decide_eq_true (Bool.and_eq_true_iff.mp halone).1)
  have hbehind := h.behind
  rw [h.sent_eq _ hmem 3 rfl] at hc
  rw [← body_append_finish, hfinish, behind_append, Option.bind_eq_some_iff] at hbehind
  obtain ⟨s₁, hs₁, hlast⟩ := hbehind
  rw [behind_cons_of_none rfl, Option.bind_eq_some_iff] at hlast
  obtain ⟨s₂, hs₂, hend⟩ := hlast
  have hframe {m : Member} (hm : m ≠ .num) : s' (m, 0) = s₂ (m, 0) :=
    behind_frame (by simpa [Step.writes] using hm) hend
  have hvalue := byteBehind_eq halone hs₁
  rw [byteBehind] at hvalue
  rw [hframe (by decide), hframe (by decide)]
  cases hhas : has 3 with
  | true =>
    rw [hhas, if_pos rfl] at hc hvalue
    obtain rfl := Option.some.inj hc
    exact take_splitRop2 hs₂ hvalue
  | false =>
    rw [hhas, if_neg Bool.false_ne_true] at hc hvalue
    obtain ⟨hbit, hrop⟩ := rop2_whole h.holds hsplit hc (h.current _ hmem 3 c rfl hhas hc hsplit)
    obtain ⟨hmode, hlow⟩ := take_splitRop2 hs₂ (hvalue.trans hrop)
    refine ⟨hmode.trans ?_, hlow.trans ?_⟩
    · rw [Nat.and_assoc, Nat.and_comm 0x1F, ← Nat.and_assoc, hbit, Nat.zero_and]
    · rw [Nat.and_assoc, Nat.and_self]

theorem Leads.holds_behind (h : Leads t delta has field s s' sent sent')
    (hsized : ∀ step ∈ t.decoder, ∀ n w, step.field = some n → step.width delta = some w →
      has n = true → (field n).length = w) : Holds t s' sent' where
  sized := by
    intro step hmem n w c hn hw hc
    rw [h.sent_eq step hmem n hn] at hc
    cases hhas : has n with
    | true =>
      rw [hhas, if_pos rfl] at hc
      obtain rfl := Option.some.inj hc
      exact length_resend hw fun w' hw' => hsized step hmem n w' hn hw' hhas
    | false =>
      rw [hhas, if_neg Bool.false_ne_true] at hc
      exact h.holds.sized step hmem n w c hn hw hc
  held _ hmem hspecial _ _ hn hc hfits := h.held hmem hspecial hn hc hfits
  cacheId hsplit _ hc := h.cacheId hsplit hc
  rop2 hsplit _ hc := h.rop2 hsplit hc

/-! ### Sequences of orders -/

/-- What holds at each field that the order leaves out and that has been sent before. -/
def PrimaryOrder.Sound (o : PrimaryOrder) (primary : PrimaryUpdate) (sent : Sent) : Prop :=
  ∀ step ∈ o.decoder, ∀ n c, step.field = some n → o.sends n = false →
    sent o.orderInfo.orderType n = some c →
      step.Current o.orderInfo.orderType o.sends o.field (sent o.orderInfo.orderType)
        (primary o.orderInfo.orderType) c

/-- The structures and the fields behind a sequence of orders that meet `P`. -/
inductive Reached (P : PrimaryOrder → PrimaryUpdate → Sent → Prop) : PrimaryUpdate → Sent → Prop
  | init : Reached P primaryUpdateNew fun _ _ => none
  | step {primary primary' : PrimaryUpdate} {sent : Sent} {o : PrimaryOrder}
    (h : Reached P primary sent) (hwellFormed : o.WellFormed) (hP : P o primary sent)
    (hreads : Reads (readPrimaryOrder o.orderInfo primary) o.bytes primary') :
    Reached P primary' (o.sentBehind primary' sent)

variable {o : PrimaryOrder} {primary primary' : PrimaryUpdate} {sents : Sent}

theorem holds_init (t : OrderType) : Holds t (primaryUpdateNew t) fun _ => none where
  sized _ _ _ _ _ _ _ hc := nomatch hc
  held _ _ _ _ _ _ hc := nomatch hc
  cacheId _ _ hc := nomatch hc
  rop2 _ _ hc := nomatch hc

/-- The structures hold the fields that have been sent last. -/
theorem Reached.holds (h : Reached PrimaryOrder.Sound primary sents) (t : OrderType) :
    Holds t (primary t) (sents t) := by
  induction h with
  | init => exact holds_init t
  | @step primary primary' sents o h hwellFormed hsound hreads ih =>
    obtain ⟨s', hbehind, rfl⟩ := (reads_readPrimaryOrder_iff hwellFormed).mp hreads
    by_cases ht : t = o.orderInfo.orderType
    · subst ht
      rw [Function.update_self]
      refine Leads.holds_behind ⟨ih, hsound, fun step hstep n hn => ?_, hbehind⟩ hwellFormed
      rw [sentBehind_of_mem hstep hn, Function.update_self]
    · rw [Function.update_of_ne ht, PrimaryOrder.sentBehind, Function.update_of_ne ht]
      exact ih

theorem wellFormed_refill (h : Reached PrimaryOrder.Sound primary sents) (ho : o.WellFormed)
    (habsolute : o.orderInfo.deltaCoordinates = false) : (o.refill sents).WellFormed := by
  intro step hstep n w hn hw hhas
  have hstep : step ∈ o.decoder := hstep
  rw [sends_refill hstep hn, filled] at hhas
  have hw : step.width false = some w := habsolute ▸ hw
  show (fillField _ _ _ n).length = w
  rw [fillField]
  cases hsends : o.sends n with
  | true => exact ho step hstep n w hn (habsolute ▸ hw) hsends
  | false =>
    rw [hsends, Bool.false_or] at hhas
    obtain ⟨c, hc⟩ := Option.isSome_iff_exists.mp hhas
    rw [if_neg Bool.false_ne_true, hc, Option.getD_some]
    exact (h.holds o.orderInfo.orderType).sized step hstep n w c hn hw hc

/-- A field that an order leaves out is as it has been sent last: with all such fields sent once more, the
order gives the same structure. -/
theorem reads_refill_iff (h : Reached PrimaryOrder.Sound primary sents) (ho : o.WellFormed)
    (habsolute : o.orderInfo.deltaCoordinates = false) (hsound : o.Sound primary sents) :
    Reads (readPrimaryOrder o.orderInfo primary) o.bytes primary' ↔
      Reads (readPrimaryOrder (o.refill sents).orderInfo primary) (o.refill sents).bytes primary' := by
  rw [reads_readPrimaryOrder_iff ho,
    reads_readPrimaryOrder_iff (wellFormed_refill h ho habsolute)]
  refine exists_congr fun s => and_congr_left fun _ => ?_
  have hparts : o.parts = o.decoder.map (Step.part false) := by
    rw [PrimaryOrder.parts, habsolute]
  have hfilled := behind_filled (h.holds o.orderInfo.orderType) hsound
  have hrefill : decodeFields (o.refill sents).sends (o.refill sents).field (o.refill sents).parts
      (primary o.orderInfo.orderType) =
      behind false (filled (sents o.orderInfo.orderType) o.sends)
        (fillField (sents o.orderInfo.orderType) o.sends o.field) o.decoder
        (primary o.orderInfo.orderType) := by
    have hsame : (o.refill sents).parts = o.decoder.map (Step.part false) := hparts
    rw [hsame]
    refine decodeFields_congr (fun p hp => ?_) _
    obtain ⟨step, hstep, rfl⟩ := List.mem_map.mp hp
    cases hn : step.field with
    | none => simp [Step.part, hn]
    | some n => simp [Step.part, hn, sends_refill hstep hn]
  rw [hparts]
  exact Iff.trans (iff_of_eq (congrArg (· = some s) hfilled))
    (iff_of_eq (congrArg (· = some s) hrefill.symm))

/-- A rectangle of 16 × 16 pixels. -/
def dstbltOrder (fieldFlags : ℕ) : PrimaryOrder where
  orderInfo := ⟨.dstblt, fieldFlags, false⟩
  field n := if n = 5 then [0x55] else [0x10, 0x00]

/-- The order is sent, and then with no field at all. -/
theorem reads_refill_dstblt : ∃ primary sents, sents .dstblt 5 = some [0x55] ∧ ∀ primary',
    Reads (readPrimaryOrder (dstbltOrder 0).orderInfo primary) (dstbltOrder 0).bytes primary' ↔
      Reads (readPrimaryOrder ((dstbltOrder 0).refill sents).orderInfo primary)
        ((dstbltOrder 0).refill sents).bytes primary' := by
  have hwellFormed (fieldFlags : ℕ) : (dstbltOrder fieldFlags).WellFormed := by
    intro step hstep n w hn hw _
    change step ∈ updateReadDstbltOrder at hstep
    simp only [updateReadDstbltOrder, List.mem_cons, List.not_mem_nil, or_false] at hstep
    rcases hstep with rfl | rfl | rfl | rfl | rfl <;> cases hn <;> cases hw <;> rfl
  have hfirst := Reached.step Reached.init (hwellFormed 0x1F) (P := PrimaryOrder.Sound)
    (fun _ _ _ _ _ _ hc => nomatch hc)
    ((reads_readPrimaryOrder_iff (hwellFormed 0x1F)).mpr ⟨_, rfl, rfl⟩)
  refine ⟨_, _, rfl, fun primary' => reads_refill_iff hfirst (hwellFormed 0) rfl ?_⟩
  intro step hstep n c hn _ _
  change step ∈ updateReadDstbltOrder at hstep
  simp only [updateReadDstbltOrder, List.mem_cons, List.not_mem_nil, or_false] at hstep
  rcases hstep with rfl | rfl | rfl | rfl | rfl
  · exact ⟨by decide, by decide⟩
  · exact ⟨by decide, by decide⟩
  · exact ⟨by decide, by decide⟩
  · exact ⟨by decide, by decide⟩
  · trivial

/-- A bitmap of the cache 5, with the color table 1. -/
def membltOrder (fieldFlags : ℕ) : PrimaryOrder where
  orderInfo := ⟨.memblt, fieldFlags, false⟩
  field n := if n = 1 then [0x05, 0x01] else if n = 6 then [0xCC] else [0x10, 0x00]

/-- The order is sent, and then without its first field: the color table is lost. -/
theorem memblt_loses_color : ∃ primary sents primary',
    Reached (fun _ _ _ => True) primary sents ∧ (membltOrder 0x1FE).WellFormed ∧
      sents .memblt 1 = some [0x05, 0x01] ∧
      Reads (readPrimaryOrder (membltOrder 0x1FE).orderInfo primary) (membltOrder 0x1FE).bytes
        primary' ∧
      ¬ Reads (readPrimaryOrder ((membltOrder 0x1FE).refill sents).orderInfo primary)
        ((membltOrder 0x1FE).refill sents).bytes primary' := by
  have hwellFormed (fieldFlags : ℕ) : (membltOrder fieldFlags).WellFormed := by
    intro step hstep n w hn hw _
    change step ∈ updateReadMembltOrder at hstep
    simp only [updateReadMembltOrder, List.mem_cons, List.not_mem_nil, or_false] at hstep
    rcases hstep with rfl | rfl | rfl | rfl | rfl | rfl | rfl | rfl | rfl | rfl <;> cases hn <;>
      cases hw <;> rfl
  have hfirst := Reached.step Reached.init (hwellFormed 0x1FF) (P := fun _ _ _ => True) trivial
    ((reads_readPrimaryOrder_iff (hwellFormed 0x1FF)).mpr ⟨_, rfl, rfl⟩)
  refine ⟨_, _, _, hfirst, hwellFormed 0x1FE, rfl,
    (reads_readPrimaryOrder_iff (hwellFormed 0x1FE)).mpr ⟨_, rfl, rfl⟩, fun hreads => ?_⟩
  have hcolor := congrFun (congrFun (Option.some.inj (congrArg (Option.map Prod.fst) (hreads [])))
    .memblt) (.colorIndex, 0)
  revert hcolor
  decide

end FreeRDP.Orders
