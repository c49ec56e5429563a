import FreeRDP.Orders.Equiv.Held

/-!
# Orders as messages

A primary order with the bytes of its fields, and the same order with each field that it leaves out as
this has been sent last.
-/

namespace FreeRDP.Orders

open Wire Retain

/-- The bytes of each field that have been sent last, if any have been. -/
abbrev Sent : Type := OrderType → ℕ → Option (List UInt8)

/-- A primary order, with the bytes of each of its fields. -/
structure PrimaryOrder where
  orderInfo : OrderInfo
  field : ℕ → List UInt8

namespace PrimaryOrder

variable (o : PrimaryOrder)

/-- The order has field `n`. -/
def sends (n : ℕ) : Bool := orderFieldFlagIsSet o.orderInfo.fieldFlags n

def decoder : List Step := o.orderInfo.orderType.decoder

def parts : List (Part Cell ℤ) := o.decoder.map (Step.part o.orderInfo.deltaCoordinates)

def bytes : List UInt8 := bytesOf o.sends o.field o.parts

/-- Each field of fixed length has its length. -/
def WellFormed : Prop :=
  ∀ step ∈ o.decoder, ∀ n w, step.field = some n →
    step.width o.orderInfo.deltaCoordinates = some w → o.sends n = true → (o.field n).length = w

end PrimaryOrder

/-- `fieldFlags` with those of the fields in `ns` announced that `p` picks. -/
def announce (p : ℕ → Bool) (fieldFlags : ℕ) : List ℕ → ℕ
  | [] => fieldFlags
  | n :: ns => announce p (if p n then fieldFlags ||| 1 <<< (n - 1) else fieldFlags) ns

/-- The order with each field that it leaves out as this has been sent last. -/
def PrimaryOrder.refill (o : PrimaryOrder) (sent : Sent) : PrimaryOrder where
  orderInfo := { o.orderInfo with
    fieldFlags := announce (fun n => (sent o.orderInfo.orderType n).isSome) o.orderInfo.fieldFlags
      (o.decoder.filterMap Step.field) }
  field := fillField (sent o.orderInfo.orderType) o.sends o.field

/-- The step that reads field `n`. -/
def OrderType.stepOf (t : OrderType) (n : ℕ) : Option Step :=
  t.decoder.find? fun step => step.field == some n

/-- The fields that have been sent last, behind an order that has given `primary`. -/
def PrimaryOrder.sentBehind (o : PrimaryOrder) (primary : PrimaryUpdate) (sent : Sent) : Sent :=
  Function.update sent o.orderInfo.orderType fun n =>
    if o.sends n then
      (o.orderInfo.orderType.stepOf n).map
        (Step.resend o.orderInfo.deltaCoordinates (primary o.orderInfo.orderType) (o.field n))
    else sent o.orderInfo.orderType n

/-! ### Fields of the decoders -/

theorem field_ne_zero (t : OrderType) : ∀ step ∈ t.decoder, step.field ≠ some 0 := by
  cases t <;> decide

/-- Different steps read different fields. -/
theorem pairwise_field (t : OrderType) :
    t.decoder.Pairwise fun a b => a.field = none ∨ a.field ≠ b.field := by
  cases t <;> decide

/-- Behind a field whose length is in its bytes there is no other field. -/
theorem pairwise_width (t : OrderType) (delta : Bool) :
    t.decoder.Pairwise fun a b => a.field = none ∨ (a.width delta).isSome ∨ b.field = none := by
  cases t <;> cases delta <;> decide

variable {t : OrderType} {step : Step} {n : ℕ}

theorem stepOf_of_mem (hstep : step ∈ t.decoder) (hn : step.field = some n) :
    t.stepOf n = some step := by
  have hpair := pairwise_field t
  unfold OrderType.stepOf
  generalize t.decoder = qs at hstep hpair
  induction qs with
  | nil => exact nomatch hstep
  | cons q qs ih =>
    obtain ⟨hq, hqs⟩ := List.pairwise_cons.mp hpair
    by_cases hfield : q.field = some n
    · rw [List.find?_cons_of_pos (by simpa using hfield)]
      obtain rfl | hmem := List.mem_cons.mp hstep
      · rfl
      · obtain hnone | hne := hq step hmem
        · exact nomatch hnone.symm.trans hfield
        · exact absurd (hfield.trans hn.symm) hne
    · rw [List.find?_cons_of_neg (by simpa using hfield)]
      obtain rfl | hmem := List.mem_cons.mp hstep
      · exact absurd hn hfield
      · exact ih hmem hqs

theorem sentBehind_of_mem {o : PrimaryOrder} {primary : PrimaryUpdate} {sent : Sent}
    (hstep : step ∈ o.decoder) (hn : step.field = some n) :
    o.sentBehind primary sent o.orderInfo.orderType n =
      if o.sends n then some (step.resend o.orderInfo.deltaCoordinates (primary o.orderInfo.orderType)
        (o.field n))
      else sent o.orderInfo.orderType n := by
  rw [PrimaryOrder.sentBehind, Function.update_self, stepOf_of_mem hstep hn]
  rfl

/-! ### Flags -/

theorem orderFieldFlagIsSet_eq (fieldFlags n : ℕ) :
    orderFieldFlagIsSet fieldFlags n = fieldFlags.testBit (n - 1) := by
  rw [orderFieldFlagIsSet, Nat.one_shiftLeft, Nat.and_two_pow]
  cases fieldFlags.testBit (n - 1) <;> simp

theorem testBit_announce {p : ℕ → Bool} {fieldFlags : ℕ} {ns : List ℕ} (hns : ∀ k ∈ ns, k ≠ 0)
    (hn : n ≠ 0) :
    (announce p fieldFlags ns).testBit (n - 1) =
      (fieldFlags.testBit (n - 1) || (decide (n ∈ ns) && p n)) := by
  induction ns generalizing fieldFlags with
  | nil => simp [announce]
  | cons k ns ih =>
    have hk := hns k List.mem_cons_self
    rw [announce, ih fun j hj => hns j (List.mem_cons_of_mem _ hj)]
    have hbit : (1 <<< (k - 1)).testBit (n - 1) = decide (n = k) := by
      rw [Nat.one_shiftLeft, Nat.testBit_two_pow]
      exact decide_eq_decide.mpr (by omega)
    by_cases hp : p k = true
    · rw [if_pos hp, Nat.testBit_or, hbit]
      by_cases hnk : n = k
      · subst hnk
        simp [hp]
      · simp [hnk]
    · rw [if_neg hp]
      by_cases hnk : n = k
      · subst hnk
        simp [hp]
      · simp [hnk]

theorem sends_refill {o : PrimaryOrder} {sent : Sent} (hstep : step ∈ o.decoder)
    (hn : step.field = some n) :
    (o.refill sent).sends n = filled (sent o.orderInfo.orderType) o.sends n := by
  have hne (q : Step) (hq : q ∈ o.decoder) (k : ℕ) (hk : q.field = some k) : k ≠ 0 := by
    rintro rfl
    exact field_ne_zero _ q hq hk
  have hns : ∀ k ∈ o.decoder.filterMap Step.field, k ≠ 0 := by
    intro k hk
    obtain ⟨q, hq, hqk⟩ := List.mem_filterMap.mp hk
    exact hne q hq k hqk
  have hmem : n ∈ o.decoder.filterMap Step.field := List.mem_filterMap.mpr ⟨step, hstep, hn⟩
  rw [filled, PrimaryOrder.sends, PrimaryOrder.sends, orderFieldFlagIsSet_eq, orderFieldFlagIsSet_eq,
    PrimaryOrder.refill, testBit_announce hns (hne step hstep n hn), decide_eq_true hmem,
    Bool.true_and]

/-! ### Reading an order -/

theorem framed_of_wellFormed {o : PrimaryOrder} (h : o.WellFormed) :
    Framed o.sends o.field o.parts := by
  have hpair := pairwise_width o.orderInfo.orderType o.orderInfo.deltaCoordinates
  unfold PrimaryOrder.WellFormed at h
  unfold PrimaryOrder.parts
  have hdecoder : o.decoder = o.orderInfo.orderType.decoder := rfl
  rw [← hdecoder] at hpair
  generalize o.decoder = qs at h hpair
  induction qs with
  | nil => trivial
  | cons q qs ih =>
    obtain ⟨hq, hqs⟩ := List.pairwise_cons.mp hpair
    refine ⟨fun hhas => ?_, ih (fun step hstep => h step (List.mem_cons_of_mem _ hstep)) hqs⟩
    cases hfield : q.field with
    | none =>
      have hchunk : (q.part o.orderInfo.deltaCoordinates).chunk o.field = [] := by
        rw [Part.chunk, Step.part, hfield]
        rfl
      rw [hchunk]
      exact Or.inl (Step.exact_of_none hfield)
    | some n =>
      have hchunk : (q.part o.orderInfo.deltaCoordinates).chunk o.field = o.field n := by
        rw [Part.chunk, Step.part, hfield]
        rfl
      have hsends : o.sends n = true := by simpa [Step.part, hfield] using hhas
      rw [hchunk]
      cases hwidth : q.width o.orderInfo.deltaCoordinates with
      | some w =>
        exact Or.inl (Step.exact_part hwidth (h q List.mem_cons_self n w hfield hwidth hsends))
      | none =>
        refine Or.inr ⟨Step.extends_part (by simp [hfield]) hwidth, ?_⟩
        intro p hp
        obtain ⟨step, hstep, rfl⟩ := List.mem_map.mp hp
        obtain hnone | hsome | hnone := hq step hstep
        · exact absurd (hnone.symm.trans hfield) (Option.some_ne_none n).symm
        · rw [hwidth] at hsome
          exact absurd hsome Bool.false_ne_true
        · exact ⟨hnone, Step.exact_of_none hnone⟩

theorem reads_readPrimaryOrder_iff {o : PrimaryOrder} (h : o.WellFormed)
    {primary primary' : PrimaryUpdate} :
    Reads (readPrimaryOrder o.orderInfo primary) o.bytes primary' ↔
      ∃ s, decodeFields o.sends o.field o.parts (primary o.orderInfo.orderType) = some s ∧
        Function.update primary o.orderInfo.orderType s = primary' := by
  have hreads : Reads (readPrimaryOrder o.orderInfo primary) o.bytes primary' ↔ _ :=
    Reads.map_iff (x := decode o.sends o.parts (primary o.orderInfo.orderType))
      (Function.update_injective primary o.orderInfo.orderType)
  refine Iff.trans hreads (exists_congr fun s => and_congr_left fun _ => ?_)
  exact reads_decode_iff (framed_of_wellFormed h)

end FreeRDP.Orders
