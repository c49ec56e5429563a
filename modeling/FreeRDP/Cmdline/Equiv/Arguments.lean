import FreeRDP.Cmdline.Arguments

/-!
# When the arguments of a command line are parsed

The loop over the arguments reads `argv` below `argc` only.  It does not always end: an option that is a
flag gives back the argument that it has taken for its value, also where the value stood behind a separator
and nothing was taken.  The round then ends before the argument at which it began, and the next one
repeats it.

`commandLineParseArgumentsA_ends_iff` says that this is the only way not to end.  A round keeps the place
that is left if a value is given back (`Cursor.back`), which is never below the argument before the one at
which it began; where it is just that one, the options of the keyword have dropped the value
(`Argument.heldAfter`), and the round rewinds.
-/

namespace FreeRDP.Cmdline

open Traced Iterate

variable {flags : UInt32} {argv : List CString} {sigil : CString} {toggle : Option Bool}
  {option option' : Argument} {options options' : List Argument} {c c' c'' : Cursor} {k : Keyword}
  {s t : Parser}

/-! ### Flags that are set -/

theorem hasFlag_or {f out mask : UInt32} (h : out &&& mask = 0) :
    hasFlag (f ||| out) mask = hasFlag f mask := by
  have hand : (f ||| out) &&& mask = (f &&& mask) ||| (out &&& mask) :=
    UInt32.toBitVec_inj.1 BitVec.and_or_distrib_right
  unfold hasFlag
  rw [hand, h, UInt32.or_zero]

theorem hasFlag_mask_or (f a b : UInt32) : hasFlag f (a ||| b) = (hasFlag f a || hasFlag f b) := by
  have hand : f &&& (a ||| b) = (f &&& a) ||| (f &&& b) :=
    UInt32.toBitVec_inj.1 BitVec.and_or_distrib_left
  unfold hasFlag
  rw [hand, Bool.eq_iff_iff, Bool.or_eq_true, bne_iff_ne, bne_iff_ne, bne_iff_ne, ne_eq,
    UInt32.or_eq_zero_iff, not_and_or]

/-- What setting an option leaves as it is. -/
def Argument.key (option : Argument) : CString × Option CString × UInt32 :=
  (option.name, option.aliasName, option.flags ||| (ARGUMENT_PRESENT ||| VALUE_PRESENT))

theorem hasFlag_congr {mask : UInt32} (h : option.key = option'.key)
    (hmask : (ARGUMENT_PRESENT ||| VALUE_PRESENT) &&& mask = 0) :
    hasFlag option.flags mask = hasFlag option'.flags mask := by
  simp only [Argument.key, Prod.mk.injEq] at h
  rw [← hasFlag_or hmask, h.2.2, hasFlag_or hmask]

theorem printStatus_congr (h : option.key = option'.key) : printStatus option = printStatus option' := by
  unfold printStatus
  rw [hasFlag_congr h (by decide), hasFlag_congr h (by decide), hasFlag_congr h (by decide),
    hasFlag_congr h (by decide)]

theorem isKeyword_congr (h : option.key = option'.key) (keyword : CString) (n : ℕ) :
    option.isKeyword keyword n = option'.isKeyword keyword n := by
  simp only [Argument.key, Prod.mk.injEq] at h
  unfold Argument.isKeyword
  rw [h.1, h.2.1]

/-! ### The reads -/

def InArgv (argv : List CString) (i : ℤ) : Prop := 0 ≤ i ∧ i < argv.length

/-- The index at which a value that is given back leaves the loop over the options. -/
def Cursor.back (c : Cursor) : ℤ := if c.value.isSome then c.i - 1 else c.i

/-- What the options of a keyword do to the index. -/
structure Ahead (flags : UInt32) (argv : List CString) (c c' : Cursor) : Prop where
  back_le : c.back ≤ c'.back
  lt : c'.i < argv.length
  fixed : hasFlag flags SEPARATOR_SPACE = false → c'.i = c.i

theorem Ahead.refl (h : c.i < argv.length) : Ahead flags argv c c := ⟨Int.le_refl _, h, fun _ => rfl⟩

theorem Ahead.trans (h : Ahead flags argv c c') (h' : Ahead flags argv c' c'') : Ahead flags argv c c'' :=
  ⟨Int.le_trans h.back_le h'.back_le, h'.lt, fun hspace => (h'.fixed hspace).trans (h.fixed hspace)⟩

theorem Cursor.back_le (c : Cursor) : c.back ≤ c.i := by
  unfold back
  split_ifs
  · omega
  · exact Int.le_refl _

theorem Cursor.back_of_eq_none (h : c.value = none) : c.back = c.i := by
  simp [back, h]

theorem Cursor.inArgv (hback : 0 ≤ c.back) (h : c.i < argv.length) : InArgv argv c.i :=
  ⟨Int.le_trans hback c.back_le, h⟩

@[simp] theorem safe_argAt (i : ℤ) : (argAt argv i).Safe (InArgv argv) ↔ InArgv argv i :=
  List.forall_mem_singleton

/-- The rest of a program that has read an argument. -/
theorem ensures_argAt_bind {β : Type} {Q : β → Prop} {f : CString → Traced ℤ β} {i : ℤ} (h : InArgv argv i)
    (hf : ∀ argument, (f argument).Ensures (InArgv argv) Q) : (argAt argv i >>= f).Ensures (InArgv argv) Q :=
  Ensures.bind (Q := fun _ => True) ⟨(safe_argAt i).mpr h, trivial⟩ fun argument _ => hf argument

theorem safe_valuePresent {i : ℤ} (h : InArgv argv (i + 1)) :
    (valuePresent flags argv i).Safe (InArgv argv) := by
  unfold valuePresent
  simp only [safe_bind, safe_ite, safe_argAt, safe_pure]
  simp [h]

theorem nextValue_ensures (hback : 0 ≤ c.back) (hi : c.i < argv.length) :
    (nextValue flags argv option c).Ensures (InArgv argv)
      fun r => ∀ c', r = .ok c' → Ahead flags argv c c' := by
  have hrefl : ∀ c', (Except.ok c : Except Status Cursor) = .ok c' → Ahead flags argv c c' := by
    rintro _ ⟨⟩
    exact .refl hi
  have hle := c.back_le
  unfold nextValue
  refine ensures_ite (fun hnext => ?_) fun _ => ensures_pure hrefl
  have hin : InArgv argv (c.i + 1) := ⟨by omega, hnext.2⟩
  refine Ensures.bind (Q := fun _ => True) ⟨safe_valuePresent hin, trivial⟩ fun present _ => ?_
  refine ensures_ite (fun _ => ?_) fun _ => ensures_ite (fun _ => ensures_pure ?_) fun _ =>
    ensures_ite (fun _ => ?_) fun _ => ensures_pure hrefl
  · -- the argument that comes next is taken, so that giving it back leads to `c.i`
    refine ensures_argAt_bind hin fun value => ensures_pure ?_
    rintro _ ⟨⟩
    exact ⟨by simp [Cursor.back]; split_ifs <;> omega, hnext.2, fun h => by simp [h] at hnext⟩
  · rintro _ ⟨⟩
    exact ⟨hle, hi, fun _ => rfl⟩
  · refine ensures_argAt_bind (c.inArgv hback hi) fun _ => ensures_pure ?_
    rintro _ ⟨⟩

theorem dropFlagValue_ensures (hback : 0 ≤ c.back) (hi : c.i < argv.length) :
    (dropFlagValue flags argv option c).Ensures (InArgv argv)
      fun r => ∀ c', r = .ok c' → Ahead flags argv c c' := by
  unfold dropFlagValue
  refine ensures_ite (fun hvalue => ensures_ite (fun hspace => ensures_pure ?_) fun _ => ?_) fun _ =>
    ensures_pure ?_
  · rintro _ ⟨⟩
    exact ⟨by simp [Cursor.back, hvalue.1], by dsimp only; omega, fun h => by simp [h] at hspace⟩
  · refine ensures_argAt_bind (c.inArgv hback hi) fun _ => ensures_pure ?_
    rintro _ ⟨⟩
  · rintro _ ⟨⟩
    exact .refl hi

theorem key_mark {m : UInt32} (h : m ||| (ARGUMENT_PRESENT ||| VALUE_PRESENT) = ARGUMENT_PRESENT |||
    VALUE_PRESENT)
    (o : Argument) (value : Value) (index : ℤ) :
    (Argument.mk o.name (o.flags ||| m) value index o.aliasName).key = o.key := by
  unfold Argument.key
  rw [UInt32.or_assoc, h]

theorem key_flagValue (o : Argument) : (flagValue flags sigil toggle o).key = o.key := by
  have hmark (value : Value) := key_mark (m := VALUE_PRESENT) (by decide) o value o.index
  unfold flagValue
  split_ifs
  · exact hmark _
  · exact hmark _
  · exact hmark _
  · rfl

theorem endRound_ensures (o : Argument) :
    (pure (endRound o c) : Traced ℤ _).Ensures (InArgv argv)
      fun r => r.1.key = o.key ∧ ∀ c', r.2 = .ok c' → c' = c := by
  refine ensures_pure ?_
  unfold endRound
  cases printStatus o with
  | some status =>
    refine ⟨rfl, ?_⟩
    rintro _ ⟨⟩
  | none =>
    refine ⟨rfl, ?_⟩
    rintro _ ⟨⟩
    rfl

theorem setOption_ensures (h : InArgv argv c.i) :
    (setOption flags argv sigil toggle option c).Ensures (InArgv argv)
      fun r => r.1.key = option.key ∧ ∀ c', r.2 = .ok c' → c' = c := by
  have hpresent := key_mark (m := ARGUMENT_PRESENT) (by decide) option option.value option.index
  unfold setOption
  cases c.value with
  | none =>
    refine ensures_ite (fun _ => ?_) fun _ => ?_
    · refine ensures_argAt_bind h fun _ => ensures_pure ⟨rfl, ?_⟩
      rintro _ ⟨⟩
    · rw [← hpresent, ← key_flagValue]
      exact endRound_ensures _
  | some value =>
    refine ensures_ite (fun _ => ?_) fun _ => ?_
    · rw [← hpresent, ← key_mark (m := VALUE_PRESENT) (by decide)]
      exact endRound_ensures _
    · refine ensures_argAt_bind h fun _ => ensures_pure ⟨hpresent, ?_⟩
      rintro _ ⟨⟩

theorem Ahead.inArgv (h : Ahead flags argv c c') (hback : 0 ≤ c.back) : InArgv argv c'.i :=
  c'.inArgv (Int.le_trans hback h.back_le) h.lt

theorem applyOption_ensures (hback : 0 ≤ c.back) (hi : c.i < argv.length) :
    (applyOption flags argv sigil toggle option c).Ensures (InArgv argv)
      fun r => r.1.key = option.key ∧ ∀ c', r.2 = .ok c' → Ahead flags argv c c' := by
  unfold applyOption
  refine (nextValue_ensures hback hi).bind fun r hr => ?_
  cases r with
  | error status =>
    refine ensures_pure ⟨rfl, ?_⟩
    rintro _ ⟨⟩
  | ok c₁ =>
    have h₁ := hr c₁ rfl
    refine (dropFlagValue_ensures (Int.le_trans hback h₁.back_le) h₁.lt).bind fun r hr => ?_
    cases r with
    | error status =>
      refine ensures_pure ⟨rfl, ?_⟩
      rintro _ ⟨⟩
    | ok c₂ =>
      have h₂ := h₁.trans (hr c₂ rfl)
      have hset : (setOption flags argv sigil toggle { option with index := c.i } c₂).Ensures _ _ :=
        setOption_ensures (h₂.inArgv hback)
      refine ⟨hset.1, hset.2.1, fun c' hc' => ?_⟩
      rwa [hset.2.2 c' hc']

/-- The loop over the options keeps their keywords, and reads arguments only. -/
theorem matchOptions_ensures (hback : 0 ≤ c.back) (hi : c.i < argv.length) (found : Bool) :
    (matchOptions flags argv sigil k options c found).Ensures (InArgv argv)
      fun r => r.1.map Argument.key = options.map Argument.key ∧
        ∀ c' found', r.2 = .ok (c', found') → Ahead flags argv c c' := by
  induction options generalizing c found with
  | nil =>
    refine ensures_pure ⟨rfl, ?_⟩
    rintro _ _ ⟨⟩
    exact .refl hi
  | cons option options ih =>
    unfold matchOptions
    refine ensures_ite (fun _ => ?_) fun _ => ?_
    · refine (applyOption_ensures hback hi).bind fun p hp => ?_
      obtain ⟨option', r⟩ := p
      obtain ⟨hkey, hok⟩ := hp
      cases r with
      | error status =>
        refine ensures_pure ⟨?_, ?_⟩
        · rw [List.map_cons, List.map_cons, ← hkey]
        · rintro _ _ ⟨⟩
      | ok c₁ =>
        have h₁ := hok c₁ rfl
        refine (ih (Int.le_trans hback h₁.back_le) h₁.lt true).bind fun r hr => ensures_pure ⟨?_, ?_⟩
        · rw [List.map_cons, List.map_cons, ← hkey, hr.1]
        · exact fun c' found' hc' => h₁.trans (hr.2 c' found' hc')
    · refine (ih hback hi found).bind fun r hr => ensures_pure ⟨?_, hr.2⟩
      rw [List.map_cons, List.map_cons, hr.1]

/-! ### Options that drop the value -/

def Argument.takesValue (option : Argument) : Bool :=
  hasFlag option.flags VALUE_REQUIRED || hasFlag option.flags VALUE_OPTIONAL

/-- The argument does not begin like an option. -/
def looksLikeValue (flags : UInt32) (next : CString) : Bool :=
  !(hasFlag flags SIGIL_DASH && sameStart 1 next.bytes (literal "-")) &&
    !(hasFlag flags SIGIL_DOUBLE_DASH && sameStart 2 next.bytes (literal "--")) &&
    !(hasFlag flags SIGIL_SLASH && sameStart 1 next.bytes (literal "/"))

/-- Whether there is still a value behind the separator after `option`, which finds one if `held`;
`none` if the option does not lead back.  A value that is dropped leads to the argument before, after
which the argument itself is the one that comes next: `isValue` says that it is taken for a value, and
`last` that none follows it. -/
def Argument.heldAfter (last isValue : Bool) (held : Bool) (option : Argument) : Option Bool :=
  if (printStatus option).isSome ∨ (held ∧ option.takesValue ∧ !last) then none
  else if (held ∨ (option.takesValue ∧ isValue)) ∧ !hasFlag option.flags VALUE_FLAG then
    if option.takesValue then some true else none
  else if hasFlag option.flags VALUE_REQUIRED then none
  else some false

theorem heldAfter_congr (h : option.key = option'.key) (last isValue held : Bool) :
    option.heldAfter last isValue held = option'.heldAfter last isValue held := by
  have hrequired : hasFlag option.flags VALUE_REQUIRED = hasFlag option'.flags VALUE_REQUIRED :=
    hasFlag_congr h (by decide)
  have hflag : hasFlag option.flags VALUE_FLAG = hasFlag option'.flags VALUE_FLAG :=
    hasFlag_congr h (by decide)
  have htakes : option.takesValue = option'.takesValue := by
    unfold Argument.takesValue
    rw [hrequired, hasFlag_congr h (by decide)]
  unfold Argument.heldAfter
  rw [printStatus_congr h, htakes, hflag, hrequired]

theorem value_valuePresent (i : ℤ) :
    (valuePresent flags argv i).value = looksLikeValue flags (argAt argv (i + 1)).value := by
  unfold valuePresent looksLikeValue
  cases hasFlag flags SIGIL_DASH <;> cases hasFlag flags SIGIL_DOUBLE_DASH <;>
    cases hasFlag flags SIGIL_SLASH <;> simp

theorem nextValue_ok_iff (hspace : hasFlag flags SEPARATOR_SPACE = true) :
    (nextValue flags argv option c).value = .ok c' ↔
      if c.i + 1 < argv.length ∧ option.takesValue then
        if looksLikeValue flags (argAt argv (c.i + 1)).value then
          ⟨c.i + 1, some (argAt argv (c.i + 1)).value⟩ = c'
        else hasFlag option.flags VALUE_OPTIONAL ∧ { c with value := none } = c'
      else c = c' := by
  unfold nextValue Argument.takesValue
  by_cases hnext : c.i + 1 < argv.length
  · rw [if_pos ⟨hspace, hnext⟩, value_bind, value_valuePresent]
    cases looksLikeValue flags (argAt argv (c.i + 1)).value <;>
      cases hasFlag option.flags VALUE_REQUIRED <;> cases hasFlag option.flags VALUE_OPTIONAL <;>
      simp [hnext]
  · simp [hnext]

theorem dropFlagValue_ok_iff (hspace : hasFlag flags SEPARATOR_SPACE = true) :
    (dropFlagValue flags argv option c).value = .ok c' ↔
      (if c.value.isSome ∧ hasFlag option.flags VALUE_FLAG then ⟨c.i - 1, none⟩ else c) = c' := by
  unfold dropFlagValue
  rw [if_pos hspace]
  split_ifs <;> simp

theorem endRound_ok_iff {o : Argument} (h : o.key = option.key) :
    (endRound o c).2 = .ok c' ↔ c = c' ∧ printStatus option = none := by
  unfold endRound
  rw [printStatus_congr h]
  cases printStatus option <;> simp

theorem setOption_ok_iff :
    (setOption flags argv sigil toggle option c).value.2 = .ok c' ↔
      (c = c' ∧ printStatus option = none) ∧
        (if c.value.isSome then option.takesValue else !hasFlag option.flags VALUE_REQUIRED) := by
  have hpresent := key_mark (m := ARGUMENT_PRESENT) (by decide) option option.value option.index
  unfold setOption
  cases c.value with
  | none =>
    cases hrequired : hasFlag option.flags VALUE_REQUIRED
    · simp only [Bool.false_eq_true, if_false, value_pure]
      rw [endRound_ok_iff ((key_flagValue _).trans hpresent)]
      simp
    · simp
  | some value =>
    have hmask : hasFlag (option.flags ||| ARGUMENT_PRESENT) (VALUE_OPTIONAL ||| VALUE_REQUIRED) =
        option.takesValue := by
      rw [hasFlag_or (by decide), hasFlag_mask_or, Bool.or_comm]
      rfl
    simp only [hmask]
    cases option.takesValue
    · simp
    · simp only [if_true, value_pure]
      rw [endRound_ok_iff ((key_mark (by decide) _ _ _).trans hpresent)]
      simp

theorem applyOption_ok_iff :
    (applyOption flags argv sigil toggle option c).value.2 = .ok c' ↔
      ∃ c₁ c₂, (nextValue flags argv option c).value = .ok c₁ ∧
        (dropFlagValue flags argv option c₁).value = .ok c₂ ∧
          (setOption flags argv sigil toggle option c₂).value.2 = .ok c' := by
  have hindex (c₂ : Cursor) :
      (setOption flags argv sigil toggle { option with index := c.i } c₂).value.2 = .ok c' ↔
        (setOption flags argv sigil toggle option c₂).value.2 = .ok c' := by
    have hprint : printStatus { option with index := c.i } = printStatus option := printStatus_congr rfl
    rw [setOption_ok_iff, setOption_ok_iff, hprint]
    rfl
  have hnext : nextValue flags argv { option with index := c.i } c = nextValue flags argv option c := rfl
  have hdrop (c₁ : Cursor) : dropFlagValue flags argv { option with index := c.i } c₁ =
      dropFlagValue flags argv option c₁ := rfl
  unfold applyOption
  rw [value_bind, hnext]
  cases (nextValue flags argv option c).value with
  | error status => simp
  | ok c₁ =>
    simp only [value_bind, hdrop, Except.ok.injEq]
    cases hc₂ : (dropFlagValue flags argv option c₁).value with
    | error status => simp [hc₂]
    | ok c₂ => simp [hindex, hc₂]

/-- What becomes of a value that an option has, or has not, when it is set. -/
def Argument.Settles (option : Argument) (present held : Bool) : Prop :=
  printStatus option = none ∧ (present && !hasFlag option.flags VALUE_FLAG) = held ∧
    if held then option.takesValue else !hasFlag option.flags VALUE_REQUIRED

theorem settles_iff {p : ℤ} {held : Bool} (hspace : hasFlag flags SEPARATOR_SPACE = true) :
    (∃ c', (applyOption flags argv sigil toggle option c).value.2 = .ok c' ∧ c'.back = p ∧
        c'.value.isSome = held) ↔
      ∃ c₁, (nextValue flags argv option c).value = .ok c₁ ∧ c₁.back = p ∧
        option.Settles c₁.value.isSome held := by
  simp only [applyOption_ok_iff, dropFlagValue_ok_iff hspace, setOption_ok_iff]
  unfold Argument.Settles
  constructor
  · rintro ⟨_, ⟨c₁, _, hnext, rfl, ⟨rfl, hprint⟩, hset⟩, rfl, rfl⟩
    refine ⟨c₁, hnext, ?_, hprint, ?_, hset⟩
    · unfold Cursor.back
      split_ifs <;> simp_all
    · split_ifs <;> simp_all
  · rintro ⟨c₁, hnext, rfl, hprint, rfl, hset⟩
    refine ⟨_, ⟨c₁, _, hnext, rfl, ⟨rfl, hprint⟩, ?_⟩, ?_, ?_⟩
    · split_ifs <;> simp_all
    · unfold Cursor.back
      split_ifs <;> simp_all
    · split_ifs <;> simp_all

theorem heldAfter_iff_settles (last isValue present held : Bool) :
    option.heldAfter last isValue present = some held ↔
      ¬ (present ∧ option.takesValue ∧ !last) ∧ option.Settles
        (present || option.takesValue && isValue) held := by
  unfold Argument.heldAfter Argument.Settles
  cases printStatus option with
  | some status => simp
  | none =>
    cases present <;> cases option.takesValue <;> cases hasFlag option.flags VALUE_FLAG <;>
      cases hasFlag option.flags VALUE_REQUIRED <;> cases held <;> simp

/-- The argument at `i` has a value behind a separator, which the options of the keyword may have
dropped. -/
theorem heldAfter_iff {i : ℤ} (hspace : hasFlag flags SEPARATOR_SPACE = true) (hi : i < argv.length)
    (hback : c.back = i - 1) (held : Bool) :
    option.heldAfter (!(i + 1 < argv.length)) (looksLikeValue flags (argAt argv i).value) c.value.isSome =
        some held ↔
      ∃ c', (applyOption flags argv sigil toggle option c).value.2 = .ok c' ∧ c'.back = i - 1 ∧
        c'.value.isSome = held := by
  rw [settles_iff hspace, heldAfter_iff_settles]
  simp only [nextValue_ok_iff hspace]
  obtain ⟨place, value⟩ := c
  cases value with
  | none =>
    -- the argument itself is the one that comes next
    obtain rfl : place = i - 1 := by simpa [Cursor.back] using hback
    rw [Int.sub_add_cancel]
    cases htakes : option.takesValue with
    | false => simp [Cursor.back]
    | true =>
      cases looksLikeValue flags (argAt argv i).value with
      | false =>
        have hoptional (h : option.Settles false held) : hasFlag option.flags VALUE_OPTIONAL = true := by
          obtain ⟨-, rfl, hset⟩ := h
          simpa [Argument.takesValue, show hasFlag option.flags VALUE_REQUIRED = false by simpa using hset]
            using htakes
        simpa [hi, Cursor.back, and_assoc] using hoptional
      | true => simp [hi, Cursor.back]
  | some w =>
    obtain rfl : place = i := by simp [Cursor.back] at hback; omega
    dsimp only
    by_cases htaken : place + 1 < argv.length ∧ option.takesValue
    · -- taking the next argument leads beyond the place, also if it is given back
      simp only [if_pos htaken]
      refine iff_of_false (by simp [htaken]) ?_
      rintro ⟨c₁, hnext, hplace, -⟩
      split_ifs at hnext
      · subst hnext
        simp [Cursor.back] at hplace
        omega
      · obtain ⟨-, rfl⟩ := hnext
        simp [Cursor.back] at hplace
        omega
    · simp only [if_neg htaken]
      simp only [exists_eq_left', hback, true_and, Option.isSome_some, Bool.true_or]
      refine and_iff_right ?_
      simpa [and_comm] using htaken

/-! ### The loop over the options -/

theorem matchOptions_cons_ok_iff {found : Bool} {r : Cursor × Bool}
    (h : option.isKeyword k.keyword k.keywordLength = true) :
    (matchOptions flags argv sigil k (option :: options) c found).value.2 = .ok r ↔
      ∃ c₁, (applyOption flags argv sigil k.toggle option c).value.2 = .ok c₁ ∧
        (matchOptions flags argv sigil k options c₁ true).value.2 = .ok r := by
  rw [matchOptions, if_pos h, value_bind]
  obtain ⟨option', next⟩ := (applyOption flags argv sigil k.toggle option c).value
  cases next with
  | error status => simp
  | ok c₁ => simp

theorem matchOptions_cons_of_not {found : Bool} (h : ¬ option.isKeyword k.keyword k.keywordLength = true) :
    (matchOptions flags argv sigil k (option :: options) c found).value.2 =
      (matchOptions flags argv sigil k options c found).value.2 := by
  rw [matchOptions, if_neg h]
  rfl

theorem matchOptions_found {found found' : Bool}
    (h : (matchOptions flags argv sigil k options c found).value.2 = .ok (c', found')) :
    found' = (found || options.any fun o => o.isKeyword k.keyword k.keywordLength) := by
  induction options generalizing c found with
  | nil =>
    obtain ⟨⟩ := h
    simp
  | cons option options ih =>
    by_cases hkeyword : option.isKeyword k.keyword k.keywordLength = true
    · obtain ⟨c₁, -, hrest⟩ := (matchOptions_cons_ok_iff hkeyword).mp h
      rw [ih hrest]
      simp [hkeyword]
    · rw [matchOptions_cons_of_not hkeyword] at h
      rw [ih h]
      simp [hkeyword]

/-- Whether there is still a value behind the separator after all options of the keyword. -/
def heldAfterOptions (k : Keyword) (last isValue : Bool) (options : List Argument) (held : Bool) :
    Option Bool :=
  (options.filter fun o => o.isKeyword k.keyword k.keywordLength).foldlM
    (fun held o => o.heldAfter last isValue held) held

theorem heldAfterOptions_cons {last isValue held : Bool}
    (h : option.isKeyword k.keyword k.keywordLength = true) :
    heldAfterOptions k last isValue (option :: options) held =
      (option.heldAfter last isValue held).bind (heldAfterOptions k last isValue options) := by
  unfold heldAfterOptions
  rw [List.filter_cons_of_pos (p := fun o : Argument => o.isKeyword k.keyword k.keywordLength) h]
  rfl

theorem heldAfterOptions_cons_of_not {last isValue held : Bool}
    (h : ¬ option.isKeyword k.keyword k.keywordLength = true) :
    heldAfterOptions k last isValue (option :: options) held = heldAfterOptions k last isValue
      options held := by
  unfold heldAfterOptions
  rw [List.filter_cons_of_neg (p := fun o : Argument => o.isKeyword k.keyword k.keywordLength) h]

theorem heldAfterOptions_congr {last isValue held : Bool}
    (h : options.map Argument.key = options'.map Argument.key) :
    heldAfterOptions k last isValue options held = heldAfterOptions k last isValue options' held := by
  induction options generalizing options' held with
  | nil => rw [List.map_eq_nil_iff.mp h.symm]
  | cons option options ih =>
    obtain ⟨option', options', rfl, hkey, hrest⟩ := List.map_eq_cons_iff.mp h.symm
    have hkeyword := isKeyword_congr hkey k.keyword k.keywordLength
    by_cases hnamed : option.isKeyword k.keyword k.keywordLength = true
    · rw [heldAfterOptions_cons hnamed, heldAfterOptions_cons (hkeyword.trans hnamed), heldAfter_congr hkey]
      exact congrArg _ (funext fun held => ih hrest.symm)
    · rw [heldAfterOptions_cons_of_not hnamed, heldAfterOptions_cons_of_not (by rwa [hkeyword]),
        ih hrest.symm]

theorem heldAfterOptions_iff {i : ℤ} {held found : Bool} (hspace : hasFlag flags SEPARATOR_SPACE = true)
    (hi : i < argv.length) (hpos : 1 ≤ i) (hlt : c.i < argv.length) (hback : c.back = i - 1) :
    heldAfterOptions k (!(i + 1 < argv.length)) (looksLikeValue flags (argAt argv i).value) options
        c.value.isSome = some held ↔
      ∃ c' found', (matchOptions flags argv sigil k options c found).value.2 = .ok (c', found') ∧
        c'.back = i - 1 ∧ c'.value.isSome = held := by
  induction options generalizing c found with
  | nil => simp [heldAfterOptions, matchOptions, hback]
  | cons option options ih =>
    by_cases hkeyword : option.isKeyword k.keyword k.keywordLength = true
    · have hfirst : (applyOption flags argv sigil k.toggle option c).Ensures _ _ :=
        applyOption_ensures (by omega) hlt
      rw [heldAfterOptions_cons hkeyword, Option.bind_eq_some_iff]
      simp only [matchOptions_cons_ok_iff hkeyword]
      constructor
      · rintro ⟨held₁, hheld₁, hrest⟩
        obtain ⟨c₁, hc₁, hback₁, rfl⟩ := (heldAfter_iff hspace hi hback held₁).mp hheld₁
        obtain ⟨c', found', hc', hplace, hheld⟩ := (ih (hfirst.2.2 c₁ hc₁).lt hback₁).mp hrest
        exact ⟨c', found', ⟨c₁, hc₁, hc'⟩, hplace, hheld⟩
      · rintro ⟨c', found', ⟨c₁, hc₁, hc'⟩, hplace, hheld⟩
        -- the place is never left downwards, so that it is the same in between
        have h₁ := hfirst.2.2 c₁ hc₁
        have hle₁ := h₁.back_le
        have hrest : (matchOptions flags argv sigil k options c₁ true).Ensures _ _ :=
          matchOptions_ensures (by omega) h₁.lt true
        have hback₁ : c₁.back = i - 1 :=
          Int.le_antisymm (hplace ▸ (hrest.2.2 c' found' hc').back_le) (hback ▸ hle₁)
        exact ⟨_, (heldAfter_iff hspace hi hback _).mpr ⟨c₁, hc₁, hback₁, rfl⟩,
          (ih h₁.lt hback₁).mpr ⟨c', found', hc', hplace, hheld⟩⟩
    · rw [heldAfterOptions_cons_of_not hkeyword]
      simp only [matchOptions_cons_of_not hkeyword]
      exact ih hlt hback

/-! ### Rounds that rewind -/

/-- The argument at which a round begins. -/
def Parser.argument (argv : List CString) (s : Parser) : CString := (argAt argv s.i).value

/-- The value behind the separator of a keyword is dropped, and no other taken for it. -/
def DropsValue (flags : UInt32) (argv : List CString) (s : Parser) (k : Keyword) : Prop :=
  k.value.isSome = true ∧
    heldAfterOptions k (!(s.i + 1 < argv.length)) (looksLikeValue flags (s.argument argv)) s.options true =
      some false

/-- The round that begins at `s` ends before the argument at which it began: the value of an option may
be the argument that comes next, but stands behind a separator here, and is dropped. -/
structure Rewinds (flags : UInt32) (argv : List CString) (s : Parser) : Prop where
  lt : s.i < argv.length
  space : hasFlag flags SEPARATOR_SPACE = true
  drops : ∃ g ∈ sigilOf flags s.notescaped (s.argument argv), g.escaped = true ∧
    g.length < (s.argument argv).length ∧
      DropsValue flags argv s (keywordOf flags ((s.argument argv).drop g.length))

theorem Cursor.back_of_isSome (h : c.value.isSome = true) : c.back = c.i - 1 := if_pos h

theorem Cursor.sub_one_le_back (c : Cursor) : c.i - 1 ≤ c.back := by
  unfold back
  split_ifs <;> omega

theorem applyKeyword_inl_iff {notescaped : Bool} :
    (applyKeyword flags argv sigil k notescaped s).value = .inl t ↔
      ∃ c found, (matchOptions flags argv sigil k s.options ⟨s.i, k.value⟩ false).value.2 = .ok (c, found) ∧
        (found = true ∨ hasFlag flags IGN_UNKNOWN_KEYWORD = true) ∧
          ⟨c.i + 1, notescaped, (matchOptions flags argv sigil k s.options ⟨s.i, k.value⟩
            false).value.1⟩ = t := by
  unfold applyKeyword
  rw [value_bind]
  obtain ⟨options, r⟩ := (matchOptions flags argv sigil k s.options ⟨s.i, k.value⟩ false).value
  cases r with
  | error status => simp
  | ok r =>
    obtain ⟨c, found⟩ := r
    cases found <;> cases hasFlag flags IGN_UNKNOWN_KEYWORD <;> simp

theorem parseStep_inl_iff :
    (parseStep flags argv s).value = .inl t ↔
      s.i < argv.length ∧ ∃ g ∈ sigilOf flags s.notescaped (s.argument argv),
        if (s.argument argv).length < g.length + 1 then
          hasFlag flags IGN_UNKNOWN_KEYWORD = true ∧ ⟨s.i + 1, g.notescaped, s.options⟩ = t
        else if !g.escaped then ⟨s.i + 1, g.notescaped, s.options⟩ = t
        else (applyKeyword flags argv (s.argument argv) (keywordOf flags ((s.argument argv).drop g.length))
          g.notescaped s).value = .inl t := by
  unfold parseStep Parser.argument
  by_cases hlt : s.i < argv.length
  · rw [if_pos hlt, value_bind]
    cases sigilOf flags s.notescaped (argAt argv s.i).value with
    | none => simp
    | some g =>
      simp only [hlt, true_and, Option.mem_def, Option.some.injEq, exists_eq_left']
      split_ifs <;> simp_all
  · simp [hlt]

theorem Cursor.back_nonneg {value : Option CString} (hpos : 1 ≤ s.i) : 0 ≤ (Cursor.mk s.i value).back :=
  Int.le_trans (by dsimp only; omega) (Cursor.sub_one_le_back _)

theorem round_ensures (hpos : 1 ≤ s.i) (hlt : s.i < argv.length) (flags : UInt32) (sigil : CString)
    (k : Keyword) :
    (matchOptions flags argv sigil k s.options ⟨s.i, k.value⟩ false).Ensures (InArgv argv)
      fun r => r.1.map Argument.key = s.options.map Argument.key ∧
        ∀ c found, r.2 = .ok (c, found) → Ahead flags argv ⟨s.i, k.value⟩ c :=
  matchOptions_ensures (Cursor.back_nonneg hpos) hlt false

theorem safe_applyKeyword {notescaped : Bool} (hpos : 1 ≤ s.i) (hlt : s.i < argv.length) :
    (applyKeyword flags argv sigil k notescaped s).Safe (InArgv argv) := by
  obtain ⟨hsafe, -, hahead⟩ := round_ensures hpos hlt flags sigil k
  unfold applyKeyword
  rw [safe_bind]
  refine ⟨hsafe, ?_⟩
  revert hahead
  obtain ⟨options, r⟩ := (matchOptions flags argv sigil k s.options ⟨s.i, k.value⟩ false).value
  intro hahead
  cases r with
  | error status => simp
  | ok r =>
    obtain ⟨c, found⟩ := r
    have hin : InArgv argv c.i := (hahead c found rfl).inArgv (Cursor.back_nonneg hpos)
    simp [safe_ite, hin]

/-- A round reads arguments only. -/
theorem safe_parseStep (hpos : 1 ≤ s.i) : (parseStep flags argv s).Safe (InArgv argv) := by
  unfold parseStep
  by_cases hlt : s.i < argv.length
  · have hin : InArgv argv s.i := ⟨by omega, hlt⟩
    rw [if_pos hlt, safe_bind]
    refine ⟨(safe_argAt _).mpr hin, ?_⟩
    cases sigilOf flags s.notescaped (argAt argv s.i).value with
    | none => simp [hin]
    | some g => simp [safe_ite, safe_applyKeyword hpos hlt]
  · simp [hlt]

theorem exists_option_of_heldAfterOptions {last isValue : Bool}
    (h : heldAfterOptions k last isValue options true = some false) :
    (options.any fun o => o.isKeyword k.keyword k.keywordLength) = true := by
  by_contra hany
  have hnil : (options.filter fun o => o.isKeyword k.keyword k.keywordLength) = [] := by
    simpa using hany
  simp [heldAfterOptions, hnil] at h

theorem notescaped_of_escaped {notescaped : Bool} {g : Sigil} (h : sigilOf flags notescaped sigil = some g)
    (hescaped : g.escaped = true) : g.notescaped = notescaped := by
  unfold sigilOf at h
  split_ifs at h <;> cases h <;> simp_all

theorem DropsValue.matchOptions_eq (h : DropsValue flags argv s k)
    (hspace : hasFlag flags SEPARATOR_SPACE = true)
    (hpos : 1 ≤ s.i) (hlt : s.i < argv.length) :
    ∃ c, (matchOptions flags argv sigil k s.options ⟨s.i, k.value⟩ false).value.2 = .ok (c, true) ∧
      c.i + 1 = s.i := by
  obtain ⟨hvalue, hdrops⟩ := h
  have hback : (Cursor.mk s.i k.value).back = s.i - 1 := Cursor.back_of_isSome hvalue
  rw [← hvalue] at hdrops
  obtain ⟨c, found, hc, hplace, hheld⟩ :=
    (heldAfterOptions_iff (c := ⟨s.i, k.value⟩) hspace hlt hpos hlt hback).mp hdrops
  rw [hvalue] at hdrops
  obtain rfl : found = true := by
    rw [matchOptions_found hc, exists_option_of_heldAfterOptions hdrops, Bool.false_or]
  refine ⟨c, hc, ?_⟩
  rw [Cursor.back_of_eq_none (by simpa using hheld)] at hplace
  omega

/-- The options of a keyword only lead back by dropping its value. -/
theorem dropsValue_of_lt {found : Bool} (hpos : 1 ≤ s.i) (hlt : s.i < argv.length)
    (hc : (matchOptions flags argv sigil k s.options ⟨s.i, k.value⟩ false).value.2 = .ok (c, found))
    (hi : c.i < s.i) : hasFlag flags SEPARATOR_SPACE = true ∧ DropsValue flags argv s k := by
  have h := (round_ensures hpos hlt flags sigil k).2.2 c found hc
  have hspace : hasFlag flags SEPARATOR_SPACE = true := by
    by_contra hspace
    have hfixed := h.fixed (by simpa using hspace)
    dsimp only at hfixed
    omega
  have hle := Int.le_trans h.back_le c.back_le
  have hvalue : k.value.isSome = true := by
    by_contra hnone
    rw [Cursor.back_of_eq_none (by simpa using hnone)] at hle
    dsimp only at hle
    omega
  have hback : (Cursor.mk s.i k.value).back = s.i - 1 := Cursor.back_of_isSome hvalue
  have hplace : c.back = s.i - 1 := by
    have := h.back_le
    have := c.back_le
    omega
  have hheld : c.value.isSome = false := by
    rw [Bool.eq_false_iff]
    intro hsome
    rw [Cursor.back_of_isSome hsome] at hplace
    omega
  refine ⟨hspace, hvalue, ?_⟩
  have hiff := (heldAfterOptions_iff (c := ⟨s.i, k.value⟩) hspace hlt hpos hlt hback).mpr
    ⟨c, found, hc, hplace, hheld⟩
  rwa [hvalue] at hiff

theorem Rewinds.congr (h : Rewinds flags argv s)
    (hkeys : options.map Argument.key = s.options.map Argument.key) :
    Rewinds flags argv ⟨s.i, s.notescaped, options⟩ := by
  obtain ⟨hlt, hspace, g, hg, hescaped, hlength, hvalue, hdrops⟩ := h
  refine ⟨hlt, hspace, g, hg, hescaped, hlength, hvalue, ?_⟩
  rwa [heldAfterOptions_congr hkeys]

/-- A round that rewinds leads to one that does so as well, at the same argument. -/
theorem Rewinds.next (h : Rewinds flags argv s) (hpos : 1 ≤ s.i) :
    ∃ t, (parseStep flags argv s).value = .inl t ∧ t.i = s.i ∧ Rewinds flags argv t := by
  obtain ⟨g, hg, hescaped, hlength, hdrops⟩ := h.drops
  have hkeys := (round_ensures hpos h.lt flags (s.argument argv)
    (keywordOf flags ((s.argument argv).drop g.length))).2.1
  have hnext := h.congr hkeys
  refine ⟨_, ?_, by rfl, hnext⟩
  rw [parseStep_inl_iff]
  refine ⟨h.lt, g, hg, ?_⟩
  rw [if_neg (by omega), if_neg (by simp [hescaped]), applyKeyword_inl_iff]
  obtain ⟨c, hc, hi⟩ := hdrops.matchOptions_eq h.space hpos h.lt
  exact ⟨c, true, hc, .inl rfl, by rw [hi, notescaped_of_escaped hg hescaped]⟩

/-- A round that does not rewind ends behind the argument at which it began. -/
theorem lt_of_not_rewinds (h : ¬ Rewinds flags argv s) (hpos : 1 ≤ s.i)
    (ht : (parseStep flags argv s).value = .inl t) : s.i < t.i := by
  obtain ⟨hlt, g, hg, hround⟩ := parseStep_inl_iff.mp ht
  split_ifs at hround with hlength hescaped
  · obtain ⟨-, rfl⟩ := hround
    exact Int.lt_succ s.i
  · subst hround
    exact Int.lt_succ s.i
  · obtain ⟨c, found, hc, -, rfl⟩ := applyKeyword_inl_iff.mp hround
    by_contra hle
    obtain ⟨hspace, hdrops⟩ := dropsValue_of_lt hpos hlt hc (by dsimp only at hle; omega)
    exact h ⟨hlt, hspace, g, hg, by simpa using hescaped, by omega, hdrops⟩

theorem le_of_parseStep (hpos : 1 ≤ s.i) (ht : (parseStep flags argv s).value = .inl t) : s.i ≤ t.i := by
  by_cases h : Rewinds flags argv s
  · obtain ⟨t', ht', hi, -⟩ := h.next hpos
    obtain rfl : t' = t := Sum.inl.inj (ht'.symm.trans ht)
    exact Int.le_of_eq hi.symm
  · exact Int.le_of_lt (lt_of_not_rewinds h hpos ht)

theorem exists_loop_iff (hpos : 1 ≤ s.i) :
    (∃ rounds, (loop (parseStep flags argv) rounds s).value ≠ none) ↔
      ∀ t, Visits (parseStep flags argv) s t → ¬ Rewinds flags argv t := by
  simp only [value_loop, ne_eq, Option.ne_none_iff_exists']
  refine exists_iterate_iff (I := fun s => 1 ≤ s.i) (μ := fun s => (argv.length - s.i).toNat)
    (fun s t hs ht => Int.le_trans hs (le_of_parseStep hs ht)) ?_ ?_ hpos
  · intro s t hs hstalls ht
    have hlt := lt_of_not_rewinds hstalls hs ht
    have := (parseStep_inl_iff.mp ht).1
    omega
  · intro s hs hstalls
    obtain ⟨t, ht, -, hnext⟩ := hstalls.next hs
    exact ⟨t, ht, hnext⟩

/-- Parsing the arguments of a command line ends, and reads arguments only, if and only if no round of
the loop rewinds. -/
theorem commandLineParseArgumentsA_ends_iff (argv : List CString) (options : List Argument)
    (flags : UInt32) :
    ((∃ rounds, (commandLineParseArgumentsA rounds (some argv) options flags).value ≠ none) ∧
        ∀ rounds, (commandLineParseArgumentsA rounds (some argv) options flags).Safe (InArgv argv)) ↔
      ∀ s, Visits (parseStep flags argv) ⟨1, false, options⟩ s → ¬ Rewinds flags argv s := by
  rw [← exists_loop_iff (Int.le_refl 1)]
  have hsafe (rounds : ℕ) : (loop (parseStep flags argv) rounds ⟨1, false, options⟩).Safe
      (InArgv argv) := by
    refine safe_loop (fun t ht => safe_parseStep ?_) rounds
    exact ht.invariant (I := fun t => 1 ≤ t.i) (Int.le_refl 1) fun t t' ht hnext =>
      Int.le_trans ht (le_of_parseStep ht hnext)
  unfold commandLineParseArgumentsA
  by_cases hone : argv.length = 1
  · simp only [if_pos hone, safe_pure, value_pure]
    refine iff_of_true ⟨⟨0, Option.some_ne_none _⟩, fun _ => trivial⟩ ⟨1, ?_⟩
    simp [parseStep, iterate, hone]
  · simp only [if_neg hone]
    exact and_iff_left hsafe

theorem Rewinds.loop_eq_none (h : Rewinds flags argv s) (hpos : 1 ≤ s.i) (rounds : ℕ) :
    (loop (parseStep flags argv) rounds s).value = none := by
  by_contra hends
  exact (exists_loop_iff hpos).mp ⟨rounds, hends⟩ s .refl h

/-- A value behind the separator of a flag is dropped, over and over again. -/
theorem commandLineParseArgumentsA_not_ends :
    ¬ ∃ rounds, (commandLineParseArgumentsA rounds
      (some [cStringAt (literal "prog") 0, cStringAt (literal "/flag:x") 0])
      [⟨cStringAt (literal "flag") 0, VALUE_FLAG, .null, 0, none⟩]
      (SIGIL_SLASH ||| SEPARATOR_COLON ||| SEPARATOR_SPACE)).value ≠ none := by
  rintro ⟨rounds, hends⟩
  refine hends (Rewinds.loop_eq_none ⟨by decide, by decide, ⟨1, true, false⟩, ?_, rfl, ?_, ?_, ?_⟩
    (Int.le_refl 1) rounds)
  · decide
  · decide
  · decide
  · decide

end FreeRDP.Cmdline
