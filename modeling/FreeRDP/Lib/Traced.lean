import FreeRDP.Lib.Iterate

/-!
# Programs that record their accesses

A `Traced α β` is a value together with the list of the accesses that were made to compute it; in the
monad the accesses of the parts follow one another.  `Safe P x` says that every access satisfies `P`, and
is computed part by part (`safe_bind`).

`loop step n s` runs a traced loop body for at most `n` rounds.  Its value is that of `iterate` for the
values of the body (`value_loop`); it is safe if the body is safe in every state that is visited
(`safe_loop_iff`).  `loop_iff` is the rule for a loop whose invariant is only kept by rounds that meet a
condition: the loop ends and is safe if and only if all its rounds meet it.  `Finishes P step s` says
that the loop ends and is safe without a number of rounds; it is known round by round
(`finishes_iff_of_inl`).

`Ensures P x Q` joins to the safety what is known of the value, so that an invariant goes along with it
from part to part.
-/

/-- A value and the accesses that were made to compute it. -/
structure Traced (α β : Type) where
  value : β
  trace : List α

namespace Traced

open Iterate Relation

variable {α β γ σ ρ : Type} {P Q : α → Prop}

/-- What needs no access. -/
protected def pure (b : β) : Traced α β := ⟨b, []⟩

/-- The accesses of `x`, and those of what follows with its value. -/
protected def bind (x : Traced α β) (f : β → Traced α γ) : Traced α γ :=
  ⟨(f x.value).value, x.trace ++ (f x.value).trace⟩

instance : Monad (Traced α) where
  pure := Traced.pure
  bind := Traced.bind

def access (a : α) : Traced α Unit := ⟨(), [a]⟩

/-- Some accesses, one after another. -/
def accesses (as : List α) : Traced α Unit := ⟨(), as⟩

/-- The accesses under other names. -/
def map (f : α → γ) (x : Traced α β) : Traced γ β := ⟨x.value, x.trace.map f⟩

/-- Every access satisfies `P`. -/
def Safe (P : α → Prop) (x : Traced α β) : Prop := ∀ a ∈ x.trace, P a

/-! ### Values and accesses of a program -/

@[simp] theorem value_pure (b : β) : (pure b : Traced α β).value = b := rfl

@[simp] theorem value_bind (x : Traced α β) (f : β → Traced α γ) :
    (x >>= f).value = (f x.value).value := rfl

@[simp] theorem value_access (a : α) : (access a).value = () := rfl

@[simp] theorem value_accesses (as : List α) : (accesses as).value = () := rfl

@[simp] theorem value_map (f : α → γ) (x : Traced α β) : (x.map f).value = x.value := rfl

@[simp] theorem safe_map {R : γ → Prop} (f : α → γ) (x : Traced α β) :
    Safe R (x.map f) ↔ Safe (fun a => R (f a)) x := List.forall_mem_map

@[simp] theorem safe_pure (b : β) : Safe P (pure b) ↔ True :=
  ⟨fun _ => trivial, fun _ => nofun⟩

@[simp] theorem safe_bind (x : Traced α β) (f : β → Traced α γ) :
    Safe P (x >>= f) ↔ Safe P x ∧ Safe P (f x.value) := List.forall_mem_append

@[simp] theorem safe_access (a : α) : Safe P (access a) ↔ P a := List.forall_mem_singleton

@[simp] theorem safe_accesses (as : List α) : Safe P (accesses as) ↔ ∀ a ∈ as, P a := Iff.rfl

theorem safe_ite {c : Prop} [Decidable c] {x y : Traced α β} :
    Safe P (if c then x else y) ↔ (c → Safe P x) ∧ (¬ c → Safe P y) := by
  split_ifs with hc <;> simp [hc]

theorem value_ite {c : Prop} [Decidable c] {x y : Traced α β} :
    (if c then x else y).value = if c then x.value else y.value := apply_ite _ _ _ _

theorem trace_bind (x : Traced α β) (f : β → Traced α γ) :
    (x >>= f).trace = x.trace ++ (f x.value).trace := rfl

theorem Safe.mono {x : Traced α β} (h : x.Safe P) (hPQ : ∀ a, P a → Q a) : x.Safe Q :=
  fun a ha => hPQ a (h a ha)

/-! ### What a program ensures -/

/-- Every access satisfies `P`, and the value `Q`. -/
def Ensures (P : α → Prop) (x : Traced α β) (Q : β → Prop) : Prop := x.Safe P ∧ Q x.value

theorem ensures_pure {Q : β → Prop} {b : β} (h : Q b) : (pure b : Traced α β).Ensures P Q :=
  ⟨(safe_pure b).mpr trivial, h⟩

theorem Ensures.bind {Q : β → Prop} {R : γ → Prop} {x : Traced α β} {f : β → Traced α γ}
    (hx : x.Ensures P Q) (hf : ∀ b, Q b → (f b).Ensures P R) : (x >>= f).Ensures P R :=
  ⟨(safe_bind x f).mpr ⟨hx.1, (hf _ hx.2).1⟩, (hf _ hx.2).2⟩

theorem ensures_ite {Q : β → Prop} {c : Prop} [Decidable c] {x y : Traced α β}
    (hx : c → x.Ensures P Q) (hy : ¬ c → y.Ensures P Q) :
    (if c then x else y).Ensures P Q := by
  split_ifs with hc
  · exact hx hc
  · exact hy hc

/-- What every round of a loop keeps. -/
theorem ensures_foldlM {I : σ → Prop} {f : σ → β → Traced α σ} {s : σ} (bs : List β) (hs : I s)
    (hf : ∀ t, ∀ b ∈ bs, I t → (f t b).Ensures P I) : (bs.foldlM f s).Ensures P I := by
  induction bs generalizing s with
  | nil => exact ensures_pure hs
  | cons b bs ih =>
    rw [List.foldlM_cons]
    refine (hf s b List.mem_cons_self hs).bind fun t ht => ih ht ?_
    exact fun u b' hb' hu => hf u b' (List.mem_cons_of_mem b hb') hu

/-- What safe rounds keep holds behind a loop that is safe. -/
theorem Safe.foldlM {I : σ → Prop} {f : σ → β → Traced α σ} {s : σ} {bs : List β}
    (h : (bs.foldlM f s).Safe P) (hs : I s)
    (hf : ∀ t b, I t → (f t b).Safe P → I (f t b).value) : I (bs.foldlM f s).value := by
  induction bs generalizing s with
  | nil => exact hs
  | cons b bs ih =>
    rw [List.foldlM_cons, safe_bind] at h
    rw [List.foldlM_cons, value_bind]
    exact ih h.2 (hf s b hs h.1)

/-- What every run of a round accesses. -/
theorem mem_trace_foldlM {f : σ → β → Traced α σ} {a : α} {b : β} {bs : List β}
    (h : ∀ s, a ∈ (f s b).trace) (hb : b ∈ bs) (s : σ) : a ∈ (bs.foldlM f s).trace := by
  induction hb generalizing s with
  | head bs =>
    rw [List.foldlM_cons, trace_bind]
    exact List.mem_append_left _ (h s)
  | tail b' _ ih =>
    rw [List.foldlM_cons, trace_bind]
    exact List.mem_append_right _ (ih _)

/-! ### Loops -/

/-- A loop with an exit, for at most `n` rounds. -/
def loop (step : σ → Traced α (σ ⊕ ρ)) : ℕ → σ → Traced α (Option ρ)
  | 0, _ => pure none
  | n + 1, s => do
    match ← step s with
    | .inl s' => loop step n s'
    | .inr r => pure (some r)

variable {step : σ → Traced α (σ ⊕ ρ)} {s t : σ} {r : ρ} {n : ℕ}

theorem loop_succ (step : σ → Traced α (σ ⊕ ρ)) (n : ℕ) (s : σ) :
    loop step (n + 1) s = step s >>= fun next =>
      match next with
      | .inl s' => loop step n s'
      | .inr r => pure (some r) := rfl

@[simp] theorem value_loop (step : σ → Traced α (σ ⊕ ρ)) (n : ℕ) (s : σ) :
    (loop step n s).value = iterate (fun t => (step t).value) n s := by
  induction n generalizing s with
  | zero => rfl
  | succ n ih =>
    rw [loop_succ, value_bind, iterate]
    cases (step s).value with
    | inl s' => exact ih s'
    | inr r => rfl

theorem safe_loop_succ :
    (loop step (n + 1) s).Safe P ↔
      (step s).Safe P ∧ ∀ s', (step s).value = .inl s' → (loop step n s').Safe P := by
  rw [loop_succ, safe_bind]
  refine and_congr_right fun _ => ?_
  cases (step s).value with
  | inl s' =>
    constructor
    · intro h t ht
      rwa [← Sum.inl.inj ht]
    · exact fun h => h s' rfl
  | inr r => exact ⟨fun _ => nofun, fun _ => (safe_pure _).mpr trivial⟩

/-- A round leads from one state to the next. -/
def Next (step : σ → Traced α (σ ⊕ ρ)) (s t : σ) : Prop := (step s).value = .inl t

/-- The state is one of those in which the loop starts a round. -/
def Visits (step : σ → Traced α (σ ⊕ ρ)) : σ → σ → Prop := ReflTransGen (Next step)

/-- What rounds keep holds of every state that is visited. -/
theorem Visits.invariant {I : σ → Prop} (h : Visits step s t) (hs : I s)
    (hnext : ∀ t t', I t → Next step t t' → I t') : I t := by
  induction h with
  | refl => exact hs
  | tail _ hlast ih => exact hnext _ _ ih hlast

/-- The result of a loop is that of a round in which it is left. -/
theorem exists_exit (h : (loop step n s).value = some r) :
    ∃ t, Visits step s t ∧ (step t).value = .inr r := by
  rw [value_loop] at h
  induction n generalizing s with
  | zero => exact nomatch h
  | succ n ih =>
    cases hstep : (step s).value with
    | inl s' =>
      rw [iterate_inl hstep] at h
      obtain ⟨t, ht, hexit⟩ := ih h
      exact ⟨t, ReflTransGen.head hstep ht, hexit⟩
    | inr r' =>
      rw [iterate_inr hstep] at h
      exact ⟨s, .refl, by rw [hstep, Option.some.inj h]⟩

/-- A loop has the result of the round that leaves it. -/
theorem Visits.result {r' : ρ} (ht : Visits step s t) (hexit : (step t).value = .inr r)
    (h : (loop step n s).value = some r') : r' = r := by
  rw [value_loop] at h
  induction ht using ReflTransGen.head_induction_on generalizing n with
  | refl =>
    cases n with
    | zero => exact nomatch h
    | succ n =>
      rw [iterate_inr hexit] at h
      exact (Option.some.inj h).symm
  | head hnext _ ih =>
    cases n with
    | zero => exact nomatch h
    | succ n =>
      unfold Next at hnext
      rw [iterate_inl hnext] at h
      exact ih h

/-- A loop whose rounds are safe is safe. -/
theorem safe_loop (h : ∀ t, Visits step s t → (step t).Safe P) (n : ℕ) :
    (loop step n s).Safe P := by
  induction n generalizing s with
  | zero => exact (safe_pure _).mpr trivial
  | succ n ih =>
    refine safe_loop_succ.mpr ⟨h s .refl, fun s' hs' => ih fun t ht => ?_⟩
    exact h t (ReflTransGen.head hs' ht)

/-- A loop that ends is safe if and only if all its rounds are. -/
theorem safe_loop_iff (hend : (loop step n s).value ≠ none) :
    (loop step n s).Safe P ↔ ∀ t, Visits step s t → (step t).Safe P := by
  refine ⟨fun h t ht => ?_, fun h => safe_loop h n⟩
  rw [value_loop] at hend
  induction n generalizing s with
  | zero => exact absurd rfl hend
  | succ n ih =>
    obtain ⟨hround, hrest⟩ := safe_loop_succ.mp h
    rcases ReflTransGen.cases_head ht with rfl | ⟨s', hs', ht'⟩
    · exact hround
    · have hs : (step s).value = .inl s' := hs'
      rw [iterate_inl hs] at hend
      exact ih hend (hrest s' hs) ht'

/-- A loop that keeps `I` as long as its rounds meet `C` ends, and is safe, if and only if they all do. -/
theorem loop_iff {I C : σ → Prop} {μ : σ → ℕ}
    (hnext : ∀ t t', I t → C t → Next step t t' → I t' ∧ μ t' < μ t)
    (hsafe : ∀ t, I t → ((step t).Safe P ↔ C t)) (hs : I s) (hn : μ s < n) :
    (loop step n s).value ≠ none ∧ (loop step n s).Safe P ↔ ∀ t, Visits step s t → C t := by
  constructor
  · rintro ⟨hend, h⟩ t ht
    rw [safe_loop_iff hend] at h
    suffices hI : I t from (hsafe t hI).mp (h t ht)
    induction ht with
    | refl => exact hs
    | @tail u v hu hlast ih => exact (hnext u v ih ((hsafe u ih).mp (h u hu)) hlast).1
  · intro h
    have hI : ∀ t, Visits step s t → I t := by
      intro t ht
      induction ht with
      | refl => exact hs
      | @tail u v hu hlast ih => exact (hnext u v ih (h u hu) hlast).1
    refine ⟨?_, safe_loop (fun t ht => (hsafe t (hI t ht)).mpr (h t ht)) n⟩
    obtain ⟨r, hr, -⟩ := iterate_rule (fun t => (step t).value)
      (I := fun t => I t ∧ Visits step s t) (Q := fun _ => True) (μ := μ)
      (fun t t' ht ht' => by
        obtain ⟨hI', hlt⟩ := hnext t t' ht.1 (h t ht.2) ht'
        exact ⟨⟨hI', ReflTransGen.tail ht.2 ht'⟩, hlt⟩)
      (fun _ _ _ _ => trivial) ⟨hs, .refl⟩ hn
    rw [value_loop, hr]
    exact Option.some_ne_none r

/-- The loop ends, and all that it accesses until then satisfies `P`. -/
def Finishes (P : α → Prop) (step : σ → Traced α (σ ⊕ ρ)) (s : σ) : Prop :=
  ∃ n, (loop step n s).value ≠ none ∧ (loop step n s).Safe P

theorem finishes_iff_of_inl (h : (step s).value = .inl t) :
    Finishes P step s ↔ (step s).Safe P ∧ Finishes P step t := by
  have hvalue (n : ℕ) : (loop step (n + 1) s).value = (loop step n t).value := by
    rw [value_loop, value_loop, iterate_inl h]
  constructor
  · rintro ⟨n, hend, hsafe⟩
    cases n with
    | zero => exact absurd rfl hend
    | succ n =>
      rw [hvalue] at hend
      obtain ⟨hround, hrest⟩ := safe_loop_succ.mp hsafe
      exact ⟨hround, n, hend, hrest t h⟩
  · rintro ⟨hround, n, hend, hsafe⟩
    refine ⟨n + 1, by rwa [hvalue], safe_loop_succ.mpr ⟨hround, fun t' ht' => ?_⟩⟩
    rwa [Sum.inl.inj (ht'.symm.trans h)]

theorem finishes_iff_of_inr (h : (step s).value = .inr r) : Finishes P step s ↔ (step s).Safe P := by
  constructor
  · rintro ⟨n, hend, hsafe⟩
    cases n with
    | zero => exact absurd rfl hend
    | succ n => exact (safe_loop_succ.mp hsafe).1
  · intro hround
    refine ⟨1, ?_, safe_loop_succ.mpr ⟨hround, fun t' ht' => ?_⟩⟩
    · rw [value_loop, iterate_inr h]
      exact Option.some_ne_none r
    · exact absurd (ht'.symm.trans h) Sum.inl_ne_inr

theorem Finishes.safe (h : Finishes P step s) : (step s).Safe P := by
  cases hstep : (step s).value with
  | inl t => exact ((finishes_iff_of_inl hstep).mp h).1
  | inr r => exact (finishes_iff_of_inr hstep).mp h

end Traced
