import Mathlib.Logic.Relation
import Mathlib.Order.Basic

/-!
# Loops with an exit

`iterate step n s` runs the loop body `step` from the state `s` for at most `n` rounds.  A round
either goes on with a new state (`Sum.inl`) or leaves the loop with a result (`Sum.inr`); `none`
means that the loop was still running after `n` rounds.

`iterate_rule` is the total-correctness rule for such a loop: an invariant, a postcondition of the
exits and a measure that every round decreases.  `iterate_eq_none` is the rule for a loop that does
not end.  `iterate_mono` says that a loop that has left within `n` rounds leaves with the same result
in more, and `iterate_map` is for a loop over what a function shows of the states.

`exists_iterate_iff` is for a loop in which some rounds stall, and then do so forever: it ends if and only if
no round that it reaches stalls.
-/

namespace Iterate

variable {σ ρ : Type*} {step : σ → σ ⊕ ρ} {s s' : σ} {r : ρ} {n m : ℕ}

/-- The result of the loop `step` from `s`, if it leaves within `n` rounds. -/
def iterate (step : σ → σ ⊕ ρ) : ℕ → σ → Option ρ
  | 0, _ => none
  | n + 1, s =>
    match step s with
    | .inl s' => iterate step n s'
    | .inr r => some r

theorem iterate_inl (h : step s = .inl s') (n : ℕ) :
    iterate step (n + 1) s = iterate step n s' := by
  rw [iterate, h]

theorem iterate_inr (h : step s = .inr r) (n : ℕ) : iterate step (n + 1) s = some r := by
  rw [iterate, h]

/-- The rounds of a loop that keeps `I` end in a result that satisfies `Q`, within more rounds than
the measure `μ` of the start. -/
theorem iterate_rule (step : σ → σ ⊕ ρ) {I : σ → Prop} {Q : ρ → Prop} {μ : σ → ℕ}
    (hnext : ∀ s s', I s → step s = .inl s' → I s' ∧ μ s' < μ s)
    (hexit : ∀ s r, I s → step s = .inr r → Q r) (hs : I s) (hn : μ s < n) :
    ∃ r, iterate step n s = some r ∧ Q r := by
  induction n generalizing s with
  | zero => omega
  | succ n ih =>
    cases hstep : step s with
    | inl s' =>
      obtain ⟨hs', hlt⟩ := hnext s s' hs hstep
      rw [iterate_inl hstep]
      exact ih hs' (by omega)
    | inr r => exact ⟨r, iterate_inr hstep n, hexit s r hs hstep⟩

/-- Rounds that always go on never end. -/
theorem iterate_eq_none {I : σ → Prop} (hnext : ∀ s, I s → ∃ s', step s = .inl s' ∧ I s') (hs : I s)
    (n : ℕ) :
    iterate step n s = none := by
  induction n generalizing s with
  | zero => rfl
  | succ n ih =>
    obtain ⟨s', hstep, hs'⟩ := hnext s hs
    rw [iterate_inl hstep]
    exact ih hs'

theorem iterate_mono (h : iterate step n s = some r) (hm : n ≤ m) : iterate step m s = some r := by
  induction n generalizing s m with
  | zero => simp [iterate] at h
  | succ n ih =>
    obtain ⟨m, rfl⟩ : ∃ k, m = k + 1 := ⟨m - 1, by omega⟩
    cases hstep : step s with
    | inl s' =>
      rw [iterate_inl hstep] at h ⊢
      exact ih h (by omega)
    | inr r' =>
      rw [iterate_inr hstep] at h ⊢
      exact h

/-- A loop over what `f` shows of the states. -/
theorem iterate_map {τ ω : Type*} {step' : τ → τ ⊕ ω} {f : σ → τ} {g : ρ → ω}
    (h : ∀ s, step' (f s) = (step s).map f g) (n : ℕ) (s : σ) :
    iterate step' n (f s) = (iterate step n s).map g := by
  induction n generalizing s with
  | zero => rfl
  | succ n ih =>
    have hs := h s
    cases hstep : step s with
    | inl s' =>
      rw [hstep] at hs
      rw [iterate_inl hs, iterate_inl hstep, ih]
    | inr r =>
      rw [hstep] at hs
      rw [iterate_inr hs, iterate_inr hstep, Option.map_some]

theorem iterate_result {I : σ → Prop} {Q : ρ → Prop} (hnext : ∀ s s', I s → step s = .inl s' → I s')
    (hexit : ∀ s r, I s → step s = .inr r → Q r) (hs : I s) (h : iterate step n s = some r) : Q r := by
  induction n generalizing s with
  | zero => simp [iterate] at h
  | succ n ih =>
    cases hstep : step s with
    | inl s' =>
      rw [iterate_inl hstep] at h
      exact ih (hnext s s' hs hstep) h
    | inr r' =>
      rw [iterate_inr hstep] at h
      obtain rfl := Option.some.inj h
      exact hexit s r' hs hstep

/-- A loop that takes one record after another off a stream, and knows where each begins only by the end
of the one before. -/
theorem iterate_flatMap {α β γ : Type*} {write : α → List β} {f : α → γ} {state : List β → List γ → σ}
    {result : List γ → ρ} {l : List α}
    (hnext : ∀ a ∈ l, ∀ rest out, step (state (write a ++ rest) out) = .inl (state rest (out ++ [f a])))
    (hexit : ∀ out, step (state [] out) = .inr (result out)) (out : List γ) :
    iterate step (l.length + 1) (state (l.flatMap write) out) = some (result (out ++ l.map f)) := by
  induction l generalizing out with
  | nil =>
    rw [List.map_nil, List.append_nil]
    exact iterate_inr (hexit out) 0
  | cons a l ih =>
    rw [List.flatMap_cons, iterate_inl (hnext a List.mem_cons_self _ out), List.length_cons,
      ih (fun b hb => hnext b (List.mem_cons_of_mem a hb)), List.append_assoc]
    rfl

/-- The loop reaches a round that begins in `t`. -/
def Reaches (step : σ → σ ⊕ ρ) : σ → σ → Prop := Relation.ReflTransGen fun s t => step s = .inl t

/-- A loop whose rounds decrease the measure unless they stall ends if and only if it reaches no round that
stalls. -/
theorem exists_iterate_iff {I stalls : σ → Prop} {μ : σ → ℕ}
    (hnext : ∀ s s', I s → step s = .inl s' → I s')
    (hless : ∀ s s', I s → ¬ stalls s → step s = .inl s' → μ s' < μ s)
    (hstall : ∀ s, I s → stalls s → ∃ s', step s = .inl s' ∧ stalls s') (hs : I s) :
    (∃ n r, iterate step n s = some r) ↔ ∀ t, Reaches step s t → ¬ stalls t := by
  constructor
  · rintro ⟨n, r, h⟩ t ht hstalls
    suffices hnone : iterate step n s = none by exact absurd (hnone.symm.trans h) (Option.some_ne_none r).symm
    refine iterate_eq_none (I := fun u => I u ∧ ∃ t, Reaches step u t ∧ stalls t) ?_ ⟨hs, t, ht, hstalls⟩ n
    rintro u ⟨hu, t, ht, hstalls⟩
    rcases Relation.ReflTransGen.cases_head ht with rfl | ⟨v, hv, hreach⟩
    · obtain ⟨v, hv, hstalls'⟩ := hstall u hu hstalls
      exact ⟨v, hv, hnext u v hu hv, v, .refl, hstalls'⟩
    · exact ⟨v, hv, hnext u v hu hv, t, hreach, hstalls⟩
  · intro h
    have hrule := iterate_rule step (I := fun u => I u ∧ Reaches step s u) (Q := fun _ => True) (μ := μ)
      (fun u v hu hv => ⟨⟨hnext u v hu.1 hv, hu.2.tail hv⟩, hless u v hu.1 (h u hu.2) hv⟩)
      (fun _ _ _ _ => trivial) ⟨hs, .refl⟩ (Nat.lt_succ_self (μ s))
    obtain ⟨r, hr, -⟩ := hrule
    exact ⟨_, r, hr⟩

/-! ### Lists, element by element -/

section Scan

variable {α β : Type*} {f : ℕ → α → σ → Option (β × σ)}

/-- What `f` gives for each element, when the first one is the `i`-th, and the state that is left. -/
def scan (f : ℕ → α → σ → Option (β × σ)) : ℕ → List α → σ → Option (List β × σ)
  | _, [], s => some ([], s)
  | i, a :: l, s => (f i a s).bind fun r => (scan f (i + 1) l r.2).map fun r' => (r.1 :: r'.1, r'.2)

theorem scan_append (i : ℕ) (l l' : List α) (s : σ) :
    scan f i (l ++ l') s =
      (scan f i l s).bind fun r => (scan f (i + l.length) l' r.2).map fun r' => (r.1 ++ r'.1, r'.2) := by
  induction l generalizing i s with
  | nil => exact (Option.map_id' (x := scan f i l' s)).symm
  | cons a l ih =>
    rw [List.cons_append, scan, scan]
    cases f i a s with
    | none => rfl
    | some r =>
      have hindex : i + (a :: l).length = i + 1 + l.length := by rw [List.length_cons]; omega
      rw [Option.bind_some, Option.bind_some, ih, hindex]
      cases scan f (i + 1) l r.2 with
      | none => rfl
      | some r' =>
        rw [Option.bind_some, Option.map_some, Option.bind_some, Option.map_map]
        rfl

theorem length_scan {i : ℕ} {l : List α} {s s' : σ} {bs : List β} (h : scan f i l s = some (bs, s')) :
    bs.length = l.length := by
  induction l generalizing i s bs with
  | nil =>
    obtain ⟨rfl, -⟩ := Prod.mk.inj (Option.some.inj h)
    rfl
  | cons a l ih =>
    obtain ⟨r, -, hrest⟩ := Option.bind_eq_some_iff.mp h
    obtain ⟨r', hr', heq⟩ := Option.map_eq_some_iff.mp hrest
    obtain ⟨rfl, rfl⟩ := Prod.mk.inj heq
    rw [List.length_cons, List.length_cons, ih hr']

/-- What the elements keep holds after each of them. -/
theorem scan_take {I : σ → Prop} {l : List α} {i : ℕ} {s s' : σ} {bs : List β}
    (hnext : ∀ i, ∀ a ∈ l, ∀ s r, I s → f i a s = some r → I r.2) (hs : I s)
    (h : scan f i l s = some (bs, s')) (k : ℕ) :
    ∃ s', scan f i (l.take k) s = some (bs.take k, s') ∧ I s' := by
  induction k generalizing i l s bs with
  | zero => exact ⟨s, rfl, hs⟩
  | succ k ih =>
    cases l with
    | nil =>
      obtain ⟨rfl, -⟩ := Prod.mk.inj (Option.some.inj h)
      exact ⟨s, rfl, hs⟩
    | cons a l =>
      obtain ⟨r, hr, hrest⟩ := Option.bind_eq_some_iff.mp h
      obtain ⟨r', hr', heq⟩ := Option.map_eq_some_iff.mp hrest
      obtain ⟨rfl, rfl⟩ := Prod.mk.inj heq
      obtain ⟨s', htake, hs'⟩ := ih (fun i b hb => hnext i b (List.mem_cons_of_mem a hb))
        (hnext i a List.mem_cons_self s r hs hr) hr'
      refine ⟨s', ?_, hs'⟩
      rw [List.take_succ_cons, scan, hr, Option.bind_some, htake]
      rfl

end Scan

end Iterate
