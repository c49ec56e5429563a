import Mathlib.Logic.Basic
import Mathlib.Tactic.SplitIfs

/-!
# Pre- and postconditions of programs that may fail

A program `x : EStateM ε σ α` changes a state and returns a value or fails; a failure keeps the
changes.  `Triple E P x Q` says that from a state that satisfies `P` the program either returns `a`
in a state that satisfies `Q a`, or fails in a state that satisfies `E`.
-/

namespace Triples

universe u

variable {ε σ α β : Type u} {E E' P P' : σ → Prop} {Q Q' : α → σ → Prop} {R : β → σ → Prop}

/-- The program `x` takes `P` to `Q`, and to `E` where it fails. -/
def Triple (E P : σ → Prop) (x : EStateM ε σ α) (Q : α → σ → Prop) : Prop :=
  ∀ s, P s → match x s with
    | .ok a s' => Q a s'
    | .error _ s' => E s'

theorem Triple.bind {x : EStateM ε σ α} {f : α → EStateM ε σ β} (hx : Triple E P x Q)
    (hf : ∀ a, Triple E (Q a) (f a) R) : Triple E P (x >>= f) R := by
  intro s hs
  have hxs := hx s hs
  show match EStateM.bind x f s with
    | .ok a s' => R a s'
    | .error _ s' => E s'
  unfold EStateM.bind
  cases h : x s with
  | ok a s' =>
    rw [h] at hxs
    exact hf a s' hxs
  | error e s' =>
    rw [h] at hxs
    exact hxs

theorem Triple.conseq {x : EStateM ε σ α} (h : Triple E P x Q) (hP : ∀ s, P' s → P s)
    (hQ : ∀ a s, Q a s → Q' a s) : Triple E P' x Q' := by
  intro s hs
  have hxs := h s (hP s hs)
  cases hx : x s with
  | ok a s' =>
    rw [hx] at hxs
    exact hQ a s' hxs
  | error e s' =>
    rw [hx] at hxs
    exact hxs

theorem Triple.conseq_error {x : EStateM ε σ α} (h : Triple E P x Q) (hE : ∀ s, E s → E' s) :
    Triple E' P x Q := by
  intro s hs
  have hxs := h s hs
  cases hx : x s with
  | ok a s' =>
    rw [hx] at hxs
    exact hxs
  | error e s' =>
    rw [hx] at hxs
    exact hE s' hxs

/-- Behind a check its condition is known. -/
theorem Triple.guard {c : Prop} [Decidable c] {e : ε} {f : PUnit → EStateM ε σ β}
    (hE : ∀ s, P s → E s) (hf : c → Triple E P (f ⟨⟩) R) :
    Triple E P ((if c then Pure.pure ⟨⟩ else MonadExcept.throw e) >>= f) R := by
  have hcheck : Triple E P (if c then Pure.pure ⟨⟩ else MonadExcept.throw e : EStateM ε σ PUnit)
      fun _ s => c ∧ P s := by
    split_ifs with hc
    · exact fun _ hs => ⟨hc, hs⟩
    · exact hE
  exact hcheck.bind fun _ s hs => hf hs.1 s hs.2

/-! ### Runs of the primitive programs -/

section Primitive

variable (s : σ)

theorem run_pure (a : α) : (pure a : EStateM ε σ α) s = .ok a s := rfl

theorem run_get : (get : EStateM ε σ σ) s = .ok s s := rfl

theorem run_modify (f : σ → σ) : (modify f : EStateM ε σ PUnit) s = .ok ⟨⟩ (f s) := rfl

theorem run_modifyGet (f : σ → α × σ) :
    (modifyGet f : EStateM ε σ α) s = .ok (f s).1 (f s).2 := rfl

theorem run_throw (e : ε) : (throw e : EStateM ε σ α) s = .error e s := rfl

theorem run_map (f : α → β) (x : EStateM ε σ α) :
    (f <$> x) s = match x s with
      | .ok a s' => .ok (f a) s'
      | .error e s' => .error e s' := rfl

theorem run_ite {c : Prop} [Decidable c] (x y : EStateM ε σ α) :
    (if c then x else y) s = if c then x s else y s := by
  split_ifs <;> rfl

theorem run_bind (x : EStateM ε σ α) (f : α → EStateM ε σ β) :
    (x >>= f) s = match x s with
      | .ok a s' => f a s'
      | .error e s' => .error e s' := rfl

end Primitive

/-! ### Runs that succeed -/

section Runs

variable {x : EStateM ε σ α} {f : α → EStateM ε σ β} {s s' : σ}

/-- A program that succeeds hands its value and state on. -/
theorem bind_ok {a : α} (h : x s = .ok a s') : (x >>= f) s = f a s' := by
  show EStateM.bind x f s = f a s'
  rw [EStateM.bind, h]

theorem exists_of_bind_ok {b : β} (h : (x >>= f) s = .ok b s') :
    ∃ a t, x s = .ok a t ∧ f a t = .ok b s' := by
  have hbind : EStateM.bind x f s = .ok b s' := h
  rw [EStateM.bind] at hbind
  cases hx : x s with
  | ok a t =>
    rw [hx] at hbind
    exact ⟨a, t, rfl, hbind⟩
  | error e t =>
    rw [hx] at hbind
    exact absurd hbind (by simp)

end Runs

end Triples
