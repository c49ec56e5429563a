import Mathlib.Data.List.Infix

/-!
# Arrays whose accesses are checked

An array in allocated memory is the list of its elements.  `load` and `store` give `none` at an index
that lies outside of the allocation, so that a program which uses nothing else is known to stay inside
where it gives a result.
-/

namespace Checked

variable {α : Type} {entries entries' : List α} {a : α} {index i n : ℕ}

/-- `entries[index]` is read. -/
def load (entries : List α) (index : ℕ) : Option α := entries[index]?

/-- `a` is written to `entries[index]`. -/
def store (entries : List α) (index : ℕ) (a : α) : Option (List α) :=
  if index < entries.length then some (entries.set index a) else none

theorem load_isSome : (load entries index).isSome ↔ index < entries.length := by
  simp [load]

theorem exists_load (h : index < entries.length) : ∃ a, load entries index = some a :=
  Option.isSome_iff_exists.mp (load_isSome.mpr h)

theorem load_eq_none (h : entries.length ≤ index) : load entries index = none :=
  List.getElem?_eq_none h

theorem store_of_lt (h : index < entries.length) (a : α) :
    store entries index a = some (entries.set index a) := if_pos h

theorem load_set_self (h : index < entries.length) (a : α) :
    load (entries.set index a) index = some a := by
  rw [load, List.getElem?_set_self h]

theorem load_set_ne (h : index ≠ i) (a : α) : load (entries.set index a) i = load entries i :=
  List.getElem?_set_ne h

end Checked

/-!
## Runs of a program that takes inputs

`Runs step s as t`: the inputs `as` take the state `s` to `t`, one step after the other.

`Runs.invariant` is the induction over a run.  `Runs.holds_iff` is for a property that a step keeps under
a condition only: it holds all along a run if and only if each of its steps meets the condition.
`Runs.good_iff` says the same of a property of the steps.
-/

variable {σ α : Type*} {step : σ → α → σ → Prop} {s t u : σ} {as : List α} {a : α}

/-- The states that inputs lead to. -/
inductive Runs (step : σ → α → σ → Prop) (s : σ) : List α → σ → Prop
  | nil : Runs step s [] s
  | snoc {as : List α} {t u : σ} {a : α} : Runs step s as t → step t a u → Runs step s (as ++ [a]) u

namespace Runs

/-- A step in front of a run. -/
theorem cons (h : Runs step t as u) (hstep : step s a t) : Runs step s (a :: as) u := by
  induction h with
  | nil => exact nil.snoc hstep
  | snoc _ hlast ih => exact ih.snoc hlast

theorem mono {step' : σ → α → σ → Prop} (hstep : ∀ t a u, step t a u → step' t a u) (h : Runs step s as t) :
    Runs step' s as t := by
  induction h with
  | nil => exact nil
  | snoc _ hlast ih => exact ih.snoc (hstep _ _ _ hlast)

/-- What a step keeps holds of every state of a run. -/
theorem invariant {I : σ → Prop} (hinit : I s) (hstep : ∀ t a u, I t → step t a u → I u)
    (h : Runs step s as t) : I t := by
  induction h with
  | nil => exact hinit
  | snoc _ hlast ih => exact hstep _ _ _ ih hlast

/-- What a step keeps under the condition `C` holds all along a run of such steps. -/
theorem invariant_of {I : σ → Prop} {C : σ → α → Prop} (hinit : I s)
    (hstep : ∀ t a u, I t → C t a → step t a u → I u)
    (hC : ∀ as' a t, as' ++ [a] <+: as → Runs step s as' t → C t a) (h : Runs step s as t) :
    I t := by
  induction h with
  | nil => exact hinit
  | @snoc as' t u a hrun hlast ih =>
    have hprefix : as' <+: as' ++ [a] := List.prefix_append _ _
    have ht := ih fun as'' b v hpre hv => hC as'' b v (hpre.trans hprefix) hv
    exact hstep _ _ _ ht (hC as' a t (List.prefix_refl _) hrun) hlast

/-- A program that takes the inputs one after another makes a run. -/
theorem of_foldlM {f : σ → α → Option σ} (h : as.foldlM f s = some t) :
    Runs (fun s a t => f s a = some t) s as t := by
  induction as using List.reverseRecOn generalizing t with
  | nil =>
    cases h
    exact nil
  | append_singleton as a ih =>
    rw [List.foldlM_append, Option.bind_eq_bind, Option.bind_eq_some_iff] at h
    obtain ⟨u, hfirst, hlast⟩ := h
    have hstep : f u a = some t := by
      simpa [List.foldlM_cons] using hlast
    exact (ih hfirst).snoc hstep

/-- There is a run of any inputs if no state that is reached is stuck. -/
theorem exists_run {I : σ → Prop} (hI : ∀ {as : List α} {t : σ}, Runs step s as t → I t)
    (hstep : ∀ {t : σ}, I t → ∀ a, ∃ u, step t a u) (as : List α) : ∃ t, Runs step s as t := by
  induction as using List.reverseRecOn with
  | nil => exact ⟨s, nil⟩
  | append_singleton as a ih =>
    obtain ⟨t, hrun⟩ := ih
    obtain ⟨u, hlast⟩ := hstep (hI hrun) a
    exact ⟨u, hrun.snoc hlast⟩

/-- All steps of a run are good if and only if each of them meets `C`, where a good step keeps what makes
the two equivalent. -/
theorem good_iff {I : σ → Prop} {G : σ → α → σ → Prop} {C : σ → α → Prop} (hI : I s)
    (hkeep : ∀ t a u, step t a u → G t a u → I u)
    (hgood : ∀ t a u, I t → step t a u → (G t a u ↔ C t a)) :
    (∀ as' t a u, as' ++ [a] <+: as → Runs step s as' t → step t a u → G t a u) ↔
      ∀ as' t a u, as' ++ [a] <+: as → Runs step s as' t → step t a u → C t a := by
  constructor
  · intro h as' t a u hpre hrun hlast
    refine (hgood t a u ?_ hlast).mp (h as' t a u hpre hrun hlast)
    cases hrun with
    | nil => exact hI
    | @snoc as'' t' u' b hrun' hlast' =>
      have hpre' := (List.prefix_append (as'' ++ [b]) [a]).trans hpre
      exact hkeep _ _ _ hlast' (h as'' t' b t hpre' hrun' hlast')
  · intro h as' t a u hpre hrun hlast
    refine (hgood t a u ?_ hlast).mpr (h as' t a u hpre hrun hlast)
    have hpre' : as' <+: as := (List.prefix_append _ _).trans hpre
    clear hlast hpre
    induction hrun with
    | nil => exact hI
    | @snoc as'' t' u' b hrun' hlast' ih =>
      have ht := ih ((List.prefix_append _ _).trans hpre')
      exact hkeep _ _ _ hlast' ((hgood _ _ _ ht hlast').mpr (h as'' t' b u' hpre' hrun' hlast'))

end Runs
