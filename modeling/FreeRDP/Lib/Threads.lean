import Mathlib.Algebra.Order.BigOperators.Group.Finset

/-!
# Counting threads

The threads of a program are a function from their names to their local states.  What they add up to
under a weight of the local states is `total`, and a step changes it by what the thread that takes the
step changes (`total_update`).
-/

namespace Threads

variable {T L : Type*} [Fintype T] [DecidableEq T] {w : L → ℕ} {f : T → L} {t u : T}

/-- What the threads add up to. -/
def total (w : L → ℕ) (f : T → L) : ℕ := ∑ t, w (f t)

omit [DecidableEq T] in
theorem le_total (w : L → ℕ) (f : T → L) (t : T) : w (f t) ≤ total w f :=
  Finset.single_le_sum (fun u _ => Nat.zero_le (w (f u))) (Finset.mem_univ t)

/-- A thread and the others. -/
theorem total_eq_add (w : L → ℕ) (f : T → L) (t : T) :
    total w f = w (f t) + ∑ u ∈ Finset.univ.erase t, w (f u) :=
  (Finset.add_sum_erase _ (fun u => w (f u)) (Finset.mem_univ t)).symm

theorem total_update (w : L → ℕ) (f : T → L) (t : T) (l : L) :
    total w (Function.update f t l) + w (f t) = total w f + w l := by
  have hothers : ∑ u ∈ Finset.univ.erase t, w (Function.update f t l u) =
      ∑ u ∈ Finset.univ.erase t, w (f u) := by
    apply Finset.sum_congr rfl
    intro u hu
    rw [Function.update_of_ne (Finset.ne_of_mem_erase hu)]
  rw [total_eq_add w f t, total_eq_add w _ t, hothers, Function.update_self]
  omega

/-- Where the others add nothing, a thread is the total. -/
theorem total_eq_of_others (h : ∀ u, u ≠ t → w (f u) = 0) : total w f = w (f t) := by
  rw [total_eq_add w f t, Finset.sum_eq_zero, Nat.add_zero]
  intro u hu
  exact h u (Finset.ne_of_mem_erase hu)

/-- A total of at most one has room for one thread. -/
theorem eq_of_total_le_one (h : total w f ≤ 1) (ht : 0 < w (f t)) (hu : 0 < w (f u)) : t = u := by
  by_contra hne
  have hle : w (f u) ≤ ∑ v ∈ Finset.univ.erase t, w (f v) :=
    Finset.single_le_sum (fun v _ => Nat.zero_le (w (f v)))
      (Finset.mem_erase.mpr ⟨Ne.symm hne, Finset.mem_univ u⟩)
  rw [total_eq_add w f t] at h
  omega

omit [DecidableEq T] in
theorem exists_of_total_pos (h : 0 < total w f) : ∃ t, 0 < w (f t) := by
  by_contra hnone
  simp only [not_exists, Nat.not_lt, Nat.le_zero] at hnone
  rw [total, Finset.sum_eq_zero fun t _ => hnone t] at h
  exact Nat.lt_irrefl 0 h

omit [DecidableEq T] in
theorem total_eq_zero (h : ∀ t, w (f t) = 0) : total w f = 0 :=
  Finset.sum_eq_zero fun t _ => h t

omit [DecidableEq T] in
theorem eq_zero_of_total (h : total w f = 0) (t : T) : w (f t) = 0 := by
  have hle := le_total w f t
  omega

omit [DecidableEq T] in
/-- Threads that add the same in two states. -/
theorem total_congr {w' : L → ℕ} {g : T → L} (h : ∀ t, w (f t) = w' (g t)) : total w f = total w' g :=
  Finset.sum_congr rfl fun t _ => h t

end Threads
