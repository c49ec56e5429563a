import Mathlib.Data.List.Basic

/-!
# Bytes in a memory

A memory has a value at every address.  `HoldsAt m p as` says that the list is at `p`.
-/

namespace Memory

variable {α : Type*} {m m' : ℕ → α} {p n : ℕ} {as bs : List α} {a : α}

/-- The `n` values from `p` on. -/
def bytesAt (m : ℕ → α) (p n : ℕ) : List α := (List.range n).map fun i => m (p + i)

def HoldsAt (m : ℕ → α) (p : ℕ) (as : List α) : Prop := bytesAt m p as.length = as

instance [DecidableEq α] (m : ℕ → α) (p : ℕ) (as : List α) : Decidable (HoldsAt m p as) :=
  inferInstanceAs (Decidable (_ = _))

@[simp] theorem length_bytesAt (m : ℕ → α) (p n : ℕ) : (bytesAt m p n).length = n := by
  rw [bytesAt, List.length_map, List.length_range]

theorem bytesAt_succ (m : ℕ → α) (p n : ℕ) : bytesAt m p (n + 1) = m p :: bytesAt m (p + 1) n := by
  rw [bytesAt, List.range_succ_eq_map, List.map_cons, List.map_map, bytesAt]
  refine congrArg (m p :: ·) (List.map_congr_left fun k _ => ?_)
  exact congrArg m (by omega)

theorem holdsAt_nil : HoldsAt m p [] := rfl

theorem holdsAt_cons : HoldsAt m p (a :: as) ↔ m p = a ∧ HoldsAt m (p + 1) as := by
  rw [HoldsAt, List.length_cons, bytesAt_succ, List.cons.injEq, HoldsAt]

theorem holdsAt_append : HoldsAt m p (as ++ bs) ↔ HoldsAt m p as ∧ HoldsAt m (p + as.length) bs := by
  induction as generalizing p with
  | nil => exact (and_iff_right holdsAt_nil).symm
  | cons a as ih =>
    rw [List.cons_append, holdsAt_cons, ih, holdsAt_cons, and_assoc, List.length_cons,
      Nat.add_comm as.length, ← Nat.add_assoc]

/-- What another memory has at `q` is at `p`. -/
theorem holdsAt_bytesAt {q : ℕ} : HoldsAt m p (bytesAt m' q n) ↔ ∀ i < n, m (p + i) = m' (q + i) := by
  rw [HoldsAt, length_bytesAt, bytesAt, bytesAt, List.map_inj_left]
  exact forall_congr' fun i => by rw [List.mem_range]

theorem HoldsAt.shift (h : HoldsAt m p as) : HoldsAt (fun k => m (p + k)) 0 as := by
  refine Eq.trans (List.map_congr_left fun k _ => ?_) h
  rw [Nat.zero_add]

end Memory
