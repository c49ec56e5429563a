import Mathlib.Data.List.Basic
import Mathlib.Order.Basic

/-!
# Lists of half-open intervals

An interval `[lo, hi)` of natural numbers is the pair `(lo, hi)`.  A list of them is `Sorted` when
its intervals are non-empty, in order and disjoint, and `Separated` when consecutive ones do not
even touch.  `insert lo hi` adds an interval to a sorted list, absorbing those it overlaps: the
result covers exactly the union and is sorted again.

A separated list is determined by the set it covers (`eq_of_covers`).
-/

namespace Intervals

variable {is js : List (ℕ × ℕ)} {lo hi left x m : ℕ}

/-- Some interval of the list contains `x`. -/
def Covers (is : List (ℕ × ℕ)) (x : ℕ) : Prop := ∃ i ∈ is, i.1 ≤ x ∧ x < i.2

/-- Non-empty intervals, in order, without overlap. -/
def Sorted (is : List (ℕ × ℕ)) : Prop :=
  (∀ i ∈ is, i.1 < i.2) ∧ is.Pairwise fun i j => i.2 ≤ j.1

/-- No interval touches a later one. -/
def Separated (is : List (ℕ × ℕ)) : Prop := is.Pairwise fun i j => i.2 < j.1

@[simp] theorem covers_nil : ¬ Covers [] x := by simp [Covers]

@[simp] theorem covers_cons (i : ℕ × ℕ) :
    Covers (i :: is) x ↔ (i.1 ≤ x ∧ x < i.2) ∨ Covers is x := by simp [Covers]

theorem sorted_cons {i : ℕ × ℕ} :
    Sorted (i :: is) ↔ i.1 < i.2 ∧ (∀ j ∈ is, i.2 ≤ j.1) ∧ Sorted is := by
  simp only [Sorted, List.forall_mem_cons, List.pairwise_cons]
  tauto

theorem separated_cons {i : ℕ × ℕ} :
    Separated (i :: is) ↔ (∀ j ∈ is, i.2 < j.1) ∧ Separated is := List.pairwise_cons

/-! ### Insertion -/

/-- Adds `[left, hi)` in front of a list whose intervals all start at or after `left`: the ones
that end before `hi` disappear in it, and the next one is joined if it starts before `hi`. -/
def absorb (left hi : ℕ) : List (ℕ × ℕ) → List (ℕ × ℕ)
  | [] => [(left, hi)]
  | i :: is =>
    if i.2 < hi then absorb left hi is
    else if i.1 < hi then (left, i.2) :: is
    else (left, hi) :: i :: is

/-- Adds `[lo, hi)` to a sorted list. -/
def insert (lo hi : ℕ) : List (ℕ × ℕ) → List (ℕ × ℕ)
  | [] => [(lo, hi)]
  | i :: is => if i.2 < lo then i :: insert lo hi is else absorb (min i.1 lo) hi (i :: is)

theorem absorb_ne_nil (left hi : ℕ) (is : List (ℕ × ℕ)) : absorb left hi is ≠ [] := by
  induction is with
  | nil => simp [absorb]
  | cons i is ih =>
    rw [absorb]
    split_ifs
    · exact ih
    · simp
    · simp

theorem length_absorb_le (left hi : ℕ) (is : List (ℕ × ℕ)) :
    (absorb left hi is).length ≤ is.length + 1 := by
  induction is with
  | nil => exact Nat.le_refl _
  | cons i is ih =>
    rw [absorb]
    split_ifs
    · exact Nat.le_succ_of_le ih
    · exact Nat.le_succ _
    · exact Nat.le_refl _

theorem length_insert_le (lo hi : ℕ) (is : List (ℕ × ℕ)) :
    (insert lo hi is).length ≤ is.length + 1 := by
  induction is with
  | nil => exact Nat.le_refl _
  | cons i is ih =>
    rw [insert]
    split_ifs
    · exact Nat.succ_le_succ ih
    · exact length_absorb_le _ _ _

theorem insert_ne_nil (lo hi : ℕ) (is : List (ℕ × ℕ)) : insert lo hi is ≠ [] := by
  cases is with
  | nil => simp [insert]
  | cons i is =>
    rw [insert]
    split_ifs
    · simp
    · exact absorb_ne_nil _ _ _

theorem covers_absorb (hs : Sorted is) (hleft : ∀ i ∈ is, left ≤ i.1) :
    Covers (absorb left hi is) x ↔ Covers is x ∨ (left ≤ x ∧ x < hi) := by
  induction is with
  | nil => simp [absorb]
  | cons i is ih =>
    obtain ⟨hi', -, hrest⟩ := sorted_cons.mp hs
    have hl := hleft i List.mem_cons_self
    rw [absorb]
    split_ifs with h1 h2
    · rw [ih hrest fun j hj => hleft j (List.mem_cons_of_mem _ hj), covers_cons]
      constructor
      · tauto
      · rintro ((h | h) | h)
        · exact .inr (by omega)
        · exact .inl h
        · exact .inr h
    · rw [covers_cons, covers_cons]
      dsimp only
      constructor
      · rintro (h | h)
        · by_cases hx : x < hi
          · exact .inr ⟨h.1, hx⟩
          · exact .inl (.inl (by omega))
        · exact .inl (.inr h)
      · rintro ((h | h) | h)
        · exact .inl (by omega)
        · exact .inr h
        · exact .inl (by omega)
    · rw [covers_cons]
      tauto

theorem covers_insert (hs : Sorted is) :
    Covers (insert lo hi is) x ↔ Covers is x ∨ (lo ≤ x ∧ x < hi) := by
  induction is with
  | nil => simp [insert]
  | cons i is ih =>
    obtain ⟨hi', hle, hrest⟩ := sorted_cons.mp hs
    rw [insert]
    split_ifs with h
    · rw [covers_cons, ih hrest, covers_cons, or_assoc]
    · rw [covers_absorb hs ?_, covers_cons]
      · -- what the interval gains on the left already belongs to `i`
        constructor
        · rintro (h' | h')
          · exact .inl h'
          · by_cases hx : lo ≤ x
            · exact .inr ⟨hx, h'.2⟩
            · exact .inl (.inl (by omega))
        · rintro (h' | h')
          · exact .inl h'
          · exact .inr (by omega)
      · intro j hj
        rcases List.mem_cons.mp hj with rfl | hj
        · omega
        · have := hle j hj
          omega

/-- Every interval of the result starts no earlier than a common lower bound. -/
theorem le_of_mem_absorb (hm : m ≤ left) (hms : ∀ i ∈ is, m ≤ i.1) :
    ∀ j ∈ absorb left hi is, m ≤ j.1 := by
  induction is with
  | nil => simpa [absorb] using hm
  | cons i is ih =>
    have hrest : ∀ j ∈ is, m ≤ j.1 := fun j hj => hms j (List.mem_cons_of_mem _ hj)
    rw [absorb]
    split_ifs
    · exact ih hrest
    · exact List.forall_mem_cons.mpr ⟨hm, hrest⟩
    · exact List.forall_mem_cons.mpr ⟨hm, hms⟩

theorem le_of_mem_insert (hm : m ≤ lo) (hms : ∀ i ∈ is, m ≤ i.1) :
    ∀ j ∈ insert lo hi is, m ≤ j.1 := by
  induction is with
  | nil => simpa [insert] using hm
  | cons i is ih =>
    obtain ⟨hi', hrest⟩ := List.forall_mem_cons.mp hms
    rw [insert]
    split_ifs
    · exact List.forall_mem_cons.mpr ⟨hi', ih hrest⟩
    · exact le_of_mem_absorb (by omega) hms

theorem sorted_absorb (hs : Sorted is) (hleft : ∀ i ∈ is, left ≤ i.1) (hlt : left < hi) :
    Sorted (absorb left hi is) := by
  induction is with
  | nil => simpa [absorb, Sorted] using hlt
  | cons i is ih =>
    obtain ⟨hi', hle, hrest⟩ := sorted_cons.mp hs
    have hl := hleft i List.mem_cons_self
    rw [absorb]
    split_ifs with h1 h2
    · exact ih hrest fun j hj => hleft j (List.mem_cons_of_mem _ hj)
    · exact sorted_cons.mpr ⟨by dsimp only; omega, hle, hrest⟩
    · refine sorted_cons.mpr ⟨hlt, fun j hj => ?_, hs⟩
      rcases List.mem_cons.mp hj with rfl | hj
      · dsimp only; omega
      · have := hle j hj
        dsimp only
        omega

theorem sorted_insert (hs : Sorted is) (hlt : lo < hi) : Sorted (insert lo hi is) := by
  induction is with
  | nil => simpa [insert, Sorted] using hlt
  | cons i is ih =>
    obtain ⟨hi', hle, hrest⟩ := sorted_cons.mp hs
    rw [insert]
    split_ifs with h
    · exact sorted_cons.mpr ⟨hi', le_of_mem_insert (by omega) hle, ih hrest⟩
    · refine sorted_absorb hs (fun j hj => ?_) (by omega)
      rcases List.mem_cons.mp hj with rfl | hj
      · omega
      · have := hle j hj
        omega

theorem separated_absorb (hs : Separated is) (hlo : ∀ i ∈ is, i.1 < i.2)
    (hno : ∀ i ∈ is, i.1 ≠ hi) : Separated (absorb left hi is) := by
  induction is with
  | nil => simp [absorb, Separated]
  | cons i is ih =>
    obtain ⟨hle, hrest⟩ := separated_cons.mp hs
    obtain ⟨hi', hlo'⟩ := List.forall_mem_cons.mp hlo
    have hno' := List.forall_mem_cons.mp hno
    rw [absorb]
    split_ifs with h1 h2
    · exact ih hrest hlo' hno'.2
    · exact separated_cons.mpr ⟨hle, hrest⟩
    · refine separated_cons.mpr ⟨fun j hj => ?_, hs⟩
      rcases List.mem_cons.mp hj with rfl | hj
      · have := hno'.1
        dsimp only
        omega
      · have := hle j hj
        dsimp only
        omega

/-- Insertion keeps a list separated unless the new interval ends exactly where one starts. -/
theorem separated_insert (lo : ℕ) (hs : Separated is) (hlo : ∀ i ∈ is, i.1 < i.2)
    (hno : ∀ i ∈ is, i.1 ≠ hi) : Separated (insert lo hi is) := by
  induction is with
  | nil => simp [insert, Separated]
  | cons i is ih =>
    obtain ⟨hle, hrest⟩ := separated_cons.mp hs
    rw [insert]
    split_ifs with h
    · refine separated_cons.mpr ⟨?_, ih hrest (List.forall_mem_cons.mp hlo).2
        (List.forall_mem_cons.mp hno).2⟩
      exact le_of_mem_insert (m := i.2 + 1) (by omega) hle
    · exact separated_absorb hs hlo hno

/-! ### Uniqueness -/

theorem Separated.sorted (h : Separated is) (hlo : ∀ i ∈ is, i.1 < i.2) : Sorted is :=
  ⟨hlo, h.imp Nat.le_of_lt⟩

/-- Nothing of a sorted list lies before its first interval. -/
theorem le_of_covers_cons {i : ℕ × ℕ} (hs : Sorted (i :: is)) (h : Covers (i :: is) x) :
    i.1 ≤ x := by
  obtain ⟨hi, hle, -⟩ := sorted_cons.mp hs
  rw [covers_cons] at h
  rcases h with h | ⟨j, hj, hx⟩
  · exact h.1
  · have := hle j hj
    omega

/-- A separated list does not cover the end of its first interval. -/
theorem not_covers_end {i : ℕ × ℕ} (hs : Separated (i :: is)) : ¬ Covers (i :: is) i.2 := by
  rw [covers_cons]
  rintro (h | ⟨j, hj, hx⟩)
  · omega
  · have := (separated_cons.mp hs).1 j hj
    omega

/-- What a sorted list covers behind its first interval. -/
theorem covers_tail_iff {i : ℕ × ℕ} (hs : Sorted (i :: is)) :
    Covers is x ↔ Covers (i :: is) x ∧ i.2 ≤ x := by
  obtain ⟨hi, hle, -⟩ := sorted_cons.mp hs
  rw [covers_cons]
  constructor
  · rintro ⟨j, hj, hx⟩
    have := hle j hj
    exact ⟨.inr ⟨j, hj, hx⟩, by omega⟩
  · rintro ⟨h | h, hx⟩
    · omega
    · exact h

/-- Two separated lists that cover the same set are equal. -/
theorem eq_of_covers (his : Separated is) (hlo : ∀ i ∈ is, i.1 < i.2) (hjs : Separated js)
    (hlo' : ∀ j ∈ js, j.1 < j.2) (h : ∀ x, Covers is x ↔ Covers js x) : is = js := by
  induction is generalizing js with
  | nil =>
    cases js with
    | nil => rfl
    | cons j js =>
      have hj := hlo' j List.mem_cons_self
      exact absurd ((h j.1).mpr ((covers_cons j).mpr (.inl ⟨Nat.le_refl _, hj⟩))) covers_nil
  | cons i is ih =>
    have hi := hlo i List.mem_cons_self
    cases js with
    | nil => exact absurd ((h i.1).mp ((covers_cons i).mpr (.inl ⟨Nat.le_refl _, hi⟩))) covers_nil
    | cons j js =>
      have hj := hlo' j List.mem_cons_self
      have hsi := his.sorted hlo
      have hsj := hjs.sorted hlo'
      -- the first intervals start at the least covered number …
      have hstart : i.1 = j.1 := by
        have h1 := le_of_covers_cons hsj
          ((h i.1).mp ((covers_cons i).mpr (.inl ⟨Nat.le_refl _, hi⟩)))
        have h2 := le_of_covers_cons hsi
          ((h j.1).mpr ((covers_cons j).mpr (.inl ⟨Nat.le_refl _, hj⟩)))
        omega
      -- … and end at the next one that is not covered
      have hend : i.2 = j.2 := by
        by_contra hne
        rcases Nat.lt_or_gt_of_ne hne with hlt | hlt
        · exact not_covers_end his ((h i.2).mpr ((covers_cons j).mpr (.inl ⟨by omega, hlt⟩)))
        · exact not_covers_end hjs ((h j.2).mp ((covers_cons i).mpr (.inl ⟨by omega, hlt⟩)))
      have heq : i = j := Prod.ext hstart hend
      subst heq
      rw [ih (separated_cons.mp his).2 (List.forall_mem_cons.mp hlo).2 (separated_cons.mp hjs).2
        (List.forall_mem_cons.mp hlo').2 fun x => by
          rw [covers_tail_iff hsi, covers_tail_iff hsj, h x]]

end Intervals
