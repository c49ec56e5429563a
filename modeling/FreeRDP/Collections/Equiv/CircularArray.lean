import FreeRDP.Collections.Basic
import FreeRDP.Lib.Circular

/-!
# The elements of a circular array

`Holds q xs`: the elements of the array are `xs`, the head first.  Putting an element in appends it and
taking one out removes the head.  Growing keeps the elements under a condition on the state before,
`Grows`, which holds whenever the factor and the capacity are at least 2.
-/

namespace FreeRDP.Collections

open Circular

variable {α : Type}

/-- The elements of the array are `xs`. -/
structure CircularArray.Holds (q : CircularArray α) (xs : List α) : Prop where
  head : q.head < q.capacity
  length : xs.length ≤ q.capacity
  size : q.size = xs.length
  tail : q.tail = (q.head + xs.length) % q.capacity
  cells : cells q.capacity q.array q.head xs.length = xs

/-- If the array grows for one more element of `bytes` bytes, it is not empty, the new size is below
`2 ^ 64` bytes, the array does not shrink, and either its elements do not go around its end or there is
room behind the old end for those that do and one more. -/
def CircularArray.Grows (bytes factor : ℕ) (q : CircularArray α) : Prop :=
  q.capacity ≤ q.size + 1 →
    0 < q.size ∧ bytes * q.newCapacity factor 1 < 2 ^ 64 ∧ q.capacity ≤ q.newCapacity factor 1 ∧
      (q.head < q.tail ∨ q.capacity + q.tail < q.newCapacity factor 1)

instance (bytes factor : ℕ) (q : CircularArray α) : Decidable (q.Grows bytes factor) :=
  inferInstanceAs (Decidable (_ → _))

variable {q q' : CircularArray α} {x : α} {xs : List α} {bytes factor : ℕ}

namespace CircularArray.Holds

/-! ### Growing -/

/-- Where the tail is: behind the last element, or around the end of the array. -/
theorem tail_cases (h : q.Holds xs) :
    (q.head + xs.length < q.capacity ∧ q.tail = q.head + xs.length) ∨
      (q.capacity ≤ q.head + xs.length ∧ q.tail = q.head + xs.length - q.capacity) := by
  have hhead := h.head
  have hlength := h.length
  rcases Nat.lt_or_ge (q.head + xs.length) q.capacity with hlt | hge
  · exact Or.inl ⟨hlt, h.tail.trans (Nat.mod_eq_of_lt hlt)⟩
  · refine Or.inr ⟨hge, h.tail.trans ?_⟩
    rw [Nat.mod_eq_sub_mod hge, Nat.mod_eq_of_lt (by omega)]

/-- Growing keeps the elements, and there is room for one more. -/
theorem ensureCapacity [Inhabited α] (h : q.Holds xs) (hgrows : q.Grows bytes factor) :
    ∃ q', q.ensureCapacity bytes factor 1 = some q' ∧ q'.Holds xs ∧ xs.length < q'.capacity ∧
      q'.capacity = if q.size + 1 ≥ q.capacity then q.newCapacity factor 1 else q.capacity := by
  have hhead := h.head
  have hlength := h.length
  have hsize := h.size
  have htail := h.tail_cases
  unfold CircularArray.ensureCapacity
  dsimp only
  split_ifs with hfull hshrink hwrap hroom
  · obtain ⟨-, hbytes, hle, -⟩ := hgrows hfull
    rw [Nat.mod_eq_of_lt hbytes] at hshrink
    omega
  · -- the elements around the end move behind it
    obtain ⟨hpos, -, hle, hnew⟩ := hgrows hfull
    have hlt : q.capacity + q.tail < q.newCapacity factor 1 := hnew.resolve_left (by omega)
    have hbehind : q.capacity ≤ q.head + xs.length := by omega
    refine ⟨_, rfl, ⟨by dsimp only; omega, by dsimp only; omega, hsize, ?_, ?_⟩, by dsimp only; omega, rfl⟩
    · dsimp only
      rw [Nat.mod_eq_of_lt (by omega)]
      omega
    · dsimp only
      refine Eq.trans (cells_congr fun k hk => ?_) h.cells
      rw [Nat.mod_eq_of_lt (show q.head + k < q.newCapacity factor 1 by omega)]
      rcases Nat.lt_or_ge (q.head + k) q.capacity with hin | hout
      · rw [if_neg (by omega), if_neg (by omega), Nat.mod_eq_of_lt hin]
      · rw [if_pos (by omega), if_neg (by omega), Nat.mod_eq_sub_mod hout,
          Nat.mod_eq_of_lt (by omega)]
  · obtain ⟨-, -, -, hnew⟩ := hgrows hfull
    exact absurd hroom (by omega)
  · obtain ⟨hpos, -, hle, -⟩ := hgrows hfull
    have hbefore : q.head + xs.length < q.capacity := by omega
    refine ⟨_, rfl, ⟨by dsimp only; omega, by dsimp only; omega, hsize, ?_, ?_⟩, by dsimp only; omega, rfl⟩
    · dsimp only
      rw [Nat.mod_eq_of_lt (by omega)]
      omega
    · dsimp only
      refine Eq.trans (cells_congr fun k hk => ?_) h.cells
      rw [Nat.mod_eq_of_lt (show q.head + k < q.newCapacity factor 1 by omega),
        Nat.mod_eq_of_lt (show q.head + k < q.capacity by omega), if_neg (by omega)]
  · exact ⟨q, rfl, h, by omega, rfl⟩

/-- With a factor and a capacity of at least 2 an array may grow, as long as its bytes do not leave 64
bits. -/
theorem grows_of_two_le (h : q.Holds xs) (hlt : xs.length < q.capacity) (hfactor : 2 ≤ factor)
    (hcapacity : 2 ≤ q.capacity) (hpos : 0 < bytes) (hbytes : bytes * (q.capacity * factor) < 2 ^ 64) :
    q.Grows bytes factor := by
  intro hfull
  have hfit : q.capacity * factor < 2 ^ 64 := (Nat.le_mul_of_pos_left _ hpos).trans_lt hbytes
  have hhead := h.head
  have hsize := h.size
  have htail := h.tail_cases
  have hmul : q.capacity * 2 ≤ q.capacity * factor := Nat.mul_le_mul_left _ hfactor
  have hnew : q.newCapacity factor 1 = q.capacity * factor := by
    unfold CircularArray.newCapacity
    rw [Nat.mod_eq_of_lt hfit, if_neg (by omega)]
  rw [hnew]
  omega

/-! ### Elements -/

theorem push (h : q.Holds xs) (hroom : xs.length < q.capacity) (x : α) :
    ∃ q', q.push x = some q' ∧ q'.Holds (xs ++ [x]) ∧ q'.capacity = q.capacity := by
  have htail : q.tail < q.capacity := by
    rw [h.tail]
    exact Nat.mod_lt _ (by omega)
  refine ⟨_, if_pos htail, ⟨h.head, ?_, ?_, ?_, ?_⟩, rfl⟩
  · rw [List.length_append, List.length_singleton]
    exact hroom
  · simp [h.size]
  · simp [h.tail, Nat.add_assoc]
  · rw [List.length_append, List.length_singleton]
    dsimp only
    rw [h.tail, cells_update hroom, h.cells]

theorem front (h : q.Holds (x :: xs)) : q.front = some x := by
  have hcells := h.cells
  rw [List.length_cons, cells_cons h.head] at hcells
  obtain ⟨hx, -⟩ := List.cons.inj hcells
  rw [CircularArray.front, if_pos h.head, hx]

theorem pop [Inhabited α] (h : q.Holds (x :: xs)) : ∃ q', q.pop = some (x, q') ∧ q'.Holds xs ∧
    q'.capacity = q.capacity := by
  have hcells := h.cells
  have hlength := h.length
  rw [List.length_cons] at hlength
  rw [List.length_cons, cells_cons h.head] at hcells
  obtain ⟨hx, hrest⟩ := List.cons.inj hcells
  have hcapacity : 0 < q.capacity := by omega
  refine ⟨{ q with
    array := Function.update q.array q.head default
    head := (q.head + 1) % q.capacity
    size := q.size - 1 }, ?_, ⟨Nat.mod_lt _ hcapacity, by dsimp only; omega, ?_, ?_, ?_⟩, rfl⟩
  · rw [CircularArray.pop, if_pos h.head, hx]
  · simp [h.size]
  · dsimp only
    rw [h.tail, Nat.mod_add_mod, List.length_cons, Nat.add_right_comm, Nat.add_assoc]
  · dsimp only
    rw [cells_update_head h.head (by omega), hrest]

end CircularArray.Holds

theorem zero_ensureCapacity [Inhabited α] {count : ℕ} (hcount : 0 < count)
    (hbytes : bytes * count < 2 ^ 64) (factor : ℕ) :
    (CircularArray.zero : CircularArray α).ensureCapacity bytes factor count =
      some ⟨count, 0, 0, 0, fun _ => default⟩ := by
  have hnew : (CircularArray.zero : CircularArray α).newCapacity factor count = count := by
    simp [CircularArray.newCapacity, CircularArray.zero, hcount]
  unfold CircularArray.ensureCapacity
  rw [hnew]
  dsimp only
  rw [Nat.mod_eq_of_lt hbytes]
  simp [CircularArray.zero]

theorem holds_zero [Inhabited α] {count : ℕ} (hcount : 0 < count) (hbytes : bytes * count < 2 ^ 64)
    (factor : ℕ) :
    ∃ q, (CircularArray.zero (α := α)).ensureCapacity bytes factor count = some q ∧ q.Holds [] ∧
      q.capacity = count :=
  ⟨_, zero_ensureCapacity hcount hbytes factor,
    ⟨hcount, Nat.zero_le _, rfl, (Nat.zero_mod _).symm, rfl⟩, rfl⟩

end FreeRDP.Collections
