import FreeRDP.Lib.Ring

/-!
# Lists in circular memory

`cells N mem idx n` is the list of the `n` cells from `idx` on in a circular memory of `N` cells: the
content of a queue that starts at `idx` and has `n` elements.  The lemmas say how the list changes
when a cell or a list is written behind it, when it loses its head, and when the memory is moved.
-/

namespace Circular

open ForwardCopy

variable {α : Type*} {N N' idx idx' m n : ℕ} {mem mem' : ℕ → α}

/-! ### Flat memory -/

/-- The `n` cells from `p` on in flat memory. -/
def slice (mem : ℕ → α) (p n : ℕ) : List α := (List.range n).map fun k => mem (p + k)

@[simp] theorem length_slice (mem : ℕ → α) (p n : ℕ) : (slice mem p n).length = n := by
  simp [slice]

theorem slice_add (mem : ℕ → α) (p m n : ℕ) :
    slice mem p (m + n) = slice mem p m ++ slice mem (p + m) n := by
  rw [slice, List.range_add, List.map_append, List.map_map]
  refine congrArg _ (List.map_congr_left fun k _ => ?_)
  show mem (p + (m + k)) = mem (p + m + k)
  rw [Nat.add_assoc]

/-- The elements of a slice are those of its cells. -/
theorem exists_mem_slice (mem : ℕ → α) (first n : ℕ) (P : α → Prop) :
    (∃ x ∈ slice mem first n, P x) ↔ ∃ i, first ≤ i ∧ i < first + n ∧ P (mem i) := by
  constructor
  · rintro ⟨x, hx, hP⟩
    obtain ⟨k, hk, rfl⟩ := List.mem_map.mp hx
    exact ⟨first + k, Nat.le_add_right _ _, Nat.add_lt_add_left (List.mem_range.mp hk) _, hP⟩
  · rintro ⟨i, hfirst, hlast, hP⟩
    refine ⟨mem i, List.mem_map.mpr ⟨i - first, List.mem_range.mpr (by omega), ?_⟩, hP⟩
    rw [Nat.add_sub_cancel' hfirst]

theorem slice_congr {p p' : ℕ} (h : ∀ k < n, mem (p + k) = mem' (p' + k)) :
    slice mem p n = slice mem' p' n :=
  List.map_congr_left fun k hk => h k (List.mem_range.mp hk)

/-- What has been stored is read back. -/
theorem slice_store (mem : ℕ → α) (p : ℕ) (l : List α) : slice (store mem p l) p l.length = l :=
  map_store mem p l

/-- Cells before the place where a list is stored. -/
theorem slice_store_of_le {p q : ℕ} (h : p + n ≤ q) (mem : ℕ → α) (l : List α) :
    slice (store mem q l) p n = slice mem p n :=
  slice_congr fun _ hk => store_of_lt mem l (by omega)

/-! ### Circular memory -/

def cells (N : ℕ) (mem : ℕ → α) (idx n : ℕ) : List α :=
  (List.range n).map fun k => mem ((idx + k) % N)

@[simp] theorem length_cells (N : ℕ) (mem : ℕ → α) (idx n : ℕ) : (cells N mem idx n).length = n := by
  simp [cells]

@[simp] theorem cells_zero (N : ℕ) (mem : ℕ → α) (idx : ℕ) : cells N mem idx 0 = [] := rfl

theorem cells_add (N : ℕ) (mem : ℕ → α) (idx m n : ℕ) :
    cells N mem idx (m + n) = cells N mem idx m ++ cells N mem ((idx + m) % N) n := by
  rw [cells, List.range_add, List.map_append, List.map_map]
  refine congrArg _ (List.map_congr_left fun k _ => ?_)
  show mem ((idx + (m + k)) % N) = mem (((idx + m) % N + k) % N)
  rw [Nat.mod_add_mod, Nat.add_assoc]

theorem cells_concat (N : ℕ) (mem : ℕ → α) (idx n : ℕ) :
    cells N mem idx (n + 1) = cells N mem idx n ++ [mem ((idx + n) % N)] := by
  rw [cells, List.range_succ, List.map_append]
  rfl

theorem cells_cons (hidx : idx < N) (mem : ℕ → α) (n : ℕ) :
    cells N mem idx (n + 1) = mem idx :: cells N mem ((idx + 1) % N) n := by
  have hone : cells N mem idx 1 = [mem idx] := by
    simp [cells, Nat.mod_eq_of_lt hidx]
  rw [Nat.add_comm n, cells_add, hone]
  rfl

theorem cells_congr (h : ∀ k < n, mem ((idx + k) % N) = mem' ((idx' + k) % N')) :
    cells N mem idx n = cells N' mem' idx' n :=
  List.map_congr_left fun k hk => h k (List.mem_range.mp hk)

/-- Cells that do not go around the end of the memory. -/
theorem cells_of_le (h : idx + n ≤ N) (mem : ℕ → α) : cells N mem idx n = slice mem idx n :=
  List.map_congr_left fun k hk => by
    have := List.mem_range.mp hk
    rw [Nat.mod_eq_of_lt (by omega)]

/-- Cells that go around the end of the memory. -/
theorem cells_of_ge (hidx : idx ≤ N) (h : N ≤ idx + n) (hn : n ≤ N) (mem : ℕ → α) :
    cells N mem idx n = slice mem idx (N - idx) ++ slice mem 0 (idx + n - N) := by
  have hsplit : n = N - idx + (idx + n - N) := by omega
  have hend : (idx + (N - idx)) % N = 0 := by
    rw [Nat.add_sub_cancel' hidx, Nat.mod_self]
  conv_lhs => rw [hsplit, cells_add, hend]
  rw [cells_of_le (by omega), cells_of_le (by omega)]

theorem index_ne {i j : ℕ} (hij : i < j) (hj : j < i + N) : (idx + i) % N ≠ (idx + j) % N := by
  intro h
  have hmod : i ≡ j [MOD N] := Nat.ModEq.add_left_cancel' idx h
  have hdvd := (Nat.modEq_iff_dvd' hij.le).mp hmod
  have := Nat.le_of_dvd (by omega) hdvd
  omega

/-- One more cell is written behind the list. -/
theorem cells_update (hn : n < N) (mem : ℕ → α) (idx : ℕ) (x : α) :
    cells N (Function.update mem ((idx + n) % N) x) idx (n + 1) = cells N mem idx n ++ [x] := by
  rw [cells_concat, Function.update_self]
  refine congrArg (· ++ [x]) (cells_congr fun k hk => ?_)
  rw [Function.update_of_ne (index_ne hk (by omega))]

/-- The head of the list may be overwritten once it has gone. -/
theorem cells_update_head (hidx : idx < N) (hn : n < N) (mem : ℕ → α) (x : α) :
    cells N (Function.update mem idx x) ((idx + 1) % N) n = cells N mem ((idx + 1) % N) n := by
  refine cells_congr fun k hk => ?_
  have hne : (idx + 0) % N ≠ (idx + (1 + k)) % N := index_ne (by omega) (by omega)
  rw [Nat.add_zero, Nat.mod_eq_of_lt hidx] at hne
  rw [Nat.mod_add_mod, Nat.add_assoc, Function.update_of_ne (Ne.symm hne)]

/-- A list is written behind the list, in one piece or in two. -/
theorem cells_write (hidx : idx < N) {l : List α} (h : n + l.length ≤ N) (mem : ℕ → α) :
    cells N (Ring.write N mem ((idx + n) % N) l) idx (n + l.length) = cells N mem idx n ++ l := by
  have hpos : (idx + n) % N < N := Nat.mod_lt _ (by omega)
  rw [cells_add]
  congr 1
  · refine cells_congr fun k hk => ?_
    -- `k` places behind `idx` are `N - n + k` places behind the end of the list
    have hcell : (idx + k) % N = ((idx + n) % N + (N - n + k)) % N := by
      rw [Nat.mod_add_mod, show idx + n + (N - n + k) = idx + k + N by omega, Nat.add_mod_right]
    rw [hcell, Ring.write_apply_of_le hpos (by omega) (by omega)]
  · refine List.ext_getElem (by simp) fun k _ hk => ?_
    have hwrite : Ring.write N mem ((idx + n) % N) l (((idx + n) % N + k) % N) = l.get ⟨k, hk⟩ :=
      Ring.write_apply hpos (by omega) hk
    rw [Nat.mod_add_mod] at hwrite
    simp [cells, hwrite]

/-- The list without its first `m` elements. -/
theorem drop_cells (h : m ≤ n) (N : ℕ) (mem : ℕ → α) (idx : ℕ) :
    (cells N mem idx n).drop m = cells N mem ((idx + m) % N) (n - m) := by
  obtain ⟨n, rfl⟩ := Nat.exists_eq_add_of_le h
  rw [cells_add, Nat.add_sub_cancel_left]
  exact List.drop_left' (length_cells N mem idx m)

/-- The first `m` elements of the list. -/
theorem take_cells (h : m ≤ n) (N : ℕ) (mem : ℕ → α) (idx : ℕ) :
    (cells N mem idx n).take m = cells N mem idx m := by
  obtain ⟨n, rfl⟩ := Nat.exists_eq_add_of_le h
  rw [cells_add]
  exact List.take_left' (length_cells N mem idx m)

end Circular
