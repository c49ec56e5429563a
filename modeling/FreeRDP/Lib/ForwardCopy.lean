import Mathlib.Data.List.TakeDrop

/-!
# Forward copies in a flat memory

A memory is a function `mem : ℕ → α`.  `store mem p l` writes the list `l` from address `p` on, and
`forwardCopy mem dst src n` copies `n` cells one at a time from `src` to `dst`, lowest address
first, so that a source range that overlaps the destination sees the cells already copied.  This is
the copy of a Lempel–Ziv back-reference.

`checkedCopy` is the same copy in a memory of `limit` cells: it stops at the first address outside.

The main rule is `forwardCopy_eq_store`: a copy whose source cells have been compared, one after
another, with the cells to be produced writes exactly those.
-/

namespace ForwardCopy

variable {α : Type*} {mem : ℕ → α} {dst src p : ℕ} {l : List α}

/-! ### Storing a list -/

/-- Writes the list `l` from address `p` on. -/
def store (mem : ℕ → α) (p : ℕ) : List α → ℕ → α
  | [] => mem
  | b :: l => store (Function.update mem p b) (p + 1) l

@[simp] theorem store_nil (mem : ℕ → α) (p : ℕ) : store mem p [] = mem := rfl

theorem store_cons (mem : ℕ → α) (p : ℕ) (b : α) (l : List α) :
    store mem p (b :: l) = store (Function.update mem p b) (p + 1) l := rfl

theorem store_append (mem : ℕ → α) (p : ℕ) (l l' : List α) :
    store mem p (l ++ l') = store (store mem p l) (p + l.length) l' := by
  induction l generalizing mem p with
  | nil => simp
  | cons b l ih =>
    rw [List.cons_append, store_cons, ih, store_cons, List.length_cons, Nat.add_right_comm,
      Nat.add_assoc]

theorem store_concat (mem : ℕ → α) (p : ℕ) (l : List α) (b : α) :
    store mem p (l ++ [b]) = Function.update (store mem p l) (p + l.length) b := by
  rw [store_append, store_cons, store_nil]

theorem store_of_lt (mem : ℕ → α) {p i : ℕ} (l : List α) (h : i < p) : store mem p l i = mem i := by
  induction l generalizing mem p with
  | nil => rfl
  | cons b l ih => rw [store_cons, ih _ (by omega), Function.update_of_ne (by omega)]

theorem store_of_ge (mem : ℕ → α) {p i : ℕ} (l : List α) (h : p + l.length ≤ i) :
    store mem p l i = mem i := by
  induction l generalizing mem p with
  | nil => rfl
  | cons b l ih =>
    rw [List.length_cons] at h
    rw [store_cons, ih _ (by omega), Function.update_of_ne (by omega)]

theorem store_apply (mem : ℕ → α) (p : ℕ) (l : List α) {k : ℕ} (h : k < l.length) :
    store mem p l (p + k) = l[k] := by
  induction l generalizing mem p k with
  | nil => simp at h
  | cons b l ih =>
    rw [store_cons]
    cases k with
    | zero => rw [Nat.add_zero, store_of_lt _ _ (by omega)]; simp
    | succ k =>
      rw [show p + (k + 1) = p + 1 + k by omega, ih _ _ (by simpa using h)]
      rfl

/-- What is stored in front of a list joins it, also when it is filled in afterwards. -/
theorem store_store (mem : ℕ → α) (p : ℕ) (l l' : List α) :
    store (store mem (p + l.length) l') p l = store mem p (l ++ l') := by
  funext i
  rw [store_append]
  rcases Nat.lt_or_ge i p with hi | hi
  · rw [store_of_lt _ _ hi, store_of_lt _ _ (by omega), store_of_lt _ _ (by omega),
      store_of_lt _ _ hi]
  · obtain ⟨k, rfl⟩ := Nat.exists_eq_add_of_le hi
    rcases Nat.lt_or_ge k l.length with hk | hk
    · rw [store_apply _ _ _ hk, store_of_lt _ _ (by omega), store_apply _ _ _ hk]
    · obtain ⟨j, rfl⟩ := Nat.exists_eq_add_of_le hk
      rw [store_of_ge _ _ (by omega), ← Nat.add_assoc]
      rcases Nat.lt_or_ge j l'.length with hj | hj
      · rw [store_apply _ _ _ hj, store_apply _ _ _ hj]
      · rw [store_of_ge _ _ (by omega), store_of_ge _ _ (by omega), store_of_ge _ _ (by omega)]

/-- Reading back what was stored. -/
theorem map_store (mem : ℕ → α) (p : ℕ) (l : List α) :
    (List.range l.length).map (fun i => store mem p l (p + i)) = l := by
  apply List.ext_getElem (by simp)
  intro k h1 h2
  simp [store_apply mem p l h2]

/-- What is stored behind the first `n` cells is read behind them. -/
theorem map_range_store (mem : ℕ → α) (n : ℕ) (l : List α) :
    (List.range (n + l.length)).map (store mem n l) = (List.range n).map mem ++ l := by
  rw [List.range_add, List.map_append, List.map_map]
  congr 1
  · apply List.map_congr_left
    intro i hi
    exact store_of_lt mem l (List.mem_range.1 hi)
  · exact map_store mem n l

/-! ### The forward copy -/

/-- Copies `n` cells from `src` to `dst`, lowest address first. -/
def forwardCopy (mem : ℕ → α) (dst src : ℕ) : ℕ → ℕ → α
  | 0 => mem
  | n + 1 => forwardCopy (Function.update mem dst (mem src)) (dst + 1) (src + 1) n

@[simp] theorem forwardCopy_zero (mem : ℕ → α) (dst src : ℕ) : forwardCopy mem dst src 0 = mem := rfl

theorem forwardCopy_succ (mem : ℕ → α) (dst src n : ℕ) :
    forwardCopy mem dst src (n + 1) =
      forwardCopy (Function.update mem dst (mem src)) (dst + 1) (src + 1) n := rfl

theorem forwardCopy_succ_last (mem : ℕ → α) (dst src n : ℕ) :
    forwardCopy mem dst src (n + 1) =
      Function.update (forwardCopy mem dst src n) (dst + n)
        (forwardCopy mem dst src n (src + n)) := by
  induction n generalizing mem dst src with
  | zero => rfl
  | succ n ih =>
    rw [forwardCopy_succ, ih, forwardCopy_succ mem dst src n,
      show dst + 1 + n = dst + (n + 1) by omega, show src + 1 + n = src + (n + 1) by omega]

/-- A copy writes `l` when each cell of `l` is what the copy reads at its turn. -/
theorem forwardCopy_eq_store
    (h : ∀ k, (hk : k < l.length) → store mem dst (l.take k) (src + k) = l[k]) :
    forwardCopy mem dst src l.length = store mem dst l := by
  suffices hn : ∀ n, n ≤ l.length → forwardCopy mem dst src n = store mem dst (l.take n) by
    rw [hn _ (Nat.le_refl _), List.take_length]
  intro n
  induction n with
  | zero => intro _; simp
  | succ n ih =>
    intro hn
    have hlen : (l.take n).length = n := by rw [List.length_take]; omega
    rw [forwardCopy_succ_last, ih (by omega), h n (by omega), ← List.take_concat_get' l n (by omega),
      store_concat, hlen]

theorem forwardCopy_add (mem : ℕ → α) (dst src m n : ℕ) :
    forwardCopy mem dst src (m + n) =
      forwardCopy (forwardCopy mem dst src m) (dst + m) (src + m) n := by
  induction m generalizing mem dst src with
  | zero => rw [Nat.zero_add, forwardCopy_zero, Nat.add_zero, Nat.add_zero]
  | succ m ih =>
    rw [Nat.add_right_comm, forwardCopy_succ, ih, forwardCopy_succ, Nat.add_right_comm dst,
      Nat.add_right_comm src, Nat.add_assoc dst, Nat.add_assoc src]

/-- Cells apart from their destination may be copied as one block. -/
theorem forwardCopy_of_apart {n : ℕ} (h : src + n ≤ dst ∨ dst + n ≤ src) :
    forwardCopy mem dst src n = store mem dst ((List.range n).map fun i => mem (src + i)) := by
  have hlen : ((List.range n).map fun i => mem (src + i)).length = n := by simp
  have hcells : forwardCopy mem dst src ((List.range n).map fun i => mem (src + i)).length =
      store mem dst ((List.range n).map fun i => mem (src + i)) := by
    apply forwardCopy_eq_store
    intro k hk
    rw [List.getElem_map, List.getElem_range]
    rcases h with h | h
    · exact store_of_lt _ _ (by omega)
    · apply store_of_ge
      rw [List.length_take]
      omega
  rwa [hlen] at hcells

/-- `n` cells copied one at a time in a memory of `limit` cells; `error i` when the copy reads or
writes the cell `i` outside it. -/
def checkedCopy (limit : ℕ) (mem : ℕ → α) (dst src : ℕ) : ℕ → Except ℕ (ℕ → α)
  | 0 => .ok mem
  | n + 1 =>
    if limit ≤ src then .error src
    else if limit ≤ dst then .error dst
    else checkedCopy limit (Function.update mem dst (mem src)) (dst + 1) (src + 1) n

theorem checkedCopy_of_le {limit n : ℕ} (mem : ℕ → α) (hs : src + n ≤ limit)
    (hd : dst + n ≤ limit) :
    checkedCopy limit mem dst src n = .ok (forwardCopy mem dst src n) := by
  induction n generalizing mem dst src with
  | zero => rfl
  | succ n ih =>
    rw [checkedCopy, if_neg (by omega), if_neg (by omega), ih _ (by omega) (by omega)]
    rfl

/-- A copy whose source leaves the memory fails, whatever its destination. -/
theorem checkedCopy_of_gt {limit n : ℕ} (mem : ℕ → α) (dst : ℕ) (hn : 0 < n) (hs : limit < src + n) :
    ∃ i, checkedCopy limit mem dst src n = .error i ∧ limit ≤ i := by
  induction n generalizing mem dst src with
  | zero => omega
  | succ n ih =>
    rw [checkedCopy]
    split_ifs with h1 h2
    · exact ⟨src, rfl, h1⟩
    · exact ⟨dst, rfl, h2⟩
    · exact ih _ _ (by omega) (by omega)

end ForwardCopy
