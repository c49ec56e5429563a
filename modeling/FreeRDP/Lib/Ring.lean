import FreeRDP.Lib.ForwardCopy
import Mathlib.Data.Nat.ModEq

/-!
# Rings that hold the end of a stream

The past of a stream is a function `past : ℕ → α`: `past k` is the symbol `k` places back, the last
one being `past 1`.  `push` and `append` add symbols.  A ring of `N` cells with a write index holds
the last `N` symbols of a stream (`Holds`); writing a list at the index, in one piece or in two,
appends it (`Holds.write`).
-/

namespace Ring

open ForwardCopy

variable {α : Type*} {N idx : ℕ} {mem past : ℕ → α}

def push (past : ℕ → α) (b : α) : ℕ → α := fun k => if k = 1 then b else past (k - 1)

/-- More symbols, one after another. -/
def append (past : ℕ → α) (l : List α) : ℕ → α := l.foldl push past

@[simp] theorem append_nil (past : ℕ → α) : append past [] = past := rfl

theorem append_cons (past : ℕ → α) (b : α) (l : List α) :
    append past (b :: l) = append (push past b) l := rfl

theorem append_append (past : ℕ → α) (l l' : List α) :
    append past (l ++ l') = append (append past l) l' := List.foldl_append

/-- Behind the appended symbols the past goes on. -/
theorem append_of_gt (past : ℕ → α) (l : List α) {k : ℕ} (h : l.length < k) :
    append past l k = past (k - l.length) := by
  induction l generalizing past with
  | nil => rfl
  | cons b l ih =>
    rw [List.length_cons] at h
    rw [append_cons, ih _ (by omega), push, if_neg (by omega), List.length_cons]
    congr 1

/-- The appended symbols are the nearest ones, the last of them first. -/
theorem append_of_le (past : ℕ → α) (l : List α) {k : ℕ} (h1 : 1 ≤ k) (h2 : k ≤ l.length) :
    append past l k = l.get ⟨l.length - k, by omega⟩ := by
  induction l generalizing past with
  | nil => simp at h2; omega
  | cons b l ih =>
    rw [List.length_cons] at h2
    rw [append_cons]
    by_cases hk : k ≤ l.length
    · rw [ih _ hk]
      simp [show l.length + 1 - k = l.length - k + 1 by omega]
    · rw [append_of_gt _ _ (by omega), push, if_pos (by omega)]
      simp [show l.length + 1 - k = 0 by omega]

/-- The cells of `mem` before the write index `idx`, cyclically, hold the last `N` symbols. -/
def Holds (N : ℕ) (mem : ℕ → α) (idx : ℕ) (past : ℕ → α) : Prop :=
  ∀ k, 1 ≤ k → k ≤ N → mem ((idx + N - k) % N) = past k

/-- Writes a list of at most `N` symbols at the index, in two pieces if it passes the end. -/
def write (N : ℕ) (mem : ℕ → α) (idx : ℕ) (l : List α) : ℕ → α :=
  if idx + l.length ≤ N then store mem idx l
  else store (store mem idx (l.take (N - idx))) 0 (l.drop (N - idx))

/-- The cells a write reaches. -/
theorem write_apply (hidx : idx < N) {l : List α} (hl : l.length ≤ N) {i : ℕ} (hi : i < l.length) :
    write N mem idx l ((idx + i) % N) = l.get ⟨i, hi⟩ := by
  unfold write
  split_ifs with h
  · rw [Nat.mod_eq_of_lt (by omega), store_apply _ _ _ hi]
    rfl
  · by_cases hfront : idx + i < N
    · rw [Nat.mod_eq_of_lt hfront, store_of_ge _ _ (by simp; omega),
        store_apply _ _ _ (by simp; omega)]
      simp
    · have hmod : (idx + i) % N = 0 + (i - (N - idx)) := by
        rw [Nat.mod_eq_sub_mod (by omega), Nat.mod_eq_of_lt (by omega)]
        omega
      rw [hmod, store_apply _ _ _ (by simp; omega)]
      simp [show N - idx + (i - (N - idx)) = i by omega]

theorem write_apply_of_le (hidx : idx < N) {l : List α} {i : ℕ} (hi : l.length ≤ i)
    (hiN : i < N) : write N mem idx l ((idx + i) % N) = mem ((idx + i) % N) := by
  unfold write
  by_cases hwrap : idx + i < N
  · rw [Nat.mod_eq_of_lt hwrap, if_pos (by omega), store_of_ge _ _ (by omega)]
  · have hmod : (idx + i) % N = idx + i - N := by
      rw [Nat.mod_eq_sub_mod (by omega), Nat.mod_eq_of_lt (by omega)]
    rw [hmod]
    split_ifs with h
    · exact store_of_lt _ _ (by omega)
    · rw [store_of_ge _ _ (by simp; omega), store_of_lt _ _ (by omega)]

/-- Writing appends. -/
theorem Holds.write (h : Holds N mem idx past) (hidx : idx < N) {l : List α} (hl : l.length ≤ N) :
    Holds N (write N mem idx l) ((idx + l.length) % N) (append past l) := by
  intro k hk hkN
  by_cases hnew : k ≤ l.length
  · -- the cell was just written
    have hcell : ((idx + l.length) % N + N - k) % N = (idx + (l.length - k)) % N := by
      rw [Nat.add_sub_assoc (by omega), Nat.mod_add_mod,
        show idx + l.length + (N - k) = idx + (l.length - k) + N by omega, Nat.add_mod_right]
    rw [hcell, write_apply hidx hl (by omega), append_of_le _ _ hk hnew]
  · have hcell : ((idx + l.length) % N + N - k) % N = (idx + (N + l.length - k)) % N := by
      rw [Nat.add_sub_assoc (by omega), Nat.mod_add_mod]
      congr 1
      omega
    rw [hcell, write_apply_of_le hidx (by omega) (by omega), append_of_gt _ _ (by omega),
      ← h (k - l.length) (by omega) (by omega)]
    congr 2
    omega

/-! ### Rings by their past -/

/-- What a ring holds, read backwards from the write index. -/
def pastOf (N : ℕ) (mem : ℕ → α) (idx : ℕ) (k : ℕ) : α := mem ((idx + N - k) % N)

theorem holds_pastOf (N : ℕ) (mem : ℕ → α) (idx : ℕ) : Holds N mem idx (pastOf N mem idx) :=
  fun _ _ _ => rfl

/-- The past determines the cells. -/
theorem Holds.cell_eq {mem' : ℕ → α} (h : Holds N mem idx past) (h' : Holds N mem' idx past)
    (hidx : idx < N) {i : ℕ} (hi : i < N) : mem i = mem' i := by
  -- the cell `i` is `k` places back
  obtain ⟨k, hk, hkN, hcell⟩ : ∃ k, 1 ≤ k ∧ k ≤ N ∧ (idx + N - k) % N = i := by
    by_cases hlt : i < idx
    · refine ⟨idx - i, by omega, by omega, ?_⟩
      rw [show idx + N - (idx - i) = i + N by omega, Nat.add_mod_right, Nat.mod_eq_of_lt hi]
    · refine ⟨idx + N - i, by omega, by omega, ?_⟩
      rw [show idx + N - (idx + N - i) = i by omega, Nat.mod_eq_of_lt hi]
  have hmem := h k hk hkN
  have hmem' := h' k hk hkN
  rw [hcell] at hmem hmem'
  rw [hmem, hmem']

/-- A write does not reach beyond the ring. -/
theorem write_of_ge (hidx : idx < N) {l : List α} (hl : l.length ≤ N) {i : ℕ} (hi : N ≤ i) :
    write N mem idx l i = mem i := by
  unfold write
  split_ifs with h
  · exact store_of_ge _ _ (by omega)
  · rw [store_of_ge _ _ (by rw [List.length_drop]; omega),
      store_of_ge _ _ (by rw [List.length_take]; omega)]

/-- A list that fills the ring is all that the ring holds. -/
theorem holds_write_full (mem past : ℕ → α) (hidx : idx < N) {l : List α} (hl : l.length = N) :
    Holds N (write N mem idx l) idx (append past l) := by
  intro k hk hkN
  have hwrite := (holds_pastOf N mem idx).write hidx hl.le k hk hkN
  rw [hl, Nat.add_mod_right, Nat.mod_eq_of_lt hidx] at hwrite
  rw [hwrite, append_of_le _ _ hk (by omega), append_of_le _ _ hk (by omega)]

end Ring
