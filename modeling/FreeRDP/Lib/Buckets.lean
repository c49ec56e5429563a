import Mathlib.Algebra.BigOperators.Group.Finset.Piecewise
import Mathlib.Data.Finmap

/-!
# Chains in buckets

An array of chains, the first `n` of which are in use.  `place` says in which bucket an element belongs.
`contents` is what is in the buckets, whatever their order; the lemmas say how it changes when one chain
does, and that to distribute the elements anew leaves it as it is.

The last part describes a finite map by its entries, for a table that holds them.
-/

namespace Buckets

variable {α : Type} {n n' i : ℕ} {a : ℕ → List α} {place place' : α → ℕ} {x : α} {l : List α}

/-- What is in the first `n` buckets. -/
def contents (n : ℕ) (a : ℕ → List α) : Multiset α := ∑ i ∈ Finset.range n, (a i : Multiset α)

/-- Each element is in the bucket in which it belongs. -/
def Placed (place : α → ℕ) (n : ℕ) (a : ℕ → List α) : Prop := ∀ i < n, ∀ x ∈ a i, place x = i

/-- An element becomes the first one of its chain. -/
def put (place : α → ℕ) (a : ℕ → List α) (x : α) : ℕ → List α :=
  fun i => if i = place x then x :: a i else a i

/-- The elements of the first `n` buckets, one after another, are put into empty buckets. -/
def distribute (place : α → ℕ) (n : ℕ) (a : ℕ → List α) : ℕ → List α :=
  (List.range n).foldl (fun b i => (a i).foldl (put place) b) fun _ => []

/-! ### Contents -/

theorem mem_contents : x ∈ contents n a ↔ ∃ i < n, x ∈ a i := by
  simp [contents, Multiset.mem_sum]

theorem contents_succ (n : ℕ) (a : ℕ → List α) :
    contents (n + 1) a = contents n a + (a n : Multiset α) :=
  Finset.sum_range_succ _ n

/-- With a chain aside, the contents are those of the other buckets. -/
theorem exists_contents_update (hi : i < n) (a : ℕ → List α) :
    ∃ rest : Multiset α, contents n a = (a i : Multiset α) + rest ∧
      ∀ l, contents n (Function.update a i l) = (l : Multiset α) + rest := by
  have hmem : i ∈ Finset.range n := Finset.mem_range.mpr hi
  have hupdate (l : List α) : contents n (Function.update a i l) =
      (l : Multiset α) + ∑ j ∈ Finset.range n \ {i}, (a j : Multiset α) := by
    have hcoe : (fun j => ((Function.update a i l) j : Multiset α)) =
        Function.update (fun j => (a j : Multiset α)) i l := by
      funext j
      by_cases hj : j = i
      · rw [hj, Function.update_self, Function.update_self]
      · rw [Function.update_of_ne hj, Function.update_of_ne hj]
    rw [contents, hcoe, Finset.sum_update_of_mem hmem]
  refine ⟨_, ?_, hupdate⟩
  rw [← hupdate, Function.update_eq_self]

theorem contents_update_cons (hi : i < n) (a : ℕ → List α) (x : α) :
    contents n (Function.update a i (x :: a i)) = x ::ₘ contents n a := by
  obtain ⟨rest, hcontents, hupdate⟩ := exists_contents_update hi a
  rw [hupdate, hcontents, ← Multiset.cons_coe, Multiset.cons_add]

/-- What is left when an element in a chain is set aside. -/
theorem exists_contents_cons {front rest : List α} (hi : i < n) (hchain : a i = front ++ x :: rest) :
    ∃ others : Multiset α, contents n a = x ::ₘ others ∧
      (∀ y, contents n (Function.update a i (front ++ y :: rest)) = y ::ₘ others) ∧
      contents n (Function.update a i (front ++ rest)) = others := by
  obtain ⟨outside, hcontents, hupdate⟩ := exists_contents_update hi a
  have hcons (y : α) : ((front ++ y :: rest : List α) : Multiset α) =
      y ::ₘ ((front ++ rest : List α) : Multiset α) :=
    Multiset.coe_eq_coe.mpr List.perm_middle
  refine ⟨((front ++ rest : List α) : Multiset α) + outside, ?_, fun y => ?_, hupdate _⟩
  · rw [hcontents, hchain, hcons, Multiset.cons_add]
  · rw [hupdate, hcons, Multiset.cons_add]

theorem contents_empty (n : ℕ) : contents n (fun _ => ([] : List α)) = 0 := by
  simp [contents]

theorem contents_flatMap (n : ℕ) (a : ℕ → List α) :
    ((List.range n).flatMap a : Multiset α) = contents n a := by
  induction n with
  | zero => rfl
  | succ n ih =>
    rw [List.range_succ, List.flatMap_append, ← Multiset.coe_add, ih, contents_succ]
    simp

theorem contents_filter (p : α → Bool) (n : ℕ) (a : ℕ → List α) :
    contents n (fun i => (a i).filter p) = (contents n a).filter fun x => p x = true := by
  induction n with
  | zero => rfl
  | succ n ih =>
    rw [contents_succ, contents_succ, ih, Multiset.filter_add, Multiset.filter_coe]
    simp only [Bool.decide_eq_true]

/-! ### Placement -/

theorem placed_empty (place : α → ℕ) (n : ℕ) : Placed place n fun _ => [] := nofun

theorem Placed.update (h : Placed place n a) (hl : ∀ x ∈ l, place x = i) :
    Placed place n (Function.update a i l) := by
  intro j hj x hx
  by_cases hij : j = i
  · subst hij
    rw [Function.update_self] at hx
    exact hl x hx
  · rw [Function.update_of_ne hij] at hx
    exact h j hj x hx

/-- An element that belongs in a bucket is there, if it is anywhere. -/
theorem Placed.mem_iff (h : Placed place n a) (hx : place x < n) :
    x ∈ contents n a ↔ x ∈ a (place x) := by
  rw [mem_contents]
  constructor
  · rintro ⟨i, hi, hmem⟩
    rwa [h i hi x hmem]
  · exact fun hmem => ⟨_, hx, hmem⟩

/-! ### Elements that are put into buckets -/

theorem put_eq_update (place : α → ℕ) (a : ℕ → List α) (x : α) :
    put place a x = Function.update a (place x) (x :: a (place x)) := by
  funext i
  by_cases hi : i = place x
  · rw [hi, Function.update_self, put, if_pos rfl]
  · rw [Function.update_of_ne hi, put, if_neg hi]

theorem contents_put (hx : place x < n) : contents n (put place a x) = x ::ₘ contents n a := by
  rw [put_eq_update, contents_update_cons hx]

theorem Placed.put (h : Placed place n a) (hx : place x < n) : Placed place n (put place a x) := by
  rw [put_eq_update]
  refine h.update fun y hy => ?_
  obtain rfl | hy := List.mem_cons.mp hy
  · rfl
  · exact h _ hx y hy

theorem contents_foldl_put (hplace : ∀ x, place x < n) :
    contents n (l.foldl (put place) a) = (l : Multiset α) + contents n a := by
  induction l generalizing a with
  | nil => exact (zero_add _).symm
  | cons x l ih => rw [List.foldl_cons, ih, contents_put (hplace x), Multiset.add_cons,
      ← Multiset.cons_coe, Multiset.cons_add]

theorem Placed.foldl_put (h : Placed place n a) (hplace : ∀ x, place x < n) :
    Placed place n (l.foldl (Buckets.put place) a) := by
  induction l generalizing a with
  | nil => exact h
  | cons x l ih => exact ih (h.put (hplace x))

/-- To distribute the elements anew leaves the contents as they are. -/
theorem contents_distribute (hplace : ∀ x, place x < n') (n : ℕ) (a : ℕ → List α) :
    contents n' (distribute place n a) = contents n a := by
  induction n with
  | zero => exact contents_empty n'
  | succ n ih =>
    have hstep : distribute place (n + 1) a = (a n).foldl (put place) (distribute place n a) := by
      rw [distribute, List.range_succ, List.foldl_append]
      rfl
    rw [hstep, contents_foldl_put hplace, ih, contents_succ, add_comm]

theorem placed_distribute (hplace : ∀ x, place x < n') (n : ℕ) (a : ℕ → List α) :
    Placed place n' (distribute place n a) := by
  induction n with
  | zero => exact placed_empty place n'
  | succ n ih =>
    have hstep : distribute place (n + 1) a = (a n).foldl (put place) (distribute place n a) := by
      rw [distribute, List.range_succ, List.foldl_append]
      rfl
    rw [hstep]
    exact ih.foldl_put hplace

/-! ### Maps by their entries -/

section Entries

variable {κ : Type} {β : κ → Type} [DecidableEq κ] {m : Finmap β} {k : κ} {v : β k}
  {rest : Multiset (Sigma β)}

/-- A map is what an insertion makes of the map of its other entries. -/
theorem exists_insert_of_entries (h : m.entries = ⟨k, v⟩ ::ₘ rest) :
    ∃ m' : Finmap β, k ∉ m' ∧ m'.entries = rest ∧ m = m'.insert k v := by
  have hkeys := m.nodupKeys.nodup_keys
  rw [h, Multiset.keys_cons, Multiset.nodup_cons] at hkeys
  obtain ⟨hnot, hrest⟩ := hkeys
  refine ⟨⟨rest, Multiset.nodup_keys.mp hrest⟩, hnot, rfl, Finmap.ext ?_⟩
  rw [h, Finmap.entries_insert_of_notMem hnot]

/-- An entry is replaced. -/
theorem entries_insert_of_cons (h : m.entries = ⟨k, v⟩ ::ₘ rest) (v' : β k) :
    (m.insert k v').entries = ⟨k, v'⟩ ::ₘ rest := by
  obtain ⟨m', hnot, rfl, rfl⟩ := exists_insert_of_entries h
  rw [Finmap.insert_insert, Finmap.entries_insert_of_notMem hnot]

theorem entries_erase_of_cons (h : m.entries = ⟨k, v⟩ ::ₘ rest) : (m.erase k).entries = rest := by
  obtain ⟨m', hnot, rfl, rfl⟩ := exists_insert_of_entries h
  refine congrArg Finmap.entries (Finmap.ext_lookup fun k' => ?_)
  by_cases hk : k' = k
  · subst hk
    rw [Finmap.lookup_erase, Finmap.lookup_eq_none.mpr hnot]
  · rw [Finmap.lookup_erase_ne hk, Finmap.lookup_insert_of_ne _ hk]

end Entries

end Buckets
