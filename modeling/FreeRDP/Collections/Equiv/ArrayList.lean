import FreeRDP.Collections.ArrayList
import Mathlib.Data.List.Induction

/-!
# What an `ArrayList` holds and finds

The calls that change an `ArrayList` are those on a list: `listAfter` (`ArrayList.Holds.run`).  An `Insert`,
a `RemoveAt` and a `SetItem` behind the last element do nothing.

`ArrayList_IndexOf` looks at as many elements as the list has when it is to look up to the end, from wherever
it starts, and `ArrayList_LastIndexOf` returns the index behind the element that it has found.
`arrayList_refines` says when each of them is right nevertheless.
-/

namespace FreeRDP.Collections

open Traced Circular

variable {α : Type} {a a' : ArrayList α} {l : List α} {p : α → Bool} {index n i : ℕ} {obj : α}

/-! ### Calls -/

/-- The list is in the array, whose memory is as large as its capacity. -/
structure ArrayList.Holds (a : ArrayList α) (l : List α) : Prop where
  sized : a.toSlots.Sized (2 ^ 32)
  growthFactor : a.growthFactor = 2
  elems : a.elems = l

theorem ArrayList.Holds.size (h : a.Holds l) : a.size = l.length := by
  rw [← h.elems, Slots.length_elems]

/-- An index below `2 ^ 31` as an `int`. -/
theorem bmod_of_small (h : n < 2 ^ 31) : (n : ℤ).bmod (2 ^ 32) = n :=
  Int.bmod_eq_of_le (by omega) (by omega)

namespace ArrayList.Holds

/-- There is a place for one more element. -/
theorem ensureCapacity (h : a.Holds l) (hlength : l.length + 1 < 2 ^ 31) :
    ∃ a', arrayListEnsureCapacity true 1 a = (true, a') ∧ a'.Holds l ∧ a'.size < a'.capacity := by
  have hsize := h.size
  have hle := h.sized.size_le
  have htwo := h.sized.two_le
  have hneeded : (a.size + 1) % 2 ^ 64 = a.size + 1 := Nat.mod_eq_of_lt (by omega)
  unfold arrayListEnsureCapacity
  dsimp only
  rw [hneeded]
  by_cases hfull : a.size + 1 > a.capacity
  · have hdouble : a.capacity * 2 % 2 ^ 64 = a.capacity * 2 := Nat.mod_eq_of_lt (by omega)
    have hbytes : 8 * (a.capacity * 2) % 2 ^ 64 = 8 * (a.capacity * 2) := Nat.mod_eq_of_lt (by omega)
    have hmemory : 8 * (a.capacity * 2) < 2 ^ 63 := by omega
    rw [if_pos hfull, h.growthFactor, hdouble, if_neg (by omega), hbytes, Slots.realloc,
      if_pos ⟨rfl, hmemory⟩, Nat.mul_div_cancel_left _ (by decide)]
    refine ⟨_, rfl, ⟨⟨?_, rfl, ?_, ?_⟩, rfl, h.elems⟩, ?_⟩
    all_goals
      dsimp only
      omega
  · rw [if_neg hfull]
    exact ⟨a, rfl, h, by omega⟩

theorem setItem (h : a.Holds l) (index : ℕ) (obj : α) :
    ∃ a', arrayListSetItem index obj a = some a' ∧ a'.Holds (l.set index obj) := by
  unfold arrayListSetItem
  by_cases hindex : index < a.size
  · obtain ⟨s, hwrite, hsized, -, helems⟩ := h.sized.write hindex obj
    rw [if_pos hindex, hwrite]
    exact ⟨_, rfl, hsized, h.growthFactor, by rw [helems, h.elems]⟩
  · rw [if_neg hindex]
    have hsame : l.set index obj = l := List.set_eq_of_length_le (by rw [← h.size]; omega)
    exact ⟨a, rfl, hsame.symm ▸ h⟩

theorem add (h : a.Holds l) (obj : α) (hlength : l.length + 1 < 2 ^ 31) :
    ∃ a', arrayListAdd true obj a = some ((l.length : ℤ), a') ∧ a'.Holds (l ++ [obj]) := by
  obtain ⟨b, hensure, hb, hroom⟩ := h.ensureCapacity hlength
  obtain ⟨s, hpush, hsized, -, -, helems⟩ := hb.sized.push hroom obj
  have hsize := hb.size
  have hindex : ((b.size : ℤ) % 2 ^ 64).toNat = b.size := by omega
  have hspace : b.size < b.room := hb.sized.room_eq ▸ hroom
  refine ⟨{ b with toSlots := s }, ?_, hsized, hb.growthFactor, by rw [helems, hb.elems]⟩
  rw [Slots.push_eq obj hspace] at hpush
  unfold arrayListAdd
  rw [hensure]
  dsimp only
  rw [bmod_of_small (by omega), hindex]
  unfold arrayListSetItem Slots.write
  dsimp only
  rw [if_pos (Nat.lt_succ_self _), if_pos hspace, ← hsize]
  exact congrArg (fun s => some ((b.size : ℤ), { b with toSlots := s })) (Option.some.inj hpush)

/-- The elements from `index` on make place for one. -/
theorem insert (h : a.Holds l) {index : ℕ} (hindex : index < a.size) (obj : α)
    (hlength : l.length + 1 < 2 ^ 31) :
    ∃ a', arrayListInsert true index obj a = some (true, a') ∧ a'.Holds (l.insertIdx index obj) := by
  obtain ⟨b, hensure, hb, hroom⟩ := h.ensureCapacity hlength
  have hsize := hb.size
  have hlt : index < b.size := by rw [hsize, ← h.size]; exact hindex
  obtain ⟨s, hmove, hsize', hsized, hset⟩ := hb.sized.insert hroom (Nat.le_of_lt hlt)
  have hn : (((b.size : ℤ) - index) % 2 ^ 64).toNat = b.size - index := by omega
  have hdst : ((index : ℤ) + 1).toNat = index + 1 := by omega
  have hcount : ((s.size : ℤ) + 1).toNat = b.size + 1 := by omega
  have hshift : arrayListShift true index 1 a =
      some (true, { b with toSlots := { s with size := b.size + 1 } }) := by
    unfold arrayListShift
    rw [if_pos (by decide)]
    have hensure' : arrayListEnsureCapacity true (1 : ℤ).toNat a = (true, b) := hensure
    rw [hensure']
    dsimp only
    unfold moveMemory
    rw [hn, if_neg (by omega), hdst, Int.toNat_natCast, hmove, Option.bind_eq_bind, Option.bind_some,
      hcount]
    rfl
  have hmid : ArrayList.Holds { b with toSlots := { s with size := b.size + 1 } }
      { s with size := b.size + 1 }.elems := ⟨hsized, hb.growthFactor, rfl⟩
  obtain ⟨c, hsetItem, hc⟩ := hmid.setItem index obj
  refine ⟨c, ?_, ?_⟩
  · unfold arrayListInsert
    rw [if_pos hindex, bmod_of_small (by omega), hshift, Option.bind_eq_bind, Option.bind_some]
    dsimp only
    rw [if_pos rfl, hsetItem]
    rfl
  · rwa [hset, hb.elems] at hc

/-- The elements behind `index` are moved to it. -/
theorem shift (h : a.Holds l) {index : ℕ} (hindex : index < a.size) (hlength : l.length < 2 ^ 31) :
    ∃ a', arrayListShift true ((index : ℤ).bmod (2 ^ 32)) (-1) a = some (true, a') ∧
      a'.Holds (l.eraseIdx index) := by
  have hsize := h.size
  have hle := h.sized.size_le
  obtain ⟨s, hmove, hsize', -, hsized, helems⟩ :=
    h.sized.remove (n := a.size - index - 1) hindex (by omega) (by omega)
  have hchunk : ((a.size : ℤ) - index + -1).bmod (2 ^ 64) = ((a.size - index - 1 : ℕ) : ℤ) := by
    rw [Int.bmod_eq_of_le (by omega) (by omega)]
    omega
  have hcount : ((s.size : ℤ) + -1).toNat = a.size - 1 := by omega
  have hsrc : ((index : ℤ) - -1).toNat = index + 1 := by omega
  refine ⟨{ a with toSlots := { s with size := a.size - 1 } }, ?_, hsized, h.growthFactor,
    by rw [helems, h.elems]⟩
  unfold arrayListShift
  rw [bmod_of_small (by omega), if_neg (by decide), if_pos (by decide)]
  dsimp only
  rw [hchunk]
  by_cases hlast : a.size - index - 1 > 0
  · unfold moveMemory
    rw [if_pos (Int.natCast_pos.mpr hlast), if_neg (by omega), hsrc, Int.toNat_natCast,
      Int.toNat_natCast, hmove, Option.bind_eq_bind, Option.bind_some, hcount]
    rfl
  · -- the last element: nothing is moved
    have hzero : a.size - index - 1 = 0 := by omega
    have hsame : s = a.toSlots := by
      rw [hzero, Slots.move, if_pos (Or.inl rfl)] at hmove
      rw [← Option.some.inj hmove]
      congr 1
      funext i
      rw [if_neg (by omega)]
    subst hsame
    rw [hzero, if_neg (by decide), Option.bind_eq_bind, Option.bind_some, hcount]
    rfl

theorem removeAt (h : a.Holds l) (index : ℕ) (hlength : l.length < 2 ^ 31) :
    ∃ a', arrayListRemoveAt true index a = some (true, a') ∧ a'.Holds (l.eraseIdx index) := by
  unfold arrayListRemoveAt
  by_cases hindex : index < a.size
  · rw [if_pos hindex]
    exact h.shift hindex hlength
  · rw [if_neg hindex]
    have hsame : l.eraseIdx index = l := List.eraseIdx_of_length_le (by rw [← h.size]; omega)
    exact ⟨a, rfl, hsame.symm ▸ h⟩

theorem remove (equals : α → α → Bool) (h : a.Holds l) (obj : α) (hlength : l.length < 2 ^ 31) :
    ∃ a', arrayListRemove equals true obj a = some (true, a') ∧
      a'.Holds (l.eraseP (equals · obj)) := by
  unfold arrayListRemove
  rw [Slots.find_eq_findIdx _ h.sized.size_le_room, Option.bind_eq_bind, Option.bind_some, h.elems,
    List.eraseP_eq_eraseIdx]
  cases hfind : l.findIdx? (equals · obj) with
  | none => exact ⟨a, rfl, h⟩
  | some index =>
    have hindex : index < a.size := by
      rw [h.size]
      exact (List.findIdx?_eq_some_iff_findIdx_eq.mp hfind).1
    exact h.shift hindex hlength

theorem clear [Inhabited α] (h : a.Holds l) :
    ∃ a', arrayListClear a = some a' ∧ a'.Holds [] := by
  have hloop : ∀ n ≤ a.size, ∃ s, (List.range n).foldlM
      (fun (s : Slots α) index => s.write index default) a.toSlots = some s ∧
        s.Sized (2 ^ 32) ∧ s.size = a.size := by
    intro n
    induction n with
    | zero => intro _; exact ⟨a.toSlots, rfl, h.sized, rfl⟩
    | succ n ih =>
      intro hn
      obtain ⟨s, hfold, hsized, hsize⟩ := ih (by omega)
      obtain ⟨s', hwrite, hsized', hsize', -⟩ := hsized.write (by omega : n < s.size) default
      refine ⟨s', ?_, hsized', hsize'.trans hsize⟩
      rw [List.range_succ, List.foldlM_append, hfold, Option.bind_eq_bind, Option.bind_some,
        List.foldlM_cons, hwrite]
      rfl
  obtain ⟨s, hfold, hsized, -⟩ := hloop a.size (Nat.le_refl _)
  refine ⟨{ a with toSlots := { s with size := 0 } }, ?_,
    ⟨Nat.zero_le _, hsized.room_eq, hsized.two_le, hsized.capacity_lt⟩, h.growthFactor, rfl⟩
  unfold arrayListClear
  rw [hfold]
  rfl

end ArrayList.Holds

/-! ### Runs -/

def ArrayListOp.apply (equals : α → α → Bool) (l : List α) : ArrayListOp α → List α
  | add obj => l ++ [obj]
  | insert index obj => if index < l.length then l.insertIdx index obj else l
  | remove obj => l.eraseP (equals · obj)
  | removeAt index => l.eraseIdx index
  | setItem index obj => l.set index obj
  | clear => []

def listAfter (equals : α → α → Bool) (ops : List (ArrayListOp α)) : List α :=
  ops.foldl (ArrayListOp.apply equals) []

/-- There are never `2 ^ 31` elements. -/
def FewElements (equals : α → α → Bool) (ops : List (ArrayListOp α)) : Prop :=
  ∀ ops', ops' <+: ops → (listAfter equals ops').length < 2 ^ 31

variable {equals : α → α → Bool} {ops : List (ArrayListOp α)}

theorem ArrayList.Holds.call [Inhabited α] (h : a.Holds l) (op : ArrayListOp α)
    (hlength : l.length < 2 ^ 31) (happly : (op.apply equals l).length < 2 ^ 31) :
    ∃ a', op.call equals a = some a' ∧ a'.Holds (op.apply equals l) := by
  cases op with
  | add obj =>
    have hlength' : l.length + 1 < 2 ^ 31 := by
      rwa [ArrayListOp.apply, List.length_append, List.length_singleton] at happly
    obtain ⟨a', hadd, ha'⟩ := h.add obj hlength'
    exact ⟨a', by rw [ArrayListOp.call, hadd, Option.map_some], ha'⟩
  | insert index obj =>
    rw [ArrayListOp.apply] at happly ⊢
    by_cases hindex : index < l.length
    · rw [if_pos hindex] at happly ⊢
      rw [List.length_insertIdx_of_le_length (Nat.le_of_lt hindex)] at happly
      obtain ⟨a', hinsert, ha'⟩ := h.insert (by rwa [h.size]) obj happly
      exact ⟨a', by rw [ArrayListOp.call, hinsert, Option.map_some], ha'⟩
    · rw [if_neg hindex]
      refine ⟨a, ?_, h⟩
      rw [ArrayListOp.call, arrayListInsert, if_neg (by rwa [h.size]), Option.map_some]
  | remove obj =>
    obtain ⟨a', hremove, ha'⟩ := h.remove equals obj hlength
    exact ⟨a', by rw [ArrayListOp.call, hremove, Option.map_some], ha'⟩
  | removeAt index =>
    obtain ⟨a', hremove, ha'⟩ := h.removeAt index hlength
    exact ⟨a', by rw [ArrayListOp.call, hremove, Option.map_some], ha'⟩
  | setItem index obj => exact h.setItem index obj
  | clear => exact h.clear

theorem arrayListNew_holds (memory : ℕ → α) :
    ∃ a, arrayListNew true memory = some a ∧ a.Holds [] :=
  ⟨⟨⟨0, 32, 32, memory⟩, 2⟩, by simp [arrayListNew, arrayListEnsureCapacity, Slots.realloc],
    ⟨Nat.zero_le 32, rfl, (by decide : 2 ≤ 32), (by decide : 32 < 2 ^ 32)⟩, rfl, rfl⟩

theorem ArrayList.Holds.run [Inhabited α] (memory : ℕ → α) (h : FewElements equals ops) :
    ∃ a, runArrayList equals memory ops = some a ∧ a.Holds (listAfter equals ops) := by
  obtain ⟨a₀, hnew, ha₀⟩ := arrayListNew_holds memory
  unfold runArrayList
  rw [hnew, Option.bind_eq_bind, Option.bind_some]
  induction ops using List.reverseRecOn with
  | nil => exact ⟨a₀, rfl, ha₀⟩
  | append_singleton ops op ih =>
    obtain ⟨a, hrun, ha⟩ := ih fun ops' hsub => h ops' (hsub.trans (List.prefix_append _ _))
    have hafter : listAfter equals (ops ++ [op]) = op.apply equals (listAfter equals ops) := by
      rw [listAfter, List.foldl_append]
      rfl
    obtain ⟨a', hcall, ha'⟩ := ha.call op (h ops (List.prefix_append _ _))
      (hafter ▸ h _ List.prefix_rfl)
    refine ⟨a', ?_, hafter ▸ ha'⟩
    rw [List.foldlM_append, hrun, Option.bind_eq_bind, Option.bind_some, List.foldlM_cons, hcall]
    rfl

/-- A call adds one element at most. -/
theorem length_apply_le (op : ArrayListOp α) (l : List α) :
    (op.apply equals l).length ≤ l.length + 1 := by
  cases op with
  | add obj => rw [ArrayListOp.apply, List.length_append, List.length_singleton]
  | insert index obj =>
    rw [ArrayListOp.apply]
    split_ifs with hindex
    · exact Nat.le_of_eq (List.length_insertIdx_of_le_length (Nat.le_of_lt hindex) obj)
    · exact Nat.le_succ _
  | remove obj => exact Nat.le_succ_of_le (List.length_eraseP_le ..)
  | removeAt index => exact Nat.le_succ_of_le (List.length_eraseIdx_le ..)
  | setItem index obj =>
    rw [ArrayListOp.apply, List.length_set]
    exact Nat.le_succ _
  | clear => exact Nat.zero_le _

theorem length_listAfter_le (ops : List (ArrayListOp α)) :
    (listAfter equals ops).length ≤ ops.length := by
  induction ops using List.reverseRecOn with
  | nil => exact Nat.le_refl _
  | append_singleton ops op ih =>
    have hle : (op.apply equals (listAfter equals ops)).length ≤ (listAfter equals ops).length + 1 :=
      length_apply_le op _
    rw [listAfter, List.foldl_append, List.length_append, List.length_singleton]
    exact Nat.le_trans hle (Nat.succ_le_succ ih)

theorem fewElements_of_length (h : ops.length < 2 ^ 31) : FewElements equals ops := fun ops' hsub =>
  Nat.lt_of_le_of_lt (length_listAfter_le ops') (Nat.lt_of_le_of_lt hsub.length_le h)

/-! ### Searches -/

/-- The element at `i` matches. -/
def Matches (p : α → Bool) (l : List α) (i : ℕ) : Prop := ∃ x, l[i]? = some x ∧ p x = true

/-- The index of the first of the `n` elements from `start` on that matches, or -1. -/
def IsFirst (p : α → Bool) (l : List α) (start n : ℕ) (r : ℤ) : Prop :=
  (∃ i, start ≤ i ∧ i < start + n ∧ Matches p l i ∧ r = i ∧
    ∀ k, start ≤ k → k < i → ¬ Matches p l k) ∨
  (r = -1 ∧ ∀ k, start ≤ k → k < start + n → ¬ Matches p l k)

/-- The index of the last of the `n` elements from `start` on that matches, or -1. -/
def IsLast (p : α → Bool) (l : List α) (start n : ℕ) (r : ℤ) : Prop :=
  (∃ i, start ≤ i ∧ i < start + n ∧ Matches p l i ∧ r = i ∧
    ∀ k, i < k → k < start + n → ¬ Matches p l k) ∨
  (r = -1 ∧ ∀ k, start ≤ k → k < start + n → ¬ Matches p l k)

theorem ArrayList.Holds.matches_iff (h : a.Holds l) (hi : i < a.size) :
    Matches p l i ↔ p (a.slot i) = true := by
  unfold Matches
  rw [← h.elems, Slots.getElem?_elems hi]
  simp

/-- An upward search reads what it does not find before. -/
theorem safe_searchUp_iff {slot : ℕ → α} {P : ℕ → Prop} :
    (searchUp p slot index n).Safe P ↔
      ∀ i, index ≤ i → i < index + n → (∀ k, index ≤ k → k < i → p (slot k) = false) → P i := by
  induction n generalizing index with
  | zero => exact iff_of_true ((safe_pure _).mpr trivial) fun i hle hlt => by omega
  | succ n ih =>
    rw [searchUp, safe_bind, safe_access, safe_ite, ih]
    constructor
    · rintro ⟨hfirst, -, hrest⟩ i hle hlt hbefore
      rcases Nat.eq_or_lt_of_le hle with rfl | hgt
      · exact hfirst
      · refine hrest ?_ i hgt (by omega) fun k hk hki => hbefore k (by omega) hki
        rw [hbefore index (Nat.le_refl _) hgt]
        exact Bool.false_ne_true
    · intro h
      refine ⟨h index (Nat.le_refl _) (by omega) fun k hk hki => by omega,
        fun _ => (safe_pure _).mpr trivial, fun hp i hle hlt hbefore =>
        h i (by omega) (by omega) fun k hk hki => ?_⟩
      rcases Nat.eq_or_lt_of_le hk with rfl | hgt
      · exact Bool.eq_false_iff.mpr hp
      · exact hbefore k hgt hki

theorem isFirst_searchUp (p : α → Bool) (l : List α) (slot : ℕ → α) (index n : ℕ)
    (h : ∀ i, index ≤ i → i < index + n →
      (∀ k, index ≤ k → k < i → p (slot k) = false) → (Matches p l i ↔ p (slot i) = true)) :
    IsFirst p l index n (resultOf (searchUp p slot index n).value) := by
  induction n generalizing index with
  | zero => exact Or.inr ⟨rfl, fun k hle hlt => by omega⟩
  | succ n ih =>
    have hindex := h index (Nat.le_refl _) (by omega) fun k hk hki => by omega
    rw [searchUp, value_bind, value_ite]
    by_cases hp : p (slot index) = true
    · rw [if_pos hp, value_pure]
      exact Or.inl ⟨index, Nat.le_refl _, by omega, hindex.mpr hp, rfl, fun k hk hki => by omega⟩
    rw [if_neg hp]
    have hno : ¬ Matches p l index := fun hmatch => hp (hindex.mp hmatch)
    have hrest := ih (index + 1) fun i hle hlt hbefore =>
      h i (by omega) (by omega) fun k hk hki => by
        rcases Nat.eq_or_lt_of_le hk with rfl | hgt
        · exact Bool.eq_false_iff.mpr hp
        · exact hbefore k hgt hki
    rcases hrest with ⟨i, hle, hlt, hmatch, hr, hbefore⟩ | ⟨hr, hnone⟩
    · refine Or.inl ⟨i, by omega, by omega, hmatch, hr, fun k hk hki => ?_⟩
      rcases Nat.eq_or_lt_of_le hk with rfl | hgt
      · exact hno
      · exact hbefore k hgt hki
    · refine Or.inr ⟨hr, fun k hk hki => ?_⟩
      rcases Nat.eq_or_lt_of_le hk with rfl | hgt
      · exact hno
      · exact hnone k hgt (by omega)

/-- A downward search reads what it does not find before. -/
theorem safe_searchDown_iff {slot : ℕ → α} {P : ℕ → Prop} :
    (searchDown p slot index n).Safe P ↔
      ∀ i, index ≤ i → i < index + n →
        (∀ k, i < k → k < index + n → p (slot k) = false) → P i := by
  induction n with
  | zero => exact iff_of_true ((safe_pure _).mpr trivial) fun i hle hlt => by omega
  | succ n ih =>
    rw [searchDown, Nat.add_succ_sub_one, safe_bind, safe_access, safe_ite, ih]
    constructor
    · rintro ⟨hlast, -, hrest⟩ i hle hlt hbehind
      by_cases heq : i = index + n
      · exact heq ▸ hlast
      · refine hrest ?_ i hle (by omega) fun k hk hkn => hbehind k hk (by omega)
        rw [hbehind (index + n) (by omega) (by omega)]
        exact Bool.false_ne_true
    · intro h
      refine ⟨h (index + n) (by omega) (by omega) fun k hk hkn => by omega,
        fun _ => (safe_pure _).mpr trivial, fun hp i hle hlt hbehind =>
        h i hle (by omega) fun k hk hkn => ?_⟩
      by_cases heq : k = index + n
      · exact heq ▸ Bool.eq_false_iff.mpr hp
      · exact hbehind k hk (by omega)

/-- Where it finds something it returns more than the index of that. -/
theorem searchDown_cases (p : α → Bool) (slot : ℕ → α) (index n : ℕ) :
    (∃ i, index ≤ i ∧ i < index + n ∧ p (slot i) = true ∧
      (searchDown p slot index n).value = some (i + 1) ∧
        ∀ k, i < k → k < index + n → p (slot k) = false) ∨
    ((searchDown p slot index n).value = none ∧
      ∀ k, index ≤ k → k < index + n → p (slot k) = false) := by
  induction n with
  | zero => exact Or.inr ⟨rfl, fun k hle hlt => by omega⟩
  | succ n ih =>
    rw [searchDown, Nat.add_succ_sub_one, value_bind, value_ite]
    by_cases hp : p (slot (index + n)) = true
    · rw [if_pos hp, value_pure]
      exact Or.inl ⟨index + n, by omega, by omega, hp, rfl, fun k hk hkn => by omega⟩
    rw [if_neg hp]
    have hlast : ∀ k, k < index + (n + 1) → (k < index + n → p (slot k) = false) →
        p (slot k) = false := by
      intro k hk hbefore
      by_cases heq : k = index + n
      · exact heq ▸ Bool.eq_false_iff.mpr hp
      · exact hbefore (by omega)
    rcases ih with ⟨i, hle, hlt, hmatch, hvalue, hbehind⟩ | ⟨hvalue, hnone⟩
    · exact Or.inl ⟨i, hle, by omega, hmatch, hvalue,
        fun k hk hkn => hlast k hkn (hbehind k hk)⟩
    · exact Or.inr ⟨hvalue, fun k hk hkn => hlast k hkn (hnone k hk)⟩

/-! ### What the searches are to do -/

/-- How many elements a search is to look at. -/
def rangeCount (startIndex count : ℤ) (l : List α) : ℕ :=
  if count < 0 then l.length - startOf startIndex else count.toNat

structure InRange (startIndex count : ℤ) (l : List α) : Prop where
  start_ge : -1 ≤ startIndex
  start_le : startIndex ≤ l.length
  count_le : count ≤ l.length - startOf startIndex

/-- `ArrayList_Contains` reads elements only and says whether one matches. -/
def ContainsRight (equals : α → α → Bool) (obj : α) (l : List α) (a : ArrayList α) : Prop :=
  (arrayListContains equals obj a).Safe (· < l.length) ∧
    ((arrayListContains equals obj a).value = true ↔ ∃ i, Matches (equals · obj) l i)

/-- `ArrayList_IndexOf` reads elements only and finds the first. -/
def IndexOfRight (equals : α → α → Bool) (obj : α) (startIndex count : ℤ) (l : List α)
    (a : ArrayList α) : Prop :=
  (arrayListIndexOf equals obj startIndex count a).Safe (· < l.length) ∧
    IsFirst (equals · obj) l (startOf startIndex) (rangeCount startIndex count l)
      (arrayListIndexOf equals obj startIndex count a).value

/-- `ArrayList_LastIndexOf` reads elements only and finds the last. -/
def LastIndexOfRight (equals : α → α → Bool) (obj : α) (startIndex count : ℤ) (l : List α)
    (a : ArrayList α) : Prop :=
  (arrayListLastIndexOf equals obj startIndex count a).Safe (· < l.length) ∧
    IsLast (equals · obj) l (startOf startIndex) (rangeCount startIndex count l)
      (arrayListLastIndexOf equals obj startIndex count a).value

def HasMatch (equals : α → α → Bool) (obj : α) (startIndex count : ℤ) (l : List α) : Prop :=
  ∃ i, startOf startIndex ≤ i ∧ i < startOf startIndex + rangeCount startIndex count l ∧
    Matches (equals · obj) l i

/-- Up to the end, and not from the start: too many elements are looked at. -/
def Overlong (startIndex count : ℤ) : Prop := count < 0 ∧ 0 < startIndex

variable {startIndex count : ℤ}

theorem InRange.le (h : InRange startIndex count l) :
    startOf startIndex + rangeCount startIndex count l ≤ l.length := by
  have hstart := h.start_le
  have hcount := h.count_le
  unfold rangeCount
  unfold startOf at hcount ⊢
  split_ifs at hcount ⊢ <;> omega

namespace ArrayList.Holds

/-- A search that is not overlong looks at the range. -/
theorem countOf_eq (h : a.Holds l) (hlong : ¬ Overlong startIndex count) :
    countOf count a = rangeCount startIndex count l := by
  unfold Overlong at hlong
  unfold countOf rangeCount startOf
  rw [h.size]
  split_ifs <;> omega

theorem lt_countOf (h : a.Holds l) (hrange : InRange startIndex count l)
    (hlong : Overlong startIndex count) :
    l.length < startOf startIndex + countOf count a := by
  have hstart := hrange.start_le
  obtain ⟨hcount, hpos⟩ := hlong
  unfold countOf startOf
  rw [if_pos hcount, if_neg (by omega), h.size]
  omega

theorem no_match_iff (h : a.Holds l) (hi : i < l.length) :
    p (a.slot i) = false ↔ ¬ Matches p l i := by
  rw [h.matches_iff (by rwa [h.size]), Bool.not_eq_true]

theorem containsRight (equals : α → α → Bool) (h : a.Holds l) (obj : α) :
    ContainsRight equals obj l a := by
  have hfirst := isFirst_searchUp (equals · obj) l a.slot 0 a.size fun i _ hlt _ => h.matches_iff (by omega)
  refine ⟨?_, ?_⟩
  · unfold arrayListContains
    rw [safe_bind, safe_searchUp_iff]
    refine ⟨fun i _ hlt _ => ?_, (safe_pure _).mpr trivial⟩
    rw [← h.size]
    omega
  · unfold arrayListContains
    rw [value_bind, value_pure]
    generalize (searchUp (equals · obj) a.slot 0 a.size).value = found at hfirst ⊢
    rcases hfirst with ⟨i, -, -, hmatch, hr, -⟩ | ⟨hr, hnone⟩
    · cases found with
      | none => exact absurd hr (by
          show (-1 : ℤ) ≠ i
          omega)
      | some j => exact iff_of_true rfl ⟨i, hmatch⟩
    · cases found with
      | none =>
        refine iff_of_false Bool.false_ne_true ?_
        rintro ⟨i, hmatch⟩
        have hlt : i < l.length := by
          obtain ⟨x, hx, -⟩ := hmatch
          exact (List.getElem?_eq_some_iff.mp hx).1
        exact hnone i (Nat.zero_le i) (by rw [Nat.zero_add, h.size]; exact hlt) hmatch
      | some j => exact absurd hr (by
          show (j : ℤ) ≠ -1
          omega)

/-- `ArrayList_IndexOf` is right if and only if it is not overlong, or finds something in the range. -/
theorem indexOfRight_iff (equals : α → α → Bool) (h : a.Holds l) (obj : α)
    (hrange : InRange startIndex count l) :
    IndexOfRight equals obj startIndex count l a ↔
      Overlong startIndex count → HasMatch equals obj startIndex count l := by
  have hle := hrange.le
  unfold IndexOfRight arrayListIndexOf
  rw [safe_bind, safe_searchUp_iff, value_bind, value_pure]
  constructor
  · rintro ⟨⟨hsafe, -⟩, -⟩ hlong
    by_contra hnone
    -- nothing stops the search in front of the end of the list
    have hlt := h.lt_countOf hrange hlong
    have hstart : startOf startIndex ≤ l.length := Nat.le_trans (Nat.le_add_right _ _) hle
    refine Nat.lt_irrefl _ (hsafe l.length hstart hlt fun k hk hkl => ?_)
    refine (h.no_match_iff (p := (equals · obj)) hkl).mpr ?_
    intro hmatch
    refine hnone ⟨k, hk, ?_, hmatch⟩
    unfold rangeCount
    rw [if_pos hlong.1]
    omega
  · intro hfound
    by_cases hlong : Overlong startIndex count
    · obtain ⟨i, hi, hlt, hmatch⟩ := hfound hlong
      have hil : i < l.length := Nat.lt_of_lt_of_le hlt hle
      have hp : (equals (a.slot i) obj) = true := (h.matches_iff (by rwa [h.size])).mp hmatch
      have hreads : ∀ k, startOf startIndex ≤ k → k < startOf startIndex + countOf count a →
          (∀ j, startOf startIndex ≤ j → j < k → equals (a.slot j) obj = false) → k < l.length := by
        intro k hk hkc hbefore
        by_contra hge
        have hno := hbefore i hi (by omega)
        rw [hp] at hno
        exact Bool.false_ne_true hno.symm
      have hfirst := isFirst_searchUp (equals · obj) l a.slot (startOf startIndex) (countOf count a)
        fun k hk hkc hbefore => h.matches_iff (by rw [h.size]; exact hreads k hk hkc hbefore)
      refine ⟨⟨hreads, (safe_pure _).mpr trivial⟩, ?_⟩
      have hmore := h.lt_countOf hrange hlong
      rcases hfirst with ⟨j, hj, hjc, hjmatch, hr, hbefore⟩ | ⟨hr, hnone⟩
      · have hji : j ≤ i := Nat.le_of_not_lt fun hij => hbefore i hi hij hmatch
        exact Or.inl ⟨j, hj, by omega, hjmatch, hr, hbefore⟩
      · exact absurd hmatch (hnone i hi (by omega))
    · rw [h.countOf_eq hlong]
      refine ⟨⟨fun k hk hkc _ => by omega, (safe_pure _).mpr trivial⟩, ?_⟩
      exact isFirst_searchUp _ _ _ _ _ fun k hk hkc _ => h.matches_iff (by rw [h.size]; omega)

/-- `ArrayList_LastIndexOf` is right if and only if it is not overlong and finds nothing. -/
theorem lastIndexOfRight_iff (equals : α → α → Bool) (h : a.Holds l) (obj : α)
    (hrange : InRange startIndex count l) :
    LastIndexOfRight equals obj startIndex count l a ↔
      ¬ Overlong startIndex count ∧ ¬ HasMatch equals obj startIndex count l := by
  have hle := hrange.le
  unfold LastIndexOfRight arrayListLastIndexOf
  rw [safe_bind, safe_searchDown_iff, value_bind, value_pure]
  by_cases hlong : Overlong startIndex count
  · refine iff_of_false ?_ fun hnot => hnot.1 hlong
    rintro ⟨⟨hsafe, -⟩, -⟩
    -- the first element that is looked at is not there
    have hlt := h.lt_countOf hrange hlong
    have hstart : startOf startIndex ≤ l.length := Nat.le_trans (Nat.le_add_right _ _) hle
    have hlast := hsafe (startOf startIndex + countOf count a - 1) (by omega) (by omega)
      fun k hk hkc => by omega
    omega
  rw [h.countOf_eq hlong]
  have hcases := searchDown_cases (equals · obj) a.slot (startOf startIndex)
    (rangeCount startIndex count l)
  constructor
  · rintro ⟨-, hlast⟩
    refine ⟨hlong, ?_⟩
    rintro ⟨j, hj, hjc, hjmatch⟩
    rcases hcases with ⟨i, hi, hic, hp, hvalue, hbehind⟩ | ⟨hvalue, hnone⟩
    · rw [hvalue] at hlast
      rcases hlast with ⟨k, hk, hkc, hkmatch, hr, hbehind'⟩ | ⟨hr, -⟩
      · have hk' : k = i + 1 := Int.ofNat.inj hr.symm
        have hno := hbehind k (by omega) hkc
        exact absurd hkmatch ((h.no_match_iff (by omega)).mp hno)
      · exact absurd hr (by
          show ((i + 1 : ℕ) : ℤ) ≠ -1
          omega)
    · exact (h.no_match_iff (by omega)).mp (hnone j hj hjc) hjmatch
  · rintro ⟨-, hnone⟩
    refine ⟨⟨fun k hk hkc _ => by omega, (safe_pure _).mpr trivial⟩, ?_⟩
    rcases hcases with ⟨i, hi, hic, hp, -, -⟩ | ⟨hvalue, -⟩
    · exact absurd ⟨i, hi, hic, (h.matches_iff (by rw [h.size]; omega)).mpr hp⟩ hnone
    · rw [hvalue]
      exact Or.inr ⟨rfl, fun k hk hkc hmatch => hnone ⟨k, hk, hkc, hmatch⟩⟩

end ArrayList.Holds

/-- Behind any calls the array holds the list, in which `ArrayList_Contains` finds what there is.
`ArrayList_IndexOf` is right unless it looks at too many elements and nothing stops it in front of the
end, and `ArrayList_LastIndexOf` only where it looks at the right elements and finds nothing. -/
theorem arrayList_refines [Inhabited α] (equals : α → α → Bool) (memory : ℕ → α)
    {ops : List (ArrayListOp α)} (h : FewElements equals ops) :
    ∃ a, runArrayList equals memory ops = some a ∧ a.elems = listAfter equals ops ∧
      ∀ obj, ContainsRight equals obj (listAfter equals ops) a ∧
        ∀ startIndex count, InRange startIndex count (listAfter equals ops) →
          (IndexOfRight equals obj startIndex count (listAfter equals ops) a ↔
            (Overlong startIndex count →
              HasMatch equals obj startIndex count (listAfter equals ops))) ∧
          (LastIndexOfRight equals obj startIndex count (listAfter equals ops) a ↔
            ¬ Overlong startIndex count ∧
              ¬ HasMatch equals obj startIndex count (listAfter equals ops)) := by
  obtain ⟨a, hrun, ha⟩ := ArrayList.Holds.run memory h
  exact ⟨a, hrun, ha.elems, fun obj => ⟨ha.containsRight equals obj, fun startIndex count hrange =>
    ⟨ha.indexOfRight_iff equals obj hrange, ha.lastIndexOfRight_iff equals obj hrange⟩⟩⟩

/-- Two numbers, of which a search in the whole range finds the second one and not a third one. -/
theorem arrayList_refines_two :
    ∃ a, runArrayList (· == ·) (fun _ => 0) [.add 5, .insert 0 7] = some a ∧ a.elems = [7, 5] ∧
      IndexOfRight (· == ·) 5 0 (-1) [7, 5] a ∧ LastIndexOfRight (· == ·) 6 0 (-1) [7, 5] a := by
  obtain ⟨a, hrun, helems, hsearch⟩ := arrayList_refines (· == ·) (fun _ => 0)
    (fewElements_of_length (by decide : [ArrayListOp.add 5, .insert 0 7].length < 2 ^ 31))
  obtain ⟨hindex, -⟩ := (hsearch 5).2 0 (-1) ⟨by decide, by decide, by decide⟩
  obtain ⟨-, hlast⟩ := (hsearch 6).2 0 (-1) ⟨by decide, by decide, by decide⟩
  refine ⟨a, hrun, helems, hindex.mpr fun hlong => absurd hlong.2 (by decide),
    hlast.mpr ⟨fun hlong => absurd hlong.2 (by decide), ?_⟩⟩
  rintro ⟨i, -, -, x, hx, hmatch⟩
  have hne : ∀ x ∈ [7, 5], ¬ (x == 6) = true := by decide
  exact hne x (List.mem_of_getElem? hx) hmatch

/-- In a list of one number, `ArrayList_LastIndexOf` returns 1 for it, and a search for another one from
behind it up to the end reads what is not there. -/
theorem lastIndexOf_wrong :
    ∃ a, runArrayList (· == ·) (fun _ => 0) [.add 6] = some a ∧
      ¬ LastIndexOfRight (· == ·) 6 (-1) (-1) [6] a ∧ ¬ IndexOfRight (· == ·) 9 1 (-1) [6] a := by
  obtain ⟨a, hrun, ha⟩ := ArrayList.Holds.run (fun _ => 0)
    (fewElements_of_length (by decide : [ArrayListOp.add 6].length < 2 ^ 31))
  have ha' : a.Holds [6] := ha
  refine ⟨a, hrun, ?_, ?_⟩
  · rw [ha'.lastIndexOfRight_iff _ 6 ⟨by decide, by decide, by decide⟩]
    intro hright
    exact hright.2 ⟨0, by decide, by decide, 6, rfl, rfl⟩
  · rw [ha'.indexOfRight_iff _ 9 ⟨by decide, by decide, by decide⟩]
    intro hright
    obtain ⟨i, hi, hlt, -⟩ := hright ⟨by decide, by decide⟩
    have hstart : startOf 1 = 1 := rfl
    have hcount : rangeCount 1 (-1) [6] = 0 := rfl
    omega

end FreeRDP.Collections
