import FreeRDP.Lib.Circular
import Mathlib.Data.List.Perm.Basic

/-!
# Arrays that are filled from the front

`Slots α` is an array in allocated memory whose elements are at its first `size` places.  The program
keeps a `capacity`; `room` is the number of places that are really there, and an access at another
place gives `none`.  The lemmas say how the list of the elements changes when one is added behind the
others, and when one is removed by moving those behind it.
-/

open Circular

/-- An array with `size` elements, and memory for `room` of them. -/
structure Slots (α : Type) where
  size : ℕ
  capacity : ℕ
  room : ℕ
  slot : ℕ → α

namespace Slots

variable {α : Type} {s s' : Slots α} {index n : ℕ}

def elems (s : Slots α) : List α := slice s.slot 0 s.size

/-! ### Accesses -/

/-- The element at `index` is read. -/
def read (s : Slots α) (index : ℕ) : Option α := if index < s.room then some (s.slot index) else none

/-- `x` is written behind the elements. -/
def push (x : α) (s : Slots α) : Option (Slots α) :=
  if s.size < s.room then some { s with size := s.size + 1, slot := Function.update s.slot s.size x }
  else none

/-- `x` is written at `index`. -/
def write (index : ℕ) (x : α) (s : Slots α) : Option (Slots α) :=
  if index < s.room then some { s with slot := Function.update s.slot index x } else none

/-- `n` places are copied from `src` to `dst`, as if there were a copy of them in between. -/
def move (dst src n : ℕ) (s : Slots α) : Option (Slots α) :=
  if n = 0 ∨ (src + n ≤ s.room ∧ dst + n ≤ s.room) then
    some { s with slot := fun i => if dst ≤ i ∧ i < dst + n then s.slot (src + (i - dst)) else s.slot i }
  else none

/-- The index from `index` on, `n` places ahead at most, of an element that satisfies `p`. -/
def findFrom (p : α → Bool) (s : Slots α) (index : ℕ) : ℕ → Option (Option ℕ)
  | 0 => some none
  | n + 1 => do
    let x ← s.read index
    if p x then some (some index) else findFrom p s (index + 1) n

/-- The index of the first element that satisfies `p`. -/
def find (p : α → Bool) (s : Slots α) : Option (Option ℕ) := s.findFrom p 0 s.size

/-- Memory of `bytes` bytes takes the place of the old one, if it is `granted`; no memory has `2 ^ 63`
bytes. -/
def realloc (granted : Bool) (width bytes : ℕ) (s : Slots α) : Option (Slots α) :=
  if granted ∧ bytes < 2 ^ 63 then some { s with room := bytes / width } else none

/-! ### The list of the elements -/

@[simp] theorem length_elems (s : Slots α) : s.elems.length = s.size := length_slice s.slot 0 s.size

theorem get_elems (h : index < s.elems.length) : s.elems.get ⟨index, h⟩ = s.slot index := by
  simp [elems, slice]

theorem getElem?_elems (h : index < s.size) : s.elems[index]? = some (s.slot index) := by
  have h' : index < s.elems.length := by rwa [length_elems]
  rw [List.getElem?_eq_getElem h']
  exact congrArg some (get_elems h')

theorem mem_elems {x : α} : x ∈ s.elems ↔ ∃ i < s.size, s.slot i = x := by
  simp [elems, slice]

theorem read_eq (h : index < s.room) : s.read index = some (s.slot index) := if_pos h

theorem push_eq (x : α) (h : s.size < s.room) :
    s.push x = some { s with size := s.size + 1, slot := Function.update s.slot s.size x } := if_pos h

/-- An element that is written behind the others is the last one. -/
theorem elems_push {x : α} (h : s.push x = some s') : s'.elems = s.elems ++ [x] := by
  unfold push at h
  split_ifs at h
  obtain rfl := Option.some.inj h
  unfold elems
  dsimp only
  rw [slice_add]
  congr 1
  · refine slice_congr fun k hk => Function.update_of_ne ?_ _ _
    omega
  · simp [slice]

/-- An element that is written over one of the others takes its place. -/
theorem elems_write {x : α} (h : s.write index x = some s') : s'.elems = s.elems.set index x := by
  unfold write at h
  split_ifs at h
  obtain rfl := Option.some.inj h
  have hlength : (s.elems.set index x).length = s.size := by rw [List.length_set, length_elems]
  refine List.ext_getElem (by rw [hlength, length_elems]) fun i hi hi' => ?_
  rw [List.getElem_set]
  simp only [elems, slice, List.getElem_map, List.getElem_range, Nat.zero_add]
  by_cases heq : index = i
  · rw [if_pos heq, heq, Function.update_self]
  · rw [if_neg heq, Function.update_of_ne (Ne.symm heq)]

/-- The elements from `index` on are moved by one place, and `x` is written where they began. -/
theorem elems_insert {x : α} (hindex : index ≤ s.size)
    (h : s.move (index + 1) index (s.size - index) = some s') :
    { s' with size := s.size + 1 }.elems.set index x = s.elems.insertIdx index x := by
  unfold move at h
  split_ifs at h
  obtain rfl := Option.some.inj h
  have hinsert : (s.elems.insertIdx index x).length = s.size + 1 := by
    rw [List.length_insertIdx_of_le_length (by rwa [length_elems]), length_elems]
  refine List.ext_getElem (by rw [hinsert, List.length_set, length_elems]) fun i hi hi' => ?_
  rw [List.length_set, length_elems] at hi
  rw [List.getElem_insertIdx, List.getElem_set]
  simp only [elems, slice, List.getElem_map, List.getElem_range, Nat.zero_add]
  rcases Nat.lt_trichotomy i index with hlt | heq | hgt
  · rw [if_neg (Nat.ne_of_gt hlt), dif_pos hlt, if_neg (by omega)]
  · rw [if_pos heq.symm, dif_neg (by omega), dif_pos heq]
  · rw [if_neg (Nat.ne_of_lt hgt), dif_neg (by omega), dif_neg (by omega), if_pos (by omega)]
    congr 1
    omega

/-- The elements behind `index` are moved to `index`: the one that was there is gone. -/
theorem elems_move (hindex : index < s.size) (hn : s.size ≤ index + 1 + n)
    (h : s.move index (index + 1) n = some s') :
    { s' with size := s.size - 1 }.elems = s.elems.eraseIdx index := by
  unfold move at h
  split_ifs at h
  obtain rfl := Option.some.inj h
  have hlength : (s.elems.eraseIdx index).length = s.size - 1 := by
    rw [List.length_eraseIdx_of_lt (by rwa [length_elems]), length_elems]
  refine List.ext_getElem (by rw [hlength, length_elems]) fun i hi hi' => ?_
  rw [length_elems] at hi
  rw [List.getElem_eraseIdx]
  simp only [elems, slice, List.getElem_map, List.getElem_range, Nat.zero_add]
  -- places in front of `index` stay, the others come from the next place
  by_cases hlt : i < index
  · rw [dif_pos hlt, if_neg (by omega)]
  · rw [dif_neg hlt, if_pos (by omega)]
    congr 1
    omega

/-- The elements without the one at `index`, and that one. -/
theorem elems_perm (hindex : index < s.size) (h : s'.elems = s.elems.eraseIdx index) :
    s.elems.Perm (s.slot index :: s'.elems) := by
  have hlength : index < s.elems.length := by rwa [length_elems]
  rw [h, ← get_elems hlength]
  exact (List.getElem_cons_eraseIdx_perm hlength).symm

theorem move_of_le (dst src : ℕ) (hsrc : src + n ≤ s.room) (hdst : dst + n ≤ s.room) :
    ∃ s', s.move dst src n = some s' ∧ s'.size = s.size ∧ s'.capacity = s.capacity ∧
      s'.room = s.room :=
  ⟨_, if_pos (Or.inr ⟨hsrc, hdst⟩), rfl, rfl, rfl⟩

/-! ### Arrays that have the memory they should have -/

/-- An array that has as much memory as its capacity says, fewer than `limit` places. -/
structure Sized (limit : ℕ) (s : Slots α) : Prop where
  size_le : s.size ≤ s.capacity
  room_eq : s.room = s.capacity
  two_le : 2 ≤ s.capacity
  capacity_lt : s.capacity < limit

namespace Sized

variable {limit : ℕ}

theorem size_le_room (hs : s.Sized limit) : s.size ≤ s.room := hs.room_eq ▸ hs.size_le

theorem push (hs : s.Sized limit) (hsize : s.size < s.capacity) (x : α) :
    ∃ s', s.push x = some s' ∧ s'.Sized limit ∧ s'.size = s.size + 1 ∧ s'.capacity = s.capacity ∧
      s'.elems = s.elems ++ [x] := by
  have hpush := push_eq x (show s.size < s.room by rw [hs.room_eq]; exact hsize)
  exact ⟨_, hpush, ⟨hsize, hs.room_eq, hs.two_le, hs.capacity_lt⟩, rfl, rfl, elems_push hpush⟩

theorem write (hs : s.Sized limit) (hindex : index < s.size) (x : α) :
    ∃ s', s.write index x = some s' ∧ s'.Sized limit ∧ s'.size = s.size ∧
      s'.elems = s.elems.set index x := by
  have hwrite : s.write index x = some { s with slot := Function.update s.slot index x } :=
    if_pos (Nat.lt_of_lt_of_le hindex hs.size_le_room)
  exact ⟨_, hwrite, ⟨hs.size_le, hs.room_eq, hs.two_le, hs.capacity_lt⟩, rfl, elems_write hwrite⟩

/-- The elements from `index` on are moved by one place, which becomes free. -/
theorem insert (hs : s.Sized limit) (hsize : s.size < s.capacity) (hindex : index ≤ s.size) :
    ∃ s', s.move (index + 1) index (s.size - index) = some s' ∧ s'.size = s.size ∧
      { s' with size := s.size + 1 }.Sized limit ∧
      ∀ x, { s' with size := s.size + 1 }.elems.set index x = s.elems.insertIdx index x := by
  have heq := hs.room_eq
  obtain ⟨s', hmove, hsize', hcapacity, hroom⟩ := move_of_le (s := s) (n := s.size - index)
    (index + 1) index (by omega) (by omega)
  refine ⟨s', hmove, hsize', ⟨?_, ?_, ?_, ?_⟩, fun x => elems_insert hindex hmove⟩
  · dsimp only
    omega
  · dsimp only
    omega
  · exact hcapacity ▸ hs.two_le
  · exact hcapacity ▸ hs.capacity_lt

/-- The `n` places behind `index` are moved to it, and the last one is given up. -/
theorem remove (hs : s.Sized limit) (hindex : index < s.size) (hn : s.size ≤ index + 1 + n)
    (hroom : index + 1 + n ≤ s.capacity) :
    ∃ s', s.move index (index + 1) n = some s' ∧ s'.size = s.size ∧ s'.capacity = s.capacity ∧
      { s' with size := s.size - 1 }.Sized limit ∧
      { s' with size := s.size - 1 }.elems = s.elems.eraseIdx index := by
  have hle := hs.size_le
  have heq := hs.room_eq
  obtain ⟨s', hmove, hsize, hcapacity, hroom'⟩ := move_of_le (s := s) (n := n) index (index + 1)
    (by omega) (by omega)
  refine ⟨s', hmove, hsize, hcapacity, ⟨?_, ?_, ?_, ?_⟩, elems_move hindex hn hmove⟩
  · dsimp only
    omega
  · dsimp only
    omega
  · exact hcapacity ▸ hs.two_le
  · exact hcapacity ▸ hs.capacity_lt

end Sized

/-! ### Searching -/

theorem findFrom_eq (p : α → Bool) (h : index + n ≤ s.room) :
    ∃ found, s.findFrom p index n = some found ∧
      (found = none → ∀ i, index ≤ i → i < index + n → p (s.slot i) = false) ∧
      ∀ j, found = some j → index ≤ j ∧ j < index + n ∧ p (s.slot j) = true := by
  induction n generalizing index with
  | zero => exact ⟨none, rfl, fun _ i hle hlt => absurd hlt (by omega), fun _ h => nomatch h⟩
  | succ n ih =>
    by_cases hp : p (s.slot index) = true
    · refine ⟨some index, by simp [findFrom, read_eq (show index < s.room by omega), hp],
        fun h => absurd h (Option.some_ne_none index), ?_⟩
      rintro j ⟨⟩
      exact ⟨le_rfl, by omega, hp⟩
    · have hnext : index + 1 + n ≤ s.room := by omega
      obtain ⟨found, heq, hnone, hsome⟩ := ih hnext
      refine ⟨found, by simp [findFrom, read_eq (show index < s.room by omega), hp, heq],
        fun h i hle hlt => ?_, fun j h => ?_⟩
      · obtain rfl | hne := eq_or_ne i index
        · exact Bool.eq_false_iff.mpr hp
        · exact hnone h i (by omega) (by omega)
      · obtain ⟨hle, hlt, hj⟩ := hsome j h
        exact ⟨by omega, by omega, hj⟩

/-- An element that satisfies `p` is found, if there is one. -/
theorem find_eq (p : α → Bool) (h : s.size ≤ s.room) :
    ∃ found, s.find p = some found ∧ (found = none → ∀ x ∈ s.elems, p x = false) ∧
      ∀ j, found = some j → j < s.size ∧ p (s.slot j) = true := by
  obtain ⟨found, heq, hnone, hsome⟩ := findFrom_eq p (by rwa [Nat.zero_add] : 0 + s.size ≤ s.room)
  refine ⟨found, heq, fun h x hx => ?_, fun j h => ?_⟩
  · obtain ⟨i, hi, rfl⟩ := mem_elems.mp hx
    exact hnone h i (by omega) (by omega)
  · obtain ⟨-, hlt, hj⟩ := hsome j h
    exact ⟨by omega, hj⟩

theorem findFrom_eq_findIdx (p : α → Bool) (h : index + n ≤ s.room) :
    s.findFrom p index n = some (((slice s.slot index n).findIdx? p).map (index + ·)) := by
  induction n generalizing index with
  | zero => rfl
  | succ n ih =>
    have hslice : slice s.slot index (n + 1) = s.slot index :: slice s.slot (index + 1) n := by
      rw [Nat.add_comm, slice_add]
      simp [slice]
    rw [findFrom, read_eq (by omega), Option.bind_eq_bind, Option.bind_some, ih (by omega), hslice,
      List.findIdx?_cons]
    cases p (s.slot index) with
    | true => rfl
    | false =>
      rw [if_neg Bool.false_ne_true, if_neg Bool.false_ne_true, Option.map_map]
      congr 2
      funext i
      exact Nat.add_right_comm index 1 i

/-- It is the first one that is found. -/
theorem find_eq_findIdx (p : α → Bool) (h : s.size ≤ s.room) :
    s.find p = some (s.elems.findIdx? p) := by
  rw [find, findFrom_eq_findIdx p (by rwa [Nat.zero_add]), elems]
  cases (slice s.slot 0 s.size).findIdx? p with
  | none => rfl
  | some i => exact congrArg (some ∘ some) (Nat.zero_add i)

end Slots
