import FreeRDP.Lib.Slots
import FreeRDP.Lib.Traced

/-!
# `ArrayList`

`ArrayList.c` of `winpr/libwinpr/utils/collections`, without `fnObjectNew`.  `fnObjectEquals` is `equals`;
`fnObjectFree` and the lock do not touch the array and are left out.

The calls that change the list return `none` when they access a place that is not in the array.  The
searches record the indices that they read.  `granted` is whether `realloc` finds memory, and what there is
in memory that has not been written is whatever `slot` says.
-/

namespace FreeRDP.Collections

open Traced

variable {α : Type}

/-- `wArrayList`. -/
structure ArrayList (α : Type) extends Slots α where
  growthFactor : ℕ

/-! ### Memory -/

def arrayListEnsureCapacity (granted : Bool) (count : ℕ) (arrayList : ArrayList α) :
    Bool × ArrayList α :=
  let needed := (arrayList.size + count) % 2 ^ 64
  if needed > arrayList.capacity then
    let newCapacity := arrayList.capacity * arrayList.growthFactor % 2 ^ 64
    let newCapacity := if newCapacity < needed then needed else newCapacity
    match arrayList.toSlots.realloc granted 8 (8 * newCapacity % 2 ^ 64) with
    | none => (false, arrayList)
    | some newArray =>
      (true, { arrayList with toSlots := { newArray with capacity := newCapacity } })
  else (true, arrayList)

/-- `ArrayList_New`, where `memory` is what `realloc` leaves in the array. -/
def arrayListNew (granted : Bool) (memory : ℕ → α) : Option (ArrayList α) :=
  let (done, arrayList) := arrayListEnsureCapacity granted 32 ⟨⟨0, 0, 0, memory⟩, 2⟩
  if done then some arrayList else none

/-- `MoveMemory` inside the array.  A negative index is outside. -/
def moveMemory (dst src : ℤ) (n : ℕ) (arrayList : ArrayList α) : Option (Slots α) :=
  if dst < 0 ∨ src < 0 then none else arrayList.toSlots.move dst.toNat src.toNat n

def arrayListShift (granted : Bool) (index count : ℤ) (arrayList : ArrayList α) :
    Option (Bool × ArrayList α) :=
  if count > 0 then
    match arrayListEnsureCapacity granted count.toNat arrayList with
    | (false, arrayList) => some (false, arrayList)
    | (true, arrayList) => do
      let s ← moveMemory (index + count) index ((arrayList.size - index) % 2 ^ 64).toNat arrayList
      return (true, { arrayList with toSlots := { s with size := (s.size + count).toNat } })
  else if count < 0 then do
    let chunk := (arrayList.size - index + count).bmod (2 ^ 64)
    let s ←
      if chunk > 0 then moveMemory index (index - count) chunk.toNat arrayList
      else some arrayList.toSlots
    return (true, { arrayList with toSlots := { s with size := (s.size + count).toNat } })
  else some (true, arrayList)

/-! ### Elements -/

def arrayListSetItem (index : ℕ) (obj : α) (arrayList : ArrayList α) : Option (ArrayList α) :=
  if index < arrayList.size then do
    let s ← arrayList.toSlots.write index obj
    return { arrayList with toSlots := s }
  else some arrayList

def arrayListClear [Inhabited α] (arrayList : ArrayList α) : Option (ArrayList α) := do
  let s ← (List.range arrayList.size).foldlM (fun s index => s.write index default) arrayList.toSlots
  return { arrayList with toSlots := { s with size := 0 } }

/-- `ArrayList_Add`.  The index is an `int`, and a `size_t` for `ArrayList_SetItem`. -/
def arrayListAdd (granted : Bool) (obj : α) (arrayList : ArrayList α) : Option (ℤ × ArrayList α) :=
  match arrayListEnsureCapacity granted 1 arrayList with
  | (false, arrayList) => some (-1, arrayList)
  | (true, arrayList) => do
    let index := (arrayList.size : ℤ).bmod (2 ^ 32)
    let arrayList := { arrayList with size := arrayList.size + 1 }
    let arrayList ← arrayListSetItem (index % 2 ^ 64).toNat obj arrayList
    return (index, arrayList)

/-- `ArrayList_Insert`.  The index is an `int` for `ArrayList_Shift`. -/
def arrayListInsert (granted : Bool) (index : ℕ) (obj : α) (arrayList : ArrayList α) :
    Option (Bool × ArrayList α) :=
  if index < arrayList.size then do
    let (done, arrayList) ← arrayListShift granted ((index : ℤ).bmod (2 ^ 32)) 1 arrayList
    if done then
      let arrayList ← arrayListSetItem index obj arrayList
      return (true, arrayList)
    else return (false, arrayList)
  else some (true, arrayList)

def arrayListRemoveAt (granted : Bool) (index : ℕ) (arrayList : ArrayList α) :
    Option (Bool × ArrayList α) :=
  if index < arrayList.size then arrayListShift granted ((index : ℤ).bmod (2 ^ 32)) (-1) arrayList
  else some (true, arrayList)

def arrayListRemove (equals : α → α → Bool) (granted : Bool) (obj : α) (arrayList : ArrayList α) :
    Option (Bool × ArrayList α) := do
  match ← arrayList.toSlots.find (equals · obj) with
  | none => return (true, arrayList)
  | some index => arrayListShift granted ((index : ℤ).bmod (2 ^ 32)) (-1) arrayList

/-! ### Searches -/

/-- The loop of `ArrayList_Contains` and `ArrayList_IndexOf` over the `n` elements from `index` on. -/
def searchUp (p : α → Bool) (slot : ℕ → α) (index : ℕ) : ℕ → Traced ℕ (Option ℕ)
  | 0 => pure none
  | n + 1 => do
    access index
    if p (slot index) then pure (some index) else searchUp p slot (index + 1) n

/-- The loop of `ArrayList_LastIndexOf` over the `n` elements from `sindex` on, whose index is one above
the element that is looked at. -/
def searchDown (p : α → Bool) (slot : ℕ → α) (sindex : ℕ) : ℕ → Traced ℕ (Option ℕ)
  | 0 => pure none
  | n + 1 => do
    let index := sindex + (n + 1)
    access (index - 1)
    if p (slot (index - 1)) then pure (some index) else searchDown p slot sindex n

def arrayListContains (equals : α → α → Bool) (obj : α) (arrayList : ArrayList α) : Traced ℕ Bool := do
  let found ← searchUp (equals · obj) arrayList.slot 0 arrayList.size
  pure found.isSome

/-- `sindex`. -/
def startOf (startIndex : ℤ) : ℕ := if startIndex < 0 then 0 else startIndex.toNat

/-- `cindex`. -/
def countOf (count : ℤ) (arrayList : ArrayList α) : ℕ :=
  if count < 0 then arrayList.size else count.toNat

/-- The index that a search returns. -/
def resultOf : Option ℕ → ℤ
  | some index => index
  | none => -1

def arrayListIndexOf (equals : α → α → Bool) (obj : α) (startIndex count : ℤ)
    (arrayList : ArrayList α) : Traced ℕ ℤ := do
  let found ←
    searchUp (equals · obj) arrayList.slot (startOf startIndex) (countOf count arrayList)
  pure (resultOf found)

def arrayListLastIndexOf (equals : α → α → Bool) (obj : α) (startIndex count : ℤ)
    (arrayList : ArrayList α) : Traced ℕ ℤ := do
  let found ←
    searchDown (equals · obj) arrayList.slot (startOf startIndex) (countOf count arrayList)
  pure (resultOf found)

/-! ### Runs -/

inductive ArrayListOp (α : Type) where
  | add (obj : α)
  | insert (index : ℕ) (obj : α)
  | remove (obj : α)
  | removeAt (index : ℕ)
  | setItem (index : ℕ) (obj : α)
  | clear

def ArrayListOp.call [Inhabited α] (equals : α → α → Bool) (arrayList : ArrayList α) :
    ArrayListOp α → Option (ArrayList α)
  | add obj => (arrayListAdd true obj arrayList).map Prod.snd
  | insert index obj => (arrayListInsert true index obj arrayList).map Prod.snd
  | remove obj => (arrayListRemove equals true obj arrayList).map Prod.snd
  | removeAt index => (arrayListRemoveAt true index arrayList).map Prod.snd
  | setItem index obj => arrayListSetItem index obj arrayList
  | clear => arrayListClear arrayList

/-- A list that is made and then changed. -/
def runArrayList [Inhabited α] (equals : α → α → Bool) (memory : ℕ → α) (ops : List (ArrayListOp α)) :
    Option (ArrayList α) := do
  let arrayList ← arrayListNew true memory
  ops.foldlM (ArrayListOp.call equals) arrayList

end FreeRDP.Collections
