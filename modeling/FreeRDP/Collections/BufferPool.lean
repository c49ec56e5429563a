import FreeRDP.Lib.Slots

/-!
# `BufferPool`

`BufferPool.c` of `winpr/libwinpr/utils/collections`, for pools of buffers of variable size
(`fixedSize = 0`).  The buffers that may be handed out are in `aArray`, those that have been taken in
`uArray`.

`heap` are the addresses of the buffers that have been allocated and not been freed.  A call says what
the allocator gives: an address for a buffer, and whether an array can grow.  The alignment and the lock
of a pool only choose among the functions of the allocator and are left out.
-/

namespace FreeRDP.Collections

/-- `wBufferPoolItem`. -/
structure BufferPoolItem where
  size : ℤ
  buffer : ℕ
deriving DecidableEq, Repr

/-- `wBufferPool`: `aSize`, `aCapacity` and `aArray` are `a`, and `u` likewise. -/
structure BufferPool where
  a : Slots BufferPoolItem
  u : Slots BufferPoolItem
  heap : List ℕ

def bufferPoolNew : BufferPool :=
  { a := ⟨0, 32, 32, fun _ => ⟨0, 0⟩⟩, u := ⟨0, 32, 32, fun _ => ⟨0, 0⟩⟩, heap := [] }

/-- The address that the allocator gives, if it gives one: not one of a buffer that is in use. -/
def allocate (mem : Option ℕ) (heap : List ℕ) : Option ℕ := mem.filter (· ∉ heap)

/-- An array gets memory for `newCapacity` items of 16 bytes.  The number of bytes is a `size_t`. -/
def reallocItems (granted : Bool) (newCapacity : ℤ) (s : Slots BufferPoolItem) :
    Option (Slots BufferPoolItem) :=
  (s.realloc granted 16 (16 * newCapacity % 2 ^ 64).toNat).map fun s =>
    { s with capacity := newCapacity.toNat }

/-! ### Shifting -/

/-- The items from `index` on are moved by `count` places. -/
def shiftItems (granted : Bool) (index : ℕ) (count : ℤ) (s : Slots BufferPoolItem) :
    Option (Bool × Slots BufferPoolItem) :=
  if count > 0 then
    match if s.size + count > s.capacity then reallocItems granted (s.capacity * 2) s else some s with
    | none => some (false, s)
    | some s => do
      let s ← s.move (index + count.toNat) index (s.size - index)
      return (true, { s with size := (s.size + count).toNat })
  else if count < 0 then do
    let s ← s.move index (index + (-count).toNat) (s.size - index)
    return (true, { s with size := (s.size + count).toNat })
  else some (true, s)

def bufferPoolShiftAvailable (granted : Bool) (index : ℕ) (count : ℤ) (pool : BufferPool) :
    Option (Bool × BufferPool) :=
  (shiftItems granted index count pool.a).map fun (done, a) => (done, { pool with a := a })

def bufferPoolShiftUsed (granted : Bool) (index : ℕ) (count : ℤ) (pool : BufferPool) :
    Option (Bool × BufferPool) :=
  (shiftItems granted index count pool.u).map fun (done, u) => (done, { pool with u := u })

/-! ### Sizes -/

def bufferPoolGetPoolSize (pool : BufferPool) : ℕ := pool.u.size

def bufferPoolGetBufferSize (buffer : ℕ) (pool : BufferPool) : Option ℤ := do
  match ← pool.u.find (fun item => item.buffer = buffer) with
  | none => return -1
  | some index => return (← pool.u.read index).size

/-! ### Taking -/

/-- The loop of `BufferPool_Take` over the `n` items from `index` on: the index of the first one of at
least `size` bytes, and the size and the index of the largest item before. -/
def takeLoop (a : Slots BufferPoolItem) (size : ℤ) (index : ℕ) (maxSize : ℤ) (maxIndex : ℕ) :
    ℕ → Option (Option ℕ × ℤ × ℕ)
  | 0 => some (none, maxSize, maxIndex)
  | n + 1 => do
    let item ← a.read index
    let (maxSize, maxIndex) :=
      if item.size > maxSize then (item.size, index) else (maxSize, maxIndex)
    if item.size ≥ size then some (some index, maxSize, maxIndex)
    else takeLoop a size (index + 1) maxSize maxIndex n

/-- The end of `BufferPool_Take`, which puts `buffer` into `uArray`, or frees it. -/
def bufferPoolTakeUsed (granted : Bool) (buffer : ℕ) (size : ℤ) (pool : BufferPool) :
    Option (Option ℕ × BufferPool) :=
  match if pool.u.size + 1 > pool.u.capacity then
      reallocItems granted (Int.bmod (pool.u.capacity * 2) (2 ^ 32)) pool.u else some pool.u with
  | none => some (none, { pool with heap := pool.heap.erase buffer })
  | some u => do
    let u ← u.push ⟨size, buffer⟩
    return (some buffer, { pool with u := u })

def bufferPoolTake (size : ℤ) (mem : Option ℕ) (granted : Bool) (pool : BufferPool) :
    Option (Option ℕ × BufferPool) := do
  let size := if size < 1 then 0 else size
  let (found, maxSize, maxIndex) ← takeLoop pool.a size 0 0 0 pool.a.size
  match if found = none ∧ maxSize ≠ 0 then some maxIndex else found with
  | none =>
    if size = 0 then return (none, pool)
    else
      match allocate mem pool.heap with
      | none => return (none, pool)
      | some buffer =>
        bufferPoolTakeUsed granted buffer size { pool with heap := buffer :: pool.heap }
  | some foundIndex =>
    let item ← pool.a.read foundIndex
    if maxSize < size then
      match allocate mem (pool.heap.erase item.buffer) with
      | none => return (none, pool)
      | some newBuffer =>
        let (_, pool) ← bufferPoolShiftAvailable granted foundIndex (-1) pool
        bufferPoolTakeUsed granted newBuffer size
          { pool with heap := newBuffer :: pool.heap.erase item.buffer }
    else
      let (_, pool) ← bufferPoolShiftAvailable granted foundIndex (-1) pool
      bufferPoolTakeUsed granted item.buffer size pool

/-! ### Returning -/

def bufferPoolReturn (buffer : ℕ) (granted : Bool) (pool : BufferPool) :
    Option (Bool × BufferPool) := do
  match ← pool.u.find (fun item => item.buffer = buffer) with
  | none => return (true, pool)
  | some index =>
    let item ← pool.u.read index
    let size := Int.bmod item.size (2 ^ 32)
    let (_, pool) ← bufferPoolShiftUsed granted index (-1) pool
    if size = 0 then return (true, pool)
    else
      match if pool.a.size + 1 ≥ pool.a.capacity then
          reallocItems granted (Int.bmod (pool.a.capacity * 2) (2 ^ 32)) pool.a else some pool.a with
      | none => return (false, pool)
      | some a => return (true, { pool with a := ← a.push ⟨size, buffer⟩ })

/-- The loops of `BufferPool_Clear`: the first `n` buffers of an array are freed. -/
def freeItems (s : Slots BufferPoolItem) (heap : List ℕ) : ℕ → Option (List ℕ)
  | 0 => some heap
  | n + 1 => do
    let item ← s.read n
    freeItems s (heap.erase item.buffer) n

def bufferPoolClear (pool : BufferPool) : Option BufferPool := do
  let heap ← freeItems pool.a pool.heap pool.a.size
  let heap ← freeItems pool.u heap pool.u.size
  return { a := { pool.a with size := 0 }, u := { pool.u with size := 0 }, heap := heap }

end FreeRDP.Collections
