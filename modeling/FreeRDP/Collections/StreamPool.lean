import FreeRDP.Lib.Slots

/-!
# `StreamPool`

`StreamPool.c` of `winpr/libwinpr/utils/collections`.  The streams that may be handed out are in
`aArray`, those that are in use in `uArray`; the reference count of a stream decides.

A stream is named by its number in the list of the streams that have been made.  A call says what the
allocator gives: the buffer of a new stream, and whether an array gets new memory.  The lock of the
pool is left out, and of the streams what only their users read.
-/

namespace FreeRDP.Collections

/-- What a pool needs of a `wStream`.  `count` is a `DWORD`. -/
structure PoolStream where
  capacity : ℕ
  buffer : ℕ
  pool : Bool
  count : ℕ
deriving DecidableEq, Repr

/-- `wStreamPool`: `aSize`, `aCapacity` and `aArray` are `a`, and `u` likewise. -/
structure StreamPool where
  a : Slots ℕ
  u : Slots ℕ
  defaultSize : ℕ
  streams : List PoolStream

/-! ### Capacity -/

/-- `StreamPool_EnsureCapacity` for one of the two arrays.  The capacity is already larger when
`realloc` fails. -/
def ensureCapacity (granted : Bool) (count : ℕ) (s : Slots ℕ) : Bool × Slots ℕ :=
  let needed := (s.size + count) % 2 ^ 64
  let new_cap :=
    if s.capacity = 0 then needed
    else if needed > s.capacity then s.capacity * 2 % 2 ^ 64
    else if needed < s.capacity / 3 then s.capacity / 2
    else 0
  if new_cap > 0 then
    let s := if s.capacity < needed then { s with capacity := (s.capacity + count) % 2 ^ 64 } else s
    match s.realloc granted 8 (8 * new_cap % 2 ^ 64) with
    | none => (false, s)
    | some s => (true, { s with capacity := new_cap })
  else (true, s)

def streamPoolEnsureCapacity (granted : Bool) (count : ℕ) (usedOrAvailable : Bool)
    (pool : StreamPool) : Bool × StreamPool :=
  if usedOrAvailable then
    let (done, u) := ensureCapacity granted count pool.u
    (done, { pool with u := u })
  else
    let (done, a) := ensureCapacity granted count pool.a
    (done, { pool with a := a })

/-- `StreamPool_New`, with two calls of `realloc` that succeed. -/
def streamPoolNew (defaultSize : ℕ) : StreamPool :=
  let pool : StreamPool :=
    { a := ⟨0, 0, 0, fun _ => 0⟩, u := ⟨0, 0, 0, fun _ => 0⟩, defaultSize := defaultSize, streams := [] }
  let pool := (streamPoolEnsureCapacity true 32 false pool).2
  (streamPoolEnsureCapacity true 32 true pool).2

/-! ### Shifting -/

/-- The streams from `index` on are moved by `count` places.  `index + count` is computed in a
`size_t`. -/
def shiftStreams (granted : Bool) (index : ℕ) (count : ℤ) (s : Slots ℕ) : Option (Slots ℕ) :=
  if count > 0 then do
    let s := (ensureCapacity granted count.toNat s).2
    let s ← s.move (index + count.toNat) index (s.size - index)
    return { s with size := (s.size + count).toNat }
  else if count < 0 then do
    let n := ((s.size - index + count) % 2 ^ 64).toNat
    let s ← if n > 0 then s.move index (index + (-count).toNat) n else some s
    return { s with size := (s.size + count).toNat }
  else some s

def streamPoolShiftUsed (granted : Bool) (index : ℕ) (count : ℤ) (pool : StreamPool) :
    Option StreamPool :=
  (shiftStreams granted index count pool.u).map fun u => { pool with u := u }

def streamPoolShiftAvailable (granted : Bool) (index : ℕ) (count : ℤ) (pool : StreamPool) :
    Option StreamPool :=
  (shiftStreams granted index count pool.a).map fun a => { pool with a := a }

def streamPoolAddUsed (granted : Bool) (s : ℕ) (pool : StreamPool) : Option StreamPool := do
  let pool := (streamPoolEnsureCapacity granted 1 true pool).2
  return { pool with u := ← pool.u.push s }

def streamPoolRemoveUsed (granted : Bool) (s : ℕ) (pool : StreamPool) : Option StreamPool := do
  match ← pool.u.find (fun t => t = s) with
  | none => return pool
  | some index => streamPoolShiftUsed granted index (-1) pool

/-! ### Streams -/

/-- `Stream_New`, which gets the memory of a buffer from the allocator or nothing. -/
def streamNew (buffer : Option ℕ) (size : ℕ) : Option PoolStream :=
  if size = 0 then none
  else buffer.map fun buffer => { capacity := size, buffer := buffer, pool := false, count := 0 }

def StreamPool.capacity (pool : StreamPool) (s : ℕ) : ℕ :=
  (pool.streams[s]?.map PoolStream.capacity).getD 0

/-- The end of `StreamPool_Take`. -/
def streamPoolHandOut (granted : Bool) (s : ℕ) (pool : StreamPool) :
    Option (Option ℕ × StreamPool) := do
  let streams := pool.streams.modify s fun stream => { stream with pool := true, count := 1 }
  let pool ← streamPoolAddUsed granted s { pool with streams := streams }
  return (some s, pool)

def streamPoolTake (size : ℕ) (buffer : Option ℕ) (granted : Bool) (pool : StreamPool) :
    Option (Option ℕ × StreamPool) := do
  let size := if size = 0 then pool.defaultSize else size
  match ← pool.a.find (fun s => size ≤ pool.capacity s) with
  | none =>
    match streamNew buffer size with
    | none => return (none, pool)
    | some stream =>
      streamPoolHandOut granted pool.streams.length
        { pool with streams := pool.streams ++ [stream] }
  | some foundIndex =>
    let s ← pool.a.read foundIndex
    let pool ← streamPoolShiftAvailable granted foundIndex (-1) pool
    streamPoolHandOut granted s pool

def streamPoolReturn (granted : Bool) (s : ℕ) (pool : StreamPool) : Option StreamPool := do
  let pool := (streamPoolEnsureCapacity granted 1 false pool).2
  let a ← pool.a.push s
  streamPoolRemoveUsed granted s { pool with a := a }

def streamAddRef (s : ℕ) (pool : StreamPool) : StreamPool :=
  { pool with
    streams := pool.streams.modify s fun stream =>
      if stream.pool then { stream with count := (stream.count + 1) % 2 ^ 32 } else stream }

def streamRelease (granted : Bool) (s : ℕ) (pool : StreamPool) : Option StreamPool :=
  match pool.streams[s]? with
  | none => none
  | some stream =>
    if stream.pool then
      let count := (stream.count + 2 ^ 32 - 1) % 2 ^ 32
      let pool := { pool with streams := pool.streams.set s { stream with count := count } }
      if count = 0 then streamPoolReturn granted s pool else some pool
    else some pool

/-- The test of `StreamPool_Find`: the buffer of a stream has a place at `ptr`. -/
def StreamPool.covers (pool : StreamPool) (ptr s : ℕ) : Bool :=
  match pool.streams[s]? with
  | none => false
  | some stream => stream.buffer ≤ ptr ∧ ptr < stream.buffer + stream.capacity

def streamPoolFind (ptr : ℕ) (pool : StreamPool) : Option (Option ℕ) := do
  match ← pool.u.find (pool.covers ptr) with
  | none => return none
  | some index => return some (← pool.u.read index)

end FreeRDP.Collections
