import Mathlib.Algebra.Group.Nat.Defs
import Mathlib.Data.Nat.Basic
import Mathlib.Logic.Function.Basic

/-!
# Queues in circular arrays

`Queue.c` and `MessageQueue.c` of `winpr/libwinpr/utils/collections`.  Both keep their elements in an
array that grows by a factor, from `head` on and around its end; `head` and `tail` are equal in an
empty queue and in a full one.  The part that the two files share is `CircularArray`, with a parameter
for the factor.

An array is a function of the index, with as many elements as its capacity says.  A function that
accesses an element beyond it returns `none`.  `default` is `NULL`, or a record of zeros.
-/

namespace FreeRDP.Collections

variable {α : Type} [Inhabited α]

/-! ### Circular arrays -/

structure CircularArray (α : Type) where
  capacity : ℕ
  head : ℕ
  tail : ℕ
  size : ℕ
  array : ℕ → α

def CircularArray.zero : CircularArray α := ⟨0, 0, 0, 0, fun _ => default⟩

def CircularArray.newCapacity (factor count : ℕ) (q : CircularArray α) : ℕ :=
  let newCapacity := q.capacity * factor % 2 ^ 64
  if newCapacity < q.size + count then q.size + count else newCapacity

/-- `Queue_EnsureCapacity` and `MessageQueue_EnsureCapacity` for elements of `bytes` bytes, where
`realloc` succeeds. -/
def CircularArray.ensureCapacity (bytes factor count : ℕ) (q : CircularArray α) :
    Option (CircularArray α) :=
  if q.size + count ≥ q.capacity then
    let oldCapacity := q.capacity
    let newCapacity := q.newCapacity factor count
    -- `realloc` gives less memory than the array has elements for, or the number of bytes that
    -- `ZeroMemory` is given would wrap
    if bytes * newCapacity % 2 ^ 64 < bytes * newCapacity ∨ newCapacity < oldCapacity then none
    else
      let array := fun i => if oldCapacity ≤ i ∧ i < newCapacity then default else q.array i
      if q.tail ≤ q.head then
        if oldCapacity + q.tail ≤ newCapacity then
          some
            { q with
              capacity := newCapacity
              tail := q.tail + oldCapacity
              array := fun i =>
                if oldCapacity ≤ i ∧ i < oldCapacity + q.tail then array (i - oldCapacity)
                else array i }
        else none
      else some { q with capacity := newCapacity, array := array }
  else some q

/-- An element is written at the tail. -/
def CircularArray.push (q : CircularArray α) (obj : α) : Option (CircularArray α) :=
  if q.tail < q.capacity then
    some
      { q with
        array := Function.update q.array q.tail obj
        tail := (q.tail + 1) % q.capacity
        size := q.size + 1 }
  else none

def CircularArray.front (q : CircularArray α) : Option α :=
  if q.head < q.capacity then some (q.array q.head) else none

/-- The element at the head is taken out and its place cleared. -/
def CircularArray.pop (q : CircularArray α) : Option (α × CircularArray α) :=
  if q.head < q.capacity then
    some (q.array q.head,
      { q with
        array := Function.update q.array q.head default
        head := (q.head + 1) % q.capacity
        size := q.size - 1 })
  else none

/-! ### `Queue.c` -/

/-- `wQueue`.  `event` says whether the event is set.  An object is a pointer of 8 bytes. -/
structure Queue (α : Type) extends CircularArray α where
  growthFactor : ℕ
  event : Bool

def queueNew (capacity growthFactor : ℤ) : Option (Queue α) := do
  let growthFactor := if growthFactor > 0 then growthFactor.toNat else 2
  let capacity := if capacity ≤ 0 then 32 else capacity
  let array ← CircularArray.zero.ensureCapacity 8 growthFactor capacity.toNat
  return { toCircularArray := array, growthFactor := growthFactor, event := false }

/-- The loop of `Queue_Clear` from `index` on, for at most `rounds` elements. -/
def clearLoop (capacity tail : ℕ) : ℕ → ℕ → (ℕ → α) → Option (ℕ → α)
  | 0, index, array => if index = tail then some array else none
  | rounds + 1, index, array =>
    if index = tail then some array
    else if index < capacity then
      clearLoop capacity tail rounds ((index + 1) % capacity) (Function.update array index default)
    else none

/-- `Queue_Clear`.  The loop has gone around the array after `capacity` elements. -/
def Queue.clear (queue : Queue α) : Option (Queue α) := do
  let array ← clearLoop queue.capacity queue.tail queue.capacity queue.head queue.array
  return { queue with array := array, size := 0, head := 0, tail := 0, event := false }

def Queue.enqueue (queue : Queue α) (obj : α) : Option (Queue α) := do
  let array ← queue.toCircularArray.ensureCapacity 8 queue.growthFactor 1
  let array ← array.push obj
  return { queue with toCircularArray := array, event := true }

def Queue.dequeue (queue : Queue α) : Option (α × Queue α) :=
  if queue.size > 0 then do
    let (obj, array) ← queue.toCircularArray.pop
    return (obj, { queue with
      toCircularArray := array, event := if array.size < 1 then false else queue.event })
  else some (default, { queue with event := false })

def Queue.peek (queue : Queue α) : Option α :=
  if queue.size > 0 then queue.toCircularArray.front else some default

/-- The loop of `Queue_Contains` over `rounds` elements from `index` on. -/
def containsLoop (equals : α → α → Bool) (obj : α) (capacity : ℕ) (array : ℕ → α) :
    ℕ → ℕ → Option Bool
  | 0, _ => some false
  | rounds + 1, index =>
    if index < capacity then
      if equals (array index) obj then some true
      else containsLoop equals obj capacity array rounds (index + 1)
    else none

/-- `Queue_Contains`; `equals` is the `fnObjectEquals` of the queue. -/
def Queue.contains (equals : α → α → Bool) (queue : Queue α) (obj : α) : Option Bool :=
  containsLoop equals obj queue.capacity queue.array queue.tail 0

/-! ### `MessageQueue.c` -/

/-- `wMessage`, of 48 bytes.  Pointers are numbers. -/
structure Message where
  id : ℕ
  wParam : ℕ
  lParam : ℕ
  context : ℕ
  time : ℕ
  Free : ℕ
deriving DecidableEq, Repr

instance : Inhabited Message := ⟨⟨0, 0, 0, 0, 0, 0⟩⟩

def WMQ_QUIT : ℕ := 0xFFFFFFFF

/-- `wMessageQueue`. -/
structure MessageQueue extends CircularArray Message where
  closed : Bool
  event : Bool

def messageQueueNew : Option MessageQueue := do
  let array ← CircularArray.zero.ensureCapacity 48 2 32
  return { toCircularArray := array, closed := false, event := false }

/-- Whether `realloc` succeeds; it grants no object of `2 ^ 63` bytes or more. -/
def reallocSucceeds (granted : Bool) (bytes : ℕ) : Bool := granted && bytes < 2 ^ 63

/-- `MessageQueue_Dispatch` at the time `time`; `granted` says whether memory is granted if the array
has to grow. -/
def MessageQueue.dispatch (queue : MessageQueue) (granted : Bool) (time : ℕ) (message : Message) :
    Option (Bool × MessageQueue) :=
  if queue.closed then some (false, queue)
  else if queue.size + 1 ≥ queue.capacity ∧
      ¬ reallocSucceeds granted (48 * queue.newCapacity 2 1 % 2 ^ 64) then some (false, queue)
  else do
    let array ← queue.toCircularArray.ensureCapacity 48 2 1
    let array ← array.push { message with time := time }
    return (true,
      { toCircularArray := array
        closed := if message.id = WMQ_QUIT then true else queue.closed
        event := if array.size > 0 then true else queue.event })

/-- The message that `MessageQueue_Post` dispatches.  Its time is not initialized. -/
def postMessage (context type wParam lParam : ℕ) : Message :=
  { context := context, id := type, wParam := wParam, lParam := lParam, time := 0, Free := 0 }

def MessageQueue.post (queue : MessageQueue) (granted : Bool) (time : ℕ)
    (context type wParam lParam : ℕ) : Option (Bool × MessageQueue) :=
  queue.dispatch granted time (postMessage context type wParam lParam)

def MessageQueue.postQuit (queue : MessageQueue) (granted : Bool) (time nExitCode : ℕ) :
    Option (Bool × MessageQueue) :=
  queue.post granted time 0 WMQ_QUIT nExitCode 0

/-- The message at the head is taken out of the queue. -/
def MessageQueue.remove (queue : MessageQueue) : Option (Message × MessageQueue) := do
  let (message, array) ← queue.toCircularArray.pop
  return (message, { queue with
    toCircularArray := array, event := if array.size < 1 then false else queue.event })

/-- The critical section of `MessageQueue_Get`, behind `MessageQueue_Wait`: the number it returns and
the message. -/
def MessageQueue.get (queue : MessageQueue) : Option ((ℤ × Option Message) × MessageQueue) :=
  if queue.size > 0 then do
    let (message, queue) ← queue.remove
    return ((if message.id ≠ WMQ_QUIT then 1 else 0, some message), queue)
  else some ((-1, none), queue)

def MessageQueue.peek (queue : MessageQueue) (remove : Bool) :
    Option ((ℤ × Option Message) × MessageQueue) :=
  if queue.size > 0 then
    if remove then do
      let (message, queue) ← queue.remove
      return ((1, some message), queue)
    else do
      let message ← queue.toCircularArray.front
      return ((1, some message), queue)
  else some ((0, none), queue)

/-- The loop of `MessageQueue_Clear`, for `rounds` messages.  It returns the messages it frees. -/
def drainLoop : ℕ → CircularArray Message → Option (List Message × CircularArray Message)
  | 0, array => some ([], array)
  | rounds + 1, array => do
    let (msg, array) ← array.pop
    let (freed, array) ← drainLoop rounds array
    return (msg :: freed, array)

/-- `MessageQueue_Clear`: the messages that are freed. -/
def MessageQueue.clear (queue : MessageQueue) : Option (List Message × MessageQueue) := do
  let (freed, array) ← drainLoop queue.size queue.toCircularArray
  return (freed, { toCircularArray := array, closed := false, event := false })

end FreeRDP.Collections
