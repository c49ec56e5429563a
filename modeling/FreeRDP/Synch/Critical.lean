import FreeRDP.Lib.Threads

/-!
# Critical sections

`winpr/libwinpr/synch/critical.c` as a system of threads.  A step is one access of a thread to the
memory that the threads share: an interlocked operation, an operation of the semaphore, or the read or
write of a field.  The accesses of different threads come in any order; each is atomic, and each thread
sees those of the others in the order in which they were made.

`depth` is the number of times that a thread has entered the section and not left it.  It belongs to
the thread, not to the source: a thread leaves only what it has entered.
-/

namespace FreeRDP.Synch

/-- Where a thread is in the calls of a critical section: the access that it makes next.  `spin` is
what is left of `SpinCount` for a thread that is in `EnterCriticalSection`. -/
inductive Pc where
  /-- outside of the calls -/
  | out
  /-- `InterlockedCompareExchange` in `TryEnterCriticalSection` -/
  | tryExchange (spin : Option ℕ)
  /-- `OwningThread == current_thread` there -/
  | tryCompare (spin : Option ℕ)
  /-- `RecursionCount++` there -/
  | tryRecurse
  /-- `InterlockedIncrement` there -/
  | tryIncrement
  /-- `while (SpinCount-- && LockCount < 1)` -/
  | spin (n : ℕ)
  /-- `InterlockedCompareExchange` in the loop -/
  | spinExchange (n : ℕ)
  /-- `InterlockedIncrement` in `EnterCriticalSection` -/
  | increment
  /-- `OwningThread == GetCurrentThreadId()` there -/
  | compare
  /-- `RecursionCount++` there -/
  | recurse
  /-- `_WaitForCriticalSection` -/
  | wait
  /-- `RecursionCount = 1`, wherever the section has been acquired -/
  | setRecursion
  /-- `OwningThread = GetCurrentThreadId()` behind it -/
  | setOwner
  /-- `--RecursionCount < 1` in `LeaveCriticalSection` -/
  | leave
  /-- `OwningThread = NULL` -/
  | clearOwner
  /-- `InterlockedDecrement` behind it -/
  | decrement
  /-- `_UnWaitCriticalSection` -/
  | post
  /-- `InterlockedDecrement` of a recursion -/
  | decrementRecursion
  deriving DecidableEq, Repr

structure Local where
  pc : Pc
  depth : ℕ
  deriving DecidableEq, Repr

/-- A critical section and the threads that use it. -/
structure Critical (T : Type) where
  lockCount : ℤ
  spinCount : ℕ
  recursionCount : ℤ
  owningThread : Option T
  lockSemaphore : ℕ
  threads : T → Local

/-- `InitializeCriticalSectionEx`, before any thread uses the section. -/
def initializeCriticalSectionEx (T : Type) (spinCount : ℕ) : Critical T where
  lockCount := -1
  spinCount := spinCount
  recursionCount := 0
  owningThread := none
  lockSemaphore := 0
  threads _ := ⟨.out, 0⟩

/-- The calls that a thread can make. -/
inductive Call where
  | enter
  | tryEnter
  | leave
  deriving DecidableEq, Repr

/-- What a thread does in a step: it makes a call, it makes the next access of the one that it is in, or a signal
interrupts `sem_wait`, whose result nobody looks at. -/
inductive Action where
  | call (call : Call)
  | access
  | interrupt
  deriving DecidableEq, Repr

/-- A `LONG`. -/
def long (n : ℤ) : ℤ := n.bmod (2 ^ 32)

variable {T : Type} [DecidableEq T]

/-- The thread goes on at `pc`. -/
def Critical.goto (s : Critical T) (t : T) (pc : Pc) : Critical T :=
  { s with threads := Function.update s.threads t ⟨pc, (s.threads t).depth⟩ }

/-- The call of the thread returns. -/
def Critical.return (s : Critical T) (t : T) (depth : ℕ) : Critical T :=
  { s with threads := Function.update s.threads t ⟨.out, depth⟩ }

/-- The thread is outside of the calls and makes one. -/
def Critical.start (s : Critical T) (t : T) : Call → Option (Critical T)
  | .enter => some (s.goto t (if s.spinCount = 0 then .increment else .tryExchange (some s.spinCount)))
  | .tryEnter => some (s.goto t (.tryExchange none))
  | .leave => if (s.threads t).depth = 0 then none else some (s.goto t .leave)

/-- The next access of a thread that is in a call; `none` where it has to wait. -/
def Critical.advance (s : Critical T) (t : T) : Pc → Option (Critical T)
  | .out => none
  | .tryExchange spin =>
    if s.lockCount = -1 then some ({ s with lockCount := 0 }.goto t .setRecursion)
    else some (s.goto t (.tryCompare spin))
  | .tryCompare spin =>
    if s.owningThread = some t then some (s.goto t .tryRecurse)
    else
      match spin with
      | none => some (s.return t (s.threads t).depth)
      | some n => some (s.goto t (.spin n))
  | .tryRecurse => some ({ s with recursionCount := long (s.recursionCount + 1) }.goto t .tryIncrement)
  | .tryIncrement =>
    some ({ s with lockCount := long (s.lockCount + 1) }.return t ((s.threads t).depth + 1))
  | .spin 0 => some (s.goto t .increment)
  | .spin (n + 1) => some (s.goto t (if s.lockCount < 1 then .spinExchange n else .increment))
  | .spinExchange n =>
    if s.lockCount = -1 then some ({ s with lockCount := 0 }.goto t .setRecursion)
    else some (s.goto t (.spin n))
  | .increment =>
    some ({ s with lockCount := long (s.lockCount + 1) }.goto t
      (if long (s.lockCount + 1) ≠ 0 then .compare else .setRecursion))
  | .compare => some (s.goto t (if s.owningThread = some t then .recurse else .wait))
  | .recurse =>
    some ({ s with recursionCount := long (s.recursionCount + 1) }.return t ((s.threads t).depth + 1))
  | .wait =>
    if s.lockSemaphore = 0 then none
    else some ({ s with lockSemaphore := s.lockSemaphore - 1 }.goto t .setRecursion)
  | .setRecursion => some ({ s with recursionCount := 1 }.goto t .setOwner)
  | .setOwner => some ({ s with owningThread := some t }.return t 1)
  | .leave =>
    some ({ s with recursionCount := long (s.recursionCount - 1) }.goto t
      (if long (s.recursionCount - 1) < 1 then .clearOwner else .decrementRecursion))
  | .clearOwner => some ({ s with owningThread := none }.goto t .decrement)
  | .decrement =>
    if long (s.lockCount - 1) ≥ 0 then some ({ s with lockCount := long (s.lockCount - 1) }.goto t .post)
    else some ({ s with lockCount := long (s.lockCount - 1) }.return t ((s.threads t).depth - 1))
  | .post =>
    some ({ s with lockSemaphore := s.lockSemaphore + 1 }.return t ((s.threads t).depth - 1))
  | .decrementRecursion =>
    some ({ s with lockCount := long (s.lockCount - 1) }.return t ((s.threads t).depth - 1))

/-- A step of the thread `t`. -/
def Critical.step (s : Critical T) (t : T) : Action → Option (Critical T)
  | .call call => if (s.threads t).pc = .out then s.start t call else none
  | .access => s.advance t (s.threads t).pc
  | .interrupt => if (s.threads t).pc = .wait then some (s.goto t .setRecursion) else none

/-! ### What threads add -/

/-- What a thread adds to `LockCount + 1`: an entry counts from the increment on, until the decrement. -/
def entries (l : Local) : ℕ :=
  match l.pc with
  | .compare | .recurse | .wait | .setRecursion | .setOwner => l.depth + 1
  | .post => l.depth - 1
  | _ => l.depth

/-- What a thread adds to `RecursionCount`. -/
def recursions (l : Local) : ℕ :=
  match l.pc with
  | .tryIncrement | .setOwner => l.depth + 1
  | .clearOwner | .decrement | .post | .decrementRecursion => l.depth - 1
  | _ => l.depth

/-- One for a thread that is inside of the section: it has acquired it and has not given it back. -/
def inside (l : Local) : ℕ :=
  if 0 < l.depth ∨ l.pc = .setRecursion ∨ l.pc = .setOwner then 1 else 0

/-- `OwningThread` is this thread. -/
def Owns (l : Local) : Prop := 0 < l.depth ∧ l.pc ≠ .decrement ∧ l.pc ≠ .post

end FreeRDP.Synch
