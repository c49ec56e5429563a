import FreeRDP.Collections.Equiv.CircularArray

/-!
# `wQueue` as a queue

A run of a queue is compared with the list of the objects in it: what `Queue_Dequeue` and
`Queue_Peek` return is the head of the list.  This holds as long as the array only grows in states
in which it may.
-/

namespace FreeRDP.Collections

open Circular

variable {α : Type} [Inhabited α] {queue queue' : Queue α} {xs : List α}

/-! ### Runs -/

inductive QueueOp (α : Type) where
  | enqueue (obj : α)
  | dequeue
  | peek
  | clear

/-- The object that a call returns, `NULL` for the functions that return none, and the queue behind
it. -/
def QueueOp.run (queue : Queue α) : QueueOp α → Option (α × Queue α)
  | enqueue obj => (queue.enqueue obj).map (default, ·)
  | dequeue => queue.dequeue
  | peek => queue.peek.map (·, queue)
  | clear => queue.clear.map (default, ·)

/-- What the same call does to the list of the objects in a queue. -/
def QueueOp.fifo (xs : List α) : QueueOp α → α × List α
  | enqueue obj => (default, xs ++ [obj])
  | dequeue => (xs.headD default, xs.tail)
  | peek => (xs.headD default, xs)
  | clear => (default, [])

/-- The objects that calls return, one after another. -/
def runQueue : List (QueueOp α) → Queue α → Option (List α × Queue α)
  | [], queue => some ([], queue)
  | op :: ops, queue => do
    let (obj, queue) ← op.run queue
    let (objs, queue) ← runQueue ops queue
    return (obj :: objs, queue)

def runFifo : List (QueueOp α) → List α → List α × List α
  | [], xs => ([], xs)
  | op :: ops, xs =>
    let (obj, xs) := op.fifo xs
    let (objs, xs) := runFifo ops xs
    (obj :: objs, xs)

/-- In no state of a run an object is enqueued into an array that may not grow. -/
def GrowsWell : List (QueueOp α) → Queue α → Prop
  | [], _ => True
  | op :: ops, queue =>
    (∀ obj, op = .enqueue obj → queue.toCircularArray.Grows 8 queue.growthFactor) ∧
      ∀ obj queue', op.run queue = some (obj, queue') → GrowsWell ops queue'

/-! ### Single calls -/

/-- The objects in the queue are `xs`, and the event is set if there is one. -/
structure Queue.Holds (queue : Queue α) (xs : List α) : Prop where
  array : queue.toCircularArray.Holds xs
  event : queue.event = true ↔ xs ≠ []

theorem Queue.Holds.enqueue (h : queue.Holds xs)
    (hgrows : queue.toCircularArray.Grows 8 queue.growthFactor) (obj : α) :
    ∃ queue', queue.enqueue obj = some queue' ∧ queue'.Holds (xs ++ [obj]) := by
  obtain ⟨q, hensure, hq, hroom, -⟩ := h.array.ensureCapacity hgrows
  obtain ⟨q', hpush, hq', -⟩ := hq.push hroom obj
  refine ⟨{ queue with toCircularArray := q', event := true }, ?_, hq', by simp⟩
  simp [Queue.enqueue, hensure, hpush]

theorem Queue.Holds.dequeue (h : queue.Holds xs) :
    ∃ queue', queue.dequeue = some (xs.headD default, queue') ∧ queue'.Holds xs.tail := by
  have hsize := h.array.size
  cases xs with
  | nil =>
    have hnone : ¬ queue.size > 0 := by simp [hsize]
    exact ⟨{ queue with event := false }, if_neg hnone, h.array, by simp⟩
  | cons x xs =>
    obtain ⟨q, hpop, hq, -⟩ := h.array.pop
    have hsome : queue.size > 0 := by simp [hsize]
    refine ⟨{ queue with
      toCircularArray := q, event := if q.size < 1 then false else queue.event }, ?_, hq, ?_⟩
    · rw [Queue.dequeue, if_pos hsome, hpop]
      rfl
    · have hevent : queue.event = true := h.event.mpr (by simp)
      have hqsize := hq.size
      cases xs <;> simp_all

theorem Queue.Holds.peek (h : queue.Holds xs) : queue.peek = some (xs.headD default) := by
  have hsize := h.array.size
  cases xs with
  | nil => exact if_neg (by simp [hsize])
  | cons x xs => exact (if_pos (by simp [hsize])).trans h.array.front

/-- The loop of `Queue_Clear` goes from element to element up to the tail. -/
theorem clearLoop_spec {capacity n rounds : ℕ} (head : ℕ) (hcapacity : 0 < capacity)
    (hrounds : n ≤ rounds) (array : ℕ → α) :
    ∃ array', clearLoop capacity ((head + n) % capacity) rounds (head % capacity) array =
      some array' := by
  induction n generalizing head rounds array with
  | zero =>
    rw [Nat.add_zero]
    cases rounds <;> exact ⟨array, if_pos rfl⟩
  | succ n ih =>
    obtain ⟨rounds, rfl⟩ : ∃ r, rounds = r + 1 := ⟨rounds - 1, by omega⟩
    rw [clearLoop]
    split_ifs with hend hin
    · exact ⟨array, rfl⟩
    · have hstep := ih (head + 1) (Nat.le_of_succ_le_succ hrounds)
        (Function.update array (head % capacity) default)
      rwa [Nat.add_right_comm, Nat.add_assoc, ← Nat.mod_add_mod head capacity 1] at hstep
    · exact absurd (Nat.mod_lt _ hcapacity) hin

theorem Queue.Holds.clear (h : queue.Holds xs) :
    ∃ queue', queue.clear = some queue' ∧ queue'.Holds [] := by
  have hhead := h.array.head
  have hcapacity : 0 < queue.capacity := by omega
  obtain ⟨array, hloop⟩ := clearLoop_spec queue.head hcapacity h.array.length queue.array
  rw [← h.array.tail, Nat.mod_eq_of_lt hhead] at hloop
  refine ⟨{ queue with array := array, size := 0, head := 0, tail := 0, event := false }, ?_,
    ⟨hcapacity, Nat.zero_le _, rfl, (Nat.zero_mod _).symm, rfl⟩, by simp⟩
  simp [Queue.clear, hloop]

/-! ### All calls -/

/-- One call does to the queue what it does to the list. -/
theorem Queue.Holds.step (h : queue.Holds xs) {op : QueueOp α}
    (hgrows : ∀ obj, op = .enqueue obj → queue.toCircularArray.Grows 8 queue.growthFactor) :
    ∃ queue', op.run queue = some ((op.fifo xs).1, queue') ∧ queue'.Holds (op.fifo xs).2 := by
  cases op with
  | enqueue obj =>
    obtain ⟨queue', henqueue, hholds⟩ := h.enqueue (hgrows obj rfl) obj
    exact ⟨queue', by simp [QueueOp.run, QueueOp.fifo, henqueue], hholds⟩
  | dequeue => exact h.dequeue
  | peek => exact ⟨queue, by simp [QueueOp.run, QueueOp.fifo, h.peek], h⟩
  | clear =>
    obtain ⟨queue', hclear, hholds⟩ := h.clear
    exact ⟨queue', by simp [QueueOp.run, QueueOp.fifo, hclear], hholds⟩

theorem Queue.Holds.run (h : queue.Holds xs) {ops : List (QueueOp α)} (hgrows : GrowsWell ops queue) :
    ∃ queue', runQueue ops queue = some ((runFifo ops xs).1, queue') ∧
      queue'.Holds (runFifo ops xs).2 := by
  induction ops generalizing queue xs with
  | nil => exact ⟨queue, rfl, h⟩
  | cons op ops ih =>
    obtain ⟨hgrows, hrest⟩ := hgrows
    obtain ⟨queue₁, hrun, hholds⟩ := h.step hgrows
    obtain ⟨queue₂, hruns, hholds'⟩ := ih hholds (hrest _ _ hrun)
    exact ⟨queue₂, by simp [runQueue, runFifo, hrun, hruns], hholds'⟩

theorem queueNew_holds {capacity growthFactor : ℤ} (hnew : queueNew capacity growthFactor = some queue) :
    queue.Holds [] ∧ queue.capacity = (if capacity ≤ 0 then 32 else capacity).toNat := by
  have hpos : 0 < (if capacity ≤ 0 then (32 : ℤ) else capacity).toNat := by
    split_ifs <;> omega
  obtain ⟨q, hensure, hqueue⟩ := Option.bind_eq_some_iff.mp hnew
  obtain rfl := Option.some.inj hqueue
  have hbytes : 8 * (if capacity ≤ 0 then (32 : ℤ) else capacity).toNat < 2 ^ 64 := by
    by_contra hlarge
    have hnone := hensure
    unfold CircularArray.ensureCapacity CircularArray.newCapacity CircularArray.zero at hnone
    dsimp only at hnone
    rw [Nat.zero_mul, Nat.zero_mod, Nat.zero_add, if_pos hpos, if_pos (Nat.zero_le _),
      if_pos (.inl (by omega))] at hnone
    exact Option.some_ne_none _ hnone.symm
  obtain ⟨q', hensure', hq, hcapacity⟩ := holds_zero (α := α) hpos hbytes
    (if growthFactor > 0 then growthFactor.toNat else 2)
  obtain rfl := Option.some.inj (hensure'.symm.trans hensure)
  exact ⟨⟨hq, iff_of_false Bool.false_ne_true fun h => h rfl⟩, hcapacity⟩

/-- In every run of a new queue in which the array grows well, the calls return what they return for
the list of the objects, and no access to the array is beyond its capacity. -/
theorem runQueue_fifo (capacity growthFactor : ℤ) (ops : List (QueueOp α)) (queue : Queue α)
    (hnew : queueNew capacity growthFactor = some queue) (hgrows : GrowsWell ops queue) :
    ∃ queue', runQueue ops queue = some ((runFifo ops []).1, queue') ∧
      queue'.toCircularArray.Holds (runFifo ops []).2 := by
  obtain ⟨queue', hrun, hholds'⟩ := (queueNew_holds hnew).1.run hgrows
  exact ⟨queue', hrun, hholds'.array⟩

/-- Three objects in a queue that grows from two places to four. -/
theorem runQueue_fifo_three :
    ∃ queue queue' : Queue ℕ, queueNew 2 2 = some queue ∧
      runQueue [.enqueue 1, .enqueue 2, .enqueue 3, .dequeue] queue =
        some ((runFifo [.enqueue 1, .enqueue 2, .enqueue 3, .dequeue] []).1, queue') ∧
      queue'.toCircularArray.Holds [2, 3] := by
  obtain ⟨queue', hrun, hholds⟩ := runQueue_fifo 2 2
    [.enqueue 1, .enqueue 2, .enqueue 3, .dequeue] _ (rfl : queueNew (α := ℕ) 2 2 = some _) (by
      simp [GrowsWell, QueueOp.run, Queue.enqueue, CircularArray.ensureCapacity, CircularArray.push,
        CircularArray.Grows, CircularArray.newCapacity, CircularArray.zero])
  exact ⟨_, queue', rfl, hrun, hholds⟩

/-- An object in a queue of one place: the queue grows when it is empty, and the object is lost. -/
theorem runQueue_fifo_one :
    ¬ ∀ (capacity growthFactor : ℤ), 1 ≤ capacity → 1 ≤ growthFactor →
      ∀ (ops : List (QueueOp ℕ)) (queue : Queue ℕ), queueNew capacity growthFactor = some queue →
        ∃ queue', runQueue ops queue = some ((runFifo ops []).1, queue') := by
  intro h
  obtain ⟨queue, hnew, hlost⟩ : ∃ queue : Queue ℕ, queueNew 1 2 = some queue ∧
      (runQueue [.enqueue 7, .dequeue] queue).map Prod.fst = some [0, 0] := ⟨_, rfl, rfl⟩
  obtain ⟨queue', hrun⟩ := h 1 2 (by decide) (by decide) [.enqueue 7, .dequeue] queue hnew
  rw [hrun] at hlost
  exact absurd hlost (by simp [runFifo, QueueOp.fifo])

end FreeRDP.Collections
