import FreeRDP.Collections.Equiv.Queue

/-!
# The elements that `Queue_Contains` looks at

`Queue_Contains` compares an object with the elements of the array below the tail.  These are all of
the queue when it starts at the beginning of the array, but a queue around the end of the array also
has elements from the head on, and below the head there may be objects that have left the queue:
`Queue_EnsureCapacity` copies the elements around the end and leaves the old ones where they are.
`contains_iff_scanned` says in which states the answer is right nevertheless.
-/

namespace FreeRDP.Collections

open Circular

variable {α : Type} {queue queue' : Queue α} {xs : List α}
  {equals : α → α → Bool} {obj : α}

/-! ### States in which the answer is right -/

/-- An element of the array from `first` on, below `last`, equals the object. -/
def Queue.Between (equals : α → α → Bool) (queue : Queue α) (obj : α) (first last : ℕ) : Prop :=
  ∃ i, first ≤ i ∧ i < last ∧ equals (queue.array i) obj = true

/-- In a queue that does not go around the end of its array an element of it equals the object or no
element below the head does; in a queue that does, an element below the tail equals the object or no
element from the head on does. -/
def Queue.Scanned (equals : α → α → Bool) (queue : Queue α) (obj : α) : Prop :=
  if queue.head < queue.tail ∨ queue.size = 0 then
    queue.Between equals obj queue.head queue.tail ∨ ¬ queue.Between equals obj 0 queue.head
  else queue.Between equals obj 0 queue.tail ∨
    ¬ queue.Between equals obj queue.head queue.capacity

/-! ### The loop -/

theorem containsLoop_spec {capacity rounds index : ℕ} (equals : α → α → Bool) (obj : α)
    (array : ℕ → α) (h : index + rounds ≤ capacity) :
    ∃ found, containsLoop equals obj capacity array rounds index = some found ∧
      (found = true ↔ ∃ i, index ≤ i ∧ i < index + rounds ∧ equals (array i) obj = true) := by
  induction rounds generalizing index with
  | zero => exact ⟨false, rfl, by simp; omega⟩
  | succ rounds ih =>
    rw [containsLoop, if_pos (by omega)]
    by_cases hequal : equals (array index) obj = true
    · exact ⟨true, if_pos hequal, by simp; exact ⟨index, le_rfl, by omega, hequal⟩⟩
    · obtain ⟨found, hloop, hfound⟩ := ih (show index + 1 + rounds ≤ capacity by omega)
      refine ⟨found, (if_neg hequal).trans hloop, hfound.trans ⟨?_, ?_⟩⟩
      · rintro ⟨i, hfirst, hlast, hi⟩
        exact ⟨i, by omega, by omega, hi⟩
      · rintro ⟨i, hfirst, hlast, hi⟩
        have hne : i ≠ index := fun heq => hequal (heq ▸ hi)
        exact ⟨i, by omega, by omega, hi⟩

/-- `Queue_Contains` looks at the elements below the tail. -/
theorem Queue.Holds.contains (h : queue.Holds xs) (equals : α → α → Bool) (obj : α) :
    ∃ found, queue.contains equals obj = some found ∧
      (found = true ↔ queue.Between equals obj 0 queue.tail) := by
  have htail : queue.tail < queue.capacity := by
    rw [h.array.tail]
    exact Nat.mod_lt _ (Nat.zero_lt_of_lt h.array.head)
  have hloop := containsLoop_spec equals obj queue.array
    (show 0 + queue.tail ≤ queue.capacity by omega)
  rwa [Nat.zero_add] at hloop

/-! ### The elements of the queue -/

/-- The elements of a queue that does not go around the end of its array. -/
theorem Queue.Holds.exists_mem_straight (h : queue.Holds xs)
    (hstraight : queue.head < queue.tail ∨ queue.size = 0) :
    (∃ x ∈ xs, equals x obj = true) ↔ queue.Between equals obj queue.head queue.tail := by
  have hsize := h.array.size
  have htail := h.array.tail_cases
  have hhead := h.array.head
  have hlength := h.array.length
  have hend : queue.head + xs.length = queue.tail := by omega
  have hcells := h.array.cells
  rw [cells_of_le (by omega)] at hcells
  have hmem := exists_mem_slice queue.array queue.head xs.length (equals · obj = true)
  rwa [hcells, hend] at hmem

/-- The elements of a queue that goes around the end of its array. -/
theorem Queue.Holds.exists_mem_around (h : queue.Holds xs)
    (haround : ¬ (queue.head < queue.tail ∨ queue.size = 0)) :
    (∃ x ∈ xs, equals x obj = true) ↔
      queue.Between equals obj 0 queue.tail ∨
        queue.Between equals obj queue.head queue.capacity := by
  have hsize := h.array.size
  have htail := h.array.tail_cases
  have hhead := h.array.head
  have hlength := h.array.length
  have hend : 0 + (queue.head + xs.length - queue.capacity) = queue.tail := by omega
  have hfull : queue.head + (queue.capacity - queue.head) = queue.capacity := by omega
  have hcells := h.array.cells
  rw [cells_of_ge hhead.le (by omega) hlength] at hcells
  have hbehind := exists_mem_slice queue.array queue.head (queue.capacity - queue.head)
    (equals · obj = true)
  have hfront := exists_mem_slice queue.array 0 (queue.head + xs.length - queue.capacity)
    (equals · obj = true)
  rw [hfull] at hbehind
  rw [hend] at hfront
  calc (∃ x ∈ xs, equals x obj = true)
      ↔ (∃ x ∈ slice queue.array queue.head (queue.capacity - queue.head), equals x obj = true) ∨
          ∃ x ∈ slice queue.array 0 (queue.head + xs.length - queue.capacity),
            equals x obj = true := by
        conv_lhs => rw [← hcells]
        simp only [List.mem_append, or_and_right, exists_or]
    _ ↔ queue.Between equals obj 0 queue.tail ∨
          queue.Between equals obj queue.head queue.capacity := by
        rw [hbehind, hfront]
        exact or_comm

/-- `Queue_Contains` answers right about an object if and only if the state is as `Scanned` says. -/
theorem Queue.Holds.contains_iff (h : queue.Holds xs) :
    (queue.contains equals obj = some true ↔ ∃ x ∈ xs, equals x obj = true) ↔
      queue.Scanned equals obj := by
  obtain ⟨found, hcontains, hfound⟩ := h.contains equals obj
  rw [hcontains, Option.some_inj, hfound]
  unfold Queue.Scanned
  split_ifs with hstraight
  · rw [h.exists_mem_straight hstraight]
    have hends : queue.head ≤ queue.tail := by
      have hsize := h.array.size
      have htail := h.array.tail_cases
      have hhead := h.array.head
      omega
    -- the elements below the tail are those below the head and those of the queue
    have hsplit : queue.Between equals obj 0 queue.tail ↔
        queue.Between equals obj 0 queue.head ∨
          queue.Between equals obj queue.head queue.tail := by
      constructor
      · rintro ⟨i, hfirst, hlast, hi⟩
        rcases Nat.lt_or_ge i queue.head with hlt | hge
        · exact Or.inl ⟨i, hfirst, hlt, hi⟩
        · exact Or.inr ⟨i, hge, hlast, hi⟩
      · rintro (⟨i, hfirst, hlast, hi⟩ | ⟨i, hfirst, hlast, hi⟩)
        · exact ⟨i, hfirst, by omega, hi⟩
        · exact ⟨i, Nat.zero_le _, hlast, hi⟩
    rw [hsplit]
    tauto
  · rw [h.exists_mem_around hstraight]
    tauto

/-! ### Runs -/

variable [Inhabited α]

/-- An array of two places or more only takes an object when it may grow. -/
theorem Queue.Holds.grows_of_enqueue (h : queue.Holds xs) (hcapacity : 2 ≤ queue.capacity)
    (henqueue : queue.enqueue obj = some queue') :
    queue.toCircularArray.Grows 8 queue.growthFactor := by
  intro hfull
  have hhead := h.array.head
  obtain ⟨q, hensure, hrest⟩ := Option.bind_eq_some_iff.mp henqueue
  obtain ⟨q', hpush, -⟩ := Option.bind_eq_some_iff.mp hrest
  have htail : q.tail < q.capacity := by
    by_contra hge
    rw [CircularArray.push, if_neg hge] at hpush
    exact Option.some_ne_none _ hpush.symm
  unfold CircularArray.ensureCapacity at hensure
  rw [if_pos hfull] at hensure
  dsimp only at hensure
  split_ifs at hensure with hshrink hwrap hroom
  all_goals
    obtain ⟨hbytes, hle⟩ := not_or.mp hshrink
    have hfit : 8 * queue.newCapacity queue.growthFactor 1 < 2 ^ 64 := by omega
  · obtain rfl := Option.some.inj hensure
    exact ⟨by omega, hfit, by omega, Or.inr (by dsimp only at htail; omega)⟩
  · exact ⟨by omega, hfit, by omega, Or.inl (by omega)⟩

/-- A queue does not shrink. -/
theorem capacity_le_of_ensureCapacity {bytes factor count : ℕ} {q q' : CircularArray α}
    (hensure : q.ensureCapacity bytes factor count = some q') : q.capacity ≤ q'.capacity := by
  unfold CircularArray.ensureCapacity at hensure
  dsimp only at hensure
  split_ifs at hensure with hfull hshrink hwrap hroom <;> obtain rfl := Option.some.inj hensure
  · exact Nat.le_of_not_lt fun h => hshrink (.inr h)
  · exact Nat.le_of_not_lt fun h => hshrink (.inr h)
  · exact le_rfl

theorem QueueOp.capacity_le {op : QueueOp α} {ret : α} (hrun : op.run queue = some (ret, queue')) :
    queue.capacity ≤ queue'.capacity := by
  cases op with
  | enqueue obj =>
    obtain ⟨queue₁, henqueue, heq⟩ := Option.map_eq_some_iff.mp hrun
    obtain ⟨-, rfl⟩ := Prod.mk.inj heq
    obtain ⟨q, hensure, hrest⟩ := Option.bind_eq_some_iff.mp henqueue
    obtain ⟨q', hpush, hqueue⟩ := Option.bind_eq_some_iff.mp hrest
    obtain rfl := Option.some.inj hqueue
    unfold CircularArray.push at hpush
    split_ifs at hpush
    obtain rfl := Option.some.inj hpush
    have hcapacity : queue.capacity ≤ q.capacity := capacity_le_of_ensureCapacity hensure
    exact hcapacity
  | dequeue =>
    replace hrun : queue.dequeue = some (ret, queue') := hrun
    unfold Queue.dequeue at hrun
    split_ifs at hrun
    · obtain ⟨⟨x, q⟩, hpop, hqueue⟩ := Option.bind_eq_some_iff.mp hrun
      obtain ⟨-, rfl⟩ := Prod.mk.inj (Option.some.inj hqueue)
      unfold CircularArray.pop at hpop
      split_ifs at hpop
      obtain ⟨-, rfl⟩ := Prod.mk.inj (Option.some.inj hpop)
      exact le_rfl
    · obtain ⟨-, rfl⟩ := Prod.mk.inj (Option.some.inj hrun)
      exact le_rfl
  | peek =>
    obtain ⟨x, -, heq⟩ := Option.map_eq_some_iff.mp hrun
    obtain ⟨-, rfl⟩ := Prod.mk.inj heq
    exact le_rfl
  | clear =>
    obtain ⟨queue₁, hclear, heq⟩ := Option.map_eq_some_iff.mp hrun
    obtain ⟨-, rfl⟩ := Prod.mk.inj heq
    obtain ⟨array, -, hqueue⟩ := Option.bind_eq_some_iff.mp hclear
    obtain rfl := Option.some.inj hqueue
    exact le_rfl

/-- A call that succeeds does to a queue of two places or more what it does to the list. -/
theorem Queue.Holds.run_some (h : queue.Holds xs) (hcapacity : 2 ≤ queue.capacity)
    {op : QueueOp α} {ret : α} (hrun : op.run queue = some (ret, queue')) :
    queue'.Holds (op.fifo xs).2 := by
  have hgrows : ∀ obj, op = .enqueue obj → queue.toCircularArray.Grows 8 queue.growthFactor := by
    rintro obj rfl
    obtain ⟨queue₁, henqueue, -⟩ := Option.map_eq_some_iff.mp hrun
    exact h.grows_of_enqueue hcapacity henqueue
  obtain ⟨queue₁, hrun₁, hholds⟩ := h.step hgrows
  obtain ⟨-, rfl⟩ := Prod.mk.inj (Option.some.inj (hrun₁.symm.trans hrun))
  exact hholds

theorem Queue.Holds.runQueue_some (h : queue.Holds xs) (hcapacity : 2 ≤ queue.capacity)
    {ops : List (QueueOp α)} {objs : List α} (hrun : runQueue ops queue = some (objs, queue')) :
    queue'.Holds (runFifo ops xs).2 := by
  induction ops generalizing queue xs objs with
  | nil =>
    obtain ⟨-, rfl⟩ := Prod.mk.inj (Option.some.inj hrun)
    exact h
  | cons op ops ih =>
    obtain ⟨⟨obj, queue₁⟩, hfirst, hrest⟩ := Option.bind_eq_some_iff.mp hrun
    obtain ⟨⟨objs', queue₂⟩, hruns, heq⟩ := Option.bind_eq_some_iff.mp hrest
    obtain ⟨-, rfl⟩ := Prod.mk.inj (Option.some.inj heq)
    exact ih (h.run_some hcapacity hfirst) (hcapacity.trans (QueueOp.capacity_le hfirst)) hruns

/-! ### All runs -/

/-- In every state of a run of a queue with the default capacity and growth factor, `Queue_Contains`
answers whether an object of the queue equals `obj` if and only if the state is as `Scanned` says. -/
theorem contains_iff_scanned (equals : α → α → Bool) (ops : List (QueueOp α)) (obj : α)
    (queue queue' : Queue α) (objs : List α) (hnew : queueNew 32 2 = some queue)
    (hrun : runQueue ops queue = some (objs, queue')) :
    (queue'.contains equals obj = some true ↔ ∃ x ∈ (runFifo ops []).2, equals x obj = true) ↔
      queue'.Scanned equals obj := by
  obtain ⟨hholds, hcapacity⟩ := queueNew_holds hnew
  have hlarge : 2 ≤ queue.capacity := hcapacity ▸ (by decide)
  exact (hholds.runQueue_some hlarge hrun).contains_iff

/-- Two objects are enqueued and one is dequeued: the other one is found. -/
theorem contains_iff_scanned_two :
    ∃ queue queue' : Queue ℕ, queueNew 32 2 = some queue ∧
      runQueue [.enqueue 5, .enqueue 7, .dequeue] queue = some ([0, 0, 5], queue') ∧
      queue'.Scanned (· == ·) 7 ∧ queue'.contains (· == ·) 7 = some true := by
  obtain ⟨queue', hrun, hscanned⟩ : ∃ queue' : Queue ℕ,
      (queueNew 32 2).bind (runQueue [.enqueue 5, .enqueue 7, .dequeue]) = some ([0, 0, 5], queue') ∧
        queue'.Scanned (· == ·) 7 := by
    refine ⟨_, rfl, ?_⟩
    exact (if_pos (by decide)).mpr (Or.inl ⟨1, by decide, by decide, rfl⟩)
  obtain ⟨queue, hnew, hrun⟩ := Option.bind_eq_some_iff.mp hrun
  have hiff := contains_iff_scanned (· == ·) [.enqueue 5, .enqueue 7, .dequeue] 7 queue queue' _
    hnew hrun
  exact ⟨queue, queue', hnew, hrun, hscanned, (hiff.mpr hscanned).mpr ⟨7, by decide, rfl⟩⟩

/-- 31 objects are enqueued and dequeued, and one more is enqueued at the end of the array: it is not
found. -/
theorem not_contains_iff :
    ¬ ∀ (ops : List (QueueOp ℕ)) (obj : ℕ) (queue queue' : Queue ℕ) (objs : List ℕ),
      queueNew 32 2 = some queue → runQueue ops queue = some (objs, queue') →
      (∀ x, .enqueue x ∈ ops → x ≠ default) → obj ≠ default →
        (queue'.contains (· == ·) obj = some true ↔ ∃ x ∈ (runFifo ops []).2, (x == obj) = true) := by
  intro h
  let ops : List (QueueOp ℕ) :=
    (List.replicate 31 [.enqueue 5, .dequeue]).flatten ++ [.enqueue 7]
  have hlost : ((queueNew 32 2).bind (runQueue ops)).bind
      (fun ret => ret.2.contains (· == ·) 7) = some false := by decide +kernel
  have hfifo : (runFifo ops []).2 = [7] := by decide +kernel
  obtain ⟨⟨objs, queue'⟩, hrun, hfalse⟩ := Option.bind_eq_some_iff.mp hlost
  obtain ⟨queue, hnew, hrun⟩ := Option.bind_eq_some_iff.mp hrun
  have hobjs : ∀ x, .enqueue x ∈ ops → x ≠ default := by
    intro x hx
    simp only [ops, List.mem_append, List.mem_flatten, List.mem_replicate] at hx
    rcases hx with ⟨l, ⟨-, rfl⟩, hx⟩ | hx
    · obtain rfl : x = 5 := by simpa using hx
      decide
    · obtain rfl : x = 7 := by simpa using hx
      decide
  have hright := h ops 7 queue queue' objs hnew hrun hobjs (by decide)
  rw [hfifo, hfalse] at hright
  exact absurd (hright.mpr ⟨7, List.mem_singleton_self 7, rfl⟩) (by decide)

end FreeRDP.Collections
