import FreeRDP.Collections.Equiv.CircularArray

/-!
# Delivery of messages

The functions of a message queue hold its lock, so that the calls of any number of threads are a list
of calls, in the order in which they get the lock.  The messages that have been accepted are, in this
order, those that have been taken out of the queue and those that are in it.
-/

namespace FreeRDP.Collections

open Circular

variable {queue queue' : MessageQueue} {xs : List Message}

/-! ### Runs -/

/-- A call of a function of a message queue.  Each dispatch has its time, and says whether the memory
it may ask for is granted. -/
inductive MessageOp where
  | dispatch (granted : Bool) (time : ℕ) (message : Message)
  | post (granted : Bool) (time context type wParam lParam : ℕ)
  | postQuit (granted : Bool) (time nExitCode : ℕ)
  | get
  | peek (remove : Bool)
  | clear

/-- What a call has done: the message it has posted, the messages it has taken out of the queue, and
the message that it has returned. -/
structure Done where
  posted : Option Message := none
  removed : List Message := []
  message : Option Message := none

/-- What a dispatch has done that returns `ret`. -/
def Done.post (ret : Bool) (time : ℕ) (message : Message) : Done :=
  { posted := if ret then some { message with time := time } else none }

def MessageOp.run (queue : MessageQueue) : MessageOp → Option (Done × MessageQueue)
  | dispatch granted time message => do
    let (ret, queue) ← queue.dispatch granted time message
    return (.post ret time message, queue)
  | post granted time context type wParam lParam => do
    let (ret, queue) ← queue.post granted time context type wParam lParam
    return (.post ret time (postMessage context type wParam lParam), queue)
  | postQuit granted time nExitCode => do
    let (ret, queue) ← queue.postQuit granted time nExitCode
    return (.post ret time (postMessage 0 WMQ_QUIT nExitCode 0), queue)
  | get => do
    let ((_, message), queue) ← queue.get
    return ({ removed := message.toList, message := message }, queue)
  | peek remove => do
    let ((_, message), queue) ← queue.peek remove
    return ({ removed := if remove then message.toList else [], message := message }, queue)
  | clear => do
    let (freed, queue) ← queue.clear
    return ({ removed := freed }, queue)

/-- What calls have done, one after another. -/
def runMessages : List MessageOp → MessageQueue → Option (List (MessageOp × Done) × MessageQueue)
  | [], queue => some ([], queue)
  | op :: ops, queue => do
    let (done, queue) ← op.run queue
    let (trace, queue) ← runMessages ops queue
    return ((op, done) :: trace, queue)

/-- The messages that have been accepted. -/
def posted (trace : List (MessageOp × Done)) : List Message :=
  trace.flatMap fun (_, done) => done.posted.toList

/-- The messages that have been taken out of the queue. -/
def removed (trace : List (MessageOp × Done)) : List Message :=
  trace.flatMap fun (_, done) => done.removed

/-- Whether a message `WMQ_QUIT` has been accepted since the queue was cleared. -/
def hasQuit (quit : Bool) : List (MessageOp × Done) → Bool
  | [] => quit
  | (.clear, _) :: trace => hasQuit false trace
  | (_, done) :: trace =>
    hasQuit (quit || done.posted.any fun message => message.id = WMQ_QUIT) trace

/-! ### Single calls -/

/-- The messages in the queue are `xs`, and the event is set if there is one.  The array has room for
one more message, and its bytes fit into memory. -/
structure MessageQueue.Holds (queue : MessageQueue) (xs : List Message) : Prop where
  array : queue.toCircularArray.Holds xs
  room : xs.length < queue.capacity
  large : 2 ≤ queue.capacity
  fits : 48 * queue.capacity < 2 ^ 63
  event : queue.event = true ↔ xs ≠ []

/-- The array has room for one more message, or memory is granted for the new one. -/
def MessageQueue.MemoryGranted (queue : MessageQueue) (granted : Bool) : Prop :=
  queue.size + 1 < queue.capacity ∨ reallocSucceeds granted (48 * queue.newCapacity 2 1 % 2 ^ 64)

namespace MessageQueue.Holds

theorem dispatch (h : queue.Holds xs) (granted : Bool) (time : ℕ) (message : Message) :
    ∃ ret queue', queue.dispatch granted time message = some (ret, queue') ∧
      queue'.Holds (xs ++ if ret then [{ message with time := time }] else []) ∧
      (ret = true ↔ queue.closed = false ∧ queue.MemoryGranted granted) ∧
      queue'.closed = (queue.closed || (ret && message.id = WMQ_QUIT)) := by
  have hfits := h.fits
  have hlarge := h.large
  have hroom := h.room
  have hsize := h.array.size
  have hrefuse : queue.Holds (xs ++ if false = true then [{ message with time := time }] else []) := by
    simpa using h
  rw [MessageQueue.dispatch]
  by_cases hclosed : queue.closed = true
  · exact ⟨false, queue, if_pos hclosed, hrefuse, by simp [hclosed], by simp⟩
  by_cases hrefused : queue.size + 1 ≥ queue.capacity ∧
      ¬ reallocSucceeds granted (48 * queue.newCapacity 2 1 % 2 ^ 64)
  · refine ⟨false, queue, (if_neg hclosed).trans (if_pos hrefused), hrefuse,
      iff_of_false Bool.false_ne_true ?_, by simp⟩
    rintro ⟨-, hroom | hgranted⟩
    · omega
    · exact hrefused.2 hgranted
  · rw [if_neg hclosed, if_neg hrefused]
    have hgrows : queue.toCircularArray.Grows 48 2 :=
      h.array.grows_of_two_le hroom le_rfl hlarge (by decide) (by omega)
    obtain ⟨q, hensure, hq, hqroom, hgrown⟩ := h.array.ensureCapacity hgrows
    obtain ⟨q', hpush, hq', hcapacity⟩ := hq.push hqroom { message with time := time }
    have hdouble : queue.newCapacity 2 1 = queue.capacity * 2 := by
      unfold CircularArray.newCapacity
      rw [Nat.mod_eq_of_lt (by omega), if_neg (by omega)]
    -- memory for twice the messages has been granted
    have hgranted : queue.size + 1 ≥ queue.capacity → 48 * (queue.capacity * 2) < 2 ^ 63 := by
      intro hfull
      by_contra hlarge
      refine hrefused ⟨hfull, ?_⟩
      rw [hdouble, Nat.mod_eq_of_lt (by omega), reallocSucceeds, decide_eq_false hlarge]
      simp
    rw [hdouble, ← hcapacity] at hgrown
    refine ⟨true, { toCircularArray := q'
                    closed := if message.id = WMQ_QUIT then true else queue.closed
                    event := if q'.size > 0 then true else queue.event },
      by simp [hensure, hpush], ⟨hq', ?_, ?_, ?_, ?_⟩,
      iff_of_true rfl ⟨Bool.eq_false_of_not_eq_true hclosed, ?_⟩, ?_⟩
    · rw [if_pos rfl, List.length_append, List.length_singleton]
      show xs.length + 1 < q'.capacity
      split_ifs at hgrown <;> omega
    · show 2 ≤ q'.capacity
      split_ifs at hgrown <;> omega
    · show 48 * q'.capacity < 2 ^ 63
      split_ifs at hgrown with hfull
      · have := hgranted hfull
        omega
      · omega
    · simp [hq'.size]
    · rcases Nat.lt_or_ge (queue.size + 1) queue.capacity with hlt | hfull
      · exact .inl hlt
      · exact .inr (Decidable.not_not.mp fun hno => hrefused ⟨hfull, hno⟩)
    · by_cases hquit : message.id = WMQ_QUIT <;> simp [hquit]

theorem remove {x : Message} (h : queue.Holds (x :: xs)) :
    ∃ queue', queue.remove = some (x, queue') ∧ queue'.Holds xs ∧ queue'.closed = queue.closed := by
  obtain ⟨q, hpop, hq, hcapacity⟩ := h.array.pop
  have hroom := h.room
  rw [List.length_cons] at hroom
  refine ⟨{ queue with
    toCircularArray := q, event := if q.size < 1 then false else queue.event }, ?_,
    ⟨hq, ?_, hcapacity ▸ h.large, hcapacity ▸ h.fits, ?_⟩, rfl⟩
  · simp [MessageQueue.remove, hpop]
  · show xs.length < q.capacity
    omega
  · have hevent : queue.event = true := h.event.mpr (by simp)
    have hqsize := hq.size
    cases xs <;> simp_all

/-- `MessageQueue_Get` delivers the first message. -/
theorem get (h : queue.Holds xs) :
    ∃ status queue', queue.get = some ((status, xs.head?), queue') ∧ queue'.Holds xs.tail ∧
      queue'.closed = queue.closed := by
  have hsize := h.array.size
  cases xs with
  | nil => exact ⟨-1, queue, if_neg (by simp [hsize]), h, rfl⟩
  | cons x xs =>
    obtain ⟨queue', hremove, hholds, hclosed⟩ := h.remove
    refine ⟨if x.id ≠ WMQ_QUIT then 1 else 0, queue', ?_, hholds, hclosed⟩
    rw [MessageQueue.get, if_pos (by simp [hsize]), hremove]
    rfl

/-- `MessageQueue_Peek` shows the first message and removes it if it is told to. -/
theorem peek (h : queue.Holds xs) (remove : Bool) :
    ∃ status queue', queue.peek remove = some ((status, xs.head?), queue') ∧
      queue'.Holds (if remove then xs.tail else xs) ∧ queue'.closed = queue.closed := by
  have hsize := h.array.size
  cases xs with
  | nil => exact ⟨0, queue, if_neg (by simp [hsize]), by simpa using h, rfl⟩
  | cons x xs =>
    rw [MessageQueue.peek, if_pos (by simp [hsize])]
    cases remove with
    | false => exact ⟨1, queue, by simp [h.array.front], h, rfl⟩
    | true =>
      obtain ⟨queue', hremove, hholds, hclosed⟩ := h.remove
      exact ⟨1, queue', by simp [hremove], hholds, hclosed⟩

theorem drainLoop_spec {q : CircularArray Message} (h : q.Holds xs) :
    ∃ q', drainLoop xs.length q = some (xs, q') ∧ q'.Holds [] ∧ q'.capacity = q.capacity := by
  induction xs generalizing q with
  | nil => exact ⟨q, rfl, h, rfl⟩
  | cons x xs ih =>
    obtain ⟨q₁, hpop, hq₁, hcapacity₁⟩ := h.pop
    obtain ⟨q₂, hdrain, hq₂, hcapacity₂⟩ := ih hq₁
    exact ⟨q₂, by simp [drainLoop, hpop, hdrain], hq₂, hcapacity₂.trans hcapacity₁⟩

theorem clear (h : queue.Holds xs) :
    ∃ queue', queue.clear = some (xs, queue') ∧ queue'.Holds [] ∧ queue'.closed = false := by
  obtain ⟨q, hdrain, hq, hcapacity⟩ := drainLoop_spec h.array
  have hlarge := h.large
  refine ⟨{ toCircularArray := q, closed := false, event := false }, ?_,
    ⟨hq, ?_, hcapacity ▸ h.large, hcapacity ▸ h.fits, by simp⟩, rfl⟩
  · rw [MessageQueue.clear, h.array.size, hdrain]
    rfl
  · show 0 < q.capacity
    omega

end MessageQueue.Holds

/-! ### All calls -/

/-- One call: what it posts comes in at the end, what it removes goes out at the front. -/
theorem MessageQueue.Holds.step (h : queue.Holds xs) (op : MessageOp) :
    ∃ done queue' xs', op.run queue = some (done, queue') ∧ queue'.Holds xs' ∧
      xs ++ done.posted.toList = done.removed ++ xs' ∧
      hasQuit queue.closed [(op, done)] = queue'.closed := by
  have hpost : ∀ (granted : Bool) (time : ℕ) (message : Message),
      ∃ ret queue' xs', queue.dispatch granted time message = some (ret, queue') ∧
        queue'.Holds xs' ∧ xs ++ (Done.post ret time message).posted.toList = xs' ∧
        (queue.closed || (Done.post ret time message).posted.any
          fun message => message.id = WMQ_QUIT) = queue'.closed := by
    intro granted time message
    obtain ⟨ret, queue', hdispatch, hholds, -, hclosed⟩ := h.dispatch granted time message
    refine ⟨ret, queue', _, hdispatch, hholds, ?_, ?_⟩ <;> cases ret <;> simp_all [Done.post]
  cases op with
  | dispatch granted time message =>
    obtain ⟨ret, queue', xs', hdispatch, hholds, hxs, hclosed⟩ := hpost granted time message
    exact ⟨_, queue', xs', by simp [MessageOp.run, hdispatch], hholds, hxs, hclosed⟩
  | post granted time context type wParam lParam =>
    obtain ⟨ret, queue', xs', hdispatch, hholds, hxs, hclosed⟩ :=
      hpost granted time (postMessage context type wParam lParam)
    exact ⟨_, queue', xs', by simp [MessageOp.run, MessageQueue.post, hdispatch], hholds, hxs, hclosed⟩
  | postQuit granted time nExitCode =>
    obtain ⟨ret, queue', xs', hdispatch, hholds, hxs, hclosed⟩ :=
      hpost granted time (postMessage 0 WMQ_QUIT nExitCode 0)
    exact ⟨_, queue', xs', by
      simp [MessageOp.run, MessageQueue.postQuit, MessageQueue.post, hdispatch], hholds, hxs, hclosed⟩
  | get =>
    obtain ⟨status, queue', hget, hholds, hclosed⟩ := h.get
    refine ⟨_, queue', xs.tail, by simp [MessageOp.run, hget]; rfl, hholds, ?_, ?_⟩
    · cases xs <;> simp
    · simp [hasQuit, hclosed]
  | peek remove =>
    obtain ⟨status, queue', hpeek, hholds, hclosed⟩ := h.peek remove
    refine ⟨_, queue', _, by simp [MessageOp.run, hpeek]; rfl, hholds, ?_, ?_⟩
    · cases xs <;> cases remove <;> simp
    · simp [hasQuit, hclosed]
  | clear =>
    obtain ⟨queue', hclear, hholds, hclosed⟩ := h.clear
    refine ⟨_, queue', [], by simp [MessageOp.run, hclear]; rfl, hholds, by simp, ?_⟩
    simp [hasQuit, hclosed]

theorem hasQuit_cons (quit : Bool) (step : MessageOp × Done) (trace : List (MessageOp × Done)) :
    hasQuit quit (step :: trace) = hasQuit (hasQuit quit [step]) trace := by
  obtain ⟨op, done⟩ := step
  cases op <;> rfl

theorem MessageQueue.Holds.run (h : queue.Holds xs) (ops : List MessageOp) :
    ∃ trace queue' xs', runMessages ops queue = some (trace, queue') ∧ queue'.Holds xs' ∧
      xs ++ posted trace = removed trace ++ xs' ∧ hasQuit queue.closed trace = queue'.closed := by
  induction ops generalizing queue xs with
  | nil => exact ⟨[], queue, xs, rfl, h, by simp [posted, removed], rfl⟩
  | cons op ops ih =>
    obtain ⟨done, queue₁, xs₁, hrun, hholds₁, hxs₁, hclosed₁⟩ := h.step op
    obtain ⟨trace, queue₂, xs₂, hruns, hholds₂, hxs₂, hclosed₂⟩ := ih hholds₁
    refine ⟨(op, done) :: trace, queue₂, xs₂, by simp [runMessages, hrun, hruns], hholds₂, ?_, ?_⟩
    · calc xs ++ posted ((op, done) :: trace)
          = xs ++ done.posted.toList ++ posted trace := by simp [posted]
        _ = done.removed ++ (xs₁ ++ posted trace) := by rw [hxs₁, List.append_assoc]
        _ = removed ((op, done) :: trace) ++ xs₂ := by rw [hxs₂]; simp [removed]
    · rw [hasQuit_cons, hclosed₁, hclosed₂]

/-- A queue in which the messages `xs` wait: the event is set if there is one, the first of them is
the one that is delivered or shown, and a clear takes all of them out and leaves the queue open.  No
message is accepted if the queue is closed, and otherwise every one for which there is memory, behind
those that wait. -/
structure MessageQueue.Serves (queue : MessageQueue) (xs : List Message) (closed : Bool) : Prop where
  size : queue.size = xs.length
  elements : queue.toCircularArray.Holds xs
  event : queue.event = true ↔ 0 < queue.size
  get : ∃ status queue', queue.get = some ((status, xs.head?), queue')
  peek : ∀ remove, ∃ status queue', queue.peek remove = some ((status, xs.head?), queue')
  clear : ∃ queue', queue.clear = some (xs, queue') ∧ queue'.closed = false
  dispatch : closed = true → ∀ granted time message,
    queue.dispatch granted time message = some (false, queue)
  accept : closed = false → ∀ granted time message, queue.MemoryGranted granted →
    ∃ queue', queue.dispatch granted time message = some (true, queue') ∧
      queue'.toCircularArray.Holds (xs ++ [{ message with time := time }])

theorem MessageQueue.Holds.serves (h : queue.Holds xs) : queue.Serves xs queue.closed where
  size := h.array.size
  elements := h.array
  event := by
    rw [h.event, h.array.size]
    exact List.length_pos_iff.symm
  get := by
    obtain ⟨status, queue', hget, -⟩ := h.get
    exact ⟨status, queue', hget⟩
  peek remove := by
    obtain ⟨status, queue', hpeek, -⟩ := h.peek remove
    exact ⟨status, queue', hpeek⟩
  clear := by
    obtain ⟨queue', hclear, -, hopen⟩ := h.clear
    exact ⟨queue', hclear, hopen⟩
  dispatch hclosed granted time message := if_pos hclosed
  accept hopen granted time message hgranted := by
    obtain ⟨ret, queue', hdispatch, hholds, hret, -⟩ := h.dispatch granted time message
    obtain rfl := hret.mpr ⟨hopen, hgranted⟩
    exact ⟨queue', hdispatch, hholds.array⟩

theorem messageQueueNew_holds :
    ∃ queue, messageQueueNew = some queue ∧ queue.Holds [] ∧ queue.closed = false := by
  obtain ⟨q, hensure, hq, hcapacity⟩ := holds_zero (α := Message) (by decide : 0 < 32)
    (by decide : 48 * 32 < 2 ^ 64) 2
  refine ⟨⟨q, false, false⟩, by simp [messageQueueNew, hensure],
    ⟨hq, ?_, ?_, ?_, by simp⟩, rfl⟩
  · show 0 < q.capacity
    omega
  · show 2 ≤ q.capacity
    omega
  · show 48 * q.capacity < 2 ^ 63
    omega

/-- Whatever calls are made on a new queue: the messages that have been accepted are, in their order,
those that have been taken out and those that wait, and messages are accepted except behind a quit
message, until the queue is cleared. -/
theorem runMessages_delivers (ops : List MessageOp) :
    ∃ queue, messageQueueNew = some queue ∧
      ∃ trace queue' xs, runMessages ops queue = some (trace, queue') ∧
        posted trace = removed trace ++ xs ∧ queue'.Serves xs (hasQuit false trace) := by
  obtain ⟨queue, hnew, hholds, hclosed⟩ := messageQueueNew_holds
  obtain ⟨trace, queue', xs, hrun, hholds', hxs, hquit⟩ := hholds.run ops
  rw [hclosed] at hquit
  exact ⟨queue, hnew, trace, queue', xs, hrun, hxs, hquit ▸ hholds'.serves⟩

/-- Behind a quit message a message is refused; when the queue has been cleared, the next one is accepted
and delivered. -/
theorem runMessages_delivers_cleared :
    ∃ queue trace queue', messageQueueNew = some queue ∧
      runMessages [.postQuit true 10 3, .post true 11 1 2 0 0, .clear, .post true 12 4 5 0 0,
        .peek false, .get] queue = some (trace, queue') ∧
      posted trace = [⟨WMQ_QUIT, 3, 0, 0, 10, 0⟩, ⟨5, 0, 0, 4, 12, 0⟩] ∧
      removed trace = posted trace ∧ queue'.Serves [] false := by
  obtain ⟨queue, hnew, trace, queue', xs, hrun, hposted, hserves⟩ :=
    runMessages_delivers [.postQuit true 10 3, .post true 11 1 2 0 0, .clear, .post true 12 4 5 0 0,
      .peek false, .get]
  have htrace : ((messageQueueNew.bind (runMessages [.postQuit true 10 3, .post true 11 1 2 0 0, .clear,
      .post true 12 4 5 0 0, .peek false, .get])).map fun (trace, _) =>
        (posted trace, removed trace, hasQuit false trace)) =
      some ([⟨WMQ_QUIT, 3, 0, 0, 10, 0⟩, ⟨5, 0, 0, 4, 12, 0⟩],
        [⟨WMQ_QUIT, 3, 0, 0, 10, 0⟩, ⟨5, 0, 0, 4, 12, 0⟩], false) := rfl
  rw [hnew, Option.bind_some, hrun] at htrace
  obtain ⟨hpost, hrest⟩ := Prod.mk.inj (Option.some.inj htrace)
  obtain ⟨hremove, hquit⟩ := Prod.mk.inj hrest
  have hxs : xs = [] := by
    rw [hpost, hremove] at hposted
    exact (List.append_right_eq_self.mp hposted.symm)
  subst hxs
  exact ⟨queue, trace, queue', hnew, hrun, hpost, hremove.trans hpost.symm, hquit ▸ hserves⟩

end FreeRDP.Collections
