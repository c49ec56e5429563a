import FreeRDP.Lib.Threads

/-!
# The event that all clients of the shadow server handle

`server/shadow/shadow_mcevent.c`: the thread of the subsystem publishes a frame to the clients that
subscribe, and waits until each has handled it.  All of the file runs under one critical section, so that a
step is what a thread does between two acquisitions of it; the waits for the events, during which the
section is left, are steps of their own.  One thread publishes, and always waits: the others of the
file's entry points are not used.

`asked` and `handled` count the publications for a client and those of which it has consumed its share.
They are not in the source, and nothing depends on them.  `failed` is set where an assertion fails.
-/

namespace FreeRDP.Shadow

inductive Phase where
  /-- It does not subscribe. -/
  | absent
  /-- It waits for the event, or for something else. -/
  | idle
  /-- It has seen the event, and sends the frame. -/
  | handling
  /-- It waits for `barrierEvent`. -/
  | waiting
  /-- It has seen `barrierEvent`, and enters the critical section. -/
  | passed
  deriving DecidableEq, Repr

/-- `struct rdp_shadow_multiclient_subscriber`, and the client that has it. -/
structure Subscriber where
  phase : Phase
  pleaseHandle : Bool
  asked : ℕ
  handled : ℕ
  deriving DecidableEq, Repr

inductive ServerPhase where
  | idle
  /-- It waits for `doneEvent`. -/
  | waiting
  /-- It has seen `doneEvent`, and enters the critical section. -/
  | passed
  deriving DecidableEq, Repr

/-- `struct rdp_shadow_multiclient_event`, with the threads that use it. -/
structure MultiClient (T : Type) where
  event : Bool
  barrierEvent : Bool
  doneEvent : Bool
  consuming : ℤ
  waiting : ℤ
  server : ServerPhase
  clients : T → Subscriber
  failed : Bool

def shadowMulticlientNew (T : Type) : MultiClient T where
  event := false
  barrierEvent := false
  doneEvent := true
  consuming := 0
  waiting := 0
  server := .idle
  clients _ := ⟨.absent, false, 0, 0⟩
  failed := false

/-- One for a client that subscribes. -/
def present (l : Subscriber) : ℕ := if l.phase = .absent then 0 else 1

/-- What `_Publish` does to a client. -/
def Subscriber.ask (l : Subscriber) : Subscriber :=
  if l.phase = .absent then l else { l with pleaseHandle := true, asked := l.asked + 1 }

namespace MultiClient

variable {T : Type} [DecidableEq T]

/-- `_Consume` for a subscriber, up to its end or to its wait.  Behind it the client is at `after`. -/
def consume (s : MultiClient T) (t : T) (l : Subscriber) (wait : Bool) (after : Phase) :
    MultiClient T :=
  let took := s.event && l.pleaseHandle
  let consuming := if took then s.consuming - 1 else s.consuming
  let handled := if took then l.handled + 1 else l.handled
  let failed := s.failed || consuming < 0
  let goto (phase : Phase) := Function.update s.clients t { l with phase := phase, handled := handled }
  if consuming = 0 then
    if s.waiting > 0 then
      { s with
        consuming := consuming, failed := failed, event := false, barrierEvent := true
        clients := goto after }
    else
      { s with
        consuming := consuming, failed := failed, event := false, doneEvent := true
        clients := goto after }
  else if wait then
    { s with
      consuming := consuming, failed := failed, waiting := s.waiting + 1, clients := goto .waiting }
  else { s with consuming := consuming, failed := failed, clients := goto after }

/-- The end of `_Consume`, behind its wait. -/
def leaveBarrier (s : MultiClient T) (t : T) : MultiClient T :=
  let clients := Function.update s.clients t { s.clients t with phase := .idle }
  if s.waiting - 1 = 0 then
    { s with waiting := s.waiting - 1, barrierEvent := false, doneEvent := true, clients := clients }
  else { s with waiting := s.waiting - 1, clients := clients }

omit [DecidableEq T] in
/-- `_Publish`, and `_WaitForSubscribers` up to its end or to its wait. -/
def publishAndWait [Fintype T] (s : MultiClient T) : MultiClient T :=
  let consuming := s.consuming + Threads.total present s.clients
  let clients := fun t => (s.clients t).ask
  if consuming > 0 then
    { s with
      consuming := consuming, failed := s.failed || s.consuming ≠ 0, doneEvent := false, event := true
      clients := clients, server := .waiting }
  else
    { s with
      consuming := consuming, failed := s.failed || s.consuming ≠ 0 || s.event, clients := clients }

/-- What a thread does. -/
inductive Action (T : Type) where
  /-- `shadow_multiclient_get_subscriber` -/
  | getSubscriber (t : T)
  /-- The client finds `event` set. -/
  | see (t : T)
  /-- `shadow_multiclient_consume` -/
  | consume (t : T)
  /-- `shadow_multiclient_release_subscriber` -/
  | releaseSubscriber (t : T)
  /-- `WaitForSingleObject` for `barrierEvent` returns. -/
  | passBarrier (t : T)
  /-- What is behind it. -/
  | leaveBarrier (t : T)
  /-- `shadow_multiclient_publish_and_wait` -/
  | publishAndWait
  /-- `WaitForSingleObject` for `doneEvent` returns. -/
  | passDone
  /-- What is behind it. -/
  | returnToServer
  deriving DecidableEq, Repr

/-- A step; `none` where the thread is not there or has to wait. -/
def step [Fintype T] (s : MultiClient T) : Action T → Option (MultiClient T)
  | .getSubscriber t =>
    if (s.clients t).phase = .absent then
      some (s.consume t { s.clients t with pleaseHandle := false } true .idle)
    else none
  | .see t =>
    if (s.clients t).phase = .idle ∧ s.event then
      some { s with clients := Function.update s.clients t { s.clients t with phase := .handling } }
    else none
  | .consume t =>
    if (s.clients t).phase = .idle ∨ (s.clients t).phase = .handling then
      some (s.consume t (s.clients t) true .idle)
    else none
  | .releaseSubscriber t =>
    if (s.clients t).phase = .idle ∨ (s.clients t).phase = .handling then
      some (s.consume t (s.clients t) false .absent)
    else none
  | .passBarrier t =>
    if (s.clients t).phase = .waiting ∧ s.barrierEvent then
      some { s with clients := Function.update s.clients t { s.clients t with phase := .passed } }
    else none
  | .leaveBarrier t => if (s.clients t).phase = .passed then some (s.leaveBarrier t) else none
  | .publishAndWait => if s.server = .idle then some s.publishAndWait else none
  | .passDone => if s.server = .waiting ∧ s.doneEvent then some { s with server := .passed } else none
  | .returnToServer =>
    if s.server = .passed then some { s with server := .idle, failed := s.failed || s.event } else none

end MultiClient

end FreeRDP.Shadow
