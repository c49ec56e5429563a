import FreeRDP.Lib.Run
import FreeRDP.Shadow.MultiClient

/-!
# Every client handles every frame

The three events say what the two counters do (`Inv`): `event` is set while a share is left to consume,
`barrierEvent` while clients have still to leave the barrier, `doneEvent` when neither is the case.  Each
step keeps this (`Inv.step`), although `pleaseHandle` is never cleared: a client that has consumed
its share stays behind the barrier as long as `event` is set.

From it: no assertion fails; a client that has subscribed handles each publication once; and while a
client sends a frame, the server waits (`multiclient_safe`).  Nobody waits for ever: as long as the server
waits, some thread can go on, and each step that is not a new subscription brings the end nearer
(`multiclient_progress`).
-/

namespace FreeRDP.Shadow

open Threads MultiClient

variable {T : Type} [Fintype T] {s s' : MultiClient T} {t u : T} {l : Subscriber} {ev : Bool}

/-! ### The invariant -/

/-- The shares of a client that are left. -/
def owed (l : Subscriber) : ℕ := l.asked - l.handled

def inBarrier (l : Subscriber) : ℕ := if l.phase = .waiting ∨ l.phase = .passed then 1 else 0

/-- A client, as long as `event` is `ev`. -/
structure Ok (ev : Bool) (l : Subscriber) : Prop where
  counts : l.handled ≤ l.asked ∧ l.asked ≤ l.handled + 1
  owes : l.handled < l.asked → l.pleaseHandle = true ∧ (l.phase = .idle ∨ l.phase = .handling)
  asked : ev = true → l.phase = .idle ∨ l.phase = .handling → l.handled < l.asked
  handling : l.phase = .handling → l.handled < l.asked
  passed : l.phase = .passed → ev = false

structure Inv (s : MultiClient T) : Prop where
  consuming : s.consuming = total owed s.clients
  waiting : s.waiting = total inBarrier s.clients
  event : s.event = true ↔ 0 < s.consuming
  barrierEvent : s.barrierEvent = true ↔ s.consuming = 0 ∧ 0 < s.waiting
  doneEvent : s.doneEvent = true ↔ s.consuming = 0 ∧ s.waiting = 0
  server : s.server ≠ .waiting → s.consuming = 0 ∧ s.waiting = 0
  ok : ∀ t, Ok s.event (s.clients t)
  failed : s.failed = false

theorem Ok.reset (h : Ok ev l) : Ok false l :=
  ⟨h.counts, h.owes, fun hev => absurd hev Bool.false_ne_true, h.handling, fun _ => rfl⟩

/-- A client that owes nothing, where it need not have seen the event. -/
theorem ok_of_settled (hcounts : l.handled = l.asked)
    (hphase : ev = true → l.phase = .waiting ∨ l.phase = .absent) (hhandling : l.phase ≠ .handling) :
    Ok ev l := by
  refine ⟨by omega, fun h => by omega, ?_, fun h => absurd h hhandling, ?_⟩
  · intro hev hidle
    rcases hphase hev with h | h <;> rw [h] at hidle <;> rcases hidle with hidle | hidle <;> cases hidle
  · intro hpassed
    cases ev with
    | false => rfl
    | true => rcases hphase rfl with h | h <;> rw [h] at hpassed <;> cases hpassed

theorem inv_new : Inv (shadowMulticlientNew T) := by
  have hzero : ∀ w : Subscriber → ℕ, w ⟨.absent, false, 0, 0⟩ = 0 →
      total w (shadowMulticlientNew T).clients = 0 := fun w hw => total_eq_zero fun _ => hw
  refine ⟨?_, ?_, ?_, ?_, ?_, fun _ => ⟨rfl, rfl⟩, fun _ => ?_, rfl⟩
  · rw [hzero owed rfl]
    rfl
  · rw [hzero inBarrier rfl]
    rfl
  · simp [shadowMulticlientNew]
  · simp [shadowMulticlientNew]
  · simp [shadowMulticlientNew]
  · exact ok_of_settled rfl (fun h => by cases h) (by simp [shadowMulticlientNew])

/-- One client changes, and nobody minds what happens to the event. -/
theorem Inv.ok_update [DecidableEq T] (h : Inv s) {l : Subscriber} (hev : ev = s.event ∨ ev = false)
    (hl : Ok ev l) (u : T) : Ok ev (Function.update s.clients t l u) := by
  by_cases hu : u = t
  · rw [hu, Function.update_self]
    exact hl
  · rw [Function.update_of_ne hu]
    rcases hev with rfl | rfl
    · exact h.ok u
    · exact (h.ok u).reset

variable [DecidableEq T]

/-! ### The steps -/

theorem Inv.consume (h : Inv s) {wait : Bool} {after : Phase}
    (hasked : l.asked = (s.clients t).asked) (hhandled : l.handled = (s.clients t).handled)
    (hout : inBarrier (s.clients t) = 0) (htook : (s.event && l.pleaseHandle) = true ↔ l.handled < l.asked)
    (hafter : after = .idle ∧ wait = true ∨ after = .absent) : Inv (s.consume t l wait after) := by
  have hcounts := (h.ok t).counts
  rw [← hasked, ← hhandled] at hcounts
  have howed : owed (s.clients t) = l.asked - l.handled := by
    rw [owed, ← hasked, ← hhandled]
  -- what is consumed is what is owed
  have hsettled : (if (s.event && l.pleaseHandle) then l.handled + 1 else l.handled) = l.asked := by
    split_ifs with h' <;> rw [htook] at h' <;> omega
  have hconsuming : ∀ phase, (if (s.event && l.pleaseHandle) then s.consuming - 1 else s.consuming) =
      total owed (Function.update s.clients t { l with phase := phase, handled := l.asked }) := by
    intro phase
    have htotal := total_update owed s.clients t { l with phase := phase, handled := l.asked }
    have hzero : owed { l with phase := phase, handled := l.asked } = 0 := Nat.sub_self _
    have hsum := h.consuming
    split_ifs with h' <;> rw [htook] at h' <;> omega
  have hwaiting : ∀ phase, s.waiting + inBarrier { l with phase := phase, handled := l.asked } =
      total inBarrier (Function.update s.clients t { l with phase := phase, handled := l.asked }) := by
    intro phase
    have htotal := total_update inBarrier s.clients t { l with phase := phase, handled := l.asked }
    have hsum := h.waiting
    omega
  have hnonneg := hconsuming .idle
  have hafter' : inBarrier { l with phase := after, handled := l.asked } = 0 := by
    rcases hafter with ⟨rfl, -⟩ | rfl <;> rfl
  have hok : ∀ {ev : Bool} {phase : Phase}, (ev = true → phase = .waiting ∨ phase = .absent) →
      phase ≠ .handling → Ok ev { l with phase := phase, handled := l.asked } := fun hphase hne =>
    ok_of_settled rfl hphase hne
  have hne : after ≠ .handling := by
    rcases hafter with ⟨rfl, -⟩ | rfl <;> simp
  have hserver := h.server
  have hwait := hwaiting after
  rw [hafter'] at hwait
  unfold MultiClient.consume
  simp only [hsettled]
  generalize hcons : (if (s.event && l.pleaseHandle) then s.consuming - 1 else s.consuming) = consuming
    at hconsuming hnonneg
  have hle : consuming ≤ s.consuming := by
    rw [← hcons]
    split_ifs <;> omega
  have hfailed : (s.failed || decide (consuming < 0)) = false := by
    rw [h.failed, Bool.false_or, decide_eq_false_iff_not]
    omega
  rw [hfailed]
  -- while shares are left, the events stay as they are, and the server waits
  have hbusy : 0 < consuming → ∀ w : ℤ, (s.barrierEvent = true ↔ consuming = 0 ∧ 0 < w) ∧
      (s.doneEvent = true ↔ consuming = 0 ∧ w = 0) ∧
      (s.server ≠ .waiting → consuming = 0 ∧ w = 0) := by
    intro hpos w
    rw [h.barrierEvent, h.doneEvent]
    refine ⟨by omega, by omega, fun hs => ?_⟩
    have := (hserver hs).1
    omega
  split_ifs with hlast hbarrier hstay
  · refine ⟨hconsuming after, by simpa using hwait, by simp [hlast], by simp; omega, ?_, ?_,
      h.ok_update (.inr rfl) (hok (fun hev => by cases hev) hne), rfl⟩
    · have hdone := h.doneEvent
      simp only [hlast, true_and]
      rw [hdone]
      omega
    · intro hs
      exact ⟨hlast, (hserver hs).2⟩
  · have hzero : s.waiting = 0 := by omega
    refine ⟨hconsuming after, by simpa using hwait, by simp [hlast], ?_, by simp [hlast, hzero], ?_,
      h.ok_update (.inr rfl) (hok (fun hev => by cases hev) hne), rfl⟩
    · have hbar := h.barrierEvent
      simp only [hlast, true_and]
      rw [hbar]
      omega
    · exact fun _ => ⟨hlast, hzero⟩
  · -- the client waits for the others
    have hpos : 0 < consuming := by omega
    have hevent := h.event.2 (by omega)
    exact ⟨hconsuming .waiting, hwaiting .waiting, by simp [hevent, hpos], (hbusy hpos _).1,
      (hbusy hpos _).2.1, (hbusy hpos _).2.2, h.ok_update (.inl rfl) (hok (fun _ => .inl rfl) (by simp)), rfl⟩
  · have habsent : after = .absent := by
      rcases hafter with ⟨-, hw⟩ | h'
      · exact absurd hw hstay
      · exact h'
    have hpos : 0 < consuming := by omega
    have hevent := h.event.2 (by omega)
    exact ⟨hconsuming after, by simpa using hwait, by simp [hevent, hpos], (hbusy hpos _).1,
      (hbusy hpos _).2.1, (hbusy hpos _).2.2, h.ok_update (.inl rfl) (hok (fun _ => .inr habsent) hne), rfl⟩

omit [DecidableEq T] in
/-- A client that is not in the barrier consumes a share if it owes one. -/
theorem Inv.took_iff (h : Inv s)
    (ht : (s.clients t).phase = .idle ∨ (s.clients t).phase = .handling) :
    (s.event && (s.clients t).pleaseHandle) = true ↔ (s.clients t).handled < (s.clients t).asked := by
  rw [Bool.and_eq_true]
  constructor
  · exact fun hboth => (h.ok t).asked hboth.1 ht
  · intro howes
    refine ⟨h.event.2 ?_, ((h.ok t).owes howes).1⟩
    have hle := le_total owed s.clients t
    have howed : owed (s.clients t) = (s.clients t).asked - (s.clients t).handled := rfl
    have hsum := h.consuming
    omega

/-- A client goes on to another place, and the counters stay. -/
theorem Inv.goto (h : Inv s) {phase : Phase} (howed : Ok s.event { s.clients t with phase := phase })
    (hbarrier : inBarrier { s.clients t with phase := phase } = inBarrier (s.clients t)) :
    Inv { s with clients := Function.update s.clients t { s.clients t with phase := phase } } := by
  have howed' := total_update owed s.clients t { s.clients t with phase := phase }
  have hbarrier' := total_update inBarrier s.clients t { s.clients t with phase := phase }
  have hsame : owed { s.clients t with phase := phase } = owed (s.clients t) := rfl
  have hconsuming := h.consuming
  have hwaiting := h.waiting
  refine ⟨?_, ?_, h.event, h.barrierEvent, h.doneEvent, h.server, h.ok_update (.inl rfl) howed, h.failed⟩
  · show s.consuming = total owed (Function.update s.clients t _)
    omega
  · show s.waiting = total inBarrier (Function.update s.clients t _)
    omega

/-- The end of `_Consume` behind the barrier. -/
theorem Inv.leaveBarrier (h : Inv s) (ht : (s.clients t).phase = .passed) : Inv (s.leaveBarrier t) := by
  have hev := (h.ok t).passed ht
  have hin : inBarrier (s.clients t) = 1 := by simp [inBarrier, ht]
  have hwaiting := h.waiting
  have hle := le_total inBarrier s.clients t
  have hcounts := (h.ok t).counts
  have hsettled : (s.clients t).handled = (s.clients t).asked := by
    by_contra hne
    have howes := ((h.ok t).owes (by omega)).2
    rw [ht] at howes
    rcases howes with h' | h' <;> cases h'
  have hzero : s.consuming = 0 := by
    have hnot : ¬ 0 < s.consuming := by
      rw [← h.event, hev]
      exact Bool.false_ne_true
    have hsum := h.consuming
    omega
  have hok : Ok s.event { s.clients t with phase := .idle } := by
    refine ok_of_settled hsettled ?_ (by simp)
    intro h'
    rw [hev] at h'
    cases h'
  have howed' := total_update owed s.clients t { s.clients t with phase := .idle }
  have hbarrier' := total_update inBarrier s.clients t { s.clients t with phase := .idle }
  have hsame : owed { s.clients t with phase := .idle } = owed (s.clients t) := rfl
  have hout : inBarrier { s.clients t with phase := .idle } = 0 := rfl
  have hconsuming : s.consuming = total owed (Function.update s.clients t
      { s.clients t with phase := .idle }) := by
    have hsum := h.consuming
    omega
  have hwaiting' : s.waiting - 1 = total inBarrier (Function.update s.clients t
      { s.clients t with phase := .idle }) := by
    omega
  have hserver := h.server
  have hbar := h.barrierEvent
  have hdone := h.doneEvent
  unfold MultiClient.leaveBarrier
  simp only
  split_ifs with hlast
  · refine ⟨hconsuming, hwaiting', h.event, by simp [hlast], by simp [hlast, hzero], ?_,
      h.ok_update (.inl rfl) hok, h.failed⟩
    exact fun _ => ⟨hzero, hlast⟩
  · refine ⟨hconsuming, hwaiting', h.event, ?_, ?_, ?_, h.ok_update (.inl rfl) hok, h.failed⟩
    · show s.barrierEvent = true ↔ s.consuming = 0 ∧ 0 < s.waiting - 1
      rw [hbar]
      omega
    · show s.doneEvent = true ↔ s.consuming = 0 ∧ s.waiting - 1 = 0
      rw [hdone]
      omega
    · intro hs
      have hboth := hserver hs
      omega

omit [DecidableEq T] in
/-- A client, while the server does not wait. -/
theorem Inv.settled (h : Inv s) (hs : s.server ≠ .waiting) (t : T) :
    (s.clients t).handled = (s.clients t).asked ∧
      ((s.clients t).phase = .absent ∨ (s.clients t).phase = .idle) := by
  obtain ⟨hconsuming, hwaiting⟩ := h.server hs
  have howed : owed (s.clients t) = 0 := eq_zero_of_total (by have := h.consuming; omega) t
  have hout : inBarrier (s.clients t) = 0 := eq_zero_of_total (by have := h.waiting; omega) t
  have hcounts := (h.ok t).counts
  have hhandling := (h.ok t).handling
  unfold owed at howed
  refine ⟨by omega, ?_⟩
  cases hphase : (s.clients t).phase with
  | absent => exact .inl rfl
  | idle => exact .inr rfl
  | handling =>
    have := hhandling hphase
    omega
  | waiting => simp [inBarrier, hphase] at hout
  | passed => simp [inBarrier, hphase] at hout

omit [DecidableEq T] in
theorem Inv.publishAndWait (h : Inv s) (hs : s.server = .idle) : Inv s.publishAndWait := by
  have hidle : s.server ≠ .waiting := by simp [hs]
  obtain ⟨hconsuming, hwaiting⟩ := h.server hidle
  have hclients := h.settled hidle
  have hevent : s.event = false := by
    rw [← Bool.not_eq_true, h.event]
    omega
  have hbarrier : s.barrierEvent = false := by
    rw [← Bool.not_eq_true, h.barrierEvent]
    omega
  have howed : total owed (fun t => (s.clients t).ask) = total present s.clients := by
    refine total_congr fun t => ?_
    obtain ⟨hhandled, hphase | hphase⟩ := hclients t
    · simp [Subscriber.ask, owed, present, hphase, hhandled]
    · simp [Subscriber.ask, owed, present, hphase, hhandled]
  have hout : total inBarrier (fun t => (s.clients t).ask) = 0 := by
    refine total_eq_zero fun t => ?_
    obtain ⟨-, hphase | hphase⟩ := hclients t <;> simp [Subscriber.ask, inBarrier, hphase]
  have hok : ∀ t, Ok true (s.clients t).ask := by
    intro t
    obtain ⟨hhandled, hphase | hphase⟩ := hclients t
    · rw [Subscriber.ask, if_pos hphase]
      exact ok_of_settled hhandled (fun _ => .inr hphase) (by simp [hphase])
    · rw [Subscriber.ask, if_neg (by simp [hphase])]
      refine ⟨?_, ?_, ?_, ?_, ?_⟩ <;> simp [hphase, hhandled]
  unfold MultiClient.publishAndWait
  simp only [hconsuming, zero_add, h.failed, hevent, ne_eq, not_true_eq_false, decide_false,
    Bool.or_self]
  split_ifs with hpos
  · refine ⟨by rw [howed], ?_, by simp; omega, ?_, ?_, by simp, hok, rfl⟩
    · show s.waiting = total inBarrier (fun t => (s.clients t).ask)
      omega
    · simp [hbarrier, hwaiting]
    · simp
      omega
  · -- nobody subscribes
    have hnone : total present s.clients = 0 := by omega
    have hsame : (fun t => (s.clients t).ask) = s.clients := by
      funext t
      have habsent := eq_zero_of_total hnone t
      unfold present at habsent
      split_ifs at habsent with hphase
      rw [Subscriber.ask, if_pos hphase]
    rw [hsame, hnone]
    have hinv := h
    obtain ⟨event, barrierEvent, doneEvent, consuming, waiting, server, clients, failed⟩ := s
    obtain rfl : event = false := hevent
    obtain rfl : consuming = 0 := hconsuming
    obtain rfl : failed = false := h.failed
    exact hinv

theorem Inv.step (h : Inv s) {a : Action T} (hstep : s.step a = some s') : Inv s' := by
  cases a with
  | getSubscriber t =>
    obtain ⟨ht, ⟨⟩⟩ := Option.ite_none_right_eq_some.mp hstep
    have hok := h.ok t
    refine h.consume rfl rfl (by simp [inBarrier, ht]) ?_ (.inl ⟨rfl, rfl⟩)
    have hnot : ¬ (s.clients t).handled < (s.clients t).asked := by
      intro howes
      have hphase := (hok.owes howes).2
      simp [ht] at hphase
    simp [hnot]
  | see t =>
    obtain ⟨ht, ⟨⟩⟩ := Option.ite_none_right_eq_some.mp hstep
    have hok := h.ok t
    have howes := hok.asked ht.2 (.inl ht.1)
    refine h.goto ⟨hok.counts, fun _ => ⟨(hok.owes howes).1, .inr rfl⟩, fun _ _ => howes, fun _ => howes,
      ?_⟩ (by simp [inBarrier, ht.1])
    intro h'
    cases h'
  | consume t =>
    obtain ⟨ht, ⟨⟩⟩ := Option.ite_none_right_eq_some.mp hstep
    exact h.consume rfl rfl (by rcases ht with ht | ht <;> simp [inBarrier, ht]) (h.took_iff ht)
      (.inl ⟨rfl, rfl⟩)
  | releaseSubscriber t =>
    obtain ⟨ht, ⟨⟩⟩ := Option.ite_none_right_eq_some.mp hstep
    exact h.consume rfl rfl (by rcases ht with ht | ht <;> simp [inBarrier, ht]) (h.took_iff ht)
      (.inr rfl)
  | passBarrier t =>
    obtain ⟨ht, ⟨⟩⟩ := Option.ite_none_right_eq_some.mp hstep
    have hok := h.ok t
    have hev : s.event = false := by
      rw [← Bool.not_eq_true, h.event]
      have hzero := (h.barrierEvent.1 ht.2).1
      omega
    refine h.goto ⟨hok.counts, ?_, ?_, ?_, fun _ => hev⟩ (by simp [inBarrier, ht.1])
    · intro howes
      have hphase := (hok.owes howes).2
      simp [ht.1] at hphase
    · simp
    · simp
  | leaveBarrier t =>
    obtain ⟨ht, ⟨⟩⟩ := Option.ite_none_right_eq_some.mp hstep
    exact h.leaveBarrier ht
  | publishAndWait =>
    obtain ⟨hs, ⟨⟩⟩ := Option.ite_none_right_eq_some.mp hstep
    exact h.publishAndWait hs
  | passDone =>
    obtain ⟨hs, ⟨⟩⟩ := Option.ite_none_right_eq_some.mp hstep
    exact ⟨h.consuming, h.waiting, h.event, h.barrierEvent, h.doneEvent,
      fun _ => h.doneEvent.1 hs.2, h.ok, h.failed⟩
  | returnToServer =>
    obtain ⟨hs, ⟨⟩⟩ := Option.ite_none_right_eq_some.mp hstep
    have hzero := h.server (by simp [hs])
    have hev : s.event = false := by
      rw [← Bool.not_eq_true, h.event]
      omega
    exact ⟨h.consuming, h.waiting, h.event, h.barrierEvent, h.doneEvent, fun _ => hzero, h.ok, by
      simp [h.failed, hev]⟩

/-! ### Runs -/

def Step (s : MultiClient T) (a : Action T) (s' : MultiClient T) : Prop := s.step a = some s'

theorem inv_of_runs {as : List (Action T)} (h : Runs Step (shadowMulticlientNew T) as s) : Inv s :=
  h.invariant inv_new fun _ _ _ hs hstep => hs.step hstep

/-- However the clients come, go and handle the event: no assertion fails, and each client has handled
every publication that it was asked to, but for the current one.  A client gets out of the barrier when
all have handled the current one.  The server goes on when, besides, no client is in the barrier or still
sends the frame. -/
theorem multiclient_safe {as : List (Action T)} (h : Runs Step (shadowMulticlientNew T) as s) :
    s.failed = false ∧
    (∀ t, (s.clients t).handled ≤ (s.clients t).asked ∧
      (s.clients t).asked ≤ (s.clients t).handled + 1) ∧
    (∀ t, (s.clients t).phase = .passed → ∀ u, (s.clients u).handled = (s.clients u).asked) ∧
    (s.server ≠ .waiting → ∀ t, (s.clients t).handled = (s.clients t).asked ∧
      ((s.clients t).phase = .absent ∨ (s.clients t).phase = .idle)) := by
  have hinv := inv_of_runs h
  refine ⟨hinv.failed, fun t => (hinv.ok t).counts, ?_, hinv.settled⟩
  intro t ht u
  have hev : ¬ 0 < s.consuming := by
    rw [← hinv.event, (hinv.ok t).passed ht]
    exact Bool.false_ne_true
  have howed : owed (s.clients u) = 0 := eq_zero_of_total (by have := hinv.consuming; omega) u
  have hcounts := (hinv.ok u).counts
  unfold owed at howed
  omega

/-- A frame is published to two clients, one of which has handled it. -/
def halfFrame : List (Action Bool) :=
  [.getSubscriber false, .getSubscriber true, .publishAndWait, .see false, .consume false]

/-- The other one handles it as well, and the server returns. -/
def wholeFrame : List (Action Bool) :=
  halfFrame ++ [.see true, .consume true, .passBarrier false, .leaveBarrier false, .passDone,
    .returnToServer]

theorem multiclient_safe_two : ∃ s : MultiClient Bool,
    Runs Step (shadowMulticlientNew Bool) wholeFrame s ∧ s.failed = false ∧
    (∀ t, (s.clients t).handled ≤ (s.clients t).asked ∧
      (s.clients t).asked ≤ (s.clients t).handled + 1) ∧
    (∀ t, (s.clients t).phase = .passed → ∀ u, (s.clients u).handled = (s.clients u).asked) ∧
    (s.server ≠ .waiting → ∀ t, (s.clients t).handled = (s.clients t).asked ∧
      ((s.clients t).phase = .absent ∨ (s.clients t).phase = .idle)) := by
  have hrun : Runs Step (shadowMulticlientNew Bool) wholeFrame _ := Runs.of_foldlM rfl
  exact ⟨_, hrun, multiclient_safe hrun⟩

/-! ### Progress -/

/-- What a client has still to do until the server goes on. -/
def remaining (l : Subscriber) : ℕ :=
  match l.phase with
  | .idle | .handling => if l.handled < l.asked then 3 else 0
  | .waiting => 2
  | .passed => 1
  | .absent => 0

/-- What the server has still to do. -/
def ServerPhase.remaining : ServerPhase → ℕ
  | .idle => 0
  | .waiting => 2
  | .passed => 1

def distance (s : MultiClient T) : ℕ := total Shadow.remaining s.clients + s.server.remaining

theorem distance_update {s' : MultiClient T} {l : Subscriber}
    (hclients : s'.clients = Function.update s.clients t l) (hserver : s'.server = s.server)
    (h : Shadow.remaining l < Shadow.remaining (s.clients t)) : distance s' < distance s := by
  have htotal := total_update Shadow.remaining s.clients t l
  unfold distance
  rw [hclients, hserver]
  omega

/-- A client that consumes its share has less to do. -/
theorem distance_consume (hphase : (s.clients t).phase = .idle ∨ (s.clients t).phase = .handling)
    (howes : (s.clients t).handled < (s.clients t).asked)
    (hcounts : (s.clients t).asked ≤ (s.clients t).handled + 1)
    (htook : (s.event && (s.clients t).pleaseHandle) = true) :
    distance (s.consume t (s.clients t) true .idle) < distance s := by
  have hthree : Shadow.remaining (s.clients t) = 3 := by
    rcases hphase with h | h <;> simp [Shadow.remaining, h, howes]
  have hsettled : ¬ (s.clients t).handled + 1 < (s.clients t).asked := by omega
  unfold MultiClient.consume
  simp only [htook, if_true]
  split_ifs <;> refine distance_update rfl rfl ?_ <;> rw [hthree] <;> simp [Shadow.remaining, hsettled]

/-- While the server waits, some thread can bring the end nearer. -/
theorem Inv.exists_step (h : Inv s) (hs : s.server ≠ .idle) :
    ∃ a s', s.step a = some s' ∧ distance s' < distance s := by
  cases hserver : s.server with
  | idle => exact absurd hserver hs
  | passed =>
    refine ⟨.returnToServer, _, by rw [MultiClient.step, if_pos hserver], ?_⟩
    simp [distance, hserver, ServerPhase.remaining]
  | waiting =>
    by_cases hdone : s.doneEvent = true
    · refine ⟨.passDone, _, by rw [MultiClient.step, if_pos ⟨hserver, hdone⟩], ?_⟩
      simp [distance, hserver, ServerPhase.remaining]
    · rw [h.doneEvent] at hdone
      have hconsuming := h.consuming
      have hwaiting := h.waiting
      by_cases howed : 0 < total owed s.clients
      · -- a client has still to consume its share
        obtain ⟨t, ht⟩ := exists_of_total_pos howed
        have howes : (s.clients t).handled < (s.clients t).asked := Nat.lt_of_sub_pos ht
        have hphase := ((h.ok t).owes howes).2
        exact ⟨.consume t, _, by rw [MultiClient.step, if_pos hphase],
          distance_consume hphase howes (h.ok t).counts.2 ((h.took_iff hphase).2 howes)⟩
      · -- the barrier is open
        have hbarrier := h.barrierEvent.2 (by omega)
        obtain ⟨t, ht⟩ : ∃ t, 0 < inBarrier (s.clients t) := exists_of_total_pos (by omega)
        have hphase : (s.clients t).phase = .waiting ∨ (s.clients t).phase = .passed := by
          by_contra hout
          rw [inBarrier, if_neg hout] at ht
          exact Nat.lt_irrefl 0 ht
        rcases hphase with hphase | hphase
        · have hstep : s.step (.passBarrier t) = some _ := if_pos ⟨hphase, hbarrier⟩
          refine ⟨_, _, hstep, distance_update rfl rfl ?_⟩
          simp [Shadow.remaining, hphase]
        · have hcounts := (h.ok t).counts
          have howes := (h.ok t).owes
          have hsettled : ¬ (s.clients t).handled < (s.clients t).asked := by
            intro hlt
            have hout := (howes hlt).2
            simp [hphase] at hout
          have hstep : s.step (.leaveBarrier t) = some (s.leaveBarrier t) := if_pos hphase
          refine ⟨_, _, hstep, ?_⟩
          unfold MultiClient.leaveBarrier
          simp only
          split_ifs <;> refine distance_update rfl rfl ?_ <;> simp [Shadow.remaining, hphase, hsettled]

/-- Nobody waits for ever: whatever has happened, the threads can go on so that the server gets back from
its publication. -/
theorem multiclient_progress {as : List (Action T)} (h : Runs Step (shadowMulticlientNew T) as s) :
    ∃ as' s', Runs Step s as' s' ∧ s'.server = .idle := by
  have hinv := inv_of_runs h
  clear h
  induction hn : distance s using Nat.strong_induction_on generalizing s with
  | _ n ih =>
    by_cases hs : s.server = .idle
    · exact ⟨[], s, .nil, hs⟩
    · obtain ⟨a, s', hstep, hlt⟩ := hinv.exists_step hs
      obtain ⟨as', s'', hrun, hidle⟩ := ih (distance s') (hn ▸ hlt) (hinv.step hstep) rfl
      exact ⟨a :: as', s'', hrun.cons hstep, hidle⟩

/-- One client has handled the frame and waits, and the other one has not seen it yet. -/
theorem multiclient_progress_two : ∃ s : MultiClient Bool,
    Runs Step (shadowMulticlientNew Bool) halfFrame s ∧ s.server = .waiting ∧
    ∃ as' s', Runs Step s as' s' ∧ s'.server = .idle := by
  have hrun : Runs Step (shadowMulticlientNew Bool) halfFrame _ := Runs.of_foldlM rfl
  exact ⟨_, hrun, rfl, multiclient_progress hrun⟩

end FreeRDP.Shadow
