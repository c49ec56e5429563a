import FreeRDP.Lib.Run
import FreeRDP.Synch.Critical

/-!
# Mutual exclusion

The invariant of a critical section (`Inv`) counts.  A token is with the thread that is inside or in
the semaphore, unless `LockCount` says that the section is free; `LockCount` and `RecursionCount` are
what the threads add to them.  Each access keeps it (`Inv.step`), because it changes what one thread
adds by as much as it changes the fields (`Inv.move`).  That holds of steps in which no signal interrupts
`sem_wait`, and while the entries are so few that the counters do not wrap (`Quiet`).

From it: at most one thread is inside, a thread that waits is woken by a token, and a section that
nobody uses is as it was initialized.
-/

namespace FreeRDP.Synch

open Threads

variable {T : Type} [DecidableEq T] [Fintype T] {s s' : Critical T} {t u : T} {l l' : Local} {d : ℕ}

/-! ### The invariant -/

/-- How often a thread can have entered, where it is. -/
def Ok (l : Local) : Prop :=
  match l.pc with
  | .tryRecurse | .tryIncrement | .recurse | .leave => 1 ≤ l.depth
  | .wait | .setRecursion | .setOwner => l.depth = 0
  | .clearOwner | .decrement | .post => l.depth = 1
  | .decrementRecursion => 2 ≤ l.depth
  | _ => True

/-- The token of a section: it is there unless the section is free. -/
def tokens (lockCount : ℤ) : ℕ := if lockCount = -1 then 0 else 1

structure Inv (s : Critical T) : Prop where
  token : total inside s.threads + s.lockSemaphore = tokens s.lockCount
  locks : s.lockCount + 1 = total entries s.threads
  recs : s.recursionCount = total recursions s.threads
  owner : ∀ t, s.owningThread = some t ↔ Owns (s.threads t)
  ok : ∀ t, Ok (s.threads t)

omit [DecidableEq T] in
theorem inv_new (spinCount : ℕ) : Inv (initializeCriticalSectionEx T spinCount) := by
  have hzero : ∀ w : Local → ℕ, w ⟨.out, 0⟩ = 0 →
      total w (initializeCriticalSectionEx T spinCount).threads = 0 := fun w hw =>
    total_eq_zero fun _ => hw
  refine ⟨?_, ?_, ?_, fun t => ?_, fun _ => trivial⟩
  · rw [hzero inside rfl]
    rfl
  · rw [hzero entries rfl]
    rfl
  · rw [hzero recursions rfl]
    rfl
  · simp [initializeCriticalSectionEx, Owns]

/-- A step of one thread that changes the fields by what it adds. -/
theorem Inv.move (h : Inv s) (hl : s.threads t = l) {lock count : ℤ} {owner : Option T} {sem : ℕ}
    (hok : Ok l') (hlock : lock + entries l = s.lockCount + entries l')
    (hcount : count + recursions l = s.recursionCount + recursions l')
    (htoken : inside l' + sem + tokens s.lockCount = inside l + s.lockSemaphore + tokens lock)
    (howner : ∀ u, owner = some u ↔ Owns (Function.update s.threads t l' u)) :
    Inv ⟨lock, s.spinCount, count, owner, sem, Function.update s.threads t l'⟩ := by
  subst hl
  have hinside := total_update inside s.threads t l'
  have hentries := total_update entries s.threads t l'
  have hrecursions := total_update recursions s.threads t l'
  have htok := h.token
  have hlocks := h.locks
  have hrecs := h.recs
  refine ⟨?_, ?_, ?_, howner, ?_⟩
  · show total inside (Function.update s.threads t l') + sem = tokens lock
    omega
  · show lock + 1 = total entries (Function.update s.threads t l')
    omega
  · show count = total recursions (Function.update s.threads t l')
    omega
  · intro u
    show Ok (Function.update s.threads t l' u)
    by_cases hu : u = t
    · rw [hu, Function.update_self]
      exact hok
    · rw [Function.update_of_ne hu]
      exact h.ok u

omit [Fintype T] in
/-- The owner stays where `OwningThread` does. -/
theorem owner_update {owner : Option T} (h : ∀ u, owner = some u ↔ Owns (s.threads u))
    (hl : s.threads t = l) (hown : Owns l' ↔ Owns l) (u : T) :
    owner = some u ↔ Owns (Function.update s.threads t l' u) := by
  by_cases hu : u = t
  · rw [hu, Function.update_self, hown, ← hl]
    exact h t
  · rw [Function.update_of_ne hu]
    exact h u

omit [DecidableEq T] in
theorem Inv.ok_of (h : Inv s) (hl : s.threads t = l) : Ok l := hl ▸ h.ok t

/-! ### The thread that is inside -/

omit [Fintype T] [DecidableEq T] in
theorem inside_of_eq (hl : s.threads t = l) (h : 0 < inside l) : 0 < inside (s.threads t) := hl ▸ h

theorem Inv.unique (h : Inv s) (ht : 0 < inside (s.threads t)) (hu : 0 < inside (s.threads u)) :
    t = u := by
  have htoken := h.token
  have hone : tokens s.lockCount ≤ 1 := by
    unfold tokens
    split_ifs <;> omega
  exact eq_of_total_le_one (by omega) ht hu

theorem inside_of_pos (h : 0 < l.depth) : 0 < inside l := by
  rw [inside, if_pos (.inl h)]
  exact Nat.one_pos

theorem Owns.inside (h : Owns l) : 0 < inside l := inside_of_pos h.1

theorem recursions_of_inside (h : Ok l) (hout : inside l = 0) : recursions l = 0 := by
  obtain ⟨pc, depth⟩ := l
  cases pc <;> simp_all [Synch.inside, recursions, Ok]

theorem Inv.recursionCount_eq (h : Inv s) (ht : 0 < inside (s.threads t)) :
    s.recursionCount = recursions (s.threads t) := by
  rw [h.recs, total_eq_of_others]
  intro u hu
  apply recursions_of_inside (h.ok u)
  by_contra hpos
  exact hu (h.unique (Nat.pos_of_ne_zero hpos) ht)

omit [DecidableEq T] in
/-- A section is not free while a thread counts as an entry. -/
theorem Inv.lockCount_nonneg (h : Inv s) (ht : 0 < entries (s.threads t)) : 0 ≤ s.lockCount := by
  have hle := le_total entries s.threads t
  have hlocks := h.locks
  omega

omit [DecidableEq T] in
theorem Inv.entries_eq_zero (h : Inv s) (hfree : s.lockCount = -1) (t : T) :
    entries (s.threads t) = 0 := by
  have hle := le_total entries s.threads t
  have hlocks := h.locks
  omega

/-- The counters do not wrap. -/
structure Few (s : Critical T) : Prop where
  lock_succ : long (s.lockCount + 1) = s.lockCount + 1
  lock_pred : long (s.lockCount - 1) = s.lockCount - 1
  recursion_succ : long (s.recursionCount + 1) = s.recursionCount + 1
  recursion_pred : long (s.recursionCount - 1) = s.recursionCount - 1

theorem recursions_le (l : Local) : recursions l ≤ entries l + 1 := by
  obtain ⟨pc, depth⟩ := l
  cases pc <;> simp [recursions, entries] <;> omega

/-- `RecursionCount` is not more than the number of the entries, and one. -/
theorem Inv.recursionCount_le (h : Inv s) :
    0 ≤ s.recursionCount ∧ s.recursionCount ≤ total entries s.threads + 1 := by
  by_cases hin : ∃ t, 0 < inside (s.threads t)
  · obtain ⟨t, ht⟩ := hin
    have hcount := h.recursionCount_eq ht
    have hle := recursions_le (s.threads t)
    have htotal := le_total entries s.threads t
    omega
  · have hzero : total recursions s.threads = 0 := total_eq_zero fun t =>
      recursions_of_inside (h.ok t) (Nat.eq_zero_of_not_pos fun ht => hin ⟨t, ht⟩)
    have hcount := h.recs
    omega

theorem Inv.few (h : Inv s) (hfew : total entries s.threads < 2 ^ 31 - 2) : Few s := by
  have hlocks := h.locks
  have hcount := h.recursionCount_le
  have hlong {n : ℤ} (hle : -2 ^ 31 ≤ n) (hlt : n < 2 ^ 31) : long n = n := Int.bmod_eq_of_le hle hlt
  exact ⟨hlong (by omega) (by omega), hlong (by omega) (by omega), hlong (by omega) (by omega),
    hlong (by omega) (by omega)⟩

/-! ### The accesses -/

/-- A step that changes the place of a thread only. -/
theorem Inv.goto (h : Inv s) {pc pc' : Pc} (hl : s.threads t = ⟨pc, d⟩) (hok : Ok ⟨pc', d⟩)
    (hentries : entries ⟨pc', d⟩ = entries ⟨pc, d⟩)
    (hrecursions : recursions ⟨pc', d⟩ = recursions ⟨pc, d⟩)
    (hinside : inside ⟨pc', d⟩ = inside ⟨pc, d⟩) (howns : Owns ⟨pc', d⟩ ↔ Owns ⟨pc, d⟩) :
    Inv (s.goto t pc') := by
  simp only [Critical.goto, hl]
  exact h.move hl hok (by rw [hentries]) (by rw [hrecursions]) (by rw [hinside])
    (owner_update h.owner hl howns)

/-- `InterlockedCompareExchange` that finds the section free. -/
theorem Inv.acquire (h : Inv s) (hl : s.threads t = l) (hfree : s.lockCount = -1)
    (hentries : entries l = l.depth) (hrecursions : recursions l = l.depth)
    (hpc : l.pc ≠ .setRecursion ∧ l.pc ≠ .setOwner) :
    Inv ({ s with lockCount := 0 }.goto t .setRecursion) := by
  have hdepth : l.depth = 0 := by
    rw [← hentries, ← hl]
    exact h.entries_eq_zero hfree t
  have hout : inside l = 0 := by simp [inside, hdepth, hpc]
  have hlock : (0 : ℤ) + entries l = s.lockCount + entries ⟨.setRecursion, l.depth⟩ := by
    rw [hentries, hfree, hdepth]
    rfl
  have htoken : inside ⟨.setRecursion, l.depth⟩ + s.lockSemaphore + tokens s.lockCount =
      inside l + s.lockSemaphore + tokens 0 := by
    rw [hout, hfree, hdepth]
    simp [inside, tokens]
    omega
  have hok : Ok ⟨.setRecursion, l.depth⟩ := hdepth
  simp only [Critical.goto, hl]
  exact h.move hl hok hlock (by rw [hrecursions]; rfl) htoken
    (owner_update h.owner hl (by simp [Owns, hdepth]))

/-- `InterlockedIncrement` in `EnterCriticalSection`: the first to enter gets the token. -/
theorem Inv.increment (h : Inv s) (hfew : Few s) (hl : s.threads t = ⟨.increment, d⟩)
    (hstep : s.advance t .increment = some s') : Inv s' := by
  simp only [Critical.advance, hfew.lock_succ] at hstep
  cases hstep
  simp only [Critical.goto, hl]
  have hle := h.locks
  split_ifs with hlocked
  · refine h.move hl trivial (by simp [entries]; omega) rfl ?_
      (owner_update h.owner hl (by simp [Owns]))
    have hne : s.lockCount ≠ -1 := by omega
    have hne' : s.lockCount + 1 ≠ -1 := by omega
    simp [inside, tokens, hne, hne']
  · have hfree : s.lockCount = -1 := by omega
    have hdepth : d = 0 := by
      have hzero := h.entries_eq_zero hfree t
      rwa [hl] at hzero
    refine h.move hl hdepth (by simp [entries]; omega) rfl ?_
      (owner_update h.owner hl (by simp [Owns]))
    simp [inside, tokens, hfree, hdepth]
    omega

/-- `OwningThread = GetCurrentThreadId()`: nobody else owns the section. -/
theorem Inv.setOwner (h : Inv s) (hl : s.threads t = ⟨.setOwner, d⟩)
    (hstep : s.advance t .setOwner = some s') : Inv s' := by
  have hok := h.ok_of hl
  have hinside := inside_of_eq hl
  cases hstep
  have hdepth : d = 0 := hok
  simp only [Critical.return]
  refine h.move hl trivial (by simp [entries, hdepth]) (by simp [recursions, hdepth])
    (by simp [inside]) ?_
  intro u
  by_cases hu : u = t
  · simp [hu, Owns]
  · rw [Function.update_of_ne hu]
    have hout : ¬ Owns (s.threads u) := by
      intro howns
      exact hu (h.unique howns.inside (hinside (by simp [inside])))
    simp [hout, Ne.symm hu]

/-- `--RecursionCount < 1` holds for the last entry of the thread. -/
theorem Inv.leave (h : Inv s) (hfew : Few s) (hl : s.threads t = ⟨.leave, d⟩)
    (hstep : s.advance t .leave = some s') : Inv s' := by
  have hok := h.ok_of hl
  have hinside := inside_of_eq hl
  simp only [Critical.advance, hfew.recursion_pred] at hstep
  cases hstep
  have hpos : 0 < d := hok
  have hcount := h.recursionCount_eq (hinside (inside_of_pos hpos))
  rw [hl] at hcount
  have hcount' : s.recursionCount = d := hcount
  simp only [Critical.goto, hl]
  split_ifs with hlast
  · have hdepth : d = 1 := by omega
    exact h.move hl hdepth rfl (by simp [recursions]; omega) (by simp [inside])
      (owner_update h.owner hl (by simp [Owns]))
  · have hdepth : 2 ≤ d := by omega
    exact h.move hl hdepth rfl (by simp [recursions]; omega) (by simp [inside])
      (owner_update h.owner hl (by simp [Owns]))

/-- `OwningThread = NULL`. -/
theorem Inv.clearOwner (h : Inv s) (hl : s.threads t = ⟨.clearOwner, d⟩)
    (hstep : s.advance t .clearOwner = some s') : Inv s' := by
  have hok := h.ok_of hl
  have hinside := inside_of_eq hl
  cases hstep
  have hdepth : d = 1 := hok
  simp only [Critical.goto, hl]
  refine h.move hl hok rfl rfl (by simp [inside]) ?_
  intro u
  by_cases hu : u = t
  · simp [hu, Owns]
  · rw [Function.update_of_ne hu]
    have hout : ¬ Owns (s.threads u) := by
      intro howns
      exact hu (h.unique howns.inside (hinside (by simp [inside, hdepth])))
    simp [hout]

/-- `InterlockedDecrement` behind the last entry: the token is kept for a thread that waits. -/
theorem Inv.decrement (h : Inv s) (hfew : Few s) (hl : s.threads t = ⟨.decrement, d⟩)
    (hstep : s.advance t .decrement = some s') : Inv s' := by
  have hok := h.ok_of hl
  simp only [Critical.advance, hfew.lock_pred] at hstep
  have hdepth : d = 1 := hok
  have hlock := h.lockCount_nonneg (t := t) (by rw [hl]; simp [entries, hdepth])
  split_ifs at hstep with hwaiting
  · cases hstep
    simp only [Critical.goto, hl]
    refine h.move hl hok (by simp [entries, hdepth]) rfl ?_
      (owner_update h.owner hl (by simp [Owns]))
    have hne : s.lockCount ≠ -1 := by omega
    have hne' : s.lockCount - 1 ≠ -1 := by omega
    simp [inside, tokens, hne, hne']
  · cases hstep
    simp only [Critical.return, hl]
    refine h.move hl trivial (by simp [entries, hdepth]) (by simp [recursions, hdepth]) ?_
      (owner_update h.owner hl (by simp [Owns, hdepth]))
    have hne : s.lockCount ≠ -1 := by omega
    have hfree : s.lockCount - 1 = -1 := by omega
    simp [inside, tokens, hne, hfree, hdepth]
    omega

theorem Inv.decrementRecursion (h : Inv s) (hfew : Few s) (hl : s.threads t = ⟨.decrementRecursion, d⟩)
    (hstep : s.advance t .decrementRecursion = some s') : Inv s' := by
  have hok := h.ok_of hl
  simp only [Critical.advance, hfew.lock_pred] at hstep
  cases hstep
  have hdepth : 2 ≤ d := hok
  have hlock := h.locks
  have hle := le_total entries s.threads t
  rw [hl] at hle
  have hle' : d ≤ total entries s.threads := hle
  simp only [Critical.return, hl]
  refine h.move hl trivial (by simp [entries]; omega) (by simp [recursions]) ?_
    (owner_update h.owner hl (by simp [Owns]; omega))
  have hne : s.lockCount ≠ -1 := by omega
  have hne' : s.lockCount - 1 ≠ -1 := by omega
  have hpos : 0 < d - 1 := by omega
  have hpos' : 0 < d := by omega
  simp [inside, tokens, hne, hne', hpos, hpos']

/-- Each access keeps the invariant. -/
theorem Inv.advance (h : Inv s) (hfew : Few s) {pc : Pc} (hl : s.threads t = ⟨pc, d⟩)
    (hstep : s.advance t pc = some s') : Inv s' := by
  have hok := h.ok_of hl
  have howner : s.owningThread = some t ↔ Owns ⟨pc, d⟩ := by
    rw [← hl]
    exact h.owner t
  have hinside := inside_of_eq hl
  cases pc with
  | out => cases hstep
  | tryExchange spin =>
    simp only [Critical.advance] at hstep
    split_ifs at hstep with hfree
    · cases hstep
      exact h.acquire hl hfree rfl rfl (by simp)
    · cases hstep
      exact h.goto hl trivial rfl rfl (by simp [inside]) (by simp [Owns])
  | tryCompare spin =>
    simp only [Critical.advance] at hstep
    split_ifs at hstep with howns
    · cases hstep
      exact h.goto hl (howner.1 howns).1 rfl rfl (by simp [inside]) (by simp [Owns])
    · cases spin with
      | none =>
        cases hstep
        simp only [Critical.return, hl]
        exact h.move hl trivial rfl rfl (by simp [inside]) (owner_update h.owner hl (by simp [Owns]))
      | some n =>
        cases hstep
        exact h.goto hl trivial rfl rfl (by simp [inside]) (by simp [Owns])
  | tryRecurse =>
    simp only [Critical.advance, hfew.recursion_succ] at hstep
    cases hstep
    simp only [Critical.goto, hl]
    exact h.move hl hok rfl (by simp [recursions]; omega) (by simp [inside])
      (owner_update h.owner hl (by simp [Owns]))
  | tryIncrement =>
    simp only [Critical.advance, hfew.lock_succ] at hstep
    cases hstep
    have hpos : 0 < d := hok
    have hlock := h.lockCount_nonneg (t := t) (by rw [hl]; exact hpos)
    have hne : s.lockCount ≠ -1 := by omega
    have hne' : s.lockCount + 1 ≠ -1 := by omega
    simp only [Critical.return, hl]
    exact h.move hl trivial (by simp [entries]; omega) rfl
      (by simp [inside, hpos, tokens, hne, hne']) (owner_update h.owner hl (by simp [Owns, hpos]))
  | spin n =>
    cases n with
    | zero =>
      cases hstep
      exact h.goto hl trivial rfl rfl (by simp [inside]) (by simp [Owns])
    | succ n =>
      simp only [Critical.advance] at hstep
      cases hstep
      split_ifs
      · exact h.goto hl trivial rfl rfl (by simp [inside]) (by simp [Owns])
      · exact h.goto hl trivial rfl rfl (by simp [inside]) (by simp [Owns])
  | spinExchange n =>
    simp only [Critical.advance] at hstep
    split_ifs at hstep with hfree
    · cases hstep
      exact h.acquire hl hfree rfl rfl (by simp)
    · cases hstep
      exact h.goto hl trivial rfl rfl (by simp [inside]) (by simp [Owns])
  | increment => exact h.increment hfew hl hstep
  | compare =>
    simp only [Critical.advance] at hstep
    cases hstep
    split_ifs with howns
    · exact h.goto hl (howner.1 howns).1 rfl rfl (by simp [inside]) (by simp [Owns])
    · have hdepth : d = 0 := by
        by_contra hpos
        exact howns (howner.2 ⟨Nat.pos_of_ne_zero hpos, by simp, by simp⟩)
      exact h.goto hl hdepth rfl rfl (by simp [inside]) (by simp [Owns])
  | recurse =>
    simp only [Critical.advance, hfew.recursion_succ] at hstep
    cases hstep
    have hpos : 0 < d := hok
    simp only [Critical.return, hl]
    exact h.move hl trivial rfl (by simp [recursions]; omega) (by simp [inside, hpos])
      (owner_update h.owner hl (by simp [Owns, hpos]))
  | wait =>
    simp only [Critical.advance] at hstep
    split_ifs at hstep with hsem
    · cases hstep
      have hdepth : d = 0 := hok
      simp only [Critical.goto, hl]
      refine h.move hl hok rfl rfl ?_ (owner_update h.owner hl (by simp [Owns]))
      simp [inside, hdepth]
      omega
  | setRecursion =>
    cases hstep
    have hdepth : d = 0 := hok
    have hcount := h.recursionCount_eq (hinside (by simp [inside]))
    rw [hl] at hcount
    simp only [Critical.goto, hl]
    refine h.move hl hok rfl ?_ (by simp [inside]) (owner_update h.owner hl (by simp [Owns]))
    simp only [recursions, hdepth] at hcount ⊢
    omega
  | setOwner => exact h.setOwner hl hstep
  | leave => exact h.leave hfew hl hstep
  | clearOwner => exact h.clearOwner hl hstep
  | decrement => exact h.decrement hfew hl hstep
  | post =>
    cases hstep
    have hdepth : d = 1 := hok
    simp only [Critical.return, hl]
    refine h.move hl trivial (by simp [entries, hdepth]) (by simp [recursions, hdepth]) ?_
      (owner_update h.owner hl (by simp [Owns, hdepth]))
    simp [inside, hdepth]
    omega
  | decrementRecursion => exact h.decrementRecursion hfew hl hstep

/-- No signal interrupts `sem_wait`, and there are few entries. -/
def Critical.Quiet (s : Critical T) (a : T × Action) : Prop :=
  a.2 ≠ .interrupt ∧ total entries s.threads < 2 ^ 31 - 2

theorem Inv.step (h : Inv s) {action : Action} (hquiet : s.Quiet (t, action))
    (hstep : s.step t action = some s') : Inv s' := by
  have hl : s.threads t = ⟨(s.threads t).pc, (s.threads t).depth⟩ := rfl
  cases action with
  | interrupt => exact absurd rfl hquiet.1
  | access => exact h.advance (h.few hquiet.2) hl hstep
  | call call =>
    simp only [Critical.step] at hstep
    split_ifs at hstep with hout
    rw [hout] at hl
    cases call with
    | enter =>
      cases hstep
      split_ifs
      · exact h.goto hl trivial rfl rfl (by simp [inside]) (by simp [Owns])
      · exact h.goto hl trivial rfl rfl (by simp [inside]) (by simp [Owns])
    | tryEnter =>
      cases hstep
      exact h.goto hl trivial rfl rfl (by simp [inside]) (by simp [Owns])
    | leave =>
      simp only [Critical.start] at hstep
      split_ifs at hstep with hdepth
      cases hstep
      have hok : Ok ⟨.leave, (s.threads t).depth⟩ := Nat.pos_of_ne_zero hdepth
      exact h.goto hl hok rfl rfl (by simp [inside]) (by simp [Owns])

/-! ### Runs -/

/-- A quiet step of any thread. -/
def Critical.Step (s : Critical T) (a : T × Action) (s' : Critical T) : Prop :=
  s.Quiet a ∧ s.step a.1 a.2 = some s'

instance (s : Critical T) (a : T × Action) : Decidable (s.Quiet a) := inferInstanceAs (Decidable (_ ∧ _))

theorem runs_of_foldlM {as : List (T × Action)}
    (h : as.foldlM (fun s a => if Critical.Quiet s a then s.step a.1 a.2 else none) s = some s') :
    Runs Critical.Step s as s' :=
  (Runs.of_foldlM h).mono fun _ _ _ hstep => Option.ite_none_right_eq_some.mp hstep

theorem inv_of_runs {spinCount : ℕ} {as : List (T × Action)}
    (h : Runs Critical.Step (initializeCriticalSectionEx T spinCount) as s) : Inv s :=
  h.invariant (inv_new spinCount) fun _ _ _ hs hstep => hs.step hstep.1 hstep.2

omit [Fintype T] in
/-- No access changes `SpinCount`, and a thread that is outside writes no field but `LockCount` and the
semaphore, whose operations are atomic. -/
theorem advance_fields {pc : Pc} (hok : Ok ⟨pc, d⟩) (hstep : s.advance t pc = some s') :
    s'.spinCount = s.spinCount ∧ (inside ⟨pc, d⟩ = 0 →
      s'.recursionCount = s.recursionCount ∧ s'.owningThread = s.owningThread) := by
  cases pc with
  | out => cases hstep
  | tryCompare spin =>
    simp only [Critical.advance] at hstep
    split_ifs at hstep
    · cases hstep
      exact ⟨rfl, fun _ => ⟨rfl, rfl⟩⟩
    · cases spin <;> cases hstep <;> exact ⟨rfl, fun _ => ⟨rfl, rfl⟩⟩
  | spin n => cases n <;> cases hstep <;> exact ⟨rfl, fun _ => ⟨rfl, rfl⟩⟩
  | tryExchange | spinExchange | wait | decrement =>
    simp only [Critical.advance] at hstep
    split_ifs at hstep <;> cases hstep <;> exact ⟨rfl, fun _ => ⟨rfl, rfl⟩⟩
  | tryIncrement | increment | compare | post | decrementRecursion =>
    cases hstep
    exact ⟨rfl, fun _ => ⟨rfl, rfl⟩⟩
  | tryRecurse | recurse | leave =>
    cases hstep
    have hpos := inside_of_pos hok
    exact ⟨rfl, fun hout => absurd hout hpos.ne'⟩
  | setRecursion | setOwner =>
    cases hstep
    exact ⟨rfl, fun hout => by simp [inside] at hout⟩
  | clearOwner =>
    cases hstep
    have hdepth : d = 1 := hok
    exact ⟨rfl, fun hout => by simp [inside, hdepth] at hout⟩

omit [Fintype T] in
theorem step_fields {action : Action} (hok : Ok (s.threads t)) (hstep : s.step t action = some s') :
    s'.spinCount = s.spinCount ∧ (inside (s.threads t) = 0 →
      s'.recursionCount = s.recursionCount ∧ s'.owningThread = s.owningThread) := by
  cases action with
  | access => exact advance_fields hok hstep
  | interrupt =>
    simp only [Critical.step] at hstep
    split_ifs at hstep
    cases hstep
    exact ⟨rfl, fun _ => ⟨rfl, rfl⟩⟩
  | call call =>
    simp only [Critical.step] at hstep
    split_ifs at hstep
    cases call with
    | enter | tryEnter =>
      cases hstep
      exact ⟨rfl, fun _ => ⟨rfl, rfl⟩⟩
    | leave =>
      simp only [Critical.start] at hstep
      split_ifs at hstep
      cases hstep
      exact ⟨rfl, fun _ => ⟨rfl, rfl⟩⟩

/-- A section that threads use in any order, in quiet steps: at most one is inside.  The thread that has entered it
and is not in a call is `OwningThread`, and `RecursionCount` is the number of its entries; `LockCount`
is the number of all entries, less one; and nobody else writes `RecursionCount` or `OwningThread`. -/
theorem critical_mutual_exclusion {spinCount : ℕ} {as : List (T × Action)}
    (h : Runs Critical.Step (initializeCriticalSectionEx T spinCount) as s) :
    (∀ t u, 0 < inside (s.threads t) → 0 < inside (s.threads u) → t = u) ∧
    (∀ t, (s.threads t).pc = .out → 0 < (s.threads t).depth →
      s.owningThread = some t ∧ s.recursionCount = (s.threads t).depth) ∧
    s.lockCount + 1 = total entries s.threads ∧
    ∀ t action s', s.step t action = some s' → inside (s.threads t) = 0 →
      s'.recursionCount = s.recursionCount ∧ s'.owningThread = s.owningThread := by
  have hinv := inv_of_runs h
  refine ⟨fun t u => hinv.unique, ?_, hinv.locks, ?_⟩
  · intro t hout hpos
    constructor
    · apply (hinv.owner t).2
      exact ⟨hpos, by simp [hout], by simp [hout]⟩
    · rw [hinv.recursionCount_eq (inside_of_pos hpos), recursions, hout]
  · intro t action s' hstep
    exact (step_fields (hinv.ok t) hstep).2

/-- One thread has entered, and another is about to look who it is. -/
def entering : List (Bool × Action) :=
  [(false, .call .enter), (false, .access), (false, .access), (false, .access), (true, .call .enter),
    (true, .access)]

theorem critical_mutual_exclusion_two : ∃ s : Critical Bool,
    Runs Critical.Step (initializeCriticalSectionEx Bool 0) entering s ∧
    (∀ t u, 0 < inside (s.threads t) → 0 < inside (s.threads u) → t = u) ∧
    (∀ t, (s.threads t).pc = .out → 0 < (s.threads t).depth →
      s.owningThread = some t ∧ s.recursionCount = (s.threads t).depth) ∧
    s.lockCount + 1 = total entries s.threads ∧
    ∀ t action s', s.step t action = some s' → inside (s.threads t) = 0 →
      s'.recursionCount = s.recursionCount ∧ s'.owningThread = s.owningThread := by
  have hrun : Runs Critical.Step (initializeCriticalSectionEx Bool 0) entering _ := runs_of_foldlM rfl
  exact ⟨_, hrun, critical_mutual_exclusion hrun⟩

/-! ### Progress -/

omit [Fintype T] in
theorem advance_isSome {pc : Pc} (hout : pc ≠ .out) (hwait : pc = .wait → 0 < s.lockSemaphore) :
    ∃ s', s.advance t pc = some s' := by
  apply Option.isSome_iff_exists.1
  cases pc with
  | out => exact absurd rfl hout
  | wait => simp [Critical.advance, (hwait rfl).ne']
  | tryCompare spin => cases spin <;> simp only [Critical.advance] <;> split_ifs <;> rfl
  | spin n => cases n <;> rfl
  | tryExchange | spinExchange | decrement =>
    simp only [Critical.advance]
    split_ifs <;> rfl
  | _ => rfl

omit [DecidableEq T] in
/-- While a thread waits, there is a token in the semaphore or a thread that will give one. -/
theorem Inv.token_of_wait (h : Inv s) (ht : (s.threads t).pc = .wait) :
    0 < s.lockSemaphore ∨ ∃ u, 0 < inside (s.threads u) := by
  have hentries : 0 < entries (s.threads t) := by
    rw [entries, ht]
    exact Nat.succ_pos _
  have hlock := h.lockCount_nonneg hentries
  have htoken := h.token
  rw [tokens, if_neg (by omega)] at htoken
  by_cases hsem : 0 < s.lockSemaphore
  · exact .inl hsem
  · exact .inr (exists_of_total_pos (by omega))

/-- A thread in a call, or one that holds the section, has a step. -/
theorem Inv.exists_step (h : Inv s) (ht : (s.threads t).pc ≠ .out) :
    (∃ t s', s.step t .access = some s') ∨
      ∃ t s', (s.threads t).pc = .out ∧ s.step t (.call .leave) = some s' := by
  by_cases hgo : ∃ u, (s.threads u).pc ≠ .out ∧ ((s.threads u).pc = .wait → 0 < s.lockSemaphore)
  · obtain ⟨u, hu, hwait⟩ := hgo
    obtain ⟨s', hs'⟩ := advance_isSome hu hwait
    exact .inl ⟨u, s', hs'⟩
  · -- all threads in a call wait, and the semaphore is empty
    have hall : ∀ u, (s.threads u).pc = .out ∨ (s.threads u).pc = .wait ∧ s.lockSemaphore = 0 := by
      intro u
      by_contra hu
      apply hgo
      refine ⟨u, fun hout => hu (.inl hout), fun hwait => ?_⟩
      by_contra hsem
      exact hu (.inr ⟨hwait, by omega⟩)
    obtain ⟨hwait, hsem⟩ := (hall t).resolve_left ht
    obtain ⟨u, hu⟩ := (h.token_of_wait hwait).resolve_left (by omega)
    have hok := h.ok u
    rcases hall u with hout | ⟨hpc, -⟩
    · have hdepth : (s.threads u).depth ≠ 0 := by
        intro hzero
        simp [inside, hout, hzero] at hu
      refine .inr ⟨u, s.goto u .leave, hout, ?_⟩
      rw [Critical.step, if_pos hout, Critical.start, if_neg hdepth]
    · have hzero : (s.threads u).depth = 0 := by
        rw [Ok, hpc] at hok
        exact hok
      simp [inside, hpc, hzero] at hu

omit [DecidableEq T] in
theorem Inv.eq_initial (h : Inv s) (hall : ∀ t, s.threads t = ⟨.out, 0⟩) :
    s = initializeCriticalSectionEx T s.spinCount := by
  have hzero : ∀ w : Local → ℕ, w ⟨.out, 0⟩ = 0 → total w s.threads = 0 := by
    intro w hw
    apply total_eq_zero
    intro t
    rw [hall t, hw]
  have hlocks := h.locks
  have hrecs := h.recs
  have htoken := h.token
  rw [hzero entries rfl] at hlocks
  rw [hzero recursions rfl] at hrecs
  have hlock : s.lockCount = -1 := by omega
  rw [hzero inside rfl, hlock] at htoken
  have hsem : s.lockSemaphore = 0 := by
    simpa [tokens] using htoken
  have howner : s.owningThread = none := by
    rw [Option.eq_none_iff_forall_ne_some]
    intro t ht
    have howns := (h.owner t).1 ht
    rw [hall t] at howns
    exact Nat.lt_irrefl 0 howns.1
  have hthreads : s.threads = fun _ => ⟨.out, 0⟩ := funext hall
  obtain ⟨lockCount, spin, recursionCount, owner, sem, threads⟩ := s
  simp only at hlock hrecs howner hsem hthreads
  rw [hlock, hrecs, howner, hsem, hthreads]
  rfl

/-- No wakeup is lost, in any order of quiet steps: while some thread is in a call, a thread in a call
can go on or a thread outside of the calls holds the section and can leave it.  Once all entries
have been left, the section is as it was initialized. -/
theorem critical_progress {spinCount : ℕ} {as : List (T × Action)}
    (h : Runs Critical.Step (initializeCriticalSectionEx T spinCount) as s) :
    ((∃ t, (s.threads t).pc ≠ .out) → (∃ t s', s.step t .access = some s') ∨
      ∃ t s', (s.threads t).pc = .out ∧ s.step t (.call .leave) = some s') ∧
    ((∀ t, s.threads t = ⟨.out, 0⟩) → s = initializeCriticalSectionEx T spinCount) := by
  have hinv := inv_of_runs h
  have hspin : s.spinCount = spinCount := by
    refine (h.invariant (I := fun s => Inv s ∧ s.spinCount = spinCount) ⟨inv_new spinCount, rfl⟩ ?_).2
    rintro s a s' ⟨hs, hspin⟩ hstep
    exact ⟨hs.step hstep.1 hstep.2, (step_fields (hs.ok a.1) hstep.2).1.trans hspin⟩
  exact ⟨fun ⟨_, ht⟩ => hinv.exists_step ht, fun hall => hspin ▸ hinv.eq_initial hall⟩

/-- The other thread waits, and the section is about to be left. -/
theorem critical_progress_two : ∃ s : Critical Bool,
    Runs Critical.Step (initializeCriticalSectionEx Bool 0) (entering ++ [(true, .access)]) s ∧
    ((∃ t, (s.threads t).pc ≠ .out) → (∃ t s', s.step t .access = some s') ∨
      ∃ t s', (s.threads t).pc = .out ∧ s.step t (.call .leave) = some s') ∧
    ((∀ t, s.threads t = ⟨.out, 0⟩) → s = initializeCriticalSectionEx Bool 0) := by
  have hrun : Runs Critical.Step (initializeCriticalSectionEx Bool 0) (entering ++ [(true, .access)]) _ :=
    runs_of_foldlM rfl
  exact ⟨_, hrun, critical_progress hrun⟩

end FreeRDP.Synch
