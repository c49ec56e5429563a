import Mathlib.Data.List.Basic

/-!
# Two programs that talk to each other

A program takes the messages of the other one in the order in which they were sent, and each message has it
send some more.  `Delivers f g` is a delivery to one side, and `Talks f g n` a run of `n` deliveries in any
order.

A delivery to one side does not disturb one to the other (`Delivers.swap`).  So one run that comes to an end
with no message left on its way says what every run does (`Talks.every`): no message is refused, there are
no more deliveries than in that run, and a run that has no message left is in the same state.
-/

/-- The states of both programs, and the messages on their way. -/
structure Dialogue (σ τ α β : Type*) where
  left : σ
  right : τ
  toLeft : List α
  toRight : List β

namespace Dialogue

variable {σ τ α β : Type*} {f : σ → α → Option (σ × List β)} {g : τ → β → Option (τ × List α)}
  {c d e : Dialogue σ τ α β} {onLeft : Bool} {m n : ℕ}

/-- A message is on its way to the side. -/
def Pending (d : Dialogue σ τ α β) (onLeft : Bool) : Prop :=
  if onLeft then d.toLeft ≠ [] else d.toRight ≠ []

/-- No message is on its way. -/
def Quiet (d : Dialogue σ τ α β) : Prop := ∀ onLeft, ¬d.Pending onLeft

/-- The next message is delivered to the side, which takes it. -/
inductive Delivers (f : σ → α → Option (σ × List β)) (g : τ → β → Option (τ × List α)) :
    Bool → Dialogue σ τ α β → Dialogue σ τ α β → Prop
  | left {l l' : σ} {r : τ} {a : α} {as : List α} {bs out : List β} (h : f l a = some (l', out)) :
    Delivers f g true ⟨l, r, a :: as, bs⟩ ⟨l', r, as, bs ++ out⟩
  | right {l : σ} {r r' : τ} {b : β} {as out : List α} {bs : List β} (h : g r b = some (r', out)) :
    Delivers f g false ⟨l, r, as, b :: bs⟩ ⟨l, r', as ++ out, bs⟩

/-- That many deliveries lead from one state to the other. -/
inductive Talks (f : σ → α → Option (σ × List β)) (g : τ → β → Option (τ × List α)) :
    ℕ → Dialogue σ τ α β → Dialogue σ τ α β → Prop
  | nil (d : Dialogue σ τ α β) : Talks f g 0 d d
  | cons {c d e : Dialogue σ τ α β} {onLeft : Bool} {n : ℕ} (h : Delivers f g onLeft c d)
    (ht : Talks f g n d e) : Talks f g (n + 1) c e

theorem quiet_iff : d.Quiet ↔ d.toLeft = [] ∧ d.toRight = [] := by
  constructor
  · intro h
    exact ⟨of_not_not (h true), of_not_not (h false)⟩
  · rintro ⟨hleft, hright⟩ (_ | _)
    · exact fun h => h hright
    · exact fun h => h hleft

theorem Delivers.pending (h : Delivers f g onLeft d e) : d.Pending onLeft := by
  cases h <;> exact List.cons_ne_nil _ _

theorem Delivers.unique (h : Delivers f g onLeft c d) (h' : Delivers f g onLeft c e) : d = e := by
  cases h with
  | left h =>
    cases h' with
    | left h' =>
      cases h.symm.trans h'
      rfl
  | right h =>
    cases h' with
    | right h' =>
      cases h.symm.trans h'
      rfl

/-- A delivery to the other side takes no message away. -/
theorem Delivers.pending_other (h : Delivers f g (!onLeft) c d) (hp : c.Pending onLeft) :
    d.Pending onLeft := by
  cases onLeft with
  | true =>
    cases h
    exact fun hnil => hp (List.append_eq_nil_iff.mp hnil).1
  | false =>
    cases h
    exact fun hnil => hp (List.append_eq_nil_iff.mp hnil).1

/-- Of two deliveries to different sides, the second can be made first if its message is there. -/
theorem Delivers.swap (h : Delivers f g (!onLeft) c d) (h' : Delivers f g onLeft d e)
    (hp : c.Pending onLeft) : ∃ d', Delivers f g onLeft c d' ∧ Delivers f g (!onLeft) d' e := by
  obtain ⟨l, r, as, bs⟩ := c
  cases onLeft with
  | true =>
    obtain ⟨a, as, rfl⟩ := List.exists_cons_of_ne_nil hp
    cases h with
    | right h =>
      cases h' with
      | left h' =>
        refine ⟨_, .left h', ?_⟩
        exact Delivers.right h
  | false =>
    obtain ⟨b, bs, rfl⟩ := List.exists_cons_of_ne_nil hp
    cases h with
    | left h =>
      cases h' with
      | right h' =>
        refine ⟨_, .right h', ?_⟩
        exact Delivers.left h

/-- A message that is there is taken at some time, and so it can be taken at once. -/
theorem Talks.exists_delivers (h : Talks f g n c e) (he : e.Quiet) (hp : c.Pending onLeft) :
    ∃ m d, n = m + 1 ∧ Delivers f g onLeft c d ∧ Talks f g m d e := by
  induction h with
  | nil d => exact absurd hp (he onLeft)
  | @cons c d e side n hfirst htail ih =>
    obtain rfl | hne := eq_or_ne side onLeft
    · exact ⟨n, d, rfl, hfirst, htail⟩
    · obtain rfl : side = !onLeft := Bool.eq_not_of_ne hne
      obtain ⟨m, d', rfl, hnext, hrest⟩ := ih he (hfirst.pending_other hp)
      obtain ⟨c', hc', hd'⟩ := hfirst.swap hnext hp
      exact ⟨m + 1, c', rfl, hc', hrest.cons hd'⟩

/-- Whatever has been delivered, what is left of the run that ends leads to its end. -/
theorem Talks.rest (h : Talks f g n c e) (he : e.Quiet) (h' : Talks f g m c d) :
    ∃ k, n = m + k ∧ Talks f g k d e := by
  induction h' generalizing n with
  | nil d => exact ⟨n, (Nat.zero_add n).symm, h⟩
  | @cons c d _ onLeft m hfirst _ ih =>
    obtain ⟨n, d', rfl, hd', hrest⟩ := h.exists_delivers he hfirst.pending
    cases hfirst.unique hd'
    obtain ⟨k, rfl, hk⟩ := ih hrest
    exact ⟨k, by omega, hk⟩

/-- What one run that ends says about every run. -/
theorem Talks.every (h : Talks f g n c e) (he : e.Quiet) (h' : Talks f g m c d) :
    m ≤ n ∧ (∀ onLeft, d.Pending onLeft → ∃ d', Delivers f g onLeft d d') ∧ (d.Quiet → d = e) := by
  obtain ⟨k, rfl, hk⟩ := h.rest he h'
  refine ⟨Nat.le_add_right m k, ?_, ?_⟩
  · intro onLeft hp
    obtain ⟨_, d', _, hd', _⟩ := hk.exists_delivers he hp
    exact ⟨d', hd'⟩
  · intro hd
    cases hk with
    | nil => rfl
    | cons hfirst _ => exact absurd hfirst.pending (hd _)

theorem Talks.trans (h : Talks f g m c d) (h' : Talks f g n d e) : Talks f g (m + n) c e := by
  induction h with
  | nil d => rwa [Nat.zero_add]
  | @cons c d _ onLeft m hfirst _ ih =>
    rw [Nat.add_right_comm]
    exact (ih h').cons hfirst

/-- The next message is delivered to the left side, if it takes one, and otherwise to the right. -/
def deliver (f : σ → α → Option (σ × List β)) (g : τ → β → Option (τ × List α)) :
    Dialogue σ τ α β → Option (Dialogue σ τ α β)
  | ⟨l, r, a :: as, bs⟩ => (f l a).map fun p => ⟨p.1, r, as, bs ++ p.2⟩
  | ⟨l, r, [], b :: bs⟩ => (g r b).map fun p => ⟨l, p.1, p.2, bs⟩
  | _ => none

/-- A run of `deliver`. -/
def settle (f : σ → α → Option (σ × List β)) (g : τ → β → Option (τ × List α)) :
    ℕ → Dialogue σ τ α β → Dialogue σ τ α β
  | 0, d => d
  | n + 1, d => ((deliver f g d).map (settle f g n)).getD d

theorem exists_delivers_of_deliver (h : deliver f g d = some e) : ∃ onLeft, Delivers f g onLeft d e := by
  obtain ⟨l, r, _ | ⟨a, as⟩, _ | ⟨b, bs⟩⟩ := d
  · cases h
  · obtain ⟨p, hp, rfl⟩ := Option.map_eq_some_iff.mp h
    exact ⟨false, Delivers.right hp⟩
  · obtain ⟨p, hp, rfl⟩ := Option.map_eq_some_iff.mp h
    exact ⟨true, Delivers.left hp⟩
  · obtain ⟨p, hp, rfl⟩ := Option.map_eq_some_iff.mp h
    exact ⟨true, Delivers.left hp⟩

theorem exists_talks_of_settle (h : settle f g n d = e) : ∃ m, Talks f g m d e := by
  subst h
  induction n generalizing d with
  | zero => exact ⟨0, .nil d⟩
  | succ n ih =>
    cases h : deliver f g d with
    | none => exact ⟨0, by simpa [settle, h] using Talks.nil d⟩
    | some e =>
      obtain ⟨onLeft, hfirst⟩ := exists_delivers_of_deliver h
      obtain ⟨m, hm⟩ := ih (d := e)
      exact ⟨m + 1, by simpa [settle, h] using hm.cons hfirst⟩

end Dialogue
