import FreeRDP.Lib.Wire

/-!
# Reading at a position

A reader that has come to the position `k` of a list `s` goes on with `s.drop k`.  The rules below say
what it reads there and where it stops, so that a reader with enough bytes is evaluated step by step.
-/

namespace Wire

variable {s : List UInt8} {k n : ℕ}

def byteAt (s : List UInt8) (k : ℕ) : ℕ := (s.getD k 0).toNat

/-- The two bytes at a position, the lower one first. -/
def u16At (s : List UInt8) (k : ℕ) : ℕ := byteAt s k + 2 ^ 8 * byteAt s (k + 1)

/-- The four bytes at a position, the lowest one first. -/
def u32At (s : List UInt8) (k : ℕ) : ℕ := u16At s k + 2 ^ 16 * u16At s (k + 2)

theorem u8_drop (h : k + 1 ≤ s.length) : u8 (s.drop k) = some (byteAt s k, s.drop (k + 1)) := by
  rw [List.drop_eq_getElem_cons h, byteAt, List.getD_eq_getElem _ _ h]
  rfl

theorem u16le_drop (h : k + 2 ≤ s.length) :
    u16le (s.drop k) = some (u16At s k, s.drop (k + 2)) := by
  rw [u16le, bind_apply, u8_drop (by omega), Option.bind_some, bind_apply, u8_drop (by omega)]
  rfl

theorem u16le_drop_of_lt (hk : k ≤ s.length) (h : s.length < k + 2) : u16le (s.drop k) = none := by
  rcases Nat.lt_or_eq_of_le hk with hlt | rfl
  · rw [u16le, bind_apply, u8_drop hlt, Option.bind_some, bind_apply,
      List.drop_eq_nil_of_le (by omega)]
    rfl
  · rw [List.drop_length]
    rfl

theorem u32le_drop (h : k + 4 ≤ s.length) :
    u32le (s.drop k) = some (u32At s k, s.drop (k + 4)) := by
  rw [u32le, bind_apply, u16le_drop (by omega), Option.bind_some, bind_apply, u16le_drop (by omega)]
  rfl

theorem seek_drop (h : k + n ≤ s.length) : seek n (s.drop k) = some ((), s.drop (k + n)) := by
  rw [seek, if_pos (by rw [List.length_drop]; omega), List.drop_drop]

theorem seek_drop_of_lt (hk : k ≤ s.length) (h : s.length < k + n) : seek n (s.drop k) = none :=
  if_neg (by rw [List.length_drop]; omega)

theorem need_drop (h : k + n ≤ s.length) : need n (s.drop k) = some ((), s.drop k) :=
  if_pos (by rw [List.length_drop]; omega)

theorem need_drop_of_lt (hk : k ≤ s.length) (h : s.length < k + n) : need n (s.drop k) = none :=
  if_neg (by rw [List.length_drop]; omega)

/-- A check at the beginning decides whether the reader goes on. -/
theorem need_bind {α : Type} (n : ℕ) (x : Unit → Reader α) (s : List UInt8) :
    (need n >>= x) s = if n ≤ s.length then x () (s.drop 0) else none := by
  rw [bind_apply, need]
  split_ifs <;> rfl

theorem need_drop_bind {α : Type} (n : ℕ) (x : Unit → Reader α) (hk : k ≤ s.length) :
    (need n >>= x) (s.drop k) = if k + n ≤ s.length then x () (s.drop k) else none := by
  rw [bind_apply]
  split_ifs with h
  · rw [need_drop h, Option.bind_some]
  · rw [need_drop_of_lt hk (by omega), Option.bind_none]

/-- A check of what has been read decides whether the reader goes on. -/
theorem check_bind {α : Type} (c : Prop) [Decidable c] (x : Unit → Reader α) (s : List UInt8) :
    (check c >>= x) s = if c then x () s else none := by
  rw [bind_apply, check]
  split_ifs <;> rfl

theorem many_u16le_drop (h : k + n * 2 ≤ s.length) : many u16le n (s.drop k) =
    some ((List.range n).map (fun i => u16At s (k + 2 * i)), s.drop (k + n * 2)) := by
  induction n generalizing k with
  | zero => rfl
  | succ n ih =>
    rw [many, bind_apply, u16le_drop (by omega), Option.bind_some, bind_apply, ih (by omega),
      Option.bind_some, List.range_succ_eq_map, List.map_cons, List.map_map,
      show k + (n + 1) * 2 = k + 2 + n * 2 by omega]
    refine congrArg (fun l => some (u16At s k :: l, s.drop (k + 2 + n * 2)))
      (List.map_congr_left fun i _ => ?_)
    show u16At s (k + 2 + 2 * i) = u16At s (k + 2 * (i + 1))
    rw [Nat.add_assoc, Nat.mul_add_one, Nat.add_comm 2]

end Wire

/-!
## Readers that say where they stop

A `Reader` that fails says nothing about the bytes that it has consumed before.  A `StreamReader` does: it
gives the stream behind them, whether it succeeds or not.  `Follows r x` says that `x` reads what `r` reads
and goes forward only; the rules below follow the shape of a reader.
-/

namespace Wire

/-- A reader of bytes that leaves the stream where it has stopped. -/
def StreamReader (α : Type) : Type := List UInt8 → Option α × List UInt8

instance : Monad StreamReader where
  pure a := fun s => (some a, s)
  bind x f := fun s =>
    match x s with
    | (some a, s') => f a s'
    | (none, s') => (none, s')

/-- A reader that consumes nothing if it fails. -/
def step {α : Type} (r : Reader α) : StreamReader α := fun s =>
  match r s with
  | some (a, s') => (some a, s')
  | none => (none, s)

instance : MonadLift Reader StreamReader := ⟨step⟩

variable {α β : Type} {r : Reader α} {x : StreamReader α} {g : α → Reader β} {f : α → StreamReader β}

namespace StreamReader

theorem bind_apply (x : StreamReader α) (f : α → StreamReader β) (s : List UInt8) :
    (x >>= f) s = (x s).1.elim (none, (x s).2) fun a => f a (x s).2 := by
  simp only [Bind.bind]
  rcases x s with ⟨_ | a, s'⟩ <;> rfl

end StreamReader

/-- `x` reads what `r` reads, and goes forward. -/
structure Follows (r : Reader α) (x : StreamReader α) : Prop where
  eq (s : List UInt8) : r s = (x s).1.map fun a => (a, (x s).2)
  suffix (s : List UInt8) : (x s).2 <:+ s

namespace Follows

theorem pure (a : α) : Follows (Pure.pure a) (Pure.pure a) := ⟨fun _ => rfl, List.suffix_refl⟩

theorem step (h : Advances r) : Follows r (step r) := by
  constructor
  · intro s
    unfold Wire.step
    cases r s <;> rfl
  · intro s
    unfold Wire.step
    cases hr : r s with
    | none => exact List.suffix_refl s
    | some p => exact h s p.1 p.2 hr

theorem bind (hr : Follows r x) (hg : ∀ a, Follows (g a) (f a)) : Follows (r >>= g) (x >>= f) := by
  constructor
  · intro s
    rw [bind_apply, hr.eq, StreamReader.bind_apply]
    cases (x s).1 with
    | none => rfl
    | some a => exact (hg a).eq _
  · intro s
    rw [StreamReader.bind_apply]
    cases (x s).1 with
    | none => exact hr.suffix s
    | some a => exact ((hg a).suffix _).trans (hr.suffix s)

theorem ite {c : Prop} [Decidable c] {r' : Reader α} {x' : StreamReader α} (h : Follows r x)
    (h' : Follows r' x') : Follows (if c then r else r') (if c then x else x') := by
  split
  · exact h
  · exact h'

theorem many (h : Follows r x) (n : ℕ) : Follows (many r n) (Wire.many x n) := by
  induction n with
  | zero => exact pure []
  | succ n ih => exact h.bind fun a => ih.bind fun l => pure (a :: l)

theorem u8 : Follows Wire.u8 (liftM Wire.u8) := step Advances.u8

theorem u16le : Follows Wire.u16le (liftM Wire.u16le) := step Advances.u16le

theorem u32le : Follows Wire.u32le (liftM Wire.u32le) := step Advances.u32le

theorem need (n : ℕ) : Follows (Wire.need n) (liftM (Wire.need n)) := step (Advances.need n)

theorem seek (n : ℕ) : Follows (Wire.seek n) (liftM (Wire.seek n)) := step (Advances.seek n)

theorem bytes (n : ℕ) : Follows (Wire.bytes n) (liftM (Wire.bytes n)) := step (Advances.bytes n)

theorem check (c : Prop) [Decidable c] : Follows (Wire.check c) (liftM (Wire.check c)) :=
  step (Advances.check c)

theorem ofOption (o : Option α) :
    Follows (fun s => o.map (·, s)) (Wire.step fun s => o.map (·, s)) := step (Advances.ofOption o)

end Follows

end Wire
