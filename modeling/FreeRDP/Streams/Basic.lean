import FreeRDP.Channels.Basic
import FreeRDP.Lib.Iterate

/-!
# Streams

The part of `wStream` that makes room: `Stream_EnsureCapacity` doubles the capacity until it is enough
and moves the bytes to a new buffer, which the stream then owns.

The bytes behind `buffer` are a list, whose length is `capacity`; `pointer` is its offset.  `memory` is
whether the allocator finds memory.  The loop that doubles is `iterate` of its body, and a call is `none`
while the loop is running.
-/

namespace FreeRDP.Streams

open Iterate

/-- `struct _wStream`. -/
@[ext]
structure WStream where
  buffer : List UInt8
  position : ℕ
  length : ℕ
  isOwner : Bool
  position_le : position ≤ length
  length_le : length ≤ buffer.length
deriving Repr

instance : DecidableEq WStream := fun s t =>
  decidable_of_iff (s.buffer = t.buffer ∧ s.position = t.position ∧ s.length = t.length ∧
    s.isOwner = t.isOwner) WStream.ext_iff.symm

/-- A number as a `size_t`. -/
def toSize (n : ℕ) : ℕ := n % 2 ^ 64

namespace WStream

def capacity (s : WStream) : ℕ := s.buffer.length

theorem position_le_capacity (s : WStream) : s.position ≤ s.capacity :=
  Nat.le_trans s.position_le s.length_le

/-- The stream with a buffer of its own that has `n` more bytes, which are zero. -/
def extend (n : ℕ) (s : WStream) : WStream where
  buffer := s.buffer ++ List.replicate n 0
  position := s.position
  length := s.capacity + n
  isOwner := true
  position_le := Nat.le_trans s.position_le_capacity (Nat.le_add_right _ n)
  length_le := Nat.le_of_eq (by rw [List.length_append, List.length_replicate, capacity])

theorem capacity_extend (n : ℕ) (s : WStream) : (s.extend n).capacity = s.capacity + n := by
  rw [capacity, extend, List.length_append, List.length_replicate, capacity]

end WStream

def streamStaticInit (buffer : List UInt8) : WStream :=
  ⟨buffer, 0, buffer.length, false, Nat.zero_le _, Nat.le_refl _⟩

def streamNew (buffer : List UInt8) : WStream :=
  { streamStaticInit buffer with isOwner := true }

/-- What a call comes to.  `CopyMemory` to the null pointer is not given a meaning. -/
inductive Outcome where
  | returned (ok : Bool) (s : WStream)
  | undefined
  deriving DecidableEq, Repr

/-- The loop body of `Stream_EnsureCapacity`. -/
def doubleCapacity (size newCapacity : ℕ) : ℕ ⊕ ℕ :=
  let newCapacity := toSize (newCapacity * 2)
  if newCapacity < size then .inl newCapacity else .inr newCapacity

/-- `Stream_EnsureCapacity` behind its loop, which leaves with a capacity above the old one. -/
def WStream.replaceBuffer (memory : Bool) (s : WStream) (newCapacity : ℕ) : Outcome :=
  if memory then .returned true (s.extend (newCapacity - s.capacity))
  else if s.isOwner then .returned false s
  else .undefined

def streamEnsureCapacity (rounds : ℕ) (memory : Bool) (size : ℕ) (s : WStream) : Option Outcome :=
  if s.capacity < size then
    (iterate (doubleCapacity size) rounds s.capacity).map (s.replaceBuffer memory)
  else some (.returned true s)

def streamEnsureRemainingCapacity (rounds : ℕ) (memory : Bool) (size : ℕ) (s : WStream) :
    Option Outcome :=
  if toSize (s.position + size) > s.capacity then
    streamEnsureCapacity rounds memory (toSize (s.capacity + size)) s
  else some (.returned true s)

end FreeRDP.Streams

/-!
## When a stream makes room

The capacity doubles until it is enough, from the capacity that the stream has.  A capacity of 0 stays 0,
and the loop never ends.  A borrowed buffer is copied before anyone looks at whether there was memory for
the new one.  `ensure_delivers_iff`: apart from these two, a call comes back, and with room if it says so.
-/

namespace FreeRDP.Streams

open Iterate
open Channels.WStream (growCapacity le_growCapacity)

variable {memory : Bool} {s t : WStream} {size newCapacity : ℕ}

theorem toSize_of_lt {n : ℕ} (h : n < 2 ^ 64) : toSize n = n := Nat.mod_eq_of_lt h

/-! ### The loop -/

/-- Doubling does not wrap, and ends from everything but 0. -/
theorem iterate_doubleCapacity {rounds : ℕ} (hsize : size < 2 ^ 63) (hpos : 0 < newCapacity)
    (hlt : newCapacity < size) (hrounds : size ≤ rounds + newCapacity) :
    iterate (doubleCapacity size) rounds newCapacity = some (growCapacity rounds newCapacity size) := by
  induction rounds generalizing newCapacity with
  | zero => omega
  | succ rounds ih =>
    have hdouble : doubleCapacity size newCapacity =
        if 2 * newCapacity < size then .inl (2 * newCapacity) else .inr (2 * newCapacity) := by
      unfold doubleCapacity
      rw [toSize_of_lt (by omega), Nat.mul_comm]
    rw [growCapacity]
    by_cases hless : 2 * newCapacity < size
    · rw [if_pos hless] at hdouble ⊢
      rw [iterate_inl hdouble, ih (by omega) hless (by omega)]
    · rw [if_neg hless] at hdouble ⊢
      exact iterate_inr hdouble rounds

theorem iterate_doubleCapacity_zero (hpos : 0 < size) (rounds : ℕ) :
    iterate (doubleCapacity size) rounds 0 = none := by
  refine iterate_eq_none (I := fun c => c = 0) ?_ rfl rounds
  rintro c rfl
  refine ⟨0, ?_, rfl⟩
  unfold doubleCapacity toSize
  rw [Nat.zero_mul, Nat.zero_mod]
  exact if_pos hpos

/-! ### The calls -/

/-- The position is the same, there is room behind it, and the bytes are still there. -/
structure WStream.MadeRoom (size : ℕ) (s t : WStream) : Prop where
  position : t.position = s.position
  room : t.position + size ≤ t.capacity
  kept : s.buffer <+: t.buffer

/-- A call comes back, and `TRUE` means that there is room. -/
def Delivers (memory : Bool) (size : ℕ) (s : WStream) : Prop :=
  ∃ rounds ok t, streamEnsureRemainingCapacity rounds memory size s = some (.returned ok t) ∧
    (ok = true → s.MadeRoom size t)

theorem delivers_of_room (h : s.position + size ≤ s.capacity) (hsize : s.capacity + size < 2 ^ 63) :
    Delivers memory size s := by
  have hle := s.position_le_capacity
  refine ⟨0, true, s, ?_, fun _ => ⟨rfl, h, List.prefix_rfl⟩⟩
  unfold streamEnsureRemainingCapacity
  rw [toSize_of_lt (by omega)]
  exact if_neg (Nat.not_lt.mpr h)

/-- A call that does not is one of `Stream_EnsureCapacity`. -/
theorem ensureRemainingCapacity_of_no_room (h : s.capacity < s.position + size)
    (hsize : s.capacity + size < 2 ^ 63) (rounds : ℕ) :
    streamEnsureRemainingCapacity rounds memory size s =
      (iterate (doubleCapacity (s.capacity + size)) rounds s.capacity).map
        (s.replaceBuffer memory) := by
  have hle := s.position_le_capacity
  unfold streamEnsureRemainingCapacity streamEnsureCapacity
  rw [toSize_of_lt (by omega), toSize_of_lt (by omega), if_pos h, if_pos (by omega)]

/-- A buffer that is not empty is replaced by one with room. -/
theorem exists_replaceBuffer (memory : Bool) (h : s.capacity < s.position + size)
    (hsize : s.capacity + size < 2 ^ 63) (hpos : 0 < s.capacity) :
    ∃ rounds c, streamEnsureRemainingCapacity rounds memory size s = some (s.replaceBuffer memory c) ∧
      s.capacity + size ≤ c := by
  have hle := s.position_le_capacity
  refine ⟨s.capacity + size, growCapacity (s.capacity + size) s.capacity (s.capacity + size), ?_,
    le_growCapacity hpos (by omega)⟩
  rw [ensureRemainingCapacity_of_no_room h hsize,
    iterate_doubleCapacity hsize hpos (by omega) (by omega), Option.map_some]

theorem madeRoom_extend (h : s.capacity + size ≤ newCapacity) :
    s.MadeRoom size (s.extend (newCapacity - s.capacity)) := by
  have hle := s.position_le_capacity
  refine ⟨rfl, ?_, List.prefix_append _ _⟩
  rw [WStream.capacity_extend]
  show s.position + size ≤ _
  omega

theorem not_delivers_of_empty (hcapacity : s.capacity = 0) (hpos : 0 < size) (hsize : size < 2 ^ 63) :
    ¬ Delivers memory size s := by
  rintro ⟨rounds, ok, t, hcall, -⟩
  rw [ensureRemainingCapacity_of_no_room (by omega) (by omega), hcapacity,
    iterate_doubleCapacity_zero (by omega)] at hcall
  exact Option.some_ne_none _ hcall.symm

/-- A call comes back, with room if it says so, if and only if there is room already, or the capacity is
not 0 and there is memory for the copy of a borrowed buffer. -/
theorem ensure_delivers_iff (memory : Bool) {s : WStream} {size : ℕ} (h : s.capacity + size < 2 ^ 63) :
    Delivers memory size s ↔
      s.position + size ≤ s.capacity ∨ (s.capacity ≠ 0 ∧ (s.isOwner = true ∨ memory = true)) := by
  by_cases hroom : s.position + size ≤ s.capacity
  · exact iff_of_true (delivers_of_room hroom h) (Or.inl hroom)
  have hgrow : s.capacity < s.position + size := Nat.lt_of_not_le hroom
  rw [or_iff_right hroom]
  rcases Nat.eq_zero_or_pos s.capacity with hzero | hpos
  · have hle := s.position_le_capacity
    exact iff_of_false (not_delivers_of_empty hzero (by omega) (by omega)) fun hne => hne.1 hzero
  constructor
  · rintro ⟨rounds, ok, t, hcall, -⟩
    refine ⟨Nat.ne_of_gt hpos, ?_⟩
    rw [ensureRemainingCapacity_of_no_room hgrow h, Option.map_eq_some_iff] at hcall
    obtain ⟨c, -, hcall⟩ := hcall
    unfold WStream.replaceBuffer at hcall
    split_ifs at hcall with hmemory howner
    · exact Or.inr hmemory
    · exact Or.inl howner
  · rintro ⟨-, hmemory⟩
    obtain ⟨rounds, c, hcall, hc⟩ := exists_replaceBuffer memory hgrow h hpos
    unfold WStream.replaceBuffer at hcall
    split_ifs at hcall with hyes howner
    · exact ⟨rounds, true, _, hcall, fun _ => madeRoom_extend hc⟩
    · exact ⟨rounds, false, s, hcall, fun hok => absurd hok Bool.false_ne_true⟩
    · exact absurd hmemory (not_or.mpr ⟨howner, hyes⟩)

/-- One byte more for a borrowed byte. -/
theorem ensure_delivers_iff_borrowed :
    Delivers true 1 (streamStaticInit [7]) ↔
      (streamStaticInit [7]).position + 1 ≤ (streamStaticInit [7]).capacity ∨
        ((streamStaticInit [7]).capacity ≠ 0 ∧
          ((streamStaticInit [7]).isOwner = true ∨ true = true)) :=
  ensure_delivers_iff true (by decide)

/-- A byte for an empty buffer, borrowed or not. -/
theorem not_delivers_empty :
    ¬ Delivers true 1 (streamStaticInit []) ∧ ¬ Delivers true 1 (streamNew []) :=
  ⟨not_delivers_of_empty rfl Nat.one_pos (by decide),
    not_delivers_of_empty rfl Nat.one_pos (by decide)⟩

end FreeRDP.Streams
