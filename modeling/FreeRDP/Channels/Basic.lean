import FreeRDP.Lib.Wire

/-!
# Virtual channels

The constants of `wtsapi.h` and `server.h`, and the streams of `winpr` that are written and grow.
-/

namespace FreeRDP.Channels

/-! ### Constants -/

def createRequestPdu : ℕ := 1

def dataFirstPdu : ℕ := 2

def dataPdu : ℕ := 3

def closeRequestPdu : ℕ := 4

def capabilityRequestPdu : ℕ := 5

def channelChunkLength : ℕ := 1600

def channelFlagFirst : ℕ := 0x01

def channelFlagLast : ℕ := 0x02

def channelFlagShowProtocol : ℕ := 0x10

/-! ### Streams -/

/-- `wStream`: its buffer, which is never empty, and the position that is written next. -/
structure WStream where
  buffer : List UInt8
  position : ℕ
  nonempty : buffer ≠ []
  position_le : position ≤ buffer.length
deriving DecidableEq, Repr

namespace WStream

variable {s s' : WStream} {memory : Bool} {rounds n size : ℕ}

def capacity (s : WStream) : ℕ := s.buffer.length

def content (s : WStream) : List UInt8 := s.buffer.take s.position

/-- `Stream_SetPosition` to the start. -/
def rewind (s : WStream) : WStream := ⟨s.buffer, 0, s.nonempty, Nat.zero_le _⟩

/-- The buffer with more bytes at its end, which are zero. -/
def extend (n : ℕ) (s : WStream) : WStream where
  buffer := s.buffer ++ List.replicate n 0
  position := s.position
  nonempty := List.append_ne_nil_of_left_ne_nil s.nonempty _
  position_le := by
    have := s.position_le
    rw [List.length_append]
    omega

/-- The loop of `Stream_EnsureCapacity`, which doubles the capacity until it is enough. -/
def growCapacity : ℕ → ℕ → ℕ → ℕ
  | 0, capacity, _ => capacity
  | rounds + 1, capacity, size =>
    if 2 * capacity < size then growCapacity rounds (2 * capacity) size else 2 * capacity

/-- `Stream_EnsureCapacity`, where `memory` is the result of `realloc`. -/
def ensureCapacity (memory : Bool) (size : ℕ) (s : WStream) : Option WStream :=
  if s.capacity < size then
    if memory then some (s.extend (growCapacity size s.capacity size - s.capacity)) else none
  else some s

def ensureRemainingCapacity (memory : Bool) (size : ℕ) (s : WStream) : Option WStream :=
  if s.position + size > s.capacity then ensureCapacity memory (s.capacity + size) s else some s

/-- `Stream_Write`.  A write past the end, which is not given a meaning in C, makes the buffer longer. -/
def write (data : List UInt8) (s : WStream) : WStream where
  buffer := s.buffer.take s.position ++ data ++ s.buffer.drop (s.position + data.length)
  position := s.position + data.length
  nonempty := by
    have hpos := List.length_pos_iff.mpr s.nonempty
    have hle := s.position_le
    apply List.ne_nil_of_length_pos
    simp only [List.length_append, List.length_take, List.length_drop]
    omega
  position_le := by
    have hle := s.position_le
    simp only [List.length_append, List.length_take, List.length_drop]
    omega

/-! ### Lemmas -/

@[simp]
theorem position_rewind (s : WStream) : s.rewind.position = 0 := rfl

@[simp]
theorem content_rewind (s : WStream) : s.rewind.content = [] := rfl

@[simp]
theorem position_write (data : List UInt8) (s : WStream) :
    (s.write data).position = s.position + data.length := rfl

/-- Writes that fit leave the capacity alone. -/
theorem capacity_write {bs : List UInt8} (h : s.position + bs.length ≤ s.capacity) :
    (s.write bs).capacity = s.capacity := by
  unfold capacity at h ⊢
  unfold write
  simp only [List.length_append, List.length_take, List.length_drop]
  omega

theorem le_growCapacity (hpos : 0 < n) (hrounds : size ≤ rounds + n) :
    size ≤ growCapacity rounds n size := by
  induction rounds generalizing n with
  | zero =>
    rw [growCapacity]
    omega
  | succ rounds ih =>
    rw [growCapacity]
    split
    · exact ih (by omega) (by omega)
    · omega

/-- What has been written stays, and there is room for `size` bytes. -/
theorem ensureCapacity_spec (h : ensureCapacity memory size s = some s') :
    s'.content = s.content ∧ s'.position = s.position ∧ s.capacity ≤ s'.capacity ∧ size ≤ s'.capacity := by
  have hpos := List.length_pos_iff.mpr s.nonempty
  unfold ensureCapacity at h
  split_ifs at h
  · obtain rfl := Option.some.inj h
    have hgrow : size ≤ growCapacity size s.buffer.length size := le_growCapacity hpos (by omega)
    refine ⟨List.take_append_of_le_length s.position_le, rfl, ?_, ?_⟩
    · unfold capacity extend
      rw [List.length_append]
      omega
    · unfold capacity extend at *
      rw [List.length_append, List.length_replicate]
      omega
  · obtain rfl := Option.some.inj h
    exact ⟨rfl, rfl, le_refl _, by omega⟩

/-- What has been written stays, and there is room for `size` more bytes. -/
theorem ensureRemainingCapacity_spec (h : ensureRemainingCapacity memory size s = some s') :
    s'.content = s.content ∧ s'.position = s.position ∧ s.capacity ≤ s'.capacity ∧
      s.position + size ≤ s'.capacity := by
  have hle : s.position ≤ s.capacity := s.position_le
  unfold ensureRemainingCapacity at h
  split at h
  · obtain ⟨hcontent, hposition, hcapacity, hsize⟩ := ensureCapacity_spec h
    exact ⟨hcontent, hposition, hcapacity, by omega⟩
  · obtain rfl := Option.some.inj h
    exact ⟨rfl, rfl, le_refl _, by omega⟩

end WStream

end FreeRDP.Channels
