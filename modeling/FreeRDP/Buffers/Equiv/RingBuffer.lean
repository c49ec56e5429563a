import FreeRDP.Buffers.RingBuffer

/-!
# The ring buffer as a queue of bytes

`Holds rb xs`: the used bytes are `xs`, the first at `readPtr`.  Each function of the ring buffer is
compared with what it does to this list.  A full buffer is the exception: where it is reallocated, or
space for writing is asked for, it passes for an empty one.
-/

namespace FreeRDP.Buffers

open Circular ForwardCopy

variable {junk : ℕ → UInt8} {rb : RingBuffer} {xs data : List UInt8}

/-- The used bytes of the ring buffer are `xs`. -/
structure RingBuffer.Holds (rb : RingBuffer) (xs : List UInt8) : Prop where
  initial_pos : 0 < rb.initialSize
  initial_lt : rb.initialSize < 2 ^ 63
  size_lt : rb.size < 2 ^ 63
  readPtr : rb.readPtr < rb.size
  free : xs.length + rb.freeSize = rb.size
  writePtr : rb.writePtr = (rb.readPtr + xs.length) % rb.size
  cells : cells rb.size rb.buffer rb.readPtr xs.length = xs

theorem holds_ringbufferInit {initialSize : ℕ} (hpos : 0 < initialSize)
    (hlt : initialSize < 2 ^ 63) : (ringbufferInit junk initialSize).Holds [] :=
  ⟨hpos, hlt, hlt, hpos, Nat.zero_add _, (Nat.zero_mod _).symm, rfl⟩

namespace RingBuffer.Holds

theorem used (h : rb.Holds xs) : ringbufferUsed rb = xs.length := by
  have := h.free
  unfold ringbufferUsed
  omega

/-- Where the next byte is written: behind the used bytes, or around the end of the buffer. -/
theorem write_cases (h : rb.Holds xs) :
    (rb.readPtr + xs.length < rb.size ∧ rb.writePtr = rb.readPtr + xs.length) ∨
      (rb.size ≤ rb.readPtr + xs.length ∧ rb.writePtr = rb.readPtr + xs.length - rb.size) := by
  have hread := h.readPtr
  have hfree := h.free
  rcases Nat.lt_or_ge (rb.readPtr + xs.length) rb.size with hlt | hge
  · exact Or.inl ⟨hlt, h.writePtr.trans (Nat.mod_eq_of_lt hlt)⟩
  · refine Or.inr ⟨hge, h.writePtr.trans ?_⟩
    rw [Nat.mod_eq_sub_mod hge, Nat.mod_eq_of_lt (by omega)]

/-! ### Reallocation -/

/-- The bytes that are copied to new memory are the used ones. -/
theorem linearized_eq (h : rb.Holds xs) (hne : rb.writePtr ≠ rb.readPtr) {targetSize : ℕ}
    (htarget : xs.length ≤ targetSize) :
    linearized junk rb targetSize = some (store junk 0 xs) := by
  have hread := h.readPtr
  have hfree := h.free
  have hwrite := h.write_cases
  have hcells := h.cells
  unfold linearized
  split_ifs with hlt
  · rw [cells_of_le (by omega)] at hcells
    rw [h.used, hcells, copyIn_of_le (by omega)]
  · rw [cells_of_ge (by omega) (by omega) (by omega)] at hcells
    rw [show rb.writePtr = rb.readPtr + xs.length - rb.size by omega,
      copyIn_of_le (by rw [length_slice]; omega), Option.bind_eq_bind, Option.bind_some,
      copyIn_of_le (by rw [length_slice]; omega)]
    have happend := store_append junk 0 (slice rb.buffer rb.readPtr (rb.size - rb.readPtr))
      (slice rb.buffer 0 (rb.readPtr + xs.length - rb.size))
    rw [hcells, length_slice, Nat.zero_add] at happend
    rw [happend]

variable (junk) in
/-- A buffer that is not full keeps its bytes when it is reallocated. -/
theorem realloc (h : rb.Holds xs) (hnotFull : 0 < rb.freeSize) {targetSize : ℕ}
    (htarget : xs.length < targetSize) (hlt : targetSize < 2 ^ 63) :
    ∃ rb', ringbufferRealloc junk targetSize rb = some rb' ∧ rb'.Holds xs ∧
      rb'.size = targetSize ∧ rb'.initialSize = rb.initialSize := by
  have hread := h.readPtr
  have hsize := h.size_lt
  have hfree := h.free
  have hwrite := h.write_cases
  have hcells := h.cells
  have hnewFree : xs.length + (rb.freeSize + (targetSize + 2 ^ 64 - rb.size)) % 2 ^ 64 =
      targetSize := by omega
  unfold ringbufferRealloc
  dsimp only
  split_ifs with hempty hlinear
  · have hnil : xs.length = 0 := by omega
    obtain rfl := List.length_eq_zero_iff.mp hnil
    exact ⟨_, rfl, ⟨h.initial_pos, h.initial_lt, hlt, htarget, hnewFree, (Nat.zero_mod _).symm, rfl⟩,
      rfl, rfl⟩
  · refine ⟨_, rfl, ⟨h.initial_pos, h.initial_lt, hlt, ?_, hnewFree, ?_, ?_⟩, rfl, rfl⟩
    · dsimp only
      omega
    · dsimp only
      rw [Nat.mod_eq_of_lt (by omega)]
      omega
    · dsimp only
      refine Eq.trans (cells_congr fun k hk => ?_) hcells
      rw [Nat.mod_eq_of_lt (by omega), Nat.mod_eq_of_lt (by omega)]
      exact if_pos (by omega)
  · rw [h.linearized_eq hempty htarget.le]
    refine ⟨_, rfl, ⟨h.initial_pos, h.initial_lt, hlt, Nat.zero_lt_of_lt htarget, hnewFree, ?_, ?_⟩,
      rfl, rfl⟩
    · dsimp only
      rw [Nat.zero_add, Nat.mod_eq_of_lt htarget]
      omega
    · dsimp only
      rw [cells_of_le (by omega), slice_store]

/-! ### Writing -/

/-- Two copies that write `data` around the end of the buffer. -/
theorem copyIn_around {size dst : ℕ} (hdst : dst ≤ size) (hdata : data.length ≤ size)
    (mem : ℕ → UInt8) :
    ((copyIn size mem dst (data.take (if size - dst < data.length then size - dst else data.length))).bind
      fun buffer =>
        copyIn size buffer 0
          (data.drop (if size - dst < data.length then size - dst else data.length))) =
      some (Ring.write size mem dst data) := by
  unfold Ring.write
  split_ifs with hround hfit
  · omega
  · rw [copyIn_of_le (by rw [List.length_take]; omega), Option.bind_some,
      copyIn_of_le (by rw [List.length_drop]; omega)]
  · rw [List.take_length, List.drop_length, copyIn_of_le (by omega), Option.bind_some,
      copyIn_of_le (by simp), store_nil]
  · omega

/-- Bytes are written into a buffer with room for them. -/
theorem writeFree (h : rb.Holds xs) (hdata : data.length ≤ rb.freeSize) (mem : ℕ → UInt8)
    (hmem : mem = Ring.write rb.size rb.buffer rb.writePtr data) :
    Holds { rb with
      buffer := mem
      writePtr := (rb.writePtr + data.length) % 2 ^ 64 % rb.size
      freeSize := (rb.freeSize + 2 ^ 64 - data.length) % 2 ^ 64 } (xs ++ data) := by
  have hread := h.readPtr
  have hsize := h.size_lt
  have hfree := h.free
  have hwrite := h.write_cases
  refine ⟨h.initial_pos, h.initial_lt, hsize, hread, ?_, ?_, ?_⟩
  · rw [List.length_append]
    dsimp only
    omega
  · dsimp only
    rw [Nat.mod_eq_of_lt (by omega : rb.writePtr + data.length < 2 ^ 64), h.writePtr, Nat.mod_add_mod,
      List.length_append, Nat.add_assoc]
  · rw [List.length_append]
    dsimp only
    rw [hmem, h.writePtr, cells_write hread (by omega), h.cells]

variable (junk) in
theorem write (h : rb.Holds xs) (hnotFull : 0 < rb.freeSize)
    (hfits : rb.freeSize ≤ data.length → rb.size + data.length < 2 ^ 63) :
    ∃ rb', ringbufferWrite junk data rb = some rb' ∧ rb'.Holds (xs ++ data) := by
  have hsize := h.size_lt
  have hfree := h.free
  obtain ⟨rb₁, hrealloc, hholds, hroom⟩ : ∃ rb₁,
      (if rb.freeSize ≤ data.length then
        ringbufferRealloc junk ((rb.size + data.length) % 2 ^ 64) rb else some rb) = some rb₁ ∧
      rb₁.Holds xs ∧ data.length < rb₁.freeSize := by
    split_ifs with hgrow
    · have hlt := hfits hgrow
      rw [Nat.mod_eq_of_lt (by omega)]
      obtain ⟨rb₁, hrealloc, hholds, hnew, -⟩ :=
        h.realloc junk hnotFull (by omega) hlt
      have := hholds.free
      exact ⟨rb₁, hrealloc, hholds, by omega⟩
    · exact ⟨rb, rfl, h, by omega⟩
  have hread := hholds.readPtr
  have hfree₁ := hholds.free
  have hwrite₁ := hholds.write_cases
  refine ⟨_, ?_, hholds.writeFree hroom.le _ rfl⟩
  unfold ringbufferWrite
  dsimp only
  rw [hrealloc, Option.bind_eq_bind, Option.bind_some]
  have haround := copyIn_around (by omega : rb₁.writePtr ≤ rb₁.size) (by omega : data.length ≤ rb₁.size)
    rb₁.buffer
  obtain ⟨mem, hmem, hmem'⟩ := Option.bind_eq_some_iff.mp haround
  rw [Option.bind_eq_bind, hmem, Option.bind_some, hmem', Option.bind_some]
  rfl

/-- The pointers of an empty buffer may go back to its start. -/
theorem home (h : rb.Holds xs) (hnotFull : 0 < rb.freeSize) :
    Holds (if rb.writePtr = rb.readPtr then { rb with writePtr := 0, readPtr := 0 } else rb) xs ∧
      (if rb.writePtr = rb.readPtr then { rb with writePtr := 0, readPtr := 0 } else rb).freeSize =
        rb.freeSize := by
  have hread := h.readPtr
  have hfree := h.free
  have hwrite := h.write_cases
  split_ifs with hempty
  · have hnil : xs.length = 0 := by omega
    obtain rfl := List.length_eq_zero_iff.mp hnil
    exact ⟨⟨h.initial_pos, h.initial_lt, h.size_lt, Nat.zero_lt_of_lt hread, hfree,
      (Nat.zero_mod _).symm, rfl⟩, rfl⟩
  · exact ⟨h, rfl⟩

variable (junk) in
/-- Space for `sz` bytes in one piece, behind the used bytes. -/
theorem reserve (h : rb.Holds xs) (hnotFull : 0 < rb.freeSize) {sz : ℕ}
    (hfits : rb.freeSize < sz → rb.size + sz - rb.freeSize + 32 < 2 ^ 63) :
    ∃ rb', ringbufferEnsureLinearWrite junk sz rb = some (rb'.writePtr, rb') ∧ rb'.Holds xs ∧
      rb'.writePtr + sz ≤ rb'.size ∧ sz ≤ rb'.freeSize := by
  have hsize := h.size_lt
  have hfree := h.free
  obtain ⟨rb₁, hrealloc, hholds₁, hnotFull₁, hroom₁⟩ : ∃ rb₁,
      (if rb.freeSize < sz then
        ringbufferRealloc junk ((rb.size + sz + 2 ^ 64 - rb.freeSize + 32) % 2 ^ 64) rb
        else some rb) = some rb₁ ∧ rb₁.Holds xs ∧ 0 < rb₁.freeSize ∧ sz ≤ rb₁.freeSize := by
    split_ifs with hgrow
    · have hlt := hfits hgrow
      have htarget : (rb.size + sz + 2 ^ 64 - rb.freeSize + 32) % 2 ^ 64 =
          rb.size + sz - rb.freeSize + 32 := by omega
      rw [htarget]
      obtain ⟨rb₁, hrealloc, hholds, hnew, -⟩ :=
        h.realloc junk hnotFull (by omega) hlt
      have := hholds.free
      exact ⟨rb₁, hrealloc, hholds, by omega, by omega⟩
    · exact ⟨rb, rfl, h, hnotFull, by omega⟩
  obtain ⟨hholds, hfree₂⟩ := hholds₁.home hnotFull₁
  unfold ringbufferEnsureLinearWrite
  rw [hrealloc, Option.bind_eq_bind, Option.bind_some]
  dsimp only
  generalize (if rb₁.writePtr = rb₁.readPtr then { rb₁ with writePtr := 0, readPtr := 0 }
    else rb₁) = rb₂ at hholds hfree₂ ⊢
  have hread := hholds.readPtr
  have hsize₂ := hholds.size_lt
  have hfree₂' := hholds.free
  have hwrite := hholds.write_cases
  split_ifs with hbehind
  · refine ⟨rb₂, rfl, hholds, ?_, by omega⟩
    rw [Nat.mod_eq_of_lt (by omega)] at hbehind
    exact hbehind.le
  · rw [Nat.mod_eq_of_lt (by omega)] at hbehind
    -- the used bytes do not go around the end, and they move to the start
    have hcount : (rb₂.writePtr + 2 ^ 64 - rb₂.readPtr) % 2 ^ 64 = xs.length := by omega
    have hcells := hholds.cells
    rw [cells_of_le (by omega)] at hcells
    rw [hcount, hcells, copyIn_of_le (by omega), Option.bind_eq_bind, Option.bind_some]
    refine ⟨{ rb₂ with
      buffer := store rb₂.buffer 0 xs, readPtr := 0, writePtr := rb₂.size - rb₂.freeSize }, rfl,
      ⟨hholds.initial_pos, hholds.initial_lt, hsize₂, Nat.zero_lt_of_lt hread, hfree₂', ?_, ?_⟩, ?_,
      by dsimp only; omega⟩
    · dsimp only
      rw [Nat.zero_add, Nat.mod_eq_of_lt (by omega)]
      omega
    · dsimp only
      rw [cells_of_le (by omega), slice_store]
    · dsimp only
      omega

/-- Bytes that have been written behind the used ones are committed. -/
theorem commit (h : rb.Holds xs) (hdata : data.length ≤ rb.freeSize)
    (hbehind : rb.writePtr + data.length ≤ rb.size) :
    ∃ rb', ringbufferCommitWrittenBytes data.length
        { rb with buffer := store rb.buffer rb.writePtr data } = (true, rb') ∧
      rb'.Holds (xs ++ data) := by
  have hsize := h.size_lt
  unfold ringbufferCommitWrittenBytes
  dsimp only
  split_ifs with hnone hbeyond
  · obtain rfl := List.length_eq_zero_iff.mp (Nat.lt_one_iff.mp hnone)
    refine ⟨rb, rfl, ?_⟩
    rwa [List.append_nil]
  · rw [Nat.mod_eq_of_lt (by omega)] at hbeyond
    omega
  · exact ⟨_, rfl, h.writeFree hdata _ (if_pos hbehind).symm⟩

/-! ### Reading -/

theorem flatten_chunk (mem : ℕ → UInt8) (p n : ℕ) :
    (if n ≠ 0 then [slice mem p n] else []).flatten = slice mem p n := by
  split_ifs with hn
  · simp
  · simp [not_not.mp hn, slice]

theorem peek (h : rb.Holds xs) (sz : ℕ) : (ringbufferPeek sz rb).flatten = xs.take sz := by
  have hread := h.readPtr
  have hfree := h.free
  by_cases hnone : sz < 1
  · simp [ringbufferPeek, Nat.lt_one_iff.mp hnone]
  · have hremaining : (if rb.size - rb.freeSize < sz then rb.size - rb.freeSize else sz) =
        min xs.length sz := by
      split_ifs <;> omega
    have htake : xs.take sz = Circular.cells rb.size rb.buffer rb.readPtr (min xs.length sz) := by
      rw [← take_cells (Nat.min_le_left _ _), h.cells, List.take_eq_take_iff]
      omega
    rw [ringbufferPeek, if_neg hnone, hremaining, htake]
    dsimp only
    rw [List.flatten_append, flatten_chunk, flatten_chunk]
    split_ifs with haround
    · rw [cells_of_ge (by omega) (by omega) (by omega)]
      congr 2
      omega
    · rw [cells_of_le (by omega), Nat.sub_self]
      exact List.append_nil _

variable (junk) in
theorem consume (h : rb.Holds xs) {sz : ℕ} (hsz : sz ≤ xs.length) :
    ∃ rb', ringbufferCommitReadBytes junk sz rb = some rb' ∧ rb'.Holds (xs.drop sz) := by
  have hread := h.readPtr
  have hsize := h.size_lt
  have hfree := h.free
  unfold ringbufferCommitReadBytes
  by_cases hnone : sz < 1
  · exact ⟨rb, if_pos hnone, by simpa [Nat.lt_one_iff.mp hnone] using h⟩
  · rw [if_neg hnone, Nat.mod_eq_of_lt (by omega : rb.readPtr + sz < 2 ^ 64),
      Nat.mod_eq_of_lt (by omega : rb.freeSize + sz < 2 ^ 64)]
    have hholds : Holds { rb with
        readPtr := (rb.readPtr + sz) % rb.size, freeSize := rb.freeSize + sz } (xs.drop sz) := by
      refine ⟨h.initial_pos, h.initial_lt, hsize, Nat.mod_lt _ (by omega), ?_, ?_, ?_⟩
      · rw [List.length_drop]
        dsimp only
        omega
      · rw [List.length_drop]
        dsimp only
        rw [h.writePtr, Nat.mod_add_mod]
        congr 1
        omega
      · rw [List.length_drop]
        dsimp only
        rw [← drop_cells hsz, h.cells]
    dsimp only
    split_ifs with hshrink
    · obtain ⟨-, hused⟩ := hshrink
      rw [hholds.used] at hused
      have hinitial := h.initial_lt
      obtain ⟨rb', hrealloc, hholds', -⟩ := hholds.realloc junk
        (by dsimp only; omega) (by omega) hinitial
      exact ⟨rb', hrealloc, hholds'⟩
    · exact ⟨_, rfl, hholds⟩

end RingBuffer.Holds

/-! ### Runs -/

/-- A call of a function of a ring buffer; space that has been ensured is written to and committed. -/
inductive RingOp where
  | write (data : List UInt8)
  | linear (sz : ℕ) (data : List UInt8)
  | peek (sz : ℕ)
  | read (sz : ℕ)

variable (junk) in
/-- The bytes that a call shows, and the ring buffer behind it. -/
def RingOp.run (rb : RingBuffer) : RingOp → Option (List UInt8 × RingBuffer)
  | write data => (ringbufferWrite junk data rb).map ([], ·)
  | linear sz data => do
    let (p, rb) ← ringbufferEnsureLinearWrite junk sz rb
    return ([], (ringbufferCommitWrittenBytes data.length
      { rb with buffer := store rb.buffer p data }).2)
  | peek sz => some ((ringbufferPeek sz rb).flatten, rb)
  | read sz => (ringbufferCommitReadBytes junk sz rb).map ([], ·)

def RingOp.queue (xs : List UInt8) : RingOp → List UInt8 × List UInt8
  | write data => ([], xs ++ data)
  | linear _ data => ([], xs ++ data)
  | peek sz => (xs.take sz, xs)
  | read sz => ([], xs.drop sz)

/-- What a caller keeps to: it commits no more bytes than it has asked space for, and reads no more
than there are. -/
def RingOp.Valid (rb : RingBuffer) : RingOp → Prop
  | linear sz data => data.length ≤ sz
  | read sz => sz ≤ ringbufferUsed rb
  | _ => True

/-- The buffer is not full when bytes are written or space is asked for, and if it grows its new size
is one that can be allocated. -/
def RingOp.Sound (rb : RingBuffer) : RingOp → Prop
  | write data => 0 < rb.freeSize ∧
      (rb.freeSize ≤ data.length → rb.size + data.length < 2 ^ 63)
  | linear sz _ => 0 < rb.freeSize ∧
      (rb.freeSize < sz → rb.size + sz - rb.freeSize + 32 < 2 ^ 63)
  | _ => True

variable (junk) in
/-- A condition on the calls of a run and the states in which they are made. -/
def AllSteps (P : RingBuffer → RingOp → Prop) : List RingOp → RingBuffer → Prop
  | [], _ => True
  | op :: ops, rb => P rb op ∧ ∀ seen rb', op.run junk rb = some (seen, rb') → AllSteps P ops rb'

variable (junk) in
/-- What the calls of a run show, with the number of the used bytes behind each. -/
def runRing : List RingOp → RingBuffer → Option (List (List UInt8 × ℕ) × RingBuffer)
  | [], rb => some ([], rb)
  | op :: ops, rb => do
    let (seen, rb) ← op.run junk rb
    let (trace, rb') ← runRing ops rb
    return ((seen, ringbufferUsed rb) :: trace, rb')

def runBytes : List RingOp → List UInt8 → List (List UInt8 × ℕ) × List UInt8
  | [], xs => ([], xs)
  | op :: ops, xs =>
    let (seen, xs) := op.queue xs
    let (trace, xs') := runBytes ops xs
    ((seen, xs.length) :: trace, xs')

variable (junk) in
theorem RingBuffer.Holds.step (h : rb.Holds xs) {op : RingOp} (hvalid : op.Valid rb)
    (hsound : op.Sound rb) :
    ∃ rb', op.run junk rb = some ((op.queue xs).1, rb') ∧ rb'.Holds (op.queue xs).2 := by
  cases op with
  | write data =>
    obtain ⟨hnotFull, hfits⟩ := hsound
    obtain ⟨rb', hwrite, hholds⟩ := h.write junk hnotFull hfits
    exact ⟨rb', by simp [RingOp.run, RingOp.queue, hwrite], hholds⟩
  | linear sz data =>
    obtain ⟨hnotFull, hfits⟩ := hsound
    have hdata : data.length ≤ sz := hvalid
    obtain ⟨rb₁, hreserve, hholds₁, hbehind, hroom⟩ := h.reserve junk hnotFull hfits
    obtain ⟨rb', hcommit, hholds⟩ := hholds₁.commit (show data.length ≤ rb₁.freeSize by omega) (by omega)
    exact ⟨rb', by simp [RingOp.run, RingOp.queue, hreserve, hcommit], hholds⟩
  | peek sz => exact ⟨rb, by simp [RingOp.run, RingOp.queue, h.peek], h⟩
  | read sz =>
    have hsz : sz ≤ xs.length := h.used ▸ hvalid
    obtain ⟨rb', hread, hholds⟩ := h.consume junk hsz
    exact ⟨rb', by simp [RingOp.run, RingOp.queue, hread], hholds⟩

theorem RingBuffer.Holds.run (h : rb.Holds xs) {ops : List RingOp}
    (hvalid : AllSteps junk RingOp.Valid ops rb) (hsound : AllSteps junk RingOp.Sound ops rb) :
    ∃ rb', runRing junk ops rb = some ((runBytes ops xs).1, rb') ∧ rb'.Holds (runBytes ops xs).2 := by
  induction ops generalizing rb xs with
  | nil => exact ⟨rb, rfl, h⟩
  | cons op ops ih =>
    obtain ⟨hvalid, hvalids⟩ := hvalid
    obtain ⟨hsound, hsounds⟩ := hsound
    obtain ⟨rb₁, hrun, hholds₁⟩ := h.step junk hvalid hsound
    obtain ⟨rb₂, hruns, hholds₂⟩ := ih hholds₁ (hvalids _ _ hrun) (hsounds _ _ hrun)
    exact ⟨rb₂, by simp [runRing, runBytes, hrun, hruns, hholds₁.used], hholds₂⟩

/-- In every run from a new buffer in which no bytes are written to a full buffer, the calls show what
they show for the list of the bytes, and behind it the buffer holds this list. -/
theorem runRing_bytes (junk : ℕ → UInt8) (initialSize : ℕ) (ops : List RingOp)
    (hpos : 0 < initialSize) (hlt : initialSize < 2 ^ 63)
    (hvalid : AllSteps junk RingOp.Valid ops (ringbufferInit junk initialSize))
    (hsound : AllSteps junk RingOp.Sound ops (ringbufferInit junk initialSize)) :
    ∃ rb', runRing junk ops (ringbufferInit junk initialSize) = some ((runBytes ops []).1, rb') ∧
      ringbufferUsed rb' = (runBytes ops []).2.length ∧
      ∀ sz, (ringbufferPeek sz rb').flatten = (runBytes ops []).2.take sz := by
  obtain ⟨rb', hrun, hholds⟩ := (holds_ringbufferInit hpos hlt).run hvalid hsound
  exact ⟨rb', hrun, hholds.used, hholds.peek⟩

/-- A buffer of two bytes grows. -/
theorem runRing_bytes_three :
    ∃ rb', runRing (fun _ => 0) [.write [1, 2, 3], .peek 3] (ringbufferInit (fun _ => 0) 2) =
        some ((runBytes [.write [1, 2, 3], .peek 3] []).1, rb') ∧
      ringbufferUsed rb' = (runBytes [.write [1, 2, 3], .peek 3] []).2.length ∧
      ∀ sz, (ringbufferPeek sz rb').flatten =
        (runBytes [.write [1, 2, 3], .peek 3] []).2.take sz :=
  runRing_bytes (fun _ => 0) 2 [.write [1, 2, 3], .peek 3] (by decide) (by decide)
    ⟨trivial, fun _ _ _ => ⟨trivial, fun _ _ _ => trivial⟩⟩
    ⟨⟨by decide, fun _ => by decide⟩, fun _ _ _ => ⟨trivial, fun _ _ _ => trivial⟩⟩

/-- A buffer of two bytes is filled through `ringbuffer_ensure_linear_write`, and the next byte is
written over the first. -/
theorem runRing_bytes_full :
    ¬ ∀ (junk : ℕ → UInt8) (initialSize : ℕ) (ops : List RingOp), 0 < initialSize →
      initialSize < 2 ^ 63 → AllSteps junk RingOp.Valid ops (ringbufferInit junk initialSize) →
      ∃ rb', runRing junk ops (ringbufferInit junk initialSize) = some ((runBytes ops []).1, rb') := by
  intro h
  obtain ⟨rb', hrun⟩ := h (fun _ => 0) 2 [.linear 2 [1, 2], .write [3], .peek 3] (by decide)
    (by decide)
    ⟨(by decide : [1, 2].length ≤ 2), fun _ _ _ => ⟨trivial, fun _ _ _ => ⟨trivial, fun _ _ _ => trivial⟩⟩⟩
  have hlost : (runRing (fun _ => 0) [.linear 2 [1, 2], .write [3], .peek 3]
      (ringbufferInit (fun _ => 0) 2)).map Prod.fst = some [([], 2), ([], 3), ([3, 2, 0], 3)] := by
    decide +kernel
  rw [hrun] at hlost
  exact absurd hlost (by simp [runBytes, RingOp.queue])

end FreeRDP.Buffers
