import FreeRDP.Buffers.BipBuffer
import FreeRDP.Lib.Run

/-!
# `BipBuffer` as a queue of bytes

`Holds bb xs`: the bytes of block A and behind them those of block B are `xs`.  Reading takes bytes
from the front of this list, writing appends some to it, and growing keeps it.
-/

namespace FreeRDP.Buffers

open Circular ForwardCopy

variable {junk : ℕ → UInt8} {bb : BipBuffer} {xs data : List UInt8}

/-- The bytes of the two blocks are `xs`. -/
structure BipBuffer.Holds (bb : BipBuffer) (xs : List UInt8) : Prop where
  fitsA : bb.blockA.index + bb.blockA.size ≤ bb.size
  fitsB : bb.blockB.size ≤ bb.blockA.index
  indexA : bb.blockA.size = 0 → bb.blockA.index = 0
  indexB : bb.blockB.index = 0
  bytes : slice bb.buffer bb.blockA.index bb.blockA.size ++ slice bb.buffer 0 bb.blockB.size = xs

/-- Space for `n` bytes from `index` on: behind block A if there is no block B, or else between
block B and block A. -/
def BipBuffer.Room (bb : BipBuffer) (index n : ℕ) : Prop :=
  bb.blockB.size = 0 ∧ index = bb.blockA.index + bb.blockA.size ∧ index + n ≤ bb.size ∨
    0 < bb.blockA.size ∧ index = bb.blockB.size ∧ index + n ≤ bb.blockA.index

namespace BipBuffer.Holds

theorem length_eq (h : bb.Holds xs) : bb.usedSize = xs.length := by
  rw [← h.bytes, List.length_append, length_slice, length_slice]
  rfl

/-! ### Reading -/

/-- What is committed leaves from the front of block A, after which block B takes its place. -/
theorem readCommit (h : bb.Holds xs) (size : ℕ) :
    (bb.readCommit size).Holds (xs.drop (min size bb.blockA.size)) := by
  have hfitsA := h.fitsA
  have hfitsB := h.fitsB
  unfold BipBuffer.readCommit
  by_cases hall : size ≥ bb.blockA.size
  · rw [if_pos hall, Nat.min_eq_right hall, ← h.bytes, List.drop_left' (length_slice ..)]
    refine ⟨?_, Nat.zero_le _, fun _ => h.indexB, rfl, ?_⟩
    · dsimp only
      rw [h.indexB]
      omega
    · dsimp only
      rw [h.indexB]
      exact List.append_nil _
  · have hadd : bb.blockA.size = size + (bb.blockA.size - size) := by omega
    rw [if_neg hall, Nat.min_eq_left (by omega), ← h.bytes, hadd, slice_add, List.append_assoc,
      List.drop_left' (length_slice ..)]
    exact ⟨by dsimp only; omega, by dsimp only; omega, fun hzero => absurd hzero (by dsimp only; omega),
      h.indexB, by dsimp only; rw [← hadd]⟩

/-- A part of a read takes some bytes from the front. -/
theorem readPart (h : bb.Holds xs) (size : ℕ) :
    ∃ data done bb' rest, bb.readPart size = (data, done, bb') ∧ xs = data ++ rest ∧
      bb'.Holds rest := by
  by_cases hnone : bb.blockA.size = 0
  · exact ⟨[], false, bb, xs, by simp [BipBuffer.readPart, readTryReserve, hnone], rfl, h⟩
  generalize hn : (if size > bb.blockA.size then bb.blockA.size else size) = n
  have hle : n ≤ bb.blockA.size := by
    rw [← hn]
    split_ifs <;> omega
  refine ⟨slice bb.buffer bb.blockA.index n, n = size ∨ n < bb.blockA.size, bb.readCommit n, xs.drop n,
    ?_, ?_, ?_⟩
  · simp only [BipBuffer.readPart, readTryReserve, hnone, if_false, ne_eq, not_true_eq_false,
      false_and, hn]
  · have hadd : bb.blockA.size = n + (bb.blockA.size - n) := by omega
    rw [← h.bytes, hadd, slice_add, List.append_assoc, List.drop_left' (length_slice ..)]
  · have hcommit := h.readCommit n
    rwa [Nat.min_eq_left hle] at hcommit

theorem read (h : bb.Holds xs) (size : ℕ) :
    ∃ data bb' rest, bb.read size = (data, bb') ∧ xs = data ++ rest ∧ bb'.Holds rest := by
  by_cases hzero : size = 0
  · exact ⟨[], bb, xs, by simp [BipBuffer.read, hzero], rfl, h⟩
  obtain ⟨data, done, bb₁, rest, hread, hxs, hholds⟩ :=
    h.readPart (if size > SSIZE_MAX then SSIZE_MAX else size)
  cases done with
  | true => exact ⟨data, bb₁, rest, by simp [BipBuffer.read, hzero, hread], hxs, hholds⟩
  | false =>
    obtain ⟨data', done, bb₂, rest', hread', hrest, hholds'⟩ :=
      hholds.readPart ((if size > SSIZE_MAX then SSIZE_MAX else size) - data.length)
    refine ⟨data ++ data', bb₂, rest', by simp [BipBuffer.read, hzero, hread, hread'], ?_,
      hholds'⟩
    rw [hxs, hrest, List.append_assoc]

/-! ### Growing -/

variable (junk) in
/-- A part of the growing copies block A behind the bytes that have been copied before. -/
theorem growPart_eq (bb : BipBuffer) (pre : List UInt8) {size : ℕ}
    (hfits : pre.length + bb.blockA.size ≤ size) :
    bb.growPart size (store junk 0 pre) pre.length =
      some (store junk 0 (pre ++ slice bb.buffer bb.blockA.index bb.blockA.size),
        pre.length + bb.blockA.size,
        if bb.blockA.size = 0 then bb else bb.readCommit bb.blockA.size) := by
  by_cases hnone : bb.blockA.size = 0
  · simp [BipBuffer.growPart, readTryReserve, hnone, slice]
  · have hcopy : copyIn size (store junk 0 pre) pre.length
        (slice bb.buffer bb.blockA.index bb.blockA.size) = some (store (store junk 0 pre) pre.length
          (slice bb.buffer bb.blockA.index bb.blockA.size)) :=
      copyIn_of_le (by rw [length_slice]; omega)
    simp [BipBuffer.growPart, readTryReserve, hnone, hcopy, store_append]

variable (junk) in
/-- A buffer that grows has all of its bytes in block A. -/
theorem grow_eq (h : bb.Holds xs) {size newSize : ℕ}
    (hnew : (size + size % bb.pageSize) % 2 ^ 64 = newSize) (hsmall : ¬ newSize ≤ bb.size) :
    bb.grow junk size = some
      { bb with
        size := newSize, buffer := store junk 0 xs, blockA := ⟨0, bb.usedSize⟩
        blockB := bipBlockClear, writeR := bipBlockClear } := by
  have hfitsA := h.fitsA
  have hfitsB := h.fitsB
  have hfirst := growPart_eq junk bb [] (show 0 + bb.blockA.size ≤ newSize by omega)
  generalize hbb₁ :
    (if bb.blockA.size = 0 then bb else bb.readCommit bb.blockA.size) = bb₁ at hfirst
  -- what is left in block A are the bytes of block B
  have hleft : bb₁.blockA.size = bb.blockB.size ∧
      slice bb₁.buffer bb₁.blockA.index bb₁.blockA.size = slice bb.buffer 0 bb.blockB.size ∧
      bb₁.pageSize = bb.pageSize := by
    rw [← hbb₁]
    split_ifs with hnone
    · have hB : bb.blockB.size = 0 := by
        have := h.indexA hnone
        omega
      simp [hnone, hB, slice]
    · simp [BipBuffer.readCommit, h.indexB]
  obtain ⟨hsize, hslice, hpage⟩ := hleft
  have hsecond := growPart_eq junk bb₁ (slice bb.buffer bb.blockA.index bb.blockA.size)
    (show _ ≤ newSize by rw [length_slice]; omega)
  have hpage' : (if bb₁.blockA.size = 0 then bb₁ else bb₁.readCommit bb₁.blockA.size).pageSize =
      bb.pageSize := by
    rw [← hpage]
    split_ifs
    · rfl
    · simp [BipBuffer.readCommit]
  rw [length_slice, hslice, h.bytes, hsize] at hsecond
  rw [hsize] at hpage'
  simp only [store_nil, List.length_nil, List.nil_append, Nat.zero_add] at hfirst
  unfold BipBuffer.grow
  dsimp only
  rw [hnew, if_neg hsmall, hfirst, Option.bind_eq_bind, Option.bind_some]
  dsimp only
  rw [hsecond, Option.bind_some]
  dsimp only
  rw [hpage']
  rfl

variable (junk) in
theorem grow (h : bb.Holds xs) (size : ℕ) :
    ∃ bb', bb.grow junk size = some bb' ∧ bb'.Holds xs := by
  have hlength := h.length_eq
  have hfitsA := h.fitsA
  have hfitsB := h.fitsB
  by_cases hsmall : (size + size % bb.pageSize) % 2 ^ 64 ≤ bb.size
  · exact ⟨bb, if_pos hsmall, h⟩
  refine ⟨_, h.grow_eq junk rfl hsmall, ?_, le_rfl, fun _ => rfl, rfl, ?_⟩
  · unfold usedSize
    dsimp only
    omega
  · dsimp only
    rw [hlength, slice_store]
    exact List.append_nil _

/-! ### Writing -/

/-- What is reserved is room for at most the bytes that are asked for. -/
theorem writeTryReserve (h : bb.Holds xs) (size : ℕ) :
    bb.writeTryReserve size = (none, bb) ∨
      ∃ index reserved, bb.writeTryReserve size =
          (some (index, reserved), { bb with writeR := ⟨index, reserved⟩ }) ∧
        bb.Room index reserved := by
  have hfitsA := h.fitsA
  have hfitsB := h.fitsB
  have hindexA := h.indexA
  have hindexB := h.indexB
  unfold BipBuffer.writeTryReserve BipBuffer.Room
  dsimp only
  -- without block B the larger of the spaces behind and in front of block A is taken
  by_cases hB : bb.blockB.size = 0
  · rw [if_pos hB]
    by_cases hbehind : bb.size - bb.blockA.index - bb.blockA.size ≥ bb.blockA.index
    · rw [if_pos hbehind]
      by_cases hnone : bb.size - bb.blockA.index - bb.blockA.size = 0
      · exact Or.inl (if_pos hnone)
      · rw [if_neg hnone]
        refine Or.inr ⟨_, _, rfl, Or.inl ⟨hB, rfl, ?_⟩⟩
        split_ifs <;> omega
    · rw [if_neg hbehind]
      by_cases hnone : bb.blockA.index = 0
      · exact Or.inl (if_pos hnone)
      · rw [if_neg hnone]
        refine Or.inr ⟨_, _, rfl, Or.inr ⟨by omega, hB.symm, ?_⟩⟩
        split_ifs <;> omega
  · rw [if_neg hB]
    split_ifs with hless hnone hnone
    · exact Or.inl rfl
    · exact Or.inr ⟨_, _, rfl, Or.inr ⟨by omega, by omega, by omega⟩⟩
    · exact Or.inl rfl
    · exact Or.inr ⟨_, _, rfl, Or.inr ⟨by omega, by omega, by omega⟩⟩

/-- Bytes that are stored in the room that has been reserved come behind those of both blocks. -/
theorem writeCommit (h : bb.Holds xs) {index reserved : ℕ} (hroom : bb.Room index reserved)
    (hdata : data.length ≤ reserved) :
    (BipBuffer.writeCommit data.length
      { bb with buffer := store bb.buffer index data, writeR := ⟨index, reserved⟩ }).Holds
        (xs ++ data) := by
  have hfitsA := h.fitsA
  have hfitsB := h.fitsB
  have hindexB := h.indexB
  have hbytes := h.bytes
  by_cases hempty : data.length = 0
  · obtain rfl := List.eq_nil_of_length_eq_zero hempty
    rw [List.append_nil]
    exact ⟨hfitsA, hfitsB, h.indexA, hindexB, hbytes⟩
  have hsize : ¬ data.length > reserved := by omega
  unfold BipBuffer.writeCommit
  dsimp only
  rw [if_neg hempty, if_neg hsize]
  by_cases hboth : bb.blockA.size = 0 ∧ bb.blockB.size = 0
  · -- both blocks are empty: the bytes are block A
    obtain ⟨hA, hB⟩ := hboth
    have hindexA := h.indexA hA
    have hxs : xs = [] := List.eq_nil_of_length_eq_zero (by rw [← h.length_eq, usedSize, hA, hB])
    obtain ⟨-, hindex, hfits⟩ : bb.blockB.size = 0 ∧ index = bb.blockA.index + bb.blockA.size ∧
        index + reserved ≤ bb.size := hroom.resolve_right fun h => absurd hA (by omega)
    rw [if_pos ⟨hA, hB⟩]
    refine ⟨by dsimp only; omega, by dsimp only; omega, fun hzero => absurd hzero hempty, hindexB,
      ?_⟩
    dsimp only
    rw [slice_store, hB, hxs]
    exact List.append_nil _
  rw [if_neg hboth]
  obtain ⟨hB, hindex, hfits⟩ | ⟨hA, hindex, hfits⟩ := hroom
  · -- block A becomes longer
    rw [if_pos (by omega)]
    refine ⟨by dsimp only; omega, by dsimp only; omega, fun hzero => absurd hzero ?_, hindexB, ?_⟩
    · dsimp only
      omega
    · dsimp only
      rw [hB] at hbytes ⊢
      rw [slice_add, slice_store_of_le (by omega), ← hindex, slice_store, ← hbytes]
      simp [slice]
  · -- block B becomes longer
    rw [if_neg (by omega)]
    refine ⟨hfitsA, by dsimp only; omega, h.indexA, hindexB, ?_⟩
    have hfrontA : slice (store bb.buffer index data) bb.blockA.index bb.blockA.size =
        slice bb.buffer bb.blockA.index bb.blockA.size :=
      slice_congr fun k _ => store_of_ge bb.buffer data (by omega)
    have hfrontB : slice (store bb.buffer index data) 0 bb.blockB.size =
        slice bb.buffer 0 bb.blockB.size :=
      slice_store_of_le (by omega) bb.buffer data
    dsimp only
    rw [slice_add, Nat.zero_add, hfrontA, hfrontB, hindex, slice_store, ← List.append_assoc, hbytes]

theorem writePart (h : bb.Holds xs) (data : List UInt8) :
    ∃ n done bb', bb.writePart data = some (n, done, bb') ∧ n ≤ data.length ∧
      bb'.Holds (xs ++ data.take n) := by
  obtain hnone | ⟨index, reserved, hreserve, hroom⟩ := h.writeTryReserve data.length
  · exact ⟨0, false, bb, by simp [BipBuffer.writePart, hnone], Nat.zero_le _, by simpa using h⟩
  generalize hn : (if data.length > reserved then reserved else data.length) = n
  have hle : n ≤ data.length ∧ n ≤ reserved := by
    rw [← hn]
    split_ifs <;> omega
  have htake : (data.take n).length = n := List.length_take_of_le hle.1
  have hcopy : copyIn bb.size bb.buffer index (data.take n) =
      some (store bb.buffer index (data.take n)) := copyIn_of_le (by
    rw [htake]
    have := h.fitsA
    unfold BipBuffer.Room at hroom
    omega)
  have hfits : (data.take n).length ≤ reserved := by
    rw [htake]
    exact hle.2
  have hholds := h.writeCommit hroom hfits
  rw [htake] at hholds
  refine ⟨n, n = data.length ∨ n < reserved, _, ?_, hle.1, hholds⟩
  simp only [BipBuffer.writePart, hreserve, hn, hcopy]
  rfl

variable (junk) in
/-- Reserving space may make the buffer grow, and keeps its bytes. -/
theorem writeReserve (h : bb.Holds xs) (size : ℕ) :
    ∃ block bb', bb.writeReserve junk size = some (block, bb') ∧ bb'.Holds xs := by
  -- a reservation alone changes neither of the blocks
  have hreserved {bb : BipBuffer} (h : bb.Holds xs) :
      ∃ block bb', bb.writeTryReserve size = (block, bb') ∧ bb'.Holds xs := by
    obtain hnone | ⟨index, reserved, hreserve, -⟩ := h.writeTryReserve size
    · exact ⟨none, bb, hnone, h⟩
    · exact ⟨_, _, hreserve, h.fitsA, h.fitsB, h.indexA, h.indexB, h.bytes⟩
  obtain ⟨block, bb₁, hreserve₁, hholds₁⟩ := hreserved h
  obtain ⟨bb₂, hgrow, hholds₂⟩ := hholds₁.grow junk size
  obtain ⟨block', bb₃, hreserve₃, hholds₃⟩ := hreserved hholds₂
  unfold BipBuffer.writeReserve
  rw [hreserve₁]
  dsimp only
  split_ifs with hall
  · exact ⟨_, bb₁, rfl, hholds₁⟩
  · exact ⟨block'.map Prod.fst, bb₃, by simp [hgrow, hreserve₃], hholds₃⟩

variable (junk) in
/-- A write accepts the bytes that its status counts. -/
theorem write (h : bb.Holds xs) (data : List UInt8) :
    ∃ status bb', bb.write junk data = some (status, bb') ∧
      bb'.Holds (xs ++ data.take status.toNat) := by
  by_cases hempty : data.length = 0
  · exact ⟨0, bb, by simp [BipBuffer.write, hempty], by simpa using h⟩
  generalize hdata' : (if data.length > SSIZE_MAX then data.take SSIZE_MAX else data) = data'
  have htake {n : ℕ} (hn : n ≤ data'.length) : data'.take n = data.take n := by
    rw [← hdata'] at hn ⊢
    split_ifs at hn ⊢ with hmax
    · rw [List.take_take, Nat.min_eq_left (hn.trans (List.length_take_le SSIZE_MAX data))]
    · rfl
  obtain ⟨block, bb₁, hreserve, hholds₁⟩ := h.writeReserve junk data'.length
  cases block with
  | none =>
    exact ⟨-1, bb₁, by simp [BipBuffer.write, hempty, hdata', hreserve], by simpa using hholds₁⟩
  | some block =>
    obtain ⟨n, done, bb₂, hwrite₂, hn, hholds₂⟩ := hholds₁.writePart data'
    cases done with
    | true =>
      refine ⟨n, bb₂, by simp [BipBuffer.write, hempty, hdata', hreserve, hwrite₂], ?_⟩
      rw [Int.toNat_natCast, ← htake hn]
      exact hholds₂
    | false =>
      obtain ⟨m, done, bb₃, hwrite₃, hm, hholds₃⟩ := hholds₂.writePart (data'.drop n)
      rw [List.length_drop] at hm
      refine ⟨((n + m : ℕ) : ℤ), bb₃,
        by simp [BipBuffer.write, hempty, hdata', hreserve, hwrite₂, hwrite₃], ?_⟩
      rw [Int.toNat_natCast, ← htake (by omega), List.take_add, ← List.append_assoc]
      exact hholds₃

end BipBuffer.Holds

/-! ### Runs -/

theorem holds_bipBufferNew {dwPageSize size : ℕ}
    (h : bipBufferNew junk dwPageSize size = some bb) : bb.Holds [] := by
  unfold bipBufferNew at h
  dsimp only at h
  by_cases hsize : size < 1
  · exact absurd h (by simp [hsize])
  rw [if_neg hsize] at h
  obtain rfl := Option.some.inj h
  exact ⟨Nat.zero_le _, le_rfl, fun _ => rfl, rfl, rfl⟩

/-- A call of a function of a `BipBuffer`. -/
inductive BipOp where
  | write (data : List UInt8)
  | read (size : ℕ)

variable (junk) in
/-- The bytes that a call accepts and those that it returns. -/
def BipOp.run (bb : BipBuffer) : BipOp → Option (List UInt8 × List UInt8 × BipBuffer)
  | write data => do
    let (status, bb) ← bb.write junk data
    return (data.take status.toNat, [], bb)
  | read size =>
    let (data, bb) := bb.read size
    some ([], data, bb)

variable (junk) in
/-- The bytes that a run accepts and those that it returns. -/
def runBip : List BipOp → BipBuffer → Option (List UInt8 × List UInt8 × BipBuffer)
  | [], bb => some ([], [], bb)
  | op :: ops, bb => do
    let (accepted, got, bb) ← op.run junk bb
    let (accepted', got', bb) ← runBip ops bb
    return (accepted ++ accepted', got ++ got', bb)

variable (junk) in
/-- No byte is lost, added or moved by a call. -/
theorem BipBuffer.Holds.step (h : bb.Holds xs) (op : BipOp) :
    ∃ accepted got bb' rest, op.run junk bb = some (accepted, got, bb') ∧
      xs ++ accepted = got ++ rest ∧ bb'.Holds rest := by
  cases op with
  | write data =>
    obtain ⟨status, bb', hwrite, hholds⟩ := h.write junk data
    exact ⟨data.take status.toNat, [], bb', _, by simp [BipOp.run, hwrite], rfl, hholds⟩
  | read size =>
    obtain ⟨data, bb', rest, hread, hxs, hholds⟩ := h.read size
    exact ⟨[], data, bb', rest, by simp [BipOp.run, hread], by rw [List.append_nil, hxs],
      hholds⟩

variable (junk) in
theorem BipBuffer.Holds.run (h : bb.Holds xs) (ops : List BipOp) :
    ∃ accepted got bb' rest, runBip junk ops bb = some (accepted, got, bb') ∧
      xs ++ accepted = got ++ rest ∧ bb'.Holds rest := by
  induction ops generalizing bb xs with
  | nil => exact ⟨[], [], bb, xs, rfl, by simp, h⟩
  | cons op ops ih =>
    obtain ⟨accepted, got, bb₁, rest₁, hrun, hsplit, hholds₁⟩ := h.step junk op
    obtain ⟨accepted', got', bb₂, rest₂, hruns, hsplit', hholds₂⟩ := ih hholds₁
    refine ⟨accepted ++ accepted', got ++ got', bb₂, rest₂, by simp [runBip, hrun, hruns], ?_,
      hholds₂⟩
    rw [← List.append_assoc, hsplit, List.append_assoc, hsplit', List.append_assoc]

/-- In every run the bytes that are read are the first ones of those that have been accepted, and the
used size is the number of the others. -/
theorem runBip_fifo (junk : ℕ → UInt8) (dwPageSize size : ℕ) (ops : List BipOp) {bb : BipBuffer}
    (hnew : bipBufferNew junk dwPageSize size = some bb) :
    ∃ accepted got bb', runBip junk ops bb = some (accepted, got, bb') ∧ got <+: accepted ∧
      bb'.usedSize = accepted.length - got.length := by
  obtain ⟨accepted, got, bb', rest, hrun, hsplit, hholds⟩ :=
    (holds_bipBufferNew hnew).run junk ops
  rw [List.nil_append] at hsplit
  refine ⟨accepted, got, bb', hrun, ⟨rest, hsplit.symm⟩, ?_⟩
  rw [hholds.length_eq, hsplit, List.length_append, Nat.add_sub_cancel_left]

/-- A block B is written and read, and then the buffer grows. -/
theorem runBip_fifo_grow :
    ∃ accepted got bb', runBip (fun _ => 0)
        [.write [1, 2, 3, 4], .read 3, .write [5, 6], .read 2, .write [7, 8, 9, 10, 11]]
        ⟨4, fun _ => 0, 4096, ⟨0, 0⟩, ⟨0, 0⟩, ⟨0, 0⟩⟩ = some (accepted, got, bb') ∧
      got <+: accepted ∧ bb'.usedSize = accepted.length - got.length :=
  runBip_fifo (fun _ => 0) 0 2 _ rfl

end FreeRDP.Buffers

/-!
## The space that `BipBuffer_WriteReserve` returns

Whatever calls have been made, the space that is reserved lies in the buffer, beside the unread bytes
(`BipBuffer.Reserves`).  It is as large as the caller has asked for in the cases of `BipBuffer.Roomy` only
(`writeReserve_iff`): the second attempt, after `BipBuffer_Grow`, is not compared with `size`, and
`BipBuffer_Grow` rounds `size` itself, not the unread bytes and `size`.
-/

namespace FreeRDP.Buffers

open Circular ForwardCopy

variable {junk : ℕ → UInt8} {bb bb' : BipBuffer} {xs : List UInt8} {malloc : Bool} {size : ℕ}

/-! ### What a reservation promises -/

/-- A byte that has been written and not been read. -/
def BipBuffer.Unread (bb : BipBuffer) (i : ℕ) : Prop :=
  bb.blockA.index ≤ i ∧ i < bb.blockA.index + bb.blockA.size ∨
    bb.blockB.index ≤ i ∧ i < bb.blockB.index + bb.blockB.size

instance (bb : BipBuffer) (i : ℕ) : Decidable (bb.Unread i) := inferInstanceAs (Decidable (_ ∨ _))

/-- The `size` bytes at `block` lie in the buffer, and none of them is unread. -/
def BipBuffer.Writable (bb : BipBuffer) (block size : ℕ) : Prop :=
  ∀ i < size, block + i < bb.size ∧ ¬ bb.Unread (block + i)

instance (bb : BipBuffer) (block size : ℕ) : Decidable (bb.Writable block size) :=
  inferInstanceAs (Decidable (∀ i < size, _))

/-- The space behind block A, or before it if that is larger; with a block B, the space between the
blocks. -/
def BipBuffer.room (bb : BipBuffer) : ℕ :=
  if bb.blockB.size = 0 then max (bb.size - bb.blockA.index - bb.blockA.size) bb.blockA.index
  else bb.blockA.index - bb.blockB.index - bb.blockB.size

/-- There are `size` bytes of space, or the buffer will have them when it has grown, or it reserves
nothing. -/
def BipBuffer.Roomy (bb : BipBuffer) (malloc : Bool) (size : ℕ) : Prop :=
  size ≤ bb.room ∨
    if bb.grownSize size ≤ bb.size then bb.room = 0
    else malloc = false ∨ bb.usedSize + size ≤ bb.grownSize size

def BipBuffer.roomIndex (bb : BipBuffer) : ℕ :=
  if bb.blockB.size = 0 then
    if bb.size - bb.blockA.index - bb.blockA.size ≥ bb.blockA.index then
      bb.blockA.index + bb.blockA.size
    else 0
  else bb.blockB.index + bb.blockB.size

/-- The buffer holds some bytes, and the reservation is in its space or in a buffer without any. -/
structure BipBuffer.Reserves (bb : BipBuffer) : Prop where
  holds : ∃ xs, bb.Holds xs
  room : bb.writeR.size = 0 ∨ bb.Room bb.writeR.index bb.writeR.size ∨
    bb.usedSize = 0 ∧ bb.writeR.index + bb.writeR.size ≤ bb.size

/-! ### Attempts -/

/-- An attempt reserves what fits of the bytes that are asked for. -/
theorem writeTryReserve_eq (bb : BipBuffer) (size : ℕ) :
    bb.writeTryReserve size =
      if bb.room = 0 ∨ bb.blockB.size ≠ 0 ∧ size = 0 then (none, bb)
      else (some (bb.roomIndex, min size bb.room),
        { bb with writeR := ⟨bb.roomIndex, min size bb.room⟩ }) := by
  unfold BipBuffer.writeTryReserve BipBuffer.room BipBuffer.roomIndex
  dsimp only
  simp only [← min_def_lt]
  by_cases hB : bb.blockB.size = 0
  · simp only [hB, ne_eq, not_true_eq_false, false_and, or_false, if_true]
    by_cases hbehind : bb.size - bb.blockA.index - bb.blockA.size ≥ bb.blockA.index
    · rw [if_pos hbehind, if_pos hbehind, max_eq_left hbehind]
    · rw [if_neg hbehind, if_neg hbehind, max_eq_right (Nat.le_of_not_le hbehind), min_comm]
  · rw [if_neg hB, if_neg hB, if_neg hB]
    refine if_congr ?_ rfl rfl
    omega

/-- The space ends at an unread byte or with the buffer. -/
theorem BipBuffer.Holds.writable_iff (h : bb.Holds xs) (size : ℕ) :
    bb.Writable bb.roomIndex size ↔ size ≤ bb.room := by
  have hfitsA := h.fitsA
  have hfitsB := h.fitsB
  have hindexA := h.indexA
  have hindexB := h.indexB
  unfold BipBuffer.Writable BipBuffer.Unread BipBuffer.room BipBuffer.roomIndex
  constructor
  · intro hwritable
    by_contra hlong
    have hend := hwritable _ (Nat.lt_of_not_le hlong)
    split_ifs at hend <;> omega
  · intro hle i hi
    split_ifs at hle ⊢ <;> omega

theorem BipBuffer.Holds.room_of_le (h : bb.Holds xs) {n : ℕ} (hle : n ≤ bb.room) :
    bb.Room bb.roomIndex n := by
  have hfitsA := h.fitsA
  have hfitsB := h.fitsB
  have hindexA := h.indexA
  have hindexB := h.indexB
  unfold BipBuffer.room at hle
  unfold BipBuffer.Room BipBuffer.roomIndex
  split_ifs at hle ⊢ <;> omega

/-- An attempt changes the reservation only, and fails to reserve all bytes that are asked for if there is
space, but not enough of it. -/
theorem BipBuffer.Reserves.writeTryReserve (h : bb.Reserves) (size : ℕ) :
    ∃ block w, bb.writeTryReserve size = (block, { bb with writeR := w }) ∧
      BipBuffer.Reserves { bb with writeR := w } ∧ (block.map Prod.snd).getD 0 = min size bb.room ∧
      ((∀ p, block.map Prod.fst = some p → bb.Writable p size) ↔ size ≤ bb.room ∨ bb.room = 0) := by
  obtain ⟨xs, hholds⟩ := h.holds
  rw [writeTryReserve_eq]
  by_cases hnone : bb.room = 0 ∨ bb.blockB.size ≠ 0 ∧ size = 0
  · rw [if_pos hnone]
    refine ⟨none, bb.writeR, rfl, h, ?_, ?_⟩
    · show 0 = _
      omega
    · exact iff_of_true nofun (by omega)
  · rw [if_neg hnone]
    refine ⟨_, _, rfl, ⟨⟨xs, ?_⟩, Or.inr (Or.inl (hholds.room_of_le (min_le_right _ _)))⟩, rfl, ?_⟩
    · exact ⟨hholds.fitsA, hholds.fitsB, hholds.indexA, hholds.indexB, hholds.bytes⟩
    · constructor
      · intro hwritable
        exact Or.inl ((hholds.writable_iff size).mp (hwritable _ rfl))
      · rintro (hle | hzero) p hp
        · cases hp
          exact (hholds.writable_iff size).mpr hle
        · exact absurd (Or.inl hzero) hnone

/-! ### Growing -/

variable (junk) in
/-- The buffer is left alone, or grows, or cannot grow. -/
theorem BipBuffer.Reserves.growMalloc (h : bb.Reserves) (malloc : Bool) (size : ℕ) :
    bb.grownSize size ≤ bb.size ∧ bb.growMalloc junk malloc size = some (true, bb) ∨
      bb.size < bb.grownSize size ∧ malloc = false ∧
        bb.growMalloc junk malloc size = some (false, bb) ∨
      bb.size < bb.grownSize size ∧ malloc = true ∧
        ∃ bb', bb.growMalloc junk malloc size = some (true, bb') ∧
        bb'.Reserves ∧ bb'.room = bb.grownSize size - bb.usedSize := by
  obtain ⟨xs, hholds⟩ := h.holds
  unfold BipBuffer.growMalloc
  by_cases hsmall : bb.grownSize size ≤ bb.size
  · exact Or.inl ⟨hsmall, if_pos hsmall⟩
  refine Or.inr ?_
  rw [if_neg hsmall]
  cases malloc with
  | false => exact Or.inl ⟨Nat.lt_of_not_le hsmall, rfl, rfl⟩
  | true =>
    obtain ⟨bb', hgrow, hholds'⟩ := hholds.grow junk size
    have hgrow' := hholds.grow_eq junk (show _ = bb.grownSize size from rfl) hsmall
    obtain rfl := Option.some.inj (hgrow.symm.trans hgrow')
    refine Or.inr ⟨Nat.lt_of_not_le hsmall, rfl, _, ?_, ⟨⟨xs, hholds'⟩, Or.inl rfl⟩, ?_⟩
    · rw [if_pos rfl, hgrow]
      rfl
    · exact max_eq_left (Nat.zero_le _)

variable (junk) in
/-- What is returned has room for the bytes that are asked for if and only if the buffer is roomy. -/
theorem BipBuffer.Reserves.writeReserve (h : bb.Reserves) (malloc : Bool) (size : ℕ) :
    ∃ block bb', bb.writeReserveMalloc junk malloc size = some (block, bb') ∧ bb'.Reserves ∧
      ((∀ p, block = some p → bb'.Writable p size) ↔ bb.Roomy malloc size) := by
  obtain ⟨xs, hholds⟩ := h.holds
  have hused : bb.usedSize ≤ bb.size := by
    have hfitsA := hholds.fitsA
    have hfitsB := hholds.fitsB
    unfold BipBuffer.usedSize
    omega
  obtain ⟨block, w, htry, hbb₁, hreserved, hgood⟩ := h.writeTryReserve size
  unfold BipBuffer.writeReserveMalloc BipBuffer.Roomy
  rw [htry]
  dsimp only
  rw [hreserved]
  by_cases hroom : size ≤ bb.room
  · rw [if_pos (min_eq_left hroom)]
    exact ⟨_, _, rfl, hbb₁, hgood.trans (iff_of_true (Or.inl hroom) (Or.inl hroom))⟩
  rw [if_neg (by omega), or_iff_right hroom]
  obtain ⟨hsmall, hgrow⟩ | ⟨hlarge, rfl, hgrow⟩ | ⟨hlarge, rfl, bb₂, hgrow, hbb₂, hroom₂⟩ :=
    hbb₁.growMalloc junk malloc size
  · -- the second attempt finds the same space as the first
    obtain ⟨block₂, w₂, htry₂, hbb₃, -, hgood₂⟩ := hbb₁.writeTryReserve size
    rw [hgrow, Option.bind_eq_bind, Option.bind_some]
    dsimp only
    rw [if_pos rfl, htry₂]
    refine ⟨_, _, rfl, hbb₃, hgood₂.trans ?_⟩
    rw [if_pos (show bb.grownSize size ≤ bb.size from hsmall)]
    exact or_iff_right hroom
  · rw [hgrow, Option.bind_eq_bind, Option.bind_some]
    refine ⟨none, _, rfl, hbb₁, iff_of_true nofun ?_⟩
    rw [if_neg (show ¬ bb.grownSize size ≤ bb.size from Nat.not_le_of_lt hlarge)]
    exact Or.inl rfl
  · obtain ⟨block₂, w₂, htry₂, hbb₃, -, hgood₂⟩ := hbb₂.writeTryReserve size
    rw [hgrow, Option.bind_eq_bind, Option.bind_some]
    dsimp only
    rw [if_pos rfl, htry₂]
    refine ⟨_, _, rfl, hbb₃, hgood₂.trans ?_⟩
    have hroom₂' : bb₂.room = bb.grownSize size - bb.usedSize := hroom₂
    have hlarge' : bb.size < bb.grownSize size := hlarge
    rw [if_neg (Nat.not_le_of_lt hlarge'), hroom₂']
    constructor
    · intro hle
      exact Or.inr (by omega)
    · rintro (hfalse | hle)
      · cases hfalse
      · exact Or.inl (by omega)

/-! ### The other calls -/

theorem writeR_writeCommit (bb : BipBuffer) (size : ℕ) : (bb.writeCommit size).writeR = bipBlockClear := by
  unfold BipBuffer.writeCommit
  dsimp only
  split_ifs <;> rfl

theorem BipBuffer.Reserves.writeCommit (h : bb.Reserves) {data : List UInt8}
    (hdata : data.length ≤ bb.writeR.size) :
    BipBuffer.Reserves
      ({ bb with buffer := store bb.buffer bb.writeR.index data }.writeCommit data.length) := by
  obtain ⟨xs, hholds⟩ := h.holds
  refine ⟨?_, Or.inl (congrArg BipBlock.size (writeR_writeCommit _ _))⟩
  by_cases hempty : data.length = 0
  · obtain rfl := List.eq_nil_of_length_eq_zero hempty
    exact ⟨xs, hholds.fitsA, hholds.fitsB, hholds.indexA, hholds.indexB, hholds.bytes⟩
  obtain hzero | hroom | ⟨hnone, hfits⟩ := h.room
  · exact absurd hdata (by omega)
  · exact ⟨xs ++ data, hholds.writeCommit hroom hdata⟩
  · -- all bytes have been read since the reservation: those that are committed become block A
    obtain ⟨hA, hB⟩ := Nat.add_eq_zero_iff.mp hnone
    have hall : ¬ data.length > bb.writeR.size := Nat.not_lt_of_le hdata
    unfold BipBuffer.writeCommit
    dsimp only
    rw [if_neg hempty, if_neg hall, if_pos ⟨hA, hB⟩]
    refine ⟨data, ⟨?_, ?_, fun hzero => absurd hzero hempty, hholds.indexB, ?_⟩⟩
    · dsimp only
      omega
    · dsimp only
      omega
    · dsimp only
      rw [hB, slice_store]
      exact List.append_nil _

theorem BipBuffer.Reserves.readCommit (h : bb.Reserves) (size : ℕ) : (bb.readCommit size).Reserves := by
  obtain ⟨xs, hholds⟩ := h.holds
  have hfitsA := hholds.fitsA
  have hfitsB := hholds.fitsB
  have hindexB := hholds.indexB
  have hroom := h.room
  refine ⟨⟨_, hholds.readCommit size⟩, ?_⟩
  unfold BipBuffer.readCommit
  unfold BipBuffer.Room BipBuffer.usedSize at hroom ⊢
  by_cases hall : size ≥ bb.blockA.size
  · rw [if_pos hall]
    dsimp only [bipBlockClear]
    omega
  · rw [if_neg hall]
    dsimp only
    omega

variable (junk) in
theorem BipBuffer.Reserves.exists_growMalloc (h : bb.Reserves) (malloc : Bool) (size : ℕ) :
    ∃ grown bb', bb.growMalloc junk malloc size = some (grown, bb') ∧ bb'.Reserves := by
  obtain ⟨-, hgrow⟩ | ⟨-, -, hgrow⟩ | ⟨-, -, bb', hgrow, hbb', -⟩ := h.growMalloc junk malloc size
  · exact ⟨_, _, hgrow, h⟩
  · exact ⟨_, _, hgrow, h⟩
  · exact ⟨_, _, hgrow, hbb'⟩

variable (junk) in
theorem BipBuffer.Reserves.readReserve (h : bb.Reserves) (malloc : Bool) (size : ℕ) :
    ∃ block bb', bb.readReserveMalloc junk malloc size = some (block, bb') ∧ bb'.Reserves := by
  unfold BipBuffer.readReserveMalloc
  dsimp only
  by_cases hfew : bb.usedSize < size
  · exact ⟨_, _, if_pos hfew, h⟩
  rw [if_neg hfew]
  by_cases hall : ((bb.readTryReserve size).map Prod.snd).getD 0 = size
  · exact ⟨_, _, if_pos hall, h⟩
  obtain ⟨grown, bb', hgrow, hbb'⟩ := h.exists_growMalloc junk malloc ((bb.size + 1) % 2 ^ 64)
  rw [if_neg hall, hgrow, Option.bind_eq_bind, Option.bind_some]
  dsimp only
  by_cases hgrown : grown ∧ ((bb'.readTryReserve size).map Prod.snd).getD 0 = size
  · exact ⟨_, _, if_pos hgrown, hbb'⟩
  · exact ⟨_, _, if_neg hgrown, hbb'⟩

theorem BipBuffer.Reserves.writePart (h : bb.Reserves) (data : List UInt8) :
    ∃ n done bb', bb.writePart data = some (n, done, bb') ∧ bb'.Reserves := by
  obtain ⟨xs, hholds⟩ := h.holds
  obtain hnone | ⟨index, reserved, hreserve, -⟩ := hholds.writeTryReserve data.length
  · exact ⟨0, false, bb, by rw [BipBuffer.writePart, hnone], h⟩
  obtain ⟨n, done, bb', hwrite, -, hholds'⟩ := hholds.writePart data
  refine ⟨n, done, bb', hwrite, ⟨_, hholds'⟩, Or.inl ?_⟩
  rw [BipBuffer.writePart, hreserve] at hwrite
  obtain ⟨buffer, -, hcommit⟩ := Option.bind_eq_some_iff.mp hwrite
  cases hcommit
  exact congrArg BipBlock.size (writeR_writeCommit _ _)

variable (junk) in
theorem BipBuffer.Reserves.write (h : bb.Reserves) (malloc : Bool) (data : List UInt8) :
    ∃ status bb', bb.writeMalloc junk malloc data = some (status, bb') ∧ bb'.Reserves := by
  unfold BipBuffer.writeMalloc
  dsimp only
  by_cases hempty : data.length = 0
  · exact ⟨_, _, if_pos hempty, h⟩
  rw [if_neg hempty]
  generalize (if data.length > SSIZE_MAX then data.take SSIZE_MAX else data) = data'
  obtain ⟨block, bb₁, hreserve, hbb₁, -⟩ := h.writeReserve junk malloc data'.length
  rw [hreserve, Option.bind_eq_bind, Option.bind_some]
  cases block with
  | none => exact ⟨_, _, rfl, hbb₁⟩
  | some block =>
    obtain ⟨n, done, bb₂, hwrite₂, hbb₂⟩ := hbb₁.writePart data'
    dsimp only
    rw [hwrite₂, Option.bind_eq_bind, Option.bind_some]
    cases done with
    | true => exact ⟨_, _, rfl, hbb₂⟩
    | false =>
      obtain ⟨m, done, bb₃, hwrite₃, hbb₃⟩ := hbb₂.writePart (data'.drop n)
      dsimp only
      rw [if_neg Bool.false_ne_true, hwrite₃]
      exact ⟨_, _, rfl, hbb₃⟩

/-! ### Runs -/

theorem BipBuffer.Reserves.step (h : bb.Reserves) {call : BipCall} (hstep : call.Step junk bb bb') :
    bb'.Reserves := by
  cases call with
  | writeReserve malloc size =>
    obtain ⟨block, hcall⟩ := hstep
    obtain ⟨block', bb'', hcall', hbb'', -⟩ := h.writeReserve junk malloc size
    cases hcall.symm.trans hcall'
    exact hbb''
  | writeCommit data =>
    obtain ⟨hdata, rfl⟩ := hstep
    exact h.writeCommit hdata
  | write malloc data =>
    obtain ⟨status, hcall⟩ := hstep
    obtain ⟨status', bb'', hcall', hbb''⟩ := h.write junk malloc data
    cases hcall.symm.trans hcall'
    exact hbb''
  | readReserve malloc size =>
    obtain ⟨block, hcall⟩ := hstep
    obtain ⟨block', bb'', hcall', hbb''⟩ := h.readReserve junk malloc size
    cases hcall.symm.trans hcall'
    exact hbb''
  | readCommit size =>
    cases hstep
    exact h.readCommit size

theorem reserves_bipBufferNew {dwPageSize : ℕ} (h : bipBufferNew junk dwPageSize size = some bb) :
    bb.Reserves := by
  refine ⟨⟨[], holds_bipBufferNew h⟩, Or.inl ?_⟩
  unfold bipBufferNew at h
  dsimp only at h
  by_cases hsize : size < 1
  · rw [if_pos hsize] at h
    cases h
  · rw [if_neg hsize] at h
    cases h
    rfl

/-- After any calls, the space that `BipBuffer_WriteReserve` returns is as large as the caller has asked
for if and only if the buffer is roomy. -/
theorem writeReserve_iff (junk : ℕ → UInt8) (dwPageSize newSize : ℕ) {bb₀ bb : BipBuffer}
    {calls : List BipCall} (hnew : bipBufferNew junk dwPageSize newSize = some bb₀)
    (hrun : Runs (BipCall.Step junk) bb₀ calls bb) (malloc : Bool) (size : ℕ) :
    ∃ block bb', bb.writeReserveMalloc junk malloc size = some (block, bb') ∧
      ((∀ p, block = some p → bb'.Writable p size) ↔ bb.Roomy malloc size) := by
  have hbb : bb.Reserves := hrun.invariant (reserves_bipBufferNew hnew) fun _ _ _ ht hstep => ht.step hstep
  obtain ⟨block, bb', hreserve, -, hgood⟩ := hbb.writeReserve junk malloc size
  exact ⟨block, bb', hreserve, hgood⟩

def newBuffer : BipBuffer := ⟨8, fun _ => 0, 4096, ⟨0, 0⟩, ⟨0, 0⟩, ⟨0, 0⟩⟩

/-- Six of the bytes have been written. -/
def tightBuffer : BipBuffer :=
  ⟨8, store (fun _ => 0) 0 [1, 2, 3, 4, 5, 6], 4096, ⟨0, 6⟩, ⟨0, 0⟩, ⟨0, 0⟩⟩

theorem runs_tightBuffer :
    Runs (BipCall.Step fun _ => 0) newBuffer [.writeReserve true 6, .writeCommit [1, 2, 3, 4, 5, 6]]
      tightBuffer := by
  have hreserve : Runs (BipCall.Step fun _ => 0) newBuffer [.writeReserve true 6]
      { newBuffer with writeR := ⟨0, 6⟩ } := Runs.nil.snoc ⟨some 0, rfl⟩
  exact hreserve.snoc ⟨by decide, rfl⟩

theorem writeReserve_iff_tightBuffer :
    ∃ block bb', tightBuffer.writeReserveMalloc (fun _ => 0) true 2 = some (block, bb') ∧
      ((∀ p, block = some p → bb'.Writable p 2) ↔ tightBuffer.Roomy true 2) :=
  writeReserve_iff (fun _ => 0) 4096 4 (show _ = some newBuffer from rfl) runs_tightBuffer true 2

/-- Three bytes are asked for, and there are two. -/
theorem not_writeReserve_three :
    ¬ ∀ (junk : ℕ → UInt8) (dwPageSize newSize : ℕ) (bb₀ bb : BipBuffer) (calls : List BipCall),
      bipBufferNew junk dwPageSize newSize = some bb₀ → Runs (BipCall.Step junk) bb₀ calls bb →
      ∀ malloc size, ∃ block bb', bb.writeReserveMalloc junk malloc size = some (block, bb') ∧
        ∀ p, block = some p → bb'.Writable p size := by
  intro h
  obtain ⟨block, bb', hreserve, hwritable⟩ :=
    h (fun _ => 0) 4096 4 newBuffer tightBuffer _ rfl runs_tightBuffer true 3
  cases hreserve
  exact absurd (hwritable 6 rfl) (by decide)

end FreeRDP.Buffers
