import FreeRDP.Buffers.RingBuffer

/-!
# `BipBuffer`

`BipBuffer.c` of `winpr/libwinpr/utils/collections`: a buffer with two blocks of bytes.  Block B, if it
exists, lies in front of block A, and its bytes come behind those of block A.

`junk` are the bytes of memory that has just been allocated.  Allocations succeed, and a function that
copies bytes beyond the end of the buffer returns `none`.
-/

namespace FreeRDP.Buffers

open Circular

/-- `wBipBlock`. -/
structure BipBlock where
  index : ℕ
  size : ℕ
deriving DecidableEq, Repr

def bipBlockClear : BipBlock := ⟨0, 0⟩

/-- `wBipBuffer`.  Nothing reads `readR`. -/
structure BipBuffer where
  size : ℕ
  buffer : ℕ → UInt8
  pageSize : ℕ
  blockA : BipBlock
  blockB : BipBlock
  writeR : BipBlock

def SSIZE_MAX : ℕ := 2 ^ 63 - 1

variable (junk : ℕ → UInt8)

/-- `BipBuffer_New` on a system with pages of `dwPageSize` bytes. -/
def bipBufferNew (dwPageSize size : ℕ) : Option BipBuffer :=
  let pageSize := if dwPageSize < 4096 then 4096 else dwPageSize
  if size < 1 then none
  else
    some
      { size := (size + size % pageSize) % 2 ^ 64, buffer := junk, pageSize := pageSize
        blockA := bipBlockClear, blockB := bipBlockClear, writeR := bipBlockClear }

def BipBuffer.usedSize (bb : BipBuffer) : ℕ := bb.blockA.size + bb.blockB.size

/-! ### Reading -/

/-- `BipBuffer_ReadTryReserve`: where the bytes are that may be read, and how many. -/
def BipBuffer.readTryReserve (size : ℕ) (bb : BipBuffer) : Option (ℕ × ℕ) :=
  if bb.blockA.size = 0 then none
  else
    some (bb.blockA.index,
      if size ≠ 0 ∧ bb.blockA.size > size then size else bb.blockA.size)

def BipBuffer.readCommit (size : ℕ) (bb : BipBuffer) : BipBuffer :=
  if size ≥ bb.blockA.size then { bb with blockA := bb.blockB, blockB := bipBlockClear }
  else { bb with blockA := ⟨bb.blockA.index + size, bb.blockA.size - size⟩ }

/-- One of the two parts of `BipBuffer_Read`, which still has to read `size` bytes: the bytes that it
reads, and whether the function returns. -/
def BipBuffer.readPart (size : ℕ) (bb : BipBuffer) : List UInt8 × Bool × BipBuffer :=
  match bb.readTryReserve 0 with
  | none => ([], false, bb)
  | some (block, blockSize) =>
    let readSize := if size > blockSize then blockSize else size
    (slice bb.buffer block readSize, readSize = size ∨ readSize < blockSize, bb.readCommit readSize)

/-- `BipBuffer_Read`: the bytes that it reads.  It returns their number. -/
def BipBuffer.read (size : ℕ) (bb : BipBuffer) : List UInt8 × BipBuffer :=
  if size = 0 then ([], bb)
  else
    let size := if size > SSIZE_MAX then SSIZE_MAX else size
    let (data, done, bb) := bb.readPart size
    if done then (data, bb)
    else
      let (data', _, bb) := bb.readPart (size - data.length)
      (data ++ data', bb)

/-! ### Growing -/

/-- One of the two parts of `BipBuffer_Grow` that copy a block to `buffer`, a memory of `size` bytes
with `commitSize` bytes in it. -/
def BipBuffer.growPart (size : ℕ) (buffer : ℕ → UInt8) (commitSize : ℕ) (bb : BipBuffer) :
    Option ((ℕ → UInt8) × ℕ × BipBuffer) :=
  match bb.readTryReserve 0 with
  | none => some (buffer, commitSize, bb)
  | some (block, blockSize) => do
    let buffer ← copyIn size buffer commitSize (slice bb.buffer block blockSize)
    return (buffer, commitSize + blockSize, bb.readCommit blockSize)

def BipBuffer.grow (size : ℕ) (bb : BipBuffer) : Option BipBuffer :=
  let size := (size + size % bb.pageSize) % 2 ^ 64
  if size ≤ bb.size then some bb
  else do
    let (buffer, commitSize, bb) ← bb.growPart size junk 0
    let (buffer, commitSize, bb) ← bb.growPart size buffer commitSize
    return { bb with
      size := size, buffer := buffer, blockA := ⟨0, commitSize⟩, blockB := bipBlockClear
      writeR := bipBlockClear }

/-! ### Writing -/

/-- `BipBuffer_WriteTryReserve`: where bytes may be written, and how many. -/
def BipBuffer.writeTryReserve (size : ℕ) (bb : BipBuffer) : Option (ℕ × ℕ) × BipBuffer :=
  if bb.blockB.size = 0 then
    let reservable := bb.size - bb.blockA.index - bb.blockA.size
    if reservable ≥ bb.blockA.index then
      if reservable = 0 then (none, bb)
      else
        let reservable := if size < reservable then size else reservable
        let index := bb.blockA.index + bb.blockA.size
        (some (index, reservable), { bb with writeR := ⟨index, reservable⟩ })
    else if bb.blockA.index = 0 then (none, bb)
    else
      let size := if bb.blockA.index < size then bb.blockA.index else size
      (some (0, size), { bb with writeR := ⟨0, size⟩ })
  else
    let reservable := bb.blockA.index - bb.blockB.index - bb.blockB.size
    let reservable := if size < reservable then size else reservable
    if reservable = 0 then (none, bb)
    else
      let index := bb.blockB.index + bb.blockB.size
      (some (index, reservable), { bb with writeR := ⟨index, reservable⟩ })

def BipBuffer.writeReserve (size : ℕ) (bb : BipBuffer) : Option (Option ℕ × BipBuffer) :=
  let (block, bb) := bb.writeTryReserve size
  if (block.map Prod.snd).getD 0 = size then some (block.map Prod.fst, bb)
  else do
    let bb ← bb.grow junk size
    let (block, bb) := bb.writeTryReserve size
    return (block.map Prod.fst, bb)

def BipBuffer.writeCommit (size : ℕ) (bb : BipBuffer) : BipBuffer :=
  if size = 0 then { bb with writeR := bipBlockClear }
  else
    let size := if size > bb.writeR.size then bb.writeR.size else size
    if bb.blockA.size = 0 ∧ bb.blockB.size = 0 then
      { bb with blockA := ⟨bb.writeR.index, size⟩, writeR := bipBlockClear }
    else if bb.writeR.index = bb.blockA.size + bb.blockA.index then
      { bb with blockA.size := bb.blockA.size + size, writeR := bipBlockClear }
    else { bb with blockB.size := bb.blockB.size + size, writeR := bipBlockClear }

/-- One of the two parts of `BipBuffer_Write`, which still has to write `data`: the number of bytes that
it writes, and whether the function returns. -/
def BipBuffer.writePart (data : List UInt8) (bb : BipBuffer) : Option (ℕ × Bool × BipBuffer) :=
  match bb.writeTryReserve data.length with
  | (none, bb) => some (0, false, bb)
  | (some (block, blockSize), bb) => do
    let writeSize := if data.length > blockSize then blockSize else data.length
    let buffer ← copyIn bb.size bb.buffer block (data.take writeSize)
    return (writeSize, writeSize = data.length ∨ writeSize < blockSize,
      { bb with buffer := buffer }.writeCommit writeSize)

/-- `BipBuffer_Write`: the number that it returns. -/
def BipBuffer.write (data : List UInt8) (bb : BipBuffer) : Option (ℤ × BipBuffer) :=
  if data.length = 0 then some (0, bb)
  else do
    let data := if data.length > SSIZE_MAX then data.take SSIZE_MAX else data
    let (block, bb) ← bb.writeReserve junk data.length
    match block with
    | none => return (-1, bb)
    | some _ =>
      let (status, done, bb) ← bb.writePart data
      if done then return ((status : ℤ), bb)
      else do
        let (written, _, bb) ← bb.writePart (data.drop status)
        return (((status + written : ℕ) : ℤ), bb)

end FreeRDP.Buffers

/-!
## Reservations of a `BipBuffer`

The functions of `BipBuffer.c` that allocate memory, when `malloc` may fail, and calls of the functions in
any order.  `malloc` says whether the allocation that a call makes succeeds: no call makes two.

A caller that has reserved space puts its bytes there itself, and then commits them.
-/

namespace FreeRDP.Buffers

open ForwardCopy

variable (junk : ℕ → UInt8)

/-- The size to which `BipBuffer_Grow` rounds. -/
def BipBuffer.grownSize (bb : BipBuffer) (size : ℕ) : ℕ := (size + size % bb.pageSize) % 2 ^ 64

/-- `BipBuffer_Grow`, and whether it returns `TRUE`. -/
def BipBuffer.growMalloc (malloc : Bool) (size : ℕ) (bb : BipBuffer) : Option (Bool × BipBuffer) :=
  if bb.grownSize size ≤ bb.size then some (true, bb)
  else if malloc then (bb.grow junk size).map fun bb => (true, bb)
  else some (false, bb)

def BipBuffer.writeReserveMalloc (malloc : Bool) (size : ℕ) (bb : BipBuffer) :
    Option (Option ℕ × BipBuffer) :=
  let (block, bb) := bb.writeTryReserve size
  if (block.map Prod.snd).getD 0 = size then some (block.map Prod.fst, bb)
  else do
    let (grown, bb) ← bb.growMalloc junk malloc size
    if grown then
      let (block, bb) := bb.writeTryReserve size
      return (block.map Prod.fst, bb)
    else return (none, bb)

/-- `BipBuffer_Write`: the number that it returns. -/
def BipBuffer.writeMalloc (malloc : Bool) (data : List UInt8) (bb : BipBuffer) :
    Option (ℤ × BipBuffer) :=
  if data.length = 0 then some (0, bb)
  else do
    let data := if data.length > SSIZE_MAX then data.take SSIZE_MAX else data
    let (block, bb) ← bb.writeReserveMalloc junk malloc data.length
    match block with
    | none => return (-1, bb)
    | some _ =>
      let (status, done, bb) ← bb.writePart data
      if done then return ((status : ℤ), bb)
      else do
        let (written, _, bb) ← bb.writePart (data.drop status)
        return (((status + written : ℕ) : ℤ), bb)

def BipBuffer.readReserveMalloc (malloc : Bool) (size : ℕ) (bb : BipBuffer) :
    Option (Option ℕ × BipBuffer) :=
  if bb.usedSize < size then some (none, bb)
  else
    let block := bb.readTryReserve size
    if (block.map Prod.snd).getD 0 = size then some (block.map Prod.fst, bb)
    else do
      let (grown, bb) ← bb.growMalloc junk malloc ((bb.size + 1) % 2 ^ 64)
      let block := bb.readTryReserve size
      if grown ∧ (block.map Prod.snd).getD 0 = size then return (block.map Prod.fst, bb)
      else return (none, bb)

/-- A call of a function of a `BipBuffer`. -/
inductive BipCall where
  | writeReserve (malloc : Bool) (size : ℕ)
  /-- the bytes of the reservation that are committed -/
  | writeCommit (data : List UInt8)
  | write (malloc : Bool) (data : List UInt8)
  | readReserve (malloc : Bool) (size : ℕ)
  | readCommit (size : ℕ)

/-- A call leads from one state to the next.  No more is committed than has been reserved. -/
def BipCall.Step (bb : BipBuffer) : BipCall → BipBuffer → Prop
  | writeReserve malloc size, bb' => ∃ block, bb.writeReserveMalloc junk malloc size = some (block, bb')
  | writeCommit data, bb' =>
    data.length ≤ bb.writeR.size ∧
      bb' = { bb with buffer := store bb.buffer bb.writeR.index data }.writeCommit data.length
  | write malloc data, bb' => ∃ status, bb.writeMalloc junk malloc data = some (status, bb')
  | readReserve malloc size, bb' => ∃ block, bb.readReserveMalloc junk malloc size = some (block, bb')
  | readCommit size, bb' => bb' = bb.readCommit size

end FreeRDP.Buffers
