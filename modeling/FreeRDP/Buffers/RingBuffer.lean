import FreeRDP.Lib.Circular

/-!
# Memory of the byte buffers

The ring buffer of the transport and the `BipBuffer` keep bytes in allocated memory.  Memory is a
function of the index, and a copy that ends beyond it gives `none`.
-/

namespace FreeRDP.Buffers

open ForwardCopy

/-- The bytes `l` are copied to `dst` in a memory of `size` bytes. -/
def copyIn (size : ℕ) (mem : ℕ → UInt8) (dst : ℕ) (l : List UInt8) : Option (ℕ → UInt8) :=
  if dst + l.length ≤ size then some (store mem dst l) else none

theorem copyIn_of_le {size dst : ℕ} {mem : ℕ → UInt8} {l : List UInt8} (h : dst + l.length ≤ size) :
    copyIn size mem dst l = some (store mem dst l) := if_pos h

end FreeRDP.Buffers

/-!
## The ring buffer of the transport

`utils/ringbuffer.c`: bytes from `readPtr` on, around the end of the buffer, up to `writePtr`.  The two
are equal in an empty buffer and in a full one; `freeSize` tells them apart.

`junk` are the bytes of memory that has just been allocated.  A `size_t` has 64 bits.  A function that
copies bytes beyond the end of the buffer returns `none`.  Allocations succeed.
-/

namespace FreeRDP.Buffers

open Circular ForwardCopy

structure RingBuffer where
  initialSize : ℕ
  freeSize : ℕ
  size : ℕ
  readPtr : ℕ
  writePtr : ℕ
  buffer : ℕ → UInt8

variable (junk : ℕ → UInt8)

def ringbufferInit (initialSize : ℕ) : RingBuffer where
  initialSize := initialSize
  freeSize := initialSize
  size := initialSize
  readPtr := 0
  writePtr := 0
  buffer := junk

def ringbufferUsed (rb : RingBuffer) : ℕ := rb.size - rb.freeSize

/-- `realloc` of a memory of `size` bytes to `targetSize` bytes. -/
def reallocated (size targetSize : ℕ) (mem : ℕ → UInt8) : ℕ → UInt8 := fun i =>
  if i < min size targetSize then mem i else junk i

/-- The last branch of `ringbuffer_realloc`: the used bytes are copied to new memory. -/
def linearized (rb : RingBuffer) (targetSize : ℕ) : Option (ℕ → UInt8) :=
  if rb.readPtr < rb.writePtr then
    copyIn targetSize junk 0 (slice rb.buffer rb.readPtr (ringbufferUsed rb))
  else do
    let newData ← copyIn targetSize junk 0 (slice rb.buffer rb.readPtr (rb.size - rb.readPtr))
    copyIn targetSize newData (rb.size - rb.readPtr) (slice rb.buffer 0 rb.writePtr)

def ringbufferRealloc (targetSize : ℕ) (rb : RingBuffer) : Option RingBuffer :=
  let freeSize := (rb.freeSize + (targetSize + 2 ^ 64 - rb.size)) % 2 ^ 64
  if rb.writePtr = rb.readPtr then
    some
      { rb with
        freeSize := freeSize, size := targetSize, readPtr := 0, writePtr := 0
        buffer := reallocated junk rb.size targetSize rb.buffer }
  else if rb.writePtr ≥ rb.readPtr ∧ rb.writePtr < targetSize then
    some
      { rb with
        freeSize := freeSize, size := targetSize
        buffer := reallocated junk rb.size targetSize rb.buffer }
  else do
    let newData ← linearized junk rb targetSize
    return { rb with
      freeSize := freeSize, size := targetSize, readPtr := 0
      writePtr := rb.size - rb.freeSize, buffer := newData }

def ringbufferWrite (data : List UInt8) (rb : RingBuffer) : Option RingBuffer := do
  let sz := data.length
  let rb ← (if rb.freeSize ≤ sz then ringbufferRealloc junk ((rb.size + sz) % 2 ^ 64) rb
    else some rb : Option RingBuffer)
  let toWrite := if rb.size - rb.writePtr < sz then rb.size - rb.writePtr else sz
  let buffer ← copyIn rb.size rb.buffer rb.writePtr (data.take toWrite)
  let buffer ← copyIn rb.size buffer 0 (data.drop toWrite)
  return { rb with
    buffer := buffer
    writePtr := (rb.writePtr + sz) % 2 ^ 64 % rb.size
    freeSize := (rb.freeSize + 2 ^ 64 - sz) % 2 ^ 64 }

/-- `ringbuffer_ensure_linear_write`.  It returns the place in the buffer where `sz` bytes may be
written. -/
def ringbufferEnsureLinearWrite (sz : ℕ) (rb : RingBuffer) : Option (ℕ × RingBuffer) := do
  let rb ← (if rb.freeSize < sz then
      ringbufferRealloc junk ((rb.size + sz + 2 ^ 64 - rb.freeSize + 32) % 2 ^ 64) rb
    else some rb : Option RingBuffer)
  let rb := if rb.writePtr = rb.readPtr then { rb with writePtr := 0, readPtr := 0 } else rb
  if (rb.writePtr + sz) % 2 ^ 64 < rb.size then some (rb.writePtr, rb)
  else do
    let count := (rb.writePtr + 2 ^ 64 - rb.readPtr) % 2 ^ 64
    let buffer ← copyIn rb.size rb.buffer 0 (slice rb.buffer rb.readPtr count)
    let rb := { rb with buffer := buffer, readPtr := 0, writePtr := rb.size - rb.freeSize }
    return (rb.writePtr, rb)

def ringbufferCommitWrittenBytes (sz : ℕ) (rb : RingBuffer) : Bool × RingBuffer :=
  if sz < 1 then (true, rb)
  else if (rb.writePtr + sz) % 2 ^ 64 > rb.size then (false, rb)
  else
    (true,
      { rb with
        writePtr := (rb.writePtr + sz) % 2 ^ 64 % rb.size
        freeSize := (rb.freeSize + 2 ^ 64 - sz) % 2 ^ 64 })

/-- `ringbuffer_peek`: the chunks, one or two of them. -/
def ringbufferPeek (sz : ℕ) (rb : RingBuffer) : List (List UInt8) :=
  if sz < 1 then []
  else
    let remaining := if rb.size - rb.freeSize < sz then rb.size - rb.freeSize else sz
    let toRead := if rb.readPtr + remaining > rb.size then rb.size - rb.readPtr else remaining
    (if toRead ≠ 0 then [slice rb.buffer rb.readPtr toRead] else []) ++
      if remaining - toRead ≠ 0 then [slice rb.buffer 0 (remaining - toRead)] else []

def ringbufferCommitReadBytes (sz : ℕ) (rb : RingBuffer) : Option RingBuffer :=
  if sz < 1 then some rb
  else
    let rb :=
      { rb with
        readPtr := (rb.readPtr + sz) % 2 ^ 64 % rb.size
        freeSize := (rb.freeSize + sz) % 2 ^ 64 }
    if rb.size ≠ rb.initialSize ∧ ringbufferUsed rb < rb.initialSize / 2 then
      ringbufferRealloc junk rb.initialSize rb
    else some rb

end FreeRDP.Buffers
