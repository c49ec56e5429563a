import Mathlib.Data.Nat.Bitwise

/-!
# The winpr bit stream

A `wBitStream` walks a byte buffer most significant bit first.  A reader keeps the next 32 bits
in `accumulator` and the bits up to the following 64-bit boundary in `prefetch`; a writer collects
bits from the top of `accumulator` and stores four bytes at a time.

The `UINT32` members are natural numbers, reduced modulo `2 ^ 32` where the C arithmetic can leave
the range.  `pointer` is the distance from `buffer`.  The member `mask` only carries a value from
one statement to the next inside a function and is a local here.
-/

namespace FreeRDP

/-- `struct _wBitStream`. -/
structure BitStream where
  buffer : ℕ → UInt8
  pointer : ℕ
  position : ℕ
  length : ℕ
  capacity : ℕ
  offset : ℕ
  prefetch : ℕ
  accumulator : ℕ

namespace BitStream

/-- `BitStream_New`: the zeroed stream. -/
def new : BitStream where
  buffer := fun _ => 0
  pointer := 0
  position := 0
  length := 0
  capacity := 0
  offset := 0
  prefetch := 0
  accumulator := 0

def attach (bs : BitStream) (buffer : ℕ → UInt8) (capacity : ℕ) : BitStream :=
  { bs with
    position := 0
    buffer := buffer
    offset := 0
    accumulator := 0
    pointer := 0
    capacity := capacity
    length := capacity * 8 % 2 ^ 32 }

/-- The byte at `pointer + k` shifted left by `s`, or `0` at or past `capacity`: one guarded line
of `BitStream_Prefetch` and `BitStream_Fetch`. -/
def fetchByte (bs : BitStream) (k s : ℕ) : ℕ :=
  if (bs.pointer + k) % 2 ^ 32 < bs.capacity then (bs.buffer (bs.pointer + k)).toNat <<< s else 0

/-- The four bytes from `pointer + k` on, as a big-endian word. -/
def fetchWord (bs : BitStream) (k : ℕ) : ℕ :=
  bs.fetchByte k 24 ||| bs.fetchByte (k + 1) 16 ||| bs.fetchByte (k + 2) 8 ||| bs.fetchByte (k + 3) 0

def prefetchWord (bs : BitStream) : BitStream :=
  { bs with prefetch := bs.fetchWord 4 }

def fetch (bs : BitStream) : BitStream :=
  { bs with accumulator := bs.fetchWord 0 }.prefetchWord

/-- One guarded line of `BitStream_Flush`: the low byte of `v` stored at `pointer + k`. -/
def storeByte (bs : BitStream) (k v : ℕ) (buffer : ℕ → UInt8) : ℕ → UInt8 :=
  if (bs.pointer + k) % 2 ^ 32 < bs.capacity then
    Function.update buffer (bs.pointer + k) (UInt8.ofNat v)
  else buffer

def flush (bs : BitStream) : BitStream :=
  let buffer := bs.storeByte 0 (bs.accumulator >>> 24) bs.buffer
  let buffer := bs.storeByte 1 (bs.accumulator >>> 16) buffer
  let buffer := bs.storeByte 2 (bs.accumulator >>> 8) buffer
  { bs with buffer := bs.storeByte 3 (bs.accumulator >>> 0) buffer }

/-- Moves the top `n` prefetched bits into the low end of the accumulator: the `mask`,
`accumulator |=` and `prefetch <<=` lines that `BitStream_Shift` has three times. -/
def topUp (bs : BitStream) (n : ℕ) : BitStream :=
  let mask := (1 <<< n) - 1
  { bs with
    accumulator := bs.accumulator ||| ((bs.prefetch >>> (32 - n)) &&& mask)
    prefetch := (bs.prefetch <<< n) % 2 ^ 32 }

/-- The part of `BitStream_Shift` that crosses a word boundary: it prefetches the next word and
tops the accumulator up from it. -/
def nextWord (bs : BitStream) : BitStream :=
  let next := { bs with offset := bs.offset - 32, pointer := bs.pointer + 4 }.prefetchWord
  if bs.offset - 32 = 0 then next else next.topUp (bs.offset - 32)

/-- The shift proper, for a count between 1 and 31. -/
def shiftWord (bs : BitStream) (nbits : ℕ) : BitStream :=
  { bs with
    accumulator := (bs.accumulator <<< nbits) % 2 ^ 32
    position := (bs.position + nbits) % 2 ^ 32
    offset := bs.offset + nbits }.topUp nbits

/-- `BitStream_Shift`: drops `nbits` bits; a count of 32 or more only logs a warning. -/
def shift (bs : BitStream) (nbits : ℕ) : BitStream :=
  if nbits = 0 then bs
  else if nbits < 32 then
    if bs.offset + nbits < 32 then bs.shiftWord nbits else (bs.shiftWord nbits).nextWord
  else bs

/-- The part of `BitStream_Write_Bits` that fills the accumulator, stores it and starts the next
word with the `rest` bits that did not fit. -/
def writeWord (bs : BitStream) (bits nbits rest : ℕ) : BitStream :=
  let full := { bs with
    offset := rest
    accumulator := bs.accumulator ||| ((bits >>> rest) &&& ((1 <<< (nbits - rest)) - 1)) }.flush
  { full with
    pointer := full.pointer + 4
    accumulator :=
      if rest = 0 then 0 else ((bits &&& ((1 <<< rest) - 1)) <<< (32 - rest)) % 2 ^ 32 }

def writeBits (bs : BitStream) (bits nbits : ℕ) : BitStream :=
  let moved := { bs with position := (bs.position + nbits) % 2 ^ 32, offset := bs.offset + nbits }
  if bs.offset + nbits < 32 then
    { moved with
      accumulator := bs.accumulator ||| (bits <<< (32 - (bs.offset + nbits))) % 2 ^ 32 }
  else moved.writeWord bits nbits (bs.offset + nbits - 32)

/-- `BitStream_GetRemainingLength`: the unsigned difference, which wraps once `position` has run
past `length`. -/
def remainingLength (bs : BitStream) : ℕ := (bs.length + 2 ^ 32 - bs.position) % 2 ^ 32

/-! ### Sequences of calls -/

/-- Fields are written one after the other, each with its width first. -/
def writeFields (bs : BitStream) (fs : List (ℕ × ℕ)) : BitStream :=
  fs.foldl (fun bs f => bs.writeBits f.2 f.1) bs

/-- `BitStream_Shift` is called with each of the counts. -/
def shiftAll (bs : BitStream) (ns : List ℕ) : BitStream := ns.foldl shift bs

/-- The number of bits that are dropped. -/
def shifted (ns : List ℕ) : ℕ := (ns.map fun n => if n < 32 then n else 0).sum

end BitStream

end FreeRDP
