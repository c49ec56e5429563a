import FreeRDP.Lib.Wire
import Mathlib.Data.Int.ModEq

/-!
# Fields of variable length

The fields of the secondary orders in `libfreerdp/core/orders.c` whose first byte says how many follow.
A writer gives `none` where the source returns `FALSE`.  A reader is given for every monad that reads the
fields of `Wire`: `Reader` gives what is read, `StreamReader` also where the reader stops.
-/

namespace FreeRDP.Orders

open Wire

variable {m : Type → Type} [Monad m] [MonadLiftT Reader m]

def updateRead2ByteUnsigned : m ℕ := do
  need 1
  let b ← u8
  if b &&& 0x80 ≠ 0 then do
    need 1
    let c ← u8
    return (b &&& 0x7F) <<< 8 ||| c
  else return b &&& 0x7F

def updateWrite2ByteUnsigned (value : ℕ) : Option (List UInt8) :=
  if value > 0x7FFF then none
  else if value ≥ 0x7F then
    some (byte ((value &&& 0x7F00) >>> 8 ||| 0x80) ++ byte (value &&& 0xFF))
  else some (byte (value &&& 0x7F))

/-- The value of a signed field without its sign. -/
def readMagnitude (b : ℕ) : m ℕ :=
  if b &&& 0x80 ≠ 0 then do
    need 1
    let c ← u8
    return (b &&& 0x3F) <<< 8 ||| c
  else return b &&& 0x3F

def updateRead2ByteSigned : m ℤ := do
  need 1
  let b ← u8
  let value ← readMagnitude b
  return if b &&& 0x40 ≠ 0 then -(value : ℤ) else value

def updateWrite2ByteSigned (value : ℤ) : Option (List UInt8) :=
  let sign := if value < 0 then 0x40 else 0
  let value := value.natAbs
  if value > 0x3FFF then none
  else if value ≥ 0x3F then
    some (byte ((value &&& 0x3F00) >>> 8 ||| sign ||| 0x80) ++ byte (value &&& 0xFF))
  else some (byte ((value &&& 0x3F) ||| sign))

def updateRead4ByteUnsigned : m ℕ := do
  need 1
  let b ← u8
  let count := (b &&& 0xC0) >>> 6
  need count
  match count with
  | 0 => return b &&& 0x3F
  | 1 => do
    let c ← u8
    return (b &&& 0x3F) <<< 8 ||| c
  | 2 => do
    let c ← u8
    let d ← u8
    return (b &&& 0x3F) <<< 16 ||| c <<< 8 ||| d
  | _ => do
    let c ← u8
    let d ← u8
    let e ← u8
    return (b &&& 0x3F) <<< 24 ||| c <<< 16 ||| d <<< 8 ||| e

def updateWrite4ByteUnsigned (value : ℕ) : Option (List UInt8) :=
  if value ≤ 0x3F then some (byte value)
  else if value ≤ 0x3FFF then
    some (byte (value >>> 8 &&& 0x3F ||| 0x40) ++ byte (value &&& 0xFF))
  else if value ≤ 0x3FFFFF then
    some (byte (value >>> 16 &&& 0x3F ||| 0x80) ++ (byte (value >>> 8 &&& 0xFF) ++
      byte (value &&& 0xFF)))
  else if value ≤ 0x3FFFFFFF then
    some (byte (value >>> 24 &&& 0x3F ||| 0xC0) ++ (byte (value >>> 16 &&& 0xFF) ++
      (byte (value >>> 8 &&& 0xFF) ++ byte (value &&& 0xFF))))
  else none

end FreeRDP.Orders
