import FreeRDP.Lib.Wire

/-!
# TPKT and TPDU headers

`tpkt.c` and `tpdu.c` of `libfreerdp/core`.  A packet starts with a TPKT header of four bytes, which has
the length of the packet, and goes on with the header of an X.224 TPDU.
-/

namespace FreeRDP.Core

open Wire

def tpktHeaderLength : ℕ := 4

def x224TpduConnectionRequest : ℕ := 0xE0

def x224TpduConnectionConfirm : ℕ := 0xD0

def x224TpduDisconnectRequest : ℕ := 0x80

def x224TpduData : ℕ := 0xF0

/-- `tpkt_read_header`, with the length of the packet, or 0 if it is not a TPKT. -/
def tpktReadHeader : Reader ℕ := do
  let version ← peek
  if version = 3 then
    need tpktHeaderLength
    seek 2
    let len ← u16be
    check (¬ len < 7)
    -- the packet has as many bytes as it says, with the four that have been read
    need (len - tpktHeaderLength)
    return len
  else return 0

def tpktWriteHeader (length : ℕ) : List UInt8 := byte 3 ++ byte 0 ++ be16 length

/-- `tpdu_read_header`, with the code and the length indicator. -/
def tpduReadHeader (tpktlength : ℕ) : Reader (ℕ × ℕ) := do
  need 3
  let li ← u8
  let code ← u8
  check (¬ li + 4 > tpktlength)
  if code = x224TpduData then seek 1 else seek 5
  return (code, li)

def tpduWriteHeader (length code : ℕ) : List UInt8 :=
  if code = x224TpduData then byte length ++ byte code ++ byte 0x80
  else byte length ++ byte code ++ le16 0 ++ le16 0 ++ byte 0

/-- `tpdu_read_connection_confirm`, with the length indicator.  What is left is compared with
`li - 6`, computed in a `size_t`. -/
def tpduReadConnectionConfirm (tpktlength : ℕ) : Reader ℕ := do
  let (code, li) ← tpduReadHeader tpktlength
  check (code = x224TpduConnectionConfirm)
  need ((li + 2 ^ 64 - 6) % 2 ^ 64)
  return li

def tpduWriteData : List UInt8 := tpduWriteHeader 2 x224TpduData

end FreeRDP.Core
