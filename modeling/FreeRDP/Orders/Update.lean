import FreeRDP.Orders.Send
import FreeRDP.Orders.Window

/-!
# The orders of an update

The stream `us` of the `rdpUpdate` of a server, in which `libfreerdp/core/update.c` collects orders:
`BeginPaint`, `EndPaint`, the flushes between them, and what the functions `update_send_*` have in
common.  An allocation may fail.  A write behind the end of the buffer is not modelled, nor are the
locks.
-/

namespace FreeRDP.Orders

open Wire

def FASTPATH_MAX_PACKET_SIZE : ℕ := 0x3FFF

/-- The `wStream` of an update. -/
structure UpdateStream where
  /-- what has been written behind the two bytes for `numberOrders` -/
  bytes : List UInt8
  capacity : ℕ
  length : ℕ
deriving DecidableEq

/-- `Stream_GetPosition`. -/
def UpdateStream.position (s : UpdateStream) : ℕ := 2 + s.bytes.length

def UpdateStream.put (s : UpdateStream) (bs : List UInt8) : UpdateStream :=
  { s with bytes := s.bytes ++ bs }

/-- The loop of `Stream_EnsureCapacity`; `fuel` is the number of rounds that are left. -/
def doubleCapacity (size : ℕ) : ℕ → ℕ → ℕ
  | 0, capacity => capacity
  | fuel + 1, capacity => if capacity * 2 < size then doubleCapacity size fuel
      (capacity * 2) else capacity * 2

/-- What is allocated while a function runs: whether `Stream_New` and the `realloc` to a capacity
succeed. -/
structure Memory where
  new : Bool
  realloc : ℕ → Bool

def streamEnsureCapacity (memory : Memory) (s : UpdateStream) (size : ℕ) : Option UpdateStream :=
  if s.capacity < size then
    let newCapacity := doubleCapacity size size s.capacity
    if memory.realloc newCapacity then
      some { s with capacity := newCapacity, length := newCapacity }
    else none
  else some s

def streamEnsureRemainingCapacity (memory : Memory) (s : UpdateStream) (size : ℕ) : Option UpdateStream :=
  if s.position + size > s.capacity then streamEnsureCapacity memory s (s.capacity + size) else some s

/-- An update PDU with orders.  There is no `numberOrders` if the two bytes in front have not been
written. -/
structure OrdersPdu where
  numberOrders : Option ℕ
  orders : List UInt8
deriving DecidableEq

/-- What of the `rdpUpdate` of a server concerns orders, and the PDUs that it has sent. -/
structure RdpUpdate where
  us : Option UpdateStream
  numberOrders : ℕ
  bounds : ServerBounds
  sent : List OrdersPdu

/-- The update of a new connection. -/
def RdpUpdate.initial : RdpUpdate where
  us := none
  numberOrders := 0
  bounds := ⟨Bounds.zero, Bounds.zero⟩
  sent := []

/-- `fastpath_update_pdu_init_new`, and what `_update_begin_paint` does with the stream. -/
def fastpathUpdatePduInitNew : UpdateStream where
  bytes := []
  capacity := FASTPATH_MAX_PACKET_SIZE
  length := 0

/-- The PDU of a stream.  The number is written at `Stream_Length`, which is in front of the orders as
long as the buffer has not been enlarged. -/
def UpdateStream.pdu (s : UpdateStream) (numberOrders : ℕ) : OrdersPdu where
  numberOrders := if s.length = 0 then some numberOrders else none
  orders := s.bytes

def updateEndPaint (update : RdpUpdate) : RdpUpdate × Bool :=
  match update.us with
  | none => (update, false)
  | some s =>
    let sent := if update.numberOrders > 0 then update.sent ++ [s.pdu update.numberOrders] else update.sent
    ({ update with us := none, numberOrders := 0, sent }, true)

def updateBeginPaint (memory : Memory) (update : RdpUpdate) : RdpUpdate × Bool :=
  let update := if update.us.isSome then (updateEndPaint update).1 else update
  if memory.new then ({ update with us := some fastpathUpdatePduInitNew, numberOrders := 0 }, true)
  else (update, false)

def updateFlush (memory : Memory) (update : RdpUpdate) : RdpUpdate :=
  if update.numberOrders > 0 then (updateBeginPaint memory (updateEndPaint update).1).1 else update

def updateCheckFlush (memory : Memory) (update : RdpUpdate) (size : ℕ) : RdpUpdate :=
  match update.us with
  | none => (updateBeginPaint memory update).1
  | some s =>
    if s.position + size + 64 ≥ FASTPATH_MAX_PACKET_SIZE then updateFlush memory update else update

/-! ### Senders -/

/-- A step of a function `update_write_*`. -/
inductive WriterStep
  /-- `Stream_EnsureRemainingCapacity`, and `FALSE` if it fails -/
  | ensure (size : ℕ)
  /-- bytes that are written, or `FALSE` -/
  | write (bs : Option (List UInt8))
deriving DecidableEq

/-- A step, which gives no stream where it returns `FALSE`. -/
def WriterStep.run (memory : Memory) (s : UpdateStream) : WriterStep → Option UpdateStream
  | ensure size => streamEnsureRemainingCapacity memory s size
  | write bs => bs.map s.put

/-- The stream behind steps, and whether none of them has returned `FALSE`. -/
def runWriter (memory : Memory) : UpdateStream → List WriterStep → UpdateStream × Bool
  | s, [] => (s, true)
  | s, step :: steps =>
    match step.run memory s with
    | none => (s, false)
    | some s' => runWriter memory s' steps

/-- What makes up a function `update_send_*`. -/
structure Sender where
  /-- the size for `update_check_flush` -/
  size : ℕ
  /-- the room that is made before the first byte, if any -/
  room : Option ℕ
  /-- what is put first; bytes that are skipped for a header are zeros here -/
  first : List UInt8
  /-- what is written behind that -/
  steps : List WriterStep
  /-- whether the sender returns `FALSE` where the steps do -/
  checked : Bool
  /-- whether all functions called by the steps return `TRUE`, also where nobody looks at that -/
  complete : Bool
  /-- what is written over the first bytes at last, which depends on the steps and on the number of bytes -/
  header : Bool → ℕ → List UInt8
  /-- what is returned if there is no stream -/
  unopened : Bool
  first_ne : first ≠ []

/-- The room for the first bytes. -/
def Sender.ensure (sender : Sender) (memory : Memory) (s : UpdateStream) : Option UpdateStream :=
  match sender.room with
  | none => some s
  | some size => streamEnsureRemainingCapacity memory s size

structure SendResult where
  update : RdpUpdate
  /-- what the sender returns -/
  result : Bool
  /-- no function `update_write_*` has returned `FALSE` -/
  written : Bool

/-- A function `update_send_*`. -/
def Sender.send (sender : Sender) (memory : Memory) (update : RdpUpdate) : SendResult :=
  let update := updateCheckFlush memory update sender.size
  match update.us with
  | none => ⟨update, sender.unopened, true⟩
  | some s =>
    match sender.ensure memory s with
    | none => ⟨update, false, true⟩
    | some s' =>
      let (t, ok) := runWriter memory (s'.put sender.first) sender.steps
      if ok ∨ ¬ sender.checked then
        let header := sender.header ok (t.bytes.length - s.bytes.length)
        let us := { t with bytes := overwrite t.bytes s.bytes.length header }
        ⟨{ update with us := some us, numberOrders := (update.numberOrders + 1) % 2 ^ 16 }, true,
          ok && sender.complete⟩
      else ⟨{ update with us := some t }, false, false⟩

end FreeRDP.Orders
