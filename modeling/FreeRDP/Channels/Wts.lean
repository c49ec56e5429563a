import FreeRDP.Channels.Basic

/-!
# Virtual channels: the server

`server.c` of `libfreerdp/core`: what arrives on the static channels, the parser of the PDUs of the static
channel `drdynvc`, and what is written to a channel.

The parser reads from the receive buffer of `drdynvc`, whose length is its capacity, and counts the bytes
that are left of the PDU in a `UINT32` of its own.  It logs its accesses (`Access`).
-/

namespace FreeRDP.Channels

open Wire

/-! ### State -/

inductive DvcOpenState
  | none | succeeded | failed | closed
deriving DecidableEq, Repr

/-- The states of `drdynvc`. -/
inductive WtsState
  | none | initialized | ready | failed
deriving DecidableEq, Repr

/-- A message in the queue of a channel: data with the lower half of the channel id, or `WMQ_QUIT`. -/
inductive ChannelMessage
  | data (channelId : ℕ) (data : List UInt8)
  | quit
deriving DecidableEq, Repr

/-- `rdpPeerChannel`. -/
structure PeerChannel where
  channelId : ℕ
  receiveData : WStream
  queue : List ChannelMessage
  queueClosed : Bool
  dvcOpenState : DvcOpenState
  dvcTotalLength : ℕ
deriving DecidableEq, Repr

/-- `WTSVirtualChannelManager`, when the channel `drdynvc` is open.  The queue has channel ids and what is
sent over them. -/
structure Vcm where
  drdynvcState : WtsState
  drdynvcChannel : PeerChannel
  dynamicVirtualChannels : List PeerChannel
  dvcChannelIdSeq : ℕ
  queue : List (ℕ × List UInt8)
deriving DecidableEq, Repr

/-- What the parser does to the PDU and to the buffers. -/
inductive Access
  /-- `n` bytes of the receive buffer of `drdynvc` are read at `position`. -/
  | read (position n : ℕ)
  /-- `value` is taken off the number of bytes that are left. -/
  | subtract (length value : ℕ)
  /-- The buffer of a channel is written up to `finish`. -/
  | write (finish total capacity : ℕ)
deriving DecidableEq, Repr

/-- The difference of two `UINT32`. -/
def sub32 (a b : ℕ) : ℕ := (a + 2 ^ 32 - b) % 2 ^ 32

/-! ### Channels -/

/-- `channel_new`, with memory that is not initialized for the stream. -/
def channelNew (channelId : ℕ) (receiveData : WStream) : PeerChannel :=
  ⟨channelId, receiveData.rewind, [], false, .none, 0⟩

def wtsGetDvcChannelById (channelId : ℕ) (vcm : Vcm) : Option PeerChannel :=
  vcm.dynamicVirtualChannels.find? fun channel => channel.channelId = channelId

/-- The channel that `wts_get_dvc_channel_by_id` finds becomes `channel`. -/
def setDvcChannel (channel : PeerChannel) : List PeerChannel → List PeerChannel
  | [] => []
  | c :: channels =>
    if c.channelId = channel.channelId then channel :: channels else c :: setDvcChannel channel channels

/-- `MessageQueue_Post`, where nothing can be posted behind `WMQ_QUIT`. -/
def PeerChannel.post (message : ChannelMessage) (channel : PeerChannel) : PeerChannel × Bool :=
  if channel.queueClosed then (channel, false)
  else ({ channel with queue := channel.queue ++ [message], queueClosed := message = .quit }, true)

/-- `wts_queue_receive_data`, where `memory` is the result of `malloc`. -/
def wtsQueueReceiveData (memory : Bool) (buffer : List UInt8) (length : ℕ) (channel : PeerChannel) :
    PeerChannel × Bool :=
  if !memory then (channel, false)
  else channel.post (.data (channel.channelId % 2 ^ 16) (buffer.take length))

/-! ### The parser -/

/-- The number of bytes that `wts_read_variable_uint` reads. -/
def wtsVariableUintSize : ℕ → ℕ
  | 0 => 1
  | 1 => 2
  | _ => 4

def wtsReadVariableUint : ℕ → Reader ℕ
  | 0 => u8
  | 1 => u16le
  | _ => u32le

/-- What memory there is for a message and for the stream of a channel. -/
structure WtsMemory where
  chunk : Bool
  stream : Bool
  message : Bool
deriving DecidableEq, Repr

/-- What a handler does to its channel: the channel, the result, and the accesses. -/
abbrev Handled := PeerChannel × Bool × List Access

/-- `wts_read_drdynvc_create_response`.  `s` is the receive buffer of `drdynvc`. -/
def wtsReadDrdynvcCreateResponse (channel : PeerChannel) (s : List UInt8) (position length : ℕ) : Handled :=
  if length < 4 then (channel, false, [])
  else
    match u32le (s.drop position) with
    | none => (channel, false, [.read position 4])
    | some (creationStatus, _) =>
      let state := if creationStatus ≥ 2 ^ 31 then .failed else .succeeded
      ({ channel with dvcOpenState := state }, true, [.read position 4])

def wtsReadDrdynvcDataFirst (memory : WtsMemory) (channel : PeerChannel) (s : List UInt8)
    (position cbLen length : ℕ) : Handled :=
  match wtsReadVariableUint cbLen (s.drop position) with
  | none => (channel, false, [])
  | some (totalLength, _) =>
    let channel := { channel with dvcTotalLength := totalLength }
    let value := wtsVariableUintSize cbLen
    let accesses := [.read position value, .subtract length value]
    let position := position + value
    let length := sub32 length value
    if length > totalLength then (channel, false, accesses)
    else
      let receiveData := channel.receiveData.rewind
      match receiveData.ensureRemainingCapacity memory.stream totalLength with
      | none => ({ channel with receiveData := receiveData }, false, accesses)
      | some receiveData =>
        ({ channel with receiveData := receiveData.write ((s.drop position).take length) }, true,
          accesses ++ [.read position length, .write length totalLength receiveData.capacity])

def wtsReadDrdynvcData (memory : WtsMemory) (channel : PeerChannel) (s : List UInt8)
    (position length : ℕ) : Handled :=
  let data := (s.drop position).take length
  if channel.dvcTotalLength > 0 then
    if channel.receiveData.position + length > channel.dvcTotalLength then
      ({ channel with dvcTotalLength := 0 }, false, [])
    else
      let finish := channel.receiveData.position + length
      let accesses :=
        [.read position length, .write finish channel.dvcTotalLength channel.receiveData.capacity]
      let channel := { channel with receiveData := channel.receiveData.write data }
      if finish ≥ channel.dvcTotalLength then
        let (channel, ret) :=
          wtsQueueReceiveData memory.message channel.receiveData.buffer channel.dvcTotalLength channel
        ({ channel with dvcTotalLength := 0 }, ret, accesses)
      else (channel, true, accesses)
  else
    let (channel, ret) := wtsQueueReceiveData memory.message data length channel
    (channel, ret, [.read position length])

def wtsReadDrdynvcCloseResponse (channel : PeerChannel) : PeerChannel :=
  ({ channel with dvcOpenState := .closed }.post .quit).1

/-- The commands of `wts_read_drdynvc_pdu` that are for a channel. -/
def wtsReadDrdynvcCommand (memory : WtsMemory) (cmd sp : ℕ) (dvc : PeerChannel) (s : List UInt8)
    (position length : ℕ) : Handled :=
  if cmd = createRequestPdu then wtsReadDrdynvcCreateResponse dvc s position length
  else if cmd = dataFirstPdu then wtsReadDrdynvcDataFirst memory dvc s position sp length
  else if cmd = dataPdu then wtsReadDrdynvcData memory dvc s position length
  else if cmd = closeRequestPdu then (wtsReadDrdynvcCloseResponse dvc, true, [])
  else (dvc, true, [])

/-- `wts_read_drdynvc_pdu`, with what it accesses. -/
def wtsReadDrdynvcPdu (memory : WtsMemory) (vcm : Vcm) : Vcm × Bool × List Access :=
  let length := vcm.drdynvcChannel.receiveData.position % 2 ^ 32
  if length < 1 then (vcm, false, [])
  else
    match vcm.drdynvcChannel.receiveData.buffer with
    | [] => (vcm, false, [])
    | value :: s =>
      let accesses := [.read 0 1]
      let length := length - 1
      let cmd := (value.toNat &&& 0xF0) >>> 4
      let sp := (value.toNat &&& 0x0C) >>> 2
      let cbChId := value.toNat &&& 0x03
      if cmd = capabilityRequestPdu then
        if length < 3 then (vcm, false, accesses)
        else ({ vcm with drdynvcState := .ready }, true, accesses ++ [.read 1 3])
      else if vcm.drdynvcState = .ready then
        match wtsReadVariableUint cbChId s with
        | none => (vcm, false, accesses)
        | some (channelId, _) =>
          let size := wtsVariableUintSize cbChId
          let accesses := accesses ++ [.read 1 size, .subtract length size]
          match wtsGetDvcChannelById channelId vcm with
          | none => (vcm, true, accesses)
          | some dvc =>
            let (dvc, ret, more) :=
              wtsReadDrdynvcCommand memory cmd sp dvc (value :: s) (1 + size) (sub32 length size)
            let channels := setDvcChannel dvc vcm.dynamicVirtualChannels
            ({ vcm with dynamicVirtualChannels := channels }, ret, accesses ++ more)
      else (vcm, true, accesses)

/-! ### Static channels -/

/-- A chunk of a static channel, with the flags and the total length that it comes with. -/
structure ChannelChunk where
  data : List UInt8
  flags : ℕ
  totalSize : ℕ
deriving DecidableEq, Repr

/-- The beginning of `WTSProcessChannelData`: the chunk is added to the stream of the channel. -/
def wtsReceiveChunk (memory : Bool) (chunk : ChannelChunk) (channel : PeerChannel) : Option PeerChannel :=
  let receiveData :=
    if chunk.flags &&& channelFlagFirst ≠ 0 then channel.receiveData.rewind else channel.receiveData
  match receiveData.ensureRemainingCapacity memory chunk.data.length with
  | none => none
  | some receiveData => some { channel with receiveData := receiveData.write chunk.data }

/-- `WTSProcessChannelData` for `drdynvc`. -/
def wtsProcessDrdynvcData (memory : WtsMemory) (chunk : ChannelChunk) (vcm : Vcm) :
    Vcm × Bool × List Access :=
  match wtsReceiveChunk memory.chunk chunk vcm.drdynvcChannel with
  | none =>
    let receiveData := if chunk.flags &&& channelFlagFirst ≠ 0 then
      vcm.drdynvcChannel.receiveData.rewind else vcm.drdynvcChannel.receiveData
    ({ vcm with drdynvcChannel := { vcm.drdynvcChannel with receiveData := receiveData } }, false, [])
  | some channel =>
    let vcm := { vcm with drdynvcChannel := channel }
    if chunk.flags &&& channelFlagLast ≠ 0 then
      let (vcm, ret, accesses) := wtsReadDrdynvcPdu memory vcm
      let channel := { channel with receiveData := channel.receiveData.rewind }
      ({ vcm with drdynvcChannel := channel }, ret, accesses)
    else (vcm, true, [])

/-! ### Writing -/

/-- `wts_write_variable_uint`, and the value that it returns. -/
def wtsWriteVariableUint (val : ℕ) : List UInt8 × ℕ :=
  if val ≤ 0xFF then (byte val, 0) else if val ≤ 0xFFFF then (le16 val, 1) else (le32 val, 2)

def wtsWriteDrdynvcHeader (cmd channelId : ℕ) : List UInt8 :=
  let (id, cbChId) := wtsWriteVariableUint channelId
  byte ((cmd &&& 0x0F) <<< 4 ||| cbChId) ++ id

/-- `wts_queue_send_item`, where `memory` is the result of `MessageQueue_Post`. -/
def wtsQueueSendItem (memory : Bool) (channel : PeerChannel) (buffer : List UInt8) (vcm : Vcm) :
    Vcm × Bool :=
  if memory then ({ vcm with queue := vcm.queue ++ [(channel.channelId % 2 ^ 16, buffer)] }, true)
  else (vcm, false)

/-- What is returned to `FreeRDP_WTSVirtualChannelWrite` for each PDU: by `Stream_New` and by
`MessageQueue_Post`. -/
structure WtsWriteCalls where
  stream : ℕ → Bool
  post : ℕ → Bool

/-- The loop of `FreeRDP_WTSVirtualChannelWrite` for a dynamic channel, the next PDU of which is the `i`-th.
A stream with room for something behind the header takes at least one byte. -/
def wtsWriteLoop (calls : WtsWriteCalls) (chunkSize channelId : ℕ) :
    ℕ → ℕ → Bool → List UInt8 → Vcm → Vcm × Bool
  | 0, _, ret, _, vcm => (vcm, ret)
  | rounds + 1, i, ret, data, vcm =>
    if data.length = 0 then (vcm, ret)
    else if !calls.stream i then (vcm, false)
    else
      let (id, cbChId) := wtsWriteVariableUint channelId
      let pos := 1 + id.length
      let (len, header) :=
        if i = 0 ∧ data.length > chunkSize - pos then
          let (len, cbLen) := wtsWriteVariableUint data.length
          (len, dataFirstPdu <<< 4 ||| cbLen <<< 2 ||| cbChId)
        else ([], dataPdu <<< 4 ||| cbChId)
      let written := min data.length (chunkSize - (pos + len.length))
      let pdu := byte header ++ id ++ len ++ data.take written
      let (vcm, ret) := wtsQueueSendItem (calls.post i) vcm.drdynvcChannel pdu vcm
      wtsWriteLoop calls chunkSize channelId rounds (i + 1) ret (data.drop written) vcm

/-- `FreeRDP_WTSVirtualChannelWrite` for a dynamic channel, where `chunkSize` is
`VirtualChannelChunkSize`. -/
def wtsVirtualChannelWrite (calls : WtsWriteCalls) (chunkSize : ℕ) (channel : PeerChannel)
    (data : List UInt8) (vcm : Vcm) : Vcm × Bool :=
  if vcm.drdynvcState ≠ .ready then (vcm, false)
  else wtsWriteLoop calls chunkSize channel.channelId data.length 0 true data vcm

/-! ### Opening and closing -/

/-- What is written to `drdynvc` itself: `FreeRDP_WTSVirtualChannelWrite` for a static channel. -/
def wtsStaticChannelWrite (memory : Bool) (data : List UInt8) (vcm : Vcm) : Vcm × Bool :=
  if !memory then (vcm, false) else wtsQueueSendItem true vcm.drdynvcChannel data vcm

/-- `FreeRDP_WTSVirtualChannelOpenEx` for a dynamic channel.  `receiveData` is the stream that is made for
it, `memory` the result of the other allocations. -/
def wtsVirtualChannelOpenEx (memory : Bool) (receiveData : WStream) (name : List UInt8) (vcm : Vcm) :
    Vcm × Bool :=
  if vcm.drdynvcState ≠ .ready then (vcm, false)
  else
    let channelId := (vcm.dvcChannelIdSeq + 1) % 2 ^ 32
    let vcm := { vcm with dvcChannelIdSeq := channelId }
    if !memory then (vcm, false)
    else
      let channels := vcm.dynamicVirtualChannels ++ [channelNew channelId receiveData]
      let request := wtsWriteDrdynvcHeader createRequestPdu channelId ++ name ++ [0]
      wtsStaticChannelWrite true request { vcm with dynamicVirtualChannels := channels }

/-- `FreeRDP_WTSVirtualChannelClose` for a dynamic channel. -/
def wtsVirtualChannelClose (memory : Bool) (channelId : ℕ) (vcm : Vcm) : Vcm × Bool :=
  match wtsGetDvcChannelById channelId vcm with
  | none => (vcm, true)
  | some channel =>
    let channels := vcm.dynamicVirtualChannels.eraseP fun c => c.channelId = channelId
    let vcm := { vcm with dynamicVirtualChannels := channels }
    if channel.dvcOpenState = .succeeded then
      wtsStaticChannelWrite memory (wtsWriteDrdynvcHeader closeRequestPdu channelId) vcm
    else (vcm, true)

end FreeRDP.Channels
