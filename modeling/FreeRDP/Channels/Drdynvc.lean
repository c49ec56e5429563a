import FreeRDP.Channels.Basic

/-!
# Dynamic virtual channels: the client

`drdynvc_main.c` of `channels/drdynvc/client`: the channels that the server creates, and the data that it
sends over them.

What the functions of other modules return while a PDU is processed is part of the input (`DvcCalls`).  The
state has a log of what is passed to `pVirtualChannelWriteEx` and to `OnDataReceived`.  A callback is named
by a number, where `none` is NULL, and a channel name is the list of its bytes.
-/

namespace FreeRDP.Channels

open Wire

/-! ### Codes -/

def channelRcOk : ℕ := 0

def channelRcNotConnected : ℕ := 4

def channelRcBadInitHandle : ℕ := 9

def channelRcNoMemory : ℕ := 12

def errorInvalidData : ℕ := 0x0D

def errorInternalError : ℕ := 0x54F

def errorNotConnected : ℕ := 0x8CA

/-- The creation status of a channel that has not been created. -/
def creationFailed : ℕ := 0xC0000001

/-! ### State -/

inductive DrdynvcState
  | initial | capabilities | ready | openingChannel | sendReceive | final
deriving DecidableEq, Repr

/-- `DVCMAN_CHANNEL`.  `dvcData` is what has been received of a message that comes in fragments. -/
structure DvcmanChannel where
  channelId : ℕ
  channelName : List UInt8
  status : ℕ
  channelCallback : Option ℕ
  dvcData : Option (List UInt8)
  dvcDataLength : ℕ
deriving DecidableEq, Repr

/-- What is passed to other modules. -/
inductive DvcEvent
  /-- A PDU, to `pVirtualChannelWriteEx`. -/
  | sent (pdu : List UInt8)
  /-- Data for a channel, to `OnDataReceived` of a callback. -/
  | received (channelId : ℕ) (callback : Option ℕ) (data : List UInt8)
deriving DecidableEq, Repr

/-- `drdynvcPlugin`, with its `DVCMAN`.  A listener is its channel name. -/
structure Drdynvc where
  state : DrdynvcState
  version : ℕ
  priorityCharges : List ℕ
  listeners : List (List UInt8)
  channels : List DvcmanChannel
  log : List DvcEvent
deriving DecidableEq, Repr

/-- What `OnNewChannelConnection` returns, with its output arguments.  A listener that accepts a channel
gives it a callback. -/
structure NewChannelConnection where
  error : ℕ
  accept : Bool
  callback : Option ℕ
  accepted : error = channelRcOk → accept = true → callback.isSome

/-- What is returned to the functions that process a PDU: by `StreamPool_Take` and
`pVirtualChannelWriteEx` for the capability response, by the functions that allocate a channel, by
`ArrayList_Add`, by the listener and by `OnChannelConnected`, by `StreamPool_Take` and
`pVirtualChannelWriteEx` for the response, by `OnOpen`, by `StreamPool_Take` for a message, by
`OnDataReceived`, and by `StreamPool_Take` and `pVirtualChannelWriteEx` for the close request. -/
structure DvcCalls where
  capabilityStream : Bool
  capabilitySend : ℕ
  memory : Bool
  added : Bool
  onNewChannelConnection : NewChannelConnection
  onChannelConnected : ℕ
  responseStream : Bool
  responseSend : ℕ
  onOpen : ℕ
  dataStream : Bool
  onDataReceived : ℕ
  closeStream : Bool
  closeSend : ℕ

/-! ### Channels -/

def dvcmanFindChannelById (channelId : ℕ) (d : Drdynvc) : Option DvcmanChannel :=
  d.channels.find? fun channel => channel.channelId = channelId

/-- The channel that `dvcman_find_channel_by_id` finds becomes `channel`. -/
def updateChannel (channel : DvcmanChannel) : List DvcmanChannel → List DvcmanChannel
  | [] => []
  | c :: channels =>
    if c.channelId = channel.channelId then channel :: channels else c :: updateChannel channel channels

def drdynvcSend (send : ℕ) (pdu : List UInt8) (d : Drdynvc) : Drdynvc × ℕ :=
  ({ d with log := d.log ++ [.sent pdu] },
    if send = channelRcOk ∨ send = channelRcNotConnected then channelRcOk else send)

def dvcmanChannelNew (calls : DvcCalls) (channelId : ℕ) (channelName : List UInt8) (d : Drdynvc) :
    Option DvcmanChannel :=
  if (dvcmanFindChannelById channelId d).isSome then none
  else if !calls.memory then none
  else some ⟨channelId, channelName, 0, none, none, 0⟩

def dvcmanCreateChannel (calls : DvcCalls) (channelId : ℕ) (channelName : List UInt8) (d : Drdynvc) :
    Drdynvc × ℕ :=
  match dvcmanChannelNew calls channelId channelName d with
  | none => (d, channelRcNoMemory)
  | some channel =>
    let channel := { channel with status := errorNotConnected }
    if !calls.added then (d, errorInternalError)
    else if channelName ∈ d.listeners then
      let answer := calls.onNewChannelConnection
      if answer.error = channelRcOk ∧ answer.accept then
        let channel := { channel with status := channelRcOk, channelCallback := answer.callback }
        ({ d with channels := d.channels ++ [channel] }, calls.onChannelConnected)
      else if answer.error ≠ channelRcOk then
        ({ d with channels := d.channels ++ [channel] }, answer.error)
      else ({ d with channels := d.channels ++ [channel] }, errorInternalError)
    else ({ d with channels := d.channels ++ [channel] }, errorInternalError)

def dvcmanOpenChannel (onOpen : ℕ) (channelId : ℕ) (d : Drdynvc) : ℕ :=
  match dvcmanFindChannelById channelId d with
  | none => errorInternalError
  | some channel => if channel.status = channelRcOk then onOpen else channelRcOk

def dvcmanCloseChannel (stream : Bool) (send : ℕ) (channelId : ℕ) (bSendClosePdu : Bool) (d : Drdynvc) :
    Drdynvc × ℕ :=
  if (dvcmanFindChannelById channelId d).isNone then (d, channelRcOk)
  else
    let (d, error) :=
      if bSendClosePdu then
        if !stream then (d, channelRcNoMemory)
        else drdynvcSend send (byte (closeRequestPdu <<< 4 ||| 0x02) ++ le32 channelId) d
      else (d, channelRcOk)
    ({ d with channels := d.channels.eraseP fun channel => channel.channelId = channelId }, error)

/-! ### Receiving -/

def dvcmanReceiveChannelDataFirst (stream : Bool) (channelId length : ℕ) (d : Drdynvc) : Drdynvc × ℕ :=
  match dvcmanFindChannelById channelId d with
  | none => (d, channelRcOk)
  | some channel =>
    if !stream then
      ({ d with channels := updateChannel { channel with dvcData := none } d.channels }, channelRcNoMemory)
    else
      let channel := { channel with dvcData := some [], dvcDataLength := length }
      ({ d with channels := updateChannel channel d.channels }, channelRcOk)

def dvcmanReceiveChannelData (onDataReceived : ℕ) (channelId : ℕ) (data : List UInt8) (d : Drdynvc) :
    Drdynvc × ℕ :=
  match dvcmanFindChannelById channelId d with
  | none => (d, channelRcOk)
  | some channel =>
    match channel.dvcData with
    | some dvcData =>
      if dvcData.length + data.length > channel.dvcDataLength then
        ({ d with channels := updateChannel { channel with dvcData := none } d.channels }, errorInvalidData)
      else
        let dvcData := dvcData ++ data
        if dvcData.length ≥ channel.dvcDataLength then
          ({ d with
              channels := updateChannel { channel with dvcData := none } d.channels
              log := d.log ++ [.received channelId channel.channelCallback dvcData] }, onDataReceived)
        else
          ({ d with channels := updateChannel { channel with dvcData := some dvcData } d.channels },
            channelRcOk)
    | none =>
      ({ d with log := d.log ++ [.received channelId channel.channelCallback data] }, onDataReceived)

def drdynvcCblenToBytes : ℕ → ℕ
  | 0 => 1
  | 1 => 2
  | _ => 4

def drdynvcReadVariableUint : ℕ → Reader ℕ
  | 0 => u8
  | 1 => u16le
  | _ => u32le

def drdynvcSendCapabilityResponse (calls : DvcCalls) (d : Drdynvc) : Drdynvc × ℕ :=
  if !calls.capabilityStream then (d, channelRcNoMemory)
  else drdynvcSend calls.capabilitySend (le16 0x0050 ++ le16 d.version) d

def readVersion : Reader ℕ := do
  need 3
  seek 1
  u16le

def readPriorityCharges : Reader (List ℕ) := do
  need 8
  many u16le 4

def drdynvcProcessCapabilityRequest (calls : DvcCalls) (s : List UInt8) (d : Drdynvc) : Drdynvc × ℕ :=
  let respond (d : Drdynvc) : Drdynvc × ℕ :=
    let (d, status) := drdynvcSendCapabilityResponse calls d
    ({ d with state := .ready }, status)
  match readVersion s with
  | none => (d, errorInvalidData)
  | some (version, s) =>
    let d := { d with version := version }
    if version = 2 ∨ version = 3 then
      match readPriorityCharges s with
      | none => (d, errorInvalidData)
      | some (charges, _) => respond { d with priorityCharges := charges }
    else respond d

def readChannelId (cbChId : ℕ) : Reader ℕ := do
  need (drdynvcCblenToBytes cbChId)
  drdynvcReadVariableUint cbChId

/-- The channel name of a create request, which ends with a zero byte. -/
def readChannelName : Reader (List UInt8) := fun s =>
  if 0 ∈ s then some (s.takeWhile (· ≠ 0), []) else none

def readCreateRequest (cbChId : ℕ) : Reader (ℕ × List UInt8) := do
  let channelId ← readChannelId cbChId
  let channelName ← readChannelName
  return (channelId, channelName)

/-- The capability response in front of a create request, if there has been no capability request. -/
def drdynvcEnsureReady (calls : DvcCalls) (d : Drdynvc) : Drdynvc × ℕ :=
  if d.state = .capabilities then
    match drdynvcSendCapabilityResponse calls { d with version := 3 } with
    | (d, status) => if status ≠ channelRcOk then (d, status) else ({ d with state := .ready }, channelRcOk)
  else (d, channelRcOk)

/-- The end of `drdynvc_process_create_request`: the response, with the channel id as it has been received,
and what follows it. -/
def drdynvcAnswerCreateRequest (calls : DvcCalls) (cbChId : ℕ) (id : List UInt8)
    (channelId channelStatus : ℕ) (d : Drdynvc) : Drdynvc × ℕ :=
  if !calls.responseStream then (d, channelRcNoMemory)
  else
    let header := byte (createRequestPdu <<< 4 ||| cbChId) ++ id
    let creationStatus := if channelStatus = channelRcOk then 0 else creationFailed
    let (d, status) := drdynvcSend calls.responseSend (header ++ le32 creationStatus) d
    if status ≠ channelRcOk then (d, status)
    else if channelStatus = channelRcOk then (d, dvcmanOpenChannel calls.onOpen channelId d)
    else dvcmanCloseChannel calls.closeStream calls.closeSend channelId false d

def drdynvcProcessCreateRequest (calls : DvcCalls) (cbChId : ℕ) (s : List UInt8) (d : Drdynvc) :
    Drdynvc × ℕ :=
  let (d, status) := drdynvcEnsureReady calls d
  if status ≠ channelRcOk then (d, status)
  else
    match readCreateRequest cbChId s with
    | none => (d, errorInvalidData)
    | some ((channelId, channelName), _) =>
      let (d, channelStatus) := dvcmanCreateChannel calls channelId channelName d
      drdynvcAnswerCreateRequest calls cbChId (s.take (drdynvcCblenToBytes cbChId)) channelId
        channelStatus d

/-- The end of the functions that process data: the channel is closed if they have failed. -/
def closeOnError (calls : DvcCalls) (channelId : ℕ) : Drdynvc × ℕ → Drdynvc × ℕ
  | (d, status) =>
    if status ≠ channelRcOk then dvcmanCloseChannel calls.closeStream calls.closeSend channelId true d
    else (d, status)

/-- The channel id and the length of the message in a `DATA_FIRST_PDU`. -/
def readDataFirst (sp cbChId : ℕ) : Reader (ℕ × ℕ) := do
  need (drdynvcCblenToBytes cbChId + drdynvcCblenToBytes sp)
  let channelId ← drdynvcReadVariableUint cbChId
  let length ← drdynvcReadVariableUint sp
  return (channelId, length)

def drdynvcProcessDataFirst (calls : DvcCalls) (sp cbChId : ℕ) (s : List UInt8) (d : Drdynvc) :
    Drdynvc × ℕ :=
  match readDataFirst sp cbChId s with
  | none => (d, errorInvalidData)
  | some ((channelId, length), s) =>
    closeOnError calls channelId <|
      match dvcmanReceiveChannelDataFirst calls.dataStream channelId length d with
      | (d, status) =>
        if status = channelRcOk then dvcmanReceiveChannelData calls.onDataReceived channelId s d
        else (d, status)

def drdynvcProcessData (calls : DvcCalls) (cbChId : ℕ) (s : List UInt8) (d : Drdynvc) : Drdynvc × ℕ :=
  match readChannelId cbChId s with
  | none => (d, errorInvalidData)
  | some (channelId, s) =>
    closeOnError calls channelId (dvcmanReceiveChannelData calls.onDataReceived channelId s d)

def drdynvcProcessCloseRequest (calls : DvcCalls) (cbChId : ℕ) (s : List UInt8) (d : Drdynvc) :
    Drdynvc × ℕ :=
  match readChannelId cbChId s with
  | none => (d, errorInvalidData)
  | some (channelId, _) => dvcmanCloseChannel calls.closeStream calls.closeSend channelId true d

def drdynvcOrderRecv (calls : DvcCalls) (s : List UInt8) (d : Drdynvc) : Drdynvc × ℕ :=
  match s with
  | [] => (d, errorInvalidData)
  | value :: s =>
    let cmd := (value.toNat &&& 0xF0) >>> 4
    let sp := (value.toNat &&& 0x0C) >>> 2
    let cbChId := value.toNat &&& 0x03
    if cmd = capabilityRequestPdu then drdynvcProcessCapabilityRequest calls s d
    else if cmd = createRequestPdu then drdynvcProcessCreateRequest calls cbChId s d
    else if cmd = dataFirstPdu then drdynvcProcessDataFirst calls sp cbChId s d
    else if cmd = dataPdu then drdynvcProcessData calls cbChId s d
    else if cmd = closeRequestPdu then drdynvcProcessCloseRequest calls cbChId s d
    else (d, errorInternalError)

/-! ### Sending -/

/-- `drdynvc_write_variable_uint`, and the value that it returns. -/
def drdynvcWriteVariableUint (val : ℕ) : List UInt8 × ℕ :=
  if val ≤ 0xFF then (byte val, 0) else if val ≤ 0xFFFF then (le16 val, 1) else (le32 val, 2)

/-- What is returned to `drdynvc_write_data` for each PDU. -/
structure WriteCalls where
  stream : ℕ → Bool
  send : ℕ → ℕ
  closeStream : Bool
  closeSend : ℕ

/-- The result of `drdynvc_send`. -/
def WriteCalls.status (calls : WriteCalls) (i : ℕ) : ℕ :=
  if calls.send i = channelRcOk ∨ calls.send i = channelRcNotConnected then channelRcOk else calls.send i

/-- The loop of `drdynvc_write_data` over the PDUs behind the first one, the next of which is the `i`-th.
Each round sends at least one byte. -/
def drdynvcWriteLoop (calls : WriteCalls) (channelId : ℕ) :
    ℕ → ℕ → List UInt8 → List (List UInt8) × ℕ
  | 0, _, _ => ([], channelRcOk)
  | rounds + 1, i, data =>
    if data.length = 0 then ([], channelRcOk)
    else if !calls.stream i then ([], channelRcNoMemory)
    else
      let (id, cbChId) := drdynvcWriteVariableUint channelId
      let pos := 1 + id.length
      let chunkLength := min data.length (channelChunkLength - pos)
      let pdu := byte (dataPdu <<< 4 ||| cbChId) ++ id ++ data.take chunkLength
      if calls.status i ≠ channelRcOk then ([pdu], calls.status i)
      else
        let (pdus, status) := drdynvcWriteLoop calls channelId rounds (i + 1) (data.drop chunkLength)
        (pdu :: pdus, status)

/-- `drdynvc_write_data`: the PDUs that are passed to `drdynvc_send`, the result, and `close`. -/
def drdynvcWriteData (calls : WriteCalls) (channelId : ℕ) (data : List UInt8) :
    List (List UInt8) × ℕ × Bool :=
  if !calls.stream 0 then ([], channelRcNoMemory, false)
  else
    let (id, cbChId) := drdynvcWriteVariableUint channelId
    let pos := 1 + id.length
    if data.length = 0 then ([], channelRcBadInitHandle, true)
    else if data.length ≤ channelChunkLength - pos then
      ([byte (dataPdu <<< 4 ||| cbChId) ++ id ++ data], calls.status 0, false)
    else
      let (len, cbLen) := drdynvcWriteVariableUint data.length
      let pos := pos + len.length
      let chunkLength := channelChunkLength - pos
      let pdu := byte (dataFirstPdu <<< 4 ||| cbChId ||| cbLen <<< 2) ++ id ++ len ++ data.take chunkLength
      if calls.status 0 ≠ channelRcOk then ([pdu], calls.status 0, false)
      else
        let (pdus, status) := drdynvcWriteLoop calls channelId data.length 1 (data.drop chunkLength)
        (pdu :: pdus, status, false)

def dvcmanWriteChannel (calls : WriteCalls) (channelId : ℕ) (data : List UInt8) (d : Drdynvc) :
    Drdynvc × ℕ :=
  let (pdus, status, close) := drdynvcWriteData calls channelId data
  let d := { d with log := d.log ++ pdus.map .sent }
  if close then ((dvcmanCloseChannel calls.closeStream calls.closeSend channelId true d).1, status)
  else (d, status)

/-! ### Runs -/

inductive DvcAction
  /-- `drdynvc_order_recv`. -/
  | pdu (s : List UInt8) (calls : DvcCalls)
  /-- `dvcman_write_channel`. -/
  | write (channelId : ℕ) (data : List UInt8) (calls : WriteCalls)
  /-- `dvcman_create_listener`. -/
  | createListener (channelName : List UInt8)
  /-- `dvcman_destroy_listener`. -/
  | destroyListener (index : ℕ)
  /-- `dvcman_clear`. -/
  | clear

def drdynvcAct : DvcAction → Drdynvc → Drdynvc
  | .pdu s calls, d => (drdynvcOrderRecv calls s d).1
  | .write channelId data calls, d => (dvcmanWriteChannel calls channelId data d).1
  | .createListener channelName, d => { d with listeners := d.listeners ++ [channelName] }
  | .destroyListener index, d => { d with listeners := d.listeners.eraseIdx index }
  | .clear, d => { d with channels := [], listeners := [] }

/-- The plugin when the static channel has been opened. -/
def drdynvcStart : Drdynvc where
  state := .capabilities
  version := 0
  priorityCharges := [0, 0, 0, 0]
  listeners := []
  channels := []
  log := []

end FreeRDP.Channels
