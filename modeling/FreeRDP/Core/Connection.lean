import Mathlib.Data.Option.Basic
import Mathlib.Data.List.Basic

/-!
# The connection sequence

`libfreerdp/core/peer.c` and `connection.c`, with the parts of `activation.c`, `rdp.c`, `mcs.c` and `gcc.c`
that they call: what the two sides do with a PDU in each state of a connection, from the negotiation of the
security on.

A PDU is what the function that reads it in the state of the receiver makes of its bytes; `malformed` is one
that it rejects.  `none` stands for the results that end a connection, so that a write that fails is not a
step of its own.  The server does with `sent` what the source does with the transport.  `log` is not in the
source, and nothing depends on it.
-/

namespace FreeRDP.Core

/-- `enum CONNECTION_STATE`. -/
inductive ConnectionState where
  | initial
  | nego
  | nla
  | mcsConnect
  | mcsErectDomain
  | mcsAttachUser
  | mcsChannelJoin
  | rdpSecurityCommencement
  | secureSettingsExchange
  | connectTimeAutoDetect
  | licensing
  | multitransportBootstrapping
  | capabilitiesExchange
  | finalization
  | active
  deriving DecidableEq, Repr

/-- A state as the source compares it with others. -/
def ConnectionState.value (c : ConnectionState) : ℕ := c.ctorIdx

def mcsGlobalChannelId : ℕ := 1003

def channelMaxCount : ℕ := 31

/-- `CTRLACTION_REQUEST_CONTROL`, which a client sends. -/
def ctrlactionRequestControl : ℕ := 1

/-- `CTRLACTION_GRANTED_CONTROL`, which a server sends. -/
def ctrlactionGrantedControl : ℕ := 2

def ctrlactionCooperate : ℕ := 4

/-- The blocks of the client data that number channels. -/
inductive ClientBlock where
  /-- `CS_NET` with that many channels. -/
  | network (channelCount : ℕ)
  /-- `CS_MCS_MSGCHANNEL`. -/
  | messageChannel

/-- The data PDUs of a client; `other` are those that have no part in the sequence. -/
inductive ClientData where
  | synchronize
  | control (action : ℕ)
  | persistentKeyList
  | fontList
  | shutdownRequest
  | other

/-- What a client sends.  After a Security Exchange PDU the packet may have bytes left, which are a Client
Info PDU or not. -/
inductive ClientPdu where
  | connectionRequest (useRdpSecurityLayer : Bool)
  | connectInitial (blocks : List ClientBlock)
  | erectDomainRequest
  | attachUserRequest
  | channelJoinRequest (channelId : ℕ)
  | securityExchange (rest : Option Bool)
  | clientInfo
  | confirmActive
  | data (pdu : ClientData)
  /-- Fast-path input, data of a channel, a PDU of the message channel or of the flow control. -/
  | other
  | malformed

inductive ServerPdu where
  | connectResponse (channelIds : List ℕ) (messageChannelId : ℕ) (useRdpSecurityLayer : Bool)
  | attachUserConfirm (userId : ℕ)
  | channelJoinConfirm (channelId : ℕ)
  | validClient
  | demandActive
  | deactivateAll
  | synchronize
  | control (action : ℕ)
  | fontMap

/-- `LicenseCallbackResult`; its two failures are one. -/
inductive LicenseCallbackResult where
  | abort
  | inProgress
  | completed

/-- What the callbacks of the application give, and whether `PostConnect` resizes the desktop. -/
structure Answers where
  license : LicenseCallbackResult := .completed
  capabilities : Bool := true
  clientCapabilities : Bool := true
  postConnect : Bool := true
  resizes : Bool := false
  activate : Bool := true

/-- What happens on the side of the server. -/
inductive Event where
  | negotiated
  | connectInitial (channelIds : List ℕ) (messageChannelId : ℕ)
  | erectDomain
  | attachUser (userId : ℕ)
  | joined (channelId : ℕ)
  | securityExchange
  | clientInfo (useRdpSecurityLayer : Bool)
  | licensed
  /-- A PDU that is dispatched by `peer_recv_pdu`. -/
  | received

/-! ### The server -/

/-- `rdpRdp` with its `rdpMcs` and `freerdp_peer`; `log` has the last event first. -/
structure Server where
  state : ConnectionState
  useRdpSecurityLayer : Bool
  awaitCapabilities : Bool
  baseChannelId : ℕ
  userId : ℕ
  messageChannelId : ℕ
  channels : List (ℕ × Bool)
  userChannelJoined : Bool
  globalChannelJoined : Bool
  messageChannelJoined : Bool
  connected : Bool
  activated : Bool
  sent : List ServerPdu
  log : List Event

/-- `mcs_server_new` and `freerdp_peer_initialize`. -/
def freerdpPeerInitialize : Server where
  state := .initial
  useRdpSecurityLayer := false
  awaitCapabilities := false
  baseChannelId := mcsGlobalChannelId + 1
  userId := 0
  messageChannelId := 0
  channels := []
  userChannelJoined := false
  globalChannelJoined := false
  messageChannelJoined := false
  connected := false
  activated := false
  sent := []
  log := []

namespace Server

/-- `transport_write`. -/
def send (pdu : ServerPdu) (s : Server) : Server := { s with sent := s.sent ++ [pdu] }

def note (e : Event) (s : Server) : Server := { s with log := e :: s.log }

/-- `rdp_server_transition_to_state` to a state other than `CONNECTION_STATE_ACTIVE`. -/
def enter (state : ConnectionState) (s : Server) : Server :=
  { s with
    activated := if 7 ≤ s.state.value ∧ s.state.value < 14 then false else s.activated
    awaitCapabilities := if state = .capabilitiesExchange then false else s.awaitCapabilities
    state := state }

/-- `rdp_send_demand_active` where it is followed by `rdp->AwaitCapabilities = TRUE`. -/
def demandActive (s : Server) : Server :=
  { s with awaitCapabilities := true }.send .demandActive

def rdpServerReactivate (s : Server) : Server :=
  (({ s with activated := false }.send .deactivateAll).enter .capabilitiesExchange).demandActive

/-- `PostConnect`, which is called until it succeeds. -/
def postConnect (a : Answers) (s : Server) : Option Server :=
  if s.connected then some s
  else if a.postConnect then
    let s := if a.resizes then s.rdpServerReactivate else s
    some { s with connected := true }
  else none

/-- `rdp_server_transition_to_state` to `CONNECTION_STATE_ACTIVE`. -/
def enterActive (a : Answers) (s : Server) : Option Server := do
  let s ← (s.enter .active).postConnect a
  -- `PostConnect` may have left the state.
  if s.state = .active then
    if a.activate then some { s with activated := true } else none
  else some s

def rdpServerAcceptNego (s : Server) : ClientPdu → Option Server
  | .connectionRequest useRdpSecurityLayer =>
    some (({ s with useRdpSecurityLayer := useRdpSecurityLayer }.note .negotiated).enter .nego)
  | _ => none

/-- The channels, the id of the message channel and the next id after
`gcc_read_client_network_data` or `gcc_read_client_message_channel_data`. -/
def readBlock : List (ℕ × Bool) × ℕ × ℕ → ClientBlock → Option (List (ℕ × Bool) × ℕ × ℕ)
  | (_, message, base), .network channelCount =>
    if channelCount > channelMaxCount then none
    else some ((List.range channelCount).map fun i => (base + i, false), message, base + channelCount)
  | (channels, _, base), .messageChannel => some (channels, base, base + 1)

def channelIds (s : Server) : List ℕ := s.channels.map Prod.fst

def rdpServerAcceptMcsConnectInitial (s : Server) : ClientPdu → Option Server
  | .connectInitial blocks => do
    let numbers ← blocks.foldlM readBlock (s.channels, s.messageChannelId, s.baseChannelId)
    let s := { s with
      channels := numbers.1, messageChannelId := numbers.2.1, baseChannelId := numbers.2.2 }
    some (((s.send (.connectResponse s.channelIds s.messageChannelId s.useRdpSecurityLayer)).note
      (.connectInitial s.channelIds s.messageChannelId)).enter .mcsConnect)
  | _ => none

def rdpServerAcceptMcsErectDomainRequest (s : Server) : ClientPdu → Option Server
  | .erectDomainRequest => some ((s.note .erectDomain).enter .mcsErectDomain)
  | _ => none

def rdpServerAcceptMcsAttachUserRequest (s : Server) : ClientPdu → Option Server
  | .attachUserRequest =>
    let s := { s with userId := s.baseChannelId, baseChannelId := s.baseChannelId + 1 }
    some (((s.send (.attachUserConfirm s.userId)).note (.attachUser s.userId)).enter .mcsAttachUser)
  | _ => none

/-- The flags that a join sets. -/
def join (channelId : ℕ) (s : Server) : Server :=
  let isUser : Bool := channelId = s.userId
  let isGlobal : Bool := channelId = mcsGlobalChannelId
  let isMessage : Bool := channelId = s.messageChannelId
  { s with
    userChannelJoined := s.userChannelJoined || isUser
    globalChannelJoined := s.globalChannelJoined || (!isUser && isGlobal)
    messageChannelJoined := s.messageChannelJoined || (!isUser && !isGlobal && isMessage)
    channels := s.channels.map fun c => (c.1, c.2 || c.1 = channelId) }

/-- All channels have been joined. -/
def allJoined (s : Server) : Bool :=
  s.userChannelJoined && s.globalChannelJoined &&
    (s.messageChannelId = 0 || s.messageChannelJoined) && s.channels.all Prod.snd

def rdpServerAcceptMcsChannelJoinRequest (s : Server) : ClientPdu → Option Server
  | .channelJoinRequest channelId =>
    let s := ((s.send (.channelJoinConfirm channelId)).join channelId).note (.joined channelId)
    some (if s.allJoined then s.enter .rdpSecurityCommencement else s)
  | _ => none

def rdpServerAcceptConfirmActive (a : Answers) (s : Server) : Option Server :=
  if s.state = .capabilitiesExchange ∧ a.clientCapabilities then
    some (((s.enter .finalization).send .synchronize).send (.control ctrlactionCooperate))
  else none

def peerRecvDataPdu (a : Answers) (s : Server) : ClientData → Option Server
  | .control action =>
    some (if action = ctrlactionRequestControl then s.send (.control ctrlactionGrantedControl) else s)
  | .fontList => (s.send .fontMap).enterActive a
  | .shutdownRequest => none
  | _ => some s

def peerRecvPdu (a : Answers) (s : Server) : ClientPdu → Option Server
  | .data pdu => (s.note .received).peerRecvDataPdu a pdu
  | .confirmActive => (s.note .received).rdpServerAcceptConfirmActive a
  | .other => some (s.note .received)
  | _ => none

/-- `peer_recv_callback` in `CONNECTION_STATE_CAPABILITIES_EXCHANGE`; no PDU is the stream that is `NULL`. -/
def inCapabilitiesExchange (a : Answers) (pdu : Option ClientPdu) (s : Server) : Option Server :=
  if s.awaitCapabilities then pdu.bind (s.peerRecvPdu a)
  else if a.capabilities then
    match pdu with
    | some pdu => s.demandActive.peerRecvPdu a pdu
    | none => some s.demandActive
  else none

/-- `peer_recv_callback` in `CONNECTION_STATE_LICENSING`, with `freerdp_peer_nolicense` for the callback
that completes. -/
def inLicensing (a : Answers) (s : Server) : Option Server :=
  match a.license with
  | .abort => none
  | .inProgress => some s
  | .completed =>
    (((s.send .validClient).note .licensed).enter .capabilitiesExchange).inCapabilitiesExchange a none

/-- `peer_recv_callback` in `CONNECTION_STATE_SECURE_SETTINGS_EXCHANGE`. -/
def inSecureSettingsExchange (a : Answers) (s : Server) : ClientPdu → Option Server
  | .clientInfo => ((s.note (.clientInfo s.useRdpSecurityLayer)).enter .licensing).inLicensing a
  | _ => none

/-- `peer_recv_callback` in `CONNECTION_STATE_RDP_SECURITY_COMMENCEMENT`.  Where no key is exchanged, the
packet has not been read yet. -/
def inSecurityCommencement (a : Answers) (s : Server) (pdu : ClientPdu) : Option Server :=
  if s.useRdpSecurityLayer then
    match pdu with
    | .securityExchange rest =>
      let s := (s.note .securityExchange).enter .secureSettingsExchange
      match rest with
      | none => some s
      | some isInfo => s.inSecureSettingsExchange a (if isInfo then .clientInfo else .malformed)
    | _ => none
  else (s.enter .secureSettingsExchange).inSecureSettingsExchange a pdu

def peerRecvCallback (a : Answers) (s : Server) (pdu : ClientPdu) : Option Server :=
  match s.state with
  | .initial => s.rdpServerAcceptNego pdu
  | .nego => s.rdpServerAcceptMcsConnectInitial pdu
  | .mcsConnect => s.rdpServerAcceptMcsErectDomainRequest pdu
  | .mcsErectDomain => s.rdpServerAcceptMcsAttachUserRequest pdu
  | .mcsAttachUser => s.rdpServerAcceptMcsChannelJoinRequest pdu
  | .rdpSecurityCommencement => s.inSecurityCommencement a pdu
  | .secureSettingsExchange => s.inSecureSettingsExchange a pdu
  | .licensing => s.inLicensing a
  | .capabilitiesExchange => s.inCapabilitiesExchange a (some pdu)
  | .finalization | .active => s.peerRecvPdu a pdu
  | _ => none

end Server

/-! ### The client -/

/-- The bits `FINALIZE_SC_*`. -/
structure FinalizeScPdus where
  synchronize : Bool := false
  cooperate : Bool := false
  granted : Bool := false
  fontMap : Bool := false

def FinalizeScPdus.isComplete (b : FinalizeScPdus) : Bool :=
  b.synchronize && b.cooperate && b.granted && b.fontMap

/-- `rdpRdp` with its `rdpMcs` and the settings that are looked at. -/
structure Client where
  state : ConnectionState
  useRdpSecurityLayer : Bool
  userId : ℕ
  messageChannelId : ℕ
  channels : List (ℕ × Bool)
  userChannelJoined : Bool
  globalChannelJoined : Bool
  messageChannelJoined : Bool
  finalizeScPdus : FinalizeScPdus
  deactivationReactivation : Bool
  bitmapCachePersistEnabled : Bool
  sent : List ClientPdu

def mcsClientBegin (channelCount : ℕ) (messageChannel bitmapCachePersistEnabled : Bool) : Client where
  state := .mcsConnect
  useRdpSecurityLayer := false
  userId := 0
  messageChannelId := 0
  channels := List.replicate channelCount (0, false)
  userChannelJoined := false
  globalChannelJoined := false
  messageChannelJoined := false
  finalizeScPdus := {}
  deactivationReactivation := false
  bitmapCachePersistEnabled := bitmapCachePersistEnabled
  sent := [.connectInitial
    (.network channelCount :: if messageChannel then [.messageChannel] else [])]

namespace Client

/-- `transport_write`. -/
def send (pdu : ClientPdu) (c : Client) : Client := { c with sent := c.sent ++ [pdu] }

/-- `rdp_client_transition_to_state`. -/
def enter (state : ConnectionState) (c : Client) : Client :=
  { c with
    finalizeScPdus := if state = .finalization then {} else c.finalizeScPdus
    state := state }

/-- The ids of `gcc_read_server_network_data`, for as many channels as have been asked for. -/
def readNetworkData : List ℕ → List (ℕ × Bool) → List (ℕ × Bool)
  | id :: ids, c :: cs => (id, c.2) :: readNetworkData ids cs
  | _, cs => cs

/-- `mcs_recv_connect_response`, and what follows it. -/
def recvConnectResponse (c : Client) : ServerPdu → Option Client
  | .connectResponse channelIds messageChannelId useRdpSecurityLayer =>
    let c := { c with
      channels := readNetworkData channelIds c.channels
      messageChannelId := messageChannelId
      useRdpSecurityLayer := useRdpSecurityLayer }
    some (((c.send .erectDomainRequest).send .attachUserRequest).enter .mcsAttachUser)
  | _ => none

/-- `mcs_recv_attach_user_confirm`, and what follows it. -/
def recvAttachUserConfirm (c : Client) : ServerPdu → Option Client
  | .attachUserConfirm userId =>
    some (({ c with userId := userId }.send (.channelJoinRequest userId)).enter .mcsChannelJoin)
  | _ => none

/-- The loop over the channels: the first that has not been joined must be the one that is confirmed, and
the one behind it is asked for. -/
def joinFirst (channelId : ℕ) : List (ℕ × Bool) → Option (List (ℕ × Bool) × Option ℕ)
  | [] => some ([], none)
  | c :: cs =>
    if c.2 then (joinFirst channelId cs).map fun r => (c :: r.1, r.2)
    else if c.1 = channelId then some ((c.1, true) :: cs, cs.head?.map Prod.fst)
    else none

/-- The join that is recorded for a confirm, and the channel to ask for. -/
def recordJoin (channelId : ℕ) (c : Client) : Option (Client × Option ℕ) :=
  let first := c.channels.head?.map Prod.fst
  if !c.userChannelJoined then
    if channelId = c.userId then some ({ c with userChannelJoined := true }, some mcsGlobalChannelId)
    else none
  else if !c.globalChannelJoined then
    if channelId = mcsGlobalChannelId then
      some ({ c with globalChannelJoined := true },
        if c.messageChannelId ≠ 0 then some c.messageChannelId else first)
    else none
  else if c.messageChannelId ≠ 0 && !c.messageChannelJoined then
    if channelId = c.messageChannelId then some ({ c with messageChannelJoined := true }, first)
    else none
  else (joinFirst channelId c.channels).map fun r => ({ c with channels := r.1 }, r.2)

def rdpClientEstablishKeys (c : Client) : Client :=
  if c.useRdpSecurityLayer then c.send (.securityExchange none) else c

def rdpClientConnectMcsChannelJoinConfirm (c : Client) : ServerPdu → Option Client
  | .channelJoinConfirm channelId => (c.recordJoin channelId).map fun r =>
    match r.2 with
    | some next => r.1.send (.channelJoinRequest next)
    | none => (r.1.rdpClientEstablishKeys.send .clientInfo).enter .licensing
  | _ => none

def rdpClientConnectLicense (c : Client) : ServerPdu → Option Client
  | .validClient => some (c.enter .capabilitiesExchange)
  | _ => none

def rdpClientConnectFinalize (c : Client) : Client :=
  let c := ((c.send (.data .synchronize)).send (.data (.control ctrlactionCooperate))).send
    (.data (.control ctrlactionRequestControl))
  let c := if !c.deactivationReactivation && c.bitmapCachePersistEnabled then
    c.send (.data .persistentKeyList) else c
  c.send (.data .fontList)

def rdpRecvDataPdu (c : Client) : ServerPdu → Client
  | .synchronize => { c with finalizeScPdus.synchronize := true }
  | .control action =>
    if action = ctrlactionCooperate then { c with finalizeScPdus.cooperate := true }
    else if action = ctrlactionGrantedControl then { c with finalizeScPdus.granted := true }
    else c
  | .fontMap => { c with finalizeScPdus.fontMap := true }
  | _ => c

/-- `rdp_recv_pdu`, for the PDUs that the sequence has.  `rdp_recv_deactivate_all` waits in a loop until the
client is active again: what it receives there comes next here. -/
def rdpRecvPdu (c : Client) (pdu : ServerPdu) : Option Client :=
  match pdu with
  | .synchronize | .control _ | .fontMap => some (c.rdpRecvDataPdu pdu)
  | .deactivateAll =>
    let isActive := c.state = .active
    some ({ c with deactivationReactivation := isActive }.enter .capabilitiesExchange)
  | .demandActive => some c
  | _ => none

/-- `rdp_client_connect_demand_active`; a data PDU is out of sequence there. -/
def rdpClientConnectDemandActive (c : Client) (pdu : ServerPdu) : Option Client :=
  match pdu with
  | .demandActive => some ((c.send .confirmActive).enter .finalization).rdpClientConnectFinalize
  | .synchronize | .control _ | .fontMap => some (c.rdpRecvDataPdu pdu)
  | _ => none

def rdpRecvCallback (c : Client) (pdu : ServerPdu) : Option Client :=
  match c.state with
  | .mcsConnect => c.recvConnectResponse pdu
  | .mcsAttachUser => c.recvAttachUserConfirm pdu
  | .mcsChannelJoin => c.rdpClientConnectMcsChannelJoinConfirm pdu
  | .licensing => c.rdpClientConnectLicense pdu
  | .capabilitiesExchange => c.rdpClientConnectDemandActive pdu
  | .finalization => (c.rdpRecvPdu pdu).map fun c =>
    if c.finalizeScPdus.isComplete then c.enter .active else c
  | .active => c.rdpRecvPdu pdu
  | _ => none

end Client

end FreeRDP.Core
