import FreeRDP.Core.Tpkt

/-!
# Security negotiation

`nego.c` of `libfreerdp/core`: the client asks for security protocols, one attempt after the other, and
takes what the server confirms.

An `Attempt` says what the transport does during one round of `nego_connect`, with the packet that comes
back.  Of a request, only the protocols that it asks for are modelled.
-/

namespace FreeRDP.Core

open Wire

def protocolRdp : ℕ := 0

def protocolSsl : ℕ := 1

def protocolHybrid : ℕ := 2

def protocolHybridEx : ℕ := 8

inductive NegoState
  | initial | ext | nla | tls | rdp | fail | final
deriving DecidableEq, Repr

/-- What `nego_connect` writes to the `rdpSettings`. -/
structure NegoSettings where
  requestedProtocols : ℕ
  selectedProtocol : ℕ
  negotiationFlags : ℕ
  useRdpSecurityLayer : Bool
deriving DecidableEq, Repr

/-- `rdp_nego`, with the settings. -/
structure Nego where
  state : NegoState
  tcpConnected : Bool
  securityConnected : Bool
  sendNegoData : Bool
  flags : ℕ
  selectedProtocol : ℕ
  requestedProtocols : ℕ
  negotiateSecurityLayer : Bool
  enabledProtocols : ℕ → Bool
  sendPreconnectionPdu : Bool
  gatewayEnabled : Bool
  gatewayBypassLocal : Bool
  settings : NegoSettings

/-- One round: the results of `transport_connect` without and with the gateway, of sending the request, and
the packet that `transport_read_pdu` gives. -/
structure Attempt where
  direct : Bool
  gateway : Bool
  sent : Bool
  reply : Option (List UInt8)

/-- What happens before and after the rounds: the transport and the sending of the preconnection PDU, and
the result of `transport_connect_nla`, `transport_connect_tls` or `transport_connect_rdp`. -/
structure Security where
  direct : Bool
  gateway : Bool
  sent : Bool
  connected : Bool

/-! ### The transport -/

def negoTcpConnect (direct gateway : Bool) (n : Nego) : Nego :=
  if n.tcpConnected then n
  else if n.gatewayEnabled then
    let n := if n.gatewayBypassLocal then { n with tcpConnected := direct } else n
    if n.tcpConnected then n else { n with tcpConnected := gateway }
  else { n with tcpConnected := direct }

def negoSecurityConnect (connected : Bool) (n : Nego) : Nego :=
  if !n.tcpConnected then { n with securityConnected := false }
  else if n.securityConnected then n
  else if n.selectedProtocol = protocolHybrid ∨ n.selectedProtocol = protocolSsl ∨
      n.selectedProtocol = protocolRdp then { n with securityConnected := connected }
  else n

/-- `nego_transport_connect`, when the security layer is negotiated. -/
def negoTransportConnect (a : Attempt) (n : Nego) : Nego := negoTcpConnect a.direct a.gateway n

def negoTransportDisconnect (n : Nego) : Nego :=
  { n with tcpConnected := false, securityConnected := false }

/-! ### Receiving -/

def typeRdpNegRsp : ℕ := 2

def typeRdpNegFailure : ℕ := 3

def sslNotAllowedByServer : ℕ := 2

def sslCertNotOnServer : ℕ := 3

/-- The headers of a Connection Confirm: `tpkt_read_header` and `tpdu_read_connection_confirm`. -/
def readConfirmHeader : Reader ℕ := do
  let length ← tpktReadHeader
  tpduReadConnectionConfirm length

/-- The flags and the value of an `RDP_NEG_RSP` or `RDP_NEG_FAILURE`, behind the type. -/
def readNegData : Reader (ℕ × ℕ) := do
  need 7
  let flags ← u8
  let _length ← u16le
  let value ← u32le
  return (flags, value)

/-- `nego_process_negotiation_response`, with what is left of the packet. -/
def negoProcessNegotiationResponse (s : List UInt8) (n : Nego) : Nego × Option (List UInt8) :=
  match readNegData s with
  | none => ({ n with state := .fail }, none)
  | some ((flags, selectedProtocol), s) =>
    ({ n with flags := flags, selectedProtocol := selectedProtocol, state := .final }, some s)

/-- `nego_process_negotiation_failure`, with what is left of the packet. -/
def negoProcessNegotiationFailure (s : List UInt8) (n : Nego) : Nego × Option (List UInt8) :=
  match readNegData s with
  | none => (n, none)
  | some ((_, failureCode), s) =>
    let n := if failureCode = sslNotAllowedByServer ∨ failureCode = sslCertNotOnServer then
      { n with sendNegoData := true } else n
    ({ n with state := .fail }, some s)

/-- The checks of `nego_recv` behind an `RDP_NEG_RSP`. -/
def negoCheckSelected (n : Nego) : Nego :=
  if n.selectedProtocol ≠ 0 then
    let n := if n.selectedProtocol = protocolHybrid ∧ !n.enabledProtocols protocolHybrid then
      { n with state := .fail } else n
    if n.selectedProtocol = protocolSsl ∧ !n.enabledProtocols protocolSsl then
      { n with state := .fail } else n
  else if !n.enabledProtocols protocolRdp then { n with state := .fail } else n

/-- `nego_recv`, and whether it succeeds.  At the end, all of the packet must have been read. -/
def negoRecv (packet : List UInt8) (n : Nego) : Nego × Bool :=
  match readConfirmHeader packet with
  | none => (n, false)
  | some (li, s) =>
    if li > 6 then
      match u8 s with
      | none => (n, false)
      | some (type, s) =>
        if type = typeRdpNegRsp then
          match negoProcessNegotiationResponse s n with
          | (n, none) => (n, false)
          | (n, some s) => (negoCheckSelected n, s.isEmpty)
        else if type = typeRdpNegFailure then
          match negoProcessNegotiationFailure s n with
          | (n, none) => (n, false)
          | (n, some s) => (n, s.isEmpty)
        else (n, s.isEmpty)
    else if li = 6 then
      if !n.enabledProtocols protocolRdp then ({ n with state := .fail }, s.isEmpty)
      else ({ n with state := .final }, s.isEmpty)
    else ({ n with state := .fail }, s.isEmpty)

def negoRecvResponse (reply : Option (List UInt8)) (n : Nego) : Nego × Bool :=
  match reply with
  | none => (n, false)
  | some packet => negoRecv packet n

/-! ### Attempts -/

/-- The connection, the request and the reply of each of the attempts.  The attempt fails if one of them
does. -/
def negoExchange (a : Attempt) (n : Nego) : Nego × Bool :=
  let n := negoTransportConnect a n
  if !n.tcpConnected then ({ n with state := .fail }, false)
  else if !a.sent then ({ n with state := .fail }, false)
  else
    match negoRecvResponse a.reply n with
    | (n, false) => ({ n with state := .fail }, false)
    | (n, true) => (n, true)

/-- An attempt that asks for `requested`.  A negotiation that it has not ended goes on in the state
`fallback`. -/
def negoAttempt (requested : ℕ) (fallback : Nego → NegoState) (a : Attempt) (n : Nego) : Nego :=
  match negoExchange a { n with requestedProtocols := requested } with
  | (n, false) => n
  | (n, true) =>
    if n.state ≠ .final then
      let n := negoTransportDisconnect n
      { n with state := fallback n }
    else n

def negoAttemptExt : Attempt → Nego → Nego :=
  negoAttempt (protocolHybrid ||| protocolSsl ||| protocolHybridEx) fun n =>
    if n.enabledProtocols protocolHybrid then .nla
    else if n.enabledProtocols protocolSsl then .tls
    else if n.enabledProtocols protocolRdp then .rdp
    else .fail

def negoAttemptNla : Attempt → Nego → Nego :=
  negoAttempt (protocolHybrid ||| protocolSsl) fun n =>
    if n.enabledProtocols protocolSsl then .tls
    else if n.enabledProtocols protocolRdp then .rdp
    else .fail

def negoAttemptTls : Attempt → Nego → Nego :=
  negoAttempt protocolSsl fun n => if n.enabledProtocols protocolRdp then .rdp else .fail

def negoAttemptRdp (a : Attempt) (n : Nego) : Nego :=
  (negoExchange a { n with requestedProtocols := protocolRdp }).1

def negoSend (a : Attempt) (n : Nego) : Nego :=
  match n.state with
  | .ext => negoAttemptExt a n
  | .nla => negoAttemptNla a n
  | .tls => negoAttemptTls a n
  | .rdp => negoAttemptRdp a n
  | _ => n

/-- The loop of `nego_connect`, and whether it ends in success; `none` if it goes on after the attempts. -/
def negoLoop : List Attempt → Nego → Option (Nego × Bool)
  | [], _ => none
  | a :: as, n =>
    let n := negoSend a n
    if n.state = .fail then some ({ n with state := .final }, false)
    else if n.state = .final then some (n, true)
    else negoLoop as n

/-! ### Connecting -/

/-- The state that `nego_connect` starts in, for the protocols that are enabled. -/
def negoFirstState (n : Nego) : NegoState :=
  if n.enabledProtocols protocolHybridEx then .ext
  else if n.enabledProtocols protocolHybrid then .nla
  else if n.enabledProtocols protocolSsl then .tls
  else if n.enabledProtocols protocolRdp then .rdp
  else .fail

/-- Only the highest protocol that is enabled is left, and selected. -/
def negoSelectHighest (n : Nego) : Nego :=
  match n.state with
  | .ext => { n with
      enabledProtocols := fun p => p = protocolHybridEx ∨ p = protocolHybrid
      selectedProtocol := protocolHybridEx }
  | .nla => { n with
      enabledProtocols := fun p => p = protocolHybrid, selectedProtocol := protocolHybrid }
  | .tls => { n with enabledProtocols := fun p => p = protocolSsl, selectedProtocol := protocolSsl }
  | .rdp => { n with enabledProtocols := fun p => p = protocolRdp, selectedProtocol := protocolRdp }
  | _ => n

/-- The end of `nego_connect`: the settings, and the security layer. -/
def negoFinish (sec : Security) (n : Nego) : Nego × Bool :=
  let settings : NegoSettings :=
    { requestedProtocols := n.requestedProtocols
      selectedProtocol := n.selectedProtocol
      negotiationFlags := n.flags
      useRdpSecurityLayer :=
        if n.selectedProtocol = protocolRdp then true else n.settings.useRdpSecurityLayer }
  let n := negoSecurityConnect sec.connected { n with settings := settings }
  (n, n.securityConnected)

/-- `nego_connect` in the state `NEGO_STATE_INITIAL`; `none` if it goes on after the attempts. -/
def negoConnect (sec : Security) (attempts : List Attempt) (n : Nego) : Option (Nego × Bool) :=
  let n := { n with state := negoFirstState n }
  if n.state = .fail then some (n, false)
  else
    let n := if n.negotiateSecurityLayer then n else negoSelectHighest n
    let n := if n.sendPreconnectionPdu then negoTcpConnect sec.direct sec.gateway n else n
    if n.sendPreconnectionPdu ∧ !(n.tcpConnected && sec.sent) then
      some ({ n with state := .final }, false)
    else if !n.negotiateSecurityLayer then some (negoFinish sec { n with state := .final })
    else
      match negoLoop attempts n with
      | none => none
      | some (n, false) => some (n, false)
      | some (n, true) => some (negoFinish sec n)

/-- `nego_new`, with what the callers set before they connect, when the security layer is negotiated. -/
def negoStart (enabledProtocols : ℕ → Bool) (sendPreconnectionPdu gatewayEnabled gatewayBypassLocal : Bool)
    (settings : NegoSettings) : Nego where
  state := .initial
  tcpConnected := false
  securityConnected := false
  sendNegoData := false
  flags := 0
  selectedProtocol := 0
  requestedProtocols := protocolRdp
  negotiateSecurityLayer := true
  enabledProtocols := enabledProtocols
  sendPreconnectionPdu := sendPreconnectionPdu
  gatewayEnabled := gatewayEnabled
  gatewayBypassLocal := gatewayBypassLocal
  settings := settings

end FreeRDP.Core
