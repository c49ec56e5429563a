import FreeRDP.Core.Nego

/-!
# The protocol that is negotiated

`Agreed`: the selected protocol is enabled, has been asked for by the last request, and is the one that the
last Connection Confirm names.  When `nego_connect` succeeds, this is decided by its last attempt (`Sound`):

* an `RDP_NEG_RSP` is compared with the protocols that are enabled, not with those that the request asks
  for, so that after a fallback the server may still select what earlier requests have asked for;
* a confirm without data leaves alone the protocol that an earlier `RDP_NEG_RSP` has selected, even if that
  one is not enabled.
-/

namespace FreeRDP.Core

open Wire

variable {n n' : Nego} {a : Attempt} {sec : Security} {attempts : List Attempt} {ok : Bool}
  {packet : List UInt8}

/-! ### Confirms -/

/-- What a Connection Confirm says. -/
inductive Confirm
  | noData
  | response (selectedProtocol : ℕ)
  | other
deriving DecidableEq, Repr

def readConfirm (packet : List UInt8) : Option Confirm := do
  let (li, s) ← readConfirmHeader packet
  if li > 6 then
    let (type, s) ← u8 s
    if type = typeRdpNegRsp then
      let ((_, selectedProtocol), _) ← readNegData s
      return .response selectedProtocol
    else return .other
  else if li = 6 then return .noData
  else return .other

def Confirm.names : Confirm → Option ℕ
  | .noData => some protocolRdp
  | .response selectedProtocol => some selectedProtocol
  | .other => none

/-- The protocols that are asked for in a state. -/
def requestedBy : NegoState → ℕ
  | .ext => protocolHybrid ||| protocolSsl ||| protocolHybridEx
  | .nla => protocolHybrid ||| protocolSsl
  | .tls => protocolSsl
  | _ => protocolRdp

/-- `protocol` is standard RDP security or one of the bits of `requested`. -/
def IsRequested (protocol requested : ℕ) : Prop :=
  protocol = protocolRdp ∨ ∃ k, protocol = 2 ^ k ∧ requested.testBit k = true

/-! ### One attempt -/

/-- What stays as it is during the attempts. -/
structure Kept (n n' : Nego) : Prop where
  enabledProtocols : n'.enabledProtocols = n.enabledProtocols
  securityConnected : n.securityConnected = false → n'.securityConnected = false

theorem Kept.refl (n : Nego) : Kept n n := ⟨rfl, id⟩

theorem Kept.trans {n'' : Nego} (h : Kept n n') (h' : Kept n' n'') : Kept n n'' :=
  ⟨h'.enabledProtocols.trans h.enabledProtocols, h'.securityConnected ∘ h.securityConnected⟩

/-- What a confirm that ends the negotiation has done. -/
def Settled (n n' : Nego) : Confirm → Prop
  | .noData => n'.selectedProtocol = n.selectedProtocol ∧ n.enabledProtocols protocolRdp = true
  | .response p => n'.selectedProtocol = p ∧
      (p = protocolHybrid ∨ p = protocolSsl ∨ p = protocolRdp → n.enabledProtocols p = true)
  | .other => False

theorem negoTcpConnect_kept (direct gateway : Bool) (n : Nego) :
    Kept n (negoTcpConnect direct gateway n) ∧
      (negoTcpConnect direct gateway n).state = n.state ∧
      (negoTcpConnect direct gateway n).selectedProtocol = n.selectedProtocol ∧
      (negoTcpConnect direct gateway n).requestedProtocols = n.requestedProtocols := by
  unfold negoTcpConnect
  split
  · exact ⟨Kept.refl n, rfl, rfl, rfl⟩
  · split
    · split
      · dsimp only
        split <;> exact ⟨⟨rfl, id⟩, rfl, rfl, rfl⟩
      · dsimp only
        split <;> exact ⟨⟨rfl, id⟩, rfl, rfl, rfl⟩
    · exact ⟨⟨rfl, id⟩, rfl, rfl, rfl⟩

theorem negoTcpConnect_negotiate (direct gateway : Bool) (n : Nego) :
    (negoTcpConnect direct gateway n).negotiateSecurityLayer = n.negotiateSecurityLayer := by
  unfold negoTcpConnect
  dsimp only
  split_ifs <;> rfl

theorem negoCheckSelected_kept (n : Nego) :
    Kept n (negoCheckSelected n) ∧
      (negoCheckSelected n).selectedProtocol = n.selectedProtocol ∧
      (negoCheckSelected n).requestedProtocols = n.requestedProtocols := by
  unfold negoCheckSelected
  dsimp only
  split_ifs <;> exact ⟨⟨rfl, id⟩, rfl, rfl⟩

/-- The checks let a protocol pass that is enabled, and one that they do not know. -/
theorem negoCheckSelected_final (h : (negoCheckSelected n).state = .final) :
    n.selectedProtocol = protocolHybrid ∨ n.selectedProtocol = protocolSsl ∨
      n.selectedProtocol = protocolRdp → n.enabledProtocols n.selectedProtocol = true := by
  unfold negoCheckSelected at h
  rintro (hp | hp | hp)
  all_goals
    rw [hp]
    by_contra hdisabled
    simp only [protocolHybrid, protocolSsl, protocolRdp, Bool.not_eq_true] at hp hdisabled h
    simp [hp, hdisabled] at h

theorem negoProcessNegotiationFailure_kept (s : List UInt8) (n : Nego) :
    Kept n (negoProcessNegotiationFailure s n).1 ∧
      (negoProcessNegotiationFailure s n).1.selectedProtocol = n.selectedProtocol ∧
      (negoProcessNegotiationFailure s n).1.requestedProtocols = n.requestedProtocols ∧
      ((negoProcessNegotiationFailure s n).1.state = n.state ∨
        (negoProcessNegotiationFailure s n).1.state = .fail) := by
  unfold negoProcessNegotiationFailure
  split
  · exact ⟨Kept.refl n, rfl, rfl, Or.inl rfl⟩
  · dsimp only
    split <;> exact ⟨⟨rfl, id⟩, rfl, rfl, Or.inr rfl⟩

/-- `nego_recv` ends the negotiation only with a confirm that selects a protocol. -/
theorem negoRecv_final (hn : n.state ≠ .final) (h : negoRecv packet n = (n', ok))  :
    Kept n n' ∧ n'.requestedProtocols = n.requestedProtocols ∧
      (n'.state = .final → ok = true → ∃ c, readConfirm packet = some c ∧ Settled n n' c) := by
  unfold negoRecv at h
  unfold readConfirm
  cases hheader : readConfirmHeader packet with
  | none =>
    rw [hheader] at h
    obtain ⟨rfl, rfl⟩ := Prod.mk.inj h
    exact ⟨Kept.refl n, rfl, fun hfinal => absurd hfinal hn⟩
  | some header =>
    obtain ⟨li, s⟩ := header
    rw [hheader] at h
    dsimp only at h
    simp only [Option.bind_eq_bind, Option.bind_some]
    by_cases hli : li > 6
    · rw [if_pos hli] at h
      rw [if_pos hli]
      cases htype : u8 s with
      | none =>
        rw [htype] at h
        obtain ⟨rfl, rfl⟩ := Prod.mk.inj h
        exact ⟨Kept.refl n, rfl, fun hfinal => absurd hfinal hn⟩
      | some typed =>
        obtain ⟨type, s⟩ := typed
        rw [htype] at h
        dsimp only at h
        simp only [Option.bind_some]
        by_cases hrsp : type = typeRdpNegRsp
        · rw [if_pos hrsp] at h
          rw [if_pos hrsp]
          unfold negoProcessNegotiationResponse at h
          cases hdata : readNegData s with
          | none =>
            rw [hdata] at h
            obtain ⟨rfl, rfl⟩ := Prod.mk.inj h
            exact ⟨⟨rfl, id⟩, rfl, nofun⟩
          | some data =>
            obtain ⟨⟨flags, p⟩, s⟩ := data
            rw [hdata] at h
            obtain ⟨rfl, rfl⟩ := Prod.mk.inj h
            obtain ⟨hkept, hselected, hrequested⟩ := negoCheckSelected_kept
              { n with flags := flags, selectedProtocol := p, state := .final }
            refine ⟨⟨hkept.enabledProtocols, hkept.securityConnected⟩, hrequested,
              fun hfinal _ => ⟨.response p, rfl, hselected, ?_⟩⟩
            exact negoCheckSelected_final hfinal
        · rw [if_neg hrsp] at h
          split at h
          · obtain ⟨hkept, -, hrequested, hstate⟩ := negoProcessNegotiationFailure_kept s n
            have hstate' : (negoProcessNegotiationFailure s n).1.state ≠ .final := by
              rcases hstate with hstate | hstate
              · rwa [hstate]
              · rw [hstate]
                exact nofun
            have hn' : n' = (negoProcessNegotiationFailure s n).1 := by
              generalize negoProcessNegotiationFailure s n = r at h
              obtain ⟨m, _ | s⟩ := r
              · exact (Prod.mk.inj h).1.symm
              · exact (Prod.mk.inj h).1.symm
            rw [hn']
            exact ⟨hkept, hrequested, fun hfinal => absurd hfinal hstate'⟩
          · obtain ⟨rfl, rfl⟩ := Prod.mk.inj h
            exact ⟨Kept.refl n, rfl, fun hfinal => absurd hfinal hn⟩
    · rw [if_neg hli] at h
      rw [if_neg hli]
      by_cases hsix : li = 6
      · rw [if_pos hsix] at h
        rw [if_pos hsix]
        split at h
        · obtain ⟨rfl, rfl⟩ := Prod.mk.inj h
          exact ⟨⟨rfl, id⟩, rfl, nofun⟩
        · next henabled =>
          obtain ⟨rfl, rfl⟩ := Prod.mk.inj h
          refine ⟨⟨rfl, id⟩, rfl, fun _ _ => ⟨.noData, rfl, rfl, ?_⟩⟩
          simpa using henabled
      · rw [if_neg hsix] at h
        obtain ⟨rfl, rfl⟩ := Prod.mk.inj h
        exact ⟨⟨rfl, id⟩, rfl, nofun⟩

/-- The last confirm of an attempt that ends the negotiation. -/
def SettledBy (n n' : Nego) (a : Attempt) : Prop :=
  ∃ packet c, a.reply = some packet ∧ readConfirm packet = some c ∧ Settled n n' c

theorem negoExchange_final (hn : n.state ≠ .final) (h : negoExchange a n = (n', ok)) :
    Kept n n' ∧ n'.requestedProtocols = n.requestedProtocols ∧
      (n'.state = .final → ok = true ∧ SettledBy n n' a) := by
  obtain ⟨hkept, hstate, hselected, hrequested⟩ := negoTcpConnect_kept a.direct a.gateway n
  unfold negoExchange negoTransportConnect at h
  dsimp only at h
  generalize negoTcpConnect a.direct a.gateway n = m at *
  split at h
  · obtain ⟨rfl, rfl⟩ := Prod.mk.inj h
    exact ⟨⟨hkept.enabledProtocols, hkept.securityConnected⟩, hrequested, nofun⟩
  · split at h
    · obtain ⟨rfl, rfl⟩ := Prod.mk.inj h
      exact ⟨⟨hkept.enabledProtocols, hkept.securityConnected⟩, hrequested, nofun⟩
    · cases hreply : a.reply with
      | none =>
        rw [hreply] at h
        obtain ⟨rfl, rfl⟩ := Prod.mk.inj h
        exact ⟨⟨hkept.enabledProtocols, hkept.securityConnected⟩, hrequested, nofun⟩
      | some packet =>
        rw [hreply, negoRecvResponse] at h
        cases hrecv : negoRecv packet m with
        | mk m' ok' =>
          obtain ⟨hkept', hrequested', hfinal⟩ := negoRecv_final (hstate ▸ hn) hrecv
          rw [hrecv] at h
          cases ok' with
          | false =>
            obtain ⟨rfl, rfl⟩ := Prod.mk.inj h
            exact ⟨hkept.trans ⟨hkept'.enabledProtocols, hkept'.securityConnected⟩,
              hrequested'.trans hrequested, nofun⟩
          | true =>
            obtain ⟨rfl, rfl⟩ := Prod.mk.inj h
            refine ⟨hkept.trans hkept', hrequested'.trans hrequested, fun hend => ⟨rfl, ?_⟩⟩
            obtain ⟨c, hc, hsettled⟩ := hfinal hend rfl
            refine ⟨packet, c, hreply, hc, ?_⟩
            cases c with
            | noData => exact ⟨hsettled.1.trans hselected, hkept.enabledProtocols ▸ hsettled.2⟩
            | response p => exact ⟨hsettled.1, hkept.enabledProtocols ▸ hsettled.2⟩
            | other => exact hsettled

theorem negoExchange_settled {requested : ℕ} {ok : Bool} (hn : n.state ≠ .final)
    (h : negoExchange a { n with requestedProtocols := requested } = (n', ok)) :
    Kept n n' ∧ (n'.state = .final →
      ok = true ∧ n'.requestedProtocols = requested ∧ SettledBy n n' a) := by
  obtain ⟨hkept, hrequested, hfinal⟩ :=
    negoExchange_final (n := { n with requestedProtocols := requested }) hn h
  exact ⟨⟨hkept.enabledProtocols, hkept.securityConnected⟩,
    fun hend => ⟨(hfinal hend).1, hrequested, (hfinal hend).2⟩⟩

theorem negoAttempt_final {requested : ℕ} {fallback : Nego → NegoState} (hn : n.state ≠ .final)
    (hfallback : ∀ n, fallback n ≠ .final) (a : Attempt) :
    Kept n (negoAttempt requested fallback a n) ∧
      ((negoAttempt requested fallback a n).state = .final →
        (negoAttempt requested fallback a n).requestedProtocols = requested ∧
          SettledBy n (negoAttempt requested fallback a n) a) := by
  unfold negoAttempt
  cases h : negoExchange a { n with requestedProtocols := requested } with
  | mk n' ok =>
    obtain ⟨hkept, hfinal⟩ := negoExchange_settled hn h
    cases ok with
    | false => exact ⟨hkept, fun hend => absurd (hfinal hend).1 Bool.false_ne_true⟩
    | true =>
      dsimp only
      split
      · exact ⟨⟨hkept.enabledProtocols, fun _ => rfl⟩, fun hend => absurd hend (hfallback _)⟩
      · exact ⟨hkept, fun hend => (hfinal hend).2⟩

/-- What one attempt keeps, and what it has done if it ends the negotiation. -/
theorem negoSend_final (hn : n.state ≠ .final) (a : Attempt) :
    Kept n (negoSend a n) ∧
      ((negoSend a n).state = .final →
        (negoSend a n).requestedProtocols = requestedBy n.state ∧ SettledBy n (negoSend a n) a) := by
  unfold negoSend
  cases hstate : n.state with
  | initial => exact ⟨Kept.refl n, fun hend => absurd hend hn⟩
  | fail => exact ⟨Kept.refl n, fun hend => absurd hend hn⟩
  | final => exact absurd hstate hn
  | ext => exact negoAttempt_final hn (fun _ => by split_ifs <;> decide) a
  | nla => exact negoAttempt_final hn (fun _ => by split_ifs <;> decide) a
  | tls => exact negoAttempt_final hn (fun _ => by split_ifs <;> decide) a
  | rdp =>
    dsimp only
    unfold negoAttemptRdp
    obtain ⟨hkept, hfinal⟩ := negoExchange_settled hn (Prod.eta _).symm
    exact ⟨hkept, fun hend => (hfinal hend).2⟩

/-! ### All attempts -/

/-- The last attempt that is made, with the state before it. -/
def lastAttempt : Nego → List Attempt → Option (Nego × Attempt)
  | _, [] => none
  | n, a :: as =>
    if (negoSend a n).state = .fail ∨ (negoSend a n).state = .final then some (n, a)
    else lastAttempt (negoSend a n) as

/-- The loop ends in success with the attempt that ends the negotiation. -/
theorem negoLoop_last (hn : n.state ≠ .final) (hsecurity : n.securityConnected = false)
    (h : negoLoop attempts n = some (n', true)) :
    ∃ m a, lastAttempt n attempts = some (m, a) ∧ n' = negoSend a m ∧ (negoSend a m).state = .final ∧
      m.state ≠ .final ∧ m.enabledProtocols = n.enabledProtocols ∧
      (negoSend a m).securityConnected = false := by
  induction attempts generalizing n with
  | nil => exact nomatch h
  | cons a as ih =>
    obtain ⟨hkept, -⟩ := negoSend_final hn a
    rw [negoLoop] at h
    rw [lastAttempt]
    by_cases hfail : (negoSend a n).state = .fail
    · rw [if_pos hfail] at h
      exact nomatch h
    · rw [if_neg hfail] at h
      by_cases hfinal : (negoSend a n).state = .final
      · rw [if_pos hfinal] at h
        obtain ⟨rfl, -⟩ := Prod.mk.inj (Option.some.inj h)
        rw [if_pos (Or.inr hfinal)]
        exact ⟨n, a, rfl, rfl, hfinal, hn, rfl, hkept.securityConnected hsecurity⟩
      · rw [if_neg hfinal] at h
        rw [if_neg (not_or.mpr ⟨hfail, hfinal⟩)]
        obtain ⟨m, b, hlast, hn', hend, hm, henabled, hsec⟩ :=
          ih hfinal (hkept.securityConnected hsecurity) h
        exact ⟨m, b, hlast, hn', hend, hm, henabled.trans hkept.enabledProtocols, hsec⟩

/-- The state that the loop of `nego_connect` starts in. -/
def negoBegin (sec : Security) (n : Nego) : Nego :=
  let n := { n with state := negoFirstState n }
  if n.sendPreconnectionPdu then negoTcpConnect sec.direct sec.gateway n else n

theorem negoBegin_kept (sec : Security) (n : Nego) :
    Kept n (negoBegin sec n) ∧ (negoBegin sec n).state ≠ .final := by
  have hstate : negoFirstState n ≠ .final := by
    unfold negoFirstState
    split_ifs <;> exact nofun
  unfold negoBegin
  dsimp only
  split
  · obtain ⟨hkept, hsame, -⟩ := negoTcpConnect_kept sec.direct sec.gateway
      { n with state := negoFirstState n }
    exact ⟨⟨hkept.enabledProtocols, hkept.securityConnected⟩, fun hend => hstate (hsame.symm.trans hend)⟩
  · exact ⟨⟨rfl, id⟩, hstate⟩

theorem negoConnect_loop (hnegotiate : n.negotiateSecurityLayer = true)
    (h : negoConnect sec attempts n = some (n', true)) :
    ∃ m, negoLoop attempts (negoBegin sec n) = some (m, true) ∧ negoFinish sec m = (n', true) := by
  unfold negoConnect at h
  dsimp only at h
  rw [if_pos hnegotiate] at h
  split at h
  · exact absurd (Prod.mk.inj (Option.some.inj h)).2 Bool.false_ne_true
  · have hm : (negoBegin sec n).negotiateSecurityLayer = true := by
      unfold negoBegin
      dsimp only
      split
      · exact (negoTcpConnect_negotiate sec.direct sec.gateway _).trans hnegotiate
      · exact hnegotiate
    generalize hbegin : (if n.sendPreconnectionPdu then _ else _ : Nego) = m at h
    obtain rfl : m = negoBegin sec n := hbegin.symm
    rw [hm] at h
    split at h
    · exact absurd (Prod.mk.inj (Option.some.inj h)).2 Bool.false_ne_true
    · rw [if_neg (by decide)] at h
      split at h
      · exact absurd h (Option.some_ne_none _).symm
      · exact absurd (Prod.mk.inj (Option.some.inj h)).2 Bool.false_ne_true
      · next m hloop =>
        exact ⟨m, hloop, Option.some.inj h⟩

/-- The security layer connects with a protocol that it knows. -/
theorem negoFinish_true (hsecurity : n.securityConnected = false) (h : negoFinish sec n = (n', true)) :
    (n.selectedProtocol = protocolHybrid ∨ n.selectedProtocol = protocolSsl ∨
        n.selectedProtocol = protocolRdp) ∧
      n'.settings.selectedProtocol = n.selectedProtocol ∧
      n'.settings.requestedProtocols = n.requestedProtocols := by
  unfold negoFinish negoSecurityConnect at h
  dsimp only at h
  split at h
  · exact nomatch h
  · rw [hsecurity] at h
    simp only [Bool.false_eq_true, if_false] at h
    split at h
    · next hknown =>
      obtain ⟨rfl, -⟩ := Prod.mk.inj h
      exact ⟨hknown, rfl, rfl⟩
    · exact absurd (Prod.mk.inj h).2 (by simp)

/-- The protocol in the settings is enabled, has been asked for by the last request, and is the one that the
last confirm names. -/
structure Agreed (n n' : Nego) (a : Attempt) : Prop where
  enabled : n.enabledProtocols n'.settings.selectedProtocol = true
  requested : IsRequested n'.settings.selectedProtocol n'.settings.requestedProtocols
  named : ∃ packet c, a.reply = some packet ∧ readConfirm packet = some c ∧
    c.names = some n'.settings.selectedProtocol

/-- A confirm may end the negotiation: an `RDP_NEG_RSP` selects a protocol that this attempt asks for, and
nothing but standard RDP security has been selected before a confirm without data. -/
def Confirm.Sound (n : Nego) : Confirm → Prop
  | .noData => n.selectedProtocol = protocolRdp
  | .response p => IsRequested p (requestedBy n.state)
  | .other => False

/-- The confirm of an attempt may end the negotiation. -/
def Attempt.Sound (n : Nego) (a : Attempt) : Prop :=
  ∃ packet c, a.reply = some packet ∧ readConfirm packet = some c ∧ c.Sound n

/-- When `nego_connect` succeeds, the protocol is enabled, asked for and named by the server if and only if
the confirm of the last attempt may end the negotiation. -/
theorem negoConnect_agreed_iff (enabledProtocols : ℕ → Bool)
    (sendPreconnectionPdu gatewayEnabled gatewayBypassLocal : Bool) (settings : NegoSettings)
    (sec : Security) (attempts : List Attempt) (n' : Nego)
    (h : negoConnect sec attempts
      (negoStart enabledProtocols sendPreconnectionPdu gatewayEnabled gatewayBypassLocal settings) =
        some (n', true)) :
    ∃ m a, lastAttempt (negoBegin sec
        (negoStart enabledProtocols sendPreconnectionPdu gatewayEnabled gatewayBypassLocal settings))
          attempts = some (m, a) ∧
      (Agreed (negoStart enabledProtocols sendPreconnectionPdu gatewayEnabled gatewayBypassLocal settings)
        n' a ↔ a.Sound m) := by
  generalize hstart : negoStart enabledProtocols sendPreconnectionPdu gatewayEnabled gatewayBypassLocal
    settings = n at h
  have hnegotiate : n.negotiateSecurityLayer = true := hstart ▸ rfl
  have hsecurity : n.securityConnected = false := hstart ▸ rfl
  obtain ⟨hkept, hbegin⟩ := negoBegin_kept sec n
  obtain ⟨e, hloop, hfinish⟩ := negoConnect_loop hnegotiate h
  obtain ⟨m, a, hlast, rfl, hend, hm, henabled, hsec⟩ :=
    negoLoop_last hbegin (hkept.securityConnected hsecurity) hloop
  obtain ⟨hknown, hselected', hrequested'⟩ := negoFinish_true hsec hfinish
  obtain ⟨-, hfinal⟩ := negoSend_final hm a
  obtain ⟨hrequested, packet, c, hreply, hc, hsettled⟩ := hfinal hend
  have henabled' : m.enabledProtocols = n.enabledProtocols := henabled.trans hkept.enabledProtocols
  have hunique {packet' : List UInt8} {c' : Confirm} (hreply' : a.reply = some packet')
      (hc' : readConfirm packet' = some c') : c' = c := by
    obtain rfl := Option.some.inj (hreply.symm.trans hreply')
    exact Option.some.inj (hc'.symm.trans hc)
  refine ⟨m, a, hlast, ?_⟩
  cases c with
  | other => exact hsettled.elim
  | response p =>
    obtain ⟨hp, hchecked⟩ := hsettled
    have hselected : n'.settings.selectedProtocol = p := hselected'.trans hp
    constructor
    · intro hagreed
      refine ⟨packet, .response p, hreply, hc, ?_⟩
      have := hagreed.requested
      rwa [hselected, hrequested', hrequested] at this
    · rintro ⟨packet', c', hreply', hc', hsound⟩
      obtain rfl := hunique hreply' hc'
      refine ⟨?_, ?_, packet, .response p, hreply, hc, ?_⟩
      · rw [hselected, ← henabled']
        exact hchecked (hp ▸ hknown)
      · rwa [hselected, hrequested', hrequested]
      · rw [hselected]
        rfl
  | noData =>
    obtain ⟨hstale, hrdp⟩ := hsettled
    have hselected : n'.settings.selectedProtocol = m.selectedProtocol := hselected'.trans hstale
    constructor
    · intro hagreed
      obtain ⟨packet', c', hreply', hc', hnames⟩ := hagreed.named
      obtain rfl := hunique hreply' hc'
      refine ⟨packet, .noData, hreply, hc, ?_⟩
      exact hselected.symm.trans (Option.some.inj hnames).symm
    · rintro ⟨packet', c', hreply', hc', hsound⟩
      obtain rfl := hunique hreply' hc'
      have hzero : n'.settings.selectedProtocol = protocolRdp := hselected.trans hsound
      refine ⟨?_, Or.inl hzero, packet, .noData, hreply, hc, ?_⟩
      · rw [hzero, ← henabled']
        exact hrdp
      · rw [hzero]
        rfl

/-! ### Examples -/

/-- A Connection Confirm without data. -/
def confirmNoData : List UInt8 := tpktWriteHeader 11 ++ tpduWriteHeader 6 x224TpduConnectionConfirm

/-- A Connection Confirm with an `RDP_NEG_RSP` or an `RDP_NEG_FAILURE`. -/
def confirmData (type value : ℕ) : List UInt8 :=
  tpktWriteHeader 19 ++ tpduWriteHeader 14 x224TpduConnectionConfirm ++ byte type ++ byte 0 ++ le16 8 ++
    le32 value

/-- A transport that does what it is asked for. -/
def connected : Security := ⟨true, true, true, true⟩

/-- An attempt that gets the reply `packet`. -/
def replied (packet : List UInt8) : Attempt := ⟨true, true, true, some packet⟩

/-- The start of a connection with the protocols in `protocols` enabled. -/
def startWith (protocols : List ℕ) : Nego :=
  negoStart (fun p => p ∈ protocols) false false false ⟨0, 0, 0, false⟩

/-- The server refuses the first request, and selects what the second one asks for. -/
def secondAttempt : List Attempt :=
  [replied (confirmData typeRdpNegFailure sslNotAllowedByServer),
    replied (confirmData typeRdpNegRsp protocolSsl)]

theorem negoConnect_agreed_fallback :
    ∃ m a, lastAttempt (negoBegin connected (startWith [protocolHybrid, protocolSsl])) secondAttempt =
        some (m, a) ∧
      ∃ n', negoConnect connected secondAttempt (startWith [protocolHybrid, protocolSsl]) =
          some (n', true) ∧
        (Agreed (startWith [protocolHybrid, protocolSsl]) n' a ↔ a.Sound m) := by
  obtain ⟨m, a, hlast, hagreed⟩ :=
    negoConnect_agreed_iff (fun p => p ∈ [protocolHybrid, protocolSsl]) false false false ⟨0, 0, 0, false⟩
      connected secondAttempt _ rfl
  exact ⟨m, a, hlast, _, rfl, hagreed⟩

/-- TLS is disabled, but has been selected in reply to the first request; the confirm of the second one has
no data, and the connection is made with TLS.  With TLS enabled, the server may select NLA in reply to a
request for TLS alone. -/
theorem negoConnect_stale :
    (∃ n', negoConnect connected
        [replied (confirmData typeRdpNegRsp protocolSsl), replied confirmNoData]
        (startWith [protocolHybrid, protocolRdp]) = some (n', true) ∧
      n'.settings.selectedProtocol = protocolSsl ∧
      (startWith [protocolHybrid, protocolRdp]).enabledProtocols protocolSsl = false) ∧
    ∃ n', negoConnect connected
        [replied (confirmData typeRdpNegFailure sslNotAllowedByServer),
          replied (confirmData typeRdpNegRsp protocolHybrid)]
        (startWith [protocolHybrid, protocolSsl]) = some (n', true) ∧
      n'.settings.selectedProtocol = protocolHybrid ∧ n'.settings.requestedProtocols = protocolSsl :=
  ⟨⟨_, rfl, rfl, rfl⟩, _, rfl, rfl, rfl⟩

end FreeRDP.Core
