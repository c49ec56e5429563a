import FreeRDP.Core.Connection
import FreeRDP.Lib.Run

/-!
## The server against any client

* `server_sequence`: whatever a client sends, nothing happens on the side of the server before what it
  requires has happened.
-/

namespace FreeRDP.Core

/-- All channels have been joined. -/
def AllJoined (l : List Event) : Prop :=
  ∃ user ids message, .attachUser user ∈ l ∧ .connectInitial ids message ∈ l ∧ .joined user ∈ l ∧
    .joined mcsGlobalChannelId ∈ l ∧ (message ≠ 0 → .joined message ∈ l) ∧ ∀ id ∈ ids, .joined id ∈ l

/-- What comes before an event. -/
def Requires (l : List Event) : Event → Prop
  | .negotiated => True
  | .connectInitial _ _ => .negotiated ∈ l
  | .erectDomain => ∃ ids message, .connectInitial ids message ∈ l
  | .attachUser _ => .erectDomain ∈ l
  | .joined _ => ∃ user, .attachUser user ∈ l
  | .securityExchange => AllJoined l
  | .clientInfo useRdpSecurityLayer => AllJoined l ∧ (useRdpSecurityLayer → .securityExchange ∈ l)
  | .licensed => ∃ useRdpSecurityLayer, .clientInfo useRdpSecurityLayer ∈ l
  | .received => .licensed ∈ l

/-- A log in which everything is preceded by what it requires. -/
inductive Ordered : List Event → Prop
  | nil : Ordered []
  | cons {e : Event} {l : List Event} (h : Requires l e) (hl : Ordered l) : Ordered (e :: l)

/-- The flags are those of joins. -/
def Joins (s : Server) (joined : ℕ → Prop) : Prop :=
  (s.userChannelJoined → joined s.userId) ∧ (s.globalChannelJoined → joined mcsGlobalChannelId) ∧
    (s.messageChannelJoined → joined s.messageChannelId) ∧ ∀ c ∈ s.channels, c.2 → joined c.1

/-- The channels have been numbered. -/
def Numbered (s : Server) : Prop := .connectInitial s.channelIds s.messageChannelId ∈ s.log

/-- What is known in a state. -/
def Known (s : Server) : Prop :=
  match s.state with
  | .initial => Joins s fun _ => False
  | .nego => Joins s (fun _ => False) ∧ .negotiated ∈ s.log
  | .mcsConnect => Joins s (fun _ => False) ∧ Numbered s
  | .mcsErectDomain => Joins s (fun _ => False) ∧ Numbered s ∧ .erectDomain ∈ s.log
  | .mcsAttachUser => Joins s (.joined · ∈ s.log) ∧ Numbered s ∧ .attachUser s.userId ∈ s.log
  | .rdpSecurityCommencement => AllJoined s.log
  | .secureSettingsExchange =>
    AllJoined s.log ∧ (s.useRdpSecurityLayer → .securityExchange ∈ s.log)
  | .licensing => ∃ useRdpSecurityLayer, .clientInfo useRdpSecurityLayer ∈ s.log
  | .capabilitiesExchange | .finalization | .active => .licensed ∈ s.log
  | _ => False

structure Sound (s : Server) : Prop where
  ordered : Ordered s.log
  known : Known s
  activated : s.activated → s.state = .active

/-- A packet, and what the application answers; or the application resizes the desktop.  A step that fails is
the last one. -/
def serverInput (s : Server) : Option (ClientPdu × Answers) → Option Server
  | some (pdu, a) => s.peerRecvCallback a pdu
  | none => some s.rdpServerReactivate

/-- A step of a server whose application resizes the desktop in the active state, or in `PostConnect`. -/
def Server.Step (s : Server) (i : Option (ClientPdu × Answers)) (s' : Server) : Prop :=
  (i.isNone → s.state = .active) ∧ serverInput s i = some s'

variable {s s' t : Server} {a : Answers} {pdu : ClientPdu} {e : Event}

theorem activated_enter (c : ConnectionState) (hs : (s.enter c).activated) : s.activated := by
  simp only [Server.enter] at hs
  split_ifs at hs
  exact hs

theorem Sound.enter {c : ConnectionState} (h : Sound s) (hs : s.state ≠ .active)
    (he : Requires s.log e) (hlog : t.log = e :: s.log) (hactivated : t.activated = s.activated)
    (hknown : Known (t.enter c)) : Sound (t.enter c) :=
  ⟨hlog ▸ .cons he h.ordered, hknown, fun ha => absurd (h.activated (hactivated ▸ activated_enter c ha)) hs⟩

/-! ### The joins -/

theorem readBlocks_joined {blocks : List ClientBlock} {numbers numbers' : List (ℕ × Bool) × ℕ × ℕ}
    (h : ∀ c ∈ numbers.1, c.2 → False) (hread : blocks.foldlM Server.readBlock numbers = some numbers') :
    ∀ c ∈ numbers'.1, c.2 → False := by
  induction blocks generalizing numbers with
  | nil =>
    cases hread
    exact h
  | cons b blocks ih =>
    rw [List.foldlM_cons, Option.bind_eq_bind, Option.bind_eq_some_iff] at hread
    obtain ⟨next, hnext, hread⟩ := hread
    refine ih ?_ hread
    cases b with
    | network channelCount =>
      simp only [Server.readBlock] at hnext
      split_ifs at hnext
      cases hnext
      simp
    | messageChannel =>
      cases hnext
      exact h

theorem joins_join (channelId : ℕ) (h : Joins s (.joined · ∈ s.log)) :
    Joins (s.join channelId) (.joined · ∈ .joined channelId :: s.log) := by
  have hor : ∀ {b c : Bool} {i : ℕ}, (b → .joined i ∈ s.log) → (c → i = channelId) → (b || c) →
      Event.joined i ∈ .joined channelId :: s.log := by
    intro b c i hb hc h
    rcases Bool.or_eq_true_iff.mp h with h | h
    · exact .tail _ (hb h)
    · exact hc h ▸ .head _
  obtain ⟨hu, hg, hm, hc⟩ := h
  refine ⟨hor hu fun h => ?_, hor hg fun h => ?_, hor hm fun h => ?_, ?_⟩
  · exact (of_decide_eq_true h).symm
  · exact (of_decide_eq_true (Bool.and_eq_true_iff.mp h).2).symm
  · exact (of_decide_eq_true (Bool.and_eq_true_iff.mp h).2).symm
  · simp only [Server.join, List.forall_mem_map]
    exact fun c hmem => hor (hc c hmem) of_decide_eq_true

theorem allJoined_log (hj : Joins s (.joined · ∈ s.log)) (hn : Numbered s)
    (hu : .attachUser s.userId ∈ s.log) (h : s.allJoined) : AllJoined s.log := by
  simp only [Server.allJoined, Bool.and_eq_true, Bool.or_eq_true, decide_eq_true_eq,
    List.all_eq_true] at h
  obtain ⟨⟨⟨huser, hglobal⟩, hmessage⟩, hall⟩ := h
  refine ⟨_, _, _, hu, hn, hj.1 huser, hj.2.1 hglobal, fun hne => hj.2.2.1 (hmessage.resolve_left hne), ?_⟩
  intro id hid
  obtain ⟨c, hc, rfl⟩ := List.mem_map.mp hid
  exact hj.2.2.2 c hc (hall c hc)

theorem Sound.join {channelId : ℕ} (h : Sound s) (hs : s.state = .mcsAttachUser)
    (hstep : s.rdpServerAcceptMcsChannelJoinRequest (.channelJoinRequest channelId) = some s') :
    Sound s' := by
  cases hstep
  have hk := h.known
  rw [Known, hs] at hk
  obtain ⟨hj, hn, hu⟩ := hk
  have hjoin := joins_join channelId hj
  have hn' : Numbered ((s.join channelId).note (.joined channelId)) := by
    simp only [Numbered, Server.channelIds, Server.note, Server.join, List.map_map]
    exact .tail _ hn
  split_ifs with hall
  · exact h.enter (e := .joined channelId) (by simp [hs]) ⟨_, hu⟩ rfl rfl
      (allJoined_log hjoin hn' (.tail _ hu) hall)
  · refine ⟨.cons (e := .joined channelId) ⟨_, hu⟩ h.ordered, ?_, h.activated⟩
    simp only [Known, Server.note, Server.join, Server.send, hs]
    exact ⟨hjoin, hn', .tail _ hu⟩

theorem AllJoined.mono (h : AllJoined s.log) : AllJoined (e :: s.log) := by
  obtain ⟨user, ids, message, hu, hn, hj, hg, hm, hids⟩ := h
  exact ⟨user, ids, message, .tail _ hu, .tail _ hn, .tail _ hj, .tail _ hg, fun h => .tail _ (hm h),
    fun id hid => .tail _ (hids id hid)⟩

/-! ### Behind the license -/

theorem known_iff (hs : 12 ≤ s.state.value) : Known s ↔ .licensed ∈ s.log := by
  unfold Known
  cases h : s.state <;> rw [h] at hs <;> first | rfl | exact absurd hs (by decide)

theorem Sound.reactivate (h : Sound s) (hs : 12 ≤ s.state.value) (b : Bool) :
    Sound { s.rdpServerReactivate with connected := b } := by
  have hoff : ¬s.rdpServerReactivate.activated :=
    fun ha => Bool.false_ne_true (activated_enter .capabilitiesExchange ha)
  exact ⟨h.ordered, (known_iff hs).mp h.known, fun ha => (hoff ha).elim⟩

theorem Sound.enterActive (h : Sound s) (hs : 12 ≤ s.state.value)
    (hstep : s.enterActive a = some s') : Sound s' := by
  obtain ⟨t, hpost, hstep⟩ := Option.bind_eq_some_iff.mp hstep
  have hlog := (known_iff hs).mp h.known
  have hactive : ∀ ha, Sound { s.enter .active with activated := ha } :=
    fun ha => ⟨h.ordered, hlog, fun _ => rfl⟩
  -- `PostConnect` may have left the state again.
  have ht : Sound t := by
    unfold Server.postConnect at hpost
    split_ifs at hpost with hconn hok hresizes <;> cases hpost
    · exact hactive _
    · exact (hactive _).reactivate (Nat.le_add_left 12 2) true
    · exact ⟨h.ordered, hlog, fun _ => rfl⟩
  split_ifs at hstep with hstate hok <;> cases hstep
  · refine ⟨ht.ordered, ?_, fun _ => hstate⟩
    have hk := ht.known
    rw [Known, hstate] at hk
    simpa only [Known, hstate] using hk
  · exact ht

theorem Sound.recvPdu (h : Sound s) (hs : 12 ≤ s.state.value) (hstep : s.peerRecvPdu a pdu = some s') :
    Sound s' := by
  have hlog := (known_iff hs).mp h.known
  have hnote : Sound (s.note .received) :=
    ⟨.cons hlog h.ordered, (known_iff (s := s.note .received) hs).mpr (.tail _ hlog), h.activated⟩
  cases pdu with
  | data pdu =>
    cases pdu with
    | fontList =>
      have hsend : Sound ((s.note .received).send .fontMap) :=
        ⟨hnote.ordered, hnote.known, hnote.activated⟩
      exact hsend.enterActive hs hstep
    | control action =>
      cases hstep
      split_ifs
      · exact ⟨hnote.ordered, hnote.known, hnote.activated⟩
      · exact hnote
    | shutdownRequest => cases hstep
    | _ =>
      cases hstep
      exact hnote
  | confirmActive =>
    simp only [Server.peerRecvPdu, Server.rdpServerAcceptConfirmActive] at hstep
    split_ifs at hstep with hcaps
    cases hstep
    have hne : s.state ≠ .active := by simp [show s.state = .capabilitiesExchange from hcaps.1]
    exact ⟨hnote.ordered, .tail _ hlog, fun ha => absurd (h.activated (activated_enter .finalization ha)) hne⟩
  | other =>
    cases hstep
    exact hnote
  | _ => cases hstep

theorem Sound.inCapabilitiesExchange {p : Option ClientPdu} (h : Sound s)
    (hs : s.state = .capabilitiesExchange) (hstep : s.inCapabilitiesExchange a p = some s') : Sound s' := by
  have hle : 12 ≤ s.state.value := by
    rw [hs]
    decide
  have hdemand : Sound s.demandActive := ⟨h.ordered, h.known, h.activated⟩
  unfold Server.inCapabilitiesExchange at hstep
  split_ifs at hstep
  · obtain ⟨pdu, -, hstep⟩ := Option.bind_eq_some_iff.mp hstep
    exact h.recvPdu hle hstep
  · cases p with
    | none =>
      cases hstep
      exact hdemand
    | some pdu => exact hdemand.recvPdu hle hstep

/-! ### Up to the license -/

theorem Sound.inLicensing (h : Sound s) (hs : s.state = .licensing) (hstep : s.inLicensing a = some s') :
    Sound s' := by
  have hk := h.known
  rw [Known, hs] at hk
  unfold Server.inLicensing at hstep
  cases hl : a.license <;> rw [hl] at hstep
  case abort => cases hstep
  case inProgress =>
    cases hstep
    exact h
  case completed =>
    have hnext : Sound (((s.send .validClient).note .licensed).enter .capabilitiesExchange) :=
      h.enter (e := .licensed) (by simp [hs]) hk rfl rfl (.head _)
    exact hnext.inCapabilitiesExchange rfl hstep

theorem Sound.inSecureSettingsExchange (h : Sound s) (hs : s.state = .secureSettingsExchange)
    (hstep : s.inSecureSettingsExchange a pdu = some s') : Sound s' := by
  have hk := h.known
  rw [Known, hs] at hk
  cases pdu with
  | clientInfo =>
    have hnext : Sound ((s.note (.clientInfo s.useRdpSecurityLayer)).enter .licensing) :=
      h.enter (e := .clientInfo _) (by simp [hs]) hk rfl rfl ⟨_, .head _⟩
    exact hnext.inLicensing rfl hstep
  | _ => cases hstep

theorem Sound.inSecurityCommencement (h : Sound s) (hs : s.state = .rdpSecurityCommencement)
    (hstep : s.inSecurityCommencement a pdu = some s') : Sound s' := by
  have hk := h.known
  rw [Known, hs] at hk
  have hne : s.state ≠ .active := by simp [hs]
  unfold Server.inSecurityCommencement at hstep
  split_ifs at hstep with hlayer
  · have hnext : Sound ((s.note .securityExchange).enter .secureSettingsExchange) :=
      h.enter (e := .securityExchange) hne hk rfl rfl ⟨AllJoined.mono hk, fun _ => .head _⟩
    cases pdu with
    | securityExchange rest =>
      cases rest with
      | none =>
        cases hstep
        exact hnext
      | some isInfo => exact hnext.inSecureSettingsExchange rfl hstep
    | _ => cases hstep
  · have hnext : Sound (s.enter .secureSettingsExchange) :=
      ⟨h.ordered, ⟨hk, fun hl => absurd hl hlayer⟩,
        fun ha => absurd (h.activated (activated_enter _ ha)) hne⟩
    exact hnext.inSecureSettingsExchange rfl hstep

/-! ### Runs -/

theorem Sound.recv (h : Sound s) (hstep : s.peerRecvCallback a pdu = some s') : Sound s' := by
  have hk := h.known
  unfold Server.peerRecvCallback at hstep
  unfold Known at hk
  cases hs : s.state <;> simp only [hs] at hk hstep
  case initial =>
    cases pdu <;> cases hstep
    exact h.enter (e := .negotiated) (by simp [hs]) trivial rfl rfl ⟨hk, .head _⟩
  case nego =>
    cases pdu with
    | connectInitial blocks =>
      obtain ⟨numbers, hread, hstep⟩ := Option.bind_eq_some_iff.mp hstep
      cases hstep
      obtain ⟨⟨hu, hg, hm, hc⟩, hn⟩ := hk
      exact h.enter (e := .connectInitial _ _) (by simp [hs]) hn rfl rfl
        ⟨⟨hu, hg, hm, readBlocks_joined hc hread⟩, .head _⟩
    | _ => cases hstep
  case mcsConnect =>
    cases pdu <;> cases hstep
    exact h.enter (e := .erectDomain) (by simp [hs]) ⟨_, _, hk.2⟩ rfl rfl ⟨hk.1, .tail _ hk.2, .head _⟩
  case mcsErectDomain =>
    cases pdu <;> cases hstep
    obtain ⟨⟨hu, hg, hm, hc⟩, hn, herect⟩ := hk
    exact h.enter (e := .attachUser _) (by simp [hs]) herect rfl rfl
      ⟨⟨fun h => (hu h).elim, fun h => (hg h).elim, fun h => (hm h).elim,
        fun c hmem h => (hc c hmem h).elim⟩, .tail _ hn, .head _⟩
  case mcsAttachUser =>
    cases pdu with
    | channelJoinRequest channelId => exact h.join hs hstep
    | _ => cases hstep
  case rdpSecurityCommencement => exact h.inSecurityCommencement hs hstep
  case secureSettingsExchange => exact h.inSecureSettingsExchange hs hstep
  case licensing => exact h.inLicensing hs hstep
  case capabilitiesExchange => exact h.inCapabilitiesExchange hs hstep
  case finalization => exact h.recvPdu (by rw [hs]; decide) hstep
  case active => exact h.recvPdu (by rw [hs]; decide) hstep

theorem Sound.input {i : Option (ClientPdu × Answers)} (h : Sound s) (hstep : s.Step i s') : Sound s' := by
  obtain ⟨hresize, hstep⟩ := hstep
  cases i with
  | some p => exact h.recv hstep
  | none =>
    cases hstep
    have hs := hresize rfl
    exact h.reactivate (by rw [hs]; decide) s.connected

/-- Whatever a client sends, and whatever the application answers, everything is preceded by what it
requires: no PDU reaches the dispatch before the license, no license comes before the client info, and no
client info before all channels have been joined and, with the RDP security layer, a key is there.  The
application is active in the active state only. -/
theorem server_sequence {inputs : List (Option (ClientPdu × Answers))}
    (h : Runs Server.Step freerdpPeerInitialize inputs s) :
    Ordered s.log ∧ (12 ≤ s.state.value → .licensed ∈ s.log) ∧ (s.activated → s.state = .active) := by
  have hsound : Sound s := by
    refine h.invariant ?_ fun t i u ht hstep => ht.input hstep
    exact ⟨.nil, by simp [Known, Joins, freerdpPeerInitialize], by simp [freerdpPeerInitialize]⟩
  exact ⟨hsound.ordered, fun hle => (known_iff hle).mp hsound.known, hsound.activated⟩

/-- A client that gets to the active state, and on which the desktop is resized. -/
def activeClient : List (Option (ClientPdu × Answers)) :=
  ([.connectionRequest true, .connectInitial [.network 1, .messageChannel], .erectDomainRequest,
    .attachUserRequest, .channelJoinRequest 1006, .channelJoinRequest 1003, .channelJoinRequest 1005,
    .channelJoinRequest 1004, .securityExchange none, .clientInfo, .confirmActive,
    .data .fontList].map fun pdu => some (pdu, ({} : Answers))) ++ [none]

theorem server_sequence_activeClient : ∃ s,
    Runs Server.Step freerdpPeerInitialize activeClient s ∧ Ordered s.log ∧
      (12 ≤ s.state.value → .licensed ∈ s.log) ∧ (s.activated → s.state = .active) := by
  have hrun : activeClient.foldlM
      (fun s i => if i.isNone → s.state = .active then serverInput s i else none) freerdpPeerInitialize =
        some _ := rfl
  have hsteps : Runs Server.Step _ _ _ := (Runs.of_foldlM hrun).mono
    fun _ _ _ hstep => Option.ite_none_right_eq_some.mp hstep
  exact ⟨_, hsteps, server_sequence hsteps⟩

end FreeRDP.Core
