import FreeRDP.Core.Connection
import FreeRDP.Lib.Dialogue

/-!
## The connection sequence

* `client_server_activate`: a client and a server of this library that have negotiated the security always
  come to an end of the sequence, in whatever order their PDUs arrive.  No PDU is refused on the way; in the
  end both sides are active, and agree about the channels, all of which have been joined.
-/

namespace FreeRDP.Core

open Dialogue

/-! ### Both sides -/

/-- A connection with the PDUs that are on their way. -/
abbrev Connection := Dialogue Server Client ClientPdu ServerPdu

/-- The server takes a PDU; its application accepts everything. -/
def serverStep (resizes : Bool) (s : Server) (pdu : ClientPdu) : Option (Server × List ServerPdu) :=
  (s.peerRecvCallback { resizes := resizes } pdu).map fun s => ({ s with sent := [] }, s.sent)

def clientStep (c : Client) (pdu : ServerPdu) : Option (Client × List ClientPdu) :=
  (c.rdpRecvCallback pdu).map fun c => ({ c with sent := [] }, c.sent)

/-- A connection of which the security has been negotiated. -/
def negotiated (channelCount : ℕ) (messageChannel persist layer : Bool) : Connection where
  left := { freerdpPeerInitialize with
    state := .nego, useRdpSecurityLayer := layer, log := [.negotiated] }
  right := { mcsClientBegin channelCount messageChannel persist with sent := [] }
  toLeft := (mcsClientBegin channelCount messageChannel persist).sent
  toRight := []

variable {n k i b : ℕ} {m persist layer resizes : Bool} {log : List Event}

/-! ### What is the same on both sides -/

def userIdOf (n : ℕ) (m : Bool) : ℕ := 1004 + n + m.toNat

def messageId (n : ℕ) (m : Bool) : ℕ := if m then 1004 + n else 0

/-- As many joins as there are channels. -/
def joinCount (n : ℕ) (m : Bool) : ℕ := n + 2 + m.toNat

/-- The channel that is joined after `k` others. -/
def joinId (n : ℕ) (m : Bool) (k : ℕ) : ℕ :=
  if k = 0 then userIdOf n m
  else if k = 1 then mcsGlobalChannelId
  else if m ∧ k = 2 then messageId n m
  else 1004 + (k - (2 + m.toNat))

/-- The static channels, of which the first `k` have been joined. -/
def joinedChannels (n k : ℕ) : List (ℕ × Bool) :=
  (List.range' 0 n).map fun i => (1004 + i, decide (i < k))

/-- The server after `k` joins. -/
def serverJoining (n : ℕ) (m layer : Bool) (k : ℕ) (log : List Event) : Server where
  state := .mcsAttachUser
  useRdpSecurityLayer := layer
  awaitCapabilities := false
  baseChannelId := userIdOf n m + 1
  userId := userIdOf n m
  messageChannelId := messageId n m
  channels := joinedChannels n (k - (2 + m.toNat))
  userChannelJoined := 0 < k
  globalChannelJoined := 1 < k
  messageChannelJoined := m && 2 < k
  connected := false
  activated := false
  sent := []
  log := log

/-- The client after `k` joins. -/
def clientJoining (n : ℕ) (m persist layer : Bool) (k : ℕ) : Client where
  state := .mcsChannelJoin
  useRdpSecurityLayer := layer
  userId := userIdOf n m
  messageChannelId := messageId n m
  channels := joinedChannels n (k - (2 + m.toNat))
  userChannelJoined := 0 < k
  globalChannelJoined := 1 < k
  messageChannelJoined := m && 2 < k
  finalizeScPdus := {}
  deactivationReactivation := false
  bitmapCachePersistEnabled := persist
  sent := []

/-- The next join is on its way to the server. -/
def joining (n : ℕ) (m persist layer : Bool) (k : ℕ) (log : List Event) : Connection where
  left := serverJoining n m layer k log
  right := clientJoining n m persist layer k
  toLeft := [.channelJoinRequest (joinId n m k)]
  toRight := []

/-- All channels have been joined, and the client is ahead. -/
def joinedAll (s : Server) (c : Client) (persist layer : Bool) : Connection where
  left := { s with
    state := .rdpSecurityCommencement, connected := false, useRdpSecurityLayer := layer, sent := [] }
  right := { c with
    state := .licensing, bitmapCachePersistEnabled := persist, deactivationReactivation := false, sent := [] }
  toLeft := if layer then [.securityExchange none, .clientInfo] else [.clientInfo]
  toRight := []

/-- The server has sent a Demand Active PDU. -/
def offered (s : Server) (c : Client) (persist connected again : Bool) : Connection where
  left := { s with
    state := .capabilitiesExchange, connected := connected, awaitCapabilities := true, sent := [] }
  right := { c with
    state := .capabilitiesExchange, bitmapCachePersistEnabled := persist
    deactivationReactivation := again, sent := [] }
  toLeft := []
  toRight := [.demandActive]

/-- Both sides are active, and nothing is on its way. -/
def bothActive (s : Server) (c : Client) : Connection where
  left := { s with
    state := .active, connected := true, activated := true, awaitCapabilities := true, sent := [] }
  right := { c with state := .active, finalizeScPdus := ⟨true, true, true, true⟩, sent := [] }
  toLeft := []
  toRight := []

/-- Both sides have joined all channels, under the same ids. -/
structure Joined (n : ℕ) (s : Server) (c : Client) : Prop where
  allJoined : s.allJoined = true
  user : c.userChannelJoined = true
  global : c.globalChannelJoined = true
  message : c.messageChannelId ≠ 0 → c.messageChannelJoined = true
  userId : s.userId = c.userId
  messageChannelId : s.messageChannelId = c.messageChannelId
  serverChannels : s.channels = joinedChannels n n
  clientChannels : c.channels = joinedChannels n n

theorem settle_joinedAll (s : Server) (c : Client) (persist layer resizes : Bool) :
    ∃ log activated, settle (serverStep resizes) clientStep (layer.toNat + 2)
      (joinedAll s c persist layer) = offered { s with
        log := log, activated := activated, useRdpSecurityLayer := layer } c persist false false := by
  cases layer <;> exact ⟨_, _, rfl⟩

/-- A callback that resizes the desktop starts the exchange anew. -/
theorem settle_offered_of_resizes (s : Server) (c : Client) (persist : Bool) :
    ∃ log activated bits, settle (serverStep true) clientStep (persist.toNat + 11)
      (offered s c persist false false) = offered { s with log := log, activated := activated }
        { c with finalizeScPdus := bits } persist true true := by
  cases persist <;> exact ⟨_, _, _, rfl⟩

/-- The exchange is made once, or twice. -/
theorem settle_offered (s : Server) (c : Client) (persist again : Bool) :
    ∃ log, settle (serverStep again) clientStep 12 (offered s c persist again again) =
      bothActive { s with log := log }
        { c with bitmapCachePersistEnabled := persist, deactivationReactivation := again } := by
  cases persist <;> cases again <;> exact ⟨_, rfl⟩

theorem exists_talks_bothActive {s : Server} {c : Client} (h : Joined n s c) (persist layer resizes : Bool) :
    ∃ i s' c', Talks (serverStep resizes) clientStep i (joinedAll s c persist layer)
      (bothActive s' c') ∧ Joined n (bothActive s' c').left (bothActive s' c').right := by
  obtain ⟨log, activated, hfirst⟩ := settle_joinedAll s c persist layer resizes
  obtain ⟨i, hi⟩ := exists_talks_of_settle hfirst
  generalize hs : { s with log := log, activated := activated, useRdpSecurityLayer := layer } = s' at hi
  obtain ⟨hall, huser, hglobal, hmessage, hid, hmessageId, hserver, hclient⟩ : Joined n s' c := by
    rw [← hs]
    exact ⟨h.allJoined, h.user, h.global, h.message, h.userId, h.messageChannelId, h.serverChannels,
      h.clientChannels⟩
  cases resizes with
  | false =>
    obtain ⟨log, hlast⟩ := settle_offered s' c persist false
    obtain ⟨j, hj⟩ := exists_talks_of_settle hlast
    exact ⟨i + j, _, _, hi.trans hj, hall, huser, hglobal, hmessage, hid, hmessageId, hserver, hclient⟩
  | true =>
    obtain ⟨log, activated, bits, hagain⟩ := settle_offered_of_resizes s' c persist
    obtain ⟨j, hj⟩ := exists_talks_of_settle hagain
    obtain ⟨log', hlast⟩ := settle_offered { s' with log := log, activated := activated }
      { c with finalizeScPdus := bits } persist true
    obtain ⟨l, hl⟩ := exists_talks_of_settle hlast
    exact ⟨i + j + l, _, _, (hi.trans hj).trans hl, hall, huser, hglobal, hmessage, hid, hmessageId, hserver,
      hclient⟩

/-! ### The joins -/

theorem readNetworkData_map {cs : List (ℕ × Bool)} (h : ∀ c ∈ cs, c.2 = false) :
    Client.readNetworkData (cs.map Prod.fst) (List.replicate cs.length (0, false)) = cs := by
  induction cs with
  | nil => rfl
  | cons c cs ih =>
    obtain ⟨hc, hcs⟩ := List.forall_mem_cons.mp h
    rw [List.map_cons, List.length_cons, List.replicate_succ, Client.readNetworkData, ih hcs, ← hc]

/-- The confirm of the channel `k` is the one that the loop over the channels waits for. -/
theorem joinFirst_range' (hb : b ≤ k) (hk : k < b + n) :
    Client.joinFirst (1004 + k) ((List.range' b n).map fun i => (1004 + i, decide (i < k))) =
      some ((List.range' b n).map fun i => (1004 + i, decide (i < k + 1)),
        if k + 1 < b + n then some (1004 + (k + 1)) else none) := by
  induction n generalizing b with
  | zero => omega
  | succ n ih =>
    rw [List.range'_succ]
    obtain rfl | hlt := Nat.eq_or_lt_of_le hb
    · have hmap : (List.range' (b + 1) n).map (fun i => (1004 + i, decide (i < b))) =
          (List.range' (b + 1) n).map fun i => (1004 + i, decide (i < b + 1)) := by
        refine List.map_congr_left fun i hi => ?_
        have := List.mem_range'_1.mp hi
        simp only [Prod.mk.injEq, decide_eq_decide, true_and]
        omega
      cases n with
      | zero => simp [Client.joinFirst]
      | succ n => simpa [Client.joinFirst, List.range'_succ] using hmap
    · have hnext := ih hlt (by omega)
      have hlt' : b < k + 1 := by omega
      have hiff : k + 1 < b + (n + 1) ↔ k + 1 < b + 1 + n := by omega
      simp only [List.map_cons, Client.joinFirst, hlt, hlt', decide_true, if_true, hiff, hnext,
        Option.map_some]

theorem map_joinedChannels {id : ℕ} (h : ∀ x < n, (x < k ∨ 1004 + x = id) ↔ x < i) :
    (joinedChannels n k).map (fun c => (c.1, c.2 || decide (c.1 = id))) = joinedChannels n i := by
  rw [joinedChannels, List.map_map]
  refine List.map_congr_left fun x hx => ?_
  have hx' : x < n := by simpa using List.mem_range'_1.mp hx
  simp only [Function.comp_apply, Prod.mk.injEq, true_and, ← Bool.decide_or, decide_eq_decide]
  exact h x hx'

theorem all_joinedChannels (n k : ℕ) : (joinedChannels n k).all Prod.snd = decide (n ≤ k) := by
  rw [Bool.eq_iff_iff, List.all_eq_true]
  simp only [joinedChannels, List.mem_map, List.mem_range'_1, decide_eq_true_eq]
  constructor
  · intro h
    by_contra hlt
    have := h _ ⟨k, by omega, rfl⟩
    simp at this
  · rintro h _ ⟨i, hi, rfl⟩
    simpa using by omega

theorem join_serverJoining (hk : k < joinCount n m) :
    (serverJoining n m layer k log).join (joinId n m k) = serverJoining n m layer (k + 1) log := by
  have hchan : (joinedChannels n (k - (2 + m.toNat))).map
      (fun c => (c.1, c.2 || decide (c.1 = joinId n m k))) = joinedChannels n (k + 1 - (2 + m.toNat)) := by
    refine map_joinedChannels fun x hx => ?_
    unfold joinId userIdOf messageId mcsGlobalChannelId
    unfold joinCount at hk
    cases m <;> simp <;> split_ifs <;> omega
  unfold Server.join
  simp only [serverJoining, hchan, Server.mk.injEq, true_and, and_true]
  unfold joinCount at hk
  refine ⟨?_, ?_, ?_⟩ <;> rw [Bool.eq_iff_iff] <;> unfold joinId userIdOf messageId mcsGlobalChannelId <;>
    cases m <;> simp <;> split_ifs <;> omega

theorem allJoined_serverJoining (n : ℕ) (m layer : Bool) (k : ℕ) (log : List Event) :
    (serverJoining n m layer k log).allJoined = decide (joinCount n m ≤ k) := by
  unfold Server.allJoined serverJoining
  rw [all_joinedChannels, Bool.eq_iff_iff]
  unfold joinCount messageId
  cases m <;> simp <;> omega

theorem joinId_static (n : ℕ) (m : Bool) (k : ℕ) : joinId n m (2 + m.toNat + k) = 1004 + k := by
  have hmessage : ¬(m = true ∧ 2 + m.toNat + k = 2) := by
    rintro ⟨rfl, h⟩
    rw [Bool.toNat_true] at h
    omega
  unfold joinId
  rw [if_neg (by omega), if_neg (by omega), if_neg hmessage, Nat.add_sub_cancel_left]

/-- After the first joins, the flags say that they have been made. -/
theorem clientJoining_static (n : ℕ) (m persist layer : Bool) (k : ℕ) :
    clientJoining n m persist layer (2 + m.toNat + k) =
      { clientJoining n m persist layer 3 with
        channels := joinedChannels n k, messageChannelJoined := m } := by
  have huser : 0 < 2 + m.toNat + k := by omega
  have hglobal : 1 < 2 + m.toNat + k := by omega
  have hmessage : (m && decide (2 < 2 + m.toNat + k)) = m := by
    cases m <;> simp
    omega
  simp [clientJoining, huser, hglobal, hmessage]

theorem recordJoin_clientJoining (hk : k < joinCount n m) :
    (clientJoining n m persist layer k).recordJoin (joinId n m k) =
      some (clientJoining n m persist layer (k + 1),
        if k + 1 < joinCount n m then some (joinId n m (k + 1)) else none) := by
  have hhead : (joinedChannels n 0).head?.map Prod.fst = if 0 < n then some 1004 else none := by
    cases n <;> rfl
  obtain hlt | hle := Nat.lt_or_ge k (2 + m.toNat)
  · -- The user, the global channel and the message channel.
    obtain rfl | rfl | ⟨rfl, rfl⟩ : k = 0 ∨ k = 1 ∨ (k = 2 ∧ m = true) := by
      cases m <;> simp at hlt ⊢ <;> omega
    · cases m <;> simp [Client.recordJoin, clientJoining, joinId, joinCount]
    · cases m <;> simp [Client.recordJoin, clientJoining, joinId, joinCount, messageId, hhead]
    · simp [Client.recordJoin, clientJoining, joinId, joinCount, messageId, hhead]
  · obtain ⟨x, rfl⟩ := Nat.exists_eq_add_of_le hle
    have hx : x < 0 + n := by
      unfold joinCount at hk
      omega
    have hnext : 2 + m.toNat + (x + 1) < joinCount n m ↔ x + 1 < 0 + n := by
      unfold joinCount
      omega
    have hfirst : Client.joinFirst (1004 + x) (joinedChannels n x) = some (joinedChannels n (x + 1),
        if x + 1 < 0 + n then some (1004 + (x + 1)) else none) :=
      joinFirst_range' (Nat.zero_le x) hx
    simp only [Nat.add_assoc _ x 1, hnext, joinId_static, clientJoining_static]
    cases m <;> simp [Client.recordJoin, clientJoining, messageId, hfirst]

theorem serverStep_joining (hk : k < joinCount n m) :
    serverStep resizes (serverJoining n m layer k log) (.channelJoinRequest (joinId n m k)) =
      some (if k + 1 < joinCount n m then
          serverJoining n m layer (k + 1) (.joined (joinId n m k) :: log)
        else (serverJoining n m layer (k + 1) (.joined (joinId n m k) :: log)).enter
          .rdpSecurityCommencement,
        [.channelJoinConfirm (joinId n m k)]) := by
  have hnote : (((serverJoining n m layer k log).send (.channelJoinConfirm (joinId n m k))).join
      (joinId n m k)).note (.joined (joinId n m k)) =
        (serverJoining n m layer (k + 1) (.joined (joinId n m k) :: log)).send
          (.channelJoinConfirm (joinId n m k)) := by
    show (((serverJoining n m layer k log).join (joinId n m k)).send _).note _ = _
    rw [join_serverJoining hk]
    rfl
  have hall : ((serverJoining n m layer (k + 1) (.joined (joinId n m k) :: log)).send
      (.channelJoinConfirm (joinId n m k))).allJoined = decide (joinCount n m ≤ k + 1) :=
    allJoined_serverJoining n m layer (k + 1) (.joined (joinId n m k) :: log)
  unfold serverStep
  show Option.map _ (some (if Server.allJoined _ then _ else _)) = _
  rw [hnote, hall]
  by_cases h : k + 1 < joinCount n m
  · simp only [h, Nat.not_le_of_lt h]
    rfl
  · simp only [h, Nat.le_of_not_lt h]
    rfl

theorem clientStep_joining (hk : k < joinCount n m) :
    clientStep (clientJoining n m persist layer k) (.channelJoinConfirm (joinId n m k)) =
      some (if k + 1 < joinCount n m then (clientJoining n m persist layer (k + 1),
          [.channelJoinRequest (joinId n m (k + 1))])
        else ({ clientJoining n m persist layer (k + 1) with state := .licensing },
          if layer then [.securityExchange none, .clientInfo] else [.clientInfo])) := by
  show Option.map _ (Option.map _ (Client.recordJoin _ _)) = _
  rw [recordJoin_clientJoining hk]
  by_cases h : k + 1 < joinCount n m
  · simp only [h, if_true]
    rfl
  · simp only [h, if_false]
    cases layer <;> rfl

theorem exists_talks_joinedAll (n : ℕ) (m persist layer resizes : Bool) (hk : k < joinCount n m)
    (log : List Event) :
    ∃ i s c, Talks (serverStep resizes) clientStep i (joining n m persist layer k log)
      (joinedAll s c persist layer) ∧ Joined n s c := by
  induction hd : joinCount n m - k generalizing k log with
  | zero => omega
  | succ d ih =>
    have hserver : serverStep resizes (serverJoining n m layer k log) _ = _ := serverStep_joining hk
    have hclient : clientStep (clientJoining n m persist layer k) _ = _ := clientStep_joining hk
    by_cases hlt : k + 1 < joinCount n m
    · rw [if_pos hlt] at hserver hclient
      obtain ⟨i, s, c, htalks, hjoined⟩ := ih hlt (.joined (joinId n m k) :: log) (by omega)
      refine ⟨i + 1 + 1, s, c, .cons (.left hserver) (.cons (.right hclient) ?_), hjoined⟩
      exact htalks
    · rw [if_neg hlt] at hserver hclient
      have hend : k + 1 - (2 + m.toNat) = n := by
        unfold joinCount at hk hlt
        omega
      refine ⟨2, serverJoining n m layer (k + 1) (.joined (joinId n m k) :: log),
        clientJoining n m persist layer (k + 1), .cons (.left hserver) (.cons (.right hclient) (.nil _)), ?_⟩
      have hsecond : 1 < k + 1 := by
        unfold joinCount at hlt
        omega
      refine ⟨?_, decide_eq_true (Nat.succ_pos k), decide_eq_true hsecond, fun hne => ?_, rfl, rfl,
        congrArg (joinedChannels n) hend, congrArg (joinedChannels n) hend⟩
      · rw [allJoined_serverJoining]
        exact decide_eq_true (Nat.le_of_not_lt hlt)
      · -- with a message channel, its join has been the third
        cases m with
        | false => exact absurd rfl hne
        | true =>
          unfold joinCount at hlt
          rw [Bool.toNat_true] at hlt
          exact decide_eq_true (show 2 < k + 1 by omega)

theorem exists_talks_joining (hn : n ≤ channelMaxCount) (m persist layer resizes : Bool) :
    ∃ i log, Talks (serverStep resizes) clientStep i (negotiated n m persist layer)
      (joining n m persist layer 0 log) := by
  have hraw : (List.range n).map (fun i => (mcsGlobalChannelId + 1 + i, false)) =
      joinedChannels n 0 := by
    rw [List.range_eq_range']
    rfl
  have hread : Client.readNetworkData ((joinedChannels n 0).map Prod.fst)
      (List.replicate n (0, false)) = joinedChannels n 0 := by
    have hlen : (joinedChannels n 0).length = n := by simp [joinedChannels]
    have hoff : ∀ c ∈ joinedChannels n 0, c.2 = false := by simp [joinedChannels]
    simpa only [hlen] using readNetworkData_map hoff
  have hblocks : (ClientBlock.network n :: if m then [.messageChannel] else []).foldlM Server.readBlock
      ([], 0, mcsGlobalChannelId + 1) = some (joinedChannels n 0, messageId n m, userIdOf n m) := by
    rw [List.foldlM_cons, Server.readBlock, if_neg (Nat.not_lt.mpr hn), hraw]
    cases m <;> rfl
  have hserver : serverStep resizes (negotiated n m persist layer).left
      (.connectInitial (.network n :: if m then [.messageChannel] else [])) = some
        ({ serverJoining n m layer 0 [.connectInitial ((joinedChannels n 0).map Prod.fst) (messageId n m),
            .negotiated] with state := .mcsConnect, baseChannelId := userIdOf n m, userId := 0 },
          [.connectResponse ((joinedChannels n 0).map Prod.fst) (messageId n m) layer]) := by
    show Option.map _ (Option.bind (List.foldlM Server.readBlock ([], 0, mcsGlobalChannelId + 1) _) _) = _
    rw [hblocks]
    cases m <;> rfl
  have hsettle : settle (serverStep resizes) clientStep 4
      ⟨{ serverJoining n m layer 0 [.connectInitial ((joinedChannels n 0).map Prod.fst) (messageId n m),
          .negotiated] with state := .mcsConnect, baseChannelId := userIdOf n m, userId := 0 },
        (negotiated n m persist layer).right, [],
        [.connectResponse ((joinedChannels n 0).map Prod.fst) (messageId n m) layer]⟩ =
      ⟨serverJoining n m layer 0 [.attachUser (userIdOf n m), .erectDomain,
          .connectInitial ((joinedChannels n 0).map Prod.fst) (messageId n m), .negotiated],
        { clientJoining n m persist layer 0 with
          channels := Client.readNetworkData ((joinedChannels n 0).map Prod.fst)
            (List.replicate n (0, false)) }, [.channelJoinRequest (userIdOf n m)], []⟩ := by
    cases m <;> rfl
  rw [hread] at hsettle
  obtain ⟨i, hi⟩ := exists_talks_of_settle hsettle
  refine ⟨i + 1, [.attachUser (userIdOf n m), .erectDomain,
    .connectInitial ((joinedChannels n 0).map Prod.fst) (messageId n m), .negotiated], .cons (.left hserver) ?_⟩
  cases m <;> exact hi

/-- A client and a server that have negotiated the security come to an end of the connection sequence, in
whatever order their PDUs arrive: no PDU is refused, and when none is on its way, both are active and have
joined all channels under the same ids. -/
theorem client_server_activate (hn : n ≤ channelMaxCount) (m persist layer resizes : Bool) :
    ∃ bound, ∀ i d, Talks (serverStep resizes) clientStep i (negotiated n m persist layer) d →
      i ≤ bound ∧
      (∀ onLeft, d.Pending onLeft → ∃ e, Delivers (serverStep resizes) clientStep onLeft d e) ∧
      (d.Quiet → d.left.state = .active ∧ d.left.connected = true ∧ d.left.activated = true ∧
        d.right.state = .active ∧ Joined n d.left d.right) := by
  obtain ⟨i, log, hi⟩ := exists_talks_joining hn m persist layer resizes
  have hjoins : 0 < joinCount n m := by
    unfold joinCount
    omega
  obtain ⟨j, s, c, hj, hjoined⟩ := exists_talks_joinedAll n m persist layer resizes hjoins log
  obtain ⟨l, s', c', hl, hjoined'⟩ := exists_talks_bothActive hjoined persist layer resizes
  have hquiet : (bothActive s' c').Quiet := quiet_iff.mpr ⟨rfl, rfl⟩
  refine ⟨i + j + l, fun i' d h => ?_⟩
  obtain ⟨hle, hnext, hend⟩ := ((hi.trans hj).trans hl).every hquiet h
  refine ⟨hle, hnext, fun hd => ?_⟩
  rw [hend hd]
  exact ⟨rfl, rfl, rfl, rfl, hjoined'⟩

/-- Two static channels, a message channel and the RDP security layer; the desktop is resized. -/
theorem client_server_activate_two : ∃ bound, ∀ i d,
    Talks (serverStep true) clientStep i (negotiated 2 true true true) d →
      i ≤ bound ∧ (d.Quiet → d.left.activated = true ∧ Joined 2 d.left d.right) := by
  obtain ⟨bound, h⟩ := client_server_activate (n := 2) (by decide) true true true true
  refine ⟨bound, fun i d htalks => ?_⟩
  obtain ⟨hle, -, hquiet⟩ := h i d htalks
  exact ⟨hle, fun hd => ⟨(hquiet hd).2.2.1, (hquiet hd).2.2.2.2⟩⟩

end FreeRDP.Core
