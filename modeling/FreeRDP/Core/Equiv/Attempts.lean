import FreeRDP.Core.Equiv.Nego

/-!
# The attempts of a negotiation

`nego_connect` makes one attempt after the other, and every attempt but the last one goes down in the order
`NEGO_STATE_EXT`, `NEGO_STATE_NLA`, `NEGO_STATE_TLS`, `NEGO_STATE_RDP`.  `nego_recv` leaves the state alone
when a Connection Confirm has data of a type that it does not know (`Ignored`).  The attempts with enhanced
security then go on to the next state.  The one with standard RDP security does not, and is made again.

`descends_iff`: `nego_connect` returns, and makes at most one attempt in each state and in this order,
if and only if no attempt with standard RDP security gets such a reply.  With such replies only, it does
not return (`negoLoop_ignored`).
-/

namespace FreeRDP.Core

open Wire

variable {n n' m m' : Nego} {a : Attempt} {sec : Security} {attempts : ℕ → Attempt} {packet : List UInt8}
  {k l : ℕ}

/-! ### Replies without an effect -/

/-- A Connection Confirm whose data is nothing but an unknown type. -/
def IgnoredPacket (packet : List UInt8) : Prop :=
  ∃ li s type, readConfirmHeader packet = some (li, s) ∧ li > 6 ∧ u8 s = some (type, []) ∧
    type ≠ typeRdpNegRsp ∧ type ≠ typeRdpNegFailure

/-- An attempt is made, and gets a reply without an effect. -/
def Ignored (a : Attempt) (n : Nego) : Prop :=
  (negoTransportConnect a n).tcpConnected = true ∧ a.sent = true ∧
    ∃ packet, a.reply = some packet ∧ IgnoredPacket packet

theorem negoRecv_ignored (h : IgnoredPacket packet) (n : Nego) : negoRecv packet n = (n, true) := by
  obtain ⟨li, s, type, hheader, hli, htype, hrsp, hfailure⟩ := h
  unfold negoRecv
  rw [hheader]
  dsimp only
  rw [if_pos hli, htype]
  dsimp only
  rw [if_neg hrsp, if_neg hfailure]
  rfl

def Over (n : Nego) : Prop := n.state = .fail ∨ n.state = .final

theorem negoCheckSelected_over (h : n.state = .final) : Over (negoCheckSelected n) := by
  unfold negoCheckSelected Over
  dsimp only
  split_ifs <;> simp [h]

/-- A reply that is accepted ends the negotiation, or is ignored. -/
theorem negoRecv_over (h : negoRecv packet n = (n', true)) : Over n' ∨ IgnoredPacket packet := by
  unfold negoRecv at h
  cases hheader : readConfirmHeader packet with
  | none =>
    rw [hheader] at h
    exact absurd (Prod.mk.inj h).2 Bool.false_ne_true
  | some header =>
    obtain ⟨li, s⟩ := header
    rw [hheader] at h
    dsimp only at h
    split_ifs at h with hli hsix hrdp
    · cases hu : u8 s with
      | none =>
        rw [hu] at h
        exact absurd (Prod.mk.inj h).2 Bool.false_ne_true
      | some data =>
        obtain ⟨type, rest⟩ := data
        rw [hu] at h
        dsimp only at h
        split_ifs at h with hrsp hfailure
        · unfold negoProcessNegotiationResponse at h
          cases hdata : readNegData rest with
          | none =>
            rw [hdata] at h
            exact absurd (Prod.mk.inj h).2 Bool.false_ne_true
          | some data =>
            rw [hdata] at h
            dsimp only at h
            rw [← (Prod.mk.inj h).1]
            exact Or.inl (negoCheckSelected_over rfl)
        · unfold negoProcessNegotiationFailure at h
          cases hdata : readNegData rest with
          | none =>
            rw [hdata] at h
            exact absurd (Prod.mk.inj h).2 Bool.false_ne_true
          | some data =>
            rw [hdata] at h
            dsimp only at h
            rw [← (Prod.mk.inj h).1]
            exact Or.inl (Or.inl rfl)
        · obtain ⟨-, hempty⟩ := Prod.mk.inj h
          rw [List.isEmpty_iff.mp hempty] at hu
          exact Or.inr ⟨li, s, type, hheader, hli, hu, hrsp, hfailure⟩
    · rw [← (Prod.mk.inj h).1]
      exact Or.inl (Or.inl rfl)
    · rw [← (Prod.mk.inj h).1]
      exact Or.inl (Or.inr rfl)
    · rw [← (Prod.mk.inj h).1]
      exact Or.inl (Or.inl rfl)

/-! ### One attempt -/

theorem negoTransportConnect_requested (a : Attempt) (n : Nego) (requested : ℕ) :
    (negoTransportConnect a { n with requestedProtocols := requested }).tcpConnected =
      (negoTransportConnect a n).tcpConnected := by
  unfold negoTransportConnect negoTcpConnect
  dsimp only
  split_ifs <;> rfl

/-- An exchange that does not succeed ends the negotiation. -/
theorem negoExchange_false (h : negoExchange a n = (n', false)) : n'.state = .fail := by
  unfold negoExchange at h
  dsimp only at h
  split_ifs at h
  · rw [← (Prod.mk.inj h).1]
  · rw [← (Prod.mk.inj h).1]
  · rcases hrecv : negoRecvResponse a.reply (negoTransportConnect a n) with ⟨r, ok⟩
    rw [hrecv] at h
    cases ok with
    | false => rw [← (Prod.mk.inj h).1]
    | true => exact absurd (Prod.mk.inj h).2 Bool.false_ne_true.symm

/-- An exchange fails, ends the negotiation, or brings a reply without an effect. -/
theorem negoExchange_over (a : Attempt) (n : Nego) :
    Over (negoExchange a n).1 ∨ Ignored a n ∧ (negoExchange a n).1.state = n.state := by
  unfold negoExchange
  dsimp only
  split_ifs with hconnected hsent
  · exact Or.inl (Or.inl rfl)
  · exact Or.inl (Or.inl rfl)
  · rw [Bool.not_eq_true, Bool.not_eq_false'] at hconnected hsent
    cases hreply : a.reply with
    | none => exact Or.inl (Or.inl rfl)
    | some packet =>
      unfold negoRecvResponse
      dsimp only
      rcases hrecv : negoRecv packet (negoTransportConnect a n) with ⟨r, ok⟩
      cases ok with
      | false => exact Or.inl (Or.inl rfl)
      | true =>
        rcases negoRecv_over hrecv with hover | hignored
        · exact Or.inl hover
        · rw [negoRecv_ignored hignored] at hrecv
          refine Or.inr ⟨⟨hconnected, hsent, packet, hreply, hignored⟩, ?_⟩
          rw [← (Prod.mk.inj hrecv).1]
          exact (negoTcpConnect_kept a.direct a.gateway n).2.1

/-- A reply without an effect leaves the state alone. -/
theorem negoExchange_ignored (h : Ignored a n) : (negoExchange a n).1.state = n.state := by
  obtain ⟨hconnected, hsent, packet, hreply, hignored⟩ := h
  unfold negoExchange
  dsimp only
  rw [hconnected, hsent, hreply, Bool.not_true, if_neg Bool.false_ne_true, if_neg Bool.false_ne_true]
  unfold negoRecvResponse
  dsimp only
  rw [negoRecv_ignored hignored]
  exact (negoTcpConnect_kept a.direct a.gateway n).2.1

/-- The order of the attempts. -/
def NegoState.rank : NegoState → ℕ
  | .initial => 0
  | .ext => 1
  | .nla => 2
  | .tls => 3
  | .rdp => 4
  | .fail => 5
  | .final => 6

/-- The loop has another attempt to make. -/
def Tries (n : Nego) : Prop := 1 ≤ n.state.rank ∧ n.state.rank ≤ 4

/-- An attempt goes to a state of which the fallback and the two ends have the rank. -/
theorem negoAttempt_rank {requested k : ℕ} {fallback : Nego → NegoState} (hk : k < 5)
    (hfallback : ∀ n, k < (fallback n).rank) : k < (negoAttempt requested fallback a n).state.rank := by
  unfold negoAttempt
  rcases hexchange : negoExchange a { n with requestedProtocols := requested } with ⟨r, ok⟩
  cases ok with
  | false =>
    dsimp only
    rw [negoExchange_false hexchange]
    exact hk
  | true =>
    dsimp only
    split_ifs with hfinal
    · exact hfallback _
    · rw [not_not.mp hfinal]
      exact hk.trans (Nat.lt_succ_self 5)

/-- An attempt goes down in the order of the states, except that standard RDP security is tried again
after a reply without an effect. -/
theorem negoSend_rank (h : Tries n) :
    n.state.rank < (negoSend a n).state.rank ∨
      n.state = .rdp ∧ (negoSend a n).state = .rdp ∧ Ignored a n := by
  unfold Tries at h
  unfold negoSend
  cases hstate : n.state with
  | initial =>
    rw [hstate] at h
    exact absurd h.1 (by decide)
  | ext => exact Or.inl (negoAttempt_rank (by decide) fun _ => by split_ifs <;> decide)
  | nla => exact Or.inl (negoAttempt_rank (by decide) fun _ => by split_ifs <;> decide)
  | tls => exact Or.inl (negoAttempt_rank (by decide) fun _ => by split_ifs <;> decide)
  | rdp =>
    dsimp only
    unfold negoAttemptRdp
    rcases negoExchange_over a { n with requestedProtocols := protocolRdp } with (hover | hover) | hignored
    · rw [hover]
      exact Or.inl (by decide)
    · rw [hover]
      exact Or.inl (by decide)
    · obtain ⟨⟨hconnected, hrest⟩, hsame⟩ := hignored
      rw [negoTransportConnect_requested] at hconnected
      exact Or.inr ⟨rfl, hsame.trans hstate, hconnected, hrest⟩
  | fail =>
    rw [hstate] at h
    exact absurd h.2 (by decide)
  | final =>
    rw [hstate] at h
    exact absurd h.2 (by decide)

/-- After a reply without an effect, standard RDP security is tried again. -/
theorem negoSend_ignored (hstate : n.state = .rdp) (h : Ignored a n) : (negoSend a n).state = .rdp := by
  unfold negoSend
  rw [hstate]
  dsimp only
  unfold negoAttemptRdp
  obtain ⟨hconnected, hrest⟩ := h
  rw [← negoTransportConnect_requested a n protocolRdp] at hconnected
  exact (negoExchange_ignored ⟨hconnected, hrest⟩).trans hstate

/-! ### The loop -/

/-- The loop begins its attempt `k`, from 0, with `m`. -/
inductive Makes (attempts : ℕ → Attempt) (n : Nego) : ℕ → Nego → Prop
  | first (h : Tries n) : Makes attempts n 0 n
  | next {k : ℕ} {m : Nego} (h : Makes attempts n k m) (hgoes : Tries (negoSend (attempts k) m)) :
      Makes attempts n (k + 1) (negoSend (attempts k) m)

theorem Makes.tries (h : Makes attempts n k m) : Tries m := by
  cases h with
  | first h => exact h
  | next _ h => exact h

/-- No attempt with standard RDP security gets a reply without an effect. -/
def Heard (attempts : ℕ → Attempt) (n : Nego) : Prop :=
  ∀ k m, Makes attempts n k m → m.state = .rdp → ¬ Ignored (attempts k) m

theorem Heard.rank_lt (hheard : Heard attempts n) (h : Makes attempts n k m) :
    m.state.rank < (negoSend (attempts k) m).state.rank := by
  rcases negoSend_rank h.tries with hlt | ⟨hstate, -, hignored⟩
  · exact hlt
  · exact absurd hignored (hheard k m h hstate)

/-- The state before an attempt is the one that the attempts before it lead to. -/
theorem Makes.unique (h : Makes attempts n k m) (h' : Makes attempts n k m') : m = m' := by
  induction k generalizing m m' with
  | zero =>
    cases h
    cases h'
    rfl
  | succ k ih =>
    cases h with
    | next h =>
      cases h' with
      | next h' => rw [ih h h']

theorem Heard.rank_lt_of_lt (hheard : Heard attempts n) (h : Makes attempts n k m)
    (h' : Makes attempts n l m') (hkl : k < l) : m.state.rank < m'.state.rank := by
  induction h' with
  | first => omega
  | @next l m' hm' hgoes ih =>
    have hlt := hheard.rank_lt hm'
    rcases Nat.lt_or_eq_of_le (Nat.lt_succ_iff.mp hkl) with hkl | rfl
    · exact (ih hkl).trans hlt
    · rwa [h.unique hm']

/-- What is left of the attempts, from the attempt `k` on. -/
def attemptsFrom (attempts : ℕ → Attempt) (k count : ℕ) : List Attempt :=
  (List.range' k count).map attempts

theorem over_or_tries (h : 1 ≤ n.state.rank) :
    n.state = .fail ∨ n.state = .final ∨ Tries n := by
  unfold Tries
  cases hstate : n.state with
  | fail => exact Or.inl rfl
  | final => exact Or.inr (Or.inl rfl)
  | initial =>
    rw [hstate] at h
    exact absurd h (by decide)
  | ext => exact Or.inr (Or.inr (by decide))
  | nla => exact Or.inr (Or.inr (by decide))
  | tls => exact Or.inr (Or.inr (by decide))
  | rdp => exact Or.inr (Or.inr (by decide))

/-- The loop ends when there are as many attempts as states left. -/
theorem Heard.loop_ends (hheard : Heard attempts n) {count : ℕ} (h : Makes attempts n k m)
    (hcount : 4 < m.state.rank + count) :
    ∃ r, negoLoop (attemptsFrom attempts k count) m = some r := by
  induction count generalizing k m with
  | zero =>
    have htries := h.tries.2
    omega
  | succ count ih =>
    have hlt := hheard.rank_lt h
    rw [attemptsFrom, List.range'_succ, List.map_cons, negoLoop]
    rcases over_or_tries (by omega : 1 ≤ (negoSend (attempts k) m).state.rank) with hfail | hfinal | htries
    · exact ⟨_, if_pos hfail⟩
    · refine ⟨_, (if_neg ?_).trans (if_pos hfinal)⟩
      rw [hfinal]
      exact NegoState.noConfusion
    · obtain ⟨r, hr⟩ := ih (h.next htries) (by omega)
      refine ⟨r, ?_⟩
      rw [if_neg, if_neg]
      · exact hr
      · intro hfinal
        exact absurd htries.2 (by rw [hfinal]; decide)
      · intro hfail
        exact absurd htries.2 (by rw [hfail]; decide)

/-- With replies without an effect, the loop does not end. -/
theorem negoLoop_ignored (hpacket : IgnoredPacket packet) (hstate : n.state = .rdp) (k count : ℕ) :
    negoLoop (attemptsFrom (fun _ => replied packet) k count) n = none := by
  induction count generalizing k n with
  | zero => rfl
  | succ count ih =>
    have hconnected : (negoTransportConnect (replied packet) n).tcpConnected = true := by
      unfold negoTransportConnect negoTcpConnect replied
      dsimp only
      split_ifs with htcp
      · exact htcp
      all_goals rfl
    have hrdp := negoSend_ignored hstate ⟨hconnected, rfl, packet, rfl, hpacket⟩
    rw [attemptsFrom, List.range'_succ, List.map_cons, negoLoop]
    rw [if_neg (by rw [hrdp]; exact NegoState.noConfusion),
      if_neg (by rw [hrdp]; exact NegoState.noConfusion)]
    exact ih hrdp (k + 1)

/-! ### The negotiation -/

/-- `nego_connect` comes to its loop. -/
def LoopStarts (sec : Security) (n : Nego) : Prop :=
  negoFirstState n ≠ .fail ∧
    (n.sendPreconnectionPdu = true → (negoBegin sec n).tcpConnected = true ∧ sec.sent = true)

theorem negoBegin_state (sec : Security) (n : Nego) : (negoBegin sec n).state = negoFirstState n := by
  unfold negoBegin
  dsimp only
  split_ifs
  · exact (negoTcpConnect_kept sec.direct sec.gateway _).2.1
  · rfl

theorem tries_negoBegin (h : LoopStarts sec n) : Tries (negoBegin sec n) := by
  have hfirst := h.1
  unfold Tries
  rw [negoBegin_state]
  unfold negoFirstState at hfirst ⊢
  split_ifs at hfirst ⊢
  · decide
  · decide
  · decide
  · decide
  · exact absurd rfl hfirst

/-- Without the loop, `nego_connect` returns; with it, if the loop does. -/
theorem negoConnect_eq_none_iff (hnegotiate : n.negotiateSecurityLayer = true) (as : List Attempt) :
    negoConnect sec as n = none ↔ LoopStarts sec n ∧ negoLoop as (negoBegin sec n) = none := by
  have hbegin : (negoBegin sec n).negotiateSecurityLayer = true := by
    unfold negoBegin
    dsimp only
    split
    · exact (negoTcpConnect_negotiate sec.direct sec.gateway _).trans hnegotiate
    · exact hnegotiate
  unfold negoConnect LoopStarts
  dsimp only
  rw [if_pos hnegotiate]
  generalize hm : (if n.sendPreconnectionPdu then _ else _ : Nego) = m
  obtain rfl : m = negoBegin sec n := hm.symm
  have hsend : (negoBegin sec n).sendPreconnectionPdu = n.sendPreconnectionPdu := by
    unfold negoBegin negoTcpConnect
    dsimp only
    split_ifs <;> rfl
  rw [hbegin, hsend, Bool.not_true, if_neg Bool.false_ne_true]
  split_ifs with hfail hpdu
  · exact ⟨False.elim, fun h => absurd hfail h.1.1⟩
  · refine ⟨False.elim, fun h => ?_⟩
    obtain ⟨htcp, hsent⟩ := h.1.2 hpdu.1
    rw [htcp, hsent] at hpdu
    exact absurd hpdu.2 (by decide)
  · have hstarts : n.sendPreconnectionPdu = true →
        (negoBegin sec n).tcpConnected = true ∧ sec.sent = true := by
      intro hsends
      have hboth := fun h => hpdu ⟨hsends, h⟩
      simpa using hboth
    rw [and_iff_right ⟨hfail, hstarts⟩]
    cases hloop : negoLoop as (negoBegin sec n) with
    | none => exact ⟨fun _ => rfl, fun _ => rfl⟩
    | some r =>
      obtain ⟨m', ok⟩ := r
      cases ok with
      | false =>
        exact ⟨fun h => absurd h (Option.some_ne_none _), fun h => absurd h (Option.some_ne_none _)⟩
      | true => exact ⟨fun h => absurd h (Option.some_ne_none _), fun h => absurd h (Option.some_ne_none _)⟩

/-- `nego_connect` returns, and its attempts go down in the order of the states. -/
structure Descends (sec : Security) (attempts : ℕ → Attempt) (n : Nego) : Prop where
  returns : ∃ count r, negoConnect sec (attemptsFrom attempts 0 count) n = some r
  ordered : LoopStarts sec n → ∀ k l m m', Makes attempts (negoBegin sec n) k m →
    Makes attempts (negoBegin sec n) l m' → k < l → m.state.rank < m'.state.rank

/-- `nego_connect` returns after at most one attempt in each state if and only if no attempt with
standard RDP security gets a reply without an effect. -/
theorem descends_iff (sec : Security) (attempts : ℕ → Attempt)
    (hnegotiate : n.negotiateSecurityLayer = true) :
    Descends sec attempts n ↔ (LoopStarts sec n → Heard attempts (negoBegin sec n)) := by
  constructor
  · intro h hstarts k m hm hstate hignored
    have hrdp := negoSend_ignored hstate hignored
    have hagain : Makes attempts (negoBegin sec n) (k + 1) (negoSend (attempts k) m) :=
      hm.next (by rw [Tries, hrdp]; decide)
    have hlt := h.ordered hstarts k (k + 1) _ _ hm hagain (Nat.lt_succ_self k)
    rw [hstate, hrdp] at hlt
    exact absurd hlt (Nat.lt_irrefl _)
  · intro hheard
    refine ⟨⟨4, Option.ne_none_iff_exists'.mp fun hnone => ?_⟩, fun hstarts k l m m' hm hm' hkl =>
      (hheard hstarts).rank_lt_of_lt hm hm' hkl⟩
    obtain ⟨hstarts, hloop⟩ := (negoConnect_eq_none_iff hnegotiate _).mp hnone
    have htries := tries_negoBegin hstarts
    have hfirst := htries.1
    have hcount : 4 < (negoBegin sec n).state.rank + 4 := by omega
    obtain ⟨r, hr⟩ := (hheard hstarts).loop_ends (.first htries) hcount
    rw [hr] at hloop
    exact Option.some_ne_none r hloop

/-- A Connection Confirm with data that is a type and nothing else. -/
def confirmType (type : ℕ) : List UInt8 :=
  tpktWriteHeader 12 ++ tpduWriteHeader 7 x224TpduConnectionConfirm ++ byte type

theorem descends_iff_hybrid :
    Descends connected (fun _ => replied (confirmData typeRdpNegRsp protocolHybrid))
        (startWith [protocolHybrid, protocolRdp]) ↔
      (LoopStarts connected (startWith [protocolHybrid, protocolRdp]) →
        Heard (fun _ => replied (confirmData typeRdpNegRsp protocolHybrid))
          (negoBegin connected (startWith [protocolHybrid, protocolRdp]))) :=
  descends_iff connected _ rfl

/-- The server answers each request for standard RDP security with data of the type 1. -/
theorem not_descends : ¬ ∀ (sec : Security) (attempts : ℕ → Attempt) (n : Nego),
    n.negotiateSecurityLayer = true → n.state = .initial → Descends sec attempts n := by
  intro h
  obtain ⟨count, r, hr⟩ :=
    (h connected (fun _ => replied (confirmType 1)) (startWith [protocolRdp]) rfl rfl).returns
  have hpacket : IgnoredPacket (confirmType 1) :=
    ⟨7, [1], 1, by decide +kernel, by decide, rfl, by decide, by decide⟩
  have hloop := negoLoop_ignored (n := negoBegin connected (startWith [protocolRdp])) hpacket rfl 0 count
  rw [(negoConnect_eq_none_iff rfl _).mpr ⟨⟨by decide, by decide⟩, hloop⟩] at hr
  exact Option.some_ne_none r hr.symm

end FreeRDP.Core
