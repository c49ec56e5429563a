import FreeRDP.Channels.Drdynvc
import FreeRDP.Lib.Run

/-!
# Create requests that are refused

`drdynvc_process_create_request` puts a channel into the list before a listener has accepted it, and takes
it out by its id when the response has been sent.

* A request for an id that is in use is refused, and the channel that has this id is closed.
* A channel that no listener has accepted stays in the list, without a callback, if there is no stream for
  the response or the response cannot be sent.

`create_sound_iff`: these are the only ways in which a refused request changes the channels, or data is
dispatched to a NULL callback.
-/

namespace FreeRDP.Channels

open Wire

variable {d d' d'' : Drdynvc} {calls : DvcCalls} {channel channel' : DvcmanChannel}
  {channels : List DvcmanChannel} {channelId cbChId n : ℕ} {channelName data s rest : List UInt8}

/-! ### The property -/

/-- A PDU with the command `CREATE_REQUEST_PDU`. -/
def IsCreateRequest : List UInt8 → Prop
  | [] => False
  | value :: _ => (value.toNat &&& 0xF0) >>> 4 = createRequestPdu

/-- The last PDU that is passed to `pVirtualChannelWriteEx` is a response with a failure status. -/
def Refused (d d' : Drdynvc) : Prop :=
  ∃ before head, d'.log = d.log ++ before ++ [.sent (head ++ le32 creationFailed)]

/-- All channels have been accepted, and no data has been dispatched to a NULL callback. -/
structure Accepted (d : Drdynvc) : Prop where
  channels : ∀ channel ∈ d.channels, channel.channelCallback.isSome
  received : ∀ channelId callback data, .received channelId callback data ∈ d.log → callback.isSome

/-- What is claimed of the action that takes `d` to `d'`. -/
structure Sound (d : Drdynvc) (action : DvcAction) (d' : Drdynvc) : Prop where
  unchanged : ∀ s calls, action = .pdu s calls → IsCreateRequest s → Refused d d' →
    d'.channels = d.channels
  accepted : Accepted d'

/-! ### The condition -/

/-- A result of `pVirtualChannelWriteEx` that counts as success. -/
def IsSent (send : ℕ) : Prop := send = channelRcOk ∨ send = channelRcNotConnected

/-- There is no need for a capability response, or it can be sent. -/
def IsReady (d : Drdynvc) (calls : DvcCalls) : Prop :=
  d.state = .capabilities → calls.capabilityStream ∧ IsSent calls.capabilitySend

def IsAccepted (d : Drdynvc) (calls : DvcCalls) (channelName : List UInt8) : Prop :=
  channelName ∈ d.listeners ∧ calls.onNewChannelConnection.error = channelRcOk ∧
    calls.onNewChannelConnection.accept = true

/-- The request for `channelId` and `channelName` spares the channels that there are, and leaves behind
no channel that has not been accepted. -/
def Spares (d : Drdynvc) (calls : DvcCalls) (channelId : ℕ) (channelName : List UInt8) : Prop :=
  if (dvcmanFindChannelById channelId d).isSome then ¬ (calls.responseStream ∧ IsSent calls.responseSend)
  else calls.memory → calls.added →
    (¬ IsAccepted d calls channelName → calls.responseStream ∧ IsSent calls.responseSend) ∧
    (IsAccepted d calls channelName → calls.onChannelConnected ≠ channelRcOk → calls.responseStream →
      IsSent calls.responseSend)

/-- A create request that is processed to its end does so. -/
def SparesAction (d : Drdynvc) : DvcAction → Prop
  | .pdu (value :: s) calls =>
    (value.toNat &&& 0xF0) >>> 4 = createRequestPdu → IsReady d calls →
      ∀ channelId channelName rest,
        readCreateRequest (value.toNat &&& 0x03) s = some ((channelId, channelName), rest) →
          Spares d calls channelId channelName
  | _ => True

/-! ### Lists of channels -/

theorem mem_updateChannel (h : channel' ∈ updateChannel channel channels) :
    channel' = channel ∨ channel' ∈ channels := by
  induction channels with
  | nil => exact nomatch h
  | cons c channels ih =>
    rw [updateChannel] at h
    split at h
    · rcases List.mem_cons.mp h with rfl | h
      · exact Or.inl rfl
      · exact Or.inr (List.mem_cons_of_mem _ h)
    · rcases List.mem_cons.mp h with rfl | h
      · exact Or.inr List.mem_cons_self
      · exact (ih h).imp_right (List.mem_cons_of_mem _)

theorem eraseP_append_new (hnew : dvcmanFindChannelById channel.channelId d = none) :
    (d.channels ++ [channel]).eraseP (fun c => c.channelId = channel.channelId) = d.channels := by
  have hnone : ∀ c ∈ d.channels, ¬ decide (c.channelId = channel.channelId) = true :=
    List.find?_eq_none.mp hnew
  rw [List.eraseP_append_right _ hnone, List.eraseP_cons_of_pos (by simp), List.append_nil]

/-- Nothing is taken out if there is no such channel. -/
theorem eraseP_of_none (h : dvcmanFindChannelById channelId d = none) :
    d.channels.eraseP (fun c => c.channelId = channelId) = d.channels :=
  List.eraseP_of_forall_not (List.find?_eq_none.mp h)

/-- Something is taken out if there is one. -/
theorem eraseP_ne_of_isSome (h : (dvcmanFindChannelById channelId d).isSome) :
    d.channels.eraseP (fun c => c.channelId = channelId) ≠ d.channels := by
  obtain ⟨c, hc⟩ := Option.isSome_iff_exists.mp h
  intro heq
  have hlength := List.length_eraseP_of_mem (List.mem_of_find?_eq_some hc) (List.find?_some hc)
  have hpos := List.length_pos_of_mem (List.mem_of_find?_eq_some hc)
  rw [heq] at hlength
  omega

/-! ### Actions other than create requests -/

theorem Accepted.find (hd : Accepted d) (h : dvcmanFindChannelById channelId d = some channel) :
    channel.channelCallback.isSome := hd.channels channel (List.mem_of_find?_eq_some h)

theorem Accepted.send (hd : Accepted d) (pdus : List (List UInt8)) :
    Accepted { d with log := d.log ++ pdus.map .sent } where
  channels := hd.channels
  received := by
    intro channelId callback data hmem
    rcases List.mem_append.mp hmem with hmem | hmem
    · exact hd.received _ _ _ hmem
    · obtain ⟨pdu, -, heq⟩ := List.mem_map.mp hmem
      exact nomatch heq

theorem Accepted.dispatch (hd : Accepted d) {callback : Option ℕ} (hcallback : callback.isSome) :
    Accepted { d with log := d.log ++ [.received channelId callback data] } where
  channels := hd.channels
  received := by
    intro channelId callback data hmem
    rcases List.mem_append.mp hmem with hmem | hmem
    · exact hd.received _ _ _ hmem
    · obtain ⟨-, rfl, -⟩ := DvcEvent.received.inj (List.mem_singleton.mp hmem)
      exact hcallback

/-- Channels keep their callbacks, or are taken out. -/
theorem Accepted.setChannels (hd : Accepted d) (h : ∀ c ∈ channels, c.channelCallback.isSome) :
    Accepted { d with channels := channels } := ⟨h, hd.received⟩

theorem Accepted.update (hd : Accepted d) (hcallback : channel.channelCallback.isSome) :
    Accepted { d with channels := updateChannel channel d.channels } := by
  apply hd.setChannels
  intro c hc
  rcases mem_updateChannel hc with rfl | hc
  · exact hcallback
  · exact hd.channels c hc

theorem Accepted.erase (hd : Accepted d) (p : DvcmanChannel → Bool) :
    Accepted { d with channels := d.channels.eraseP p } :=
  hd.setChannels fun c hc => hd.channels c (List.mem_of_mem_eraseP hc)

theorem Accepted.drdynvcSend (hd : Accepted d) (send : ℕ) (pdu : List UInt8) :
    Accepted (drdynvcSend send pdu d).1 := hd.send [pdu]

theorem Accepted.close (hd : Accepted d) (stream : Bool) (send channelId : ℕ) (bSendClosePdu : Bool) :
    Accepted (dvcmanCloseChannel stream send channelId bSendClosePdu d).1 := by
  unfold dvcmanCloseChannel
  split
  · exact hd
  · cases bSendClosePdu with
    | false => exact hd.erase _
    | true =>
      cases stream with
      | false => exact hd.erase _
      | true => exact (hd.drdynvcSend _ _).erase _

theorem Accepted.closeOnError {r : Drdynvc × ℕ} (hr : Accepted r.1) :
    Accepted (closeOnError calls channelId r).1 := by
  unfold Channels.closeOnError
  split
  split
  · exact hr.close _ _ _ _
  · exact hr

theorem Accepted.receiveFirst (hd : Accepted d) (stream : Bool) (channelId length : ℕ) :
    Accepted (dvcmanReceiveChannelDataFirst stream channelId length d).1 := by
  unfold dvcmanReceiveChannelDataFirst
  cases hfind : dvcmanFindChannelById channelId d with
  | none => exact hd
  | some channel =>
    have hcallback := hd.find hfind
    dsimp only
    split
    · exact hd.update hcallback
    · exact hd.update hcallback

theorem Accepted.receive (hd : Accepted d) (onDataReceived channelId : ℕ) (data : List UInt8) :
    Accepted (dvcmanReceiveChannelData onDataReceived channelId data d).1 := by
  unfold dvcmanReceiveChannelData
  cases hfind : dvcmanFindChannelById channelId d with
  | none => exact hd
  | some channel =>
    have hcallback := hd.find hfind
    dsimp only
    split
    · split_ifs
      · exact hd.update hcallback
      · exact (hd.dispatch hcallback).update hcallback
      · exact hd.update hcallback
    · exact hd.dispatch hcallback

theorem Accepted.capabilityResponse (hd : Accepted d) :
    Accepted (drdynvcSendCapabilityResponse calls d).1 := by
  unfold drdynvcSendCapabilityResponse
  split
  · exact hd
  · exact hd.drdynvcSend _ _

theorem Accepted.processCapabilityRequest (hd : Accepted d) (s : List UInt8) :
    Accepted (drdynvcProcessCapabilityRequest calls s d).1 := by
  have hrespond {d : Drdynvc} (hd : Accepted d) :
      Accepted { (drdynvcSendCapabilityResponse calls d).1 with state := .ready } :=
    ⟨hd.capabilityResponse.channels, hd.capabilityResponse.received⟩
  unfold drdynvcProcessCapabilityRequest
  cases readVersion s with
  | none => exact hd
  | some p =>
    obtain ⟨version, s⟩ := p
    have hd' : Accepted { d with version := version } := ⟨hd.channels, hd.received⟩
    dsimp only
    split
    · split
      · exact hd'
      · exact hrespond ⟨hd'.channels, hd'.received⟩
    · exact hrespond hd'

theorem Accepted.processDataFirst (hd : Accepted d) (sp cbChId : ℕ) (s : List UInt8) :
    Accepted (drdynvcProcessDataFirst calls sp cbChId s d).1 := by
  unfold drdynvcProcessDataFirst
  split
  · exact hd
  · next channelId length s _ =>
    apply Accepted.closeOnError
    have hfirst := hd.receiveFirst calls.dataStream channelId length
    split
    next d' status heq =>
    rw [heq] at hfirst
    split
    · exact hfirst.receive _ _ _
    · exact hfirst

theorem Accepted.processData (hd : Accepted d) (cbChId : ℕ) (s : List UInt8) :
    Accepted (drdynvcProcessData calls cbChId s d).1 := by
  unfold drdynvcProcessData
  split
  · exact hd
  · exact Accepted.closeOnError (hd.receive _ _ _)

theorem Accepted.processCloseRequest (hd : Accepted d) (cbChId : ℕ) (s : List UInt8) :
    Accepted (drdynvcProcessCloseRequest calls cbChId s d).1 := by
  unfold drdynvcProcessCloseRequest
  split
  · exact hd
  · exact hd.close _ _ _ _

theorem Accepted.write (hd : Accepted d) (calls : WriteCalls) (channelId : ℕ) (data : List UInt8) :
    Accepted (dvcmanWriteChannel calls channelId data d).1 := by
  unfold dvcmanWriteChannel
  split
  next pdus status close _ =>
  cases close with
  | false => exact hd.send pdus
  | true => exact (hd.send pdus).close _ _ _ _

/-! ### Create requests -/

theorem drdynvcSend_sent {send : ℕ} (h : IsSent send) (pdu : List UInt8) (d : Drdynvc) :
    drdynvcSend send pdu d = ({ d with log := d.log ++ [.sent pdu] }, channelRcOk) :=
  congrArg (Prod.mk _) (if_pos h)

theorem drdynvcSend_failed {send : ℕ} (h : ¬ IsSent send) (pdu : List UInt8) (d : Drdynvc) :
    drdynvcSend send pdu d = ({ d with log := d.log ++ [.sent pdu] }, send) ∧ send ≠ channelRcOk :=
  ⟨congrArg (Prod.mk _) (if_neg h), fun hok => h (Or.inl hok)⟩

/-- What has been done when a create request is looked at. -/
structure Prepared (d d' : Drdynvc) : Prop where
  channels : d'.channels = d.channels
  listeners : d'.listeners = d.listeners
  log : ∃ pdus : List (List UInt8), d'.log = d.log ++ pdus.map .sent ∧
    ∀ head, head ++ le32 creationFailed ∉ pdus

theorem Prepared.accepted (h : Prepared d d') (hd : Accepted d) : Accepted d' := by
  obtain ⟨pdus, hlog, -⟩ := h.log
  have hsend := hd.send pdus
  exact ⟨h.channels ▸ hsend.channels, hlog ▸ hsend.received⟩

/-- Nothing has been refused so far. -/
theorem Prepared.not_refused (h : Prepared d d') (hlog : d''.log = d'.log) : ¬ Refused d d'' := by
  rintro ⟨before, head, heq⟩
  obtain ⟨pdus, hlog', hpdus⟩ := h.log
  rw [hlog, hlog', List.append_assoc] at heq
  have hmem : DvcEvent.sent (head ++ le32 creationFailed) ∈ pdus.map DvcEvent.sent := by
    rw [List.append_cancel_left heq]
    exact List.mem_append_right _ List.mem_cons_self
  obtain ⟨pdu, hpdu, heq'⟩ := List.mem_map.mp hmem
  exact hpdus head (DvcEvent.sent.inj heq' ▸ hpdu)

/-- A response with the status `n` has been sent. -/
theorem Prepared.refused_iff (h : Prepared d d') {head : List UInt8}
    (hlog : d''.log = d'.log ++ [.sent (head ++ le32 n)]) :
    Refused d d'' ↔ le32 n = le32 creationFailed := by
  obtain ⟨pdus, hlog', -⟩ := h.log
  rw [hlog'] at hlog
  constructor
  · rintro ⟨before, head', heq⟩
    have hone (a b : DvcEvent) : [a].length = [b].length := by
      rw [List.length_singleton, List.length_singleton]
    have hlast := (List.append_inj' (hlog.symm.trans heq) (hone _ _)).2
    have hlength : (le32 n).length = (le32 creationFailed).length := by
      rw [length_le32, length_le32]
    exact (List.append_inj' (DvcEvent.sent.inj (List.singleton_inj.mp hlast)) hlength).2
  · intro hstatus
    exact ⟨pdus.map .sent, head, by rw [hlog, hstatus]⟩

/-- The capability response goes out first, if there is one. -/
theorem drdynvcEnsureReady_prepared (d : Drdynvc) (calls : DvcCalls) :
    Prepared d (drdynvcEnsureReady calls d).1 ∧
      ((drdynvcEnsureReady calls d).2 = channelRcOk ↔ IsReady d calls) := by
  have hnone {d' : Drdynvc} (hchannels : d'.channels = d.channels) (hlisteners : d'.listeners = d.listeners)
      (hlog : d'.log = d.log) : Prepared d d' :=
    ⟨hchannels, hlisteners, [], hlog.trans (List.append_nil _).symm, fun _ => List.not_mem_nil⟩
  have hone {d' : Drdynvc} (hchannels : d'.channels = d.channels) (hlisteners : d'.listeners = d.listeners)
      (hlog : d'.log = d.log ++ [.sent (le16 0x0050 ++ le16 3)]) : Prepared d d' := by
    refine ⟨hchannels, hlisteners, [le16 0x0050 ++ le16 3], hlog, fun head hmem => ?_⟩
    have hlength : (le32 creationFailed).length = (le16 0x0050 ++ le16 3).length := by
      rw [length_le32]
      rfl
    have heq : head ++ le32 creationFailed = [] ++ (le16 0x0050 ++ le16 3) := List.mem_singleton.mp hmem
    have hstatus : le32 creationFailed = le16 0x0050 ++ le16 3 := (List.append_inj' heq hlength).2
    exact absurd hstatus (by decide)
  unfold drdynvcEnsureReady
  by_cases hstate : d.state = .capabilities
  · rw [if_pos hstate, drdynvcSendCapabilityResponse]
    cases hstream : calls.capabilityStream with
    | false =>
      refine ⟨hnone rfl rfl rfl, iff_of_false nofun fun h => ?_⟩
      exact absurd (hstream.symm.trans (h hstate).1) (by decide)
    | true =>
      by_cases hsend : IsSent calls.capabilitySend
      · rw [drdynvcSend_sent hsend]
        exact ⟨hone rfl rfl rfl, iff_of_true rfl fun _ => ⟨hstream, hsend⟩⟩
      · obtain ⟨heq, hne⟩ := drdynvcSend_failed hsend (le16 0x0050 ++ le16 3) { d with version := 3 }
        rw [if_neg (by decide), heq]
        dsimp only
        rw [if_pos hne]
        exact ⟨hone rfl rfl rfl, iff_of_false hne fun h => hsend (h hstate).2⟩
  · rw [if_neg hstate]
    exact ⟨hnone rfl rfl rfl, iff_of_true rfl fun h => absurd h hstate⟩

theorem drdynvcAnswerCreateRequest_cases (calls : DvcCalls) (cbChId : ℕ) (id : List UInt8)
    (channelId channelStatus : ℕ) (d : Drdynvc) :
    let d' := (drdynvcAnswerCreateRequest calls cbChId id channelId channelStatus d).1
    (calls.responseStream = false ∧ d' = d) ∨
    (calls.responseStream = true ∧ (∃ head, d'.log =
        d.log ++ [.sent (head ++ le32 (if channelStatus = channelRcOk then 0 else creationFailed))]) ∧
      ((¬ IsSent calls.responseSend ∧ d'.channels = d.channels) ∨
      (IsSent calls.responseSend ∧ channelStatus = channelRcOk ∧ d'.channels = d.channels) ∨
      (IsSent calls.responseSend ∧ channelStatus ≠ channelRcOk ∧
        d'.channels = d.channels.eraseP fun c => c.channelId = channelId))) := by
  unfold drdynvcAnswerCreateRequest
  cases hstream : calls.responseStream with
  | false => exact Or.inl ⟨rfl, rfl⟩
  | true =>
    refine Or.inr ⟨rfl, ?_⟩
    rw [if_neg (by decide)]
    by_cases hsend : IsSent calls.responseSend
    · dsimp only
      rw [drdynvcSend_sent hsend]
      dsimp only
      rw [if_neg (by decide)]
      by_cases hok : channelStatus = channelRcOk
      · rw [if_pos hok, if_pos hok]
        exact ⟨⟨_, rfl⟩, Or.inr (Or.inl ⟨hsend, hok, rfl⟩)⟩
      · rw [if_neg hok, if_neg hok, dvcmanCloseChannel]
        split
        · next hnone =>
          refine ⟨⟨_, rfl⟩, Or.inr (Or.inr ⟨hsend, hok, ?_⟩)⟩
          exact (List.eraseP_of_forall_not
            (List.find?_eq_none.mp (Option.isNone_iff_eq_none.mp hnone))).symm
        · exact ⟨⟨_, rfl⟩, Or.inr (Or.inr ⟨hsend, hok, rfl⟩)⟩
    · obtain ⟨heq, hne⟩ := drdynvcSend_failed hsend
        (byte (createRequestPdu <<< 4 ||| cbChId) ++ id ++
          le32 (if channelStatus = channelRcOk then 0 else creationFailed)) d
      dsimp only
      rw [heq]
      dsimp only
      rw [if_pos hne]
      exact ⟨⟨_, rfl⟩, Or.inl ⟨hsend, rfl⟩⟩

/-- A channel is added for a request, and has been accepted or not, unless the id is in use or there is no
memory. -/
theorem dvcmanCreateChannel_cases (calls : DvcCalls) (channelId : ℕ) (channelName : List UInt8)
    (d : Drdynvc) :
    let r := dvcmanCreateChannel calls channelId channelName d
    (((dvcmanFindChannelById channelId d).isSome ∨ ¬ (calls.memory ∧ calls.added)) ∧ r.1 = d ∧
      r.2 ≠ channelRcOk) ∨
    (dvcmanFindChannelById channelId d = none ∧ calls.memory ∧ calls.added ∧
      ∃ channel, channel.channelId = channelId ∧ r.1 = { d with channels := d.channels ++ [channel] } ∧
        ((IsAccepted d calls channelName ∧ channel.channelCallback.isSome ∧
          r.2 = calls.onChannelConnected) ∨
        (¬ IsAccepted d calls channelName ∧ channel.channelCallback = none ∧ r.2 ≠ channelRcOk))) := by
  have hnoMemory : channelRcNoMemory ≠ channelRcOk := by decide
  have hinternal : errorInternalError ≠ channelRcOk := by decide
  unfold dvcmanCreateChannel dvcmanChannelNew
  cases hfind : dvcmanFindChannelById channelId d with
  | some channel =>
    left
    exact ⟨Or.inl rfl, rfl, hnoMemory⟩
  | none =>
    cases hmemory : calls.memory with
    | false =>
      left
      exact ⟨Or.inr fun h => Bool.false_ne_true h.1, rfl, hnoMemory⟩
    | true =>
      cases hadded : calls.added with
      | false =>
        left
        exact ⟨Or.inr fun h => Bool.false_ne_true h.2, rfl, hinternal⟩
      | true =>
        right
        refine ⟨rfl, rfl, rfl, ?_⟩
        simp only [Option.isSome_none, Bool.false_eq_true, ↓reduceIte, Bool.not_true]
        by_cases hlistener : channelName ∈ d.listeners
        · rw [if_pos hlistener]
          by_cases hanswer : calls.onNewChannelConnection.error = channelRcOk ∧
              calls.onNewChannelConnection.accept = true
          · rw [if_pos hanswer]
            refine ⟨_, ?_, rfl, Or.inl ⟨⟨hlistener, hanswer⟩, ?_, rfl⟩⟩
            · rfl
            · exact calls.onNewChannelConnection.accepted hanswer.1 hanswer.2
          · rw [if_neg hanswer]
            have hrefused : ¬ IsAccepted d calls channelName := fun h => hanswer h.2
            split
            · next herror => exact ⟨_, rfl, rfl, Or.inr ⟨hrefused, rfl, herror⟩⟩
            · exact ⟨_, rfl, rfl, Or.inr ⟨hrefused, rfl, hinternal⟩⟩
        · rw [if_neg hlistener]
          exact ⟨_, rfl, rfl, Or.inr ⟨fun h => hlistener h.1, rfl, hinternal⟩⟩

/-- `Spares` does not depend on what has been done before. -/
theorem Prepared.spares_iff (h : Prepared d d') :
    Spares d' calls channelId channelName ↔ Spares d calls channelId channelName := by
  unfold Spares IsAccepted dvcmanFindChannelById
  rw [h.channels, h.listeners]

/-- A request that is answered with a failure spares the channels, and leaves none that has not been
accepted, if and only if it meets `Spares`. -/
theorem answer_sound_iff (hd : Accepted d) (hprepared : Prepared d d') (cbChId channelId : ℕ)
    (id channelName : List UInt8) :
    let r := dvcmanCreateChannel calls channelId channelName d'
    let u := (drdynvcAnswerCreateRequest calls cbChId id channelId r.2 r.1).1
    ((Refused d u → u.channels = d.channels) ∧ Accepted u ↔ Spares d calls channelId channelName) := by
  intro r u
  have hd' := hprepared.accepted hd
  rw [← hprepared.spares_iff]
  have hsent {e : Drdynvc} {head : List UInt8} {n : ℕ} (he : e.log = d'.log ++ [.sent (head ++ le32 n)])
      (hchannels : ∀ c ∈ e.channels, c.channelCallback.isSome) : Accepted e := by
    have hsend := hd'.send [head ++ le32 n]
    exact ⟨hchannels, he ▸ hsend.received⟩
  have hanswer := drdynvcAnswerCreateRequest_cases calls cbChId id channelId r.2 r.1
  rcases dvcmanCreateChannel_cases calls channelId channelName d' with
    ⟨hold, hr, hfailed⟩ | ⟨hfind, hmemory, hadded, channel, rfl, hr, haccepted⟩
  · -- no channel has been added
    have hr : r.1 = d' := hr
    rw [hr] at hanswer
    have hu : u = (drdynvcAnswerCreateRequest calls cbChId id channelId r.2 d').1 := hr ▸ rfl
    rw [← hu] at hanswer
    cases hfind : dvcmanFindChannelById channelId d' with
    | none =>
      have hmemory : ¬ (calls.memory = true ∧ calls.added = true) := by
        rcases hold with hsome | hmemory
        · rw [hfind] at hsome
          exact nomatch hsome
        · exact hmemory
      have hspares : Spares d' calls channelId channelName := by
        rw [Spares, hfind, if_neg (by decide)]
        exact fun h h' => absurd ⟨h, h'⟩ hmemory
      refine iff_of_true ?_ hspares
      have herase := eraseP_of_none hfind
      rcases hanswer with ⟨-, hu⟩ | ⟨-, ⟨head, hlog⟩, ⟨-, hc⟩ | ⟨-, -, hc⟩ | ⟨-, -, hc⟩⟩
      · exact hu ▸ ⟨fun _ => hprepared.channels, hd'⟩
      · exact ⟨fun _ => hc.trans hprepared.channels, hsent hlog (hc ▸ hd'.channels)⟩
      · exact ⟨fun _ => hc.trans hprepared.channels, hsent hlog (hc ▸ hd'.channels)⟩
      · rw [herase] at hc
        exact ⟨fun _ => hc.trans hprepared.channels, hsent hlog (hc ▸ hd'.channels)⟩
    | some channel =>
      have hsome : (dvcmanFindChannelById channelId d').isSome := by
        rw [hfind]
        rfl
      rw [Spares, if_pos hsome]
      rcases hanswer with ⟨hstream, hu⟩ | ⟨hstream, ⟨head, hlog⟩,
        ⟨hsend, hc⟩ | ⟨-, hok, -⟩ | ⟨hsend, -, hc⟩⟩
      · rw [hstream]
        exact iff_of_true (hu ▸ ⟨fun _ => hprepared.channels, hd'⟩) nofun
      · refine iff_of_true ⟨fun _ => hc.trans hprepared.channels, hsent hlog (hc ▸ hd'.channels)⟩ ?_
        exact fun h => hsend h.2
      · exact absurd hok hfailed
      · -- the channel that has the id is closed
        refine iff_of_false (fun h => ?_) fun h => h ⟨hstream, hsend⟩
        rw [if_neg hfailed] at hlog
        have hsame := h.1 ((hprepared.refused_iff hlog).mpr rfl)
        rw [hc, ← hprepared.channels] at hsame
        exact eraseP_ne_of_isSome hsome hsame
  · -- a channel has been added
    have hr : r.1 = { d' with channels := d'.channels ++ [channel] } := hr
    rw [hr] at hanswer
    have hu : u = (drdynvcAnswerCreateRequest calls cbChId id channel.channelId r.2
      { d' with channels := d'.channels ++ [channel] }).1 := hr ▸ rfl
    rw [← hu] at hanswer
    have hadd : d'.channels ++ [channel] ≠ d.channels := by
      rw [← hprepared.channels]
      exact fun h => List.cons_ne_nil _ _ (List.append_right_eq_self.mp h)
    have hmem : channel ∈ d'.channels ++ [channel] := List.mem_append_right _ List.mem_cons_self
    have hall (hcallback : channel.channelCallback.isSome) :
        ∀ c ∈ d'.channels ++ [channel], c.channelCallback.isSome := by
      intro c hc
      rcases List.mem_append.mp hc with hc | hc
      · exact hd'.channels c hc
      · rwa [List.mem_singleton.mp hc]
    have herase := eraseP_append_new hfind
    rw [Spares, hfind, if_neg (by decide)]
    rcases haccepted with ⟨haccept, hcallback, hstatus⟩ | ⟨haccept, hcallback, hfailed⟩
    · have hstatus : r.2 = calls.onChannelConnected := hstatus
      rcases hanswer with ⟨hstream, hu⟩ | ⟨hstream, ⟨head, hlog⟩, hcases⟩
      · refine iff_of_true ⟨fun h => ?_, ?_⟩ fun _ _ => ⟨fun h => absurd haccept h, fun _ _ h => ?_⟩
        · exact absurd h (hprepared.not_refused (hu ▸ rfl))
        · exact hu ▸ hd'.setChannels (hall hcallback)
        · exact absurd (hstream.symm.trans h) (by decide)
      · by_cases hok : r.2 = channelRcOk
        · rw [if_pos hok] at hlog
          refine iff_of_true ⟨fun h => ?_, ?_⟩ fun _ _ =>
            ⟨fun h => absurd haccept h, fun _ h => absurd (hstatus.symm.trans hok) h⟩
          · exact absurd ((hprepared.refused_iff hlog).mp h) (by decide)
          · rcases hcases with ⟨-, hc⟩ | ⟨-, -, hc⟩ | ⟨-, hne, -⟩
            · exact hsent hlog (hc ▸ hall hcallback)
            · exact hsent hlog (hc ▸ hall hcallback)
            · exact absurd hok hne
        · rw [if_neg hok] at hlog
          have hrefused := (hprepared.refused_iff hlog).mpr rfl
          rcases hcases with ⟨hsend, hc⟩ | ⟨-, hok', -⟩ | ⟨hsend, -, hc⟩
          · -- the response has not been sent, and the channel stays
            refine iff_of_false (fun h => hadd (hc.symm.trans (h.1 hrefused))) fun h => ?_
            exact hsend ((h hmemory hadded).2 haccept (hstatus ▸ hok) hstream)
          · exact absurd hok' hok
          · rw [herase] at hc
            refine iff_of_true ⟨fun _ => hc.trans hprepared.channels, hsent hlog (hc ▸ hd'.channels)⟩ ?_
            exact fun _ _ => ⟨fun h => absurd haccept h, fun _ _ _ => hsend⟩
    · have hnull (hc : u.channels = d'.channels ++ [channel]) : ¬ Accepted u := by
        intro h
        have hsome := h.channels channel (hc ▸ hmem)
        rw [hcallback] at hsome
        exact nomatch hsome
      rcases hanswer with ⟨hstream, hu⟩ | ⟨hstream, ⟨head, hlog⟩,
        ⟨hsend, hc⟩ | ⟨-, hok, -⟩ | ⟨hsend, -, hc⟩⟩
      · refine iff_of_false (fun h => hnull (hu ▸ rfl) h.2) fun h => ?_
        exact absurd (hstream.symm.trans ((h hmemory hadded).1 haccept).1) (by decide)
      · exact iff_of_false (fun h => hnull hc h.2) fun h => hsend ((h hmemory hadded).1 haccept).2
      · exact absurd hok hfailed
      · rw [herase] at hc
        refine iff_of_true ⟨fun _ => hc.trans hprepared.channels, hsent hlog (hc ▸ hd'.channels)⟩ ?_
        exact fun _ _ => ⟨fun _ => ⟨hstream, hsend⟩, fun h => absurd h haccept⟩

theorem createRequest_sound_iff (hd : Accepted d) (value : UInt8) (s : List UInt8)
    (hcmd : (value.toNat &&& 0xF0) >>> 4 = createRequestPdu) :
    let u := (drdynvcProcessCreateRequest calls (value.toNat &&& 0x03) s d).1
    ((Refused d u → u.channels = d.channels) ∧ Accepted u ↔ SparesAction d (.pdu (value :: s) calls)) := by
  obtain ⟨hprepared, hready⟩ := drdynvcEnsureReady_prepared d calls
  have hdone {u : Drdynvc} (hu : u = (drdynvcEnsureReady calls d).1) :
      (Refused d u → u.channels = d.channels) ∧ Accepted u :=
    ⟨fun h => absurd h (hprepared.not_refused (hu ▸ rfl)), hu ▸ hprepared.accepted hd⟩
  unfold drdynvcProcessCreateRequest SparesAction
  by_cases hok : (drdynvcEnsureReady calls d).2 = channelRcOk
  · dsimp only
    rw [if_neg (not_not.mpr hok)]
    cases hread : readCreateRequest (value.toNat &&& 0x03) s with
    | none => exact iff_of_true (hdone rfl) fun _ _ _ _ _ h => nomatch h
    | some p =>
      obtain ⟨⟨channelId, channelName⟩, rest⟩ := p
      refine Iff.trans (answer_sound_iff hd hprepared _ channelId _ channelName) ?_
      constructor
      · intro hspares _ _ channelId' channelName' rest' heq
        obtain ⟨heq, -⟩ := Prod.mk.inj (Option.some.inj heq)
        obtain ⟨rfl, rfl⟩ := Prod.mk.inj heq
        exact hspares
      · exact fun h => h hcmd (hready.mp hok) channelId channelName rest rfl
  · dsimp only
    rw [if_pos hok]
    exact iff_of_true (hdone rfl) fun _ h => absurd (hready.mpr h) hok

/-! ### Runs -/

def DrdynvcStep (d : Drdynvc) (action : DvcAction) (d' : Drdynvc) : Prop := d' = drdynvcAct action d

/-- A PDU that is not a create request keeps all channels accepted. -/
theorem drdynvcOrderRecv_accepted (hd : Accepted d) (calls : DvcCalls) (hs : ¬ IsCreateRequest s) :
    Accepted (drdynvcOrderRecv calls s d).1 := by
  cases s with
  | nil => exact hd
  | cons value s =>
    have hcmd : ¬ (value.toNat &&& 0xF0) >>> 4 = createRequestPdu := hs
    unfold drdynvcOrderRecv
    dsimp only
    rw [if_neg (c := _ = createRequestPdu) hcmd]
    split_ifs
    · exact hd.processCapabilityRequest s
    · exact hd.processDataFirst _ _ s
    · exact hd.processData _ s
    · exact hd.processCloseRequest _ s
    · exact hd

/-- What one action does is as claimed if and only if it meets the condition. -/
theorem act_sound_iff (hd : Accepted d) (action : DvcAction) :
    Sound d action (drdynvcAct action d) ↔ SparesAction d action := by
  have hother {action : DvcAction} (haccepted : Accepted (drdynvcAct action d))
      (hcreate : ∀ s calls, action = .pdu s calls → ¬ IsCreateRequest s) :
      Sound d action (drdynvcAct action d) :=
    ⟨fun s calls heq hs => absurd hs (hcreate s calls heq), haccepted⟩
  cases action with
  | pdu s calls =>
    have hpdu (hs : ¬ IsCreateRequest s) : Sound d (.pdu s calls) (drdynvcAct (.pdu s calls) d) := by
      refine hother (drdynvcOrderRecv_accepted hd calls hs) ?_
      rintro s' calls' heq
      obtain ⟨rfl, rfl⟩ := DvcAction.pdu.inj heq
      exact hs
    cases s with
    | nil => exact iff_of_true (hpdu fun h => h) trivial
    | cons value s =>
      by_cases hcmd : (value.toNat &&& 0xF0) >>> 4 = createRequestPdu
      · refine Iff.trans ?_ (createRequest_sound_iff hd value s hcmd)
        have hact : drdynvcAct (.pdu (value :: s) calls) d =
            (drdynvcProcessCreateRequest calls (value.toNat &&& 0x03) s d).1 := by
          rw [drdynvcAct, drdynvcOrderRecv, if_neg (by rw [hcmd]; decide), if_pos hcmd]
        rw [hact]
        constructor
        · exact fun h => ⟨h.unchanged _ _ rfl hcmd, h.accepted⟩
        · exact fun h => ⟨fun _ _ _ _ => h.1, h.2⟩
      · exact iff_of_true (hpdu hcmd) fun h => absurd h hcmd
  | write channelId data calls => exact iff_of_true (hother (hd.write calls channelId data) nofun) trivial
  | createListener channelName =>
    exact iff_of_true (hother ⟨hd.channels, hd.received⟩ nofun) trivial
  | destroyListener index => exact iff_of_true (hother ⟨hd.channels, hd.received⟩ nofun) trivial
  | clear => exact iff_of_true (hother ⟨nofun, hd.received⟩ nofun) trivial

/-- All along a run, a refused create request changes no channel and each channel has been accepted, if and
only if no create request of the run is answered with success for an id in use, or leaves a channel behind
because its response is not sent. -/
theorem create_sound_iff (actions : List DvcAction) :
    (∀ as d action d', as ++ [action] <+: actions → Runs DrdynvcStep drdynvcStart as d →
      DrdynvcStep d action d' → Sound d action d') ↔
    ∀ as d action d', as ++ [action] <+: actions → Runs DrdynvcStep drdynvcStart as d →
      DrdynvcStep d action d' → SparesAction d action := by
  apply Runs.good_iff (I := Accepted)
  · exact ⟨nofun, nofun⟩
  · exact fun _ _ _ _ h => h.accepted
  · rintro d action d' hd rfl
    exact act_sound_iff hd action

/-- A listener that accepts, and calls that succeed. -/
def acceptingCalls : DvcCalls :=
  ⟨true, 0, true, true, ⟨0, true, some 1, fun _ _ => rfl⟩, 0, true, 0, 0, true, 0, true, 0⟩

/-- A second request for channel 3, which is refused, closes it.  When `pVirtualChannelWriteEx` fails, the
refused channel 4 stays, and data for it is dispatched to a NULL callback. -/
theorem create_not_sound :
    (∃ d d', d = drdynvcAct (.pdu [0x10, 3, 65, 0] acceptingCalls)
        (drdynvcAct (.createListener [65]) drdynvcStart) ∧
      d' = drdynvcAct (.pdu [0x10, 3, 65, 0] acceptingCalls) d ∧
      Refused d d' ∧ d.channels.length = 1 ∧ d'.channels = []) ∧
    ∃ d, d = drdynvcAct (.pdu [0x10, 4, 66, 0] { acceptingCalls with responseSend := channelRcNoMemory })
        drdynvcStart ∧ ¬ Accepted d ∧
      .received 4 none [9] ∈ (drdynvcAct (.pdu [0x30, 4, 9] acceptingCalls) d).log := by
  refine ⟨⟨_, _, rfl, rfl, ⟨[], byte 0x10 ++ byte 3, by decide⟩, by decide, by decide⟩, _, rfl, ?_,
    by decide⟩
  intro h
  have hsome := h.channels ⟨4, [66], errorNotConnected, none, none, 0⟩ (by decide)
  exact nomatch hsome

end FreeRDP.Channels
