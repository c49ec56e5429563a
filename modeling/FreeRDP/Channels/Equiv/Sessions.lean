import FreeRDP.Channels.Drdynvc
import FreeRDP.Channels.Wts
import FreeRDP.Lib.Components

/-!
# Messages over dynamic channels

The server splits a message for a dynamic channel into PDUs (`DataPdu`), and the threads that write to
different channels put their PDUs into one queue, in any order.  The client puts the messages of each
channel together.

A channel is a component of the client (`view`, `receive`): the PDUs of the others neither change it nor
make it pass anything on.  Alone, it gets back each message that has been split for it (`alone_split`).
So whatever the order in the queue is, each channel is passed its messages, complete and in order
(`dvc_messages`).
-/

namespace FreeRDP.Channels

open Components Wire

/-! ### PDUs with data -/

/-- A PDU with data, but for the channel that it is for. -/
inductive DataPdu where
  /-- `DATA_FIRST_PDU`, with the length of the whole message. -/
  | first (total : ℕ) (data : List UInt8)
  /-- `DATA_PDU`. -/
  | next (data : List UInt8)

namespace DataPdu

/-- The bytes of a PDU, as `FreeRDP_WTSVirtualChannelWrite` writes them. -/
def bytes (channelId : ℕ) : DataPdu → List UInt8
  | first total data =>
    byte (dataFirstPdu <<< 4 ||| (wtsWriteVariableUint total).2 <<< 2 |||
      (wtsWriteVariableUint channelId).2) ++ (wtsWriteVariableUint channelId).1 ++
      (wtsWriteVariableUint total).1 ++ data
  | next data =>
    byte (dataPdu <<< 4 ||| (wtsWriteVariableUint channelId).2) ++ (wtsWriteVariableUint channelId).1 ++
      [] ++ data

/-- The length in the header of a PDU. -/
def total : DataPdu → ℕ
  | first total _ => total
  | next _ => 0

end DataPdu

/-- The PDUs of what is left of a message behind the first one. -/
def splitNext (chunk : ℕ) : ℕ → List UInt8 → List DataPdu
  | 0, _ => []
  | rounds + 1, data =>
    if data.length = 0 then []
    else .next (data.take (min data.length chunk)) ::
      splitNext chunk rounds (data.drop (min data.length chunk))

def split (chunkSize channelId : ℕ) (data : List UInt8) : List DataPdu :=
  let chunk := chunkSize - (1 + (wtsWriteVariableUint channelId).1.length)
  if data.length > chunk then
    let written := chunkSize - (1 + (wtsWriteVariableUint channelId).1.length +
      (wtsWriteVariableUint data.length).1.length)
    .first data.length (data.take written) :: splitNext chunk (data.length - 1) (data.drop written)
  else splitNext chunk data.length data

/-! ### The server -/

def WtsWriteCalls.ok : WtsWriteCalls := ⟨fun _ => true, fun _ => true⟩

def Vcm.enqueue (vcm : Vcm) (channelId : ℕ) (pdus : List DataPdu) : Vcm :=
  let items := pdus.map fun pdu => (vcm.drdynvcChannel.channelId % 2 ^ 16, pdu.bytes channelId)
  { vcm with queue := vcm.queue ++ items }

theorem enqueue_cons (vcm : Vcm) (channelId : ℕ) (pdu : DataPdu) (pdus : List DataPdu) :
    (vcm.enqueue channelId [pdu]).enqueue channelId pdus = vcm.enqueue channelId (pdu :: pdus) := by
  simp [Vcm.enqueue]

theorem wtsWriteLoop_next (chunkSize channelId : ℕ) (rounds i : ℕ) (data : List UInt8) (vcm : Vcm) :
    wtsWriteLoop WtsWriteCalls.ok chunkSize channelId rounds (i + 1) true data vcm =
      (vcm.enqueue channelId
        (splitNext (chunkSize - (1 + (wtsWriteVariableUint channelId).1.length)) rounds data), true) := by
  induction rounds generalizing i data vcm with
  | zero => simp [wtsWriteLoop, splitNext, Vcm.enqueue]
  | succ rounds ih =>
    rw [wtsWriteLoop, splitNext]
    split_ifs with hempty hstream
    · simp [Vcm.enqueue]
    · exact absurd hstream (by simp [WtsWriteCalls.ok])
    · simp only [false_and, if_false]
      exact (ih (i + 1) _ _).trans (by rw [← enqueue_cons]; rfl)

/-- A message that is written is split, and its PDUs are queued. -/
theorem wtsVirtualChannelWrite_eq (chunkSize : ℕ) (channel : PeerChannel) {data : List UInt8}
    {vcm : Vcm} (hready : vcm.drdynvcState = .ready) (hdata : data ≠ []) :
    wtsVirtualChannelWrite WtsWriteCalls.ok chunkSize channel data vcm =
      (vcm.enqueue channel.channelId (split chunkSize channel.channelId data), true) := by
  have hlen := List.length_pos_iff.mpr hdata
  obtain ⟨rounds, hrounds⟩ : ∃ rounds, data.length = rounds + 1 := ⟨data.length - 1, by omega⟩
  have hstream : ¬ (!WtsWriteCalls.ok.stream 0) = true := by simp [WtsWriteCalls.ok]
  rw [wtsVirtualChannelWrite, if_neg (by simp [hready]), split]
  by_cases hlarge : data.length > chunkSize - (1 + (wtsWriteVariableUint channel.channelId).1.length)
  · -- the first PDU has the length of the message
    have hmin : min data.length (chunkSize - (1 + (wtsWriteVariableUint channel.channelId).1.length +
        (wtsWriteVariableUint data.length).1.length)) = _ := Nat.min_eq_right (by omega)
    rw [if_pos hlarge, show data.length - 1 = rounds by omega, ← enqueue_cons,
      ← wtsWriteLoop_next chunkSize channel.channelId rounds 0, ← hmin]
    nth_rewrite 1 [hrounds]
    rw [wtsWriteLoop, if_neg (by omega), if_neg hstream]
    simp only [hlarge, and_self, if_true]
    rfl
  · rw [if_neg hlarge, hrounds, splitNext, if_neg (by omega), ← enqueue_cons,
      ← wtsWriteLoop_next chunkSize channel.channelId rounds 0, wtsWriteLoop, if_neg (by omega),
      if_neg hstream]
    simp only [hlarge, and_false, if_false]
    rfl

/-! ### A channel of the client -/

/-- What a channel holds of a message that has begun, and the length of it. -/
abbrev Pending := Option (List UInt8 × ℕ)

def receiveData (pending : Pending) (data : List UInt8) : Option (Pending × List (List UInt8)) :=
  match pending with
  | none => some (none, [data])
  | some (held, total) =>
    if held.length + data.length > total then none
    else if (held ++ data).length ≥ total then some (none, [held ++ data])
    else some (some (held ++ data, total), [])

/-- A PDU for a channel: what the channel holds then, and what it is passed; `none` where the PDU is
wrong. -/
def receive (pending : Pending) : DataPdu → Option (Pending × List (List UInt8))
  | .first total data => receiveData (some ([], total)) data
  | .next data => receiveData pending data

/-- The PDUs behind the first one complete the message. -/
theorem alone_splitNext {chunk rounds total : ℕ} {held data : List UInt8} (hchunk : 0 < chunk)
    (hrounds : data.length ≤ rounds) (hdata : data ≠ []) (htotal : held.length + data.length = total) :
    alone receive (splitNext chunk rounds data) (some (held, total)) = some (none, [held ++ data]) := by
  induction rounds generalizing held data with
  | zero => exact absurd (List.eq_nil_of_length_eq_zero (by omega)) hdata
  | succ rounds ih =>
    have hpos := List.length_pos_iff.mpr hdata
    rw [splitNext, if_neg (by omega), alone, receive, receiveData]
    have htake : (data.take (min data.length chunk)).length = min data.length chunk := by
      rw [List.length_take]
      omega
    rw [if_neg (by omega)]
    by_cases hlast : data.length ≤ chunk
    · rw [Nat.min_eq_left hlast, List.take_length, List.drop_length,
        if_pos (by rw [List.length_append]; omega), Option.bind_some]
      cases rounds <;> rfl
    · have hmin : min data.length chunk = chunk := Nat.min_eq_right (by omega)
      rw [hmin] at htake ⊢
      have hrest : data.drop chunk ≠ [] := by
        rw [Ne, List.drop_eq_nil_iff]
        omega
      rw [if_neg (by rw [List.length_append]; omega), Option.bind_some,
        ih (by rw [List.length_drop]; omega) hrest
          (by rw [List.length_append, htake, List.length_drop]; omega)]
      simp

/-- A message that is split comes out of its channel as it was. -/
theorem alone_split {chunkSize channelId : ℕ} {data : List UInt8} (hchunk : 10 ≤ chunkSize)
    (hdata : data ≠ []) : alone receive (split chunkSize channelId data) none = some (none, [data]) := by
  have hpos := List.length_pos_iff.mpr hdata
  have hsize : ∀ val, (wtsWriteVariableUint val).1.length ≤ 4 := by
    intro val
    unfold wtsWriteVariableUint
    split_ifs <;> simp
  have hid := hsize channelId
  have hlen := hsize data.length
  rw [split]
  split_ifs with hlarge
  · generalize hwritten : chunkSize - (1 + (wtsWriteVariableUint channelId).1.length +
      (wtsWriteVariableUint data.length).1.length) = written
    have htake : (data.take written).length = written := by
      rw [List.length_take]
      omega
    have hrest : data.drop written ≠ [] := by
      rw [Ne, List.drop_eq_nil_iff]
      omega
    rw [alone, receive, receiveData, if_neg (by rw [List.length_nil, htake]; omega),
      if_neg (by rw [List.nil_append, htake]; omega), Option.bind_some,
      alone_splitNext (by omega) (by rw [List.length_drop]; omega) hrest
        (by rw [List.nil_append, htake, List.length_drop]; omega)]
    simp
  · obtain ⟨rounds, hrounds⟩ : ∃ rounds, data.length = rounds + 1 := ⟨data.length - 1, by omega⟩
    rw [hrounds, splitNext, if_neg (by omega), Nat.min_eq_left (by omega), List.take_length,
      List.drop_length, alone, receive, receiveData, Option.bind_some]
    cases rounds <;> rfl

/-! ### The client -/

/-- What the channels of the client hold. -/
def view (channelId : ℕ) (d : Drdynvc) : Option Pending :=
  (dvcmanFindChannelById channelId d).map fun channel =>
    channel.dvcData.map fun held => (held, channel.dvcDataLength)

/-- The data that has been passed on. -/
def received (d : Drdynvc) : List (ℕ × List UInt8) :=
  d.log.filterMap fun event =>
    match event with
    | .sent _ => none
    | .received channelId _ data => some (channelId, data)

/-- A channel that is open receives a PDU whose numbers have fields for them. -/
def receiveFor (channelId : ℕ) (channel : Option Pending) (pdu : DataPdu) :
    Option (Option Pending × List (List UInt8)) :=
  if channelId < 2 ^ 32 ∧ pdu.total < 2 ^ 32 then
    channel.bind fun pending => (receive pending pdu).map fun r => (some r.1, r.2)
  else none

/-- A PDU is processed; `none` where the result is not `CHANNEL_RC_OK`. -/
def recvStep (calls : DvcCalls) (d : Drdynvc) (pdu : ℕ × DataPdu) : Option Drdynvc :=
  let (d, status) := drdynvcOrderRecv calls (pdu.2.bytes pdu.1) d
  if status = channelRcOk then some d else none

theorem find_updateChannel {channels : List DvcmanChannel} {channel : DvcmanChannel} (channelId : ℕ)
    (h : (channels.find? fun c => c.channelId = channel.channelId).isSome) :
    (updateChannel channel channels).find? (fun c => c.channelId = channelId) =
      if channel.channelId = channelId then some channel
      else channels.find? fun c => c.channelId = channelId := by
  induction channels with
  | nil => simp at h
  | cons c channels ih =>
    rw [updateChannel]
    split_ifs with hc hid hid
    · simp [hid]
    · have hne : c.channelId ≠ channelId := hc.trans_ne hid
      simp [hid, hne]
    · rw [List.find?_cons_of_neg (by simpa using hc)] at h
      have hne : c.channelId ≠ channelId := by
        rintro rfl
        exact hc hid.symm
      rw [List.find?_cons_of_neg (by simpa using hne), ih h, if_pos hid]
    · rw [List.find?_cons_of_neg (by simpa using hc)] at h
      rw [List.find?_cons, List.find?_cons, ih h, if_neg hid]

theorem view_of_find {d : Drdynvc} {channel : DvcmanChannel} {channelId : ℕ}
    (h : dvcmanFindChannelById channelId d = some channel) :
    view channelId d = some (channel.dvcData.map fun held => (held, channel.dvcDataLength)) := by
  rw [view, h]
  rfl

/-- A channel that becomes another one under its id. -/
theorem view_updateChannel {d : Drdynvc} {channel : DvcmanChannel} {channelId : ℕ}
    (channel' : DvcmanChannel) (log : List DvcEvent)
    (hfind : dvcmanFindChannelById channelId d = some channel)
    (hid : channel'.channelId = channel.channelId) :
    let d' := { d with channels := updateChannel channel' d.channels, log := log }
    dvcmanFindChannelById channelId d' = some channel' ∧
      ∀ j, j ≠ channelId → view j d' = view j d := by
  have hchannel : channel.channelId = channelId := by
    have h := List.find?_some hfind
    simpa using h
  have hsome : (d.channels.find? fun c => c.channelId = channel'.channelId).isSome := by
    rw [hid, hchannel]
    exact Option.isSome_of_eq_some hfind
  constructor
  · rw [dvcmanFindChannelById, find_updateChannel _ hsome, if_pos (hid.trans hchannel)]
  · intro j hj
    simp only [view, dvcmanFindChannelById]
    rw [find_updateChannel _ hsome, if_neg (by rw [hid, hchannel]; exact Ne.symm hj)]

theorem received_append (d : Drdynvc) (channels : List DvcmanChannel) (channelId : ℕ)
    (callback : Option ℕ) (data : List UInt8) :
    received { d with channels := channels, log := d.log ++ [.received channelId callback data] } =
      received d ++ [(channelId, data)] := by
  simp [received]

/-- What a channel is passed, and what it holds then. -/
theorem dvcmanReceiveChannelData_spec {d : Drdynvc} {channel : DvcmanChannel} {channelId : ℕ}
    {data : List UInt8} {pending : Pending} {out : List (List UInt8)}
    (hfind : dvcmanFindChannelById channelId d = some channel)
    (h : receiveData (channel.dvcData.map fun held => (held, channel.dvcDataLength)) data =
      some (pending, out)) :
    ∃ d', dvcmanReceiveChannelData channelRcOk channelId data d = (d', channelRcOk) ∧
      view channelId d' = some pending ∧ (∀ j, j ≠ channelId → view j d' = view j d) ∧
      received d' = received d ++ out.map fun bytes => (channelId, bytes) := by
  unfold dvcmanReceiveChannelData
  rw [hfind]
  cases hdata : channel.dvcData with
  | none =>
    rw [hdata] at h
    cases h
    simp only [hdata]
    have hsame := view_of_find hfind
    rw [hdata] at hsame
    exact ⟨_, rfl, hsame, fun j _ => rfl, received_append d d.channels channelId _ data⟩
  | some held =>
    rw [hdata] at h
    simp only [Option.map_some, receiveData] at h
    simp only [hdata]
    split_ifs at h ⊢ with hlong hlast
    · cases h
      obtain ⟨hfind', hothers⟩ := view_updateChannel { channel with dvcData := none }
        (d.log ++ [.received channelId channel.channelCallback (held ++ data)]) hfind rfl
      exact ⟨_, rfl, view_of_find hfind', hothers, received_append d _ channelId _ _⟩
    · cases h
      obtain ⟨hfind', hothers⟩ := view_updateChannel { channel with dvcData := some (held ++ data) }
        d.log hfind rfl
      exact ⟨_, rfl, view_of_find hfind', hothers, (List.append_nil _).symm⟩

/-- What is written as a number of variable size is read back. -/
theorem reads_variableUint {val : ℕ} (h : val < 2 ^ 32) :
    Reads (drdynvcReadVariableUint (wtsWriteVariableUint val).2) (wtsWriteVariableUint val).1 val ∧
      drdynvcCblenToBytes (wtsWriteVariableUint val).2 = (wtsWriteVariableUint val).1.length ∧
      (wtsWriteVariableUint val).2 < 3 := by
  unfold wtsWriteVariableUint
  split_ifs with h8 h16
  · exact ⟨Reads.u8 (by omega), rfl, Nat.succ_pos 2⟩
  · exact ⟨Reads.u16le (by omega), rfl, Nat.succ_lt_succ (Nat.succ_pos 1)⟩
  · exact ⟨Reads.u32le h, rfl, Nat.lt_succ_self 2⟩

theorem header_fields : ∀ cbLen < 3, ∀ cbChId < 3,
    (((UInt8.ofNat (dataFirstPdu <<< 4 ||| cbLen <<< 2 ||| cbChId)).toNat &&& 0xF0) >>> 4 =
        dataFirstPdu ∧
      ((UInt8.ofNat (dataFirstPdu <<< 4 ||| cbLen <<< 2 ||| cbChId)).toNat &&& 0x0C) >>> 2 = cbLen ∧
      (UInt8.ofNat (dataFirstPdu <<< 4 ||| cbLen <<< 2 ||| cbChId)).toNat &&& 0x03 = cbChId) ∧
    ((UInt8.ofNat (dataPdu <<< 4 ||| cbChId)).toNat &&& 0xF0) >>> 4 = dataPdu ∧
      (UInt8.ofNat (dataPdu <<< 4 ||| cbChId)).toNat &&& 0x03 = cbChId := by
  decide

/-- A PDU for a channel that is open is processed as the channel alone would. -/
theorem recvStep_spec {calls : DvcCalls} (hstream : calls.dataStream = true)
    (honData : calls.onDataReceived = channelRcOk) {d : Drdynvc} {channelId : ℕ} {pdu : DataPdu}
    {channel : Option Pending} {out : List (List UInt8)}
    (h : receiveFor channelId (view channelId d) pdu = some (channel, out)) :
    ∃ d', recvStep calls d (channelId, pdu) = some d' ∧ view channelId d' = channel ∧
      (∀ j, j ≠ channelId → view j d' = view j d) ∧
      received d' = received d ++ out.map fun data => (channelId, data) := by
  unfold receiveFor at h
  split_ifs at h with hfits
  rw [Option.bind_eq_some_iff] at h
  obtain ⟨pending, hview, h⟩ := h
  rw [Option.map_eq_some_iff] at h
  obtain ⟨⟨pending', out'⟩, hreceive, heq⟩ := h
  cases heq
  cases hfind : dvcmanFindChannelById channelId d with
  | none => simp [view, hfind] at hview
  | some channel =>
    rw [view_of_find hfind, Option.some_inj] at hview
    subst hview
    obtain ⟨hid, hidsize, hidcb⟩ := reads_variableUint hfits.1
    -- it is enough to look at the function that the PDU is dispatched to
    suffices hrecv : ∃ d', drdynvcOrderRecv calls (pdu.bytes channelId) d = (d', channelRcOk) ∧
        view channelId d' = some pending' ∧ (∀ j, j ≠ channelId → view j d' = view j d) ∧
        received d' = received d ++ out'.map fun data => (channelId, data) by
      obtain ⟨d', hd', hspec⟩ := hrecv
      refine ⟨d', ?_, hspec⟩
      simp only [recvStep, hd', if_true]
    cases pdu with
    | first total data =>
      have htotal : total < 2 ^ 32 := hfits.2
      obtain ⟨hlen, hlensize, hlencb⟩ := reads_variableUint htotal
      obtain ⟨⟨hcmd, hsp, hcb⟩, -⟩ := header_fields _ hlencb _ hidcb
      let begun : DvcmanChannel := { channel with dvcData := some [], dvcDataLength := total }
      obtain ⟨hfind', hothers⟩ := view_updateChannel begun d.log hfind rfl
      obtain ⟨d', hd', hview, hothers', hout⟩ := dvcmanReceiveChannelData_spec hfind' hreceive
      have hread : readDataFirst (wtsWriteVariableUint total).2 (wtsWriteVariableUint channelId).2
          ((wtsWriteVariableUint channelId).1 ++ ((wtsWriteVariableUint total).1 ++ data)) =
            some ((channelId, total), data) := by
        rw [← List.append_assoc]
        apply Reads.need (by rw [List.length_append, hidsize, hlensize])
        exact hid.bind (hlen.map rfl)
      refine ⟨d', ?_, hview, fun j hj => (hothers' j hj).trans (hothers j hj), hout⟩
      simp only [DataPdu.bytes, byte, List.cons_append, List.nil_append, List.append_assoc,
        drdynvcOrderRecv, hcmd, hsp, hcb]
      rw [if_neg (by decide), if_neg (by decide), if_pos trivial, drdynvcProcessDataFirst, hread]
      have hfirst : dvcmanReceiveChannelDataFirst calls.dataStream channelId total d =
          ({ d with channels := updateChannel begun d.channels }, channelRcOk) := by
        unfold dvcmanReceiveChannelDataFirst
        rw [hfind, hstream]
        rfl
      simp only [hfirst, honData, if_true, hd', closeOnError, ne_eq, not_true_eq_false, if_false]
    | next data =>
      obtain ⟨-, hcmd, hcb⟩ := header_fields 0 (by decide) _ hidcb
      obtain ⟨d', hd', hspec⟩ := dvcmanReceiveChannelData_spec hfind hreceive
      have hread : readChannelId (wtsWriteVariableUint channelId).2
          ((wtsWriteVariableUint channelId).1 ++ data) = some (channelId, data) :=
        Reads.need (Nat.le_of_eq hidsize) hid data
      refine ⟨d', ?_, hspec⟩
      simp only [DataPdu.bytes, byte, List.cons_append, List.nil_append, List.append_nil,
        drdynvcOrderRecv, hcmd, hcb]
      rw [if_neg (by decide), if_neg (by decide), if_neg (by decide), if_pos trivial, drdynvcProcessData,
        hread]
      simp only [honData, hd', closeOnError, ne_eq, not_true_eq_false, if_false]

/-! ### Sessions -/

/-- What a write of a message to a channel puts into the queue. -/
def written (vcm : Vcm) (chunkSize : ℕ) (channel : PeerChannel) (message : List UInt8) :
    List (List UInt8) :=
  (wtsVirtualChannelWrite WtsWriteCalls.ok chunkSize channel message
    { vcm with queue := [] }).1.queue.map Prod.snd

/-- PDUs are processed one after another; `none` where a result is not `CHANNEL_RC_OK`. -/
def recvPdus (calls : DvcCalls) (pdus : List (List UInt8)) (d : Drdynvc) : Option Drdynvc :=
  pdus.foldlM (fun d pdu =>
    let (d, status) := drdynvcOrderRecv calls pdu d
    if status = channelRcOk then some d else none) d

theorem written_eq {vcm : Vcm} (hready : vcm.drdynvcState = .ready) (chunkSize : ℕ)
    (channel : PeerChannel) {message : List UInt8} (hmessage : message ≠ []) :
    written vcm chunkSize channel message =
      (split chunkSize channel.channelId message).map (DataPdu.bytes channel.channelId) := by
  have hempty : ({ vcm with queue := [] } : Vcm).drdynvcState = .ready := hready
  rw [written, wtsVirtualChannelWrite_eq chunkSize channel hempty hmessage]
  simp [Vcm.enqueue]

theorem total_lt_of_mem_splitNext {chunk rounds : ℕ} {data : List UInt8} {pdu : DataPdu}
    (h : pdu ∈ splitNext chunk rounds data) : pdu.total < 2 ^ 32 := by
  induction rounds generalizing data with
  | zero => cases h
  | succ rounds ih =>
    rw [splitNext] at h
    split_ifs at h
    · cases h
    · rcases List.mem_cons.1 h with rfl | h
      · exact Nat.two_pow_pos 32
      · exact ih h

/-- An open channel takes the PDUs of a message, and gives it back. -/
theorem alone_receiveFor {chunkSize channelId : ℕ} {message : List UInt8} (hchunk : 10 ≤ chunkSize)
    (hid : channelId < 2 ^ 32) (hmessage : message ≠ []) (hlen : message.length < 2 ^ 32) :
    alone (receiveFor channelId) (split chunkSize channelId message) (some none) =
      some (some none, [message]) := by
  have hfits : ∀ pdu ∈ split chunkSize channelId message, pdu.total < 2 ^ 32 := by
    intro pdu hpdu
    rw [split] at hpdu
    split_ifs at hpdu
    · rcases List.mem_cons.1 hpdu with rfl | hpdu
      · exact hlen
      · exact total_lt_of_mem_splitNext hpdu
    · exact total_lt_of_mem_splitNext hpdu
  have hlift : ∀ (pdus : List DataPdu) (pending : Pending), (∀ pdu ∈ pdus, pdu.total < 2 ^ 32) →
      alone (receiveFor channelId) pdus (some pending) =
        (alone receive pdus pending).map fun r => (some r.1, r.2) := by
    intro pdus
    induction pdus with
    | nil => exact fun pending _ => rfl
    | cons pdu pdus ih =>
      intro pending hpdus
      rw [alone, alone, receiveFor, if_pos ⟨hid, hpdus pdu List.mem_cons_self⟩, Option.bind_some]
      cases receive pending pdu with
      | none => rfl
      | some r =>
        rw [Option.map_some, Option.bind_some, Option.bind_some,
          ih r.1 fun p hp => hpdus p (List.mem_cons_of_mem _ hp)]
        cases alone receive pdus r.1 <;> rfl
  rw [hlift _ _ hfits, alone_split hchunk hmessage]
  rfl

/-- The messages of all channels arrive: the PDUs that the writes put into the queue may be interleaved
in any way that keeps the order within each channel, and the client passes on to each channel that is
open the messages that have been written to it, complete and in order. -/
theorem dvc_messages (calls : DvcCalls) (vcm : Vcm) (chunkSize : ℕ) (channel : ℕ → PeerChannel)
    (messages : ℕ → List (List UInt8)) (trace : List (ℕ × List UInt8)) (d : Drdynvc)
    (hstream : calls.dataStream = true) (honData : calls.onDataReceived = channelRcOk)
    (hready : vcm.drdynvcState = .ready) (hchunk : 10 ≤ chunkSize)
    (hchannel : ∀ k, (channel k).channelId = k)
    (hmessages : ∀ k, ∀ message ∈ messages k,
      k < 2 ^ 32 ∧ message ≠ [] ∧ message.length < 2 ^ 32)
    (hopen : ∀ k, messages k ≠ [] →
      ∃ c, dvcmanFindChannelById k d = some c ∧ c.dvcData = none)
    (htrace : ∀ k, under k trace = (messages k).flatMap (written vcm chunkSize (channel k))) :
    ∃ d', recvPdus calls (trace.map Prod.snd) d = some d' ∧
      ∀ k, under k (received d') = under k (received d) ++ messages k ∧ view k d' = view k d := by
  have hsplit : ∀ k, under k trace =
      ((messages k).flatMap (split chunkSize k)).map (DataPdu.bytes k) := by
    intro k
    rw [htrace k, List.map_flatMap]
    refine List.flatMap_congr fun message hmessage => ?_
    rw [written_eq hready chunkSize (channel k) (hmessages k message hmessage).2.1, hchannel k]
  obtain ⟨pdus, rfl, hpdus⟩ := exists_log hsplit
  have halone : ∀ k, alone (receiveFor k) (under k pdus) (view k d) =
      some (view k d, messages k) := by
    intro k
    rw [hpdus k]
    by_cases hnone : messages k = []
    · rw [hnone]
      rfl
    · obtain ⟨c, hfind, hdata⟩ := hopen k hnone
      have hview : view k d = some none := by
        rw [view_of_find hfind, hdata]
        rfl
      rw [hview]
      refine alone_flatMap fun message hmessage => ?_
      obtain ⟨hk, hne, hlen⟩ := hmessages k message hmessage
      exact alone_receiveFor hchunk hk hne hlen
  obtain ⟨d', hd', hall⟩ := run_interleaved (recvStep_spec hstream honData) halone
  refine ⟨d', ?_, fun k => ⟨(hall k).2, (hall k).1⟩⟩
  rw [recvPdus, List.map_map, List.foldlM_map]
  exact hd'

/-- Messages of 9 bytes and of one byte. -/
def twoMessages (channelId : ℕ) : List (List UInt8) :=
  if channelId = 1 then [List.replicate 9 65] else if channelId = 2 then [[66]] else []

def twoChannels : Drdynvc where
  state := .ready
  version := 1
  priorityCharges := []
  listeners := []
  channels := [⟨1, [65], 0, some 1, none, 0⟩, ⟨2, [65], 0, some 2, none, 0⟩]
  log := []

/-- The first message is sent in two PDUs, and the second one comes in between. -/
theorem dvc_messages_two :
    ∃ d', recvPdus ⟨true, 0, true, true, ⟨0, true, some 1, fun _ _ => rfl⟩, 0, true, 0, 0, true, 0, true, 0⟩
        [[0x20, 1, 9, 65, 65, 65, 65, 65, 65, 65], [0x30, 2, 66], [0x30, 1, 65, 65]] twoChannels =
          some d' ∧
      ∀ k, under k (received d') = under k (received twoChannels) ++ twoMessages k ∧
        view k d' = view k twoChannels := by
  let stream : WStream := ⟨[0], 0, List.cons_ne_nil _ _, Nat.zero_le _⟩
  refine dvc_messages ⟨true, 0, true, true, ⟨0, true, some 1, fun _ _ => rfl⟩, 0, true, 0, 0, true, 0,
      true, 0⟩ ⟨.ready, channelNew 1 stream, [], 0, []⟩ 10 (fun k => channelNew k stream) twoMessages
    [(1, [0x20, 1, 9, 65, 65, 65, 65, 65, 65, 65]), (2, [0x30, 2, 66]), (1, [0x30, 1, 65, 65])]
    twoChannels rfl rfl rfl (Nat.le_refl 10) (fun _ => rfl) ?_ ?_ ?_
  · intro k message hmessage
    unfold twoMessages at hmessage
    split_ifs at hmessage with h1 h2
    · cases List.mem_singleton.1 hmessage
      exact ⟨by omega, by simp, by simp⟩
    · cases List.mem_singleton.1 hmessage
      exact ⟨by omega, by simp, by simp⟩
    · cases hmessage
  · intro k hk
    unfold twoMessages at hk
    split_ifs at hk with h1 h2
    · subst h1
      exact ⟨_, rfl, rfl⟩
    · subst h2
      exact ⟨_, rfl, rfl⟩
    · exact absurd rfl hk
  · intro k
    by_cases h1 : k = 1
    · subst h1
      decide
    · by_cases h2 : k = 2
      · subst h2
        decide
      · rw [under_cons_of_ne (Ne.symm h1), under_cons_of_ne (Ne.symm h2), under_cons_of_ne (Ne.symm h1)]
        simp [twoMessages, h1, h2]

end FreeRDP.Channels
