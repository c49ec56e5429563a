import FreeRDP.Gateway.Equiv.Websocket
import FreeRDP.Gateway.Equiv.Write

/-!
# Answers to control frames

A control frame is read into a stream of its own, piece by piece as it arrives (`Awaits`), and in the
round in which its last byte is read it is answered (`websocketReadLoop_answers`).

The answer to a ping is a pong with its payload.  The answer to a close has the opcode of a pong; and
when the close has a status, the masked status goes to the stream of the close, behind the status,
rather than to the frame (`not_isAnswer_close`).

`answersProperly_iff`: a control frame is answered properly if and only if it is a ping.
-/

namespace FreeRDP.Gateway

open Traced

variable {keys : MaskingKeys} {f : Frame} {ctx ctx' : Websocket} {net : List (List UInt8)}
  {rest got left : List UInt8} {size rounds : ℕ} {closeSent : Bool} {s : WebsocketSource}
  {visits visits' : List WebsocketSource} {sizes : List ℕ}

/-! ### Frames that are answered -/

def Frame.IsPing (f : Frame) : Prop := f.head &&& 0xf = websocketPingOpcode

instance (f : Frame) : Decidable f.IsPing := inferInstanceAs (Decidable (_ = _))

/-- A ping or a close, whose payload has at most 125 bytes. -/
structure Frame.IsControl (f : Frame) : Prop where
  opcode : f.IsPing ∨ f.head &&& 0xf = websocketCloseOpcode
  form : f.form = .byte

/-- The stream with the payload: there is none for an empty payload. -/
def Frame.packet (f : Frame) : Option SealedStream :=
  if f.payload = [] then none else some ⟨f.payload, f.payload.length⟩

/-- What is written back when the frame is complete. -/
def Frame.reply (keys : MaskingKeys) (closeSent : Bool) (f : Frame) :
    Traced StreamAccess (List (List UInt8)) :=
  if f.IsPing then
    if closeSent then return []
    else do
      let frame ← rdgWebsocketReplyPong keys.maskingKey f.packet
      return frame.toList
  else do
    let frame ← rdgWebsocketReplyClose keys.maskingKey1 keys.maskingKey2 f.packet
    return [frame]

/-- What is written back in the rounds that begin in some states. -/
def websocketAnswers (keys : MaskingKeys) (visits : List WebsocketSource) :
    Traced StreamAccess (List (List UInt8)) where
  value := visits.flatMap fun s => (websocketAnswer keys s).value
  trace := visits.flatMap fun s => (websocketAnswer keys s).trace

theorem websocketAnswers_cons (h : websocketAnswer keys s = pure []) (visits : List WebsocketSource) :
    websocketAnswers keys (s :: visits) = websocketAnswers keys visits := by
  unfold websocketAnswers
  rw [List.flatMap_cons, List.flatMap_cons, h]
  rfl

theorem websocketAnswers_singleton (s : WebsocketSource) :
    websocketAnswers keys [s] = websocketAnswer keys s :=
  congrArg₂ Traced.mk (List.append_nil _) (List.append_nil _)

theorem websocketAnswers_append (h : websocketAnswers keys visits = pure [])
    (visits' : List WebsocketSource) :
    websocketAnswers keys (visits ++ visits') = websocketAnswers keys visits' := by
  have hvalue : (visits.flatMap fun s => (websocketAnswer keys s).value) = [] := congrArg value h
  have htrace : (visits.flatMap fun s => (websocketAnswer keys s).trace) = [] := congrArg trace h
  unfold websocketAnswers
  rw [List.flatMap_append, List.flatMap_append, hvalue, htrace]
  rfl

theorem websocketAnswer_of_ne (hstate : ctx.state ≠ .payload) :
    websocketAnswer keys (ctx, net) = pure [] := if_neg hstate

/-! ### Rounds in a payload -/

theorem Websocket.effectiveOpcode_of_isControl (hf : f.IsControl) (hopcode : ctx.opcode = f.head) :
    ctx.effectiveOpcode = f.head &&& 0xf := by
  unfold Websocket.effectiveOpcode
  rw [hopcode, if_neg]
  rcases hf.opcode with h | h <;> rw [show f.head &&& 0xf = _ from h] <;> decide

/-- What is done with the context when the frame has been answered. -/
def Frame.finish (f : Frame) (ctx : Websocket) : Websocket :=
  if f.IsPing then ctx else { ctx with closeSent := true }

/-- What answers the frame, in terms of the context. -/
def Frame.replyIn (keys : MaskingKeys) (f : Frame) : Websocket → Traced StreamAccess (List (List UInt8)) :=
  if f.IsPing then Websocket.replyPong keys else Websocket.replyClose keys

theorem answerPayload_of_isControl (hf : f.IsControl) (hopcode : ctx.opcode = f.head) (size : ℕ) :
    rdgWebsocketAnswerPayload keys size ctx net =
      websocketAnswerControl (f.replyIn keys) f.finish ctx net := by
  have heffective := Websocket.effectiveOpcode_of_isControl hf hopcode
  unfold rdgWebsocketAnswerPayload Frame.replyIn
  by_cases hping : f.IsPing
  · have hfinish : f.finish = id := funext fun ctx => if_pos hping
    rw [if_pos (heffective.trans hping), if_pos hping, hfinish]
  · have hclose := hf.opcode.resolve_left hping
    have hfinish : f.finish = fun ctx => { ctx with closeSent := true } := funext fun ctx => if_neg hping
    rw [if_neg (by rw [heffective, hclose]; decide), if_pos (heffective.trans hclose), if_neg hping,
      hfinish]

/-- Without the frames that are written back. -/
theorem value_answerPayload (keys : MaskingKeys) (size : ℕ) (ctx : Websocket) (net : List (List UInt8)) :
    (rdgWebsocketAnswerPayload keys size ctx net).value.2 = rdgWebsocketHandlePayload bioRead size ctx net := by
  have hcontrol (reply : Websocket → Traced StreamAccess (List (List UInt8)))
      (finish : Websocket → Websocket) :
      (websocketAnswerControl reply finish ctx net).value.2 = websocketHandleControl bioRead finish ctx net := by
    unfold websocketAnswerControl websocketHandleControl
    obtain ⟨_ | _ | data, ctx', net'⟩ := rdgWebsocketReadWstream bioRead ctx.newResponse net <;> rfl
  unfold rdgWebsocketAnswerPayload rdgWebsocketHandlePayload
  by_cases hping : ctx.effectiveOpcode = websocketPingOpcode
  · rw [if_pos hping, hcontrol, if_neg (by rw [hping]; decide), if_pos hping]
  · rw [if_neg hping, if_neg hping]
    by_cases hclose : ctx.effectiveOpcode = websocketCloseOpcode
    · rw [if_pos hclose, hcontrol, if_neg (by rw [hclose]; decide), if_pos hclose]
    · rw [if_neg hclose, if_neg hclose]
      rfl

/-- What of the stream of an answer is there: nothing, or the part of the payload that has been read. -/
def Frame.response (f : Frame) (got : List UInt8) : Option (ℕ × List UInt8) :=
  if f.payload = [] then none else some (f.payload.length, got)

/-- A context inside of a control frame, and what it has not read of the frame. -/
inductive Websocket.Awaits (f : Frame) (closeSent : Bool) : Websocket → List UInt8 → Prop
  | opcode {ctx : Websocket} (hstate : ctx.state = .opcodeAndFin)
      (hresponse : ctx.responseStreamBuffer = none) (hsent : ctx.closeSent = closeSent) :
    Awaits f closeSent ctx (f.head :: (f.lengthBytes ++ f.payload))
  | length {ctx : Websocket} (hstate : ctx.state = .lengthAndMasking)
      (hopcode : ctx.opcode = f.head) (hresponse : ctx.responseStreamBuffer = none)
      (hsent : ctx.closeSent = closeSent) : Awaits f closeSent ctx (f.lengthBytes ++ f.payload)
  | payload {ctx : Websocket} {got left : List UInt8} (hstate : ctx.state = .payload)
      (hopcode : ctx.opcode = f.head) (hpayload : f.payload = got ++ left)
      (hlength : ctx.payloadLength = left.length)
      (hresponse : ctx.newResponse.responseStreamBuffer = f.response got)
      (hsent : ctx.closeSent = closeSent) : Awaits f closeSent ctx left

/-- What changes when a part of the payload is read. -/
structure Takes (f : Frame) (ctx ctx' : Websocket) (got left : List UInt8) : Prop where
  payload : f.payload = got ++ left
  opcode : ctx'.opcode = ctx.opcode
  closeSent : ctx'.closeSent = ctx.closeSent
  payloadLength : ctx'.payloadLength = left.length
  state : ctx'.state = if left.length = 0 then .opcodeAndFin else ctx.state
  response : ctx'.responseStreamBuffer = f.response got

/-- The stream of an answer has room for what is left of the payload. -/
theorem readWstream_cases (hf : f.IsControl) (hpayload : f.payload = got ++ left)
    (hlength : ctx.payloadLength = left.length)
    (hresponse : ctx.newResponse.responseStreamBuffer = f.response got)
    (hnet : net.flatten = left ++ rest) :
    (left ≠ [] ∧ ∃ net', rdgWebsocketReadWstream bioRead ctx.newResponse net = (.ok none, ctx.newResponse, net') ∧
      net'.flatten = net.flatten ∧ netSize net' ≤ netSize net - 1) ∨
    ∃ data left' ctx' net', rdgWebsocketReadWstream bioRead ctx.newResponse net = (.ok (some data), ctx', net') ∧
      left = data ++ left' ∧ (left ≠ [] → data ≠ []) ∧ Takes f ctx ctx' (got ++ data) left' ∧
      net'.flatten = left' ++ rest ∧ (left ≠ [] → netSize net' ≤ netSize net - 1) := by
  have hnew : ctx.newResponse = { ctx with responseStreamBuffer := f.response got } := by
    rw [← hresponse]
    unfold Websocket.newResponse
    cases ctx.responseStreamBuffer <;> rfl
  rw [hnew]
  unfold rdgWebsocketReadWstream
  dsimp only
  by_cases hleft : left = []
  · subst hleft
    rw [List.append_nil] at hpayload
    refine .inr ⟨[], [], _, net, if_pos hlength, rfl, fun h => absurd rfl h, ?_, hnet, fun h =>
      absurd rfl h⟩
    exact ⟨by rw [List.append_nil, List.append_nil, hpayload], rfl, rfl, hlength, rfl,
      by rw [List.append_nil]⟩
  · have hpos := List.length_pos_iff.mpr hleft
    have hbyte : f.payload.length < 126 := by
      have hlt := f.length_lt
      rwa [hf.form] at hlt
    have hsum : got.length + left.length = f.payload.length := by rw [hpayload, List.length_append]
    have hne : f.payload ≠ [] := by
      rw [hpayload]
      exact List.append_ne_nil_of_right_ne_nil got hleft
    have hroom : ¬ (f.payload.length - got.length ≠ ctx.payloadLength) := by omega
    rw [if_neg (by omega), Frame.response, if_neg hne]
    dsimp only
    rw [if_neg hroom, hlength]
    have hbuffer : IsBufferSize left.length := by
      unfold IsBufferSize intMax
      omega
    obtain ⟨net', hread, hflatten, hless⟩ | ⟨data, net', hread, hdata, hle, hflatten, hless⟩ :=
      bioRead_cases hbuffer net
    · refine .inl ⟨hleft, net', ?_, hflatten, hless⟩
      rw [hread]
    · obtain ⟨left', rfl, hrest⟩ := exists_left (hnet.symm.trans hflatten) hle
      refine .inr ⟨data, left', { ctx with
        payloadLength := left'.length
        state := if left'.length = 0 then .opcodeAndFin else ctx.state
        responseStreamBuffer := some (f.payload.length, got ++ data) }, net', ?_, rfl, fun _ =>
          hdata, ?_, hrest, fun _ => hless⟩
      · rw [hread]
        obtain ⟨byte, more, rfl⟩ := List.exists_cons_of_ne_nil hdata
        dsimp only
        rw [Websocket.consume_eq (show (byte :: more ++ left').length < 2 ^ 64 by omega) rfl]
      · exact ⟨by rw [hpayload, List.append_assoc], rfl, rfl, rfl, rfl, (if_neg hne).symm⟩

/-- A round in the payload of a control frame: there is nothing to read, or a part of the payload is
read, or the frame is complete and answered. -/
inductive PayloadRound (keys : MaskingKeys) (f : Frame) (closeSent : Bool) (rest : List UInt8) (size : ℕ)
    (ctx : Websocket) (net : List (List UInt8)) (left : List UInt8) : Prop
  | waits {ctx' : Websocket} {net' : List (List UInt8)} (hleft : left ≠ [])
      (hanswer : websocketAnswer keys (ctx, net) = pure [])
      (hhandle : rdgWebsocketHandlePayload bioRead size ctx net = (.ok none, ctx', net'))
      (hawaits : ctx'.Awaits f closeSent left) (hnet : net'.flatten = left ++ rest)
      (hless : netSize net' ≤ netSize net - 1)
  | takes {ctx' : Websocket} {net' : List (List UInt8)} {left' : List UInt8} (hleft : left' ≠ [])
      (hanswer : websocketAnswer keys (ctx, net) = pure [])
      (hhandle : rdgWebsocketHandlePayload bioRead size ctx net = (.ok (some []), ctx', net'))
      (hawaits : ctx'.Awaits f closeSent left') (hlt : left'.length < left.length)
      (hnet : net'.flatten = left' ++ rest) (hless : netSize net' ≤ netSize net - 1)
  | answers {ctx' : Websocket} {net' : List (List UInt8)}
      (hanswer : websocketAnswer keys (ctx, net) = f.reply keys closeSent)
      (hhandle : rdgWebsocketHandlePayload bioRead size ctx net = (.ok (some []), ctx', net'))
      (hstate : ctx'.state = .opcodeAndFin) (hnet : net'.flatten = rest)

/-- The answer depends on the stream of the payload, and on whether a close has been sent. -/
theorem replyIn_eq (hpacket : ctx.packet = f.packet) (hsent : ctx.closeSent = closeSent) :
    f.replyIn keys ctx = f.reply keys closeSent := by
  unfold Frame.replyIn Frame.reply
  by_cases hping : f.IsPing
  · rw [if_pos hping, if_pos hping, Websocket.replyPong, hpacket, hsent]
  · rw [if_neg hping, if_neg hping, Websocket.replyClose, hpacket]

theorem packet_of_response (hresponse : ctx.responseStreamBuffer = f.response f.payload) :
    ctx.packet = f.packet := by
  unfold Websocket.packet Frame.packet
  rw [hresponse, Frame.response]
  split_ifs <;> rfl

/-- The next part of the payload is expected in the stream as it is. -/
theorem newResponse_of_response (hresponse : ctx.responseStreamBuffer = f.response got)
    (hne : f.payload ≠ []) : ctx.newResponse.responseStreamBuffer = f.response got := by
  rw [Frame.response, if_neg hne] at hresponse ⊢
  rw [Websocket.newResponse, hresponse]
  exact hresponse

theorem payloadRound (hf : f.IsControl) (hstate : ctx.state = .payload) (hopcode : ctx.opcode = f.head)
    (hpayload : f.payload = got ++ left) (hlength : ctx.payloadLength = left.length)
    (hresponse : ctx.newResponse.responseStreamBuffer = f.response got)
    (hsent : ctx.closeSent = closeSent) (hnet : net.flatten = left ++ rest) (size : ℕ) :
    PayloadRound keys f closeSent rest size ctx net left := by
  have hanswer : websocketAnswer keys (ctx, net) =
      websocketAnswerControl (f.replyIn keys) f.finish ctx net >>= fun r => pure r.1 := by
    rw [websocketAnswer, if_pos hstate, answerPayload_of_isControl hf hopcode]
  have hhandle : rdgWebsocketHandlePayload bioRead size ctx net =
      (websocketAnswerControl (f.replyIn keys) f.finish ctx net).value.2 := by
    rw [← value_answerPayload keys, answerPayload_of_isControl hf hopcode]
  unfold websocketAnswerControl at hanswer hhandle
  obtain ⟨hleft, net', hread, hflatten, hless⟩ | ⟨data, left', ctx', net', hread, rfl, hdata,
      htakes, hflatten, hless⟩ :=
    readWstream_cases hf hpayload hlength hresponse hnet
  · rw [hread] at hanswer hhandle
    refine .waits hleft hanswer hhandle ?_ (hflatten.trans hnet) hless
    have hsame : ctx.newResponse.state = ctx.state ∧ ctx.newResponse.opcode = ctx.opcode ∧
        ctx.newResponse.payloadLength = ctx.payloadLength ∧ ctx.newResponse.closeSent = ctx.closeSent := by
      unfold Websocket.newResponse
      cases ctx.responseStreamBuffer <;> exact ⟨rfl, rfl, rfl, rfl⟩
    obtain ⟨hstate', hopcode', hlength', hsent'⟩ := hsame
    refine .payload (hstate'.trans hstate) (hopcode'.trans hopcode) hpayload (hlength'.trans hlength) ?_
      (hsent'.trans hsent)
    refine newResponse_of_response hresponse ?_
    rw [hpayload]
    exact List.append_ne_nil_of_right_ne_nil got hleft
  · rw [hread] at hanswer hhandle
    dsimp only at hanswer hhandle
    obtain ⟨hpayload', hopcode', hsent', hlength', hstate', hresponse'⟩ := htakes
    by_cases hleft' : left' = []
    · subst hleft'
      rw [List.append_nil] at hpayload'
      have hzero : ctx'.payloadLength = 0 := hlength'
      refine .answers ?_ hhandle ?_ hflatten
      · rw [← hpayload'] at hresponse'
        have hreply : f.replyIn keys ctx' = f.reply keys closeSent :=
          replyIn_eq (packet_of_response hresponse') (hsent'.trans hsent)
        rw [hanswer, Websocket.answer, if_pos hzero, ← hreply]
        exact congrArg₂ Traced.mk rfl ((List.append_nil _).trans (List.append_nil _))
      · have hend : (ctx'.endResponse f.finish).state = ctx'.state := by
          unfold Websocket.endResponse Frame.finish
          split_ifs <;> rfl
        rw [hend, hstate']
        rfl
    · have hne : ctx'.payloadLength ≠ 0 :=
        fun h => hleft' (List.length_eq_zero_iff.mp (hlength'.symm.trans h))
      have hpos := List.length_pos_iff.mpr hleft'
      have hnil : data ++ left' ≠ [] := List.append_ne_nil_of_right_ne_nil data hleft'
      rw [Websocket.answer, if_neg hne] at hanswer hhandle
      rw [Websocket.endResponse, if_neg hne] at hhandle
      refine .takes hleft' hanswer hhandle ?_ ?_ hflatten (hless hnil)
      · refine .payload ?_ (hopcode'.trans hopcode) hpayload' hlength' ?_ (hsent'.trans hsent)
        · rw [hstate', if_neg (by omega), hstate]
        · refine newResponse_of_response hresponse' ?_
          rw [hpayload']
          exact List.append_ne_nil_of_right_ne_nil _ hleft'
      · have hdata' := List.length_pos_iff.mpr (hdata hnil)
        rw [List.length_append]
        omega

/-! ### Reads -/

/-- The frame has been read, and the bytes `rest` are behind it. -/
def FrameDone (rest : List UInt8) (s : WebsocketSource) : Prop :=
  s.1.state = .opcodeAndFin ∧ s.2.flatten.length = rest.length

instance (rest : List UInt8) : DecidablePred (FrameDone rest) :=
  fun _ => inferInstanceAs (Decidable (_ ∧ _))

/-- What reads do with a control frame: they stay inside and nothing is written back, or they reach its end,
when it has been answered. -/
inductive ReadsFrame (keys : MaskingKeys) (f : Frame) (closeSent : Bool) (rest : List UInt8) (size : ℕ) :
    WebsocketSource × List WebsocketSource → Prop
  | inside {s : WebsocketSource} {visits : List WebsocketSource} {left : List UInt8}
      (hawaits : s.1.Awaits f closeSent left) (hleft : left ≠ []) (hnet : s.2.flatten = left ++ rest)
      (hvisits : ∀ t ∈ visits, ¬ FrameDone rest t) (hanswers : websocketAnswers keys visits = pure [])
      (hless : netSize s.2 ≤ size) : ReadsFrame keys f closeSent rest size (s, visits)
  | done {s t : WebsocketSource} {visits visits' : List WebsocketSource} (hdone : FrameDone rest t)
      (hvisits : ∀ t ∈ visits, ¬ FrameDone rest t)
      (hanswers : websocketAnswers keys visits = f.reply keys closeSent) :
    ReadsFrame keys f closeSent rest size (s, visits ++ t :: visits')

/-- A round inside of the frame, and the rounds that follow it. -/
theorem ReadsFrame.cons {r : WebsocketSource × List WebsocketSource} {size' : ℕ}
    (h : ReadsFrame keys f closeSent rest size' r) (hs : ¬ FrameDone rest s)
    (hanswer : websocketAnswer keys s = pure []) (hle : size' ≤ size) :
    ReadsFrame keys f closeSent rest size (r.1, s :: r.2) := by
  cases h with
  | inside hawaits hleft hnet hvisits hanswers hless =>
    refine .inside hawaits hleft hnet (List.forall_mem_cons.mpr ⟨hs, hvisits⟩) ?_ (hless.trans hle)
    rw [websocketAnswers_cons hanswer, hanswers]
  | done hdone hvisits hanswers =>
    refine .done hdone (List.forall_mem_cons.mpr ⟨hs, hvisits⟩) ?_
    rw [websocketAnswers_cons hanswer, hanswers]

theorem exists_visits (rounds size : ℕ) (buffer : List UInt8) (ctx : Websocket) (net : List (List UInt8)) :
    ∃ visits, (websocketReadLoop (rounds + 1) size buffer ctx net).2.2 = (ctx, net) :: visits := by
  rw [websocketReadLoop]
  exact ⟨_, rfl⟩

theorem lengthBytes_of_isControl (hf : f.IsControl) : f.lengthBytes = [UInt8.ofNat f.payload.length] := by
  rw [Frame.lengthBytes, hf.form]

/-- The length of a control frame, and what is expected behind it. -/
theorem Websocket.Awaits.takeLength (hf : f.IsControl) (hopcode : ctx.opcode = f.head)
    (hresponse : ctx.responseStreamBuffer = none) (hsent : ctx.closeSent = closeSent) :
    (ctx.takeLength (UInt8.ofNat f.payload.length)).Awaits f closeSent f.payload := by
  have hbyte : f.payload.length < 126 := by
    have hlt := f.length_lt
    rwa [hf.form] at hlt
  obtain ⟨hmasking, hshort, hvalue⟩ := lengthByte hbyte
  have hmask : decide (UInt8.ofNat f.payload.length &&& 0x80 = 0x80) = false := decide_eq_false hmasking
  rw [Websocket.takeLength]
  dsimp only
  rw [if_pos hshort, hvalue, hmask]
  refine .payload rfl hopcode (List.nil_append f.payload).symm rfl ?_ hsent
  unfold Websocket.newResponse Frame.response
  dsimp only
  rw [hresponse]
  dsimp only
  by_cases hnil : f.payload = []
  · rw [if_pos (List.length_eq_zero_iff.mpr hnil), if_pos hnil]
  · rw [if_neg fun h => hnil (List.length_eq_zero_iff.mp h), if_neg hnil]

/-- The loop stays inside of a control frame, or answers it. -/
theorem websocketReadLoop_answers (hf : f.IsControl) {buffer : List UInt8}
    (hs : ctx.Awaits f closeSent left) (hnet : net.flatten = left ++ rest) (hsize : 0 < size)
    (hrounds : 2 * left.length + ctx.pause < rounds) :
    ReadsFrame keys f closeSent rest (netSize net - 1)
      (websocketReadLoop rounds size buffer ctx net).2 := by
  induction rounds generalizing buffer ctx net left with
  | zero => exact absurd hrounds (Nat.not_lt_zero _)
  | succ rounds ih =>
    have hpause (ctx : Websocket) := ctx.pause_le
    cases hs with
    | opcode hstate hresponse hsent =>
      have hinside : ¬ FrameDone rest (ctx, net) := by
        rintro ⟨-, hlength⟩
        rw [hnet, List.length_append, List.length_cons] at hlength
        omega
      have hanswer : websocketAnswer keys (ctx, net) = pure [] :=
        websocketAnswer_of_ne (by rw [hstate]; decide)
      rw [websocketReadLoop_opcodeAndFin _ _ _ _ hstate]
      obtain ⟨net', hread, hflatten, hless⟩ | ⟨byte, net', hread, hflatten, hless⟩ := bioRead_one net
      · rw [hread]
        refine .inside (.opcode hstate hresponse hsent) (List.cons_ne_nil _ _) (hflatten.trans hnet)
          (List.forall_mem_singleton.mpr hinside) ?_ hless
        rw [websocketAnswers_singleton, hanswer]
      · obtain ⟨rfl, hrest⟩ := List.cons.inj (hnet.symm.trans hflatten)
        rw [hread]
        have hnext : (ctx.takeOpcode f.head).Awaits f closeSent (f.lengthBytes ++ f.payload) :=
          .length rfl rfl hresponse hsent
        refine (ih hnext hrest.symm ?_).cons hinside hanswer (show netSize net' - 1 ≤ _ by omega)
        have hle := hpause (ctx.takeOpcode f.head)
        rw [List.length_cons] at hrounds
        omega
    | length hstate hopcode hresponse hsent =>
      have hinside : ¬ FrameDone rest (ctx, net) := fun h => absurd (hstate.symm.trans h.1) (by decide)
      have hanswer : websocketAnswer keys (ctx, net) = pure [] :=
        websocketAnswer_of_ne (by rw [hstate]; decide)
      rw [websocketReadLoop_lengthAndMasking _ _ _ _ hstate]
      rw [lengthBytes_of_isControl hf] at hnet hrounds
      obtain ⟨net', hread, hflatten, hless⟩ | ⟨byte, net', hread, hflatten, hless⟩ := bioRead_one net
      · rw [hread]
        refine .inside (.length hstate hopcode hresponse hsent) ?_ ?_
          (List.forall_mem_singleton.mpr hinside) ?_ hless
        · rw [lengthBytes_of_isControl hf]
          exact List.cons_ne_nil _ _
        · rw [lengthBytes_of_isControl hf]
          exact hflatten.trans hnet
        · rw [websocketAnswers_singleton, hanswer]
      · obtain ⟨rfl, hrest⟩ := List.cons.inj (hnet.symm.trans hflatten)
        rw [hread]
        have hnext := Websocket.Awaits.takeLength hf hopcode hresponse hsent
        refine (ih hnext hrest.symm ?_).cons hinside hanswer (show netSize net' - 1 ≤ _ by omega)
        have hle := hpause (ctx.takeLength (UInt8.ofNat f.payload.length))
        rw [List.length_append, List.length_singleton] at hrounds
        omega
    | @payload got _ hstate hopcode hpayload hlength hresponse hsent =>
      have hinside : ¬ FrameDone rest (ctx, net) := fun h => absurd (hstate.symm.trans h.1) (by decide)
      rw [websocketReadLoop_payload _ _ _ _ hstate]
      have hround : PayloadRound keys f closeSent rest size ctx net left :=
        payloadRound hf hstate hopcode hpayload hlength hresponse hsent hnet size
      cases hround with
      | waits hleft hanswer hhandle hawaits hnet' hless =>
        rw [hhandle]
        refine .inside hawaits hleft hnet' (List.forall_mem_singleton.mpr hinside) ?_ hless
        rw [websocketAnswers_singleton, hanswer]
      | @takes ctx' net' left' hleft hanswer hhandle hawaits hlt hnet' hless =>
        rw [hhandle]
        dsimp only
        rw [if_neg (by rw [List.length_nil]; omega)]
        refine (ih hawaits hnet' ?_).cons hinside hanswer (show netSize net' - 1 ≤ _ by omega)
        have hle := hpause ctx'
        omega
      | @answers ctx' net' hanswer hhandle hstate' hnet' =>
        rw [hhandle]
        dsimp only
        rw [if_neg (by rw [List.length_nil]; omega)]
        have hpos : 0 < 2 * left.length + ctx.pause := by
          unfold Websocket.pause
          split_ifs with hzero
          · omega
          · have hne : ctx.payloadLength ≠ 0 := fun h => hzero ⟨hstate, h⟩
            omega
        obtain ⟨rounds, rfl⟩ := Nat.exists_eq_add_of_lt (by omega : 0 < rounds)
        obtain ⟨visits, hvisits⟩ :=
          exists_visits (0 + rounds) (size - ([] : List UInt8).length) (buffer ++ []) ctx' net'
        unfold visit
        rw [hvisits]
        have hone : websocketAnswers keys [(ctx, net)] = f.reply keys closeSent := by
          rw [websocketAnswers_singleton, hanswer]
        exact .done ⟨hstate', by rw [hnet']⟩ (List.forall_mem_singleton.mpr hinside) hone

/-- The rounds until a frame has been read. -/
def frameVisits (rest : List UInt8) (sizes : List ℕ) (s : WebsocketSource) : List WebsocketSource :=
  (websocketVisits sizes s).takeWhile fun t => ¬ FrameDone rest t

/-- When everything has been delivered, the frame has been answered. -/
theorem websocketAnswers_frameVisits (hf : f.IsControl) (hs : s.1.Awaits f closeSent left)
    (hleft : left ≠ []) (hnet : s.2.flatten = left ++ rest) (hsizes : ∀ size ∈ sizes, 0 < size)
    (hreads : netSize s.2 ≤ sizes.length) :
    websocketAnswers keys (frameVisits rest sizes s) = f.reply keys closeSent := by
  induction sizes generalizing s left with
  | nil =>
    rw [netSize_eq_zero (Nat.le_zero.mp hreads)] at hnet
    exact absurd (List.append_eq_nil_iff.mp hnet.symm).1 hleft
  | cons size sizes ih =>
    obtain ⟨hsize, hsizes'⟩ := List.forall_mem_cons.mp hsizes
    have hrounds : 2 * left.length + s.1.pause < 2 * s.2.flatten.length + 2 := by
      have hle := s.1.pause_le
      rw [hnet, List.length_append]
      omega
    have hloop : ReadsFrame keys f closeSent rest (netSize s.2 - 1) (rdgWebsocketReadVisits size s).2 :=
      websocketReadLoop_answers hf hs hnet hsize hrounds
    have hvisits : websocketVisits (size :: sizes) s =
        (rdgWebsocketReadVisits size s).2.2 ++ websocketVisits sizes
        (rdgWebsocketReadVisits size s).2.1 := rfl
    unfold frameVisits
    rw [hvisits]
    change ReadsFrame keys f closeSent rest (netSize s.2 - 1) (rdgWebsocketReadVisits size s).2 at hloop
    generalize (rdgWebsocketReadVisits size s).2 = r at hloop ⊢
    cases hloop with
    | inside hawaits hleft' hnet' hinside hanswers hless =>
      rw [List.takeWhile_append_of_pos fun t ht => decide_eq_true (hinside t ht),
        websocketAnswers_append hanswers]
      rw [List.length_cons] at hreads
      exact ih hawaits hleft' hnet' hsizes' (by dsimp only; omega)
    | done hdone hinside hanswers =>
      rw [List.append_assoc, List.takeWhile_append_of_pos fun t ht => decide_eq_true (hinside t ht),
        List.cons_append,
        List.takeWhile_cons_of_neg (by rw [decide_eq_true_iff]; exact not_not_intro hdone),
          List.append_nil, hanswers]

/-! ### Answers -/

/-- The byte lies within the capacity of its stream. -/
def StreamAccess.InCapacity : StreamAccess → Prop
  | .packet i capacity => i < capacity
  | .frame i capacity => i < capacity

/-- What the frame asks for: a pong with its payload, or a close with its status. -/
def Frame.answer (f : Frame) : ℕ × List UInt8 :=
  if f.IsPing then (0x80 + 0xA, f.payload)
  else (0x80 + 0x8, if f.payload.length < 2 then [] else f.payload.take 2)

/-- What is written back is the answer, in one masked frame; but there is none to a ping when a close
has been sent.  No byte is outside of its stream. -/
structure AnswersProperly (keys : MaskingKeys) (f : Frame) (closeSent : Bool)
    (visits : List WebsocketSource) :
    Prop where
  inCapacity : (websocketAnswers keys visits).Safe StreamAccess.InCapacity
  answered :
    if f.IsPing ∧ closeSent = true then (websocketAnswers keys visits).value = []
    else ∃ frame, (websocketAnswers keys visits).value = [frame] ∧ maskedFrame frame = some (f.answer, [])

/-- A frame fills the stream that is made for it. -/
theorem length_frame {key : UInt32} {opcode : UInt8} {payload : List UInt8} :
    (websocketHeader opcode payload.length key ++ maskBytes key 0 payload).length =
      websocketFullLen payload.length := by
  have hkey : (write32 key).length = 4 := rfl
  unfold websocketHeader websocketFullLen
  rw [List.length_append, List.length_cons, List.length_append, hkey, length_maskBytes]
  split_ifs
  · rw [List.length_singleton]
    omega
  · have hlength : (Wire.be16 payload.length).length = 2 := rfl
    rw [List.length_cons, hlength]
    omega
  · have hlength : (Wire.be32 0 ++ Wire.be32 payload.length).length = 8 := rfl
    rw [List.length_cons, hlength]
    omega

theorem safe_writeFrame {frame : List UInt8} {capacity : ℕ} (h : frame.length ≤ capacity) :
    (writeFrame frame capacity).Safe StreamAccess.InCapacity := by
  intro a ha
  obtain ⟨i, hi, rfl⟩ := List.mem_map.mp ha
  exact (List.mem_range.mp hi).trans_le h

theorem safe_readPacket {count : ℕ} {packet : SealedStream} (h : count ≤ packet.capacity) :
    (readPacket count packet).Safe StreamAccess.InCapacity := by
  intro a ha
  obtain ⟨i, hi, rfl⟩ := List.mem_map.mp ha
  exact (List.mem_range.mp hi).trans_le h

theorem replyPong_spec (key : UInt32) (hf : f.IsControl) :
    (rdgWebsocketReplyPong key f.packet).Safe StreamAccess.InCapacity ∧
      (rdgWebsocketReplyPong key f.packet).value =
        some (websocketHeader websocketPongOpcode f.payload.length key ++ maskBytes key 0 f.payload) := by
  have hbyte : f.payload.length < 126 := by
    have hlt := f.length_lt
    rwa [hf.form] at hlt
  have hle : f.payload.length ≤ intMax := by
    unfold intMax
    omega
  unfold Frame.packet
  split_ifs with hnil
  · have hshort : ([] : List UInt8).length < 126 := by decide
    refine ⟨(safe_bind _ _).mpr ⟨safe_writeFrame (Nat.le_refl 6), (safe_pure _).mpr trivial⟩, ?_⟩
    rw [hnil, websocketHeader, if_pos hshort, maskBytes, List.append_nil]
    rfl
  · refine ⟨?_, rdgWriteWebsocket_value hle⟩
    rw [rdgWebsocketReplyPong, rdgWriteWebsocket, if_neg (Nat.not_lt.mpr hle), maskPayload_eq _ rfl]
    have hread : (readPacket f.payload.length ⟨f.payload, f.payload.length⟩).Safe StreamAccess.InCapacity :=
      safe_readPacket (Nat.le_refl f.payload.length)
    refine (safe_bind _ _).mpr ⟨hread, (safe_bind _ _).mpr ⟨?_, (safe_pure _).mpr trivial⟩⟩
    exact safe_writeFrame length_frame.le

theorem first_of_maskedFrame {byte : UInt8} {frame payload bytes : List UInt8} {first : ℕ}
    (h : maskedFrame (byte :: frame) = some ((first, payload), bytes)) : first = byte.toNat := by
  simp only [maskedFrame, Wire.bind_apply, Wire.pure_apply, Option.bind_eq_some_iff] at h
  obtain ⟨p, hfirst, _, -, _, -, _, -, _, -, _, -, h⟩ := h
  obtain rfl := Option.some.inj hfirst
  exact (Prod.mk.inj (Prod.mk.inj (Option.some.inj h)).1).1.symm

theorem answersProperly_of_isPing (hf : f.IsControl) (hping : f.IsPing)
    (hanswers : websocketAnswers keys visits = f.reply keys closeSent) :
    AnswersProperly keys f closeSent visits := by
  obtain ⟨hsafe, hvalue⟩ := replyPong_spec keys.maskingKey hf
  cases closeSent with
  | true =>
    have hreply : f.reply keys true = pure [] := by
      rw [Frame.reply, if_pos hping, if_pos rfl]
    rw [hreply] at hanswers
    refine ⟨?_, ?_⟩
    · rw [hanswers]
      exact (safe_pure _).mpr trivial
    · rw [if_pos ⟨hping, rfl⟩, hanswers]
      rfl
  | false =>
    have hreply : f.reply keys false =
        (do
          let frame ← rdgWebsocketReplyPong keys.maskingKey f.packet
          return frame.toList) := by
      rw [Frame.reply, if_pos hping, if_neg Bool.false_ne_true]
    rw [hreply] at hanswers
    refine ⟨?_, ?_⟩
    · rw [hanswers]
      exact (safe_bind _ _).mpr ⟨hsafe, (safe_pure _).mpr trivial⟩
    · rw [if_neg fun h => Bool.false_ne_true h.2, hanswers]
      have hbyte : f.payload.length < 126 := by
        have hlt := f.length_lt
        rwa [hf.form] at hlt
      have hle : f.payload.length ≤ intMax := by
        unfold intMax
        omega
      have hread : maskedFrame (websocketHeader websocketPongOpcode f.payload.length keys.maskingKey ++
          maskBytes keys.maskingKey 0 f.payload ++ []) =
            some (((websocketFinBit ||| websocketPongOpcode).toNat, f.payload), []) :=
        reads_maskedFrame hle []
      rw [List.append_nil] at hread
      refine ⟨websocketHeader websocketPongOpcode f.payload.length keys.maskingKey ++
        maskBytes keys.maskingKey 0 f.payload, ?_, ?_⟩
      · rw [value_bind, hvalue]
        rfl
      · rw [hread, Frame.answer, if_pos hping]
        rfl

/-- A close is answered by a frame with the opcode of a pong. -/
theorem not_answersProperly_close (hping : ¬ f.IsPing)
    (hanswers : websocketAnswers keys visits = f.reply keys closeSent) :
    ¬ AnswersProperly keys f closeSent visits := by
  intro h
  have hanswered := h.answered
  rw [if_neg fun h => hping h.1, hanswers, Frame.reply, if_neg hping] at hanswered
  obtain ⟨frame, hframe, hread⟩ := hanswered
  obtain rfl := (List.cons.inj hframe).1
  rw [Frame.answer, if_neg hping] at hread
  exact absurd (first_of_maskedFrame hread) (by decide)

/-- In whatever pieces a control frame with at most 125 bytes arrives, and whatever comes behind it: it is
answered properly if and only if it is a ping. -/
theorem answersProperly_iff (keys : MaskingKeys) (hf : f.IsControl) (hstate : ctx.state = .opcodeAndFin)
    (hresponse : ctx.responseStreamBuffer = none) (hnet : net.flatten = f.encode ++ rest)
    (hsizes : ∀ size ∈ sizes, 0 < size) (hreads : netSize net ≤ sizes.length) :
    AnswersProperly keys f ctx.closeSent (frameVisits rest sizes (ctx, net)) ↔ f.IsPing := by
  have hanswers : websocketAnswers keys (frameVisits rest sizes (ctx, net)) = f.reply keys ctx.closeSent :=
    websocketAnswers_frameVisits hf (.opcode hstate hresponse rfl) (List.cons_ne_nil _ _) hnet hsizes hreads
  constructor
  · intro h
    by_contra hping
    exact not_answersProperly_close hping hanswers h
  · exact fun hping => answersProperly_of_isPing hf hping hanswers

/-- A ping in three pieces. -/
theorem answersProperly_ping :
    AnswersProperly ⟨0x01020304, 0, 0⟩ ⟨0x89, .byte, [1, 2, 3, 4, 5], by decide⟩ false
      (frameVisits [] (List.replicate 16 100) (Websocket.zero, [[0x89], [5, 1, 2], [], [3, 4, 5]])) := by
  have hping : Frame.IsPing ⟨0x89, .byte, [1, 2, 3, 4, 5], by decide⟩ := rfl
  have hnet : [[0x89], [5, 1, 2], [], [3, 4, 5]].flatten =
      Frame.encode ⟨0x89, .byte, [1, 2, 3, 4, 5], by decide⟩ ++ [] := rfl
  have hsizes : ∀ size ∈ List.replicate 16 100, 0 < size := by decide
  have hreply := answersProperly_iff ⟨0x01020304, 0, 0⟩ ⟨.inl hping, rfl⟩
    (show Websocket.zero.state = .opcodeAndFin from rfl) rfl hnet hsizes (by decide)
  exact hreply.mpr hping

/-- A close with a status. -/
theorem not_answersProperly_status :
    ¬ AnswersProperly ⟨0x01020304, 0x0102, 0x0304⟩ ⟨0x88, .byte, [3, 0xE8], by decide⟩ false
      (frameVisits [] (List.replicate 8 100) (Websocket.zero, [[0x88, 2, 3, 0xE8]])) := by
  refine not_answersProperly_close (by decide) ?_
  refine websocketAnswers_frameVisits ⟨.inr rfl, rfl⟩ (.opcode rfl rfl rfl)
    (List.cons_ne_nil _ _) rfl (by decide) (by decide)

end FreeRDP.Gateway
