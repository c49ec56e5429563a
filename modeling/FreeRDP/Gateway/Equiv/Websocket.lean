import FreeRDP.Gateway.Websocket

/-!
# Frames that arrive in pieces

`Websocket.Decodes ctx stream todo`: the context has read the beginning of some frames, `stream` is the
rest of them, and `todo` is the binary data that has not been returned yet.

A round of the reader keeps this (`websocketReadLoop_spec`) if it reads inside of the frame
(`WebsocketSource.ReadsInside`).  A frame that is dropped is read in pieces of up to 256 bytes, whatever its
length is, and so the bytes of the next frames may be dropped as well (`websocket_read_dropped`).
-/

namespace FreeRDP.Gateway

variable {ctx : Websocket} {net : List (List UInt8)} {rest stream todo data left buffer : List UInt8}
  {size n k : ℕ}

/-! ### Frames -/

/-- The three forms of a length. -/
inductive LengthForm
  | byte
  | short
  | long
deriving DecidableEq, Repr

/-- The number of lengths that a form has. -/
def LengthForm.bound : LengthForm → ℕ
  | .byte => 126
  | .short => 2 ^ 16
  | .long => 2 ^ 64

/-- A frame without a masking key: its first byte, the form of its length, and its payload. -/
structure Frame where
  head : UInt8
  form : LengthForm
  payload : List UInt8
  length_lt : payload.length < form.bound

/-- `k` bytes of a number, the highest one first. -/
def beBytes : ℕ → ℕ → List UInt8
  | 0, _ => []
  | k + 1, n => UInt8.ofNat (n / 2 ^ (8 * k)) :: beBytes k n

def Frame.lengthBytes (f : Frame) : List UInt8 :=
  match f.form with
  | .byte => [UInt8.ofNat f.payload.length]
  | .short => 126 :: beBytes 2 f.payload.length
  | .long => 127 :: beBytes 8 f.payload.length

def Frame.encode (f : Frame) : List UInt8 := f.head :: (f.lengthBytes ++ f.payload)

/-- The payload of the binary frames and of their continuations, where `fragment` is the last frame that has
begun a message. -/
def binaryData : UInt8 → List Frame → List UInt8
  | _, [] => []
  | fragment, f :: fs =>
    let opcode := f.head &&& 0xf
    let fragment := if opcode ≠ websocketContinuationOpcode ∧ opcode < 0x08 then f.head else fragment
    let effective := if opcode = websocketContinuationOpcode then fragment &&& 0xf else opcode
    (if effective = websocketBinaryOpcode then f.payload else []) ++ binaryData fragment fs

/-! ### States -/

/-- What is returned of the payload of the current frame. -/
def Websocket.frameData (ctx : Websocket) (payload : List UInt8) : List UInt8 :=
  if ctx.effectiveOpcode = websocketBinaryOpcode then payload else []

/-- The current frame is a ping or a close. -/
def Websocket.IsControl (ctx : Websocket) : Prop :=
  ctx.effectiveOpcode = websocketPingOpcode ∨ ctx.effectiveOpcode = websocketCloseOpcode

instance (ctx : Websocket) : Decidable ctx.IsControl := inferInstanceAs (Decidable (_ ∨ _))

/-- A context that has read a part of a stream of frames, the rest of the stream, and the data that is
still to be returned. -/
inductive Websocket.Decodes : Websocket → List UInt8 → List UInt8 → Prop
  | opcodeAndFin {ctx : Websocket} (fs : List Frame) (hstate : ctx.state = .opcodeAndFin)
      (hresponse : ctx.responseStreamBuffer = none) :
    Decodes ctx (fs.flatMap Frame.encode) (binaryData ctx.fragmentOriginalOpcode fs)
  | lengthAndMasking {ctx : Websocket} (f : Frame) (fs : List Frame)
      (hstate : ctx.state = .lengthAndMasking)
      (hresponse : ctx.responseStreamBuffer = none) :
    Decodes ctx (f.lengthBytes ++ f.payload ++ fs.flatMap Frame.encode)
      (ctx.frameData f.payload ++ binaryData ctx.fragmentOriginalOpcode fs)
  | length {ctx : Websocket} {lenLength k : ℕ} {payload : List UInt8} (fs : List Frame)
      (hstate : ctx.state = .shortLength ∧ lenLength = 2 ∨ ctx.state = .longLength ∧ lenLength = 8)
      (hresponse : ctx.responseStreamBuffer = none) (hmasking : ctx.masking = false)
      (hlt : payload.length < 2 ^ 64) (hk : 0 < k) (hpos : ctx.lengthAndMaskPosition + k = lenLength)
      (hvalue : ctx.payloadLength = payload.length / 2 ^ (8 * k)) :
    Decodes ctx (beBytes k payload.length ++ payload ++ fs.flatMap Frame.encode)
      (ctx.frameData payload ++ binaryData ctx.fragmentOriginalOpcode fs)
  | payload {ctx : Websocket} {left : List UInt8} (fs : List Frame) (hstate : ctx.state = .payload)
      (hresponse : ctx.responseStreamBuffer = none ∨ ctx.IsControl ∧ left ≠ [] ∧
        ∃ got, ctx.responseStreamBuffer = some (got.length + left.length, got))
      (hlt : left.length < 2 ^ 64) (hlength : ctx.payloadLength = left.length) :
    Decodes ctx (left ++ fs.flatMap Frame.encode)
      (ctx.frameData left ++ binaryData ctx.fragmentOriginalOpcode fs)

/-- In a payload, the next read takes no byte behind the frame, and its length is a positive `int`. -/
def WebsocketSource.ReadsInside (s : WebsocketSource) : Prop :=
  s.1.state = .payload → s.1.payloadLength ≠ 0 →
    if s.1.effectiveOpcode = websocketBinaryOpcode then True
    else if s.1.IsControl then IsBufferSize (s.1.payloadLength % 2 ^ 32)
    else ((bioRead 256 s.2).1.getD []).length ≤ s.1.payloadLength

instance (s : WebsocketSource) : Decidable s.ReadsInside :=
  inferInstanceAs (Decidable (_ = _ → _ ≠ _ → ite _ _ _))

/-! ### Payload -/

/-- What does not change while a frame is read. -/
theorem Websocket.consume_eq (hlt : (data ++ left).length < 2 ^ 64)
    (hlength : ctx.payloadLength = (data ++ left).length) :
    ctx.consume data.length =
      { ctx with
        payloadLength := left.length
        state := if left.length = 0 then .opcodeAndFin else ctx.state } := by
  have hsub : (ctx.payloadLength + (2 ^ 64 - data.length)) % 2 ^ 64 = left.length := by
    rw [List.length_append] at hlt hlength
    omega
  unfold Websocket.consume
  dsimp only
  rw [hsub]

theorem Websocket.frameData_append (ctx : Websocket) (data left : List UInt8) :
    ctx.frameData (data ++ left) = ctx.frameData data ++ ctx.frameData left := by
  unfold Websocket.frameData
  split
  · rfl
  · rfl

theorem Websocket.frameData_nil (ctx : Websocket) : ctx.frameData [] = [] := by
  unfold Websocket.frameData
  exact ite_self []

/-- A part of the payload has been read. -/
theorem Websocket.Decodes.took {response : Option (ℕ × List UInt8)} (fs : List Frame)
    (hstate : ctx.state = .payload) (hlt : left.length < 2 ^ 64)
    (hresponse : response = none ∨ ctx.IsControl ∧ left ≠ [] ∧
      ∃ got, response = some (got.length + left.length, got)) :
    Websocket.Decodes
      { ctx with
        payloadLength := left.length
        state := if left.length = 0 then .opcodeAndFin else ctx.state
        responseStreamBuffer := response }
      (left ++ fs.flatMap Frame.encode)
      (ctx.frameData left ++ binaryData ctx.fragmentOriginalOpcode fs) := by
  by_cases hleft : left.length = 0
  · obtain rfl := List.length_eq_zero_iff.mp hleft
    rw [ctx.frameData_nil]
    exact .opcodeAndFin fs rfl (hresponse.resolve_right fun h => h.2.1 rfl)
  · rw [if_neg hleft]
    exact .payload fs hstate hresponse hlt rfl

/-- What a round in a payload does: there is nothing to read, or the frame is at its end, or a part of the
payload is taken. -/
def TakesPayload (size : ℕ) (ctx : Websocket) (net : List (List UInt8)) (todo : List UInt8)
    (r : ReadStatus × WebsocketSource) : Prop :=
  (∃ ctx' net', r = (.ok none, ctx', net') ∧ ctx'.Decodes net'.flatten todo ∧
    netSize net' ≤ netSize net - 1) ∨
  ∃ data todo' ctx' net', r = (.ok (some data), ctx', net') ∧ todo = data ++ todo' ∧ data.length ≤ size ∧
    ctx'.Decodes net'.flatten todo' ∧
    (data = [] ∧ ctx.payloadLength = 0 ∧ ctx'.state = .opcodeAndFin ∧ net' = net ∨
      net'.flatten.length < net.flatten.length ∧ netSize net' ≤ netSize net - 1)

theorem exists_left {tail tail' : List UInt8} (h : left ++ tail = data ++ tail')
    (hle : data.length ≤ left.length) :
    ∃ left', left = data ++ left' ∧ tail' = left' ++ tail := by
  obtain ⟨left', rfl⟩ : data <+: left :=
    List.prefix_of_prefix_length_le ⟨tail', h.symm⟩ (List.prefix_append _ _) hle
  rw [List.append_assoc] at h
  exact ⟨left', rfl, (List.append_cancel_left h).symm⟩

theorem length_flatten_lt {net' : List (List UInt8)} (hne : data ≠ [])
    (h : net.flatten = data ++ net'.flatten) :
    net'.flatten.length < net.flatten.length := by
  have hpos := List.length_pos_iff.mpr hne
  rw [h, List.length_append]
  omega

theorem handle_binary (fs : List Frame) (hstate : ctx.state = .payload)
    (hresponse : ctx.responseStreamBuffer = none) (hlt : left.length < 2 ^ 64)
    (hlength : ctx.payloadLength = left.length) (hnet : net.flatten = left ++ fs.flatMap Frame.encode)
    (hsize : IsBufferSize size) (hopcode : ctx.effectiveOpcode = websocketBinaryOpcode) :
    TakesPayload size ctx net (ctx.frameData left ++ binaryData ctx.fragmentOriginalOpcode fs)
      (rdgWebsocketHandlePayload bioRead size ctx net) := by
  rw [rdgWebsocketHandlePayload, if_pos hopcode, rdgWebsocketReadData]
  by_cases hzero : ctx.payloadLength = 0
  · obtain rfl := List.length_eq_zero_iff.mp (hlength.symm.trans hzero)
    rw [if_pos hzero, ctx.frameData_nil]
    refine .inr ⟨[], _, _, net, rfl, rfl, Nat.zero_le _, ?_, .inl ⟨rfl, hzero, rfl, rfl⟩⟩
    rw [hnet]
    exact .opcodeAndFin fs rfl hresponse
  · rw [if_neg hzero]
    have hmin : IsBufferSize (if ctx.payloadLength < size then ctx.payloadLength else size) := by
      obtain ⟨hsize, hsize'⟩ := hsize
      split
      · exact ⟨Nat.pos_of_ne_zero hzero, by omega⟩
      · exact ⟨hsize, hsize'⟩
    obtain ⟨net', hread, hflatten, hless⟩ | ⟨data, net', hread, hne, hle, hflatten, hless⟩ :=
      bioRead_cases hmin net
    · rw [hread]
      refine .inl ⟨ctx, net', rfl, ?_, hless⟩
      rw [hflatten, hnet]
      exact .payload fs hstate (.inl hresponse) hlt hlength
    · have hle' : data.length ≤ left.length ∧ data.length ≤ size := by
        rw [hlength] at hle
        split at hle <;> omega
      obtain ⟨left', rfl, hrest⟩ := exists_left (hnet.symm.trans hflatten) hle'.1
      rw [hread]
      match data, hne with
      | byte :: data, hne =>
        have hdata : ctx.frameData (byte :: data) = byte :: data := if_pos hopcode
        refine .inr ⟨byte :: data, ctx.frameData left' ++ binaryData ctx.fragmentOriginalOpcode fs,
          _, net', rfl, ?_, hle'.2, ?_, .inr ⟨length_flatten_lt hne hflatten, hless⟩⟩
        · rw [ctx.frameData_append, hdata, List.append_assoc]
        · rw [Websocket.consume_eq hlt hlength, hrest]
          exact .took fs hstate (by rw [List.length_append] at hlt; omega) (.inl hresponse)

/-- A frame that is dropped, when nothing behind it is read. -/
theorem handle_dropped (fs : List Frame) (hstate : ctx.state = .payload)
    (hresponse : ctx.responseStreamBuffer = none) (hlt : left.length < 2 ^ 64)
    (hlength : ctx.payloadLength = left.length) (hnet : net.flatten = left ++ fs.flatMap Frame.encode)
    (hbinary : ctx.effectiveOpcode ≠ websocketBinaryOpcode) (hcontrol : ¬ctx.IsControl)
    (hinside : WebsocketSource.ReadsInside (ctx, net)) :
    TakesPayload size ctx net (ctx.frameData left ++ binaryData ctx.fragmentOriginalOpcode fs)
      (rdgWebsocketHandlePayload bioRead size ctx net) := by
  have hnone (payload : List UInt8) : ctx.frameData payload = [] := if_neg hbinary
  rw [rdgWebsocketHandlePayload, if_neg hbinary, if_neg (not_or.mp hcontrol).1,
    if_neg (not_or.mp hcontrol).2, websocketReadDropped, rdgWebsocketReadDiscard, hnone, List.nil_append]
  by_cases hzero : ctx.payloadLength = 0
  · obtain rfl := List.length_eq_zero_iff.mp (hlength.symm.trans hzero)
    rw [if_pos hzero]
    refine .inr ⟨[], _, _, net, rfl, rfl, Nat.zero_le _, ?_, .inl ⟨rfl, hzero, rfl, rfl⟩⟩
    rw [hnet]
    exact .opcodeAndFin fs rfl hresponse
  · rw [if_neg hzero]
    have hread' := hinside hstate hzero
    rw [if_neg hbinary, if_neg hcontrol] at hread'
    obtain ⟨net', hread, hflatten, hless⟩ | ⟨data, net', hread, hne, -, hflatten, hless⟩ :=
      bioRead_cases (show IsBufferSize 256 from by decide) net
    · rw [hread]
      refine .inl ⟨ctx, net', rfl, ?_, hless⟩
      have hsame := Websocket.Decodes.payload fs hstate (.inl hresponse) hlt hlength
      rwa [hnone, List.nil_append, ← hnet, ← hflatten] at hsame
    · rw [hread] at hread'
      have hle : data.length ≤ left.length := hlength ▸ hread'
      obtain ⟨left', rfl, hrest⟩ := exists_left (hnet.symm.trans hflatten) hle
      rw [hread]
      match data, hne with
      | byte :: data, hne =>
        refine .inr ⟨[], _, _, net', rfl, rfl, Nat.zero_le _, ?_,
          .inr ⟨length_flatten_lt hne hflatten, hless⟩⟩
        have htook := Websocket.Decodes.took fs hstate
          (by rw [List.length_append] at hlt; omega : left'.length < 2 ^ 64) (.inl hresponse)
        rwa [hnone, List.nil_append, ← Websocket.consume_eq hlt hlength, ← hrest] at htook

theorem Websocket.Decodes.finished {finish : Websocket → Websocket} (fs : List Frame)
    (hfinish : ∀ ctx : Websocket, (finish ctx).state = ctx.state ∧
      (finish ctx).fragmentOriginalOpcode = ctx.fragmentOriginalOpcode)
    (hstate : ctx.state = .opcodeAndFin) :
    Websocket.Decodes { finish ctx with responseStreamBuffer := none } (fs.flatMap Frame.encode)
      (binaryData ctx.fragmentOriginalOpcode fs) := by
  have hdata : binaryData (finish ctx).fragmentOriginalOpcode fs =
      binaryData ctx.fragmentOriginalOpcode fs := by
    rw [(hfinish ctx).2]
  rw [← hdata]
  exact .opcodeAndFin fs ((hfinish ctx).1.trans hstate) rfl

/-- The response of a control frame that is not complete. -/
theorem handleControl_spec (finish : Websocket → Websocket) (fs : List Frame)
    (hstate : ctx.state = .payload)
    (hcontrol : ctx.IsControl) (hbinary : ctx.effectiveOpcode ≠ websocketBinaryOpcode)
    (hresponse : ctx.responseStreamBuffer = none ∨ left ≠ [] ∧
      ∃ got, ctx.responseStreamBuffer = some (got.length + left.length, got))
    (hlt : left.length < 2 ^ 64)
    (hlength : ctx.payloadLength = left.length) (hnet : net.flatten = left ++ fs.flatMap Frame.encode)
    (hsize : ctx.payloadLength ≠ 0 → IsBufferSize (ctx.payloadLength % 2 ^ 32))
    (hfinish : ∀ ctx : Websocket, (finish ctx).state = ctx.state ∧
      (finish ctx).fragmentOriginalOpcode = ctx.fragmentOriginalOpcode) :
    TakesPayload size ctx net (ctx.frameData left ++ binaryData ctx.fragmentOriginalOpcode fs)
      (websocketHandleControl bioRead finish ctx net) := by
  have hnone (payload : List UInt8) : ctx.frameData payload = [] := if_neg hbinary
  rw [websocketHandleControl, hnone, List.nil_append]
  by_cases hzero : ctx.payloadLength = 0
  · obtain rfl := List.length_eq_zero_iff.mp (hlength.symm.trans hzero)
    have hresponse' := hresponse.resolve_right fun h => h.1 rfl
    have hnew : ctx.newResponse = ctx := by
      cases ctx
      cases hzero
      cases hresponse'
      rfl
    rw [hnew, rdgWebsocketReadWstream, if_pos hzero]
    dsimp only
    rw [Websocket.endResponse, if_pos hzero]
    refine .inr ⟨[], binaryData ctx.fragmentOriginalOpcode fs, _, net, rfl, rfl, Nat.zero_le _, ?_,
      .inl ⟨rfl, hzero, (hfinish _).1, rfl⟩⟩
    rw [hnet]
    exact .finished fs hfinish rfl
  · have hleft : left ≠ [] := fun h => hzero (by rw [hlength, h, List.length_nil])
    obtain ⟨got, hnew⟩ : ∃ got, ctx.newResponse =
        { ctx with responseStreamBuffer := some (got.length + left.length, got) } := by
      obtain hresponse | ⟨-, got, hresponse⟩ := hresponse
      · refine ⟨[], ?_⟩
        rw [Websocket.newResponse, hresponse, if_neg hzero, List.length_nil, Nat.zero_add, hlength]
      · refine ⟨got, ?_⟩
        rw [Websocket.newResponse, hresponse]
        cases ctx
        cases hresponse
        rfl
    have hcapacity : ¬got.length + left.length - got.length ≠ ctx.payloadLength := by omega
    rw [hnew, rdgWebsocketReadWstream, if_neg hzero]
    dsimp only
    rw [if_neg hcapacity]
    obtain ⟨net', hread, hflatten, hless⟩ | ⟨data, net', hread, hne, hle, hflatten, hless⟩ :=
      bioRead_cases_mod (hsize hzero) net
    · rw [hread]
      refine .inl ⟨_, net', rfl, ?_, hless⟩
      have hsame : Websocket.Decodes
          { ctx with responseStreamBuffer := some (got.length + left.length, got) }
          (left ++ fs.flatMap Frame.encode)
          (ctx.frameData left ++ binaryData ctx.fragmentOriginalOpcode fs) :=
        .payload fs hstate (.inr ⟨hcontrol, hleft, got, rfl⟩) hlt hlength
      rwa [hnone, List.nil_append, ← hnet, ← hflatten] at hsame
    · have hle' : data.length ≤ left.length := by
        have hmod := Nat.mod_le ctx.payloadLength (2 ^ 32)
        omega
      obtain ⟨left', rfl, hrest⟩ := exists_left (hnet.symm.trans hflatten) hle'
      rw [hread]
      match data, hne with
      | byte :: data, hne =>
        have hconsume : Websocket.consume (byte :: data).length { ctx with
              responseStreamBuffer := some (got.length + (byte :: data ++ left').length, got) } =
            { ctx with
              payloadLength := left'.length
              state := if left'.length = 0 then .opcodeAndFin else ctx.state
              responseStreamBuffer := some (got.length + (byte :: data ++ left').length, got) } :=
          Websocket.consume_eq hlt hlength
        dsimp only
        rw [hconsume]
        dsimp only
        refine .inr ⟨[], binaryData ctx.fragmentOriginalOpcode fs, _, net', rfl, rfl, Nat.zero_le _, ?_,
          .inr ⟨length_flatten_lt hne hflatten, hless⟩⟩
        rw [Websocket.endResponse, hrest]
        dsimp only
        by_cases hend : left'.length = 0
        · obtain rfl := List.length_eq_zero_iff.mp hend
          rw [if_pos hend]
          exact .finished fs hfinish rfl
        · rw [if_neg hend, if_neg hend]
          have hcapacity' : got.length + (byte :: data ++ left').length =
              (got ++ byte :: data).length + left'.length := by
            simp only [List.length_append]
            omega
          have htook := Websocket.Decodes.took fs hstate
            (by rw [List.length_append] at hlt; omega : left'.length < 2 ^ 64)
            (.inr ⟨hcontrol, fun h => hend (List.length_eq_zero_iff.mpr h), got ++ byte :: data, rfl⟩)
          rwa [hnone, List.nil_append, if_neg hend, ← hcapacity'] at htook

/-- The payload of a frame, when nothing behind it is read. -/
theorem handlePayload_spec (fs : List Frame) (hstate : ctx.state = .payload)
    (hresponse : ctx.responseStreamBuffer = none ∨ ctx.IsControl ∧ left ≠ [] ∧
      ∃ got, ctx.responseStreamBuffer = some (got.length + left.length, got))
    (hlt : left.length < 2 ^ 64) (hlength : ctx.payloadLength = left.length)
    (hnet : net.flatten = left ++ fs.flatMap Frame.encode) (hsize : IsBufferSize size)
    (hinside : WebsocketSource.ReadsInside (ctx, net)) :
    TakesPayload size ctx net (ctx.frameData left ++ binaryData ctx.fragmentOriginalOpcode fs)
      (rdgWebsocketHandlePayload bioRead size ctx net) := by
  by_cases hcontrol : ctx.IsControl
  · have hbinary : ctx.effectiveOpcode ≠ websocketBinaryOpcode := by
      obtain h | h := hcontrol
      · rw [h]
        decide
      · rw [h]
        decide
    have hresponse' := hresponse.imp_right And.right
    have hpositive (hzero : ctx.payloadLength ≠ 0) : IsBufferSize (ctx.payloadLength % 2 ^ 32) := by
      have hread := hinside hstate hzero
      rwa [if_neg hbinary, if_pos hcontrol] at hread
    by_cases hping : ctx.effectiveOpcode = websocketPingOpcode
    · rw [rdgWebsocketHandlePayload, if_neg hbinary, if_pos hping]
      exact handleControl_spec _ fs hstate hcontrol hbinary hresponse' hlt hlength hnet hpositive
        fun _ => ⟨rfl, rfl⟩
    · rw [rdgWebsocketHandlePayload, if_neg hbinary, if_neg hping, if_pos (hcontrol.resolve_left hping)]
      exact handleControl_spec _ fs hstate hcontrol hbinary hresponse' hlt hlength hnet hpositive
        fun _ => ⟨rfl, rfl⟩
  · have hresponse' := hresponse.resolve_right fun h => hcontrol h.1
    by_cases hbinary : ctx.effectiveOpcode = websocketBinaryOpcode
    · exact handle_binary fs hstate hresponse' hlt hlength hnet hsize hbinary
    · exact handle_dropped fs hstate hresponse' hlt hlength hnet hbinary hcontrol hinside

/-! ### Lengths -/

theorem length_succ (hn : n < 2 ^ 64) (k : ℕ) :
    (n / 2 ^ (8 * (k + 1))) <<< 8 % 2 ^ 64 ||| (UInt8.ofNat (n / 2 ^ (8 * k))).toNat = n / 2 ^ (8 * k) := by
  have hle : n / 2 ^ (8 * k) ≤ n := Nat.div_le_self _ _
  have hdiv : n / 2 ^ (8 * (k + 1)) = n / 2 ^ (8 * k) / 2 ^ 8 := by
    rw [Nat.div_div_eq_div_mul, ← pow_add, Nat.mul_succ]
  rw [hdiv]
  generalize n / 2 ^ (8 * k) = x at hle ⊢
  have hshift : (x / 2 ^ 8) <<< 8 % 2 ^ 64 = (x / 2 ^ 8) <<< 8 := by
    rw [Nat.shiftLeft_eq]
    exact Nat.mod_eq_of_lt (by omega)
  rw [hshift, Wire.shiftLeft_or _ (UInt8.toNat_lt _), UInt8.toNat_ofNat']
  omega

theorem bioRead_one (net : List (List UInt8)) :
    (∃ net', bioRead 1 net = (none, net') ∧ net'.flatten = net.flatten ∧ netSize net' ≤ netSize net - 1) ∨
      ∃ byte net', bioRead 1 net = (some [byte], net') ∧ net.flatten = byte :: net'.flatten ∧
        netSize net' ≤ netSize net - 1 := by
  obtain h | ⟨data, net', hread, hne, hle, hflatten, hless⟩ :=
    bioRead_cases (show IsBufferSize 1 from by decide) net
  · exact .inl h
  · match data, hne, hle with
    | [byte], _, _ => exact .inr ⟨byte, net', hread, hflatten, hless⟩

theorem websocketLengthLoop_end {lenLength : ℕ} (rounds : ℕ) (net : List (List UInt8))
    (hpos : ctx.lengthAndMaskPosition = lenLength) :
    websocketLengthLoop bioRead lenLength rounds ctx net = (none, ctx, net) := by
  cases rounds with
  | zero => rfl
  | succ rounds => exact if_neg (by omega)

theorem websocketLengthLoop_succ {lenLength : ℕ} {tail : List UInt8} (rounds : ℕ) (hn : n < 2 ^ 64)
    (hpos : ctx.lengthAndMaskPosition < lenLength) (hvalue : ctx.payloadLength = n / 2 ^ (8 * (k + 1)))
    (hnet : net.flatten = beBytes (k + 1) n ++ tail) :
    (∃ net', websocketLengthLoop bioRead lenLength (rounds + 1) ctx net = (some none, ctx, net') ∧
      net'.flatten = net.flatten ∧ netSize net' ≤ netSize net - 1) ∨
    ∃ net', websocketLengthLoop bioRead lenLength (rounds + 1) ctx net = websocketLengthLoop bioRead lenLength rounds
        { ctx with
          payloadLength := n / 2 ^ (8 * k)
          lengthAndMaskPosition := ctx.lengthAndMaskPosition + 1 } net' ∧
      net'.flatten = beBytes k n ++ tail ∧ netSize net' ≤ netSize net - 1 := by
  rw [websocketLengthLoop, if_pos hpos]
  obtain ⟨net', hread, hflatten, hless⟩ | ⟨byte, net', hread, hflatten, hless⟩ := bioRead_one net
  · rw [hread]
    exact .inl ⟨net', rfl, hflatten, hless⟩
  · obtain ⟨rfl, hrest⟩ := List.cons.inj (hnet.symm.trans hflatten)
    rw [hread]
    refine .inr ⟨net', ?_, hrest.symm, hless⟩
    dsimp only
    rw [hvalue, length_succ hn]

/-- The loop reads a part of the length, or all of it. -/
theorem websocketLengthLoop_cases {lenLength rounds : ℕ} {tail : List UInt8} (hn : n < 2 ^ 64)
    (hpos : ctx.lengthAndMaskPosition + (k + 1) = lenLength)
    (hvalue : ctx.payloadLength = n / 2 ^ (8 * (k + 1))) (hrounds : k < rounds)
    (hnet : net.flatten = beBytes (k + 1) n ++ tail) :
    (∃ net', websocketLengthLoop bioRead lenLength rounds ctx net =
        (none, { ctx with payloadLength := n, lengthAndMaskPosition := lenLength }, net') ∧
      net'.flatten = tail ∧ netSize net' ≤ netSize net - 1) ∨
    ∃ k' pos net', websocketLengthLoop bioRead lenLength rounds ctx net =
        (some none, { ctx with payloadLength := n / 2 ^ (8 * (k' + 1)), lengthAndMaskPosition := pos }, net') ∧
      pos + (k' + 1) = lenLength ∧ net'.flatten = beBytes (k' + 1) n ++ tail ∧
      netSize net' ≤ netSize net - 1 := by
  induction k generalizing ctx rounds net with
  | zero =>
    obtain ⟨rounds, rfl⟩ : ∃ r, rounds = r + 1 := ⟨rounds - 1, by omega⟩
    obtain ⟨net', hloop, hflatten, hless⟩ | ⟨net', hloop, hflatten, hless⟩ :=
      websocketLengthLoop_succ rounds hn (by omega : ctx.lengthAndMaskPosition < lenLength) hvalue hnet
    · refine .inr ⟨0, ctx.lengthAndMaskPosition, net', ?_, hpos, hflatten.trans hnet, hless⟩
      rw [hloop, ← hvalue]
    · refine .inl ⟨net', ?_, hflatten, hless⟩
      rw [Nat.mul_zero, pow_zero, Nat.div_one] at hloop
      rw [hloop, ← hpos]
      exact websocketLengthLoop_end _ _ rfl
  | succ k ih =>
    obtain ⟨rounds, rfl⟩ : ∃ r, rounds = r + 1 := ⟨rounds - 1, by omega⟩
    obtain ⟨net', hloop, hflatten, hless⟩ | ⟨net', hloop, hflatten, hless⟩ :=
      websocketLengthLoop_succ rounds hn (by omega : ctx.lengthAndMaskPosition < lenLength) hvalue hnet
    · refine .inr ⟨k + 1, ctx.lengthAndMaskPosition, net', ?_, hpos, hflatten.trans hnet, hless⟩
      rw [hloop, ← hvalue]
    · have hpos' : ({ ctx with
          payloadLength := n / 2 ^ (8 * (k + 1))
          lengthAndMaskPosition := ctx.lengthAndMaskPosition + 1 } : Websocket).lengthAndMaskPosition +
            (k + 1) = lenLength := by
        rw [← hpos]
        exact Nat.add_right_comm _ _ _
      rw [hloop]
      obtain ⟨net'', hloop', hflatten', hless'⟩ | ⟨k', pos, net'', hloop', hpos', hflatten', hless'⟩ :=
        ih hpos' rfl (by omega : k < rounds) hflatten
      · exact .inl ⟨net'', hloop', hflatten', by omega⟩
      · exact .inr ⟨k', pos, net'', hloop', hpos', hflatten', by omega⟩

theorem lengthByte (hn : n < 126) :
    UInt8.ofNat n &&& 0x80 ≠ 0x80 ∧ UInt8.ofNat n &&& 0x7f < 126 ∧ (UInt8.ofNat n &&& 0x7f).toNat = n := by
  have hall : ∀ n : Fin 126, UInt8.ofNat n &&& 0x80 ≠ 0x80 ∧ UInt8.ofNat n &&& 0x7f < 126 ∧
      (UInt8.ofNat n &&& 0x7f).toNat = n := by decide
  exact hall ⟨n, hn⟩

theorem Websocket.Decodes.takeLength (f : Frame) (fs : List Frame)
    (hresponse : ctx.responseStreamBuffer = none) :
    ∃ byte more, f.lengthBytes = byte :: more ∧
      (ctx.takeLength byte).Decodes (more ++ f.payload ++ fs.flatMap Frame.encode)
        (ctx.frameData f.payload ++ binaryData ctx.fragmentOriginalOpcode fs) := by
  obtain ⟨head, form, payload, hlt⟩ := f
  cases form with
  | byte =>
    obtain ⟨hmasking, hshort, hvalue⟩ := lengthByte hlt
    refine ⟨UInt8.ofNat payload.length, [], rfl, ?_⟩
    have hmask : decide (UInt8.ofNat payload.length &&& 0x80 = 0x80) = false := decide_eq_false hmasking
    rw [Websocket.takeLength]
    dsimp only
    rw [if_pos hshort, hvalue, hmask, List.nil_append]
    exact .payload fs rfl (.inl hresponse) (hlt.trans (by decide)) rfl
  | short =>
    refine ⟨126, beBytes 2 payload.length, rfl, ?_⟩
    have hzero : 0 = payload.length / 2 ^ (8 * 2) := (Nat.div_eq_of_lt hlt).symm
    exact .length fs (.inl ⟨rfl, rfl⟩) hresponse rfl (hlt.trans (by decide)) (by decide) rfl hzero
  | long =>
    refine ⟨127, beBytes 8 payload.length, rfl, ?_⟩
    have hzero : 0 = payload.length / 2 ^ (8 * 8) := (Nat.div_eq_of_lt hlt).symm
    exact .length fs (.inr ⟨rfl, rfl⟩) hresponse rfl hlt (by decide) rfl hzero

/-! ### Reads -/

/-- Rounds that read nothing are followed by one that does. -/
def Websocket.pause (ctx : Websocket) : ℕ := if ctx.state = .payload ∧ ctx.payloadLength = 0 then 1 else 0

theorem Websocket.pause_le (ctx : Websocket) : ctx.pause ≤ 1 := by
  unfold Websocket.pause
  split <;> omega

/-- What a read does that stays inside of the frames: it returns data that is next, and leaves the rest. -/
def Returns (size : ℕ) (buffer : List UInt8) (net : List (List UInt8)) (todo : List UInt8)
    (r : ReadStatus × WebsocketSource × List WebsocketSource) : Prop :=
  ∃ data todo', r.1 = effective (buffer ++ data) none ∧ data.length ≤ size ∧ todo = data ++ todo' ∧
    r.2.1.1.Decodes r.2.1.2.flatten todo' ∧ netSize r.2.1.2 ≤ netSize net - 1

theorem Returns.stop {net' : List (List UInt8)} (hs : ctx.Decodes net'.flatten todo)
    (hless : netSize net' ≤ netSize net - 1) (visits : List WebsocketSource) :
    Returns size buffer net todo (effective buffer none, (ctx, net'), visits) :=
  ⟨[], todo, by rw [List.append_nil], Nat.zero_le _, rfl, hs, hless⟩

/-- A read that goes on behind data. -/
theorem Returns.append {todo' : List UInt8} {net' : List (List UInt8)}
    {r : ReadStatus × WebsocketSource × List WebsocketSource}
    (h : Returns (size - data.length) (buffer ++ data) net' todo' r) (hdata : data.length ≤ size)
    (hless : netSize net' ≤ netSize net) : Returns size buffer net (data ++ todo') r := by
  obtain ⟨more, todo'', hr, hle, rfl, hs, hless'⟩ := h
  refine ⟨data ++ more, todo'', by rw [hr, List.append_assoc], ?_, by rw [List.append_assoc], hs, by omega⟩
  rw [List.length_append]
  omega

theorem Returns.mono {net' : List (List UInt8)} {r : ReadStatus × WebsocketSource × List WebsocketSource}
    (h : Returns size buffer net' todo r) (hless : netSize net' ≤ netSize net) :
    Returns size buffer net todo r := by
  obtain ⟨data, todo', hr, hle, heq, hs, hless'⟩ := h
  exact ⟨data, todo', hr, hle, heq, hs, by omega⟩

theorem websocketReadLoop_opcodeAndFin (rounds size : ℕ) (buffer : List UInt8) (net : List (List UInt8))
    (hstate : ctx.state = .opcodeAndFin) :
    websocketReadLoop (rounds + 1) size buffer ctx net = visit (ctx, net)
      (match bioRead 1 net with
      | (some (byte :: _), net) => websocketReadLoop rounds size buffer (ctx.takeOpcode byte) net
      | (status, net) => (effective buffer status, (ctx, net), [])) := by
  rw [websocketReadLoop, hstate] <;> rfl

theorem websocketReadLoop_lengthAndMasking (rounds size : ℕ) (buffer : List UInt8) (net : List (List UInt8))
    (hstate : ctx.state = .lengthAndMasking) :
    websocketReadLoop (rounds + 1) size buffer ctx net = visit (ctx, net)
      (match bioRead 1 net with
      | (some (byte :: _), net) => websocketReadLoop rounds size buffer (ctx.takeLength byte) net
      | (status, net) => (effective buffer status, (ctx, net), [])) := by
  rw [websocketReadLoop, hstate] <;> rfl

theorem websocketReadLoop_length {lenLength : ℕ} (rounds size : ℕ) (buffer : List UInt8)
    (net : List (List UInt8))
    (hstate : ctx.state = .shortLength ∧ lenLength = 2 ∨ ctx.state = .longLength ∧ lenLength = 8) :
    websocketReadLoop (rounds + 1) size buffer ctx net = visit (ctx, net)
      (match websocketLengthLoop bioRead lenLength lenLength ctx net with
      | (none, ctx, net) => websocketReadLoop rounds size buffer { ctx with state := ctx.behindLength } net
      | (some status, s) => (effective buffer status, s, [])) := by
  obtain ⟨hstate, rfl⟩ | ⟨hstate, rfl⟩ := hstate
  · rw [websocketReadLoop, hstate, websocketReadLength, if_pos hstate]
    generalize websocketLengthLoop bioRead 2 2 ctx net = r
    obtain ⟨_ | status, s⟩ := r <;> rfl
  · rw [websocketReadLoop, hstate, websocketReadLength, if_neg (by rw [hstate]; decide)]
    generalize websocketLengthLoop bioRead 8 8 ctx net = r
    obtain ⟨_ | status, s⟩ := r <;> rfl

theorem websocketReadLoop_payload (rounds size : ℕ) (buffer : List UInt8) (net : List (List UInt8))
    (hstate : ctx.state = .payload) :
    websocketReadLoop (rounds + 1) size buffer ctx net = visit (ctx, net)
      (match rdgWebsocketHandlePayload bioRead size ctx net with
      | (.error fault, s) => (if buffer.length > 0 then .ok (some buffer) else .error fault, s, [])
      | (.ok none, s) => (effective buffer none, s, [])
      | (.ok (some data), ctx, net) =>
        if data.length = size then (.ok (some (buffer ++ data)), (ctx, net), [])
        else websocketReadLoop rounds (size - data.length) (buffer ++ data) ctx net) := by
  rw [websocketReadLoop, hstate] <;> rfl

/-- The loop stays inside of the frames if each of its rounds does. -/
theorem websocketReadLoop_spec {rounds : ℕ} (hs : ctx.Decodes net.flatten todo) (hsize : IsBufferSize size)
    (hrounds : 2 * net.flatten.length + ctx.pause < rounds)
    (hinside : ∀ s ∈ (websocketReadLoop rounds size buffer ctx net).2.2, s.ReadsInside) :
    Returns size buffer net todo (websocketReadLoop rounds size buffer ctx net) := by
  induction rounds generalizing size buffer ctx net todo with
  | zero => exact absurd hrounds (Nat.not_lt_zero _)
  | succ rounds ih =>
    have hround : WebsocketSource.ReadsInside (ctx, net) := hinside _ List.mem_cons_self
    have hpause (ctx : Websocket) := ctx.pause_le
    generalize hnet : net.flatten = stream at hs hrounds
    cases hs with
    | opcodeAndFin fs hstate hresponse =>
      rw [websocketReadLoop_opcodeAndFin _ _ _ _ hstate] at hinside ⊢
      obtain ⟨net', hread, hflatten, hless⟩ | ⟨byte, net', hread, hflatten, hless⟩ := bioRead_one net
      · rw [hread]
        refine .stop ?_ hless _
        rw [hflatten, hnet]
        exact .opcodeAndFin fs hstate hresponse
      · cases fs with
        | nil => exact absurd (hnet.symm.trans hflatten) (List.cons_ne_nil _ _).symm
        | cons f fs =>
          obtain ⟨rfl, hrest⟩ := List.cons.inj (hnet.symm.trans hflatten)
          have hnext : (ctx.takeOpcode f.head).Decodes net'.flatten
              (binaryData ctx.fragmentOriginalOpcode (f :: fs)) := by
            rw [← hrest]
            exact .lengthAndMasking f fs rfl hresponse
          have hshort : 2 * net'.flatten.length + (ctx.takeOpcode f.head).pause < rounds := by
            have hle := hpause (ctx.takeOpcode f.head)
            rw [← hnet, hflatten, List.length_cons] at hrounds
            omega
          rw [hread] at hinside ⊢
          exact (ih hnext hsize hshort fun s hs => hinside s (List.mem_cons_of_mem _ hs)).mono (by omega)
    | lengthAndMasking f fs hstate hresponse =>
      rw [websocketReadLoop_lengthAndMasking _ _ _ _ hstate] at hinside ⊢
      obtain ⟨net', hread, hflatten, hless⟩ | ⟨byte, net', hread, hflatten, hless⟩ := bioRead_one net
      · rw [hread]
        refine .stop ?_ hless _
        rw [hflatten, hnet]
        exact .lengthAndMasking f fs hstate hresponse
      · obtain ⟨first, more, hlength, hnext⟩ := Websocket.Decodes.takeLength f fs hresponse
        rw [hlength] at hnet
        obtain rfl := (List.cons.inj (hnet.symm.trans hflatten)).1
        have hrest : more ++ f.payload ++ fs.flatMap Frame.encode = net'.flatten :=
          (List.cons.inj (hnet.symm.trans hflatten)).2
        rw [hrest] at hnext
        have hshort : 2 * net'.flatten.length + (ctx.takeLength first).pause < rounds := by
          have hle := hpause (ctx.takeLength first)
          rw [hlength, ← hnet, hflatten, List.length_cons] at hrounds
          omega
        rw [hread] at hinside ⊢
        exact (ih hnext hsize hshort fun s hs => hinside s (List.mem_cons_of_mem _ hs)).mono (by omega)
    | @length lenLength k payload fs hstate hresponse hmasking hlt hk hpos hvalue =>
      obtain ⟨k, rfl⟩ : ∃ l, k = l + 1 := ⟨k - 1, by omega⟩
      have hstream : net.flatten = beBytes
          (k + 1) payload.length ++ (payload ++ fs.flatMap Frame.encode) := by
        rw [hnet, List.append_assoc]
      rw [websocketReadLoop_length _ _ _ _ hstate] at hinside ⊢
      obtain ⟨net', hloop, hflatten, hless⟩ | ⟨k', pos, net', hloop, hpos', hflatten, hless⟩ :=
        websocketLengthLoop_cases hlt hpos hvalue (by omega : k < lenLength) hstream
      · rw [hloop] at hinside ⊢
        dsimp only at hinside ⊢
        have hbehind : ({ ctx with payloadLength := payload.length, lengthAndMaskPosition := lenLength } :
            Websocket).behindLength = .payload := by
          rw [Websocket.behindLength, hmasking]
          rfl
        rw [hbehind] at hinside ⊢
        have hnext : Websocket.Decodes
            { ctx with payloadLength := payload.length, lengthAndMaskPosition := lenLength, state := .payload }
            net'.flatten (ctx.frameData payload ++ binaryData ctx.fragmentOriginalOpcode fs) := by
          rw [hflatten]
          exact .payload fs rfl (.inl hresponse) hlt rfl
        refine (ih hnext hsize ?_ fun s hs => hinside s (List.mem_cons_of_mem _ hs)).mono (by omega)
        have hle := hpause
          { ctx with payloadLength := payload.length, lengthAndMaskPosition := lenLength, state := .payload }
        have hlength : 0 < (beBytes (k + 1) payload.length).length := Nat.succ_pos _
        rw [List.append_assoc, ← hflatten, List.length_append] at hrounds
        omega
      · rw [hloop]
        refine .stop ?_ hless _
        rw [hflatten, ← List.append_assoc]
        exact .length fs hstate hresponse hmasking hlt (Nat.succ_pos k') hpos' rfl
    | @payload left fs hstate hresponse hlt hlength =>
      rw [websocketReadLoop_payload _ _ _ _ hstate] at hinside ⊢
      obtain ⟨ctx', net', hread, hs', hless⟩ | ⟨data, todo', ctx', net', hread, heq, hle, hs', hprogress⟩ :=
        handlePayload_spec fs hstate hresponse hlt hlength hnet hsize hround
      · rw [hread]
        exact .stop hs' hless _
      · rw [hread] at hinside ⊢
        dsimp only at hinside ⊢
        rw [heq]
        by_cases hfull : data.length = size
        · rw [if_pos hfull]
          have hne : data ≠ [] := List.ne_nil_of_length_pos (by have := hsize.1; omega)
          obtain ⟨hdata, -⟩ | ⟨-, hless⟩ := hprogress
          · exact absurd hdata hne
          · exact ⟨data, todo', (effective_append hne buffer).symm, hle, rfl, hs', hless⟩
        · rw [if_neg hfull] at hinside ⊢
          have hsize' : IsBufferSize (size - data.length) := ⟨by omega, by have := hsize.2; omega⟩
          have hmore (hshort : 2 * net'.flatten.length + ctx'.pause < rounds) :=
            ih hs' hsize' hshort fun s hs => hinside s (List.mem_cons_of_mem _ hs)
          rw [← hnet] at hrounds
          obtain ⟨-, hzero, hstate', rfl⟩ | ⟨hshort, hless⟩ := hprogress
          · have hnow : ctx.pause = 1 := if_pos ⟨hstate, hzero⟩
            have hnext : ctx'.pause = 0 := if_neg fun h => absurd (hstate'.symm.trans h.1) (by decide)
            exact (hmore (by omega)).append hle le_rfl
          · have hle' := hpause ctx'
            exact (hmore (by omega)).append hle (by omega)

/-- A buffer of a proper size, and a read that stays inside of the frames. -/
def Meets (size : ℕ) (s : WebsocketSource) : Prop :=
  IsBufferSize size ∧ ∀ t ∈ (rdgWebsocketReadVisits size s).2.2, t.ReadsInside

theorem rdgWebsocketRead_returns {s : WebsocketSource} (hs : s.1.Decodes s.2.flatten todo)
    (hmeets : Meets size s) :
    Returns size [] s.2 todo (rdgWebsocketReadVisits size s) := by
  have hpause := s.1.pause_le
  exact websocketReadLoop_spec hs hmeets.1 (by omega) hmeets.2

/-- A read takes the data that it returns off the data that is still to be returned. -/
theorem rdgWebsocketRead_delivers :
    Source.Delivers Meets rdgWebsocketRead ReadStatus.data ReadStatus.Fine
      (fun s : WebsocketSource => s.1.Decodes s.2.flatten) (fun s => netSize s.2) where
  fine {s todo n} hs hn := by
    obtain ⟨data, todo', hr, -, -, -, -⟩ := rdgWebsocketRead_returns hs hn
    rw [rdgWebsocketRead, hr]
    exact effective_fine _ _
  length_le {s todo n} hs hn := by
    obtain ⟨data, todo', hr, hle, -, -, -⟩ := rdgWebsocketRead_returns hs hn
    rw [rdgWebsocketRead, hr, List.nil_append, data_effective]
    exact hle
  step {s todo n} hs hn := by
    obtain ⟨data, todo', hr, -, heq, hs', -⟩ := rdgWebsocketRead_returns hs hn
    rw [rdgWebsocketRead, hr, List.nil_append, data_effective]
    exact ⟨todo', heq, hs'⟩
  fuel_le {s todo n} hs hn := by
    obtain ⟨data, todo', -, -, -, -, hless⟩ := rdgWebsocketRead_returns hs hn
    exact hless
  done {s todo} hs hfuel := by
    obtain ⟨ctx, net⟩ := s
    obtain rfl := netSize_eq_zero hfuel
    generalize hnet : ([] : List (List UInt8)).flatten = stream at hs
    have hframes {fs : List Frame} (h : fs.flatMap Frame.encode = []) : fs = [] := by
      cases fs with
      | nil => rfl
      | cons f fs => exact absurd h (List.cons_ne_nil _ _)
    cases hs with
    | opcodeAndFin fs hstate hresponse =>
      rw [hframes hnet.symm]
      rfl
    | lengthAndMasking f fs hstate hresponse =>
      obtain ⟨byte, more, hbytes, -⟩ := Websocket.Decodes.takeLength f fs hresponse
      have hnil := (List.append_eq_nil_iff.mp (List.append_eq_nil_iff.mp hnet.symm).1).1
      rw [hbytes] at hnil
      exact absurd hnil (List.cons_ne_nil _ _)
    | @length lenLength k payload fs hstate hresponse hmasking hlt hk hpos hvalue =>
      obtain ⟨k, rfl⟩ : ∃ l, k = l + 1 := ⟨k - 1, by omega⟩
      exact absurd (List.append_eq_nil_iff.mp (List.append_eq_nil_iff.mp hnet.symm).1).1
        (List.cons_ne_nil _ _)
    | payload fs hstate hresponse hlt hlength =>
      obtain ⟨rfl, hnil⟩ := List.append_eq_nil_iff.mp hnet.symm
      rw [hframes hnil, ctx.frameData_nil]
      rfl

/-- The states in which the rounds of reads begin. -/
def websocketVisits : List ℕ → WebsocketSource → List WebsocketSource
  | [], _ => []
  | size :: sizes, s => (rdgWebsocketReadVisits size s).2.2 ++ websocketVisits sizes
      (rdgWebsocketRead size s).2

theorem allMeet_visits {sizes : List ℕ} {s : WebsocketSource} (hsizes : ∀ size ∈ sizes, IsBufferSize size)
    (hinside : ∀ t ∈ websocketVisits sizes s, t.ReadsInside) :
    Source.AllMeet Meets rdgWebsocketRead sizes s := by
  induction sizes generalizing s with
  | nil => trivial
  | cons size sizes ih =>
    obtain ⟨hnow, hlater⟩ := List.forall_mem_append.mp hinside
    obtain ⟨hsize, hsizes'⟩ := List.forall_mem_cons.mp hsizes
    exact ⟨⟨hsize, hnow⟩, ih hsizes' hlater⟩

/-- Whatever the pieces are in which the frames arrive: if no round reads behind its frame, then the reads
return the binary data, and the context is always at the place of the stream at which it seems to be. -/
theorem websocket_read {fs : List Frame} {sizes : List ℕ} (hnet : net.flatten = fs.flatMap Frame.encode)
    (hsizes : ∀ size ∈ sizes, IsBufferSize size)
    (hinside : ∀ s ∈ websocketVisits sizes (Websocket.zero, net), s.ReadsInside) :
    (∀ r ∈ (Source.reads rdgWebsocketRead sizes (Websocket.zero, net)).1, r.Fine) ∧
      ∃ todo, binaryData 0 fs =
          (Source.reads rdgWebsocketRead sizes (Websocket.zero, net)).1.flatMap ReadStatus.data ++ todo ∧
        (Source.reads rdgWebsocketRead sizes (Websocket.zero, net)).2.1.Decodes
          (Source.reads rdgWebsocketRead sizes (Websocket.zero, net)).2.2.flatten todo ∧
        (netSize net ≤ sizes.length → todo = []) := by
  have hstart : Websocket.zero.Decodes net.flatten (binaryData 0 fs) := by
    rw [hnet]
    exact .opcodeAndFin fs rfl rfl
  exact rdgWebsocketRead_delivers.reads (s := (Websocket.zero, net)) hstart (allMeet_visits hsizes hinside)

/-- A ping between two fragments, and a text whose payload arrives on its own. -/
theorem websocket_read_example :
    (Source.reads rdgWebsocketRead (List.replicate 32 3) (Websocket.zero,
      [[0x02, 2, 1, 2, 0x89, 1], [], [9, 0x80, 1, 3, 0x81, 1], [65], [0x82, 1, 66]])).1.flatMap
        ReadStatus.data = [1, 2, 3, 66] := by
  have hnet : [[0x02, 2, 1, 2, 0x89, 1], [], [9, 0x80, 1, 3, 0x81, 1], [65], [0x82, 1, 66]].flatten =
      [Frame.mk 0x02 .byte [1, 2] (by decide), Frame.mk 0x89 .byte [9] (by decide),
        Frame.mk 0x80 .byte [3] (by decide), Frame.mk 0x81 .byte [65] (by decide),
        Frame.mk 0x82 .byte [66] (by decide)].flatMap Frame.encode := rfl
  obtain ⟨-, todo, heq, -, hall⟩ := websocket_read hnet
    (show ∀ size ∈ List.replicate 32 3, IsBufferSize size by decide) (by decide +kernel)
  rw [hall (by decide), List.append_nil] at heq
  exact heq.symm

/-- A text of one byte in front of a binary frame of one byte, all in one piece: nothing is returned. -/
theorem websocket_read_dropped :
    [[0x81, 1, 65, 0x82, 1, 66]].flatten =
        [Frame.mk 0x81 .byte [65] (by decide), Frame.mk 0x82 .byte [66] (by decide)].flatMap Frame.encode ∧
      binaryData 0 [Frame.mk 0x81 .byte [65] (by decide), Frame.mk 0x82 .byte [66] (by decide)] = [66] ∧
      netSize [[0x81, 1, 65, 0x82, 1, 66]] ≤ (List.replicate 8 10).length ∧
      (Source.reads rdgWebsocketRead (List.replicate 8 10) (Websocket.zero,
        [[0x81, 1, 65, 0x82, 1, 66]])).1.flatMap
        ReadStatus.data = [] ∧
      (Source.reads rdgWebsocketRead (List.replicate 8 10) (Websocket.zero,
        [[0x81, 1, 65, 0x82, 1, 66]])).2 =
        ({ Websocket.zero with
          payloadLength := 2 ^ 64 - 3
          opcode := 0x81
          fragmentOriginalOpcode := 0x81
          state := .payload }, []) := by
  refine ⟨rfl, rfl, by decide, by decide +kernel, by decide +kernel⟩

end FreeRDP.Gateway
