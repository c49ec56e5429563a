import FreeRDP.Gateway.Closed
import FreeRDP.Gateway.Equiv.Websocket

/-!
# Reading behind the end of the stream

`BIO_read` returns 0 at the end of the stream.  Most states of both readers return then, but three do
not, and go on with a state that is as it was: a payload of which something is missing, the footer of a
chunk, and the length of a chunk (unless the place that is read next holds a line feed of an earlier
length).  All other rounds return, take a byte, or change the state.

`readers_return_iff`: a call returns if and only if it does not reach such a round.
-/

namespace FreeRDP.Gateway

open Iterate

variable {net net' : List (List UInt8)} {data : List UInt8} {len size n : ℕ} {ctx ctx' : Websocket}

/-- A status is returned to the caller, who is told of an error or not. -/
def ReadStatus.Returned (r : ReadStatus) : Prop := r.Fine ∨ r = .error .refused

/-! ### Rounds as before -/

/-- The loop comes to this result. -/
def SameAsLoop (rounds : ℕ) (c : WebsocketCall) (r : ReadStatus × WebsocketSource) : Prop :=
  (websocketReadLoop rounds c.size c.buffer c.ctx c.net).1 = r.1 ∧
    (websocketReadLoop rounds c.size c.buffer c.ctx c.net).2.1 = r.2

/-- With `bioRead`, the rounds are those of `rdg_websocket_read`. -/
theorem websocketReadLoop_eq {n : ℕ} {c : WebsocketCall} {r : ReadStatus × WebsocketSource}
    (h : iterate (websocketRound bioRead) n c = some r) : SameAsLoop n c r := by
  induction n generalizing c with
  | zero => exact absurd h (Option.some_ne_none r).symm
  | succ n ih =>
    have hinr {r' : ReadStatus × WebsocketSource} (hr : websocketRound bioRead c = .inr r') : r' = r := by
      rw [iterate_inr hr] at h
      exact Option.some.inj h
    have hinl {c' : WebsocketCall} (hc : websocketRound bioRead c = .inl c') : SameAsLoop n c' r := by
      rw [iterate_inl hc] at h
      exact ih h
    obtain ⟨size, buffer, ctx, net⟩ := c
    unfold websocketRound at hinr hinl
    unfold SameAsLoop
    cases hstate : ctx.state with
    | opcodeAndFin | lengthAndMasking =>
      first
        | rw [websocketReadLoop_opcodeAndFin _ _ _ _ hstate]
        | rw [websocketReadLoop_lengthAndMasking _ _ _ _ hstate]
      dsimp only at hinr hinl
      rw [hstate] at hinr hinl
      dsimp only [websocketByteRound, visit] at hinr hinl ⊢
      rcases hread : bioRead 1 net with ⟨_ | _ | ⟨byte, data⟩, net'⟩
      · rw [hread] at hinr
        rw [← hinr rfl]
        exact ⟨rfl, rfl⟩
      · rw [hread] at hinr
        rw [← hinr rfl]
        exact ⟨rfl, rfl⟩
      · rw [hread] at hinl
        exact hinl rfl
    | shortLength | longLength =>
      first
        | rw [websocketReadLoop_length _ _ _ _ (.inl ⟨hstate, rfl⟩)]
        | rw [websocketReadLoop_length _ _ _ _ (.inr ⟨hstate, rfl⟩)]
      dsimp only at hinr hinl
      rw [hstate] at hinr hinl
      dsimp only [websocketLengthRound, visit] at hinr hinl ⊢
      generalize websocketLengthLoop _ _ _ ctx net = loop at hinr hinl ⊢
      obtain ⟨_ | status, s⟩ := loop
      · exact hinl rfl
      · rw [← hinr rfl]
        exact ⟨rfl, rfl⟩
    | maskingKey =>
      dsimp only at hinr
      rw [hstate] at hinr
      rw [← hinr rfl, websocketReadLoop, hstate]
      exact ⟨rfl, rfl⟩
    | payload =>
      rw [websocketReadLoop_payload _ _ _ _ hstate]
      dsimp only at hinr hinl
      rw [hstate] at hinr hinl
      dsimp only [websocketPayloadRound, visit] at hinr hinl ⊢
      rcases hhandle : rdgWebsocketHandlePayload bioRead size ctx net with ⟨fault | _ | data, s⟩
      · rw [hhandle] at hinr
        rw [← hinr rfl]
        exact ⟨rfl, rfl⟩
      · rw [hhandle] at hinr
        rw [← hinr rfl]
        exact ⟨rfl, rfl⟩
      · rw [hhandle] at hinr hinl
        dsimp only at hinr hinl ⊢
        by_cases hfull : data.length = size
        · rw [if_pos hfull] at hinr ⊢
          rw [← hinr rfl]
          exact ⟨rfl, rfl⟩
        · rw [if_neg hfull] at hinl ⊢
          exact hinl rfl

/-- With enough rounds, the loops come to this result. -/
def SameAsChunkedLoop (n : ℕ) (c : ChunkedCall) (r : ReadStatus × ChunkedSource) : Prop :=
  ∀ rounds ≥ n, match c.lenLoop with
    | none => chunkedReadLoop rounds c.size c.buffer c.ctx c.net = r
    | some haveNewLine => ∀ k, 10 ≤ c.ctx.headerFooterPos + k →
      (match chunkedLenLoop k haveNewLine c.ctx c.net with
        | (false, ctx, net) => (effective c.buffer none, ctx, net)
        | (true, ctx, net) =>
          chunkedReadLoop rounds c.size c.buffer (chunkedStartData ctx) net) = r

/-- With `bioRead`, the rounds are those of `rdg_chuncked_read`. -/
theorem chunkedReadLoop_eq {c : ChunkedCall} {r : ReadStatus × ChunkedSource}
    (h : iterate (chunkedRound bioRead) n c = some r) : SameAsChunkedLoop n c r := by
  induction n generalizing c with
  | zero => exact absurd h (Option.some_ne_none r).symm
  | succ n ih =>
    have hinr {r' : ReadStatus × ChunkedSource} (hr : chunkedRound bioRead c = .inr r') : r' = r := by
      rw [iterate_inr hr] at h
      exact Option.some.inj h
    have hinl {c' : ChunkedCall} (hc : chunkedRound bioRead c = .inl c') : SameAsChunkedLoop n c' r := by
      rw [iterate_inl hc] at h
      exact ih h
    obtain ⟨lenLoop, size, buffer, ctx, net⟩ := c
    intro rounds hrounds
    obtain ⟨rounds, rfl⟩ : ∃ k, rounds = k + 1 := ⟨rounds - 1, by omega⟩
    unfold chunkedRound at hinr hinl
    cases lenLoop with
    | some haveNewLine =>
      intro k hk
      dsimp only at hk hinr hinl ⊢
      unfold chunkedLenRound at hinr hinl
      by_cases hgo : ctx.headerFooterPos < 10 ∧ haveNewLine = false
      · obtain ⟨k, rfl⟩ : ∃ j, k = j + 1 := ⟨k - 1, by omega⟩
        dsimp only at hinr hinl
        rw [if_pos hgo] at hinr hinl
        rw [chunkedLenLoop, if_pos hgo]
        obtain ⟨net', hread, -⟩ | ⟨byte, net', hread, -⟩ := bioRead_one net
        · rw [hread] at hinr ⊢
          exact hinr rfl
        · rw [hread] at hinl ⊢
          exact hinl rfl (rounds + 1) (by omega) k (show 10 ≤ ctx.headerFooterPos + 1 + k by omega)
      · have hstop : chunkedLenLoop k haveNewLine ctx net = (true, ctx, net) := by
          cases k with
          | zero => rfl
          | succ k => exact if_neg hgo
        dsimp only at hinl
        rw [if_neg hgo] at hinl
        rw [hstop]
        exact hinl rfl (rounds + 1) (by omega)
    | none =>
      dsimp only at hinr hinl ⊢
      rw [chunkedReadLoop]
      cases hstate : ctx.state with
      | data =>
        rw [hstate] at hinr hinl
        dsimp only at hinr hinl ⊢
        rcases hread : bioRead _ net with ⟨_ | _ | ⟨byte, data⟩, net'⟩
        · rw [hread] at hinr
          exact hinr rfl
        · rw [hread] at hinr
          exact hinr rfl
        · rw [hread] at hinr hinl
          dsimp only at hinr hinl ⊢
          by_cases hfull : (byte :: data).length = size
          · rw [if_pos hfull] at hinr ⊢
            exact hinr rfl
          · rw [if_neg hfull] at hinl ⊢
            exact hinl rfl rounds (by omega)
      | footer =>
        rw [hstate] at hinr hinl
        dsimp only at hinr hinl ⊢
        by_cases hasserted : ctx.nextOffset = 0 ∧ ctx.headerFooterPos < 2
        · rw [if_pos hasserted] at hinr hinl ⊢
          rcases hread : bioRead (2 - ctx.headerFooterPos) net with ⟨_ | data, net'⟩
          · rw [hread] at hinr
            exact hinr rfl
          · rw [hread] at hinl
            exact hinl rfl rounds (by omega)
        · rw [if_neg hasserted] at hinr ⊢
          exact hinr rfl
      | lenghHeader =>
        rw [hstate] at hinr hinl
        dsimp only at hinr hinl ⊢
        by_cases hasserted : ctx.nextOffset = 0
        · rw [if_pos hasserted] at hinl ⊢
          exact hinl rfl rounds (by omega) 10 (Nat.le_add_left _ _)
        · rw [if_neg hasserted] at hinr ⊢
          exact hinr rfl

/-! ### The end of the stream -/

/-- What has been read is taken off the network; a status of 0 leaves it alone. -/
theorem bioReadClosed_some (h : bioReadClosed len net = (some data, net')) :
    net.flatten = data ++ net'.flatten ∧ (data = [] → net' = net) := by
  unfold bioReadClosed at h
  by_cases hnil : net = []
  · rw [if_pos hnil] at h
    obtain ⟨hdata, rfl⟩ := Prod.mk.inj h
    obtain rfl := Option.some.inj hdata
    exact ⟨by rw [hnil]; rfl, fun _ => hnil.symm⟩
  · rw [if_neg hnil] at h
    by_cases hlen : IsBufferSize (len % 2 ^ 32)
    · obtain ⟨net'', hread, -⟩ | ⟨data', net'', hread, hne, -, hflatten, -⟩ := bioRead_cases_mod hlen net
      · exact absurd (Prod.mk.inj (hread.symm.trans h)).1.symm (Option.some_ne_none data)
      · obtain ⟨hdata, rfl⟩ := Prod.mk.inj (hread.symm.trans h)
        obtain rfl := Option.some.inj hdata
        exact ⟨hflatten, fun hnil => absurd hnil hne⟩
    · unfold IsBufferSize at hlen
      unfold bioRead at h
      dsimp only at h
      rw [if_pos (by omega)] at h
      obtain ⟨hdata, rfl⟩ := Prod.mk.inj h
      obtain rfl := Option.some.inj hdata
      exact ⟨rfl, fun _ => rfl⟩

theorem length_bioReadClosed (h : bioReadClosed len net = (some data, net')) (hne : data ≠ []) :
    net'.flatten.length < net.flatten.length := by
  have hpos := List.length_pos_iff.mpr hne
  rw [(bioReadClosed_some h).1, List.length_append]
  omega

theorem length_bioReadClosed_le (hlen : IsBufferSize len) (h : bioReadClosed len net = (some data, net')) :
    data.length ≤ len := by
  unfold bioReadClosed at h
  split_ifs at h
  · obtain rfl := Option.some.inj (Prod.mk.inj h).1
    exact Nat.zero_le _
  · obtain ⟨net'', hread, -⟩ | ⟨data', net'', hread, -, hle, -⟩ := bioRead_cases hlen net
    · exact absurd (Prod.mk.inj (hread.symm.trans h)).1.symm (Option.some_ne_none data)
    · obtain rfl := Option.some.inj (Prod.mk.inj (hread.symm.trans h)).1
      exact hle

/-- The status of `BIO_read` is 0: the input is at its end, or the length is not converted to a positive
`int`. -/
def GivesNothing (len : ℕ) (net : List (List UInt8)) : Prop := net = [] ∨ ¬ IsBufferSize (len % 2 ^ 32)

theorem givesNothing_iff : GivesNothing len net ↔ (bioReadClosed len net).1 = some [] := by
  unfold GivesNothing bioReadClosed
  by_cases hnil : net = []
  · rw [if_pos hnil]
    exact iff_of_true (.inl hnil) rfl
  · rw [if_neg hnil]
    by_cases hlen : IsBufferSize (len % 2 ^ 32)
    · refine iff_of_false (fun h => h.elim hnil fun h => h hlen) ?_
      obtain ⟨net', hread, -⟩ | ⟨data, net', hread, hne, -⟩ := bioRead_cases_mod hlen net
      · rw [hread]
        exact (Option.some_ne_none _).symm
      · rw [hread]
        exact fun h => hne (Option.some.inj h)
    · refine iff_of_true (.inr hlen) ?_
      unfold IsBufferSize at hlen
      unfold bioRead
      dsimp only
      rw [if_pos (by omega)]

/-! ### Payloads -/

/-- The stream of the response has room for the rest of the payload. -/
def Websocket.HasRoom (ctx : Websocket) : Prop :=
  ∃ capacity s, ctx.newResponse.responseStreamBuffer = some (capacity, s) ∧
    capacity - s.length = ctx.payloadLength

/-- A round in a payload asks `BIO_read` for `len` bytes. -/
def Websocket.Requests (size : ℕ) (ctx : Websocket) (len : ℕ) : Prop :=
  ctx.payloadLength ≠ 0 ∧
    if ctx.effectiveOpcode = websocketBinaryOpcode then
      len = if ctx.payloadLength < size then ctx.payloadLength else size
    else if ctx.effectiveOpcode = websocketPingOpcode ∨ ctx.effectiveOpcode = websocketCloseOpcode then
      ctx.HasRoom ∧ len = ctx.payloadLength
    else len = 256

/-- Something is missing of a payload, and the status of `BIO_read` is 0. -/
def Websocket.ReadsNothing (size : ℕ) (ctx : Websocket) (net : List (List UInt8)) : Prop :=
  ∃ len, ctx.Requests size len ∧ GivesNothing len net

/-- What a round in a payload does: the frame is at its end, the call returns, nothing is read, or some
bytes are taken. -/
inductive PayloadRead (size : ℕ) (ctx : Websocket) (net : List (List UInt8)) :
    ReadStatus × WebsocketSource → Prop
  | ends {ctx' : Websocket} (hzero : ctx.payloadLength = 0) (hstate : ctx'.state = .opcodeAndFin) :
    PayloadRead size ctx net (.ok (some []), ctx', net)
  | stops {r : ReadStatus} {s : WebsocketSource} (hstop : r = .ok none ∨ r = .error .refused)
      (hnothing : ¬ ctx.ReadsNothing size net) : PayloadRead size ctx net (r, s)
  | nothing {ctx' : Websocket} (hnothing : ctx.ReadsNothing size net) (hstate : ctx'.state = ctx.state)
      (hnext : ctx'.ReadsNothing size net) : PayloadRead size ctx net (.ok (some []), ctx', net)
  | takes {ctx' : Websocket} {net' : List (List UInt8)} {data : List UInt8}
      (hless : net'.flatten.length < net.flatten.length) (hnothing : ¬ ctx.ReadsNothing size net) :
    PayloadRead size ctx net (.ok (some data), ctx', net')

/-- What comes of the one request that a round makes. -/
theorem bioReadClosed_requested (hrequests : ∀ len', ctx.Requests size len' ↔ len' = len)
    (net : List (List UInt8)) :
    (∃ net', bioReadClosed len net = (none, net') ∧ ¬ ctx.ReadsNothing size net) ∨
    (bioReadClosed len net = (some [], net) ∧ ctx.ReadsNothing size net) ∨
    ∃ byte data net', bioReadClosed len net = (some (byte :: data), net') ∧
      net'.flatten.length < net.flatten.length ∧ ¬ ctx.ReadsNothing size net := by
  have hnothing : ctx.ReadsNothing size net ↔ (bioReadClosed len net).1 = some [] := by
    rw [← givesNothing_iff]
    constructor
    · rintro ⟨len', hrequest, hnet⟩
      rwa [(hrequests len').mp hrequest] at hnet
    · exact fun hnet => ⟨len, (hrequests len).mpr rfl, hnet⟩
  rcases hread : bioReadClosed len net with ⟨_ | _ | ⟨byte, data⟩, net'⟩
  · rw [hread] at hnothing
    exact .inl ⟨net', rfl, fun h => Option.some_ne_none _ (hnothing.mp h).symm⟩
  · rw [hread] at hnothing
    obtain rfl := (bioReadClosed_some hread).2 rfl
    exact .inr (.inl ⟨rfl, hnothing.mpr rfl⟩)
  · rw [hread] at hnothing
    exact .inr (.inr ⟨byte, data, net', rfl, length_bioReadClosed hread (List.cons_ne_nil _ _),
      fun h => List.cons_ne_nil _ _ (Option.some.inj (hnothing.mp h))⟩)

theorem payloadRead_binary (hopcode : ctx.effectiveOpcode = websocketBinaryOpcode) :
    PayloadRead size ctx net (.ok (rdgWebsocketReadData bioReadClosed size ctx net).1,
      (rdgWebsocketReadData bioReadClosed size ctx net).2) := by
  unfold rdgWebsocketReadData
  by_cases hzero : ctx.payloadLength = 0
  · rw [if_pos hzero]
    exact .ends hzero rfl
  · rw [if_neg hzero]
    have hrequests (len : ℕ) :
        ctx.Requests size len ↔ len = if ctx.payloadLength < size then ctx.payloadLength else size := by
      rw [Websocket.Requests, if_pos hopcode]
      exact and_iff_right hzero
    generalize (if ctx.payloadLength < size then ctx.payloadLength else size) = len at hrequests ⊢
    obtain ⟨net', hread, hnothing⟩ | ⟨hread, hnothing⟩ | ⟨byte, data, net', hread, hless, hnothing⟩ :=
      bioReadClosed_requested hrequests net
    · rw [hread]
      exact .stops (.inl rfl) hnothing
    · rw [hread]
      exact .nothing hnothing rfl hnothing
    · rw [hread]
      exact .takes hless hnothing

theorem payloadRead_dropped (hbinary : ctx.effectiveOpcode ≠ websocketBinaryOpcode)
    (hcontrol : ¬ (ctx.effectiveOpcode = websocketPingOpcode ∨
      ctx.effectiveOpcode = websocketCloseOpcode)) :
    PayloadRead size ctx net (websocketReadDropped bioReadClosed ctx net) := by
  unfold websocketReadDropped rdgWebsocketReadDiscard
  by_cases hzero : ctx.payloadLength = 0
  · rw [if_pos hzero]
    exact .ends hzero rfl
  · rw [if_neg hzero]
    have hrequests (len : ℕ) : ctx.Requests size len ↔ len = 256 := by
      rw [Websocket.Requests, if_neg hbinary, if_neg hcontrol]
      exact and_iff_right hzero
    obtain ⟨net', hread, hnothing⟩ | ⟨hread, hnothing⟩ | ⟨byte, data, net', hread, hless, hnothing⟩ :=
      bioReadClosed_requested hrequests net
    · rw [hread]
      exact .stops (.inl rfl) hnothing
    · rw [hread]
      exact .nothing hnothing rfl hnothing
    · rw [hread]
      exact .takes hless hnothing

/-- What a new stream for the response leaves alone. -/
theorem newResponse_same (ctx : Websocket) :
    ctx.newResponse.payloadLength = ctx.payloadLength ∧ ctx.newResponse.state = ctx.state ∧
      ctx.newResponse.effectiveOpcode = ctx.effectiveOpcode ∧
        ctx.newResponse.newResponse = ctx.newResponse := by
  unfold Websocket.newResponse
  cases hresponse : ctx.responseStreamBuffer with
  | some s => exact ⟨rfl, rfl, rfl, by rw [hresponse]⟩
  | none =>
    dsimp only
    split_ifs <;> exact ⟨rfl, rfl, rfl, rfl⟩

theorem payloadRead_control (finish : Websocket → Websocket)
    (hfinish : ∀ ctx, (finish ctx).state = ctx.state)
    (hbinary : ctx.effectiveOpcode ≠ websocketBinaryOpcode)
    (hcontrol : ctx.effectiveOpcode = websocketPingOpcode ∨ ctx.effectiveOpcode = websocketCloseOpcode) :
    PayloadRead size ctx net (websocketHandleControl bioReadClosed finish ctx net) := by
  obtain ⟨hlength, hstate, heffective, hnew⟩ := newResponse_same ctx
  unfold websocketHandleControl rdgWebsocketReadWstream
  by_cases hzero : ctx.payloadLength = 0
  · rw [if_pos (hlength.trans hzero)]
    refine .ends hzero ?_
    unfold Websocket.endResponse
    split_ifs
    · exact hfinish _
    · rfl
  · rw [if_neg fun h => hzero (hlength.symm.trans h), hlength]
    have hrequests (len : ℕ) : ctx.Requests size len ↔ ctx.HasRoom ∧ len = ctx.payloadLength := by
      rw [Websocket.Requests, if_neg hbinary, if_pos hcontrol]
      exact and_iff_right hzero
    have hrefused (hroom : ¬ ctx.HasRoom) : ¬ ctx.ReadsNothing size net := by
      rintro ⟨len, hrequest, -⟩
      exact hroom ((hrequests len).mp hrequest).1
    rcases hresponse : ctx.newResponse.responseStreamBuffer with _ | ⟨capacity, s⟩
    · refine .stops (.inr rfl) (hrefused ?_)
      rintro ⟨capacity, s, hsome, -⟩
      exact absurd (hsome.symm.trans hresponse) (Option.some_ne_none _)
    · dsimp only
      by_cases hfits : capacity - s.length = ctx.payloadLength
      · rw [if_neg (not_not_intro hfits)]
        have hroom : ctx.HasRoom := ⟨capacity, s, hresponse, hfits⟩
        obtain ⟨net', hread, hnothing⟩ | ⟨hread, hnothing⟩ |
            ⟨byte, data, net', hread, hless, hnothing⟩ :=
          bioReadClosed_requested (fun len' => (hrequests len').trans (and_iff_right hroom)) net
        · rw [hread]
          exact .stops (.inl rfl) hnothing
        · have hend : ctx.newResponse.endResponse finish = ctx.newResponse :=
            if_neg fun h => hzero (hlength.symm.trans h)
          have hnext : ctx.newResponse.ReadsNothing size net := by
            refine ⟨ctx.payloadLength, ⟨fun h => hzero (hlength.symm.trans h), ?_⟩,
              givesNothing_iff.mpr (by rw [hread])⟩
            rw [heffective, if_neg hbinary, if_pos hcontrol]
            exact ⟨⟨capacity, s, by rw [hnew, hresponse], by rw [hlength, hfits]⟩, hlength.symm⟩
          rw [hread]
          dsimp only
          rw [hend]
          exact .nothing hnothing hstate hnext
        · rw [hread]
          exact .takes hless hnothing
      · rw [if_pos hfits]
        refine .stops (.inr rfl) (hrefused ?_)
        rintro ⟨capacity', s', hsome, hroom⟩
        obtain ⟨rfl, rfl⟩ := Prod.mk.inj (Option.some.inj (hsome.symm.trans hresponse))
        exact hfits hroom

theorem payloadRead (size : ℕ) (ctx : Websocket) (net : List (List UInt8)) :
    PayloadRead size ctx net (rdgWebsocketHandlePayload bioReadClosed size ctx net) := by
  unfold rdgWebsocketHandlePayload
  by_cases hbinary : ctx.effectiveOpcode = websocketBinaryOpcode
  · rw [if_pos hbinary]
    exact payloadRead_binary hbinary
  · rw [if_neg hbinary]
    by_cases hping : ctx.effectiveOpcode = websocketPingOpcode
    · rw [if_pos hping]
      exact payloadRead_control id (fun _ => rfl) hbinary (.inl hping)
    · rw [if_neg hping]
      by_cases hclose : ctx.effectiveOpcode = websocketCloseOpcode
      · rw [if_pos hclose]
        exact payloadRead_control _ (fun _ => rfl) hbinary (.inr hclose)
      · rw [if_neg hclose]
        exact payloadRead_dropped hbinary fun h => h.elim hping hclose

/-! ### Rounds of `rdg_websocket_read` -/

/-- A round that leaves everything as it is. -/
def WebsocketCall.Stalls (c : WebsocketCall) : Prop :=
  c.ctx.state = .payload ∧ c.size ≠ 0 ∧ c.ctx.ReadsNothing c.size c.net

/-- Rounds that take no byte go down in this order. -/
def Websocket.rank (ctx : Websocket) : ℕ :=
  match ctx.state with
  | .shortLength | .longLength => 2
  | .payload => if ctx.payloadLength = 0 then 1 else 0
  | _ => 0

theorem Websocket.rank_le (ctx : Websocket) : ctx.rank ≤ 2 := by
  unfold Websocket.rank
  split
  · exact Nat.le_refl 2
  · exact Nat.le_refl 2
  · split <;> decide
  · exact Nat.zero_le 2

theorem Websocket.rank_of_behindLength (ctx : Websocket) :
    ({ ctx with state := ctx.behindLength } : Websocket).rank ≤ 1 := by
  unfold Websocket.rank Websocket.behindLength
  cases ctx.masking <;> dsimp only
  · rw [if_neg Bool.false_ne_true]
    dsimp only
    split <;> decide
  · rw [if_pos rfl]
    exact Nat.zero_le 1

/-- The bytes that are left, and the rank. -/
def WebsocketCall.measure (c : WebsocketCall) : ℕ := 3 * c.net.flatten.length + c.ctx.rank

theorem length_lengthRounds {lenLength rounds : ℕ} {s : WebsocketSource}
    (h : websocketLengthLoop bioReadClosed lenLength rounds ctx net = (none, s)) :
    s.2.flatten.length ≤ net.flatten.length := by
  induction rounds generalizing ctx net with
  | zero =>
    obtain rfl := (Prod.mk.inj h).2
    exact Nat.le_refl _
  | succ rounds ih =>
    rw [websocketLengthLoop] at h
    split_ifs at h
    · rcases hread : bioReadClosed 1 net with ⟨_ | _ | ⟨byte, data⟩, net'⟩
      · rw [hread] at h
        exact absurd (Prod.mk.inj h).1 (Option.some_ne_none _)
      · rw [hread] at h
        exact absurd (Prod.mk.inj h).1 (Option.some_ne_none _)
      · rw [hread] at h
        exact (ih h).trans (length_bioReadClosed hread (List.cons_ne_nil _ _)).le
    · obtain rfl := (Prod.mk.inj h).2
      exact Nat.le_refl _

variable {c c' : WebsocketCall} {r : ReadStatus × WebsocketSource}

theorem effective_returned (data : List UInt8) (status : Option (List UInt8)) :
    (effective data status).Returned := .inl (effective_fine data status)

/-- A round goes on with a smaller measure, or returns. -/
def WebsocketCall.Progresses (c : WebsocketCall) (next : WebsocketCall ⊕ (ReadStatus × WebsocketSource)) :
    Prop :=
  (∀ c', next = .inl c' → c'.measure < c.measure) ∧ ∀ r, next = .inr r → r.1.Returned

theorem progresses_inl (h : c'.measure < c.measure) : c.Progresses (.inl c') := by
  refine ⟨fun c'' heq => ?_, fun r heq => absurd heq Sum.inl_ne_inr⟩
  obtain rfl := Sum.inl.inj heq
  exact h

theorem progresses_inr (h : r.1.Returned) : c.Progresses (.inr r) := by
  refine ⟨fun c' heq => absurd heq Sum.inr_ne_inl, fun r' heq => ?_⟩
  obtain rfl := Sum.inr.inj heq
  exact h

theorem progresses_byte (take : UInt8 → Websocket) (c : WebsocketCall) :
    c.Progresses (websocketByteRound bioReadClosed take c) := by
  unfold websocketByteRound
  rcases hread : bioReadClosed 1 c.net with ⟨_ | _ | ⟨byte, data⟩, net'⟩
  · exact progresses_inr (effective_returned _ _)
  · exact progresses_inr (effective_returned _ _)
  · have hless := length_bioReadClosed hread (List.cons_ne_nil _ _)
    have hrank := (take byte).rank_le
    apply progresses_inl
    unfold WebsocketCall.measure
    dsimp only
    omega

/-- The bytes of a length are taken, or the call returns. -/
theorem progresses_length (lenLength : ℕ) (hstate : c.ctx.state = .shortLength ∨
    c.ctx.state = .longLength) :
    c.Progresses (websocketLengthRound bioReadClosed lenLength c) := by
  unfold websocketLengthRound
  rcases hloop : websocketLengthLoop bioReadClosed lenLength lenLength c.ctx c.net with
    ⟨_ | status, ctx', net'⟩
  · have hle : net'.flatten.length ≤ c.net.flatten.length := length_lengthRounds hloop
    have hnow : c.ctx.rank = 2 := by
      rcases hstate with h | h <;> rw [Websocket.rank, h]
    have hnext := ctx'.rank_of_behindLength
    apply progresses_inl
    unfold WebsocketCall.measure
    dsimp only
    omega
  · exact progresses_inr (effective_returned _ _)

/-- A payload that does not stall comes to its end, or gets shorter, or the call returns. -/
theorem progresses_payload (hstate : c.ctx.state = .payload) (hstalls : ¬ c.Stalls) :
    c.Progresses (websocketPayloadRound bioReadClosed c) := by
  have hread := payloadRead c.size c.ctx c.net
  unfold websocketPayloadRound
  generalize rdgWebsocketHandlePayload bioReadClosed c.size c.ctx c.net = r at hread ⊢
  cases hread with
  | @ends ctx' hzero hstate' =>
    dsimp only
    split_ifs with hfull
    · exact progresses_inr (.inl ⟨_, rfl⟩)
    · have hnow : c.ctx.rank = 1 := by rw [Websocket.rank, hstate]; exact if_pos hzero
      have hnext : ctx'.rank = 0 := by rw [Websocket.rank, hstate']
      apply progresses_inl
      unfold WebsocketCall.measure
      dsimp only
      omega
  | @stops r s hstop hnothing =>
    rcases hstop with rfl | rfl
    · exact progresses_inr (effective_returned _ _)
    · dsimp only
      split_ifs
      · exact progresses_inr (.inl ⟨_, rfl⟩)
      · exact progresses_inr (.inr rfl)
  | nothing hnothing hstate' hnext =>
    have hfull : ([] : List UInt8).length = c.size := by
      by_contra hne
      exact hstalls ⟨hstate, Ne.symm hne, hnothing⟩
    dsimp only
    rw [if_pos hfull]
    exact progresses_inr (.inl ⟨_, rfl⟩)
  | @takes ctx' net' data hless hnothing =>
    dsimp only
    split_ifs with hfull
    · exact progresses_inr (.inl ⟨_, rfl⟩)
    · have hrank := ctx'.rank_le
      apply progresses_inl
      unfold WebsocketCall.measure
      dsimp only
      omega

/-- A round that does not stall goes on with a smaller measure, or returns. -/
theorem websocketRound_progresses (hstalls : ¬ c.Stalls) :
    c.Progresses (websocketRound bioReadClosed c) := by
  unfold websocketRound
  cases hstate : c.ctx.state with
  | opcodeAndFin => exact progresses_byte _ c
  | lengthAndMasking => exact progresses_byte _ c
  | shortLength => exact progresses_length 2 (.inl hstate)
  | longLength => exact progresses_length 8 (.inr hstate)
  | maskingKey => exact progresses_inr (.inr rfl)
  | payload => exact progresses_payload hstate hstalls

theorem websocketRound_stalls (h : c.Stalls) :
    ∃ c', websocketRound bioReadClosed c = .inl c' ∧ c'.Stalls := by
  obtain ⟨hstate, hsize, hreads⟩ := h
  have hread := payloadRead c.size c.ctx c.net
  unfold websocketRound websocketPayloadRound
  rw [hstate]
  dsimp only
  generalize rdgWebsocketHandlePayload bioReadClosed c.size c.ctx c.net = r at hread ⊢
  cases hread with
  | ends hzero =>
    obtain ⟨len, ⟨hne, -⟩, -⟩ := hreads
    exact absurd hzero hne
  | stops _ hnothing => exact absurd hreads hnothing
  | nothing hnothing hstate' hnext =>
    have hfull : ([] : List UInt8).length ≠ c.size := Ne.symm hsize
    dsimp only
    rw [if_neg hfull]
    exact ⟨_, rfl, hstate'.trans hstate, hsize, hnext⟩
  | takes _ hnothing => exact absurd hreads hnothing

/-- A call of `rdg_websocket_read` returns. -/
def WebsocketReturns (size : ℕ) (s : WebsocketSource) : Prop :=
  ∃ n r, iterate (websocketRound bioReadClosed) n ⟨size, [], s.1, s.2⟩ = some r ∧ r.1.Returned

/-- A call reaches a round that stalls. -/
def WebsocketStalls (size : ℕ) (s : WebsocketSource) : Prop :=
  ∃ c, Reaches (websocketRound bioReadClosed) ⟨size, [], s.1, s.2⟩ c ∧ c.Stalls

theorem websocketReturns_iff (size : ℕ) (s : WebsocketSource) :
    WebsocketReturns size s ↔ ¬ WebsocketStalls size s := by
  have hend : (∃ n r, iterate (websocketRound bioReadClosed) n ⟨size, [], s.1, s.2⟩ = some r) ↔
      ∀ c, Reaches (websocketRound bioReadClosed) ⟨size, [], s.1, s.2⟩ c → ¬ c.Stalls :=
    exists_iterate_iff (I := fun _ => True) (fun _ _ _ _ => trivial)
      (fun c c' _ hstalls hround => (websocketRound_progresses hstalls).1 c' hround)
      (fun c _ hstalls => websocketRound_stalls hstalls) trivial
  constructor
  · rintro ⟨n, r, hr, -⟩ ⟨c, hreach, hstalls⟩
    exact hend.mp ⟨n, r, hr⟩ c hreach hstalls
  · intro h
    obtain ⟨n, r, hr⟩ := hend.mpr fun c hreach hstalls => h ⟨c, hreach, hstalls⟩
    refine ⟨n, r, hr, iterate_result (I := fun _ => True) (Q := fun r => r.1.Returned)
      (fun _ _ _ _ => trivial) (fun c r _ hexit => ?_) trivial hr⟩
    by_cases hstalls : c.Stalls
    · obtain ⟨c', hround, -⟩ := websocketRound_stalls hstalls
      exact absurd (hround.symm.trans hexit) Sum.inl_ne_inr
    · exact (websocketRound_progresses hstalls).2 r hexit

/-! ### Rounds of `rdg_chuncked_read` -/

section ChunkedRounds

variable {c c' : ChunkedCall} {r : ReadStatus × ChunkedSource} {ctx ctx' : Chunked}

/-- What the assertions ask for. -/
structure Chunked.Valid (ctx : Chunked) : Prop where
  footer : ctx.state = .footer → ctx.nextOffset = 0 ∧ ctx.headerFooterPos < 2
  lenghHeader : ctx.state = .lenghHeader → ctx.nextOffset = 0

theorem Chunked.valid_of_data (h : ctx.state = .data) : ctx.Valid :=
  ⟨fun h' => absurd (h.symm.trans h') (by decide), fun h' => absurd (h.symm.trans h') (by decide)⟩

theorem Chunked.valid_of_footer (h : ctx.state = .footer) (hoffset : ctx.nextOffset = 0)
    (hpos : ctx.headerFooterPos < 2) : ctx.Valid :=
  ⟨fun _ => ⟨hoffset, hpos⟩, fun h' => absurd (h.symm.trans h') (by decide)⟩

theorem Chunked.valid_of_lenghHeader (h : ctx.state = .lenghHeader) (hoffset : ctx.nextOffset = 0) :
    ctx.Valid :=
  ⟨fun h' => absurd (h.symm.trans h') (by decide), fun _ => hoffset⟩

/-- The loop of `ChunkStateLenghHeader` is entered in this state only. -/
structure ChunkedCall.Valid (c : ChunkedCall) : Prop where
  ctx : c.ctx.Valid
  lenLoop : c.lenLoop ≠ none → c.ctx.state = .lenghHeader

/-- A round that leaves everything as it is: at the end of the input, in the footer, or in a length
unless the place that would be read holds a line feed. -/
def ChunkedCall.Stalls (c : ChunkedCall) : Prop :=
  c.net = [] ∧
    (c.lenLoop = none ∧ c.ctx.state = .footer ∨
      c.lenLoop = some false ∧ c.ctx.headerFooterPos < 10 ∧
        c.ctx.lenBuffer.getD c.ctx.headerFooterPos 0 ≠ 10)

/-- Rounds that take no byte go down in this order. -/
def ChunkedCall.rank (c : ChunkedCall) : ℕ :=
  match c.lenLoop with
  | some false => 2
  | some true => 1
  | none => if c.ctx.state = .lenghHeader then 3 else 0

/-- The bytes that are left, and the rank. -/
def ChunkedCall.measure (c : ChunkedCall) : ℕ := 4 * c.net.flatten.length + c.rank

theorem ChunkedCall.rank_le (c : ChunkedCall) : c.rank ≤ 3 := by
  unfold ChunkedCall.rank
  split
  · decide
  · decide
  · split <;> decide

/-- A round keeps the assertions; it goes on, with a smaller measure if it does not stall, or returns. -/
structure ChunkedCall.Progresses (c : ChunkedCall) (next : ChunkedCall ⊕ (ReadStatus × ChunkedSource)) :
    Prop where
  goes (c' : ChunkedCall) : next = .inl c' → c'.Valid ∧ (¬ c.Stalls → c'.measure < c.measure)
  returns (r : ReadStatus × ChunkedSource) : next = .inr r → r.1.Returned ∧ r.2.1.Valid

theorem chunkedProgresses_inl (hvalid : c'.Valid) (h : ¬ c.Stalls → c'.measure < c.measure) :
    c.Progresses (.inl c') := by
  refine ⟨fun c'' heq => ?_, fun r heq => absurd heq Sum.inl_ne_inr⟩
  obtain rfl := Sum.inl.inj heq
  exact ⟨hvalid, h⟩

theorem chunkedProgresses_inr (hr : r.1.Returned) (hvalid : r.2.1.Valid) : c.Progresses (.inr r) := by
  refine ⟨fun c' heq => absurd heq Sum.inr_ne_inl, fun r' heq => ?_⟩
  obtain rfl := Sum.inr.inj heq
  exact ⟨hr, hvalid⟩

/-- A byte that has been taken makes up for any rank. -/
theorem measure_lt_of_length (h : c'.net.flatten.length < c.net.flatten.length) :
    c'.measure < c.measure := by
  have hrank := c'.rank_le
  unfold ChunkedCall.measure
  omega

theorem chunkedStartData_valid (ctx : Chunked) :
    (chunkedStartData ctx).Valid ∧ (chunkedStartData ctx).state ≠ .lenghHeader := by
  have hfooter : ChunkState.footer ≠ .lenghHeader := by decide
  have hdata : ChunkState.data ≠ .lenghHeader := by decide
  unfold chunkedStartData
  dsimp only
  split_ifs
  · exact ⟨Chunked.valid_of_footer rfl rfl Nat.zero_lt_two, hfooter⟩
  · exact ⟨Chunked.valid_of_data rfl, hdata⟩

/-- A round in the loop over the bytes of a length. -/
theorem progresses_lenRound {haveNewLine : Bool} (hloop : c.lenLoop = some haveNewLine) (hvalid : c.Valid) :
    c.Progresses (chunkedLenRound bioReadClosed haveNewLine c) := by
  have hstate : c.ctx.state = .lenghHeader := by
    apply hvalid.lenLoop
    rw [hloop]
    exact Option.some_ne_none _
  unfold chunkedLenRound
  split_ifs with hgoes
  · obtain ⟨hpos, rfl⟩ := hgoes
    rcases hread : bioReadClosed 1 c.net with ⟨_ | data, net'⟩
    · exact chunkedProgresses_inr (effective_returned _ _) hvalid.ctx
    · refine chunkedProgresses_inl
        ⟨Chunked.valid_of_lenghHeader hstate (hvalid.ctx.lenghHeader hstate), fun _ => hstate⟩
          fun hstalls => ?_
      by_cases hdata : data = []
      · -- the input is at its end, and the place that is read next holds a line feed
        obtain rfl := (bioReadClosed_some hread).2 hdata
        subst hdata
        have hnil : c.net = [] := by
          have hnothing : GivesNothing 1 c.net := givesNothing_iff.mpr (by rw [hread])
          exact hnothing.resolve_right fun h => h (by decide)
        have hlf : c.ctx.lenBuffer.getD c.ctx.headerFooterPos 0 = 10 := by
          by_contra hne
          exact hstalls ⟨hnil, .inr ⟨hloop, hpos, hne⟩⟩
        unfold ChunkedCall.measure ChunkedCall.rank
        rw [hloop]
        dsimp only
        rw [List.headD_nil, hlf]
        exact Nat.lt_succ_self _
      · exact measure_lt_of_length (length_bioReadClosed hread hdata)
  · obtain ⟨hstart, hne⟩ := chunkedStartData_valid c.ctx
    refine chunkedProgresses_inl ⟨hstart, fun h => absurd rfl h⟩ fun _ => ?_
    have hnow : 1 ≤ c.rank := by
      unfold ChunkedCall.rank
      rw [hloop]
      cases haveNewLine with
      | false => exact Nat.le_succ 1
      | true => exact Nat.le_refl 1
    unfold ChunkedCall.measure
    rw [show ChunkedCall.rank { c with lenLoop := none, ctx := chunkedStartData c.ctx } = 0 from if_neg hne]
    exact Nat.add_lt_add_left hnow _

theorem progresses_data (hloop : c.lenLoop = none) (hstate : c.ctx.state = .data) (hvalid : c.Valid) :
    c.Progresses (chunkedRound bioReadClosed c) := by
  unfold chunkedRound
  rw [hloop, hstate]
  dsimp only
  rcases hread : bioReadClosed (if c.size > c.ctx.nextOffset then c.ctx.nextOffset else c.size) c.net with
    ⟨_ | _ | ⟨byte, data⟩, net'⟩
  · exact chunkedProgresses_inr (effective_returned _ _) hvalid.ctx
  · exact chunkedProgresses_inr (effective_returned _ _) hvalid.ctx
  · have htake : (chunkedTakeData (byte :: data).length c.ctx).Valid := by
      unfold chunkedTakeData
      split_ifs
      · exact Chunked.valid_of_footer rfl rfl Nat.zero_lt_two
      · exact Chunked.valid_of_data hstate
    dsimp only
    split_ifs
    · exact chunkedProgresses_inr (.inl ⟨_, rfl⟩) htake
    · exact chunkedProgresses_inl ⟨htake, fun h => absurd rfl h⟩
        fun _ => measure_lt_of_length (length_bioReadClosed hread (List.cons_ne_nil _ _))

theorem progresses_footer (hloop : c.lenLoop = none) (hstate : c.ctx.state = .footer) (hvalid : c.Valid) :
    c.Progresses (chunkedRound bioReadClosed c) := by
  obtain ⟨hoffset, hpos⟩ := hvalid.ctx.footer hstate
  have hlen : IsBufferSize (2 - c.ctx.headerFooterPos) := by
    unfold IsBufferSize intMax
    omega
  unfold chunkedRound
  rw [hloop, hstate]
  dsimp only
  rw [if_pos ⟨hoffset, hpos⟩]
  rcases hread : bioReadClosed (2 - c.ctx.headerFooterPos) c.net with ⟨_ | data, net'⟩
  · exact chunkedProgresses_inr (effective_returned _ _) hvalid.ctx
  · have hle := length_bioReadClosed_le hlen hread
    have htake : (chunkedTakeFooter data.length c.ctx).Valid := by
      unfold chunkedTakeFooter
      split_ifs with hend
      · exact Chunked.valid_of_lenghHeader rfl hoffset
      · refine Chunked.valid_of_footer hstate hoffset ?_
        show c.ctx.headerFooterPos + data.length < 2
        omega
    refine chunkedProgresses_inl ⟨htake, fun h => absurd rfl h⟩ fun hstalls => ?_
    refine measure_lt_of_length (length_bioReadClosed hread fun hdata => hstalls ⟨?_, .inl ⟨hloop, hstate⟩⟩)
    have hnothing : GivesNothing (2 - c.ctx.headerFooterPos) c.net :=
      givesNothing_iff.mpr (by rw [hread, hdata])
    refine hnothing.resolve_right fun h => h ?_
    rwa [hlen.mod]

/-- A round at the head of the length of a chunk. -/
theorem progresses_lenghHeader (hloop : c.lenLoop = none) (hstate : c.ctx.state = .lenghHeader)
    (hvalid : c.Valid) : c.Progresses (chunkedRound bioReadClosed c) := by
  unfold chunkedRound
  rw [hloop, hstate]
  dsimp only
  rw [if_pos (hvalid.ctx.lenghHeader hstate)]
  refine chunkedProgresses_inl ⟨hvalid.ctx, fun _ => hstate⟩ fun _ => ?_
  have hnow : c.rank = 3 := by
    unfold ChunkedCall.rank
    rw [hloop]
    exact if_pos hstate
  unfold ChunkedCall.measure
  rw [hnow]
  exact Nat.lt_succ_self _

theorem chunkedRound_progresses (hvalid : c.Valid) : c.Progresses (chunkedRound bioReadClosed c) := by
  cases hloop : c.lenLoop with
  | some haveNewLine =>
    unfold chunkedRound
    rw [hloop]
    exact progresses_lenRound hloop hvalid
  | none =>
    cases hstate : c.ctx.state with
    | data => exact progresses_data hloop hstate hvalid
    | footer => exact progresses_footer hloop hstate hvalid
    | lenghHeader => exact progresses_lenghHeader hloop hstate hvalid

theorem chunkedRound_stalls (hvalid : c.Valid) (h : c.Stalls) :
    ∃ c', chunkedRound bioReadClosed c = .inl c' ∧ c'.Stalls := by
  obtain ⟨hnet, ⟨hloop, hstate⟩ | ⟨hloop, hpos, hne⟩⟩ := h
  · obtain ⟨hoffset, hpos⟩ := hvalid.ctx.footer hstate
    have hread : bioReadClosed (2 - c.ctx.headerFooterPos) c.net = (some [], []) := if_pos hnet
    have htake : (chunkedTakeFooter 0 c.ctx).state = .footer := by
      unfold chunkedTakeFooter
      rw [if_neg (by omega)]
      exact hstate
    unfold chunkedRound
    rw [hloop, hstate]
    dsimp only
    rw [if_pos ⟨hoffset, hpos⟩, hread]
    exact ⟨_, rfl, rfl, .inl ⟨rfl, htake⟩⟩
  · have hread : bioReadClosed 1 c.net = (some [], []) := if_pos hnet
    unfold chunkedRound chunkedLenRound
    rw [hloop]
    dsimp only
    rw [if_pos ⟨hpos, rfl⟩, hread]
    refine ⟨_, rfl, rfl, .inr ⟨congrArg some (decide_eq_false hne), hpos, ?_⟩⟩
    show (c.ctx.lenBuffer.set c.ctx.headerFooterPos (c.ctx.lenBuffer.getD c.ctx.headerFooterPos 0)).getD
      c.ctx.headerFooterPos 0 ≠ 10
    have hset : c.ctx.lenBuffer.set c.ctx.headerFooterPos (c.ctx.lenBuffer.getD c.ctx.headerFooterPos 0) =
        c.ctx.lenBuffer := by
      apply List.ext_getElem?
      intro i
      rw [List.getElem?_set]
      split_ifs with hi hlt
      · rw [← hi, List.getD_eq_getElem _ _ hlt, List.getElem?_eq_getElem hlt]
      · rw [← hi, List.getElem?_eq_none (Nat.le_of_not_lt hlt)]
      · rfl
    rwa [hset]

/-- A call of `rdg_chuncked_read` returns. -/
def ChunkedReturns (size : ℕ) (s : ChunkedSource) : Prop :=
  ∃ n r, iterate (chunkedRound bioReadClosed) n ⟨none, size, [], s.1, s.2⟩ = some r ∧ r.1.Returned

/-- A call reaches a round that stalls. -/
def ChunkedStalls (size : ℕ) (s : ChunkedSource) : Prop :=
  ∃ c, Reaches (chunkedRound bioReadClosed) ⟨none, size, [], s.1, s.2⟩ c ∧ c.Stalls

/-- The contexts that calls leave behind. -/
inductive Chunked.Reachable : Chunked → Prop
  | zero : Reachable Chunked.zero
  | read {ctx : Chunked} {n size : ℕ} {net : List (List UInt8)} {r : ReadStatus × ChunkedSource}
      (h : Reachable ctx)
      (hread : iterate (chunkedRound bioReadClosed) n ⟨none, size, [], ctx, net⟩ = some r) : Reachable r.2.1

theorem iterate_chunkedRound {n : ℕ} (hvalid : ctx.Valid)
    (h : iterate (chunkedRound bioReadClosed) n ⟨none, size, [], ctx, net⟩ = some r) :
    r.1.Returned ∧ r.2.1.Valid :=
  iterate_result (I := ChunkedCall.Valid) (Q := fun r => r.1.Returned ∧ r.2.1.Valid)
    (fun _ c' hc hround => ((chunkedRound_progresses hc).goes c' hround).1)
    (fun _ r hc hround => (chunkedRound_progresses hc).returns r hround) ⟨hvalid, fun h => absurd rfl h⟩ h

theorem Chunked.Reachable.valid (h : ctx.Reachable) : ctx.Valid := by
  induction h with
  | zero => exact ⟨fun h => absurd h (by decide), fun _ => rfl⟩
  | read _ hread ih => exact (iterate_chunkedRound ih hread).2

theorem chunkedReturns_iff (size : ℕ) (net : List (List UInt8)) (hvalid : ctx.Valid) :
    ChunkedReturns size (ctx, net) ↔ ¬ ChunkedStalls size (ctx, net) := by
  have hend : (∃ n r, iterate (chunkedRound bioReadClosed) n ⟨none, size, [], ctx, net⟩ = some r) ↔
      ∀ c, Reaches (chunkedRound bioReadClosed) ⟨none, size, [], ctx, net⟩ c → ¬ c.Stalls :=
    exists_iterate_iff (I := ChunkedCall.Valid)
      (fun _ c' hc hround => ((chunkedRound_progresses hc).goes c' hround).1)
      (fun _ c' hc hstalls hround => ((chunkedRound_progresses hc).goes c' hround).2 hstalls)
      (fun _ hc hstalls => chunkedRound_stalls hc hstalls) ⟨hvalid, fun h => absurd rfl h⟩
  constructor
  · rintro ⟨n, r, hr, -⟩ ⟨c, hreach, hstalls⟩
    exact hend.mp ⟨n, r, hr⟩ c hreach hstalls
  · intro h
    obtain ⟨n, r, hr⟩ := hend.mpr fun c hreach hstalls => h ⟨c, hreach, hstalls⟩
    exact ⟨n, r, hr, (iterate_chunkedRound hvalid hr).1⟩

end ChunkedRounds

/-! ### Both readers -/

/-- Behind whatever input the connection is closed: a call of `rdg_websocket_read` or
`rdg_chuncked_read` returns if and only if it reaches no round that stalls. -/
theorem readers_return_iff (size : ℕ) (net : List (List UInt8)) (websocket : Websocket) {chunked : Chunked}
    (hchunked : chunked.Reachable) :
    (WebsocketReturns size (websocket, net) ↔ ¬ WebsocketStalls size (websocket, net)) ∧
      (ChunkedReturns size (chunked, net) ↔ ¬ ChunkedStalls size (chunked, net)) :=
  ⟨websocketReturns_iff size (websocket, net), chunkedReturns_iff size net hchunked.valid⟩

/-- New connections. -/
theorem readers_return_iff_zero :
    (WebsocketReturns 100 (Websocket.zero, [[0x82, 1]]) ↔
        ¬ WebsocketStalls 100 (Websocket.zero, [[0x82, 1]])) ∧
      (ChunkedReturns 100 (Chunked.zero, [[0x82, 1]]) ↔ ¬ ChunkedStalls 100 (Chunked.zero, [[0x82, 1]])) :=
  readers_return_iff 100 [[0x82, 1]] Websocket.zero .zero

/-- The connection is closed behind the header of a binary frame, or in front of the length of a chunk. -/
theorem not_return :
    ¬ WebsocketReturns 100 (Websocket.zero, [[0x82, 1]]) ∧ ¬ ChunkedReturns 100 (Chunked.zero, []) := by
  constructor
  · rw [websocketReturns_iff, not_not]
    have hstate : ((Websocket.zero.takeOpcode 0x82).takeLength 1).state = .payload := rfl
    refine ⟨⟨100, [], (Websocket.zero.takeOpcode 0x82).takeLength 1, []⟩, ?_, hstate, by
      decide, 1, ?_, .inl rfl⟩
    · exact .head (b := ⟨100, [], Websocket.zero.takeOpcode 0x82, [[1]]⟩) rfl (.single rfl)
    · have hopcode :
          ((Websocket.zero.takeOpcode 0x82).takeLength 1).effectiveOpcode =
            websocketBinaryOpcode := by decide
      exact ⟨by decide, Eq.mpr (if_pos hopcode) rfl⟩
  · rw [chunkedReturns_iff _ _ Chunked.Reachable.zero.valid, not_not]
    refine ⟨⟨some false, 100, [], Chunked.zero, []⟩, .single rfl, rfl, .inr ⟨rfl, by decide, by decide⟩⟩

end FreeRDP.Gateway
