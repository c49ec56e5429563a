import FreeRDP.Core.Request
import FreeRDP.Lib.Positions
import Mathlib.Data.List.Infix

/-!
# Connection Requests are read back

A request that fits into the 512 bytes of its stream is a list of bytes (`requestPacket`), and the
reader comes to its body (`negoReadRequest_packet`) as long as the length indicator, which is one byte,
has not been cut off: up to a packet of 260 bytes.  The body is read back, unless it is a routing token
of less than 15 bytes, which the reader takes for an `RDP_NEG_REQ` (`readBack_iff`).
-/

namespace FreeRDP.Core

open Wire

variable {n r : NegoRequest} {s u rest body : List UInt8} {len : ℕ}

/-! ### Line breaks -/

/-- A routing token without its line break. -/
def trimCrlf (token : List UInt8) : List UInt8 :=
  if token.drop (token.length - 2) = crlf then token.take (token.length - 2) else token

/-- A byte in front that does not begin a line break. -/
theorem scanCrlf_cons {a b : UInt8} (h : ¬ (a = 0x0D ∧ b = 0x0A)) {k : ℕ}
    (hscan : scanCrlf (b :: s) = some (k, rest)) : scanCrlf (a :: b :: s) = some (k + 1, rest) := by
  rw [scanCrlf, if_neg h, hscan]
  rfl

theorem scanCrlf_append (hu : ¬ crlf <:+: u) (rest : List UInt8) :
    scanCrlf (u ++ crlf ++ rest) = some (u.length, rest) := by
  induction u with
  | nil => rfl
  | cons a u ih =>
    have hscan := ih fun h => hu (h.trans (List.suffix_cons a u).isInfix)
    cases u with
    | nil => exact scanCrlf_cons (fun h => absurd h.2 (by decide)) hscan
    | cons b u =>
      refine scanCrlf_cons ?_ hscan
      rintro ⟨rfl, rfl⟩
      exact hu ⟨[], u, rfl⟩

theorem trimCrlf_append_of (h : s.drop (s.length - 2) = crlf) : trimCrlf s ++ crlf = s := by
  rw [trimCrlf, if_pos h, ← h, List.take_append_drop]

theorem length_trimCrlf (s : List UInt8) : s.length ≤ (trimCrlf s).length + 2 := by
  unfold trimCrlf
  split_ifs
  · rw [List.length_take]
    omega
  · omega

theorem isPrefix_trimCrlf (s : List UInt8) : trimCrlf s <+: s := by
  unfold trimCrlf
  split_ifs
  · exact List.take_prefix _ s
  · exact List.prefix_refl s

/-! ### What is sent -/

/-- The routing token or the cookie of a request, with a line break. -/
def requestText (r : NegoRequest) : List UInt8 :=
  match r.routingToken, r.cookie with
  | some token, _ => trimCrlf token ++ crlf
  | none, some cookie => cookiePrefix ++ cookie.take r.cookieMaxLength ++ crlf
  | none, none => []

def requestBody (r : NegoRequest) : List UInt8 :=
  requestText r ++ if r.SendsNegoData then negReq r else []

def requestLength (r : NegoRequest) : ℕ := tpduConnectionRequestLength + (requestBody r).length

def requestPacket (r : NegoRequest) : List UInt8 :=
  tpktWriteHeader (requestLength r) ++ tpduWriteHeader (requestLength r - 5) x224TpduConnectionRequest ++
    requestBody r

/-- The cookies and the routing tokens that the client is given. -/
structure NegoRequest.WellFormed (r : NegoRequest) : Prop where
  protocols : r.requestedProtocols < 2 ^ 32
  cookieMax : r.cookieMaxLength ≤ 255
  cookie : ∀ cookie, r.cookie = some cookie → 0 ∉ cookie ∧ 0x0D ∉ cookie ∧ 0x0A ∉ cookie
  token : ∀ token, r.routingToken = some token →
    13 ≤ token.length ∧ 0 ∉ token ∧ ¬ crlf <:+: trimCrlf token ∧ ¬ cookiePrefix <+: token

/-- What is written one after the other fits if all of it does. -/
theorem requestWrite_bind (a b s : List UInt8) :
    (requestWrite a s).bind (requestWrite b) = requestWrite (a ++ b) s := by
  unfold requestWrite
  rw [List.length_append]
  split_ifs with ha hab
  · rw [Option.bind_some, if_pos (by rw [List.length_append]; omega), List.append_assoc]
  · rw [Option.bind_some, if_neg (by rw [List.length_append]; omega)]
  · omega
  · rfl

theorem requestWrite_nil (hs : s.length ≤ requestCapacity) : requestWrite [] s = some s := by
  rw [requestWrite, List.length_nil, Nat.add_zero, if_pos hs, List.append_nil]

theorem writeTokenOrCookie_eq (h : r.WellFormed) (len : ℕ) (s : List UInt8)
    (hs : s.length ≤ requestCapacity) :
    writeTokenOrCookie r len s =
      (requestWrite (requestText r) s).map fun s => (s, len + (requestText r).length) := by
  unfold writeTokenOrCookie requestText
  cases htoken : r.routingToken with
  | some token =>
    obtain ⟨hlength, -⟩ := h.token token htoken
    dsimp only
    by_cases hend : token.drop (token.length - 2) = crlf
    · rw [trimCrlf_append_of hend, Option.map_eq_bind]
      simp only [if_pos (And.intro (by omega : token.length > 2) hend)]
      rfl
    · have htrim : trimCrlf token = token := if_neg hend
      rw [htrim, ← requestWrite_bind, Option.map_eq_bind, Option.bind_assoc]
      simp only [hend, and_false, if_false, List.length_append]
      rfl
  | none =>
    cases hcookie : r.cookie with
    | none =>
      dsimp only
      rw [requestWrite_nil hs]
      rfl
    | some cookie =>
      have htake :
          cookie.take
              (if cookie.length > r.cookieMaxLength then r.cookieMaxLength else cookie.length) =
            cookie.take r.cookieMaxLength := by
        split_ifs with hlong
        · rfl
        · rw [List.take_length, List.take_of_length_le (by omega)]
      have hlength : (cookie.take r.cookieMaxLength).length =
          if cookie.length > r.cookieMaxLength then r.cookieMaxLength else cookie.length := by
        rw [List.length_take]
        split_ifs <;> omega
      dsimp only
      rw [htake, ← requestWrite_bind, ← requestWrite_bind, Option.map_eq_bind, Option.bind_assoc,
        Option.bind_assoc, List.length_append, List.length_append, hlength]
      have hsum (k : ℕ) : len + (k + 19) = len + (cookiePrefix.length + k + crlf.length) := by
        rw [show cookiePrefix.length = 17 from rfl, show crlf.length = 2 from rfl]
        omega
      rw [hsum]
      rfl

theorem writeNegReq_eq (r : NegoRequest) (s : List UInt8) (len : ℕ) (hs : s.length ≤ requestCapacity) :
    writeNegReq r (s, len) =
      (requestWrite (if r.SendsNegoData then negReq r else []) s).map fun s =>
        (s, len + (if r.SendsNegoData then negReq r else []).length) := by
  unfold writeNegReq
  split_ifs
  · rw [Option.map_eq_bind]
    rfl
  · rw [requestWrite_nil hs]
    rfl

theorem length_of_requestWrite {a b : List UInt8} (h : requestWrite a s = some b) :
    b.length = s.length + a.length ∧ b.length ≤ requestCapacity := by
  unfold requestWrite at h
  split_ifs at h with hle
  rw [← Option.some.inj h, List.length_append]
  exact ⟨rfl, hle⟩

/-- A request is sent if it fits into its stream. -/
theorem negoSendNegotiationRequest_eq (h : r.WellFormed) (written : Bool) :
    negoSendNegotiationRequest written r =
      if requestLength r ≤ requestCapacity then some (if written then some (requestPacket r) else none)
      else none := by
  have hwrite : (do
        let p ← writeTokenOrCookie r tpduConnectionRequestLength
          (List.replicate tpduConnectionRequestLength 0)
        writeNegReq r p) =
      (requestWrite (requestBody r) (List.replicate tpduConnectionRequestLength 0)).map fun s =>
        (s, requestLength r) := by
    rw [writeTokenOrCookie_eq h _ _ (by decide), requestBody, ← requestWrite_bind]
    cases htext : requestWrite (requestText r) (List.replicate tpduConnectionRequestLength 0) with
    | none => rfl
    | some s =>
      rw [Option.map_some, Option.bind_some, Option.bind_eq_bind, Option.bind_some,
        writeNegReq_eq r s _ (length_of_requestWrite htext).2, requestLength, requestBody,
          List.length_append, Nat.add_assoc]
  have hsend : negoSendNegotiationRequest written r =
      ((do
        let p ← writeTokenOrCookie r tpduConnectionRequestLength
          (List.replicate tpduConnectionRequestLength 0)
        writeNegReq r p).bind fun p =>
          if p.2 > 0xFFFF then some none
          else if written then
            some (some (tpktWriteHeader p.2 ++ tpduWriteHeader (p.2 - 5) x224TpduConnectionRequest ++
              p.1.drop tpduConnectionRequestLength))
          else some none) := by
    have hstart : requestWrite (List.replicate tpduConnectionRequestLength 0) [] =
        some (List.replicate tpduConnectionRequestLength 0) := rfl
    unfold negoSendNegotiationRequest
    rw [hstart]
    simp only [Option.bind_eq_bind, Option.bind_some, Option.bind_assoc]
    rfl
  rw [hsend, hwrite, requestWrite, List.length_replicate]
  show (Option.map _ (if requestLength r ≤ requestCapacity then _ else _)).bind _ = _
  by_cases hfits : requestLength r ≤ requestCapacity
  · have hcapacity : requestCapacity = 512 := rfl
    rw [if_pos hfits, if_pos hfits, Option.map_some, Option.bind_some]
    dsimp only
    rw [if_neg (by omega), List.drop_left' List.length_replicate]
    cases written <;> rfl
  · rw [if_neg hfits, if_neg hfits]
    rfl

/-! ### What is read -/

theorem tpktReadHeader_write (hmin : 7 ≤ len) (hmax : len < 2 ^ 16) (hrest : len - 4 ≤ rest.length) :
    tpktReadHeader (tpktWriteHeader len ++ rest) = some (len, rest) := by
  have hlength : tpktHeaderLength ≤ (tpktWriteHeader len ++ rest).length := by
    rw [List.length_append]
    exact Nat.le_add_right 4 _
  have hread : u16be (be16 len ++ rest) = some (len, rest) := Reads.u16be hmax rest
  show ((do
    need tpktHeaderLength
    seek 2
    let len ← u16be
    check (¬ len < 7)
    need (len - tpktHeaderLength)
    return len : Reader ℕ)) (tpktWriteHeader len ++ rest) = _
  rw [need_bind_of_le hlength]
  show ((do
    let len ← u16be
    check (¬ len < 7)
    need (len - tpktHeaderLength)
    return len : Reader ℕ)) (be16 len ++ rest) = _
  have hneed : need (len - tpktHeaderLength) rest = some ((), rest) := need_apply hrest
  rw [bind_apply, hread, Option.bind_some, bind_apply, check, if_pos (by omega), Option.bind_some,
    bind_apply]
  dsimp only
  rw [hneed]
  rfl

theorem tpduReadConnectionRequest_write (length : ℕ) (hlen : length % 2 ^ 8 + 4 ≤ len) (rest : List UInt8) :
    tpduReadConnectionRequest len (tpduWriteHeader length x224TpduConnectionRequest ++ rest) =
      some (length % 2 ^ 8, rest) := by
  have hneed : need 3 (tpduWriteHeader length x224TpduConnectionRequest ++ rest) =
      some ((), tpduWriteHeader length x224TpduConnectionRequest ++ rest) := by
    refine need_apply ?_
    rw [List.length_append]
    show 3 ≤ 7 + rest.length
    omega
  have hbyte : u8 (tpduWriteHeader length x224TpduConnectionRequest ++ rest) =
      some (length % 2 ^ 8, byte x224TpduConnectionRequest ++ (le16 0 ++ le16 0 ++ byte 0 ++ rest)) :=
    u8_byte length _
  have hcode : u8 (byte x224TpduConnectionRequest ++ (le16 0 ++ le16 0 ++ byte 0 ++ rest)) =
      some (x224TpduConnectionRequest, le16 0 ++ le16 0 ++ byte 0 ++ rest) := rfl
  have hheader : tpduReadHeader len (tpduWriteHeader length x224TpduConnectionRequest ++ rest) =
      some ((x224TpduConnectionRequest, length % 2 ^ 8), rest) := by
    rw [tpduReadHeader, bind_apply, hneed, Option.bind_some, bind_apply]
    dsimp only
    rw [hbyte, Option.bind_some, bind_apply]
    dsimp only
    rw [hcode, Option.bind_some, bind_apply, check, if_pos (by omega), Option.bind_some,
      if_neg (show x224TpduConnectionRequest ≠ x224TpduData by decide), bind_apply]
    rfl
  rw [tpduReadConnectionRequest, bind_apply, hheader]
  rfl

/-- The rest of `nego_read_request`, behind the headers. -/
def readRequestBody (n : NegoRequest) : Reader NegoRequest := do
  let n ← negoReadRequestTokenOrCookie n
  let n ← negoReadNegReq n
  let rest ← remainingLength
  check (rest = 0)
  return n

/-- The reader comes to the body if the length indicator has not been cut off. -/
theorem negoReadRequest_packet (n r : NegoRequest) (hfits : requestLength r ≤ requestCapacity) :
    negoReadRequest n (requestPacket r) =
      if requestLength r ≤ 260 then readRequestBody n (requestBody r) else none := by
  have hlength : requestLength r = 11 + (requestBody r).length := rfl
  have hcapacity : requestCapacity = 512 := rfl
  have hlong : requestLength r - 4 ≤ (tpduWriteHeader (requestLength r - 5) x224TpduConnectionRequest ++
      requestBody r).length := by
    rw [List.length_append, hlength]
    show 11 + (requestBody r).length - 4 ≤ 7 + (requestBody r).length
    omega
  rw [negoReadRequest, requestPacket, List.append_assoc, bind_apply,
    tpktReadHeader_write (by omega) (by omega) hlong, Option.bind_some, bind_apply]
  dsimp only
  rw [tpduReadConnectionRequest_write _ (by omega), Option.bind_some]
  show (if (requestLength r - 5) % 2 ^ 8 = (requestBody r).length + 6 then
    some ((), requestBody r) else none).bind (fun p => readRequestBody n p.2) = _
  by_cases hshort : requestLength r ≤ 260
  · rw [if_pos hshort, if_pos (by omega), Option.bind_some]
  · rw [if_neg hshort, if_neg (by omega)]
    rfl

/-! ### The body -/

theorem negoReadNegReq_negReq (n : NegoRequest) (hprotocols : r.requestedProtocols < 2 ^ 32) :
    negoReadNegReq n (negReq r) =
      some ({ n with requestedProtocols := r.requestedProtocols, state := .final }, []) := by
  have hflags : (if r.restrictedAdminModeRequired then restrictedAdminModeRequired else 0) < 2 ^ 8 := by
    split_ifs <;> decide
  have hread : Reads (do
      let type ← u8
      check (type = typeRdpNegReq)
      negoProcessNegotiationRequest n : Reader NegoRequest) (negReq r)
      { n with requestedProtocols := r.requestedProtocols, state := .final } := by
    unfold negReq
    rw [List.append_assoc, List.append_assoc]
    refine (Reads.u8 (by decide)).bind (Reads.skip (Reads.check rfl) (Reads.need (Nat.le_refl 7) ?_))
    exact (Reads.u8 hflags).bind ((Reads.u16le (by decide)).bind ((Reads.u32le hprotocols).map rfl))
  have hrest := hread []
  rw [List.append_nil] at hrest
  exact (if_pos (Nat.le_refl 8)).trans hrest

/-- An `RDP_NEG_REQ` is eight bytes. -/
theorem length_of_negoReadNegReq {p : NegoRequest × List UInt8} (hs : 8 ≤ s.length)
    (h : negoReadNegReq n s = some p) : s.length = p.2.length + 8 := by
  have hprotocols : Consumes 4 u32le :=
    Consumes.u16le.bind (m := 2) fun _ => Consumes.u16le.bind fun _ => Consumes.pure _
  have hprocess : Consumes 7 (negoProcessNegotiationRequest n) :=
    Consumes.need 7 (Consumes.u8.bind (m := 6) fun _ => Consumes.u16le.bind (m := 4) fun _ =>
      hprotocols.bind fun _ => Consumes.pure _)
  have hconsumes : Consumes 8 (do
      let type ← u8
      check (type = typeRdpNegReq)
      negoProcessNegotiationRequest n : Reader NegoRequest) :=
    Consumes.u8.bind (m := 7) fun _ => Consumes.check fun _ => hprocess
  unfold negoReadNegReq at h
  rw [if_pos hs] at h
  exact hconsumes s p.1 p.2 h

/-- The rest of the reader, behind the routing token or the cookie. -/
theorem readRequestBody_eq {n' : NegoRequest} (h : negoReadRequestTokenOrCookie n body = some (n', s)) :
    readRequestBody n body =
      (negoReadNegReq n' s).bind fun p => if p.2.length = 0 then some (p.1, p.2) else none := by
  rw [readRequestBody, bind_apply, h, Option.bind_some, bind_apply]
  dsimp only
  cases negoReadNegReq n' s with
  | none => rfl
  | some p =>
    show (if p.2.length = 0 then some ((), p.2) else none).bind (fun q => some (p.1, q.2)) = _
    rw [Option.bind_some]
    split_ifs <;> rfl

/-- Behind the routing token or the cookie, a request is read to its end. -/
theorem readRequestBody_of {n' : NegoRequest} (hprotocols : r.requestedProtocols < 2 ^ 32)
    (h : negoReadRequestTokenOrCookie n body = some (n', if r.SendsNegoData then negReq r else [])) :
    readRequestBody n body = some (if r.SendsNegoData then
      { n' with requestedProtocols := r.requestedProtocols, state := .final } else n', []) := by
  rw [readRequestBody_eq h]
  split_ifs
  · rw [negoReadNegReq_negReq n' hprotocols]
    rfl
  · rfl

theorem negoReadRequestTokenOrCookie_short (n : NegoRequest) (hs : s.length < 15) :
    negoReadRequestTokenOrCookie n s = some (n, s) := if_pos hs

/-- A routing token does not begin as a cookie does, nor with its line break. -/
theorem take_ne_cookiePrefix {token : List UInt8} (h : ¬ cookiePrefix <+: token) (s : List UInt8) :
    (trimCrlf token ++ crlf ++ s).take 17 ≠ cookiePrefix := by
  intro htake
  rcases Nat.lt_or_ge (trimCrlf token).length 17 with hshort | hlong
  · have hmem : (0x0D : UInt8) ∈ (trimCrlf token ++ crlf ++ s).take 17 := by
      rw [List.append_assoc, List.take_append, List.mem_append]
      obtain ⟨k, hk⟩ : ∃ k, 17 - (trimCrlf token).length = k + 1 := ⟨16 - (trimCrlf token).length, by omega⟩
      rw [hk]
      exact Or.inr List.mem_cons_self
    rw [htake] at hmem
    exact absurd hmem (by decide)
  · rw [List.append_assoc, List.take_append_of_le_length hlong] at htake
    exact h (htake ▸ (List.take_prefix 17 _).trans (isPrefix_trimCrlf token))

/-- A routing token is read up to its line break. -/
theorem negoReadRequestTokenOrCookie_token (n : NegoRequest) {token : List UInt8}
    (h : 13 ≤ token.length ∧ 0 ∉ token ∧ ¬ crlf <:+: trimCrlf token ∧ ¬ cookiePrefix <+: token)
    (hlong : 15 ≤ (trimCrlf token ++ crlf ++ s).length) :
    negoReadRequestTokenOrCookie n (trimCrlf token ++ crlf ++ s) =
      some ({ n with routingToken := some (trimCrlf token) }, s) := by
  obtain ⟨hlength, hzero, hunbroken, hprefix⟩ := h
  have htrim := length_trimCrlf token
  have htake : (trimCrlf token ++ crlf ++ s).take (trimCrlf token).length = trimCrlf token := by
    rw [List.append_assoc, List.take_left' rfl]
  unfold negoReadRequestTokenOrCookie
  rw [if_neg (by omega), if_pos (take_ne_cookiePrefix hprefix s), scanCrlf_append hunbroken]
  show (if 0 ∈ _ ∨ (trimCrlf token).length = 0 then none else _) = _
  rw [htake, if_neg]
  · rfl
  · rintro (hmem | hempty)
    · exact hzero ((isPrefix_trimCrlf token).subset hmem)
    · omega

theorem negoReadRequestTokenOrCookie_cookie (n : NegoRequest) {cookie : List UInt8}
    (hzero : 0 ∉ cookie) (hunbroken : ¬ crlf <:+: cookie) :
    negoReadRequestTokenOrCookie n (cookiePrefix ++ cookie ++ crlf ++ s) =
      some ({ n with cookie := some (cookiePrefix ++ cookie) }, s) := by
  have hlength : (cookiePrefix ++ cookie ++ crlf ++ s).length = 17 + cookie.length + 2 + s.length := by
    rw [List.length_append, List.length_append, List.length_append]
    rfl
  have htake : (cookiePrefix ++ cookie ++ crlf ++ s).take 17 = cookiePrefix := rfl
  have hdrop : (cookiePrefix ++ cookie ++ crlf ++ s).drop 17 = cookie ++ crlf ++ s := rfl
  have htext : (cookiePrefix ++ cookie ++ crlf ++ s).take (17 + cookie.length) = cookiePrefix ++
      cookie := by
    rw [List.append_assoc (cookiePrefix ++ cookie), List.take_left']
    rw [List.length_append]
    rfl
  unfold negoReadRequestTokenOrCookie
  rw [if_neg (by omega), if_neg (not_not.mpr htake), if_neg (by omega), hdrop, scanCrlf_append hunbroken]
  show (if 0 ∈ _ then none else _) = _
  rw [htext, if_neg]
  · rfl
  · rw [List.mem_append]
    exact not_or.mpr ⟨by decide, hzero⟩

/-- A routing token that is too short for the reader, and nothing behind it. -/
def NegoRequest.Short (r : NegoRequest) : Prop :=
  ¬ r.SendsNegoData ∧ ∃ token, r.routingToken = some token ∧ (trimCrlf token).length + 2 < 15

/-- The reader gets the routing token or the cookie. -/
theorem negoReadRequestTokenOrCookie_body (n : NegoRequest) (h : r.WellFormed) (hshort : ¬ r.Short) :
    ∃ n', negoReadRequestTokenOrCookie n (requestBody r) =
        some (n', if r.SendsNegoData then negReq r else []) ∧
      ∀ token, r.routingToken = some token → n'.routingToken = some (trimCrlf token) := by
  unfold requestBody requestText
  cases htoken : r.routingToken with
  | some token =>
    have hwell := h.token token htoken
    refine ⟨_, negoReadRequestTokenOrCookie_token n hwell ?_, fun token' heq => ?_⟩
    · have htrim := length_trimCrlf token
      have hlong : r.SendsNegoData ∨ 15 ≤ (trimCrlf token).length + 2 := by
        by_contra hno
        obtain ⟨hdata, hless⟩ := not_or.mp hno
        exact hshort ⟨hdata, token, htoken, Nat.lt_of_not_le hless⟩
      rw [List.length_append, List.length_append, show crlf.length = 2 from rfl]
      rcases hlong with hdata | hlong
      · rw [if_pos hdata, show (negReq r).length = 8 from rfl]
        omega
      · omega
    · rw [← Option.some.inj heq]
  | none =>
    cases hcookie : r.cookie with
    | none =>
      refine ⟨n, negoReadRequestTokenOrCookie_short n ?_, fun token heq => absurd heq ?_⟩
      · rw [List.nil_append]
        split_ifs
        · exact (by decide : 8 < 15)
        · exact (by decide : 0 < 15)
      · exact (Option.some_ne_none token).symm
    | some cookie =>
      obtain ⟨hzero, hcr, -⟩ := h.cookie cookie hcookie
      refine ⟨_, negoReadRequestTokenOrCookie_cookie n (fun hmem => hzero (List.mem_of_mem_take hmem)) ?_,
        fun token heq => absurd heq (Option.some_ne_none token).symm⟩
      intro hbreak
      exact hcr (List.mem_of_mem_take (hbreak.subset List.mem_cons_self))

/-- A routing token that is too short is taken for an `RDP_NEG_REQ`, and refused. -/
theorem readRequestBody_short (n : NegoRequest) (h : r.WellFormed) (hshort : r.Short) :
    readRequestBody n (requestBody r) = none := by
  obtain ⟨hdata, token, htoken, hless⟩ := hshort
  obtain ⟨hlength, -⟩ := h.token token htoken
  have htrim := length_trimCrlf token
  have hbody : (requestBody r).length = (trimCrlf token).length + 2 := by
    unfold requestBody requestText
    rw [htoken, if_neg hdata, List.append_nil, List.length_append]
    rfl
  rw [readRequestBody_eq (negoReadRequestTokenOrCookie_short n (by omega))]
  cases hread : negoReadNegReq n (requestBody r) with
  | none => rfl
  | some p =>
    have hrest := length_of_negoReadNegReq (by omega) hread
    rw [Option.bind_some, if_neg (by omega)]

/-! ### Round trip -/

/-- The client does not write outside of its stream, and either returns `FALSE`, or the server reads all of
the packet, with the protocols, if they have been sent, and the routing token. -/
def ReadBack (server r : NegoRequest) (written : Bool) : Prop :=
  ∃ result, negoSendNegotiationRequest written r = some result ∧
    ∀ packet, result = some packet → ∃ server', negoReadRequest server packet = some (server', []) ∧
      (r.SendsNegoData → server'.requestedProtocols = r.requestedProtocols) ∧
      ∀ token, r.routingToken = some token → server'.routingToken = some (trimCrlf token)

/-- A request is read back if and only if it fits into the stream, and what the transport takes has a length
indicator that has not been cut off and no routing token that is too short. -/
theorem readBack_iff (h : r.WellFormed) (server : NegoRequest) (written : Bool) :
    ReadBack server r written ↔
      requestLength r ≤ requestCapacity ∧ (written = true → requestLength r ≤ 260 ∧ ¬ r.Short) := by
  unfold ReadBack
  rw [negoSendNegotiationRequest_eq h]
  constructor
  · rintro ⟨result, hresult, hread⟩
    by_cases hfits : requestLength r ≤ requestCapacity
    · refine ⟨hfits, fun hwritten => ?_⟩
      rw [if_pos hfits, hwritten, if_pos rfl] at hresult
      obtain ⟨server', hserver, -⟩ := hread _ (Option.some.inj hresult).symm
      rw [negoReadRequest_packet server r hfits] at hserver
      by_cases hindicator : requestLength r ≤ 260
      · refine ⟨hindicator, fun hshort => ?_⟩
        rw [if_pos hindicator, readRequestBody_short server h hshort] at hserver
        exact Option.some_ne_none _ hserver.symm
      · rw [if_neg hindicator] at hserver
        exact absurd hserver (Option.some_ne_none _).symm
    · rw [if_neg hfits] at hresult
      exact absurd hresult (Option.some_ne_none _).symm
  · rintro ⟨hfits, hread⟩
    rw [if_pos hfits]
    refine ⟨_, rfl, fun packet hpacket => ?_⟩
    cases written with
    | false => exact absurd hpacket (Option.some_ne_none packet).symm
    | true =>
      obtain ⟨hindicator, hshort⟩ := hread rfl
      obtain ⟨n', hn', htoken⟩ := negoReadRequestTokenOrCookie_body server h hshort
      rw [if_pos rfl] at hpacket
      rw [← Option.some.inj hpacket, negoReadRequest_packet server r hfits, if_pos hindicator]
      refine ⟨_, readRequestBody_of h.protocols hn', fun hdata => ?_, fun token heq => ?_⟩
      · rw [if_pos hdata]
      · split_ifs
        · exact htoken token heq
        · exact htoken token heq

/-- A request with a cookie for the user `a`, and a server that has read nothing. -/
def cookieRequest : NegoRequest := ⟨.nla, none, some [97], 255, 3, true, false⟩

theorem readBack_iff_cookieRequest :
    ReadBack ⟨.initial, none, none, 255, 0, false, false⟩ cookieRequest true ↔
      requestLength cookieRequest ≤ requestCapacity ∧
        (true = true → requestLength cookieRequest ≤ 260 ∧ ¬ cookieRequest.Short) := by
  refine readBack_iff ⟨by decide, by decide, fun cookie hcookie => ?_, fun token htoken => ?_⟩ _ true
  · rw [← Option.some.inj hcookie]
    decide
  · exact absurd htoken (Option.some_ne_none token).symm

/-- A routing token of 240 bytes. -/
def longToken : NegoRequest := ⟨.nla, some (List.replicate 240 120), none, 255, 3, false, false⟩

/-- The length indicator of a request with a long routing token has been cut off. -/
theorem not_readBack : ¬ ∀ (server r : NegoRequest) (written : Bool), r.WellFormed →
    ReadBack server r written := by
  intro h
  have hwell : longToken.WellFormed := by
    refine ⟨by decide, by decide, fun cookie hcookie => absurd hcookie (Option.some_ne_none cookie).symm,
      fun token htoken => ?_⟩
    rw [← Option.some.inj htoken]
    decide +kernel
  obtain ⟨result, hresult, hread⟩ := h cookieRequest longToken true hwell
  rw [negoSendNegotiationRequest_eq hwell, if_pos (by decide +kernel), if_pos rfl] at hresult
  obtain ⟨server', hserver, -⟩ := hread _ (Option.some.inj hresult).symm
  rw [negoReadRequest_packet _ _ (by decide +kernel), if_neg (by decide +kernel)] at hserver
  exact Option.some_ne_none _ hserver.symm

end FreeRDP.Core
