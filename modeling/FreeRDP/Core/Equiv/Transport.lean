import FreeRDP.Core.Transport
import FreeRDP.Lib.Segments

/-!
# PDUs and the segments that they arrive in

A call of `transport_default_read_pdu` takes what is ready, up to the end of the PDU (`call_eq`).  So the
PDUs are returned one by one however they arrive, unless one of them has nothing but its header: when the
header has been read, `transport_read_layer_bytes` is asked for no bytes at all, and returns 0 as if none
had arrived (`delivered_iff`).
-/

namespace FreeRDP.Core

open Wire Segments

variable {nlaMode : Bool} {h n : ℕ} {p s rest : List UInt8} {net net' : List (List UInt8)}
  {ps todo : List (List UInt8)}

/-! ### PDUs -/

/-- `Framed nlaMode h p`: `p` is a PDU whose header has `h` bytes. -/
inductive Framed : Bool → ℕ → List UInt8 → Prop
  /-- A TSRequest without length octets. -/
  | der (l : UInt8) (body : List UInt8) (hl : l.toNat < 0x80) (hbody : body.length = l.toNat) :
    Framed true 2 (0x30 :: l :: body)
  /-- A TSRequest with one length octet. -/
  | der₁ (l : UInt8) (body : List UInt8) (hbody : body.length = l.toNat) :
    Framed true 3 (0x30 :: 0x81 :: l :: body)
  /-- A TSRequest with two length octets. -/
  | der₂ (hi lo : UInt8) (body : List UInt8) (hbody : body.length = hi.toNat * 2 ^ 8 + lo.toNat) :
    Framed true 4 (0x30 :: 0x82 :: hi :: lo :: body)
  /-- A TPKT packet. -/
  | tpkt (reserved hi lo : UInt8) (body : List UInt8)
    (hbody : body.length + 4 = hi.toNat * 2 ^ 8 + lo.toNat) (hmin : 7 ≤ body.length + 4) :
    Framed false 4 (0x03 :: reserved :: hi :: lo :: body)
  /-- A fast-path packet with a length of one byte. -/
  | fast (b l : UInt8) (body : List UInt8) (hb : b ≠ 0x03) (hl : l.toNat < 0x80)
    (hbody : body.length + 2 = l.toNat) (hmin : 3 ≤ body.length + 2) : Framed false 2 (b :: l :: body)
  /-- A fast-path packet with a length of two bytes. -/
  | fast₂ (b hi lo : UInt8) (body : List UInt8) (hb : b ≠ 0x03) (hhi : 0x80 ≤ hi.toNat)
    (hbody : body.length + 3 = (hi.toNat - 0x80) * 2 ^ 8 + lo.toNat) :
    Framed false 3 (b :: hi :: lo :: body)

theorem Framed.le_length (hp : Framed nlaMode h p) : 2 ≤ h ∧ h ≤ 4 ∧ h ≤ p.length := by
  cases hp <;> simp only [List.length_cons] <;> omega

/-- The header announces the length of the PDU as soon as it is complete. -/
theorem Framed.announcedLength (hp : Framed nlaMode h p) {b₀ b₁ : UInt8} {more : List UInt8}
    (heq : p = b₀ :: b₁ :: rest ++ more) :
    announcedLength nlaMode b₀ b₁ rest =
      some (if rest.length + 2 < h then none else some p.length) := by
  cases hp with
  | der l body hl hbody =>
    simp only [List.cons_append, List.cons.injEq] at heq
    obtain ⟨rfl, rfl, rfl⟩ := heq
    have hhigh : ¬ l.toNat &&& 0x80 ≠ 0 := fun hc => absurd ((and_0x80 l).mp hc) (by omega)
    rw [Core.announcedLength.eq_def, if_pos rfl, if_pos rfl, if_neg hhigh, if_neg (by omega)]
    simp only [List.length_cons, Option.some.injEq]
    omega
  | der₁ l body hbody =>
    simp only [List.cons_append, List.cons.injEq] at heq
    obtain ⟨rfl, rfl, heq⟩ := heq
    rw [Core.announcedLength.eq_def, if_pos rfl, if_pos rfl, if_pos (by decide), if_pos (by decide)]
    cases rest with
    | nil => rfl
    | cons b₂ rest =>
      obtain ⟨rfl, rfl⟩ := List.cons.inj heq
      dsimp only
      rw [if_neg (by simp only [List.length_cons]; omega)]
      simp only [List.length_cons, Option.some.injEq]
      omega
  | der₂ hi lo body hbody =>
    simp only [List.cons_append, List.cons.injEq] at heq
    obtain ⟨rfl, rfl, heq⟩ := heq
    rw [Core.announcedLength.eq_def, if_pos rfl, if_pos rfl, if_pos (by decide), if_neg (by decide),
      if_pos (by decide)]
    match rest, heq with
    | [], heq => rfl
    | [b₂], heq => rfl
    | b₂ :: b₃ :: rest, heq =>
      simp only [List.cons_append, List.cons.injEq] at heq
      obtain ⟨rfl, rfl, rfl⟩ := heq
      dsimp only
      rw [if_neg (by simp only [List.length_cons]; omega), shiftLeft_or _ lo.toNat_lt]
      simp only [List.length_cons, Option.some.injEq]
      omega
  | tpkt reserved hi lo body hbody hmin =>
    simp only [List.cons_append, List.cons.injEq] at heq
    obtain ⟨rfl, rfl, heq⟩ := heq
    rw [Core.announcedLength.eq_def, if_neg (by decide), if_pos rfl]
    match rest, heq with
    | [], heq => rfl
    | [b₂], heq => rfl
    | b₂ :: b₃ :: rest, heq =>
      simp only [List.cons_append, List.cons.injEq] at heq
      obtain ⟨rfl, rfl, rfl⟩ := heq
      have hhi := hi.toNat_lt
      have hlo := lo.toNat_lt
      dsimp only
      rw [if_neg (c := _ < _) (by simp only [List.length_cons]; omega), shiftLeft_or _ hlo,
        if_neg (by omega)]
      simp only [List.length_cons, Option.some.injEq]
      omega
  | fast b l body hb hl hbody hmin =>
    simp only [List.cons_append, List.cons.injEq] at heq
    obtain ⟨rfl, rfl, rfl⟩ := heq
    have hhigh : ¬ l.toNat &&& 0x80 ≠ 0 := fun hc => absurd ((and_0x80 l).mp hc) (by omega)
    rw [Core.announcedLength.eq_def, if_neg (by decide), if_neg hb, if_neg hhigh]
    dsimp only
    rw [if_neg (by omega), if_neg (by omega)]
    simp only [List.length_cons, Option.some.injEq]
    omega
  | fast₂ b hi lo body hb hhi hbody =>
    simp only [List.cons_append, List.cons.injEq] at heq
    obtain ⟨rfl, rfl, heq⟩ := heq
    rw [Core.announcedLength.eq_def, if_neg (by decide), if_neg hb, if_pos ((and_0x80 hi).mpr hhi)]
    cases rest with
    | nil => rfl
    | cons b₂ rest =>
      obtain ⟨rfl, rfl⟩ := List.cons.inj heq
      have hlt := hi.toNat_lt
      have hlo := lo.toNat_lt
      dsimp only
      rw [if_neg (c := _ < _) (by simp only [List.length_cons]; omega), and_0x7F, shiftLeft_or _ hlo,
        if_neg (by omega)]
      simp only [List.length_cons, Option.some.injEq]
      omega

/-- The length of a PDU is known when its header has arrived. -/
theorem Framed.parse (hp : Framed nlaMode h p) (hs : s <+: p) :
    transportParsePdu nlaMode s =
      some (if s.length < h then (0, true) else (p.length, decide (s.length < p.length))) := by
  have hlen := hs.length_le
  obtain ⟨hmin, -, -⟩ := hp.le_length
  obtain ⟨more, rfl⟩ := hs
  unfold transportParsePdu
  match s with
  | [] => rw [if_pos (by simp only [List.length_nil]; omega)]
  | [b₀] => rw [if_pos (by simp only [List.length_cons, List.length_nil]; omega)]
  | b₀ :: b₁ :: rest =>
    dsimp only
    rw [hp.announcedLength rfl]
    by_cases hshort : rest.length + 2 < h
    · rw [if_pos hshort, if_pos (by simpa only [List.length_cons] using hshort)]
    · rw [if_neg hshort, if_neg (by simpa only [List.length_cons] using hshort)]
      dsimp only
      rw [if_neg (by omega)]

/-! ### Reading -/

/-- What is ready is read, up to the number of bytes that are asked for. -/
theorem readLayerLoop_eq {rounds bytes : ℕ} (hrounds : bytes ≤ rounds) (net : List (List UInt8)) :
    (bytes ≤ (ready net).length → ∃ net', readLayerLoop rounds bytes net = ((ready net).take bytes, net') ∧
      Advanced bytes net net') ∧
    ((ready net).length < bytes → readLayerLoop rounds bytes net = (ready net, later net)) := by
  induction rounds generalizing bytes net with
  | zero =>
    obtain rfl : bytes = 0 := by omega
    exact ⟨fun _ => ⟨net, rfl, Advanced.refl net⟩, nofun⟩
  | succ rounds ih =>
    rw [readLayerLoop]
    by_cases hzero : bytes = 0
    · rw [if_pos hzero]
      subst hzero
      exact ⟨fun _ => ⟨net, rfl, Advanced.refl net⟩, nofun⟩
    rw [if_neg hzero]
    match net with
    | [] => exact ⟨fun hle => absurd hle (by simp only [ready, List.length_nil]; omega), fun _ => rfl⟩
    | [] :: net =>
      exact ⟨fun hle => absurd hle (by simp only [ready, List.length_nil]; omega), fun _ => rfl⟩
    | (b :: data) :: net =>
      have hne : b :: data ≠ [] := List.cons_ne_nil b data
      have hpos : 0 < (b :: data).length := Nat.succ_pos _
      have hlength : (ready ((b :: data) :: net)).length = (b :: data).length + (ready net).length := by
        rw [ready_cons hne, List.length_append]
      have hready : ready ((b :: data) :: net) = _ := ready_cons hne
      have hlater : later ((b :: data) :: net) = _ := later_cons hne
      generalize hseg : b :: data = seg at *
      have hbio : bioRead bytes (seg :: net) =
          if seg.length ≤ bytes then (some seg, net) else (some (seg.take bytes),
            seg.drop bytes :: net) := by
        rw [← hseg]
        rfl
      rw [hbio]
      by_cases hfits : seg.length ≤ bytes
      · -- the whole segment is read
        obtain ⟨henough, hshort⟩ := @ih (bytes - seg.length) (by omega) net
        rw [if_pos hfits]
        dsimp only
        constructor
        · intro hle
          obtain ⟨net', heq, hadvanced⟩ := henough (by omega)
          refine ⟨net', ?_, ?_⟩
          · rw [heq, hready, List.take_append, List.take_of_length_le hfits]
          · have hsum : seg.length + (bytes - seg.length) = bytes := by omega
            exact hsum ▸ hadvanced.cons hne
        · intro hlt
          rw [hshort (by omega), hready, hlater]
      · -- a part of the segment is enough
        rw [if_neg hfits]
        dsimp only
        have hrest : readLayerLoop rounds (bytes - (seg.take bytes).length) (seg.drop bytes :: net) =
            ([], seg.drop bytes :: net) := by
          have hnone : bytes - (seg.take bytes).length = 0 := by
            rw [List.length_take]
            omega
          rw [hnone]
          cases rounds with
          | zero => rfl
          | succ rounds => rfl
        rw [hrest, List.append_nil]
        refine ⟨fun _ => ⟨_, ?_, Advanced.drop (by omega)⟩, fun hlt => absurd hlt (by omega)⟩
        rw [hready, List.take_append_of_le_length (by omega)]

theorem transportReadLayerBytes_ready {toRead : ℕ} (hpos : 0 < toRead) (hle : toRead ≤ (ready net).length) :
    ∃ net', transportReadLayerBytes toRead s net = (s ++ (ready net).take toRead, net', true) ∧
      Advanced toRead net net' := by
  obtain ⟨net', heq, hadvanced⟩ := (readLayerLoop_eq (le_refl toRead) net).1 hle
  have hlength : ((ready net).take toRead).length = toRead := List.length_take_of_le hle
  refine ⟨net', ?_, hadvanced⟩
  rw [transportReadLayerBytes, transportReadLayer, heq]
  dsimp only
  rw [if_neg (by omega), decide_eq_true hlength]

/-- There is a pause before enough bytes have been read. -/
theorem transportReadLayerBytes_paused {toRead : ℕ} (hlt : (ready net).length < toRead) :
    transportReadLayerBytes toRead s net = (s ++ ready net, later net, false) := by
  rw [transportReadLayerBytes, transportReadLayer, (readLayerLoop_eq (le_refl toRead) net).2 hlt]
  dsimp only
  split
  · next hzero => rw [List.eq_nil_of_length_eq_zero hzero, List.append_nil]
  · rw [decide_eq_false (by omega)]

/-- No byte is asked for, and the result says that there was none. -/
theorem transportReadLayerBytes_zero : transportReadLayerBytes 0 s net = (s, net, false) := rfl

/-! ### Calls -/

theorem length_append_take {m : ℕ} (hm : m ≤ (ready net).length) :
    (s ++ (ready net).take m).length = s.length + m := by
  rw [List.length_append, List.length_take_of_le hm]

theorem isPrefix_append_take {m : ℕ} (hstream : s ++ net.flatten = p ++ rest) (hm : m ≤ (ready net).length)
    (hle : s.length + m ≤ p.length) : s ++ (ready net).take m <+: p := by
  have hready : s ++ (ready net).take m <+: p ++ rest := by
    rw [← hstream, ← ready_append_later net, ← List.append_assoc]
    refine List.IsPrefix.trans ?_ (List.prefix_append _ _)
    exact List.prefix_append_right_inj s |>.mpr (List.take_prefix m _)
  refine List.prefix_of_prefix_length_le hready (List.prefix_append p rest) ?_
  rw [length_append_take hm]
  exact hle

theorem append_take_ready (hstream : s ++ net.flatten = p ++ rest) (hs : s.length ≤ p.length)
    (hm : p.length - s.length ≤ (ready net).length) :
    s ++ (ready net).take (p.length - s.length) = p := by
  refine (isPrefix_append_take hstream hm (by omega)).eq_of_length ?_
  rw [length_append_take hm]
  omega

theorem stream_advanced {m : ℕ} (hstream : s ++ net.flatten = p ++ rest) (hm : m ≤ (ready net).length)
    (hadvanced : Advanced m net net') : (s ++ (ready net).take m) ++ net'.flatten = p ++ rest := by
  rw [hadvanced.flatten hm, ← hstream, List.append_assoc, ← ready_append_later net,
    List.drop_append_of_le_length hm, ← List.append_assoc ((ready net).take m), List.take_append_drop]

theorem readHeaderLoop_eq (hp : Framed nlaMode h p) {rounds : ℕ} (hstream : s ++ net.flatten = p ++ rest)
    (hs : s.length ≤ p.length) (hrounds : h < rounds + s.length) (hpos : 0 < rounds) :
    (h ≤ s.length + (ready net).length →
      ∃ net', readHeaderLoop nlaMode rounds s net =
          (s ++ (ready net).take (h - s.length), net', .pdu p.length) ∧
        Advanced (h - s.length) net net') ∧
    (s.length + (ready net).length < h →
      readHeaderLoop nlaMode rounds s net = (s ++ ready net, later net, .again)) := by
  obtain ⟨hmin, -, hle⟩ := hp.le_length
  induction rounds generalizing s net with
  | zero => exact absurd hpos (lt_irrefl 0)
  | succ rounds ih =>
    have hprefix : s <+: p := by
      have := isPrefix_append_take hstream (Nat.zero_le _) (by omega : s.length + 0 ≤ p.length)
      rwa [List.take_zero, List.append_nil] at this
    rw [readHeaderLoop, hp.parse hprefix]
    by_cases hheader : s.length < h
    · rw [if_pos hheader]
      by_cases hone : 1 ≤ (ready net).length
      · -- one more byte of the header
        obtain ⟨net₁, heq, hadvanced⟩ := transportReadLayerBytes_ready (s := s) Nat.one_pos hone
        have hlength : (s ++ (ready net).take 1).length = s.length + 1 := length_append_take hone
        have hready₁ := hadvanced.length_ready
        obtain ⟨henough, hshort⟩ := ih (stream_advanced hstream hone hadvanced) (by omega) (by omega)
          (by omega)
        rw [heq]
        dsimp only
        constructor
        · intro hall
          obtain ⟨net', hloop, hadvanced'⟩ := henough (by omega)
          have hsum : 1 + (h - (s.length + 1)) = h - s.length := by omega
          rw [hlength] at hloop hadvanced'
          refine ⟨net', ?_, hsum ▸ hadvanced.trans hadvanced'⟩
          rw [hloop, hadvanced.ready, List.append_assoc, ← List.take_add, hsum]
          rfl
        · intro hlt
          rw [hshort (by omega), hadvanced.ready, hadvanced.later, List.append_assoc,
            List.take_append_drop]
          rfl
      · rw [transportReadLayerBytes_paused (by omega)]
        exact ⟨fun hall => absurd hall (by omega), fun _ => rfl⟩
    · rw [if_neg hheader]
      have hzero : h - s.length = 0 := by omega
      obtain ⟨n, hn⟩ : ∃ n, p.length = n + 1 := ⟨p.length - 1, by omega⟩
      rw [hzero, List.take_zero, List.append_nil, hn]
      exact ⟨fun _ => ⟨net, rfl, Advanced.refl net⟩, fun hlt => absurd hlt (by omega)⟩

/-- A call that has to wait has read what was ready. -/
theorem transportDefaultReadPdu_paused (hp : Framed nlaMode h p) (hstream : s ++ net.flatten = p ++ rest)
    (hlt : s.length + (ready net).length < p.length) :
    transportDefaultReadPdu nlaMode s net = (s ++ ready net, later net, .again) := by
  obtain ⟨-, hmax, -⟩ := hp.le_length
  have hrounds : h < 5 + s.length := by omega
  obtain ⟨henough, hshort⟩ := readHeaderLoop_eq hp hstream (by omega) hrounds (by omega)
  unfold transportDefaultReadPdu
  by_cases hheader : h ≤ s.length + (ready net).length
  · obtain ⟨net₁, hloop, hadvanced⟩ := henough hheader
    have hlength : (s ++ (ready net).take (h - s.length)).length = _ := length_append_take (by omega)
    have hready₁ := hadvanced.length_ready
    rw [hloop]
    dsimp only
    rw [if_neg (by omega), transportReadLayerBytes_paused (by omega)]
    dsimp only
    rw [hadvanced.ready, hadvanced.later, List.append_assoc, List.take_append_drop]
  · rw [hshort (by omega)]

/-- A call returns the PDU when all of it is ready, and there is something behind its header. -/
theorem transportDefaultReadPdu_ready (hp : Framed nlaMode h p) (hstream : s ++ net.flatten = p ++ rest)
    (hbody : h < p.length) (hs : s.length < p.length) (hle : p.length ≤ s.length + (ready net).length) :
    ∃ net', transportDefaultReadPdu nlaMode s net = (p, net', .pdu p.length) ∧
      Advanced (p.length - s.length) net net' := by
  obtain ⟨-, hmax, -⟩ := hp.le_length
  obtain ⟨net₁, hloop, hadvanced⟩ :=
    (readHeaderLoop_eq hp hstream (by omega) (by omega : h < 5 + s.length) (by omega)).1 (by omega)
  have hlength : (s ++ (ready net).take (h - s.length)).length = _ := length_append_take (by omega)
  have hready₁ := hadvanced.length_ready
  have htoRead : p.length - (s.length + (h - s.length)) ≤ (ready net₁).length := by omega
  obtain ⟨net', heq, hadvanced'⟩ :=
    transportReadLayerBytes_ready (s := s ++ (ready net).take (h - s.length)) (by omega) htoRead
  have hsum : h - s.length + (p.length - (s.length + (h - s.length))) = p.length - s.length := by omega
  have hwhole := append_take_ready (stream_advanced hstream (by omega) hadvanced) (by omega) (by omega)
  rw [hlength] at hwhole
  refine ⟨net', ?_, hsum ▸ hadvanced.trans hadvanced'⟩
  unfold transportDefaultReadPdu
  rw [hloop]
  dsimp only
  rw [if_neg (by omega), hlength, heq]
  dsimp only
  rw [hwhole]

/-- A call does not return a PDU that has nothing behind its header. -/
theorem transportDefaultReadPdu_empty (hp : Framed nlaMode h p) (hstream : s ++ net.flatten = p ++ rest)
    (hbody : h = p.length) (hs : s.length ≤ p.length) (hle : p.length ≤ s.length + (ready net).length) :
    ∃ net', transportDefaultReadPdu nlaMode s net = (p, net', .again) ∧
      Advanced (p.length - s.length) net net' := by
  obtain ⟨-, hmax, -⟩ := hp.le_length
  obtain ⟨net₁, hloop, hadvanced⟩ :=
    (readHeaderLoop_eq hp hstream hs (by omega : h < 5 + s.length) (by omega)).1 (by omega)
  have hwhole : s ++ (ready net).take (h - s.length) = p :=
    hbody ▸ append_take_ready hstream hs (by omega)
  refine ⟨net₁, ?_, hbody ▸ hadvanced⟩
  unfold transportDefaultReadPdu
  rw [hloop, hwhole]
  dsimp only
  rw [if_neg (lt_irrefl _), Nat.sub_self, transportReadLayerBytes_zero]

theorem transportDefaultReadPdu_idle (hready : ready net = []) :
    transportDefaultReadPdu nlaMode [] net = ([], later net, .again) := by
  have hread : transportReadLayerBytes 1 [] net = ([], later net, false) := by
    rw [transportReadLayerBytes_paused (by rw [hready]; exact Nat.one_pos), hready, List.append_nil]
  have hloop : readHeaderLoop nlaMode 5 [] net = ([], later net, .again) := by
    rw [readHeaderLoop, show transportParsePdu nlaMode [] = some (0, true) from rfl]
    rw [hread]
    rfl
  rw [transportDefaultReadPdu, hloop]

/-! ### All calls -/

/-- `p` has bytes behind its header. -/
def HasBody (nlaMode : Bool) (p : List UInt8) : Prop := ∃ h, Framed nlaMode h p ∧ h < p.length

/-- The PDUs of `ps` that have not been returned are in the stream and in the network.  What is in the
stream is a part of the first of them, or all of it if it has nothing behind its header. -/
structure Pending (nlaMode : Bool) (ps todo : List (List UInt8)) (r : PduReader) : Prop where
  failed : r.failed = false
  pdus : ps = r.pdus ++ todo
  bodies : ∀ p ∈ r.pdus, HasBody nlaMode p
  stream : r.s ++ r.net.flatten = todo.flatten
  empty : todo = [] → r.s = []
  part : ∀ p rest, todo = p :: rest → r.s.length ≤ p.length ∧ (HasBody nlaMode p → r.s.length < p.length)

variable {r : PduReader} {rest' : List (List UInt8)}

theorem Pending.call_nil (hr : Pending nlaMode ps [] r) :
    Pending nlaMode ps [] (r.call nlaMode) ∧ (r.call nlaMode).pdus = r.pdus := by
  have hs := hr.empty rfl
  have hflatten : r.net.flatten = [] := by
    have hstream := hr.stream
    rw [hs] at hstream
    exact hstream
  rw [← ready_append_later] at hflatten
  obtain ⟨hready, hlater⟩ := List.append_eq_nil_iff.mp hflatten
  have hcall : r.call nlaMode = { r with s := [], net := later r.net } := by
    rw [PduReader.call, hs, transportDefaultReadPdu_idle hready]
  rw [hcall]
  exact ⟨⟨hr.failed, hr.pdus, hr.bodies, hlater, fun _ => rfl, nofun⟩, rfl⟩

/-- A call stops at a pause if the next PDU is not complete. -/
theorem Pending.call_paused (hr : Pending nlaMode ps (p :: rest') r) (hp : Framed nlaMode h p)
    (hlt : r.s.length + (ready r.net).length < p.length) :
    Pending nlaMode ps (p :: rest') (r.call nlaMode) ∧ (r.call nlaMode).pdus = r.pdus ∧
      pauses (r.call nlaMode).net + 1 = pauses r.net := by
  have hstream : r.s ++ r.net.flatten = p ++ rest'.flatten := hr.stream
  have hcall : r.call nlaMode = { r with s := r.s ++ ready r.net, net := later r.net } := by
    rw [PduReader.call, transportDefaultReadPdu_paused hp hstream hlt]
  have hpauses : pauses r.net ≠ 0 := by
    intro hzero
    have hall := ready_append_later r.net
    rw [later_of_pauses_eq_zero hzero, List.flatten_nil, List.append_nil] at hall
    have hlength := congrArg List.length hstream
    rw [List.length_append, List.length_append, ← hall] at hlength
    omega
  rw [hcall]
  refine ⟨⟨hr.failed, hr.pdus, hr.bodies, ?_, nofun, ?_⟩, rfl, ?_⟩
  · dsimp only
    rw [List.append_assoc, ready_append_later]
    exact hr.stream
  · intro q rest'' heq'
    obtain ⟨rfl, rfl⟩ := List.cons.inj heq'
    dsimp only
    rw [List.length_append]
    exact ⟨by omega, fun _ => by omega⟩
  · dsimp only
    rw [pauses_later]
    omega

/-- A call either returns the next PDU or stops at a pause. -/
theorem Pending.call_body (hr : Pending nlaMode ps (p :: rest') r) (hbody : HasBody nlaMode p) :
    (p.length ≤ r.s.length + (ready r.net).length ∧ Pending nlaMode ps rest' (r.call nlaMode) ∧
      (r.call nlaMode).pdus = r.pdus ++ [p] ∧ pauses (r.call nlaMode).net = pauses r.net) ∨
    (r.s.length + (ready r.net).length < p.length ∧ Pending nlaMode ps (p :: rest') (r.call nlaMode) ∧
      (r.call nlaMode).pdus = r.pdus ∧ pauses (r.call nlaMode).net + 1 = pauses r.net) := by
  obtain ⟨h, hp, hlt⟩ := hbody
  obtain ⟨hs, hpart⟩ := hr.part p rest' rfl
  have hpart := hpart ⟨h, hp, hlt⟩
  have hstream : r.s ++ r.net.flatten = p ++ rest'.flatten := hr.stream
  by_cases hle : p.length ≤ r.s.length + (ready r.net).length
  · left
    obtain ⟨net', heq, hadvanced⟩ := transportDefaultReadPdu_ready hp hstream hlt hpart hle
    have hcall : r.call nlaMode = { r with s := [], net := net', pdus := r.pdus ++ [p] } := by
      rw [PduReader.call, heq]
      dsimp only
      rw [List.take_length]
    have hnet : net'.flatten = rest'.flatten := by
      have hm : p.length - r.s.length ≤ (ready r.net).length := by omega
      have hadv := stream_advanced hstream hm hadvanced
      rw [append_take_ready hstream hs hm] at hadv
      exact List.append_cancel_left hadv
    rw [hcall]
    refine ⟨hle, ⟨hr.failed, ?_, ?_, hnet, fun _ => rfl, ?_⟩, rfl, hadvanced.pauses⟩
    · rw [hr.pdus, List.append_assoc, List.singleton_append]
    · intro q hq
      rcases List.mem_append.mp hq with hq | hq
      · exact hr.bodies q hq
      · rw [List.mem_singleton.mp hq]
        exact ⟨h, hp, hlt⟩
    · intro q rest'' heq'
      refine ⟨Nat.zero_le _, ?_⟩
      rintro ⟨h', hq, hlt'⟩
      exact lt_of_le_of_lt (Nat.zero_le _) hlt'
  · exact Or.inr ⟨by omega, hr.call_paused hp (by omega)⟩

/-- A PDU that has nothing behind its header is never returned. -/
theorem Pending.call_empty (hr : Pending nlaMode ps (p :: rest') r) (hp : Framed nlaMode h p)
    (hbody : ¬ HasBody nlaMode p) :
    Pending nlaMode ps (p :: rest') (r.call nlaMode) ∧ (r.call nlaMode).pdus = r.pdus := by
  obtain ⟨hs, -⟩ := hr.part p rest' rfl
  obtain ⟨-, -, hle'⟩ := hp.le_length
  have hlength : h = p.length := by
    by_contra hne
    exact hbody ⟨h, hp, by omega⟩
  have hstream : r.s ++ r.net.flatten = p ++ rest'.flatten := hr.stream
  by_cases hle : p.length ≤ r.s.length + (ready r.net).length
  · obtain ⟨net', heq, hadvanced⟩ := transportDefaultReadPdu_empty hp hstream hlength hs hle
    have hcall : r.call nlaMode = { r with s := p, net := net' } := by rw [PduReader.call, heq]
    have hm : p.length - r.s.length ≤ (ready r.net).length := by omega
    have hadv := stream_advanced hstream hm hadvanced
    rw [append_take_ready hstream hs hm] at hadv
    rw [hcall]
    refine ⟨⟨hr.failed, hr.pdus, hr.bodies, hadv, nofun, ?_⟩, rfl⟩
    intro q rest'' heq'
    obtain ⟨rfl, rfl⟩ := List.cons.inj heq'
    exact ⟨le_refl _, fun hc => absurd hc hbody⟩
  · obtain ⟨hpending, hpdus, -⟩ := hr.call_paused hp (by omega)
    exact ⟨hpending, hpdus⟩

/-- Something is pending after any number of calls. -/
theorem calls_pending (hframed : ∀ p ∈ ps, ∃ h, Framed nlaMode h p) (hnet : net.flatten = ps.flatten)
    (n : ℕ) : ∃ todo, Pending nlaMode ps todo (PduReader.calls nlaMode net n) := by
  induction n with
  | zero =>
    refine ⟨ps, rfl, rfl, nofun, hnet, fun _ => rfl, fun p rest' heq => ⟨Nat.zero_le _, ?_⟩⟩
    rintro ⟨h, -, hlt⟩
    exact lt_of_le_of_lt (Nat.zero_le _) hlt
  | succ n ih =>
    obtain ⟨todo, hr⟩ := ih
    rw [PduReader.calls]
    cases todo with
    | nil => exact ⟨[], hr.call_nil.1⟩
    | cons p rest' =>
      by_cases hbody : HasBody nlaMode p
      · rcases hr.call_body hbody with ⟨-, hr', -⟩ | ⟨-, hr', -⟩
        · exact ⟨rest', hr'⟩
        · exact ⟨p :: rest', hr'⟩
      · obtain ⟨h, hp⟩ := hframed p (by rw [hr.pdus]; exact List.mem_append_right _ List.mem_cons_self)
        exact ⟨p :: rest', (hr.call_empty hp hbody).1⟩

/-- The PDUs of `ps` are returned, one by one and in order, without a byte lost or carried over; a call
returns a PDU when all of it is ready; and calls go on until all have been returned. -/
structure Delivered (nlaMode : Bool) (ps net : List (List UInt8)) : Prop where
  inOrder : ∀ n, (PduReader.calls nlaMode net n).failed = false ∧
    (PduReader.calls nlaMode net n).pdus <+: ps ∧
    (PduReader.calls nlaMode net n).pdus.flatten ++ (PduReader.calls nlaMode net n).s ++
      (PduReader.calls nlaMode net n).net.flatten = ps.flatten
  prompt : ∀ n p, (PduReader.calls nlaMode net n).pdus ++ [p] <+: ps →
    p.length ≤ (PduReader.calls nlaMode net n).s.length +
      (ready (PduReader.calls nlaMode net n).net).length →
    (PduReader.calls nlaMode net (n + 1)).pdus = (PduReader.calls nlaMode net n).pdus ++ [p]
  complete : ∃ n, (PduReader.calls nlaMode net n).pdus = ps ∧ (PduReader.calls nlaMode net n).s = [] ∧
    (PduReader.calls nlaMode net n).net.flatten = []

/-- Each call returns a PDU or uses up a pause, until everything has been returned. -/
theorem calls_progress (hbodies : ∀ p ∈ ps, HasBody nlaMode p) (hnet : net.flatten = ps.flatten) (n : ℕ) :
    (PduReader.calls nlaMode net n).pdus = ps ∨
      n + pauses (PduReader.calls nlaMode net n).net ≤
        (PduReader.calls nlaMode net n).pdus.length + pauses net := by
  have hframed : ∀ p ∈ ps, ∃ h, Framed nlaMode h p := fun p hp => by
    obtain ⟨h, hp, -⟩ := hbodies p hp
    exact ⟨h, hp⟩
  induction n with
  | zero =>
    right
    change 0 + pauses net ≤ 0 + pauses net
    omega
  | succ n ih =>
    obtain ⟨todo, hr⟩ := calls_pending hframed hnet n
    rw [PduReader.calls]
    cases todo with
    | nil =>
      left
      rw [hr.call_nil.2, hr.pdus, List.append_nil]
    | cons p rest' =>
      have hmem : p ∈ ps := by
        rw [hr.pdus]
        exact List.mem_append_right _ List.mem_cons_self
      have hle : n + pauses (PduReader.calls nlaMode net n).net ≤
          (PduReader.calls nlaMode net n).pdus.length + pauses net := by
        rcases ih with hall | hle
        · have hlength := congrArg List.length hr.pdus
          rw [hall, List.length_append, List.length_cons] at hlength
          omega
        · exact hle
      right
      rcases hr.call_body (hbodies p hmem) with ⟨-, -, hpdus, hpauses⟩ | ⟨-, -, hpdus, hpauses⟩
      · rw [hpdus, hpauses, List.length_append, List.length_singleton]
        omega
      · rw [hpdus]
        omega

/-- PDUs are delivered however they arrive if and only if each of them has bytes behind its header. -/
theorem delivered_iff (nlaMode : Bool) (ps net : List (List UInt8))
    (hframed : ∀ p ∈ ps, ∃ h, Framed nlaMode h p) (hnet : net.flatten = ps.flatten) :
    Delivered nlaMode ps net ↔ ∀ p ∈ ps, HasBody nlaMode p := by
  constructor
  · rintro ⟨-, -, n, hall, -⟩ p hp
    obtain ⟨todo, hr⟩ := calls_pending hframed hnet n
    exact hr.bodies p (hall ▸ hp)
  · intro hbodies
    refine ⟨fun n => ?_, fun n p hpre hle => ?_, ?_⟩
    · obtain ⟨todo, hr⟩ := calls_pending hframed hnet n
      refine ⟨hr.failed, ?_, ?_⟩
      · exact ⟨todo, hr.pdus.symm⟩
      · rw [List.append_assoc, hr.stream, ← List.flatten_append, ← hr.pdus]
    · obtain ⟨todo, hr⟩ := calls_pending hframed hnet n
      obtain ⟨rest', hps⟩ := hpre
      have htodo : todo = p :: rest' := by
        have heq := hr.pdus.symm.trans hps.symm
        rw [List.append_assoc, List.singleton_append] at heq
        exact List.append_cancel_left heq
      subst htodo
      have hmem : p ∈ ps := by
        rw [hr.pdus]
        exact List.mem_append_right _ List.mem_cons_self
      rw [PduReader.calls]
      rcases hr.call_body (hbodies p hmem) with ⟨-, -, hpdus, -⟩ | ⟨hlt, -⟩
      · exact hpdus
      · exact absurd hle (by omega)
    · -- each call that does not return a PDU uses up a pause
      obtain ⟨todo, hr⟩ := calls_pending hframed hnet (ps.length + pauses net + 1)
      have hall : (PduReader.calls nlaMode net (ps.length + pauses net + 1)).pdus = ps := by
        rcases calls_progress hbodies hnet (ps.length + pauses net + 1) with hall | hle
        · exact hall
        · have hlength := congrArg List.length hr.pdus
          rw [List.length_append] at hlength
          omega
      have htodo : todo = [] := by
        have heq := hr.pdus
        rw [hall] at heq
        exact List.self_eq_append_right.mp heq
      subst htodo
      have hs := hr.empty rfl
      have hstream := hr.stream
      rw [hs] at hstream
      exact ⟨_, hall, hs, hstream⟩

/-- A TPKT packet in three parts with a pause, and the fast-path packet behind it. -/
theorem delivered_example :
    Delivered false [[0x03, 0, 0, 7, 1, 2, 3], [0x00, 3, 9]]
      [[0x03], [0, 0, 7, 1], [], [2, 3, 0x00, 3, 9]] ↔
      ∀ p ∈ [[0x03, 0, 0, 7, 1, 2, 3], [0x00, 3, 9]], HasBody false p := by
  apply delivered_iff
  · intro p hp
    rcases List.mem_cons.mp hp with rfl | hp
    · exact ⟨4, .tpkt 0 0 7 [1, 2, 3] rfl (by decide)⟩
    · rw [List.mem_singleton.mp hp]
      exact ⟨2, .fast 0x00 3 [9] (by decide) (by decide) rfl (by decide)⟩
  · rfl

/-- A fast-path packet of three bytes, two of which are its length: all of it has arrived, and the call
returns 0. -/
theorem not_delivered_header_only : Framed false 3 [0x00, 0x80, 0x03] ∧
    ¬ Delivered false [[0x00, 0x80, 0x03]] [[0x00, 0x80, 0x03]] := by
  refine ⟨.fast₂ 0x00 0x80 0x03 [] (by decide) (by decide) (by decide), fun hd => ?_⟩
  have hprompt := hd.prompt 0 [0x00, 0x80, 0x03] (List.prefix_refl _) (by decide)
  exact absurd hprompt (by decide)

end FreeRDP.Core
