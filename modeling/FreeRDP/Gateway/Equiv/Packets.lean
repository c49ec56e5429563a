import FreeRDP.Gateway.Packets
import FreeRDP.Gateway.Equiv.Chunked

/-!
# The data channel of the gateway

A connection without an encoding, and one with chunks, are sources of bytes (`rdgSocketRead_delivers`).
Over any of the two, the data channel is a source of the data of the packets
(`rdgReadDataPacket_delivers`): between two calls, `packetRemainingCount` bytes of data are left, and
then whole packets.

A control packet of more than `INT_MAX` bytes is refused before it has been read
(`rdgReadDataPacket_refused`).
-/

namespace FreeRDP.Gateway

open Wire (le16 le32 u16le u32le)

variable {s : Socket} {todo rest buffer data : List UInt8} {size n : ℕ} {present : List UInt8 → Bool}

/-! ### Sockets -/

/-- A connection over which bytes are going to arrive. -/
inductive Socket.Carries : Socket → List UInt8 → Prop
  | identity {net : List (List UInt8)} : Carries (.identity net) net.flatten
  | chunked {s : ChunkedSource} {todo : List UInt8} (hs : s.1.Decodes s.2.flatten todo) :
    Carries (.chunked s) todo

theorem rdgSocketRead_delivers :
    Source.Delivers (fun n _ => IsBufferSize n) rdgSocketRead ReadStatus.data ReadStatus.Fine Socket.Carries
      (fun s => netSize s.net) where
  fine hs hn := by
    cases hs with
    | identity => exact ⟨_, rfl⟩
    | chunked hs => exact rdgChunckedRead_delivers.fine hs hn
  length_le hs hn := by
    cases hs with
    | @identity net =>
      obtain ⟨net', hread, -, -⟩ | ⟨data, net', hread, -, hle, -, -⟩ := bioRead_cases hn net
      · rw [rdgSocketRead, hread]
        exact Nat.zero_le _
      · rw [rdgSocketRead, hread]
        exact hle
    | chunked hs => exact rdgChunckedRead_delivers.length_le hs hn
  step hs hn := by
    cases hs with
    | @identity net =>
      obtain ⟨net', hread, hflatten, -⟩ | ⟨data, net', hread, -, -, hflatten, -⟩ := bioRead_cases hn net
      · rw [rdgSocketRead, hread]
        exact ⟨net.flatten, rfl, hflatten ▸ .identity⟩
      · rw [rdgSocketRead, hread]
        exact ⟨net'.flatten, hflatten, .identity⟩
    | chunked hs =>
      obtain ⟨todo', heq, hs'⟩ := rdgChunckedRead_delivers.step hs hn
      exact ⟨todo', heq, .chunked hs'⟩
  fuel_le hs hn := by
    cases hs with
    | @identity net =>
      obtain ⟨net', hread, -, hless⟩ | ⟨data, net', hread, -, -, -, hless⟩ := bioRead_cases hn net
      · rw [rdgSocketRead, hread]
        exact hless
      · rw [rdgSocketRead, hread]
        exact hless
    | chunked hs => exact rdgChunckedRead_delivers.fuel_le hs hn
  done hs hfuel := by
    cases hs with
    | @identity net =>
      obtain rfl := netSize_eq_zero hfuel
      rfl
    | chunked hs => exact rdgChunckedRead_delivers.done hs hfuel

/-- What a read of a connection returns: nothing, or the next bytes.  It is never 0. -/
theorem rdgSocketRead_cases (hs : s.Carries todo) (hsize : IsBufferSize size) :
    (∃ s', rdgSocketRead size s = (.ok none, s') ∧ s'.Carries todo ∧ netSize s'.net ≤ netSize s.net - 1) ∨
      ∃ data todo' s', rdgSocketRead size s = (.ok (some data), s') ∧ data ≠ [] ∧ data.length ≤ size ∧
        todo = data ++ todo' ∧ s'.Carries todo' ∧ netSize s'.net ≤ netSize s.net - 1 := by
  cases hs with
  | @identity net =>
    obtain ⟨net', hread, hflatten, hless⟩ | ⟨data, net', hread, hne, hle, hflatten, hless⟩ :=
      bioRead_cases hsize net
    · refine .inl ⟨.identity net', ?_, hflatten ▸ .identity, hless⟩
      rw [rdgSocketRead, hread]
    · refine .inr ⟨data, net'.flatten, .identity net', ?_, hne, hle, hflatten, .identity, hless⟩
      rw [rdgSocketRead, hread]
  | @chunked s todo hs =>
    obtain ⟨data, todo', ctx', net', hread, hle, heq, hs', hless⟩ :=
      chunkedReadLoop_spec hs hsize (Nat.lt_succ_self _)
    by_cases hne : data = []
    · subst hne
      refine .inl ⟨.chunked (ctx', net'), ?_, .chunked ?_, hless⟩
      · rw [rdgSocketRead, rdgChunckedRead, hread]
        rfl
      · rw [heq]
        exact hs'
    · refine .inr ⟨data, todo', .chunked (ctx', net'), ?_, hne, hle, heq, .chunked hs', hless⟩
      rw [rdgSocketRead, rdgChunckedRead, hread]
      exact congrArg (·, Socket.chunked (ctx', net')) (effective_append hne [])

theorem Socket.Carries.of_netSize_eq_zero (hs : s.Carries todo) (hnet : netSize s.net = 0) : todo = [] :=
  rdgSocketRead_delivers.done hs hnet

/-! ### Loops that read -/

variable {rounds : ℕ}

/-- The loop reads the bytes that are next, unless it gives up before the first one. -/
theorem readFully_spec (giveUp : ℕ → Bool) (hgiveUp : ∀ n, giveUp n = true → n = 0)
    (hs : s.Carries (rest ++ todo))
    (hlength : buffer.length + rest.length = size) (hsize : size ≤ intMax)
    (hrounds : netSize s.net < rounds) :
    (∃ s', readFully giveUp size rounds buffer s = (.ok none, s') ∧ giveUp 0 = true ∧ buffer = [] ∧
        s'.Carries (rest ++ todo) ∧ netSize s'.net ≤ netSize s.net - 1) ∨
      ∃ s', readFully giveUp size rounds buffer s = (.ok (some (buffer ++ rest)), s') ∧ s'.Carries todo ∧
        netSize s'.net ≤ netSize s.net - min 1 rest.length := by
  induction rounds generalizing buffer rest s with
  | zero => exact absurd hrounds (Nat.not_lt_zero _)
  | succ rounds ih =>
    rw [readFully]
    cases rest with
    | nil =>
      rw [if_neg (by rw [← hlength]; simp), List.append_nil]
      exact .inr ⟨s, rfl, hs, Nat.le_refl _⟩
    | cons byte rest =>
      have hlt : buffer.length < size := by
        rw [List.length_cons] at hlength
        omega
      have hpos : netSize s.net ≠ 0 := fun hnet => List.cons_ne_nil _ _ (hs.of_netSize_eq_zero hnet)
      have hmin : min 1 (byte :: rest).length = 1 := Nat.min_eq_left (Nat.succ_pos _)
      rw [if_pos hlt, hmin]
      obtain ⟨s', hread, hs', hless⟩ | ⟨data, todo', s', hread, hne, hle, heq, hs', hless⟩ :=
        rdgSocketRead_cases hs (⟨by omega, by omega⟩ : IsBufferSize (size - buffer.length))
      · rw [hread]
        dsimp only
        by_cases hgive : giveUp buffer.length = true
        · have hbuffer := hgiveUp _ hgive
          rw [if_pos hgive]
          exact .inl ⟨s', rfl, hbuffer ▸ hgive, List.length_eq_zero_iff.mp hbuffer, hs', hless⟩
        · rw [if_neg hgive]
          obtain ⟨s'', hloop, hzero, rfl, -, -⟩ | ⟨s'', hloop, hs'', hless'⟩ := ih hs' hlength (by omega)
          · exact absurd hzero hgive
          · exact .inr ⟨s'', hloop, hs'', by omega⟩
      · -- the bytes are the beginning of what the loop wants
        obtain ⟨rest', hrest⟩ : data <+: byte :: rest :=
          List.prefix_of_prefix_length_le ⟨todo', heq.symm⟩ (List.prefix_append _ _) (by omega)
        obtain rfl : rest' ++ todo = todo' := by
          rw [← hrest, List.append_assoc] at heq
          exact List.append_cancel_left heq
        obtain ⟨first, data, rfl⟩ := List.exists_cons_of_ne_nil hne
        rw [hread]
        dsimp only
        have hsum : (buffer ++ first :: data).length + rest'.length = size := by
          have hlen := congrArg List.length hrest
          rw [List.length_append] at hlen ⊢
          omega
        rw [if_neg (by omega), ← hrest, ← List.append_assoc]
        obtain ⟨s'', hloop, -, hbuffer, -, -⟩ | ⟨s'', hloop, hs'', hless'⟩ := ih hs' hsum (by omega)
        · exact absurd (List.append_eq_nil_iff.mp hbuffer).2 hne
        · exact .inr ⟨s'', hloop, hs'', by omega⟩

theorem readFully_start (giveUp : ℕ → Bool) (hgiveUp : ∀ n, giveUp n = true → n = 0)
    (hs : s.Carries (rest ++ todo))
    (hrest : rest.length ≤ intMax) :
    (∃ s', readFully giveUp rest.length s.rounds [] s = (.ok none, s') ∧ giveUp 0 = true ∧
        s'.Carries (rest ++ todo) ∧ netSize s'.net ≤ netSize s.net - 1) ∨
      ∃ s', readFully giveUp rest.length s.rounds [] s = (.ok (some rest), s') ∧ s'.Carries todo ∧
        netSize s'.net ≤ netSize s.net - min 1 rest.length := by
  have hlength : ([] : List UInt8).length + rest.length = rest.length := Nat.zero_add _
  obtain ⟨s', hread, hzero, -, hs', hless⟩ | ⟨s', hread, hs', hless⟩ :=
    readFully_spec giveUp hgiveUp hs hlength hrest (Nat.lt_succ_self _)
  · exact .inl ⟨s', hread, hzero, hs', hless⟩
  · exact .inr ⟨s', hread, hs', hless⟩

/-- A loop that does not give up. -/
theorem readFully_all (hs : s.Carries (rest ++ todo)) (hrest : rest.length ≤ intMax) :
    ∃ s', readFully (fun _ => false) rest.length s.rounds [] s = (.ok (some rest), s') ∧ s'.Carries todo ∧
      netSize s'.net ≤ netSize s.net := by
  obtain ⟨s', -, hfalse, -, -⟩ | ⟨s', hread, hs', hless⟩ :=
    readFully_start (fun _ => false) (fun n h => absurd h Bool.false_ne_true) hs hrest
  · exact absurd hfalse Bool.false_ne_true
  · exact ⟨s', hread, hs', by omega⟩

/-- Where nothing is going to arrive, the loop gives up if it can. -/
theorem readFully_nil (giveUp : ℕ → Bool) (hgiveUp : giveUp 0 = true) (hs : s.Carries [])
    (hsize : IsBufferSize size)
    (hrounds : netSize s.net < rounds) :
    ∃ s', readFully giveUp size rounds [] s = (.ok none, s') ∧ s'.Carries [] ∧
      netSize s'.net ≤ netSize s.net - 1 := by
  obtain ⟨rounds, rfl⟩ := Nat.exists_eq_succ_of_ne_zero (Nat.ne_zero_of_lt hrounds)
  obtain ⟨s', hread, hs', hless⟩ | ⟨data, todo', s', -, hne, -, heq, -, -⟩ := rdgSocketRead_cases hs hsize
  · refine ⟨s', ?_, hs', hless⟩
    rw [readFully, List.length_nil, if_pos hsize.1, Nat.sub_zero, hread]
    exact if_pos hgiveUp
  · exact absurd (List.append_eq_nil_iff.mp heq.symm).1 hne

/-! ### Packets -/

inductive Packet
  | data (reserved : ℕ) (data : List UInt8)
  | control (type reserved : ℕ) (payload : List UInt8)

/-- The fields fit, and it is not a packet that closes the channel. -/
def Packet.WellFormed : Packet → Prop
  | .data reserved data => reserved < 2 ^ 16 ∧ 1 ≤ data.length ∧ data.length ≤ 65535
  | .control type reserved payload => reserved < 2 ^ 16 ∧ type < 2 ^ 16 ∧ type ≠ pktTypeData ∧
      type ≠ pktTypeCloseChannel ∧ payload.length + 8 < 2 ^ 32

/-- `RdgPacketHeader`. -/
def packetHeader (type reserved packetLength : ℕ) : List UInt8 :=
  le16 type ++ le16 reserved ++ le32 packetLength

def Packet.header : Packet → List UInt8
  | .data reserved data => packetHeader pktTypeData reserved (data.length + 10)
  | .control type reserved payload => packetHeader type reserved (payload.length + 8)

/-- The bytes of a packet behind its header. -/
def Packet.body : Packet → List UInt8
  | .data _ data => le16 data.length ++ data
  | .control _ _ payload => payload

def Packet.encode (p : Packet) : List UInt8 := p.header ++ p.body

def Packet.dataOf : Packet → List UInt8
  | .data _ data => data
  | .control .. => []

/-- A control packet that fits an `int`. -/
def Packet.Short : Packet → Prop
  | .data .. => True
  | .control _ _ payload => payload.length ≤ intMax

theorem Packet.length_header (p : Packet) : p.header.length = 8 := by
  cases p <;> rfl

theorem Packet.encode_ne_nil (p : Packet) : p.encode ≠ [] := by
  cases p <;> exact List.cons_ne_nil _ _

/-- The fields that are used can be read back. -/
theorem rdgPacketHeader_reads {type reserved packetLength : ℕ} (htype : type < 2 ^ 16)
    (hreserved : reserved < 2 ^ 16)
    (hlength : packetLength < 2 ^ 32) :
    Wire.Reads rdgPacketHeader (packetHeader type reserved packetLength) (type, packetLength) := by
  rw [packetHeader, List.append_assoc]
  exact (Wire.Reads.u16le htype).bind
    ((Wire.Reads.u16le hreserved).bind ((Wire.Reads.u32le hlength).map rfl))

/-- A service message that cannot be read, or that is not presented. -/
def Packet.Refused (present : List UInt8 → Bool) : Packet → Prop
  | .control type _ payload =>
    processControl present type (if payload = [] then none else some payload) = .ok false
  | .data _ _ => False

/-- A read of the data channel returns the beginning of `todo`, and leaves the rest. -/
structure Rdg.Step (refused : Prop) (I : Rdg → List UInt8 → Prop) (rdg : Rdg) (todo : List UInt8)
    (size : ℕ) (out : ReadStatus × Rdg) : Prop where
  fine : out.1.Fine ∨ out.1 = .error .refused ∧ refused
  length_le : out.1.data.length ≤ size
  step : ∃ todo', todo = out.1.data ++ todo' ∧ I out.2 todo'
  fuel_le : netSize out.2.socket.net ≤ netSize rdg.socket.net - 1

/-- The data channel in front of `left`, which is the rest of a data packet, and of packets. -/
structure Rdg.Between (present : List UInt8 → Bool) (refused : Prop) (rdg : Rdg) (left : List UInt8)
    (ps : List Packet) : Prop where
  count : left.length = rdg.packetRemainingCount
  carries : rdg.socket.Carries (left ++ ps.flatMap Packet.encode)
  wellFormed : ∀ p ∈ ps, p.WellFormed ∧ p.Short ∧ (p.Refused present → refused)

/-- The data channel, and the data that is still to be returned. -/
def Rdg.Carries (present : List UInt8 → Bool) (refused : Prop) (rdg : Rdg) (todo : List UInt8) : Prop :=
  ∃ left ps, rdg.Between present refused left ps ∧ todo = left ++ ps.flatMap Packet.dataOf

variable {refused : Prop} {rdg : Rdg} {left : List UInt8} {ps : List Packet}

theorem readPacketData_spec (h : rdg.Between present refused left ps) (hleft : left ≠ [])
    (hsize : IsBufferSize size) :
    rdg.Step refused (Rdg.Carries present refused) (left ++ ps.flatMap Packet.dataOf) size (readPacketData size rdg) := by
  obtain ⟨count, hcarries, hps⟩ := h
  have hpos := List.length_pos_iff.mpr hleft
  rw [readPacketData]
  generalize hread : (if rdg.packetRemainingCount < size then rdg.packetRemainingCount else size) = readSize
  have hreadSize : IsBufferSize readSize ∧ readSize ≤ size ∧ readSize ≤ left.length := by
    obtain ⟨hsizePos, hsizeLe⟩ := hsize
    unfold IsBufferSize
    split at hread <;> omega
  obtain ⟨hbuffer, hle, hleLeft⟩ := hreadSize
  obtain ⟨s', hsocket, hs', hless⟩ | ⟨data, todo', s', hsocket, hne, hlength, heq, hs', hless⟩ :=
    rdgSocketRead_cases hcarries hbuffer
  · rw [hsocket]
    exact ⟨.inl ⟨_, rfl⟩, Nat.zero_le _, ⟨_, rfl, left, ps, ⟨count, hs', hps⟩, rfl⟩, hless⟩
  · obtain ⟨left', rfl⟩ : data <+: left :=
      List.prefix_of_prefix_length_le ⟨todo', heq.symm⟩ (List.prefix_append _ _) (by omega)
    obtain rfl : left' ++ ps.flatMap Packet.encode = todo' := by
      rw [List.append_assoc] at heq
      exact List.append_cancel_left heq
    obtain ⟨first, data, rfl⟩ := List.exists_cons_of_ne_nil hne
    rw [hsocket]
    refine ⟨.inl ⟨_, rfl⟩, hlength.trans hle,
      ⟨left' ++ ps.flatMap Packet.dataOf, List.append_assoc _ _ _, left', ps,
      ⟨?_, hs', hps⟩, rfl⟩, hless⟩
    rw [List.length_append] at count
    exact Nat.eq_sub_of_add_eq' count

/-- A control packet that does not close the channel is accepted or refused. -/
theorem controlStatus_cases {type : ℕ} (htype : type ≠ pktTypeCloseChannel)
    (payload : Option (List UInt8)) :
    controlStatus present type payload = .ok none ∨
      controlStatus present type payload = .error .refused ∧
        processControl present type payload = .ok false := by
  obtain ⟨accepted, haccepted⟩ : ∃ accepted, processControl present type payload = .ok accepted := by
    unfold processControl
    rw [if_neg htype]
    split_ifs
    · exact ⟨_, rfl⟩
    · cases payload with
      | none => exact ⟨_, rfl⟩
      | some payload =>
        dsimp only
        cases rdgReadHttpUnicodeString payload with
        | none => exact ⟨_, rfl⟩
        | some msg => exact ⟨_, rfl⟩
    · exact ⟨_, rfl⟩
  rw [controlStatus, haccepted]
  cases accepted with
  | false => exact .inr ⟨rfl, rfl⟩
  | true => exact .inl rfl

/-- The payload of a control packet is read, whether it is accepted or not. -/
theorem rdgProcessControlPacket_spec (present : List UInt8 → Bool) {type reserved : ℕ}
    {payload : List UInt8}
    (htype : type ≠ pktTypeCloseChannel)
    (hs : s.Carries (payload ++ todo)) (hpayload : payload.length ≤ intMax) :
    ∃ r s', rdgProcessControlPacket present type (payload.length + 8) s = (r, s') ∧
      (r = .ok none ∨ r = .error .refused ∧ (Packet.control type reserved payload).Refused present) ∧
      s'.Carries todo ∧ netSize s'.net ≤ netSize s.net := by
  rw [rdgProcessControlPacket, if_neg (by omega), Nat.add_sub_cancel]
  by_cases hzero : payload.length = 0
  · obtain rfl := List.length_eq_zero_iff.mp hzero
    rw [if_pos hzero]
    exact ⟨_, s, rfl, controlStatus_cases htype none, hs, Nat.le_refl _⟩
  · obtain ⟨s', hread, hs', hless⟩ := readFully_all hs hpayload
    rw [if_neg hzero, hread]
    have hsome : (if payload = [] then none else some payload) = some payload :=
      if_neg fun hnil : payload = [] => hzero (congrArg List.length hnil)
    refine ⟨_, s', rfl, ?_, hs', hless⟩
    rw [Packet.Refused, hsome]
    exact controlStatus_cases htype _

/-- A call of `rdg_read_data_packet`: a part of the data that is left, a packet of control, or the
beginning of the data of a packet. -/
theorem rdgReadDataPacket_spec (h : rdg.Between present refused left ps) (hsize : IsBufferSize size) :
    rdg.Step refused (Rdg.Carries present refused) (left ++ ps.flatMap Packet.dataOf) size (rdgReadDataPacket present size rdg) := by
  rw [rdgReadDataPacket]
  cases left with
  | cons byte left =>
    have hcount : rdg.packetRemainingCount ≠ 0 := h.count ▸ Nat.succ_ne_zero _
    rw [if_neg hcount]
    exact readPacketData_spec h (List.cons_ne_nil _ _) hsize
  | nil =>
    obtain ⟨hcount, hcarries, hps⟩ := h
    have hzero : rdg.packetRemainingCount = 0 := hcount.symm
    rw [if_pos hzero]
    rw [List.nil_append] at hcarries ⊢
    have hgiveUp (n : ℕ) (h : decide (n = 0) = true) : n = 0 := of_decide_eq_true h
    cases ps with
    | nil =>
      obtain ⟨s', hread, hs', hless⟩ := readFully_nil (fun readCount => readCount = 0) rfl hcarries
        (by decide : IsBufferSize 8) (Nat.lt_succ_self _)
      rw [Socket.rounds, hread]
      exact ⟨.inl ⟨_, rfl⟩, Nat.zero_le _, ⟨[], rfl, [], [], ⟨hcount, hs', nofun⟩, rfl⟩, hless⟩
    | cons p ps =>
      obtain ⟨⟨hp, hshort, hrefused⟩, hps'⟩ := List.forall_mem_cons.mp hps
      rw [List.flatMap_cons, Packet.encode, List.append_assoc] at hcarries
      have hstart := readFully_start (fun readCount => readCount = 0) hgiveUp hcarries
        (by rw [p.length_header]; decide)
      rw [p.length_header] at hstart
      obtain ⟨s', hread, -, hs', hless⟩ | ⟨s', hread, hs', hless⟩ := hstart
      · -- nothing of the header has arrived
        rw [hread]
        rw [← List.append_assoc] at hs'
        exact ⟨.inl ⟨_, rfl⟩, Nat.zero_le _, ⟨_, rfl, [], p :: ps, ⟨hcount, hs', hps⟩, rfl⟩, hless⟩
      · rw [hread]
        dsimp only
        cases p with
        | data reserved data =>
          obtain ⟨hreserved, hpos, hle⟩ := hp
          rw [Packet.body, List.append_assoc] at hs'
          have hheader := rdgPacketHeader_reads (by decide : pktTypeData < 2 ^ 16) hreserved
            (by omega : data.length + 10 < 2 ^ 32) []
          have hcountRead := Wire.Reads.u16le (by omega : data.length < 2 ^ 16) []
          obtain ⟨s'', hloop, hs'', hless'⟩ := readFully_all hs' (show 2 ≤ intMax by decide)
          have hdata : data ≠ [] := List.ne_nil_of_length_pos hpos
          have hbetween : Rdg.Between present refused ⟨s'', data.length⟩ data ps := ⟨rfl, hs'', hps'⟩
          have hpart := readPacketData_spec hbetween hdata hsize
          rw [List.append_nil] at hheader hcountRead
          rw [Packet.header, hheader]
          dsimp only
          rw [if_neg (not_not_intro rfl)]
          change readFully (fun _ => false) 2 s'.rounds [] s' = _ at hloop
          rw [hloop]
          dsimp only
          rw [hcountRead]
          refine ⟨hpart.fine, hpart.length_le, hpart.step, hpart.fuel_le.trans ?_⟩
          dsimp only
          omega
        | control type reserved payload =>
          obtain ⟨hreserved, htype, hdata, hclose, hlength⟩ := hp
          rw [Packet.body] at hs'
          have hheader := rdgPacketHeader_reads htype hreserved hlength []
          rw [List.append_nil] at hheader
          obtain ⟨r, s'', hcontrol, hr, hs'', hless'⟩ :=
            rdgProcessControlPacket_spec present hclose hs' hshort
          rw [Packet.header, hheader]
          dsimp only
          rw [if_pos hdata, hcontrol]
          have hend : rdg.Step refused (Rdg.Carries present refused) (ps.flatMap Packet.dataOf) size
              (.ok none, ⟨s'', rdg.packetRemainingCount⟩) :=
            ⟨.inl ⟨_, rfl⟩, Nat.zero_le _, ⟨_, rfl, [], ps, ⟨hcount, hs'', hps'⟩, rfl⟩, by
              dsimp only; omega⟩
          obtain rfl | ⟨rfl, hr⟩ := hr
          · exact hend
          · exact ⟨.inr ⟨rfl, hrefused hr⟩, Nat.zero_le _, hend.step, hend.fuel_le⟩

theorem rdgReadDataPacket_delivers :
    Source.Delivers (fun n _ => IsBufferSize n) (rdgReadDataPacket present) ReadStatus.data
      (fun r => r.Fine ∨ r = .error .refused ∧ refused) (Rdg.Carries present refused)
      (fun rdg => netSize rdg.socket.net) where
  fine {rdg todo n} h hn := by
    obtain ⟨left, ps, hbetween, rfl⟩ := h
    exact (rdgReadDataPacket_spec hbetween hn).fine
  length_le {rdg todo n} h hn := by
    obtain ⟨left, ps, hbetween, rfl⟩ := h
    exact (rdgReadDataPacket_spec hbetween hn).length_le
  step {rdg todo n} h hn := by
    obtain ⟨left, ps, hbetween, rfl⟩ := h
    exact (rdgReadDataPacket_spec hbetween hn).step
  fuel_le {rdg todo n} h hn := by
    obtain ⟨left, ps, hbetween, rfl⟩ := h
    exact (rdgReadDataPacket_spec hbetween hn).fuel_le
  done {rdg todo} h hfuel := by
    obtain ⟨left, ps, ⟨-, hcarries, -⟩, rfl⟩ := h
    obtain ⟨rfl, hps⟩ := List.append_eq_nil_iff.mp (hcarries.of_netSize_eq_zero hfuel)
    obtain rfl : ps = [] := by
      cases ps with
      | nil => rfl
      | cons p ps => exact absurd (List.append_eq_nil_iff.mp hps).1 p.encode_ne_nil
    rfl

/-- A connection without an encoding, or with chunks, over which `stream` is going to arrive from its
beginning. -/
def Socket.Transports : Socket → List UInt8 → Prop
  | .identity net, stream => net.flatten = stream
  | .chunked (ctx, net), stream =>
    ∃ (lenBuffer : List UInt8) (cs : List Chunk), lenBuffer.length = 11 ∧
      ctx = ⟨0, 0, .lenghHeader, lenBuffer⟩ ∧
      net.flatten = cs.flatMap Chunk.encode ∧ stream = cs.flatMap Chunk.data
  | .websocket _, _ => False

theorem Socket.Transports.carries {stream : List UInt8} (hs : s.Transports stream) : s.Carries stream := by
  match s with
  | .identity net => exact hs ▸ .identity
  | .chunked (ctx, net) =>
    obtain ⟨lenBuffer, cs, hlen, rfl, hnet, rfl⟩ := hs
    have hstart := Chunked.Decodes.start hlen cs
    rw [← hnet] at hstart
    exact .chunked hstart
  | .websocket _ => exact hs.elim

/-- Whatever the pieces are in which the packets arrive, the reads return the data of the data packets,
and the control packets are read with them.  A read only fails if a service message is refused. -/
theorem packets_read {sizes : List ℕ} (hs : s.Transports (ps.flatMap Packet.encode))
    (hps : ∀ p ∈ ps, p.WellFormed ∧ p.Short) (hsizes : ∀ size ∈ sizes, IsBufferSize size) :
    let results := Source.reads (rdgReadDataPacket present) sizes ⟨s, 0⟩
    (∀ r ∈ results.1, r.Fine ∨ r = .error .refused ∧ ∃ p ∈ ps, p.Refused present) ∧
      results.1.flatMap ReadStatus.data <+: ps.flatMap Packet.dataOf ∧
      (netSize s.net ≤ sizes.length →
        results.1.flatMap ReadStatus.data = ps.flatMap Packet.dataOf ∧ results.2.socket.net = []) := by
  have hstart : Rdg.Carries present (∃ p ∈ ps, p.Refused present) ⟨s, 0⟩ (ps.flatMap Packet.dataOf) :=
    ⟨[], ps, ⟨rfl, hs.carries, fun p hp => ⟨(hps p hp).1, (hps p hp).2, fun h => ⟨p, hp, h⟩⟩⟩, rfl⟩
  have hmeet : Source.AllMeet (fun n _ => IsBufferSize n) (rdgReadDataPacket present) sizes ⟨s, 0⟩ :=
    Source.allMeet_of_forall hsizes
  obtain ⟨hfine, todo, heq, -, hall⟩ := rdgReadDataPacket_delivers.reads hstart hmeet
  have hfuel := rdgReadDataPacket_delivers.fuel_reads hstart hmeet
  refine ⟨hfine, ⟨todo, heq.symm⟩, fun hle => ⟨?_, ?_⟩⟩
  · rw [heq, hall hle, List.append_nil]
  · exact netSize_eq_zero (Nat.le_zero.mp (hfuel.trans_eq (Nat.sub_eq_zero_of_le hle)))

theorem packets_read_example :
    (Source.reads (rdgReadDataPacket fun _ => true) (List.replicate 30 1)
      ⟨.identity [[0xD, 0, 0], [], [0, 8, 0, 0, 0, 10, 0], [0, 0, 12, 0, 0, 0, 2, 0, 0x41], [0x42]],
        0⟩).1.flatMap
        ReadStatus.data = [0x41, 0x42] := by
  have hps : ∀ p ∈ [Packet.control pktTypeKeepalive 0 [], Packet.data 0 [0x41, 0x42]],
      p.WellFormed ∧ p.Short := by
    intro p hp
    obtain rfl | rfl := List.mem_pair.mp hp
    · exact ⟨⟨by decide, by decide, by decide, by decide, by decide⟩, Nat.zero_le intMax⟩
    · exact ⟨⟨by decide, by decide, by decide⟩, trivial⟩
  have hs : (Socket.identity [[0xD, 0, 0], [], [0, 8, 0, 0, 0, 10, 0],
    [0, 0, 12, 0, 0, 0, 2, 0, 0x41], [0x42]]).Transports
      ([Packet.control pktTypeKeepalive 0 [], Packet.data 0 [0x41, 0x42]].flatMap Packet.encode) := rfl
  exact ((packets_read hs hps (by decide)).2.2 (by decide)).1

/-! ### Long control packets -/

/-- What `BIO_read` returns if more has arrived. -/
theorem bioRead_append {bs : List UInt8} (hbs : IsBufferSize bs.length) (hrest : rest ≠ []) :
    bioRead bs.length [bs ++ rest] = (some bs, [rest]) := by
  obtain ⟨byte, bs', rfl⟩ := List.exists_cons_of_length_pos hbs.1
  have hlong : ¬ (byte :: bs' ++ rest).length ≤ (byte :: bs').length := by
    have hpos := List.length_pos_iff.mpr hrest
    rw [List.length_append]
    omega
  rw [bioRead, hbs.mod]
  rw [if_neg (by have := hbs.1; have := hbs.2; omega)]
  refine (if_neg hlong).trans ?_
  rw [List.take_left' rfl, List.drop_left' rfl]

theorem readFully_append (giveUp : ℕ → Bool) {bs : List UInt8} (hbs : IsBufferSize bs.length)
    (hrest : rest ≠ []) :
    readFully giveUp bs.length (Socket.identity [bs ++ rest]).rounds [] (.identity [bs ++ rest]) =
      (.ok (some bs), .identity [rest]) := by
  obtain ⟨byte, bs', rfl⟩ := List.exists_cons_of_length_pos hbs.1
  have hrounds : (Socket.identity [byte :: bs' ++ rest]).rounds =
    [byte :: bs' ++ rest].flatten.length + 1 + 1 := rfl
  have hread : rdgSocketRead (byte :: bs').length (.identity [byte :: bs' ++ rest]) =
      (.ok (some (byte :: bs')), .identity [rest]) := by
    rw [rdgSocketRead, bioRead_append hbs hrest]
  rw [hrounds, readFully, List.length_nil, Nat.sub_zero, if_pos hbs.1, hread]
  dsimp only
  rw [List.nil_append, if_neg (Nat.not_lt.mpr hbs.2), readFully, if_neg (Nat.lt_irrefl _)]

/-- A control packet that does not fit an `int` is refused, and its payload is read as the next packet. -/
theorem rdgReadDataPacket_oversized {type reserved : ℕ} {payload : List UInt8} (htype : type < 2 ^ 16)
    (hdata : type ≠ pktTypeData) (hreserved : reserved < 2 ^ 16) (hlong : intMax < payload.length)
    (hlength : payload.length + 8 < 2 ^ 32) :
    rdgReadDataPacket present size
      ⟨.identity [packetHeader type reserved (payload.length + 8) ++ payload], 0⟩ =
      (.error .refused, ⟨.identity [payload], 0⟩) := by
  have hpayload : payload ≠ [] := List.ne_nil_of_length_pos (by omega)
  have hbuffer : IsBufferSize (packetHeader type reserved (payload.length + 8)).length :=
    (by decide : IsBufferSize 8)
  have hheader := readFully_append (fun readCount => readCount = 0) hbuffer hpayload
  have hfields := rdgPacketHeader_reads htype hreserved hlength []
  rw [List.append_nil] at hfields
  have hrefused : bioRead payload.length [payload] = (some [], [payload]) := by
    rw [bioRead, Nat.mod_eq_of_lt (by omega), if_pos (.inr hlong)]
  have hloop : readFully (fun _ => false) payload.length (Socket.identity [payload]).rounds []
    (.identity [payload]) =
      (.error .refused, .identity [payload]) := by
    rw [Socket.rounds, readFully, List.length_nil, Nat.sub_zero, if_pos (by omega), rdgSocketRead, hrefused]
  have hcontrol : rdgProcessControlPacket present type (payload.length + 8) (.identity [payload]) =
      (.error .refused, .identity [payload]) := by
    rw [rdgProcessControlPacket, if_neg (by omega), Nat.add_sub_cancel, if_neg (by omega), hloop]
  rw [rdgReadDataPacket, if_pos rfl]
  change readFully _ 8 _ _ _ = _ at hheader
  rw [hheader]
  dsimp only
  rw [hfields]
  dsimp only
  rw [if_pos hdata, hcontrol]

/-- The bytes of a data packet. -/
def payloadHead : List UInt8 := (Packet.data 0 [0x41]).encode

/-- A control packet with a payload that begins like a data packet. -/
def oversized : Packet := .control 0x20 0 (payloadHead ++ List.replicate (2 ^ 31 - 11) 0)

theorem rdgReadDataPacket_payloadHead (hrest : rest ≠ []) :
    (rdgReadDataPacket present 1 ⟨.identity [payloadHead ++ rest], 0⟩).1 = .ok (some [0x41]) := by
  have hheader := readFully_append (fun readCount => readCount = 0)
    (by decide : IsBufferSize (Packet.data 0 [0x41]).header.length) (List.cons_ne_nil 1 (0 :: 0x41 :: rest))
  have hcount := readFully_append (fun _ => false) (by decide : IsBufferSize ([1, 0] : List UInt8).length)
    (List.cons_ne_nil 0x41 rest)
  have hdata := bioRead_append (by decide : IsBufferSize [(0x41 : UInt8)].length) hrest
  have hfields : rdgPacketHeader (Packet.data 0 [0x41]).header = some ((pktTypeData, 11), []) := by decide
  rw [rdgReadDataPacket, if_pos rfl]
  let first : Socket := .identity [payloadHead ++ rest]
  let second : Socket := .identity [1 :: 0 :: 0x41 :: rest]
  change readFully _ 8 first.rounds [] first = _ at hheader
  change readFully _ 2 second.rounds [] second = _ at hcount
  dsimp only
  rw [hheader]
  dsimp only
  rw [hfields]
  dsimp only
  rw [if_neg (not_not_intro rfl), hcount]
  change (readPacketData 1 ⟨.identity [[0x41] ++ rest], 1⟩).1 = _
  have hsocket : rdgSocketRead 1 (.identity [[0x41] ++ rest]) =
      (.ok (some [0x41]), .identity [rest]) := by
    show ((Except.ok (bioRead [(0x41 : UInt8)].length [[0x41] ++ rest]).1 : ReadStatus),
      Socket.identity (bioRead [(0x41 : UInt8)].length [[0x41] ++ rest]).2) = _
    rw [hdata]
  rw [readPacketData]
  dsimp only
  rw [if_neg (Nat.lt_irrefl 1), hsocket]

/-- The control packet is not read completely, and what is left is taken for data. -/
theorem packets_read_oversized : oversized.WellFormed ∧
    (Socket.identity [oversized.encode]).Transports ([oversized].flatMap Packet.encode) ∧ IsBufferSize 1 ∧
    (Source.reads (rdgReadDataPacket fun _ => true) [1, 1] ⟨.identity [oversized.encode], 0⟩).1 =
      [.error .refused, .ok (some [0x41])] ∧
    [oversized].flatMap Packet.dataOf = [] := by
  have hlength : (payloadHead ++ List.replicate (2 ^ 31 - 11) (0 : UInt8)).length = 2 ^ 31 := by
    have hhead : payloadHead.length = 11 := rfl
    rw [List.length_append, List.length_replicate, hhead]
    exact Nat.add_sub_of_le (by decide)
  have hrest : List.replicate (2 ^ 31 - 11) (0 : UInt8) ≠ [] := by
    rw [Ne, List.replicate_eq_nil_iff]
    decide
  have hfirst (present : List UInt8 → Bool) :
      rdgReadDataPacket present 1 ⟨.identity [oversized.encode], 0⟩ = _ :=
    rdgReadDataPacket_oversized (by decide) (by decide) (by decide) (by rw [hlength]; decide)
      (by rw [hlength]; decide)
  refine ⟨⟨by decide, by decide, by decide, by decide, by rw [hlength]; decide⟩, ?_, by decide, ?_, rfl⟩
  · rw [Socket.Transports, List.flatMap_singleton, List.flatten_singleton]
  · rw [Source.reads, Source.reads, Source.reads, hfirst]
    dsimp only
    rw [rdgReadDataPacket_payloadHead hrest]

end FreeRDP.Gateway
