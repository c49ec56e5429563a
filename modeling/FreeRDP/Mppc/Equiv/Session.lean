import FreeRDP.Mppc.Equiv.Sender

/-!
# MPPC sessions are lossless

A session sends packets from one context through `mppc_compress` to another context and
`mppc_decompress`.  `InSync` relates the two contexts between packets: they hold the same history,
byte for byte, and the sender's next packet lands where the receiver will write.  Each exchange
keeps it and delivers the packet (`InSync.exchange`), so a whole session does (`session_lossless`).
-/

namespace FreeRDP.Mppc

open BitField PrefixCode BitStream ForwardCopy Iterate

/-! ### Sessions -/

/-- A packet with the output buffer that the caller of `mppc_compress` provides for it. -/
structure Packet where
  src : List UInt8
  dst : ℕ → UInt8
  dstSize : ℕ

def exchange (sender receiver : Context) (packet : Packet) :
    Except Stop (Compressed × Decompressed) := do
  let sent ← mppcCompress sender packet.src (some packet.dst) packet.dstSize
  let received ← mppcDecompress receiver (sent.dst.getD []) sent.flags
  return (sent, received)

/-- The packets sent and received one after another; gives the status and the bytes of each
`mppc_decompress` call. -/
def session : Context → Context → List Packet → Except Stop (List (ℤ × Option (List UInt8)))
  | _, _, [] => .ok []
  | sender, receiver, packet :: packets => do
    let (sent, received) ← exchange sender receiver packet
    let rest ← session sent.mppc received.mppc packets
    return (received.status, received.dst) :: rest

/-! ### Contexts in step -/

/-- Sender and receiver between two packets. -/
structure InSync (s r : Context) : Prop where
  level : r.compressionLevel = s.compressionLevel
  buffer : r.historyBuffer = s.historyBuffer
  zero : ∀ i, s.historyBufferSize ≤ i → s.historyBuffer i = 0
  offset : s.historyOffset = 0 ∨
    (s.historyOffset = r.historyPtr ∧ s.historyOffset ≤ s.historyBufferSize - 4) ∨
    (s.historyOffset = s.historyBufferSize + 1 ∧ s.historyBuffer = fun _ => 0)
  highWater : s.historyPtr ≤ s.historyBufferSize - 4

/-- The index at which the sender's next packet starts. -/
def startIndex (s : Context) (srcSize : ℕ) : ℕ :=
  if startsAtFront s srcSize then 0 else s.historyOffset

theorem startIndex_add_le {s r : Context} (h : InSync s r) {n : ℕ}
    (hn : n < s.historyBufferSize - 3) : startIndex s n + n ≤ s.historyBufferSize - 4 := by
  have hsize := historySize_bounds s.compressionLevel
  rw [historySize_level] at hsize
  unfold startIndex startsAtFront
  split_ifs with hfront
  · omega
  · simp only [not_and, decide_eq_true_eq, Classical.not_imp, ne_eq, Decidable.not_not] at hfront
    rcases h.offset with h0 | ⟨-, hle⟩ | ⟨hflush, -⟩
    · omega
    · omega
    · omega

/-! ### What the sender does -/

/-- A call of `mppc_compress` flushes, or sends the tokens of the packet. -/
theorem mppcCompress_spec {s r : Context} (h : InSync s r) {packet : Packet}
    (hpos : 1 ≤ packet.src.length) (hlen : packet.src.length < s.historyBufferSize - 3)
    (hdst : packet.src.length ≤ packet.dstSize) :
    ∃ c, mppcCompress s packet.src (some packet.dst) packet.dstSize = .ok c ∧
      ((∃ bs, c = flushCompress s bs packet.src) ∨
        ∃ e ts, c = finishCompress s (startsAtFront s packet.src.length)
            (wasFlushed s packet.src.length) e ∧
          Sending s.compressionLevel packet.src.length s.historyBuffer
            (startIndex s packet.src.length) packet.src e ts packet.src) := by
  have hsize := historySize_bounds s.compressionLevel
  have hroom := startIndex_add_le h hlen
  have hstart : Sending s.compressionLevel packet.src.length s.historyBuffer
      (startIndex s packet.src.length) packet.src
      (startEncoder s packet.src packet.dst packet.src.length) [] [] := by
    refine ⟨rfl, writesAt_attach _ _ _, rfl, by simp [fieldsOf], by simp [Fit, fieldsOf], rfl, rfl,
      rfl, ?_, ?_, by rw [historySize_level] at hsize; omega⟩
    · rw [historySize_level]
      exact h.highWater
    · rw [historySize_level]
      exact hroom
  obtain ⟨out, hrun, hout⟩ := iterate_rule
    (compressStep s.compressionLevel s.historyBufferSize packet.src.length)
    (I := fun e => ∃ ts sent, Sending s.compressionLevel packet.src.length s.historyBuffer
      (startIndex s packet.src.length) packet.src e ts sent)
    (Q := fun r => ∀ e', r = .ok e' → ∃ ts sent, Sending s.compressionLevel packet.src.length
      s.historyBuffer (startIndex s packet.src.length) packet.src e' ts sent)
    (μ := fun e => e.src.length) (n := packet.src.length + 1)
    (by
      rintro e e' ⟨ts, sent, he⟩ hstep
      rw [← historySize_level] at hstep
      exact he.step hstep)
    (by
      rintro e r ⟨ts, sent, he⟩ hstep
      rw [← historySize_level] at hstep
      exact he.exit hstep)
    ⟨[], [], hstart⟩ (Nat.lt_succ_self _)
  unfold mppcCompress
  simp only [Nat.min_eq_right hdst, hrun]
  cases out with
  | error bs => exact ⟨_, rfl, .inl ⟨bs, rfl⟩⟩
  | ok e =>
    obtain ⟨ts, sent, he⟩ := hout e rfl
    cases htrail : putTrailing packet.src.length e.src e with
    | error bs => exact ⟨_, by simp only [htrail], .inl ⟨bs, rfl⟩⟩
    | ok e' =>
      obtain ⟨ts', he'⟩ := he.putTrailing rfl htrail
      exact ⟨_, by simp only [htrail], .inr ⟨e', ts', rfl, he'⟩⟩

/-! ### What the receiver does -/

/-- A flushed packet is delivered as it is, and clears the history. -/
theorem mppcDecompress_flush (r : Context) (src : List UInt8) {level : ℕ}
    (hlevel : r.compressionLevel = level) :
    ∃ d, mppcDecompress r src (PACKET_FLUSHED ||| level) = .ok d ∧ d.status = 1 ∧
      d.dst = some src ∧ d.mppc.compressionLevel = level ∧ ∀ i, d.mppc.historyBuffer i =
        if i < r.historyBufferSize then 0 else r.historyBuffer i := by
  subst hlevel
  have hc : (PACKET_FLUSHED ||| r.compressionLevel) &&& PACKET_COMPRESSED = 0 := by
    rcases r.level_size with ⟨h, -⟩ | ⟨h, -⟩ <;> rw [h] <;> decide
  have hf : (PACKET_FLUSHED ||| r.compressionLevel) &&& PACKET_AT_FRONT = 0 := by
    rcases r.level_size with ⟨h, -⟩ | ⟨h, -⟩ <;> rw [h] <;> decide
  have hz : (PACKET_FLUSHED ||| r.compressionLevel) &&& PACKET_FLUSHED ≠ 0 := by
    rcases r.level_size with ⟨h, -⟩ | ⟨h, -⟩ <;> rw [h] <;> decide
  rw [mppcDecompress, if_pos hc]
  refine ⟨_, rfl, rfl, rfl, ?_, fun i => ?_⟩ <;> simp [applyFlags, hf, hz]

/-- The flags of a compressed packet, as `finishCompress` sets them. -/
def compressedFlags (level : ℕ) (atFront flushed : Bool) : ℕ :=
  PACKET_COMPRESSED ||| level ||| (if atFront then PACKET_AT_FRONT else 0) |||
    (if flushed then PACKET_FLUSHED else 0)

theorem compressedFlags_and (r : Context) (atFront flushed : Bool) :
    (compressedFlags r.compressionLevel atFront flushed &&& PACKET_COMPRESSED ≠ 0) ∧
    (compressedFlags r.compressionLevel atFront flushed &&& PACKET_AT_FRONT ≠ 0 ↔ atFront) ∧
    (compressedFlags r.compressionLevel atFront flushed &&& PACKET_FLUSHED ≠ 0 ↔ flushed) := by
  rcases r.level_size with ⟨h, -⟩ | ⟨h, -⟩ <;> rw [h] <;> revert atFront flushed <;> decide

/-- A compressed packet that starts at the front when flushed, on a history that is then zero. -/
theorem applyFlags_compressed {r : Context} {atFront flushed : Bool}
    (hflush : flushed → atFront ∧ ∀ i, r.historyBuffer i = 0) :
    (applyFlags r (compressedFlags r.compressionLevel atFront flushed)).historyBuffer =
        r.historyBuffer ∧
      (applyFlags r (compressedFlags r.compressionLevel atFront flushed)).historyPtr =
        (if atFront then 0 else r.historyPtr) ∧
      (applyFlags r (compressedFlags r.compressionLevel atFront flushed)).compressionLevel =
        r.compressionLevel ∧
      (applyFlags r (compressedFlags r.compressionLevel atFront flushed)).historyBufferSize =
        r.historyBufferSize := by
  obtain ⟨-, hfront, hfl⟩ := compressedFlags_and r atFront flushed
  unfold applyFlags
  cases flushed with
  | false => cases atFront <;> simp [hfront, hfl]
  | true =>
    obtain ⟨rfl, hzero⟩ := hflush rfl
    simp only [hfront, hfl, if_true, and_true]
    funext i
    rw [hzero i]
    split_ifs <;> rfl

/-- The bytes of a finished packet, as the receiver's bit stream sees them. -/
theorem spells_slice {buffer : ℕ → UInt8} {fs : List (ℕ × ℕ)}
    (hfs : ∀ f ∈ fs, f.2 < 2 ^ f.1) (h : Spells (byteBit buffer) 0 fs) :
    Spells (byteBit fun i => if i < (width fs + 7) / 8 then
      bufferOf (slice buffer 0 ((width fs + 7) / 8)) i else 0) 0 fs := by
  rw [spells_iff hfs] at h ⊢
  rw [← h]
  apply fieldAt_byteBit_congr (n := (width fs + 7) / 8) _ (by omega)
  intro k hk
  simp [bufferOf, slice, hk]

/-- The receiver's call on a packet that the sender has finished. -/
theorem mppcDecompress_sent {r : Context} {level dstSize p : ℕ} {mem : ℕ → UInt8}
    {src : List UInt8} {e : Encoder} {ts : List Token} {flags : ℕ}
    (he : Sending level dstSize mem p src e ts src) (hflags : flags &&& PACKET_COMPRESSED ≠ 0)
    (hbuffer : (applyFlags r flags).historyBuffer = mem)
    (hptr : (applyFlags r flags).historyPtr = p)
    (hlevel : (applyFlags r flags).compressionLevel = level) :
    ∃ d, mppcDecompress r (slice e.bs.flush.buffer 0 ((e.bs.flush.position + 7) / 8)) flags =
        .ok d ∧ d.status = 1 ∧ d.dst = some src ∧ d.mppc.compressionLevel = level ∧
      d.mppc.historyBuffer = store mem p src ∧ d.mppc.historyPtr = p + src.length := by
  have hsmall := he.small
  have hwidth := he.width_le
  have hroom := he.room
  have hsize := historySize_bounds level
  have hfit : ∀ f ∈ fieldsOf level ts, f.2 < 2 ^ f.1 := fun f hf => (he.fit f hf).2
  have hspells := he.writes.spells_flush hfit (by rw [he.capacity]; exact hwidth) (by omega)
  rw [show e.bs.flush.position = width (fieldsOf level ts) from he.writes.position]
  set n := (width (fieldsOf level ts) + 7) / 8 with hn
  set bytes := slice e.bs.flush.buffer 0 n with hbytes
  have hlen : bytes.length = n := by simp [hbytes, slice]
  have hcount := he.emits.length_le
  obtain ⟨bs, hrun⟩ := iterate_decompressStep (q := 0)
    (n := decompressRounds) (d := startDecoder (applyFlags r flags) bytes) src
    (readsAt_fetch _ _ _)
    (by
      show Spells ((BitStream.attach _ _ _).fetch.inputBit) 0 _
      rw [inputBit_attach_fetch, hlen]
      exact spells_slice hfit hspells)
    (Nat.mod_lt _ (by omega))
    (by
      show _ ≤ bytes.length * 8 % 2 ^ 32
      omega)
    (by
      show bytes.length * 8 % 2 ^ 32 < _
      omega)
    (by
      show (applyFlags r flags).historyPtr + _ ≤ _
      omega)
    (by
      show Emits level (applyFlags r flags).historyBuffer (applyFlags r flags).historyPtr ts src
      rw [hbuffer, hptr]
      exact he.emits)
    (by rw [decompressRounds, historyBytes]; omega)
  rw [show (startDecoder (applyFlags r flags) bytes).historyBuffer = mem from hbuffer,
    show (startDecoder (applyFlags r flags) bytes).historyPtr = p from hptr] at hrun
  refine ⟨finishDecompress (applyFlags r flags) 1 ⟨bs, store mem p src, p + src.length⟩, ?_, rfl,
    ?_, hlevel, rfl, rfl⟩
  · rw [mppcDecompress, if_neg hflags, ← historySize_level, hlevel, hrun]
  · show some (slice _ (applyFlags r flags).historyPtr _) = some src
    rw [hptr, show p + src.length - p = src.length by omega]
    exact congrArg some (map_store mem p src)

/-! ### Whole sessions -/

/-- One exchange delivers the packet and leaves the contexts in step. -/
theorem InSync.exchange {s r : Context} (h : InSync s r) {packet : Packet}
    (hpos : 1 ≤ packet.src.length) (hlen : packet.src.length < s.historyBufferSize - 3)
    (hdst : packet.src.length ≤ packet.dstSize) :
    ∃ c d, exchange s r packet = .ok (c, d) ∧ d.status = 1 ∧ d.dst = some packet.src ∧
      InSync c.mppc d.mppc ∧ c.mppc.historyBufferSize = s.historyBufferSize := by
  have hsizes : r.historyBufferSize = s.historyBufferSize := by
    rw [← historySize_level, ← historySize_level, h.level]
  obtain ⟨c, hc, ⟨bs, rfl⟩ | ⟨e, ts, rfl, he⟩⟩ := mppcCompress_spec h hpos hlen hdst
  · -- the packet goes out raw and both sides clear their history
    obtain ⟨d, hd, hstatus, hdst', hlevel, hzero⟩ := mppcDecompress_flush r packet.src h.level
    refine ⟨_, d, by rw [Mppc.exchange, hc]; exact congrArg (Except.map _) hd, hstatus, hdst',
      ⟨hlevel, ?_, fun _ _ => rfl, .inr (.inr ⟨rfl, rfl⟩), Nat.zero_le _⟩, rfl⟩
    funext i
    rw [hzero i]
    split_ifs with hi
    · rfl
    · rw [h.buffer, h.zero i (by omega)]
      rfl
  · -- the packet goes out as tokens, which the receiver executes on the same history
    have hflush : wasFlushed s packet.src.length →
        startsAtFront s packet.src.length ∧ ∀ i, r.historyBuffer i = 0 := by
      intro hf
      simp only [wasFlushed, decide_eq_true_eq] at hf
      refine ⟨hf.1, fun i => ?_⟩
      rcases h.offset with h0 | ⟨-, hle⟩ | ⟨-, hz⟩
      · omega
      · omega
      · rw [h.buffer, hz]
    obtain ⟨hcompressed, -, -⟩ := compressedFlags_and r (startsAtFront s packet.src.length)
      (wasFlushed s packet.src.length)
    obtain ⟨hbuffer, hptr, hlevel, -⟩ := applyFlags_compressed hflush
    have hstart : (if startsAtFront s packet.src.length then 0 else r.historyPtr) =
        startIndex s packet.src.length := by
      unfold startIndex
      split_ifs with hfront
      · rfl
      · simp only [startsAtFront, not_and, decide_eq_true_eq, Classical.not_imp, ne_eq,
          Decidable.not_not] at hfront
        rcases h.offset with h0 | ⟨heq, -⟩ | ⟨hfl, -⟩
        · exact absurd h0 hfront.2
        · exact heq.symm
        · have hsize := historySize_bounds s.compressionLevel
          rw [historySize_level] at hsize
          omega
    rw [h.level] at hcompressed hbuffer hptr hlevel
    obtain ⟨d, hd, hstatus, hdst', hdlevel, hdbuf, hdptr⟩ := mppcDecompress_sent he hcompressed
      (hbuffer.trans h.buffer) (hptr.trans hstart) hlevel
    have hbuf : e.historyBuffer = d.mppc.historyBuffer := he.buffer.trans hdbuf.symm
    have hptr' : e.historyPtr = d.mppc.historyPtr := he.pointer.trans hdptr.symm
    have hroom := startIndex_add_le h hlen
    refine ⟨_, d, by rw [Mppc.exchange, hc]; exact congrArg (Except.map _) hd, hstatus, hdst',
      ⟨hdlevel, hbuf.symm, fun i hi => ?_, .inr (.inl ⟨hptr', ?_⟩), ?_⟩, rfl⟩
    · show e.historyBuffer i = 0
      rw [he.buffer, store_of_ge _ _ (by change s.historyBufferSize ≤ i at hi; omega)]
      exact h.zero i hi
    · show e.historyPtr ≤ _
      rw [he.pointer]
      exact hroom
    · show e.historyPtr ≤ _
      rw [he.pointer]
      exact hroom

theorem inSync_new (level : ℕ) : InSync (mppcContextNew level) (mppcContextNew level) :=
  ⟨rfl, rfl, fun _ _ => rfl, .inl rfl, Nat.zero_le _⟩

/-- From contexts in step every packet of a session is delivered. -/
theorem InSync.session {s r : Context} (h : InSync s r) {packets : List Packet}
    (hp : ∀ packet ∈ packets, 1 ≤ packet.src.length ∧
      packet.src.length < s.historyBufferSize - 3 ∧ packet.src.length ≤ packet.dstSize) :
    session s r packets = .ok (packets.map fun packet => (1, some packet.src)) := by
  induction packets generalizing s r with
  | nil => rfl
  | cons packet packets ih =>
    obtain ⟨hpos, hlen, hdst⟩ := hp packet List.mem_cons_self
    obtain ⟨c, d, hex, hstatus, hbytes, hsync, hsize⟩ := h.exchange hpos hlen hdst
    have hrest := ih hsync fun q hq => by
      rw [hsize]
      exact hp q (List.mem_cons_of_mem _ hq)
    rw [Mppc.session, hex]
    show Except.bind (Mppc.session c.mppc d.mppc packets) _ = _
    rw [hrest, hstatus, hbytes]
    rfl

/-- MPPC is lossless over whole sessions: between fresh contexts of one level, every packet that
fits the history comes out of `mppc_decompress` with status 1 and unchanged, whether it was
compressed, sent raw after a flush, or put at the front of the history. -/
theorem session_lossless (level : ℕ) (packets : List Packet)
    (hp : ∀ packet ∈ packets, 1 ≤ packet.src.length ∧
      packet.src.length < (mppcContextNew level).historyBufferSize - 3 ∧
      packet.src.length ≤ packet.dstSize) :
    session (mppcContextNew level) (mppcContextNew level) packets =
      .ok (packets.map fun packet => (1, some packet.src)) :=
  (inSync_new level).session hp

/-- A packet of repeated bytes, which is compressed, and one that does not fit into its buffer. -/
def twoPackets : List Packet :=
  [⟨List.replicate 24 0x41, fun _ => 0, 24⟩, ⟨[0x41], fun _ => 7, 8⟩]

theorem session_lossless_two :
    (mppcCompress (mppcContextNew 0) (List.replicate 24 0x41) (some fun _ => 0) 24).toOption.map
        Compressed.flags = some (PACKET_COMPRESSED ||| PACKET_AT_FRONT) ∧
      session (mppcContextNew 0) (mppcContextNew 0) twoPackets =
        .ok (twoPackets.map fun packet => (1, some packet.src)) := by
  have hflags : (mppcCompress (mppcContextNew 0) (List.replicate 24 0x41) (some fun _ => 0)
      24).toOption.map Compressed.flags = some (PACKET_COMPRESSED ||| PACKET_AT_FRONT) := by
    decide +kernel
  refine ⟨hflags, session_lossless 0 twoPackets fun packet hmem => ?_⟩
  simp only [twoPackets, List.mem_cons, List.not_mem_nil, or_false] at hmem
  rcases hmem with rfl | rfl <;> decide

end FreeRDP.Mppc
