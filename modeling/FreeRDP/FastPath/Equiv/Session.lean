import FreeRDP.FastPath.Equiv.RoundTrip
import FreeRDP.Mppc.Equiv.Session

/-!
# Fast-path sessions over the bulk compressor

`bulk_compress` and `bulk_decompress` with their MPPC levels are a codec of the fast path
(`bulkCodec`).  Its two ends stay in step (`bulkCodec_inverse`) on fragments that the history has room
for, and the fast path sends no others.  So the updates of a whole session arrive as they were sent
(`recvPdus_sendUpdates`), however they are fragmented and whichever of their fragments the compressor
shortens, flushes or puts at the front of its history.

The codecs of RDP 6.0 and 6.1 are a parameter.
-/

namespace FreeRDP.FastPath

open Iterate
open Mppc (Context InSync Packet Stop mppcCompress mppcDecompress mppcContextNew
  mppcSetCompressionLevel PACKET_COMPRESSED PACKET_AT_FRONT PACKET_FLUSHED)

variable {S R : Type}

/-! ### The bulk compressor -/

def BULK_COMPRESSION_TYPE_MASK : ℕ := 0x0F

/-- The part of `struct rdp_bulk` that a sender uses; `crush` stands for the contexts of the other
two codecs. -/
structure BulkSend (S : Type) where
  mppcSend : Context
  outputBuffer : ℕ → UInt8
  crush : S

/-- The part of `struct rdp_bulk` that a receiver uses. -/
structure BulkRecv (R : Type) where
  mppcRecv : Context
  crush : R

def bulkCompressionLevel (compressionLevel : ℕ) : ℕ :=
  if compressionLevel ≥ 3 then 3 else compressionLevel

/-- The switch of `bulk_compress`.  MPPC writes to `OutputBuffer`, over what the last packet has left
there. -/
def compressLevel (crush : Codec S R) (compressionLevel : ℕ) (bulk : BulkSend S) (src : List UInt8) :
    Except Stop (BulkSend S × Option (List UInt8 × ℕ)) :=
  if bulkCompressionLevel compressionLevel ≤ 1 then
    (mppcCompress (mppcSetCompressionLevel bulk.mppcSend (bulkCompressionLevel compressionLevel)) src
      (some bulk.outputBuffer) 65536).map fun c =>
        ({ bulk with mppcSend := c.mppc, outputBuffer := c.mppc.bs.buffer },
          if c.status < 0 then none else some (c.dst.getD [], c.flags))
  else
    .ok ({ bulk with crush := (crush.compress bulk.crush src).1 },
      (crush.compress bulk.crush src).2)

/-- The switch of `bulk_decompress`: the flags of a packet select its codec. -/
def decompressType (crush : Codec S R) (bulk : BulkRecv R) (src : List UInt8) (flags : ℕ) :
    Except Stop (BulkRecv R × Option (List UInt8)) :=
  if flags &&& BULK_COMPRESSION_TYPE_MASK ≤ 1 then
    (mppcDecompress (mppcSetCompressionLevel bulk.mppcRecv (flags &&& BULK_COMPRESSION_TYPE_MASK)) src
      flags).map fun d =>
        ({ bulk with mppcRecv := d.mppc }, if d.status < 0 then none else some (d.dst.getD []))
  else if flags &&& BULK_COMPRESSION_TYPE_MASK ≤ 3 then
    .ok ({ bulk with crush := (crush.decompress bulk.crush src flags).1 },
      (crush.decompress bulk.crush src flags).2)
  else .ok (bulk, none)

/-- A call that may fault, from a state that a fault has already ended. -/
def faulting {σ ρ : Type} (call : σ → Except Stop (σ × Option ρ)) (s : Except Stop σ) :
    Except Stop σ × Option ρ :=
  match s.bind call with
  | .error e => (.error e, none)
  | .ok (s, result) => (.ok s, result)

/-- The bulk compressor as a codec of the fast path. -/
def bulkCodec (crush : Codec S R) (compressionLevel : ℕ) :
    Codec (Except Stop (BulkSend S)) (Except Stop (BulkRecv R)) where
  compress bulk src := faulting (compressLevel crush compressionLevel · src) bulk
  decompress bulk src flags := faulting (decompressType crush · src flags) bulk

/-- `bulk_new`, for a sender. -/
def bulkNewSend (crush : S) : BulkSend S := ⟨mppcContextNew 1, fun _ => 0, crush⟩

/-- `bulk_new`, for a receiver. -/
def bulkNewRecv (crush : R) : BulkRecv R := ⟨mppcContextNew 1, crush⟩

/-! ### Codecs with a bound on what they compress -/

/-- The codec that only compresses from one up to `n` bytes. -/
def Codec.upTo (codec : Codec S R) (n : ℕ) : Codec S R where
  compress s src := if 1 ≤ src.length ∧ src.length ≤ n then codec.compress s src else (s, none)
  decompress := codec.decompress

theorem recvPdu_upTo (codec : Codec S R) (n : ℕ) : recvPdu (codec.upTo n) = recvPdu codec := rfl

theorem recvPdus_upTo (codec : Codec S R) (n : ℕ) (env : Environment) (pdus : List (List UInt8))
    (fp : Receiver R) : recvPdus (codec.upTo n) env pdus fp = recvPdus codec env pdus fp := by
  induction pdus generalizing fp with
  | nil => rfl
  | cons pdu pdus ih =>
    simp only [recvPdus, recvPdu_upTo, ih]

theorem sendStep_upTo (codec : Codec S R) (compresses : Bool) {maxLength n : ℕ} (h : maxLength ≤ n)
    (updateCode : ℕ) :
    sendStep (codec.upTo n) compresses maxLength updateCode =
      sendStep codec compresses maxLength updateCode := by
  funext s
  have hlen : (s.data.take maxLength).length ≤ n := (List.length_take_le _ _).trans h
  have hfragment : compressFragment (codec.upTo n) compresses s.bulk (s.data.take maxLength) =
      compressFragment codec compresses s.bulk (s.data.take maxLength) := by
    unfold compressFragment bulkCompress
    split_ifs with hcompresses hshort
    · rfl
    · have hpos : 1 ≤ (s.data.take maxLength).length := by omega
      simp only [Codec.upTo, hpos, hlen, and_self, if_true]
    · rfl
  simp only [sendStep, sendFragment, hfragment]

/-! ### One packet -/

theorem faulting_ok {σ ρ : Type} {call : σ → Except Stop (σ × Option ρ)} {s s' : σ} {result : Option ρ}
    (h : call s = .ok (s', result)) : faulting call (.ok s) = (.ok s', result) := by
  show (match call s with
    | .error e => (Except.error e, none)
    | .ok (s, result) => (Except.ok s, result)) = _
  rw [h]

/-- What `mppc_compress` says of a packet: it is no longer than its source, and its flags name the
level. -/
theorem mppcCompress_packet {s r : Context} (h : InSync s r) {packet : Packet}
    (hpos : 1 ≤ packet.src.length) (hlen : packet.src.length < s.historyBufferSize - 3)
    (hdst : packet.src.length ≤ packet.dstSize) :
    ∃ c bytes, mppcCompress s packet.src (some packet.dst) packet.dstSize = .ok c ∧ c.status = 1 ∧
      c.dst = some bytes ∧ bytes.length ≤ packet.src.length ∧ c.flags < 2 ^ 8 ∧
      c.flags &&& BULK_COMPRESSION_FLAGS_MASK ≠ 0 ∧
      c.flags &&& BULK_COMPRESSION_TYPE_MASK = s.compressionLevel ∧
      c.mppc.compressionLevel = s.compressionLevel := by
  have hflags : ∀ level, level = 0 ∨ level = 1 → ∀ atFront flushed : Bool,
      (PACKET_FLUSHED ||| level < 2 ^ 8 ∧
        (PACKET_FLUSHED ||| level) &&& BULK_COMPRESSION_FLAGS_MASK ≠ 0 ∧
        (PACKET_FLUSHED ||| level) &&& BULK_COMPRESSION_TYPE_MASK = level) ∧
      Mppc.compressedFlags level atFront flushed < 2 ^ 8 ∧
        Mppc.compressedFlags level atFront flushed &&& BULK_COMPRESSION_FLAGS_MASK ≠ 0 ∧
        Mppc.compressedFlags level atFront flushed &&& BULK_COMPRESSION_TYPE_MASK = level := by
    rintro level (rfl | rfl) <;> decide
  have hlevel : s.compressionLevel = 0 ∨ s.compressionLevel = 1 := by
    rcases s.level_size with ⟨h0, -⟩ | ⟨h1, -⟩
    · exact .inl h0
    · exact .inr h1
  obtain ⟨c, hc, ⟨bs, rfl⟩ | ⟨e, ts, rfl, he⟩⟩ := Mppc.mppcCompress_spec h hpos hlen hdst
  · obtain ⟨⟨hlt, hmask, htype⟩, -⟩ := hflags _ hlevel false false
    exact ⟨_, packet.src, hc, rfl, rfl, Nat.le_refl _, hlt, hmask, htype, rfl⟩
  · obtain ⟨-, hlt, hmask, htype⟩ := hflags _ hlevel (Mppc.startsAtFront s packet.src.length)
      (Mppc.wasFlushed s packet.src.length)
    refine ⟨_, _, hc, rfl, rfl, ?_, hlt, hmask, htype, rfl⟩
    have hposition : e.bs.flush.position = BitField.width (Mppc.fieldsOf s.compressionLevel ts) :=
      he.writes.position
    have hwidth := he.width_le
    rw [Mppc.slice, List.length_map, List.length_range, hposition]
    omega

theorem mppcSetCompressionLevel_of_eq {mppc : Context} {level : ℕ}
    (h : mppc.compressionLevel = level) : mppcSetCompressionLevel mppc level = mppc := by
  subst h
  obtain ⟨bs, ptr, offset, size, buffer, table, level, hsize⟩ := mppc
  rcases hsize with ⟨rfl, rfl⟩ | ⟨rfl, rfl⟩ <;> rfl

/-- Both ends of a bulk compressor between two packets: no call has faulted, and the MPPC contexts
are in step at the level of the session. -/
def InStep (level : ℕ) (s : Except Stop (BulkSend S)) (r : Except Stop (BulkRecv R)) : Prop :=
  ∃ bulk bulk', s = .ok bulk ∧ r = .ok bulk' ∧
    InSync (mppcSetCompressionLevel bulk.mppcSend level)
      (mppcSetCompressionLevel bulk'.mppcRecv level)

theorem inStep_new {level : ℕ} (hlevel : level ≤ 1) (crush : S) (crush' : R) :
    InStep level (.ok (bulkNewSend crush)) (.ok (bulkNewRecv crush')) := by
  refine ⟨_, _, rfl, rfl, ?_⟩
  have hnew : mppcSetCompressionLevel (mppcContextNew 1) level = mppcContextNew level := by
    obtain rfl | rfl : level = 0 ∨ level = 1 := by omega
    · rfl
    · rfl
  show InSync (mppcSetCompressionLevel (mppcContextNew 1) level)
    (mppcSetCompressionLevel (mppcContextNew 1) level)
  rw [hnew]
  exact Mppc.inSync_new level

/-- One packet through the switches of both ends: it arrives, and the ends stay in step. -/
theorem InStep.packet {level : ℕ} (hlevel : level ≤ 1) {s : Except Stop (BulkSend S)}
    {r : Except Stop (BulkRecv R)} (h : InStep level s r) (crush : Codec S R) {src : List UInt8}
    (hpos : 1 ≤ src.length) (hlen : src.length < (if level < 1 then 8192 else 65536) - 3) :
    ∃ s' bytes flags, (bulkCodec crush level).compress s src = (s', some (bytes, flags)) ∧
      bytes.length ≤ src.length ∧ flags < 2 ^ 8 ∧ flags &&& BULK_COMPRESSION_FLAGS_MASK ≠ 0 ∧
      ∃ r', (bulkCodec crush level).decompress r bytes flags = (r', some src) ∧ InStep level s' r' := by
  obtain ⟨bulk, bulk', rfl, rfl, hsync⟩ := h
  have hmin : bulkCompressionLevel level = level := if_neg (by omega)
  have hset : ∀ mppc : Context, (mppcSetCompressionLevel mppc level).compressionLevel = level ∧
      (mppcSetCompressionLevel mppc level).historyBufferSize =
        if level < 1 then 8192 else 65536 := by
    intro mppc
    unfold mppcSetCompressionLevel
    split_ifs with h0
    · refine ⟨?_, rfl⟩
      show 0 = level
      omega
    · refine ⟨?_, rfl⟩
      show 1 = level
      omega
  obtain ⟨hlev, hsize⟩ := hset bulk.mppcSend
  have hroom : src.length ≤ 65536 := by
    split_ifs at hlen <;> omega
  rw [← hsize] at hlen
  let packet : Packet := ⟨src, bulk.outputBuffer, 65536⟩
  obtain ⟨c, bytes, hc, hstatus, hdst, hbytes, hlt, hmask, htype, hclevel⟩ :
      ∃ c bytes, mppcCompress _ packet.src (some packet.dst) packet.dstSize = .ok c ∧ c.status = 1 ∧
        c.dst = some bytes ∧ _ := mppcCompress_packet hsync hpos hlen hroom
  obtain ⟨c', d, hex, hdstatus, hddst, hsync', -⟩ :
      ∃ c' d, Mppc.exchange _ _ packet = .ok (c', d) ∧ _ := hsync.exchange hpos hlen hroom
  rw [Mppc.exchange, hc] at hex
  have hex' : (mppcDecompress (mppcSetCompressionLevel bulk'.mppcRecv level) (c.dst.getD [])
      c.flags).bind (fun received => .ok (c, received)) = .ok (c', d) := hex
  rw [hdst, Option.getD_some] at hex'
  obtain ⟨hrecv, rfl⟩ : mppcDecompress (mppcSetCompressionLevel bulk'.mppcRecv level) bytes c.flags =
      .ok d ∧ c = c' := by
    cases hrecv : mppcDecompress (mppcSetCompressionLevel bulk'.mppcRecv level) bytes c.flags with
    | error e =>
      rw [hrecv] at hex'
      cases hex'
    | ok d' =>
      rw [hrecv] at hex'
      cases hex'
      exact ⟨rfl, rfl⟩
  rw [hlev] at htype hclevel
  have hsend : compressLevel crush level bulk src =
      .ok ({ bulk with mppcSend := c.mppc, outputBuffer := c.mppc.bs.buffer },
        some (bytes, c.flags)) := by
    unfold compressLevel
    rw [hmin, if_pos hlevel, hc]
    simp only [Except.map, hstatus, hdst, Option.getD_some]
    rfl
  have hreceive : decompressType crush bulk' bytes c.flags =
      .ok ({ bulk' with mppcRecv := d.mppc }, some src) := by
    unfold decompressType
    rw [htype, if_pos hlevel, hrecv]
    simp only [Except.map, hdstatus, hddst, Option.getD_some]
    rfl
  refine ⟨_, bytes, c.flags, faulting_ok hsend, hbytes, hlt, hmask, _, faulting_ok hreceive,
    _, _, rfl, rfl, ?_⟩
  show InSync (mppcSetCompressionLevel c.mppc level) (mppcSetCompressionLevel d.mppc level)
  have hdlevel : d.mppc.compressionLevel = level := hsync'.level.trans hclevel
  rw [mppcSetCompressionLevel_of_eq hclevel, mppcSetCompressionLevel_of_eq hdlevel]
  exact hsync'

/-- Within the room of the history the bulk codec is inverse to itself. -/
theorem bulkCodec_inverse (crush : Codec S R) {level n : ℕ} (hlevel : level ≤ 1)
    (hn : n < (if level < 1 then 8192 else 65536) - 3) :
    ((bulkCodec crush level).upTo n).Inverse (InStep level) := by
  -- what a packet of the bounded codec is
  have hcases : ∀ {s r src s' result}, InStep level s r →
      ((bulkCodec crush level).upTo n).compress s src = (s', result) →
      (result = none ∧ s' = s) ∨ ∃ bytes flags, result = some (bytes, flags) ∧
        bytes.length ≤ src.length ∧ flags < 2 ^ 8 ∧ flags &&& BULK_COMPRESSION_FLAGS_MASK ≠ 0 ∧
        ∃ r', (bulkCodec crush level).decompress r bytes flags = (r', some src) ∧
          InStep level s' r' := by
    intro s r src s' result hrel hc
    simp only [Codec.upTo] at hc
    split_ifs at hc with hsize
    · right
      obtain ⟨s₁, bytes, flags, hsend, hbytes, hlt, hmask, hrecv⟩ :=
        hrel.packet hlevel crush hsize.1 (by omega)
      rw [hsend, Prod.mk.injEq] at hc
      obtain ⟨rfl, rfl⟩ := hc
      exact ⟨bytes, flags, rfl, hbytes, hlt, hmask, hrecv⟩
    · rw [Prod.mk.injEq] at hc
      exact .inl ⟨hc.2.symm, hc.1.symm⟩
  refine ⟨?_, ?_, ?_⟩
  · intro s r src s' dst flags hrel hc _
    rcases hcases hrel hc with ⟨hnone, -⟩ | ⟨bytes, flags', hsome, hbytes, hlt, hmask, hrecv⟩
    · cases hnone
    · cases hsome
      exact ⟨hlt, hmask, hbytes, hrecv⟩
  · intro s r src s' dst hrel hc
    rcases hcases hrel hc with ⟨hnone, -⟩ | ⟨bytes, flags', hsome, -, -, hmask, -⟩
    · cases hnone
    · cases hsome
      exact absurd rfl hmask
  · intro s r src s' hrel hc
    rcases hcases hrel hc with ⟨-, rfl⟩ | ⟨bytes, flags', hsome, -⟩
    · exact hrel
    · cases hsome

/-! ### One update -/

variable {codec : Codec S R} {env : Environment} {fp fp' : Receiver R} {Rel : S → R → Prop}

/-- An update without bytes goes out as one fragment. -/
theorem done_of_empty (codec : Codec S R) (compresses : Bool) (maxLength : ℕ) {updateCode : ℕ}
    {bulk : S} (hbegin : env.beginPaint = true) (hend : env.endPaint = true)
    (hcode : updateCode < 16) (hidle : fp.Idle) (hrel : Rel bulk fp.bulk) :
    Done codec env Rel fp updateCode []
      (sendFragment codec compresses maxLength updateCode ⟨0, [], bulk, []⟩) := by
  have hraw : compressFragment codec compresses bulk [] = (bulk, [], 0) := by
    unfold compressFragment bulkCompress
    split_ifs with _ hshort
    · rfl
    · exact absurd (.inl (Nat.zero_le _)) hshort
    · rfl
  have hnext : sendFragment codec compresses maxLength updateCode ⟨0, [], bulk, []⟩ =
      ⟨0 + 1, [], bulk, [fragmentPdu updateCode .single [] 0]⟩ := by
    simp only [sendFragment, List.take_nil, List.drop_nil, hraw]
    rfl
  rw [hnext]
  have hpdu : recvPdu codec env fp (fragmentPdu updateCode .single [] 0) = _ :=
    recvPdu_fragmentPdu .single hbegin hend hcode (by decide) (by decide)
      (bulkDecompress_zero fp.bulk [])
  have hholds := (holds_nil_iff.2 hidle.2).write fp.bulk []
  generalize hfp₂ : ({ fp with bulk := fp.bulk, updateData := fp.updateData.write [] } : Receiver R) =
    fp₂ at hholds hpdu
  have hfrag : fp₂.fragmentation = none := by
    rw [← hfp₂]
    exact hidle.1
  rw [reassemble_single _ hfrag] at hpdu
  refine done_of_deliver hholds (by rw [← hfp₂]) hfrag (by rwa [← hfp₂]) ?_
  exact recvPdus_singleton (by split_ifs <;> decide) hpdu

/-- The loop over the fragments of an update ends when everything has been sent. -/
theorem sendLoop_done {compresses : Bool} {maxLength updateCode : ℕ} {payload : List UInt8} {bulk : S}
    (hcodec : compresses = true → codec.Inverse Rel) (hbegin : env.beginPaint = true)
    (hend : env.endPaint = true) (hcode : updateCode < 16)
    (hsize : payload.length ≤ env.multifragMaxRequestSize) (hmax : 0 < maxLength)
    (hmax' : maxLength + 7 < 2 ^ 15) (hidle : fp.Idle) (hrel : Rel bulk fp.bulk) :
    ∃ s, iterate (sendStep codec compresses maxLength updateCode) (payload.length + 2)
        ⟨0, payload, bulk, []⟩ = some s ∧ Done codec env Rel fp updateCode payload s := by
  by_cases hempty : payload = []
  · subst hempty
    have hdone := done_of_empty codec compresses maxLength hbegin hend hcode hidle hrel
    refine ⟨_, ?_, hdone⟩
    rw [iterate_inl (by rw [sendStep, if_pos (.inr rfl)])]
    exact iterate_inr (sendStep_done hdone) _
  · exact sendLoop_underway hcodec hbegin hend hcode hsize hmax hmax' hidle hrel hempty

/-! ### Whole sessions -/

/-- An update that a server sends. -/
structure Outgoing where
  updateCode : ℕ
  data : List UInt8
  skipCompression : Bool

/-- Updates are sent one after another; gives the PDUs of all of them. -/
def sendUpdates (codec : Codec S R) (settings : Settings) :
    List Outgoing → S → Option (S × List (List UInt8))
  | [], bulk => some (bulk, [])
  | u :: us, bulk =>
    (fastpathSendUpdatePdu codec settings bulk u.updateCode u.data u.skipCompression).bind fun sent =>
      (sendUpdates codec settings us sent.1).map fun rest => (rest.1, sent.2 ++ rest.2)

/-- From ends in step, the updates of a session arrive in order. -/
theorem recvPdus_sendUpdates_of_inStep (crush : Codec S R) (settings : Settings) (env : Environment)
    {s : Except Stop (BulkSend S)} {fp : Receiver (Except Stop (BulkRecv R))}
    (hstep : InStep settings.compressionLevel s fp.bulk) (hidle : fp.Idle) {updates : List Outgoing}
    (hlevel : settings.compressionLevel ≤ 1) (hfast : settings.fastPathOutput = true)
    (hbegin : env.beginPaint = true) (hend : env.endPaint = true)
    (hrecv : ∀ n, 0 ≤ env.recvUpdate
      (fp.calls ++ (updates.map fun u => (u.updateCode, u.data)).take n))
    (hupdates : ∀ u ∈ updates, u.updateCode < 16 ∧
      u.data.length ≤ settings.multifragMaxRequestSize ∧
      u.data.length ≤ env.multifragMaxRequestSize) :
    ∃ s' pdus fp', sendUpdates (bulkCodec crush settings.compressionLevel) settings updates s =
        some (s', pdus) ∧
      recvPdus (bulkCodec crush settings.compressionLevel) env pdus fp = some (0, fp') ∧
      fp'.calls = fp.calls ++ updates.map (fun u => (u.updateCode, u.data)) ∧ fp'.Idle ∧
      InStep settings.compressionLevel s' fp'.bulk := by
  induction updates generalizing s fp with
  | nil => exact ⟨s, [], fp, rfl, rfl, (List.append_nil _).symm, hidle, hstep⟩
  | cons u updates ih =>
    obtain ⟨hcode, hsend, hsize⟩ := hupdates u List.mem_cons_self
    obtain ⟨hmax, hmax'⟩ := maxLength_bounds settings u.skipCompression
    have hbound : settings.compresses u.skipCompression = true →
        settings.maxLength u.skipCompression <
          (if settings.compressionLevel < 1 then 8192 else 65536) - 3 := by
      intro hcompresses
      have hpacket : FASTPATH_MAX_PACKET_SIZE = 0x3FFF := rfl
      rw [Settings.maxLength, if_pos hcompresses, bulkCompressionMaxSize]
      split_ifs <;> omega
    obtain ⟨sent, hloop, -, -, fp₁, hpdus, hcalls, hidle₁, hstep₁⟩ :
        ∃ sent, iterate (sendStep ((bulkCodec crush settings.compressionLevel).upTo
            (settings.maxLength u.skipCompression)) (settings.compresses u.skipCompression)
            (settings.maxLength u.skipCompression) u.updateCode) (u.data.length + 2)
            ⟨0, u.data, s, []⟩ = some sent ∧
          Done _ env (InStep settings.compressionLevel) fp u.updateCode u.data sent :=
      sendLoop_done (fun hcompresses => bulkCodec_inverse crush hlevel (hbound hcompresses)) hbegin
        hend hcode hsize hmax hmax' hidle hstep
    rw [sendStep_upTo _ _ (Nat.le_refl _)] at hloop
    have haccept := hrecv 1
    simp only [List.map_cons, List.take_succ_cons, List.take_zero] at haccept
    rw [recvPdus_upTo, if_neg (by omega)] at hpdus
    have hpdu : fastpathSendUpdatePdu (bulkCodec crush settings.compressionLevel) settings s
        u.updateCode u.data u.skipCompression = some (sent.bulk, sent.pdus) := by
      unfold fastpathSendUpdatePdu
      rw [if_neg (by simp [hfast]), if_neg (by omega), hloop]
      rfl
    obtain ⟨s', pdus, fp', hrest, hpdus', hcalls', hidle', hstep'⟩ := ih hstep₁ hidle₁
      (by
        intro n
        have h := hrecv (n + 1)
        rw [List.map_cons, List.take_succ_cons] at h
        rwa [hcalls, List.append_assoc])
      fun v hv => hupdates v (List.mem_cons_of_mem _ hv)
    refine ⟨s', sent.pdus ++ pdus, fp', ?_, ?_, ?_, hidle', hstep'⟩
    · rw [sendUpdates, hpdu, Option.bind_some, hrest]
      rfl
    · rw [recvPdus_append hpdus, hpdus']
    · rw [hcalls', hcalls, List.append_assoc]
      rfl

/-- A session over MPPC, of any length: no call faults, and the client is passed the updates that the
server has sent, in order, each with its code and its bytes. -/
theorem recvPdus_sendUpdates (crush : Codec S R) (settings : Settings) (env : Environment) (s : S)
    (r : R) (updates : List Outgoing) (hlevel : settings.compressionLevel ≤ 1)
    (hfast : settings.fastPathOutput = true) (hbegin : env.beginPaint = true)
    (hend : env.endPaint = true)
    (hrecv : ∀ n, 0 ≤ env.recvUpdate ((updates.map fun u => (u.updateCode, u.data)).take n))
    (hupdates : ∀ u ∈ updates, u.updateCode < 16 ∧
      u.data.length ≤ settings.multifragMaxRequestSize ∧
      u.data.length ≤ env.multifragMaxRequestSize) :
    ∃ bulk pdus fp, sendUpdates (bulkCodec crush settings.compressionLevel) settings updates
        (.ok (bulkNewSend s)) = some (.ok bulk, pdus) ∧
      recvPdus (bulkCodec crush settings.compressionLevel) env pdus
        (fastpathNew (.ok (bulkNewRecv r))) = some (0, fp) ∧
      fp.calls = updates.map (fun u => (u.updateCode, u.data)) ∧ fp.Idle ∧
      ∃ bulk', fp.bulk = .ok bulk' := by
  have hstep : InStep settings.compressionLevel (.ok (bulkNewSend s))
      (fastpathNew (.ok (bulkNewRecv r)) : Receiver (Except Stop (BulkRecv R))).bulk :=
    inStep_new hlevel s r
  obtain ⟨s', pdus, fp, hsend, hpdus, hcalls, hidle, bulk, bulk', rfl, hbulk, -⟩ :=
    recvPdus_sendUpdates_of_inStep crush settings env hstep ⟨rfl, rfl⟩ hlevel hfast hbegin hend
      hrecv hupdates
  exact ⟨bulk, pdus, fp, hsend, hpdus, hcalls, hidle, bulk', hbulk⟩

/-- A pointer that is hidden, and 60 bytes that are compressed. -/
theorem recvPdus_sendUpdates_two :
    ∃ bulk pdus fp, sendUpdates (bulkCodec (⟨fun s _ => (s, none), fun r _ _ => (r, none)⟩ :
          Codec Unit Unit) 1) ⟨true, 1, true, 20000⟩
        [⟨5, [], false⟩, ⟨4, List.replicate 60 65, false⟩] (.ok (bulkNewSend ())) =
          some (.ok bulk, pdus) ∧
      recvPdus (bulkCodec (⟨fun s _ => (s, none), fun r _ _ => (r, none)⟩ : Codec Unit Unit) 1)
        ⟨20000, fun _ => 0, true, true⟩ pdus (fastpathNew (.ok (bulkNewRecv ()))) = some (0, fp) ∧
      fp.calls = [(5, []), (4, List.replicate 60 65)] ∧ fp.Idle ∧ ∃ bulk', fp.bulk = .ok bulk' :=
  recvPdus_sendUpdates ⟨fun s _ => (s, none), fun r _ _ => (r, none)⟩ ⟨true, 1, true, 20000⟩
    ⟨20000, fun _ => 0, true, true⟩ () () [⟨5, [], false⟩, ⟨4, List.replicate 60 65, false⟩]
    (Nat.le_refl 1) rfl rfl rfl (fun _ => Int.le_refl 0) (by decide)

end FreeRDP.FastPath
