import FreeRDP.Zgfx.Basic

/-!
# Fast-path updates

`fastpath_send_update_pdu` splits an update into fragments, each the one update of a PDU of its own;
`fastpath_recv_update_data` puts the fragments together and passes the update on to
`fastpath_recv_update`.  PDUs are not encrypted, and a stream that is read is the list of the bytes
that are left of it.

The bulk codec is a parameter.  So is what `fastpath_recv_update` and the paint callbacks return.
-/

namespace FreeRDP.FastPath

open ForwardCopy Iterate
open Zgfx (WStream slice u16le readU16)

def FASTPATH_MAX_PACKET_SIZE : ℕ := 0x3FFF

def FASTPATH_OUTPUT_COMPRESSION_USED : ℕ := 0x2

def BULK_COMPRESSION_FLAGS_MASK : ℕ := 0xE0

/-- `FASTPATH_FRAGMENT`. -/
inductive Fragmentation where
  | single
  | last
  | first
  | next
  deriving DecidableEq, Repr

/-- The values `FASTPATH_FRAGMENT_SINGLE` to `FASTPATH_FRAGMENT_NEXT`. -/
def Fragmentation.value : Fragmentation → ℕ
  | .single => 0x0
  | .last => 0x1
  | .first => 0x2
  | .next => 0x3

/-- The fragmentation of a header, whose field has two bits. -/
def fragmentationOf (updateHeader : ℕ) : Fragmentation :=
  if (updateHeader >>> 4) &&& 0x03 = 0 then .single
  else if (updateHeader >>> 4) &&& 0x03 = 1 then .last
  else if (updateHeader >>> 4) &&& 0x03 = 2 then .first
  else .next

/-! ### The bulk codec -/

/-- A bulk compressor with the states `S` of its senders and `R` of its receivers.  `compress`
returns the bytes and the flags, or `none` for a negative status, and so does `decompress`. -/
structure Codec (S R : Type) where
  compress : S → List UInt8 → S × Option (List UInt8 × ℕ)
  decompress : R → List UInt8 → ℕ → R × Option (List UInt8)

variable {S R : Type}

def bulkCompress (codec : Codec S R) (bulk : S) (src : List UInt8) : S × Option (List UInt8 × ℕ) :=
  if src.length ≤ 50 ∨ src.length ≥ 16384 then (bulk, some (src, 0)) else codec.compress bulk src

def bulkDecompress (codec : Codec S R) (bulk : R) (src : List UInt8) (flags : ℕ) :
    R × Option (List UInt8) :=
  if flags &&& BULK_COMPRESSION_FLAGS_MASK ≠ 0 then codec.decompress bulk src flags
  else (bulk, some src)

def bulkCompressionMaxSize (compressionLevel : ℕ) : ℕ := if compressionLevel < 1 then 8192 else 65536

/-! ### Headers -/

/-- `FASTPATH_UPDATE_HEADER`. -/
structure UpdateHeader where
  updateCode : ℕ
  fragmentation : Fragmentation
  compression : ℕ
  compressionFlags : ℕ
  size : ℕ

def fastpathWriteUpdateHeader (h : UpdateHeader) : List UInt8 :=
  UInt8.ofNat ((h.updateCode &&& 0x0F) ||| (h.fragmentation.value &&& 0x03) <<< 4 |||
    (h.compression &&& 0x03) <<< 6) ::
  ((if h.compression ≠ 0 then [UInt8.ofNat h.compressionFlags] else []) ++ u16le h.size)

def fastpathGetUpdateHeaderSize (h : UpdateHeader) : ℕ := if h.compression ≠ 0 then 4 else 3

/-- `fastpath_write_update_pdu_header` with no action and no security flags. -/
def fastpathWriteUpdatePduHeader (length : ℕ) : List UInt8 :=
  [0, UInt8.ofNat (0x80 ||| length >>> 8), UInt8.ofNat (length &&& 0xFF)]

/-- `fastpath_get_update_pdu_header_size` with no security flags. -/
def fastpathGetUpdatePduHeaderSize : ℕ := 3

def perReadLength (s : List UInt8) : Option (ℕ × List UInt8) :=
  match s with
  | [] => none
  | byte :: s =>
    if byte.toNat &&& 0x80 ≠ 0 then
      match s with
      | [] => none
      | byte' :: s => some (((byte.toNat &&& 0x7F) <<< 8 + byte'.toNat) % 2 ^ 16, s)
    else some (byte.toNat, s)

/-- What `fastpath_read_header_rdp` finds. -/
structure RdpHeader where
  encryptionFlags : ℕ
  numberEvents : ℕ
  length : ℕ

/-- `fastpath_read_header_rdp` at the start of a stream: the header and what follows it. -/
def fastpathReadHeaderRdp (s : List UInt8) : Option (RdpHeader × List UInt8) :=
  match s with
  | [] => none
  | header :: rest =>
    (perReadLength rest).map fun (length, rest) =>
      ({ encryptionFlags := (header.toNat &&& 0xC0) >>> 6
         numberEvents := (header.toNat &&& 0x3C) >>> 2
         length := (length + 2 ^ 16 - (s.length - rest.length)) % 2 ^ 16 }, rest)

/-! ### The sender -/

structure Settings where
  compressionEnabled : Bool
  compressionLevel : ℕ
  fastPathOutput : Bool
  multifragMaxRequestSize : ℕ

def Settings.compresses (settings : Settings) (skipCompression : Bool) : Bool :=
  settings.compressionEnabled && !skipCompression

/-- The variable `maxLength`. -/
def Settings.maxLength (settings : Settings) (skipCompression : Bool) : ℕ :=
  if settings.compresses skipCompression then
    min (FASTPATH_MAX_PACKET_SIZE - 20) (bulkCompressionMaxSize settings.compressionLevel) - 20
  else FASTPATH_MAX_PACKET_SIZE - 20

/-- What the loop over the fragments changes: `data` is what is left of the update, and `pdus` has
been written to the transport. -/
structure Sender (S : Type) where
  fragment : ℕ
  data : List UInt8
  bulk : S
  pdus : List (List UInt8)

/-- The fragmentation of a fragment, given its number and what is left behind it. -/
def fragmentationFor (fragment totalLength : ℕ) : Fragmentation :=
  if totalLength = 0 then (if fragment = 0 then .single else .last)
  else if fragment = 0 then .first
  else .next

/-- What is sent for the bytes `src` of a fragment: the bulk state, the bytes and the compression
flags, which are zero if the bytes are sent as they are. -/
def compressFragment (codec : Codec S R) (compresses : Bool) (bulk : S) (src : List UInt8) :
    S × List UInt8 × ℕ :=
  if compresses then
    match bulkCompress codec bulk src with
    | (bulk, some (dst, flags)) => if flags ≠ 0 then (bulk, dst, flags) else (bulk, src, 0)
    | (bulk, none) => (bulk, src, 0)
  else (bulk, src, 0)

def fragmentPdu (updateCode : ℕ) (fragmentation : Fragmentation) (dst : List UInt8) (flags : ℕ) :
    List UInt8 :=
  let header : UpdateHeader :=
    { updateCode := updateCode
      fragmentation := fragmentation
      compression := if flags ≠ 0 then FASTPATH_OUTPUT_COMPRESSION_USED else 0
      compressionFlags := flags
      size := dst.length % 2 ^ 16 }
  fastpathWriteUpdatePduHeader
      ((header.size + (fastpathGetUpdateHeaderSize header + fastpathGetUpdatePduHeaderSize)) %
        2 ^ 16) ++
    (fastpathWriteUpdateHeader header ++ dst)

/-- One round of the loop over the fragments. -/
def sendFragment (codec : Codec S R) (compresses : Bool) (maxLength updateCode : ℕ)
    (s : Sender S) : Sender S :=
  let compressed := compressFragment codec compresses s.bulk (s.data.take maxLength)
  { fragment := s.fragment + 1
    data := s.data.drop maxLength
    bulk := compressed.1
    pdus := s.pdus ++ [fragmentPdu updateCode
      (fragmentationFor s.fragment (s.data.drop maxLength).length) compressed.2.1
      compressed.2.2] }

/-- The loop `for (fragment = 0; (totalLength > 0) || (fragment == 0); fragment++)`. -/
def sendStep (codec : Codec S R) (compresses : Bool) (maxLength updateCode : ℕ) (s : Sender S) :
    Sender S ⊕ Sender S :=
  if s.data.length > 0 ∨ s.fragment = 0 then
    .inl (sendFragment codec compresses maxLength updateCode s)
  else .inr s

/-- `fastpath_send_update_pdu`, when every write to the transport succeeds: the bulk state and the
PDUs, or `none` for `FALSE`. -/
def fastpathSendUpdatePdu (codec : Codec S R) (settings : Settings) (bulk : S) (updateCode : ℕ)
    (data : List UInt8) (skipCompression : Bool) : Option (S × List (List UInt8)) :=
  if settings.fastPathOutput = false then none
  else if data.length > settings.multifragMaxRequestSize then none
  else
    (iterate (sendStep codec (settings.compresses skipCompression)
      (settings.maxLength skipCompression) updateCode) (data.length + 2) ⟨0, data, bulk, []⟩).map
      fun s => (s.bulk, s.pdus)

/-! ### The receiver -/

/-- What the receiver is told and asks for: its setting, the status of `fastpath_recv_update`, which
may depend on all updates so far, and the results of the paint callbacks. -/
structure Environment where
  multifragMaxRequestSize : ℕ
  recvUpdate : List (ℕ × List UInt8) → ℤ
  beginPaint : Bool
  endPaint : Bool

/-- `rdpFastPath`; `fragmentation` is `none` for -1, and `calls` lists the calls of
`fastpath_recv_update`: the update code and the bytes of the stream. -/
structure Receiver (R : Type) where
  bulk : R
  updateData : WStream
  fragmentation : Option Fragmentation
  calls : List (ℕ × List UInt8)

def fastpathNew (bulk : R) : Receiver R := ⟨bulk, ⟨fun _ => 0, 0, 0⟩, none, []⟩

structure Update where
  updateCode : ℕ
  fragmentation : Fragmentation
  compressionFlags : ℕ
  data : List UInt8

def readUpdateBody (updateHeader compressionFlags : ℕ) (s : List UInt8) :
    Option (Update × List UInt8) :=
  if s.length < 2 then none
  else if (s.drop 2).length < readU16 s then none
  else
    some ({ updateCode := updateHeader &&& 0x0F
            fragmentation := fragmentationOf updateHeader
            compressionFlags := compressionFlags
            data := (s.drop 2).take (readU16 s) }, (s.drop 2).drop (readU16 s))

/-- `fastpath_read_update_header` and what is read behind it. -/
def readUpdate (s : List UInt8) : Option (Update × List UInt8) :=
  match s with
  | [] => none
  | updateHeader :: s =>
    if (updateHeader.toNat >>> 6) &&& 0x03 = FASTPATH_OUTPUT_COMPRESSION_USED then
      match s with
      | [] => none
      | compressionFlags :: s => readUpdateBody updateHeader.toNat compressionFlags.toNat s
    else readUpdateBody updateHeader.toNat 0 s

/-- The update is complete: `fastpath_recv_update` is called, and the stream starts again. -/
def deliver (env : Environment) (updateCode : ℕ) (fp : Receiver R) : ℤ × Receiver R :=
  let calls := fp.calls ++ [(updateCode, slice fp.updateData.buffer 0 fp.updateData.position)]
  (if env.recvUpdate calls < 0 then -1 else env.recvUpdate calls,
    { fp with
      updateData := ⟨fp.updateData.buffer, 0, fp.updateData.position⟩
      calls := calls })

/-- What the fragmentation of an update asks for, once its bytes have been written to the stream. -/
def reassemble (env : Environment) (updateCode : ℕ) (fragmentation : Fragmentation)
    (fp : Receiver R) : ℤ × Receiver R :=
  if fragmentation = .single then
    if fp.fragmentation ≠ none then (-1, fp) else deliver env updateCode fp
  else if fp.updateData.position > env.multifragMaxRequestSize then (-1, fp)
  else if fragmentation = .first then
    if fp.fragmentation ≠ none then (-1, fp) else (0, { fp with fragmentation := some .first })
  else if fp.fragmentation ≠ some .first ∧ fp.fragmentation ≠ some .next then (-1, fp)
  else if fragmentation = .next then (0, { fp with fragmentation := some .next })
  else deliver env updateCode { fp with fragmentation := none }

/-- `fastpath_recv_update_data`: the status, the receiver and what is left of the stream. -/
def fastpathRecvUpdateData (codec : Codec S R) (env : Environment) (fp : Receiver R)
    (s : List UInt8) : ℤ × Receiver R × List UInt8 :=
  match readUpdate s with
  | none => (-1, fp, s)
  | some (u, s) =>
    match bulkDecompress codec fp.bulk u.data u.compressionFlags with
    | (bulk, none) => (-1, { fp with bulk := bulk }, s)
    | (bulk, some data) =>
      let r := reassemble env u.updateCode u.fragmentation
        { fp with bulk := bulk, updateData := fp.updateData.write data }
      (r.1, r.2, s)

/-- One round of the loop of `fastpath_recv_updates`. -/
def recvStep (codec : Codec S R) (env : Environment) (p : Receiver R × List UInt8) :
    (Receiver R × List UInt8) ⊕ (ℤ × Receiver R) :=
  if p.2.length ≥ 3 then
    let r := fastpathRecvUpdateData codec env p.1 p.2
    if r.1 < 0 then .inr (-3, r.2.1) else .inl r.2
  else .inr (0, p.1)

/-- `fastpath_recv_updates`: its result and the receiver. -/
def fastpathRecvUpdates (codec : Codec S R) (env : Environment) (fp : Receiver R)
    (s : List UInt8) : Option (ℤ × Receiver R) :=
  (if env.beginPaint then iterate (recvStep codec env) (s.length + 1) (fp, s)
    else some (-2, fp)).map fun r => if env.endPaint then r else (-4, r.2)

/-- A receiver that waits for the first fragment of an update. -/
def Receiver.Idle (fp : Receiver R) : Prop := fp.fragmentation = none ∧ fp.updateData.position = 0

end FreeRDP.FastPath
