import FreeRDP.Channels.Basic
import FreeRDP.Lib.Traced

/-!
# Sending on a static channel

`freerdp_channel_send` of `libfreerdp/core/channels.c`, which sends a payload in chunks, each in a stream of
its own.  The size of the chunks is what the other side has announced in its virtual channel capability set.

A `SendRound` says what the rest of the program does during one round of the loop.  The writes of the chunks
are recorded.
-/

namespace FreeRDP.Channels

open Traced Wire

def rdpPacketHeaderMaxLength : ℕ := 15

def channelOptionShowProtocol : ℕ := 0x00200000

/-- What the channels use of the `rdpSettings`. -/
structure ChannelSettings where
  serverMode : Bool
  virtualChannelChunkSize : ℕ

/-- `rdpMcsChannel`. -/
structure McsChannel where
  channelId : ℕ
  options : ℕ

/-- A stream that `transport_send_stream_init` gives: it has at least 4096 bytes, and starts at its
beginning. -/
structure SendStream where
  stream : WStream
  capacity_le : 4096 ≤ stream.capacity
  position_eq : stream.position = 0

/-- What happens during a round: the stream, the security that is in force, the results of `realloc` and of
`rdp_send`. -/
structure SendRound where
  stream : Option SendStream
  doCrypt : Bool
  fips : Bool
  /-- `sec_flags` is not 0. -/
  secFlags : Bool
  memory : Bool
  sent : Bool

/-- `Stream_SafeSeek`, in a stream whose length is its capacity. -/
def safeSeek (n : ℕ) (s : WStream) : Option WStream :=
  if h : n ≤ s.capacity - s.position then
    some
      { buffer := s.buffer
        position := s.position + n
        nonempty := s.nonempty
        position_le := by
          have hle := s.position_le
          unfold WStream.capacity at h
          omega }
  else none

/-- `rdp_security_stream_init`, without a security header of its own. -/
def rdpSecurityStreamInit (e : SendRound) (s : WStream) : Option WStream :=
  if e.doCrypt then do
    let s ← safeSeek 12 s
    if e.fips then safeSeek 4 s else return s
  else if e.secFlags then safeSeek 4 s
  else some s

def rdpSendStreamInit (e : SendRound) : Option WStream := do
  let s ← e.stream
  let s ← safeSeek rdpPacketHeaderMaxLength s.stream
  rdpSecurityStreamInit e s

/-- A write of `size` bytes at `position`. -/
structure ChunkWrite where
  position : ℕ
  size : ℕ
  capacity : ℕ

/-- The state of the loop: the number of rounds, what is left of the payload, the flags, and the packets
that have been sent. -/
structure SendState where
  round : ℕ
  left : List UInt8
  flags : ℕ
  packets : List (List UInt8)

def SendState.chunkSize (settings : ChannelSettings) (t : SendState) : ℕ :=
  if t.left.length > settings.virtualChannelChunkSize then settings.virtualChannelChunkSize
  else t.left.length

def SendState.chunkFlags (settings : ChannelSettings) (channel : McsChannel) (t : SendState) : ℕ :=
  let flags := if t.left.length > settings.virtualChannelChunkSize then t.flags
    else t.flags ||| channelFlagLast
  if ¬ settings.serverMode ∧ channel.options &&& channelOptionShowProtocol ≠ 0 then
    flags ||| channelFlagShowProtocol
  else flags

/-- A round of the loop of `freerdp_channel_send`, for a payload of `size` bytes. -/
def channelSendRound (rounds : ℕ → SendRound) (settings : ChannelSettings) (channel : McsChannel) (size : ℕ)
    (t : SendState) : Traced ChunkWrite (SendState ⊕ Bool) :=
  if t.left = [] then pure (.inr true)
  else
    match rdpSendStreamInit (rounds t.round) with
    | none => pure (.inr false)
    | some s =>
      let chunkSize := t.chunkSize settings
      let s := (s.write (le32 size)).write (le32 (t.chunkFlags settings channel))
      match s.ensureCapacity (rounds t.round).memory chunkSize with
      | none => pure (.inr false)
      | some s => do
        access ⟨s.position, chunkSize, s.capacity⟩
        let s := s.write (t.left.take chunkSize)
        if (rounds t.round).sent then
          return .inl ⟨t.round + 1, t.left.drop chunkSize, 0, t.packets ++ [s.content]⟩
        else return .inr false

/-- `freerdp_channel_send`, for at most `n` rounds. -/
def freerdpChannelSend (rounds : ℕ → SendRound) (settings : ChannelSettings) (channels : List McsChannel)
    (channelId : ℕ) (data : List UInt8) (n : ℕ) : Traced ChunkWrite (Option Bool) :=
  match channels.find? (fun channel => channel.channelId = channelId) with
  | none => pure (some false)
  | some channel =>
    loop (channelSendRound rounds settings channel data.length) n ⟨0, data, channelFlagFirst, []⟩

end FreeRDP.Channels

/-!
## Sending on a static channel is not safe for every chunk size

`Stream_EnsureCapacity` is asked for the size of a chunk, and not for the room behind the headers.  A
chunk is written behind at most 39 bytes of headers, so that 4096 bytes are enough for chunks of up to
4057 bytes, and no more.  With chunks of no bytes the loop does not end.

`sends_iff`: whatever happens during the rounds, a payload is sent in finitely many of them, and inside the
streams, if and only if its chunks have between 1 and 4057 bytes.
-/

namespace FreeRDP.Channels

open Traced Iterate Wire

variable {rounds : ℕ → SendRound} {settings : ChannelSettings} {channel : McsChannel}
  {channels : List McsChannel} {channelId size n : ℕ} {data : List UInt8} {e : SendRound} {s s' : WStream}
  {t u : SendState}

/-! ### Streams -/

theorem safeSeek_of_le (h : s.position + n ≤ s.capacity) :
    ∃ s', safeSeek n s = some s' ∧ s'.position = s.position + n ∧ s'.capacity = s.capacity := by
  have hle : n ≤ s.capacity - s.position := by omega
  exact ⟨_, dif_pos hle, rfl, rfl⟩

/-- The bytes of the headers in front of a chunk. -/
def SendRound.headers (e : SendRound) : ℕ :=
  rdpPacketHeaderMaxLength +
    (if e.doCrypt then (if e.fips then 16 else 12) else if e.secFlags then 4 else 0) + 8

theorem SendRound.headers_le (e : SendRound) : e.headers ≤ 39 := by
  unfold SendRound.headers rdpPacketHeaderMaxLength
  split_ifs <;> omega

/-- The stream of a round has its capacity, and is at the position behind the packet and security
headers. -/
theorem rdpSendStreamInit_spec {stream : SendStream} (h : e.stream = some stream) :
    ∃ s, rdpSendStreamInit e = some s ∧ s.position + 8 = e.headers ∧
      s.capacity = stream.stream.capacity := by
  have hcapacity := stream.capacity_le
  have hposition := stream.position_eq
  have hheader : rdpPacketHeaderMaxLength = 15 := rfl
  obtain ⟨s, hs, hp, hc⟩ := safeSeek_of_le (n := rdpPacketHeaderMaxLength) (s := stream.stream) (by omega)
  unfold rdpSendStreamInit rdpSecurityStreamInit SendRound.headers
  rw [h, Option.bind_eq_bind, Option.bind_some, hs, Option.bind_eq_bind, Option.bind_some]
  split_ifs with hcrypt hfips hflags
  · obtain ⟨s₁, hs₁, hp₁, hc₁⟩ := safeSeek_of_le (n := 12) (s := s) (by omega)
    obtain ⟨s₂, hs₂, hp₂, hc₂⟩ := safeSeek_of_le (n := 4) (s := s₁) (by omega)
    rw [hs₁, Option.bind_some]
    exact ⟨s₂, hs₂, by omega, by omega⟩
  · obtain ⟨s₁, hs₁, hp₁, hc₁⟩ := safeSeek_of_le (n := 12) (s := s) (by omega)
    rw [hs₁, Option.bind_some]
    exact ⟨s₁, rfl, by omega, by omega⟩
  · obtain ⟨s₁, hs₁, hp₁, hc₁⟩ := safeSeek_of_le (n := 4) (s := s) (by omega)
    exact ⟨s₁, hs₁, by omega, by omega⟩
  · exact ⟨s, rfl, by omega, by omega⟩

theorem rdpSendStreamInit_none (h : e.stream = none) : rdpSendStreamInit e = none := by
  unfold rdpSendStreamInit
  rw [h]
  rfl

/-! ### Rounds -/

/-- The write of a chunk stays inside its stream. -/
def InStream (w : ChunkWrite) : Prop := w.position + w.size ≤ w.capacity

theorem SendState.chunkSize_eq (settings : ChannelSettings) (t : SendState) :
    t.chunkSize settings = min settings.virtualChannelChunkSize t.left.length := by
  unfold SendState.chunkSize
  split_ifs <;> omega

/-- A round with a stream writes the headers into it, and then the chunk if the stream can be made large
enough. -/
theorem channelSendRound_some (rounds : ℕ → SendRound) (settings : ChannelSettings) (channel : McsChannel)
    (size : ℕ) {t : SendState} (hleft : t.left ≠ []) {stream : SendStream}
    (hstream : (rounds t.round).stream = some stream) :
    ∃ s : WStream, s.position = (rounds t.round).headers ∧ s.capacity = stream.stream.capacity ∧
      (s.ensureCapacity (rounds t.round).memory (t.chunkSize settings) = none →
        channelSendRound rounds settings channel size t = pure (.inr false)) ∧
      ∀ s', s.ensureCapacity (rounds t.round).memory (t.chunkSize settings) = some s' →
        channelSendRound rounds settings channel size t = do
          access ⟨s'.position, t.chunkSize settings, s'.capacity⟩
          if (rounds t.round).sent then
            return .inl ⟨t.round + 1, t.left.drop (t.chunkSize settings), 0,
              t.packets ++ [(s'.write (t.left.take (t.chunkSize settings))).content]⟩
          else return .inr false := by
  obtain ⟨s, hs, hposition, hcapacity⟩ := rdpSendStreamInit_spec hstream
  have hheaders := (rounds t.round).headers_le
  have hroom := stream.capacity_le
  have hsize : (s.write (le32 size)).capacity = s.capacity :=
    WStream.capacity_write (by rw [length_le32]; omega)
  refine ⟨(s.write (le32 size)).write (le32 (t.chunkFlags settings channel)), ?_, ?_, fun hnone => ?_,
    fun s' hsome => ?_⟩
  · rw [WStream.position_write, WStream.position_write, length_le32, length_le32]
    omega
  · rw [WStream.capacity_write, hsize, hcapacity]
    rw [hsize, WStream.position_write, length_le32, length_le32]
    omega
  · unfold channelSendRound
    rw [if_neg hleft, hs]
    dsimp only
    rw [hnone]
  · unfold channelSendRound
    rw [if_neg hleft, hs]
    dsimp only
    rw [hsome]

theorem channelSendRound_none (rounds : ℕ → SendRound) (settings : ChannelSettings) (channel : McsChannel)
    (size : ℕ) (hleft : t.left ≠ []) (hstream : (rounds t.round).stream = none) :
    channelSendRound rounds settings channel size t = pure (.inr false) := by
  unfold channelSendRound
  rw [if_neg hleft, rdpSendStreamInit_none hstream]

/-- A small chunk is written inside its stream. -/
theorem safe_channelSendRound (rounds : ℕ → SendRound) (settings : ChannelSettings) (channel : McsChannel)
    (size : ℕ) (hsmall : t.left ≠ [] → t.chunkSize settings ≤ 4057) :
    (channelSendRound rounds settings channel size t).Safe InStream := by
  by_cases hleft : t.left = []
  · unfold channelSendRound
    rw [if_pos hleft, safe_pure]
    trivial
  · specialize hsmall hleft
    cases hstream : (rounds t.round).stream with
    | none =>
      rw [channelSendRound_none rounds settings channel size hleft hstream, safe_pure]
      trivial
    | some stream =>
      obtain ⟨s, hposition, hcapacity, hnone, hsome⟩ :=
        channelSendRound_some rounds settings channel size hleft hstream
      cases hensure : s.ensureCapacity (rounds t.round).memory (t.chunkSize settings) with
      | none =>
        rw [hnone hensure, safe_pure]
        trivial
      | some s' =>
        obtain ⟨-, hsame, hgrows, -⟩ := WStream.ensureCapacity_spec hensure
        have hheaders := (rounds t.round).headers_le
        have hroom := stream.capacity_le
        rw [hsome s' hensure, safe_bind, safe_access, safe_ite]
        refine ⟨?_, fun _ => (safe_pure _).mpr trivial, fun _ => (safe_pure _).mpr trivial⟩
        show s'.position + t.chunkSize settings ≤ s'.capacity
        omega

theorem next_channelSendRound (hnext : Next (channelSendRound rounds settings channel size) t u) :
    t.left ≠ [] ∧ u.left = t.left.drop (t.chunkSize settings) := by
  unfold Next at hnext
  by_cases hleft : t.left = []
  · unfold channelSendRound at hnext
    rw [if_pos hleft] at hnext
    exact absurd hnext Sum.inr_ne_inl
  · refine ⟨hleft, ?_⟩
    cases hstream : (rounds t.round).stream with
    | none =>
      rw [channelSendRound_none rounds settings channel size hleft hstream] at hnext
      exact absurd hnext Sum.inr_ne_inl
    | some stream =>
      obtain ⟨s, -, -, hnone, hsome⟩ := channelSendRound_some rounds settings channel size hleft hstream
      cases hensure : s.ensureCapacity (rounds t.round).memory (t.chunkSize settings) with
      | none =>
        rw [hnone hensure] at hnext
        exact absurd hnext Sum.inr_ne_inl
      | some s' =>
        rw [hsome s' hensure, value_bind, value_ite] at hnext
        split_ifs at hnext
        · rw [← Sum.inl.inj hnext]
        · exact absurd hnext Sum.inr_ne_inl

/-! ### The payload -/

/-- A payload is sent in finitely many rounds and inside the streams, whatever happens during the rounds. -/
def Sends (settings : ChannelSettings) (channels : List McsChannel) (channelId : ℕ) (data : List UInt8) :
    Prop :=
  ∀ rounds, ∃ n, (freerdpChannelSend rounds settings channels channelId data n).value ≠ none ∧
    (freerdpChannelSend rounds settings channels channelId data n).Safe InStream

/-- The chunks of a payload have room behind the headers. -/
def ChunksFit (settings : ChannelSettings) (data : List UInt8) : Prop :=
  data = [] ∨ 0 < settings.virtualChannelChunkSize ∧
    min settings.virtualChannelChunkSize data.length ≤ 4057

theorem loop_channelSendRound (rounds : ℕ → SendRound) (channel : McsChannel)
    (h : ChunksFit settings data) :
    (loop (channelSendRound rounds settings channel data.length) (data.length + 1)
        ⟨0, data, channelFlagFirst, []⟩).value ≠ none ∧
      (loop (channelSendRound rounds settings channel data.length) (data.length + 1)
        ⟨0, data, channelFlagFirst, []⟩).Safe InStream := by
  have hsmall (t : SendState) (ht : t.left.length ≤ data.length) (hleft : t.left ≠ []) :
      0 < t.chunkSize settings ∧ t.chunkSize settings ≤ 4057 := by
    have hpos := List.length_pos_iff.mpr hleft
    rw [SendState.chunkSize_eq]
    rcases h with rfl | ⟨hchunk, hroom⟩
    · rw [List.length_nil] at ht
      omega
    · omega
  refine (loop_iff (I := fun t : SendState => t.left.length ≤ data.length) (C := fun _ => True)
    (μ := fun t => t.left.length) ?_ ?_ le_rfl (Nat.lt_succ_self _)).mpr fun _ _ => trivial
  · intro t u ht _ hnext
    obtain ⟨hleft, hu⟩ := next_channelSendRound hnext
    have hpos := List.length_pos_iff.mpr hleft
    have hchunk := (hsmall t ht hleft).1
    rw [hu, List.length_drop]
    omega
  · intro t ht
    exact iff_of_true (safe_channelSendRound rounds settings channel _ fun hleft => (hsmall t ht hleft).2)
      trivial

/-- A round in which everything succeeds, with the largest headers, and a stream of `capacity` bytes. -/
def fipsRound (capacity : ℕ) (h : 4096 ≤ capacity) : SendRound where
  stream := some
    { stream :=
        { buffer := List.replicate capacity 0
          position := 0
          nonempty := by
            rw [Ne, List.replicate_eq_nil_iff]
            omega
          position_le := Nat.zero_le _ }
      capacity_le := by
        unfold WStream.capacity
        rwa [List.length_replicate]
      position_eq := rfl }
  doCrypt := true
  fips := true
  secFlags := true
  memory := true
  sent := true

/-- What such a round does with a chunk that the stream has the capacity for. -/
theorem channelSendRound_fipsRound (settings : ChannelSettings) (channel : McsChannel) (size capacity : ℕ)
    (h : 4096 ≤ capacity) (hleft : t.left ≠ []) (hchunk : t.chunkSize settings ≤ capacity) :
    ⟨39, t.chunkSize settings, capacity⟩ ∈
        (channelSendRound (fun _ => fipsRound capacity h) settings channel size t).trace ∧
      ∃ u, (channelSendRound (fun _ => fipsRound capacity h) settings channel size t).value = .inl u ∧
        u.left = t.left.drop (t.chunkSize settings) := by
  obtain ⟨s, hposition, hcapacity, -, hsome⟩ :=
    channelSendRound_some (fun _ => fipsRound capacity h) settings channel size hleft rfl
  have hcap : s.capacity = capacity := hcapacity.trans List.length_replicate
  have hensure : s.ensureCapacity true (t.chunkSize settings) = some s := if_neg (by omega)
  rw [hsome s hensure]
  have hheaders : s.position = 39 := hposition
  rw [hheaders, hcap]
  exact ⟨List.mem_cons_self, _, rfl, rfl⟩

/-- Chunks of no bytes are sent for ever. -/
theorem freerdpChannelSend_zero {channel : McsChannel}
    (hchannel : channels.find? (fun channel => channel.channelId = channelId) = some channel)
    (hdata : data ≠ []) (hzero : settings.virtualChannelChunkSize = 0) (n : ℕ) :
    (freerdpChannelSend (fun _ => fipsRound 4096 le_rfl) settings channels channelId data n).value =
      none := by
  unfold freerdpChannelSend
  rw [hchannel]
  dsimp only
  rw [value_loop]
  refine iterate_eq_none (I := fun t => t.left = data) (fun t ht => ?_) rfl n
  have hchunk : t.chunkSize settings = 0 := by
    rw [SendState.chunkSize_eq, hzero, Nat.zero_min]
  obtain ⟨-, u, hu, hleft⟩ := channelSendRound_fipsRound settings channel data.length 4096 le_rfl
    (ht.trans_ne hdata) (hchunk.trans_le (Nat.zero_le _))
  rw [hchunk, List.drop_zero] at hleft
  exact ⟨u, hu, hleft.trans ht⟩

/-- A large chunk is not written inside the stream. -/
theorem freerdpChannelSend_large {channel : McsChannel}
    (hchannel : channels.find? (fun channel => channel.channelId = channelId) = some channel)
    (hlarge : 4057 < min settings.virtualChannelChunkSize data.length) :
    ∃ rounds, ∀ n, (freerdpChannelSend rounds settings channels channelId data n).value ≠ none →
      ¬ (freerdpChannelSend rounds settings channels channelId data n).Safe InStream := by
  have hdata : data ≠ [] := by
    rintro rfl
    rw [List.length_nil] at hlarge
    omega
  let t : SendState := ⟨0, data, channelFlagFirst, []⟩
  have hchunk : t.chunkSize settings = min settings.virtualChannelChunkSize data.length :=
    SendState.chunkSize_eq settings t
  refine ⟨fun _ => fipsRound (max 4096 (t.chunkSize settings)) (le_max_left _ _), fun n hend hsafe => ?_⟩
  unfold freerdpChannelSend at hend hsafe
  rw [hchannel] at hend hsafe
  dsimp only at hend hsafe
  obtain ⟨hmem, -⟩ := channelSendRound_fipsRound settings channel data.length _ (le_max_left _ _)
    (t := t) hdata (le_max_right 4096 (t.chunkSize settings))
  have hinside : 39 + t.chunkSize settings ≤ max 4096 (t.chunkSize settings) :=
    (safe_loop_iff hend).mp hsafe t .refl _ hmem
  omega

/-- A payload is sent, whatever happens, if and only if its channel is unknown, or it is empty, or the chunk
size is not 0 and no chunk has more than 4057 bytes. -/
theorem sends_iff (settings : ChannelSettings) (channels : List McsChannel) (channelId : ℕ)
    (data : List UInt8) :
    Sends settings channels channelId data ↔
      channels.find? (fun channel => channel.channelId = channelId) = none ∨ ChunksFit settings data := by
  cases hchannel : channels.find? (fun channel => channel.channelId = channelId) with
  | none =>
    refine iff_of_true (fun rounds => ⟨0, ?_⟩) (Or.inl rfl)
    unfold freerdpChannelSend
    rw [hchannel]
    exact ⟨Option.some_ne_none false, (safe_pure _).mpr trivial⟩
  | some channel =>
    rw [or_iff_right (Option.some_ne_none channel)]
    constructor
    · intro h
      by_contra hfit
      obtain ⟨hdata, hchunks⟩ := not_or.mp hfit
      rcases Nat.eq_zero_or_pos settings.virtualChannelChunkSize with hzero | hpos
      · obtain ⟨n, hend, -⟩ := h fun _ => fipsRound 4096 le_rfl
        exact hend (freerdpChannelSend_zero hchannel hdata hzero n)
      · have hlarge : 4057 < min settings.virtualChannelChunkSize data.length := by
          by_contra hle
          exact hchunks ⟨hpos, Nat.le_of_not_lt hle⟩
        obtain ⟨rounds, hrounds⟩ := freerdpChannelSend_large hchannel hlarge
        obtain ⟨n, hend, hsafe⟩ := h rounds
        exact hrounds n hend hsafe
    · intro h rounds
      refine ⟨data.length + 1, ?_⟩
      unfold freerdpChannelSend
      rw [hchannel]
      exact loop_channelSendRound rounds channel h

/-- With a chunk size of 0, a payload of one byte is sent for ever. -/
theorem not_sends : ¬ ∀ (settings : ChannelSettings) (channels : List McsChannel) (channelId : ℕ)
    (data : List UInt8), settings.virtualChannelChunkSize < 2 ^ 32 →
      Sends settings channels channelId data := by
  intro h
  obtain ⟨n, hend, -⟩ := h ⟨false, 0⟩ [⟨1004, 0⟩] 1004 [0] (by decide) fun _ => fipsRound 4096 le_rfl
  exact hend (freerdpChannelSend_zero rfl (List.cons_ne_nil _ _) rfl n)

end FreeRDP.Channels
