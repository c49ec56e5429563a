import FreeRDP.Channels.Wts
import FreeRDP.Lib.Run

/-!
# What the parser of dynamic channel PDUs accesses

`wts_read_variable_uint` checks what is left of the receive buffer of `drdynvc`, not of the PDU.  So a PDU
that is too short for its channel id or its length makes the parser read what an earlier one has left
behind, and the number of bytes that are left wraps around.

`drdynvc_safe_iff`: nothing else goes wrong.
-/

namespace FreeRDP.Channels

open Wire

variable {memory : WtsMemory} {vcm vcm' : Vcm} {dvc : PeerChannel} {s rest buffer : List UInt8}
  {cbLen position length n : ℕ}

/-! ### The property -/

/-- The access keeps to the `n` bytes of the PDU, to the number of bytes that are left, and to the length of
the message. -/
def Access.Safe (n : ℕ) : Access → Prop
  | .read position count => ∀ i < count, position + i < n
  | .subtract length value => value ≤ length
  | .write finish total _ => finish ≤ total

def AllSafe (n : ℕ) (accesses : List Access) : Prop := ∀ access ∈ accesses, access.Safe n

/-! ### The condition -/

/-- A message that begins has its length, if the receive buffer is long enough for it. -/
def HasLength (sp position length : ℕ) (buffer : List UInt8) : Prop :=
  wtsVariableUintSize sp ≤ (buffer.drop position).length → wtsVariableUintSize sp ≤ length

/-- The PDU in the receive buffer has a channel id, and a length if it needs one, if the receive buffer is
long enough for them. -/
def HasFields (vcm : Vcm) : Prop :=
  match vcm.drdynvcChannel.receiveData.buffer with
  | [] => True
  | value :: s =>
    let length := vcm.drdynvcChannel.receiveData.position % 2 ^ 32
    let cmd := (value.toNat &&& 0xF0) >>> 4
    let sp := (value.toNat &&& 0x0C) >>> 2
    let size := wtsVariableUintSize (value.toNat &&& 0x03)
    0 < length → cmd ≠ capabilityRequestPdu → vcm.drdynvcState = .ready → size ≤ s.length →
      1 + size ≤ length ∧
        ∀ channelId rest, wtsReadVariableUint (value.toNat &&& 0x03) s = some (channelId, rest) →
          (wtsGetDvcChannelById channelId vcm).isSome → cmd = dataFirstPdu →
            HasLength sp (1 + size) (length - (1 + size)) (value :: s)

/-! ### Reading numbers -/

theorem wtsVariableUintSize_pos (cbLen : ℕ) : 1 ≤ wtsVariableUintSize cbLen := by
  unfold wtsVariableUintSize
  split <;> decide

/-- A number is read if and only if the receive buffer is long enough. -/
theorem wtsReadVariableUint_eq (cbLen : ℕ) (s : List UInt8) :
    (wtsVariableUintSize cbLen ≤ s.length →
      ∃ value, wtsReadVariableUint cbLen s = some (value, s.drop (wtsVariableUintSize cbLen))) ∧
    (s.length < wtsVariableUintSize cbLen → wtsReadVariableUint cbLen s = none) := by
  unfold wtsVariableUintSize wtsReadVariableUint
  match cbLen with
  | 0 =>
    match s with
    | [] => exact ⟨nofun, fun _ => rfl⟩
    | a :: s => exact ⟨fun _ => ⟨_, rfl⟩, fun h => absurd h (by simp)⟩
  | 1 =>
    match s with
    | [] => exact ⟨nofun, fun _ => rfl⟩
    | [a] => exact ⟨fun h => absurd h (by simp), fun _ => rfl⟩
    | a :: b :: s => exact ⟨fun _ => ⟨_, rfl⟩, fun h => absurd h (by simp)⟩
  | k + 2 =>
    match s with
    | [] => exact ⟨nofun, fun _ => rfl⟩
    | [a] => exact ⟨fun h => absurd h (by simp), fun _ => rfl⟩
    | [a, b] => exact ⟨fun h => absurd h (by simp), fun _ => rfl⟩
    | [a, b, c] => exact ⟨fun h => absurd h (by simp), fun _ => rfl⟩
    | a :: b :: c :: e :: s =>
      exact ⟨fun _ => ⟨_, rfl⟩, fun h => absurd h (by simp only [List.length_cons]; omega)⟩

/-! ### Handlers -/

theorem allSafe_nil (n : ℕ) : AllSafe n [] := nofun

theorem allSafe_cons {access : Access} {accesses : List Access} :
    AllSafe n (access :: accesses) ↔ access.Safe n ∧ AllSafe n accesses := List.forall_mem_cons

theorem allSafe_append {accesses accesses' : List Access} :
    AllSafe n (accesses ++ accesses') ↔ AllSafe n accesses ∧ AllSafe n accesses' := List.forall_mem_append

theorem safe_read {count : ℕ} (h : position + count ≤ n) : (Access.read position count).Safe n := by
  intro i hi
  omega

theorem sub32_of_le (h : n ≤ length) (hlt : length < 2 ^ 32) : sub32 length n = length - n := by
  unfold sub32
  have hsum : length + 2 ^ 32 - n = length - n + 2 ^ 32 := by omega
  rw [hsum, Nat.add_mod_right, Nat.mod_eq_of_lt (by omega)]

/-- A response is read if there are four bytes. -/
theorem createResponse_safe (h : position + length ≤ n) :
    AllSafe n (wtsReadDrdynvcCreateResponse dvc s position length).2.2 := by
  unfold wtsReadDrdynvcCreateResponse
  split
  · exact allSafe_nil n
  · next hlength =>
    have hread : AllSafe n [.read position 4] :=
      allSafe_cons.mpr ⟨safe_read (by omega), allSafe_nil n⟩
    split
    · exact hread
    · exact hread

/-- A first fragment is read safely if and only if it has its length. -/
theorem dataFirst_safe_iff (h : position + length ≤ n) (hlt : length < 2 ^ 32) :
    AllSafe n (wtsReadDrdynvcDataFirst memory dvc s position cbLen length).2.2 ↔
      HasLength cbLen position length s := by
  obtain ⟨hsome, hnone⟩ := wtsReadVariableUint_eq cbLen (s.drop position)
  have hsize := wtsVariableUintSize_pos cbLen
  unfold wtsReadDrdynvcDataFirst HasLength
  by_cases hroom : wtsVariableUintSize cbLen ≤ (s.drop position).length
  · obtain ⟨total, heq⟩ := hsome hroom
    rw [heq]
    dsimp only
    by_cases hfits : wtsVariableUintSize cbLen ≤ length
    · refine iff_of_true ?_ fun _ => hfits
      rw [sub32_of_le hfits hlt]
      have hfields : AllSafe n [.read position (wtsVariableUintSize cbLen),
          .subtract length (wtsVariableUintSize cbLen)] :=
        allSafe_cons.mpr ⟨safe_read (by omega), allSafe_cons.mpr ⟨hfits, allSafe_nil n⟩⟩
      split
      · exact hfields
      · next htotal =>
        split
        · exact hfields
        · refine allSafe_append.mpr ⟨hfields, allSafe_cons.mpr ⟨safe_read (by omega), ?_⟩⟩
          exact allSafe_cons.mpr ⟨Nat.le_of_not_lt htotal, allSafe_nil n⟩
    · refine iff_of_false (fun hsafe => ?_) fun hc => hfits (hc hroom)
      have hsubtract : (Access.subtract length (wtsVariableUintSize cbLen)).Safe n := by
        apply hsafe
        split
        · exact List.mem_cons_of_mem _ List.mem_cons_self
        · split
          · exact List.mem_cons_of_mem _ List.mem_cons_self
          · exact List.mem_cons_of_mem _ List.mem_cons_self
      exact hfits hsubtract
  · rw [hnone (by omega)]
    exact iff_of_true (allSafe_nil n) fun h => absurd h hroom

/-- A fragment is read, and written if it does not exceed the length of the message. -/
theorem data_safe (h : position + length ≤ n) :
    AllSafe n (wtsReadDrdynvcData memory dvc s position length).2.2 := by
  have hread := safe_read h
  unfold wtsReadDrdynvcData
  dsimp only
  split
  · split
    · exact allSafe_nil n
    · next hfits =>
      have hall := allSafe_cons.mpr ⟨hread, allSafe_cons.mpr
        ⟨show (Access.write (dvc.receiveData.position + length) dvc.dvcTotalLength
            dvc.receiveData.capacity).Safe n from Nat.le_of_not_lt hfits, allSafe_nil n⟩⟩
      split
      · exact hall
      · exact hall
  · exact allSafe_cons.mpr ⟨hread, allSafe_nil n⟩

theorem command_safe_iff {cmd : ℕ} (h : position + length ≤ n) (hlt : length < 2 ^ 32) :
    AllSafe n (wtsReadDrdynvcCommand memory cmd cbLen dvc s position length).2.2 ↔
      (cmd = dataFirstPdu → HasLength cbLen position length s) := by
  unfold wtsReadDrdynvcCommand
  by_cases hcreate : cmd = createRequestPdu
  · rw [if_pos hcreate]
    exact iff_of_true (createResponse_safe h) fun hc => absurd (hcreate.symm.trans hc) (by decide)
  rw [if_neg hcreate]
  by_cases hfirst : cmd = dataFirstPdu
  · rw [if_pos hfirst, dataFirst_safe_iff h hlt]
    exact ⟨fun h _ => h, fun h => h hfirst⟩
  rw [if_neg hfirst]
  refine iff_of_true ?_ fun hc => absurd hc hfirst
  split
  · exact data_safe h
  · split
    · exact allSafe_nil n
    · exact allSafe_nil n

/-! ### PDUs -/

/-- A PDU is read safely if and only if it has its fields. -/
theorem wtsReadDrdynvcPdu_safe_iff (memory : WtsMemory) (vcm : Vcm) :
    AllSafe vcm.drdynvcChannel.receiveData.position (wtsReadDrdynvcPdu memory vcm).2.2 ↔ HasFields vcm := by
  unfold wtsReadDrdynvcPdu HasFields
  generalize hn : vcm.drdynvcChannel.receiveData.position = n
  generalize hl : n % 2 ^ 32 = length
  have hle : length ≤ n := hl ▸ Nat.mod_le n _
  have hlt : length < 2 ^ 32 := hl ▸ Nat.mod_lt n (by decide)
  generalize vcm.drdynvcChannel.receiveData.buffer = buffer
  dsimp only
  by_cases hpos : length < 1
  · rw [if_pos hpos]
    refine iff_of_true (allSafe_nil n) ?_
    split
    · trivial
    · exact fun h => absurd h (by omega)
  rw [if_neg hpos]
  cases buffer with
  | nil => exact iff_of_true (allSafe_nil n) trivial
  | cons value s =>
    dsimp only
    have hfirst : AllSafe n [.read 0 1] := allSafe_cons.mpr ⟨safe_read (by omega), allSafe_nil n⟩
    by_cases hcapability : (value.toNat &&& 0xF0) >>> 4 = capabilityRequestPdu
    · rw [if_pos hcapability]
      refine iff_of_true ?_ fun _ h => absurd hcapability h
      split
      · exact hfirst
      · exact allSafe_append.mpr ⟨hfirst, allSafe_cons.mpr ⟨safe_read (by omega), allSafe_nil n⟩⟩
    rw [if_neg hcapability]
    by_cases hready : vcm.drdynvcState = .ready
    · rw [if_pos hready]
      obtain ⟨hsome, hnone⟩ := wtsReadVariableUint_eq (value.toNat &&& 0x03) s
      have hsize := wtsVariableUintSize_pos (value.toNat &&& 0x03)
      generalize hsp : (value.toNat &&& 0x0C) >>> 2 = sp
      generalize hcmd : (value.toNat &&& 0xF0) >>> 4 = cmd at *
      generalize wtsVariableUintSize (value.toNat &&& 0x03) = size at *
      by_cases hroom : size ≤ s.length
      · obtain ⟨channelId, heq⟩ := hsome hroom
        rw [heq]
        dsimp only
        have hfields : AllSafe n ([.read 0 1] ++ [.read 1 size, .subtract (length - 1) size]) ↔
            1 + size ≤ length := by
          constructor
          · intro h
            have hsubtract : (Access.subtract (length - 1) size).Safe n :=
              h _ (List.mem_append_right _ (List.mem_cons_of_mem _ List.mem_cons_self))
            have hle' : size ≤ length - 1 := hsubtract
            omega
          · intro h
            refine allSafe_append.mpr ⟨hfirst, allSafe_cons.mpr ⟨safe_read (by omega), ?_⟩⟩
            exact allSafe_cons.mpr ⟨show size ≤ length - 1 by omega, allSafe_nil n⟩
        cases hdvc : wtsGetDvcChannelById channelId vcm with
        | none =>
          refine hfields.trans ⟨fun h _ _ _ _ => ⟨h, ?_⟩, fun h =>
            (h (by omega) hcapability hready hroom).1⟩
          intro channelId' rest heq' hexists
          obtain ⟨rfl, rfl⟩ := Prod.mk.inj (Option.some.inj heq')
          rw [hdvc] at hexists
          exact nomatch hexists
        | some dvc =>
          dsimp only
          rw [allSafe_append, hfields]
          constructor
          · rintro ⟨hsize', hcommand⟩ - - - -
            refine ⟨hsize', fun channelId' rest heq' _ hdata => ?_⟩
            rw [sub32_of_le (by omega) (by omega), command_safe_iff (by omega) (by omega)] at hcommand
            have hlength : length - 1 - size = length - (1 + size) := by omega
            exact hlength ▸ hcommand hdata
          · intro h
            obtain ⟨hsize', hdata⟩ := h (by omega) hcapability hready hroom
            refine ⟨hsize', ?_⟩
            rw [sub32_of_le (by omega) (by omega), command_safe_iff (by omega) (by omega)]
            have hlength : length - 1 - size = length - (1 + size) := by omega
            exact fun hc => hlength ▸ hdata channelId _ rfl (hdvc ▸ rfl) hc
      · rw [hnone (by omega)]
        exact iff_of_true hfirst fun _ _ _ h => absurd h hroom
    · rw [if_neg hready]
      exact iff_of_true hfirst fun _ _ h => absurd h hready

/-! ### Runs -/

/-- What happens to the channels of a server. -/
inductive WtsAction
  /-- `WTSProcessChannelData` for `drdynvc`. -/
  | chunk (memory : WtsMemory) (chunk : ChannelChunk)
  /-- `FreeRDP_WTSVirtualChannelOpenEx`. -/
  | openEx (memory : Bool) (receiveData : WStream) (name : List UInt8)
  /-- `FreeRDP_WTSVirtualChannelClose`. -/
  | close (memory : Bool) (channelId : ℕ)

/-- The state after an action, and what the parser accesses. -/
def wtsAct : WtsAction → Vcm → Vcm × List Access
  | .chunk memory chunk, vcm =>
    let (vcm, _, accesses) := wtsProcessDrdynvcData memory chunk vcm
    (vcm, accesses)
  | .openEx memory receiveData name, vcm => ((wtsVirtualChannelOpenEx memory receiveData name vcm).1, [])
  | .close memory channelId, vcm => ((wtsVirtualChannelClose memory channelId vcm).1, [])

def WtsStep (vcm : Vcm) (action : WtsAction) (vcm' : Vcm) : Prop := vcm' = (wtsAct action vcm).1

/-- The number of bytes that have arrived with a chunk. -/
def receivedLength (chunk : ChannelChunk) (vcm : Vcm) : ℕ :=
  (if chunk.flags &&& channelFlagFirst ≠ 0 then 0 else vcm.drdynvcChannel.receiveData.position) +
    chunk.data.length

def SafeAction (vcm : Vcm) : WtsAction → Prop
  | .chunk memory chunk => AllSafe (receivedLength chunk vcm) (wtsAct (.chunk memory chunk) vcm).2
  | _ => True

/-- A chunk that completes a PDU completes one that has its fields. -/
def CompletesFields (vcm : Vcm) : WtsAction → Prop
  | .chunk memory chunk => chunk.flags &&& channelFlagLast ≠ 0 → ∀ channel,
      wtsReceiveChunk memory.chunk chunk vcm.drdynvcChannel = some channel →
        HasFields { vcm with drdynvcChannel := channel }
  | _ => True

theorem wtsReceiveChunk_position {memory : Bool} {chunk : ChannelChunk} {channel : PeerChannel}
    (h : wtsReceiveChunk memory chunk vcm.drdynvcChannel = some channel) :
    channel.receiveData.position = receivedLength chunk vcm := by
  unfold wtsReceiveChunk at h
  dsimp only at h
  split at h
  · exact nomatch h
  · next receiveData hensure =>
    obtain ⟨-, hposition, -⟩ := WStream.ensureRemainingCapacity_spec hensure
    obtain rfl := Option.some.inj h
    rw [WStream.position_write, hposition, receivedLength]
    split
    · rfl
    · rfl

/-- An action is safe if and only if it completes no PDU without its fields. -/
theorem safeAction_iff (vcm : Vcm) (action : WtsAction) :
    SafeAction vcm action ↔ CompletesFields vcm action := by
  cases action with
  | chunk memory chunk =>
    change AllSafe (receivedLength chunk vcm) (wtsProcessDrdynvcData memory chunk vcm).2.2 ↔
      (chunk.flags &&& channelFlagLast ≠ 0 → ∀ channel,
        wtsReceiveChunk memory.chunk chunk vcm.drdynvcChannel = some channel →
          HasFields { vcm with drdynvcChannel := channel })
    unfold wtsProcessDrdynvcData
    cases hchunk : wtsReceiveChunk memory.chunk chunk vcm.drdynvcChannel with
    | none => exact iff_of_true (allSafe_nil _) nofun
    | some channel =>
      dsimp only
      by_cases hlast : chunk.flags &&& channelFlagLast ≠ 0
      · rw [if_pos hlast, ← wtsReceiveChunk_position hchunk]
        refine (wtsReadDrdynvcPdu_safe_iff memory { vcm with drdynvcChannel := channel }).trans ?_
        constructor
        · intro h _ channel' heq
          exact Option.some.inj heq ▸ h
        · exact fun h => h hlast channel rfl
      · rw [if_neg hlast]
        exact iff_of_true (allSafe_nil _) fun h => absurd h hlast
  | openEx memory receiveData name => exact Iff.rfl
  | close memory channelId => exact Iff.rfl

/-- All along a run, the parser keeps to the PDU, to the number of bytes that are left and to the length of
the message, if and only if each PDU that is completed is as long as its fields, as far as the receive
buffer is long enough for them. -/
theorem drdynvc_safe_iff (start : Vcm) (actions : List WtsAction) :
    (∀ as vcm action vcm', as ++ [action] <+: actions → Runs WtsStep start as vcm →
      WtsStep vcm action vcm' → SafeAction vcm action) ↔
    ∀ as vcm action vcm', as ++ [action] <+: actions → Runs WtsStep start as vcm →
      WtsStep vcm action vcm' → CompletesFields vcm action := by
  apply Runs.good_iff (I := fun _ => True) (G := fun vcm action _ => SafeAction vcm action)
  · trivial
  · exact fun _ _ _ _ _ => trivial
  · exact fun vcm action _ _ _ => safeAction_iff vcm action

/-- A server that is ready, with a receive buffer of 16 bytes. -/
def readyVcm : Vcm where
  drdynvcState := .ready
  drdynvcChannel := channelNew 1 ⟨List.replicate 16 0, 0, by decide, by decide⟩
  dynamicVirtualChannels := []
  dvcChannelIdSeq := 0
  queue := []

/-- The PDU of one byte announces a channel id of four bytes, which are read behind it, and four is taken
off zero. -/
theorem drdynvc_not_safe :
    (wtsAct (.chunk ⟨true, true, true⟩ ⟨[0x32], 3, 1⟩) readyVcm).2 =
      [.read 0 1, .read 1 4, .subtract 0 4] ∧
    ¬ SafeAction readyVcm (.chunk ⟨true, true, true⟩ ⟨[0x32], 3, 1⟩) := by
  have haccesses : (wtsAct (.chunk ⟨true, true, true⟩ ⟨[0x32], 3, 1⟩) readyVcm).2 =
      [.read 0 1, .read 1 4, .subtract 0 4] := by decide
  refine ⟨haccesses, fun h => ?_⟩
  have hsubtract : (Access.subtract 0 4).Safe 1 := h _ (haccesses ▸ by simp)
  exact absurd hsubtract (by decide : ¬ 4 ≤ 0)

end FreeRDP.Channels
