import FreeRDP.Core.Surface

/-!
# Streams of surface commands

A stream of surface commands has no count: the receiver finds each command behind the one before.  What is
handed to the callbacks is what has been written, with the bytes that there are for `codecID` and for the
corners (`surfcmds_roundTrip_iff`).
-/

namespace FreeRDP.Surface

open Iterate Wire

variable {bmp : BitmapDataEx} {cmd : SurfaceBitsCommand} {update : SurfaceUpdate}

/-! ### Commands -/

/-- The bitmap has a depth, and a header only if its flags say so. -/
structure BitmapDataEx.Valid (bmp : BitmapDataEx) : Prop where
  bpp : 1 ≤ bmp.bpp.toNat ∧ bmp.bpp.toNat ≤ 32
  header : bmp.flags &&& EX_COMPRESSED_BITMAP_HEADER_PRESENT = 0 → bmp.exBitmapDataHeader = .zero

/-- The bitmap with the byte that is written for `codecID`. -/
def BitmapDataEx.onWire (bmp : BitmapDataEx) : BitmapDataEx :=
  { bmp with codecID := UInt16.ofNat (bmp.codecID.toNat % 2 ^ 8) }

theorem reads_headerEx (header : CompressedBitmapHeaderEx) :
    Reads updateRecvSurfcmdBitmapHeaderEx (updateWriteSurfcmdBitmapHeaderEx header) header := by
  refine Reads.need (Nat.le_refl 24) ((Reads.u32le header.highUniqueId.toNat_lt).bind
    ((Reads.u32le header.lowUniqueId.toNat_lt).bind ((Reads.u64le header.tmMilliseconds.toNat_lt).bind
      ((Reads.u64le header.tmSeconds.toNat_lt).map ?_))))
  simp only [UInt32.ofNat_toNat, UInt64.ofNat_toNat]

theorem reads_bitmapData {data : List UInt8} (h : data.length < 2 ^ 32) :
    Reads (readBitmapData data.length) data ⟨data, h⟩ := by
  intro rest
  have hle : data.length ≤ (data ++ rest).length ∧ data.length < 2 ^ 32 :=
    ⟨by rw [List.length_append]; exact Nat.le_add_right _ _, h⟩
  rw [readBitmapData, dif_pos hle]
  simp only [List.take_left, List.drop_left]

theorem BitmapDataEx.Valid.reads (h : bmp.Valid) :
    Reads updateRecvSurfcmdBitmapEx (updateWriteSurfcmdBitmapEx bmp) bmp.onWire := by
  have hheader : Reads (readHeaderEx bmp.flags)
      (if bmp.flags &&& EX_COMPRESSED_BITMAP_HEADER_PRESENT ≠ 0 then
        updateWriteSurfcmdBitmapHeaderEx bmp.exBitmapDataHeader else []) bmp.exBitmapDataHeader := by
    unfold readHeaderEx
    by_cases hflag : bmp.flags &&& EX_COMPRESSED_BITMAP_HEADER_PRESENT ≠ 0
    · rw [if_pos hflag, if_pos hflag]
      exact reads_headerEx _
    · rw [if_neg hflag, if_neg hflag, h.header (not_not.mp hflag)]
      exact Reads.pure _
  have hflags : UInt8.ofNat bmp.flags.toNat = bmp.flags := UInt8.ofNat_toNat
  unfold updateWriteSurfcmdBitmapEx
  refine Reads.need (by simp; omega) ((Reads.u8 bmp.bpp.toNat_lt).bind ((Reads.u8 bmp.flags.toNat_lt).bind
    ((Reads.seek_byte 0).bind ((Reads.u8_mod _).bind ((Reads.u16le bmp.width.toNat_lt).bind
      ((Reads.u16le bmp.height.toNat_lt).bind ((Reads.u32le bmp.length_lt).bind
        (Reads.skip (Reads.check h.bpp) ?_))))))))
  rw [hflags]
  refine hheader.bind ((reads_bitmapData bmp.length_lt).map ?_)
  simp only [UInt8.ofNat_toNat, UInt16.ofNat_toNat]
  rfl

/-- A type that the writer leaves as it is. -/
def SurfaceBitsCommand.HasType (cmd : SurfaceBitsCommand) : Prop :=
  cmd.cmdType.toNat = CMDTYPE_SET_SURFACE_BITS ∨ cmd.cmdType.toNat = CMDTYPE_STREAM_SURFACE_BITS

/-- The command with the bytes that are written for its corners and for `codecID`. -/
def SurfaceBitsCommand.onWire (cmd : SurfaceBitsCommand) : SurfaceBitsCommand :=
  { cmd with
    destLeft := UInt32.ofNat (cmd.destLeft.toNat % 2 ^ 16)
    destTop := UInt32.ofNat (cmd.destTop.toNat % 2 ^ 16)
    destRight := UInt32.ofNat (cmd.destRight.toNat % 2 ^ 16)
    destBottom := UInt32.ofNat (cmd.destBottom.toNat % 2 ^ 16)
    bmp := cmd.bmp.onWire }

theorem SurfaceBitsCommand.HasType.allowedType (h : cmd.HasType) : cmd.allowedType = cmd.cmdType.toNat := by
  have hmod : cmd.cmdType.toNat % 2 ^ 16 = cmd.cmdType.toNat := by
    rcases h with h | h <;> rw [h] <;> decide
  unfold SurfaceBitsCommand.allowedType
  dsimp only
  rw [hmod]
  exact if_pos h

theorem reads_surfaceBits (h : cmd.bmp.Valid) :
    Reads (readSurfaceBits cmd.cmdType.toNat) (le16 cmd.destLeft.toNat ++ (le16 cmd.destTop.toNat ++
      (le16 cmd.destRight.toNat ++ (le16 cmd.destBottom.toNat ++ updateWriteSurfcmdBitmapEx cmd.bmp))))
      cmd.onWire := by
  refine Reads.need (by simp; omega) ((Reads.u16le_mod _).bind ((Reads.u16le_mod _).bind
    ((Reads.u16le_mod _).bind ((Reads.u16le_mod _).bind (h.reads.map ?_)))))
  rw [UInt32.ofNat_toNat]
  rfl

theorem reads_frameMarker (frameAction : UInt16) (frameId : UInt32) :
    Reads readFrameMarker (le16 frameAction.toNat ++ le32 frameId.toNat)
      ⟨UInt32.ofNat frameAction.toNat, frameId⟩ := by
  refine Reads.need (Nat.le_refl 6) ((Reads.u16le frameAction.toNat_lt).bind
    ((Reads.u32le frameId.toNat_lt).map ?_))
  rw [UInt32.ofNat_toNat]

/-! ### Streams -/

/-- What a server writes: surface bits, or a frame marker. -/
inductive SurfaceCommand
  | surfaceBits (cmd : SurfaceBitsCommand)
  | frameMarker (frameAction : UInt16) (frameId : UInt32)

namespace SurfaceCommand

def write : SurfaceCommand → List UInt8
  | surfaceBits cmd => updateWriteSurfcmdSurfaceBits cmd
  | frameMarker frameAction frameId => updateWriteSurfcmdFrameMarker frameAction frameId

def call : SurfaceCommand → SurfaceCall
  | surfaceBits cmd => .surfaceBits cmd
  | frameMarker frameAction frameId => .surfaceFrameMarker ⟨UInt32.ofNat frameAction.toNat, frameId⟩

/-- A command with a type, a depth, and a header only if the flags say so. -/
def Valid : SurfaceCommand → Prop
  | surfaceBits cmd => cmd.HasType ∧ cmd.bmp.Valid
  | frameMarker _ _ => True

/-- The corners and `codecID` fit their bytes. -/
def FitsWire : SurfaceCommand → Prop
  | surfaceBits cmd => (cmd.destLeft.toNat < 2 ^ 16 ∧ cmd.destTop.toNat < 2 ^ 16 ∧
      cmd.destRight.toNat < 2 ^ 16 ∧ cmd.destBottom.toNat < 2 ^ 16) ∧ cmd.bmp.codecID.toNat < 2 ^ 8
  | frameMarker _ _ => True

def onWire : SurfaceCommand → SurfaceCommand
  | surfaceBits cmd => surfaceBits cmd.onWire
  | frameMarker frameAction frameId => frameMarker frameAction frameId

end SurfaceCommand

/-- Both callbacks are there, and return `TRUE`. -/
structure SurfaceUpdate.Accepts (update : SurfaceUpdate) : Prop where
  surfaceBits : ∃ callback, update.SurfaceBits = some callback ∧ ∀ cmd, callback cmd = true
  surfaceFrameMarker : ∃ callback, update.SurfaceFrameMarker = some callback ∧
    ∀ marker, callback marker = true

theorem callSurface_of_reads {α : Type} {callback : Option (α → Bool)} {call : α → SurfaceCall}
    {r : Reader α}
    {bs : List UInt8} {a : α} (hcallback : ∃ f, callback = some f ∧ ∀ a, f a = true) (hreads : Reads r bs a)
    (calls : List SurfaceCall) (rest : List UInt8) :
    callSurface callback call calls (r (bs ++ rest)) = .inl ⟨rest, calls ++ [call a]⟩ := by
  obtain ⟨f, rfl, hf⟩ := hcallback
  rw [hreads rest]
  exact if_pos (hf a)

/-- A round takes the command in front, and nothing behind it. -/
theorem surfcmdRound_write (haccepts : update.Accepts) {c : SurfaceCommand} (hc : c.Valid)
    (rest : List UInt8)
    (calls : List SurfaceCall) :
    surfcmdRound update ⟨c.write ++ rest, calls⟩ = .inl ⟨rest, calls ++ [c.onWire.call]⟩ := by
  have hround {cmdType : ℕ} (hlt : cmdType < 2 ^ 16) (bs : List UInt8) :
      surfcmdRound update ⟨le16 cmdType ++ bs ++ rest, calls⟩ =
        if cmdType = CMDTYPE_SET_SURFACE_BITS ∨ cmdType = CMDTYPE_STREAM_SURFACE_BITS then
          callSurface update.SurfaceBits .surfaceBits calls (readSurfaceBits cmdType (bs ++ rest))
        else if cmdType = CMDTYPE_FRAME_MARKER then
          callSurface update.SurfaceFrameMarker .surfaceFrameMarker calls (readFrameMarker (bs ++ rest))
        else .inr (-1, calls) := by
    have hlength : ¬ (le16 cmdType ++ bs ++ rest).length < 2 := by
      rw [List.length_append, List.length_append, length_le16]
      omega
    rw [surfcmdRound, if_neg hlength, List.append_assoc, Reads.u16le hlt (bs ++ rest)]
  cases c with
  | surfaceBits cmd =>
    obtain ⟨htype, hbmp⟩ := hc
    have hlt : cmd.cmdType.toNat < 2 ^ 16 := by
      rcases htype with h | h <;> rw [h] <;> decide
    rw [SurfaceCommand.write, updateWriteSurfcmdSurfaceBits, htype.allowedType, hround hlt]
    exact (if_pos htype).trans (callSurface_of_reads haccepts.surfaceBits (reads_surfaceBits hbmp)
      calls rest)
  | frameMarker frameAction frameId =>
    rw [SurfaceCommand.write, updateWriteSurfcmdFrameMarker, hround (by decide), if_neg (by decide),
      if_pos rfl]
    exact callSurface_of_reads haccepts.surfaceFrameMarker
      (reads_frameMarker frameAction frameId) calls rest

theorem length_le_flatMap_write (cmds : List SurfaceCommand) :
    cmds.length ≤ (cmds.flatMap SurfaceCommand.write).length := by
  induction cmds with
  | nil => exact Nat.le_refl 0
  | cons c cmds ih =>
    have hpos : 1 ≤ c.write.length := by
      cases c <;> exact Nat.succ_le_succ (Nat.zero_le _)
    rw [List.flatMap_cons, List.length_append, List.length_cons]
    omega

theorem updateRecvSurfcmds_flatMap_write (haccepts : update.Accepts) {cmds : List SurfaceCommand}
    (hvalid : ∀ c ∈ cmds, c.Valid) :
    updateRecvSurfcmds update (cmds.flatMap SurfaceCommand.write) =
      some (0, cmds.map fun c => c.onWire.call) := by
  have hloop : iterate (surfcmdRound update) (cmds.length + 1) ⟨cmds.flatMap SurfaceCommand.write, []⟩ =
      some (0, [] ++ cmds.map fun c => c.onWire.call) :=
    iterate_flatMap (fun c hc rest calls => surfcmdRound_write haccepts (hvalid c hc) rest calls)
      (fun calls => rfl) []
  exact iterate_mono hloop (Nat.succ_le_succ (length_le_flatMap_write cmds))

theorem uint32_ofNat_mod_eq {x : UInt32} : UInt32.ofNat (x.toNat % 2 ^ 16) = x ↔ x.toNat < 2 ^ 16 := by
  rw [← UInt32.toNat_inj, UInt32.toNat_ofNat']
  omega

theorem uint16_ofNat_mod_eq {x : UInt16} : UInt16.ofNat (x.toNat % 2 ^ 8) = x ↔ x.toNat < 2 ^ 8 := by
  rw [← UInt16.toNat_inj, UInt16.toNat_ofNat']
  omega

theorem SurfaceCommand.onWire_call {c : SurfaceCommand} : c.onWire.call = c.call ↔ c.FitsWire := by
  cases c with
  | frameMarker frameAction frameId => exact iff_of_true rfl trivial
  | surfaceBits cmd =>
    rw [FitsWire, ← uint32_ofNat_mod_eq, ← uint32_ofNat_mod_eq, ← uint32_ofNat_mod_eq,
      ← uint32_ofNat_mod_eq, ← uint16_ofNat_mod_eq]
    constructor
    · intro h
      obtain ⟨-, hleft, htop, hright, hbottom, hbmp⟩ :=
        SurfaceBitsCommand.mk.inj (SurfaceCall.surfaceBits.inj h)
      exact ⟨⟨hleft, htop, hright, hbottom⟩, congrArg BitmapDataEx.codecID hbmp⟩
    · rintro ⟨⟨hleft, htop, hright, hbottom⟩, hcodec⟩
      show SurfaceCall.surfaceBits cmd.onWire = SurfaceCall.surfaceBits cmd
      rw [SurfaceBitsCommand.onWire, BitmapDataEx.onWire, hleft, htop, hright, hbottom, hcodec]

/-- The callbacks are called with the commands that have been written, in this order, if and only if each
fits its bytes. -/
theorem surfcmds_roundTrip_iff (haccepts : update.Accepts) {cmds : List SurfaceCommand}
    (hvalid : ∀ c ∈ cmds, c.Valid) :
    updateRecvSurfcmds update (cmds.flatMap SurfaceCommand.write) = some (0, cmds.map SurfaceCommand.call) ↔
      ∀ c ∈ cmds, c.FitsWire := by
  rw [updateRecvSurfcmds_flatMap_write haccepts hvalid, Option.some_inj, Prod.mk_right_inj,
    List.map_inj_left]
  exact forall₂_congr fun c _ => SurfaceCommand.onWire_call

/-- The callbacks of a client that takes everything. -/
def acceptAll : SurfaceUpdate := ⟨some fun _ => true, some fun _ => true⟩

theorem accepts_acceptAll : acceptAll.Accepts := ⟨⟨_, rfl, fun _ => rfl⟩, ⟨_, rfl, fun _ => rfl⟩⟩

/-- A bitmap of one pixel without a header. -/
def pixelBitmap : BitmapDataEx := ⟨32, 0, 3, 1, 1, .zero, [1, 2, 3, 4], by decide⟩

/-- A frame with surface bits in it. -/
theorem surfcmds_roundTrip_frame :
    updateRecvSurfcmds acceptAll
      ([SurfaceCommand.frameMarker 0 5, .surfaceBits ⟨1, 0, 0, 1, 1, pixelBitmap⟩, .frameMarker 1 5].flatMap
        SurfaceCommand.write) =
      some (0, [.surfaceFrameMarker ⟨0, 5⟩, .surfaceBits ⟨1, 0, 0, 1, 1, pixelBitmap⟩,
        .surfaceFrameMarker ⟨1, 5⟩]) := by
  refine (surfcmds_roundTrip_iff accepts_acceptAll ?_).mpr ?_
  · simp only [List.forall_mem_cons, List.not_mem_nil, false_implies, implies_true, and_true]
    exact ⟨trivial, ⟨.inl rfl, ⟨by decide, fun _ => rfl⟩⟩, trivial⟩
  · simp only [List.forall_mem_cons, List.not_mem_nil, false_implies, implies_true, and_true]
    exact ⟨trivial, ⟨⟨by decide, by decide, by decide, by decide⟩, by decide⟩, trivial⟩

/-- A left edge that is not in two bytes. -/
theorem not_surfcmds_roundTrip_edge :
    ∃ (update : SurfaceUpdate) (cmds : List SurfaceCommand), update.Accepts ∧ (∀ c ∈ cmds, c.Valid) ∧
      updateRecvSurfcmds update (cmds.flatMap SurfaceCommand.write) ≠
        some (0, cmds.map SurfaceCommand.call) := by
  have hvalid : ∀ c ∈ [SurfaceCommand.surfaceBits ⟨1, 65536, 0, 65537, 1, pixelBitmap⟩], c.Valid :=
    List.forall_mem_singleton.mpr ⟨.inl rfl, ⟨by decide, fun _ => rfl⟩⟩
  refine ⟨acceptAll, _, accepts_acceptAll, hvalid, ?_⟩
  rw [updateRecvSurfcmds_flatMap_write accepts_acceptAll hvalid]
  decide

end FreeRDP.Surface
