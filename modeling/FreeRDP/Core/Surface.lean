import FreeRDP.Lib.Iterate
import FreeRDP.Lib.Wire

/-!
# Surface commands

The writers and the receiver of `libfreerdp/core/surface.c`.  The numbers have the types of the
structures, and a bitmap is as long as `bitmapDataLength` says.  Allocations succeed, and no commands
are dumped.
-/

namespace FreeRDP.Surface

open Iterate Wire

def CMDTYPE_SET_SURFACE_BITS : ℕ := 0x0001
def CMDTYPE_FRAME_MARKER : ℕ := 0x0004
def CMDTYPE_STREAM_SURFACE_BITS : ℕ := 0x0006
def EX_COMPRESSED_BITMAP_HEADER_PRESENT : UInt8 := 0x01

/-- `TS_COMPRESSED_BITMAP_HEADER_EX`. -/
structure CompressedBitmapHeaderEx where
  highUniqueId : UInt32
  lowUniqueId : UInt32
  tmMilliseconds : UInt64
  tmSeconds : UInt64
deriving DecidableEq

/-- The header in a structure that has been set to zeros. -/
def CompressedBitmapHeaderEx.zero : CompressedBitmapHeaderEx := ⟨0, 0, 0, 0⟩

/-- `TS_BITMAP_DATA_EX`. -/
structure BitmapDataEx where
  bpp : UInt8
  flags : UInt8
  codecID : UInt16
  width : UInt16
  height : UInt16
  exBitmapDataHeader : CompressedBitmapHeaderEx
  bitmapData : List UInt8
  /-- `bitmapDataLength` is a `UINT32` -/
  length_lt : bitmapData.length < 2 ^ 32
deriving DecidableEq

structure SurfaceBitsCommand where
  cmdType : UInt32
  destLeft : UInt32
  destTop : UInt32
  destRight : UInt32
  destBottom : UInt32
  bmp : BitmapDataEx
deriving DecidableEq

structure SurfaceFrameMarker where
  frameAction : UInt32
  frameId : UInt32
deriving DecidableEq

/-! ### Writing -/

def updateWriteSurfcmdBitmapHeaderEx (header : CompressedBitmapHeaderEx) : List UInt8 :=
  le32 header.highUniqueId.toNat ++ (le32 header.lowUniqueId.toNat ++ (le64 header.tmMilliseconds.toNat ++
    le64 header.tmSeconds.toNat))

def updateWriteSurfcmdBitmapEx (bmp : BitmapDataEx) : List UInt8 :=
  byte bmp.bpp.toNat ++ (byte bmp.flags.toNat ++
    (byte 0 ++ (byte bmp.codecID.toNat ++ (le16 bmp.width.toNat ++
    (le16 bmp.height.toNat ++ (le32 bmp.bitmapData.length ++
    ((if bmp.flags &&& EX_COMPRESSED_BITMAP_HEADER_PRESENT ≠ 0 then
      updateWriteSurfcmdBitmapHeaderEx bmp.exBitmapDataHeader else []) ++ bmp.bitmapData)))))))

/-- The type that is written, which is corrected if it is not allowed. -/
def SurfaceBitsCommand.allowedType (cmd : SurfaceBitsCommand) : ℕ :=
  -- `cmdType` is a `UINT16` here
  let cmdType := cmd.cmdType.toNat % 2 ^ 16
  if cmdType = CMDTYPE_SET_SURFACE_BITS ∨ cmdType = CMDTYPE_STREAM_SURFACE_BITS then cmdType
  else CMDTYPE_STREAM_SURFACE_BITS

def updateWriteSurfcmdSurfaceBits (cmd : SurfaceBitsCommand) : List UInt8 :=
  le16 cmd.allowedType ++ (le16 cmd.destLeft.toNat ++
    (le16 cmd.destTop.toNat ++ (le16 cmd.destRight.toNat ++
    (le16 cmd.destBottom.toNat ++ updateWriteSurfcmdBitmapEx cmd.bmp))))

def updateWriteSurfcmdFrameMarker (frameAction : UInt16) (frameId : UInt32) : List UInt8 :=
  le16 CMDTYPE_FRAME_MARKER ++ (le16 frameAction.toNat ++ le32 frameId.toNat)

/-! ### Receiving -/

def updateRecvSurfcmdBitmapHeaderEx : Reader CompressedBitmapHeaderEx := do
  need 24
  let highUniqueId ← u32le
  let lowUniqueId ← u32le
  let tmMilliseconds ← u64le
  let tmSeconds ← u64le
  return {
    highUniqueId := UInt32.ofNat highUniqueId
    lowUniqueId := UInt32.ofNat lowUniqueId
    tmMilliseconds := UInt64.ofNat tmMilliseconds
    tmSeconds := UInt64.ofNat tmSeconds }

/-- `Stream_Pointer` and `Stream_SafeSeek`, for a length of 32 bits. -/
def readBitmapData (n : ℕ) : Reader { data : List UInt8 // data.length < 2 ^ 32 } := fun s =>
  if h : n ≤ s.length ∧ n < 2 ^ 32 then
    some (⟨s.take n, (List.length_take_le n s).trans_lt h.2⟩, s.drop n)
  else none

/-- The header, if the flags say that there is one. -/
def readHeaderEx (flags : UInt8) : Reader CompressedBitmapHeaderEx :=
  if flags &&& EX_COMPRESSED_BITMAP_HEADER_PRESENT ≠ 0 then updateRecvSurfcmdBitmapHeaderEx
  else return .zero

def updateRecvSurfcmdBitmapEx : Reader BitmapDataEx := do
  need 12
  let bpp ← u8
  let flags ← u8
  seek 1
  let codecID ← u8
  let width ← u16le
  let height ← u16le
  let bitmapDataLength ← u32le
  check (1 ≤ bpp ∧ bpp ≤ 32)
  let exBitmapDataHeader ← readHeaderEx (UInt8.ofNat flags)
  let bitmapData ← readBitmapData bitmapDataLength
  return {
    bpp := UInt8.ofNat bpp
    flags := UInt8.ofNat flags
    codecID := UInt16.ofNat codecID
    width := UInt16.ofNat width
    height := UInt16.ofNat height
    exBitmapDataHeader
    bitmapData := bitmapData.1
    length_lt := bitmapData.2 }

/-- What `update_recv_surfcmd_surface_bits` reads. -/
def readSurfaceBits (cmdType : ℕ) : Reader SurfaceBitsCommand := do
  need 8
  let destLeft ← u16le
  let destTop ← u16le
  let destRight ← u16le
  let destBottom ← u16le
  let bmp ← updateRecvSurfcmdBitmapEx
  return {
    cmdType := UInt32.ofNat cmdType
    destLeft := UInt32.ofNat destLeft
    destTop := UInt32.ofNat destTop
    destRight := UInt32.ofNat destRight
    destBottom := UInt32.ofNat destBottom
    bmp }

/-- What `update_recv_surfcmd_frame_marker` reads. -/
def readFrameMarker : Reader SurfaceFrameMarker := do
  need 6
  let frameAction ← u16le
  let frameId ← u32le
  return { frameAction := UInt32.ofNat frameAction, frameId := UInt32.ofNat frameId }

inductive SurfaceCall
  | surfaceBits (cmd : SurfaceBitsCommand)
  | surfaceFrameMarker (marker : SurfaceFrameMarker)
deriving DecidableEq

/-- The callbacks of an update: what they return, or `none` for those that are missing. -/
structure SurfaceUpdate where
  SurfaceBits : Option (SurfaceBitsCommand → Bool)
  SurfaceFrameMarker : Option (SurfaceFrameMarker → Bool)

/-- The stream, and the calls that have been made. -/
structure SurfaceState where
  stream : List UInt8
  calls : List SurfaceCall

/-- What the receiver returns, and the calls that have been made. -/
abbrev SurfaceResult := ℤ × List SurfaceCall

/-- A command that has been read is handed to its callback. -/
def callSurface {α : Type} (callback : Option (α → Bool)) (call : α → SurfaceCall)
    (calls : List SurfaceCall)
    (read : Option (α × List UInt8)) : SurfaceState ⊕ SurfaceResult :=
  match read, callback with
  | some (cmd, stream), some callback =>
    if callback cmd then .inl ⟨stream, calls ++ [call cmd]⟩ else .inr (-1, calls ++ [call cmd])
  | _, _ => .inr (-1, calls)

/-- A round of `update_recv_surfcmds`. -/
def surfcmdRound (update : SurfaceUpdate) (s : SurfaceState) : SurfaceState ⊕ SurfaceResult :=
  if s.stream.length < 2 then .inr (0, s.calls)
  else
    match u16le s.stream with
    | none => .inr (-1, s.calls)
    | some (cmdType, stream) =>
      if cmdType = CMDTYPE_SET_SURFACE_BITS ∨ cmdType = CMDTYPE_STREAM_SURFACE_BITS then
        callSurface update.SurfaceBits .surfaceBits s.calls (readSurfaceBits cmdType stream)
      else if cmdType = CMDTYPE_FRAME_MARKER then
        callSurface update.SurfaceFrameMarker .surfaceFrameMarker s.calls (readFrameMarker stream)
      else .inr (-1, s.calls)

/-- `update_recv_surfcmds`: a round takes two bytes at least. -/
def updateRecvSurfcmds (update : SurfaceUpdate) (stream : List UInt8) : Option SurfaceResult :=
  iterate (surfcmdRound update) (stream.length + 1) ⟨stream, []⟩

end FreeRDP.Surface
