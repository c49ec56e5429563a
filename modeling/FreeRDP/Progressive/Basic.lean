import FreeRDP.Region.Basic
import Mathlib.Data.Nat.Basic

/-!
# The progressive RemoteFX decoder

`progressive_decompress` of `codec/progressive.c` for one surface: the blocks of a message are read
one by one, the tile blocks of a region change the tiles of the surface, and at the end the updated
tiles are copied to the destination, clipped to the rectangles of the region.

What a call leaves behind stays: the tiles, the indices of those updated under the current frame id,
and the region structure, of which the context has only one.  The stream is local to a call.  The
tiles are arrays of the surface, so that they are a function of their index; a pointer into the
message is the list of the bytes it is read for.

The transforms that turn the bytes of a component into coefficients and these into colours are
parameters: `Env` has a function for each.
-/

namespace FreeRDP.Progressive

open Region

/-! ### Bytes -/

/-- `Stream_Read_UINT8` at the head of the stream. -/
def u8 (s : List UInt8) : ℕ := (s.headD 0).toNat

/-- `Stream_Read_UINT16`. -/
def u16 (s : List UInt8) : ℕ := u8 s + 2 ^ 8 * u8 (s.drop 1)

/-- `Stream_Read_UINT32`. -/
def u32 (s : List UInt8) : ℕ := u16 s + 2 ^ 16 * u16 (s.drop 2)

/-! ### Quantization values -/

/-- `RFX_COMPONENT_CODEC_QUANT`. -/
structure Quant where
  LL3 : ℕ
  HL3 : ℕ
  LH3 : ℕ
  HH3 : ℕ
  HL2 : ℕ
  LH2 : ℕ
  HH2 : ℕ
  HL1 : ℕ
  LH1 : ℕ
  HH1 : ℕ
deriving DecidableEq, Repr

def Quant.all (n : ℕ) : Quant := ⟨n, n, n, n, n, n, n, n, n, n⟩

/-- A function on the bytes of two values, band by band. -/
def Quant.map₂ (f : ℕ → ℕ → ℕ) (q1 q2 : Quant) : Quant where
  LL3 := f q1.LL3 q2.LL3
  HL3 := f q1.HL3 q2.HL3
  LH3 := f q1.LH3 q2.LH3
  HH3 := f q1.HH3 q2.HH3
  HL2 := f q1.HL2 q2.HL2
  LH2 := f q1.LH2 q2.LH2
  HH2 := f q1.HH2 q2.HH2
  HL1 := f q1.HL1 q2.HL1
  LH1 := f q1.LH1 q2.LH1
  HH1 := f q1.HH1 q2.HH1

def Quant.toList (q : Quant) : List ℕ :=
  [q.LL3, q.HL3, q.LH3, q.HH3, q.HL2, q.LH2, q.HH2, q.HL1, q.LH1, q.HH1]

/-- `progressive_rfx_quant_add`. -/
def quantAdd : Quant → Quant → Quant := Quant.map₂ fun a b => (a + b) % 2 ^ 8

/-- `progressive_rfx_quant_sub`. -/
def quantSub : Quant → Quant → Quant := Quant.map₂ fun a b => (a + 2 ^ 8 - b) % 2 ^ 8

/-- `progressive_rfx_quant_lsub`. -/
def quantLsub (q : Quant) (val : ℕ) : Quant := quantSub q (Quant.all val)

/-- `progressive_component_codec_quant_read`. -/
def readQuant (s : List UInt8) : Quant :=
  let lo := fun i => u8 (s.drop i) % 2 ^ 4
  let hi := fun i => u8 (s.drop i) / 2 ^ 4
  { LL3 := lo 0, HL3 := hi 0, LH3 := lo 1, HH3 := hi 1, HL2 := lo 2, LH2 := hi 2, HH2 := lo 3,
    HL1 := hi 3, LH1 := lo 4, HH1 := hi 4 }

/-- `RFX_PROGRESSIVE_CODEC_QUANT`, without its `quality`, which nothing reads. -/
structure ProgQuant where
  yQuantValues : Quant
  cbQuantValues : Quant
  crQuantValues : Quant
deriving DecidableEq, Repr

def quantProgValFull : ProgQuant := ⟨Quant.all 0, Quant.all 0, Quant.all 0⟩

/-! ### Tiles -/

/-- The coefficients of the three components of a tile. -/
structure Planes where
  y : List ℤ
  cb : List ℤ
  cr : List ℤ

/-- The colours of a tile, by column and row. -/
abbrev Pixels := ℕ → ℕ → ℕ

/-- `RFX_PROGRESSIVE_TILE`.  The width and the height of a tile are 64. -/
structure Tile where
  blockType : ℕ
  blockLen : ℕ
  quantIdxY : ℕ
  quantIdxCb : ℕ
  quantIdxCr : ℕ
  xIdx : ℕ
  yIdx : ℕ
  flags : ℕ
  quality : ℕ
  yData : List UInt8
  cbData : List UInt8
  crData : List UInt8
  tailData : List UInt8
  ySrlData : List UInt8
  yRawData : List UInt8
  cbSrlData : List UInt8
  cbRawData : List UInt8
  crSrlData : List UInt8
  crRawData : List UInt8
  x : ℕ
  y : ℕ
  data : Pixels
  current : Planes
  pass : ℕ
  sign : Planes
  yBitPos : Quant
  cbBitPos : Quant
  crBitPos : Quant
  yQuant : Quant
  cbQuant : Quant
  crQuant : Quant
  yProgQuant : Quant
  cbProgQuant : Quant
  crProgQuant : Quant

def Tile.zero : Tile where
  blockType := 0
  blockLen := 0
  quantIdxY := 0
  quantIdxCb := 0
  quantIdxCr := 0
  xIdx := 0
  yIdx := 0
  flags := 0
  quality := 0
  yData := []
  cbData := []
  crData := []
  tailData := []
  ySrlData := []
  yRawData := []
  cbSrlData := []
  cbRawData := []
  crSrlData := []
  crRawData := []
  x := 0
  y := 0
  data := fun _ _ => 0
  current := ⟨[], [], []⟩
  pass := 0
  sign := ⟨[], [], []⟩
  yBitPos := Quant.all 0
  cbBitPos := Quant.all 0
  crBitPos := Quant.all 0
  yQuant := Quant.all 0
  cbQuant := Quant.all 0
  crQuant := Quant.all 0
  yProgQuant := Quant.all 0
  cbProgQuant := Quant.all 0
  crProgQuant := Quant.all 0

/-- A tile that `progressive_tile_allocate` has given its arrays, whose memory is as it was found. -/
def Tile.fresh (data : Pixels) (current sign : Planes) : Tile :=
  { Tile.zero with data := data, current := current, sign := sign }

def PROGRESSIVE_WBT_SYNC : ℕ := 0xCCC0

def PROGRESSIVE_WBT_FRAME_BEGIN : ℕ := 0xCCC1

def PROGRESSIVE_WBT_FRAME_END : ℕ := 0xCCC2

def PROGRESSIVE_WBT_CONTEXT : ℕ := 0xCCC3

def PROGRESSIVE_WBT_REGION : ℕ := 0xCCC4

def PROGRESSIVE_WBT_TILE_SIMPLE : ℕ := 0xCCC5

def PROGRESSIVE_WBT_TILE_FIRST : ℕ := 0xCCC6

def PROGRESSIVE_WBT_TILE_UPGRADE : ℕ := 0xCCC7

def RFX_TILE_DIFFERENCE : ℕ := 0x01

def RFX_SUBBAND_DIFFING : ℕ := 0x01

def RFX_DWT_REDUCE_EXTRAPOLATE : ℕ := 0x01

structure RfxRect where
  x : ℕ
  y : ℕ
  width : ℕ
  height : ℕ
deriving DecidableEq, Repr

/-- `PROGRESSIVE_BLOCK_REGION`.  `tiles` are the indices of the tiles in the surface; there are
`usedTiles` of them. -/
structure BlockRegion where
  numRects : ℕ
  numQuant : ℕ
  numProgQuant : ℕ
  flags : ℕ
  numTiles : ℕ
  tileDataSize : ℕ
  rects : List RfxRect
  quantVals : List Quant
  quantProgVals : List ProgQuant
  tiles : List ℕ

def BlockRegion.zero : BlockRegion := ⟨0, 0, 0, 0, 0, 0, [], [], [], []⟩

/-- `PROGRESSIVE_SURFACE_CONTEXT`.  There are `numUpdatedTiles` indices of updated tiles. -/
structure Surface where
  gridWidth : ℕ
  gridHeight : ℕ
  gridSize : ℕ
  tiles : ℕ → Tile
  frameId : ℕ
  updatedTileIndices : List ℕ

/-- `progressive_surface_context_new`, where the allocations succeed; `memory` are the arrays that they find. -/
def surfaceContextNew (memory : ℕ → Pixels × Planes × Planes) (width height : ℕ) : Surface :=
  let gridWidth := (width + (64 - width % 64)) % 2 ^ 32 / 64
  let gridHeight := (height + (64 - height % 64)) % 2 ^ 32 / 64
  { gridWidth := gridWidth
    gridHeight := gridHeight
    gridSize := gridWidth * gridHeight % 2 ^ 32
    tiles := fun z => Tile.fresh (memory z).1 (memory z).2.1 (memory z).2.2
    frameId := 0
    updatedTileIndices := [] }

/-- The parts of `PROGRESSIVE_CONTEXT` that a call reads, with the surface of the call.  Of `state`
only two flags are looked at, and of the context block only its flags. -/
structure State where
  format : ℕ
  frameBegin : Bool
  frameEnd : Bool
  contextFlags : ℕ
  region : BlockRegion
  surface : Surface

/-! ### The surroundings -/

/-- What a transform of a component returns: whether it succeeds, the coefficients for the colour
conversion, and what `current` and `sign` hold afterwards. -/
structure Component where
  ok : Bool
  buffer : List ℤ
  current : List ℤ
  sign : List ℤ

/-- What the decoder is built on. -/
structure Env where
  /-- `UseThreads` of the RemoteFX context -/
  useThreads : Bool
  /-- the order in which the thread pool runs the work items of a region -/
  schedule : List ℕ → List ℕ
  /-- `progressive_rfx_decode_component`: shift, data, current, sign and the three flags -/
  decodeComponent : Quant → List UInt8 → List ℤ → List ℤ → Bool → Bool → Bool → Component
  /-- `progressive_rfx_upgrade_component`: shift, bit positions, numbers of bits, current, sign, the
  two streams and the three flags -/
  upgradeComponent : Quant → Quant → Quant → List ℤ → List ℤ → List UInt8 → List UInt8 → Bool →
    Bool → Bool → Component
  /-- `yCbCrToRGB_16s8u_P3AC4R`: the coefficients and the format -/
  yCbCrToRGB : Planes → ℕ → Pixels

/-! ### Decoding a tile -/

variable (env : Env)

/-- The quantization values that the indices of a tile select; `none` where one is out of range. -/
def tileQuants (tile : Tile) (region : BlockRegion) : Option (Quant × Quant × Quant × ProgQuant) :=
  if tile.quantIdxY ≥ region.numQuant ∨ tile.quantIdxCb ≥ region.numQuant ∨
      tile.quantIdxCr ≥ region.numQuant then none
  else
    let quant := fun i => region.quantVals.getD i (Quant.all 0)
    let quants := fun prog => some (quant tile.quantIdxY, quant tile.quantIdxCb,
      quant tile.quantIdxCr, prog)
    if tile.quality = 0xFF then quants quantProgValFull
    else if tile.quality ≥ region.numProgQuant then none
    else quants (region.quantProgVals.getD tile.quality quantProgValFull)

/-- The tail of both decoders: the components are transformed one after the other, up to the first
that fails, and three that succeed are converted to colours. -/
def runComponents (format : ℕ) (tile : Tile) (y cb cr : Component) : Tile :=
  let tile := { tile with current.y := y.current, sign.y := y.sign }
  if y.ok then
    let tile := { tile with current.cb := cb.current, sign.cb := cb.sign }
    if cb.ok then
      let tile := { tile with current.cr := cr.current, sign.cr := cr.sign }
      if cr.ok then { tile with data := env.yCbCrToRGB ⟨y.buffer, cb.buffer, cr.buffer⟩ format }
      else tile
    else tile
  else tile

def decompressTileFirst (format contextFlags : ℕ) (region : BlockRegion) (tile : Tile) : Tile :=
  let tile := { tile with pass := 1 }
  match tileQuants tile region with
  | none => tile
  | some (quantY, quantCb, quantCr, prog) =>
    let diff := tile.flags &&& RFX_TILE_DIFFERENCE ≠ 0
    let sub := contextFlags &&& RFX_SUBBAND_DIFFING ≠ 0
    let extrapolate := region.flags &&& RFX_DWT_REDUCE_EXTRAPOLATE ≠ 0
    let yBitPos := quantAdd quantY prog.yQuantValues
    let cbBitPos := quantAdd quantCb prog.cbQuantValues
    let crBitPos := quantAdd quantCr prog.crQuantValues
    let tile :=
      { tile with
        yQuant := quantY, cbQuant := quantCb, crQuant := quantCr
        yProgQuant := prog.yQuantValues, cbProgQuant := prog.cbQuantValues
        crProgQuant := prog.crQuantValues
        yBitPos := yBitPos, cbBitPos := cbBitPos, crBitPos := crBitPos }
    let component := fun bitPos data current sign =>
      env.decodeComponent (quantLsub bitPos 1) data current sign diff sub extrapolate
    runComponents env format tile
      (component yBitPos tile.yData tile.current.y tile.sign.y)
      (component cbBitPos tile.cbData tile.current.cb tile.sign.cb)
      (component crBitPos tile.crData tile.current.cr tile.sign.cr)

/-- `progressive_decompress_tile_upgrade` up to the components, which `upgradeComponent` transforms and
`run` takes into the tile. -/
def upgradeTile {α β : Type} (upgradeComponent : Quant → Quant → Quant → List ℤ → List ℤ →
      List UInt8 → List UInt8 → Bool → Bool → Bool → α)
    (run : Tile → α → α → α → β) (fail : Tile → β) (contextFlags : ℕ) (region : BlockRegion)
    (tile : Tile) : β :=
  let tile := { tile with pass := (tile.pass + 1) % 2 ^ 16 }
  match tileQuants tile region with
  | none => fail tile
  | some (quantY, quantCb, quantCr, prog) =>
    let coeffDiff := tile.flags &&& RFX_TILE_DIFFERENCE ≠ 0
    let sub := contextFlags &&& RFX_SUBBAND_DIFFING ≠ 0
    let extrapolate := region.flags &&& RFX_DWT_REDUCE_EXTRAPOLATE ≠ 0
    let yBitPos := quantAdd quantY prog.yQuantValues
    let cbBitPos := quantAdd quantCb prog.cbQuantValues
    let crBitPos := quantAdd quantCr prog.crQuantValues
    let yNumBits := quantSub tile.yBitPos yBitPos
    let cbNumBits := quantSub tile.cbBitPos cbBitPos
    let crNumBits := quantSub tile.crBitPos crBitPos
    let tile :=
      { tile with
        yBitPos := yBitPos, cbBitPos := cbBitPos, crBitPos := crBitPos
        yQuant := quantY, cbQuant := quantCb, crQuant := quantCr
        yProgQuant := prog.yQuantValues, cbProgQuant := prog.cbQuantValues
        crProgQuant := prog.crQuantValues }
    let component := fun bitPos quantProg numBits current sign srlData rawData =>
      upgradeComponent (quantLsub bitPos 1) quantProg numBits current sign srlData rawData
        coeffDiff sub extrapolate
    run tile
      (component yBitPos prog.yQuantValues yNumBits tile.current.y tile.sign.y tile.ySrlData
        tile.yRawData)
      (component cbBitPos prog.cbQuantValues cbNumBits tile.current.cb tile.sign.cb tile.cbSrlData
        tile.cbRawData)
      (component crBitPos prog.crQuantValues crNumBits tile.current.cr tile.sign.cr tile.crSrlData
        tile.crRawData)

def decompressTileUpgrade (format contextFlags : ℕ) (region : BlockRegion) (tile : Tile) : Tile :=
  upgradeTile env.upgradeComponent (runComponents env format) id contextFlags region tile

/-- `progressive_process_tiles_tile_work_callback`: what the decoders return is not looked at. -/
def tileWork (format contextFlags : ℕ) (region : BlockRegion) (tile : Tile) : Tile :=
  if tile.blockType = PROGRESSIVE_WBT_TILE_SIMPLE ∨ tile.blockType = PROGRESSIVE_WBT_TILE_FIRST then
    decompressTileFirst env format contextFlags region tile
  else if tile.blockType = PROGRESSIVE_WBT_TILE_UPGRADE then
    decompressTileUpgrade env format contextFlags region tile
  else tile

end FreeRDP.Progressive
