import FreeRDP.Progressive.Basic

/-!
# Messages of progressive RemoteFX

The blocks of a message, and `progressive_decompress` around them.  A function of the source that
returns a negative number ends the call and keeps what it has changed, so that the functions are
programs over `EStateM`.  A function that reads from the stream takes the bytes that are left and
returns those that are left behind it.

The regions of a call stay below `2 ^ 28` rectangles, so that `unionRect` and `intersectRect` stand for
`region16_union_rect` and `region16_intersect_rect`.
-/

namespace FreeRDP.Progressive

open Region

/-- How a call ends before its end: a function returns a negative number, or the program writes
through a `NULL` pointer. -/
inductive Stop where
  | fail (rc : ℤ)
  | crash
deriving DecidableEq, Repr

abbrev M := EStateM Stop State

/-- Goes on if the condition holds and returns `rc` otherwise. -/
def require (c : Prop) [Decidable c] (rc : ℤ) : M Unit := if c then pure () else throw (.fail rc)

def getState : M State := get

def modifyRegion (f : BlockRegion → BlockRegion) : M Unit :=
  modify fun st => { st with region := f st.region }

def modifySurface (f : Surface → Surface) : M Unit :=
  modify fun st => { st with surface := f st.surface }

/-! ### Tile blocks -/

/-- Reads byte strings of the given lengths, `Stream_SafeSeek` by `Stream_SafeSeek`. -/
def readPieces : List ℕ → List UInt8 → Option (List (List UInt8) × List UInt8)
  | [], s => some ([], s)
  | n :: ns, s =>
    if n ≤ s.length then
      match readPieces ns (s.drop n) with
      | some (pieces, rest) => some (s.take n :: pieces, rest)
      | none => none
    else none

/-- The first half of `progressive_tile_read_upgrade`: the tile of the block. -/
def readTileUpgrade (blockType blockLen : ℕ) (s : List UInt8) : Option (Tile × List UInt8) :=
  if s.length < 20 then none
  else
    match readPieces [u16 (s.drop 8), u16 (s.drop 10), u16 (s.drop 12), u16 (s.drop 14),
      u16 (s.drop 16), u16 (s.drop 18)] (s.drop 20) with
    | some ([ySrlData, yRawData, cbSrlData, cbRawData, crSrlData, crRawData], rest) =>
      some ({ Tile.zero with
        blockType := blockType, blockLen := blockLen, flags := 0
        quantIdxY := u8 s, quantIdxCb := u8 (s.drop 1), quantIdxCr := u8 (s.drop 2)
        xIdx := u16 (s.drop 3), yIdx := u16 (s.drop 5), quality := u8 (s.drop 7)
        ySrlData := ySrlData, yRawData := yRawData, cbSrlData := cbSrlData
        cbRawData := cbRawData, crSrlData := crSrlData, crRawData := crRawData }, rest)
    | _ => none

/-- The first half of `progressive_tile_read`: the tile of the block.  A simple tile has no byte for
its quality. -/
def readTile (simple : Bool) (blockType blockLen : ℕ) (s : List UInt8) :
    Option (Tile × List UInt8) :=
  let expect := if simple then 16 else 17
  if s.length < expect then none
  else
    let lengths := if simple then s.drop 8 else s.drop 9
    match readPieces [u16 lengths, u16 (lengths.drop 2), u16 (lengths.drop 4),
      u16 (lengths.drop 6)] (s.drop expect) with
    | some ([yData, cbData, crData, tailData], rest) =>
      some ({ Tile.zero with
        blockType := blockType, blockLen := blockLen
        quantIdxY := u8 s, quantIdxCb := u8 (s.drop 1), quantIdxCr := u8 (s.drop 2)
        xIdx := u16 (s.drop 3), yIdx := u16 (s.drop 5), flags := u8 (s.drop 7)
        quality := if simple then 0xFF else u8 (s.drop 8)
        yData := yData, cbData := cbData, crData := crData, tailData := tailData }, rest)
    | _ => none

/-- The tile `t` of the surface takes over what a tile block says. -/
def Tile.replace (t tile : Tile) (upgrade : Bool) : Tile :=
  let t :=
    { t with
      blockType := tile.blockType, blockLen := tile.blockLen, quantIdxY := tile.quantIdxY
      quantIdxCb := tile.quantIdxCb, quantIdxCr := tile.quantIdxCr, xIdx := tile.xIdx
      yIdx := tile.yIdx, flags := tile.flags, quality := tile.quality
      x := tile.xIdx * 64, y := tile.yIdx * 64 }
  if upgrade then
    { t with
      ySrlData := tile.ySrlData, yRawData := tile.yRawData, cbSrlData := tile.cbSrlData
      cbRawData := tile.cbRawData, crSrlData := tile.crSrlData, crRawData := tile.crRawData }
  else
    { t with
      yData := tile.yData, cbData := tile.cbData, crData := tile.crData
      tailData := tile.tailData }

def Surface.zIdx (surface : Surface) (tile : Tile) : ℕ :=
  (tile.yIdx * surface.gridWidth + tile.xIdx) % 2 ^ 32

/-- `progressive_surface_tile_replace`; `rc` is what its caller returns if it fails. -/
def surfaceTileReplace (tile : Tile) (upgrade : Bool) (rc : ℤ) : M Unit := do
  let st ← getState
  let zIdx := st.surface.zIdx tile
  require (zIdx < st.surface.gridSize) rc
  modifySurface fun surface =>
    { surface with
      tiles := Function.update surface.tiles zIdx ((surface.tiles zIdx).replace tile upgrade) }
  require (st.region.tiles.length < st.region.numTiles) rc
  require (st.surface.updatedTileIndices.length < st.surface.gridSize) rc
  modifyRegion fun region => { region with tiles := region.tiles ++ [zIdx] }
  modifySurface fun surface =>
    { surface with updatedTileIndices := surface.updatedTileIndices ++ [zIdx] }

/-- The tile block `read` is taken over by the surface. -/
def takeTile (read : Option (Tile × List UInt8)) (upgrade : Bool) (rc : ℤ) : M (List UInt8) :=
  match read with
  | none => throw (.fail rc)
  | some (tile, rest) => do
    surfaceTileReplace tile upgrade rc
    return rest

/-- The switch of `progressive_process_tiles` on the type of a block. -/
def tileBlock (blockType blockLen : ℕ) (s : List UInt8) : M (List UInt8) :=
  if blockType = PROGRESSIVE_WBT_TILE_SIMPLE then
    takeTile (readTile true blockType blockLen s) false (-1022)
  else if blockType = PROGRESSIVE_WBT_TILE_FIRST then
    takeTile (readTile false blockType blockLen s) false (-1027)
  else if blockType = PROGRESSIVE_WBT_TILE_UPGRADE then
    takeTile (readTileUpgrade blockType blockLen s) true (-1032)
  else throw (.fail (-1039))

/-- The reading loop of `progressive_process_tiles`, which started where `start` bytes were left.  It
returns the bytes left and the number of blocks. -/
def tileLoop (start : ℕ) : ℕ → List UInt8 → ℕ → M (List UInt8 × ℕ)
  | 0, s, count => return (s, count)
  | rounds + 1, s, count => do
    let st ← getState
    if 6 ≤ s.length ∧ st.region.tileDataSize > start - s.length then do
      let blockType := u16 s
      let blockLen := u32 (s.drop 2)
      require (blockLen ≤ s.length) (-1003)
      let rest ← tileBlock blockType blockLen (s.drop 6)
      require (s.length - rest.length = blockLen) (-1040)
      tileLoop start rounds rest (count + 1)
    else return (s, count)

/-! ### Region blocks -/

variable (env : Env)

/-- A work item: the tile `zIdx` of the surface is decoded. -/
def workTile (zIdx : ℕ) : M Unit :=
  modify fun st =>
    { st with surface := { st.surface with
      tiles := Function.update st.surface.tiles zIdx
        (tileWork env st.format st.contextFlags st.region (st.surface.tiles zIdx)) } }

/-- Work items, one after the other. -/
def workTiles : List ℕ → M Unit
  | [] => pure ()
  | zIdx :: tiles => do
    workTile env zIdx
    workTiles tiles

/-- The second loop of `progressive_process_tiles`.  The array `params` is allocated with threads
only, but it is written to in any case. -/
def processWork : M Unit := do
  let st ← getState
  if env.useThreads then workTiles env (env.schedule st.region.tiles)
  else if st.region.numTiles = 0 then pure ()
  else throw .crash

/-- The conversion of a size to `int`. -/
def toInt (n : ℕ) : ℤ := if n % 2 ^ 32 < 2 ^ 31 then n % 2 ^ 32 else n % 2 ^ 32 - 2 ^ 32

/-- The first half of `progressive_process_tiles`: the tile blocks are read.  It returns the bytes
left. -/
def readTiles (s : List UInt8) : M (List UInt8) := do
  let st ← getState
  require (st.region.tileDataSize ≤ s.length) (-1)
  let (rest, count) ← tileLoop s.length (s.length + 1) s 0
  require (s.length - rest.length = st.region.tileDataSize) (-1041)
  require (count = st.region.numTiles) (-1044)
  return rest

def processTiles (s : List UInt8) : M (ℤ × List UInt8) := do
  let rest ← readTiles s
  processWork env
  return (toInt (s.length - rest.length), rest)

/-- The region that the header of a region block describes; the rectangles are still zero. -/
def headerRegion (s : List UInt8) : BlockRegion :=
  { BlockRegion.zero with
    numRects := u16 (s.drop 1), numQuant := u8 (s.drop 3), numProgQuant := u8 (s.drop 4)
    flags := u8 (s.drop 5), numTiles := u16 (s.drop 6), tileDataSize := u32 (s.drop 8)
    rects := List.replicate (u16 (s.drop 1)) ⟨0, 0, 0, 0⟩ }

def wbReadRegionHeader (s : List UInt8) : M (List UInt8) := do
  modifyRegion fun _ => BlockRegion.zero
  require (12 ≤ s.length) (-1011)
  let region := headerRegion s
  modifyRegion fun _ => region
  require (u8 s = 64) (-1012)
  require (1 ≤ region.numRects) (-1013)
  require (region.numQuant ≤ 7) (-1014)
  let len := s.length - 12
  require (region.numRects ≤ len / 8) (-1015)
  let len := len - region.numRects * 8
  require (region.numQuant ≤ len / 5) (-1018)
  let len := len - region.numQuant * 5
  require (region.numProgQuant ≤ len / 16) (-1021)
  let len := len - region.numProgQuant * 16
  require (region.tileDataSize ≤ len) (-1024)
  return s.drop 12

def wbSkipRegion (s : List UInt8) : M (ℤ × List UInt8) := do
  let rest ← wbReadRegionHeader s
  let st ← getState
  let total := st.region.numRects * 8 + st.region.numQuant * 5 + st.region.numProgQuant * 16 +
    st.region.tileDataSize
  require (total ≤ rest.length) (-1111)
  return (0, rest.drop total)

/-- The `n` rectangles at the head of the stream. -/
def readRects : ℕ → List UInt8 → List RfxRect
  | 0, _ => []
  | n + 1, s => ⟨u16 s, u16 (s.drop 2), u16 (s.drop 4), u16 (s.drop 6)⟩ :: readRects n (s.drop 8)

/-- The `n` quantization values at the head of the stream. -/
def readQuants : ℕ → List UInt8 → List Quant
  | 0, _ => []
  | n + 1, s => readQuant s :: readQuants n (s.drop 5)

/-- The `n` progressive quantization values at the head of the stream. -/
def readProgQuants : ℕ → List UInt8 → List ProgQuant
  | 0, _ => []
  | n + 1, s => ⟨readQuant (s.drop 1), readQuant (s.drop 6), readQuant (s.drop 11)⟩ ::
    readProgQuants n (s.drop 16)

/-- `progressive_rfx_quant_lcmp_greater_equal` and `progressive_rfx_quant_lcmp_less_equal`, as they
are used for a region. -/
def Quant.inRange (q : Quant) : Bool := q.toList.all fun n => 6 ≤ n ∧ n ≤ 15

/-- The part of `progressive_wb_region` between the header and the tiles. -/
def readRegionTables (s : List UInt8) : M (List UInt8) := do
  let st ← getState
  let rects := readRects st.region.numRects s
  modifyRegion fun region => { region with rects := rects }
  let s := s.drop (st.region.numRects * 8)
  let quantVals := readQuants st.region.numQuant s
  modifyRegion fun region => { region with quantVals := quantVals }
  require (quantVals.all Quant.inRange) (-1)
  let s := s.drop (st.region.numQuant * 5)
  let quantProgVals := readProgQuants st.region.numProgQuant s
  modifyRegion fun region => { region with quantProgVals := quantProgVals }
  return s.drop (st.region.numProgQuant * 16)

def wbRegion (s : List UInt8) : M (ℤ × List UInt8) := do
  let st ← getState
  if ¬ st.frameBegin ∨ st.frameEnd then wbSkipRegion s
  else do
    let s ← wbReadRegionHeader s
    let s ← readRegionTables s
    processTiles env s

/-! ### The other blocks -/

def wbSync (blockLen : ℕ) (s : List UInt8) : M (ℤ × List UInt8) := do
  require (blockLen = 12) (-1005)
  require (6 ≤ s.length) (-1004)
  require (u32 s = 0xCACCACCA) (-1005)
  require (u16 (s.drop 4) = 0x0100) (-1006)
  return (1, s.drop 6)

def wbFrameBegin (blockLen : ℕ) (s : List UInt8) : M (ℤ × List UInt8) := do
  require (blockLen = 12) (-1005)
  require (6 ≤ s.length) (-1007)
  let st ← getState
  require (¬ st.frameBegin) (-1008)
  require (¬ st.frameEnd) (-1008)
  modify fun st => { st with frameBegin := true }
  return (1, s.drop 6)

def wbFrameEnd (blockLen : ℕ) (s : List UInt8) : M (ℤ × List UInt8) := do
  require (blockLen = 6) (-1005)
  require (s.length = 0) (-1008)
  modify fun st => { st with frameEnd := true }
  return (1, s)

def wbContext (blockLen : ℕ) (s : List UInt8) : M (ℤ × List UInt8) := do
  require (blockLen = 10) (-1005)
  require (4 ≤ s.length) (-1009)
  modify fun st => { st with contextFlags := u8 (s.drop 3) }
  require (u16 (s.drop 1) = 64) (-1010)
  return (1, s.drop 4)

/-- The switch of `progressive_decompress` on the type of a block. -/
def block (blockType blockLen : ℕ) (s : List UInt8) : M (ℤ × List UInt8) :=
  if blockType = PROGRESSIVE_WBT_SYNC then wbSync blockLen s
  else if blockType = PROGRESSIVE_WBT_FRAME_BEGIN then wbFrameBegin blockLen s
  else if blockType = PROGRESSIVE_WBT_FRAME_END then wbFrameEnd blockLen s
  else if blockType = PROGRESSIVE_WBT_CONTEXT then wbContext blockLen s
  else if blockType = PROGRESSIVE_WBT_REGION then wbRegion env s
  else throw (.fail (-1039))

/-- The loop of `progressive_decompress` over the blocks, and the check behind it.  It returns the
number that the last block has returned. -/
def blockLoop : ℕ → ℤ → List UInt8 → M ℤ
  | 0, rc, _ => return rc
  | rounds + 1, rc, s =>
    if 6 ≤ s.length then do
      let blockType := u16 s
      let blockLen := u32 (s.drop 2)
      require (blockLen ≤ s.length) (-1003)
      let (rc, rest) ← block env blockType blockLen (s.drop 6)
      require (0 ≤ rc) rc
      require (s.length - rest.length = blockLen) (-1040)
      blockLoop rounds rc rest
    else do
      require (s.length = 0) (-1041)
      return rc

/-! ### Drawing -/

/-- The arguments of `progressive_decompress`.  `invalidRegion` is `none` for a `NULL` pointer. -/
structure Call where
  src : List UInt8
  dstFormat : ℕ
  nXDst : ℕ
  nYDst : ℕ
  invalidRegion : Option Region16
  frameId : ℕ

/-- A call of `freerdp_image_copy` from the tile `zIdx`, whose colours are `data`. -/
structure Copy where
  rect : Rect
  zIdx : ℕ
  data : Pixels
  nXSrc : ℕ
  nYSrc : ℕ

/-- A clipping rectangle, in the 16 bits of a `RECTANGLE_16`. -/
def clippingRect (call : Call) (rect : RfxRect) : Rect :=
  let left := (call.nXDst + rect.x) % 2 ^ 16
  let top := (call.nYDst + rect.y) % 2 ^ 16
  ⟨left, top, (left + rect.width) % 2 ^ 16, (top + rect.height) % 2 ^ 16⟩

/-- The union of the clipping rectangles. -/
def clippingRects (call : Call) (rects : List RfxRect) : Region16 :=
  rects.foldl (fun region rect => unionRect region (clippingRect call rect)) region16Clear

def updateRect (call : Call) (tile : Tile) : Rect :=
  let left := (call.nXDst + tile.x) % 2 ^ 16
  let top := (call.nYDst + tile.y) % 2 ^ 16
  ⟨left, top, (left + 64) % 2 ^ 16, (top + 64) % 2 ^ 16⟩

/-- What drawing leaves: the copies made so far, the invalid region and the number to return. -/
structure Drawn where
  copies : List Copy
  invalidRegion : Option Region16
  rc : ℤ

/-- The loop over the rectangles of a tile that are to be drawn. -/
def drawRects (call : Call) (tile : Tile) (zIdx : ℕ) : List Rect → Drawn → Drawn
  | [], drawn => drawn
  | rect :: rects, drawn =>
    let nXSrc := (rect.left + 2 ^ 32 - (call.nXDst + tile.x) % 2 ^ 32) % 2 ^ 32
    let nYSrc := (rect.top + 2 ^ 32 - (call.nYDst + tile.y) % 2 ^ 32) % 2 ^ 32
    -- `freerdp_image_copy` refuses sizes that are negative as `INT32`
    if rect.right < rect.left ∨ rect.bottom < rect.top then { drawn with rc := -42 }
    else
      drawRects call tile zIdx rects
        { drawn with
          copies := drawn.copies ++ [⟨rect, zIdx, tile.data, nXSrc, nYSrc⟩]
          invalidRegion := drawn.invalidRegion.map fun region => unionRect region rect }

/-- The loop over the updated tiles. -/
def drawTiles (call : Call) (surface : Surface) (clip : Region16) : List ℕ → Drawn → Drawn
  | [], drawn => drawn
  | zIdx :: rest, drawn =>
    let tile := surface.tiles zIdx
    let rects := (intersectRect clip (updateRect call tile)).rects
    drawTiles call surface clip rest (drawRects call tile zIdx rects drawn)

/-! ### `progressive_decompress` -/

def PIXEL_FORMAT_XRGB32 : ℕ := 0x20010888

/-- `PIXEL_FORMAT_RGBA32`, `PIXEL_FORMAT_RGBX32`, `PIXEL_FORMAT_BGRA32` and `PIXEL_FORMAT_BGRX32`. -/
def tileFormats : List ℕ := [0x20038888, 0x20030888, 0x20048888, 0x20040888]

/-- The state in which the blocks of a call are read: the format is set, the flags are cleared, and
under a new frame id no tile has been updated. -/
def startState (call : Call) (st : State) : State :=
  { st with
    surface :=
      if st.surface.frameId ≠ call.frameId then
        { st.surface with frameId := call.frameId, updatedTileIndices := [] }
      else st.surface
    format := if call.dstFormat ∈ tileFormats then call.dstFormat else PIXEL_FORMAT_XRGB32
    frameBegin := false
    frameEnd := false }

/-- What a call leaves: the number it returns (`none` if the program has crashed), the context, the
copies in their order and the invalid region. -/
structure Outcome where
  rc : Option ℤ
  state : State
  copies : List Copy
  invalidRegion : Option Region16

def decompress (call : Call) (st : State) : Outcome :=
  match blockLoop env (call.src.length + 1) 1 call.src (startState call st) with
  | .error (.fail rc) st => ⟨some rc, st, [], call.invalidRegion⟩
  | .error .crash st => ⟨none, st, [], call.invalidRegion⟩
  | .ok rc st =>
    let drawn := drawTiles call st.surface (clippingRects call st.region.rects)
      st.surface.updatedTileIndices ⟨[], call.invalidRegion, rc⟩
    ⟨some drawn.rc, st, drawn.copies, drawn.invalidRegion⟩

end FreeRDP.Progressive
