import FreeRDP.Lib.Retain
import FreeRDP.Orders.Fields

/-!
# Primary drawing orders

The decoders of `libfreerdp/core/orders.c` for the primary drawing orders.  Each of them reads the fields
that `fieldFlags` announces into a structure that is kept from order to order, so that a field that is
left out keeps its value.  A decoder is the list of its reads and assignments as they stand in the
source; a structure gives the integer in each cell of its members.  Allocations succeed, and what the
callbacks do with a structure between two orders is left out.
-/

namespace FreeRDP.Orders

open Wire Retain

def CACHED_BRUSH : ℕ := 0x80
def BACKMODE_TRANSPARENT : ℤ := 0x0001
def BACKMODE_OPAQUE : ℤ := 0x0002

/-! ### Structures -/

/-- The members of the structures of the orders.  Those of a brush, of `glyphData`, and of the elements
of `rectangles` and `points` come behind the name of what they are a member of; `num` is the local
variable for a number of points. -/
inductive Member
  | nLeftRect | nTopRect | nWidth | nHeight | nRightRect | nBottomRect | nXSrc | nYSrc
  | leftRect | topRect | rightRect | bottomRect | srcLeft | srcTop | srcRight | srcBottom
  | nXStart | nYStart | nXEnd | nYEnd | xStart | yStart | x | y
  | bkLeft | bkTop | bkRight | bkBottom | opLeft | opTop | opRight | opBottom
  | bRop | bRop2 | backMode | fillMode | penStyle | penWidth
  | color | backColor | foreColor | penColor | brushColor
  | bitmapId | cacheId | cacheIndex | colorIndex | bitmap | savedBitmapPosition | operation
  | flAccel | ulCharInc | fOpRedundant
  | brushX | brushY | brushBpp | brushStyle | brushHatch | brushIndex | brushData | brushP8x8
  | numRectangles | nDeltaEntries | numDeltaEntries | numPoints | cbData
  | rectanglesLeft | rectanglesTop | rectanglesWidth | rectanglesHeight | pointsX | pointsY | data
  | glyphCacheIndex | glyphX | glyphY | glyphCx | glyphCy | glyphCb | glyphAj
  | num
deriving DecidableEq

/-- A cell: a member, and an index for those that are arrays. -/
abbrev Cell : Type := Member × ℕ

abbrev OrderStruct : Type := Cell → ℤ

/-- What is assigned to the elements of the array `m`. -/
def Member.array (m : Member) (l : List ℤ) : List (Cell × ℤ) :=
  l.zipIdx.map fun (v, i) => ((m, i), v)

/-! ### Fields -/

def orderFieldFlagIsSet (fieldFlags number : ℕ) : Bool := fieldFlags &&& (1 <<< (number - 1)) ≠ 0

/-- A signed number of `bits` bits. -/
def signed (bits n : ℕ) : ℤ := (n : ℤ).bmod (2 ^ bits)

/-- `update_read_coord`, for a coordinate that has been `coord`. -/
def updateReadCoord (coord : ℤ) (delta : Bool) : Reader ℤ :=
  if delta then do
    need 1
    let lsi8 ← u8
    return coord + signed 8 lsi8
  else do
    need 2
    let lsi16 ← u16le
    return signed 16 lsi16

def updateReadColor : Reader ℕ := do
  need 3
  let red ← u8
  let green ← u8
  let blue ← u8
  return red ||| (green <<< 8 &&& 0xFF00) ||| (blue <<< 16 &&& 0xFF0000)

def updateReadDelta : Reader ℤ := do
  need 1
  let b ← u8
  -- the bits above the lower six are all set
  let value : ℤ := if b &&& 0x40 ≠ 0 then (b &&& 0x3F : ℕ) - 2 ^ 6 else (b &&& 0x3F : ℕ)
  if b &&& 0x80 ≠ 0 then do
    need 1
    let c ← u8
    return value * 2 ^ 8 + c
  else return value

structure DeltaRect where
  left : ℤ
  top : ℤ
  width : ℤ
  height : ℤ

/-- The rounds from `i` on of the loop of `update_read_delta_rects`; `last` is the rectangle of the round
before, and zero in the first round. -/
def readDeltaRects (zeroBits : List UInt8) (i : ℕ) (last : DeltaRect) : ℕ → Reader (List DeltaRect)
  | 0 => return []
  | n + 1 => do
    let flags := (zeroBits.getD (i / 2) 0).toNat <<< (4 * (i % 2))
    let left ← (if flags &&& 0x80 = 0 then updateReadDelta else return 0 : Reader ℤ)
    let top ← (if flags &&& 0x40 = 0 then updateReadDelta else return 0 : Reader ℤ)
    let width ← (if flags &&& 0x20 = 0 then updateReadDelta else return last.width : Reader ℤ)
    let height ← (if flags &&& 0x10 = 0 then updateReadDelta else return last.height : Reader ℤ)
    let rect : DeltaRect := ⟨left + last.left, top + last.top, width, height⟩
    let rects ← readDeltaRects zeroBits (i + 1) rect n
    return rect :: rects

def updateReadDeltaRects (number : ℕ) : Reader (List DeltaRect) := do
  check (¬ number > 45)
  let zeroBitsSize := (number + 1) / 2
  need zeroBitsSize
  let zeroBits ← bytes zeroBitsSize
  readDeltaRects zeroBits 0 ⟨0, 0, 0, 0⟩ number

/-- The rounds from `i` on of the loop of `update_read_delta_points`. -/
def readDeltaPoints (zeroBits : List UInt8) (i : ℕ) : ℕ → Reader (List (ℤ × ℤ))
  | 0 => return []
  | n + 1 => do
    let flags := (zeroBits.getD (i / 4) 0).toNat <<< (2 * (i % 4))
    let x ← (if flags &&& 0x80 = 0 then updateReadDelta else return 0 : Reader ℤ)
    let y ← (if flags &&& 0x40 = 0 then updateReadDelta else return 0 : Reader ℤ)
    let points ← readDeltaPoints zeroBits (i + 1) n
    return (x, y) :: points

def updateReadDeltaPoints (number : ℕ) : Reader (List (ℤ × ℤ)) := do
  let zeroBitsSize := (number + 3) / 4
  need zeroBitsSize
  let zeroBits ← bytes zeroBitsSize
  readDeltaPoints zeroBits 0 number

def getBmfBpp (bmf : ℕ) : Option ℕ :=
  match bmf - (bmf &&& CACHED_BRUSH) with
  | 1 => some 1
  | 3 => some 8
  | 4 => some 16
  | 5 => some 24
  | 6 => some 32
  | _ => none

/-- The glyph in the `cbData` bytes of a fast glyph order. -/
def readGlyphData (cbData : ℕ) : Reader (List (Cell × ℤ)) := do
  let cacheIndex ← u8
  if cbData > 1 then do
    let x ← updateRead2ByteSigned
    let y ← updateRead2ByteSigned
    let cx ← updateRead2ByteUnsigned
    let cy ← updateRead2ByteUnsigned
    let aj ← (fun bs => some (bs, []) : Reader (List UInt8))
    return [((.glyphCacheIndex, 0), (cacheIndex : ℤ)), ((.glyphX, 0), x), ((.glyphY, 0), y),
      ((.glyphCx, 0), cx), ((.glyphCy, 0), cy), ((.glyphCb, 0), aj.length)] ++
      Member.array .glyphAj (aj.map fun b => b.toNat)
  else return [((.glyphCacheIndex, 0), (cacheIndex : ℤ))]

/-! ### Steps of decoders -/

/-- The reads and the assignments of the decoders; `n` is the number of a field. -/
inductive Step
  /-- `read_order_field_coord` -/
  | coord (n : ℕ) (m : Member)
  /-- `read_order_field_byte` -/
  | byte (n : ℕ) (m : Member)
  /-- `read_order_field_2bytes` -/
  | twoBytes (n : ℕ) (m₁ m₂ : Member)
  /-- `read_order_field_uint16` -/
  | uint16 (n : ℕ) (m : Member)
  /-- `read_order_field_uint16` into a local variable that nothing reads -/
  | word (n : ℕ)
  /-- `read_order_field_int16` -/
  | int16 (n : ℕ) (m : Member)
  /-- `read_order_field_uint32` -/
  | uint32 (n : ℕ) (m : Member)
  /-- `read_order_field_color` -/
  | color (n : ℕ) (m : Member)
  /-- a byte of `color`, the other bytes of which are in `mask` -/
  | colorByte (n mask shift : ℕ)
  /-- the brush is cached: `index` and `bpp` are derived -/
  | cachedBrush
  /-- the rows of a brush, the first of which is its hatch -/
  | brushRows (n : ℕ)
  /-- `cbData` and as many rectangles as `number` says -/
  | deltaRects (n : ℕ) (number : Member)
  /-- the local number of points starts as `number` -/
  | startPoints (number : Member)
  /-- `cbData` and as many points as the local number says, which is kept in `number` -/
  | deltaPoints (n : ℕ) (number : Member)
  /-- the local number of points is gone -/
  | endPoints
  /-- `cbData` and as many bytes of glyphs -/
  | glyphs (n : ℕ)
  /-- `cbData` and the bytes of a glyph -/
  | glyph (n : ℕ)
  /-- `cacheId` is checked -/
  | checkCacheId
  /-- `colorIndex` is split off `cacheId` -/
  | splitCacheId
  /-- `backMode` is split off `bRop2` -/
  | splitRop2
deriving DecidableEq

/-- The number of the field that a step reads. -/
def Step.field : Step → Option ℕ
  | coord n _ | byte n _ | twoBytes n _ _ | uint16 n _ | word n | int16 n _ | uint32 n _ | color n _
  | colorByte n _ _ | brushRows n | deltaRects n _ | deltaPoints n _ | glyphs n | glyph n => some n
  | cachedBrush | startPoints _ | endPoints | checkCacheId | splitCacheId | splitRop2 => none

/-- What a step assigns, with `deltaCoordinates`. -/
def Step.read (delta : Bool) (s : OrderStruct) : Step → Reader (List (Cell × ℤ))
  | coord _ m => do
    let coord ← updateReadCoord (s (m, 0)) delta
    return [((m, 0), coord)]
  | byte _ m => do
    need 1
    let b ← u8
    return [((m, 0), b)]
  | twoBytes _ m₁ m₂ => do
    need 2
    let b₁ ← u8
    let b₂ ← u8
    return [((m₁, 0), b₁), ((m₂, 0), b₂)]
  | uint16 _ m => do
    need 2
    let w ← u16le
    return [((m, 0), w)]
  | word _ => do
    need 2
    let _ ← u16le
    return []
  | int16 _ m => do
    need 2
    let w ← u16le
    return [((m, 0), signed 16 w)]
  | uint32 _ m => do
    need 4
    let w ← u32le
    return [((m, 0), w)]
  | color _ m => do
    let color ← updateReadColor
    return [((m, 0), color)]
  | colorByte _ mask shift => do
    need 1
    let b ← u8
    return [((.color, 0), ((s (.color, 0)).toNat &&& mask ||| b <<< shift : ℕ))]
  | cachedBrush =>
    if (s (.brushStyle, 0)).toNat &&& CACHED_BRUSH ≠ 0 then
      fun bs => (getBmfBpp (s (.brushStyle, 0)).toNat).map fun bpp =>
        ([((.brushIndex, 0), s (.brushHatch, 0)),
          ((.brushBpp, 0), ((if bpp = 0 then 1 else bpp : ℕ) : ℤ))], bs)
    else return []
  | brushRows _ => do
    need 7
    let row7 ← u8
    let row6 ← u8
    let row5 ← u8
    let row4 ← u8
    let row3 ← u8
    let row2 ← u8
    let row1 ← u8
    -- `data` points to `p8x8`
    return [((.brushData, 0), 1), ((.brushP8x8, 7), row7), ((.brushP8x8, 6), row6),
      ((.brushP8x8, 5), row5), ((.brushP8x8, 4), row4), ((.brushP8x8, 3), row3),
      ((.brushP8x8, 2), row2), ((.brushP8x8, 1), row1), ((.brushP8x8, 0), s (.brushHatch, 0))]
  | deltaRects _ number => do
    need 2
    let cbData ← u16le
    let rects ← updateReadDeltaRects (s (number, 0)).toNat
    return ((.cbData, 0), (cbData : ℤ)) :: (Member.array .rectanglesLeft (rects.map DeltaRect.left) ++
      Member.array .rectanglesTop (rects.map DeltaRect.top) ++
      Member.array .rectanglesWidth (rects.map DeltaRect.width) ++
      Member.array .rectanglesHeight (rects.map DeltaRect.height))
  | startPoints number => return [((.num, 0), s (number, 0))]
  | deltaPoints _ number => do
    check (s (.num, 0) ≠ 0)
    need 1
    let cbData ← u8
    let points ← updateReadDeltaPoints (s (.num, 0)).toNat
    return ((.cbData, 0), (cbData : ℤ)) :: ((number, 0), s (.num, 0)) ::
      (Member.array .pointsX (points.map Prod.fst) ++ Member.array .pointsY (points.map Prod.snd))
  | endPoints => return [((.num, 0), 0)]
  | glyphs _ => do
    need 1
    let cbData ← u8
    need cbData
    let data ← bytes cbData
    return ((.cbData, 0), (cbData : ℤ)) :: Member.array .data (data.map fun b => b.toNat)
  | glyph _ => do
    need 1
    let cbData ← u8
    let data ← bytes cbData
    check (cbData ≠ 0)
    let glyph ← (fun bs => (readGlyphData cbData data).map fun r => (r.1, bs) : Reader _)
    return ((.cbData, 0), (cbData : ℤ)) :: (Member.array .data (data.map fun b => b.toNat) ++ glyph)
  | checkCacheId => do
    check (¬ s (.cacheId, 0) > 9)
    return []
  | splitCacheId => return [((.colorIndex, 0), ((s (.cacheId, 0)).toNat >>> 8 : ℕ)),
      ((.cacheId, 0), ((s (.cacheId, 0)).toNat &&& 0xFF : ℕ)), ((.bitmap, 0), 0)]
  | splitRop2 => return [((.backMode, 0), if (s (.bRop2, 0)).toNat &&& 0x80 ≠ 0 then
      BACKMODE_TRANSPARENT else BACKMODE_OPAQUE),
      ((.bRop2, 0), ((s (.bRop2, 0)).toNat &&& 0x1F : ℕ))]

def Step.part (delta : Bool) (step : Step) : Part Cell ℤ := ⟨step.field, fun s => step.read delta s⟩

/-! ### Decoders -/

/-- `update_read_brush`, with `fieldFlags >> first`. -/
def updateReadBrush (first : ℕ) : List Step :=
  [.byte (first + 1) .brushX, .byte (first + 2) .brushY, .byte (first + 3) .brushStyle,
    .byte (first + 4) .brushHatch, .cachedBrush, .brushRows (first + 5)]

def updateReadDstbltOrder : List Step :=
  [.coord 1 .nLeftRect, .coord 2 .nTopRect, .coord 3 .nWidth, .coord 4 .nHeight, .byte 5 .bRop]

def updateReadPatbltOrder : List Step :=
  [.coord 1 .nLeftRect, .coord 2 .nTopRect, .coord 3 .nWidth, .coord 4 .nHeight, .byte 5 .bRop,
    .color 6 .backColor, .color 7 .foreColor] ++ updateReadBrush 7

def updateReadScrbltOrder : List Step :=
  [.coord 1 .nLeftRect, .coord 2 .nTopRect, .coord 3 .nWidth, .coord 4 .nHeight, .byte 5 .bRop,
    .coord 6 .nXSrc, .coord 7 .nYSrc]

def updateReadOpaqueRectOrder : List Step :=
  [.coord 1 .nLeftRect, .coord 2 .nTopRect, .coord 3 .nWidth, .coord 4 .nHeight,
    .colorByte 5 0x00FFFF00 0, .colorByte 6 0x00FF00FF 8, .colorByte 7 0x0000FFFF 16]

def updateReadDrawNineGridOrder : List Step :=
  [.coord 1 .srcLeft, .coord 2 .srcTop, .coord 3 .srcRight, .coord 4 .srcBottom,
    .uint16 5 .bitmapId]

def updateReadMultiDstbltOrder : List Step :=
  [.coord 1 .nLeftRect, .coord 2 .nTopRect, .coord 3 .nWidth, .coord 4 .nHeight, .byte 5 .bRop,
    .byte 6 .numRectangles, .deltaRects 7 .numRectangles]

def updateReadMultiPatbltOrder : List Step :=
  [.coord 1 .nLeftRect, .coord 2 .nTopRect, .coord 3 .nWidth, .coord 4 .nHeight, .byte 5 .bRop,
    .color 6 .backColor, .color 7 .foreColor] ++ updateReadBrush 7 ++
  [.byte 13 .numRectangles, .deltaRects 14 .numRectangles]

def updateReadMultiScrbltOrder : List Step :=
  [.coord 1 .nLeftRect, .coord 2 .nTopRect, .coord 3 .nWidth, .coord 4 .nHeight, .byte 5 .bRop,
    .coord 6 .nXSrc, .coord 7 .nYSrc, .byte 8 .numRectangles, .deltaRects 9 .numRectangles]

def updateReadMultiOpaqueRectOrder : List Step :=
  [.coord 1 .nLeftRect, .coord 2 .nTopRect, .coord 3 .nWidth, .coord 4 .nHeight,
    .colorByte 5 0x00FFFF00 0, .colorByte 6 0x00FF00FF 8, .colorByte 7 0x0000FFFF 16,
    .byte 8 .numRectangles, .deltaRects 9 .numRectangles]

def updateReadMultiDrawNineGridOrder : List Step :=
  [.coord 1 .srcLeft, .coord 2 .srcTop, .coord 3 .srcRight, .coord 4 .srcBottom,
    .uint16 5 .bitmapId, .byte 6 .nDeltaEntries, .deltaRects 7 .nDeltaEntries]

def updateReadLineToOrder : List Step :=
  [.uint16 1 .backMode, .coord 2 .nXStart, .coord 3 .nYStart, .coord 4 .nXEnd, .coord 5 .nYEnd,
    .color 6 .backColor, .byte 7 .bRop2, .byte 8 .penStyle, .byte 9 .penWidth,
    .color 10 .penColor]

def updateReadPolylineOrder : List Step :=
  [.startPoints .numDeltaEntries, .coord 1 .xStart, .coord 2 .yStart, .byte 3 .bRop2, .word 4,
    .color 5 .penColor, .byte 6 .num, .deltaPoints 7 .numDeltaEntries, .endPoints]

def updateReadMembltOrder : List Step :=
  [.uint16 1 .cacheId, .coord 2 .nLeftRect, .coord 3 .nTopRect, .coord 4 .nWidth,
    .coord 5 .nHeight, .byte 6 .bRop, .coord 7 .nXSrc, .coord 8 .nYSrc, .uint16 9 .cacheIndex,
    .splitCacheId]

def updateReadMem3bltOrder : List Step :=
  [.uint16 1 .cacheId, .coord 2 .nLeftRect, .coord 3 .nTopRect, .coord 4 .nWidth,
    .coord 5 .nHeight, .byte 6 .bRop, .coord 7 .nXSrc, .coord 8 .nYSrc, .color 9 .backColor,
    .color 10 .foreColor] ++ updateReadBrush 10 ++ [.uint16 16 .cacheIndex, .splitCacheId]

def updateReadSaveBitmapOrder : List Step :=
  [.uint32 1 .savedBitmapPosition, .coord 2 .nLeftRect, .coord 3 .nTopRect, .coord 4 .nRightRect,
    .coord 5 .nBottomRect, .byte 6 .operation]

def updateReadGlyphIndexOrder : List Step :=
  [.byte 1 .cacheId, .byte 2 .flAccel, .byte 3 .ulCharInc, .byte 4 .fOpRedundant,
    .color 5 .backColor, .color 6 .foreColor, .int16 7 .bkLeft, .int16 8 .bkTop,
    .int16 9 .bkRight, .int16 10 .bkBottom, .int16 11 .opLeft, .int16 12 .opTop,
    .int16 13 .opRight, .int16 14 .opBottom] ++ updateReadBrush 14 ++
  [.int16 20 .x, .int16 21 .y, .glyphs 22]

def updateReadFastIndexOrder : List Step :=
  [.byte 1 .cacheId, .twoBytes 2 .ulCharInc .flAccel, .color 3 .backColor, .color 4 .foreColor,
    .coord 5 .bkLeft, .coord 6 .bkTop, .coord 7 .bkRight, .coord 8 .bkBottom, .coord 9 .opLeft,
    .coord 10 .opTop, .coord 11 .opRight, .coord 12 .opBottom, .coord 13 .x, .coord 14 .y,
    .glyphs 15]

def updateReadFastGlyphOrder : List Step :=
  [.byte 1 .cacheId, .checkCacheId, .twoBytes 2 .ulCharInc .flAccel, .color 3 .backColor,
    .color 4 .foreColor, .coord 5 .bkLeft, .coord 6 .bkTop, .coord 7 .bkRight, .coord 8 .bkBottom,
    .coord 9 .opLeft, .coord 10 .opTop, .coord 11 .opRight, .coord 12 .opBottom, .coord 13 .x,
    .coord 14 .y, .glyph 15]

def updateReadPolygonScOrder : List Step :=
  [.startPoints .numPoints, .coord 1 .xStart, .coord 2 .yStart, .byte 3 .bRop2,
    .byte 4 .fillMode, .color 5 .brushColor, .byte 6 .num, .deltaPoints 7 .numPoints, .endPoints]

def updateReadPolygonCbOrder : List Step :=
  [.startPoints .numPoints, .coord 1 .xStart, .coord 2 .yStart, .byte 3 .bRop2,
    .byte 4 .fillMode, .color 5 .backColor, .color 6 .foreColor] ++ updateReadBrush 6 ++
  [.byte 12 .num, .deltaPoints 13 .numPoints, .splitRop2, .endPoints]

def updateReadEllipseScOrder : List Step :=
  [.coord 1 .leftRect, .coord 2 .topRect, .coord 3 .rightRect, .coord 4 .bottomRect,
    .byte 5 .bRop2, .byte 6 .fillMode, .color 7 .color]

def updateReadEllipseCbOrder : List Step :=
  [.coord 1 .leftRect, .coord 2 .topRect, .coord 3 .rightRect, .coord 4 .bottomRect,
    .byte 5 .bRop2, .byte 6 .fillMode, .color 7 .backColor, .color 8 .foreColor] ++
  updateReadBrush 8

/-! ### Orders -/

/-- The types of orders that `read_primary_order` reads. -/
inductive OrderType
  | dstblt | patblt | scrblt | opaqueRect | drawNineGrid | multiDstblt | multiPatblt | multiScrblt
  | multiOpaqueRect | multiDrawNineGrid | lineTo | polyline | memblt | mem3blt | saveBitmap
  | glyphIndex | fastIndex | fastGlyph | polygonSc | polygonCb | ellipseSc | ellipseCb
deriving DecidableEq

def OrderType.decoder : OrderType → List Step
  | dstblt => updateReadDstbltOrder
  | patblt => updateReadPatbltOrder
  | scrblt => updateReadScrbltOrder
  | opaqueRect => updateReadOpaqueRectOrder
  | drawNineGrid => updateReadDrawNineGridOrder
  | multiDstblt => updateReadMultiDstbltOrder
  | multiPatblt => updateReadMultiPatbltOrder
  | multiScrblt => updateReadMultiScrbltOrder
  | multiOpaqueRect => updateReadMultiOpaqueRectOrder
  | multiDrawNineGrid => updateReadMultiDrawNineGridOrder
  | lineTo => updateReadLineToOrder
  | polyline => updateReadPolylineOrder
  | memblt => updateReadMembltOrder
  | mem3blt => updateReadMem3bltOrder
  | saveBitmap => updateReadSaveBitmapOrder
  | glyphIndex => updateReadGlyphIndexOrder
  | fastIndex => updateReadFastIndexOrder
  | fastGlyph => updateReadFastGlyphOrder
  | polygonSc => updateReadPolygonScOrder
  | polygonCb => updateReadPolygonCbOrder
  | ellipseSc => updateReadEllipseScOrder
  | ellipseCb => updateReadEllipseCbOrder

/-- What the decoders read of `ORDER_INFO`. -/
structure OrderInfo where
  orderType : OrderType
  fieldFlags : ℕ
  deltaCoordinates : Bool

/-- The structures of `rdpPrimaryUpdate`. -/
abbrev PrimaryUpdate : Type := OrderType → OrderStruct

/-- The structures that `calloc` gives. -/
def primaryUpdateNew : PrimaryUpdate := fun _ _ => 0

def readPrimaryOrder (orderInfo : OrderInfo) (primary : PrimaryUpdate) : Reader PrimaryUpdate := do
  let s ← decode (orderFieldFlagIsSet orderInfo.fieldFlags)
    (orderInfo.orderType.decoder.map (Step.part orderInfo.deltaCoordinates))
    (primary orderInfo.orderType)
  return Function.update primary orderInfo.orderType s

end FreeRDP.Orders
