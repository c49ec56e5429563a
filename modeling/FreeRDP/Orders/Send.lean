import FreeRDP.Orders.Secondary

/-!
# Headers of primary orders

What `libfreerdp/core/update.c` puts in front of a primary order, and how `libfreerdp/core/orders.c`
takes it off again.  The server sends those of the four bounds that have changed since
`update_set_bounds` was called before; the client keeps the bounds that it has received.  Callbacks
succeed.
-/

namespace FreeRDP.Orders

open Wire

def ORDER_BOUNDS : ℕ := 0x04
def ORDER_TYPE_CHANGE : ℕ := 0x08
def ORDER_DELTA_COORDINATES : ℕ := 0x10
def ORDER_ZERO_BOUNDS_DELTAS : ℕ := 0x20
def ORDER_ZERO_FIELD_BYTE_BIT0 : ℕ := 0x40
def ORDER_ZERO_FIELD_BYTE_BIT1 : ℕ := 0x80

def BOUND_LEFT : ℕ := 0x01
def BOUND_TOP : ℕ := 0x02
def BOUND_RIGHT : ℕ := 0x04
def BOUND_BOTTOM : ℕ := 0x08
def BOUND_DELTA_LEFT : ℕ := 0x10
def BOUND_DELTA_TOP : ℕ := 0x20
def BOUND_DELTA_RIGHT : ℕ := 0x40
def BOUND_DELTA_BOTTOM : ℕ := 0x80

/-! ### Types -/

/-- The `ORDER_TYPE_*` constants of `orders.h`. -/
def OrderType.number : OrderType → ℕ
  | .dstblt => 0x00
  | .patblt => 0x01
  | .scrblt => 0x02
  | .drawNineGrid => 0x07
  | .multiDrawNineGrid => 0x08
  | .lineTo => 0x09
  | .opaqueRect => 0x0A
  | .saveBitmap => 0x0B
  | .memblt => 0x0D
  | .mem3blt => 0x0E
  | .multiDstblt => 0x0F
  | .multiPatblt => 0x10
  | .multiScrblt => 0x11
  | .multiOpaqueRect => 0x12
  | .fastIndex => 0x13
  | .polygonSc => 0x14
  | .polygonCb => 0x15
  | .polyline => 0x16
  | .fastGlyph => 0x18
  | .ellipseSc => 0x19
  | .ellipseCb => 0x1A
  | .glyphIndex => 0x1B

/-- The types in the order of their numbers; the other numbers have no case of their own. -/
def orderTypeOf : ℕ → Option OrderType
  | 0x00 => some .dstblt
  | 0x01 => some .patblt
  | 0x02 => some .scrblt
  | 0x07 => some .drawNineGrid
  | 0x08 => some .multiDrawNineGrid
  | 0x09 => some .lineTo
  | 0x0A => some .opaqueRect
  | 0x0B => some .saveBitmap
  | 0x0D => some .memblt
  | 0x0E => some .mem3blt
  | 0x0F => some .multiDstblt
  | 0x10 => some .multiPatblt
  | 0x11 => some .multiScrblt
  | 0x12 => some .multiOpaqueRect
  | 0x13 => some .fastIndex
  | 0x14 => some .polygonSc
  | 0x15 => some .polygonCb
  | 0x16 => some .polyline
  | 0x18 => some .fastGlyph
  | 0x19 => some .ellipseSc
  | 0x1A => some .ellipseCb
  | 0x1B => some .glyphIndex
  | _ => none

def getPrimaryDrawingOrderFieldBytes : ℕ → Option ℕ
  | 0 => some 1
  | 1 => some 2
  | 2 => some 1
  | 3 | 4 | 5 | 6 => some 0
  | 7 => some 1
  | 8 => some 1
  | 9 => some 2
  | 10 => some 1
  | 11 => some 1
  | 12 => some 0
  | 13 => some 2
  | 14 => some 3
  | 15 => some 1
  | 16 => some 2
  | 17 => some 2
  | 18 => some 2
  | 19 => some 2
  | 20 => some 1
  | 21 => some 2
  | 22 => some 1
  | 23 => some 0
  | 24 => some 2
  | 25 => some 1
  | 26 => some 2
  | 27 => some 3
  | _ => none

/-! ### Flags of fields -/

def updateWriteFieldFlags (fieldFlags fieldBytes : ℕ) : List UInt8 :=
  if fieldBytes = 1 then byte (fieldFlags &&& 0xFF)
  else if fieldBytes = 2 then byte (fieldFlags &&& 0xFF) ++ byte (fieldFlags >>> 8 &&& 0xFF)
  else if fieldBytes = 3 then
    byte (fieldFlags &&& 0xFF) ++ (byte (fieldFlags >>> 8 &&& 0xFF) ++ byte (fieldFlags >>> 16 &&& 0xFF))
  else []

/-- The rounds from `i` on of the loop of `update_read_field_flags`. -/
def readFieldFlags (i : ℕ) : ℕ → Reader ℕ
  | 0 => return 0
  | n + 1 => do
    let b ← u8
    let fieldFlags ← readFieldFlags (i + 1) n
    return b <<< (i * 8) ||| fieldFlags

/-- The number of bytes that the control flags leave; the number is a `BYTE`. -/
def fieldBytesOf (flags fieldBytes : ℕ) : ℕ :=
  let fieldBytes := if flags &&& ORDER_ZERO_FIELD_BYTE_BIT0 ≠ 0 then (fieldBytes + 0xFF) % 2 ^ 8
    else fieldBytes
  if flags &&& ORDER_ZERO_FIELD_BYTE_BIT1 ≠ 0 then if fieldBytes > 1 then fieldBytes - 2 else 0
  else fieldBytes

def updateReadFieldFlags (flags fieldBytes : ℕ) : Reader ℕ := do
  need (fieldBytesOf flags fieldBytes)
  readFieldFlags 0 (fieldBytesOf flags fieldBytes)

/-! ### Bounds -/

/-- `rdpBounds`. -/
@[ext] structure Bounds where
  left : ℤ
  top : ℤ
  right : ℤ
  bottom : ℤ
deriving DecidableEq, Repr

/-- The bounds after `ZeroMemory`. -/
def Bounds.zero : Bounds := ⟨0, 0, 0, 0⟩

def updateWriteCoord (coord : ℤ) : List UInt8 := le16 (coord % 2 ^ 16).toNat

/-- `ORDER_INFO`, as the server fills it in. -/
structure SendOrderInfo where
  controlFlags : ℕ
  orderType : ℕ
  fieldFlags : ℕ
  boundsFlags : ℕ
  bounds : Bounds

/-- One of the four bounds, if its flag is set.  The flags for deltas write nothing. -/
def writeBound (boundsFlags flag : ℕ) (coord : ℤ) : List UInt8 :=
  if boundsFlags &&& flag ≠ 0 then updateWriteCoord coord else []

def updateWriteBounds (orderInfo : SendOrderInfo) : List UInt8 :=
  if orderInfo.controlFlags &&& ORDER_BOUNDS = 0 then []
  else if orderInfo.controlFlags &&& ORDER_ZERO_BOUNDS_DELTAS ≠ 0 then []
  else byte orderInfo.boundsFlags ++ (writeBound orderInfo.boundsFlags BOUND_LEFT orderInfo.bounds.left ++
    (writeBound orderInfo.boundsFlags BOUND_TOP orderInfo.bounds.top ++
    (writeBound orderInfo.boundsFlags BOUND_RIGHT orderInfo.bounds.right ++
    writeBound orderInfo.boundsFlags BOUND_BOTTOM orderInfo.bounds.bottom)))

/-- One of the four bounds, which has been `coord`. -/
def readBound (flags flag delta : ℕ) (coord : ℤ) : Reader ℤ :=
  if flags &&& flag ≠ 0 then updateReadCoord coord false
  else if flags &&& delta ≠ 0 then updateReadCoord coord true
  else return coord

def updateReadBounds (bounds : Bounds) : Reader Bounds := do
  need 1
  let flags ← u8
  let left ← readBound flags BOUND_LEFT BOUND_DELTA_LEFT bounds.left
  let top ← readBound flags BOUND_TOP BOUND_DELTA_TOP bounds.top
  let right ← readBound flags BOUND_RIGHT BOUND_DELTA_RIGHT bounds.right
  let bottom ← readBound flags BOUND_BOTTOM BOUND_DELTA_BOTTOM bounds.bottom
  return { left, top, right, bottom }

structure ServerBounds where
  previousBounds : Bounds
  currentBounds : Bounds
deriving DecidableEq, Repr

def updateSetBounds (update : ServerBounds) (bounds : Option Bounds) : ServerBounds where
  previousBounds := update.currentBounds
  currentBounds := bounds.getD Bounds.zero

/-- `update_prepare_bounds`: the control flags, the flags of the bounds, and the length. -/
def updatePrepareBounds (update : ServerBounds) (controlFlags : ℕ) : ℕ × ℕ × ℕ :=
  let previous := update.previousBounds
  let current := update.currentBounds
  if current = Bounds.zero then (controlFlags, 0, 0)
  else if previous = current then (controlFlags ||| ORDER_BOUNDS ||| ORDER_ZERO_BOUNDS_DELTAS, 0, 0)
  else
    let flag (c : Prop) [Decidable c] (flag : ℕ) : ℕ := if c then flag else 0
    let length (c : Prop) [Decidable c] : ℕ := if c then 2 else 0
    (controlFlags ||| ORDER_BOUNDS,
      flag (previous.left ≠ current.left) BOUND_LEFT ||| flag (previous.top ≠ current.top) BOUND_TOP |||
        flag (previous.right ≠ current.right) BOUND_RIGHT ||| flag
          (previous.bottom ≠ current.bottom) BOUND_BOTTOM,
      1 + length (previous.left ≠ current.left) + length (previous.top ≠ current.top) +
        length (previous.right ≠ current.right) + length (previous.bottom ≠ current.bottom))

/-! ### Order information -/

/-- `update_prepare_order_info`.  Bounds without a flag are not written. -/
def updatePrepareOrderInfo (update : ServerBounds) (orderType : ℕ) : SendOrderInfo × ℕ :=
  let (controlFlags, boundsFlags, length) := updatePrepareBounds update
    (ORDER_STANDARD ||| ORDER_TYPE_CHANGE)
  ({ controlFlags, orderType, fieldFlags := 0, boundsFlags, bounds := update.currentBounds },
    2 + (getPrimaryDrawingOrderFieldBytes orderType).getD 0 + length)

def updateWriteOrderInfo (orderInfo : SendOrderInfo) : List UInt8 :=
  byte orderInfo.controlFlags ++
  ((if orderInfo.controlFlags &&& ORDER_TYPE_CHANGE ≠ 0 then byte orderInfo.orderType else []) ++
  (updateWriteFieldFlags orderInfo.fieldFlags
    ((getPrimaryDrawingOrderFieldBytes orderInfo.orderType).getD 0) ++
  updateWriteBounds orderInfo))

/-! ### Receiving -/

/-- The settings that decide which primary orders a client takes. -/
structure PrimarySettings where
  orderSupport : ℕ → Bool
  allowUnanouncedOrdersFromServer : Bool

/-- The `NEG_*_INDEX` constants that `check_primary_order_supported` looks up for a type. -/
def OrderType.negIndices : OrderType → List ℕ
  | .dstblt => [0x00]
  | .patblt | .opaqueRect => [0x0A, 0x01]
  | .scrblt => [0x02]
  | .memblt => [0x03]
  | .mem3blt => [0x04]
  | .drawNineGrid => [0x07]
  | .lineTo => [0x08]
  | .multiDrawNineGrid => [0x09]
  | .saveBitmap => [0x0B]
  | .multiDstblt => [0x0F]
  | .multiPatblt => [0x10]
  -- the index is that of `MULTI_DSTBLT`
  | .multiScrblt => [0x0F]
  | .multiOpaqueRect => [0x12]
  | .fastIndex => [0x13]
  | .polygonSc => [0x14]
  | .polygonCb => [0x15]
  | .polyline => [0x16]
  | .fastGlyph => [0x18]
  | .ellipseSc => [0x19]
  | .ellipseCb => [0x1A]
  | .glyphIndex => [0x1B]

def checkPrimaryOrderSupported (settings : PrimarySettings) (orderType : ℕ) : Bool :=
  (orderTypeOf orderType).any (fun type => type.negIndices.any settings.orderSupport) ||
    settings.allowUnanouncedOrdersFromServer

/-- What a client keeps from primary order to primary order. -/
structure PrimaryClient where
  orderType : ℕ
  bounds : Bounds
  primary : PrimaryUpdate

/-- The state of a client that has received no order. -/
def PrimaryClient.reset : PrimaryClient := ⟨0, Bounds.zero, primaryUpdateNew⟩

/-- `update_recv_primary_order`; with the state of the client, the bounds that `SetBounds` is called
with before the order is drawn. -/
def updateRecvPrimaryOrder (settings : PrimarySettings) (client : PrimaryClient) (flags : ℕ) :
    Reader (PrimaryClient × Option Bounds) := do
  let orderType ← (if flags &&& ORDER_TYPE_CHANGE ≠ 0 then do
      need 1
      u8
    else return client.orderType : Reader ℕ)
  check (checkPrimaryOrderSupported settings orderType)
  let fieldBytes ← (fun s => (getPrimaryDrawingOrderFieldBytes orderType).map (·, s) : Reader ℕ)
  let fieldFlags ← updateReadFieldFlags flags fieldBytes
  let bounds ← (if flags &&& ORDER_BOUNDS ≠ 0 ∧ flags &&& ORDER_ZERO_BOUNDS_DELTAS = 0 then
      updateReadBounds client.bounds
    else return client.bounds : Reader Bounds)
  let primary ← (match orderTypeOf orderType with
    | some type => readPrimaryOrder ⟨type, fieldFlags, flags &&& ORDER_DELTA_COORDINATES ≠ 0⟩ client.primary
    | none => return client.primary : Reader PrimaryUpdate)
  return (⟨orderType, bounds, primary⟩, if flags &&& ORDER_BOUNDS ≠ 0 then some bounds else none)

/-- `update_recv_order`; `other` stands for the orders that are not primary. -/
def updateRecvOrder (settings : PrimarySettings) (client : PrimaryClient)
    (other : ℕ → Reader (PrimaryClient × Option Bounds)) : Reader (PrimaryClient × Option Bounds) := do
  need 1
  let controlFlags ← u8
  if controlFlags &&& ORDER_STANDARD = 0 then other controlFlags
  else if controlFlags &&& ORDER_SECONDARY ≠ 0 then other controlFlags
  else updateRecvPrimaryOrder settings client controlFlags

end FreeRDP.Orders

/-!
## Sending primary orders

The encoders of `libfreerdp/core/orders.c` for primary orders, and the functions of
`libfreerdp/core/update.c` that call them.  As a decoder is the list of its reads, an encoder is the
list of its writes.  The header is written behind the order, into room that has been left for it.  A
sender gives the bytes that it puts behind the orders of the update; the stream has room for them.
-/

namespace FreeRDP.Orders

open Wire Retain

/-- `Stream_Write_UINT8` of an integer. -/
def writeUint8 (value : ℤ) : List UInt8 := byte (value % 2 ^ 8).toNat

/-- `Stream_Write_UINT16` of an integer. -/
def writeUint16 (value : ℤ) : List UInt8 := le16 (value % 2 ^ 16).toNat

def updateWriteColor (color : ℤ) : List UInt8 :=
  byte (color.toNat &&& 0xFF) ++ (byte (color.toNat >>> 8 &&& 0xFF) ++ byte (color.toNat >>> 16 &&& 0xFF))

/-! ### Brushes -/

def isCachedBrush (s : OrderStruct) : Bool := (s (.brushStyle, 0)).toNat &&& CACHED_BRUSH ≠ 0

/-- `update_write_brush` takes the style of the brush. -/
def acceptsBrush (s : OrderStruct) : Bool :=
  !isCachedBrush s || (getBmfBpp (s (.brushStyle, 0)).toNat).isSome

/-- The brush behind `update_write_brush`. -/
def writtenBrush (s : OrderStruct) : OrderStruct :=
  let cached := if isCachedBrush s then
      write [((.brushHatch, 0), s (.brushIndex, 0)),
        ((.brushBpp, 0), ((getBmfBpp (s (.brushStyle, 0)).toNat).getD 0 : ℤ))] s
    else s
  write [((.brushData, 0), 1), ((.brushP8x8, 0), cached (.brushHatch, 0))] cached

/-- `update_write_brush`, and whether it returns `TRUE`. -/
def updateWriteBrush (s : OrderStruct) (fieldFlags : ℕ) : List UInt8 × Bool :=
  let field (flag : ℕ) (bs : List UInt8) : List UInt8 := if fieldFlags &&& flag ≠ 0 then bs else []
  let head := field 0x01 (writeUint8 (s (.brushX, 0))) ++ (field 0x02 (writeUint8 (s (.brushY, 0))) ++
    field 0x04 (writeUint8 (s (.brushStyle, 0))))
  let hatch := if isCachedBrush s then s (.brushIndex, 0) else s (.brushHatch, 0)
  if acceptsBrush s then
    -- `data` points to `p8x8`
    (head ++ (field 0x08 (writeUint8 hatch) ++ field 0x10 (writeUint8 (s (.brushP8x8, 7)) ++
      (writeUint8 (s (.brushP8x8, 6)) ++
        (writeUint8 (s (.brushP8x8, 5)) ++ (writeUint8 (s (.brushP8x8, 4)) ++
      (writeUint8 (s (.brushP8x8, 3)) ++ (writeUint8 (s (.brushP8x8, 2)) ++
      writeUint8 (s (.brushP8x8, 1))))))))), true)
  else (head, false)

/-! ### Steps of encoders -/

/-- The writes of the encoders; `n` is the number of a field. -/
inductive WriteStep
  /-- `update_write_coord` -/
  | coord (n : ℕ) (m : Member)
  /-- `Stream_Write_UINT8` -/
  | byte (n : ℕ) (m : Member)
  /-- `Stream_Write_UINT16` of a `UINT32` -/
  | uint16 (n : ℕ) (m : Member)
  /-- `Stream_Write_UINT16` of an `INT32` -/
  | int16 (n : ℕ) (m : Member)
  /-- `update_write_color` -/
  | color (n : ℕ) (m : Member)
  /-- a byte of `color`, which is in `mask` -/
  | colorByte (n mask shift : ℕ)
  /-- `cacheId` and `colorIndex` in two bytes -/
  | cacheId (n : ℕ)
  /-- `update_write_brush`, with `fieldFlags >> first` -/
  | brush (first : ℕ)
  /-- `cbData` and as many bytes of glyphs -/
  | glyphs (n : ℕ)
deriving DecidableEq

/-- The fields that are announced before the write. -/
def WriteStep.fields : WriteStep → List ℕ
  | coord n _ | byte n _ | uint16 n _ | int16 n _ | color n _ | colorByte n _ _ | cacheId n | glyphs
      n => [n]
  | brush first => [first + 1, first + 2, first + 3, first + 4, first + 5]

def setOrderFieldFlags (fieldFlags : ℕ) (fields : List ℕ) : ℕ :=
  fields.foldl (fun flags n => flags ||| 1 <<< (n - 1)) fieldFlags

/-- What a step writes, and whether it returns `TRUE`; its flags are in `fieldFlags`. -/
def WriteStep.write (s : OrderStruct) (fieldFlags : ℕ) : WriteStep → List UInt8 × Bool
  | coord _ m => (updateWriteCoord (s (m, 0)), true)
  | byte _ m => (writeUint8 (s (m, 0)), true)
  | uint16 _ m | int16 _ m => (writeUint16 (s (m, 0)), true)
  | color _ m => (updateWriteColor (s (m, 0)), true)
  | colorByte _ mask shift => (Wire.byte (((s (.color, 0)).toNat &&& mask) >>> shift), true)
  | cacheId _ => (le16 ((s (.cacheId, 0)).toNat &&& 0xFF |||
      ((s (.colorIndex, 0)).toNat &&& 0xFF) <<< 8), true)
  | brush first => updateWriteBrush s (fieldFlags >>> first % 2 ^ 8)
  | glyphs _ => (writeUint8 (s (.cbData, 0)) ++
      (List.range (s (.cbData, 0)).toNat).flatMap fun i => writeUint8 (s (.data, i)), true)

structure Encoded where
  fieldFlags : ℕ
  bytes : List UInt8
  /-- `update_write_brush` has returned `TRUE`; the encoders do not look at that. -/
  ok : Bool

def Encoded.step (s : OrderStruct) (w : Encoded) (step : WriteStep) : Encoded :=
  let fieldFlags := setOrderFieldFlags w.fieldFlags step.fields
  let (bytes, ok) := step.write s fieldFlags
  { fieldFlags, bytes := w.bytes ++ bytes, ok := w.ok && ok }

def encode (s : OrderStruct) (steps : List WriteStep) : Encoded :=
  steps.foldl (Encoded.step s) ⟨0, [], true⟩

/-! ### Encoders -/

def updateWriteDstbltOrder : List WriteStep :=
  [.coord 1 .nLeftRect, .coord 2 .nTopRect, .coord 3 .nWidth, .coord 4 .nHeight, .byte 5 .bRop]

def updateWritePatbltOrder : List WriteStep :=
  [.coord 1 .nLeftRect, .coord 2 .nTopRect, .coord 3 .nWidth, .coord 4 .nHeight, .byte 5 .bRop,
    .color 6 .backColor, .color 7 .foreColor, .brush 7]

def updateWriteScrbltOrder : List WriteStep :=
  [.coord 1 .nLeftRect, .coord 2 .nTopRect, .coord 3 .nWidth, .coord 4 .nHeight, .byte 5 .bRop,
    .coord 6 .nXSrc, .coord 7 .nYSrc]

def updateWriteOpaqueRectOrder : List WriteStep :=
  [.coord 1 .nLeftRect, .coord 2 .nTopRect, .coord 3 .nWidth, .coord 4 .nHeight, .colorByte 5 0x000000FF 0,
    .colorByte 6 0x0000FF00 8, .colorByte 7 0x00FF0000 16]

def updateWriteLineToOrder : List WriteStep :=
  [.uint16 1 .backMode, .coord 2 .nXStart, .coord 3 .nYStart, .coord 4 .nXEnd, .coord 5 .nYEnd,
    .color 6 .backColor, .byte 7 .bRop2, .byte 8 .penStyle, .byte 9 .penWidth, .color 10 .penColor]

def updateWriteMembltOrder : List WriteStep :=
  [.cacheId 1, .coord 2 .nLeftRect, .coord 3 .nTopRect, .coord 4 .nWidth, .coord 5 .nHeight, .byte 6 .bRop,
    .coord 7 .nXSrc, .coord 8 .nYSrc, .uint16 9 .cacheIndex]

def updateWriteGlyphIndexOrder : List WriteStep :=
  [.byte 1 .cacheId, .byte 2 .flAccel, .byte 3 .ulCharInc, .byte 4 .fOpRedundant, .color 5 .backColor,
    .color 6 .foreColor, .int16 7 .bkLeft, .int16 8 .bkTop, .int16 9 .bkRight, .int16 10 .bkBottom,
      .int16 11 .opLeft,
    .int16 12 .opTop, .int16 13 .opRight, .int16 14 .opBottom, .brush 14, .int16 20 .x,
      .int16 21 .y, .glyphs 22]

/-! ### Senders -/

/-- The types of orders that the server sends. -/
inductive SendType
  | dstblt | patblt | scrblt | opaqueRect | lineTo | memblt | glyphIndex
deriving DecidableEq

def SendType.orderType : SendType → OrderType
  | dstblt => .dstblt
  | patblt => .patblt
  | scrblt => .scrblt
  | opaqueRect => .opaqueRect
  | lineTo => .lineTo
  | memblt => .memblt
  | glyphIndex => .glyphIndex

def SendType.encoder : SendType → List WriteStep
  | dstblt => updateWriteDstbltOrder
  | patblt => updateWritePatbltOrder
  | scrblt => updateWriteScrbltOrder
  | opaqueRect => updateWriteOpaqueRectOrder
  | lineTo => updateWriteLineToOrder
  | memblt => updateWriteMembltOrder
  | glyphIndex => updateWriteGlyphIndexOrder

/-- Bytes that are written over those at a position. -/
def overwrite (stream : List UInt8) (position : ℕ) (bs : List UInt8) : List UInt8 :=
  stream.take position ++ bs ++ stream.drop (position + bs.length)

/-- `update_send_dstblt` and those for the other types, behind the bytes in `stream`.  The bytes that
are skipped are zeros here. -/
def updateSendPrimary (update : ServerBounds) (type : SendType) (s : OrderStruct)
    (stream : List UInt8) : List UInt8 :=
  let (orderInfo, headerLength) := updatePrepareOrderInfo update type.orderType.number
  let encoded := encode s type.encoder
  overwrite (stream ++ List.replicate headerLength 0 ++ encoded.bytes) stream.length
    (updateWriteOrderInfo { orderInfo with fieldFlags := encoded.fieldFlags })

end FreeRDP.Orders
