import FreeRDP.Orders.Senders

/-!
# Alternate secondary drawing orders

`read_altsec_order` of `libfreerdp/core/orders.c` and the twelve readers that it calls.  A reader gives
the fields that it stores and the stream behind what it has consumed.  `FIELD_SKIP_BUFFER16` gets the
field for the length of a block by value, so that the field is not stored; four readers ignore what it
returns.
-/

namespace FreeRDP.Orders

open Wire

/-! ### Order types -/

def ORDER_TYPE_STREAM_BITMAP_FIRST : ℕ := 0x02
def ORDER_TYPE_STREAM_BITMAP_NEXT : ℕ := 0x03
def ORDER_TYPE_CREATE_NINE_GRID_BITMAP : ℕ := 0x04
def ORDER_TYPE_GDIPLUS_FIRST : ℕ := 0x05
def ORDER_TYPE_GDIPLUS_NEXT : ℕ := 0x06
def ORDER_TYPE_GDIPLUS_END : ℕ := 0x07
def ORDER_TYPE_GDIPLUS_CACHE_FIRST : ℕ := 0x08
def ORDER_TYPE_GDIPLUS_CACHE_NEXT : ℕ := 0x09
def ORDER_TYPE_GDIPLUS_CACHE_END : ℕ := 0x0A
def ORDER_TYPE_COMPDESK_FIRST : ℕ := 0x0C
def ORDER_TYPE_FRAME_MARKER : ℕ := 0x0D

/-! ### Orders -/

structure SwitchSurfaceOrder where
  bitmapId : ℕ

structure NineGridBitmapInfo where
  flFlags : ℕ
  ulLeftWidth : ℕ
  ulRightWidth : ℕ
  ulTopHeight : ℕ
  ulBottomHeight : ℕ
  crTransparent : ℕ

/-- The fields of a `CREATE_NINE_GRID_BITMAP_ORDER` that are read. -/
structure CreateNineGridBitmapOrder where
  bitmapBpp : ℕ
  bitmapId : ℕ
  nineGridInfo : NineGridBitmapInfo

structure FrameMarkerOrder where
  action : ℕ

/-- The fields of a `STREAM_BITMAP_FIRST_ORDER` that are stored. -/
structure StreamBitmapFirstOrder where
  bitmapFlags : ℕ
  bitmapBpp : ℕ
  bitmapType : ℕ
  bitmapWidth : ℕ
  bitmapHeight : ℕ
  bitmapSize : ℕ

/-- The fields of a `STREAM_BITMAP_NEXT_ORDER` that are stored. -/
structure StreamBitmapNextOrder where
  bitmapFlags : ℕ
  bitmapType : ℕ

/-- `DRAW_GDIPLUS_FIRST_ORDER` and `DRAW_GDIPLUS_END_ORDER`. -/
structure DrawGdiplusOrder where
  cbSize : ℕ
  cbTotalSize : ℕ
  cbTotalEmfSize : ℕ

/-- `DRAW_GDIPLUS_CACHE_FIRST_ORDER` and `DRAW_GDIPLUS_CACHE_END_ORDER`. -/
structure DrawGdiplusCacheOrder where
  flags : ℕ
  cacheType : ℕ
  cacheIndex : ℕ
  cbSize : ℕ
  cbTotalSize : ℕ

/-- The fields of a `DRAW_GDIPLUS_CACHE_NEXT_ORDER` that are stored. -/
structure DrawGdiplusCacheNextOrder where
  flags : ℕ
  cacheType : ℕ
  cacheIndex : ℕ

/-- An alternate secondary drawing order.  Of a `DRAW_GDIPLUS_NEXT_ORDER` nothing is stored. -/
inductive AltsecOrder
  | createOffscreenBitmap (order : CreateOffscreenBitmapOrder)
  | switchSurface (order : SwitchSurfaceOrder)
  | createNineGridBitmap (order : CreateNineGridBitmapOrder)
  | frameMarker (order : FrameMarkerOrder)
  | streamBitmapFirst (order : StreamBitmapFirstOrder)
  | streamBitmapNext (order : StreamBitmapNextOrder)
  | drawGdiplusFirst (order : DrawGdiplusOrder)
  | drawGdiplusNext
  | drawGdiplusEnd (order : DrawGdiplusOrder)
  | drawGdiplusCacheFirst (order : DrawGdiplusCacheOrder)
  | drawGdiplusCacheNext (order : DrawGdiplusCacheNextOrder)
  | drawGdiplusCacheEnd (order : DrawGdiplusCacheOrder)

/-! ### Readers -/

/-- `FIELD_SKIP_BUFFER16`: what it returns, and the stream behind what it has consumed. -/
def fieldSkipBuffer16 : Reader Bool := fun s =>
  match u16le s with
  | none => some (false, s)
  | some (targetLen, s) =>
    if targetLen ≤ s.length then some (true, s.drop targetLen) else some (false, s)

/-- `update_read_create_offscreen_bitmap_order`, where `sIndices` indices have been allocated before and
`granted` says whether `realloc` succeeds. -/
def updateReadCreateOffscreenBitmapOrder (sIndices : ℕ) (granted : Bool) :
    Reader CreateOffscreenBitmapOrder := do
  need 6
  let flags ← u16le
  let cx ← u16le
  let cy ← u16le
  if flags &&& 0x8000 ≠ 0 then do
    need 2
    let cIndices ← u16le
    check (cIndices > sIndices → granted)
    need (2 * cIndices)
    let indices ← many u16le cIndices
    return { id := flags &&& 0x7FFF, cx, cy, indices }
  else return { id := flags &&& 0x7FFF, cx, cy, indices := [] }

def updateReadSwitchSurfaceOrder : Reader SwitchSurfaceOrder := do
  need 2
  let bitmapId ← u16le
  return { bitmapId }

def updateReadCreateNineGridBitmapOrder : Reader CreateNineGridBitmapOrder := do
  need 19
  let bitmapBpp ← u8
  check (1 ≤ bitmapBpp ∧ bitmapBpp ≤ 32)
  let bitmapId ← u16le
  let flFlags ← u32le
  let ulLeftWidth ← u16le
  let ulRightWidth ← u16le
  let ulTopHeight ← u16le
  let ulBottomHeight ← u16le
  -- there are four bytes left, so that what `update_read_colorref` returns need not be looked at
  let crTransparent ← updateReadColorQuad
  return { bitmapBpp, bitmapId, nineGridInfo :=
    { flFlags, ulLeftWidth, ulRightWidth, ulTopHeight, ulBottomHeight, crTransparent } }

def updateReadFrameMarkerOrder : Reader FrameMarkerOrder := do
  need 4
  let action ← u32le
  return { action }

def STREAM_BITMAP_V2 : ℕ := 0x04

/-- The field `bitmapSize`. -/
def readBitmapSize (bitmapFlags : ℕ) : Reader ℕ :=
  if bitmapFlags &&& STREAM_BITMAP_V2 ≠ 0 then do
    need 4
    u32le
  else do
    need 2
    u16le

def updateReadStreamBitmapFirstOrder : Reader StreamBitmapFirstOrder := do
  need 10
  let bitmapFlags ← u8
  let bitmapBpp ← u8
  check (1 ≤ bitmapBpp ∧ bitmapBpp ≤ 32)
  let bitmapType ← u16le
  let bitmapWidth ← u16le
  let bitmapHeight ← u16le
  let bitmapSize ← readBitmapSize bitmapFlags
  let _ ← fieldSkipBuffer16
  return { bitmapFlags, bitmapBpp, bitmapType, bitmapWidth, bitmapHeight, bitmapSize }

def updateReadStreamBitmapNextOrder : Reader StreamBitmapNextOrder := do
  need 5
  let bitmapFlags ← u8
  let bitmapType ← u16le
  let _ ← fieldSkipBuffer16
  return { bitmapFlags, bitmapType }

/-- What the readers of first and of last orders do. -/
def readDrawGdiplus : Reader DrawGdiplusOrder := do
  need 11
  seek 1
  let cbSize ← u16le
  let cbTotalSize ← u32le
  let cbTotalEmfSize ← u32le
  seek cbSize
  return { cbSize, cbTotalSize, cbTotalEmfSize }

def updateReadDrawGdiplusFirstOrder : Reader DrawGdiplusOrder := readDrawGdiplus

def updateReadDrawGdiplusNextOrder : Reader Unit := do
  need 3
  seek 1
  let _ ← fieldSkipBuffer16
  return ()

def updateReadDrawGdiplusEndOrder : Reader DrawGdiplusOrder := readDrawGdiplus

/-- What the readers of first and of last orders for the cache do. -/
def readDrawGdiplusCache : Reader DrawGdiplusCacheOrder := do
  need 11
  let flags ← u8
  let cacheType ← u16le
  let cacheIndex ← u16le
  let cbSize ← u16le
  let cbTotalSize ← u32le
  seek cbSize
  return { flags, cacheType, cacheIndex, cbSize, cbTotalSize }

def updateReadDrawGdiplusCacheFirstOrder : Reader DrawGdiplusCacheOrder := readDrawGdiplusCache

def updateReadDrawGdiplusCacheNextOrder : Reader DrawGdiplusCacheNextOrder := do
  need 7
  let flags ← u8
  let cacheType ← u16le
  let cacheIndex ← u16le
  let _ ← fieldSkipBuffer16
  return { flags, cacheType, cacheIndex }

def updateReadDrawGdiplusCacheEndOrder : Reader DrawGdiplusCacheOrder := readDrawGdiplusCache

/-- `read_altsec_order`: the order that has been stored, if there is a reader for the type. -/
def readAltsecOrder (sIndices : ℕ) (granted : Bool) (orderType : ℕ) : Reader (Option AltsecOrder) :=
  if orderType = ORDER_TYPE_CREATE_OFFSCREEN_BITMAP then do
    let order ← updateReadCreateOffscreenBitmapOrder sIndices granted
    return some (.createOffscreenBitmap order)
  else if orderType = ORDER_TYPE_SWITCH_SURFACE then do
    let order ← updateReadSwitchSurfaceOrder
    return some (.switchSurface order)
  else if orderType = ORDER_TYPE_CREATE_NINE_GRID_BITMAP then do
    let order ← updateReadCreateNineGridBitmapOrder
    return some (.createNineGridBitmap order)
  else if orderType = ORDER_TYPE_FRAME_MARKER then do
    let order ← updateReadFrameMarkerOrder
    return some (.frameMarker order)
  else if orderType = ORDER_TYPE_STREAM_BITMAP_FIRST then do
    let order ← updateReadStreamBitmapFirstOrder
    return some (.streamBitmapFirst order)
  else if orderType = ORDER_TYPE_STREAM_BITMAP_NEXT then do
    let order ← updateReadStreamBitmapNextOrder
    return some (.streamBitmapNext order)
  else if orderType = ORDER_TYPE_GDIPLUS_FIRST then do
    let order ← updateReadDrawGdiplusFirstOrder
    return some (.drawGdiplusFirst order)
  else if orderType = ORDER_TYPE_GDIPLUS_NEXT then do
    updateReadDrawGdiplusNextOrder
    return some .drawGdiplusNext
  else if orderType = ORDER_TYPE_GDIPLUS_END then do
    let order ← updateReadDrawGdiplusEndOrder
    return some (.drawGdiplusEnd order)
  else if orderType = ORDER_TYPE_GDIPLUS_CACHE_FIRST then do
    let order ← updateReadDrawGdiplusCacheFirstOrder
    return some (.drawGdiplusCacheFirst order)
  else if orderType = ORDER_TYPE_GDIPLUS_CACHE_NEXT then do
    let order ← updateReadDrawGdiplusCacheNextOrder
    return some (.drawGdiplusCacheNext order)
  else if orderType = ORDER_TYPE_GDIPLUS_CACHE_END then do
    let order ← updateReadDrawGdiplusCacheEndOrder
    return some (.drawGdiplusCacheEnd order)
  -- `ORDER_TYPE_WINDOW` is handled elsewhere
  else if orderType = ORDER_TYPE_WINDOW ∨ orderType = ORDER_TYPE_COMPDESK_FIRST then return none
  else fun _ => none

end FreeRDP.Orders
