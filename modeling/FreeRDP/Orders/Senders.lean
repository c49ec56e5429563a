import FreeRDP.Orders.Update

/-!
# The senders of orders

The functions `update_send_*` of `libfreerdp/core/update.c` that put an order into the stream of an
update, and the steps of the functions `update_write_*` of `libfreerdp/core/orders.c` that they call.
The sizes are those of an `int`, and the arrays of an order are as long as their counts say.
-/

namespace FreeRDP.Orders

open Wire

/-! ### Primary orders -/

/-- `update_approximate_dstblt_order` and those for the other types. -/
def SendType.approximate : SendType → ℕ
  | dstblt | patblt | scrblt | opaqueRect | lineTo => 32
  | memblt | glyphIndex => 64

theorem replicate_updatePrepareOrderInfo_ne (update : ServerBounds) (orderType : ℕ) :
    List.replicate (updatePrepareOrderInfo update orderType).2 (0 : UInt8) ≠ [] := by
  have h : (updatePrepareOrderInfo update orderType).2 ≠ 0 := by
    simp only [updatePrepareOrderInfo]
    omega
  simpa [List.replicate_eq_nil_iff] using h

/-- `update_send_dstblt` and those for the other types.  Only that one looks at what its writer returns. -/
def Sender.primary (update : ServerBounds) (type : SendType) (s : OrderStruct) : Sender where
  size := (updatePrepareOrderInfo update type.orderType.number).2 + type.approximate
  room := some (updatePrepareOrderInfo update type.orderType.number).2
  first := List.replicate (updatePrepareOrderInfo update type.orderType.number).2 0
  steps := [.ensure type.approximate, .write (some (encode s type.encoder).bytes)]
  checked := type = .dstblt
  complete := (encode s type.encoder).ok
  header ok _ := updateWriteOrderInfo { (updatePrepareOrderInfo update type.orderType.number).1 with
    fieldFlags := if ok then (encode s type.encoder).fieldFlags else 0 }
  unopened := type = .scrblt
  first_ne := replicate_updatePrepareOrderInfo_ne update type.orderType.number

/-! ### Secondary orders -/

/-- The header of a secondary order of `length` bytes. -/
def secondaryHeader (orderType extraFlags length : ℕ) : List UInt8 :=
  byte (ORDER_STANDARD ||| ORDER_SECONDARY) ++ (writeInt16 ((length : ℤ) - 13) ++ (le16 extraFlags ++
    byte orderType))

/-- The functions that send secondary orders; `inf` is the approximate size of the order. -/
def Sender.secondary (orderType extraFlags inf : ℕ) (steps : List WriterStep) : Sender where
  size := 6 + inf
  room := some 6
  first := List.replicate 6 0
  steps := steps
  checked := true
  complete := true
  header _ length := secondaryHeader orderType extraFlags length
  unopened := false
  first_ne := by decide

/-- `update_approximate_cache_bitmap_order`. -/
def CacheBitmapOrder.approximate (order : CacheBitmapOrder) : ℕ := 64 + order.bitmapLength

/-- `update_write_cache_bitmap_order`. -/
def CacheBitmapOrder.steps (order : CacheBitmapOrder) : List WriterStep :=
  [.ensure order.approximate, .write (some (updateWriteCacheBitmapOrder order order.compressed).2)]

/-- `update_approximate_cache_bitmap_v2_order`. -/
def CacheBitmapV2Order.approximate (order : CacheBitmapV2Order) : ℕ := 64 + order.bitmapLength

/-- `update_write_cache_bitmap_v2_order`. -/
def CacheBitmapV2Order.steps (order : CacheBitmapV2Order) : List WriterStep :=
  let (hdr, last) := writeComprHdr order.withIndex order.compressed
  [.ensure order.approximate, .write ((getBppBmf order.bitmapBpp).map fun _ => []),
    .write (some (writeKeys order)), .write (updateWrite2ByteUnsigned order.bitmapWidth),
    .write (if order.flags &&& CBR2_HEIGHT_SAME_AS_WIDTH ≠ 0 then some []
      else updateWrite2ByteUnsigned order.bitmapHeight),
    .write (updateWrite4ByteUnsigned order.bitmapLength),
    .write (updateWrite2ByteUnsigned order.withIndex.cacheIndex), .write (some hdr),
      .ensure last.bitmapLength, .write (some (order.bitmapDataStream.take last.bitmapLength))]

/-- `update_approximate_cache_bitmap_v3_order`. -/
def CacheBitmapV3Order.approximate (order : CacheBitmapV3Order) : ℕ := 64 + order.bitmapData.length

/-- `update_write_cache_bitmap_v3_order`, which writes nothing if there is no number for `bpp`. -/
def CacheBitmapV3Order.steps (order : CacheBitmapV3Order) : List WriterStep :=
  [.ensure order.approximate, .write ((updateWriteCacheBitmapV3Order order).map (·.2))]

/-- `update_approximate_cache_color_table_order`. -/
def CacheColorTableOrder.approximate (_ : CacheColorTableOrder) : ℕ := 16 + 256 * 4

/-- `update_write_cache_color_table_order`, which looks at the number of colors before the room for them. -/
def CacheColorTableOrder.steps (order : CacheColorTableOrder) : List WriterStep :=
  [.write (if order.numberColors ≠ 256 then none else some []), .ensure order.approximate,
    .write (updateWriteCacheColorTableOrder order)]

/-- `update_approximate_cache_glyph_order`. -/
def CacheGlyphOrder.approximate (order : CacheGlyphOrder) : ℕ := 2 + order.cGlyphs * 32

/-- `update_write_cache_glyph_order`. -/
def CacheGlyphOrder.steps (order : CacheGlyphOrder) : List WriterStep :=
  [.ensure order.approximate, .write (some (updateWriteCacheGlyphOrder order 0))]

/-- The loop of `update_write_cache_glyph_v2_order`. -/
def GlyphData.steps (glyph : GlyphData) : List WriterStep :=
  [.write (some (byte glyph.cacheIndex)), .write (updateWrite2ByteSigned glyph.x),
    .write (updateWrite2ByteSigned glyph.y), .write (updateWrite2ByteUnsigned glyph.cx),
    .write (updateWrite2ByteUnsigned glyph.cy), .write (some (glyph.aj.take (glyphSize glyph.cx glyph.cy)))]

/-- `update_approximate_cache_glyph_v2_order`. -/
def CacheGlyphV2Order.approximate (order : CacheGlyphV2Order) : ℕ := 8 + order.cGlyphs * 32

/-- The flags of `update_write_cache_glyph_v2_order`. -/
def CacheGlyphV2Order.extraFlags (order : CacheGlyphV2Order) : ℕ :=
  (order.cacheId &&& 0x000F ||| (order.flags &&& 0x000F) <<< 4 ||| (order.cGlyphs &&& 0x00FF) <<< 8)
    % 2 ^ 16

/-- `update_write_cache_glyph_v2_order`. -/
def CacheGlyphV2Order.steps (order : CacheGlyphV2Order) : List WriterStep :=
  .ensure order.approximate :: ((order.glyphData.take order.cGlyphs).flatMap GlyphData.steps ++
    [.write (some (writeUnicode order.extraFlags order.cGlyphs))])

/-- `update_approximate_cache_brush_order`. -/
def CacheBrushOrder.approximate (_ : CacheBrushOrder) : ℕ := 64

/-- `update_write_cache_brush_order`. -/
def CacheBrushOrder.steps (order : CacheBrushOrder) : List WriterStep :=
  [.ensure order.approximate,
    .write ((getBppBmf order.bpp).map fun iBitmapFormat => byte order.index ++ (byte iBitmapFormat ++
      (byte order.cx ++ (byte order.cy ++ (byte order.style ++ byte order.length))))),
    .write ((getBppBmf order.bpp).bind (writeBrushData order))]

/-- The function `update_send_*` for a secondary order. -/
def SecondaryOrder.sender (noBitmapCompressionHeader : Bool) : SecondaryOrder → Sender
  | cacheBitmap order =>
    let orderType :=
      if order.compressed then ORDER_TYPE_CACHE_BITMAP_COMPRESSED else ORDER_TYPE_BITMAP_UNCOMPRESSED
    .secondary orderType (updateWriteCacheBitmapOrder order order.compressed).1 order.approximate
      order.steps
  | cacheBitmapV2 order =>
    let orderType :=
      if order.compressed then ORDER_TYPE_BITMAP_COMPRESSED_V2 else ORDER_TYPE_BITMAP_UNCOMPRESSED_V2
    let order := order.withHdr noBitmapCompressionHeader
    .secondary orderType ((updateWriteCacheBitmapV2Order order order.compressed).elim 0 (·.1))
      order.approximate
      order.steps
  | cacheBitmapV3 order =>
    .secondary ORDER_TYPE_BITMAP_COMPRESSED_V3 ((updateWriteCacheBitmapV3Order order).elim 0 (·.1))
      order.approximate order.steps
  | cacheColorTable order => .secondary ORDER_TYPE_CACHE_COLOR_TABLE 0 order.approximate order.steps
  | cacheGlyph order => .secondary ORDER_TYPE_CACHE_GLYPH 0 order.approximate order.steps
  | cacheGlyphV2 order => .secondary ORDER_TYPE_CACHE_GLYPH order.extraFlags order.approximate order.steps
  | cacheBrush order => .secondary ORDER_TYPE_CACHE_BRUSH 0 order.approximate order.steps

/-! ### Alternate secondary orders -/

def ORDER_TYPE_SWITCH_SURFACE : ℕ := 0x00
def ORDER_TYPE_CREATE_OFFSCREEN_BITMAP : ℕ := 0x01

/-- The functions that send alternate secondary orders. -/
def Sender.altsec (orderType inf : ℕ) (bs : List UInt8) : Sender where
  size := 1 + inf
  room := some 1
  first := [0]
  steps := [.ensure inf, .write (some bs)]
  checked := true
  complete := true
  header _ _ := byte (ORDER_SECONDARY ||| orderType <<< 2)
  unopened := false
  first_ne := by decide

/-- `CREATE_OFFSCREEN_BITMAP_ORDER`; the list of its indices is that of `OFFSCREEN_DELETE_LIST`. -/
structure CreateOffscreenBitmapOrder where
  id : ℕ
  cx : ℕ
  cy : ℕ
  indices : List ℕ
deriving DecidableEq

/-- `update_approximate_create_offscreen_bitmap_order`. -/
def CreateOffscreenBitmapOrder.approximate (order : CreateOffscreenBitmapOrder) : ℕ :=
  32 + order.indices.length * 2

/-- What `update_write_create_offscreen_bitmap_order` writes. -/
def updateWriteCreateOffscreenBitmapOrder (order : CreateOffscreenBitmapOrder) : List UInt8 :=
  let deleteListPresent := order.indices.length > 0
  let flags := if deleteListPresent then order.id &&& 0x7FFF ||| 0x8000 else order.id &&& 0x7FFF
  le16 flags ++ (le16 order.cx ++ (le16 order.cy ++
    if deleteListPresent then le16 order.indices.length ++ order.indices.flatMap le16 else []))

/-! ### Window orders -/

/-- The functions that send window orders: nothing fails behind the room for the order. -/
def Sender.window (size : ℕ) (room : Option ℕ) (controlFlags : UInt8) (bs : List UInt8) : Sender where
  size := size
  room := room
  first := controlFlags :: bs
  steps := []
  checked := true
  complete := true
  header _ _ := []
  unopened := false
  first_ne := by simp

/-- `controlFlags` of window orders. -/
def windowControlFlags : UInt8 := UInt8.ofNat (ORDER_SECONDARY ||| ORDER_TYPE_WINDOW <<< 2)

/-- The fields that window icon orders and notification icon orders have for an icon. -/
def writeIconInfo (iconInfo : IconInfo) : List UInt8 :=
  le16 iconInfo.cacheEntry ++ (byte iconInfo.cacheId ++ (byte iconInfo.bpp ++ (le16 iconInfo.width ++
    (le16 iconInfo.height ++ ((if iconInfo.bpp ≤ 8 then le16 iconInfo.colorTable.length else []) ++
    (le16 iconInfo.bitsMask.length ++ (le16 iconInfo.bitsColor.length ++ (iconInfo.bitsMask ++
    ((if iconInfo.bpp ≤ 8 then iconInfo.colorTable else []) ++ iconInfo.bitsColor)))))))))

def writeCachedIconInfo (cachedIcon : CachedIconInfo) : List UInt8 :=
  le16 cachedIcon.cacheEntry ++ byte cachedIcon.cacheId

def updateCalculateWindowIconOrder (iconInfo : IconInfo) : ℕ :=
  (23 + (iconInfo.bitsColor.length + iconInfo.bitsMask.length) +
    if iconInfo.bpp ≤ 8 then 2 + iconInfo.colorTable.length else 0) % 2 ^ 16

/-- The header of an order with a window, behind `controlFlags`. -/
def writeWindowHeader (orderSize : ℕ) (orderInfo : WindowOrderInfo) : List UInt8 :=
  le16 orderSize ++ (le32 orderInfo.fieldFlags ++ le32 orderInfo.windowId)

/-- The size of an icon, as a number of any size. -/
def IconInfo.size (iconInfo : IconInfo) : ℕ :=
  12 + (if iconInfo.bpp ≤ 8 then 2 + iconInfo.colorTable.length else 0) +
    (iconInfo.bitsMask.length + iconInfo.bitsColor.length)

/-- The sum of `update_calculate_new_or_existing_notification_icons_order`, before it is kept in a
`UINT16`. -/
def NotifyIconStateOrder.size (fieldFlags : ℕ) (order : NotifyIconStateOrder) : ℕ :=
  let size (flag n : ℕ) : ℕ := if fieldFlags &&& flag ≠ 0 then n else 0
  15 + size WINDOW_ORDER_FIELD_NOTIFY_VERSION 4 +
    size WINDOW_ORDER_FIELD_NOTIFY_TIP (2 + order.toolTip.length) +
    size WINDOW_ORDER_FIELD_NOTIFY_INFO_TIP (12 + order.infoTip.text.length + order.infoTip.title.length) +
    size WINDOW_ORDER_FIELD_NOTIFY_STATE 4 +
    if fieldFlags &&& WINDOW_ORDER_ICON ≠ 0 then order.icon.size else size WINDOW_ORDER_CACHED_ICON 3

def updateCalculateNewOrExistingNotificationIconsOrder (orderInfo : WindowOrderInfo)
    (order : NotifyIconStateOrder) : ℕ :=
  order.size orderInfo.fieldFlags % 2 ^ 16

/-- The version is there and is 0: the info tip and the state should not be sent. -/
def NotifyIconStateOrder.noTips (order : NotifyIconStateOrder) (fieldFlags : ℕ) : Bool :=
  fieldFlags &&& WINDOW_ORDER_FIELD_NOTIFY_VERSION ≠ 0 ∧ order.version = 0

def NotifyIconStateOrder.steps (order : NotifyIconStateOrder) (fieldFlags : ℕ) : List WriterStep :=
  let tips (flag : ℕ) (bs : List UInt8) : Option (List UInt8) :=
    if fieldFlags &&& flag ≠ 0 then if order.noTips fieldFlags then none else some bs else some []
  [.write (some (writeField fieldFlags WINDOW_ORDER_FIELD_NOTIFY_VERSION (le32 order.version))),
    .write (some (writeField fieldFlags WINDOW_ORDER_FIELD_NOTIFY_TIP (writeUnicodeString order.toolTip))),
    .write (tips WINDOW_ORDER_FIELD_NOTIFY_INFO_TIP (le32 order.infoTip.timeout ++
      (le32 order.infoTip.flags ++
      (writeUnicodeString order.infoTip.text ++ writeUnicodeString order.infoTip.title)))),
    .write (tips WINDOW_ORDER_FIELD_NOTIFY_STATE (le32 order.state)),
    .write (some (if fieldFlags &&& WINDOW_ORDER_ICON ≠ 0 then writeIconInfo order.icon
      else writeField fieldFlags WINDOW_ORDER_CACHED_ICON (writeCachedIconInfo order.cachedIcon)))]

/-- `update_send_new_or_existing_notification_icons`. -/
def Sender.notifyIconState (orderInfo : WindowOrderInfo) (order : NotifyIconStateOrder) : Sender where
  size := updateCalculateNewOrExistingNotificationIconsOrder orderInfo order
  room := some (updateCalculateNewOrExistingNotificationIconsOrder orderInfo order)
  first := windowControlFlags :: (writeWindowHeader
    (updateCalculateNewOrExistingNotificationIconsOrder orderInfo order) orderInfo ++
      le32 orderInfo.notifyIconId)
  steps := order.steps orderInfo.fieldFlags
  checked := true
  complete := true
  header _ _ := []
  unopened := false
  first_ne := by simp

def updateCalculateMonitoredDesktop (orderInfo : WindowOrderInfo) (order : MonitoredDesktopOrder) : ℕ :=
  (7 + (if orderInfo.fieldFlags &&& WINDOW_ORDER_FIELD_DESKTOP_ACTIVE_WND ≠ 0 then 4 else 0) +
    if orderInfo.fieldFlags &&& WINDOW_ORDER_FIELD_DESKTOP_ZORDER ≠ 0 then 1 +
      4 * order.numWindowIds else 0) % 2 ^ 16

def writeMonitoredDesktop (fieldFlags : ℕ) (order : MonitoredDesktopOrder) : List UInt8 :=
  writeField fieldFlags WINDOW_ORDER_FIELD_DESKTOP_ACTIVE_WND (le32 order.activeWindowId) ++
    writeField fieldFlags WINDOW_ORDER_FIELD_DESKTOP_ZORDER
      (byte order.numWindowIds ++ (order.windowIds.take order.numWindowIds).flatMap le32)

/-! ### All orders -/

/-- The orders that a server puts into an update. -/
inductive UpdateOrder
  | primary (type : SendType) (s : OrderStruct)
  | secondary (order : SecondaryOrder)
  | createOffscreenBitmap (order : CreateOffscreenBitmapOrder)
  | switchSurface (bitmapId : ℕ)
  | windowState (orderInfo : WindowOrderInfo) (order : WindowStateOrder)
  | windowIcon (orderInfo : WindowOrderInfo) (iconInfo : IconInfo)
  | windowCachedIcon (orderInfo : WindowOrderInfo) (cachedIcon : CachedIconInfo)
  | windowDelete (orderInfo : WindowOrderInfo)
  | notifyIconState (orderInfo : WindowOrderInfo) (order : NotifyIconStateOrder)
  | notifyIconDelete (orderInfo : WindowOrderInfo)
  | monitoredDesktop (orderInfo : WindowOrderInfo) (order : MonitoredDesktopOrder)
  | nonMonitoredDesktop (orderInfo : WindowOrderInfo)

/-- The function `update_send_*` for an order. -/
def UpdateOrder.sender (noBitmapCompressionHeader : Bool) (bounds : ServerBounds) : UpdateOrder → Sender
  | primary type s => .primary bounds type s
  | secondary order => order.sender noBitmapCompressionHeader
  | createOffscreenBitmap order =>
    .altsec ORDER_TYPE_CREATE_OFFSCREEN_BITMAP order.approximate
      (updateWriteCreateOffscreenBitmapOrder order)
  | switchSurface bitmapId => .altsec ORDER_TYPE_SWITCH_SURFACE 2 (le16 bitmapId)
  | windowState orderInfo order =>
    let orderSize := updateCalculateNewOrExistingWindow orderInfo.fieldFlags order
    .window orderSize (some orderSize) windowControlFlags
      ((updateSendNewOrExistingWindow orderInfo order).tail)
  | windowIcon orderInfo iconInfo =>
    let orderSize := updateCalculateWindowIconOrder iconInfo
    .window orderSize (some orderSize) windowControlFlags
      (writeWindowHeader orderSize orderInfo ++ writeIconInfo iconInfo)
  | windowCachedIcon orderInfo cachedIcon =>
    .window 14 (some 14) windowControlFlags
      (writeWindowHeader 14 orderInfo ++ writeCachedIconInfo cachedIcon)
  | windowDelete orderInfo => .window 11 (some 11) windowControlFlags (writeWindowHeader 11 orderInfo)
  | notifyIconState orderInfo order => .notifyIconState orderInfo order
  | notifyIconDelete orderInfo =>
    .window 15 none windowControlFlags (writeWindowHeader 15 orderInfo ++ le32 orderInfo.notifyIconId)
  | monitoredDesktop orderInfo order =>
    let orderSize := updateCalculateMonitoredDesktop orderInfo order
    .window orderSize none windowControlFlags
      (le16 orderSize ++ (le32 orderInfo.fieldFlags ++ writeMonitoredDesktop orderInfo.fieldFlags order))
  | nonMonitoredDesktop orderInfo => .window 7 none windowControlFlags (le16 7 ++ le32 orderInfo.fieldFlags)

/-! ### Runs -/

end FreeRDP.Orders
