import FreeRDP.Orders.Cache
import FreeRDP.Orders.Primary

/-!
# Secondary drawing orders

The color tables and the brushes of `libfreerdp/core/orders.c`, and the functions of
`libfreerdp/core/update.c` that send the secondary drawing orders.  A sender gives the bytes that it
puts behind the orders of the update, or `none` where it returns `FALSE`; the stream has room for them.
-/

namespace FreeRDP.Orders

open Wire

variable {m : Type → Type} [Monad m] [MonadLiftT Reader m]

/-! ### Color tables -/

/-- `CACHE_COLOR_TABLE_ORDER`.  `colorTable` has 256 colors. -/
structure CacheColorTableOrder where
  cacheIndex : ℕ
  numberColors : ℕ
  colorTable : ℕ → ℕ

/-- `update_read_color_quad`, which is `update_read_colorref`. -/
def updateReadColorQuad : Reader ℕ := do
  need 4
  let red ← u8
  let green ← u8
  let blue ← u8
  seek 1
  return red ||| green <<< 8 ||| blue <<< 16

def updateWriteColorQuad (color : ℕ) : List UInt8 :=
  byte (color >>> 16 &&& 0xFF) ++ (byte (color >>> 8 &&& 0xFF) ++ byte (color &&& 0xFF))

def updateReadCacheColorTableOrder : m CacheColorTableOrder := do
  need 3
  let cacheIndex ← u8
  let numberColors ← u16le
  check (numberColors = 256)
  need (numberColors * 4)
  -- there are enough bytes for all colors
  let colors ← (many updateReadColorQuad numberColors : Reader (List ℕ))
  return { cacheIndex, numberColors, colorTable := fun i => colors.getD i 0 }

def updateWriteCacheColorTableOrder (order : CacheColorTableOrder) : Option (List UInt8) :=
  if order.numberColors ≠ 256 then none
  else some (byte order.cacheIndex ++ (le16 order.numberColors ++
    (List.range order.numberColors).flatMap fun i => updateWriteColorQuad (order.colorTable i)))

/-! ### Brushes -/

/-- `CACHE_BRUSH_ORDER`.  `data` has 256 bytes. -/
structure CacheBrushOrder where
  index : ℕ
  bpp : ℕ
  cx : ℕ
  cy : ℕ
  style : ℕ
  length : ℕ
  data : ℕ → UInt8

/-- The rows of a brush, the last one first. -/
def rowsOfBrush : List ℕ := [7, 6, 5, 4, 3, 2, 1, 0]

/-- `update_decompress_brush`: two bits for each pixel, and the four colors behind them. -/
def updateDecompressBrush (bpp : ℕ) : Reader (ℕ → UInt8) := fun s =>
  let bytesPerPixel := (bpp + 1) / 8
  if s.length < 16 + bytesPerPixel * 4 then none
  else
    let output (i : ℕ) : UInt8 :=
      let y := i / bytesPerPixel / 8
      let x := i / bytesPerPixel % 8
      let k := i % bytesPerPixel
      let index := (s.getD ((7 - y) * 2 + x / 4) 0).toNat >>> ((3 - x % 4) * 2) &&& 0x03
      if i < 64 * bytesPerPixel then s.getD (16 + index * bytesPerPixel + k) 0 else 0
    some (output, s.drop 16)

/-- Whether a brush that is not monochrome has colors. -/
def isCompressedBrush (iBitmapFormat length : ℕ) : Bool :=
  (iBitmapFormat = 3 ∧ length = 20) ∨ (iBitmapFormat = 4 ∧ length = 24) ∨ (iBitmapFormat = 6 ∧ length = 32)

/-- The pixels of a brush of `bpp` bits. -/
def readBrushData (iBitmapFormat bpp length : ℕ) : Reader (ℕ → UInt8) :=
  if bpp = 1 then do
    check (length = 8)
    need 8
    let rows ← bytes 8
    return fun i => rows.reverse.getD i 0
  else if isCompressedBrush iBitmapFormat length ∨ (iBitmapFormat = 5 ∧ length = 28) then
    updateDecompressBrush bpp
  else do
    let scanline := bpp / 8 * 8
    need (scanline * 8)
    let rows ← many (bytes scanline) 8
    return fun i => rows.reverse.flatten.getD i 0

/-- The pixels of a brush, whose readers consume nothing if they fail. -/
def readPixels (cx cy iBitmapFormat bpp length : ℕ) : m (ℕ → UInt8) :=
  if cx = 8 ∧ cy = 8 then liftM (readBrushData iBitmapFormat bpp length) else return fun _ => 0

def updateReadCacheBrushOrder : m CacheBrushOrder := do
  need 6
  let index ← u8
  let iBitmapFormat ← u8
  let bpp ← liftM (m := Reader) fun s => (getBmfBpp iBitmapFormat).map (·, s)
  let cx ← u8
  let cy ← u8
  let style ← u8
  let length ← u8
  let data ← readPixels cx cy iBitmapFormat bpp length
  return { index, bpp, cx, cy, style, length, data }

/-- A row of `n` bytes. -/
def CacheBrushOrder.row (order : CacheBrushOrder) (n i : ℕ) : List UInt8 :=
  (List.range n).map fun j => order.data (i * n + j)

/-- The pixels of a brush of eight times eight pixels; `update_compress_brush` returns `FALSE`. -/
def writeBrushData (order : CacheBrushOrder) (iBitmapFormat : ℕ) : Option (List UInt8) :=
  if order.cx = 8 ∧ order.cy = 8 then
    if order.bpp = 1 then
      if order.length ≠ 8 then none else some (rowsOfBrush.flatMap (order.row 1))
    else if isCompressedBrush iBitmapFormat order.length then none
    else some (rowsOfBrush.flatMap (order.row (order.bpp / 8 * 8)))
  else some []

def updateWriteCacheBrushOrder (order : CacheBrushOrder) : Option (List UInt8) := do
  let iBitmapFormat ← getBppBmf order.bpp
  let data ← writeBrushData order iBitmapFormat
  return byte order.index ++ (byte iBitmapFormat ++ (byte order.cx ++ (byte order.cy ++ (byte order.style ++
    (byte order.length ++ data)))))

/-! ### Sending -/

def ORDER_STANDARD : ℕ := 0x01
def ORDER_SECONDARY : ℕ := 0x02

def ORDER_TYPE_BITMAP_UNCOMPRESSED : ℕ := 0x00
def ORDER_TYPE_CACHE_COLOR_TABLE : ℕ := 0x01
def ORDER_TYPE_CACHE_BITMAP_COMPRESSED : ℕ := 0x02
def ORDER_TYPE_CACHE_GLYPH : ℕ := 0x03
def ORDER_TYPE_BITMAP_UNCOMPRESSED_V2 : ℕ := 0x04
def ORDER_TYPE_BITMAP_COMPRESSED_V2 : ℕ := 0x05
def ORDER_TYPE_CACHE_BRUSH : ℕ := 0x07
def ORDER_TYPE_BITMAP_COMPRESSED_V3 : ℕ := 0x08

/-- What the senders of secondary orders share: the order is written behind the place of its header, and the
length of both goes into the header as an `INT16`. -/
def sendSecondary (orderType extraFlags : ℕ) (order : List UInt8) : List UInt8 :=
  let orderLength : ℤ := ((6 + order.length : ℕ) : ℤ) - 13
  byte (ORDER_STANDARD ||| ORDER_SECONDARY) ++
    (writeInt16 orderLength ++ (le16 extraFlags ++ (byte orderType ++
    order)))

def updateSendCacheBitmap (order : CacheBitmapOrder) : List UInt8 :=
  let orderType :=
    if order.compressed then ORDER_TYPE_CACHE_BITMAP_COMPRESSED else ORDER_TYPE_BITMAP_UNCOMPRESSED
  let (extraFlags, bs) := updateWriteCacheBitmapOrder order order.compressed
  sendSecondary orderType extraFlags bs

/-- What `update_send_cache_bitmap_v2` makes of an order if there are no compression headers. -/
def CacheBitmapV2Order.withHdr (order : CacheBitmapV2Order) (noBitmapCompressionHeader : Bool) :
    CacheBitmapV2Order :=
  if noBitmapCompressionHeader then { order with flags := order.flags ||| CBR2_NO_BITMAP_COMPRESSION_HDR }
  else order

def updateSendCacheBitmapV2 (noBitmapCompressionHeader : Bool) (order : CacheBitmapV2Order) :
    Option (List UInt8) := do
  let orderType :=
    if order.compressed then ORDER_TYPE_BITMAP_COMPRESSED_V2 else ORDER_TYPE_BITMAP_UNCOMPRESSED_V2
  let (extraFlags, bs, _) ←
    updateWriteCacheBitmapV2Order (order.withHdr noBitmapCompressionHeader) order.compressed
  return sendSecondary orderType extraFlags bs

def updateSendCacheBitmapV3 (order : CacheBitmapV3Order) : Option (List UInt8) := do
  let (extraFlags, bs) ← updateWriteCacheBitmapV3Order order
  return sendSecondary ORDER_TYPE_BITMAP_COMPRESSED_V3 extraFlags bs

def updateSendCacheColorTable (order : CacheColorTableOrder) : Option (List UInt8) := do
  let bs ← updateWriteCacheColorTableOrder order
  return sendSecondary ORDER_TYPE_CACHE_COLOR_TABLE 0 bs

def updateSendCacheGlyph (order : CacheGlyphOrder) : List UInt8 :=
  sendSecondary ORDER_TYPE_CACHE_GLYPH 0 (updateWriteCacheGlyphOrder order 0)

def updateSendCacheGlyphV2 (order : CacheGlyphV2Order) : Option (List UInt8) := do
  let (extraFlags, bs) ← updateWriteCacheGlyphV2Order order
  return sendSecondary ORDER_TYPE_CACHE_GLYPH extraFlags bs

def updateSendCacheBrush (order : CacheBrushOrder) : Option (List UInt8) := do
  let bs ← updateWriteCacheBrushOrder order
  return sendSecondary ORDER_TYPE_CACHE_BRUSH 0 bs

inductive SecondaryOrder
  | cacheBitmap (order : CacheBitmapOrder)
  | cacheBitmapV2 (order : CacheBitmapV2Order)
  | cacheBitmapV3 (order : CacheBitmapV3Order)
  | cacheColorTable (order : CacheColorTableOrder)
  | cacheGlyph (order : CacheGlyphOrder)
  | cacheGlyphV2 (order : CacheGlyphV2Order)
  | cacheBrush (order : CacheBrushOrder)

def SecondaryOrder.send (noBitmapCompressionHeader : Bool) : SecondaryOrder → Option (List UInt8)
  | cacheBitmap order => some (updateSendCacheBitmap order)
  | cacheBitmapV2 order => updateSendCacheBitmapV2 noBitmapCompressionHeader order
  | cacheBitmapV3 order => updateSendCacheBitmapV3 order
  | cacheColorTable order => updateSendCacheColorTable order
  | cacheGlyph order => some (updateSendCacheGlyph order)
  | cacheGlyphV2 order => updateSendCacheGlyphV2 order
  | cacheBrush order => updateSendCacheBrush order

end FreeRDP.Orders
