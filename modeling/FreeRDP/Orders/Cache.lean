import FreeRDP.Orders.Fields

/-!
# Cache orders

The readers and writers of the cache-bitmap and cache-glyph orders in `libfreerdp/core/orders.c`.  A
stream has room for what is written and allocations succeed; a writer gives `none` and a reader fails
where the source returns `FALSE` or `NULL`, and a reader also where it would read behind the end.
-/

namespace FreeRDP.Orders

open Wire

variable {m : Type → Type} [Monad m] [MonadLiftT Reader m]

def NO_BITMAP_COMPRESSION_HDR : ℕ := 0x0400
def CBR2_HEIGHT_SAME_AS_WIDTH : ℕ := 0x01
def CBR2_PERSISTENT_KEY_PRESENT : ℕ := 0x02
def CBR2_NO_BITMAP_COMPRESSION_HDR : ℕ := 0x08
def CBR2_DO_NOT_CACHE : ℕ := 0x10
def BITMAP_CACHE_WAITING_LIST_INDEX : ℕ := 0x7FFF
def CG_GLYPH_UNICODE_PRESENT : ℕ := 0x0010

/-! ### Color depths -/

def getCbr2Bpp : ℕ → Option ℕ
  | 3 => some 8
  | 4 => some 16
  | 5 => some 24
  | 6 => some 32
  | _ => none

def getBppBmf : ℕ → Option ℕ
  | 1 => some 1
  | 8 => some 3
  | 16 => some 4
  | 24 => some 5
  | 32 => some 6
  | _ => none

/-! ### Bitmaps -/

structure CacheBitmapOrder where
  cacheId : ℕ
  bitmapBpp : ℕ
  bitmapWidth : ℕ
  bitmapHeight : ℕ
  bitmapLength : ℕ
  cacheIndex : ℕ
  compressed : Bool
  bitmapComprHdr : List UInt8
  bitmapDataStream : List UInt8
deriving DecidableEq, Repr

/-- The part of `update_read_cache_bitmap_order` that reads the compression header, if there is one:
the header and the length that is left. -/
def readBitmapComprHdr (compressed : Bool) (flags bitmapLength : ℕ) : m (List UInt8 × ℕ) :=
  if compressed then
    if flags &&& NO_BITMAP_COMPRESSION_HDR = 0 then do
      need 8
      let hdr ← bytes 8
      return (hdr, (bitmapLength + 2 ^ 32 - 8) % 2 ^ 32)
    else return (List.replicate 8 0, bitmapLength)
  else return (List.replicate 8 0, bitmapLength)

def updateReadCacheBitmapOrder (compressed : Bool) (flags : ℕ) : m CacheBitmapOrder := do
  need 9
  let cacheId ← u8
  seek 1
  let bitmapWidth ← u8
  let bitmapHeight ← u8
  let bitmapBpp ← u8
  check (1 ≤ bitmapBpp ∧ bitmapBpp ≤ 32)
  let bitmapLength ← u16le
  let cacheIndex ← u16le
  let (bitmapComprHdr, bitmapLength) ← readBitmapComprHdr compressed flags bitmapLength
  check (bitmapLength ≠ 0)
  need bitmapLength
  let bitmapDataStream ← bytes bitmapLength
  return { cacheId, bitmapBpp, bitmapWidth, bitmapHeight, bitmapLength, cacheIndex, compressed,
           bitmapComprHdr, bitmapDataStream }

/-- `update_write_cache_bitmap_order`: the flags and the bytes. -/
def updateWriteCacheBitmapOrder (order : CacheBitmapOrder) (compressed : Bool) : ℕ × List UInt8 :=
  let flags := NO_BITMAP_COMPRESSION_HDR
  let bitmapLength :=
    if flags &&& NO_BITMAP_COMPRESSION_HDR = 0 then (order.bitmapLength + 8) % 2 ^ 32
    else order.bitmapLength
  let fields := byte order.cacheId ++ (byte 0 ++ (byte order.bitmapWidth ++
    (byte order.bitmapHeight ++ (byte order.bitmapBpp ++ (le16 bitmapLength ++
      le16 order.cacheIndex)))))
  if compressed then
    if flags &&& NO_BITMAP_COMPRESSION_HDR = 0 then
      (flags, fields ++ order.bitmapComprHdr ++ order.bitmapDataStream.take (bitmapLength - 8))
    else (flags, fields ++ order.bitmapDataStream.take bitmapLength)
  else (flags, fields ++ order.bitmapDataStream.take bitmapLength)

/-! ### Bitmaps, revision 2 -/

structure CacheBitmapV2Order where
  cacheId : ℕ
  flags : ℕ
  key1 : ℕ
  key2 : ℕ
  bitmapBpp : ℕ
  bitmapWidth : ℕ
  bitmapHeight : ℕ
  bitmapLength : ℕ
  cacheIndex : ℕ
  compressed : Bool
  cbCompFirstRowSize : ℕ
  cbCompMainBodySize : ℕ
  cbScanWidth : ℕ
  cbUncompressedSize : ℕ
  bitmapDataStream : List UInt8
deriving DecidableEq, Repr

/-- The keys, if they are present. -/
def readKeys (flags : ℕ) : m (ℕ × ℕ) :=
  if flags &&& CBR2_PERSISTENT_KEY_PRESENT ≠ 0 then do
    need 8
    let key1 ← u32le
    let key2 ← u32le
    return (key1, key2)
  else return (0, 0)

def readSize (flags : ℕ) : m (ℕ × ℕ) :=
  if flags &&& CBR2_HEIGHT_SAME_AS_WIDTH ≠ 0 then do
    let bitmapWidth ← updateRead2ByteUnsigned
    return (bitmapWidth, bitmapWidth)
  else do
    let bitmapWidth ← updateRead2ByteUnsigned
    let bitmapHeight ← updateRead2ByteUnsigned
    return (bitmapWidth, bitmapHeight)

/-- The four fields of the compression header. -/
structure ComprHdr where
  cbCompFirstRowSize : ℕ
  cbCompMainBodySize : ℕ
  cbScanWidth : ℕ
  cbUncompressedSize : ℕ

/-- The compression header, if there is one, and the length that follows from it. -/
def readComprHdr (compressed : Bool) (flags bitmapLength : ℕ) : m (ComprHdr × ℕ) :=
  if compressed then
    if flags &&& CBR2_NO_BITMAP_COMPRESSION_HDR = 0 then do
      need 8
      let cbCompFirstRowSize ← u16le
      let cbCompMainBodySize ← u16le
      let cbScanWidth ← u16le
      let cbUncompressedSize ← u16le
      return (⟨cbCompFirstRowSize, cbCompMainBodySize, cbScanWidth, cbUncompressedSize⟩,
        cbCompMainBodySize)
    else return (⟨0, 0, 0, 0⟩, bitmapLength)
  else return (⟨0, 0, 0, 0⟩, bitmapLength)

def updateReadCacheBitmapV2Order (compressed : Bool) (extraFlags : ℕ) :
    m CacheBitmapV2Order := do
  let cacheId := extraFlags &&& 0x0003
  let flags := (extraFlags &&& 0xFF80) >>> 7
  let bitsPerPixelId := (extraFlags &&& 0x0078) >>> 3
  let bitmapBpp ← liftM (m := Reader) fun s => (getCbr2Bpp bitsPerPixelId).map (·, s)
  let (key1, key2) ← readKeys flags
  let (bitmapWidth, bitmapHeight) ← readSize flags
  let bitmapLength ← updateRead4ByteUnsigned
  let index ← updateRead2ByteUnsigned
  let cacheIndex :=
    if flags &&& CBR2_DO_NOT_CACHE ≠ 0 then BITMAP_CACHE_WAITING_LIST_INDEX else index
  let (hdr, bitmapLength) ← readComprHdr compressed flags bitmapLength
  check (bitmapLength ≠ 0)
  need bitmapLength
  let bitmapDataStream ← bytes bitmapLength
  return { cacheId, flags, key1, key2, bitmapBpp, bitmapWidth, bitmapHeight, bitmapLength,
           cacheIndex, compressed, cbCompFirstRowSize := hdr.cbCompFirstRowSize,
           cbCompMainBodySize := hdr.cbCompMainBodySize, cbScanWidth := hdr.cbScanWidth,
           cbUncompressedSize := hdr.cbUncompressedSize, bitmapDataStream }

/-- What the writer makes of the index of an order that is not to be cached. -/
def CacheBitmapV2Order.withIndex (order : CacheBitmapV2Order) : CacheBitmapV2Order :=
  if order.flags &&& CBR2_DO_NOT_CACHE ≠ 0 then
    { order with cacheIndex := BITMAP_CACHE_WAITING_LIST_INDEX }
  else order

/-- The keys, if they are present. -/
def writeKeys (order : CacheBitmapV2Order) : List UInt8 :=
  if order.flags &&& CBR2_PERSISTENT_KEY_PRESENT ≠ 0 then le32 order.key1 ++ le32 order.key2 else []

def writeSize (order : CacheBitmapV2Order) : Option (List UInt8) :=
  if order.flags &&& CBR2_HEIGHT_SAME_AS_WIDTH ≠ 0 then updateWrite2ByteUnsigned order.bitmapWidth
  else do
    let width ← updateWrite2ByteUnsigned order.bitmapWidth
    let height ← updateWrite2ByteUnsigned order.bitmapHeight
    return width ++ height

/-- The compression header, if there is one, and the order with the length that follows from it. -/
def writeComprHdr (order : CacheBitmapV2Order) (compressed : Bool) :
    List UInt8 × CacheBitmapV2Order :=
  if compressed then
    if order.flags &&& CBR2_NO_BITMAP_COMPRESSION_HDR = 0 then
      (le16 order.cbCompFirstRowSize ++ (le16 order.cbCompMainBodySize ++ (le16 order.cbScanWidth ++
        le16 order.cbUncompressedSize)),
        { order with bitmapLength := order.cbCompMainBodySize })
    else ([], order)
  else ([], order)

/-- `update_write_cache_bitmap_v2_order`: the flags, the bytes and the order as it is left. -/
def updateWriteCacheBitmapV2Order (order : CacheBitmapV2Order) (compressed : Bool) :
    Option (ℕ × List UInt8 × CacheBitmapV2Order) := do
  let bitsPerPixelId ← getBppBmf order.bitmapBpp
  let flags := (order.cacheId &&& 0x0003 ||| bitsPerPixelId <<< 3 ||| (order.flags <<< 7 &&& 0xFF80))
    % 2 ^ 16
  let size ← writeSize order
  let order := order.withIndex
  let length ← updateWrite4ByteUnsigned order.bitmapLength
  let index ← updateWrite2ByteUnsigned order.cacheIndex
  let (hdr, order) := writeComprHdr order compressed
  return (flags, writeKeys order ++ (size ++ (length ++ (index ++ (hdr ++
    order.bitmapDataStream.take order.bitmapLength)))), { order with compressed := compressed })

/-! ### Bitmaps, revision 3 -/

structure BitmapDataEx where
  bpp : ℕ
  codecID : ℕ
  width : ℕ
  height : ℕ
  length : ℕ
  data : List UInt8
deriving DecidableEq, Repr

structure CacheBitmapV3Order where
  cacheId : ℕ
  bpp : ℕ
  flags : ℕ
  cacheIndex : ℕ
  key1 : ℕ
  key2 : ℕ
  bitmapData : BitmapDataEx
deriving DecidableEq, Repr

def updateReadCacheBitmapV3Order (extraFlags : ℕ) : m CacheBitmapV3Order := do
  let cacheId := extraFlags &&& 0x0003
  let flags := (extraFlags &&& 0xFF80) >>> 7
  let bitsPerPixelId := (extraFlags &&& 0x0078) >>> 3
  let bpp ← liftM (m := Reader) fun s => (getCbr2Bpp bitsPerPixelId).map (·, s)
  need 21
  let cacheIndex ← u16le
  let key1 ← u32le
  let key2 ← u32le
  let dataBpp ← u8
  check (1 ≤ dataBpp ∧ dataBpp ≤ 32)
  seek 1
  seek 1
  let codecID ← u8
  let width ← u16le
  let height ← u16le
  let length ← u32le
  check (length ≠ 0)
  need length
  let data ← bytes length
  return { cacheId, bpp, flags, cacheIndex, key1, key2
           bitmapData := { bpp := dataBpp, codecID, width, height, length, data } }

/-- `update_write_cache_bitmap_v3_order`: the flags and the bytes. -/
def updateWriteCacheBitmapV3Order (order : CacheBitmapV3Order) : Option (ℕ × List UInt8) := do
  let bitsPerPixelId ← getBppBmf order.bpp
  let flags := (order.cacheId &&& 0x0003 ||| (order.flags <<< 7 &&& 0xFF80) |||
    (bitsPerPixelId <<< 3 &&& 0x0078)) % 2 ^ 16
  let data := order.bitmapData
  return (flags, le16 order.cacheIndex ++ (le32 order.key1 ++ (le32 order.key2 ++ (byte data.bpp ++
    (byte 0 ++ (byte 0 ++ (byte data.codecID ++ (le16 data.width ++ (le16 data.height ++
      (le32 data.length ++ data.data.take data.length))))))))))

/-! ### Glyphs -/

/-- The number of bytes of a glyph of `cx` times `cy` pixels, computed in a `UINT32`. -/
def glyphSize (cx cy : ℕ) : ℕ :=
  let cb := (cx + 7) % 2 ^ 32 / 8 * cy % 2 ^ 32
  (cb + if cb % 4 > 0 then 4 - cb % 4 else 0) % 2 ^ 32

/-- `GLYPH_DATA` and `GLYPH_DATA_V2`. -/
structure GlyphData where
  cacheIndex : ℕ
  x : ℤ
  y : ℤ
  cx : ℕ
  cy : ℕ
  cb : ℕ
  aj : List UInt8
deriving DecidableEq, Repr

def readInt16 : Reader ℤ := do
  let n ← u16le
  return Int.bmod n (2 ^ 16)

/-- A signed value that is written as a `UINT16`. -/
def writeInt16 (value : ℤ) : List UInt8 := le16 (value % 2 ^ 16).toNat

/-- The loop of `update_read_cache_glyph_order`. -/
def readGlyph : m GlyphData := do
  need 10
  let cacheIndex ← u16le
  let x ← readInt16
  let y ← readInt16
  let cx ← u16le
  let cy ← u16le
  let cb := glyphSize cx cy
  need cb
  let aj ← bytes cb
  return { cacheIndex, x, y, cx, cy, cb, aj }

/-- The loop of `update_write_cache_glyph_order`. -/
def writeGlyph (glyph : GlyphData) : List UInt8 :=
  le16 glyph.cacheIndex ++ (writeInt16 glyph.x ++ (writeInt16 glyph.y ++ (le16 glyph.cx ++
    (le16 glyph.cy ++ glyph.aj.take (glyphSize glyph.cx glyph.cy)))))

/-- The characters behind the glyphs, if there are any. -/
def readUnicode (flags cGlyphs : ℕ) : Reader (List ℕ) :=
  if flags &&& CG_GLYPH_UNICODE_PRESENT ≠ 0 ∧ cGlyphs > 0 then do
    need (2 * cGlyphs)
    many u16le cGlyphs
  else return []

/-- Zeros in place of the characters. -/
def writeUnicode (flags cGlyphs : ℕ) : List UInt8 :=
  if flags &&& CG_GLYPH_UNICODE_PRESENT ≠ 0 then List.replicate (cGlyphs * 2) 0 else []

/-- `CACHE_GLYPH_ORDER`.  `glyphData` are the first `cGlyphs` entries of the array. -/
structure CacheGlyphOrder where
  cacheId : ℕ
  cGlyphs : ℕ
  glyphData : List GlyphData
  unicodeCharacters : List ℕ
deriving DecidableEq, Repr

def updateReadCacheGlyphOrder (flags : ℕ) : m CacheGlyphOrder := do
  need 2
  let cacheId ← u8
  let cGlyphs ← u8
  let glyphData ← many readGlyph cGlyphs
  let unicodeCharacters ← readUnicode flags cGlyphs
  return { cacheId, cGlyphs, glyphData, unicodeCharacters }

/-- `update_write_cache_glyph_order`, which is given the flags. -/
def updateWriteCacheGlyphOrder (order : CacheGlyphOrder) (flags : ℕ) : List UInt8 :=
  byte order.cacheId ++ (byte order.cGlyphs ++ ((order.glyphData.take order.cGlyphs).flatMap writeGlyph ++
    writeUnicode flags order.cGlyphs))

/-! ### Glyphs, revision 2 -/

/-- The loop of `update_read_cache_glyph_v2_order`. -/
def readGlyphV2 : m GlyphData := do
  need 1
  let cacheIndex ← u8
  let x ← updateRead2ByteSigned
  let y ← updateRead2ByteSigned
  let cx ← updateRead2ByteUnsigned
  let cy ← updateRead2ByteUnsigned
  let cb := glyphSize cx cy
  need cb
  let aj ← bytes cb
  return { cacheIndex, x, y, cx, cy, cb, aj }

/-- The loop of `update_write_cache_glyph_v2_order`. -/
def writeGlyphV2 (glyph : GlyphData) : Option (List UInt8) := do
  let x ← updateWrite2ByteSigned glyph.x
  let y ← updateWrite2ByteSigned glyph.y
  let cx ← updateWrite2ByteUnsigned glyph.cx
  let cy ← updateWrite2ByteUnsigned glyph.cy
  return byte glyph.cacheIndex ++ (x ++ (y ++ (cx ++ (cy ++
    glyph.aj.take (glyphSize glyph.cx glyph.cy)))))

/-- `CACHE_GLYPH_V2_ORDER`.  `glyphData` are the first `cGlyphs` entries of the array. -/
structure CacheGlyphV2Order where
  cacheId : ℕ
  flags : ℕ
  cGlyphs : ℕ
  glyphData : List GlyphData
  unicodeCharacters : List ℕ
deriving DecidableEq, Repr

def updateReadCacheGlyphV2Order (extraFlags : ℕ) : m CacheGlyphV2Order := do
  let cacheId := extraFlags &&& 0x000F
  let flags := (extraFlags &&& 0x00F0) >>> 4
  let cGlyphs := (extraFlags &&& 0xFF00) >>> 8
  let glyphData ← many readGlyphV2 cGlyphs
  let unicodeCharacters ← readUnicode extraFlags cGlyphs
  return { cacheId, flags, cGlyphs, glyphData, unicodeCharacters }

/-- `update_write_cache_glyph_v2_order`: the flags and the bytes. -/
def updateWriteCacheGlyphV2Order (order : CacheGlyphV2Order) : Option (ℕ × List UInt8) := do
  let flags := (order.cacheId &&& 0x000F ||| (order.flags &&& 0x000F) <<< 4 |||
    (order.cGlyphs &&& 0x00FF) <<< 8) % 2 ^ 16
  let glyphs ← (order.glyphData.take order.cGlyphs).mapM writeGlyphV2
  return (flags, glyphs.flatten ++ writeUnicode flags order.cGlyphs)

end FreeRDP.Orders
