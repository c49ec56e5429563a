import FreeRDP.Lib.Positions
import FreeRDP.Orders.Secondary

/-!
# Receiving secondary orders

`update_recv_secondary_order` of `libfreerdp/core/orders.c`.  Its result depends on where the reader of
an order stops, also if the reader fails: the readers of the cache orders are taken as `StreamReader`s here,
which leave the stream there.
-/

namespace FreeRDP.Orders

open Wire

variable {m : Type → Type} [Monad m] [MonadLiftT Reader m]

/-! ### Settings -/

def GLYPH_SUPPORT_PARTIAL : ℕ := 1
def GLYPH_SUPPORT_FULL : ℕ := 2
def GLYPH_SUPPORT_ENCODE : ℕ := 3

/-- The settings that decide which secondary orders a client takes. -/
structure SecondarySettings where
  bitmapCacheEnabled : Bool
  bitmapCacheV3Enabled : Bool
  membltSupport : Bool
  mem3bltSupport : Bool
  glyphSupportLevel : ℕ
  allowUnanouncedOrdersFromServer : Bool

def checkSecondaryOrderSupported (settings : SecondarySettings) (orderType : ℕ) : Bool :=
  let condition :=
    if orderType = ORDER_TYPE_BITMAP_UNCOMPRESSED ∨ orderType = ORDER_TYPE_CACHE_BITMAP_COMPRESSED ∨
        orderType = ORDER_TYPE_BITMAP_UNCOMPRESSED_V2 ∨ orderType = ORDER_TYPE_BITMAP_COMPRESSED_V2 then
      settings.bitmapCacheEnabled
    else if orderType = ORDER_TYPE_BITMAP_COMPRESSED_V3 then settings.bitmapCacheV3Enabled
    else if orderType = ORDER_TYPE_CACHE_COLOR_TABLE then settings.membltSupport || settings.mem3bltSupport
    else if orderType = ORDER_TYPE_CACHE_GLYPH then
      settings.glyphSupportLevel ∈ [GLYPH_SUPPORT_PARTIAL, GLYPH_SUPPORT_FULL, GLYPH_SUPPORT_ENCODE]
    else if orderType = ORDER_TYPE_CACHE_BRUSH then true
    else false
  condition || settings.allowUnanouncedOrdersFromServer

/-! ### Receiving -/

/-- The callbacks of `rdpSecondaryUpdate`: `CacheOrderInfo`, and those for the orders.  A callback that
is not set gives `none`. -/
structure SecondaryUpdate where
  cacheOrderInfo : ℕ → ℕ → ℕ → Bool
  cache : SecondaryOrder → Option Bool

/-- The `switch` of `update_recv_secondary_order`: the order, if there is one to read. -/
def readSecondaryOrder (settings : SecondarySettings) (orderType extraFlags : ℕ) :
    m (Option SecondaryOrder) :=
  if orderType = ORDER_TYPE_BITMAP_UNCOMPRESSED ∨ orderType = ORDER_TYPE_CACHE_BITMAP_COMPRESSED then do
    let order ← updateReadCacheBitmapOrder (orderType = ORDER_TYPE_CACHE_BITMAP_COMPRESSED) extraFlags
    return some (.cacheBitmap order)
  else if orderType = ORDER_TYPE_BITMAP_UNCOMPRESSED_V2 ∨
    orderType = ORDER_TYPE_BITMAP_COMPRESSED_V2 then do
    let order ← updateReadCacheBitmapV2Order (orderType = ORDER_TYPE_BITMAP_COMPRESSED_V2) extraFlags
    return some (.cacheBitmapV2 order)
  else if orderType = ORDER_TYPE_BITMAP_COMPRESSED_V3 then do
    let order ← updateReadCacheBitmapV3Order extraFlags
    return some (.cacheBitmapV3 order)
  else if orderType = ORDER_TYPE_CACHE_COLOR_TABLE then do
    let order ← updateReadCacheColorTableOrder
    return some (.cacheColorTable order)
  else if orderType = ORDER_TYPE_CACHE_GLYPH then
    if settings.glyphSupportLevel ∈ [GLYPH_SUPPORT_PARTIAL, GLYPH_SUPPORT_FULL] then do
      let order ← updateReadCacheGlyphOrder extraFlags
      return some (.cacheGlyph order)
    else if settings.glyphSupportLevel = GLYPH_SUPPORT_ENCODE then do
      let order ← updateReadCacheGlyphV2Order extraFlags
      return some (.cacheGlyphV2 order)
    else return none
  else if orderType = ORDER_TYPE_CACHE_BRUSH then do
    let order ← updateReadCacheBrushOrder
    return some (.cacheBrush order)
  else return none

/-- The header of a secondary order behind `controlFlags`. -/
structure SecondaryHeader where
  orderLength : ℕ
  extraFlags : ℕ
  orderType : ℕ

/-- The beginning of `update_recv_secondary_order`. -/
def readSecondaryHeader : Reader SecondaryHeader := do
  need 5
  let orderLength ← u16le
  let extraFlags ← u16le
  let orderType ← u8
  return { orderLength, extraFlags, orderType }

/-- `end`, where the order starts at the position `start`. -/
def SecondaryHeader.endPosition (header : SecondaryHeader) (start : ℕ) : ℕ := start + header.orderLength + 7

/-- What a call of `update_recv_secondary_order` does: the order that is given to a callback, with the
position of the stream at that moment (counted from the byte behind the header), what is returned, and
the stream that is left. -/
structure Received where
  dispatched : Option (SecondaryOrder × ℕ)
  rc : Bool
  rest : List UInt8

/-- `update_recv_secondary_order` behind its checks, where `s` begins behind the header. -/
def recvOrder (settings : SecondarySettings) (secondary : SecondaryUpdate) (header : SecondaryHeader)
    (s : List UInt8) : Received :=
  let (order, s') :=
    (readSecondaryOrder settings header.orderType header.extraFlags : StreamReader (Option SecondaryOrder)) s
  let pos := s.length - s'.length
  let dispatched := order.join.bind fun order => (secondary.cache order).map fun _ => (order, pos)
  -- where there is no order `rc` is what `CacheOrderInfo` has returned
  let rc := order.join.elim true fun order => (secondary.cache order).getD false
  if pos > header.endPosition 0 then { dispatched, rc := false, rest := s' }
  else
    let diff := header.endPosition 0 - pos
    if diff ≤ s'.length then { dispatched, rc, rest := s'.drop diff }
    else { dispatched, rc := false, rest := s' }

def updateRecvSecondaryOrder (settings : SecondarySettings) (secondary : SecondaryUpdate) (s : List UInt8) :
    Received :=
  match readSecondaryHeader s with
  | none => { dispatched := none, rc := false, rest := s }
  | some (header, s) =>
    if secondary.cacheOrderInfo header.orderLength header.extraFlags header.orderType ∧
        header.orderLength + 7 ≤ s.length ∧ checkSecondaryOrderSupported settings header.orderType then
      recvOrder settings secondary header s
    else { dispatched := none, rc := false, rest := s }

end FreeRDP.Orders
