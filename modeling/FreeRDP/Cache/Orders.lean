import FreeRDP.Cache.Basic

/-!
# The orders that use the caches

What the callbacks of `libfreerdp/cache` do with the caches when an order arrives.  An order that makes an
object says which one; it says `none` when the allocation or a callback fails before the cache is used.

A glyph order is the sequence of what its data says: glyphs of a cache are drawn, fragments are used or
added, and a Fast Glyph order puts its glyph into the cache before that.
-/

namespace FreeRDP.Cache

open Checked

/-- `rdpCache`. -/
structure Caches where
  glyph : GlyphCache
  brush : BrushCache
  pointer : RowCache
  bitmap : BitmapCache
  offscreen : Offscreen
  palette : RowCache

def cacheNew (settings : CacheSettings) : Caches where
  glyph := glyphCacheNew settings
  brush := brushCacheNew
  pointer := pointerCacheNew settings
  bitmap := bitmapCacheNew settings
  offscreen := offscreenCacheNew
  palette := paletteCacheNew

/-- What the cache looks at in an `rdpBrush`. -/
structure BrushRef where
  style : ℕ
  index : ℕ
  bpp : ℕ

def cachedBrush : ℕ := 0x80

/-! ### Bitmaps and brushes -/

/-- The bitmap of `update_gdi_memblt` and `update_gdi_mem3blt`. -/
def memBitmap (cacheId cacheIndex : ℕ) (c : Caches) : Option (Option ℕ) :=
  if cacheId = 0xFF then offscreenCacheGet cacheIndex c.offscreen
  else bitmapCacheGet (cacheId % 2 ^ 8) cacheIndex c.bitmap

def updateGdiMemblt (cacheId cacheIndex : ℕ) (c : Caches) : Option (Caches × Bool) := do
  let _bitmap ← memBitmap cacheId cacheIndex c
  return (c, true)

def updateGdiMem3blt (cacheId cacheIndex : ℕ) (brush : BrushRef) (c : Caches) :
    Option (Caches × Bool) := do
  match ← memBitmap cacheId cacheIndex c with
  | none => return (c, true)
  | some _ =>
    if brush.style &&& cachedBrush ≠ 0 then
      let (data, _) ← brushCacheGet brush.index brush.bpp c.brush
      return (c, data.isSome)
    else return (c, true)

/-- `update_gdi_cache_bitmap` and `update_gdi_cache_bitmap_v3`. -/
def updateGdiCacheBitmap (cacheId cacheIndex : ℕ) (bitmap : Option ℕ) (c : Caches) :
    Option (Caches × Bool) :=
  match bitmap with
  | none => some (c, false)
  | some bitmap => do
    let _prevBitmap ← bitmapCacheGet cacheId cacheIndex c.bitmap
    let (cache, ok) ← bitmapCachePut cacheId cacheIndex bitmap c.bitmap
    return ({ c with bitmap := cache }, ok)

/-- `update_gdi_cache_bitmap_v2`.  The entry is looked up before the callback `New` is called. -/
def updateGdiCacheBitmapV2 (cacheId cacheIndex : ℕ) (bitmap : Option ℕ) (new : Bool) (c : Caches) :
    Option (Caches × Bool) :=
  match bitmap with
  | none => some (c, false)
  | some bitmap => do
    let _prevBitmap ← bitmapCacheGet cacheId cacheIndex c.bitmap
    if !new then return (c, false)
    let (cache, ok) ← bitmapCachePut cacheId cacheIndex bitmap c.bitmap
    return ({ c with bitmap := cache }, ok)

/-- `update_gdi_patblt` and `update_gdi_polygon_cb`. -/
def updateGdiPatblt (brush : BrushRef) (c : Caches) : Option (Caches × Bool) :=
  if brush.style &&& cachedBrush ≠ 0 then do
    let _data ← brushCacheGet brush.index brush.bpp c.brush
    return (c, true)
  else some (c, true)

def updateGdiCacheBrush (index bpp : ℕ) (data : Option ℕ) (c : Caches) : Option (Caches × Bool) :=
  match data with
  | none => some (c, false)
  | some data => do
    let brush ← brushCachePut index data bpp c.brush
    return ({ c with brush := brush }, true)

/-! ### Palettes and pointers -/

def updateGdiCacheColorTable (cacheIndex : ℕ) (colorTable : Option ℕ) (c : Caches) :
    Option (Caches × Bool) :=
  match colorTable with
  | none => some (c, false)
  | some colorTable => do
    let palette ← paletteCachePut cacheIndex colorTable c.palette
    return ({ c with palette := palette }, true)

/-- `palette_cache_get`, which no order calls. -/
def paletteLookup (cacheIndex : ℕ) (c : Caches) : Option (Caches × Bool) := do
  let entry ← paletteCacheGet cacheIndex c.palette
  return (c, entry.isSome)

/-- `update_pointer_color`, `update_pointer_large` and `update_pointer_new`. -/
def updatePointerNew (cacheIndex : ℕ) (pointer : Option ℕ) (c : Caches) : Option (Caches × Bool) :=
  match pointer with
  | none => some (c, false)
  | some pointer => do
    let (cache, ok) ← pointerCachePut cacheIndex pointer c.pointer
    return ({ c with pointer := cache }, ok)

def updatePointerCached (cacheIndex : ℕ) (c : Caches) : Option (Caches × Bool) := do
  let pointer ← pointerCacheGet cacheIndex c.pointer
  return (c, pointer.isSome)

/-! ### Glyphs -/

/-- `update_gdi_cache_glyph` and `update_gdi_cache_glyph_v2`: a list of indices and glyphs. -/
def updateGdiCacheGlyph (cacheId : ℕ) : List (ℕ × Option ℕ) → Caches → Option (Caches × Bool)
  | [], c => some (c, true)
  | (_, none) :: _, c => some (c, false)
  | (cacheIndex, some glyph) :: glyphs, c => do
    let (cache, ok) ← glyphCachePut cacheId cacheIndex glyph c.glyph
    let c := { c with glyph := cache }
    if ok then updateGdiCacheGlyph cacheId glyphs c else return (c, false)

def updateProcessGlyph (cacheId cacheIndex : ℕ) (c : Caches) : Option (Caches × Bool) := do
  let glyph ← glyphCacheGet cacheId cacheIndex c.glyph
  return (c, glyph.isSome)

/-- `GLYPH_FRAGMENT_USE` of `update_process_glyph_fragments`, without the glyphs of the fragment. -/
def glyphFragmentUse (id : ℕ) (c : Caches) : Option (Caches × Bool) := do
  let (fragments, _) ← glyphCacheFragmentGet id c.glyph
  return (c, fragments.isSome)

/-- `GLYPH_FRAGMENT_ADD` of `update_process_glyph_fragments`. -/
def glyphFragmentAdd (id size : ℕ) (copy : Option ℕ) (c : Caches) : Option (Caches × Bool) := do
  let (cache, _) ← glyphCacheFragmentPut id size copy c.glyph
  return ({ c with glyph := cache }, true)

/-! ### Orders -/

/-- The orders, and the pieces of the glyph orders. -/
inductive CacheOrder
  | memblt (cacheId cacheIndex : ℕ)
  | mem3blt (cacheId cacheIndex : ℕ) (brush : BrushRef)
  | cacheBitmap (cacheId cacheIndex : ℕ) (bitmap : Option ℕ)
  | cacheBitmapV2 (cacheId cacheIndex : ℕ) (bitmap : Option ℕ) (new : Bool)
  | patblt (brush : BrushRef)
  | cacheBrush (index bpp : ℕ) (data : Option ℕ)
  | cacheColorTable (cacheIndex : ℕ) (colorTable : Option ℕ)
  | paletteLookup (cacheIndex : ℕ)
  | pointerNew (cacheIndex : ℕ) (pointer : Option ℕ)
  | pointerCached (cacheIndex : ℕ)
  | cacheGlyph (cacheId : ℕ) (glyphs : List (ℕ × Option ℕ))
  | processGlyph (cacheId cacheIndex : ℕ)
  | fragmentUse (id : ℕ)
  | fragmentAdd (id size : ℕ) (copy : Option ℕ)
  | offscreen (order : OffscreenOrder)

def cacheOrder (c : Caches) : CacheOrder → Option (Caches × Bool)
  | .memblt cacheId cacheIndex => updateGdiMemblt cacheId cacheIndex c
  | .mem3blt cacheId cacheIndex brush => updateGdiMem3blt cacheId cacheIndex brush c
  | .cacheBitmap cacheId cacheIndex bitmap => updateGdiCacheBitmap cacheId cacheIndex bitmap c
  | .cacheBitmapV2 cacheId cacheIndex bitmap new =>
    updateGdiCacheBitmapV2 cacheId cacheIndex bitmap new c
  | .patblt brush => updateGdiPatblt brush c
  | .cacheBrush index bpp data => updateGdiCacheBrush index bpp data c
  | .cacheColorTable cacheIndex colorTable => updateGdiCacheColorTable cacheIndex colorTable c
  | .paletteLookup cacheIndex => paletteLookup cacheIndex c
  | .pointerNew cacheIndex pointer => updatePointerNew cacheIndex pointer c
  | .pointerCached cacheIndex => updatePointerCached cacheIndex c
  | .cacheGlyph cacheId glyphs => updateGdiCacheGlyph cacheId glyphs c
  | .processGlyph cacheId cacheIndex => updateProcessGlyph cacheId cacheIndex c
  | .fragmentUse id => glyphFragmentUse id c
  | .fragmentAdd id size copy => glyphFragmentAdd id size copy c
  | .offscreen order => do
    let (cache, ok) ← offscreenOrder order c.offscreen
    return ({ c with offscreen := cache }, ok)

/-- A sequence of orders, whether they succeed or not. -/
def cacheOrders (c : Caches) : List CacheOrder → Option Caches
  | [] => some c
  | order :: orders => do
    let (c, _) ← cacheOrder c order
    cacheOrders c orders

end FreeRDP.Cache
