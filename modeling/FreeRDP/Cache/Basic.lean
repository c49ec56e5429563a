import FreeRDP.Lib.Run
import Mathlib.Algebra.Group.Nat.Defs

/-!
# The offscreen cache

`offscreen.c` of `libfreerdp/cache`: the bitmaps that Create Offscreen Bitmap orders make, and the
surface that the drawing orders go to.

A bitmap is named by the number of its allocation.  `surface` is the argument of the last call of
`SetSurface`, where `none` is the screen, and `freed` lists the bitmaps that `Bitmap_Free` was called
for.  The size of a bitmap is left out.
-/

namespace FreeRDP.Cache

open Checked

def screenBitmapSurface : ℕ := 0xFFFF

/-- `rdpOffscreenCache`, with the bitmaps and the surface. -/
structure Offscreen where
  maxEntries : ℕ
  entries : List (Option ℕ)
  currentSurface : ℕ
  surface : Option ℕ
  allocated : ℕ
  freed : List ℕ
deriving DecidableEq, Repr

/-- What of a `CREATE_OFFSCREEN_BITMAP_ORDER` the cache looks at. -/
structure CreateOffscreenBitmap where
  id : ℕ
  deleteList : List ℕ
deriving DecidableEq, Repr

def offscreenCacheNew : Offscreen where
  maxEntries := 2000
  entries := List.replicate 2000 none
  currentSurface := screenBitmapSurface
  surface := none
  allocated := 0
  freed := []

def offscreenCacheGet (index : ℕ) (s : Offscreen) : Option (Option ℕ) :=
  if index ≥ s.maxEntries then some none else load s.entries index

def offscreenCacheDelete (index : ℕ) (s : Offscreen) : Option Offscreen :=
  if index ≥ s.maxEntries then some s
  else do
    let prevBitmap ← load s.entries index
    let entries ← store s.entries index none
    return { s with entries := entries, freed := prevBitmap.toList ++ s.freed }

def offscreenCachePut (index bitmap : ℕ) (s : Offscreen) : Option Offscreen :=
  if index ≥ s.maxEntries then some s
  else do
    let s ← offscreenCacheDelete index s
    let entries ← store s.entries index (some bitmap)
    return { s with entries := entries }

/-- The loop of `update_gdi_create_offscreen_bitmap` over the delete list. -/
def offscreenDeleteAll : List ℕ → Offscreen → Option Offscreen
  | [], s => some s
  | index :: indices, s => do
    let s ← offscreenCacheDelete index s
    offscreenDeleteAll indices s

/-- `update_gdi_create_offscreen_bitmap`.  `alloc` and `new` are the results of `Bitmap_Alloc` and of the
callback `New`. -/
def updateGdiCreateOffscreenBitmap (order : CreateOffscreenBitmap) (alloc new : Bool) (s : Offscreen) :
    Option (Offscreen × Bool) :=
  if !alloc then some (s, false)
  else do
    let bitmap := s.allocated
    let s := { s with allocated := s.allocated + 1 }
    if !new then return ({ s with freed := bitmap :: s.freed }, false)
    let s ← offscreenCacheDelete order.id s
    let s ← offscreenCachePut order.id bitmap s
    let s := if s.currentSurface = order.id then { s with surface := some bitmap } else s
    let s ← offscreenDeleteAll order.deleteList s
    return (s, true)

def updateGdiSwitchSurface (bitmapId : ℕ) (s : Offscreen) : Option (Offscreen × Bool) :=
  if bitmapId = screenBitmapSurface then
    some ({ s with surface := none, currentSurface := bitmapId }, true)
  else do
    match ← offscreenCacheGet bitmapId s with
    | none => return (s, false)
    | some bmp => return ({ s with surface := some bmp, currentSurface := bitmapId }, true)

/-- The orders that the cache serves, with what the callbacks make of them. -/
inductive OffscreenOrder
  | create (order : CreateOffscreenBitmap) (alloc new : Bool)
  | switch (bitmapId : ℕ)
deriving DecidableEq, Repr

def offscreenOrder : OffscreenOrder → Offscreen → Option (Offscreen × Bool)
  | .create order alloc new => updateGdiCreateOffscreenBitmap order alloc new
  | .switch bitmapId => updateGdiSwitchSurface bitmapId

/-- One step of a session: the order is processed, with the result `ok`. -/
def OffscreenStep (s : Offscreen) (order : OffscreenOrder) (s' : Offscreen) : Prop :=
  ∃ ok, offscreenOrder order s = some (s', ok)

end FreeRDP.Cache

/-!
## The caches of the GDI

`bitmap.c`, `brush.c`, `palette.c`, `pointer.c` and `glyph.c` of `libfreerdp/cache`, and what the orders do
with the caches.  Each cache has a function that looks an entry up and one that replaces it.  An access
outside of what has been allocated gives `none`.

The objects in the caches are named by numbers.  The allocations of the caches succeed; an order says what
becomes of the objects that it makes.  What is drawn is left out.
-/

namespace FreeRDP.Cache

open Checked

/-- The sizes in the `rdpSettings`. -/
structure CacheSettings where
  bitmapCacheV2NumCells : ℕ
  /-- `BitmapCacheV2CellInfo[i].numEntries`, a `UINT32`. -/
  numEntries : ℕ → ℕ
  numEntries_lt : ∀ i, numEntries i < 2 ^ 32
  pointerCacheSize : ℕ
  /-- `GlyphCache[i].cacheEntries`. -/
  glyphCacheEntries : ℕ → ℕ

/-! ### Bitmaps -/

def bitmapCacheWaitingListIndex : ℕ := 0x7FFF

structure BitmapV2Cell where
  number : ℕ
  entries : List (Option ℕ)

/-- `rdpBitmapCache`. -/
structure BitmapCache where
  maxCells : ℕ
  cells : List BitmapV2Cell

/-- `bitmap_cache_new`.  The number of entries is computed in a `UINT32`. -/
def bitmapCacheNew (settings : CacheSettings) : BitmapCache where
  maxCells := settings.bitmapCacheV2NumCells
  cells := (List.range settings.bitmapCacheV2NumCells).map fun i =>
    { number := settings.numEntries i
      entries := List.replicate ((settings.numEntries i + 1) % 2 ^ 32) none }

/-- The index in the cell, or nothing if the functions refuse it. -/
def cellIndex (index : ℕ) (cell : BitmapV2Cell) : Option ℕ :=
  if index = bitmapCacheWaitingListIndex then some cell.number
  else if index > cell.number then none
  else some index

def bitmapCacheGet (id index : ℕ) (c : BitmapCache) : Option (Option ℕ) :=
  if id ≥ c.maxCells then some none
  else do
    let cell ← load c.cells id
    match cellIndex index cell with
    | none => some none
    | some index => load cell.entries index

def bitmapCachePut (id index bitmap : ℕ) (c : BitmapCache) : Option (BitmapCache × Bool) :=
  if id > c.maxCells then some (c, false)
  else do
    let cell ← load c.cells id
    match cellIndex index cell with
    | none => return (c, false)
    | some index =>
      let entries ← store cell.entries index (some bitmap)
      let cells ← store c.cells id { cell with entries := entries }
      return ({ c with cells := cells }, true)

/-! ### Brushes -/

structure BrushEntry where
  bpp : ℕ
  entry : Option ℕ

/-- `rdpBrushCache`. -/
structure BrushCache where
  maxEntries : ℕ
  maxMonoEntries : ℕ
  entries : List BrushEntry
  monoEntries : List BrushEntry

def brushCacheNew : BrushCache where
  maxEntries := 64
  maxMonoEntries := 64
  entries := List.replicate 64 ⟨0, none⟩
  monoEntries := List.replicate 64 ⟨0, none⟩

/-- `brush_cache_get`, with the depth of the brush. -/
def brushCacheGet (index bpp : ℕ) (c : BrushCache) : Option (Option ℕ × ℕ) :=
  if bpp = 1 then
    if index ≥ c.maxMonoEntries then some (none, bpp)
    else do
      let brush ← load c.monoEntries index
      return (brush.entry, brush.bpp)
  else
    if index ≥ c.maxEntries then some (none, bpp)
    else do
      let brush ← load c.entries index
      return (brush.entry, brush.bpp)

def brushCachePut (index entry bpp : ℕ) (c : BrushCache) : Option BrushCache :=
  if bpp = 1 then
    if index ≥ c.maxMonoEntries then some c
    else do
      let monoEntries ← store c.monoEntries index ⟨bpp, some entry⟩
      return { c with monoEntries := monoEntries }
  else
    if index ≥ c.maxEntries then some c
    else do
      let entries ← store c.entries index ⟨bpp, some entry⟩
      return { c with entries := entries }

/-! ### Palettes and pointers -/

/-- A cache with one row of entries: `rdpPaletteCache` and `rdpPointerCache`. -/
structure RowCache where
  maxEntries : ℕ
  entries : List (Option ℕ)

def rowCacheNew (maxEntries : ℕ) : RowCache := ⟨maxEntries, List.replicate maxEntries none⟩

def rowCacheGet (index : ℕ) (c : RowCache) : Option (Option ℕ) :=
  if index ≥ c.maxEntries then some none else load c.entries index

/-- An entry of a row is replaced; the old one is read, to be freed. -/
def rowCachePut (index entry : ℕ) (c : RowCache) : Option (RowCache × Bool) :=
  if index ≥ c.maxEntries then some (c, false)
  else do
    let _prev ← load c.entries index
    let entries ← store c.entries index (some entry)
    return ({ c with entries := entries }, true)

def paletteCacheNew : RowCache := rowCacheNew 6

def paletteCacheGet (index : ℕ) (c : RowCache) : Option (Option ℕ) := rowCacheGet index c

def paletteCachePut (index entry : ℕ) (c : RowCache) : Option RowCache :=
  (rowCachePut index entry c).map Prod.fst

def pointerCacheNew (settings : CacheSettings) : RowCache := rowCacheNew settings.pointerCacheSize

def pointerCacheGet (index : ℕ) (c : RowCache) : Option (Option ℕ) := rowCacheGet index c

def pointerCachePut (index pointer : ℕ) (c : RowCache) : Option (RowCache × Bool) :=
  rowCachePut index pointer c

/-! ### Glyphs -/

structure GlyphCells where
  number : ℕ
  entries : List (Option ℕ)

structure FragmentEntry where
  fragment : Option ℕ
  size : ℕ

/-- `rdpGlyphCache`. -/
structure GlyphCache where
  glyphCache : List GlyphCells
  fragCache : List FragmentEntry

def glyphCacheNew (settings : CacheSettings) : GlyphCache where
  glyphCache := (List.range 10).map fun i =>
    ⟨settings.glyphCacheEntries i, List.replicate (settings.glyphCacheEntries i) none⟩
  fragCache := List.replicate 256 ⟨none, 0⟩

def glyphCacheGet (id index : ℕ) (c : GlyphCache) : Option (Option ℕ) :=
  if id > 9 then some none
  else do
    let cache ← load c.glyphCache id
    if index > cache.number then some none else load cache.entries index

def glyphCachePut (id index glyph : ℕ) (c : GlyphCache) : Option (GlyphCache × Bool) :=
  if id > 9 then some (c, false)
  else do
    let cache ← load c.glyphCache id
    if index ≥ cache.number then return (c, false)
    let _prevGlyph ← load cache.entries index
    let entries ← store cache.entries index (some glyph)
    let cells ← store c.glyphCache id { cache with entries := entries }
    return ({ c with glyphCache := cells }, true)

/-- `glyph_cache_fragment_get`, with the size, which is cast to a `BYTE`. -/
def glyphCacheFragmentGet (index : ℕ) (c : GlyphCache) : Option (Option ℕ × ℕ) :=
  if index > 255 then some (none, 0)
  else do
    let e ← load c.fragCache index
    return (e.fragment, e.size % 2 ^ 8)

/-- `glyph_cache_fragment_put` of a copy, if there is memory for it. -/
def glyphCacheFragmentPut (index size : ℕ) (copy : Option ℕ) (c : GlyphCache) :
    Option (GlyphCache × Bool) :=
  if index > 255 then some (c, false)
  else
    match copy with
    | none => some (c, false)
    | some copy => do
      let _prevFragment ← load c.fragCache index
      let fragCache ← store c.fragCache index ⟨some copy, size⟩
      return ({ c with fragCache := fragCache }, true)

end FreeRDP.Cache
