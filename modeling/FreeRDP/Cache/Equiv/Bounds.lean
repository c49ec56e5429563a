import FreeRDP.Cache.Orders
import FreeRDP.Cache.Equiv.Offscreen

/-!
# The caches are indexed within their bounds

Each cache keeps the sizes that it has been given (`Sized`), and each function stays inside of them but for

* `bitmap_cache_put`, whose check admits the cell behind the last one;
* `glyph_cache_get`, whose check admits the entry behind the last one;
* the cells of a bitmap cache with `2 ^ 32 - 1` entries, whose allocation wraps to nothing.

`cacheOrders_isSome_iff`: a session stays inside the caches if and only if none of its orders meets one of
these.
-/

namespace FreeRDP.Cache

open Checked

variable {settings : CacheSettings} {id index bpp : ℕ}

/-! ### Bitmaps -/

structure BitmapCache.Sized (settings : CacheSettings) (c : BitmapCache) : Prop where
  maxCells : c.maxCells = settings.bitmapCacheV2NumCells
  length : c.cells.length = settings.bitmapCacheV2NumCells
  cell : ∀ id cell, load c.cells id = some cell →
    cell.number = settings.numEntries id ∧
      cell.entries.length = (settings.numEntries id + 1) % 2 ^ 32

/-- The entry that `index` names in a cell is in its allocation. -/
def CellInside (settings : CacheSettings) (id index : ℕ) : Prop :=
  id < settings.bitmapCacheV2NumCells →
    settings.numEntries id + 1 < 2 ^ 32 ∨ settings.numEntries id < index

theorem bitmapCacheNew_sized (settings : CacheSettings) : (bitmapCacheNew settings).Sized settings where
  maxCells := rfl
  length := by simp [bitmapCacheNew]
  cell id cell h := by
    simp only [bitmapCacheNew, load, List.getElem?_map, Option.map_eq_some_iff,
      List.getElem?_eq_some_iff] at h
    obtain ⟨i, ⟨hid, hi⟩, rfl⟩ := h
    rw [List.getElem_range] at hi
    subst hi
    exact ⟨rfl, List.length_replicate⟩

section Bitmap

variable {c c' : BitmapCache}

/-- The index that is used in a cell whose allocation has not wrapped is in it. -/
theorem cellIndex_lt {cell : BitmapV2Cell} {n i : ℕ} (hnumber : cell.number = n)
    (hlength : cell.entries.length = (n + 1) % 2 ^ 32) (hn : n < 2 ^ 32)
    (hinside : n + 1 < 2 ^ 32 ∨ n < index) (hi : cellIndex index cell = some i) :
    i < cell.entries.length := by
  unfold cellIndex at hi
  have hwaiting : bitmapCacheWaitingListIndex = 32767 := rfl
  split at hi
  · obtain rfl := Option.some.inj hi
    omega
  · split at hi
    · exact nomatch hi
    · obtain rfl := Option.some.inj hi
      omega

/-- An allocation that has wrapped has no entries at all. -/
theorem cellIndex_wrapped {cell : BitmapV2Cell} {n : ℕ} (hnumber : cell.number = n)
    (hlength : cell.entries.length = (n + 1) % 2 ^ 32) (hn : n < 2 ^ 32)
    (hout : ¬ (n + 1 < 2 ^ 32 ∨ n < index)) :
    ∃ i, cellIndex index cell = some i ∧ cell.entries.length ≤ i := by
  have hzero : cell.entries.length = 0 := by
    rw [hlength, show n + 1 = 2 ^ 32 by omega, Nat.mod_self]
  unfold cellIndex
  split
  · exact ⟨_, rfl, by omega⟩
  · rw [if_neg (by omega)]
    exact ⟨_, rfl, by omega⟩

theorem BitmapCache.Sized.get (h : c.Sized settings) (hinside : CellInside settings id index) :
    ∃ bitmap, bitmapCacheGet id index c = some bitmap := by
  have hmax := h.maxCells
  have hlength := h.length
  unfold bitmapCacheGet
  split
  · exact ⟨none, rfl⟩
  · obtain ⟨cell, hcell⟩ := exists_load (by omega : id < c.cells.length)
    obtain ⟨hnumber, hentries⟩ := h.cell id cell hcell
    simp only [hcell, Option.bind_eq_bind, Option.bind_some]
    cases hi : cellIndex index cell with
    | none => exact ⟨none, rfl⟩
    | some i =>
      exact exists_load (cellIndex_lt hnumber hentries (settings.numEntries_lt id)
        (hinside (by omega)) hi)

theorem BitmapCache.Sized.get_eq_none (h : c.Sized settings) (hout : ¬ CellInside settings id index) :
    bitmapCacheGet id index c = none := by
  have hmax := h.maxCells
  have hlength := h.length
  obtain ⟨hid, hout⟩ := Classical.not_imp.mp hout
  obtain ⟨cell, hcell⟩ := exists_load (by omega : id < c.cells.length)
  obtain ⟨hnumber, hentries⟩ := h.cell id cell hcell
  obtain ⟨i, hi, hle⟩ := cellIndex_wrapped hnumber hentries (settings.numEntries_lt id) hout
  rw [bitmapCacheGet, if_neg (by omega), hcell, Option.bind_eq_bind, Option.bind_some, hi]
  exact load_eq_none hle

theorem BitmapCache.Sized.put (h : c.Sized settings) (bitmap : ℕ)
    (hid : id ≠ settings.bitmapCacheV2NumCells) (hinside : CellInside settings id index) :
    ∃ c' ok, bitmapCachePut id index bitmap c = some (c', ok) ∧ c'.Sized settings := by
  have hmax := h.maxCells
  have hlength := h.length
  unfold bitmapCachePut
  split
  · exact ⟨c, false, rfl, h⟩
  · obtain ⟨cell, hcell⟩ := exists_load (by omega : id < c.cells.length)
    obtain ⟨hnumber, hentries⟩ := h.cell id cell hcell
    simp only [hcell, Option.bind_eq_bind, Option.bind_some, Option.pure_def]
    cases hi : cellIndex index cell with
    | none => exact ⟨c, false, rfl, h⟩
    | some i =>
      have hlt := cellIndex_lt hnumber hentries (settings.numEntries_lt id) (hinside (by omega)) hi
      dsimp only
      rw [store_of_lt hlt, Option.bind_some, store_of_lt (by omega), Option.bind_some]
      refine ⟨_, true, rfl, hmax, List.length_set.trans hlength, fun id' cell' hcell' => ?_⟩
      by_cases heq : id = id'
      · subst heq
        rw [load_set_self (by omega)] at hcell'
        obtain rfl := Option.some.inj hcell'
        exact ⟨hnumber, List.length_set.trans hentries⟩
      · rw [load_set_ne heq] at hcell'
        exact h.cell id' cell' hcell'

theorem BitmapCache.Sized.put_eq_none (h : c.Sized settings) (bitmap : ℕ)
    (hout : id = settings.bitmapCacheV2NumCells ∨ ¬ CellInside settings id index) :
    bitmapCachePut id index bitmap c = none := by
  have hmax := h.maxCells
  have hlength := h.length
  rcases hout with hid | hout
  · -- the cell behind the last one
    rw [bitmapCachePut, if_neg (by omega), load_eq_none (by omega)]
    rfl
  · obtain ⟨hid, hout⟩ := Classical.not_imp.mp hout
    obtain ⟨cell, hcell⟩ := exists_load (by omega : id < c.cells.length)
    obtain ⟨hnumber, hentries⟩ := h.cell id cell hcell
    obtain ⟨i, hi, hle⟩ := cellIndex_wrapped hnumber hentries (settings.numEntries_lt id) hout
    have hstore : store cell.entries i (some bitmap) = none := if_neg (by omega)
    rw [bitmapCachePut, if_neg (by omega), hcell, Option.bind_eq_bind, Option.bind_some, hi]
    dsimp only
    rw [hstore]
    rfl

end Bitmap

/-! ### Brushes, palettes and pointers -/

structure BrushCache.Sized (c : BrushCache) : Prop where
  length : c.entries.length = c.maxEntries
  mono : c.monoEntries.length = c.maxMonoEntries

theorem brushCacheNew_sized : brushCacheNew.Sized := ⟨List.length_replicate, List.length_replicate⟩

theorem BrushCache.Sized.get {c : BrushCache} (h : c.Sized) (index bpp : ℕ) :
    ∃ brush, brushCacheGet index bpp c = some brush := by
  have hlength := h.length
  have hmono := h.mono
  unfold brushCacheGet
  split
  · split
    · exact ⟨_, rfl⟩
    · obtain ⟨brush, hbrush⟩ := exists_load (by omega : index < c.monoEntries.length)
      rw [hbrush]
      exact ⟨_, rfl⟩
  · split
    · exact ⟨_, rfl⟩
    · obtain ⟨brush, hbrush⟩ := exists_load (by omega : index < c.entries.length)
      rw [hbrush]
      exact ⟨_, rfl⟩

theorem BrushCache.Sized.put {c : BrushCache} (h : c.Sized) (index entry bpp : ℕ) :
    ∃ c', brushCachePut index entry bpp c = some c' ∧ c'.Sized := by
  have hlength := h.length
  have hmono := h.mono
  unfold brushCachePut
  split
  · split
    · exact ⟨c, rfl, h⟩
    · rw [store_of_lt (by omega)]
      exact ⟨_, rfl, hlength, List.length_set.trans hmono⟩
  · split
    · exact ⟨c, rfl, h⟩
    · rw [store_of_lt (by omega)]
      exact ⟨_, rfl, List.length_set.trans hlength, hmono⟩

def RowCache.Sized (c : RowCache) : Prop := c.entries.length = c.maxEntries

theorem rowCacheNew_sized (maxEntries : ℕ) : (rowCacheNew maxEntries).Sized := List.length_replicate

theorem RowCache.Sized.get {c : RowCache} (h : c.Sized) (index : ℕ) :
    ∃ entry, rowCacheGet index c = some entry := by
  unfold RowCache.Sized at h
  unfold rowCacheGet
  split
  · exact ⟨none, rfl⟩
  · exact exists_load (by omega)

theorem RowCache.Sized.put {c : RowCache} (h : c.Sized) (index entry : ℕ) :
    ∃ c' ok, rowCachePut index entry c = some (c', ok) ∧ c'.Sized := by
  unfold RowCache.Sized at h
  unfold rowCachePut
  split
  · exact ⟨c, false, rfl, h⟩
  · obtain ⟨prev, hprev⟩ := exists_load (by omega : index < c.entries.length)
    rw [hprev, store_of_lt (by omega)]
    exact ⟨_, true, rfl, List.length_set.trans h⟩

/-! ### Glyphs -/

structure GlyphCache.Sized (settings : CacheSettings) (c : GlyphCache) : Prop where
  length : c.glyphCache.length = 10
  cell : ∀ id cache, load c.glyphCache id = some cache →
    cache.number = settings.glyphCacheEntries id ∧
      cache.entries.length = settings.glyphCacheEntries id
  fragments : c.fragCache.length = 256

theorem glyphCacheNew_sized (settings : CacheSettings) : (glyphCacheNew settings).Sized settings where
  length := rfl
  cell id cache h := by
    simp only [glyphCacheNew, load, List.getElem?_map, Option.map_eq_some_iff,
      List.getElem?_eq_some_iff] at h
    obtain ⟨i, ⟨hid, hi⟩, rfl⟩ := h
    rw [List.getElem_range] at hi
    subst hi
    exact ⟨rfl, List.length_replicate⟩
  fragments := List.length_replicate

section Glyph

variable {c c' : GlyphCache}

theorem GlyphCache.Sized.get (h : c.Sized settings)
    (hinside : id ≤ 9 → index ≠ settings.glyphCacheEntries id) :
    ∃ glyph, glyphCacheGet id index c = some glyph := by
  have hlength := h.length
  unfold glyphCacheGet
  split
  · exact ⟨none, rfl⟩
  · obtain ⟨cache, hcache⟩ := exists_load (by omega : id < c.glyphCache.length)
    obtain ⟨hnumber, hentries⟩ := h.cell id cache hcache
    have hne := hinside (by omega)
    rw [hcache]
    change ∃ glyph, (if index > cache.number then some none else load cache.entries index) = some glyph
    split
    · exact ⟨none, rfl⟩
    · exact exists_load (by omega)

/-- The entry behind the last one is read. -/
theorem GlyphCache.Sized.get_eq_none (h : c.Sized settings) (hid : id ≤ 9)
    (hindex : index = settings.glyphCacheEntries id) : glyphCacheGet id index c = none := by
  have hlength := h.length
  obtain ⟨cache, hcache⟩ := exists_load (by omega : id < c.glyphCache.length)
  obtain ⟨hnumber, hentries⟩ := h.cell id cache hcache
  rw [glyphCacheGet, if_neg (by omega), hcache]
  change (if index > cache.number then some none else load cache.entries index) = none
  rw [if_neg (by omega), load_eq_none (by omega)]

theorem GlyphCache.Sized.put (h : c.Sized settings) (id index glyph : ℕ) :
    ∃ c' ok, glyphCachePut id index glyph c = some (c', ok) ∧ c'.Sized settings := by
  have hlength := h.length
  unfold glyphCachePut
  split
  · exact ⟨c, false, rfl, h⟩
  · obtain ⟨cache, hcache⟩ := exists_load (by omega : id < c.glyphCache.length)
    obtain ⟨hnumber, hentries⟩ := h.cell id cache hcache
    rw [hcache]
    by_cases hindex : index ≥ cache.number
    · refine ⟨c, false, ?_, h⟩
      change (if index ≥ cache.number then some (c, false) else _) = _
      rw [if_pos hindex]
    · obtain ⟨prev, hprev⟩ := exists_load (by omega : index < cache.entries.length)
      refine ⟨{ c with
          glyphCache := c.glyphCache.set id ⟨cache.number, cache.entries.set index (some glyph)⟩ },
            true, ?_,
        List.length_set.trans hlength, fun id' cache' hcache' => ?_, h.fragments⟩
      · change (if index ≥ cache.number then some (c, false)
          else (load cache.entries index).bind fun _ =>
            (store cache.entries index (some glyph)).bind fun entries =>
            (store c.glyphCache id { cache with entries := entries }).bind fun cells =>
              some ({ c with glyphCache := cells }, true)) = _
        rw [if_neg hindex, hprev, Option.bind_some, store_of_lt (by omega), Option.bind_some,
          store_of_lt (by omega), Option.bind_some]
      · by_cases heq : id = id'
        · subst heq
          rw [load_set_self (by omega)] at hcache'
          obtain rfl := Option.some.inj hcache'
          exact ⟨hnumber, List.length_set.trans hentries⟩
        · rw [load_set_ne heq] at hcache'
          exact h.cell id' cache' hcache'

theorem GlyphCache.Sized.fragmentGet (h : c.Sized settings) (index : ℕ) :
    ∃ fragment, glyphCacheFragmentGet index c = some fragment := by
  have hlength := h.fragments
  unfold glyphCacheFragmentGet
  split
  · exact ⟨_, rfl⟩
  · obtain ⟨fragment, hfragment⟩ := exists_load (by omega : index < c.fragCache.length)
    rw [hfragment]
    exact ⟨_, rfl⟩

theorem GlyphCache.Sized.fragmentPut (h : c.Sized settings) (index size : ℕ) (copy : Option ℕ) :
    ∃ c' ok, glyphCacheFragmentPut index size copy c = some (c', ok) ∧ c'.Sized settings := by
  have hlength := h.fragments
  unfold glyphCacheFragmentPut
  split
  · exact ⟨c, false, rfl, h⟩
  · cases copy with
    | none => exact ⟨c, false, rfl, h⟩
    | some copy =>
      obtain ⟨prev, hprev⟩ := exists_load (by omega : index < c.fragCache.length)
      dsimp only
      rw [hprev, store_of_lt (by omega)]
      exact ⟨_, true, rfl, h.length, h.cell, List.length_set.trans hlength⟩

end Glyph

/-! ### Orders -/

structure Caches.Sized (settings : CacheSettings) (c : Caches) : Prop where
  glyph : c.glyph.Sized settings
  brush : c.brush.Sized
  pointer : c.pointer.Sized
  bitmap : c.bitmap.Sized settings
  offscreen : Owned c.offscreen
  palette : c.palette.Sized

theorem cacheNew_sized (settings : CacheSettings) : (cacheNew settings).Sized settings where
  glyph := glyphCacheNew_sized settings
  brush := brushCacheNew_sized
  pointer := rowCacheNew_sized _
  bitmap := bitmapCacheNew_sized settings
  offscreen := owned_new
  palette := rowCacheNew_sized _

/-- What an order must not ask for: the bitmap cell behind the last one, a bitmap in a cell whose allocation
has wrapped, the glyph behind the last one of a glyph cache. -/
def OrderInside (settings : CacheSettings) : CacheOrder → Prop
  | .memblt cacheId cacheIndex | .mem3blt cacheId cacheIndex _ =>
    cacheId ≠ 0xFF → CellInside settings (cacheId % 2 ^ 8) cacheIndex
  | .cacheBitmap cacheId cacheIndex bitmap =>
    bitmap ≠ none →
      cacheId ≠ settings.bitmapCacheV2NumCells ∧ CellInside settings cacheId cacheIndex
  | .cacheBitmapV2 cacheId cacheIndex bitmap new =>
    bitmap ≠ none →
      (new = true → cacheId ≠ settings.bitmapCacheV2NumCells) ∧ CellInside settings cacheId cacheIndex
  | .processGlyph cacheId cacheIndex => cacheId ≤ 9 → cacheIndex ≠ settings.glyphCacheEntries cacheId
  | _ => True

section Orders

variable {c c' : Caches}

theorem offscreenCacheGet_isSome {s : Offscreen} (h : Owned s) (index : ℕ) :
    ∃ bitmap, offscreenCacheGet index s = some bitmap := by
  have hlength := h.length
  unfold offscreenCacheGet
  split
  · exact ⟨none, rfl⟩
  · exact exists_load (by omega)

theorem memBitmap_isSome (h : c.Sized settings) {cacheId cacheIndex : ℕ} :
    (∃ bitmap, memBitmap cacheId cacheIndex c = some bitmap) ↔
      (cacheId ≠ 0xFF → CellInside settings (cacheId % 2 ^ 8) cacheIndex) := by
  unfold memBitmap
  split
  · next hff =>
      exact iff_of_true (offscreenCacheGet_isSome h.offscreen cacheIndex) fun hne => absurd hff hne
  · next hne =>
    constructor
    · rintro ⟨bitmap, hget⟩ -
      by_contra hout
      exact nomatch (h.bitmap.get_eq_none hout).symm.trans hget
    · intro hinside
      exact h.bitmap.get (hinside hne)

theorem updateGdiCacheGlyph_sized (h : c.Sized settings) (cacheId : ℕ) (glyphs : List (ℕ × Option ℕ)) :
    ∃ c' ok, updateGdiCacheGlyph cacheId glyphs c = some (c', ok) ∧ c'.Sized settings := by
  induction glyphs generalizing c with
  | nil => exact ⟨c, true, rfl, h⟩
  | cons head glyphs ih =>
    obtain ⟨cacheIndex, glyph⟩ := head
    cases glyph with
    | none => exact ⟨c, false, rfl, h⟩
    | some glyph =>
      obtain ⟨cache, ok, hput, hcache⟩ := h.glyph.put cacheId cacheIndex glyph
      have h' : Caches.Sized settings { c with glyph := cache } :=
        ⟨hcache, h.brush, h.pointer, h.bitmap, h.offscreen, h.palette⟩
      rw [updateGdiCacheGlyph, hput]
      cases ok with
      | false => exact ⟨_, false, rfl, h'⟩
      | true => exact ih h'

/-- An order that asks for nothing outside keeps the sizes. -/
theorem cacheOrder_sized (h : c.Sized settings) {order : CacheOrder}
    (hinside : OrderInside settings order) :
    ∃ c' ok, cacheOrder c order = some (c', ok) ∧ c'.Sized settings := by
  cases order with
  | memblt cacheId cacheIndex =>
    obtain ⟨bitmap, hbitmap⟩ := (memBitmap_isSome h).mpr hinside
    exact ⟨c, true, by rw [cacheOrder, updateGdiMemblt, hbitmap]; rfl, h⟩
  | mem3blt cacheId cacheIndex brush =>
    obtain ⟨bitmap, hbitmap⟩ := (memBitmap_isSome h).mpr hinside
    obtain ⟨data, hdata⟩ := h.brush.get brush.index brush.bpp
    rw [cacheOrder, updateGdiMem3blt, hbitmap]
    cases bitmap with
    | none => exact ⟨c, true, rfl, h⟩
    | some bitmap =>
      change ∃ c' ok, (if brush.style &&& cachedBrush ≠ 0 then
          (brushCacheGet brush.index brush.bpp c.brush).bind fun data => some (c, data.1.isSome)
        else some (c, true)) = some (c', ok) ∧ c'.Sized settings
      split
      · rw [hdata]
        exact ⟨c, _, rfl, h⟩
      · exact ⟨c, true, rfl, h⟩
  | cacheBitmap cacheId cacheIndex bitmap =>
    cases bitmap with
    | none => exact ⟨c, false, rfl, h⟩
    | some bitmap =>
      obtain ⟨hid, hcell⟩ := hinside nofun
      obtain ⟨prev, hprev⟩ := h.bitmap.get hcell
      obtain ⟨cache, ok, hput, hcache⟩ := h.bitmap.put bitmap hid hcell
      refine ⟨{ c with bitmap := cache }, ok, ?_, h.glyph, h.brush, h.pointer, hcache, h.offscreen,
        h.palette⟩
      rw [cacheOrder, updateGdiCacheBitmap, hprev, hput]
      rfl
  | cacheBitmapV2 cacheId cacheIndex bitmap new =>
    cases bitmap with
    | none => exact ⟨c, false, rfl, h⟩
    | some bitmap =>
      obtain ⟨hid, hcell⟩ := hinside nofun
      obtain ⟨prev, hprev⟩ := h.bitmap.get hcell
      cases new with
      | false => exact ⟨c, false, by rw [cacheOrder, updateGdiCacheBitmapV2, hprev]; rfl, h⟩
      | true =>
        obtain ⟨cache, ok, hput, hcache⟩ := h.bitmap.put bitmap (hid rfl) hcell
        refine ⟨{ c with bitmap := cache }, ok, ?_, h.glyph, h.brush, h.pointer, hcache, h.offscreen,
          h.palette⟩
        rw [cacheOrder, updateGdiCacheBitmapV2, hprev, hput]
        rfl
  | patblt brush =>
    obtain ⟨data, hdata⟩ := h.brush.get brush.index brush.bpp
    rw [cacheOrder, updateGdiPatblt, hdata]
    split
    · exact ⟨c, true, rfl, h⟩
    · exact ⟨c, true, rfl, h⟩
  | cacheBrush index bpp data =>
    cases data with
    | none => exact ⟨c, false, rfl, h⟩
    | some data =>
      obtain ⟨cache, hput, hcache⟩ := h.brush.put index data bpp
      refine ⟨{ c with brush := cache }, true, ?_, h.glyph, hcache, h.pointer, h.bitmap, h.offscreen,
        h.palette⟩
      rw [cacheOrder, updateGdiCacheBrush, hput]
      rfl
  | cacheColorTable cacheIndex colorTable =>
    cases colorTable with
    | none => exact ⟨c, false, rfl, h⟩
    | some colorTable =>
      obtain ⟨cache, ok, hput, hcache⟩ := h.palette.put cacheIndex colorTable
      refine ⟨{ c with palette := cache }, true, ?_, h.glyph, h.brush, h.pointer, h.bitmap, h.offscreen,
        hcache⟩
      rw [cacheOrder, updateGdiCacheColorTable, paletteCachePut, hput]
      rfl
  | paletteLookup cacheIndex =>
    obtain ⟨entry, hentry⟩ := h.palette.get cacheIndex
    exact ⟨c, _, by rw [cacheOrder, paletteLookup, paletteCacheGet, hentry]; rfl, h⟩
  | pointerNew cacheIndex pointer =>
    cases pointer with
    | none => exact ⟨c, false, rfl, h⟩
    | some pointer =>
      obtain ⟨cache, ok, hput, hcache⟩ := h.pointer.put cacheIndex pointer
      refine ⟨{ c with pointer := cache }, ok, ?_, h.glyph, h.brush, hcache, h.bitmap, h.offscreen,
        h.palette⟩
      rw [cacheOrder, updatePointerNew, pointerCachePut, hput]
      rfl
  | pointerCached cacheIndex =>
    obtain ⟨pointer, hpointer⟩ := h.pointer.get cacheIndex
    exact ⟨c, _, by rw [cacheOrder, updatePointerCached, pointerCacheGet, hpointer]; rfl, h⟩
  | cacheGlyph cacheId glyphs => exact updateGdiCacheGlyph_sized h cacheId glyphs
  | processGlyph cacheId cacheIndex =>
    obtain ⟨glyph, hglyph⟩ := h.glyph.get hinside
    exact ⟨c, _, by rw [cacheOrder, updateProcessGlyph, hglyph]; rfl, h⟩
  | fragmentUse id =>
    obtain ⟨fragment, hfragment⟩ := h.glyph.fragmentGet id
    exact ⟨c, _, by rw [cacheOrder, glyphFragmentUse, hfragment]; rfl, h⟩
  | fragmentAdd id size copy =>
    obtain ⟨cache, ok, hput, hcache⟩ := h.glyph.fragmentPut id size copy
    refine ⟨{ c with glyph := cache }, true, ?_, hcache, h.brush, h.pointer, h.bitmap, h.offscreen,
      h.palette⟩
    rw [cacheOrder, glyphFragmentAdd, hput]
    rfl
  | offscreen order =>
    obtain ⟨s, ok, hs⟩ := exists_offscreenStep h.offscreen order
    refine ⟨{ c with offscreen := s }, ok, ?_, h.glyph, h.brush, h.pointer, h.bitmap,
      offscreenStep_owned h.offscreen ⟨ok, hs⟩, h.palette⟩
    rw [cacheOrder, hs]
    rfl

/-- An order that asks for something outside accesses it. -/
theorem cacheOrder_eq_none (h : c.Sized settings) {order : CacheOrder}
    (hout : ¬ OrderInside settings order) : cacheOrder c order = none := by
  have hmem {cacheId cacheIndex : ℕ}
      (hout : ¬ (cacheId ≠ 0xFF → CellInside settings (cacheId % 2 ^ 8) cacheIndex)) :
      memBitmap cacheId cacheIndex c = none := by
    rw [← memBitmap_isSome h] at hout
    exact Option.eq_none_iff_forall_ne_some.mpr fun bitmap hbitmap => hout ⟨bitmap, hbitmap⟩
  cases order with
  | memblt cacheId cacheIndex =>
    rw [cacheOrder, updateGdiMemblt, hmem hout]
    rfl
  | mem3blt cacheId cacheIndex brush =>
    rw [cacheOrder, updateGdiMem3blt, hmem hout]
    rfl
  | cacheBitmap cacheId cacheIndex bitmap =>
    obtain ⟨hbitmap, hout⟩ := Classical.not_imp.mp hout
    obtain ⟨bitmap, rfl⟩ := Option.ne_none_iff_exists'.mp hbitmap
    rw [cacheOrder, updateGdiCacheBitmap]
    by_cases hcell : CellInside settings cacheId cacheIndex
    · obtain ⟨prev, hprev⟩ := h.bitmap.get hcell
      have hid : cacheId = settings.bitmapCacheV2NumCells := by
        by_contra hid
        exact hout fun _ => ⟨hid, hcell⟩
      rw [hprev, h.bitmap.put_eq_none bitmap (Or.inl hid)]
      rfl
    · rw [h.bitmap.get_eq_none hcell]
      rfl
  | cacheBitmapV2 cacheId cacheIndex bitmap new =>
    obtain ⟨hbitmap, hout⟩ := Classical.not_imp.mp hout
    obtain ⟨bitmap, rfl⟩ := Option.ne_none_iff_exists'.mp hbitmap
    rw [cacheOrder, updateGdiCacheBitmapV2]
    by_cases hcell : CellInside settings cacheId cacheIndex
    · obtain ⟨prev, hprev⟩ := h.bitmap.get hcell
      obtain ⟨rfl, hid⟩ : new = true ∧ cacheId = settings.bitmapCacheV2NumCells := by
        by_contra hid
        exact hout fun _ => ⟨fun hnew hne => hid ⟨hnew, hne⟩, hcell⟩
      rw [hprev, h.bitmap.put_eq_none bitmap (Or.inl hid)]
      rfl
    · rw [h.bitmap.get_eq_none hcell]
      rfl
  | processGlyph cacheId cacheIndex =>
    obtain ⟨hid, hindex⟩ := Classical.not_imp.mp hout
    rw [cacheOrder, updateProcessGlyph, h.glyph.get_eq_none hid (not_not.mp hindex)]
    rfl
  | _ => exact absurd trivial hout

end Orders

theorem cacheOrders_isSome_of_sized {c : Caches} (h : c.Sized settings) (orders : List CacheOrder) :
    (cacheOrders c orders).isSome ↔ ∀ order ∈ orders, OrderInside settings order := by
  induction orders generalizing c with
  | nil => exact iff_of_true rfl nofun
  | cons order orders ih =>
    rw [cacheOrders, List.forall_mem_cons]
    by_cases hinside : OrderInside settings order
    · obtain ⟨c', ok, hc', h'⟩ := cacheOrder_sized h hinside
      rw [hc']
      exact (ih h').trans (and_iff_right hinside).symm
    · rw [cacheOrder_eq_none h hinside]
      exact iff_of_false nofun fun hc => hinside hc.1

/-- A session stays inside the caches if and only if none of its orders asks for something outside. -/
theorem cacheOrders_isSome_iff (settings : CacheSettings) (orders : List CacheOrder) :
    (cacheOrders (cacheNew settings) orders).isSome ↔ ∀ order ∈ orders, OrderInside settings order :=
  cacheOrders_isSome_of_sized (cacheNew_sized settings) orders

/-- Five bitmap cells of 600 entries, and ten glyph caches of 254. -/
def defaultSizes : CacheSettings where
  bitmapCacheV2NumCells := 5
  numEntries _ := 600
  numEntries_lt _ := by decide
  pointerCacheSize := 20
  glyphCacheEntries _ := 254

/-- A bitmap for the cell behind the last one, and the glyph behind the last one of a cache. -/
theorem caches_overrun :
    (cacheOrders (cacheNew defaultSizes) [.cacheBitmap 5 0 (some 1)]).isSome = false ∧
      (cacheOrders (cacheNew defaultSizes) [.processGlyph 7 254]).isSome = false := by
  constructor
  · rw [← Bool.not_eq_true, cacheOrders_isSome_of_sized (cacheNew_sized defaultSizes)]
    intro h
    exact ((h _ List.mem_cons_self) nofun).1 rfl
  · rw [← Bool.not_eq_true, cacheOrders_isSome_of_sized (cacheNew_sized defaultSizes)]
    intro h
    exact h _ List.mem_cons_self (show 7 ≤ 9 by decide) rfl

end FreeRDP.Cache
