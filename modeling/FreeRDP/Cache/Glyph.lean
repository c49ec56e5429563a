import FreeRDP.Cache.Basic
import FreeRDP.Lib.Positions
import FreeRDP.Lib.Traced

/-!
# Glyph text

`update_process_glyph_fragments` of `libfreerdp/cache/glyph.c`, which draws the text of the Glyph Index,
Fast Index and Fast Glyph orders.  The data of such an order is a sequence of glyph indices and of two
operations: one draws a fragment, which is a sequence of glyph indices that has been kept, and one keeps
the beginning of the data as a fragment.

The functions are `Traced`: they record what they read and copy, and the signed sums that they make, since a
sum that leaves the range of an `INT32` is undefined.  The buffer of the data goes on behind its `length`
bytes.  Behind a fragment there are zeros.

The callbacks of the `rdpGraphics` are parameters, and so are the allocations.
-/

namespace FreeRDP.Cache.Text

open Traced Wire

def glyphFragmentUse : ℕ := 0xFE

def glyphFragmentAdd : ℕ := 0xFF

def soHorizontal : ℕ := 0x02

def soVertical : ℕ := 0x04

def soCharIncEqualBmBase : ℕ := 0x20

inductive TextAccess
  /-- `data[index]` is read. -/
  | data (index : ℕ)
  /-- `fragments[n]` is read, of a fragment that has `size` bytes. -/
  | fragment (size n : ℕ)
  /-- The first `size` bytes of `data` are copied. -/
  | copy (size : ℕ)
  /-- `entries[index]` is read, of a cache that has `number` entries. -/
  | entry (number index : ℕ)
  /-- A signed sum is made. -/
  | sum (z : ℤ)
deriving DecidableEq

/-- What the text uses of an `rdpGlyph`. -/
structure Glyph where
  x : Int32
  y : Int32
  cx : UInt32
  cy : UInt32
deriving DecidableEq

structure RdpRect where
  x : Int16
  y : Int16
  width : Int16
  height : Int16

/-- A rectangle in arguments of type `INT32`. -/
structure TextRect where
  x : Int32
  y : Int32
  width : Int32
  height : Int32

/-- The arguments of `Draw`. -/
structure GlyphDraw where
  glyph : Glyph
  x : Int32
  y : Int32
  w : Int32
  h : Int32
  sx : Int32
  sy : Int32
  fOpRedundant : Bool
deriving DecidableEq

/-- The glyph cache, and the bytes of the fragments that have been copied, by their numbers. -/
structure GlyphStore where
  cache : GlyphCache
  fragments : List (List UInt8)

/-- What a text changes: the cache, the pen, and what has been drawn. -/
structure TextState where
  store : GlyphStore
  x : Int32
  y : Int32
  drawn : List GlyphDraw

/-- What a text finds in the `rdpContext`. -/
structure TextContext where
  /-- The glyphs that the cache names by numbers. -/
  glyph : ℕ → Glyph
  desktopWidth : UInt32
  beginDraw : TextRect → UInt32 → UInt32 → Bool → Bool
  setBounds : TextRect → Bool
  /-- What `Draw` returns, after what has been drawn before. -/
  draw : List GlyphDraw → GlyphDraw → Bool
  endDraw : TextRect → UInt32 → UInt32 → Bool
  /-- Whether there is memory for the fragment that is added at a place of the data. -/
  malloc : ℕ → Bool

/-- The arguments of `update_process_glyph_fragments`. -/
structure TextOrder where
  data : ℕ → UInt8
  length : ℕ
  /-- `cbData` is read from a byte. -/
  length_lt : length < 2 ^ 8
  cacheId : ℕ
  ulCharInc : ℕ
  flAccel : ℕ
  bgcolor : UInt32
  fgcolor : UInt32
  x : Int32
  y : Int32
  bk : TextRect
  op : TextRect
  fOpRedundant : Bool

/-- A sum of the type `INT32`. -/
def signed (z : ℤ) : Traced TextAccess Int32 := do
  access (.sum z)
  return Int32.ofInt z

/-! ### Offsets -/

/-- Whether the glyph indices are followed by offsets. -/
def TextOrder.HasOffsets (order : TextOrder) : Prop :=
  order.ulCharInc = 0 ∧ order.flAccel &&& soCharIncEqualBmBase = 0

instance (order : TextOrder) : Decidable order.HasOffsets := instDecidableAnd

/-- The pen is moved by an offset.  The sum is an unsigned one. -/
def TextState.move (order : TextOrder) (offset : ℕ) (s : TextState) : TextState :=
  { s with
    y := if order.flAccel &&& soVertical ≠ 0 then Int32.ofInt (s.y.toInt + offset) else s.y
    x := if order.flAccel &&& soHorizontal ≠ 0 then Int32.ofInt (s.x.toInt + offset) else s.x }

/-- `update_glyph_offset`, which reads `length` bytes of a `memory`, with the new `index`. -/
def updateGlyphOffset (order : TextOrder) (memory : ℕ → UInt8) (read : ℕ → TextAccess) (length index : ℕ)
    (s : TextState) : Traced TextAccess (ℕ × TextState) :=
  if order.HasOffsets then do
    access (read index)
    let offset := (memory index).toNat
    if offset &&& 0x80 ≠ 0 ∧ index + 1 + 1 < length then
      accesses [read (index + 1), read (index + 2)]
      let offset := (memory (index + 1)).toNat ||| (memory (index + 2)).toNat <<< 8
      return (index + 3, s.move order offset)
    else return (index + 1, s.move order offset)
  else pure (index, s)

/-! ### Glyphs -/

/-- `glyph_cache_get`, with its access to the entries. -/
def glyphCacheLookup (id index : ℕ) (c : GlyphCache) : Traced TextAccess (Option ℕ) :=
  if id > 9 then pure none
  else
    let cache := c.glyphCache.getD id ⟨0, []⟩
    if index > cache.number then pure none
    else do
      access (.entry cache.number index)
      return cache.entries.getD index none

/-- Where a glyph begins on one axis, and how much of it is left out: `dx` and `sx`, or `dy` and `sy`. -/
def clipStart (d : Int32) (bound : Int16) : Traced TextAccess (Int32 × Int32) :=
  if d.toInt < bound.toInt then do
    let s ← signed (bound.toInt - d.toInt)
    return (bound.toInt32, s)
  else pure (d, 0)

/-- The extent of a glyph on one axis: `dw` or `dh`.  The skipped part is subtracted in a `UINT32`. -/
def clipExtent (c : UInt32) (s d : Int32) (stop : ℤ) : Traced TextAccess Int32 := do
  let extent := Int32.ofInt (c.toNat - s.toInt)
  let sum ← signed (extent.toInt + d.toInt)
  if sum.toInt > stop then signed (stop - sum.toInt) else pure extent

/-- `bound->x + bound->width`, which is a sum of two `INT16`. -/
def RdpRect.right (bound : RdpRect) : ℤ := bound.x.toInt + bound.width.toInt

/-- `bound->y + bound->height`. -/
def RdpRect.bottom (bound : RdpRect) : ℤ := bound.y.toInt + bound.height.toInt

/-- What is drawn of a glyph at the pen, if anything. -/
def clipGlyph (order : TextOrder) (bound : RdpRect) (glyph : Glyph) (s : TextState) :
    Traced TextAccess (Option GlyphDraw) := do
  let dx ← signed (glyph.x.toInt + s.x.toInt)
  let dy ← signed (glyph.y.toInt + s.y.toInt)
  let (dx, sx) ← clipStart dx bound.x
  let (dy, sy) ← clipStart dy bound.y
  if dx.toInt ≤ bound.right ∧ dy.toInt ≤ bound.bottom then
    let dw ← clipExtent glyph.cx sx dx bound.right
    let dh ← clipExtent glyph.cy sy dy bound.bottom
    if 0 < dh.toInt ∧ 0 < dw.toInt then
      return some ⟨glyph, dx, dy, dw, dh, sx, sy, order.fOpRedundant⟩
    else return none
  else return none

/-- `Draw` is called, unless nothing is to be drawn. -/
def TextState.draw (ctx : TextContext) (call : Option GlyphDraw) (s : TextState) : TextState × Bool :=
  match call with
  | none => (s, true)
  | some call => ({ s with drawn := s.drawn ++ [call] }, ctx.draw s.drawn call)

/-- The pen is moved behind a glyph. -/
def TextState.advance (order : TextOrder) (glyph : Glyph) (s : TextState) : TextState :=
  if order.flAccel &&& soCharIncEqualBmBase ≠ 0 then
    { s with x := Int32.ofInt (s.x.toInt + glyph.cx.toNat) }
  else s

def updateProcessGlyph (ctx : TextContext) (order : TextOrder) (bound : RdpRect) (cacheIndex : ℕ)
    (s : TextState) : Traced TextAccess (TextState × Bool) := do
  match ← glyphCacheLookup order.cacheId cacheIndex s.store.cache with
  | none => return (s, false)
  | some name =>
    let call ← clipGlyph order bound (ctx.glyph name) s
    let (s, ok) := s.draw ctx call
    return (if ok then s.advance order (ctx.glyph name) else s, ok)

/-! ### The data -/

/-- What a loop over glyph indices goes on with: the new index, or the result if `ok` is false. -/
def goOn (index : ℕ) (r : TextState × Bool) : (ℕ × TextState) ⊕ (TextState × Bool) :=
  if r.2 then .inl (index, r.1) else .inr r

/-- A glyph index has been read from a `memory`: its offset and its glyph are processed. -/
def glyphRound (ctx : TextContext) (order : TextOrder) (bound : RdpRect) (memory : ℕ → UInt8)
    (read : ℕ → TextAccess) (length op index : ℕ) (s : TextState) :
    Traced TextAccess ((ℕ × TextState) ⊕ (TextState × Bool)) := do
  let (index, s) ← updateGlyphOffset order memory read length index s
  let r ← updateProcessGlyph ctx order bound op s
  return goOn index r

def fragmentRound (ctx : TextContext) (order : TextOrder) (bound : RdpRect) (fragments : List UInt8)
    (size : ℕ) (t : ℕ × TextState) : Traced TextAccess ((ℕ × TextState) ⊕ (TextState × Bool)) :=
  if t.1 < size then do
    access (.fragment size t.1)
    glyphRound ctx order bound (fragments.getD · 0) (.fragment size) size (fragments.getD t.1 0).toNat
      (t.1 + 1) t.2
  else pure (.inr (t.2, true))

/-- `GLYPH_FRAGMENT_USE`, from behind the operation. -/
def useFragment (ctx : TextContext) (order : TextOrder) (bound : RdpRect) (index : ℕ) (s : TextState) :
    Traced TextAccess ((ℕ × TextState) ⊕ (TextState × Bool)) :=
  if index + 1 ≥ order.length then pure (.inr (s, false))
  else do
    access (.data index)
    let (fragments, size) :=
      (glyphCacheFragmentGet (order.data index).toNat s.store.cache).getD (none, 0)
    match fragments with
    | none => return .inr (s, false)
    | some name =>
      let r ← loop (fragmentRound ctx order bound (s.store.fragments.getD name []) size) (size + 1) (0, s)
      return goOn (index + 1) (r.getD (s, false))

/-- `glyph_cache_fragment_put` of a copy that has been allocated. -/
def GlyphStore.put (id : ℕ) (copy : List UInt8) (store : GlyphStore) : GlyphStore where
  cache := ((glyphCacheFragmentPut id copy.length (some store.fragments.length) store.cache).getD
    (store.cache, false)).1
  fragments := store.fragments ++ [copy]

/-- `GLYPH_FRAGMENT_ADD`, from behind the operation. -/
def addFragment (ctx : TextContext) (order : TextOrder) (index : ℕ) (s : TextState) :
    Traced TextAccess ((ℕ × TextState) ⊕ (TextState × Bool)) :=
  if index + 2 > order.length then pure (.inr (s, false))
  else do
    accesses [.data index, .data (index + 1)]
    let size := (order.data (index + 1)).toNat
    if ctx.malloc index then
      access (.copy size)
      let copy := (List.range size).map order.data
      return .inl (index + 2, { s with store := s.store.put (order.data index).toNat copy })
    else return .inl (index + 2, s)

/-- A round of the loop over the data. -/
def textRound (ctx : TextContext) (order : TextOrder) (bound : RdpRect) (t : ℕ × TextState) :
    Traced TextAccess ((ℕ × TextState) ⊕ (TextState × Bool)) :=
  if t.1 < order.length then do
    access (.data t.1)
    let op := (order.data t.1).toNat
    if op = glyphFragmentUse then useFragment ctx order bound (t.1 + 1) t.2
    else if op = glyphFragmentAdd then addFragment ctx order (t.1 + 1) t.2
    else glyphRound ctx order bound order.data .data order.length op (t.1 + 1) t.2
  else pure (.inr (t.2, true))

/-! ### The order -/

/-- A rectangle begins on the screen: one axis. -/
def limitSide (start size : Int32) : Traced TextAccess (Int32 × Int32) := do
  if start.toInt < 0 then
    let size ← signed (size.toInt + start.toInt)
    return (0, if size.toInt < 0 then 0 else size)
  else return (start, if size.toInt < 0 then 0 else size)

def limitRect (desktopWidth : UInt32) (r : TextRect) : Traced TextAccess TextRect := do
  let (x, width) ← limitSide r.x r.width
  let (y, height) ← limitSide r.y r.height
  let right ← signed (x.toInt + width.toInt)
  let width := if right.toInt > desktopWidth.toNat then Int32.ofInt
    (desktopWidth.toNat - x.toInt) else width
  return ⟨x, y, width, height⟩

def TextRect.bound (bk : TextRect) : RdpRect :=
  ⟨bk.x.toInt16, bk.y.toInt16, bk.width.toInt16, bk.height.toInt16⟩

def updateProcessGlyphFragments (ctx : TextContext) (order : TextOrder) (store : GlyphStore) :
    Traced TextAccess (TextState × Bool) := do
  let s : TextState := ⟨store, order.x, order.y, []⟩
  let op ← limitRect ctx.desktopWidth order.op
  let bk ← limitRect ctx.desktopWidth order.bk
  if ctx.beginDraw op order.bgcolor order.fgcolor order.fOpRedundant ∧ ctx.setBounds bk then
    let r ← loop (textRound ctx order bk.bound) (order.length + 1) (0, s)
    let (s, ok) := r.getD (s, false)
    return (s, ok && ctx.endDraw op order.bgcolor order.fgcolor)
  else return (s, false)

end FreeRDP.Cache.Text
