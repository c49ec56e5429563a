import FreeRDP.Lib.Positions
import FreeRDP.Orders.Altsec

/-!
# Alternate secondary orders are consumed completely

What each of the readers of `read_altsec_order` stores and where it stops, as a function of the bytes it is
given.  Four of them ignore that `FIELD_SKIP_BUFFER16` fails: they accept an order whose block is not there,
and stop inside it.  `readAltsecOrder_exact_iff` says that this is all that goes wrong.
-/

namespace FreeRDP.Orders

open Wire

variable {s : List UInt8} {k : ℕ}

/-! ### The lengths of orders -/

/-- Where the length of the block of a first bitmap of a stream is. -/
def bitmapBlockAt (s : List UInt8) : ℕ := if byteAt s 0 &&& STREAM_BITMAP_V2 ≠ 0 then 12 else 10

/-- The length of the order that `s` begins with, as its own fields announce it.  A byte that is not there
counts as zero. -/
def altsecLength (orderType : ℕ) (s : List UInt8) : ℕ :=
  if orderType = ORDER_TYPE_CREATE_OFFSCREEN_BITMAP then
    if u16At s 0 &&& 0x8000 ≠ 0 then 8 + 2 * u16At s 6 else 6
  else if orderType = ORDER_TYPE_SWITCH_SURFACE then 2
  else if orderType = ORDER_TYPE_CREATE_NINE_GRID_BITMAP then 19
  else if orderType = ORDER_TYPE_FRAME_MARKER then 4
  else if orderType = ORDER_TYPE_STREAM_BITMAP_FIRST then
    bitmapBlockAt s + 2 + u16At s (bitmapBlockAt s)
  else if orderType = ORDER_TYPE_STREAM_BITMAP_NEXT then 5 + u16At s 3
  else if orderType = ORDER_TYPE_GDIPLUS_FIRST ∨ orderType = ORDER_TYPE_GDIPLUS_END then
    11 + u16At s 1
  else if orderType = ORDER_TYPE_GDIPLUS_NEXT then 3 + u16At s 1
  else if orderType = ORDER_TYPE_GDIPLUS_CACHE_FIRST ∨ orderType = ORDER_TYPE_GDIPLUS_CACHE_END then
    11 + u16At s 5
  else if orderType = ORDER_TYPE_GDIPLUS_CACHE_NEXT then 7 + u16At s 5
  else 0

/-! ### What the readers do -/

theorem updateReadSwitchSurfaceOrder_eq (s : List UInt8) :
    updateReadSwitchSurfaceOrder s =
      if 2 ≤ s.length then some ({ bitmapId := u16At s 0 }, s.drop 2) else none := by
  rw [updateReadSwitchSurfaceOrder, need_bind]
  split_ifs with h
  · simp (disch := omega) only [bind_apply, u16le_drop, Option.bind_some, pure_apply, Nat.reduceAdd]
  · rfl

theorem updateReadFrameMarkerOrder_eq (s : List UInt8) :
    updateReadFrameMarkerOrder s =
      if 4 ≤ s.length then some ({ action := u32At s 0 }, s.drop 4) else none := by
  rw [updateReadFrameMarkerOrder, need_bind]
  split_ifs with h
  · simp (disch := omega) only [bind_apply, u32le_drop, Option.bind_some, pure_apply, Nat.reduceAdd]
  · rfl

theorem readDrawGdiplus_eq (s : List UInt8) :
    readDrawGdiplus s =
      if 11 + u16At s 1 ≤ s.length then
        some ({ cbSize := u16At s 1, cbTotalSize := u32At s 3, cbTotalEmfSize := u32At s 7 },
          s.drop (11 + u16At s 1))
      else none := by
  rw [readDrawGdiplus, need_bind]
  split_ifs with hfront hblock hblock
  · simp (disch := omega) only [bind_apply, seek_drop, u16le_drop, u32le_drop, Option.bind_some, pure_apply,
      Nat.reduceAdd]
  · simp (disch := omega) only [bind_apply, seek_drop, seek_drop_of_lt, u16le_drop, u32le_drop,
      Option.bind_some, Option.bind_none, Nat.reduceAdd]
  · omega
  · rfl

theorem readDrawGdiplusCache_eq (s : List UInt8) :
    readDrawGdiplusCache s =
      if 11 + u16At s 5 ≤ s.length then
        some ({ flags := byteAt s 0, cacheType := u16At s 1, cacheIndex := u16At s 3, cbSize := u16At s 5,
                cbTotalSize := u32At s 7 }, s.drop (11 + u16At s 5))
      else none := by
  rw [readDrawGdiplusCache, need_bind]
  split_ifs with hfront hblock hblock
  · simp (disch := omega) only [bind_apply, seek_drop, u8_drop, u16le_drop, u32le_drop, Option.bind_some,
      pure_apply, Nat.reduceAdd]
  · simp (disch := omega) only [bind_apply, seek_drop_of_lt, u8_drop, u16le_drop, u32le_drop,
      Option.bind_some, Option.bind_none, Nat.reduceAdd]
  · omega
  · rfl

theorem updateReadCreateOffscreenBitmapOrder_eq (sIndices : ℕ) (granted : Bool) (s : List UInt8) :
    updateReadCreateOffscreenBitmapOrder sIndices granted s =
      if altsecLength ORDER_TYPE_CREATE_OFFSCREEN_BITMAP s ≤ s.length ∧
          (u16At s 0 &&& 0x8000 ≠ 0 → u16At s 6 > sIndices → granted) then
        some ({ id := u16At s 0 &&& 0x7FFF, cx := u16At s 2, cy := u16At s 4, indices :=
          if u16At s 0 &&& 0x8000 ≠ 0 then (List.range (u16At s 6)).map fun i => u16At s (8 + 2 * i)
          else [] }, s.drop (altsecLength ORDER_TYPE_CREATE_OFFSCREEN_BITMAP s))
      else none := by
  have hlength : altsecLength ORDER_TYPE_CREATE_OFFSCREEN_BITMAP s =
      if u16At s 0 &&& 0x8000 ≠ 0 then 8 + 2 * u16At s 6 else 6 := if_pos rfl
  rw [hlength, updateReadCreateOffscreenBitmapOrder, need_bind]
  by_cases hfront : 6 ≤ s.length
  · rw [if_pos hfront]
    simp (disch := omega) only [bind_apply, u16le_drop, Option.bind_some, Nat.reduceAdd]
    by_cases hlist : u16At s 0 &&& 0x8000 ≠ 0
    · rw [if_pos hlist, if_pos hlist, if_pos hlist, need_drop_bind _ _ hfront]
      by_cases hcount : 8 ≤ s.length
      · rw [if_pos hcount, bind_apply, u16le_drop hcount, Option.bind_some, check_bind]
        by_cases hstored : u16At s 6 > sIndices → granted = true
        · rw [if_pos hstored, need_drop_bind _ _ (by omega)]
          by_cases hindices : 8 + 2 * u16At s 6 ≤ s.length
          · rw [if_pos (by omega), if_pos ⟨hindices, fun _ => hstored⟩, bind_apply,
              many_u16le_drop (by omega), Option.bind_some]
            show some (_, s.drop (8 + u16At s 6 * 2)) = _
            rw [Nat.mul_comm (u16At s 6)]
          · rw [if_neg (by omega), if_neg fun h => hindices h.1]
        · rw [if_neg hstored, if_neg fun h => hstored (h.2 hlist)]
      · rw [if_neg hcount, if_neg fun h => hcount (by omega)]
    · rw [if_neg hlist, if_neg hlist, if_neg hlist, if_pos ⟨hfront, fun h => absurd h hlist⟩]
      rfl
  · rw [if_neg hfront, if_neg]
    rintro ⟨hlen, -⟩
    split_ifs at hlen <;> omega

def colorAt (s : List UInt8) (k : ℕ) : ℕ :=
  byteAt s k ||| byteAt s (k + 1) <<< 8 ||| byteAt s (k + 2) <<< 16

theorem updateReadColorQuad_drop (h : k + 4 ≤ s.length) :
    updateReadColorQuad (s.drop k) = some (colorAt s k, s.drop (k + 4)) := by
  rw [updateReadColorQuad, need_drop_bind _ _ (by omega), if_pos h]
  simp (disch := omega) only [bind_apply, u8_drop, seek_drop, Option.bind_some]
  rfl

theorem updateReadCreateNineGridBitmapOrder_eq (s : List UInt8) :
    updateReadCreateNineGridBitmapOrder s =
      if 19 ≤ s.length ∧ 1 ≤ byteAt s 0 ∧ byteAt s 0 ≤ 32 then
        some ({ bitmapBpp := byteAt s 0, bitmapId := u16At s 1, nineGridInfo :=
          { flFlags := u32At s 3, ulLeftWidth := u16At s 7, ulRightWidth := u16At s 9,
            ulTopHeight := u16At s 11, ulBottomHeight := u16At s 13, crTransparent := colorAt s 15 } },
          s.drop 19)
      else none := by
  rw [updateReadCreateNineGridBitmapOrder, need_bind]
  by_cases hfront : 19 ≤ s.length
  · rw [if_pos hfront, bind_apply, u8_drop (by omega), Option.bind_some, check_bind]
    by_cases hbpp : 1 ≤ byteAt s 0 ∧ byteAt s 0 ≤ 32
    · rw [if_pos hbpp, if_pos ⟨hfront, hbpp⟩]
      simp (disch := omega) only [bind_apply, u16le_drop, u32le_drop, updateReadColorQuad_drop,
        Option.bind_some, pure_apply, Nat.reduceAdd]
    · rw [if_neg hbpp, if_neg fun h => hbpp h.2]
  · rw [if_neg hfront, if_neg fun h => hfront h.1]

/-- Where `FIELD_SKIP_BUFFER16` stops if the length of the block is at the position `k`. -/
def skippedTo (s : List UInt8) (k : ℕ) : ℕ :=
  if k + 2 + u16At s k ≤ s.length then k + 2 + u16At s k else if k + 2 ≤ s.length then k + 2 else k

theorem fieldSkipBuffer16_drop (hk : k ≤ s.length) :
    fieldSkipBuffer16 (s.drop k) =
      some (decide (k + 2 + u16At s k ≤ s.length), s.drop (skippedTo s k)) := by
  unfold fieldSkipBuffer16 skippedTo
  by_cases hlength : k + 2 ≤ s.length
  · rw [u16le_drop hlength]
    dsimp only
    by_cases hblock : k + 2 + u16At s k ≤ s.length
    · rw [if_pos (by rw [List.length_drop]; omega), if_pos hblock, decide_eq_true hblock,
        List.drop_drop]
    · rw [if_neg (by rw [List.length_drop]; omega), if_neg hblock, if_pos hlength,
        decide_eq_false hblock]
  · rw [u16le_drop_of_lt hk (by omega), if_neg (by omega), if_neg hlength, decide_eq_false (by omega)]

theorem readBitmapSize_drop (h : 10 ≤ s.length) :
    readBitmapSize (byteAt s 0) (s.drop 8) =
      if bitmapBlockAt s ≤ s.length then
        some (if byteAt s 0 &&& STREAM_BITMAP_V2 ≠ 0 then u32At s 8 else u16At s 8,
          s.drop (bitmapBlockAt s))
      else none := by
  unfold readBitmapSize bitmapBlockAt
  by_cases hv2 : byteAt s 0 &&& STREAM_BITMAP_V2 ≠ 0
  · rw [if_pos hv2, if_pos hv2, if_pos hv2, need_drop_bind _ _ (by omega)]
    split_ifs with hsize
    · exact u32le_drop hsize
    · rfl
  · rw [if_neg hv2, if_neg hv2, if_neg hv2, need_drop_bind _ _ (by omega), if_pos h, if_pos h]
    exact u16le_drop h

theorem updateReadStreamBitmapFirstOrder_eq (s : List UInt8) :
    updateReadStreamBitmapFirstOrder s =
      if 10 ≤ s.length ∧ (1 ≤ byteAt s 1 ∧ byteAt s 1 ≤ 32) ∧ bitmapBlockAt s ≤ s.length then
        some ({ bitmapFlags := byteAt s 0, bitmapBpp := byteAt s 1, bitmapType := u16At s 2,
                bitmapWidth := u16At s 4, bitmapHeight := u16At s 6, bitmapSize :=
                  if byteAt s 0 &&& STREAM_BITMAP_V2 ≠ 0 then u32At s 8 else u16At s 8 },
          s.drop (skippedTo s (bitmapBlockAt s)))
      else none := by
  rw [updateReadStreamBitmapFirstOrder, need_bind]
  by_cases hfront : 10 ≤ s.length
  · rw [if_pos hfront, bind_apply, u8_drop (by omega), Option.bind_some, bind_apply,
      u8_drop (by omega), Option.bind_some, check_bind]
    by_cases hbpp : 1 ≤ byteAt s 1 ∧ byteAt s 1 ≤ 32
    · rw [if_pos hbpp]
      simp (disch := omega) only [bind_apply, u16le_drop, Option.bind_some, Nat.reduceAdd]
      rw [readBitmapSize_drop hfront]
      by_cases hblock : bitmapBlockAt s ≤ s.length
      · have hall : 10 ≤ s.length ∧ (1 ≤ byteAt s 1 ∧ byteAt s 1 ≤ 32) ∧ bitmapBlockAt s ≤ s.length :=
          ⟨hfront, hbpp, hblock⟩
        rw [if_pos hblock, if_pos hall, Option.bind_some, fieldSkipBuffer16_drop hblock]
        rfl
      · rw [if_neg hblock, if_neg fun h => hblock h.2.2]
        rfl
    · rw [if_neg hbpp, if_neg fun h => hbpp h.2.1]
  · rw [if_neg hfront, if_neg fun h => hfront h.1]

theorem updateReadStreamBitmapNextOrder_eq (s : List UInt8) :
    updateReadStreamBitmapNextOrder s =
      if 5 ≤ s.length then
        some ({ bitmapFlags := byteAt s 0, bitmapType := u16At s 1 }, s.drop (skippedTo s 3))
      else none := by
  rw [updateReadStreamBitmapNextOrder, need_bind]
  split_ifs with h
  · simp (disch := omega) only [bind_apply, u8_drop, u16le_drop, fieldSkipBuffer16_drop, Option.bind_some,
      pure_apply, Nat.reduceAdd]
  · rfl

theorem updateReadDrawGdiplusNextOrder_eq (s : List UInt8) :
    updateReadDrawGdiplusNextOrder s =
      if 3 ≤ s.length then some ((), s.drop (skippedTo s 1)) else none := by
  rw [updateReadDrawGdiplusNextOrder, need_bind]
  split_ifs with h
  · simp (disch := omega) only [bind_apply, seek_drop, fieldSkipBuffer16_drop, Option.bind_some, pure_apply,
      Nat.reduceAdd]
  · rfl

theorem updateReadDrawGdiplusCacheNextOrder_eq (s : List UInt8) :
    updateReadDrawGdiplusCacheNextOrder s =
      if 7 ≤ s.length then
        some ({ flags := byteAt s 0, cacheType := u16At s 1, cacheIndex := u16At s 3 },
          s.drop (skippedTo s 5))
      else none := by
  rw [updateReadDrawGdiplusCacheNextOrder, need_bind]
  split_ifs with h
  · simp (disch := omega) only [bind_apply, u8_drop, u16le_drop, fieldSkipBuffer16_drop, Option.bind_some,
      pure_apply, Nat.reduceAdd]
  · rfl

/-! ### Orders that are consumed completely -/

/-- If `x` reads something off `s` then `s` has `n` bytes, and `x` consumes these. -/
def Exact {α : Type} (x : Reader α) (n : ℕ) (s : List UInt8) : Prop :=
  ∀ a rest, x s = some (a, rest) → n ≤ s.length ∧ rest = s.drop n

namespace Exact

variable {α β : Type} {x : Reader α} {n m : ℕ} {c : Prop} [Decidable c] {a : α}

theorem of_eq (h : x s = if c then some (a, s.drop n) else none) (hn : c → n ≤ s.length) :
    Exact x n s := by
  intro b rest hread
  rw [h] at hread
  split_ifs at hread with hc
  obtain ⟨-, rfl⟩ := Prod.mk.inj (Option.some.inj hread)
  exact ⟨hn hc, rfl⟩

/-- A reader that stops at `m` even if the order is longer. -/
theorem iff_of_eq (h : x s = if c then some (a, s.drop m) else none)
    (hm : n ≤ s.length → m = n) : Exact x n s ↔ (c → n ≤ s.length) := by
  constructor
  · intro hexact hc
    exact (hexact a (s.drop m) (h.trans (if_pos hc))).1
  · intro hn
    refine of_eq (a := a) ?_ hn
    rw [h]
    split_ifs with hc
    · rw [hm (hn hc)]
    · rfl

theorem pure (a : α) : Exact (Pure.pure a) 0 s := by
  rintro b rest hread
  obtain ⟨-, rfl⟩ := Prod.mk.inj (Option.some.inj hread)
  exact ⟨Nat.zero_le _, rfl⟩

/-- What is made of the order does not matter. -/
theorem map_iff (f : α → β) : Exact (x >>= fun a => Pure.pure (f a)) n s ↔ Exact x n s := by
  constructor
  · intro h a rest hread
    refine h (f a) rest ?_
    rw [bind_apply, hread]
    rfl
  · intro h b rest hread
    obtain ⟨⟨a, rest'⟩, hx, heq⟩ := Option.bind_eq_some_iff.mp hread
    obtain ⟨-, rfl⟩ := Prod.mk.inj (Option.some.inj heq)
    exact h a rest' hx

end Exact

/-- The types whose readers ignore what `FIELD_SKIP_BUFFER16` returns. -/
def skippingTypes : List ℕ :=
  [ORDER_TYPE_STREAM_BITMAP_FIRST, ORDER_TYPE_STREAM_BITMAP_NEXT, ORDER_TYPE_GDIPLUS_NEXT,
    ORDER_TYPE_GDIPLUS_CACHE_NEXT]

/-- What comes in front of the block of such an order is there, with a color depth that is accepted. -/
def hasFront (orderType : ℕ) (s : List UInt8) : Prop :=
  if orderType = ORDER_TYPE_STREAM_BITMAP_FIRST then
    10 ≤ s.length ∧ (1 ≤ byteAt s 1 ∧ byteAt s 1 ≤ 32) ∧ bitmapBlockAt s ≤ s.length
  else if orderType = ORDER_TYPE_STREAM_BITMAP_NEXT then 5 ≤ s.length
  else if orderType = ORDER_TYPE_GDIPLUS_NEXT then 3 ≤ s.length
  else 7 ≤ s.length

theorem exact_iff_of_not_mem {α : Type} {x : Reader α} {n orderType : ℕ} (hx : Exact x n s)
    (htype : orderType ∉ skippingTypes) :
    Exact x n s ↔ (orderType ∈ skippingTypes → hasFront orderType s → n ≤ s.length) :=
  iff_of_true hx fun h => absurd h htype

/-- A reader that ignores whether the block is there. -/
theorem exact_iff_of_mem {α : Type} {x : Reader α} {n orderType : ℕ}
    (hx : Exact x n s ↔ (hasFront orderType s → n ≤ s.length)) (htype : orderType ∈ skippingTypes) :
    Exact x n s ↔ (orderType ∈ skippingTypes → hasFront orderType s → n ≤ s.length) :=
  hx.trans ⟨fun h _ => h, fun h => h htype⟩

/-- The types that `read_altsec_order` knows. -/
def altsecTypes : List ℕ :=
  [ORDER_TYPE_CREATE_OFFSCREEN_BITMAP, ORDER_TYPE_SWITCH_SURFACE, ORDER_TYPE_CREATE_NINE_GRID_BITMAP,
    ORDER_TYPE_FRAME_MARKER, ORDER_TYPE_STREAM_BITMAP_FIRST, ORDER_TYPE_STREAM_BITMAP_NEXT,
    ORDER_TYPE_GDIPLUS_FIRST, ORDER_TYPE_GDIPLUS_NEXT, ORDER_TYPE_GDIPLUS_END,
    ORDER_TYPE_GDIPLUS_CACHE_FIRST, ORDER_TYPE_GDIPLUS_CACHE_NEXT, ORDER_TYPE_GDIPLUS_CACHE_END,
    ORDER_TYPE_WINDOW, ORDER_TYPE_COMPDESK_FIRST]

theorem readAltsecOrder_of_not_mem (sIndices : ℕ) (granted : Bool) {orderType : ℕ}
    (htype : orderType ∉ altsecTypes) (s : List UInt8) :
    readAltsecOrder sIndices granted orderType s = none := by
  simp only [altsecTypes, List.mem_cons, List.not_mem_nil, or_false, not_or] at htype
  obtain ⟨h1, h2, h3, h4, h5, h6, h7, h8, h9, h10, h11, h12, h13, h14⟩ := htype
  rw [readAltsecOrder, if_neg h1, if_neg h2, if_neg h3, if_neg h4, if_neg h5, if_neg h6, if_neg h7,
    if_neg h8, if_neg h9, if_neg h10, if_neg h11, if_neg h12, if_neg (not_or.mpr ⟨h13, h14⟩)]

theorem exact_readAltsecOrder_iff (sIndices : ℕ) (granted : Bool) (orderType : ℕ) (s : List UInt8) :
    Exact (readAltsecOrder sIndices granted orderType) (altsecLength orderType s) s ↔
      (orderType ∈ skippingTypes → hasFront orderType s → altsecLength orderType s ≤ s.length) := by
  have hskip (k n : ℕ) (hn : k + 2 + u16At s k = n) (h : n ≤ s.length) : skippedTo s k = n :=
    (if_pos (hn.trans_le h)).trans hn
  by_cases htype : orderType ∈ altsecTypes
  · simp only [altsecTypes, List.mem_cons, List.not_mem_nil, or_false] at htype
    rcases htype with rfl | rfl | rfl | rfl | rfl | rfl | rfl | rfl | rfl | rfl | rfl | rfl | rfl | rfl
    · refine exact_iff_of_not_mem ((Exact.map_iff (some ∘ AltsecOrder.createOffscreenBitmap)).mpr ?_)
        (by decide)
      exact Exact.of_eq (updateReadCreateOffscreenBitmapOrder_eq sIndices granted s) And.left
    · refine exact_iff_of_not_mem ((Exact.map_iff (some ∘ AltsecOrder.switchSurface)).mpr ?_) (by decide)
      exact Exact.of_eq (updateReadSwitchSurfaceOrder_eq s) id
    · refine exact_iff_of_not_mem ((Exact.map_iff (some ∘ AltsecOrder.createNineGridBitmap)).mpr ?_)
        (by decide)
      exact Exact.of_eq (updateReadCreateNineGridBitmapOrder_eq s) And.left
    · refine exact_iff_of_not_mem ((Exact.map_iff (some ∘ AltsecOrder.frameMarker)).mpr ?_) (by decide)
      exact Exact.of_eq (updateReadFrameMarkerOrder_eq s) id
    · refine exact_iff_of_mem ((Exact.map_iff (some ∘ AltsecOrder.streamBitmapFirst)).trans ?_) (by decide)
      exact Exact.iff_of_eq (c := 10 ≤ s.length ∧ (1 ≤ byteAt s 1 ∧ byteAt s 1 ≤ 32) ∧
        bitmapBlockAt s ≤ s.length) (updateReadStreamBitmapFirstOrder_eq s) (hskip _ _ rfl)
    · refine exact_iff_of_mem ((Exact.map_iff (some ∘ AltsecOrder.streamBitmapNext)).trans ?_) (by decide)
      exact Exact.iff_of_eq (c := 5 ≤ s.length) (updateReadStreamBitmapNextOrder_eq s) (hskip 3 _ rfl)
    · refine exact_iff_of_not_mem ((Exact.map_iff (some ∘ AltsecOrder.drawGdiplusFirst)).mpr ?_) (by decide)
      exact Exact.of_eq (readDrawGdiplus_eq s) id
    · refine exact_iff_of_mem ((Exact.map_iff fun _ => some AltsecOrder.drawGdiplusNext).trans ?_)
        (by decide)
      exact Exact.iff_of_eq (c := 3 ≤ s.length) (updateReadDrawGdiplusNextOrder_eq s) (hskip 1 _ rfl)
    · refine exact_iff_of_not_mem ((Exact.map_iff (some ∘ AltsecOrder.drawGdiplusEnd)).mpr ?_) (by decide)
      exact Exact.of_eq (readDrawGdiplus_eq s) id
    · refine exact_iff_of_not_mem ((Exact.map_iff (some ∘ AltsecOrder.drawGdiplusCacheFirst)).mpr ?_)
        (by decide)
      exact Exact.of_eq (readDrawGdiplusCache_eq s) id
    · refine exact_iff_of_mem ((Exact.map_iff (some ∘ AltsecOrder.drawGdiplusCacheNext)).trans ?_)
        (by decide)
      exact Exact.iff_of_eq (c := 7 ≤ s.length) (updateReadDrawGdiplusCacheNextOrder_eq s)
        (hskip 5 _ rfl)
    · refine exact_iff_of_not_mem ((Exact.map_iff (some ∘ AltsecOrder.drawGdiplusCacheEnd)).mpr ?_)
        (by decide)
      exact Exact.of_eq (readDrawGdiplusCache_eq s) id
    · exact exact_iff_of_not_mem (Exact.pure none) (by decide)
    · exact exact_iff_of_not_mem (Exact.pure none) (by decide)
  · refine iff_of_true ?_ fun hmem => ?_
    · intro order rest hread
      rw [readAltsecOrder_of_not_mem sIndices granted htype] at hread
      exact absurd hread (Option.some_ne_none _).symm
    · have hsubset : ∀ t ∈ skippingTypes, t ∈ altsecTypes := by decide
      exact absurd (hsubset _ hmem) htype

/-- An order that `read_altsec_order` accepts is there and consumed, and one that is not there is refused,
if and only if the order has a reader that checks all lengths, or is there, or does not even have what comes
in front of its block. -/
theorem readAltsecOrder_complete_iff (sIndices : ℕ) (granted : Bool) (orderType : ℕ) (s : List UInt8) :
    ((∀ order rest, readAltsecOrder sIndices granted orderType s = some (order, rest) →
        altsecLength orderType s ≤ s.length ∧ rest = s.drop (altsecLength orderType s)) ∧
      (s.length < altsecLength orderType s → readAltsecOrder sIndices granted orderType s = none)) ↔
      (orderType ∈ skippingTypes → hasFront orderType s → altsecLength orderType s ≤ s.length) := by
  rw [← exact_readAltsecOrder_iff sIndices granted]
  constructor
  · rintro ⟨hexact, -⟩
    exact hexact
  · intro hexact
    refine ⟨hexact, fun hshort => ?_⟩
    cases hread : readAltsecOrder sIndices granted orderType s with
    | none => rfl
    | some ret => exact absurd (hexact ret.1 ret.2 hread).1 (by omega)

/-- A next order of GDI+ with a block of five bytes that are not there is accepted. -/
theorem not_readAltsecOrder_complete :
    ¬ ∀ (sIndices : ℕ) (granted : Bool) (orderType : ℕ) (s : List UInt8),
      (∀ order rest, readAltsecOrder sIndices granted orderType s = some (order, rest) →
        altsecLength orderType s ≤ s.length ∧ rest = s.drop (altsecLength orderType s)) ∧
      (s.length < altsecLength orderType s → readAltsecOrder sIndices granted orderType s = none) := by
  intro h
  have hread : readAltsecOrder 0 true ORDER_TYPE_GDIPLUS_NEXT [0, 5, 0] =
      some (some .drawGdiplusNext, []) := rfl
  have hrefused := (h 0 true ORDER_TYPE_GDIPLUS_NEXT [0, 5, 0]).2 (by decide)
  rw [hread] at hrefused
  exact Option.some_ne_none _ hrefused

end FreeRDP.Orders
