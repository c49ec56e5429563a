import FreeRDP.Orders.Equiv.Cache
import FreeRDP.Orders.Equiv.Receive

/-!
# The length of secondary orders

`sendSecondary` puts the length of an order less 13 into the header as an `INT16`, and
`update_recv_secondary_order` takes it out as a `UINT16`.  From 13 bytes on the two are the same, and
the order that follows is read from its first byte (`delimited_sendSecondary`).  An order that is
shorter seems to be 65536 bytes longer.
-/

namespace FreeRDP.Orders

open Wire

variable {bs body : List UInt8} {n value orderType extraFlags : ℕ}

/-- The end of the order that `update_recv_secondary_order` computes is the end of `bs`, and what
follows is read from there. -/
structure Delimited (bs : List UInt8) : Prop where
  endPosition (rest : List UInt8) : ∃ header s, readSecondaryHeader (bs.tail ++ rest) = some (header, s) ∧
    ∀ position, header.endPosition (position + 6) = position + bs.length
  rest {settings : SecondarySettings} {secondary : SecondaryUpdate} {rest : List UInt8} :
    (updateRecvSecondaryOrder settings secondary (bs.tail ++ rest)).rc = true →
      (updateRecvSecondaryOrder settings secondary (bs.tail ++ rest)).rest = rest

/-! ### Headers -/

theorem readSecondaryHeader_send (orderType extraFlags : ℕ) (body rest : List UInt8) :
    ∃ extraFlags' orderType', readSecondaryHeader ((sendSecondary orderType extraFlags body).tail ++ rest) =
      some (⟨(((6 + body.length : ℕ) - 13 : ℤ) % 2 ^ 16).toNat, extraFlags', orderType'⟩,
        body ++ rest) := by
  obtain ⟨extraFlags', hflags⟩ : ∃ n, Reads u16le (le16 extraFlags) n := ⟨_, fun rest => rfl⟩
  obtain ⟨orderType', htype⟩ : ∃ n, Reads u8 (byte orderType) n := ⟨_, fun rest => rfl⟩
  have hlength := Reads.u16le (by omega : (((6 + body.length : ℕ) - 13 : ℤ) % 2 ^ 16).toNat < 2 ^ 16)
  have hheader : Reads readSecondaryHeader _ ⟨_, extraFlags', orderType'⟩ :=
    Reads.need (by simp [le16, byte]) (hlength.bind (hflags.bind (htype.map rfl)))
  refine ⟨extraFlags', orderType', ?_⟩
  have htail : (sendSecondary orderType extraFlags body).tail ++ rest =
      (le16 (((6 + body.length : ℕ) - 13 : ℤ) % 2 ^ 16).toNat ++ (le16 extraFlags ++ byte orderType)) ++
        (body ++ rest) := by
    simp [sendSecondary, writeInt16, byte, le16]
  rw [htail, hheader]

theorem length_sendSecondary : (sendSecondary orderType extraFlags body).length = body.length + 6 := by
  simp [sendSecondary, writeInt16, byte, le16]

/-- What `update_recv_secondary_order` reads ends at the end that it computes. -/
theorem updateRecvSecondaryOrder_drop {settings : SecondarySettings} {secondary : SecondaryUpdate}
    {header : SecondaryHeader} {s s' : List UInt8} (hheader : readSecondaryHeader s = some (header, s'))
    (h : (updateRecvSecondaryOrder settings secondary s).rc = true) :
    (updateRecvSecondaryOrder settings secondary s).rest = s'.drop (header.endPosition 0) := by
  unfold updateRecvSecondaryOrder at h ⊢
  rw [hheader] at h ⊢
  dsimp only at h ⊢
  split_ifs at h ⊢
  exact recvOrder_drop h

/-- The receiver takes a short order for one that is longer by 65536 bytes. -/
theorem delimited_sendSecondary (hlen : body.length + 6 ≤ 65535 + 13) :
    Delimited (sendSecondary orderType extraFlags body) ↔ 7 ≤ body.length := by
  constructor
  · intro h
    obtain ⟨header, s, hread, hend⟩ := h.endPosition []
    obtain ⟨extraFlags', orderType', hheader⟩ := readSecondaryHeader_send orderType extraFlags body []
    obtain ⟨rfl, -⟩ := Prod.mk.inj (Option.some.inj (hread.symm.trans hheader))
    have hlength := hend 0
    rw [SecondaryHeader.endPosition, length_sendSecondary] at hlength
    dsimp only at hlength
    omega
  · intro hlong
    refine ⟨fun rest => ?_, fun {settings secondary rest} h => ?_⟩
    · obtain ⟨extraFlags', orderType', hheader⟩ := readSecondaryHeader_send orderType extraFlags body rest
      refine ⟨_, _, hheader, fun position => ?_⟩
      rw [SecondaryHeader.endPosition, length_sendSecondary]
      dsimp only
      omega
    · obtain ⟨extraFlags', orderType', hheader⟩ := readSecondaryHeader_send orderType extraFlags body rest
      have hdrop := updateRecvSecondaryOrder_drop hheader h
      rw [hdrop]
      refine List.drop_left' ?_
      rw [SecondaryHeader.endPosition]
      dsimp only
      omega

/-! ### Lengths of fields -/

/-- The bytes of a field that `update_write_2byte_unsigned` writes. -/
def unsignedLength (value : ℕ) : ℕ := if value ≥ 0x7F then 2 else 1

/-- The bytes of a field that `update_write_2byte_signed` writes. -/
def signedLength (value : ℤ) : ℕ := if value.natAbs ≥ 0x3F then 2 else 1

/-- The bytes of a field that `update_write_4byte_unsigned` writes. -/
def unsignedLength4 (value : ℕ) : ℕ :=
  if value ≤ 0x3F then 1 else if value ≤ 0x3FFF then 2 else if value ≤ 0x3FFFFF then 3 else 4

theorem length_updateWrite2ByteUnsigned (h : updateWrite2ByteUnsigned value = some bs) :
    bs.length = unsignedLength value := by
  unfold updateWrite2ByteUnsigned at h
  unfold unsignedLength
  split_ifs at h ⊢
  · obtain rfl := Option.some.inj h
    rfl
  · obtain rfl := Option.some.inj h
    rfl

theorem length_updateWrite2ByteSigned {value : ℤ} (h : updateWrite2ByteSigned value = some bs) :
    bs.length = signedLength value := by
  unfold updateWrite2ByteSigned at h
  unfold signedLength
  dsimp only at h
  split_ifs at h ⊢
  all_goals
    obtain rfl := Option.some.inj h
    rfl

theorem length_updateWrite4ByteUnsigned (h : updateWrite4ByteUnsigned value = some bs) :
    bs.length = unsignedLength4 value := by
  unfold updateWrite4ByteUnsigned at h
  unfold unsignedLength4
  split_ifs at h ⊢
  all_goals
    obtain rfl := Option.some.inj h
    rfl

/-! ### Lengths of orders -/

/-- The bytes of a glyph of revision 2. -/
def GlyphData.lengthV2 (glyph : GlyphData) : ℕ :=
  1 + signedLength glyph.x + signedLength glyph.y + unsignedLength glyph.cx + unsignedLength glyph.cy +
    (glyph.aj.take (glyphSize glyph.cx glyph.cy)).length

/-- The bytes of a bitmap of revision 2 without keys and without a compression header. -/
def CacheBitmapV2Order.lengthV2 (order : CacheBitmapV2Order) : ℕ :=
  unsignedLength order.bitmapWidth +
    (if order.flags &&& CBR2_HEIGHT_SAME_AS_WIDTH ≠ 0 then 0 else unsignedLength order.bitmapHeight) +
    unsignedLength4 order.bitmapLength + unsignedLength order.withIndex.cacheIndex +
    (order.bitmapDataStream.take order.bitmapLength).length

/-- The order has 13 bytes with its header. -/
def SecondaryOrder.Long (noBitmapCompressionHeader : Bool) : SecondaryOrder → Prop
  | cacheBitmap _ | cacheBitmapV3 _ | cacheColorTable _ => True
  | cacheBitmapV2 order =>
    (order.withHdr noBitmapCompressionHeader).flags &&& CBR2_PERSISTENT_KEY_PRESENT ≠ 0 ∨
      (order.compressed ∧
        (order.withHdr noBitmapCompressionHeader).flags &&& CBR2_NO_BITMAP_COMPRESSION_HDR = 0) ∨
      7 ≤ (order.withHdr noBitmapCompressionHeader).lengthV2
  | cacheGlyph order => order.glyphData.take order.cGlyphs ≠ []
  | cacheGlyphV2 order => 7 ≤ ((order.glyphData.take order.cGlyphs).map GlyphData.lengthV2).sum +
      if order.flags &&& 1 ≠ 0 then order.cGlyphs * 2 else 0
  | cacheBrush order => order.cx = 8 ∧ order.cy = 8

theorem length_writeInt16 (value : ℤ) : (writeInt16 value).length = 2 := rfl

theorem length_updateWriteCacheBitmapOrder (order : CacheBitmapOrder) (compressed : Bool) :
    7 ≤ (updateWriteCacheBitmapOrder order compressed).2.length := by
  unfold updateWriteCacheBitmapOrder
  dsimp only
  split_ifs <;> simp only [List.length_append, length_byte, length_le16] <;> omega

theorem length_writeComprHdr {order : CacheBitmapV2Order} {compressed : Bool}
    (h : compressed = true ∧ order.flags &&& CBR2_NO_BITMAP_COMPRESSION_HDR = 0) :
    (writeComprHdr order compressed).1.length = 8 := by
  rw [writeComprHdr, if_pos h.1, if_pos h.2]
  rfl

theorem writeComprHdr_of_not {order : CacheBitmapV2Order} {compressed : Bool}
    (h : ¬ (compressed = true ∧ order.flags &&& CBR2_NO_BITMAP_COMPRESSION_HDR = 0)) :
    writeComprHdr order compressed = ([], order) := by
  unfold writeComprHdr
  split_ifs with hcompressed hflag
  · exact absurd ⟨hcompressed, hflag⟩ h
  · rfl
  · rfl

theorem length_writeSize {order : CacheBitmapV2Order} (h : writeSize order = some bs) :
    bs.length = unsignedLength order.bitmapWidth +
      if order.flags &&& CBR2_HEIGHT_SAME_AS_WIDTH ≠ 0 then 0 else unsignedLength order.bitmapHeight := by
  unfold writeSize at h
  split_ifs at h ⊢
  · exact length_updateWrite2ByteUnsigned h
  · obtain ⟨width, hwidth, h⟩ := Option.bind_eq_some_iff.mp h
    obtain ⟨height, hheight, h⟩ := Option.bind_eq_some_iff.mp h
    obtain rfl := Option.some.inj h
    rw [List.length_append, length_updateWrite2ByteUnsigned hwidth, length_updateWrite2ByteUnsigned hheight]

theorem length_writeKeys (order : CacheBitmapV2Order) :
    (writeKeys order).length = if order.flags &&& CBR2_PERSISTENT_KEY_PRESENT ≠ 0 then 8 else 0 := by
  unfold writeKeys
  split_ifs <;> rfl

theorem length_updateWriteCacheBitmapV2Order {order order' : CacheBitmapV2Order} {compressed : Bool}
    (h : updateWriteCacheBitmapV2Order order compressed = some (extraFlags, bs, order')) :
    7 ≤ bs.length ↔ order.flags &&& CBR2_PERSISTENT_KEY_PRESENT ≠ 0 ∨
      (compressed ∧ order.flags &&& CBR2_NO_BITMAP_COMPRESSION_HDR = 0) ∨ 7 ≤ order.lengthV2 := by
  obtain ⟨id, -, h⟩ := Option.bind_eq_some_iff.mp h
  obtain ⟨size, hsize, h⟩ := Option.bind_eq_some_iff.mp h
  obtain ⟨length, hlength, h⟩ := Option.bind_eq_some_iff.mp h
  obtain ⟨index, hindex, h⟩ := Option.bind_eq_some_iff.mp h
  have hbs : writeKeys (writeComprHdr order.withIndex compressed).2 ++ (size ++ (length ++ (index ++
      ((writeComprHdr order.withIndex compressed).1 ++
        (writeComprHdr order.withIndex compressed).2.bitmapDataStream.take
          (writeComprHdr order.withIndex compressed).2.bitmapLength)))) = bs :=
    congrArg (fun r => r.2.1) (Option.some.inj h)
  have hdata : order.withIndex.bitmapDataStream = order.bitmapDataStream := by
    rw [CacheBitmapV2Order.withIndex_eq]
  have hlengthEq : order.withIndex.bitmapLength = order.bitmapLength := by
    rw [CacheBitmapV2Order.withIndex_eq]
  have hflags := CacheBitmapV2Order.flags_withIndex order
  have hsize' := length_writeSize hsize
  have hlength' := length_updateWrite4ByteUnsigned hlength
  have hindex' := length_updateWrite2ByteUnsigned hindex
  have hfields : 1 ≤ unsignedLength order.bitmapWidth ∧ 1 ≤ unsignedLength order.withIndex.cacheIndex ∧
      1 ≤ unsignedLength4 order.bitmapLength := by
    unfold unsignedLength unsignedLength4
    refine ⟨?_, ?_, ?_⟩ <;> split_ifs <;> decide
  rw [hlengthEq] at hlength'
  rw [← hbs, ← hflags]
  -- a compression header is long enough, and so are the keys
  by_cases hhdr : compressed = true ∧ order.withIndex.flags &&& CBR2_NO_BITMAP_COMPRESSION_HDR = 0
  · have hhdr' := length_writeComprHdr hhdr
    refine iff_of_true ?_ (.inr (.inl hhdr))
    simp only [List.length_append, hsize']
    omega
  · rw [writeComprHdr_of_not hhdr, or_iff_right hhdr]
    simp only [List.length_append, List.length_nil, length_writeKeys, hdata, hlengthEq, hsize',
      hlength', hindex']
    unfold CacheBitmapV2Order.lengthV2
    rw [hflags]
    by_cases hkeys : order.flags &&& CBR2_PERSISTENT_KEY_PRESENT ≠ 0
    · rw [if_pos hkeys]
      exact iff_of_true (by omega) (.inl hkeys)
    · rw [if_neg hkeys, or_iff_right hkeys]
      omega

theorem length_updateWriteCacheBitmapV3Order {order : CacheBitmapV3Order}
    (h : updateWriteCacheBitmapV3Order order = some (extraFlags, bs)) : 7 ≤ bs.length := by
  obtain ⟨id, -, h⟩ := Option.bind_eq_some_iff.mp h
  obtain ⟨-, rfl⟩ := Prod.mk.inj (Option.some.inj h)
  simp only [List.length_append, length_byte, length_le16, length_le32]
  omega

theorem length_updateWriteCacheColorTableOrder {order : CacheColorTableOrder}
    (h : updateWriteCacheColorTableOrder order = some bs) : 7 ≤ bs.length := by
  unfold updateWriteCacheColorTableOrder at h
  split_ifs at h with hnumber
  obtain rfl := Option.some.inj h
  have hcolor (color : ℕ) : (updateWriteColorQuad color).length = 3 := rfl
  simp only [List.length_append, length_byte, length_le16, List.length_flatMap, hcolor, List.map_const',
    List.sum_replicate_nat, List.length_range]
  omega

theorem length_writeGlyph (glyph : GlyphData) : 10 ≤ (writeGlyph glyph).length := by
  unfold writeGlyph
  simp only [List.length_append, length_le16, length_writeInt16]
  omega

theorem length_updateWriteCacheGlyphOrder (order : CacheGlyphOrder) :
    7 ≤ (updateWriteCacheGlyphOrder order 0).length ↔ order.glyphData.take order.cGlyphs ≠ [] := by
  have hunicode : writeUnicode 0 order.cGlyphs = [] := rfl
  unfold updateWriteCacheGlyphOrder
  rw [hunicode, List.append_nil, List.length_append, List.length_append, length_byte, length_byte]
  cases order.glyphData.take order.cGlyphs with
  | nil => exact iff_of_false (by decide) (not_not_intro rfl)
  | cons glyph glyphs =>
    have hglyph := length_writeGlyph glyph
    rw [List.flatMap_cons, List.length_append]
    exact iff_of_true (by omega) (List.cons_ne_nil _ _)

theorem length_writeGlyphV2 {glyph : GlyphData} (h : writeGlyphV2 glyph = some bs) :
    bs.length = glyph.lengthV2 := by
  obtain ⟨x, hx, h⟩ := Option.bind_eq_some_iff.mp h
  obtain ⟨y, hy, h⟩ := Option.bind_eq_some_iff.mp h
  obtain ⟨cx, hcx, h⟩ := Option.bind_eq_some_iff.mp h
  obtain ⟨cy, hcy, h⟩ := Option.bind_eq_some_iff.mp h
  obtain rfl := Option.some.inj h
  rw [GlyphData.lengthV2, ← length_updateWrite2ByteSigned hx, ← length_updateWrite2ByteSigned hy,
    ← length_updateWrite2ByteUnsigned hcx, ← length_updateWrite2ByteUnsigned hcy]
  simp only [List.length_append, length_byte]
  omega

theorem length_mapM_writeGlyphV2 {glyphs : List GlyphData} {bss : List (List UInt8)}
    (h : glyphs.mapM writeGlyphV2 = some bss) :
      bss.flatten.length = (glyphs.map GlyphData.lengthV2).sum := by
  induction glyphs generalizing bss with
  | nil =>
    obtain rfl := Option.some.inj h
    rfl
  | cons glyph glyphs ih =>
    rw [List.mapM_cons] at h
    obtain ⟨bs, hglyph, h⟩ := Option.bind_eq_some_iff.mp h
    obtain ⟨bss', hglyphs, h⟩ := Option.bind_eq_some_iff.mp h
    obtain rfl := Option.some.inj h
    rw [List.flatten_cons, List.length_append, List.map_cons, List.sum_cons,
      length_writeGlyphV2 hglyph, ih hglyphs]

theorem and_two_pow_ne_zero (n i : ℕ) : n &&& 2 ^ i ≠ 0 ↔ n.testBit i = true := by
  rw [Nat.and_two_pow]
  cases n.testBit i <;> simp

theorem length_updateWriteCacheGlyphV2Order {order : CacheGlyphV2Order}
    (h : updateWriteCacheGlyphV2Order order = some (extraFlags, bs)) :
    bs.length = ((order.glyphData.take order.cGlyphs).map GlyphData.lengthV2).sum +
      if order.flags &&& 1 ≠ 0 then order.cGlyphs * 2 else 0 := by
  obtain ⟨bss, hglyphs, h⟩ := Option.bind_eq_some_iff.mp h
  obtain ⟨-, rfl⟩ := Prod.mk.inj (Option.some.inj h)
  have hflag : ((order.cacheId &&& 0x000F ||| (order.flags &&& 0x000F) <<< 4 |||
      (order.cGlyphs &&& 0x00FF) <<< 8) % 2 ^ 16) &&& CG_GLYPH_UNICODE_PRESENT ≠ 0 ↔
        order.flags &&& 1 ≠ 0 := by
    refine (and_two_pow_ne_zero _ 4).trans (Iff.trans ?_ (and_two_pow_ne_zero _ 0).symm)
    have hlow : Nat.testBit 0x000F 4 = false := rfl
    have hmiddle : Nat.testBit 0x000F 0 = true := rfl
    rw [Nat.testBit_mod_two_pow, Nat.testBit_or, Nat.testBit_or, Nat.testBit_and, Nat.testBit_shiftLeft,
      Nat.testBit_and, Nat.testBit_shiftLeft, hlow, hmiddle]
    simp
  rw [List.length_append, length_mapM_writeGlyphV2 hglyphs, writeUnicode]
  by_cases hpresent : order.flags &&& 1 ≠ 0
  · rw [if_pos (hflag.mpr hpresent), if_pos hpresent, List.length_replicate]
  · rw [if_neg (fun h => hpresent (hflag.mp h)), if_neg hpresent, List.length_nil]

theorem length_row (order : CacheBrushOrder) (n i : ℕ) : (order.row n i).length = n := by
  rw [CacheBrushOrder.row, List.length_map, List.length_range]

theorem length_updateWriteCacheBrushOrder {order : CacheBrushOrder}
    (h : updateWriteCacheBrushOrder order = some bs) : 7 ≤ bs.length ↔ order.cx = 8 ∧ order.cy = 8 := by
  obtain ⟨iBitmapFormat, hformat, h⟩ := Option.bind_eq_some_iff.mp h
  obtain ⟨data, hdata, h⟩ := Option.bind_eq_some_iff.mp h
  obtain rfl := Option.some.inj h
  simp only [List.length_append, length_byte]
  unfold writeBrushData at hdata
  split_ifs at hdata with hsize hbpp hlength hcompressed
  · obtain rfl := Option.some.inj hdata
    refine iff_of_true ?_ hsize
    simp only [rowsOfBrush, List.flatMap_cons, List.length_append, length_row]
    omega
  · obtain rfl := Option.some.inj hdata
    have hbpp' : 8 ≤ order.bpp := by
      unfold getBppBmf at hformat
      split at hformat <;> simp_all
    refine iff_of_true ?_ hsize
    simp only [rowsOfBrush, List.flatMap_cons, List.length_append, length_row]
    omega
  · obtain rfl := Option.some.inj hdata
    exact iff_of_false (by decide) hsize

/-- The condition under which the receiver finds the end of an order. -/
theorem delimited_send {order : SecondaryOrder} {noBitmapCompressionHeader : Bool}
    (hsend : order.send noBitmapCompressionHeader = some bs) (hlen : bs.length ≤ 65535 + 13) :
    Delimited bs ↔ order.Long noBitmapCompressionHeader := by
  cases order with
  | cacheBitmap order =>
    obtain rfl := Option.some.inj hsend
    rw [updateSendCacheBitmap] at hlen ⊢
    rw [length_sendSecondary] at hlen
    rw [delimited_sendSecondary hlen]
    exact iff_of_true (length_updateWriteCacheBitmapOrder _ _) trivial
  | cacheBitmapV2 order =>
    obtain ⟨⟨extraFlags, body, order'⟩, hwrite, hsend⟩ := Option.bind_eq_some_iff.mp hsend
    obtain rfl := Option.some.inj hsend
    rw [length_sendSecondary] at hlen
    rw [delimited_sendSecondary hlen]
    exact length_updateWriteCacheBitmapV2Order hwrite
  | cacheBitmapV3 order =>
    obtain ⟨⟨extraFlags, body⟩, hwrite, hsend⟩ := Option.bind_eq_some_iff.mp hsend
    obtain rfl := Option.some.inj hsend
    rw [length_sendSecondary] at hlen
    rw [delimited_sendSecondary hlen]
    exact iff_of_true (length_updateWriteCacheBitmapV3Order hwrite) trivial
  | cacheColorTable order =>
    obtain ⟨body, hwrite, hsend⟩ := Option.bind_eq_some_iff.mp hsend
    obtain rfl := Option.some.inj hsend
    rw [length_sendSecondary] at hlen
    rw [delimited_sendSecondary hlen]
    exact iff_of_true (length_updateWriteCacheColorTableOrder hwrite) trivial
  | cacheGlyph order =>
    obtain rfl := Option.some.inj hsend
    rw [updateSendCacheGlyph] at hlen ⊢
    rw [length_sendSecondary] at hlen
    rw [delimited_sendSecondary hlen]
    exact length_updateWriteCacheGlyphOrder order
  | cacheGlyphV2 order =>
    obtain ⟨⟨extraFlags, body⟩, hwrite, hsend⟩ := Option.bind_eq_some_iff.mp hsend
    obtain rfl := Option.some.inj hsend
    rw [length_sendSecondary] at hlen
    rw [delimited_sendSecondary hlen, length_updateWriteCacheGlyphV2Order hwrite]
    exact Iff.rfl
  | cacheBrush order =>
    obtain ⟨body, hwrite, hsend⟩ := Option.bind_eq_some_iff.mp hsend
    obtain rfl := Option.some.inj hsend
    rw [length_sendSecondary] at hlen
    rw [delimited_sendSecondary hlen]
    exact length_updateWriteCacheBrushOrder hwrite

theorem delimited_send_glyph : Delimited [0x03, 5, 0, 0, 0, 0x03, 7, 1, 0, 0, 0, 0, 0, 0, 0, 0, 0, 0] := by
  let order : SecondaryOrder := .cacheGlyph ⟨7, 1, [⟨0, 0, 0, 0, 0, 0, []⟩], []⟩
  have hsend : order.send false = some [0x03, 5, 0, 0, 0, 0x03, 7, 1, 0, 0, 0, 0, 0, 0, 0, 0, 0,
    0] := by decide
  have hlong : order.Long false := List.cons_ne_nil _ _
  exact (delimited_send hsend (by decide)).mpr hlong

/-- A brush without data has 12 bytes. -/
theorem not_delimited_send_brush :
    (SecondaryOrder.cacheBrush ⟨0, 1, 0, 0, 0, 0, fun _ => 0⟩).send false =
      some [0x03, 0xFF, 0xFF, 0, 0, 0x07, 0, 1, 0, 0, 0, 0] ∧
    ¬ Delimited [0x03, 0xFF, 0xFF, 0, 0, 0x07, 0, 1, 0, 0, 0, 0] := by
  refine ⟨by decide, fun h => ?_⟩
  have hbytes : sendSecondary ORDER_TYPE_CACHE_BRUSH 0 [0, 1, 0, 0, 0, 0] =
      [0x03, 0xFF, 0xFF, 0, 0, 0x07, 0, 1, 0, 0, 0, 0] := by decide
  rw [← hbytes, delimited_sendSecondary (by decide)] at h
  exact absurd h (by decide)

end FreeRDP.Orders
