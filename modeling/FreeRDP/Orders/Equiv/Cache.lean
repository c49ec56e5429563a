import FreeRDP.Orders.Cache
import FreeRDP.Orders.Equiv.Fields

/-!
# Cache orders are read back

Each of the cache orders is read back by its reader, with the flags that its writer gives and with
nothing read of what comes behind.  Of an order that is not to be cached the writer and the reader
replace the index.
-/

namespace FreeRDP.Orders

open Wire

/-! ### Flags -/

theorem shiftRight_and (n mask k w : ℕ) (hmask : mask >>> k = 2 ^ w - 1) :
    (n &&& mask) >>> k = n / 2 ^ k % 2 ^ w := by
  rw [Nat.shiftRight_and_distrib, hmask, Nat.and_two_pow_sub_one_eq_mod, Nat.shiftRight_eq_div_pow]

theorem shiftLeft_and (n mask k w : ℕ) (hmask : mask = (2 ^ w - 1) <<< k) (hn : n < 2 ^ w) :
    n <<< k &&& mask = n <<< k := by
  rw [hmask, ← Nat.shiftLeft_and_distrib, Nat.and_two_pow_sub_one_eq_mod, Nat.mod_eq_of_lt hn]

/-- Three fields, the higher ones shifted. -/
theorem or_shiftLeft_or_shiftLeft {a b c i k : ℕ} (ha : a < 2 ^ i) (hb : b <<< i + a < 2 ^ k) :
    a ||| b <<< i ||| c <<< k = a + b * 2 ^ i + c * 2 ^ k := by
  rw [Nat.or_comm a, ← Nat.shiftLeft_add_eq_or_of_lt ha, Nat.or_comm,
    ← Nat.shiftLeft_add_eq_or_of_lt hb, Nat.shiftLeft_eq, Nat.shiftLeft_eq]
  omega

theorem bitmapFlags_eq {cacheId id flags : ℕ} (hcacheId : cacheId < 4) (hid : id < 16)
    (hflags : flags < 2 ^ 9) :
    cacheId &&& 0x0003 ||| id <<< 3 ||| (flags <<< 7 &&& 0xFF80) =
      cacheId + id * 2 ^ 3 + flags * 2 ^ 7 := by
  rw [shiftLeft_and flags 0xFF80 7 9 rfl hflags, Nat.and_two_pow_sub_one_eq_mod cacheId 2,
    Nat.mod_eq_of_lt hcacheId]
  refine or_shiftLeft_or_shiftLeft (by omega) ?_
  rw [Nat.shiftLeft_eq]
  omega

theorem bitmapFlags_fields (extraFlags : ℕ) {cacheId id flags : ℕ} (hcacheId : cacheId < 4)
    (hid : id < 16) (hflags : flags < 2 ^ 9)
    (h : extraFlags = (cacheId + id * 2 ^ 3 + flags * 2 ^ 7) % 2 ^ 16) :
    extraFlags &&& 0x0003 = cacheId ∧ (extraFlags &&& 0xFF80) >>> 7 = flags ∧
      (extraFlags &&& 0x0078) >>> 3 = id := by
  refine ⟨?_, ?_, ?_⟩
  · rw [Nat.and_two_pow_sub_one_eq_mod extraFlags 2]
    omega
  · rw [shiftRight_and extraFlags 0xFF80 7 9 rfl]
    omega
  · rw [shiftRight_and extraFlags 0x0078 3 4 rfl]
    omega

theorem glyphFlags_eq {cacheId flags cGlyphs : ℕ} (hcacheId : cacheId < 16) (hflags : flags < 16)
    (hcGlyphs : cGlyphs < 2 ^ 8) :
    cacheId &&& 0x000F ||| (flags &&& 0x000F) <<< 4 ||| (cGlyphs &&& 0x00FF) <<< 8 =
      cacheId + flags * 2 ^ 4 + cGlyphs * 2 ^ 8 := by
  rw [Nat.and_two_pow_sub_one_eq_mod cacheId 4, Nat.and_two_pow_sub_one_eq_mod flags 4,
    Nat.and_two_pow_sub_one_eq_mod cGlyphs 8, Nat.mod_eq_of_lt hcacheId, Nat.mod_eq_of_lt hflags,
    Nat.mod_eq_of_lt hcGlyphs]
  refine or_shiftLeft_or_shiftLeft (by omega) ?_
  rw [Nat.shiftLeft_eq]
  omega

theorem glyphFlags_fields {cacheId flags cGlyphs : ℕ} (hcacheId : cacheId < 16) (hflags : flags < 16)
    (hcGlyphs : cGlyphs < 2 ^ 8) {extraFlags : ℕ}
    (h : extraFlags = (cacheId + flags * 2 ^ 4 + cGlyphs * 2 ^ 8) % 2 ^ 16) :
    extraFlags &&& 0x000F = cacheId ∧ (extraFlags &&& 0x00F0) >>> 4 = flags ∧
      (extraFlags &&& 0xFF00) >>> 8 = cGlyphs := by
  refine ⟨?_, ?_, ?_⟩
  · rw [Nat.and_two_pow_sub_one_eq_mod extraFlags 4]
    omega
  · rw [shiftRight_and extraFlags 0x00F0 4 4 rfl]
    omega
  · rw [shiftRight_and extraFlags 0xFF00 8 8 rfl]
    omega

/-- A color depth that both tables have. -/
theorem getBppBmf_eq {bpp : ℕ} (h : bpp ∈ [8, 16, 24, 32]) :
    ∃ id, getBppBmf bpp = some id ∧ id < 16 ∧ getCbr2Bpp id = some bpp := by
  revert bpp
  decide

/-! ### Bitmaps -/

/-- An order that can be written: its fields have the widths they are written with, and it has no
compression header. -/
structure CacheBitmapOrder.Admissible (order : CacheBitmapOrder) (compressed : Bool) : Prop where
  cacheId_lt : order.cacheId < 2 ^ 8
  bitmapBpp_mem : 1 ≤ order.bitmapBpp ∧ order.bitmapBpp ≤ 32
  bitmapWidth_lt : order.bitmapWidth < 2 ^ 8
  bitmapHeight_lt : order.bitmapHeight < 2 ^ 8
  bitmapLength_mem : 1 ≤ order.bitmapLength ∧ order.bitmapLength < 2 ^ 16
  cacheIndex_lt : order.cacheIndex < 2 ^ 16
  compressed_eq : order.compressed = compressed
  bitmapComprHdr_eq : order.bitmapComprHdr = List.replicate 8 0
  length_bitmapDataStream : order.bitmapDataStream.length = order.bitmapLength

theorem reads_updateReadCacheBitmapOrder {order : CacheBitmapOrder} {compressed : Bool}
    (h : order.Admissible compressed) :
    Reads (updateReadCacheBitmapOrder compressed (updateWriteCacheBitmapOrder order compressed).1)
      (updateWriteCacheBitmapOrder order compressed).2 order := by
  have hflag : ¬ NO_BITMAP_COMPRESSION_HDR &&& NO_BITMAP_COMPRESSION_HDR = 0 := by decide
  have hdata : order.bitmapDataStream.take order.bitmapLength = order.bitmapDataStream :=
    List.take_of_length_le h.length_bitmapDataStream.le
  obtain ⟨hbpp, hlength⟩ := And.intro h.bitmapBpp_mem h.bitmapLength_mem
  -- the writer never writes a compression header
  have hwrite : updateWriteCacheBitmapOrder order compressed = (NO_BITMAP_COMPRESSION_HDR,
      byte order.cacheId ++ (byte 0 ++ (byte order.bitmapWidth ++ (byte order.bitmapHeight ++
        (byte order.bitmapBpp ++ (le16 order.bitmapLength ++ le16 order.cacheIndex))))) ++
          order.bitmapDataStream) := by
    unfold updateWriteCacheBitmapOrder
    dsimp only
    rw [if_neg hflag, if_neg hflag, hdata, ite_self]
  have hhdr : Reads (readBitmapComprHdr compressed NO_BITMAP_COMPRESSION_HDR order.bitmapLength) []
      (List.replicate 8 0, order.bitmapLength) := by
    unfold readBitmapComprHdr
    rw [if_neg hflag, ite_self]
    exact Reads.pure _
  rw [hwrite]
  simp only [List.append_assoc]
  refine Reads.need (by simp [byte, le16]) ?_
  refine (Reads.u8 h.cacheId_lt).bind ((Reads.seek_byte 0).bind ((Reads.u8 h.bitmapWidth_lt).bind ?_))
  refine (Reads.u8 h.bitmapHeight_lt).bind ((Reads.u8 (by omega)).bind
    (Reads.skip (Reads.check hbpp) ?_))
  refine (Reads.u16le hlength.2).bind ((Reads.u16le h.cacheIndex_lt).bind (hhdr.skip ?_))
  refine Reads.skip (Reads.check (by omega)) (Reads.need h.length_bitmapDataStream.ge ?_)
  refine (Reads.bytes h.length_bitmapDataStream).map ?_
  rw [← h.compressed_eq, ← h.bitmapComprHdr_eq]

/-! ### Bitmaps, revision 2 -/

/-- An order that can be written: its fields have the widths they are written with, those that are not
written are zero, and the ones that follow from others agree with them. -/
structure CacheBitmapV2Order.Admissible (order : CacheBitmapV2Order) (compressed : Bool) : Prop where
  cacheId_lt : order.cacheId < 4
  flags_lt : order.flags < 2 ^ 9
  keys : if order.flags &&& CBR2_PERSISTENT_KEY_PRESENT ≠ 0 then
    order.key1 < 2 ^ 32 ∧ order.key2 < 2 ^ 32 else order.key1 = 0 ∧ order.key2 = 0
  bitmapBpp_mem : order.bitmapBpp ∈ [8, 16, 24, 32]
  bitmapWidth_le : order.bitmapWidth ≤ 0x7FFF
  bitmapHeight_le : order.bitmapHeight ≤ 0x7FFF
  bitmapHeight_eq : order.flags &&& CBR2_HEIGHT_SAME_AS_WIDTH ≠ 0 →
    order.bitmapHeight = order.bitmapWidth
  bitmapLength_mem : 1 ≤ order.bitmapLength ∧ order.bitmapLength ≤ 0x3FFFFFFF
  cacheIndex_le : order.cacheIndex ≤ 0x7FFF
  compressed_eq : order.compressed = compressed
  comprHdr : if compressed = true ∧ order.flags &&& CBR2_NO_BITMAP_COMPRESSION_HDR = 0 then
    order.bitmapLength = order.cbCompMainBodySize ∧ order.cbCompFirstRowSize < 2 ^ 16 ∧
      order.cbCompMainBodySize < 2 ^ 16 ∧ order.cbScanWidth < 2 ^ 16 ∧
        order.cbUncompressedSize < 2 ^ 16
    else order.cbCompFirstRowSize = 0 ∧ order.cbCompMainBodySize = 0 ∧ order.cbScanWidth = 0 ∧
      order.cbUncompressedSize = 0
  length_bitmapDataStream : order.bitmapDataStream.length = order.bitmapLength

namespace CacheBitmapV2Order

variable {order : CacheBitmapV2Order} {compressed : Bool}

@[simp] theorem flags_withIndex (order : CacheBitmapV2Order) : order.withIndex.flags = order.flags := by
  unfold withIndex
  split_ifs <;> rfl

theorem withIndex_eq (order : CacheBitmapV2Order) : order.withIndex =
    { order with
      cacheIndex := if order.flags &&& CBR2_DO_NOT_CACHE ≠ 0 then BITMAP_CACHE_WAITING_LIST_INDEX
        else order.cacheIndex } := by
  unfold withIndex
  split_ifs <;> rfl

namespace Admissible

theorem withIndex (h : order.Admissible compressed) : order.withIndex.Admissible compressed := by
  rw [withIndex_eq]
  refine { h with cacheIndex_le := ?_ }
  have hle := h.cacheIndex_le
  dsimp only [BITMAP_CACHE_WAITING_LIST_INDEX]
  split_ifs <;> omega

theorem reads_readKeys (h : order.Admissible compressed) :
    Reads (readKeys order.flags) (writeKeys order) (order.key1, order.key2) := by
  have hkeys := h.keys
  unfold readKeys writeKeys
  by_cases hpresent : order.flags &&& CBR2_PERSISTENT_KEY_PRESENT ≠ 0
  · rw [if_pos hpresent] at hkeys ⊢
    rw [if_pos hpresent]
    exact Reads.need le_rfl ((Reads.u32le hkeys.1).bind ((Reads.u32le hkeys.2).map rfl))
  · rw [if_neg hpresent] at hkeys ⊢
    rw [if_neg hpresent, hkeys.1, hkeys.2]
    exact Reads.pure _

theorem reads_readSize (h : order.Admissible compressed) :
    ∃ size, writeSize order = some size ∧
      Reads (readSize order.flags) size (order.bitmapWidth, order.bitmapHeight) := by
  obtain ⟨width, hwidth⟩ := exists_updateWrite2ByteUnsigned h.bitmapWidth_le
  obtain ⟨height, hheight⟩ := exists_updateWrite2ByteUnsigned h.bitmapHeight_le
  unfold readSize writeSize
  by_cases hsame : order.flags &&& CBR2_HEIGHT_SAME_AS_WIDTH ≠ 0
  · rw [if_pos hsame, if_pos hsame, h.bitmapHeight_eq hsame]
    exact ⟨width, hwidth, (reads_updateRead2ByteUnsigned hwidth).map rfl⟩
  · rw [if_neg hsame, if_neg hsame, hwidth, hheight]
    exact ⟨width ++ height, rfl, (reads_updateRead2ByteUnsigned hwidth).bind
      ((reads_updateRead2ByteUnsigned hheight).map rfl)⟩

theorem reads_readComprHdr (h : order.Admissible compressed) :
    ∃ hdr, writeComprHdr order compressed = (hdr, order) ∧
      Reads (readComprHdr compressed order.flags order.bitmapLength) hdr
        (⟨order.cbCompFirstRowSize, order.cbCompMainBodySize, order.cbScanWidth,
          order.cbUncompressedSize⟩, order.bitmapLength) := by
  have hcompr := h.comprHdr
  unfold readComprHdr writeComprHdr
  by_cases hpresent : compressed = true ∧ order.flags &&& CBR2_NO_BITMAP_COMPRESSION_HDR = 0
  · rw [if_pos hpresent] at hcompr
    obtain ⟨hlength, hfirst, hmain, hscan, huncompressed⟩ := hcompr
    have horder : { order with bitmapLength := order.cbCompMainBodySize } = order :=
      congrArg (fun n => { order with bitmapLength := n }) hlength.symm
    rw [if_pos hpresent.1, if_pos hpresent.2, if_pos hpresent.1, if_pos hpresent.2, horder]
    refine ⟨_, rfl, Reads.need le_rfl ((Reads.u16le hfirst).bind ((Reads.u16le hmain).bind
      ((Reads.u16le hscan).bind ((Reads.u16le huncompressed).map ?_))))⟩
    rw [hlength]
  · rw [if_neg hpresent] at hcompr
    obtain ⟨hfirst, hmain, hscan, huncompressed⟩ := hcompr
    refine ⟨[], ?_, ?_⟩
    · split_ifs with hcompressed hflag
      · exact absurd ⟨hcompressed, hflag⟩ hpresent
      · rfl
      · rfl
    · rw [hfirst, hmain, hscan, huncompressed]
      split_ifs with hcompressed hflag
      · exact absurd ⟨hcompressed, hflag⟩ hpresent
      · exact Reads.pure _
      · exact Reads.pure _

/-- What is read is the order as the writer leaves it. -/
theorem reads (h : order.Admissible compressed) :
    ∃ flags bs, updateWriteCacheBitmapV2Order order compressed = some (flags, bs, order.withIndex) ∧
      Reads (updateReadCacheBitmapV2Order compressed flags) bs order.withIndex := by
  obtain rfl := h.compressed_eq
  have h' := h.withIndex
  rw [withIndex_eq] at h' ⊢
  generalize hcacheIndex : (if order.flags &&& CBR2_DO_NOT_CACHE ≠ 0 then
    BITMAP_CACHE_WAITING_LIST_INDEX else order.cacheIndex) = cacheIndex at h' ⊢
  have hindexAgain : (if order.flags &&& CBR2_DO_NOT_CACHE ≠ 0 then
      BITMAP_CACHE_WAITING_LIST_INDEX else cacheIndex) = cacheIndex := by
    rw [← hcacheIndex]
    split_ifs <;> rfl
  have hwithIndex : order.withIndex = { order with cacheIndex := cacheIndex } := by
    rw [withIndex_eq, hcacheIndex]
  obtain ⟨id, hid, hidlt, hbpp⟩ := getBppBmf_eq h.bitmapBpp_mem
  obtain ⟨size, hsize, hreadSize⟩ := h.reads_readSize
  obtain ⟨length, hlength⟩ := exists_updateWrite4ByteUnsigned h.bitmapLength_mem.2
  obtain ⟨index, hindex⟩ := exists_updateWrite2ByteUnsigned h'.cacheIndex_le
  obtain ⟨hdr, hhdr, hreadHdr⟩ := h'.reads_readComprHdr
  have hdata : order.bitmapDataStream.take order.bitmapLength = order.bitmapDataStream :=
    List.take_of_length_le h.length_bitmapDataStream.le
  have hreadBpp : Reads (fun s => (getCbr2Bpp id).map (·, s) : Reader ℕ) [] order.bitmapBpp :=
    fun rest => by rw [hbpp]; rfl
  generalize hflags : (order.cacheId &&& 0x0003 ||| id <<< 3 ||| (order.flags <<< 7 &&& 0xFF80))
    % 2 ^ 16 = flags
  obtain ⟨hcacheId, hflagsField, hidField⟩ := bitmapFlags_fields flags h.cacheId_lt
    hidlt h.flags_lt (by rw [← hflags, bitmapFlags_eq h.cacheId_lt hidlt h.flags_lt])
  refine ⟨flags, writeKeys { order with cacheIndex := cacheIndex } ++ (size ++ (length ++ (index ++
    (hdr ++ order.bitmapDataStream)))), ?_, ?_⟩
  · simp only [updateWriteCacheBitmapV2Order, hid, hsize, hwithIndex, hlength, hindex, hhdr, hdata,
      hflags, Option.bind_eq_bind, Option.bind_some]
    rfl
  · unfold updateReadCacheBitmapV2Order
    rw [hcacheId, hflagsField, hidField]
    refine Reads.skip hreadBpp (h'.reads_readKeys.bind (hreadSize.bind ?_))
    refine (reads_updateRead4ByteUnsigned hlength).bind
      ((reads_updateRead2ByteUnsigned hindex).bind (hreadHdr.bind ?_))
    have hpositive := h.bitmapLength_mem.1
    refine Reads.skip (Reads.check (Nat.ne_of_gt hpositive))
      (Reads.need h.length_bitmapDataStream.ge ((Reads.bytes h.length_bitmapDataStream).map ?_))
    rw [hindexAgain]

end Admissible

end CacheBitmapV2Order

/-! ### Bitmaps, revision 3 -/

/-- An order that can be written: its fields have the widths they are written with. -/
structure CacheBitmapV3Order.Admissible (order : CacheBitmapV3Order) : Prop where
  cacheId_lt : order.cacheId < 4
  bpp_mem : order.bpp ∈ [8, 16, 24, 32]
  flags_lt : order.flags < 2 ^ 9
  cacheIndex_lt : order.cacheIndex < 2 ^ 16
  key1_lt : order.key1 < 2 ^ 32
  key2_lt : order.key2 < 2 ^ 32
  dataBpp_mem : 1 ≤ order.bitmapData.bpp ∧ order.bitmapData.bpp ≤ 32
  codecID_lt : order.bitmapData.codecID < 2 ^ 8
  width_lt : order.bitmapData.width < 2 ^ 16
  height_lt : order.bitmapData.height < 2 ^ 16
  length_mem : 1 ≤ order.bitmapData.length ∧ order.bitmapData.length < 2 ^ 32
  length_data : order.bitmapData.data.length = order.bitmapData.length

theorem CacheBitmapV3Order.Admissible.reads {order : CacheBitmapV3Order} (h : order.Admissible) :
    ∃ flags bs, updateWriteCacheBitmapV3Order order = some (flags, bs) ∧
      Reads (updateReadCacheBitmapV3Order flags) bs order := by
  obtain ⟨id, hid, hidlt, hbpp⟩ := getBppBmf_eq h.bpp_mem
  have hdata : order.bitmapData.data.take order.bitmapData.length = order.bitmapData.data :=
    List.take_of_length_le h.length_data.le
  have hreadBpp : Reads (fun s => (getCbr2Bpp id).map (·, s) : Reader ℕ) [] order.bpp :=
    fun rest => by rw [hbpp]; rfl
  generalize hflags : (order.cacheId &&& 0x0003 ||| (order.flags <<< 7 &&& 0xFF80) |||
    (id <<< 3 &&& 0x0078)) % 2 ^ 16 = flags
  obtain ⟨hcacheId, hflagsField, hidField⟩ := bitmapFlags_fields flags h.cacheId_lt
    hidlt h.flags_lt (by
      rw [← hflags, Nat.or_right_comm, shiftLeft_and id 0x0078 3 4 rfl hidlt,
        bitmapFlags_eq h.cacheId_lt hidlt h.flags_lt])
  refine ⟨flags, _, by simp only [updateWriteCacheBitmapV3Order, hid, hflags, hdata,
    Option.bind_eq_bind, Option.bind_some]; rfl, ?_⟩
  unfold updateReadCacheBitmapV3Order
  rw [hcacheId, hflagsField, hidField]
  have hdataBpp := h.dataBpp_mem
  refine Reads.skip hreadBpp (Reads.need (by simp [byte, le16, le32]) ?_)
  refine (Reads.u16le h.cacheIndex_lt).bind ((Reads.u32le h.key1_lt).bind
    ((Reads.u32le h.key2_lt).bind ((Reads.u8 (by omega)).bind ?_)))
  refine Reads.skip (Reads.check hdataBpp) ((Reads.seek_byte 0).bind ((Reads.seek_byte 0).bind ?_))
  refine (Reads.u8 h.codecID_lt).bind ((Reads.u16le h.width_lt).bind ((Reads.u16le h.height_lt).bind
    ((Reads.u32le h.length_mem.2).bind ?_)))
  have hpositive := h.length_mem.1
  exact Reads.skip (Reads.check (Nat.ne_of_gt hpositive))
    (Reads.need h.length_data.ge ((Reads.bytes h.length_data).map rfl))

/-! ### Glyphs -/

theorem reads_readInt16 {value : ℤ} (h : -2 ^ 15 ≤ value ∧ value < 2 ^ 15) :
    Reads readInt16 (writeInt16 value) value := by
  have hlt : (value % 2 ^ 16).toNat < 2 ^ 16 := by omega
  refine (Reads.u16le hlt).map ?_
  have hcast : (((value % 2 ^ 16).toNat : ℕ) : ℤ) = value % 2 ^ 16 := by omega
  rw [hcast, Int.bmod_def]
  split_ifs <;> omega

/-- A glyph that can be written: its fields have the widths they are written with, and its data the
size that follows from them. -/
structure GlyphData.Admissible (glyph : GlyphData) : Prop where
  cacheIndex_lt : glyph.cacheIndex < 2 ^ 16
  x_mem : -2 ^ 15 ≤ glyph.x ∧ glyph.x < 2 ^ 15
  y_mem : -2 ^ 15 ≤ glyph.y ∧ glyph.y < 2 ^ 15
  cx_lt : glyph.cx < 2 ^ 16
  cy_lt : glyph.cy < 2 ^ 16
  cb_eq : glyph.cb = glyphSize glyph.cx glyph.cy
  length_aj : glyph.aj.length = glyph.cb

theorem GlyphData.Admissible.reads {glyph : GlyphData} (h : glyph.Admissible) :
    Reads readGlyph (writeGlyph glyph) glyph := by
  have hlength : glyph.aj.length = glyphSize glyph.cx glyph.cy := h.length_aj.trans h.cb_eq
  unfold writeGlyph
  rw [List.take_of_length_le hlength.le]
  refine Reads.need (by simp [le16, writeInt16]) ((Reads.u16le h.cacheIndex_lt).bind ?_)
  refine (reads_readInt16 h.x_mem).bind ((reads_readInt16 h.y_mem).bind ?_)
  refine (Reads.u16le h.cx_lt).bind ((Reads.u16le h.cy_lt).bind (Reads.need hlength.ge ?_))
  refine (Reads.bytes hlength).map ?_
  rw [← h.cb_eq]

theorem reads_readUnicode {flags : ℕ} (h : flags &&& CG_GLYPH_UNICODE_PRESENT = 0) (cGlyphs : ℕ) :
    Reads (readUnicode flags cGlyphs) (writeUnicode flags cGlyphs) [] := by
  unfold readUnicode writeUnicode
  rw [if_neg (fun hpresent => hpresent.1 h), if_neg (not_not.mpr h)]
  exact Reads.pure []

/-- An order that can be written, with as many glyphs as it says and no characters. -/
structure CacheGlyphOrder.Admissible (order : CacheGlyphOrder) : Prop where
  cacheId_lt : order.cacheId < 2 ^ 8
  cGlyphs_lt : order.cGlyphs < 2 ^ 8
  length_glyphData : order.glyphData.length = order.cGlyphs
  glyphs : ∀ glyph ∈ order.glyphData, glyph.Admissible
  unicodeCharacters_eq : order.unicodeCharacters = []

theorem CacheGlyphOrder.Admissible.reads {order : CacheGlyphOrder} {flags : ℕ}
    (h : order.Admissible) (hflags : flags &&& CG_GLYPH_UNICODE_PRESENT = 0) :
    Reads (updateReadCacheGlyphOrder flags) (updateWriteCacheGlyphOrder order flags) order := by
  unfold updateWriteCacheGlyphOrder
  rw [List.take_of_length_le h.length_glyphData.le]
  have hglyphs := Reads.many fun glyph hglyph => (h.glyphs glyph hglyph).reads
  rw [h.length_glyphData] at hglyphs
  refine Reads.need (by simp [byte]) ((Reads.u8 h.cacheId_lt).bind ((Reads.u8 h.cGlyphs_lt).bind ?_))
  refine hglyphs.bind ((reads_readUnicode hflags order.cGlyphs).map ?_)
  rw [← h.unicodeCharacters_eq]

/-! ### Glyphs, revision 2 -/

/-- A glyph that can be written: its fields fit, and its data has the size that follows from them. -/
structure GlyphData.AdmissibleV2 (glyph : GlyphData) : Prop where
  cacheIndex_lt : glyph.cacheIndex < 2 ^ 8
  x_le : glyph.x.natAbs ≤ 0x3FFF
  y_le : glyph.y.natAbs ≤ 0x3FFF
  cx_le : glyph.cx ≤ 0x7FFF
  cy_le : glyph.cy ≤ 0x7FFF
  cb_eq : glyph.cb = glyphSize glyph.cx glyph.cy
  length_aj : glyph.aj.length = glyph.cb

theorem GlyphData.AdmissibleV2.reads {glyph : GlyphData} (h : glyph.AdmissibleV2) :
    ∃ bs, writeGlyphV2 glyph = some bs ∧ Reads readGlyphV2 bs glyph := by
  have hlength : glyph.aj.length = glyphSize glyph.cx glyph.cy := h.length_aj.trans h.cb_eq
  obtain ⟨x, hx⟩ := exists_updateWrite2ByteSigned h.x_le
  obtain ⟨y, hy⟩ := exists_updateWrite2ByteSigned h.y_le
  obtain ⟨cx, hcx⟩ := exists_updateWrite2ByteUnsigned h.cx_le
  obtain ⟨cy, hcy⟩ := exists_updateWrite2ByteUnsigned h.cy_le
  refine ⟨byte glyph.cacheIndex ++ (x ++ (y ++ (cx ++ (cy ++ glyph.aj)))), ?_, ?_⟩
  · simp only [writeGlyphV2, hx, hy, hcx, hcy, Option.bind_eq_bind, Option.bind_some,
      List.take_of_length_le hlength.le]
    rfl
  · refine Reads.need (by simp [byte]) ((Reads.u8 h.cacheIndex_lt).bind ?_)
    refine (reads_updateRead2ByteSigned hx).bind ((reads_updateRead2ByteSigned hy).bind ?_)
    refine (reads_updateRead2ByteUnsigned hcx).bind ((reads_updateRead2ByteUnsigned hcy).bind ?_)
    refine Reads.need hlength.ge ((Reads.bytes hlength).map ?_)
    rw [← h.cb_eq]

theorem reads_many_readGlyphV2 {glyphs : List GlyphData} (h : ∀ glyph ∈ glyphs, glyph.AdmissibleV2) :
    ∃ bss, glyphs.mapM writeGlyphV2 = some bss ∧
      Reads (many readGlyphV2 glyphs.length) bss.flatten glyphs := by
  induction glyphs with
  | nil => exact ⟨[], rfl, Reads.pure []⟩
  | cons glyph glyphs ih =>
    obtain ⟨bs, hwrite, hread⟩ := (h glyph List.mem_cons_self).reads
    obtain ⟨bss, hwrites, hreads⟩ := ih fun glyph hglyph => h glyph (List.mem_cons_of_mem _ hglyph)
    exact ⟨bs :: bss, by simp [List.mapM_cons, hwrite, hwrites], hread.bind (hreads.map rfl)⟩

/-- An order that can be written, with as many glyphs as it says and no characters. -/
structure CacheGlyphV2Order.Admissible (order : CacheGlyphV2Order) : Prop where
  cacheId_lt : order.cacheId < 16
  flags_lt : order.flags < 16
  flags_even : order.flags % 2 = 0
  cGlyphs_lt : order.cGlyphs < 2 ^ 8
  length_glyphData : order.glyphData.length = order.cGlyphs
  glyphs : ∀ glyph ∈ order.glyphData, glyph.AdmissibleV2
  unicodeCharacters_eq : order.unicodeCharacters = []

theorem CacheGlyphV2Order.Admissible.reads {order : CacheGlyphV2Order} (h : order.Admissible) :
    ∃ flags bs, updateWriteCacheGlyphV2Order order = some (flags, bs) ∧
      Reads (updateReadCacheGlyphV2Order flags) bs order := by
  obtain ⟨bss, hwrites, hreads⟩ := reads_many_readGlyphV2 h.glyphs
  rw [h.length_glyphData] at hreads
  generalize hflags : (order.cacheId &&& 0x000F ||| (order.flags &&& 0x000F) <<< 4 |||
    (order.cGlyphs &&& 0x00FF) <<< 8) % 2 ^ 16 = flags
  have hsum : flags = (order.cacheId + order.flags * 2 ^ 4 + order.cGlyphs * 2 ^ 8) % 2 ^ 16 := by
    rw [← hflags, glyphFlags_eq h.cacheId_lt h.flags_lt h.cGlyphs_lt]
  obtain ⟨hcacheId, hflagsField, hcGlyphs⟩ :=
    glyphFlags_fields h.cacheId_lt h.flags_lt h.cGlyphs_lt hsum
  have hunicode : flags &&& CG_GLYPH_UNICODE_PRESENT = 0 := by
    have hbit : flags &&& 2 ^ 4 = 0 := by
      rw [Nat.and_two_pow, Nat.testBit_eq_decide_div_mod_eq]
      have heven := h.flags_even
      have hlow := h.cacheId_lt
      have hzero : flags / 2 ^ 4 % 2 = 0 := by omega
      rw [hzero]
      rfl
    exact hbit
  refine ⟨flags, bss.flatten ++ writeUnicode flags order.cGlyphs, ?_, ?_⟩
  · simp only [updateWriteCacheGlyphV2Order, hflags, List.take_of_length_le h.length_glyphData.le,
      hwrites, Option.bind_eq_bind, Option.bind_some]
    rfl
  · unfold updateReadCacheGlyphV2Order
    rw [hcacheId, hflagsField, hcGlyphs]
    refine hreads.bind ((reads_readUnicode hunicode order.cGlyphs).map ?_)
    rw [← h.unicodeCharacters_eq]

/-! ### All orders -/

/-- An order, with what its writer and its reader are given besides. -/
inductive CacheOrder where
  | bitmap (order : CacheBitmapOrder) (compressed : Bool)
  | bitmapV2 (order : CacheBitmapV2Order) (compressed : Bool)
  | bitmapV3 (order : CacheBitmapV3Order)
  | glyph (order : CacheGlyphOrder) (flags : ℕ)
  | glyphV2 (order : CacheGlyphV2Order)

/-- The orders that can be written. -/
def CacheOrder.Admissible : CacheOrder → Prop
  | bitmap order compressed => order.Admissible compressed
  | bitmapV2 order compressed => order.Admissible compressed
  | bitmapV3 order => order.Admissible
  | glyph order flags => order.Admissible ∧ flags &&& CG_GLYPH_UNICODE_PRESENT = 0
  | glyphV2 order => order.Admissible

def CacheOrder.readBack : CacheOrder → CacheOrder
  | bitmapV2 order compressed => bitmapV2 order.withIndex compressed
  | order => order

/-- The writer succeeds, and the reader reads `order'` off what it has written, and no more. -/
def CacheOrder.ReadsBack : CacheOrder → CacheOrder → Prop
  | bitmap order compressed, order' => ∃ read, order' = bitmap read compressed ∧
      Reads (updateReadCacheBitmapOrder compressed (updateWriteCacheBitmapOrder order compressed).1)
        (updateWriteCacheBitmapOrder order compressed).2 read
  | bitmapV2 order compressed, order' => ∃ read flags bs left, order' = bitmapV2 read compressed ∧
      updateWriteCacheBitmapV2Order order compressed = some (flags, bs, left) ∧
        Reads (updateReadCacheBitmapV2Order compressed flags) bs read
  | bitmapV3 order, order' => ∃ read flags bs, order' = bitmapV3 read ∧
      updateWriteCacheBitmapV3Order order = some (flags, bs) ∧
        Reads (updateReadCacheBitmapV3Order flags) bs read
  | glyph order flags, order' => ∃ read, order' = glyph read flags ∧
      Reads (updateReadCacheGlyphOrder flags) (updateWriteCacheGlyphOrder order flags) read
  | glyphV2 order, order' => ∃ read flags bs, order' = glyphV2 read ∧
      updateWriteCacheGlyphV2Order order = some (flags, bs) ∧
        Reads (updateReadCacheGlyphV2Order flags) bs read

/-- Each order that can be written is read back, a bitmap of revision 2 that is not to be cached with
the index of the waiting list. -/
theorem cacheOrder_readsBack (order : CacheOrder) (h : order.Admissible) :
    order.ReadsBack order.readBack := by
  cases order with
  | bitmap order compressed => exact ⟨order, rfl, reads_updateReadCacheBitmapOrder h⟩
  | bitmapV2 order compressed =>
    obtain ⟨flags, bs, hwrite, hread⟩ := CacheBitmapV2Order.Admissible.reads h
    exact ⟨_, flags, bs, _, rfl, hwrite, hread⟩
  | bitmapV3 order =>
    obtain ⟨flags, bs, hwrite, hread⟩ := CacheBitmapV3Order.Admissible.reads h
    exact ⟨order, flags, bs, rfl, hwrite, hread⟩
  | glyph order flags => exact ⟨order, rfl, h.1.reads h.2⟩
  | glyphV2 order =>
    obtain ⟨flags, bs, hwrite, hread⟩ := CacheGlyphV2Order.Admissible.reads h
    exact ⟨order, flags, bs, rfl, hwrite, hread⟩

/-- A glyph of one pixel. -/
theorem cacheOrder_readsBack_glyph :
    (CacheOrder.glyphV2 ⟨3, 2, 1, [⟨5, -100, 7, 1, 1, 4, [128, 0, 0, 0]⟩], []⟩).ReadsBack
      (CacheOrder.glyphV2 ⟨3, 2, 1, [⟨5, -100, 7, 1, 1, 4, [128, 0, 0, 0]⟩], []⟩) := by
  refine cacheOrder_readsBack (.glyphV2 _) ⟨by decide, by decide, by decide, by decide, rfl, ?_, rfl⟩
  intro glyph hglyph
  obtain rfl := List.mem_singleton.mp hglyph
  exact ⟨by decide, by decide, by decide, by decide, by decide, rfl, rfl⟩

/-- An order of one pixel that is not to be cached is read back with another index. -/
theorem cacheOrder_readsBack_doNotCache :
    ¬ ∀ order : CacheOrder, order.Admissible → order.ReadsBack order := by
  intro h
  let order : CacheBitmapV2Order := ⟨0, CBR2_DO_NOT_CACHE, 0, 0, 8, 1, 1, 1, 5, false, 0, 0, 0, 0, [7]⟩
  have horder : order.Admissible false :=
    ⟨by decide, by decide, by decide, by decide, by decide, by decide, by decide, by decide,
      by decide, rfl, by decide, rfl⟩
  obtain ⟨read, flags, bs, left, hsame, hwrite, hread⟩ := h (.bitmapV2 order false) horder
  obtain ⟨flags', bs', hwrite', hread'⟩ := horder.reads
  rw [hwrite] at hwrite'
  obtain ⟨hflags, hpair⟩ := Prod.mk.inj (Option.some.inj hwrite')
  obtain ⟨hbs, -⟩ := Prod.mk.inj hpair
  subst hflags hbs
  have hindex := (hread []).symm.trans (hread' [])
  obtain ⟨hreadBack, -⟩ := Prod.mk.inj (Option.some.inj hindex)
  rw [← (CacheOrder.bitmapV2.inj hsame).1] at hreadBack
  exact absurd hreadBack (by decide)

end FreeRDP.Orders
