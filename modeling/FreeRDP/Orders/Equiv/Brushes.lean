import FreeRDP.Orders.Equiv.Secondary

/-!
# Color tables and brushes that are read back

The reader of color tables takes four bytes for a color and the writer gives three, the other way
around: no color table is read back.  The reader of brushes takes a brush of 24 bits and 28 bytes for a
compressed one and the writer does not: all other brushes with fields of one byte are read back
(`reads_back_iff`).
-/

namespace FreeRDP.Orders

open Wire

variable {rest bs : List UInt8}

/-! ### Color tables -/

theorem consumes_updateReadColorQuad : Consumes 4 updateReadColorQuad :=
  Consumes.need 4 (n := 1 + (1 + (1 + (1 + 0)))) <| Consumes.u8.bind fun _ => Consumes.u8.bind fun _ =>
    Consumes.u8.bind fun _ => (Consumes.seek 1).bind fun _ => Consumes.pure _

theorem consumes_updateReadCacheColorTableOrder : Consumes 1027 updateReadCacheColorTableOrder := by
  rw [show 1027 = 1 + (2 + (256 * 4 + 0)) by omega]
  refine Consumes.need 3 <| Consumes.u8.bind fun cacheIndex => Consumes.u16le.bind fun numberColors =>
    Consumes.check fun hnumber => Consumes.need _ ?_
  subst hnumber
  exact (consumes_updateReadColorQuad.many 256).bind fun _ => Consumes.pure _

theorem length_colorTable {order : CacheColorTableOrder}
    (hwrite : updateWriteCacheColorTableOrder order = some bs) : bs.length = 771 := by
  unfold updateWriteCacheColorTableOrder at hwrite
  split_ifs at hwrite with hnumber
  obtain rfl := Option.some.inj hwrite
  have hcolor (color : ℕ) : (updateWriteColorQuad color).length = 3 := rfl
  simp only [List.length_append, length_byte, length_le16, List.length_flatMap, hcolor, List.map_const',
    List.sum_replicate_nat, List.length_range]
  omega

/-! ### Brushes -/

/-- The bytes of the pixels of a brush of eight times eight pixels. -/
def CacheBrushOrder.size (order : CacheBrushOrder) : ℕ :=
  if order.bpp = 1 then 8 else 8 * (order.bpp / 8 * 8)

/-- Two brushes have the same fields and the same pixels. -/
structure CacheBrushOrder.Same (order read : CacheBrushOrder) : Prop where
  index : read.index = order.index
  bpp : read.bpp = order.bpp
  cx : read.cx = order.cx
  cy : read.cy = order.cy
  style : read.style = order.style
  length : read.length = order.length
  data : ∀ i, i < order.size → read.data i = order.data i

/-- The formats that are written stand for their numbers of bits. -/
theorem getBmfBpp_of_getBppBmf {bpp iBitmapFormat : ℕ} (hformat : getBppBmf bpp = some iBitmapFormat) :
    iBitmapFormat < 2 ^ 8 ∧ getBmfBpp iBitmapFormat = some bpp ∧ (iBitmapFormat = 5 ↔ bpp = 24) := by
  unfold getBppBmf at hformat
  split at hformat
  all_goals cases hformat
  all_goals exact ⟨by decide, rfl, by decide⟩

/-- What the reader gets of the header of a brush. -/
theorem updateReadCacheBrushOrder_eq {order : CacheBrushOrder} {iBitmapFormat : ℕ} (s : List UInt8)
    (hformat : getBppBmf order.bpp = some iBitmapFormat) (hcx : order.cx = 8) (hcy : order.cy = 8) :
    (updateReadCacheBrushOrder : Reader _) (byte order.index ++ (byte iBitmapFormat ++ (byte order.cx ++
      (byte order.cy ++ (byte order.style ++ (byte order.length ++ s)))))) =
      (readBrushData iBitmapFormat order.bpp (order.length % 2 ^ 8) s).map fun p =>
        ({ index := order.index % 2 ^ 8, bpp := order.bpp, cx := 8, cy := 8,
           style := order.style % 2 ^ 8, length := order.length % 2 ^ 8, data := p.1 }, p.2) := by
  obtain ⟨hlt, hbmf, -⟩ := getBmfBpp_of_getBppBmf hformat
  have hneed : 6 ≤ (byte order.index ++ (byte iBitmapFormat ++ (byte order.cx ++
      (byte order.cy ++ (byte order.style ++ (byte order.length ++ s)))))).length := by
    simp
    omega
  rw [hcx, hcy] at hneed ⊢
  unfold updateReadCacheBrushOrder readPixels
  simp only [monadLift_self]
  rw [need_bind_of_le hneed, u8_byte_bind, u8_byte_bind, Nat.mod_eq_of_lt hlt,
    bind_apply, hbmf, Option.map_some, Option.bind_some, u8_byte_bind, u8_byte_bind, u8_byte_bind,
    u8_byte_bind]
  have hsize : (8 % 2 ^ 8 = 8 ∧ 8 % 2 ^ 8 = 8) := ⟨rfl, rfl⟩
  rw [if_pos hsize, bind_apply]
  cases readBrushData iBitmapFormat order.bpp (order.length % 2 ^ 8) s <;> rfl

/-! ### Pixels -/

/-- The first `m` rows are the bytes of them, one after another. -/
theorem flatMap_row (order : CacheBrushOrder) (n m : ℕ) :
    (List.range m).flatMap (order.row n) = (List.range (m * n)).map order.data := by
  induction m with
  | zero => rw [Nat.zero_mul]; rfl
  | succ m ih =>
    rw [List.range_succ, List.flatMap_append, ih, Nat.succ_mul, List.range_add, List.map_append,
      List.flatMap_cons, List.flatMap_nil, List.append_nil, List.map_map]
    rfl

theorem readRows_eq (order : CacheBrushOrder) (n : ℕ) (rest : List UInt8) :
    many (bytes n) 8 (rowsOfBrush.flatMap (order.row n) ++ rest) =
      some (rowsOfBrush.map (order.row n), rest) := by
  have hmany : Reads (many (bytes n) (rowsOfBrush.map (order.row n)).length)
      ((rowsOfBrush.map (order.row n)).flatMap id) (rowsOfBrush.map (order.row n)) := by
    refine Reads.many fun row hrow => ?_
    obtain ⟨i, -, rfl⟩ := List.mem_map.mp hrow
    exact Reads.bytes (length_row order n i)
  rw [List.flatMap_id, ← List.flatMap_def, List.length_map] at hmany
  exact hmany rest

/-- The reader puts the rows back in their order. -/
theorem getD_rows (order : CacheBrushOrder) {n i : ℕ} (hi : i < 8 * n) :
    (rowsOfBrush.map (order.row n)).reverse.flatten.getD i 0 = order.data i := by
  have hrows : (rowsOfBrush.map (order.row n)).reverse = (List.range 8).map (order.row n) := rfl
  rw [hrows, ← List.flatMap_def, flatMap_row, List.getD_eq_getElem _ _ (by simpa using hi),
    List.getElem_map, List.getElem_range]

/-- The pixels of a brush are read back, unless the reader takes them for compressed. -/
theorem readBrushData_iff {order : CacheBrushOrder} {iBitmapFormat : ℕ} {data : List UInt8}
    (hformat : getBppBmf order.bpp = some iBitmapFormat) (hcx : order.cx = 8) (hcy : order.cy = 8)
    (hwrite : writeBrushData order iBitmapFormat = some data) (rest : List UInt8) :
    (∃ pixels, readBrushData iBitmapFormat order.bpp order.length (data ++ rest) = some (pixels, rest) ∧
      ∀ i, i < order.size → pixels i = order.data i) ↔ ¬ (order.bpp = 24 ∧ order.length = 28) := by
  unfold writeBrushData at hwrite
  rw [if_pos ⟨hcx, hcy⟩] at hwrite
  unfold readBrushData CacheBrushOrder.size
  by_cases hmono : order.bpp = 1
  · rw [if_pos hmono] at hwrite
    split_ifs at hwrite with hlength
    obtain rfl := Option.some.inj hwrite
    rw [if_pos hmono, if_pos hmono]
    have hrows : (rowsOfBrush.flatMap (order.row 1)).reverse = (List.range 8).map order.data := rfl
    have hreads : Reads (bytes 8) (rowsOfBrush.flatMap (order.row 1))
        (rowsOfBrush.flatMap (order.row 1)) := Reads.bytes rfl
    have hall : Reads (do
        check (order.length = 8)
        need 8
        let rows ← bytes 8
        return fun i => rows.reverse.getD i 0)
        (rowsOfBrush.flatMap (order.row 1)) fun i => ((List.range 8).map order.data).getD i 0 :=
      Reads.skip (Reads.check (not_not.mp hlength)) (Reads.need le_rfl (hreads.map (by rw [hrows])))
    refine iff_of_true ⟨_, hall rest, fun i hi => ?_⟩ (by omega)
    rw [List.getD_eq_getElem _ _ (by simpa using hi), List.getElem_map, List.getElem_range]
  · rw [if_neg hmono] at hwrite
    split_ifs at hwrite with hcompressed
    obtain rfl := Option.some.inj hwrite
    rw [if_neg hmono, if_neg hmono]
    obtain ⟨-, -, hformat24⟩ := getBmfBpp_of_getBppBmf hformat
    by_cases h24 : order.bpp = 24 ∧ order.length = 28
    · rw [if_pos (Or.inr ⟨hformat24.mpr h24.1, h24.2⟩)]
      refine iff_of_false ?_ (not_not_intro h24)
      -- only the indices of the pixels are consumed
      rintro ⟨pixels, hread, -⟩
      unfold updateDecompressBrush at hread
      dsimp only at hread
      split_ifs at hread
      obtain ⟨-, hrest⟩ := Prod.mk.inj (Option.some.inj hread)
      have hlength := congrArg List.length hrest
      simp only [List.length_drop, List.length_append, rowsOfBrush, List.flatMap_cons, List.flatMap_nil,
        length_row, List.length_nil, h24.1] at hlength
      omega
    · have hplain : ¬ (isCompressedBrush iBitmapFormat order.length = true ∨
          iBitmapFormat = 5 ∧ order.length = 28) := by
        rw [hformat24]
        exact not_or.mpr ⟨hcompressed, h24⟩
      rw [if_neg hplain]
      have hneed : order.bpp / 8 * 8 * 8 ≤
          (rowsOfBrush.flatMap (order.row (order.bpp / 8 * 8)) ++ rest).length := by
        simp only [List.length_append, rowsOfBrush, List.flatMap_cons, length_row]
        omega
      refine iff_of_true ⟨_, ?_, fun i hi => getD_rows order hi⟩ h24
      rw [need_bind_of_le hneed, bind_apply, readRows_eq, Option.bind_some]
      rfl

/-! ### Reading back -/

/-- The reader of color tables never stops where the writer has. -/
theorem colorTable_not_read_back {order : CacheColorTableOrder}
    (hwrite : updateWriteCacheColorTableOrder order = some bs) (rest : List UInt8)
    (read : CacheColorTableOrder) :
    (updateReadCacheColorTableOrder : Reader _) (bs ++ rest) ≠ some (read, rest) := by
  intro hread
  have htaken := consumes_updateReadCacheColorTableOrder _ _ _ hread
  have hwritten := length_colorTable hwrite
  rw [List.length_append] at htaken
  omega

theorem brush_reads_back_iff {order : CacheBrushOrder} (hcx : order.cx = 8) (hcy : order.cy = 8)
    (hwrite : updateWriteCacheBrushOrder order = some bs) (rest : List UInt8) :
    (∃ read, (updateReadCacheBrushOrder : Reader _) (bs ++ rest) = some (read, rest) ∧ order.Same read) ↔
      order.index < 2 ^ 8 ∧ order.style < 2 ^ 8 ∧ order.length < 2 ^ 8 ∧
        ¬ (order.bpp = 24 ∧ order.length = 28) := by
  obtain ⟨iBitmapFormat, hformat, hwrite⟩ := Option.bind_eq_some_iff.mp hwrite
  obtain ⟨data, hdata, hwrite⟩ := Option.bind_eq_some_iff.mp hwrite
  obtain rfl := Option.some.inj hwrite
  have hpixels := readBrushData_iff hformat hcx hcy hdata rest
  simp only [List.append_assoc]
  rw [updateReadCacheBrushOrder_eq (data ++ rest) hformat hcx hcy]
  constructor
  · rintro ⟨read, hread, hsame⟩
    obtain ⟨⟨pixels, s⟩, hbrush, heq⟩ := Option.map_eq_some_iff.mp hread
    obtain ⟨rfl, rfl⟩ := Prod.mk.inj heq
    have hindex : order.index % 2 ^ 8 = order.index := hsame.index
    have hstyle : order.style % 2 ^ 8 = order.style := hsame.style
    have hlength : order.length % 2 ^ 8 = order.length := hsame.length
    rw [hlength] at hbrush
    refine ⟨?_, ?_, ?_, hpixels.mp ⟨pixels, hbrush, hsame.data⟩⟩ <;> omega
  · rintro ⟨hindex, hstyle, hlength, hplain⟩
    obtain ⟨pixels, hbrush, hsame⟩ := hpixels.mpr hplain
    rw [Nat.mod_eq_of_lt hindex, Nat.mod_eq_of_lt hstyle, Nat.mod_eq_of_lt hlength, hbrush]
    exact ⟨_, rfl, rfl, rfl, hcx.symm, hcy.symm, rfl, rfl, hsame⟩

/-- Color tables are never read back.  Brushes of eight times eight pixels are, if and only if their
fields have one byte and they do not have 24 bits and 28 bytes. -/
theorem reads_back_iff (rest : List UInt8) :
    (∀ (order : CacheColorTableOrder) (bs : List UInt8), updateWriteCacheColorTableOrder order = some bs →
      ¬ ∃ read, (updateReadCacheColorTableOrder : Reader _) (bs ++ rest) = some (read, rest)) ∧
    ∀ (order : CacheBrushOrder) (bs : List UInt8), order.cx = 8 → order.cy = 8 →
      updateWriteCacheBrushOrder order = some bs →
      ((∃ read, (updateReadCacheBrushOrder : Reader _) (bs ++ rest) = some (read, rest) ∧ order.Same read) ↔
        order.index < 2 ^ 8 ∧ order.style < 2 ^ 8 ∧ order.length < 2 ^ 8 ∧
          ¬ (order.bpp = 24 ∧ order.length = 28)) := by
  constructor
  · rintro order bs hwrite ⟨read, hread⟩
    exact colorTable_not_read_back hwrite rest read hread
  · intro order bs hcx hcy hwrite
    exact brush_reads_back_iff hcx hcy hwrite rest

/-- A monochrome brush is read back. -/
theorem reads_back_iff_mono : ∃ read, (updateReadCacheBrushOrder : Reader _)
      ([3, 1, 8, 8, 0, 8, 7, 6, 5, 4, 3, 2, 1, 0] ++ []) = some (read, []) ∧
    CacheBrushOrder.Same ⟨3, 1, 8, 8, 0, 8, fun i => UInt8.ofNat i⟩ read :=
  ((reads_back_iff []).2 ⟨3, 1, 8, 8, 0, 8, fun i => UInt8.ofNat i⟩
    [3, 1, 8, 8, 0, 8, 7, 6, 5, 4, 3, 2, 1, 0] rfl rfl rfl).mpr (by decide)

/-- A color table of 256 times black and a black brush of 24 bits and 28 bytes are not read back. -/
theorem not_reads_back :
    (¬ ∀ (order : CacheColorTableOrder) (bs : List UInt8), order.cacheIndex < 2 ^ 8 →
      order.numberColors = 256 → (∀ i, order.colorTable i < 2 ^ 24) →
      updateWriteCacheColorTableOrder order = some bs →
        ∃ read, (updateReadCacheColorTableOrder : Reader _) bs = some (read, [])) ∧
    ¬ ∀ (order : CacheBrushOrder) (bs : List UInt8), order.index < 2 ^ 8 → order.style < 2 ^ 8 →
      order.length < 2 ^ 8 → order.cx = 8 → order.cy = 8 → updateWriteCacheBrushOrder order = some bs →
        ∃ read, (updateReadCacheBrushOrder : Reader _) bs = some (read, []) ∧ order.Same read := by
  constructor
  · intro h
    have hwrite : updateWriteCacheColorTableOrder ⟨0, 256, fun _ => 0⟩ = some _ :=
      if_neg (not_not_intro rfl)
    obtain ⟨read, hread⟩ := h ⟨0, 256, fun _ => 0⟩ _ (by decide) rfl (fun _ => Nat.two_pow_pos 24) hwrite
    refine colorTable_not_read_back hwrite [] read ?_
    rwa [List.append_nil]
  · intro h
    obtain ⟨bs, hwrite⟩ : ∃ bs, updateWriteCacheBrushOrder ⟨0, 24, 8, 8, 0, 28, fun _ => 0⟩ = some bs :=
      ⟨_, rfl⟩
    obtain ⟨read, hread, hsame⟩ := h _ bs (by decide) (by decide) (by decide) rfl rfl hwrite
    have hiff := brush_reads_back_iff rfl rfl hwrite []
    rw [List.append_nil] at hiff
    exact (hiff.mp ⟨read, hread, hsame⟩).2.2.2 ⟨rfl, rfl⟩

end FreeRDP.Orders
