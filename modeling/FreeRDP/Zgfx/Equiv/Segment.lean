import FreeRDP.Zgfx.Equiv.Reader

/-!
# Compressed segments

A segment is a list of tokens: literals, matches and unencoded runs.  `execute` runs the tokens one
byte at a time over the infinite past of the output stream, and `Encodes` says which fields a list
of tokens is written as.  `zgfxDecompressSegment_tokens` is the correctness of
`zgfx_decompress_segment`: on the fields of a list of tokens it outputs what the tokens execute to,
and leaves a ring that holds the past with the output appended.
-/

namespace FreeRDP.Zgfx

open BitField PrefixCode Iterate Ring

/-! ### Tokens -/

inductive Token where
  | literal (c : UInt8)
  | copy (distance count : ℕ)
  | raw (bytes : List UInt8)

/-- `n` bytes, each the one `distance` places back when it is its turn. -/
def copyBytes (past : ℕ → UInt8) (distance : ℕ) : ℕ → List UInt8
  | 0 => []
  | n + 1 => past distance :: copyBytes (push past (past distance)) distance n

def Token.bytes (past : ℕ → UInt8) : Token → List UInt8
  | .literal c => [c]
  | .copy distance count => copyBytes past distance count
  | .raw bytes => bytes

def execute (past : ℕ → UInt8) : List Token → List UInt8
  | [] => []
  | t :: ts => t.bytes past ++ execute (append past (t.bytes past)) ts

def Token.Valid : Token → Prop
  | .literal _ => True
  | .copy distance count => 1 ≤ distance ∧ distance ≤ historyBufferSize ∧ 3 ≤ count
  | .raw bytes => 1 ≤ bytes.length ∧ bytes.length ≤ 32767

/-- The fields of a code word of a row of the table. -/
def TokenRow.fields (r : TokenRow) (v : ℕ) : List (ℕ × ℕ) :=
  [(r.prefixLength, r.prefixCode), (r.valueBits, v - r.valueBase)]

def byteFields (bytes : List UInt8) : List (ℕ × ℕ) := bytes.map fun c => (8, c.toNat)

/-- The fields a token is written as at bit `p`.  A literal and a distance may be written with any
row that spans it; an unencoded run is a distance of zero, a count, bits up to the next byte, and
the bytes. -/
inductive Token.EncodesAt (p : ℕ) : Token → List (ℕ × ℕ) → Prop
  | literal {c : UInt8} {r : TokenRow} (hr : r ∈ ZGFX_TOKEN_TABLE) (htype : r.tokenType = 0)
      (hspans : r.row.Spans c.toNat) : EncodesAt p (.literal c) (r.fields c.toNat)
  | copy {distance count : ℕ} {r : TokenRow} (hr : r ∈ ZGFX_TOKEN_TABLE) (htype : r.tokenType ≠ 0)
      (hdistance : 1 ≤ distance ∧ distance ≤ historyBufferSize) (hspans : r.row.Spans distance)
      (hcount : 3 ≤ count) :
      EncodesAt p (.copy distance count) (r.fields distance ++ countFields count)
  | raw {bytes : List UInt8} {r : TokenRow} (padding : ℕ) (hr : r ∈ ZGFX_TOKEN_TABLE)
      (htype : r.tokenType ≠ 0) (hspans : r.row.Spans 0)
      (hbytes : 1 ≤ bytes.length ∧ bytes.length ≤ 32767) :
      EncodesAt p (.raw bytes)
        (r.fields 0 ++ (15, bytes.length) ::
          ((8 - (p + width (r.fields 0) + 15) % 8) % 8, padding) :: byteFields bytes)

/-- The fields a list of tokens is written as from bit `p` on. -/
inductive Encodes : ℕ → List Token → List (ℕ × ℕ) → Prop
  | nil (p : ℕ) : Encodes p [] []
  | cons {p : ℕ} {t : Token} {ts : List Token} {fs gs : List (ℕ × ℕ)} (ht : t.EncodesAt p fs)
      (hts : Encodes (p + width fs) ts gs) : Encodes p (t :: ts) (fs ++ gs)

/-! ### The history -/

theorem ringIndex_eq {index count : ℕ} (hi : index < historyBufferSize)
    (hc : count ≤ historyBufferSize) : ringIndex index count = (index + count) % historyBufferSize := by
  unfold ringIndex
  split_ifs with h1 h2
  · rw [h2, Nat.mod_self]
  · rw [Nat.mod_eq_of_lt (by omega)]
  · rw [Nat.mod_eq_sub_mod (by omega), Nat.mod_eq_of_lt (by omega)]
    omega

/-- The ring of a context holds the past of the stream. -/
def Context.Holds (zgfx : Context) (past : ℕ → UInt8) : Prop :=
  Ring.Holds historyBufferSize zgfx.historyBuffer zgfx.historyIndex past

theorem holds_zgfxContextNew : zgfxContextNew.Holds fun _ => 0 := fun _ _ _ => rfl

theorem ringWrite_historyBuffer (zgfx : Context) (src : List UInt8) :
    (ringWrite zgfx src).historyBuffer = Ring.write historyBufferSize zgfx.historyBuffer
      ((zgfx.historyIndex + ringResidue src) % historyBufferSize) (src.drop (ringResidue src)) := rfl

theorem ringWrite_historyIndex (zgfx : Context) (src : List UInt8) :
    (ringWrite zgfx src).historyIndex = ringIndex
      ((zgfx.historyIndex + ringResidue src) % historyBufferSize)
      (src.drop (ringResidue src)).length := rfl

/-- `zgfx_history_buffer_ring_write` appends. -/
theorem Context.Holds.ringWrite {zgfx : Context} {past : ℕ → UInt8} (h : zgfx.Holds past)
    {src : List UInt8} (hsrc : src.length ≤ historyBufferSize) :
    (ringWrite zgfx src).Holds (append past src) := by
  have hresidue : ringResidue src = 0 := Nat.sub_eq_zero_of_le hsrc
  have hindex : (zgfx.historyIndex + ringResidue src) % historyBufferSize = zgfx.historyIndex := by
    rw [hresidue, Nat.add_zero, Nat.mod_eq_of_lt zgfx.index_lt]
  have hwrite := Ring.Holds.write h zgfx.index_lt hsrc
  rw [← ringIndex_eq zgfx.index_lt hsrc] at hwrite
  rw [Context.Holds, ringWrite_historyBuffer, ringWrite_historyIndex, hindex, hresidue,
    List.drop_zero]
  exact hwrite

/-! ### Matches -/

/-- The first `n` values of a function with period `d`. -/
def periodic (f : ℕ → UInt8) (d n : ℕ) : List UInt8 := (List.range n).map fun i => f (i % d)

@[simp] theorem length_periodic (f : ℕ → UInt8) (d n : ℕ) : (periodic f d n).length = n := by
  simp [periodic]

/-- Behind whole periods the values start again. -/
theorem periodic_append (f : ℕ → UInt8) (d m : ℕ) {n : ℕ} (hn : n ≤ d * m) :
    periodic f d (d * m) ++ (periodic f d (d * m)).take n = periodic f d (d * m + n) := by
  apply List.ext_getElem (by simp [hn])
  intro i h1 h2
  rw [List.getElem_append]
  split_ifs with hi
  · simp [periodic]
  · rw [length_periodic] at hi h2
    obtain ⟨j, rfl⟩ := Nat.exists_eq_add_of_le (Nat.le_of_not_lt hi)
    simp [periodic]

/-- A match repeats the bytes from `d` places back on. -/
theorem copyBytes_eq {d : ℕ} (hd : 1 ≤ d) (past : ℕ → UInt8) (n : ℕ) :
    copyBytes past d n = periodic (fun i => past (d - i)) d n := by
  induction n generalizing past with
  | zero => rfl
  | succ n ih =>
    rw [copyBytes, ih]
    unfold periodic
    rw [List.range_succ_eq_map, List.map_cons, List.map_map, Nat.zero_mod]
    congr 1
    apply List.map_congr_left
    intro i _
    have hlt := Nat.mod_lt i hd
    simp only [Function.comp_apply, push, Nat.succ_eq_add_one]
    by_cases hlast : i % d = d - 1
    · rw [if_pos (by omega), Nat.add_mod, hlast]
      by_cases h1 : d = 1
      · simp [h1]
      · rw [Nat.mod_eq_of_lt (a := 1) (by omega), Nat.sub_add_cancel hd, Nat.mod_self, Nat.sub_zero]
    · rw [if_neg (by omega), Nat.add_mod, Nat.mod_eq_of_lt (a := 1) (by omega),
        Nat.mod_eq_of_lt (a := i % d + 1) (by omega)]
      congr 1

/-- The doubling loop repeats what it starts with. -/
theorem repeatCopy_periodic (f : ℕ → UInt8) {d : ℕ} (hd : 1 ≤ d) (rounds left : ℕ) {m : ℕ}
    (hm : 1 ≤ m) (hleft : left ≤ rounds) :
    repeatCopy rounds left (periodic f d (d * m)) = periodic f d (d * m + left) := by
  induction rounds generalizing left m with
  | zero => rw [Nat.le_zero.mp hleft]; rfl
  | succ rounds ih =>
    have hpos : 1 ≤ d * m := Nat.mul_pos hd hm
    rw [repeatCopy]
    by_cases hzero : left = 0
    · rw [if_pos hzero, hzero, Nat.add_zero]
    · rw [if_neg hzero, length_periodic, periodic_append _ _ _ (Nat.min_le_left _ _)]
      rcases Nat.le_total left (d * m) with hle | hle
      · -- the last, shorter copy
        rw [Nat.min_eq_right hle, Nat.sub_self]
        cases rounds <;> simp [repeatCopy]
      · rw [Nat.min_eq_left hle, ← Nat.mul_add, ih _ (by omega) (by omega), Nat.mul_add]
        congr 1
        omega

/-- The two pieces that a range of the ring may have. -/
theorem ringSlice_eq (buffer : ℕ → UInt8) {index n : ℕ} (hindex : index < historyBufferSize)
    (hn : n ≤ historyBufferSize) :
    (if index + n ≤ historyBufferSize then slice buffer index n
      else slice buffer index (historyBufferSize - index) ++
        slice buffer 0 (n - (historyBufferSize - index))) =
      (List.range n).map fun i => buffer ((index + i) % historyBufferSize) := by
  split_ifs with h
  · apply List.map_congr_left
    intro i hi
    rw [Nat.mod_eq_of_lt (by have := List.mem_range.mp hi; omega)]
  · apply List.ext_getElem (by simp [slice]; omega)
    intro i h1 h2
    simp only [List.length_map, List.length_range] at h2
    rw [List.getElem_append]
    simp only [slice, List.length_map, List.length_range, List.getElem_map, List.getElem_range]
    split_ifs with hi
    · rw [Nat.mod_eq_of_lt (by omega)]
    · rw [Nat.mod_eq_sub_mod (by omega), Nat.mod_eq_of_lt (by omega)]
      congr 1
      omega

/-- `zgfx_history_buffer_ring_read` reads a match. -/
theorem Context.Holds.ringRead {zgfx : Context} {past : ℕ → UInt8} (h : zgfx.Holds past)
    {distance : ℕ} (hd : 1 ≤ distance) (hd' : distance ≤ historyBufferSize) (count : ℕ) :
    ringRead zgfx distance count = copyBytes past distance count := by
  have hlt := zgfx.index_lt
  have hindex : (zgfx.historyIndex + historyBufferSize + 2 ^ 32 - distance) % 2 ^ 32 %
      historyBufferSize = (zgfx.historyIndex + historyBufferSize - distance) % historyBufferSize := by
    have hsmall : zgfx.historyIndex + historyBufferSize - distance < 2 ^ 32 := by
      unfold historyBufferSize at *
      omega
    rw [show zgfx.historyIndex + historyBufferSize + 2 ^ 32 - distance =
      zgfx.historyIndex + historyBufferSize - distance + 2 ^ 32 by omega, Nat.add_mod_right,
      Nat.mod_eq_of_lt hsmall]
  -- the bytes that are in the ring
  have hslice : ((List.range (min count distance)).map fun i => zgfx.historyBuffer
      (((zgfx.historyIndex + historyBufferSize - distance) % historyBufferSize + i) %
        historyBufferSize)) = periodic (fun i => past (distance - i)) distance (min count distance) := by
    apply List.map_congr_left
    intro i hi
    have hi := List.mem_range.mp hi
    have hpast := h (distance - i) (by omega) (by omega)
    dsimp only
    rw [Nat.mod_add_mod, Nat.mod_eq_of_lt (a := i) (by omega), ← hpast]
    congr 2
    omega
  rw [Zgfx.ringRead, hindex, ringSlice_eq _ (Nat.mod_lt _ historyBufferSize_pos) (by omega), hslice,
    copyBytes_eq hd]
  rcases Nat.le_total count distance with hle | hle
  · rw [Nat.min_eq_left hle, Nat.sub_self]
    cases count <;> rfl
  · have := repeatCopy_periodic (fun i => past (distance - i)) hd count (count - distance)
      (Nat.le_refl 1) (by omega)
    rw [Nat.mul_one] at this
    rw [Nat.min_eq_right hle, this, Nat.add_sub_cancel' hle]

/-! ### One token -/

variable {data : List UInt8} {total p : ℕ} {past : ℕ → UInt8} {d : Decoder}

/-- The decoder stands at bit `p` of `data`, and its ring holds `past`. -/
structure Decoder.DecodesAt (data : List UInt8) (total : ℕ) (d : Decoder) (p : ℕ)
    (past : ℕ → UInt8) : Prop where
  reader : d.reader.ReadsAt data total p
  history : d.zgfx.Holds past

theorem prefixLength_pos : ∀ r ∈ ZGFX_TOKEN_TABLE, 0 < r.prefixLength := by decide

/-- A round reads the row and the value that stand at the reader. -/
theorem decompressStep_row (h : d.reader.ReadsAt data total p) (htotal : total ≤ 8 * data.length)
    (htotal' : total < 2 ^ 32) {r : TokenRow} (hr : r ∈ ZGFX_TOKEN_TABLE) {v : ℕ}
    (hspans : r.row.Spans v) (hspells : Spells (dataBit data) p (r.fields v))
    (hp : p + width (r.fields v) ≤ total) :
    ∃ reader : Reader, reader.ReadsAt data total (p + width (r.fields v)) ∧
      decompressStep d =
        if r.tokenType = 0 then { d with reader := reader }.putLiteral (UInt8.ofNat v)
        else { d with reader := reader }.readMatch v := by
  obtain ⟨hcode, hvalue, -⟩ := hspells
  have hpos := prefixLength_pos r hr
  simp only [TokenRow.fields, width_cons, width_nil] at hp ⊢
  have hrest := h.remaining
  obtain ⟨hfound, hread⟩ := Reader.ReadsAt.findToken (a := 0) sorted_tokenTable
    prefixFree_tokenTable hr hcode (fun _ _ => Nat.zero_le _) h htotal htotal' (by omega)
  rw [fieldAt_zero] at hfound hread
  rw [decompressStep, if_neg (by omega)]
  generalize d.reader.findToken ZGFX_TOKEN_TABLE 0 0 = found at hfound hread
  obtain ⟨reader, token⟩ := found
  obtain rfl : token = some r := hfound
  obtain ⟨hread', hbits⟩ := hread.getBits htotal htotal' (valueBits_tokenTable r hr) (by omega)
  refine ⟨reader.getBits r.valueBits, by rw [Nat.add_zero, ← Nat.add_assoc]; exact hread', ?_⟩
  have hv : r.valueBase + (reader.getBits r.valueBits).bits = v := by
    rw [hbits, hvalue]
    exact Nat.add_sub_cancel' hspans.1
  dsimp only
  rw [hv]

theorem length_copyBytes (past : ℕ → UInt8) (distance n : ℕ) :
    (copyBytes past distance n).length = n := by
  induction n generalizing past with
  | zero => rfl
  | succ n ih => rw [copyBytes, List.length_cons, ih]

theorem take_of_spells {k : ℕ} {bytes : List UInt8} (hk : k + bytes.length ≤ data.length)
    (h : Spells (dataBit data) (8 * k) (byteFields bytes)) :
    (data.drop k).take bytes.length = bytes := by
  induction bytes generalizing k with
  | nil => rfl
  | cons c bytes ih =>
    obtain ⟨hc, hrest⟩ := h
    rw [List.length_cons] at hk
    have hbyte : data[k] = c := by
      rw [dataBit, fieldAt_byteBit, List.getD_eq_getElem _ _ (by omega)] at hc
      exact UInt8.toNat_inj.mp hc
    rw [List.length_cons, List.drop_eq_getElem_cons (by omega), List.take_succ_cons, hbyte,
      ih (k := k + 1) (by omega) hrest]

theorem width_byteFields (bytes : List UInt8) : width (byteFields bytes) = 8 * bytes.length := by
  induction bytes with
  | nil => rfl
  | cons c bytes ih =>
    rw [byteFields, List.map_cons, width_cons, ← byteFields, ih, List.length_cons]
    omega

theorem Decoder.DecodesAt.literal (h : d.DecodesAt data total p past)
    (htotal : total ≤ 8 * data.length) (htotal' : total < 2 ^ 32) {c : UInt8} {r : TokenRow}
    (hr : r ∈ ZGFX_TOKEN_TABLE) (htype : r.tokenType = 0) (hspans : r.row.Spans c.toNat)
    (hspells : Spells (dataBit data) p (r.fields c.toNat))
    (hp : p + width (r.fields c.toNat) ≤ total) (hout : d.output.length + 1 ≤ outputBufferSize) :
    ∃ d', decompressStep d = .inl d' ∧ d'.output = d.output ++ [c] ∧
      d'.DecodesAt data total (p + width (r.fields c.toNat)) (append past [c]) := by
  obtain ⟨reader, hread, hstep⟩ := decompressStep_row h.reader htotal htotal' hr hspans hspells hp
  have hput : { d with reader := reader }.putLiteral c =
      .inl ⟨reader, ringWrite d.zgfx [c], d.output ++ [c]⟩ := by
    rw [Decoder.putLiteral]
    dsimp only
    rw [if_neg (by omega)]
  rw [if_pos htype, UInt8.ofNat_toNat, hput] at hstep
  have hlen : [c].length ≤ historyBufferSize := historyBufferSize_pos
  exact ⟨_, hstep, rfl, hread, h.history.ringWrite hlen⟩

theorem Decoder.DecodesAt.copy (h : d.DecodesAt data total p past)
    (htotal : total ≤ 8 * data.length) (htotal' : total < 2 ^ 32) {distance count : ℕ}
    {r : TokenRow} (hr : r ∈ ZGFX_TOKEN_TABLE) (htype : r.tokenType ≠ 0)
    (hdistance : 1 ≤ distance ∧ distance ≤ historyBufferSize) (hspans : r.row.Spans distance)
    (hcount : 3 ≤ count)
    (hspells : Spells (dataBit data) p (r.fields distance ++ countFields count))
    (hp : p + width (r.fields distance ++ countFields count) ≤ total)
    (hout : d.output.length + count ≤ outputBufferSize) :
    ∃ d', decompressStep d = .inl d' ∧ d'.output = d.output ++ copyBytes past distance count ∧
      d'.DecodesAt data total (p + width (r.fields distance ++ countFields count))
        (append past (copyBytes past distance count)) := by
  rw [width_append] at hp ⊢
  obtain ⟨hrow, hcode⟩ := (spells_append _ _ _).mp hspells
  obtain ⟨reader, hread, hstep⟩ := decompressStep_row h.reader htotal htotal' hr hspans hrow
    (by omega)
  have hsmall : count < 2 ^ 24 := by unfold outputBufferSize at hout; omega
  obtain ⟨reader', hread', hread''⟩ := hread.readCount htotal htotal' hcount hsmall hcode (by omega)
  have hput : { d with reader := reader }.readMatch distance =
      .inl ⟨reader', ringWrite d.zgfx (copyBytes past distance count),
        d.output ++ copyBytes past distance count⟩ := by
    rw [Decoder.readMatch, if_pos (by omega), hread']
    dsimp only
    rw [Decoder.putMatch]
    dsimp only
    rw [if_neg (by omega), h.history.ringRead hdistance.1 hdistance.2]
  rw [if_neg htype, hput] at hstep
  have hlen : (copyBytes past distance count).length ≤ historyBufferSize := by
    rw [length_copyBytes]
    unfold outputBufferSize at hout
    unfold historyBufferSize
    omega
  exact ⟨_, hstep, rfl, by rw [← Nat.add_assoc]; exact hread'', h.history.ringWrite hlen⟩

/-- The bits that are cached are those up to the next byte. -/
theorem Reader.ReadsAt.align {r : Reader} (h : r.ReadsAt data total p) (htotal' : total < 2 ^ 32)
    (hp : p + (8 - p % 8) % 8 ≤ total) :
    r.cBitsCurrent = (8 - p % 8) % 8 ∧ r.align.ReadsAt data total (p + (8 - p % 8) % 8) := by
  obtain ⟨hinput, hend, hcurrent, hlt, hbits, hremaining⟩ := h
  have hcached : r.cBitsCurrent = (8 - p % 8) % 8 := by omega
  have hrest : (r.cBitsRemaining + 2 ^ 32 - r.cBitsCurrent) % 2 ^ 32 + (p + (8 - p % 8) % 8) =
      total := by omega
  unfold Reader.align
  exact ⟨hcached, hinput, hend, by rw [← hcached]; exact hcurrent, Nat.succ_pos 7, rfl, hrest⟩

/-- A reader without cached bits skips bytes. -/
theorem Reader.ReadsAt.skip {r : Reader} {n : ℕ} (h : r.ReadsAt data total p)
    (hcached : r.cBitsCurrent = 0) (htotal' : total < 2 ^ 32) (hp : p + 8 * n ≤ total) :
    (r.skip n).ReadsAt data total (p + 8 * n) := by
  obtain ⟨hinput, hend, hcurrent, hlt, hbits, hremaining⟩ := h
  have hrest : (r.cBitsRemaining + 2 ^ 32 - 8 * n % 2 ^ 32) % 2 ^ 32 + (p + 8 * n) = total := by
    omega
  unfold Reader.skip
  refine ⟨hinput, hend, by dsimp only; omega, hlt, ?_, hrest⟩
  rw [hbits, hcached]
  rfl

theorem Decoder.putUnencoded_eq {count : ℕ} (hout : d.output.length + count ≤ outputBufferSize)
    (hinput : d.reader.current + count ≤ d.reader.input.length) :
    d.putUnencoded count =
      .inl
        { reader := d.reader.align.skip count
          zgfx := ringWrite d.zgfx ((d.reader.input.drop d.reader.current).take count)
          output := d.output ++ (d.reader.input.drop d.reader.current).take count } := by
  rw [Decoder.putUnencoded, if_neg (by omega), if_neg (by omega)]

/-- A round executes an unencoded run. -/
theorem Decoder.DecodesAt.raw (h : d.DecodesAt data total p past)
    (htotal : total ≤ 8 * data.length) (htotal' : total < 2 ^ 32) {bytes : List UInt8}
    {r : TokenRow} {padding : ℕ} (hr : r ∈ ZGFX_TOKEN_TABLE) (htype : r.tokenType ≠ 0)
    (hspans : r.row.Spans 0) (hbytes : 1 ≤ bytes.length ∧ bytes.length ≤ 32767)
    (hspells : Spells (dataBit data) p (r.fields 0 ++ (15, bytes.length) ::
      ((8 - (p + width (r.fields 0) + 15) % 8) % 8, padding) :: byteFields bytes))
    (hp : p + width (r.fields 0 ++ (15, bytes.length) ::
      ((8 - (p + width (r.fields 0) + 15) % 8) % 8, padding) :: byteFields bytes) ≤ total)
    (hout : d.output.length + bytes.length ≤ outputBufferSize) :
    ∃ d', decompressStep d = .inl d' ∧ d'.output = d.output ++ bytes ∧
      d'.DecodesAt data total (p + width (r.fields 0 ++ (15, bytes.length) ::
        ((8 - (p + width (r.fields 0) + 15) % 8) % 8, padding) :: byteFields bytes))
        (append past bytes) := by
  simp only [width_append, width_cons, width_byteFields] at hp ⊢
  obtain ⟨hrow, hcount, -, hdata⟩ := (spells_append _ _ _).mp hspells
  obtain ⟨reader, hread, hstep⟩ := decompressStep_row h.reader htotal htotal' hr hspans hrow
    (by omega)
  rw [← Nat.add_assoc] at hp ⊢
  generalize p + width (r.fields 0) = q at hread hcount hdata hp ⊢
  have hsmall : bytes.length < 2 ^ 15 := by omega
  obtain ⟨hread', hbits⟩ := hread.getBits (n := 15) htotal htotal' (by omega) (by omega)
  obtain ⟨hcached, halign⟩ := hread'.align htotal' (by omega)
  have hcurrent : 8 * (reader.getBits 15).current = q + 15 + (8 - (q + 15) % 8) % 8 := by
    rw [hread'.current, hcached]
  -- the bytes of the run are the next bytes of the input
  have htake : ((reader.getBits 15).input.drop (reader.getBits 15).current).take bytes.length =
      bytes := by
    obtain ⟨rest, hrest⟩ := hread'.input
    rw [← hrest, List.drop_append_of_le_length (by omega),
      List.take_append_of_le_length (by rw [List.length_drop]; omega)]
    exact take_of_spells (by omega) (by rw [hcurrent]; exact hdata)
  have hinput : (reader.getBits 15).current + bytes.length ≤ (reader.getBits 15).input.length := by
    have := hread'.input.length_le
    omega
  have hput : { d with reader := reader }.readMatch 0 =
      .inl ⟨(reader.getBits 15).align.skip bytes.length, ringWrite d.zgfx bytes,
        d.output ++ bytes⟩ := by
    rw [Decoder.readMatch, if_neg (by simp)]
    dsimp only
    rw [hbits, hcount, Decoder.putUnencoded_eq (d := ⟨reader.getBits 15, d.zgfx, d.output⟩) hout
      hinput]
    dsimp only
    rw [htake]
  rw [if_neg htype, hput] at hstep
  have hlen : bytes.length ≤ historyBufferSize := by
    unfold historyBufferSize
    omega
  refine ⟨_, hstep, rfl, ?_, h.history.ringWrite hlen⟩
  rw [← Nat.add_assoc, ← Nat.add_assoc]
  exact halign.skip rfl htotal' (by omega)

/-- A round executes the token that stands at the reader. -/
theorem Decoder.DecodesAt.step (h : d.DecodesAt data total p past)
    (htotal : total ≤ 8 * data.length) (htotal' : total < 2 ^ 32) {t : Token}
    {fs : List (ℕ × ℕ)} (ht : t.EncodesAt p fs) (hspells : Spells (dataBit data) p fs)
    (hp : p + width fs ≤ total)
    (hout : d.output.length + (t.bytes past).length ≤ outputBufferSize) :
    ∃ d', decompressStep d = .inl d' ∧ d'.output = d.output ++ t.bytes past ∧
      d'.DecodesAt data total (p + width fs) (append past (t.bytes past)) := by
  cases ht with
  | literal hr htype hspans => exact h.literal htotal htotal' hr htype hspans hspells hp hout
  | copy hr htype hdistance hspans hcount =>
    rw [Token.bytes, length_copyBytes] at hout
    exact h.copy htotal htotal' hr htype hdistance hspans hcount hspells hp hout
  | raw padding hr htype hspans hbytes =>
    exact h.raw htotal htotal' hr htype hspans hbytes hspells hp hout

/-! ### Encodings -/

theorem fields_tokenTable : ∀ r ∈ ZGFX_TOKEN_TABLE,
    r.prefixCode < 2 ^ r.prefixLength ∧ r.prefixLength + r.valueBits ≤ 33 := by decide

theorem TokenRow.fields_fit {r : TokenRow} (hr : r ∈ ZGFX_TOKEN_TABLE) {v : ℕ}
    (hspans : r.row.Spans v) : ∀ f ∈ r.fields v, f.2 < 2 ^ f.1 := by
  have hlt : v - r.valueBase < 2 ^ r.valueBits := by
    have h1 : r.valueBase ≤ v := hspans.1
    have h2 : v < r.valueBase + 2 ^ r.valueBits := hspans.2
    omega
  simp only [TokenRow.fields, List.forall_mem_cons]
  exact ⟨(fields_tokenTable r hr).1, hlt, by simp⟩

theorem width_fields_le {r : TokenRow} (hr : r ∈ ZGFX_TOKEN_TABLE) (v : ℕ) :
    width (r.fields v) ≤ 33 := by
  have := (fields_tokenTable r hr).2
  simp only [TokenRow.fields, width_cons, width_nil]
  omega

theorem countFields_fit {n : ℕ} (hn : 3 ≤ n) : ∀ f ∈ countFields n, f.2 < 2 ^ f.1 := by
  unfold countFields
  split_ifs
  · simp
  · have hlt : n < 2 ^ (n.log2 + 1) := Nat.lt_log2_self
    rw [pow_succ] at hlt
    simp only [List.forall_mem_cons, List.forall_mem_append, List.mem_replicate]
    exact ⟨by decide, by rintro f ⟨-, rfl⟩; decide, by decide, by omega, by simp⟩

theorem width_countFields_le {n : ℕ} (hn : 3 ≤ n) : width (countFields n) ≤ 2 * n := by
  unfold countFields
  split_ifs
  · simp only [width_cons, width_nil]
    omega
  · have hlog : n.log2 < n := (Nat.log2_lt (by omega)).mpr Nat.lt_two_pow_self
    have hlog' : 2 ≤ n.log2 := (Nat.le_log2 (by omega)).mpr (by omega)
    simp only [width_cons, width_append, width_nil, width_replicate_one]
    omega

/-- A code word is no longer than 64 bits for each byte it produces. -/
theorem Token.EncodesAt.width_le {t : Token} {fs : List (ℕ × ℕ)} (h : t.EncodesAt p fs)
    (past : ℕ → UInt8) : width fs ≤ 64 * (t.bytes past).length := by
  cases h with
  | literal hr htype hspans =>
    have := width_fields_le hr
    exact Nat.le_trans (this _) (by simp [Token.bytes])
  | copy hr htype hdistance hspans hcount =>
    rename_i distance count r
    have h1 := width_fields_le hr distance
    have h2 := width_countFields_le hcount
    rw [width_append, Token.bytes, length_copyBytes]
    omega
  | raw padding hr htype hspans hbytes =>
    have h1 := width_fields_le hr 0
    simp only [width_append, width_cons, width_byteFields, Token.bytes]
    omega

theorem Encodes.width_le {ts : List Token} {fs : List (ℕ × ℕ)} (h : Encodes p ts fs)
    (past : ℕ → UInt8) : width fs ≤ 64 * (execute past ts).length := by
  induction h generalizing past with
  | nil => simp
  | @cons p t ts fs gs ht hts ih =>
    have h1 := ht.width_le past
    have h2 := ih (append past (t.bytes past))
    rw [width_append, execute, List.length_append]
    omega

def distanceRows : List TokenRow := ZGFX_TOKEN_TABLE.filter fun r => r.tokenType ≠ 0

theorem exists_distanceRow {distance : ℕ} (h : distance ≤ historyBufferSize) :
    ∃ r ∈ ZGFX_TOKEN_TABLE, r.tokenType ≠ 0 ∧ r.row.Spans distance := by
  have hrows : Consecutive 0 (distanceRows.map TokenRow.row) 33871520 := by decide
  unfold historyBufferSize at h
  obtain ⟨row, hrow, hspans⟩ := hrows.exists_spans (Nat.zero_le distance) (by omega)
  obtain ⟨r, hr, rfl⟩ := List.mem_map.mp hrow
  obtain ⟨hmem, htype⟩ := List.mem_filter.mp hr
  exact ⟨r, hmem, by simpa using htype, hspans⟩

theorem Token.Valid.exists_encodesAt {t : Token} (h : t.Valid) (p : ℕ) :
    ∃ fs, t.EncodesAt p fs ∧ ∀ f ∈ fs, f.2 < 2 ^ f.1 := by
  cases t with
  | literal c =>
    -- the first row of the table spans every byte
    have hspans : (⟨1, 0, 8, 0, 0⟩ : TokenRow).row.Spans c.toNat :=
      ⟨Nat.zero_le _, by simpa [TokenRow.row] using c.toNat_lt⟩
    exact ⟨_, .literal (by decide) rfl hspans, TokenRow.fields_fit (by decide) hspans⟩
  | copy distance count =>
    obtain ⟨hd, hd', hcount⟩ := h
    obtain ⟨r, hr, htype, hspans⟩ := exists_distanceRow hd'
    refine ⟨_, .copy hr htype ⟨hd, hd'⟩ hspans hcount, ?_⟩
    rw [List.forall_mem_append]
    exact ⟨TokenRow.fields_fit hr hspans, countFields_fit hcount⟩
  | raw bytes =>
    obtain ⟨r, hr, htype, hspans⟩ := exists_distanceRow (Nat.zero_le historyBufferSize)
    refine ⟨_, .raw 0 hr htype hspans h, ?_⟩
    have hbytes : ∀ f ∈ byteFields bytes, f.2 < 2 ^ f.1 := by
      intro f hf
      obtain ⟨c, -, rfl⟩ := List.mem_map.mp hf
      exact c.toNat_lt
    have hlen : bytes.length < 2 ^ 15 := by have := h.2; omega
    rw [List.forall_mem_append, List.forall_mem_cons, List.forall_mem_cons]
    exact ⟨TokenRow.fields_fit hr hspans, hlen, Nat.two_pow_pos _, hbytes⟩

theorem exists_encodes (ts : List Token) (hts : ∀ t ∈ ts, t.Valid) (p : ℕ) :
    ∃ fs, Encodes p ts fs ∧ ∀ f ∈ fs, f.2 < 2 ^ f.1 := by
  induction ts generalizing p with
  | nil => exact ⟨[], .nil p, by simp⟩
  | cons t ts ih =>
    rw [List.forall_mem_cons] at hts
    obtain ⟨fs, hfs, hfit⟩ := hts.1.exists_encodesAt p
    obtain ⟨gs, hgs, hfit'⟩ := ih hts.2 (p + width fs)
    exact ⟨fs ++ gs, .cons hfs hgs, List.forall_mem_append.mpr ⟨hfit, hfit'⟩⟩

/-! ### The segment -/

theorem Token.EncodesAt.bytes_pos {t : Token} {fs : List (ℕ × ℕ)} (h : t.EncodesAt p fs)
    (past : ℕ → UInt8) : 1 ≤ (t.bytes past).length := by
  cases h with
  | literal => exact Nat.le_refl 1
  | copy hr htype hdistance hspans hcount => rw [Token.bytes, length_copyBytes]; omega
  | raw padding hr htype hspans hbytes => exact hbytes.1

/-- The rounds of the loop execute the tokens, until no bits are left. -/
theorem Decoder.DecodesAt.run {ts : List Token} {fs : List (ℕ × ℕ)}
    (h : d.DecodesAt data total p past) (htotal : total ≤ 8 * data.length)
    (htotal' : total < 2 ^ 32) (henc : Encodes p ts fs) (hspells : Spells (dataBit data) p fs)
    (hp : p + width fs = total)
    (hout : d.output.length + (execute past ts).length ≤ outputBufferSize) (rounds : ℕ)
    (hrounds : (execute past ts).length < rounds) :
    ∃ d', iterate decompressStep rounds d = some (.ok (true, d')) ∧
      d'.output = d.output ++ execute past ts ∧
      d'.zgfx.Holds (append past (execute past ts)) := by
  obtain ⟨rounds, rfl⟩ : ∃ n, rounds = n + 1 := ⟨rounds - 1, by omega⟩
  induction henc generalizing d past rounds with
  | nil p =>
    have hremaining := h.reader.remaining
    rw [width_nil] at hp
    have hexit : decompressStep d = .inr (.ok (true, d)) := if_pos (by omega)
    exact ⟨d, iterate_inr hexit _, by rw [execute, List.append_nil], h.history⟩
  | cons ht hts ih =>
    obtain ⟨hhead, htail⟩ := (spells_append _ _ _).mp hspells
    rw [width_append] at hp
    rw [execute, List.length_append] at hout hrounds
    have hpos := ht.bytes_pos past
    obtain ⟨d', hstep, houtput, h'⟩ := h.step htotal htotal' ht hhead (by omega) (by omega)
    obtain ⟨rounds, rfl⟩ : ∃ n, rounds = n + 1 := ⟨rounds - 1, by omega⟩
    obtain ⟨d'', hrun, houtput', hholds⟩ := ih h' htail (by omega)
      (by rw [houtput, List.length_append]; omega) rounds (by omega)
    refine ⟨d'', by rw [iterate_inl hstep]; exact hrun, ?_, ?_⟩
    · rw [houtput', houtput, execute, List.append_assoc]
    · rw [execute, append_append]
      exact hholds

/-- The bytes `data` and the number of unused bits behind them are the encoding of the tokens. -/
def IsEncoding (ts : List Token) (data : List UInt8) (unused : UInt8) : Prop :=
  ∃ fs, Encodes 0 ts fs ∧ Spells (dataBit data) 0 fs ∧ width fs + unused.toNat = 8 * data.length

theorem exists_isEncoding (ts : List Token) (hts : ∀ t ∈ ts, t.Valid) :
    ∃ data unused, IsEncoding ts data unused := by
  obtain ⟨fs, hfs, hfit⟩ := exists_encodes ts hts 0
  have hunused : (UInt8.ofNat ((8 - width fs % 8) % 8)).toNat = (8 - width fs % 8) % 8 := by
    rw [UInt8.toNat_ofNat']
    omega
  obtain ⟨data, hlen, hspells⟩ := exists_spells hfit ((8 - width fs % 8) % 8)
    (k := (width fs + (8 - width fs % 8) % 8) / 8) (by omega)
  exact ⟨data, UInt8.ofNat ((8 - width fs % 8) % 8), fs, hfs, hspells, by rw [hunused, hlen]; omega⟩

/-- The reader at the start of the encoding of some tokens. -/
theorem readsAt_startReader (flags : UInt8) {data : List UInt8} {unused : UInt8}
    (rest : List UInt8) {w : ℕ} (hw : w + unused.toNat = 8 * data.length) (hw' : w < 2 ^ 31) :
    (startReader flags (data ++ unused :: rest) (data.length + 1)).ReadsAt data w 0 := by
  have hlast : (data ++ unused :: rest).getD (data.length + 1 - 1) 0 = unused := by simp
  have hunused := unused.toNat_lt
  rw [startReader, if_neg (by omega), hlast]
  refine ⟨List.prefix_append _ _, rfl, rfl, Nat.succ_pos 7, rfl, ?_⟩
  dsimp only
  omega

/-- `zgfx_decompress_segment` executes the tokens of a segment.  A new ring holds zeros; whatever
past a ring holds, every list of tokens that fits the output buffer has an encoding, and on every
encoding the output is what the tokens produce one byte at a time, and the ring then holds the past
with the output appended. -/
theorem zgfxDecompressSegment_tokens :
    zgfxContextNew.Holds (fun _ => 0) ∧
    ∀ (zgfx : Context) (past : ℕ → UInt8) (ts : List Token), zgfx.Holds past →
      (∀ t ∈ ts, t.Valid) → (execute past ts).length ≤ outputBufferSize →
      (∃ data unused, IsEncoding ts data unused) ∧
      ∀ (flags : UInt8) (data : List UInt8) (unused : UInt8) (rest : List UInt8),
        IsEncoding ts data unused → flags.toNat &&& PACKET_COMPRESSED ≠ 0 →
        ∃ zgfx', zgfxDecompressSegment zgfx (flags :: (data ++ unused :: rest)) (data.length + 2) =
            .ok { ok := true, zgfx := zgfx', output := execute past ts, stream := rest } ∧
          zgfx'.Holds (append past (execute past ts)) := by
  refine ⟨holds_zgfxContextNew, fun zgfx past ts hpast hts hout => ⟨exists_isEncoding ts hts, ?_⟩⟩
  rintro flags data unused rest ⟨fs, hfs, hspells, hwidth⟩ hflags
  have hle := hfs.width_le past
  unfold outputBufferSize at hout
  have hunused := unused.toNat_lt
  have hstart : Decoder.DecodesAt data (width fs)
      ⟨startReader flags (data ++ unused :: rest) (data.length + 1), zgfx, []⟩ 0 past :=
    ⟨readsAt_startReader flags rest hwidth (by omega), hpast⟩
  obtain ⟨d, hrun, houtput, hholds⟩ := hstart.run (by omega) (by omega) hfs hspells
    (Nat.zero_add _) (by simpa [outputBufferSize] using hout)
    (decompressRounds (data.length + 1)) (by unfold decompressRounds outputBufferSize; omega)
  refine ⟨d.zgfx, ?_, hholds⟩
  have hrest : (data ++ unused :: rest).drop (data.length + 1) = rest := by simp
  have hdata : decompressSegmentData zgfx flags (data ++ unused :: rest) (data.length + 1) =
      .ok { ok := true, zgfx := d.zgfx, output := execute past ts, stream := rest } := by
    rw [decompressSegmentData, if_neg hflags, hrun, hrest]
    dsimp only
    rw [houtput, List.nil_append]
  rw [zgfxDecompressSegment, if_neg (by simp; omega)]
  exact hdata

/-- A literal and an overlapping match, from a new context. -/
theorem zgfxDecompressSegment_tokens_two :
    ∃ zgfx', zgfxDecompressSegment zgfxContextNew [0x24, 0x30, 0xC4, 0x32, 1] 5 =
        .ok { ok := true, zgfx := zgfx', output := [0x61, 0x61, 0x61, 0x61, 0x61, 0x61],
              stream := [] } ∧
      zgfx'.Holds (append (fun _ => 0) [0x61, 0x61, 0x61, 0x61, 0x61, 0x61]) := by
  have hsize : 1 ≤ historyBufferSize := historyBufferSize_pos
  have hencodes : IsEncoding [.literal 0x61, .copy 1 5] [0x30, 0xC4, 0x32] 1 := by
    have hliteral : (⟨1, 0, 8, 0, 0⟩ : TokenRow).row.Spans 0x61 := by decide
    have hdistance : (⟨5, 17, 5, 1, 0⟩ : TokenRow).row.Spans 1 := by decide
    refine ⟨_, .cons (.literal (c := 0x61) (by decide) rfl hliteral)
      (.cons (.copy (by decide) (by decide) ⟨by decide, hsize⟩ hdistance (by decide)) (.nil _)),
      ?_, rfl⟩
    exact ⟨by decide, by decide, by decide, by decide, by decide, by decide, by decide, trivial⟩
  have hvalid : ∀ t ∈ [Token.literal 0x61, .copy 1 5], t.Valid := by
    simp [Token.Valid, hsize]
  exact (zgfxDecompressSegment_tokens.2 zgfxContextNew _ _ holds_zgfxContextNew hvalid
    (by decide)).2 0x24 [0x30, 0xC4, 0x32] 1 [] hencodes (by decide)

end FreeRDP.Zgfx
