import FreeRDP.Nsc.Equiv.Accesses
import FreeRDP.Lib.Wire
import Mathlib.Algebra.Order.Ring.Nat

/-!
# Decoding the planes that have been encoded

`rle` is what the encoder writes when it is not left early.  The encoder writes it if it returns less than
the size of the plane (`nscRleEncode_eq`), and the decoder turns it into the plane (`decode_rle`).  The
induction is on the bytes that are left: the decoder reads the run that the encoder has counted so far when
it reads the segment with which the encoder ends it.
-/

namespace FreeRDP.Nsc

open Traced Iterate Memory

variable {src m : ℕ → UInt8} {originalSize outSize left runlength i p n : ℕ} {e : Encoder}

/-! ### What is encoded -/

/-- The code of the last `left` bytes of a plane, from `i` on, when `runlength - 1` equal bytes before them
have been counted. -/
def rle (src : ℕ → UInt8) : ℕ → ℕ → ℕ → List UInt8
  | 0, i, _ => bytesAt src i 4
  | left + 1, i, runlength =>
    if left + 1 ≤ 4 then bytesAt src i 4
    else if left + 1 > 5 ∧ src i = src (i + 1) then rle src left (i + 1) (runlength + 1)
    else emit (src i) runlength ++ rle src left (i + 1) 1

theorem length_emit (value : UInt8) (runlength : ℕ) :
    0 < (emit value runlength).length ∧ (emit value runlength).length ≤ 7 := by
  unfold emit
  split_ifs <;> simp

/-- The size is that of what has been written, and not much more than the limit. -/
def Encoder.Sized (originalSize : ℕ) (e : Encoder) : Prop :=
  e.planeSize = e.out.length ∧ e.planeSize ≤ originalSize + 2

theorem encodeLimit_eq (hfour : 4 ≤ originalSize) (hsize : originalSize + 6 < 2 ^ 32) :
    encodeLimit originalSize = originalSize - 4 := by
  unfold encodeLimit
  omega

theorem Encoder.Sized.step (h : e.Sized originalSize) (hfour : 4 ≤ originalSize)
    (hsize : originalSize + 6 < 2 ^ 32) (hlimit : e.planeSize < encodeLimit originalSize) :
    (encodeStep src left e).Sized originalSize := by
  rw [encodeLimit_eq hfour hsize] at hlimit
  obtain ⟨hout, -⟩ := h
  have hemit := length_emit (src e.input) e.runlength
  unfold encodeStep
  dsimp only
  split_ifs
  · exact ⟨hout, by show e.planeSize ≤ _; omega⟩
  · constructor
    · show (e.planeSize + (emit (src e.input) e.runlength).length) % 2 ^ 32 = _
      rw [List.length_append, ← hout, Nat.mod_eq_of_lt (by omega)]
    · show (e.planeSize + (emit (src e.input) e.runlength).length) % 2 ^ 32 ≤ _
      rw [Nat.mod_eq_of_lt (by omega)]
      omega

theorem Encoder.Sized.loop (h : e.Sized originalSize) (src : ℕ → UInt8) (left : ℕ)
    (hfour : 4 ≤ originalSize) (hsize : originalSize + 6 < 2 ^ 32) :
    (encodeLoop src originalSize left e).Sized originalSize := by
  induction left generalizing e with
  | zero => exact h
  | succ left ih =>
    rw [encodeLoop]
    by_cases hnext : left + 1 > 4 ∧ e.planeSize < encodeLimit originalSize
    · rw [if_pos hnext]
      exact ih (h.step hfour hsize hnext.2)
    · rwa [if_neg hnext]

/-- An encoder that is not left early writes the code of all that is left. -/
theorem encodeLoop_eq (src : ℕ → UInt8) (originalSize left : ℕ) (e : Encoder)
    (hlimit : (encodeLoop src originalSize left e).planeSize < encodeLimit originalSize) :
    (encodeLoop src originalSize left e).out ++
        bytesAt src (encodeLoop src originalSize left e).input 4 =
      e.out ++ rle src left e.input e.runlength := by
  induction left generalizing e with
  | zero => rfl
  | succ left ih =>
    rw [encodeLoop] at hlimit ⊢
    by_cases hnext : left + 1 > 4 ∧ e.planeSize < encodeLimit originalSize
    · rw [if_pos hnext] at hlimit ⊢
      rw [ih _ hlimit, rle, if_neg (by omega), encodeStep]
      by_cases hrun : left + 1 > 5 ∧ src e.input = src (e.input + 1)
      · rw [if_pos hrun, if_pos hrun]
      · rw [if_neg hrun, if_neg hrun, List.append_assoc]
    · rw [if_neg hnext] at hlimit ⊢
      have hend : left + 1 ≤ 4 := by
        by_contra hlt
        exact hnext ⟨Nat.lt_of_not_le hlt, hlimit⟩
      rw [rle, if_pos hend]

/-- What the encoder returns when the code is smaller than the plane. -/
theorem nscRleEncode_eq (hfive : 5 ≤ originalSize) (hsize : originalSize + 6 < 2 ^ 32)
    (hsmall : (nscRleEncode src originalSize).2 < originalSize) :
    (nscRleEncode src originalSize).1 = rle src originalSize 0 1 ∧
      (nscRleEncode src originalSize).2 = (rle src originalSize 0 1).length := by
  have hinit : Encoder.Sized originalSize ⟨0, [], 1, 0⟩ := ⟨rfl, Nat.zero_le _⟩
  have hsized := hinit.loop src originalSize (by omega) hsize
  have hcode := encodeLoop_eq src originalSize originalSize ⟨0, [], 1, 0⟩
  have hlimit := encodeLimit_eq (Nat.le_of_succ_le hfive) hsize
  unfold nscRleEncode at hsmall ⊢
  dsimp only at hsmall ⊢
  generalize encodeLoop src originalSize originalSize ⟨0, [], 1, 0⟩ = e at *
  obtain ⟨hout, hle⟩ := hsized
  rw [Nat.mod_eq_of_lt (by omega)] at hsmall ⊢
  rw [if_pos (by omega)]
  have hall : e.out ++ bytesAt src e.input 4 = rle src originalSize 0 1 := hcode (by omega)
  refine ⟨hall, ?_⟩
  rw [← hall, List.length_append, length_bytesAt, hout]

/-- A plane of less than five bytes is not encoded. -/
theorem nscRleEncode_short (hfive : originalSize < 5) : (nscRleEncode src originalSize).2 = 4 := by
  have hloop : encodeLoop src originalSize originalSize ⟨0, [], 1, 0⟩ = ⟨0, [], 1, 0⟩ := by
    cases originalSize with
    | zero => rfl
    | succ k => rw [encodeLoop, if_neg (by omega)]
  rw [nscRleEncode, hloop]
  rfl

/-! ### What is decoded -/

/-- The code starts with the byte that it is to continue with. -/
theorem exists_rle_cons (hrun : 0 < runlength) (src : ℕ → UInt8) (left i : ℕ) :
    ∃ code, rle src left i runlength = src i :: code := by
  induction left generalizing i runlength with
  | zero => exact ⟨_, bytesAt_succ src i 3⟩
  | succ left ih =>
    rw [rle]
    split_ifs with hend hequal
    · exact ⟨_, bytesAt_succ src i 3⟩
    · rw [hequal.2]
      exact ih (Nat.succ_pos _) (i + 1)
    · unfold emit
      split_ifs
      all_goals exact ⟨_, rfl⟩

theorem or_bytes (h : runlength < 2 ^ 32) :
    (UInt8.ofNat (runlength &&& 0x000000FF)).toNat |||
        (UInt8.ofNat ((runlength &&& 0x0000FF00) >>> 8)).toNat <<< 8 |||
        (UInt8.ofNat ((runlength &&& 0x00FF0000) >>> 16)).toNat <<< 16 |||
        (UInt8.ofNat ((runlength &&& 0xFF000000) >>> 24)).toNat <<< 24 = runlength := by
  have hbyte (k mask : ℕ) (hmask : mask >>> k = 0xFF) :
      (UInt8.ofNat ((runlength &&& mask) >>> k)).toNat = runlength / 2 ^ k % 2 ^ 8 := by
    rw [UInt8.toNat_ofNat', Nat.shiftRight_and_distrib, hmask, Wire.and_0xFF, Nat.mod_mod,
      Nat.shiftRight_eq_div_pow]
  have h0 : (UInt8.ofNat (runlength &&& 0x000000FF)).toNat = runlength / 2 ^ 0 % 2 ^ 8 :=
    hbyte 0 0xFF rfl
  rw [h0, hbyte 8 _ rfl, hbyte 16 _ rfl, hbyte 24 _ rfl, Nat.pow_zero, Nat.div_one]
  rw [Nat.or_comm (runlength % 2 ^ 8), ← Nat.shiftLeft_add_eq_or_of_lt (Nat.mod_lt _ (by decide)),
    Nat.or_comm (_ + _), ← Nat.shiftLeft_add_eq_or_of_lt, Nat.or_comm (_ + _),
    ← Nat.shiftLeft_add_eq_or_of_lt]
  all_goals simp only [Nat.shiftLeft_eq]
  all_goals omega

theorem segmentAt_emit {value : UInt8} (hcode : HoldsAt m p (emit value runlength))
    (hrun : 0 < runlength) (hlt : runlength < 2 ^ 32)
    (hone : runlength = 1 → left = 5 ∨ m (p + 1) ≠ value) (hmany : 1 < runlength → left ≠ 5) :
    (segmentAt m p left).value = value ∧ (segmentAt m p left).len = runlength ∧
      (segmentAt m p left).size = (emit value runlength).length := by
  unfold emit at hcode ⊢
  unfold segmentAt
  by_cases h1 : runlength = 1
  · rw [if_pos h1, holdsAt_cons] at hcode
    rw [if_pos h1, h1]
    by_cases h5 : left = 5
    · rw [if_pos h5]
      exact ⟨hcode.1, rfl, rfl⟩
    · have hne := (hone h1).resolve_left h5
      rw [if_neg h5, hcode.1, if_neg (Ne.symm hne)]
      exact ⟨rfl, rfl, rfl⟩
  rw [if_neg h1] at hcode ⊢
  rw [if_neg (hmany (by omega))]
  by_cases hshort : runlength < 256
  · rw [if_pos hshort] at hcode ⊢
    simp only [holdsAt_cons, Nat.add_assoc] at hcode
    obtain ⟨hv, hw, hcount, -⟩ := hcode
    have hbyte : (m (p + 2)).toNat = runlength - 2 := by
      rw [hcount, UInt8.toNat_ofNat', Nat.mod_eq_of_lt (by omega)]
    rw [hv, hw, if_pos rfl, hbyte, if_pos (by omega)]
    exact ⟨rfl, by show runlength - 2 + 2 = _; omega, rfl⟩
  · rw [if_neg hshort] at hcode ⊢
    simp only [holdsAt_cons, Nat.add_assoc] at hcode
    obtain ⟨hv, hw, hescape, h0, h1, h2, h3, -⟩ := hcode
    rw [hv, hw, if_pos rfl, hescape, if_neg (by decide)]
    refine ⟨rfl, ?_, rfl⟩
    show le32At m (p + 3) = _
    rw [le32At, h0, Nat.add_assoc, h1, Nat.add_assoc, h2, Nat.add_assoc, h3]
    exact or_bytes hlt

/-- The decoder returns with what it has written. -/
def Decodes (m : ℕ → UInt8) (d : Decoder) (out : List UInt8) : Prop :=
  ∃ n, (loop (decodeStep m) n d).value = some (some out)

theorem Decodes.segment {d : Decoder} {out : List UInt8} (hleft : 4 < d.left)
    (hroom : (segmentAt m d.input d.left).len ≤ d.outSize) (h : Decodes m (d.next m) out) :
    Decodes m d out := by
  obtain ⟨n, hn⟩ := h
  have hvalue : (decodeStep m d).value = .inl (d.next m) := by
    rw [value_decodeStep hleft, segmentStep_next (Nat.not_lt.mpr hroom)]
    rfl
  refine ⟨n + 1, ?_⟩
  rwa [value_loop, iterate_inl hvalue, ← value_loop]

theorem Decodes.last {d : Decoder} (hleft : d.left = 4) (hroom : 4 ≤ d.outSize) :
    Decodes m d (d.out ++ bytesAt m d.input 4) := by
  refine ⟨1, ?_⟩
  rw [value_loop]
  apply iterate_inr
  rw [decodeStep_last m (by omega), if_neg (by omega)]
  rfl

theorem replicate_append_cons (b : UInt8) (n : ℕ) (bytes : List UInt8) :
    List.replicate n b ++ b :: bytes = List.replicate (n + 1) b ++ bytes := by
  rw [List.replicate_succ', List.append_assoc, List.singleton_append]

/-- The decoder turns the code into the bytes that have been counted, and those that were left. -/
theorem decode_rle {counted : ℕ} (out : List UInt8) (hfour : 4 ≤ left) (hend : left = 4 → counted = 0)
    (hlt : left + counted < 2 ^ 32) (hroom : left + counted ≤ outSize)
    (hcode : HoldsAt m p (rle src left i (counted + 1))) :
    Decodes m ⟨p, out, outSize, left + counted⟩
      (out ++ List.replicate counted (src i) ++ bytesAt src i left) := by
  induction left generalizing p i counted out outSize with
  | zero => omega
  | succ left ih =>
    by_cases hlast : left + 1 ≤ 4
    · rw [rle, if_pos hlast] at hcode
      obtain rfl : left = 3 := by omega
      obtain rfl : counted = 0 := hend rfl
      rw [HoldsAt, length_bytesAt] at hcode
      have h := Decodes.last (m := m) (d := ⟨p, out, outSize, 4⟩) rfl hroom
      rw [hcode] at h
      rwa [List.replicate_zero, List.append_nil]
    rw [rle, if_neg hlast] at hcode
    rw [bytesAt_succ, List.append_assoc, replicate_append_cons]
    by_cases hequal : left + 1 > 5 ∧ src i = src (i + 1)
    · -- the byte is counted
      rw [if_pos hequal] at hcode
      have hroom' : left + (counted + 1) ≤ outSize := by omega
      have h := ih out (by omega) (by omega) (by omega) hroom' hcode
      rwa [← hequal.2, List.append_assoc, ← Nat.add_assoc, Nat.add_right_comm] at h
    · -- the byte ends its run
      rw [if_neg hequal, holdsAt_append] at hcode
      obtain ⟨hemit, hcode⟩ := hcode
      have hone : counted + 1 = 1 → left + 1 + counted = 5 ∨ m (p + 1) ≠ src i := by
        intro hcounted
        obtain rfl : counted = 0 := by omega
        by_cases hfive : left + 1 > 5
        · -- behind a single byte is the code of another one
          obtain ⟨code, hnext⟩ := exists_rle_cons Nat.one_pos src left (i + 1)
          rw [hnext] at hcode
          have hbyte : m (p + 1) = src (i + 1) := (holdsAt_cons.mp hcode).1
          right
          rw [hbyte]
          exact fun heq => hequal ⟨hfive, heq.symm⟩
        · left
          omega
      obtain ⟨hvalue, hlen, hsize⟩ := segmentAt_emit hemit (Nat.succ_pos _) (by omega) hone (by omega)
      apply Decodes.segment
      · show 4 < left + 1 + counted
        omega
      · show (segmentAt m p (left + 1 + counted)).len ≤ outSize
        omega
      · have h := ih (out ++ List.replicate (counted + 1) (src i)) (by omega) (fun _ => rfl)
          (by omega) (show left + 0 ≤ outSize - (counted + 1) by omega) hcode
        rw [List.replicate_zero, List.append_nil, List.append_assoc] at h
        rw [Decoder.next]
        dsimp only
        have hleft : (left + 1 + counted + (2 ^ 32 - (counted + 1))) % 2 ^ 32 = left + 0 := by omega
        rwa [hvalue, hlen, hsize, hleft]

/-! ### Planes -/

theorem four_le_length_rle (src : ℕ → UInt8) (left i runlength : ℕ) :
    4 ≤ (rle src left i runlength).length := by
  induction left generalizing i runlength with
  | zero => exact (length_bytesAt src i 4).ge
  | succ left ih =>
    rw [rle]
    split_ifs
    · exact (length_bytesAt src i 4).ge
    · exact ih _ _
    · rw [List.length_append]
      have := ih (i + 1) 1
      omega

theorem nscRleDecode_rle (hfour : 4 ≤ originalSize) (hlt : originalSize < 2 ^ 32)
    (hroom : originalSize ≤ outSize) (hcode : HoldsAt m 0 (rle src originalSize 0 1)) :
    ∃ n, (nscRleDecode m outSize originalSize n).value = some (some (bytesAt src 0 originalSize)) :=
  decode_rle [] hfour (fun _ => rfl) hlt hroom hcode

/-- What is left of a plane is decompressed to the plane. -/
theorem decompress_compress {buffer : ℕ → UInt8} (hsize : originalSize + 6 < 2 ^ 32)
    (hroom : originalSize ≤ outSize)
    (hcode : HoldsAt m 0 (nscRleCompressPlane buffer originalSize).1) :
    ∃ n, nscRleDecompressPlane m outSize originalSize (nscRleCompressPlane buffer originalSize).2 n =
      some (some (bytesAt buffer 0 originalSize)) := by
  have hroom' := Nat.not_lt.mpr hroom
  unfold nscRleCompressPlane at hcode ⊢
  unfold nscRleDecompressPlane
  by_cases hzero : originalSize = 0
  · subst hzero
    exact ⟨0, by rw [if_pos rfl, if_pos rfl, if_neg hroom']; rfl⟩
  simp only [if_neg hzero] at hcode ⊢
  by_cases hsmall : (nscRleEncode buffer originalSize).2 < originalSize
  · simp only [if_pos hsmall] at hcode ⊢
    have hfive : 5 ≤ originalSize := by
      by_contra hlt
      rw [nscRleEncode_short (by omega)] at hsmall
      omega
    obtain ⟨hout, hsize'⟩ := nscRleEncode_eq hfive hsize hsmall
    have hpos := four_le_length_rle buffer originalSize 0 1
    rw [hout, hsize', List.take_length] at hcode
    obtain ⟨n, hn⟩ := nscRleDecode_rle (by omega) (by omega) hroom hcode
    exact ⟨n, by rw [if_neg (by omega), hn]⟩
  · simp only [if_neg hsmall] at hcode ⊢
    rw [HoldsAt, length_bytesAt] at hcode
    exact ⟨0, by rw [if_neg hzero, if_neg (Nat.lt_irrefl _), if_neg hroom', hcode]⟩

theorem nscRleDecompressPlane_mono {r : Option (List UInt8)} {planeSize n k : ℕ}
    (h : nscRleDecompressPlane m outSize originalSize planeSize n = some r) (hk : n ≤ k) :
    nscRleDecompressPlane m outSize originalSize planeSize k = some r := by
  unfold nscRleDecompressPlane at h ⊢
  split_ifs at h ⊢
  · exact h
  · exact h
  · rw [nscRleDecode, value_loop] at h ⊢
    exact iterate_mono h hk
  · exact h
  · exact h

theorem length_compress {buffer : ℕ → UInt8} (hsize : originalSize + 6 < 2 ^ 32) :
    (nscRleCompressPlane buffer originalSize).1.length =
      (nscRleCompressPlane buffer originalSize).2 := by
  unfold nscRleCompressPlane
  split_ifs with hzero
  · rfl
  dsimp only
  split_ifs with hsmall
  · have hfive : 5 ≤ originalSize := by
      by_contra hlt
      rw [nscRleEncode_short (by omega)] at hsmall
      omega
    obtain ⟨hout, hsize'⟩ := nscRleEncode_eq hfive hsize hsmall
    rw [hout, hsize', List.take_length]
  · exact length_bytesAt _ _ _

theorem nscRleDecompressData_mono {r : Option (List (List UInt8))} {sizes : List (ℕ × ℕ)} {k : ℕ}
    (h : nscRleDecompressData m outSize n p sizes = some r) (hk : n ≤ k) :
    nscRleDecompressData m outSize k p sizes = some r := by
  induction sizes generalizing p r with
  | nil => exact h
  | cons size sizes ih =>
    obtain ⟨plane, hplane, h⟩ := Option.bind_eq_some_iff.mp h
    refine Option.bind_eq_some_iff.mpr ⟨plane, nscRleDecompressPlane_mono hplane hk, ?_⟩
    cases plane with
    | none => exact h
    | some plane =>
      obtain ⟨rest, hrest, h⟩ := Option.bind_eq_some_iff.mp h
      exact Option.bind_eq_some_iff.mpr ⟨rest, ih hrest, h⟩

/-- The planes of a message, one after the other. -/
theorem decompressData_compress {planes : List ((ℕ → UInt8) × ℕ)}
    (hsize : ∀ q ∈ planes, q.2 + 6 < 2 ^ 32) (hroom : ∀ q ∈ planes, q.2 ≤ outSize)
    (hcode : HoldsAt m p (planes.flatMap fun q => (nscRleCompressPlane q.1 q.2).1)) :
    ∃ n, nscRleDecompressData m outSize n p
        (planes.map fun q => (q.2, (nscRleCompressPlane q.1 q.2).2)) =
      some (some (planes.map fun q => bytesAt q.1 0 q.2)) := by
  induction planes generalizing p with
  | nil => exact ⟨0, rfl⟩
  | cons q planes ih =>
    rw [List.flatMap_cons, holdsAt_append] at hcode
    rw [List.forall_mem_cons] at hsize hroom
    rw [length_compress hsize.1] at hcode
    obtain ⟨n, hn⟩ := decompress_compress hsize.1 hroom.1 hcode.1.shift
    obtain ⟨k, hk⟩ := ih hsize.2 hroom.2 hcode.2
    have hplane := nscRleDecompressPlane_mono hn (Nat.le_max_left n k)
    have hrest := nscRleDecompressData_mono hk (Nat.le_max_right n k)
    refine ⟨max n k, Option.bind_eq_some_iff.mpr ⟨some (bytesAt q.1 0 q.2), hplane, ?_⟩⟩
    exact Option.bind_eq_some_iff.mpr ⟨some (planes.map fun q => bytesAt q.1 0 q.2), hrest, rfl⟩

/-! ### The sizes of the planes -/

section Sizes

variable {width height : ℕ} {chromaSubsampling : Bool}

theorem roundUpTo_le (b n : ℕ) (hn : 0 < n) : b ≤ roundUpTo b n ∧ roundUpTo b n < b + n := by
  have hlt := Nat.mod_lt (n - b % n) hn
  unfold roundUpTo
  omega

/-- The planes of an encoder are smaller than what an `UINT32` counts. -/
theorem orgByteCounts_lt (hwidth : width < 2 ^ 16) (hheight : height < 2 ^ 16)
    (h : originalSize ∈ orgByteCounts chromaSubsampling width height) : originalSize + 6 < 2 ^ 32 := by
  have hround : roundUpTo width 8 ≤ 2 ^ 16 := by
    unfold roundUpTo
    omega
  have hall : width * height ≤ (2 ^ 16 - 1) * (2 ^ 16 - 1) := Nat.mul_le_mul (by omega) (by omega)
  have hfirst : roundUpTo width 8 * height ≤ 2 ^ 16 * (2 ^ 16 - 1) := Nat.mul_le_mul hround (by omega)
  have hhalf : roundedSize width height < 2 ^ 32 := Nat.mod_lt _ (by decide)
  unfold orgByteCounts at h
  cases chromaSubsampling with
  | false =>
    simp only [Bool.false_eq_true, if_false, List.mem_cons, List.not_mem_nil, or_false, or_self] at h
    omega
  | true =>
    simp only [if_true, List.mem_cons, List.not_mem_nil, or_false] at h
    omega

end Sizes

/-! ### The round trip -/

/-- What the encoder writes when that is less than the plane, and what is left of the planes by
`nsc_rle_compress_data`, is decoded to the plane.  The sizes are those of `orgByteCounts_lt`. -/
theorem nscRle_roundTrip :
    (∀ (plane : ℕ → UInt8) (originalSize outSize : ℕ), 5 ≤ originalSize →
      originalSize + 6 < 2 ^ 32 → originalSize ≤ outSize →
      (nscRleEncode plane originalSize).2 < originalSize →
      (nscRleEncode plane originalSize).1.length = (nscRleEncode plane originalSize).2 ∧
        ∀ m, HoldsAt m 0 (nscRleEncode plane originalSize).1 →
          ∃ n, (nscRleDecode m outSize originalSize n).value =
            some (some (bytesAt plane 0 originalSize))) ∧
    ∀ (planes : List ((ℕ → UInt8) × ℕ)) (planeBuffersLength : ℕ),
      (∀ q ∈ planes, q.2 + 6 < 2 ^ 32) → (∀ q ∈ planes, q.2 ≤ planeBuffersLength) →
      ∀ m, HoldsAt m 0 (planes.flatMap fun q => (nscRleCompressPlane q.1 q.2).1) →
        ∃ n, nscRleDecompressData m planeBuffersLength n 0
            (planes.map fun q => (q.2, (nscRleCompressPlane q.1 q.2).2)) =
          some (some (planes.map fun q => bytesAt q.1 0 q.2)) := by
  constructor
  · intro plane originalSize outSize hfive hsize hroom hsmall
    obtain ⟨hout, hlength⟩ := nscRleEncode_eq hfive hsize hsmall
    refine ⟨by rw [hout, hlength], fun m hcode => ?_⟩
    rw [hout] at hcode
    exact nscRleDecode_rle (by omega) (by omega) hroom hcode
  · intro planes planeBuffersLength hsize hroom m hcode
    exact decompressData_compress hsize hroom hcode

/-- A plane of eight equal bytes is a run and the last four; a plane of two bytes stays as it is. -/
theorem nscRle_roundTrip_run :
    (∃ n, (nscRleDecode (fun i => [7, 7, 2, 7, 7, 7, 7].getD i 0) 8 8 n).value =
      some (some (List.replicate 8 7))) ∧
    ∃ n, nscRleDecompressData (fun i => [7, 7, 2, 7, 7, 7, 7, 5, 5].getD i 0) 8 n 0 [(8, 7), (2, 2)] =
      some (some [List.replicate 8 7, [5, 5]]) :=
  ⟨(nscRle_roundTrip.1 (fun _ => 7) 8 8 (by decide) (by decide) (by decide) (by decide)).2 _ (by decide),
    nscRle_roundTrip.2 [(fun _ => 7, 8), (fun _ => 5, 2)] 8 (by decide) (by decide) _ (by decide)⟩

end FreeRDP.Nsc
