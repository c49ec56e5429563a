import FreeRDP.Zgfx.Basic
import Mathlib.Tactic.Ring

/-!
# The frames of `zgfx_compress_to_stream`

A message is one segment behind the descriptor `ZGFX_SEGMENTED_SINGLE`, or a list of segments with
their sizes behind a multipart header.  The writer seeks over the fields it cannot know yet and
fills them in later; `single` and `multipart` are the bytes it leaves, in order.
-/

namespace FreeRDP.Zgfx

open ForwardCopy Iterate

/-! ### Messages -/

/-- A segment of a multipart message: its size, its header byte and the data. -/
def segment (c : List UInt8) : List UInt8 :=
  u32le (c.length + 1) ++ UInt8.ofNat ZGFX_PACKET_COMPR_TYPE_RDP8 :: c

/-- A message of one segment. -/
def single (src : List UInt8) : List UInt8 :=
  ZGFX_SEGMENTED_SINGLE :: UInt8.ofNat ZGFX_PACKET_COMPR_TYPE_RDP8 :: src

/-- What follows the segment count of a multipart message. -/
def multipartBody (size : ℕ) (cs : List (List UInt8)) : List UInt8 :=
  u32le size ++ cs.flatMap segment

def multipart (size : ℕ) (cs : List (List UInt8)) : List UInt8 :=
  (ZGFX_SEGMENTED_MULTIPART :: u16le cs.length) ++ multipartBody size cs

/-- The number of bytes of the message that carries `size` bytes. -/
def framedSize (size : ℕ) : ℕ :=
  if size ≤ ZGFX_SEGMENTED_MAXSIZE then size + 2
  else size + 7 + 5 * ((size + (ZGFX_SEGMENTED_MAXSIZE - 1)) / ZGFX_SEGMENTED_MAXSIZE)

@[simp] theorem length_u16le (n : ℕ) : (u16le n).length = 2 := rfl

@[simp] theorem length_u32le (n : ℕ) : (u32le n).length = 4 := rfl

theorem length_flatMap_segment (cs : List (List UInt8)) :
    (cs.flatMap segment).length = cs.flatten.length + 5 * cs.length := by
  induction cs with
  | nil => rfl
  | cons c cs ih =>
    simp only [List.flatMap_cons, List.flatten_cons, List.length_append, List.length_cons, ih,
      segment, length_u32le]
    omega

theorem length_multipart (size : ℕ) (cs : List (List UInt8)) :
    (multipart size cs).length = cs.flatten.length + 7 + 5 * cs.length := by
  simp only [multipart, multipartBody, List.length_append, List.length_cons, length_u16le,
    length_u32le, length_flatMap_segment]
  omega

/-! ### Writing -/

/-- Bytes written where a field was skipped, and the stream set back to its end: as if they had
been written in order. -/
theorem WStream.backpatch (s : WStream) (field data : List UInt8) :
    ((((s.seek field.length).write data).setPosition s.position).write field).setPosition
      (s.position + field.length + data.length) = s.write (field ++ data) := by
  simp only [WStream.seek, WStream.write, WStream.setPosition, store_store, List.length_append,
    Nat.add_assoc]

theorem WStream.write_write (s : WStream) (l l' : List UInt8) :
    (s.write l).write l' = s.write (l ++ l') := by
  simp only [WStream.write, store_append, List.length_append, Nat.add_assoc]

theorem zgfxCompressSegment_eq (s : WStream) (c : List UInt8) :
    zgfxCompressSegment s c ZGFX_PACKET_COMPR_TYPE_RDP8 =
      s.write (UInt8.ofNat ZGFX_PACKET_COMPR_TYPE_RDP8 :: c) := by
  rw [zgfxCompressSegment, WStream.write_write]
  rfl

/-- A segment written behind its skipped size, which is then filled in. -/
theorem write_segment {s : WStream} (hs : s.position ≠ 0) (c : List UInt8) :
    (zgfxCompressSegment (s.seek 4) c ZGFX_PACKET_COMPR_TYPE_RDP8).fillSize s.position
      (s.seek 4).position = s.write (segment c) := by
  have hsize : (zgfxCompressSegment (s.seek 4) c ZGFX_PACKET_COMPR_TYPE_RDP8).position -
      (s.seek 4).position = c.length + 1 := by
    rw [zgfxCompressSegment_eq]
    simp [WStream.write, WStream.seek]
  rw [WStream.fillSize, if_pos hs, hsize, segment, ← WStream.backpatch, zgfxCompressSegment_eq]
  rfl

theorem compressFragment_single {f : Framer} (hfirst : f.fragment = 0) (hrest : f.rest = [])
    (hflags : f.flags = 0) (size : ℕ) :
    compressFragment size f =
      { fragment := 1
        src := []
        posSegmentCount := f.posSegmentCount
        flags := ZGFX_PACKET_COMPR_TYPE_RDP8
        stream := f.stream.write (single (f.src.take f.srcSize)) } := by
  have hheader : f.writeHeader size =
      (f.posSegmentCount, f.stream.write [ZGFX_SEGMENTED_SINGLE]) := by
    rw [Framer.writeHeader, if_pos hfirst, if_pos (by simp [hrest])]
  have hflags' : f.flags ||| ZGFX_PACKET_COMPR_TYPE_RDP8 = ZGFX_PACKET_COMPR_TYPE_RDP8 := by
    rw [hflags, Nat.zero_or]
  rw [compressFragment, hheader, hflags', hrest, hfirst, if_neg (by simp), WStream.fillSize,
    if_neg (by simp), zgfxCompressSegment_eq, WStream.write_write]
  rfl

theorem compressFragment_first {f : Framer} (hfirst : f.fragment = 0) (hrest : f.rest ≠ [])
    (hflags : f.flags = 0) (size : ℕ) :
    compressFragment size f =
      { fragment := 1
        src := f.rest
        posSegmentCount := f.stream.position + 1
        flags := ZGFX_PACKET_COMPR_TYPE_RDP8
        stream := ((f.stream.write [ZGFX_SEGMENTED_MULTIPART]).seek 2).write
          (multipartBody size [f.src.take f.srcSize]) } := by
  have hlen : f.rest.length ≠ 0 := by simpa using hrest
  have hheader : f.writeHeader size = (f.stream.position + 1,
      ((f.stream.write [ZGFX_SEGMENTED_MULTIPART]).seek 2).write (u32le size)) := by
    rw [Framer.writeHeader, if_pos hfirst, if_neg hlen]
    rfl
  have hflags' : f.flags ||| ZGFX_PACKET_COMPR_TYPE_RDP8 = ZGFX_PACKET_COMPR_TYPE_RDP8 := by
    rw [hflags, Nat.zero_or]
  rw [compressFragment, hheader, hflags', hfirst, if_pos (by omega),
    write_segment (by simp [WStream.write]), WStream.write_write, multipartBody,
    List.flatMap_singleton]

theorem compressFragment_next {f : Framer} (hfragment : 0 < f.fragment)
    (hflags : f.flags = ZGFX_PACKET_COMPR_TYPE_RDP8) (hpos : f.stream.position ≠ 0) (size : ℕ) :
    compressFragment size f =
      { f with
        fragment := f.fragment + 1
        src := f.rest
        stream := f.stream.write (segment (f.src.take f.srcSize)) } := by
  have hheader : f.writeHeader size = (f.posSegmentCount, f.stream) := by
    rw [Framer.writeHeader, if_neg (by omega)]
  have hflags' : f.flags ||| ZGFX_PACKET_COMPR_TYPE_RDP8 = f.flags := by rw [hflags]; rfl
  rw [compressFragment, hheader, hflags', if_pos (Or.inl hfragment), hflags, write_segment hpos]

/-! ### The loop over the fragments -/

/-- The state of the loop once a multipart message has the segments `cs`. -/
structure Framing (start : WStream) (src : List UInt8) (cs : List (List UInt8)) (f : Framer) :
    Prop where
  fragment : f.fragment = cs.length
  ne_nil : cs ≠ []
  data : cs.flatten ++ f.src = src
  sizes : ∀ c ∈ cs, c.length ≤ ZGFX_SEGMENTED_MAXSIZE
  full : f.src ≠ [] → cs.flatten.length = ZGFX_SEGMENTED_MAXSIZE * cs.length
  count : cs.length = (cs.flatten.length + (ZGFX_SEGMENTED_MAXSIZE - 1)) / ZGFX_SEGMENTED_MAXSIZE
  posSegmentCount : f.posSegmentCount = start.position + 1
  flags : f.flags = ZGFX_PACKET_COMPR_TYPE_RDP8
  stream : f.stream = ((start.write [ZGFX_SEGMENTED_MULTIPART]).seek 2).write
    (multipartBody src.length cs)

/-- Every fragment but the last is full. -/
theorem Framer.length_srcSize (f : Framer) :
    (f.src.take f.srcSize).length = f.srcSize ∧ f.srcSize ≤ ZGFX_SEGMENTED_MAXSIZE ∧
      (f.src ≠ [] → 0 < f.srcSize) ∧ (f.rest ≠ [] → f.srcSize = ZGFX_SEGMENTED_MAXSIZE) ∧
      f.rest.length = f.src.length - f.srcSize := by
  have hmax : 0 < ZGFX_SEGMENTED_MAXSIZE := by decide
  refine ⟨?_, ?_, ?_, ?_, by rw [Framer.rest, List.length_drop]⟩
  · rw [List.length_take, Framer.srcSize]
    split_ifs <;> omega
  · rw [Framer.srcSize]
    split_ifs <;> omega
  · intro hsrc
    have := List.length_pos_iff.mpr hsrc
    rw [Framer.srcSize]
    split_ifs <;> omega
  · intro hrest
    have := List.length_pos_iff.mpr hrest
    rw [Framer.rest, List.length_drop, Framer.srcSize] at this
    rw [Framer.srcSize]
    split_ifs at this ⊢ <;> omega

theorem Framing.step {start : WStream} {src : List UInt8} {cs : List (List UInt8)} {f : Framer}
    (h : Framing start src cs f) (hsrc : f.src ≠ []) :
    Framing start src (cs ++ [f.src.take f.srcSize]) (compressFragment src.length f) := by
  obtain ⟨hlen, hle, hpos, hfull, -⟩ := f.length_srcSize
  have hcs : 0 < cs.length := List.length_pos_iff.mpr h.ne_nil
  have hstream : f.stream.position ≠ 0 := by
    rw [h.stream]
    simp [WStream.write, WStream.seek]
  have hsum := h.full hsrc
  rw [compressFragment_next (by rw [h.fragment]; exact hcs) h.flags hstream]
  refine ⟨by simp [h.fragment], by simp, ?_, ?_, ?_, ?_, h.posSegmentCount, h.flags, ?_⟩
  · rw [List.flatten_append, List.flatten_singleton, List.append_assoc, Framer.rest,
      List.take_append_drop, h.data]
  · intro c hc
    rcases List.mem_append.mp hc with hc | hc
    · exact h.sizes c hc
    · rw [List.mem_singleton.mp hc, hlen]
      exact hle
  · intro hrest
    rw [List.flatten_append, List.flatten_singleton, List.length_append, hlen, hsum, hfull hrest,
      List.length_append, List.length_singleton, Nat.mul_add, Nat.mul_one]
  · rw [List.length_append, List.length_singleton, List.flatten_append, List.flatten_singleton,
      List.length_append, hlen, hsum, Nat.add_assoc, Nat.mul_add_div (by decide)]
    congr 1
    have := hpos hsrc
    exact (Nat.div_eq_of_lt_le (by unfold ZGFX_SEGMENTED_MAXSIZE at *; omega)
      (by unfold ZGFX_SEGMENTED_MAXSIZE at *; omega)).symm
  · rw [h.stream, WStream.write_write, multipartBody, multipartBody, List.flatMap_append,
      List.flatMap_singleton, List.append_assoc]

/-- The first fragment of data that does not fit into one. -/
theorem framing_first (start : WStream) {src : List UInt8}
    (hsrc : ZGFX_SEGMENTED_MAXSIZE < src.length) :
    Framing start src [src.take ZGFX_SEGMENTED_MAXSIZE]
      (compressFragment src.length ⟨0, src, 0, 0, start⟩) := by
  have hsize : Framer.srcSize ⟨0, src, 0, 0, start⟩ = ZGFX_SEGMENTED_MAXSIZE := if_pos hsrc
  have hrest : Framer.rest ⟨0, src, 0, 0, start⟩ = src.drop ZGFX_SEGMENTED_MAXSIZE := by
    rw [Framer.rest, hsize]
  have hlen : (src.take ZGFX_SEGMENTED_MAXSIZE).length = ZGFX_SEGMENTED_MAXSIZE := by
    rw [List.length_take]
    omega
  have hne : Framer.rest ⟨0, src, 0, 0, start⟩ ≠ [] := by
    rw [hrest, ← List.length_pos_iff, List.length_drop]
    omega
  rw [compressFragment_first rfl hne rfl]
  refine ⟨rfl, by simp, ?_, ?_, ?_, ?_, rfl, rfl, by rw [hsize]⟩
  · rw [hrest, List.flatten_singleton, List.take_append_drop]
  · intro c hc
    rw [List.mem_singleton.mp hc, hlen]
  · intro _
    rw [List.flatten_singleton, hlen, List.length_singleton, Nat.mul_one]
  · rw [List.flatten_singleton, hlen, List.length_singleton]
    decide

theorem compressStep_exit {f : Framer} (hsrc : f.src = []) (hfragment : f.fragment ≠ 0) (size : ℕ) :
    compressStep size f = .inr f := by
  rw [compressStep, if_neg (by simp [hsrc, hfragment])]

/-- The loop runs until all the data is in segments. -/
theorem Framing.run {start : WStream} {src : List UInt8} {cs : List (List UInt8)} {f : Framer}
    (h : Framing start src cs f) {n : ℕ} (hn : f.src.length < n) :
    ∃ f', iterate (compressStep src.length) n f = some f' ∧
      ∃ cs', Framing start src cs' f' ∧ f'.src = [] := by
  refine iterate_rule _ (I := fun f => ∃ cs, Framing start src cs f) (μ := fun f => f.src.length)
    ?_ ?_ ⟨cs, h⟩ hn
  · rintro f f' ⟨cs, h⟩ hstep
    have hfragment : f.fragment ≠ 0 := by
      rw [h.fragment]
      simpa using h.ne_nil
    by_cases hsrc : f.src = []
    · rw [compressStep_exit hsrc hfragment] at hstep
      cases hstep
    · rw [compressStep, if_pos (Or.inl (List.length_pos_iff.mpr hsrc))] at hstep
      cases hstep
      obtain ⟨-, -, hpos, -, hrest⟩ := f.length_srcSize
      have hlen := List.length_pos_iff.mpr hsrc
      refine ⟨⟨_, h.step hsrc⟩, ?_⟩
      change f.rest.length < f.src.length
      have := hpos hsrc
      omega
  · rintro f f' ⟨cs, h⟩ hstep
    rw [compressStep] at hstep
    split_ifs at hstep with hcond
    cases hstep
    exact ⟨cs, h, by simpa using fun hsrc => hcond (Or.inl (List.length_pos_iff.mpr hsrc))⟩

/-- The bytes `msg` carry the data `src`. -/
inductive Message (src : List UInt8) : List UInt8 → Prop
  | single (h : src.length ≤ ZGFX_SEGMENTED_MAXSIZE) : Message src (single src)
  | multipart (cs : List (List UInt8)) (hsrc : ZGFX_SEGMENTED_MAXSIZE < src.length)
      (hdata : cs.flatten = src) (hsizes : ∀ c ∈ cs, c.length ≤ ZGFX_SEGMENTED_MAXSIZE)
      (hcount : cs.length =
        (src.length + (ZGFX_SEGMENTED_MAXSIZE - 1)) / ZGFX_SEGMENTED_MAXSIZE) :
      Message src (multipart src.length cs)

theorem Message.length_eq {src msg : List UInt8} (h : Message src msg) :
    msg.length = framedSize src.length := by
  cases h with
  | single h => rw [framedSize, if_pos h]; rfl
  | multipart cs hsrc hdata hsizes hcount =>
    rw [length_multipart, framedSize, if_neg (by omega), hdata, hcount]

/-- The count of the segments is filled in last. -/
theorem sealStream_eq {start : WStream} {src : List UInt8} {cs : List (List UInt8)} {f : Framer}
    (h : Framing start src cs f) :
    (sealStream f).buffer = store start.buffer start.position (multipart src.length cs) ∧
      (sealStream f).length = start.position + (multipart src.length cs).length := by
  have hlen : (multipart src.length cs).length = 3 + (multipartBody src.length cs).length := by
    rw [multipart, List.length_append]
    rfl
  rw [sealStream, if_pos (by rw [h.posSegmentCount]; omega), h.posSegmentCount, h.fragment,
    h.stream, hlen]
  constructor
  · change store (store (store start.buffer start.position [ZGFX_SEGMENTED_MULTIPART])
      (start.position + 1 + (u16le cs.length).length) (multipartBody src.length cs))
      (start.position + 1) (u16le cs.length) = _
    rw [store_store, multipart, List.cons_append, store_cons, store_cons, store_nil]
  · change start.position + 1 + 2 + (multipartBody src.length cs).length = _
    omega

/-- `zgfx_compress_to_stream` writes a message that carries the data. -/
theorem zgfxCompressToStream_eq (s : WStream) (src : List UInt8) :
    ∃ s' msg, zgfxCompressToStream s src 0 = .ok s' ∧ Message src msg ∧
      s'.buffer = store s.buffer s.position msg ∧ s'.length = s.position + msg.length := by
  have hstep : iterate (compressStep src.length) (src.length + 2) ⟨0, src, 0, 0, s⟩ =
      iterate (compressStep src.length) (src.length + 1)
        (compressFragment src.length ⟨0, src, 0, 0, s⟩) := iterate_inl (by simp [compressStep]) _
  unfold zgfxCompressToStream
  rw [hstep]
  by_cases hsrc : src.length ≤ ZGFX_SEGMENTED_MAXSIZE
  · have hsize : Framer.srcSize ⟨0, src, 0, 0, s⟩ = src.length := if_neg (by simpa using hsrc)
    have hrest : Framer.rest ⟨0, src, 0, 0, s⟩ = [] := by
      rw [Framer.rest, hsize, List.drop_length]
    rw [compressFragment_single rfl hrest rfl, hsize, List.take_length,
      iterate_inr (compressStep_exit rfl Nat.one_ne_zero _)]
    exact ⟨_, _, rfl, .single hsrc, rfl, rfl⟩
  · have hfirst := framing_first s (Nat.lt_of_not_le hsrc)
    obtain ⟨f, hrun, cs, h, hnil⟩ := hfirst.run (n := src.length + 1) (by
      have hdata := congrArg List.length hfirst.data
      rw [List.length_append] at hdata
      omega)
    have hdata : cs.flatten = src := by
      have := h.data
      rwa [hnil, List.append_nil] at this
    rw [hrun]
    obtain ⟨hbuffer, hlength⟩ := sealStream_eq h
    exact ⟨_, _, rfl, .multipart cs (Nat.lt_of_not_le hsrc) hdata h.sizes
      (by rw [h.count, hdata]), hbuffer, hlength⟩

/-! ### Reading -/

theorem readU16_u16le {n : ℕ} (hn : n < 2 ^ 16) (rest : List UInt8) :
    readU16 (u16le n ++ rest) = n := by
  simp only [readU16, u16le, List.cons_append, List.getD_cons_zero, List.getD_cons_succ,
    UInt8.toNat_ofNat']
  omega

theorem readU32_u32le {n : ℕ} (hn : n < 2 ^ 32) (rest : List UInt8) :
    readU32 (u32le n ++ rest) = n := by
  simp only [readU32, u32le, List.cons_append, List.getD_cons_zero, List.getD_cons_succ,
    UInt8.toNat_ofNat']
  omega

/-- A segment that is not compressed is output as it stands. -/
theorem zgfxDecompressSegment_raw (zgfx : Context) {c : List UInt8}
    (hc : c.length ≤ ZGFX_SEGMENTED_MAXSIZE) (rest : List UInt8) :
    zgfxDecompressSegment zgfx (UInt8.ofNat ZGFX_PACKET_COMPR_TYPE_RDP8 :: c ++ rest)
      (c.length + 1) =
      .ok { ok := true, zgfx := ringWrite zgfx c, output := c, stream := rest } := by
  unfold ZGFX_SEGMENTED_MAXSIZE at hc
  have hraw : (UInt8.ofNat ZGFX_PACKET_COMPR_TYPE_RDP8).toNat &&& PACKET_COMPRESSED = 0 := by decide
  have hdata : decompressSegmentData zgfx (UInt8.ofNat ZGFX_PACKET_COMPR_TYPE_RDP8) (c ++ rest)
      c.length = .ok { ok := true, zgfx := ringWrite zgfx c, output := c, stream := rest } := by
    rw [decompressSegmentData, if_pos hraw, if_neg (by unfold outputBufferSize; omega),
      List.take_left, List.drop_left]
  rw [zgfxDecompressSegment, if_neg (by simp; omega)]
  exact hdata

theorem segmentStep_segment (count : ℕ) {size : ℕ} {l : Concatenation} (hnumber : l.segmentNumber < count)
    (hsize : size < 2 ^ 32) {c rest : List UInt8} (hl : l.stream = segment c ++ rest)
    (hc : c.length ≤ ZGFX_SEGMENTED_MAXSIZE) (hdst : l.dst.length + c.length ≤ size) :
    segmentStep count size l =
      .inl ⟨l.segmentNumber + 1, ringWrite l.zgfx c, rest, l.dst ++ c⟩ := by
  have hc' : c.length + 1 < 2 ^ 32 := by unfold ZGFX_SEGMENTED_MAXSIZE at hc; omega
  have hread : readU32 l.stream = c.length + 1 := by
    rw [hl, segment, List.append_assoc, readU32_u32le hc']
  have hdrop : l.stream.drop 4 = UInt8.ofNat ZGFX_PACKET_COMPR_TYPE_RDP8 :: c ++ rest := by
    rw [hl]
    rfl
  have hadd : l.add size ⟨true, ringWrite l.zgfx c, c, rest⟩ =
      .inl ⟨l.segmentNumber + 1, ringWrite l.zgfx c, rest, l.dst ++ c⟩ := by
    unfold Concatenation.add
    rw [if_neg (by simp), if_neg (by dsimp only; omega), if_neg (by dsimp only; omega)]
  unfold segmentStep
  rw [if_neg (by omega), if_neg (by simp [hl, segment]), hread, hdrop,
    zgfxDecompressSegment_raw _ hc]
  exact hadd

/-- The segments of a multipart message, one after another. -/
theorem decompressSegments_eq {count size : ℕ} (hsize : size < 2 ^ 32) (cs : List (List UInt8))
    (hcs : ∀ c ∈ cs, c.length ≤ ZGFX_SEGMENTED_MAXSIZE) (l : Concatenation)
    (hl : l.stream = cs.flatMap segment) (hcount : l.segmentNumber + cs.length = count)
    (hdst : l.dst.length + cs.flatten.length ≤ size) :
    decompressSegments count size l =
      .ok { status := 1, zgfx := cs.foldl ringWrite l.zgfx, dst := l.dst ++ cs.flatten,
            dstSize := size } := by
  induction cs generalizing l with
  | nil =>
    have hexit : segmentStep count size l =
        .inr (.ok { status := 1, zgfx := l.zgfx, dst := l.dst, dstSize := size }) :=
      if_pos (by rw [List.length_nil] at hcount; omega)
    rw [decompressSegments, iterate_inr hexit, List.flatten_nil, List.append_nil]
    rfl
  | cons c cs ih =>
    rw [List.length_cons] at hcount
    rw [List.flatten_cons, List.length_append] at hdst
    rw [List.flatMap_cons] at hl
    have hstep := segmentStep_segment count (by omega) hsize hl (hcs c (by simp))
      (by omega)
    have hrest := ih (fun c hc => hcs c (List.mem_cons_of_mem _ hc))
      ⟨l.segmentNumber + 1, ringWrite l.zgfx c, cs.flatMap segment, l.dst ++ c⟩ rfl
      (by dsimp only; omega) (by rw [List.length_append]; omega)
    dsimp only [decompressSegments] at hrest ⊢
    rw [iterate_inl hstep, show count - l.segmentNumber = count - (l.segmentNumber + 1) + 1 by omega,
      hrest, List.flatten_cons, List.append_assoc, List.foldl_cons]

/-- Every message is read back, if its size is a `UINT32`. -/
theorem zgfxDecompress_message (zgfx : Context) {src msg : List UInt8} (h : Message src msg)
    (hne : src ≠ []) (hlen : msg.length < 2 ^ 32) :
    ∃ z, zgfxDecompress zgfx msg (msg.length % 2 ^ 32) =
      .ok { status := 1, zgfx := z, dst := src, dstSize := src.length } := by
  rw [Nat.mod_eq_of_lt hlen, zgfxDecompress, List.take_length]
  cases h with
  | single h =>
    have hraw := zgfxDecompressSegment_raw zgfx h []
    rw [List.append_nil] at hraw
    refine ⟨ringWrite zgfx src, ?_⟩
    rw [single]
    dsimp only
    rw [if_pos rfl, List.length_cons, hraw]
    dsimp only
    rw [if_neg (by simpa using hne)]
  | multipart cs hsrc hdata hsizes hcount =>
    have hsize : src.length < 2 ^ 32 := by
      rw [length_multipart, hdata] at hlen
      omega
    have hcs : cs.length < 2 ^ 16 := by
      rw [length_multipart, hdata] at hlen
      unfold ZGFX_SEGMENTED_MAXSIZE at hcount
      omega
    refine ⟨cs.foldl ringWrite zgfx, ?_⟩
    have hmsg : multipart src.length cs = ZGFX_SEGMENTED_MULTIPART ::
        (u16le cs.length ++ (u32le src.length ++ cs.flatMap segment)) := rfl
    have hsix : (u16le cs.length ++ (u32le src.length ++ cs.flatMap segment)).drop 6 =
        cs.flatMap segment := rfl
    rw [hmsg]
    dsimp only
    rw [if_neg (by decide), if_pos rfl, if_neg (by simp; omega), hsix, readU16_u16le hcs,
      List.drop_left' (length_u16le _), readU32_u32le hsize,
      if_neg (by rw [length_flatMap_segment]; omega),
      decompressSegments_eq hsize cs hsizes _ rfl (Nat.zero_add _) (by rw [hdata]; simp), hdata,
      List.nil_append]

/-- A multipart message cut off before its segments could all have a size is refused. -/
theorem zgfxDecompress_cut (zgfx : Context) {size n : ℕ} {cs : List (List UInt8)}
    (hcs : cs.length < 2 ^ 16) (hn : 7 ≤ n) (hn' : n < 7 + 4 * cs.length) :
    zgfxDecompress zgfx (multipart size cs) n =
      .ok { status := -1, zgfx := zgfx, dst := [], dstSize := 0 } := by
  obtain ⟨k, rfl⟩ := Nat.exists_eq_add_of_le' hn
  have htake : (multipart size cs).take (k + 7) =
      ZGFX_SEGMENTED_MULTIPART :: (u16le cs.length ++ (u32le size ++ (cs.flatMap segment).take k)) :=
    rfl
  have hsix : (u16le cs.length ++ (u32le size ++ (cs.flatMap segment).take k)).drop 6 =
      (cs.flatMap segment).take k := rfl
  rw [zgfxDecompress, htake]
  dsimp only
  rw [if_neg (by decide), if_pos rfl, if_neg (by simp; omega), hsix, readU16_u16le hcs,
    if_pos (by rw [List.length_take]; omega)]

/-! ### The round trip -/

/-- The bytes that a call has put behind the position at which the stream stood. -/
def produced (s s' : WStream) : List UInt8 := slice s'.buffer s.position (s'.length - s.position)

theorem produced_eq {s s' : WStream} {msg : List UInt8}
    (hbuffer : s'.buffer = store s.buffer s.position msg)
    (hlength : s'.length = s.position + msg.length) : produced s s' = msg := by
  rw [produced, slice, hbuffer, hlength, Nat.add_sub_cancel_left, map_store]

/-- What `zgfx_compress_to_stream` frames, `zgfx_decompress` returns, whatever the history of the
receiver and whatever the stream held before: for all data whose frame has fewer than `2 ^ 32`
bytes, as `SrcSize` is a `UINT32`. -/
theorem frame_round_trip (zgfx : Context) (s : WStream) (src : List UInt8) (hne : src ≠ [])
    (hsize : framedSize src.length < 2 ^ 32) :
    ∃ s' z, zgfxCompressToStream s src 0 = .ok s' ∧
      (produced s s').length = framedSize src.length ∧
      zgfxDecompress zgfx (produced s s') ((produced s s').length % 2 ^ 32) =
        .ok { status := 1, zgfx := z, dst := src, dstSize := src.length } := by
  obtain ⟨s', msg, hcompress, hmsg, hbuffer, hlength⟩ := zgfxCompressToStream_eq s src
  have hprod := produced_eq hbuffer hlength
  obtain ⟨z, hz⟩ := zgfxDecompress_message zgfx hmsg hne (by rw [hmsg.length_eq]; exact hsize)
  exact ⟨s', z, hcompress, by rw [hprod, hmsg.length_eq], by rw [hprod]; exact hz⟩

/-- Data of two segments. -/
theorem frame_round_trip_two :
    (List.replicate 65536 7 : List UInt8) ≠ [] ∧ framedSize 65536 < 2 ^ 32 ∧
    ∃ s' z, zgfxCompressToStream ⟨fun _ => 0, 0, 0⟩ (List.replicate 65536 7) 0 = .ok s' ∧
      (produced ⟨fun _ => 0, 0, 0⟩ s').length = framedSize 65536 ∧
      zgfxDecompress zgfxContextNew (produced ⟨fun _ => 0, 0, 0⟩ s')
        ((produced ⟨fun _ => 0, 0, 0⟩ s').length % 2 ^ 32) =
        .ok { status := 1, zgfx := z, dst := List.replicate 65536 7, dstSize := 65536 } := by
  generalize hsrc : (List.replicate 65536 7 : List UInt8) = src
  have hlen : src.length = 65536 := by rw [← hsrc, List.length_replicate]
  have hne : src ≠ [] := List.ne_nil_of_length_pos (by omega)
  have hsize : framedSize src.length < 2 ^ 32 := by
    rw [hlen]
    decide
  have h := frame_round_trip zgfxContextNew ⟨fun _ => 0, 0, 0⟩ src hne hsize
  rw [hlen] at h hsize
  exact ⟨hne, hsize, h⟩

/-- The longest data of 65535 segments: its frame has `2 ^ 32 + 196611` bytes, and a receiver that
is told 196611 refuses it. -/
theorem frame_too_long :
    (List.replicate (65535 * ZGFX_SEGMENTED_MAXSIZE) 7 : List UInt8).length ≤
      65535 * ZGFX_SEGMENTED_MAXSIZE ∧
    ∃ s', zgfxCompressToStream ⟨fun _ => 0, 0, 0⟩
        (List.replicate (65535 * ZGFX_SEGMENTED_MAXSIZE) 7) 0 = .ok s' ∧
      zgfxDecompress zgfxContextNew (produced ⟨fun _ => 0, 0, 0⟩ s')
        ((produced ⟨fun _ => 0, 0, 0⟩ s').length % 2 ^ 32) =
        .ok { status := -1, zgfx := zgfxContextNew, dst := [], dstSize := 0 } := by
  refine ⟨by rw [List.length_replicate], ?_⟩
  generalize hsrc : (List.replicate (65535 * ZGFX_SEGMENTED_MAXSIZE) 7 : List UInt8) = src
  have hlen : src.length = 65535 * ZGFX_SEGMENTED_MAXSIZE := by
    rw [← hsrc, List.length_replicate]
  obtain ⟨s', msg, hcompress, hmsg, hbuffer, hlength⟩ :=
    zgfxCompressToStream_eq ⟨fun _ => 0, 0, 0⟩ src
  have hsize : msg.length % 2 ^ 32 = 196611 := by
    rw [hmsg.length_eq, hlen]
    decide
  refine ⟨s', hcompress, ?_⟩
  rw [produced_eq hbuffer hlength, hsize]
  cases hmsg with
  | single h =>
    rw [hlen] at h
    exact absurd h (by decide)
  | multipart cs _ _ _ hcount =>
    have hcs : cs.length = 65535 := by
      rw [hcount, hlen]
      decide
    exact zgfxDecompress_cut _ (by omega) (by omega) (by omega)

end FreeRDP.Zgfx
