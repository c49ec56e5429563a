import FreeRDP.Interleaved.Equiv.Runs

/-!
# Flushes of the encoder, executed

A flush of the encoder is *clean* if it copies the pending pixels from the start of the temporary
stream and, for a two-colour run, has an odd length.  The decoder that executes a clean flush comes
as far as the encoder (`InSync`); any other flush leaves a wrong pixel behind (`Broken`).
-/

namespace FreeRDP.Interleaved

open ForwardCopy Iterate

/-! ### Formats -/

/-- What the encoder needs of its format; `start` is the place in the temporary stream from which
the pending pixels are copied. -/
structure Format.Lawful (f : Format) (start : TempStream → ℕ) : Prop where
  bytes_pos : 0 < f.bytes
  mix : f.mix = whitePixel f.bytes
  copy : ∀ count temp, f.outCopyCount count temp =
    if count > 0 then
      runHeader 32 0x80 0xf4 count ++ slice temp.buffer (start temp) (count * f.bytes)
    else []
  rewound : ∀ temp, temp.position = 0 → start temp = 0

theorem lawful_rgb16 : rgb16.Lawful fun _ => 0 :=
  ⟨by decide, rfl, fun _ _ => rfl, fun _ _ => rfl⟩

theorem lawful_bgr24 : bgr24.Lawful TempStream.position :=
  ⟨by decide, rfl, fun _ _ => rfl, fun _ h => h⟩

/-- The flush copies the pending pixels from the start of the temporary stream, and a two-colour run
has an odd length. -/
def CleanFlush (f : Format) (start : TempStream → ℕ) (e : Encoder) (r : Run) : Prop :=
  slice e.temp.buffer (start e.temp) ((e.count - e.sent r) * f.bytes) =
      slice e.temp.buffer 0 ((e.count - e.sent r) * f.bytes) ∧
    (r = .bicolor → e.bicolorCount % 2 = 1)

instance (f : Format) (start : TempStream → ℕ) (e : Encoder) (r : Run) :
    Decidable (CleanFlush f start e r) := inferInstanceAs (Decidable (_ ∧ _))

variable {f : Format} {start : TempStream → ℕ} {w h k : ℕ} {img : ℕ → ℕ} {e e' : Encoder}
  {fl : Bool} {d : Decoder}

/-! ### The order of a run -/

open Decoder Encoder

theorem Encoder.sent_le (e : Encoder) (r : Run) : e.sent r ≤ e.length r := by
  cases r with
  | bicolor => exact Nat.sub_le _ _
  | _ => exact Nat.le_refl _

theorem Encoder.sent_pos {r : Run} (h : 3 < e.length r) : 0 < e.sent r := by
  cases r with
  | bicolor =>
    simp only [Encoder.length, Encoder.sent] at h ⊢
    omega
  | _ => exact Nat.zero_lt_of_lt h

/-! ### Copies -/

@[simp] theorem length_slice (buffer : ℕ → UInt8) (i n : ℕ) : (slice buffer i n).length = n := by
  simp [slice]

theorem slice_add (buffer : ℕ → UInt8) (i m n : ℕ) :
    slice buffer i (m + n) = slice buffer i m ++ slice buffer (i + m) n := by
  simp [slice, List.range_add, Function.comp_def, Nat.add_assoc]

theorem length_flatMap_pixelBytes (b : ℕ) (ps : List ℕ) :
    (ps.flatMap (pixelBytes b)).length = ps.length * b := by
  induction ps with
  | nil => rw [List.flatMap_nil, List.length_nil, List.length_nil, Nat.zero_mul]
  | cons p ps ih =>
    rw [List.flatMap_cons, List.length_append, length_pixelBytes, ih, List.length_cons,
      Nat.succ_mul, Nat.add_comm]

theorem exists_pixels {b n : ℕ} {l : List UInt8} (hl : l.length = n * b) :
    ∃ ps : List ℕ, ps.length = n ∧ l = ps.flatMap (pixelBytes b) ∧ ps.map (visible b) = ps := by
  induction n generalizing l with
  | zero => exact ⟨[], rfl, List.eq_nil_of_length_eq_zero (by simpa using hl), rfl⟩
  | succ n ih =>
    rw [Nat.succ_mul] at hl
    obtain ⟨ps, hlen, hps, hvisible⟩ := ih (l := l.drop b) (by rw [List.length_drop]; omega)
    have htake : (l.take b).length = b := by rw [List.length_take]; omega
    have hbytes : pixelBytes b (pixelOf (l.take b)) = l.take b := by
      have := pixelBytes_pixelOf (l.take b)
      rwa [htake] at this
    have hpixel : visible b (pixelOf (l.take b)) = pixelOf (l.take b) := by
      rw [← pixelOf_pixelBytes, hbytes]
    refine ⟨pixelOf (l.take b) :: ps, by rw [List.length_cons, hlen], ?_, ?_⟩
    · rw [List.flatMap_cons, hbytes, ← hps, List.take_append_drop]
    · rw [List.map_cons, hpixel, hvisible]

theorem visible_eq_of_flatMap_eq {b : ℕ} {ps qs : List ℕ} (hlen : ps.length = qs.length)
    (h : ps.flatMap (pixelBytes b) = qs.flatMap (pixelBytes b)) :
    ps.map (visible b) = qs.map (visible b) := by
  induction ps generalizing qs with
  | nil => rw [List.eq_nil_of_length_eq_zero hlen.symm]
  | cons p ps ih =>
    obtain ⟨q, qs, rfl⟩ := List.exists_cons_of_length_eq_add_one hlen.symm
    rw [List.flatMap_cons, List.flatMap_cons] at h
    obtain ⟨hp, hps⟩ := List.append_inj h (by rw [length_pixelBytes, length_pixelBytes])
    rw [List.map_cons, List.map_cons, ih (by simpa using hlen) hps, ← pixelOf_pixelBytes, hp,
      pixelOf_pixelBytes]

theorem map_visible_pixels {b : ℕ} (himg : ∀ j, img j < 2 ^ (8 * b)) (k n : ℕ) :
    (pixels img k n).map (visible b) = pixels img k n := by
  rw [pixels, List.map_map]
  apply List.map_congr_left
  intro i _
  exact visible_of_lt (himg _)

/-- A decoder that shows an image after it has written pixels has written those of the image. -/
theorem Decoder.Shows.eq_pixels {ps : List ℕ} (h : Shows img (d.wrote ps)) :
    ps = pixels img d.position ps.length := by
  apply List.ext_getElem (by rw [length_pixels])
  intro i hi hi'
  rw [getElem_pixels, ← h (d.position + i) (Nat.add_lt_add_left hi _)]
  exact (store_apply d.dest d.position ps hi).symm

theorem Encoder.Tracks.pending_take (he : Tracks f w img fl k e) {n : ℕ} (hn : n ≤ e.count) :
    slice e.temp.buffer 0 (n * f.bytes) =
      (pixels img (k - e.count) n).flatMap (pixelBytes f.bytes) := by
  have hpending := he.pending
  obtain ⟨m, hm⟩ := Nat.exists_eq_add_of_le hn
  have hpixels : pixels img (k - e.count) e.count =
      pixels img (k - e.count) n ++ pixels img (k - e.count + n) m := by
    rw [← pixels_add, ← hm]
  rw [hpixels, hm, Nat.add_mul, slice_add, List.flatMap_append] at hpending
  have hlen : (slice e.temp.buffer 0 (n * f.bytes)).length =
      ((pixels img (k - (n + m)) n).flatMap (pixelBytes f.bytes)).length := by
    rw [length_slice, length_flatMap_pixelBytes, length_pixels]
  rw [hm]
  exact (List.append_inj hpending hlen).1

/-- After an order that has written the pixels of the image, the decoder is ready again. -/
theorem Decoder.Ready.wrote {b : ℕ} (hd : Ready b w img d) (i : Bool) (n : ℕ) :
    Ready b w img ((d.begun w i).wrote (pixels img d.position n)) := by
  have hwatched := hd.watched
  have hshows : Shows img (d.begun w i) := hwatched.shows
  refine ⟨?_, hwatched.fgPel, ?_⟩
  · have := hshows.wrote n
    rwa [begun_position] at this
  · intro hfirst
    have hline : d.position < w ↔ (d.watchLine w).firstLine = true := by
      rw [hwatched.firstLine, watchLine_position, decide_eq_true_iff]
    have : ¬ d.position < w := by
      rw [hline]
      simpa [Decoder.wrote, begun] using hfirst
    simp only [Decoder.wrote, begun_position, length_pixels]
    omega

/-! ### Flushes -/

/-- The decoder has executed the bytes `s` and shows the image up to `p`.  It will start a
background run with a foreground pixel only where no background run starts. -/
def InSync (b w h : ℕ) (img : ℕ → ℕ) (d₀ : Decoder) (s : List UInt8) (p : ℕ) : Prop :=
  ∃ d, Executes b w h d₀ s d ∧ Ready b w img d ∧ d.position = p ∧
    (d.insertFgPel = true →
      d.firstLine = true ∧ w ≤ d.position ∨ img d.position ≠ aboveOf w img d.position)

/-- Somewhere in the bytes `s` the decoder has a wrong pixel. -/
def Broken (b w h : ℕ) (img : ℕ → ℕ) (d₀ : Decoder) (s : List UInt8) : Prop :=
  ∃ s₁ s₂ d, s = s₁ ++ s₂ ∧ Executes b w h d₀ s₁ d ∧ d.position ≤ w * h ∧ ¬ Shows img d

section Flush

variable (hf : f.Lawful start) (he : Tracks f w img fl k e) (hk : k ≤ w * h)
  (hwh : w * h < 2 ^ 16) (himg : ∀ j, img j < 2 ^ (8 * f.bytes))

include hf he hk hwh himg

/-- The decoder writes the pixels of a run when it executes the order that sends it. -/
theorem executes_order {r : Run} (hw : 0 < w) (hr : 3 < e.length r) (hd : Ready f.bytes w img d)
    (hpos : d.position = k - e.sent r) (hinsert : r = .fill → (d.watchLine w).insertFgPel = false)
    (hodd : r = .bicolor → e.bicolorCount % 2 = 1) :
    Executes f.bytes w h d (e.order f r)
      ((d.begun w (decide (r = .fill))).wrote (pixels img d.position (e.sent r))) := by
  have hb := hf.bytes_pos
  have hsent := e.sent_le r
  have hsent0 := sent_pos hr
  have hlength := he.length_le r
  have hcount := he.count_le
  have hfollows := he.follows r
  have hlt : e.sent r < 2 ^ 16 := by omega
  have hsize : d.position + e.sent r ≤ w * h := by omega
  -- the runs that refer to the line above lie on one side of the end of the first line
  have hline : r ∈ [Run.fill, .mix, .fom] → d.position < w → d.position + e.sent r ≤ w := by
    intro hmem hposw
    cases fl with
    | true =>
      have := he.inFirst rfl
      omega
    | false =>
      have := he.behindFirst rfl r hmem
      omega
  cases r with
  | fill =>
    have horder : e.order f .fill = runHeader 32 0x00 0xf0 (e.sent .fill) := if_pos hsent0
    rw [horder]
    apply executes_fill hd hw hsent0 hlt hsize (hline (by decide)) himg (hinsert rfl)
    intro j hj
    apply hfollows
    · omega
    · change k ≤ d.position + j + e.sent .fill
      omega
  | mix =>
    have horder : e.order f .mix = runHeader 32 0x20 0xf1 (e.sent .mix) := if_pos hsent0
    rw [horder]
    apply executes_mix hd hw hsent0 hlt hsize (hline (by decide)) himg
    intro j hj
    rw [← hf.mix]
    apply hfollows
    · omega
    · change k ≤ d.position + j + e.sent .mix
      omega
  | color =>
    have horder : e.order f .color =
        runHeader 32 0x60 0xf3 (e.sent .color) ++ pixelBytes f.bytes e.lastPixel := if_pos hsent0
    have hcolor : pixels (fun _ => visible f.bytes e.lastPixel) 0 (e.sent .color) =
        pixels img d.position (e.sent .color) := by
      apply List.map_congr_left
      intro j hj
      have hpixel : img (d.position + j) = e.lastPixel := by
        have hj := List.mem_range.1 hj
        apply hfollows
        · omega
        · change k ≤ d.position + j + e.sent .color
          omega
      change visible f.bytes e.lastPixel = img (d.position + j)
      rw [← hpixel, visible_of_lt (himg _)]
    rw [horder, ← hcolor]
    exact executes_color hb hsent0 hlt hsize
  | bicolor =>
    have hodd := hodd rfl
    obtain ⟨-, -, hcolors⟩ := hfollows
    have hlength : e.length .bicolor = e.bicolorCount := rfl
    -- one pixel less than the run has, so that the second colour comes first
    have hsent : e.sent .bicolor = e.bicolorCount - 1 := by
      rw [Encoder.sent, hodd]
    have hhalf : e.sent .bicolor / 2 * 2 = e.sent .bicolor := by omega
    have horder : e.order f .bicolor = runHeader 16 0xe0 0xf8 (e.sent .bicolor / 2) ++
        (pixelBytes f.bytes e.bicolor2 ++ pixelBytes f.bytes e.bicolor1) := if_pos hsent0
    have hcolor : pixels (fun i => visible f.bytes (if i % 2 = 0 then e.bicolor2 else e.bicolor1)) 0
        (e.sent .bicolor / 2 * 2) = pixels img d.position (e.sent .bicolor) := by
      rw [hhalf]
      apply List.map_congr_left
      intro j hj
      have hj := List.mem_range.1 hj
      have hpixel := hcolors (1 + j) (by omega)
      rw [show k - e.bicolorCount + (1 + j) = d.position + j by omega] at hpixel
      have hturn : (if (1 + j) % 2 = 0 then e.bicolor1 else e.bicolor2) =
          if (0 + j) % 2 = 0 then e.bicolor2 else e.bicolor1 := by
        split_ifs <;> first | rfl | omega
      change visible f.bytes (if (0 + j) % 2 = 0 then e.bicolor2 else e.bicolor1) = _
      rw [← hturn, ← hpixel, visible_of_lt (himg _)]
    rw [horder, ← hcolor]
    exact executes_bicolor hb (by omega) (by omega) (by omega)
  | fom =>
    obtain ⟨hmask, hbits⟩ := hfollows
    have horder : e.order f .fom = fomHeader (e.sent .fom) ++ e.fomMask := if_pos hsent0
    have hstart : k - e.fomCount = d.position := hpos.symm
    rw [hstart] at hbits
    rw [horder]
    apply executes_fom hd hw hsent0 hlt hsize (hline (by decide)) himg hmask.length
    rw [← hf.mix]
    exact hbits

/-- The pixels before a run are copied: the decoder writes them, or a wrong pixel among them. -/
theorem executes_copied {n : ℕ} (hn : n ≤ e.count) (hd : Ready f.bytes w img d)
    (hpos : d.position = k - e.count) :
    ∃ d', Executes f.bytes w h d (f.outCopyCount n e.temp) d' ∧ d'.position = d.position + n ∧
      if slice e.temp.buffer (start e.temp) (n * f.bytes) = slice e.temp.buffer 0 (n * f.bytes) then
        Ready f.bytes w img d' ∧ (0 < n → d'.insertFgPel = false) ∧ (n = 0 → d' = d)
      else ¬ Shows img d' := by
  have hcount := he.count_le
  rw [hf.copy]
  rcases Nat.eq_zero_or_pos n with rfl | hn0
  · refine ⟨d, Executes.refl d, rfl, ?_⟩
    rw [if_pos (by rw [Nat.zero_mul]; rfl)]
    exact ⟨hd, fun h => absurd h (Nat.lt_irrefl 0), fun _ => rfl⟩
  obtain ⟨ps, hlen, hps, hvisible⟩ :=
    exists_pixels (length_slice e.temp.buffer (start e.temp) (n * f.bytes))
  have hne : ps ≠ [] := List.ne_nil_of_length_pos (by omega)
  have hexec := executes_copy (d := d) (w := w) (h := h) hf.bytes_pos hne (by omega) (by omega)
  rw [hvisible, hlen, ← hps] at hexec
  rw [if_pos hn0]
  refine ⟨_, hexec, by simp [Decoder.wrote, hlen], ?_⟩
  split_ifs with hclean
  · -- the bytes are those of the pending pixels
    have hpixels : ps = pixels img d.position n := by
      have hbytes := he.pending_take hn
      rw [← hclean, hps, ← hpos] at hbytes
      have hvisible' := visible_eq_of_flatMap_eq (by rw [hlen, length_pixels]) hbytes
      rwa [hvisible, map_visible_pixels himg] at hvisible'
    rw [hpixels]
    exact ⟨hd.wrote false n, fun _ => rfl, fun h => absurd h (by omega)⟩
  · intro hshows
    apply hclean
    have hpixels := hshows.eq_pixels
    rw [begun_position, hlen] at hpixels
    rw [he.pending_take hn, hps, ← hpos, ← hpixels]

/-- A two-colour run of even length is sent with its colours the wrong way round. -/
theorem executes_even_bicolor (hr : 3 < e.length .bicolor) (hpos : d.position = k - e.bicolorCount)
    (heven : ¬ e.bicolorCount % 2 = 1) :
    ∃ d', Executes f.bytes w h d (e.order f .bicolor) d' ∧ d'.position ≤ w * h ∧
      ¬ Shows img d' := by
  have hlength := he.length_le .bicolor
  have hcount := he.count_le
  obtain ⟨-, hdistinct, hcolors⟩ := he.follows .bicolor
  simp only [Encoder.length] at hr hlength
  have hsent : e.sent .bicolor = e.bicolorCount := by
    rw [Encoder.sent]
    omega
  have horder : e.order f .bicolor = runHeader 16 0xe0 0xf8 (e.bicolorCount / 2) ++
      (pixelBytes f.bytes e.bicolor2 ++ pixelBytes f.bytes e.bicolor1) := by
    rw [Encoder.order, outBicolorCount, hsent, if_pos (by omega)]
  rw [horder]
  refine ⟨_, executes_bicolor hf.bytes_pos (by omega) (by omega) (by omega), ?_, ?_⟩
  · simp only [Decoder.wrote, begun_position, length_pixels]
    omega
  intro hshows
  have hfirst := congrArg (·[0]?) hshows.eq_pixels
  have h₁ := hcolors 0 (by omega)
  have h₂ := hcolors 1 (by omega)
  have hvisible : visible f.bytes e.bicolor2 = e.bicolor2 := by
    rw [if_neg (by decide)] at h₂
    exact visible_of_lt (h₂ ▸ himg _)
  have hpixel : e.bicolor2 = e.bicolor1 := by
    rw [if_pos rfl, Nat.add_zero, ← hpos] at h₁
    have hlen : 0 < e.bicolorCount / 2 * 2 := by omega
    simpa [pixels, hlen, hvisible, h₁] using hfirst
  exact hdistinct (by omega) hpixel.symm

/-- A clean flush is executed, and the decoder has come as far as the encoder; any other flush
leaves a wrong pixel behind. -/
theorem inSync_flushRun {d₀ : Decoder} {r : Run} (hw : 0 < w)
    (hsync : InSync f.bytes w h img d₀ e.s (k - e.count)) (hr : 3 < e.length r)
    (hflush : e.flushRun f r = some e') :
    if CleanFlush f start e r then
      ∃ d, Executes f.bytes w h d₀ e'.s d ∧ Ready f.bytes w img d ∧ d.position = k ∧
        (d.insertFgPel = true → r = .fill ∧ (k - e.fillCount < w → d.firstLine = true))
    else Broken f.bytes w h img d₀ e'.s := by
  obtain ⟨d, hexec, hd, hpos, hinsert⟩ := hsync
  have hcount := he.count_le
  have hlength := he.length_le r
  have hsent := e.sent_le r
  have hs : e'.s = e.s ++ (f.outCopyCount (e.count - e.sent r) e.temp ++ e.order f r) := by
    rw [flushRun, Encoder.flush, Option.ite_none_left_eq_some, Option.some_inj] at hflush
    rw [← hflush.2]
    rfl
  obtain ⟨d₁, hcopy, hpos₁, hcopied⟩ := executes_copied hf he hk hwh himg (Nat.sub_le _ (e.sent r))
    hd hpos
  rw [hs]
  have hexec₁ := hexec.trans hcopy
  by_cases hstart : slice e.temp.buffer (start e.temp) ((e.count - e.sent r) * f.bytes) =
      slice e.temp.buffer 0 ((e.count - e.sent r) * f.bytes)
  · rw [if_pos hstart] at hcopied
    obtain ⟨hd₁, hcopied, hnone⟩ := hcopied
    by_cases hodd : r = .bicolor → e.bicolorCount % 2 = 1
    · rw [if_pos ⟨hstart, hodd⟩]
      -- a fill run behind another order does not start with an added pixel
      have hinsert₁ : r = .fill → (d₁.watchLine w).insertFgPel = false := by
        rintro rfl
        rcases Nat.eq_zero_or_pos (e.count - e.sent .fill) with h0 | h0
        · obtain rfl := hnone h0
          by_contra hflag
          have hflag : d₁.insertFgPel = true ∧ ¬ (d₁.firstLine = true ∧ w ≤ d₁.position) := by
            unfold watchLine at hflag
            split_ifs at hflag with hline
            · exact absurd rfl hflag
            · exact ⟨by simpa using hflag, hline⟩
          apply (hinsert hflag.1).resolve_left hflag.2
          have hfill : e.sent .fill = e.fillCount := rfl
          apply he.follows .fill <;> omega
        · have hflag := hcopied h0
          unfold watchLine
          split_ifs
          · rfl
          · exact hflag
      have hpos₁' : d₁.position = k - e.sent r := by omega
      have horder := executes_order hf he hk hwh himg hw hr hd₁ hpos₁' hinsert₁ hodd
      refine ⟨_, by rw [← List.append_assoc]; exact hexec₁.trans horder, hd₁.wrote _ _, ?_, ?_⟩
      · simp only [Decoder.wrote, begun_position, length_pixels]
        omega
      · intro hflag
        obtain rfl : r = .fill := by simpa [Decoder.wrote, begun] using hflag
        refine ⟨rfl, fun hline => ?_⟩
        have hfirst := hd₁.watched.firstLine
        have hfill : e.sent .fill = e.fillCount := rfl
        rw [watchLine_position, hpos₁', hfill, decide_eq_true hline] at hfirst
        exact hfirst
    · rw [if_neg (fun hclean => hodd hclean.2)]
      obtain ⟨rfl, heven⟩ := Classical.not_imp.1 hodd
      have hsent : e.sent .bicolor = e.bicolorCount := by
        rw [Encoder.sent]
        omega
      obtain ⟨d₂, horder, hbound, hwrong⟩ := executes_even_bicolor (d := d₁) hf he hk hwh himg hr
        (by omega) heven
      refine ⟨_, [], d₂, (List.append_nil _).symm, ?_, hbound, hwrong⟩
      rw [← List.append_assoc]
      exact hexec₁.trans horder
  · rw [if_neg (fun hclean => hstart hclean.1)]
    rw [if_neg hstart] at hcopied
    exact ⟨_, e.order f r, d₁, (List.append_assoc _ _ _).symm, hexec₁, by omega, hcopied⟩

end Flush

end FreeRDP.Interleaved
