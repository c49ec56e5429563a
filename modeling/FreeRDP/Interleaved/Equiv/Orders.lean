import FreeRDP.Interleaved.Basic
import Mathlib.Tactic.IntervalCases

/-!
# Orders, written and executed

The decoder reads one order in one round.  `Executes d l d'` says that the loop comes from `d` to
`d'` by reading exactly the bytes `l`; the lemmas `executes_…` say what each order of the encoder
does.  An order that spells its pixels writes them whatever the image is (`executes_copy`,
`executes_color`, `executes_bicolor`); the orders that refer to the line above write the pixels of
an image as soon as the decoder shows it so far (`executes_fill`, `executes_mix`, `executes_fom`).
-/

namespace FreeRDP.Interleaved

open ForwardCopy Iterate

/-! ### Pixels as bytes -/

@[simp] theorem length_pixelBytes (b p : ℕ) : (pixelBytes b p).length = b := by
  induction b generalizing p with
  | zero => rfl
  | succ b ih => rw [pixelBytes, List.length_cons, ih]

theorem pixelOf_pixelBytes (b p : ℕ) : pixelOf (pixelBytes b p) = visible b p := by
  unfold visible
  induction b generalizing p with
  | zero => simp [pixelBytes, pixelOf, Nat.mod_one]
  | succ b ih =>
    rw [pixelBytes, pixelOf, ih, UInt8.toNat_ofNat', show 8 * (b + 1) = 8 + 8 * b by omega, pow_add,
      Nat.mod_mul]

theorem pixelBytes_pixelOf (l : List UInt8) : pixelBytes l.length (pixelOf l) = l := by
  induction l with
  | nil => rfl
  | cons c l ih =>
    rw [List.length_cons, pixelBytes, pixelOf]
    congr 1
    · apply UInt8.toNat_inj.1
      rw [UInt8.toNat_ofNat', Nat.add_mul_mod_self_left]
      exact Nat.mod_eq_of_lt c.toNat_lt
    · rw [Nat.add_mul_div_left _ _ (Nat.two_pow_pos 8), Nat.div_eq_of_lt c.toNat_lt, Nat.zero_add,
        ih]

theorem visible_of_lt {b p : ℕ} (h : p < 2 ^ (8 * b)) : visible b p = p := Nat.mod_eq_of_lt h

theorem visible_lt (b p : ℕ) : visible b p < 2 ^ (8 * b) := Nat.mod_lt _ (Nat.two_pow_pos _)

/-! ### Pixels written -/

/-- The `n` pixels of an image from `k` on, line by line. -/
def pixels (img : ℕ → ℕ) (k n : ℕ) : List ℕ := (List.range n).map fun i => img (k + i)

@[simp] theorem length_pixels (img : ℕ → ℕ) (k n : ℕ) : (pixels img k n).length = n := by
  simp [pixels]

@[simp] theorem getElem_pixels (img : ℕ → ℕ) (k n : ℕ) {j : ℕ} (hj : j < (pixels img k n).length) :
    (pixels img k n)[j] = img (k + j) := by
  simp [pixels]

theorem pixels_succ (img : ℕ → ℕ) (k n : ℕ) :
    pixels img k (n + 1) = img k :: pixels img (k + 1) n := by
  simp [pixels, List.range_succ_eq_map, Function.comp_def, Nat.add_assoc, Nat.add_comm 1]

theorem pixels_add (img : ℕ → ℕ) (k m n : ℕ) :
    pixels img k (m + n) = pixels img k m ++ pixels img (k + m) n := by
  simp [pixels, List.range_add, Function.comp_def, Nat.add_assoc]

/-- The pixel above, line by line; above the first line it is black. -/
def aboveOf (w : ℕ) (img : ℕ → ℕ) (j : ℕ) : ℕ := if j < w then 0 else img (j - w)

namespace Decoder

variable {b w h : ℕ} {d d' d'' : Decoder}

/-- The decoder with the pixels `l` written. -/
def wrote (d : Decoder) (l : List ℕ) : Decoder :=
  { d with dest := store d.dest d.position l, position := d.position + l.length }

/-- The decoder with the source `src`. -/
def feed (d : Decoder) (src : List UInt8) : Decoder := { d with src := src }

theorem wrote_append (d : Decoder) (l l' : List ℕ) : (d.wrote l).wrote l' = d.wrote (l ++ l') := by
  simp only [wrote, store_append, List.length_append, Nat.add_assoc]

theorem put_eq_wrote (b : ℕ) (d : Decoder) (p : ℕ) : d.put b p = d.wrote [visible b p] := rfl

/-- A loop paints the pixels of `img` from `k` on, when it paints each of them once the ones before
it are written. -/
theorem paint_eq_wrote (img : ℕ → ℕ) (k : ℕ) (pixel : Decoder → ℕ → ℕ) (n i : ℕ) (d : Decoder)
    (hpixel : ∀ j < n, visible b (pixel (d.wrote (pixels img k j)) (i + j)) = img (k + j)) :
    paint b pixel n i d = d.wrote (pixels img k n) := by
  induction n generalizing k i d with
  | zero => rfl
  | succ n ih =>
    have hp : visible b (pixel d i) = img k := hpixel 0 (Nat.zero_lt_succ n)
    have hcons : ∀ j, (d.wrote [img k]).wrote (pixels img (k + 1) j) =
        d.wrote (pixels img k (j + 1)) := by
      intro j
      rw [wrote_append, List.singleton_append, pixels_succ]
    rw [paint, put_eq_wrote, hp, ih (k + 1), hcons]
    intro j hj
    rw [hcons, Nat.add_right_comm, Nat.add_assoc, hpixel (j + 1) (by omega), Nat.add_right_comm,
      Nat.add_assoc]

theorem paintChecked_eq_wrote {size n : ℕ} (img : ℕ → ℕ) (k : ℕ) (pixel : Decoder → ℕ → ℕ)
    (d : Decoder) (hsize : d.position + n ≤ size)
    (hpixel : ∀ j < n, visible b (pixel (d.wrote (pixels img k j)) j) = img (k + j)) :
    paintChecked b size pixel n d = .inl (d.wrote (pixels img k n)) := by
  rw [paintChecked, if_pos hsize, paint_eq_wrote img k]
  intro j hj
  rw [Nat.zero_add]
  exact hpixel j hj

/-! ### The loop over the orders -/

/-- From `d` the loop comes to `d'` by reading exactly the bytes `l`. -/
def Executes (b w h : ℕ) (d : Decoder) (l : List UInt8) (d' : Decoder) : Prop :=
  ∃ m ≤ l.length, ∀ src n,
    iterate (step b w h) (n + m) (d.feed (l ++ src)) = iterate (step b w h) n (d'.feed src)

theorem Executes.refl (d : Decoder) : Executes b w h d [] d :=
  ⟨0, Nat.le_refl 0, fun _ _ => rfl⟩

theorem Executes.trans {l l' : List UInt8} (h₁ : Executes b w h d l d')
    (h₂ : Executes b w h d' l' d'') : Executes b w h d (l ++ l') d'' := by
  obtain ⟨m, hm, h₁⟩ := h₁
  obtain ⟨m', hm', h₂⟩ := h₂
  refine ⟨m' + m, by rw [List.length_append]; omega, ?_⟩
  intro src n
  rw [← Nat.add_assoc, List.append_assoc, h₁, h₂]

theorem Executes.of_step {l : List UInt8} (hl : l ≠ [])
    (hstep : ∀ src, step b w h (d.feed (l ++ src)) = .inl (d'.feed src)) :
    Executes b w h d l d' :=
  ⟨1, List.length_pos_iff.2 hl, fun src n => iterate_inl (hstep src) n⟩

/-! ### Headers -/

/-- The bytes `l` are the header of an order with the code `code` and the run length `n`. -/
structure Header (code n : ℕ) (l : List UInt8) : Prop where
  codeId : l.head?.map (fun c => extractCodeId c.toNat) = some code
  runLength : ∀ src, extractRunLength code (l ++ src) = some (n, l.length)

theorem Header.ne_nil {code n : ℕ} {l : List UInt8} (hl : Header code n l) : l ≠ [] := by
  rintro rfl
  have := hl.codeId
  simp at this

theorem step_of_header {code n : ℕ} {l : List UInt8} (hl : Header code n l) (src : List UInt8)
    (d : Decoder) :
    step b w h (d.feed (l ++ src)) = ((d.watchLine w).feed (l ++ src)).order b w (w * h) code := by
  have hwatch : (d.feed (l ++ src)).watchLine w = (d.watchLine w).feed (l ++ src) := by
    unfold watchLine feed
    split <;> rfl
  obtain ⟨c, tl, rfl⟩ := List.exists_cons_of_ne_nil hl.ne_nil
  have hcode : extractCodeId c.toNat = code := by simpa using hl.codeId
  rw [← hwatch, ← hcode]
  rfl

theorem readRun_of_header {code n : ℕ} {l : List UInt8} (hl : Header code n l) (src : List UInt8)
    (d : Decoder) (next : ℕ → Decoder → Round) :
    readRun code (d.feed (l ++ src)) next = next n (d.feed src) := by
  unfold readRun
  rw [show (d.feed (l ++ src)).src = l ++ src from rfl, hl.runLength]
  simp [feed]

theorem readPixel_of_bytes (p : ℕ) (hb : 0 < b) (src : List UInt8) (d : Decoder)
    (next : ℕ → Decoder → Round) :
    readPixel b (d.feed (pixelBytes b p ++ src)) next = next (visible b p) (d.feed src) := by
  have hlen : (pixelBytes b p ++ src).length = b + src.length := by simp
  have hne : pixelBytes b p ++ src ≠ [] := by
    apply List.ne_nil_of_length_pos
    omega
  unfold readPixel
  rw [show (d.feed (pixelBytes b p ++ src)).src = pixelBytes b p ++ src from rfl, if_neg hne,
    if_neg (by omega), List.take_left' (length_pixelBytes b p),
    List.drop_left' (length_pixelBytes b p), pixelOf_pixelBytes]
  rfl

/-- The codes of the runs: the number of lengths that the short code holds, the bits of the code in
the header, and the two codes that the decoder knows. -/
def runCodes : List (ℕ × ℕ × ℕ × ℕ) :=
  [(32, 0x00, REGULAR_BG_RUN, MEGA_MEGA_BG_RUN), (32, 0x20, REGULAR_FG_RUN, MEGA_MEGA_FG_RUN),
    (32, 0x60, REGULAR_COLOR_RUN, MEGA_MEGA_COLOR_RUN),
    (32, 0x80, REGULAR_COLOR_IMAGE, MEGA_MEGA_COLOR_IMAGE),
    (16, 0xe0, LITE_DITHERED_RUN, MEGA_MEGA_DITHERED_RUN)]

section RunCodes

variable {limit bits code mega n : ℕ}

theorem mem_runCodes_iff : (limit, bits, code, mega) ∈ runCodes ↔
    (limit = 32 ∧ bits = 0x00 ∧ code = REGULAR_BG_RUN ∧ mega = MEGA_MEGA_BG_RUN) ∨
    (limit = 32 ∧ bits = 0x20 ∧ code = REGULAR_FG_RUN ∧ mega = MEGA_MEGA_FG_RUN) ∨
    (limit = 32 ∧ bits = 0x60 ∧ code = REGULAR_COLOR_RUN ∧ mega = MEGA_MEGA_COLOR_RUN) ∨
    (limit = 32 ∧ bits = 0x80 ∧ code = REGULAR_COLOR_IMAGE ∧ mega = MEGA_MEGA_COLOR_IMAGE) ∨
    (limit = 16 ∧ bits = 0xe0 ∧ code = LITE_DITHERED_RUN ∧ mega = MEGA_MEGA_DITHERED_RUN) := by
  simp [runCodes]

theorem header_short (hcodes : (limit, bits, code, mega) ∈ runCodes) (hn : 0 < n) (hlt : n < limit) :
    Header code n [UInt8.ofNat (bits ||| n)] := by
  obtain ⟨rfl, rfl, rfl, rfl⟩ | ⟨rfl, rfl, rfl, rfl⟩ | ⟨rfl, rfl, rfl, rfl⟩ | ⟨rfl, rfl, rfl, rfl⟩ |
    ⟨rfl, rfl, rfl, rfl⟩ := mem_runCodes_iff.1 hcodes <;>
  interval_cases n <;> exact ⟨rfl, fun _ => rfl⟩

theorem header_long (hcodes : (limit, bits, code, mega) ∈ runCodes) (c : UInt8) :
    Header code (c.toNat + limit) [UInt8.ofNat bits, c] := by
  obtain ⟨rfl, rfl, rfl, rfl⟩ | ⟨rfl, rfl, rfl, rfl⟩ | ⟨rfl, rfl, rfl, rfl⟩ | ⟨rfl, rfl, rfl, rfl⟩ |
    ⟨rfl, rfl, rfl, rfl⟩ := mem_runCodes_iff.1 hcodes <;>
  exact ⟨rfl, fun _ => rfl⟩

theorem header_mega (hcodes : (limit, bits, code, mega) ∈ runCodes) (lo hi : UInt8) :
    Header mega (lo.toNat + 2 ^ 8 * hi.toNat) [UInt8.ofNat mega, lo, hi] := by
  obtain ⟨rfl, rfl, rfl, rfl⟩ | ⟨rfl, rfl, rfl, rfl⟩ | ⟨rfl, rfl, rfl, rfl⟩ | ⟨rfl, rfl, rfl, rfl⟩ |
    ⟨rfl, rfl, rfl, rfl⟩ := mem_runCodes_iff.1 hcodes <;>
  exact ⟨rfl, fun _ => rfl⟩

/-- The header of a run is read back, whichever of its three forms the length asks for. -/
theorem header_runHeader (hcodes : (limit, bits, code, mega) ∈ runCodes) (hn : 0 < n)
    (hlt : n < 2 ^ 16) :
    Header code n (runHeader limit bits mega n) ∨ Header mega n (runHeader limit bits mega n) := by
  unfold runHeader
  split_ifs with hshort hlong
  · exact .inl (header_short hcodes hn hshort)
  · left
    have hbyte : (UInt8.ofNat (n - limit)).toNat + limit = n := by
      rw [UInt8.toNat_ofNat', Nat.mod_eq_of_lt (by omega)]
      omega
    have hheader := header_long hcodes (UInt8.ofNat (n - limit))
    rwa [hbyte] at hheader
  · right
    have hpixel := pixelOf_pixelBytes 2 n
    rw [visible_of_lt hlt] at hpixel
    simp only [pixelBytes, pixelOf, Nat.mul_zero, Nat.add_zero] at hpixel ⊢
    have hheader := header_mega hcodes (UInt8.ofNat n) (UInt8.ofNat (n / 2 ^ 8))
    rwa [hpixel] at hheader

end RunCodes

/-- The header of a fill-or-mix order is read back. -/
theorem header_fomHeader {n : ℕ} (hn : 0 < n) (hlt : n < 2 ^ 16) :
    Header REGULAR_FGBG_IMAGE n (fomHeader n) ∨ Header MEGA_MEGA_FGBG_IMAGE n (fomHeader n) := by
  unfold fomHeader
  split_ifs with hshort hlong
  · left
    obtain ⟨k, rfl⟩ := Nat.dvd_of_mod_eq_zero hshort.1
    have hk : 0 < k := by omega
    have hk' : k < 32 := by omega
    rw [Nat.mul_div_cancel_left k (by decide)]
    interval_cases k <;> exact ⟨rfl, fun _ => rfl⟩
  · left
    have hbyte : (UInt8.ofNat (n - 1)).toNat + 1 = n := by
      rw [UInt8.toNat_ofNat', Nat.mod_eq_of_lt (by omega)]
      omega
    refine ⟨rfl, fun src => ?_⟩
    conv => rhs; rw [← hbyte]
    rfl
  · right
    have hpixel := pixelOf_pixelBytes 2 n
    rw [visible_of_lt hlt] at hpixel
    refine ⟨rfl, fun src => ?_⟩
    conv => rhs; rw [← hpixel]
    rfl

/-! ### The orders that spell their pixels -/

/-- The decoder at the start of an order, with the flag that the order leaves behind. -/
def begun (w : ℕ) (insertFgPel : Bool) (d : Decoder) : Decoder :=
  { d.watchLine w with insertFgPel := insertFgPel }

@[simp] theorem watchLine_position (w : ℕ) (d : Decoder) :
    (d.watchLine w).position = d.position := by
  unfold watchLine
  split <;> rfl

@[simp] theorem watchLine_dest (w : ℕ) (d : Decoder) : (d.watchLine w).dest = d.dest := by
  unfold watchLine
  split <;> rfl

@[simp] theorem begun_position (w : ℕ) (i : Bool) (d : Decoder) :
    (d.begun w i).position = d.position := watchLine_position w d

@[simp] theorem begun_dest (w : ℕ) (i : Bool) (d : Decoder) : (d.begun w i).dest = d.dest :=
  watchLine_dest w d

theorem colorImage_bytes (hb : 0 < b) (ps : List ℕ) (src : List UInt8) (d : Decoder) :
    colorImage b ps.length (d.feed (ps.flatMap (pixelBytes b) ++ src)) =
      .inl ((d.wrote (ps.map (visible b))).feed src) := by
  induction ps generalizing d with
  | nil => rfl
  | cons p ps ih =>
    rw [List.length_cons, List.flatMap_cons, List.append_assoc, colorImage,
      readPixel_of_bytes p hb]
    have hput : (d.feed (ps.flatMap (pixelBytes b) ++ src)).put b (visible b p) =
        (d.wrote [visible b p]).feed (ps.flatMap (pixelBytes b) ++ src) := by
      rw [put_eq_wrote, visible_of_lt (visible_lt b p)]
      rfl
    simp only [hput]
    rw [ih, wrote_append]
    rfl

/-- An order with a header, read under either of its codes: what is done after its header is the
execution of the whole. -/
theorem executes_of_header {c₁ c₂ n : ℕ} {l payload : List UInt8} (next : ℕ → Decoder → Round)
    (hheader : Header c₁ n l ∨ Header c₂ n l)
    (horder : ∀ code, code = c₁ ∨ code = c₂ → ∀ d,
      order b w (w * h) code d = d.readRun code next)
    (hnext : ∀ src, next n ((d.watchLine w).feed (payload ++ src)) = .inl (d'.feed src)) :
    Executes b w h d (l ++ payload) d' := by
  obtain ⟨code, hcode, hl⟩ : ∃ code, (code = c₁ ∨ code = c₂) ∧ Header code n l := by
    rcases hheader with hl | hl
    · exact ⟨c₁, .inl rfl, hl⟩
    · exact ⟨c₂, .inr rfl, hl⟩
  apply Executes.of_step (by simp [hl.ne_nil])
  intro src
  rw [List.append_assoc, step_of_header hl, horder code hcode, readRun_of_header hl, hnext]

/-- A copy writes the pixels that its bytes spell. -/
theorem executes_copy (hb : 0 < b) {ps : List ℕ} (hne : ps ≠ []) (hlt : ps.length < 2 ^ 16)
    (hsize : d.position + ps.length ≤ w * h) :
    Executes b w h d (runHeader 32 0x80 0xf4 ps.length ++ ps.flatMap (pixelBytes b))
      ((d.begun w false).wrote (ps.map (visible b))) := by
  have hmem : (32, 0x80, REGULAR_COLOR_IMAGE, MEGA_MEGA_COLOR_IMAGE) ∈ runCodes := by decide
  apply executes_of_header
    (fun n d => if d.position + n ≤ w * h then colorImage b n { d with insertFgPel := false }
      else fail { d with insertFgPel := false })
    (header_runHeader hmem (List.length_pos_iff.2 hne) hlt)
  · rintro code (rfl | rfl) d <;> rfl
  · intro src
    rw [if_pos (by simpa [feed] using hsize)]
    exact colorImage_bytes hb ps src (d.begun w false)

/-- A colour run writes its pixel. -/
theorem executes_color (hb : 0 < b) {n p : ℕ} (hn : 0 < n) (hlt : n < 2 ^ 16)
    (hsize : d.position + n ≤ w * h) :
    Executes b w h d (runHeader 32 0x60 0xf3 n ++ pixelBytes b p)
      ((d.begun w false).wrote (pixels (fun _ => visible b p) 0 n)) := by
  have hmem : (32, 0x60, REGULAR_COLOR_RUN, MEGA_MEGA_COLOR_RUN) ∈ runCodes := by decide
  apply executes_of_header
    (fun n d => readPixel b { d with insertFgPel := false } fun pixelA d =>
      d.paintChecked b (w * h) (fun _ _ => pixelA) n) (header_runHeader hmem hn hlt)
  · rintro code (rfl | rfl) d <;> rfl
  · intro src
    refine (readPixel_of_bytes p hb src (d.begun w false) _).trans
      (paintChecked_eq_wrote (fun _ => visible b p) 0 _ _ (by simpa [feed] using hsize) ?_)
    intro j hj
    exact visible_of_lt (visible_lt b p)

/-- A two-colour run writes its pixels in turn. -/
theorem executes_bicolor (hb : 0 < b) {n p q : ℕ} (hn : 0 < n) (hlt : n < 2 ^ 16)
    (hsize : d.position + n * 2 ≤ w * h) :
    Executes b w h d (runHeader 16 0xe0 0xf8 n ++ (pixelBytes b p ++ pixelBytes b q))
      ((d.begun w false).wrote
        (pixels (fun i => visible b (if i % 2 = 0 then p else q)) 0 (n * 2))) := by
  have hmem : (16, 0xe0, LITE_DITHERED_RUN, MEGA_MEGA_DITHERED_RUN) ∈ runCodes := by decide
  apply executes_of_header
    (fun n d => readPixel b { d with insertFgPel := false } fun pixelA d =>
      d.readPixel b fun pixelB d =>
        d.paintChecked b (w * h) (fun _ i => if i % 2 = 0 then pixelA else pixelB) (n * 2))
    (header_runHeader hmem hn hlt)
  · rintro code (rfl | rfl) d <;> rfl
  · intro src
    rw [List.append_assoc]
    refine (readPixel_of_bytes p hb _ (d.begun w false) _).trans
      ((readPixel_of_bytes q hb src (d.begun w false) _).trans
        (paintChecked_eq_wrote (fun i => visible b (if i % 2 = 0 then p else q)) 0 _ _
          (by simpa [feed] using hsize) ?_))
    intro j hj
    rw [Nat.zero_add]
    split <;> exact visible_of_lt (visible_lt b _)

/-! ### The orders that refer to the line above -/

/-- The decoder shows the image as far as it has come. -/
def Shows (img : ℕ → ℕ) (d : Decoder) : Prop := ∀ j < d.position, d.dest j = img j

theorem Shows.wrote {img : ℕ → ℕ} (hd : Shows img d) (n : ℕ) :
    Shows img (d.wrote (pixels img d.position n)) := by
  intro j hj
  have hj' : j < d.position + n := by simpa [Decoder.wrote] using hj
  rcases Nat.lt_or_ge j d.position with hlt | hge
  · exact (store_of_lt _ _ hlt).trans (hd j hlt)
  · obtain ⟨i, rfl⟩ := Nat.exists_eq_add_of_le hge
    have hi : i < (pixels img d.position n).length := by
      rw [length_pixels]
      omega
    exact (store_apply _ _ _ hi).trans (getElem_pixels img d.position n hi)

/-- Between two orders, the decoder shows the image, has its first colour for the foreground, and
has not left the first line too early. -/
structure Ready (b w : ℕ) (img : ℕ → ℕ) (d : Decoder) : Prop where
  shows : Shows img d
  fgPel : d.fgPel = whitePixel b
  firstLine : d.firstLine = false → w ≤ d.position

/-- Inside an order, the decoder also knows whether the order has started in the first line. -/
structure Watched (b w : ℕ) (img : ℕ → ℕ) (d : Decoder) : Prop where
  shows : Shows img d
  fgPel : d.fgPel = whitePixel b
  firstLine : d.firstLine = decide (d.position < w)

theorem Ready.watched {img : ℕ → ℕ} (hd : Ready b w img d) : Watched b w img (d.watchLine w) := by
  have hfirst := hd.firstLine
  unfold watchLine
  split_ifs with hline
  · exact ⟨hd.shows, hd.fgPel, by simpa using hline.2⟩
  · refine ⟨hd.shows, hd.fgPel, ?_⟩
    cases hd' : d.firstLine
    · simpa using hfirst hd'
    · simpa [hd'] using hline

/-- The pixel above a run that does not cross the end of the first line. -/
theorem Watched.background_eq {img : ℕ → ℕ} (hd : Watched b w img d) (hw : 0 < w) {j : ℕ}
    (hline : d.position < w → d.position + j < w) :
    (d.wrote (pixels img d.position j)).background w = aboveOf w img (d.position + j) := by
  have hshows := hd.shows.wrote j
  unfold background above aboveOf
  rw [show (d.wrote (pixels img d.position j)).firstLine = d.firstLine from rfl, hd.firstLine]
  have hpos : (d.wrote (pixels img d.position j)).position = d.position + j := by simp [wrote]
  by_cases hlt : d.position < w
  · rw [if_pos (by simpa using hlt), if_pos (hline hlt)]
    rfl
  · rw [if_neg (by simpa using hlt), if_neg (by omega), hpos]
    apply hshows
    omega

theorem Watched.foreground_eq {img : ℕ → ℕ} (hd : Watched b w img d) (hw : 0 < w) {j : ℕ}
    (hline : d.position < w → d.position + j < w) :
    (d.wrote (pixels img d.position j)).foreground w =
      aboveOf w img (d.position + j) ^^^ whitePixel b := by
  have hback := hd.background_eq hw hline
  unfold foreground
  unfold background at hback
  rw [← hback, show (d.wrote (pixels img d.position j)).fgPel = whitePixel b from hd.fgPel]
  split
  · rw [BLACK_PIXEL, Nat.zero_xor]
  · rfl

/-- A foreground/background image takes the bits of its mask, eight pixels a byte. -/
theorem fgbgImage_eq_wrote {size : ℕ} (img : ℕ → ℕ) (src mask : List UInt8) {n : ℕ} (k : ℕ)
    (d : Decoder) (hmask : mask.length = (n + 7) / 8) (hsize : d.position + n ≤ size)
    (hpixel : ∀ j < n, visible b (fgbgPixel w (mask.getD (j / 8) 0).toNat
      (d.wrote (pixels img k j)) (j % 8)) = img (k + j)) :
    fgbgImage b w size mask.length n (d.feed (mask ++ src)) =
      .inl ((d.wrote (pixels img k n)).feed src) := by
  induction mask generalizing n k d with
  | nil =>
    rw [List.length_nil] at hmask
    obtain rfl : n = 0 := by omega
    rfl
  | cons c mask ih =>
    rw [List.length_cons] at hmask ⊢
    have hpaint : paintChecked b size (fgbgPixel w c.toNat) (min n 8) (d.feed (mask ++ src)) =
        .inl ((d.wrote (pixels img k (min n 8))).feed (mask ++ src)) := by
      apply paintChecked_eq_wrote img k
      · exact Nat.le_trans (Nat.add_le_add_left (Nat.min_le_left n 8) _) hsize
      · intro j hj
        have hj8 : j < 8 := Nat.lt_of_lt_of_le hj (Nat.min_le_right n 8)
        have hp := hpixel j (Nat.lt_of_lt_of_le hj (Nat.min_le_left n 8))
        rwa [Nat.div_eq_of_lt hj8, Nat.mod_eq_of_lt hj8] at hp
    have hround : fgbgImage b w size (mask.length + 1) n (d.feed (c :: mask ++ src)) =
        fgbgImage b w size mask.length (n - min n 8)
          ((d.wrote (pixels img k (min n 8))).feed (mask ++ src)) := by
      have hfed : paintChecked b size (fgbgPixel w c.toNat) (min n 8) { d with src := mask ++ src } =
          .inl ((d.wrote (pixels img k (min n 8))).feed (mask ++ src)) := hpaint
      rw [fgbgImage]
      dsimp only [feed, List.cons_append]
      rw [hfed]
      rfl
    rw [hround, ih (k + min n 8), wrote_append, ← pixels_add, Nat.add_sub_cancel' (by omega)]
    · omega
    · simp only [wrote, length_pixels]
      omega
    · -- a byte is left only behind eight pixels
      intro j hj
      have h8 : min n 8 = 8 := by omega
      have hp := hpixel (8 + j) (by omega)
      rw [h8, wrote_append, ← pixels_add, Nat.add_assoc, ← hp, Nat.add_mod_left,
        Nat.add_div_left j (by decide)]
      rfl

section Relative

variable {img : ℕ → ℕ} {n : ℕ} (hd : Ready b w img d) (hw : 0 < w) (hn : 0 < n) (hlt : n < 2 ^ 16)
  (hsize : d.position + n ≤ w * h) (hline : d.position < w → d.position + n ≤ w)
  (himg : ∀ j, img j < 2 ^ (8 * b))

include hd hw hn hlt hsize hline himg

/-- A background run writes pixels that are those above them, unless it adds one in front. -/
theorem executes_fill (hinsert : (d.watchLine w).insertFgPel = false)
    (hfill : ∀ j < n, img (d.position + j) = aboveOf w img (d.position + j)) :
    Executes b w h d (runHeader 32 0x00 0xf0 n)
      ((d.begun w true).wrote (pixels img d.position n)) := by
  have hmem : (32, 0x00, REGULAR_BG_RUN, MEGA_MEGA_BG_RUN) ∈ runCodes := by decide
  rw [← List.append_nil (runHeader 32 0x00 0xf0 n)]
  apply executes_of_header (fun n d => d.bgRun b w (w * h) n) (header_runHeader hmem hn hlt)
  · rintro code (rfl | rfl) d <;> rfl
  · intro src
    have hwatched : Watched b w img ((d.watchLine w).feed src) :=
      ⟨hd.watched.shows, hd.watched.fgPel, hd.watched.firstLine⟩
    have hpos : ((d.watchLine w).feed src).position = d.position := watchLine_position w d
    have hpaint := paintChecked_eq_wrote (b := b) img d.position (fun d _ => d.background w)
      ((d.watchLine w).feed src) (hpos.symm ▸ hsize) (n := n) (by
        intro j hj
        have hback := hwatched.background_eq hw (j := j) (by rw [hpos]; omega)
        rw [hpos] at hback
        rw [hback, ← hfill j hj, visible_of_lt (himg _)])
    unfold bgRun
    rw [if_neg (by simpa [feed] using hinsert), List.nil_append, hpaint]
    rfl

/-- A foreground run writes pixels that are the inverse of those above them. -/
theorem executes_mix
    (hmix : ∀ j < n, img (d.position + j) = aboveOf w img (d.position + j) ^^^ whitePixel b) :
    Executes b w h d (runHeader 32 0x20 0xf1 n)
      ((d.begun w false).wrote (pixels img d.position n)) := by
  have hmem : (32, 0x20, REGULAR_FG_RUN, MEGA_MEGA_FG_RUN) ∈ runCodes := by decide
  rw [← List.append_nil (runHeader 32 0x20 0xf1 n)]
  apply executes_of_header
    (fun n d => paintChecked b (w * h) (fun d _ => d.foreground w) n { d with insertFgPel := false })
    (header_runHeader hmem hn hlt)
  · rintro code (rfl | rfl) d <;> rfl
  · intro src
    have hwatched : Watched b w img ((d.begun w false).feed src) :=
      ⟨hd.watched.shows, hd.watched.fgPel, hd.watched.firstLine⟩
    have hpos : ((d.begun w false).feed src).position = d.position := watchLine_position w d
    apply paintChecked_eq_wrote img d.position _ ((d.begun w false).feed src) (hpos.symm ▸ hsize)
    intro j hj
    have hfore := hwatched.foreground_eq hw (j := j) (by rw [hpos]; omega)
    rw [hpos] at hfore
    rw [hfore, ← hmix j hj, visible_of_lt (himg _)]

/-- A foreground/background image writes the pixels above or their inverses, as its mask says. -/
theorem executes_fom {mask : List UInt8} (hmask : mask.length = (n + 7) / 8)
    (hbits : ∀ j < n, img (d.position + j) = if (mask.getD (j / 8) 0).toNat.testBit (j % 8) then
      aboveOf w img (d.position + j) ^^^ whitePixel b else aboveOf w img (d.position + j)) :
    Executes b w h d (fomHeader n ++ mask)
      ((d.begun w false).wrote (pixels img d.position n)) := by
  apply executes_of_header
    (fun n d => if d.src = [] then fail { d with insertFgPel := false }
      else fgbgImage b w (w * h) ((n + 7) / 8) n { d with insertFgPel := false })
    (header_fomHeader hn hlt)
  · rintro code (rfl | rfl) d <;> rfl
  · intro src
    have hne : mask ++ src ≠ [] := by
      apply List.ne_nil_of_length_pos
      rw [List.length_append]
      omega
    have hwatched : Watched b w img (d.begun w false) :=
      ⟨hd.watched.shows, hd.watched.fgPel, hd.watched.firstLine⟩
    have hpos : (d.begun w false).position = d.position := watchLine_position w d
    rw [if_neg (by simpa [feed] using hne), ← hmask]
    apply fgbgImage_eq_wrote img src mask d.position (d.begun w false) hmask (hpos.symm ▸ hsize)
    intro j hj
    have hback := hwatched.background_eq hw (j := j) (by rw [hpos]; omega)
    have hfore := hwatched.foreground_eq hw (j := j) (by rw [hpos]; omega)
    rw [hpos] at hback hfore
    rw [fgbgPixel, hback, hfore, ← hbits j hj, visible_of_lt (himg _)]

end Relative

end Decoder

end FreeRDP.Interleaved
