import FreeRDP.Interleaved.Equiv.Orders
import Mathlib.Data.List.GetD

/-!
# The runs of the encoder

The encoder is a sequence of actions on its state: it tests a run against a pixel, counts a pixel,
or ends a run with the first line.  `Tracks` is the invariant of these actions: the five runs say
the truth about the pixels counted so far (`Follows`), and the temporary stream holds those that
have not been sent.
-/

namespace FreeRDP.Interleaved

open ForwardCopy

/-! ### Actions -/

/-- The actions of the encoder: a run breaks unless a pixel goes on with it, a pixel is counted, and
a run ends with the first line. -/
inductive Action where
  | test (firstLine : Bool) (pixel ypixel : ℕ) (r : Run)
  | count (firstLine : Bool) (pixel ypixel : ℕ)
  | finish (r : Run)

namespace Encoder

variable {f : Format} {w k : ℕ} {img : ℕ → ℕ} {e e' : Encoder} {fl : Bool}

def act (f : Format) (e : Encoder) : Action → Option Encoder
  | .test firstLine pixel ypixel r =>
    if e.Continues f firstLine pixel ypixel r then some e else e.breakRun f pixel r
  | .count firstLine pixel ypixel => some (e.countPixel f firstLine pixel ypixel)
  | .finish r => e.breakRun f 0 r

def flushed (f : Format) (e : Encoder) : Action → Option Run
  | .test firstLine pixel ypixel r =>
    if ¬ e.Continues f firstLine pixel ypixel r ∧ e.Wins r then some r else none
  | .count _ _ _ => none
  | .finish r => if e.Wins r then some r else none

def acts (f : Format) : List Action → Encoder → Option Encoder
  | [], e => some e
  | a :: as, e => (e.act f a).bind (acts f as)

theorem acts_append (as bs : List Action) (e : Encoder) :
    acts f (as ++ bs) e = (acts f as e).bind (acts f bs) := by
  induction as generalizing e with
  | nil => rfl
  | cons a as ih =>
    rw [List.cons_append, acts, acts, Option.bind_assoc]
    congr 1
    funext e
    exact ih e

/-- The states in which the actions flush a run, and the run. -/
def log (f : Format) : List Action → Encoder → List (Encoder × Run)
  | [], _ => []
  | a :: as, e =>
    ((e.flushed f a).map fun r => (e, r)).toList ++ (e.act f a).elim [] (log f as)

/-- The states in which a run is flushed, and the run, with the last order. -/
def flushes (f : Format) (as : List Action) (e : Encoder) : List (Encoder × Run) :=
  log f as e ++ (acts f as e).elim [] fun e =>
    ((runs.find? fun r => e.Wins r).map fun r => (e.rewind, r)).toList

theorem log_append (as bs : List Action) (e : Encoder) :
    log f (as ++ bs) e = log f as e ++ (acts f as e).elim [] (log f bs) := by
  induction as generalizing e with
  | nil => rfl
  | cons a as ih =>
    rw [List.cons_append, log, log, acts, List.append_assoc]
    congr 1
    cases e.act f a with
    | none => rfl
    | some e => exact ih e

def pixelActions (firstLine : Bool) (p : ℕ × ℕ) : List Action :=
  runs.map (.test firstLine p.1 p.2) ++ [.count firstLine p.1 p.2]

/-- The actions on a line, given the line above. -/
def lineActions (width : ℕ) (lastLine : Option (List ℕ)) (line : List ℕ) : List Action :=
  (line.zip (lastLine.getD (List.replicate width 0))).flatMap (pixelActions lastLine.isNone) ++
    if lastLine.isNone then [.finish .fill, .finish .mix, .finish .fom] else []

/-- The actions on lines, given the line above them. -/
def imageActions (width : ℕ) : Option (List ℕ) → List (List ℕ) → List Action
  | _, [] => []
  | lastLine, line :: lines => lineActions width lastLine line ++ imageActions width (some line) lines

/-- The pixels of the first line come with black above them. -/
theorem zip_firstLine (w : ℕ) (img : ℕ → ℕ) :
    (pixels img 0 w).zip (List.replicate w 0) =
      (List.range w).map fun i => (img (0 + i), aboveOf w img (0 + i)) := by
  have habove : List.replicate w 0 = (List.range w).map fun i => aboveOf w img (0 + i) := by
    apply List.ext_getElem (by simp)
    intro i hi _
    have hi : i < w := by simpa using hi
    simp [aboveOf, hi]
  rw [habove, pixels, List.zip_map']

/-- The pixels of another line come with those of the line before. -/
theorem zip_line (w : ℕ) (img : ℕ → ℕ) (i : ℕ) :
    (pixels img ((i + 1) * w) w).zip (pixels img (i * w) w) =
      (List.range w).map fun j => (img ((i + 1) * w + j), aboveOf w img ((i + 1) * w + j)) := by
  rw [pixels, pixels, List.zip_map']
  apply List.map_congr_left
  intro j _
  have hsucc : (i + 1) * w = i * w + w := Nat.succ_mul i w
  rw [aboveOf, if_neg (by omega), show (i + 1) * w + j - w = i * w + j by omega]

theorem breakRuns_eq_acts (pixel ypixel : ℕ) (rs : List Run) (e : Encoder) :
    breakRuns f fl pixel ypixel rs e = acts f (rs.map (.test fl pixel ypixel)) e := by
  induction rs generalizing e with
  | nil => rfl
  | cons r rs ih =>
    rw [breakRuns, List.map_cons, acts, act]
    split_ifs
    · exact ih e
    · congr 1
      funext e
      exact ih e

theorem addLine_eq_acts (ps : List (ℕ × ℕ)) (e : Encoder) :
    addLine f fl ps e = acts f (ps.flatMap (pixelActions fl)) e := by
  induction ps generalizing e with
  | nil => rfl
  | cons p ps ih =>
    have hpixel : e.addPixel f fl p = acts f (pixelActions fl p) e := by
      rw [addPixel, breakRuns_eq_acts, pixelActions, acts_append]
      exact Option.map_eq_bind
    rw [addLine, List.flatMap_cons, acts_append, hpixel]
    congr 1
    funext e
    exact ih e

theorem endRuns_eq_acts (rs : List Run) (e : Encoder) :
    endRuns f rs e = acts f (rs.map .finish) e := by
  induction rs generalizing e with
  | nil => rfl
  | cons r rs ih =>
    rw [endRuns, List.map_cons, acts, act]
    congr 1
    funext e
    exact ih e

theorem sendLine_eq_acts (width : ℕ) (lastLine : Option (List ℕ)) (line : List ℕ) (e : Encoder) :
    sendLine f width lastLine line e = acts f (lineActions width lastLine line) e := by
  rw [sendLine, lineActions, acts_append, addLine_eq_acts]
  congr 1
  funext e
  split_ifs
  · exact endRuns_eq_acts [.fill, .mix, .fom] e
  · rfl

/-- When every line has been sent, the encoder has run through the actions on all of them. -/
theorem acts_of_addLines {width byteLimit outCount sent n : ℕ} {lines : List (List ℕ)}
    {lastLine : Option (List ℕ)}
    (h : addLines f width byteLimit lines lastLine outCount sent e = some (n, e'))
    (hn : n = sent + lines.length) :
    acts f (imageActions width lastLine lines) e = some e' := by
  induction lines generalizing lastLine outCount sent e with
  | nil =>
    rw [addLines, Option.some_inj, Prod.mk.injEq] at h
    rw [imageActions, acts, h.2]
  | cons line lines ih =>
    rw [addLines] at h
    split_ifs at h with hstop
    · -- the loop is left before its last line
      rw [Option.some_inj, Prod.mk.injEq] at h
      rw [List.length_cons] at hn
      omega
    · rw [Option.bind_eq_some_iff] at h
      obtain ⟨e₁, hline, hrest⟩ := h
      rw [imageActions, acts_append, ← sendLine_eq_acts, hline, Option.bind_some]
      apply ih hrest
      rw [hn, List.length_cons]
      omega

/-! ### Masks -/

/-- The bit of a mask for pixel `i` of its run. -/
def maskBit (mask : List UInt8) (i : ℕ) : Bool := (mask.getD (i / 8) 0).toNat.testBit (i % 8)

theorem length_setLastBit (mask : List UInt8) (j : ℕ) (h : mask ≠ []) :
    (setLastBit mask j).length = mask.length := by
  have := List.length_pos_iff.2 h
  rw [setLastBit, List.length_append, List.length_dropLast, List.length_singleton]
  omega

theorem maskBit_append_zero (mask : List UInt8) (i : ℕ) :
    maskBit (mask ++ [0]) i = maskBit mask i := by
  unfold maskBit
  rcases Nat.lt_trichotomy (i / 8) mask.length with hlt | heq | hgt
  · rw [List.getD_append _ _ _ _ hlt]
  · simp [heq]
  · rw [List.getD_eq_default _ _ (by simp; omega), List.getD_eq_default _ _ hgt.le]

theorem maskBit_setLastBit {mask : List UInt8} {m j : ℕ} (hlen : mask.length = m + 1) (hj : j < 8)
    (i : ℕ) :
    maskBit (setLastBit mask j) i = (decide (i = 8 * m + j) || maskBit mask i) := by
  have hne : mask ≠ [] := List.ne_nil_of_length_eq_add_one hlen
  have hinit : mask.dropLast.length = m := by rw [List.length_dropLast, hlen]; rfl
  have hlast : mask.getD m 0 = mask.getLastD 0 := by
    rw [List.getLastD_eq_getLast?, List.getLast?_eq_getElem?, hlen, List.getD_eq_getElem?_getD,
      Nat.add_sub_cancel]
  unfold maskBit setLastBit
  rcases Nat.lt_trichotomy (i / 8) m with hlt | heq | hgt
  · -- a byte before the last one
    rw [List.getD_append _ _ _ _ (by omega), decide_eq_false (by omega), Bool.false_or]
    congr 2
    conv => rhs; rw [← List.dropLast_concat_getLast hne]
    rw [List.getD_append _ _ _ _ (by omega)]
  · -- the last byte
    rw [heq, List.getD_append_right _ _ _ _ (by omega), hinit, Nat.sub_self, hlast]
    have hbyte : (mask.getLastD 0).toNat < 2 ^ 8 := UInt8.toNat_lt _
    rw [List.getD_cons_zero, UInt8.toNat_ofNat', Nat.testBit_mod_two_pow, Nat.testBit_or,
      Nat.one_shiftLeft, Nat.testBit_two_pow]
    rw [decide_eq_true (Nat.mod_lt i (by decide : 0 < 8)), Bool.true_and, Bool.or_comm]
    congr 1
    apply decide_eq_decide.2
    omega
  · rw [List.getD_eq_default _ _ (by simp [hinit]; omega), decide_eq_false (by omega),
      List.getD_eq_default _ _ (by omega), Bool.false_or]

/-- The mask of a run of `fomCount` pixels: as many bytes as it takes, and no bit behind them. -/
structure MaskOf (n : ℕ) (mask : List UInt8) : Prop where
  length : mask.length = (n + 7) / 8
  clear : ∀ i, n ≤ i → maskBit mask i = false

theorem maskOf_nextMask (he : MaskOf e.fomCount e.fomMask) (mixed : Bool) :
    MaskOf (e.fomCount + 1) (e.nextMask mixed) ∧
      ∀ i, maskBit (e.nextMask mixed) i =
        if i = e.fomCount then mixed else maskBit e.fomMask i := by
  -- the mask with room for the new bit
  obtain ⟨mask, hmask, hlen, hbit⟩ : ∃ mask : List UInt8,
      (if e.fomCount % 8 = 0 then e.fomMask ++ [0] else e.fomMask) = mask ∧
      mask.length = e.fomCount / 8 + 1 ∧ ∀ i, maskBit mask i = maskBit e.fomMask i := by
    refine ⟨_, rfl, ?_, ?_⟩
    · have := he.length
      split_ifs
      · rw [List.length_append, List.length_singleton]
        omega
      · omega
    · intro i
      split_ifs
      · exact maskBit_append_zero _ i
      · rfl
  have hnext : e.nextMask mixed = if mixed then setLastBit mask (e.fomCount % 8) else mask := by
    rw [← hmask]
    rfl
  have hbits : ∀ i, maskBit (e.nextMask mixed) i =
      if i = e.fomCount then mixed else maskBit e.fomMask i := by
    intro i
    rw [hnext]
    cases mixed
    · simp only [Bool.false_eq_true, if_false, hbit]
      split_ifs with hi
      · exact he.clear i hi.ge
      · rfl
    · rw [if_pos rfl, maskBit_setLastBit hlen (Nat.mod_lt _ (by decide)), hbit, Nat.div_add_mod]
      by_cases hi : i = e.fomCount <;> simp [hi]
  refine ⟨⟨?_, ?_⟩, hbits⟩
  · rw [hnext]
    split_ifs
    · rw [length_setLastBit _ _ (List.ne_nil_of_length_eq_add_one hlen), hlen]
      omega
    · omega
  · intro i hi
    rw [hbits, if_neg (by omega), he.clear i (by omega)]

/-! ### What the runs say -/

/-- What a run says about the pixels before `k`. -/
def Follows (f : Format) (w : ℕ) (img : ℕ → ℕ) (k : ℕ) (e : Encoder) : Run → Prop
  | .fill => ∀ j < k, k ≤ j + e.fillCount → img j = aboveOf w img j
  | .mix => ∀ j < k, k ≤ j + e.mixCount → img j = aboveOf w img j ^^^ f.mix
  | .color => ∀ j < k, k ≤ j + e.colorCount → img j = e.lastPixel
  | .bicolor =>
    e.bicolorSpin = decide (e.bicolorCount % 2 = 1) ∧
      (0 < e.bicolorCount → e.bicolor1 ≠ e.bicolor2) ∧
      ∀ i < e.bicolorCount,
        img (k - e.bicolorCount + i) = if i % 2 = 0 then e.bicolor1 else e.bicolor2
  | .fom =>
    MaskOf e.fomCount e.fomMask ∧
      ∀ i < e.fomCount, img (k - e.fomCount + i) = if maskBit e.fomMask i then
        aboveOf w img (k - e.fomCount + i) ^^^ f.mix else aboveOf w img (k - e.fomCount + i)

/-- The state after `k` pixels; `firstLine` tells whether the loop is in the first line. -/
structure Tracks (f : Format) (w : ℕ) (img : ℕ → ℕ) (firstLine : Bool) (k : ℕ) (e : Encoder) :
    Prop where
  count_le : e.count ≤ k
  inFirst : firstLine = true → k ≤ w
  behindFirst : firstLine = false → ∀ r ∈ [Run.fill, .mix, .fom], w + e.length r ≤ k
  length_le : ∀ r, e.length r ≤ e.count
  pending : slice e.temp.buffer 0 (e.count * f.bytes) =
    (pixels img (k - e.count) e.count).flatMap (pixelBytes f.bytes)
  lastPixel : 0 < k → e.lastPixel = img (k - 1)
  follows : ∀ r, e.Follows f w img k r

/-- The temporary stream stands behind the pending pixels. -/
def Placed (f : Format) (e : Encoder) : Prop := e.temp.position = e.count * f.bytes

/-- A run of no pixels says nothing. -/
theorem follows_of_length_eq_zero {r : Run} (h0 : e.length r = 0)
    (hspin : r = .bicolor → e.bicolorSpin = false) (hmask : r = .fom → e.fomMask = []) :
    e.Follows f w img k r := by
  cases r with
  | fill | mix | color =>
    simp only [length] at h0
    intro j hj hjk
    omega
  | bicolor =>
    simp only [length] at h0
    refine ⟨by rw [hspin rfl, h0]; rfl, by omega, by omega⟩
  | fom =>
    simp only [length] at h0
    refine ⟨⟨by rw [hmask rfl, h0]; rfl, fun i _ => ?_⟩, by omega⟩
    simp [hmask rfl, maskBit]

theorem tracks_start (temp : TempStream) :
    Tracks f w img true 0 (start temp) where
  count_le := Nat.le_refl 0
  inFirst _ := Nat.zero_le w
  behindFirst h := by simp at h
  length_le r := by cases r <;> exact Nat.le_refl 0
  pending := by simp [start, slice, pixels]
  lastPixel h := absurd h (Nat.lt_irrefl 0)
  follows r := by
    apply follows_of_length_eq_zero
    · cases r <;> rfl
    · exact fun _ => rfl
    · exact fun _ => rfl

/-- A flush sends everything: no run goes on behind it. -/
theorem Tracks.flush (he : Tracks f w img fl k e) {n : ℕ} {run : List UInt8}
    (h : e.flush f n run = some e') : Tracks f w img fl k e' := by
  rw [Encoder.flush, Option.ite_none_left_eq_some, Option.some_inj] at h
  obtain ⟨-, rfl⟩ := h
  refine ⟨Nat.zero_le k, he.inFirst, ?_, ?_, ?_, he.lastPixel, ?_⟩
  · intro hfl r hr
    have := he.behindFirst hfl r hr
    cases r <;> simp only [Encoder.length, resetCounts] <;> omega
  · intro r
    cases r <;> exact Nat.le_refl 0
  · simp [slice, pixels, resetCounts]
  · intro r
    apply follows_of_length_eq_zero
    · cases r <;> rfl
    · exact fun _ => rfl
    · exact fun _ => rfl

theorem length_clear (pixel : ℕ) (e : Encoder) (r r' : Run) :
    (e.clear pixel r).length r' = if r' = r then 0 else e.length r' := by
  cases r <;> cases r' <;> rfl

theorem follows_clear (he : ∀ r, e.Follows f w img k r) (pixel : ℕ) (r r' : Run) :
    (e.clear pixel r).Follows f w img k r' := by
  by_cases hr : r' = r
  · apply follows_of_length_eq_zero
    · rw [length_clear, if_pos hr]
    · rintro rfl
      rw [← hr]
      rfl
    · rintro rfl
      rw [← hr]
      rfl
  · -- the fields that the other run reads are as they were
    have hother := he r'
    cases r <;> cases r' <;> first | exact hother | exact absurd rfl hr

theorem Tracks.clear (he : Tracks f w img fl k e) (pixel : ℕ) (r : Run) :
    Tracks f w img fl k (e.clear pixel r) := by
  have hcount : (e.clear pixel r).count = e.count := by cases r <;> rfl
  have htemp : (e.clear pixel r).temp = e.temp := by cases r <;> rfl
  have hlast : (e.clear pixel r).lastPixel = e.lastPixel := by cases r <;> rfl
  refine ⟨hcount ▸ he.count_le, he.inFirst, ?_, ?_, ?_, ?_, follows_clear he.follows pixel r⟩
  · intro hfl r' hr'
    have := he.behindFirst hfl r' hr'
    rw [length_clear]
    split_ifs <;> omega
  · intro r'
    have := he.length_le r'
    rw [length_clear, hcount]
    split_ifs <;> omega
  · rw [htemp, hcount, he.pending]
  · rw [hlast]
    exact he.lastPixel

theorem Placed.breakRun (he : e.Placed f) {pixel : ℕ} {r : Run}
    (h : e.breakRun f pixel r = some e') : e'.Placed f := by
  rw [Encoder.breakRun, Option.map_eq_some_iff] at h
  obtain ⟨e₁, h₁, rfl⟩ := h
  have hplace : e₁.Placed f := by
    split_ifs at h₁
    · rw [flushRun, Encoder.flush, Option.ite_none_left_eq_some, Option.some_inj] at h₁
      rw [← h₁.2]
      exact (Nat.zero_mul _).symm
    · rw [Option.some_inj] at h₁
      exact h₁ ▸ he
  cases r <;> exact hplace

theorem Tracks.breakRun (he : Tracks f w img fl k e) {pixel : ℕ} {r : Run}
    (h : e.breakRun f pixel r = some e') : Tracks f w img fl k e' := by
  rw [Encoder.breakRun, Option.map_eq_some_iff] at h
  obtain ⟨e₁, h₁, rfl⟩ := h
  apply Tracks.clear
  split_ifs at h₁
  · exact he.flush h₁
  · rw [Option.some_inj] at h₁
    exact h₁ ▸ he

/-- Each run of the list goes on with the pixel or has been started again. -/
def Settled (f : Format) (firstLine : Bool) (pixel ypixel : ℕ) (rs : List Run) (e : Encoder) :
    Prop :=
  ∀ r ∈ rs, e.Continues f firstLine pixel ypixel r ∨ e.length r = 0

theorem length_flush {n : ℕ} {run : List UInt8} (h : e.flush f n run = some e') (r : Run) :
    e'.length r = 0 := by
  rw [Encoder.flush, Option.ite_none_left_eq_some, Option.some_inj] at h
  obtain ⟨-, rfl⟩ := h
  cases r <;> rfl

theorem length_breakRun_self {pixel : ℕ} {r : Run} (h : e.breakRun f pixel r = some e') :
    e'.length r = 0 := by
  rw [Encoder.breakRun, Option.map_eq_some_iff] at h
  obtain ⟨e₁, -, rfl⟩ := h
  rw [length_clear, if_pos rfl]

theorem length_breakRun_of_zero {pixel : ℕ} {r r' : Run} (h : e.breakRun f pixel r = some e')
    (hzero : e.length r' = 0) : e'.length r' = 0 := by
  rw [Encoder.breakRun, Option.map_eq_some_iff] at h
  obtain ⟨e₁, h₁, rfl⟩ := h
  have hzero₁ : e₁.length r' = 0 := by
    split_ifs at h₁
    · exact length_flush h₁ r'
    · rw [Option.some_inj] at h₁
      exact h₁ ▸ hzero
  rw [length_clear, hzero₁, ite_self]

theorem Settled.test {pixel ypixel : ℕ} {rs : List Run} {r : Run}
    (hs : e.Settled f fl pixel ypixel rs) (h : e.act f (.test fl pixel ypixel r) = some e') :
    e'.Settled f fl pixel ypixel (r :: rs) := by
  rw [act] at h
  split_ifs at h with hc
  · rw [Option.some_inj] at h
    subst h
    intro r' hr'
    rcases List.mem_cons.1 hr' with rfl | hmem
    · exact .inl hc
    · exact hs r' hmem
  · rw [Encoder.breakRun, Option.map_eq_some_iff] at h
    obtain ⟨e₁, h₁, rfl⟩ := h
    intro r' hr'
    by_cases heq : r' = r
    · right
      rw [length_clear, if_pos heq]
    · have hmem : r' ∈ rs := (List.mem_cons.1 hr').resolve_left heq
      rw [length_clear, if_neg heq]
      split_ifs at h₁
      · exact .inr (length_flush h₁ r')
      · rw [Option.some_inj] at h₁
        subst h₁
        rcases hs r' hmem with hgoes | hzero
        · left
          cases r <;> cases r' <;> first | exact hgoes | exact absurd rfl heq
        · exact .inr hzero

/-! ### One more pixel -/

theorem testFill_iff {pixel ypixel : ℕ} (hy : fl = true → ypixel = 0) :
    TestFill fl pixel ypixel ↔ pixel = ypixel := by
  unfold TestFill
  cases fl <;> simp_all

theorem testMix_iff {mix pixel ypixel : ℕ} (hy : fl = true → ypixel = 0) :
    TestMix mix fl pixel ypixel ↔ pixel = ypixel ^^^ mix := by
  unfold TestMix
  cases fl <;> simp_all

theorem length_countPixel (pixel ypixel : ℕ) (r : Run) :
    (e.countPixel f fl pixel ypixel).length r =
      if e.Continues f fl pixel ypixel r then e.length r + 1 else e.length r := by
  cases r <;> rfl

/-- What holds of the last `n` pixels holds of one more, if it holds of the pixel that goes on. -/
theorem forall_last_succ {P : ℕ → Prop} {goes : Prop} [Decidable goes] {n : ℕ} (hgoes : goes → P k)
    (hzero : goes ∨ n = 0) (h : ∀ j < k, k ≤ j + n → P j) :
    ∀ j < k + 1, k + 1 ≤ j + (if goes then n + 1 else n) → P j := by
  intro j hj hjk
  split_ifs at hjk with hc
  · rcases Nat.lt_succ_iff_lt_or_eq.1 hj with hlt | rfl
    · exact h j hlt (by omega)
    · exact hgoes hc
  · have := hzero.resolve_left hc
    omega

section CountPixel

variable (hs : e.Settled f fl (img k) (aboveOf w img k) runs)
  (hy : fl = true → aboveOf w img k = 0)

include hs hy

theorem follows_fill_countPixel (he : e.Follows f w img k .fill) :
    (e.countPixel f fl (img k) (aboveOf w img k)).Follows f w img (k + 1) .fill :=
  forall_last_succ (testFill_iff hy).1 (hs .fill (by decide)) he

theorem follows_mix_countPixel (he : e.Follows f w img k .mix) :
    (e.countPixel f fl (img k) (aboveOf w img k)).Follows f w img (k + 1) .mix :=
  forall_last_succ (testMix_iff hy).1 (hs .mix (by decide)) he

theorem follows_fom_countPixel (he : e.Follows f w img k .fom) (hle : e.fomCount ≤ k) :
    (e.countPixel f fl (img k) (aboveOf w img k)).Follows f w img (k + 1) .fom := by
  have hgoes : e.Continues f fl (img k) (aboveOf w img k) .fom ↔
      img k = aboveOf w img k ∨ img k = aboveOf w img k ^^^ f.mix :=
    or_congr (testFill_iff hy) (testMix_iff hy)
  have hzero := hs .fom (by decide)
  simp only [length] at hzero
  simp only [Follows, countPixel] at he ⊢
  split_ifs with hc
  · obtain ⟨hmask, hbits⟩ := maskOf_nextMask he.1 (decide (img k = aboveOf w img k ^^^ f.mix))
    refine ⟨hmask, fun i hi => ?_⟩
    have hbit := hbits i
    rw [Nat.add_sub_add_right]
    rcases Nat.lt_succ_iff_lt_or_eq.1 hi with hlt | rfl
    · rw [if_neg (by omega)] at hbit
      rw [hbit]
      exact he.2 i hlt
    · rw [if_pos rfl] at hbit
      rw [hbit, Nat.sub_add_cancel hle]
      split_ifs with hmix
      · simpa using hmix
      · exact (hgoes.1 hc).resolve_right (by simpa using hmix)
  · have h0 := hzero.resolve_left hc
    refine ⟨he.1, fun i hi => ?_⟩
    omega

end CountPixel

theorem follows_color_countPixel {ypixel : ℕ} (hs : e.Settled f fl (img k) ypixel runs)
    (he : e.Follows f w img k .color) :
    (e.countPixel f fl (img k) ypixel).Follows f w img (k + 1) .color := by
  have hzero := hs .color (by decide)
  simp only [length] at hzero
  simp only [Follows, countPixel] at he ⊢
  intro j hj hjk
  rcases Nat.lt_succ_iff_lt_or_eq.1 hj with hlt | rfl
  · split_ifs at hjk with hc
    · have hlast : img k = e.lastPixel := hc
      rw [he j hlt (by omega), hlast]
    · have := hzero.resolve_left hc
      omega
  · rfl

theorem follows_bicolor_countPixel {ypixel : ℕ} (hs : e.Settled f fl (img k) ypixel runs)
    (he : e.Follows f w img k .bicolor) (hle : e.bicolorCount ≤ k) :
    (e.countPixel f fl (img k) ypixel).Follows f w img (k + 1) .bicolor := by
  have hzero := hs .bicolor (by decide)
  simp only [length] at hzero
  simp only [Follows, countPixel] at he ⊢
  obtain ⟨hspin, hdistinct, hcolors⟩ := he
  split_ifs with hc
  · obtain ⟨hne, hnext⟩ := hc
    -- the pixel is the one whose turn it is
    have hpixel : img k = if e.bicolorCount % 2 = 0 then e.bicolor1 else e.bicolor2 := by
      rcases hnext with ⟨hs, hp, -⟩ | ⟨hs, hp, -⟩
      · rw [hspin, decide_eq_false_iff_not] at hs
        rw [if_pos (by omega), hp]
      · rw [hspin, decide_eq_true_iff] at hs
        rw [if_neg (by omega), hp]
    refine ⟨?_, fun _ => ?_, fun i hi => ?_⟩
    · rw [hspin, ← decide_not]
      apply decide_eq_decide.2
      omega
    · rcases hnext with ⟨-, hp, hl⟩ | ⟨-, hp, hl⟩
      · rw [← hp, ← hl]
        exact hne
      · rw [← hp, ← hl]
        exact hne.symm
    · rw [Nat.add_sub_add_right]
      rcases Nat.lt_succ_iff_lt_or_eq.1 hi with hlt | rfl
      · exact hcolors i hlt
      · rw [Nat.sub_add_cancel hle, hpixel]
  · have h0 := hzero.resolve_left hc
    refine ⟨hspin, hdistinct, fun i hi => ?_⟩
    omega

/-- What is stored behind the first `n` bytes of a buffer is read behind them. -/
theorem slice_store (buffer : ℕ → UInt8) (n : ℕ) (l : List UInt8) :
    slice (store buffer n l) 0 (n + l.length) = slice buffer 0 n ++ l := by
  simpa [slice] using map_range_store buffer n l

theorem Tracks.countPixel (he : Tracks f w img fl k e) (hplace : e.Placed f)
    (hs : e.Settled f fl (img k) (aboveOf w img k) runs) (hfirst : fl = true → k < w) :
    Tracks f w img fl (k + 1) (e.countPixel f fl (img k) (aboveOf w img k)) := by
  have hy : fl = true → aboveOf w img k = 0 := fun hfl => if_pos (hfirst hfl)
  have hcount := he.count_le
  have hlength := he.length_le
  have hle : ∀ r, (e.countPixel f fl (img k) (aboveOf w img k)).length r ≤ e.length r + 1 := by
    intro r
    rw [length_countPixel]
    split_ifs <;> omega
  refine ⟨Nat.succ_le_succ hcount, hfirst, ?_, ?_, ?_, fun _ => rfl, ?_⟩
  · intro hfl r hr
    have := he.behindFirst hfl r hr
    have := hle r
    omega
  · exact fun r => (hle r).trans (Nat.succ_le_succ (hlength r))
  · have hslice := slice_store e.temp.buffer e.temp.position (pixelBytes f.bytes (img k))
    rw [length_pixelBytes, hplace] at hslice
    simp only [Encoder.countPixel]
    rw [Nat.succ_mul, hplace, hslice, he.pending, Nat.add_sub_add_right, pixels_add,
      List.flatMap_append]
    congr 1
    simp [pixels, Nat.sub_add_cancel hcount]
  · intro r
    cases r with
    | fill => exact follows_fill_countPixel hs hy (he.follows .fill)
    | mix => exact follows_mix_countPixel hs hy (he.follows .mix)
    | color => exact follows_color_countPixel hs (he.follows .color)
    | bicolor =>
      exact follows_bicolor_countPixel hs (he.follows .bicolor) ((hlength .bicolor).trans hcount)
    | fom => exact follows_fom_countPixel hs hy (he.follows .fom) ((hlength .fom).trans hcount)

theorem Placed.countPixel (he : e.Placed f) (pixel ypixel : ℕ) :
    (e.countPixel f fl pixel ypixel).Placed f := by
  unfold Placed at he ⊢
  simp only [Encoder.countPixel]
  rw [he, Nat.succ_mul]

/-- The first line is over when the runs that refer to the line above have ended. -/
theorem Tracks.endFirstLine (he : Tracks f w img true w e)
    (hzero : ∀ r ∈ [Run.fill, .mix, .fom], e.length r = 0) : Tracks f w img false w e where
  count_le := he.count_le
  inFirst h := by simp at h
  behindFirst _ r hr := by rw [hzero r hr, Nat.add_zero]
  length_le := he.length_le
  pending := he.pending
  lastPixel := he.lastPixel
  follows := he.follows

end Encoder

end FreeRDP.Interleaved
