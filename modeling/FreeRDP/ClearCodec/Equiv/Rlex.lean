import FreeRDP.ClearCodec.Rlex
import Mathlib.Algebra.Order.Ring.Nat
import Mathlib.Data.List.Range

/-!
# What the RLEX subcodec paints

Every round of the loop paints a run of one palette entry and a suite of consecutive ones, so that a call
paints the entries of some list of indices, from pixel 0 of its tile on in raster order (`rlex_fills`).  The
number of painted pixels never passes `pixelCount`, and is equal to it when the call returns `TRUE`.

A painted pixel is written if it lies inside the destination.  A tile that sticks out is clipped
(`not_rlex_fills`), one that does not is written as a whole.
-/

namespace FreeRDP.Clear

open Traced

variable {β γ : Type}

/-- The write of a pixel, as opposed to the read of a byte. -/
def Access.isStore : Access → Bool
  | .load _ => false
  | .store _ _ _ => true

/-- The pixels that are written, in order. -/
def stores (x : Traced Access β) : List Access := x.trace.filter Access.isStore

@[simp] theorem stores_bind (x : Traced Access β) (f : β → Traced Access γ) :
    stores (x >>= f) = stores x ++ stores (f x.value) := List.filter_append _ _

namespace Rlex

variable {c : Rlex} {s : RlexState} {n k p i color : ℕ} {colors : List ℕ}

@[simp] theorem stores_loads (p n : ℕ) : stores (loads p n) = [] := by
  refine List.filter_eq_nil_iff.mpr fun a ha => ?_
  obtain ⟨i, -, rfl⟩ := List.mem_map.mp ha
  exact Bool.false_ne_true

/-! ### The tile -/

/-- The write of pixel `k` of the tile, counted in raster order. -/
def pixel (c : Rlex) (k color : ℕ) : Access :=
  .store ((c.nXDstRel + k % c.width) % 2 ^ 32) ((c.nYDstRel + k / c.width) % 2 ^ 32) color

/-- Pixel `k` of the tile is a pixel of the destination. -/
def Lands (c : Rlex) (k : ℕ) : Prop :=
  (c.nXDstRel + k % c.width) % 2 ^ 32 < c.nDstWidth ∧ (c.nYDstRel + k / c.width) % 2 ^ 32 < c.nDstHeight ∧
    writable c.dstFormat

instance (c : Rlex) (k : ℕ) : Decidable (c.Lands k) := inferInstanceAs (Decidable (_ ∧ _ ∧ _))

/-- The writes of some colours, from pixel `k` on. -/
def painted (c : Rlex) (k : ℕ) (colors : List ℕ) : List Access :=
  (colors.zipIdx k).filterMap fun p => if c.Lands p.2 then some (c.pixel p.2 p.1) else none

/-- The tile lies inside the destination, whose format is supported. -/
structure Inside (c : Rlex) : Prop where
  right : c.nXDstRel + c.width ≤ c.nDstWidth
  bottom : c.nYDstRel + c.height ≤ c.nDstHeight
  width_lt : c.nDstWidth < 2 ^ 32
  height_lt : c.nDstHeight < 2 ^ 32
  format : writable c.dstFormat

theorem painted_singleton :
    c.painted k [color] = if c.Lands k then [c.pixel k color] else [] := by
  rw [painted, List.zipIdx_singleton, List.filterMap_cons]
  dsimp only
  by_cases h : c.Lands k
  · rw [if_pos h, if_pos h, List.filterMap_nil]
  · rw [if_neg h, if_neg h, List.filterMap_nil]

theorem painted_append (as bs : List ℕ) :
    c.painted k (as ++ bs) = c.painted k as ++ c.painted (k + as.length) bs := by
  rw [painted, List.zipIdx_append, List.filterMap_append, painted, painted]

/-! ### Runs and suites -/

/-- The byte that is read lies in the stream. -/
def Readable (c : Rlex) : Access → Prop
  | .load offset => offset < c.remaining
  | .store _ _ _ => True

/-- The program paints these entries of the palette, from pixel `k` on, and reads the stream only. -/
structure Paints (c : Rlex) (k : ℕ) (x : Traced Access β) (indices : List ℕ) : Prop where
  entries : ∀ i ∈ indices, i < c.paletteCount
  stores : stores x = c.painted k (indices.map c.palette)
  reads : x.Safe c.Readable

theorem paints_pure (b : β) : c.Paints k (pure b) [] :=
  ⟨List.forall_mem_nil _, rfl, (safe_pure b).mpr trivial⟩

theorem Paints.bind {x : Traced Access β} {f : β → Traced Access γ} {is js : List ℕ}
    (hx : c.Paints k x is) (hf : c.Paints (k + is.length) (f x.value) js) :
    c.Paints k (x >>= f) (is ++ js) := by
  constructor
  · exact List.forall_mem_append.mpr ⟨hx.entries, hf.entries⟩
  · rw [stores_bind, hx.stores, hf.stores, List.map_append, painted_append, List.length_map]
  · exact (safe_bind x f).mpr ⟨hx.reads, hf.reads⟩

theorem paints_loads (h : p + n ≤ c.remaining) : c.Paints k (loads p n) [] := by
  constructor
  · exact List.forall_mem_nil _
  · exact stores_loads p n
  · intro a ha
    obtain ⟨i, hi, rfl⟩ := List.mem_map.mp ha
    have hlt := List.mem_range.mp hi
    exact (by omega : p + i < c.remaining)

/-- The state with `x` and `y` at pixel `k`. -/
def atPixel (c : Rlex) (k : ℕ) (s : RlexState) : RlexState :=
  { s with x := k % c.width, y := k / c.width }

/-- `x` and `y` are those of the pixel at `pixelIndex`. -/
def InStep (c : Rlex) (s : RlexState) : Prop := c.atPixel s.pixelIndex s = s

theorem width_pos (h : k < c.pixelCount) : 0 < c.width := by
  refine Nat.pos_of_ne_zero fun hzero => ?_
  rw [pixelCount, hzero, Nat.zero_mul] at h
  exact Nat.not_lt_zero _ h

theorem advance_atPixel (hk : k < c.pixelCount) :
    c.advance (c.atPixel k s) = c.atPixel (k + 1) s := by
  have hwidth := width_pos hk
  have hlt := Nat.mod_lt k hwidth
  have hsplit := Nat.div_add_mod k c.width
  unfold advance atPixel
  dsimp only
  by_cases hend : k % c.width + 1 ≥ c.width
  · -- the next pixel is the first of the next row
    rw [if_pos hend]
    obtain ⟨hy, hx⟩ : (k + 1) / c.width = k / c.width + 1 ∧ (k + 1) % c.width = 0 := by
      rw [Nat.div_mod_unique hwidth, Nat.mul_succ]
      omega
    rw [hx, hy]
  · rw [if_neg hend]
    obtain ⟨hy, hx⟩ : (k + 1) / c.width = k / c.width ∧ (k + 1) % c.width = k % c.width + 1 := by
      rw [Nat.div_mod_unique hwidth]
      omega
    rw [hx, hy]

theorem paints_writeColor (hi : i < c.paletteCount) :
    c.Paints k (c.writeColor (c.palette i) (c.atPixel k s)) [i] := by
  constructor
  · exact List.forall_mem_singleton.mpr hi
  · rw [List.map_singleton, painted_singleton]
    exact apply_ite _ _ _ _
  · exact safe_ite.mpr ⟨fun _ => (safe_access _).mpr trivial, fun _ => (safe_pure _).mpr trivial⟩

theorem value_put (hk : k < c.pixelCount) :
    (c.put color (c.atPixel k s)).value = c.atPixel (k + 1) s := advance_atPixel hk

theorem paints_put (hi : i < c.paletteCount) :
    c.Paints k (c.put (c.palette i) (c.atPixel k s)) [i] :=
  (paints_writeColor hi).bind (paints_pure _)

theorem putRun_spec (hi : i < c.paletteCount) (hle : k + n ≤ c.pixelCount) :
    (c.putRun (c.palette i) n (c.atPixel k s)).value = c.atPixel (k + n) s ∧
      c.Paints k (c.putRun (c.palette i) n (c.atPixel k s)) (List.replicate n i) := by
  induction n generalizing k with
  | zero => exact ⟨rfl, paints_pure _⟩
  | succ n ih =>
    obtain ⟨hvalue, hpaints⟩ := ih (k := k + 1) (by omega)
    have hput : (c.put (c.palette i) (c.atPixel k s)).value = c.atPixel (k + 1) s :=
      value_put (by omega)
    constructor
    · rw [putRun, value_bind, hput, hvalue, Nat.add_right_comm, Nat.add_assoc]
    · have hrest : c.Paints (k + 1) (c.putRun (c.palette i) n
          (c.put (c.palette i) (c.atPixel k s)).value) (List.replicate n i) := by
        rw [hput]
        exact hpaints
      exact (paints_put hi).bind hrest

/-- A suite whose entries are those of the palette is not left early. -/
theorem putSuite_spec (hcount : c.paletteCount ≤ 127) (hi : i + n ≤ c.paletteCount)
    (hle : k + n ≤ c.pixelCount) :
    (c.putSuite n i (c.atPixel k s)).value = some (c.atPixel (k + n) s) ∧
      c.Paints k (c.putSuite n i (c.atPixel k s)) (List.range' i n) := by
  induction n generalizing k i with
  | zero => exact ⟨rfl, paints_pure _⟩
  | succ n ih =>
    have hput : (c.put (c.palette i) (c.atPixel k s)).value = c.atPixel (k + 1) s :=
      value_put (by omega)
    obtain ⟨hvalue, hpaints⟩ := ih (k := k + 1) (i := i + 1) (by omega) (by omega)
    rw [putSuite, if_neg (by omega), Nat.mod_eq_of_lt (by omega)]
    constructor
    · rw [value_bind, hput, hvalue, Nat.add_right_comm, Nat.add_assoc]
    · have hrest : c.Paints (k + 1) (c.putSuite n (i + 1)
          (c.put (c.palette i) (c.atPixel k s)).value) (List.range' (i + 1) n) := by
        rw [hput]
        exact hpaints
      exact (paints_put (by omega)).bind hrest

/-! ### Rounds -/

/-- A run length is behind `p`, inside the stream, and nothing is painted. -/
theorem readRunLength_spec (hp : p < c.remaining) :
    c.Paints k (c.readRunLength p) [] ∧
      ∀ r ∈ (c.readRunLength p).value, p < r.2 ∧ r.2 ≤ c.remaining := by
  rw [readRunLength]
  by_cases hfirst : c.byte p ≥ 0xFF
  · rw [if_pos hfirst]
    by_cases hshort : c.remaining < p + 1 + 2
    · rw [if_pos hshort]
      exact ⟨(paints_loads hp).bind (paints_pure _), nofun⟩
    rw [if_neg hshort]
    by_cases hsecond : c.byte (p + 1) + 2 ^ 8 * c.byte (p + 2) ≥ 0xFFFF
    · rw [if_pos hsecond]
      by_cases hshort' : c.remaining < p + 3 + 4
      · rw [if_pos hshort']
        exact ⟨(paints_loads hp).bind ((paints_loads (by omega)).bind (paints_pure _)), nofun⟩
      rw [if_neg hshort']
      refine ⟨(paints_loads hp).bind ((paints_loads (by omega)).bind ((paints_loads (by omega)).bind
        (paints_pure _))), fun r hr => ?_⟩
      cases hr
      omega
    · rw [if_neg hsecond]
      refine ⟨(paints_loads hp).bind ((paints_loads (by omega)).bind (paints_pure _)), fun r hr => ?_⟩
      cases hr
      omega
  · rw [if_neg hfirst]
    refine ⟨(paints_loads hp).bind (paints_pure _), fun r hr => ?_⟩
    cases hr
    omega

/-- What a round from position `p` and pixel `k` on paints, and what it leaves: the next state, or the
result. -/
structure Round (c : Rlex) (p k : ℕ) (x : Traced Access (RlexState ⊕ Option Unit))
    (indices : List ℕ) : Prop where
  paints : c.Paints k x indices
  le : k + indices.length ≤ c.pixelCount
  next : ∀ s, x.value = .inl s →
    c.InStep s ∧ s.pixelIndex = k + indices.length ∧ p < s.position ∧ s.position ≤ c.remaining
  exit : x.value = .inr (some ()) → k + indices.length = c.pixelCount

theorem round_false (hk : k ≤ c.pixelCount) : c.Round p k (pure (.inr none)) [] :=
  ⟨paints_pure _, hk, nofun, nofun⟩

theorem Round.after {x : Traced Access β} {f : β → Traced Access (RlexState ⊕ Option Unit)}
    {is : List ℕ} (js : List ℕ) (hx : c.Paints k x is)
    (hf : c.Round p (k + is.length) (f x.value) js) : c.Round p k (x >>= f) (is ++ js) := by
  have hlength : k + (is ++ js).length = k + is.length + js.length := by
    rw [List.length_append, Nat.add_assoc]
  constructor
  · exact hx.bind hf.paints
  · rw [hlength]
    exact hf.le
  · rw [hlength]
    exact hf.next
  · rw [hlength]
    exact hf.exit

/-- What only reads leaves the round to what follows. -/
theorem exists_round_after {x : Traced Access β} {f : β → Traced Access (RlexState ⊕ Option Unit)}
    (hx : c.Paints k x []) (hf : ∃ indices, c.Round p k (f x.value) indices) :
    ∃ indices, c.Round p k (x >>= f) indices := by
  obtain ⟨indices, hround⟩ := hf
  exact ⟨[] ++ indices, Round.after indices hx hround⟩

theorem putSegment_spec {startIndex suiteDepth runLengthFactor : ℕ} (hcount : c.paletteCount ≤ 127)
    (hstart : startIndex + suiteDepth < c.paletteCount) (hs : c.InStep s)
    (hk : s.pixelIndex ≤ c.pixelCount) (hp : p < s.position) (hend : s.position ≤ c.remaining) :
    ∃ indices, c.Round p s.pixelIndex (c.putSegment startIndex suiteDepth runLengthFactor s) indices := by
  rw [putSegment]
  by_cases hrun : s.pixelIndex + runLengthFactor > c.pixelCount
  · exact ⟨[], by rw [if_pos hrun]; exact round_false hk⟩
  have hlength : (List.replicate runLengthFactor startIndex).length = runLengthFactor :=
    List.length_replicate
  obtain ⟨hvalue, hpaints⟩ := putRun_spec (s := s) (show startIndex < c.paletteCount by omega)
    (Nat.le_of_not_lt hrun)
  rw [hs] at hvalue hpaints
  rw [if_neg hrun]
  by_cases hsuite : s.pixelIndex + runLengthFactor + (suiteDepth + 1) > c.pixelCount
  · refine ⟨_, Round.after [] hpaints ?_⟩
    rw [hvalue, hlength, atPixel]
    dsimp only
    rw [if_pos hsuite]
    exact round_false (Nat.le_of_not_lt hrun)
  · obtain ⟨hvalue', hpaints'⟩ :=
      putSuite_spec (s := { s with pixelIndex := s.pixelIndex + runLengthFactor })
      hcount (show startIndex + (suiteDepth + 1) ≤ c.paletteCount by omega) (Nat.le_of_not_lt hsuite)
    refine ⟨_, Round.after (List.range' startIndex (suiteDepth + 1) ++ []) hpaints ?_⟩
    rw [hvalue, hlength]
    dsimp only [atPixel] at hvalue' ⊢
    rw [if_neg hsuite]
    refine Round.after [] hpaints' ?_
    rw [hvalue', List.length_range']
    constructor
    · exact paints_pure _
    · exact Nat.le_of_not_lt hsuite
    · intro s' hs'
      cases hs'
      exact ⟨rfl, rfl, hp, hend⟩
    · exact nofun

/-- A suite that begins inside the palette has not wrapped around. -/
theorem start_add_depth {stopIndex suiteDepth : ℕ} (hcount : c.paletteCount ≤ 127)
    (hdepth : suiteDepth ≤ 127) (hstop : stopIndex < c.paletteCount)
    (hstart : (stopIndex + (2 ^ 8 - suiteDepth)) % 2 ^ 8 < c.paletteCount) :
    (stopIndex + (2 ^ 8 - suiteDepth)) % 2 ^ 8 + suiteDepth < c.paletteCount := by
  omega

theorem and_mask8_le (tmp : ℕ) : tmp &&& mask8 (8 - c.numBits) ≤ 127 := by
  have hpow : 2 ^ (8 - c.numBits) ≤ 2 ^ 7 := Nat.pow_le_pow_right (by decide) (by unfold numBits; omega)
  refine Nat.and_le_right.trans ?_
  unfold mask8
  omega

theorem step_spec (hcount : c.paletteCount ≤ 127) (hs : c.InStep s) (hk : s.pixelIndex ≤ c.pixelCount) :
    ∃ indices, c.Round s.position s.pixelIndex (c.step s) indices := by
  rw [step]
  by_cases hmore : s.bitmapDataOffset < c.bitmapDataByteCount
  · rw [if_pos hmore]
    by_cases hshort : c.remaining < s.position + 2
    · exact ⟨[], by rw [if_pos hshort]; exact round_false hk⟩
    rw [if_neg hshort]
    obtain ⟨hpaints, hread⟩ := readRunLength_spec (k := s.pixelIndex)
      (show s.position + 1 < c.remaining by omega)
    refine exists_round_after (paints_loads (by omega)) (exists_round_after hpaints ?_)
    have hdepth := and_mask8_le (c := c) (c.byte s.position >>> c.numBits)
    generalize c.byte s.position >>> c.numBits &&& mask8 (8 - c.numBits) = suiteDepth at hdepth ⊢
    generalize c.byte s.position &&& mask8 c.numBits = stopIndex
    cases hvalue : (c.readRunLength (s.position + 1)).value with
    | none => exact ⟨[], round_false hk⟩
    | some r =>
      obtain ⟨runLengthFactor, position⟩ := r
      obtain ⟨hlt, hle⟩ := hread _ hvalue
      dsimp only at hlt hle ⊢
      by_cases hstart : (stopIndex + (2 ^ 8 - suiteDepth)) % 2 ^ 8 ≥ c.paletteCount
      · exact ⟨[], by rw [if_pos hstart]; exact round_false hk⟩
      by_cases hstop : stopIndex ≥ c.paletteCount
      · exact ⟨[], by rw [if_neg hstart, if_pos hstop]; exact round_false hk⟩
      rw [if_neg hstart, if_neg hstop, if_neg (by omega)]
      have hs' : c.InStep (RlexState.mk position
          ((s.bitmapDataOffset + (position - s.position)) % 2 ^ 32) s.pixelIndex s.x s.y) := by
        rw [InStep, ← hs]
        rfl
      have hsum : (stopIndex + (2 ^ 8 - suiteDepth)) % 2 ^ 8 + suiteDepth < c.paletteCount :=
        start_add_depth hcount hdepth (by omega) (by omega)
      exact putSegment_spec hcount hsum hs' hk (Nat.lt_of_succ_lt hlt) hle
  · rw [if_neg hmore]
    by_cases hcomplete : s.pixelIndex ≠ c.pixelCount
    · exact ⟨[], by rw [if_pos hcomplete]; exact round_false hk⟩
    · rw [if_neg hcomplete]
      exact ⟨[], paints_pure _, hk, nofun, fun _ => not_not.mp hcomplete⟩

/-! ### Whole calls -/

/-- What the rest of a call from pixel `k` on paints: all of the tile if it returns `TRUE`. -/
structure Completes (c : Rlex) (k : ℕ) (x : Traced Access (Option (Option Unit)))
    (indices : List ℕ) : Prop where
  paints : c.Paints k x indices
  le : k + indices.length ≤ c.pixelCount
  ends : x.value ≠ none
  exit : x.value = some (some ()) → k + indices.length = c.pixelCount

theorem loop_spec (hcount : c.paletteCount ≤ 127) (hs : c.InStep s) (hk : s.pixelIndex ≤ c.pixelCount)
    (hend : s.position ≤ c.remaining) (hn : c.remaining - s.position < n) :
    ∃ indices, c.Completes s.pixelIndex (loop c.step n s) indices := by
  induction n generalizing s with
  | zero => exact absurd hn (Nat.not_lt_zero _)
  | succ n ih =>
    obtain ⟨is, hround⟩ := step_spec hcount hs hk
    rw [loop_succ]
    cases hstep : (c.step s).value with
    | inl s' =>
      obtain ⟨hs', hk', hlt, hle⟩ := hround.next s' hstep
      obtain ⟨js, hrest⟩ := ih hs' (hk' ▸ hround.le) hle (by omega)
      have hlength : s.pixelIndex + (is ++ js).length = s'.pixelIndex + js.length := by
        rw [List.length_append, hk', Nat.add_assoc]
      refine ⟨is ++ js, hround.paints.bind ?_, ?_, ?_, ?_⟩
      · rw [hstep, ← hk']
        exact hrest.paints
      · rw [hlength]
        exact hrest.le
      · rw [value_bind, hstep]
        exact hrest.ends
      · rw [value_bind, hstep, hlength]
        exact hrest.exit
    | inr r =>
      refine ⟨is ++ [], hround.paints.bind ?_, ?_, ?_, ?_⟩
      · rw [hstep]
        exact paints_pure _
      · rw [List.append_nil]
        exact hround.le
      · rw [value_bind, hstep]
        exact Option.some_ne_none r
      · rw [value_bind, hstep, List.append_nil]
        intro hr
        exact hround.exit (hstep.trans (congrArg Sum.inr (Option.some.inj hr)))

theorem completes_false : c.Completes 0 (pure (some none)) [] :=
  ⟨paints_pure _, Nat.zero_le _, Option.some_ne_none _, nofun⟩

/-- What only reads leaves the call to what follows. -/
theorem exists_completes_after {x : Traced Access β} {f : β → Traced Access (Option (Option Unit))}
    (hx : c.Paints 0 x []) (hf : ∃ indices, c.Completes 0 (f x.value) indices) :
    ∃ indices, c.Completes 0 (x >>= f) indices := by
  obtain ⟨indices, hrest⟩ := hf
  exact ⟨[] ++ indices, hx.bind hrest.paints, hrest.le, hrest.ends, hrest.exit⟩

theorem decompress_spec (c : Rlex) : ∃ indices, c.Completes 0 c.decompress indices := by
  rw [decompress]
  by_cases hshort : c.remaining < c.bitmapDataByteCount
  · exact ⟨[], by rw [if_pos hshort]; exact completes_false⟩
  by_cases hempty : c.remaining < 1
  · exact ⟨[], by rw [if_neg hshort, if_pos hempty]; exact completes_false⟩
  rw [if_neg hshort, if_neg hempty]
  refine exists_completes_after (paints_loads (by omega)) ?_
  by_cases hcount : c.paletteCount > 127 ∨ c.paletteCount < 1
  · exact ⟨[], by rw [if_pos hcount]; exact completes_false⟩
  by_cases hpalette : c.remaining < 1 + 3 * c.paletteCount
  · exact ⟨[], by rw [if_neg hcount, if_pos hpalette]; exact completes_false⟩
  rw [if_neg hcount, if_neg hpalette]
  refine exists_completes_after (paints_loads (by omega)) ?_
  refine loop_spec (s := ⟨1 + 3 * c.paletteCount, 1 + 3 * c.paletteCount, 0, 0, 0⟩) (by omega) ?_
    (Nat.zero_le _) (show 1 + 3 * c.paletteCount ≤ c.remaining by omega)
    (Nat.lt_succ_of_le (Nat.sub_le _ _))
  rw [InStep, atPixel, Nat.zero_mod, Nat.zero_div]

/-! ### The tile is filled -/

theorem column_lt_row_lt (hk : k < c.width * c.height) : k % c.width < c.width ∧
    k / c.width < c.height := by
  have hwidth : 0 < c.width := by
    refine Nat.pos_of_ne_zero fun hzero => ?_
    rw [hzero, Nat.zero_mul] at hk
    exact Nat.not_lt_zero _ hk
  exact ⟨Nat.mod_lt _ hwidth, Nat.div_lt_of_lt_mul hk⟩

/-- Every pixel of a tile inside the destination is written. -/
theorem Inside.lands (h : c.Inside) (hk : k < c.width * c.height) (color : ℕ) :
    c.Lands k ∧ c.pixel k color = .store (c.nXDstRel + k % c.width) (c.nYDstRel + k / c.width) color := by
  obtain ⟨hx, hy⟩ := column_lt_row_lt hk
  have hright := h.right
  have hbottom := h.bottom
  have hwidth := h.width_lt
  have hheight := h.height_lt
  have hx' : (c.nXDstRel + k % c.width) % 2 ^ 32 = c.nXDstRel + k % c.width :=
    Nat.mod_eq_of_lt (by omega)
  have hy' : (c.nYDstRel + k / c.width) % 2 ^ 32 = c.nYDstRel + k / c.width :=
    Nat.mod_eq_of_lt (by omega)
  unfold Lands pixel
  rw [hx', hy']
  exact ⟨⟨by omega, by omega, h.format⟩, rfl⟩

theorem painted_eq_map {colors : List ℕ} (h : c.Inside) (hle : colors.length ≤ c.width * c.height) :
    c.painted 0 colors = colors.zipIdx.map fun p =>
      .store (c.nXDstRel + p.2 % c.width) (c.nYDstRel + p.2 / c.width) p.1 := by
  rw [painted, ← List.filterMap_eq_map]
  refine List.filterMap_congr fun p hp => ?_
  have hp' := List.snd_lt_of_mem_zipIdx hp
  have hlands := h.lands (show p.2 < c.width * c.height by omega) p.1
  rw [if_pos hlands.1, hlands.2]
  rfl

theorem exists_of_mem_painted {colors : List ℕ} {x y : ℕ} (hle : colors.length ≤ c.width * c.height)
    (h : .store x y color ∈ c.painted 0 colors) :
    ∃ column < c.width, ∃ row < c.height,
      x = (c.nXDstRel + column) % 2 ^ 32 ∧ y = (c.nYDstRel + row) % 2 ^ 32 := by
  obtain ⟨p, hp, hpixel⟩ := List.mem_filterMap.mp h
  have hp' := List.snd_lt_of_mem_zipIdx hp
  obtain ⟨hcolumn, hrow⟩ := column_lt_row_lt (c := c) (k := p.2) (by omega)
  refine ⟨_, hcolumn, _, hrow, ?_⟩
  by_cases hlands : c.Lands p.2
  · rw [if_pos hlands, pixel, Option.some.injEq] at hpixel
    cases hpixel
    exact ⟨rfl, rfl⟩
  · rw [if_neg hlands] at hpixel
    cases hpixel

/-- A call on any input paints entries of the palette, from the first pixel of its tile on in raster order:
all pixels of the tile if it returns `TRUE`, and never one outside the tile.  A tile inside the destination
is written as it is painted; from another one the pixels that lie outside are left out. -/
theorem rlex_fills (c : Rlex) (hsize : c.width * c.height < 2 ^ 32) :
    ∃ result, c.decompress.value = some result ∧ ∃ indices : List ℕ,
      (∀ i ∈ indices, i < c.paletteCount) ∧
      indices.length ≤ c.width * c.height ∧
      (result = some () → indices.length = c.width * c.height) ∧
      stores c.decompress = c.painted 0 (indices.map c.palette) ∧
      (c.Inside → stores c.decompress = (indices.map c.palette).zipIdx.map fun p =>
        .store (c.nXDstRel + p.2 % c.width) (c.nYDstRel + p.2 / c.width) p.1) ∧
      (∀ x y color, .store x y color ∈ c.decompress.trace →
        ∃ column < c.width, ∃ row < c.height,
          x = (c.nXDstRel + column) % 2 ^ 32 ∧ y = (c.nYDstRel + row) % 2 ^ 32) ∧
      ∀ offset, .load offset ∈ c.decompress.trace → offset < c.remaining := by
  obtain ⟨indices, hcall⟩ := decompress_spec c
  have hle := hcall.le
  have hexit := hcall.exit
  have hlength : (indices.map c.palette).length = indices.length := List.length_map _
  rw [pixelCount, Nat.mod_eq_of_lt hsize, Nat.zero_add] at hle hexit
  obtain ⟨result, hresult⟩ := Option.ne_none_iff_exists'.mp hcall.ends
  refine ⟨result, hresult, indices, hcall.paints.entries, hle, ?_, hcall.paints.stores, ?_, ?_, ?_⟩
  · intro hr
    exact hexit (hresult.trans (congrArg some hr))
  · intro hinside
    rw [hcall.paints.stores, painted_eq_map hinside (hlength ▸ hle)]
  · intro x y color hmem
    have hstore := List.mem_filter.mpr ⟨hmem, show Access.isStore (.store x y color) = true from rfl⟩
    rw [← stores, hcall.paints.stores] at hstore
    exact exists_of_mem_painted (hlength ▸ hle) hstore
  · intro offset hmem
    exact hcall.paints.reads _ hmem

/-- A tile of two pixels, of which the second is to the right of the destination. -/
def clippedTile : Rlex where
  stream p := [1, 0, 0, 0, 0, 1].getD p 0
  remaining := 6
  bitmapDataByteCount := 6
  width := 2
  height := 1
  dstFormat := PIXEL_FORMAT_BGRX32
  nXDstRel := 0
  nYDstRel := 0
  nDstWidth := 1
  nDstHeight := 1
  getColor r g b := r + 2 ^ 8 * g + 2 ^ 16 * b

theorem rlex_fills_clippedTile :
    clippedTile.width * clippedTile.height < 2 ^ 32 ∧
      ∃ result, clippedTile.decompress.value = some result ∧ ∃ indices : List ℕ,
        (∀ i ∈ indices, i < clippedTile.paletteCount) ∧
        indices.length ≤ clippedTile.width * clippedTile.height ∧
        (result = some () → indices.length = clippedTile.width * clippedTile.height) ∧
        stores clippedTile.decompress = clippedTile.painted 0 (indices.map clippedTile.palette) := by
  have hsize : clippedTile.width * clippedTile.height < 2 ^ 32 := by decide
  obtain ⟨result, hresult, indices, hentries, hle, hexit, hstores, -⟩ := rlex_fills clippedTile hsize
  exact ⟨hsize, result, hresult, indices, hentries, hle, hexit, hstores⟩

/-- The call returns `TRUE` and has written fewer pixels than the tile has. -/
theorem not_rlex_fills :
    ¬ ∀ c : Rlex, 1 ≤ c.paletteCount → c.decompress.value = some (some ()) →
      (stores c.decompress).length = c.width * c.height := by
  intro h
  exact absurd (h clippedTile (by decide) (by decide +kernel)) (by decide +kernel)

end Rlex

end FreeRDP.Clear
