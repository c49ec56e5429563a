import FreeRDP.ClearCodec.Equiv.Layers

/-!
# Runs of a ClearCodec context

A client uses one context for call after call, with any messages, rectangles and formats.  Two
questions are asked of such a run: whether the pixels written lie in the destination, and whether the
entries of the caches hold the pixels that later calls read from them.
-/

namespace FreeRDP.Clear

open Triples

/-- One operation of a run, with the context before and after it. -/
structure Step where
  op : Op
  before : Context
  after : Context
  log : List Event

def Op.step (env : Env) (op : Op) (clear : Context) (asked : ℕ) : Step :=
  let r := op.run env clear asked
  ⟨op, clear, r.1, r.2.2⟩

def steps (env : Env) : List Op → Context → ℕ → List Step
  | [], _, _ => []
  | op :: ops, clear, asked =>
    op.step env clear asked ::
      steps env ops (op.run env clear asked).1 (op.run env clear asked).2.1

variable {env : Env}

/-- What a call leaves: it has done nothing, or the invariant holds. -/
theorem clearDecompress_spec (call : Call) (clear : Context) (asked : ℕ) (fit : Prop)
    (halloc : fit → env.Allocates)
    (hok : fit → ∀ cache i, (clear.entries cache i).Ok (bytesPerPixel call.dstFormat)) :
    ∃ stream, Settled env call fit clear
      ⟨(clearDecompress env call clear asked).clear, stream,
        (clearDecompress env call clear asked).asked, (clearDecompress env call clear asked).log⟩ := by
  unfold clearDecompress
  split_ifs with hdst hsize
  · exact ⟨[], Or.inl ⟨rfl, rfl⟩⟩
  · exact ⟨[], Or.inl ⟨rfl, rfl⟩⟩
  · obtain ⟨hw, hh⟩ := not_or.mp hsize
    have h := decompressBody_spec (s := ⟨clear, call.src, asked, []⟩) (Nat.le_of_not_lt hw)
      (Nat.le_of_not_lt hh) rfl halloc hok _ rfl
    split at h <;> rename_i s heq
    · rw [heq]
      exact ⟨s.stream, Or.inr h⟩
    · rw [heq]
      exact ⟨s.stream, h⟩

/-! ### Writes -/

/-- The headers that a step finds in its message are sane. -/
def Step.Sane (step : Step) : Prop :=
  match step.op with
  | .decompress call => call.Near ∧ ∀ e ∈ step.log, e.Sane call
  | .reset => True

/-- Everything that a step writes lies in the destination, or in its part of `TempBuffer`. -/
def Step.Inside (step : Step) : Prop :=
  match step.op with
  | .decompress call => ∀ e ∈ step.log, e.Inside call
  | .reset => True

theorem step_inside (op : Op) (clear : Context) (asked : ℕ)
    (h : (op.step env clear asked).Sane) : (op.step env clear asked).Inside := by
  cases op with
  | reset => trivial
  | decompress call =>
    obtain ⟨hnear, hsane⟩ := h
    -- nothing is assumed about the entries
    obtain ⟨stream, hnone | hinv⟩ := 
      clearDecompress_spec call clear asked False False.elim False.elim
    · intro e he
      rw [show Step.log _ = [] from hnone.2] at he
      exact absurd he List.not_mem_nil
    · exact hinv.safe hnear hsane

theorem steps_inside (env : Env) (ops : List Op) (clear : Context) (asked : ℕ)
    (h : ∀ step ∈ steps env ops clear asked, step.Sane) :
    ∀ step ∈ steps env ops clear asked, step.Inside := by
  induction ops generalizing clear asked with
  | nil => exact fun step hstep => absurd hstep List.not_mem_nil
  | cons op ops ih =>
    rw [steps] at h ⊢
    intro step hstep
    rcases List.mem_cons.mp hstep with rfl | hstep
    · exact step_inside op clear asked (h _ List.mem_cons_self)
    · exact ih _ _ (fun step hmem => h step (List.mem_cons_of_mem _ hmem)) step hstep

/-- The answers of surroundings in which nothing fails. -/
def willing : Env := ⟨fun _ => true, fun _ => true, fun _ => true⟩

/-- A message with a band of one column and one row at `xStart`.  `bar` is the header of its bar. -/
def bandMessage (seqNumber xStart : UInt8) (bar : List UInt8) : List UInt8 :=
  [0, seqNumber, 0, 0, 0, 0, 13, 0, 0, 0, 0, 0, 0, 0, xStart, 0, xStart, 0, 0, 0, 0, 0, 0, 0, 0] ++
    bar

/-- The update of a destination of one pixel. -/
def pixelCall (src : List UInt8) (format : ℕ) : Call := ⟨src, 1, 1, format, 0, 0, 1, 1⟩

section Execution

-- the programs are run by rewriting; a context is too large for evaluation in the kernel
attribute [local simp] steps Op.step Op.run clearDecompress decompressBody readHeader requireBytes
  remaining require modifyClear run_modify run_modifyGet bind EStateM.bind run_get pure EStateM.pure
  run_throw readU8 readU16 readU32 seek onlyIf getClear clearContextNew clearContextReset
  CLEARCODEC_FLAG_CACHE_RESET CLEARCODEC_FLAG_GLYPH_HIT CLEARCODEC_FLAG_GLYPH_INDEX
  clearDecompressGlyphData decompressLayers clearDecompressBandsData bandsLoop vBarLoop selectVBar
  shortVBarMiss setCount_eq updateVBar cutCount drawVBar emit storeGlyph touchEntry getEntry setEntry
  State.put State.add PIXEL_FORMAT_BGRX32 PIXEL_FORMAT_RGB16 bytesPerPixel bitsPerPixel writable
  CLEARCODEC_VBAR_SHORT_SIZE CLEARCODEC_VBAR_SIZE Entry.allocated willing bandMessage pixelCall

/-- A band that a short bar without pixels fills with background. -/
theorem log_band (xStart : UInt8) :
    (Op.step willing (.decompress (pixelCall (bandMessage 0 xStart [0, 0]) PIXEL_FORMAT_BGRX32))
      clearContextNew 0).log =
    [.band xStart.toNat xStart.toNat 0 0, .entry 0 0, .entry 4 4, .entry 4 4, .entry 4 4,
      .dst (xStart.toNat % 2 ^ 32) 0 1 1] := by
  simp

/-- A bar is stored with two bytes for a pixel and drawn with four. -/
theorem log_widened :
    let r := Op.run willing (.decompress (pixelCall (bandMessage 0 0 [0, 0]) PIXEL_FORMAT_RGB16))
      clearContextNew 0
    (Op.step willing (.decompress (pixelCall (bandMessage 1 0 [0, 0x80]) PIXEL_FORMAT_BGRX32))
      r.1 r.2.1).log = [.band 0 0 0 0, .entry 4 2, .dst 0 0 1 1] := by
  simp

end Execution

/-- A band at column 0 stays inside. -/
theorem steps_inside_band :
    (steps willing [.decompress (pixelCall (bandMessage 0 0 [0, 0]) PIXEL_FORMAT_BGRX32)]
      clearContextNew 0).length = 1 ∧
    ∀ step ∈ steps willing [.decompress (pixelCall (bandMessage 0 0 [0, 0]) PIXEL_FORMAT_BGRX32)]
      clearContextNew 0, step.Inside := by
  refine ⟨rfl, steps_inside _ _ _ _ fun step hstep => ?_⟩
  rw [List.mem_singleton.mp hstep]
  refine ⟨by decide, fun e he => ?_⟩
  rw [log_band] at he
  simp only [List.mem_cons, List.not_mem_nil, or_false] at he
  rcases he with rfl | rfl | rfl | rfl | rfl | rfl
  · exact Or.inr (Or.inr (by decide))
  all_goals trivial

/-- A band at column 100 of a destination of one pixel is drawn. -/
theorem steps_inside_beyond :
    ¬ ∀ (env : Env) (ops : List Op), ∀ step ∈ steps env ops clearContextNew 0, step.Inside := by
  intro h
  have hinside := h willing
    [.decompress (pixelCall (bandMessage 0 100 [0, 0]) PIXEL_FORMAT_BGRX32)] _ List.mem_cons_self
  have hdst : Event.Inside (pixelCall (bandMessage 0 100 [0, 0]) PIXEL_FORMAT_BGRX32)
      (.dst 100 0 1 1) := by
    refine hinside _ ?_
    rw [log_band]
    decide
  exact absurd (hdst 0 Nat.one_pos 0 Nat.one_pos).1 (by decide)

/-! ### Entries -/

/-- All entries of the caches hold the bytes of their pixels, in the format of the context. -/
def Context.Ok (clear : Context) : Prop :=
  ∀ cache i, (clear.entries cache i).Ok (bytesPerPixel clear.format)

/-- A call does not ask for more bytes per pixel than the context has used so far, unless the caches
are empty. -/
def Step.Fits (step : Step) : Prop :=
  match step.op with
  | .decompress call =>
    bytesPerPixel call.dstFormat ≤ bytesPerPixel step.before.format ∨
      ∀ cache i, (step.before.entries cache i).size = 0
  | .reset => True

/-- The accesses to entries during a step stay within their allocations, if its rectangle is near the
destination. -/
def Step.Within (step : Step) : Prop :=
  match step.op with
  | .decompress call => call.Near → ∀ e ∈ step.log, e.Within
  | .reset => True

/-- Every entry has the bytes of its pixels after the step, and no access has gone beyond them. -/
def Step.Holds (step : Step) : Prop :=
  (∀ cache i, (step.after.entries cache i).count * bytesPerPixel step.after.format ≤
    (step.after.entries cache i).allocated) ∧ step.Within

theorem Entry.Ok.at_format {e : Entry} {bpp bpp' : ℕ} (h : e.Ok bpp) (hle : bpp' ≤ bpp ∨ e.size = 0) :
    e.Ok bpp' := by
  refine ⟨h.count_le, ?_⟩
  rcases hle with hle | hsize
  · exact (Nat.mul_le_mul_left e.size hle).trans h.size_le
  · rw [hsize, Nat.zero_mul]
    exact Nat.zero_le _

theorem clearContextNew_ok : clearContextNew.Ok :=
  fun _ _ => ⟨le_rfl, by rw [show Entry.size _ = 0 from rfl, Nat.zero_mul]; exact Nat.zero_le _⟩

theorem step_ok (halloc : env.Allocates) (op : Op) {clear : Context} (hok : clear.Ok) (asked : ℕ)
    (hfits : (op.step env clear asked).Fits) :
    (op.step env clear asked).after.Ok ∧ (op.step env clear asked).Within := by
  cases op with
  | reset => exact ⟨hok, trivial⟩
  | decompress call =>
    have hentries : ∀ cache i, (clear.entries cache i).Ok (bytesPerPixel call.dstFormat) :=
      fun cache i => (hok cache i).at_format (hfits.imp_right fun h => h cache i)
    obtain ⟨stream, ⟨hsame, hnone⟩ | hinv⟩ := 
      clearDecompress_spec call clear asked True (fun _ => halloc) fun _ => hentries
    · constructor
      · rw [show Step.after _ = clear from hsame]
        exact hok
      · intro _ e he
        rw [show Step.log _ = [] from hnone] at he
        exact absurd he List.not_mem_nil
    · constructor
      · intro cache i
        rw [show (Step.after _).format = _ from hinv.format]
        exact hinv.ok trivial cache i
      · exact hinv.within trivial

theorem steps_hold_of_ok (halloc : env.Allocates) (ops : List Op) {clear : Context} (hok : clear.Ok)
    (asked : ℕ) (h : ∀ step ∈ steps env ops clear asked, step.Fits) :
    ∀ step ∈ steps env ops clear asked, step.Holds := by
  induction ops generalizing clear asked with
  | nil => exact fun step hstep => absurd hstep List.not_mem_nil
  | cons op ops ih =>
    rw [steps] at h ⊢
    obtain ⟨hafter, hwithin⟩ := step_ok halloc op hok asked (h _ List.mem_cons_self)
    intro step hstep
    rcases List.mem_cons.mp hstep with rfl | hstep
    · exact ⟨fun cache i => (hafter cache i).le le_rfl, hwithin⟩
    · exact ih hafter _ (fun step hmem => h step (List.mem_cons_of_mem _ hmem)) step hstep

/-- If no allocation for an entry fails and no call raises the bytes per pixel of a context whose
caches are in use, every entry holds the bytes of its pixels throughout a run. -/
theorem steps_hold (env : Env) (halloc : env.Allocates) (ops : List Op)
    (h : ∀ step ∈ steps env ops clearContextNew 0, step.Fits) :
    ∀ step ∈ steps env ops clearContextNew 0, step.Holds :=
  steps_hold_of_ok halloc ops clearContextNew_ok 0 h

/-- A bar is stored with four bytes for a pixel, and a later call finds it and draws it with two. -/
def narrowedOps : List Op :=
  [.decompress (pixelCall (bandMessage 0 0 [0, 0]) PIXEL_FORMAT_BGRX32),
    .decompress (pixelCall (bandMessage 1 0 [0, 0x80]) PIXEL_FORMAT_RGB16)]

theorem steps_hold_narrowed :
    (steps willing narrowedOps clearContextNew 0).map Step.log =
        [[.band 0 0 0 0, .entry 0 0, .entry 4 4, .entry 4 4, .entry 4 4, .dst 0 0 1 1],
          [.band 0 0 0 0, .entry 2 4, .dst 0 0 1 1]] ∧
      ∀ step ∈ steps willing narrowedOps clearContextNew 0, step.Holds := by
  refine ⟨by decide +kernel, steps_hold willing (fun _ => rfl) _ fun step hstep => ?_⟩
  rcases List.mem_cons.mp hstep with rfl | hlater
  · exact Or.inl le_rfl
  · rw [List.mem_singleton.mp hlater]
    have hformat : (Op.step willing (.decompress (pixelCall (bandMessage 0 0 [0, 0])
        PIXEL_FORMAT_BGRX32)) clearContextNew 0).after.format = PIXEL_FORMAT_BGRX32 := by
      decide +kernel
    have hle : bytesPerPixel PIXEL_FORMAT_RGB16 ≤ bytesPerPixel PIXEL_FORMAT_BGRX32 := by decide
    exact Or.inl (hle.trans_eq (congrArg bytesPerPixel hformat.symm))

/-- A bar that was stored with two bytes for a pixel is read with four. -/
theorem steps_hold_widened :
    ¬ ∀ (env : Env), env.Allocates → ∀ (ops : List Op),
      ∀ step ∈ steps env ops clearContextNew 0, step.Holds := by
  intro h
  have hholds := h willing (fun _ => rfl)
    [.decompress (pixelCall (bandMessage 0 0 [0, 0]) PIXEL_FORMAT_RGB16),
      .decompress (pixelCall (bandMessage 1 0 [0, 0x80]) PIXEL_FORMAT_BGRX32)]
    _ (List.mem_cons_of_mem _ List.mem_cons_self)
  have hwithin : (4 : ℕ) ≤ 2 := by
    refine (show Event.Within (.entry 4 2) from ?_)
    refine hholds.2 (by decide) _ ?_
    rw [log_widened]
    decide
  exact absurd hwithin (by decide)

end FreeRDP.Clear
