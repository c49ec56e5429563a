import FreeRDP.Progressive.Equiv.Blocks

/-!
# Where the copies of a call lie

A surface is used by call after call, with any messages.  Each copy to the destination should come
from inside a tile and go inside the grid of the surface and inside the rectangles of the region that
was read last.
-/

namespace FreeRDP.Progressive

open Region Triples

variable {env : Env} {call : Call} {gw gh : ℕ}

/-! ### Runs -/

/-- One call of a run, with the context before it and what it leaves. -/
structure Step where
  call : Call
  before : State
  outcome : Outcome

/-- The steps of a run; a crash ends it. -/
def steps (env : Env) : List Call → State → List Step
  | [], _ => []
  | call :: calls, st =>
    let outcome := decompress env call st
    ⟨call, st, outcome⟩ :: if outcome.rc = none then [] else steps env calls outcome.state

/-- The grid, moved to the origin of a call, ends below `2 ^ 16`. -/
def Call.Near (call : Call) (gridWidth gridHeight : ℕ) : Prop :=
  call.nXDst + 64 * gridWidth < 2 ^ 16 ∧ call.nYDst + 64 * gridHeight < 2 ^ 16

/-- The region blocks in the frame of the message are sane, and the rectangles of the region read
last fit if the message has no region block. -/
def Step.Sane (step : Step) : Prop :=
  (hasRegion (step.call.src.length + 1) step.call.src = false →
    RectsFit step.call step.before.region.rects) ∧
  ∀ content ∈ scanRegions (step.call.src.length + 1) false false step.call.src,
    ContentSane step.call step.before.surface.gridWidth step.before.surface.gridHeight content

/-- A copy comes from inside the tile, and goes inside the grid and inside the union of the rectangles
of the region. -/
structure Copy.Inside (call : Call) (st : State) (copy : Copy) : Prop where
  source : copy.nXSrc + (copy.rect.right - copy.rect.left) ≤ 64 ∧
    copy.nYSrc + (copy.rect.bottom - copy.rect.top) ≤ 64
  grid : call.nXDst ≤ copy.rect.left ∧
    copy.rect.right ≤ call.nXDst + 64 * st.surface.gridWidth ∧ call.nYDst ≤ copy.rect.top ∧
    copy.rect.bottom ≤ call.nYDst + 64 * st.surface.gridHeight
  rects : ∀ x y, copy.rect.Has x y → ∃ rect ∈ st.region.rects, rect.Covers call x y

/-! ### One call -/

/-- A rectangle in the intersection lies in the rectangle of the tile and in the clipping
rectangles. -/
theorem Clips.mem {clip : Region16} {P : ℕ → ℕ → Prop} (h : Clips clip P) {rect r : Rect}
    (hr : r ∈ (intersectRect clip rect).rects) :
    r.left < r.right ∧ r.top < r.bottom ∧ rect.left ≤ r.left ∧ r.right ≤ rect.right ∧
      rect.top ≤ r.top ∧ r.bottom ≤ rect.bottom ∧ ∀ x y, r.Has x y → P x y := by
  obtain ⟨hlr, htb⟩ := h.nonempty rect r hr
  have hpoint : ∀ x y, r.Has x y → P x y ∧ rect.Has x y := fun x y hxy =>
    (h.covers rect x y).mp ⟨r, hr, hxy⟩
  -- the first and the last point of `r`
  have hfirst := (hpoint r.left r.top ⟨le_rfl, hlr, le_rfl, htb⟩).2
  have hlast := (hpoint (r.right - 1) (r.bottom - 1) (by simp only [Rect.Has]; omega)).2
  simp only [Rect.Has] at hfirst hlast
  exact ⟨hlr, htb, hfirst.1, by omega, hfirst.2.2.1, by omega, fun x y hxy => (hpoint x y hxy).1⟩

theorem updateRect_near {surface : Surface} (hgrid : Grid gw gh surface) (hnear : call.Near gw gh)
    {z : ℕ} (hz : z < gw * gh) :
    updateRect call (surface.tiles z) =
      ⟨call.nXDst + (surface.tiles z).x, call.nYDst + (surface.tiles z).y,
        call.nXDst + (surface.tiles z).x + 64, call.nYDst + (surface.tiles z).y + 64⟩ := by
  obtain ⟨hx, hy⟩ := hgrid.placed z hz
  obtain ⟨hnx, hny⟩ := hnear
  simp only [updateRect, Rect.mk.injEq]
  omega

theorem copy_inside {st : State} (hgrid : Grid gw gh st.surface) (hnear : call.Near gw gh)
    (hfit : RectsFit call st.region.rects) {z : ℕ} (hz : z < gw * gh) {rect : Rect}
    (hrect : rect ∈ tileRects call st.surface (clippingRects call st.region.rects) z) :
    (copyOf call st.surface z rect).Inside call st := by
  obtain ⟨hlr, htb, hl, hr, ht, hb, hpoints⟩ := (clips_clippingRects hfit).mem hrect
  rw [updateRect_near hgrid hnear hz] at hl hr ht hb
  obtain ⟨hx, hy⟩ := hgrid.placed z hz
  obtain ⟨hnx, hny⟩ := hnear
  dsimp only at hl hr ht hb
  refine ⟨?_, ?_, hpoints⟩
  · simp only [copyOf]
    omega
  · simp only [copyOf, hgrid.width, hgrid.height]
    omega

/-- The grid of the surface stays, and the copies of a call are inside if its message is sane. -/
theorem decompress_spec {st : State} (hgrid : Grid gw gh st.surface) (hnear : call.Near gw gh)
    (hfit : hasRegion (call.src.length + 1) call.src = false → RectsFit call st.region.rects)
    (hsane : ∀ content ∈ scanRegions (call.src.length + 1) false false call.src,
      ContentSane call gw gh content) :
    Grid gw gh (decompress env call st).state.surface ∧
      ∀ copy ∈ (decompress env call st).copies, copy.Inside call (decompress env call st).state := by
  have hgw : gw < 1024 := by
    unfold Call.Near at hnear
    omega
  have hstart : ∃ size, Inv call gw gh size (hasRegion (call.src.length + 1) call.src) false false
      (startState call st) := by
    refine ⟨_, ?_, hfit, rfl, rfl, rfl⟩
    unfold startState
    dsimp only
    split_ifs
    · exact { hgrid with updated := fun z hz => absurd hz List.not_mem_nil }
    · exact hgrid
  have hloop := @blockLoop_spec call gw gh env hgw (call.src.length + 1) 1 _ _ _ hsane _ hstart
  unfold decompress
  split at hloop
  · rename_i rc st' heq
    rw [heq]
    obtain ⟨size, begun, ended, hinv⟩ := hloop
    refine ⟨hinv.grid, fun copy hcopy => ?_⟩
    dsimp only at hcopy
    rw [drawTiles_eq (clips_clippingRects (hinv.fit rfl)), List.nil_append] at hcopy
    obtain ⟨z, hz, hcopy⟩ := List.mem_flatMap.mp hcopy
    obtain ⟨rect, hrect, rfl⟩ := List.mem_map.mp hcopy
    exact copy_inside hinv.grid hnear (hinv.fit rfl) (hinv.grid.updated z hz) hrect
  · rename_i stop st' heq
    rw [heq]
    cases stop with
    | fail rc => exact ⟨hloop, fun copy hcopy => absurd hcopy List.not_mem_nil⟩
    | crash => exact ⟨hloop, fun copy hcopy => absurd hcopy List.not_mem_nil⟩

/-! ### All calls -/

theorem grid_surfaceContextNew {memory : ℕ → Pixels × Planes × Planes} {width height : ℕ}
    (hgw : (surfaceContextNew memory width height).gridWidth < 1024)
    (hgh : (surfaceContextNew memory width height).gridHeight < 1024) :
    Grid (surfaceContextNew memory width height).gridWidth (surfaceContextNew memory width height).gridHeight
      (surfaceContextNew memory width height) where
  width := rfl
  height := rfl
  size := Nat.mod_eq_of_lt ((Nat.mul_le_mul hgw.le hgh.le).trans_lt (by decide))
  placed z hz := by
    have hw := Nat.pos_of_mul_pos_right (Nat.zero_lt_of_lt hz)
    have hh := Nat.pos_of_mul_pos_left (Nat.zero_lt_of_lt hz)
    exact ⟨by show 0 + 64 ≤ _; omega, by show 0 + 64 ≤ _; omega⟩
  updated z hz := absurd hz List.not_mem_nil

theorem steps_copies_inside_of_grid (calls : List Call) (hnear : ∀ call ∈ calls, call.Near gw gh)
    {st : State} (hst : Grid gw gh st.surface) (h : ∀ step ∈ steps env calls st, step.Sane) :
    ∀ step ∈ steps env calls st, ∀ copy ∈ step.outcome.copies,
      copy.Inside step.call step.outcome.state := by
  induction calls generalizing st with
  | nil => exact fun step hstep => absurd hstep List.not_mem_nil
  | cons call calls ih =>
    obtain ⟨hcall, hcalls⟩ := List.forall_mem_cons.mp hnear
    obtain ⟨hhead, htail⟩ := List.forall_mem_cons.mp h
    obtain ⟨hfit, hsane⟩ := hhead
    rw [hst.width, hst.height] at hsane
    obtain ⟨hgrid, hcopies⟩ := @decompress_spec env _ _ _ _ hst hcall hfit hsane
    intro step hstep
    rcases List.mem_cons.mp hstep with rfl | hstep
    · exact hcopies
    · split_ifs at hstep htail with hcrash
      · exact absurd hstep List.not_mem_nil
      · exact ih hcalls hgrid htail step hstep

/-- In a run on a new surface whose messages are all sane, every copy of every call is inside. -/
theorem steps_copies_inside (env : Env) (memory : ℕ → Pixels × Planes × Planes) (width height : ℕ)
    (calls : List Call) (st : State) (hst : st.surface = surfaceContextNew memory width height)
    (hnear : ∀ call ∈ calls, call.Near st.surface.gridWidth st.surface.gridHeight)
    (h : ∀ step ∈ steps env calls st, step.Sane) :
    ∀ step ∈ steps env calls st, ∀ copy ∈ step.outcome.copies,
      copy.Inside step.call step.outcome.state := by
  cases calls with
  | nil => exact fun step hstep => absurd hstep List.not_mem_nil
  | cons call calls =>
    obtain ⟨hx, hy⟩ := hnear call List.mem_cons_self
    rw [hst] at hx hy hnear
    exact steps_copies_inside_of_grid (call :: calls) hnear
      (hst ▸ grid_surfaceContextNew (by omega) (by omega)) h

/-- Surroundings in which nothing fails and every tile becomes black. -/
def plain : Env where
  useThreads := true
  schedule := id
  decodeComponent := fun _ _ current sign _ _ _ => ⟨true, [], current, sign⟩
  upgradeComponent := fun _ _ _ current sign _ _ _ _ _ => ⟨true, [], current, sign⟩
  yCbCrToRGB := fun _ _ _ _ => 0

def blank (_ : ℕ) : Pixels × Planes × Planes := (fun _ _ => 0, ⟨[], [], []⟩, ⟨[], [], []⟩)

/-- A context that has done nothing yet, with a surface. -/
def freshState (surface : Surface) : State := ⟨0, false, false, 0, BlockRegion.zero, surface⟩

/-- A message with one region, one rectangle of 128 by 64 pixels at the origin and one simple tile
in row 0, without data. -/
def tileMessage (xIdx : UInt8) : List UInt8 :=
  [0xC1, 0xCC, 12, 0, 0, 0, 0, 0, 0, 0, 1, 0] ++
    [0xC4, 0xCC, 48, 0, 0, 0, 64, 1, 0, 0, 0, 0, 1, 0, 22, 0, 0, 0, 0, 0, 0, 0, 128, 0, 64, 0] ++
    [0xC5, 0xCC, 22, 0, 0, 0, 0, 0, 0, xIdx, 0, 0, 0, 0, 0, 0, 0, 0, 0, 0, 0, 0] ++
    [0xC2, 0xCC, 6, 0, 0, 0]

/-- The call that draws this message at the origin. -/
def tileCall (xIdx : UInt8) : Call := ⟨tileMessage xIdx, 0x20040888, 0, 0, none, 1⟩

/-- The tile in column 0 of a grid of one column and two rows. -/
theorem steps_copies_inside_column :
    (steps plain [tileCall 0] (freshState (surfaceContextNew blank 1 65))).length = 1 ∧
    ∀ step ∈ steps plain [tileCall 0] (freshState (surfaceContextNew blank 1 65)),
      ∀ copy ∈ step.outcome.copies, copy.Inside step.call step.outcome.state := by
  refine ⟨rfl, steps_copies_inside plain blank 1 65 _ _ rfl (fun call hcall => ?_) fun step hstep => ?_⟩
  · rw [List.mem_singleton.mp hcall]
    exact ⟨by decide, by decide⟩
  · have hone : steps plain [tileCall 0] (freshState (surfaceContextNew blank 1 65)) =
        [⟨tileCall 0, freshState (surfaceContextNew blank 1 65),
          decompress plain (tileCall 0) (freshState (surfaceContextNew blank 1 65))⟩] := rfl
    rw [hone] at hstep
    rw [List.mem_singleton.mp hstep]
    exact ⟨fun hnone => absurd hnone (by decide), by decide⟩

/-- In the same grid a tile in column 1 of row 0 passes for the one in row 1. -/
theorem steps_copies_inside_beyond :
    ¬ ∀ (env : Env) (memory : ℕ → Pixels × Planes × Planes) (width height : ℕ) (calls : List Call) (st : State),
      st.surface = surfaceContextNew memory width height →
      (∀ call ∈ calls, call.Near st.surface.gridWidth st.surface.gridHeight) →
      ∀ step ∈ steps env calls st, ∀ copy ∈ step.outcome.copies,
        copy.Inside step.call step.outcome.state := by
  intro h
  have hcopies : (decompress plain (tileCall 1) (freshState (surfaceContextNew blank 1 65))).copies.map
      Copy.rect = [⟨64, 0, 128, 64⟩] := rfl
  obtain ⟨copy, hcopy, hrect⟩ := List.mem_map.mp (hcopies ▸ List.mem_singleton_self _ :
    (⟨64, 0, 128, 64⟩ : Rect) ∈ _)
  have hinside := h plain blank 1 65 [tileCall 1] (freshState (surfaceContextNew blank 1 65)) rfl
    (fun call hcall => by
      rw [List.mem_singleton.mp hcall]
      exact ⟨by decide, by decide⟩)
    _ List.mem_cons_self copy hcopy
  have hgrid := hinside.grid.2.1
  rw [hrect] at hgrid
  exact absurd hgrid (by decide)

end FreeRDP.Progressive
