import FreeRDP.Progressive.Equiv.Draw
import FreeRDP.Lib.Triple
import Mathlib.Data.List.Infix

/-!
# The blocks of a message and what they keep

The blocks of a message, and the tile blocks of a region, follow each other by the lengths in their
headers: a block that does not take as many bytes as it says ends the call.  So the rectangles and
the tiles that a call can meet are known from its bytes, and conditions on them can be stated without
running it.
-/

namespace FreeRDP.Progressive

open Region Triples

/-! ### Scanning a message -/

/-- The types and the contents of the tile blocks in a region, of whose data `size` bytes are left. -/
def scanTiles : ℕ → ℕ → List UInt8 → List (ℕ × List UInt8)
  | 0, _, _ => []
  | n + 1, size, s =>
    if 6 ≤ s.length ∧ 0 < size then
      (u16 s, s.drop 6) :: scanTiles n (size - u32 (s.drop 2)) (s.drop (u32 (s.drop 2)))
    else []

/-- The contents of the region blocks in a frame: behind a block that begins it and not behind one
that ends it. -/
def scanRegions : ℕ → Bool → Bool → List UInt8 → List (List UInt8)
  | 0, _, _, _ => []
  | n + 1, begun, ended, s =>
    if 6 ≤ s.length then
      (if u16 s = PROGRESSIVE_WBT_REGION ∧ begun ∧ ¬ ended then [s.drop 6] else []) ++
        scanRegions n (begun || u16 s = PROGRESSIVE_WBT_FRAME_BEGIN)
          (ended || u16 s = PROGRESSIVE_WBT_FRAME_END) (s.drop (u32 (s.drop 2)))
    else []

/-- The rectangles of a region block. -/
def contentRects (s : List UInt8) : List RfxRect := readRects (headerRegion s).numRects (s.drop 12)

/-- Where the tile blocks of a region block start. -/
def contentData (s : List UInt8) : List UInt8 :=
  (((s.drop 12).drop ((headerRegion s).numRects * 8)).drop ((headerRegion s).numQuant * 5)).drop
    ((headerRegion s).numProgQuant * 16)

/-- The tile blocks of a region block. -/
def contentTiles (s : List UInt8) : List (ℕ × List UInt8) :=
  scanTiles ((contentData s).length + 1) (headerRegion s).tileDataSize (contentData s)

def tileTypes : List ℕ :=
  [PROGRESSIVE_WBT_TILE_SIMPLE, PROGRESSIVE_WBT_TILE_FIRST, PROGRESSIVE_WBT_TILE_UPGRADE]

/-- A tile block names a column of the grid, or a place beyond it, which is refused. -/
def TileSane (gridWidth gridHeight : ℕ) (t : ℕ × List UInt8) : Prop :=
  t.1 ∈ tileTypes → u16 (t.2.drop 3) < gridWidth ∨
    gridWidth * gridHeight ≤ u16 (t.2.drop 5) * gridWidth + u16 (t.2.drop 3)

instance (gridWidth gridHeight : ℕ) (t : ℕ × List UInt8) :
    Decidable (TileSane gridWidth gridHeight t) := inferInstanceAs (Decidable (_ → _))

/-- The rectangles and the tiles of a region block are in order. -/
def ContentSane (call : Call) (gridWidth gridHeight : ℕ) (s : List UInt8) : Prop :=
  (∀ rect ∈ contentRects s, rect.Sane call) ∧ ∀ t ∈ contentTiles s, TileSane gridWidth gridHeight t

instance (call : Call) (gridWidth gridHeight : ℕ) (s : List UInt8) :
    Decidable (ContentSane call gridWidth gridHeight s) := inferInstanceAs (Decidable (_ ∧ _))

/-! ### Readers -/

theorem u8_lt (s : List UInt8) : u8 s < 2 ^ 8 := (s.headD 0).toNat_lt

theorem u16_lt (s : List UInt8) : u16 s < 2 ^ 16 := by
  have h1 := u8_lt s
  have h2 := u8_lt (s.drop 1)
  unfold u16
  omega

theorem readPieces_suffix {ns : List ℕ} {s rest : List UInt8} {pieces : List (List UInt8)}
    (h : readPieces ns s = some (pieces, rest)) : rest <:+ s := by
  induction ns generalizing s pieces with
  | nil =>
    simp only [readPieces, Option.some.injEq, Prod.mk.injEq] at h
    exact h.2 ▸ List.suffix_refl s
  | cons n ns ih =>
    unfold readPieces at h
    split_ifs at h with hn
    cases hpieces : readPieces ns (s.drop n) with
    | none => simp [hpieces] at h
    | some r =>
      simp only [hpieces, Option.some.injEq, Prod.mk.injEq] at h
      obtain ⟨-, rfl⟩ := h
      exact (ih hpieces).trans (List.drop_suffix n s)

/-- The parts of a tile block that say where the tile is, and the bytes behind it. -/
theorem readTile_some {simple : Bool} {blockType blockLen : ℕ} {s rest : List UInt8} {tile : Tile}
    (h : readTile simple blockType blockLen s = some (tile, rest)) :
    tile.xIdx = u16 (s.drop 3) ∧ tile.yIdx = u16 (s.drop 5) ∧ rest <:+ s := by
  unfold readTile at h
  dsimp only at h
  split_ifs at h
  all_goals
    split at h
    · rename_i hpieces
      simp only [Option.some.injEq, Prod.mk.injEq] at h
      obtain ⟨rfl, rfl⟩ := h
      exact ⟨rfl, rfl, (readPieces_suffix hpieces).trans (List.drop_suffix _ s)⟩
    · exact absurd h (by simp)

theorem readTileUpgrade_some {blockType blockLen : ℕ} {s rest : List UInt8} {tile : Tile}
    (h : readTileUpgrade blockType blockLen s = some (tile, rest)) :
    tile.xIdx = u16 (s.drop 3) ∧ tile.yIdx = u16 (s.drop 5) ∧ rest <:+ s := by
  unfold readTileUpgrade at h
  split_ifs at h
  split at h
  · rename_i hpieces
    simp only [Option.some.injEq, Prod.mk.injEq] at h
    obtain ⟨rfl, rfl⟩ := h
    exact ⟨rfl, rfl, (readPieces_suffix hpieces).trans (List.drop_suffix _ s)⟩
  · exact absurd h (by simp)

/-! ### The invariant -/

/-- The tiles of a surface of `gw` columns and `gh` rows lie in its grid. -/
structure Grid (gw gh : ℕ) (surface : Surface) : Prop where
  width : surface.gridWidth = gw
  height : surface.gridHeight = gh
  size : surface.gridSize = gw * gh
  placed : ∀ z < gw * gh, (surface.tiles z).x + 64 ≤ 64 * gw ∧ (surface.tiles z).y + 64 ≤ 64 * gh
  updated : ∀ z ∈ surface.updatedTileIndices, z < gw * gh

/-- What holds while the blocks of a call are read: the tiles are in the grid, and the rectangles of
the region fit unless there is a region block to come.  The size of the tile data and the flags are
known. -/
structure Inv (call : Call) (gw gh size : ℕ) (due begun ended : Bool) (st : State) : Prop where
  grid : Grid gw gh st.surface
  fit : due = false → RectsFit call st.region.rects
  size : st.region.tileDataSize = size
  begun : st.frameBegin = begun
  ended : st.frameEnd = ended

variable {call : Call} {gw gh size : ℕ} {due begun ended : Bool}

/-- What is left when a call ends early. -/
abbrev Failed (gw gh : ℕ) (st : State) : Prop := Grid gw gh st.surface

section Rules

variable {E P : State → Prop} {α : Type} {Q : α → State → Prop}

theorem Inv.failed {st : State} (h : Inv call gw gh size due begun ended st) : Failed gw gh st := h.grid

/-- Behind a check its condition is known. -/
theorem guarded {c : Prop} [Decidable c] {rc : ℤ} {f : Unit → M α}
    (hP : ∀ st, P st → E st) (h : c → Triple E P (f ()) Q) :
    Triple E P (require c rc >>= f) Q := Triple.guard hP h

/-- The state that is read satisfies what is known of it. -/
theorem getState_bind {f : State → M α} (h : ∀ st, P st → Triple E P (f st) Q) :
    Triple E P (getState >>= f) Q := fun st hst => h st hst st hst

theorem stop_spec {stop : Stop} (hP : ∀ st, P st → E st) : Triple E P (throw stop : M α) Q := hP

theorem return_spec {a : α} (h : ∀ st, P st → Q a st) : Triple E P (pure a : M α) Q := h

end Rules

/-! ### Tile blocks -/

theorem index_row {gw gh x y : ℕ} (h : y * gw + x < gw * gh) : y < gh := by
  by_contra hy
  have : gw * gh ≤ gw * y := Nat.mul_le_mul_left gw (Nat.le_of_not_lt hy)
  rw [Nat.mul_comm] at h
  omega

/-- A tile may be replaced if its column is in the grid, or if the surface refuses it. -/
theorem Grid.replace {surface : Surface} (h : Grid gw gh surface) {tile : Tile} {z : ℕ}
    (hz : z < gw * gh) (hindex : z = tile.yIdx * gw + tile.xIdx) (hx : tile.xIdx < gw)
    (upgrade : Bool) :
    Grid gw gh { surface with
      tiles := Function.update surface.tiles z ((surface.tiles z).replace tile upgrade) } where
  width := h.width
  height := h.height
  size := h.size
  placed w hw := by
    by_cases hwz : w = z
    · subst hwz
      have hy := index_row (hindex ▸ hz)
      have hreplace : ((surface.tiles w).replace tile upgrade).x = tile.xIdx * 64 ∧
          ((surface.tiles w).replace tile upgrade).y = tile.yIdx * 64 := by
        unfold Tile.replace
        cases upgrade <;> exact ⟨rfl, rfl⟩
      simp only [Function.update_self, hreplace]
      omega
    · simpa [hwz] using h.placed w hw
  updated := h.updated

def State.withTile (st : State) (z : ℕ) (tile : Tile) : State :=
  { st with surface := { st.surface with tiles := Function.update st.surface.tiles z tile } }

/-- The tile `z` is noted as one of the region and as updated. -/
def State.push (st : State) (z : ℕ) : State :=
  { st with
    region := { st.region with tiles := st.region.tiles ++ [z] }
    surface := { st.surface with
      updatedTileIndices := st.surface.updatedTileIndices ++ [z] } }

theorem getState_bind_run {α : Type} (f : State → M α) (st : State) :
    (getState >>= f) st = f st st := rfl

theorem require_bind {α : Type} (c : Prop) [Decidable c] (rc : ℤ) (f : Unit → M α) (st : State) :
    (require c rc >>= f) st = if c then f () st else .error (.fail rc) st := by
  rw [run_bind, require]
  split_ifs <;> rfl

theorem modifySurface_bind {α : Type} (f : Surface → Surface) (g : Unit → M α) (st : State) :
    (modifySurface f >>= g) st = g () { st with surface := f st.surface } := rfl

/-- What `progressive_surface_tile_replace` does, all at once. -/
theorem surfaceTileReplace_eq (tile : Tile) (upgrade : Bool) (rc : ℤ) (st : State) :
    surfaceTileReplace tile upgrade rc st =
      let z := st.surface.zIdx tile
      let st' := st.withTile z ((st.surface.tiles z).replace tile upgrade)
      if z < st.surface.gridSize then
        if st.region.tiles.length < st.region.numTiles ∧
            st.surface.updatedTileIndices.length < st.surface.gridSize then .ok () (st'.push z)
        else .error (.fail rc) st'
      else .error (.fail rc) st := by
  dsimp only
  unfold surfaceTileReplace
  rw [getState_bind_run, require_bind]
  refine if_congr Iff.rfl ?_ rfl
  rw [modifySurface_bind, require_bind, require_bind]
  by_cases h1 : st.region.tiles.length < st.region.numTiles
  · by_cases h2 : st.surface.updatedTileIndices.length < st.surface.gridSize
    · rw [if_pos h1, if_pos h2, if_pos ⟨h1, h2⟩]
      rfl
    · rw [if_pos h1, if_neg h2, if_neg fun h => h2 h.2]
      rfl
  · rw [if_neg h1, if_neg fun h => h1 h.1]
    rfl

theorem surfaceTileReplace_spec (hgw : gw < 1024) {tile : Tile} (hx : tile.xIdx < 2 ^ 16)
    (hy : tile.yIdx < 2 ^ 16)
    (hsane : tile.xIdx < gw ∨ gw * gh ≤ tile.yIdx * gw + tile.xIdx) (upgrade : Bool) (rc : ℤ) :
    Triple (Failed gw gh) (Inv call gw gh size due begun ended) (surfaceTileReplace tile upgrade rc)
      fun _ => Inv call gw gh size due begun ended := by
  intro st h
  have hmul : tile.yIdx * gw ≤ 2 ^ 16 * 1024 := Nat.mul_le_mul hy.le hgw.le
  have hz : st.surface.zIdx tile = tile.yIdx * gw + tile.xIdx := by
    rw [Surface.zIdx, h.grid.width]
    exact Nat.mod_eq_of_lt (by omega)
  rw [surfaceTileReplace_eq]
  dsimp only
  split_ifs with hlt hroom
  all_goals
    try rw [h.grid.size] at hlt
  · have hgrid := h.grid.replace hlt hz (hsane.resolve_right (by omega)) upgrade
    refine { h with grid := { hgrid with updated := fun w hw => ?_ } }
    rcases List.mem_append.mp hw with hw | hw
    · exact h.grid.updated w hw
    · rw [List.mem_singleton.mp hw]
      exact hlt
  · exact h.grid.replace hlt hz (hsane.resolve_right (by omega)) upgrade
  · exact h.grid

theorem takeTile_spec (hgw : gw < 1024) {s : List UInt8} {read : Option (Tile × List UInt8)}
    (hread : ∀ tile rest, read = some (tile, rest) →
      tile.xIdx = u16 (s.drop 3) ∧ tile.yIdx = u16 (s.drop 5) ∧ rest <:+ s)
    (hsane : u16 (s.drop 3) < gw ∨ gw * gh ≤ u16 (s.drop 5) * gw + u16 (s.drop 3))
    (upgrade : Bool) (rc : ℤ) :
    Triple (Failed gw gh) (Inv call gw gh size due begun ended) (takeTile read upgrade rc)
      fun rest st => rest <:+ s ∧ Inv call gw gh size due begun ended st := by
  unfold takeTile
  split
  · exact stop_spec fun _ h => h.failed
  · rename_i tile rest
    obtain ⟨hx, hy, hrest⟩ := hread tile rest rfl
    refine (surfaceTileReplace_spec hgw ?_ ?_ ?_ upgrade rc).bind fun _ => return_spec fun _ h =>
      ⟨hrest, h⟩
    · rw [hx]
      exact u16_lt _
    · rw [hy]
      exact u16_lt _
    · rw [hx, hy]
      exact hsane

theorem tileBlock_spec (hgw : gw < 1024) {blockType : ℕ} {s : List UInt8}
    (hsane : TileSane gw gh (blockType, s)) (blockLen : ℕ) :
    Triple (Failed gw gh) (Inv call gw gh size due begun ended) (tileBlock blockType blockLen s)
      fun rest st => rest <:+ s ∧ Inv call gw gh size due begun ended st := by
  unfold tileBlock
  split_ifs with h1 h2 h3
  · exact takeTile_spec hgw (fun _ _ => readTile_some) (hsane (by simp [tileTypes, h1])) _ _
  · exact takeTile_spec hgw (fun _ _ => readTile_some) (hsane (by simp [tileTypes, h2])) _ _
  · exact takeTile_spec hgw (fun _ _ => readTileUpgrade_some) (hsane (by simp [tileTypes, h3])) _ _
  · exact stop_spec fun _ h => h.failed

/-- A block that has as many bytes as it says ends where the next one is scanned. -/
theorem rest_eq_drop {s rest : List UInt8} {len : ℕ} (h : rest <:+ s.drop 6)
    (hlen : s.length - rest.length = len) : rest = s.drop len := by
  rw [← hlen]
  exact List.suffix_iff_eq_drop.mp (h.trans (List.drop_suffix 6 s))

theorem tileLoop_spec (hgw : gw < 1024) {start : ℕ} (rounds : ℕ) {s : List UInt8} {count : ℕ}
    (hstart : s.length ≤ start)
    (hsane : ∀ t ∈ scanTiles rounds (size - (start - s.length)) s, TileSane gw gh t) :
    Triple (Failed gw gh) (Inv call gw gh size due begun ended) (tileLoop start rounds s count)
      fun r st => r.1 <:+ s ∧ Inv call gw gh size due begun ended st := by
  induction rounds generalizing s count with
  | zero => exact return_spec fun _ h => ⟨List.suffix_refl s, h⟩
  | succ rounds ih =>
    rw [tileLoop]
    refine getState_bind fun st hst => ?_
    split_ifs with hmore
    · rw [hst.size] at hmore
      rw [scanTiles, if_pos ⟨hmore.1, by omega⟩] at hsane
      obtain ⟨hhead, htail⟩ := List.forall_mem_cons.mp hsane
      refine guarded (fun _ h => h.failed) fun hlen => ?_
      refine (tileBlock_spec hgw hhead _).bind fun rest => ?_
      refine guarded (fun _ h => h.2.failed) fun hread => ?_
      intro st' ⟨hrest, hst'⟩
      have hdrop := rest_eq_drop hrest hread
      have hsize : size - (start - rest.length) =
          size - (start - s.length) - u32 (s.drop 2) := by
        rw [hdrop, List.length_drop]
        omega
      have hsuffix : rest <:+ s := hdrop ▸ List.drop_suffix _ s
      have hih := @ih rest (count + 1) (hsuffix.length_le.trans hstart)
        (by rw [hsize, hdrop]; exact htail)
      exact (hih.conseq (fun _ h => h) fun r st h => ⟨h.1.trans hsuffix, h.2⟩) st' hst'
    · exact fun _ h => ⟨List.suffix_refl s, h⟩

/-! ### Region blocks -/

variable {env : Env}

theorem runComponents_place (format : ℕ) (tile : Tile) (y cb cr : Component) :
    (runComponents env format tile y cb cr).x = tile.x ∧
      (runComponents env format tile y cb cr).y = tile.y := by
  unfold runComponents
  dsimp only
  split_ifs <;> exact ⟨rfl, rfl⟩

/-- Decoding a tile does not move it. -/
theorem tileWork_place (format contextFlags : ℕ) (region : BlockRegion) (tile : Tile) :
    (tileWork env format contextFlags region tile).x = tile.x ∧
      (tileWork env format contextFlags region tile).y = tile.y := by
  unfold tileWork
  split_ifs
  · unfold decompressTileFirst
    dsimp only
    split
    · exact ⟨rfl, rfl⟩
    · exact runComponents_place _ _ _ _ _
  · unfold decompressTileUpgrade upgradeTile
    dsimp only
    split
    · exact ⟨rfl, rfl⟩
    · exact runComponents_place _ _ _ _ _
  · exact ⟨rfl, rfl⟩

theorem workTiles_spec (tiles : List ℕ) :
    Triple (Failed gw gh) (Inv call gw gh size due begun ended) (workTiles env tiles)
      fun _ => Inv call gw gh size due begun ended := by
  induction tiles with
  | nil => exact return_spec fun _ h => h
  | cons z tiles ih =>
    refine Triple.bind (Q := fun _ => Inv call gw gh size due begun ended) (fun st h => ?_) fun _ => ih
    refine { h with grid := { h.grid with placed := fun w hw => ?_ } }
    by_cases hwz : w = z
    · subst hwz
      simp only [Function.update_self]
      rw [(tileWork_place _ _ _ _).1, (tileWork_place _ _ _ _).2]
      exact h.grid.placed w hw
    · simpa [hwz] using h.grid.placed w hw

theorem readTiles_spec (hgw : gw < 1024) {s : List UInt8}
    (hsane : ∀ t ∈ scanTiles (s.length + 1) size s, TileSane gw gh t) :
    Triple (Failed gw gh) (Inv call gw gh size due begun ended) (readTiles s)
      fun rest st => rest <:+ s ∧ Inv call gw gh size due begun ended st := by
  unfold readTiles
  refine getState_bind fun st _ => guarded (fun _ h => h.failed) fun _ => ?_
  have hscan : size - (s.length - s.length) = size := by omega
  refine (tileLoop_spec hgw (s.length + 1) le_rfl (by rw [hscan]; exact hsane)).bind fun r => ?_
  exact guarded (fun _ h => h.2.failed) fun _ => guarded (fun _ h => h.2.failed) fun _ =>
    return_spec fun _ h => h

theorem processTiles_spec (hgw : gw < 1024) {s : List UInt8}
    (hsane : ∀ t ∈ scanTiles (s.length + 1) size s, TileSane gw gh t) :
    Triple (Failed gw gh) (Inv call gw gh size due begun ended) (processTiles env s)
      fun r st => r.2 <:+ s ∧ Inv call gw gh size due begun ended st := by
  unfold processTiles
  refine (readTiles_spec hgw hsane).bind fun rest => ?_
  have hwork : Triple (Failed gw gh)
      (fun st => rest <:+ s ∧ Inv call gw gh size due begun ended st) (processWork env)
      fun _ st => rest <:+ s ∧ Inv call gw gh size due begun ended st := by
    unfold processWork
    refine getState_bind fun st hst => ?_
    split_ifs
    · exact fun st' h => ((workTiles_spec _).conseq (fun _ h => h) fun _ _ h' => ⟨h.1, h'⟩) st' h.2
    · exact return_spec fun _ h => h
    · exact stop_spec fun _ h => h.2.failed
  exact hwork.bind fun _ => return_spec fun _ h => h

/-- The header of a region block clears the region structure and fills it with zero rectangles. -/
theorem wbReadRegionHeader_spec (s : List UInt8) :
    Triple (Failed gw gh) (Inv call gw gh size due begun ended) (wbReadRegionHeader s)
      fun rest st => (rest = s.drop 12 ∧ st.region = headerRegion s) ∧
        Inv call gw gh (headerRegion s).tileDataSize false begun ended st := by
  unfold wbReadRegionHeader modifyRegion
  dsimp only
  refine Triple.bind (Q := fun _ st => Grid gw gh st.surface ∧ st.frameBegin = begun ∧
    st.frameEnd = ended) (fun st h => ⟨h.grid, h.begun, h.ended⟩) fun _ => ?_
  refine guarded (fun _ h => h.1) fun _ => ?_
  refine Triple.bind (Q := fun _ st => st.region = headerRegion s ∧
    Inv call gw gh (headerRegion s).tileDataSize false begun ended st) (fun st h => ⟨rfl, ?_⟩) fun _ => ?_
  · exact ⟨h.1, fun _ => Or.inr ⟨(headerRegion s).numRects, rfl⟩, rfl, h.2.1, h.2.2⟩
  · refine guarded (fun _ h => h.2.failed) fun _ => guarded (fun _ h => h.2.failed) fun _ =>
      guarded (fun _ h => h.2.failed) fun _ => guarded (fun _ h => h.2.failed) fun _ =>
      guarded (fun _ h => h.2.failed) fun _ => guarded (fun _ h => h.2.failed) fun _ =>
      guarded (fun _ h => h.2.failed) fun _ => ?_
    exact return_spec fun _ h => ⟨⟨rfl, h.1⟩, h.2⟩

theorem readRegionTables_spec {s : List UInt8} (hsane : ∀ rect ∈ contentRects s, rect.Sane call) :
    Triple (Failed gw gh)
      (fun st => st.region = headerRegion s ∧
        Inv call gw gh (headerRegion s).tileDataSize false begun ended st)
      (readRegionTables (s.drop 12))
      fun rest st => rest = contentData s ∧
        Inv call gw gh (headerRegion s).tileDataSize false begun ended st := by
  unfold readRegionTables modifyRegion
  refine getState_bind fun st hst => ?_
  rw [hst.1]
  refine Triple.bind (Q := fun _ => Inv call gw gh (headerRegion s).tileDataSize false begun ended)
    (fun st h => { h.2 with fit := fun _ => Or.inl hsane }) fun _ => ?_
  refine Triple.bind (Q := fun _ => Inv call gw gh (headerRegion s).tileDataSize false begun ended)
    (fun st h => { h with }) fun _ => ?_
  refine guarded (fun _ h => h.failed) fun _ => ?_
  refine Triple.bind (Q := fun _ => Inv call gw gh (headerRegion s).tileDataSize false begun ended)
    (fun st h => { h with }) fun _ => ?_
  exact return_spec fun _ h => ⟨rfl, h⟩

theorem wbSkipRegion_spec (s : List UInt8) :
    Triple (Failed gw gh) (Inv call gw gh size due begun ended) (wbSkipRegion s)
      fun r st => r.2 <:+ s ∧ ∃ size, Inv call gw gh size false begun ended st := by
  unfold wbSkipRegion
  refine (wbReadRegionHeader_spec s).bind fun rest => getState_bind fun st hst =>
    guarded (fun _ h => h.2.failed) fun _ => return_spec fun st h => ⟨?_, _, h.2⟩
  rw [h.1.1]
  exact (List.drop_suffix _ _).trans (List.drop_suffix 12 s)

theorem wbRegion_spec (hgw : gw < 1024) {s : List UInt8}
    (hsane : begun = true → ended = false → ContentSane call gw gh s) :
    Triple (Failed gw gh) (Inv call gw gh size due begun ended) (wbRegion env s)
      fun r st => r.2 <:+ s ∧ ∃ size, Inv call gw gh size false begun ended st := by
  unfold wbRegion
  refine getState_bind fun st hst => ?_
  rw [hst.begun, hst.ended]
  split_ifs with hflags
  · exact wbSkipRegion_spec s
  · obtain ⟨hbegun, hended⟩ := not_or.mp hflags
    obtain ⟨hrects, htiles⟩ := hsane (not_not.mp hbegun) (by simpa using hended)
    refine (wbReadRegionHeader_spec s).bind fun rest => ?_
    intro st' ⟨⟨hrest, hregion⟩, hst'⟩
    subst hrest
    refine Triple.bind (readRegionTables_spec hrects) (fun data => ?_) st' ⟨hregion, hst'⟩
    intro st'' ⟨hdata, hst''⟩
    subst hdata
    have hsuffix : contentData s <:+ s :=
      (((List.drop_suffix _ _).trans (List.drop_suffix _ _)).trans (List.drop_suffix _ _)).trans
        (List.drop_suffix 12 s)
    exact ((processTiles_spec hgw htiles).conseq (fun _ h => h) fun _ _ h =>
      ⟨h.1.trans hsuffix, _, h.2⟩) st'' hst''

/-! ### Messages -/

/-- Whether there is a region block in a message, in a frame or not. -/
def hasRegion : ℕ → List UInt8 → Bool
  | 0, _ => false
  | n + 1, s => 6 ≤ s.length && (u16 s = PROGRESSIVE_WBT_REGION || hasRegion n (s.drop (u32 (s.drop 2))))

/-- A block keeps the invariant; a region block is not due any more. -/
theorem block_spec (hgw : gw < 1024) {blockType blockLen : ℕ} {s : List UInt8}
    (hsane : blockType = PROGRESSIVE_WBT_REGION ∧ begun = true ∧ ¬ ended = true →
      ContentSane call gw gh s) (due' : Bool)
    (hdue : blockType ≠ PROGRESSIVE_WBT_REGION → due' = false → due = false) :
    Triple (Failed gw gh) (Inv call gw gh size due begun ended) (block env blockType blockLen s)
      fun r st => r.2 <:+ s ∧ ∃ size, Inv call gw gh size due'
        (begun || blockType = PROGRESSIVE_WBT_FRAME_BEGIN)
        (ended || blockType = PROGRESSIVE_WBT_FRAME_END) st := by
  have hdrop : ∀ n, s.drop n <:+ s := fun n => List.drop_suffix n s
  have hother : ∀ {begun ended : Bool} {st : State}, blockType ≠ PROGRESSIVE_WBT_REGION →
      Inv call gw gh size due begun ended st → Inv call gw gh size due' begun ended st :=
    fun htype h => { h with fit := fun hfit => h.fit (hdue htype hfit) }
  unfold block
  split_ifs with h1 h2 h3 h4 h5
  · unfold wbSync
    refine guarded (fun _ h => h.failed) fun _ => guarded (fun _ h => h.failed) fun _ =>
      guarded (fun _ h => h.failed) fun _ => guarded (fun _ h => h.failed) fun _ =>
      return_spec fun st h => ⟨hdrop 6, size, ?_⟩
    simpa [h1, PROGRESSIVE_WBT_SYNC, PROGRESSIVE_WBT_FRAME_BEGIN, PROGRESSIVE_WBT_FRAME_END]
      using hother (by rw [h1]; decide) h
  · unfold wbFrameBegin
    refine guarded (fun _ h => h.failed) fun _ => guarded (fun _ h => h.failed) fun _ =>
      getState_bind fun st hst => guarded (fun _ h => h.failed) fun _ =>
      guarded (fun _ h => h.failed) fun _ => ?_
    refine Triple.bind (Q := fun _ => Inv call gw gh size due true ended)
      (fun st h => { h with begun := rfl }) fun _ => return_spec fun st h => ⟨hdrop 6, size, ?_⟩
    simpa [h2, PROGRESSIVE_WBT_FRAME_BEGIN, PROGRESSIVE_WBT_FRAME_END]
      using hother (by rw [h2]; decide) h
  · unfold wbFrameEnd
    refine guarded (fun _ h => h.failed) fun _ => guarded (fun _ h => h.failed) fun _ => ?_
    refine Triple.bind (Q := fun _ => Inv call gw gh size due begun true)
      (fun st h => { h with ended := rfl }) fun _ =>
      return_spec fun st h => ⟨List.suffix_refl s, size, ?_⟩
    simpa [h3, PROGRESSIVE_WBT_FRAME_BEGIN, PROGRESSIVE_WBT_FRAME_END]
      using hother (by rw [h3]; decide) h
  · unfold wbContext
    refine guarded (fun _ h => h.failed) fun _ => guarded (fun _ h => h.failed) fun _ => ?_
    refine Triple.bind (Q := fun _ => Inv call gw gh size due begun ended) (fun st h => { h with })
      fun _ => guarded (fun _ h => h.failed) fun _ => return_spec fun st h => ⟨hdrop 4, size, ?_⟩
    simpa [h4, PROGRESSIVE_WBT_CONTEXT, PROGRESSIVE_WBT_FRAME_BEGIN, PROGRESSIVE_WBT_FRAME_END]
      using hother (by rw [h4]; decide) h
  · refine (wbRegion_spec hgw fun hbegun hended => hsane ⟨h5, hbegun, by simp [hended]⟩).conseq
      (fun _ h => h) fun r st ⟨hrest, n, h⟩ => ⟨hrest, n, ?_⟩
    have hfit : Inv call gw gh n due' begun ended st := { h with fit := fun _ => h.fit rfl }
    simpa [h5, PROGRESSIVE_WBT_REGION, PROGRESSIVE_WBT_FRAME_BEGIN, PROGRESSIVE_WBT_FRAME_END]
      using hfit
  · exact stop_spec fun _ h => h.failed

theorem blockLoop_spec (hgw : gw < 1024) (rounds : ℕ) {rc : ℤ} {s : List UInt8} {begun ended : Bool}
    (hsane : ∀ content ∈ scanRegions rounds begun ended s, ContentSane call gw gh content) :
    Triple (Failed gw gh) (fun st => ∃ size, Inv call gw gh size (hasRegion rounds s) begun ended st)
      (blockLoop env rounds rc s)
      fun _ st => ∃ size begun ended, Inv call gw gh size false begun ended st := by
  induction rounds generalizing rc s begun ended with
  | zero => exact return_spec fun _ ⟨size, h⟩ => ⟨size, begun, ended, h⟩
  | succ rounds ih =>
    rw [blockLoop]
    split_ifs with hmore
    · rw [scanRegions, if_pos hmore] at hsane
      refine guarded (fun _ ⟨_, h⟩ => h.failed) fun hlen => ?_
      intro st ⟨size, hst⟩
      refine Triple.bind (block_spec hgw (fun hregion => ?_)
        (hasRegion rounds (s.drop (u32 (s.drop 2)))) fun htype hdue => ?_) (fun r => ?_) st hst
      · refine hsane _ (List.mem_append_left _ ?_)
        rw [if_pos hregion]
        exact List.mem_singleton_self _
      · simp [hasRegion, htype, hdue]
      · obtain ⟨rc, rest⟩ := r
        refine guarded (fun _ ⟨_, _, h⟩ => h.failed) fun _ =>
          guarded (fun _ ⟨_, _, h⟩ => h.failed) fun hread => ?_
        intro st ⟨hrest, hst⟩
        have hdrop := rest_eq_drop hrest hread
        subst hdrop
        exact ih (fun content hcontent => hsane content (List.mem_append_right _ hcontent)) st hst
    · refine guarded (fun _ ⟨_, h⟩ => h.failed) fun _ =>
        return_spec fun _ ⟨size, h⟩ => ⟨size, begun, ended, ?_⟩
      simpa [hasRegion, hmore] using h

end FreeRDP.Progressive
