import FreeRDP.Progressive.Equiv.Copies

/-!
# Decoding the tiles of a region in a batch

`progressive_process_tiles` reads all tile blocks of a region before it decodes the first, and a
thread pool runs the work items in any order.  The blocks speak to the decoder through the tiles of
the surface.  As long as no tile is named twice, the tiles end up as if each block had been decoded
right after it was read.
-/

namespace FreeRDP.Progressive

open Triples

variable {env : Env}

/-! ### Decoding block by block -/

variable (env) in
/-- The tile of the block that was read last is decoded. -/
def decodeLast : M Unit := do
  let st ← getState
  match st.region.tiles.getLast? with
  | some z => workTile env z
  | none => pure ()

variable (env) in
/-- The reading loop of `progressive_process_tiles` with each tile decoded as soon as it is read. -/
def sequentialLoop (start : ℕ) : ℕ → List UInt8 → ℕ → M (List UInt8 × ℕ)
  | 0, s, count => return (s, count)
  | rounds + 1, s, count => do
    let st ← getState
    if 6 ≤ s.length ∧ st.region.tileDataSize > start - s.length then do
      let blockType := u16 s
      let blockLen := u32 (s.drop 2)
      require (blockLen ≤ s.length) (-1003)
      let rest ← tileBlock blockType blockLen (s.drop 6)
      decodeLast env
      require (s.length - rest.length = blockLen) (-1040)
      sequentialLoop start rounds rest (count + 1)
    else return (s, count)

variable (env) in
/-- `progressive_process_tiles` without a second pass. -/
def processSequentially (s : List UInt8) : M (ℤ × List UInt8) := do
  let st ← getState
  require (st.region.tileDataSize ≤ s.length) (-1)
  let (rest, count) ← sequentialLoop env s.length (s.length + 1) s 0
  require (s.length - rest.length = st.region.tileDataSize) (-1041)
  require (count = st.region.numTiles) (-1044)
  return (toInt (s.length - rest.length), rest)

/-! ### Work items -/

def State.withTiles (st : State) (tiles : ℕ → Tile) : State :=
  { st with surface := { st.surface with tiles := tiles } }

variable (env) in
/-- The tiles of a state with `zs` decoded, each of them once. -/
def State.decodedTiles (st : State) (zs : List ℕ) (z : ℕ) : Tile :=
  if z ∈ zs then tileWork env st.format st.contextFlags st.region (st.surface.tiles z)
  else st.surface.tiles z

variable (env) in
/-- The state with the tiles `zs` decoded. -/
def State.decoded (st : State) (zs : List ℕ) : State := st.withTiles (st.decodedTiles env zs)

theorem decoded_nil (st : State) : st.decoded env [] = st := by
  have htiles : st.decodedTiles env [] = st.surface.tiles := by
    funext z
    simp [State.decodedTiles]
  rw [State.decoded, htiles]
  rfl

theorem decoded_congr (st : State) {zs zs' : List ℕ} (h : ∀ z, z ∈ zs ↔ z ∈ zs') :
    st.decoded env zs = st.decoded env zs' := by
  have htiles : st.decodedTiles env zs = st.decodedTiles env zs' := by
    funext z
    simp only [State.decodedTiles, h]
  rw [State.decoded, htiles, ← State.decoded]

theorem workTile_decoded {zs : List ℕ} {z : ℕ} (hz : z ∉ zs) (st : State) :
    workTile env z (st.decoded env zs) = .ok () (st.decoded env (z :: zs)) := by
  have htiles : Function.update (st.decodedTiles env zs) z
      (tileWork env st.format st.contextFlags st.region (st.decodedTiles env zs z)) =
      st.decodedTiles env (z :: zs) := by
    funext w
    by_cases hw : w = z
    · subst hw
      simp [State.decodedTiles, hz]
    · simp [State.decodedTiles, hw]
  rw [State.decoded, State.decoded, ← htiles]
  rfl

/-- Work items for different tiles leave each of these decoded. -/
theorem workTiles_decoded {zs ys : List ℕ} (h : zs.Nodup) (hys : ∀ z ∈ zs, z ∉ ys) (st : State) :
    workTiles env zs (st.decoded env ys) = .ok () (st.decoded env (zs ++ ys)) := by
  induction zs generalizing ys with
  | nil => rfl
  | cons z zs ih =>
    obtain ⟨hz, h⟩ := List.nodup_cons.mp h
    obtain ⟨hzy, hys⟩ := List.forall_mem_cons.mp hys
    rw [workTiles, Triples.bind_ok (workTile_decoded hzy st), ih h]
    · refine congrArg _ (decoded_congr st fun w => ?_)
      simp [or_left_comm]
    · intro w hw
      rw [List.mem_cons, not_or]
      exact ⟨fun hwz => hz (hwz ▸ hw), hys w hw⟩

theorem workTiles_eq {zs : List ℕ} (h : zs.Nodup) (st : State) :
    workTiles env zs st = .ok () (st.decoded env zs) := by
  have hwork := @workTiles_decoded env zs [] h (fun _ _ => List.not_mem_nil) st
  rwa [decoded_nil, List.append_nil] at hwork

/-! ### One block -/

/-- The position in a surface that a tile block names. -/
def tilePosition (gridWidth : ℕ) (s : List UInt8) : ℕ :=
  (u16 (s.drop 5) * gridWidth + u16 (s.drop 3)) % 2 ^ 32

/-- The tile `z` has been taken over: it is one more tile of the region, and nothing else that is
looked at while blocks are read has changed. -/
structure Taken (z : ℕ) (st st' : State) : Prop where
  tiles : st'.region.tiles = st.region.tiles ++ [z]
  gridWidth : st'.surface.gridWidth = st.surface.gridWidth
  size : st'.region.tileDataSize = st.region.tileDataSize
  numTiles : st'.region.numTiles = st.region.numTiles

/-- A tile block that is taken over names one more tile, and it does not matter for it that tiles read
before have been decoded. -/
theorem surfaceTileReplace_ok {tile : Tile} {upgrade : Bool} {rc : ℤ} {st st' : State}
    (h : surfaceTileReplace tile upgrade rc st = .ok () st') :
    Taken (st.surface.zIdx tile) st st' ∧ (st.surface.zIdx tile ∉ st.region.tiles → ∀ env,
      surfaceTileReplace tile upgrade rc (st.decoded env st.region.tiles) =
        .ok () (st'.decoded env st.region.tiles)) := by
  rw [surfaceTileReplace_eq] at h
  dsimp only at h
  split_ifs at h with hz hroom
  obtain rfl : _ = st' := (EStateM.Result.ok.injEq _ _ _ _ ▸ h).2
  refine ⟨⟨rfl, rfl, rfl, rfl⟩, fun hnew env => ?_⟩
  rw [surfaceTileReplace_eq]
  -- none of the checks looks at the tiles
  have hreplace : (st.decoded env st.region.tiles).withTile (st.surface.zIdx tile)
      (((st.decoded env st.region.tiles).surface.tiles (st.surface.zIdx tile)).replace tile upgrade) =
      (st.withTile (st.surface.zIdx tile)
        ((st.surface.tiles (st.surface.zIdx tile)).replace tile upgrade)).decoded env
          st.region.tiles := by
    refine congrArg st.withTiles (funext fun w => ?_)
    by_cases hw : w = st.surface.zIdx tile
    · rw [hw]
      simp [State.decoded, State.decodedTiles, State.withTile, State.withTiles, hnew]
    · simp [State.decoded, State.decodedTiles, State.withTile, State.withTiles, hw]
  refine (if_pos hz).trans ((if_pos hroom).trans ?_)
  exact congrArg (fun st => EStateM.Result.ok () (State.push st _)) hreplace

theorem takeTile_ok {s rest : List UInt8} {read : Option (Tile × List UInt8)}
    (hread : ∀ tile rest, read = some (tile, rest) →
      tile.xIdx = u16 (s.drop 3) ∧ tile.yIdx = u16 (s.drop 5) ∧ rest <:+ s)
    {upgrade : Bool} {rc : ℤ} {st st' : State} (h : takeTile read upgrade rc st = .ok rest st') :
    rest <:+ s ∧ Taken (tilePosition st.surface.gridWidth s) st st' ∧
      (tilePosition st.surface.gridWidth s ∉ st.region.tiles → ∀ env,
        takeTile read upgrade rc (st.decoded env st.region.tiles) =
          .ok rest (st'.decoded env st.region.tiles)) := by
  cases read with
  | none => exact absurd h (by simp [takeTile, run_throw])
  | some r =>
    obtain ⟨tile, rest'⟩ := r
    obtain ⟨u, t, hreplace, hreturn⟩ := exists_of_bind_ok h
    obtain ⟨rfl, rfl⟩ : rest' = rest ∧ t = st' := by simpa [pure, EStateM.pure] using hreturn
    obtain ⟨hx, hy, hrest⟩ := hread tile rest' rfl
    obtain ⟨htaken, hnew⟩ := surfaceTileReplace_ok hreplace
    have hz : st.surface.zIdx tile = tilePosition st.surface.gridWidth s := by
      rw [Surface.zIdx, hx, hy, tilePosition]
    exact ⟨hrest, hz ▸ htaken, fun hzn env => bind_ok (hnew (hz ▸ hzn) env)⟩

theorem tileBlock_ok {blockType blockLen : ℕ} {s rest : List UInt8} {st st' : State}
    (h : tileBlock blockType blockLen s st = .ok rest st') :
    rest <:+ s ∧ Taken (tilePosition st.surface.gridWidth s) st st' ∧
      (tilePosition st.surface.gridWidth s ∉ st.region.tiles → ∀ env,
        tileBlock blockType blockLen s (st.decoded env st.region.tiles) =
          .ok rest (st'.decoded env st.region.tiles)) := by
  unfold tileBlock at h ⊢
  split_ifs at h ⊢ with h1 h2 h3
  · exact takeTile_ok (fun _ _ => readTile_some) h
  · exact takeTile_ok (fun _ _ => readTile_some) h
  · exact takeTile_ok (fun _ _ => readTileUpgrade_some) h
  · exact absurd h (by simp [run_throw])

/-! ### All blocks -/

theorem decodeLast_decoded {st : State} {zs : List ℕ} {z : ℕ} (htiles : st.region.tiles = zs ++ [z])
    (hz : z ∉ zs) :
    decodeLast env (st.decoded env zs) = .ok () (st.decoded env st.region.tiles) := by
  have hlast : (st.decoded env zs).region.tiles.getLast? = some z := by
    show st.region.tiles.getLast? = some z
    rw [htiles, List.getLast?_concat]
  show (match (st.decoded env zs).region.tiles.getLast? with
    | some z => workTile env z
    | none => pure ()) (st.decoded env zs) = _
  rw [hlast]
  dsimp only
  rw [workTile_decoded hz, htiles]
  exact congrArg _ (decoded_congr st fun w => by simp [or_comm])

/-- The positions that the tile blocks of a region name, in their order, where `size` bytes of its data
are left. -/
def tilePositions (gridWidth rounds size : ℕ) (s : List UInt8) : List ℕ :=
  (scanTiles rounds size s).map fun t => tilePosition gridWidth t.2

/-- The reading loop takes over the positions that the blocks name. -/
theorem tileLoop_ok {start rounds count : ℕ} {s : List UInt8} {r : List UInt8 × ℕ} {st st' : State}
    (hstart : s.length ≤ start) (h : tileLoop start rounds s count st = .ok r st') :
    st'.region.tiles = st.region.tiles ++ tilePositions st.surface.gridWidth rounds
      (st.region.tileDataSize - (start - s.length)) s ∧
    st'.region.numTiles = st.region.numTiles ∧
    r.2 + st.region.tiles.length = count + st'.region.tiles.length := by
  induction rounds generalizing s count st with
  | zero =>
    obtain ⟨rfl, rfl⟩ : (s, count) = r ∧ st = st' := by
      simpa [tileLoop, pure, EStateM.pure] using h
    exact ⟨(List.append_nil _).symm, rfl, rfl⟩
  | succ rounds ih =>
    rw [tileLoop, getState_bind_run] at h
    rw [tilePositions, scanTiles]
    split_ifs at h with hmore
    · dsimp only at h
      rw [require_bind] at h
      split_ifs at h with hlen
      obtain ⟨rest, t, hblock, h⟩ := exists_of_bind_ok h
      rw [require_bind] at h
      split_ifs at h with hread
      obtain ⟨hrest, htaken, -⟩ := tileBlock_ok hblock
      have hdrop := rest_eq_drop hrest hread
      have hshort := hrest.length_le
      rw [List.length_drop] at hshort
      have hleft : t.region.tileDataSize - (start - rest.length) =
          st.region.tileDataSize - (start - s.length) - u32 (s.drop 2) := by
        rw [htaken.size]
        omega
      obtain ⟨htiles, hnum, hcount⟩ := ih (by omega) h
      rw [htaken.tiles, List.length_append, List.length_singleton] at hcount
      refine ⟨?_, hnum.trans htaken.numTiles, by omega⟩
      rw [htiles, htaken.tiles, htaken.gridWidth, hleft, if_pos ⟨hmore.1, by omega⟩, hdrop,
        List.append_assoc]
      rfl
    · obtain ⟨rfl, rfl⟩ : (s, count) = r ∧ st = st' := by simpa [pure, EStateM.pure] using h
      rw [if_neg (by omega)]
      exact ⟨(List.append_nil _).symm, rfl, rfl⟩

/-- The loop that decodes at once goes through the same states as the reading loop, with the tiles read
so far decoded. -/
theorem sequentialLoop_eq {start rounds count : ℕ} {s : List UInt8} {r : List UInt8 × ℕ}
    {st st' : State} (h : tileLoop start rounds s count st = .ok r st')
    (hnodup : st'.region.tiles.Nodup) :
    st.region.tiles <+: st'.region.tiles ∧
      sequentialLoop env start rounds s count (st.decoded env st.region.tiles) =
        .ok r (st'.decoded env st'.region.tiles) := by
  induction rounds generalizing s count st with
  | zero =>
    obtain ⟨rfl, rfl⟩ : (s, count) = r ∧ st = st' := by
      simpa [tileLoop, pure, EStateM.pure] using h
    exact ⟨List.prefix_refl _, rfl⟩
  | succ rounds ih =>
    rw [tileLoop, getState_bind_run] at h
    rw [sequentialLoop, getState_bind_run]
    have hdata : (st.decoded env st.region.tiles).region.tileDataSize = st.region.tileDataSize := rfl
    rw [hdata]
    split_ifs at h ⊢ with hmore
    · dsimp only at h ⊢
      rw [require_bind] at h ⊢
      split_ifs at h ⊢ with hlen
      obtain ⟨rest, t, hblock, h⟩ := exists_of_bind_ok h
      rw [require_bind] at h
      split_ifs at h with hread
      obtain ⟨-, htaken, hblock⟩ := tileBlock_ok hblock
      obtain ⟨hsub, hrun⟩ := ih h
      have hz := htaken.tiles
      have hnew : tilePosition st.surface.gridWidth (s.drop 6) ∉ st.region.tiles := by
        have hpart := hnodup.sublist hsub.sublist
        rw [hz] at hpart
        exact fun hmem => (List.nodup_append.mp hpart).2.2 _ hmem _ (List.mem_singleton_self _) rfl
      refine ⟨(hz ▸ List.prefix_append _ _).trans hsub, ?_⟩
      rw [bind_ok (hblock hnew env), bind_ok (decodeLast_decoded hz hnew), require_bind, if_pos hread]
      exact hrun
    · obtain ⟨rfl, rfl⟩ : (s, count) = r ∧ st = st' := by simpa [pure, EStateM.pure] using h
      exact ⟨List.prefix_refl _, rfl⟩

/-! ### A region -/

/-- The tile blocks of a region are accepted: what they say is taken over by the surface. -/
def Accepted (s : List UInt8) (st : State) : Prop := ∃ rest st', readTiles s st = .ok rest st'

variable (env) in
/-- A region is decoded as if each tile block had been decoded when it was read. -/
def Sequential (s : List UInt8) (st : State) : Prop :=
  ∃ r st' st'', processTiles env s st = .ok r st' ∧ processSequentially env s st = .ok r st'' ∧
    st'.surface.tiles = st''.surface.tiles

/-- The positions that the tile blocks of a region name. -/
def regionPositions (s : List UInt8) (st : State) : List ℕ :=
  tilePositions st.surface.gridWidth (s.length + 1) st.region.tileDataSize s

/-- What reading the tile blocks of a region leaves, and what decoding each at once does. -/
theorem readTiles_ok {s rest : List UInt8} {st st' : State} (h : readTiles s st = .ok rest st')
    (htiles : st.region.tiles = []) :
    st'.region.tiles = regionPositions s st ∧ st'.region.numTiles = st.region.numTiles ∧
      (regionPositions s st).length = st.region.numTiles ∧
        ((regionPositions s st).Nodup → ∀ env, processSequentially env s st =
        .ok (toInt (s.length - rest.length), rest) (st'.decoded env st'.region.tiles)) := by
  rw [readTiles, getState_bind_run, require_bind] at h
  split_ifs at h with hsize
  obtain ⟨⟨r, count⟩, t, hloop, h⟩ := exists_of_bind_ok h
  dsimp only at h
  rw [require_bind] at h
  split_ifs at h with hread
  rw [require_bind] at h
  split_ifs at h with hcount
  obtain ⟨rfl, rfl⟩ : r = rest ∧ t = st' := by simpa [pure, EStateM.pure] using h
  obtain ⟨hpos, hnum, hlength⟩ := tileLoop_ok le_rfl hloop
  have hregion : t.region.tiles = regionPositions s st := by
    rw [hpos, htiles, Nat.sub_self, Nat.sub_zero]
    rfl
  rw [hregion, htiles, List.length_nil] at hlength
  refine ⟨hregion, hnum, by omega, fun hnodup env => ?_⟩
  obtain ⟨-, hrun⟩ := @sequentialLoop_eq env _ _ _ _ _ _ _ hloop (hregion ▸ hnodup)
  rw [htiles, decoded_nil] at hrun
  rw [processSequentially, getState_bind_run, require_bind, if_pos hsize, bind_ok hrun]
  dsimp only
  rw [require_bind, if_pos hread, require_bind, if_pos hcount]
  rfl

/-- In a region that names no position twice, the tiles are decoded as if each block had been decoded
when it was read if and only if the decoder has threads or nothing to do. -/
theorem processTiles_sequential (env : Env) (s : List UInt8) (st : State)
    (hschedule : ∀ zs, (env.schedule zs).Perm zs) (htiles : st.region.tiles = [])
    (haccepted : Accepted s st) (hdistinct : (regionPositions s st).Nodup) :
    Sequential env s st ↔ env.useThreads ∨ st.region.numTiles = 0 := by
  obtain ⟨rest, st', hread⟩ := haccepted
  obtain ⟨hregion, hnum, hlength, hrun⟩ := readTiles_ok hread htiles
  have hprocess : processTiles env s st =
      (processWork env >>= fun _ => pure (toInt (s.length - rest.length), rest)) st' :=
    bind_ok hread
  have hdone : processWork env st' = .ok () (st'.decoded env st'.region.tiles) →
      Sequential env s st := fun hwork => ⟨_, _, _, hprocess.trans (bind_ok hwork), hrun hdistinct env, rfl⟩
  by_cases hthreads : env.useThreads
  · refine iff_of_true (hdone ?_) (Or.inl hthreads)
    have hperm := hschedule st'.region.tiles
    rw [processWork, getState_bind_run, if_pos hthreads,
      workTiles_eq (hperm.nodup_iff.mpr (hregion ▸ hdistinct))]
    exact congrArg _ (decoded_congr st' fun z => hperm.mem_iff)
  · by_cases hnone : st.region.numTiles = 0
    · refine iff_of_true (hdone ?_) (Or.inr hnone)
      rw [hregion, List.length_eq_zero_iff.mp (hlength.trans hnone), decoded_nil, processWork,
        getState_bind_run, if_neg hthreads, if_pos (hnum.trans hnone)]
      rfl
    · refine iff_of_false ?_ (by simp [hthreads, hnone])
      rintro ⟨r, t, t', hok, -⟩
      have hcrash : processWork env st' = .error .crash st' := by
        rw [processWork, getState_bind_run, if_neg hthreads, if_neg (fun h => hnone (hnum ▸ h))]
        rfl
      rw [hprocess] at hok
      obtain ⟨_, _, hwork, -⟩ := exists_of_bind_ok hok
      rw [hcrash] at hwork
      exact absurd hwork (by simp)

/-- A first tile block in row 0, without data. -/
def firstBlock (xIdx : UInt8) : List UInt8 :=
  [0xC6, 0xCC, 23, 0, 0, 0, 0, 0, 0, xIdx] ++ List.replicate 13 0

/-- An upgrade tile block for the tile at the origin, without data. -/
def originUpgrade : List UInt8 := [0xC7, 0xCC, 26, 0, 0, 0] ++ List.replicate 20 0

/-- The context behind the header and the tables of a region with two blocks, on a surface of two
tiles, which have been decoded once. -/
def pairState (blocks : List UInt8) : State :=
  { freshState { surfaceContextNew blank 65 1 with tiles := fun _ => { Tile.zero with pass := 1 } } with
    frameBegin := true
    region :=
      { BlockRegion.zero with
        numRects := 1, numQuant := 1, numTiles := 2
        tileDataSize := blocks.length, rects := [⟨0, 0, 64, 64⟩]
        quantVals := [Quant.all 6] } }

/-- A region with both tiles. -/
theorem processTiles_sequential_two :
    Sequential plain (firstBlock 0 ++ firstBlock 1) (pairState (firstBlock 0 ++ firstBlock 1)) ↔
      plain.useThreads ∨ (pairState (firstBlock 0 ++ firstBlock 1)).region.numTiles = 0 :=
  processTiles_sequential plain _ _ (fun zs => List.Perm.refl zs) rfl ⟨[], _, rfl⟩ (by decide)

/-- A first tile block and an upgrade of the same tile: the tile is upgraded twice. -/
theorem processTiles_sequential_twice :
    ¬ ∀ (env : Env) (s : List UInt8) (st : State), (∀ zs, (env.schedule zs).Perm zs) →
      st.region.tiles = [] → Accepted s st → Sequential env s st := by
  intro h
  obtain ⟨r, st', st'', hbatch, hseq, htiles⟩ :=
    h plain (firstBlock 0 ++ originUpgrade) (pairState (firstBlock 0 ++ originUpgrade))
      (fun zs => List.Perm.refl zs) rfl ⟨[], _, rfl⟩
  have hpass : (st'.surface.tiles 0).pass = 3 := by
    have hrun : ∃ st, processTiles plain (firstBlock 0 ++ originUpgrade)
        (pairState (firstBlock 0 ++ originUpgrade)) = .ok (49, []) st ∧ (st.surface.tiles 0).pass = 3 := ⟨_, rfl, rfl⟩
    obtain ⟨st, hok, hst⟩ := hrun
    rw [hbatch] at hok
    exact (EStateM.Result.ok.injEq _ _ _ _ ▸ hok).2 ▸ hst
  have hpass' : (st''.surface.tiles 0).pass = 2 := by
    have hrun : ∃ st, processSequentially plain (firstBlock 0 ++ originUpgrade)
        (pairState (firstBlock 0 ++ originUpgrade)) = .ok (49, []) st ∧ (st.surface.tiles 0).pass = 2 := ⟨_, rfl, rfl⟩
    obtain ⟨st, hok, hst⟩ := hrun
    rw [hseq] at hok
    exact (EStateM.Result.ok.injEq _ _ _ _ ▸ hok).2 ▸ hst
  rw [htiles, hpass'] at hpass
  exact absurd hpass (by decide)

end FreeRDP.Progressive
