import FreeRDP.Cache.Equiv.Bounds
import FreeRDP.Cache.Glyph

/-!
# What a glyph text accesses

A text reads its data and the fragments within their bounds (`Inside`), except that

* the byte that says which offset follows a glyph index is read without a look at the length;
* a fragment is copied from the data without a look at the length of the data;
* `glyph_cache_get` admits the entry behind the last one.

`inside_iff` says that a text stays inside if and only if none of its rounds meets one of these, for every
cache that orders can have left behind (`Reachable`).  The rounds are those of the loop over the data, and
for a fragment those of the loop over it.
-/

namespace FreeRDP.Cache.Text

open Checked Iterate Relation Traced

variable {settings : CacheSettings} {ctx : TextContext} {order : TextOrder} {bound : RdpRect}
  {store store' : GlyphStore} {s s' : TextState}

/-- An access stays within its bounds, in an order of `length` bytes. -/
def Inside (length : ℕ) : TextAccess → Prop
  | .data index => index < length
  | .fragment size n => n < size
  | .copy size => size ≤ length
  | .entry number index => index < number
  | .sum _ => True

instance (length : ℕ) : DecidablePred (Inside length) := fun a => by
  cases a <;> unfold Inside <;> infer_instance

/-! ### The caches that orders leave behind -/

/-- The store after the glyph orders that have been processed. -/
inductive Reachable (settings : CacheSettings) : GlyphStore → Prop
  | new : Reachable settings ⟨glyphCacheNew settings, []⟩
  /-- A glyph has arrived, in a Cache Glyph order or in a Fast Glyph order. -/
  | glyph {store : GlyphStore} {id index glyph : ℕ} {cache : GlyphCache} {ok : Bool}
      (h : Reachable settings store) (hput : glyphCachePut id index glyph store.cache = some (cache, ok)) :
      Reachable settings { store with cache := cache }
  /-- A text has been processed. -/
  | text {store : GlyphStore} (h : Reachable settings store) (ctx : TextContext) (order : TextOrder) :
      Reachable settings (updateProcessGlyphFragments ctx order store).value.1.store

/-- The sizes of the cache, and a copy of as many bytes as its entry says for each fragment. -/
structure GlyphStore.Kept (settings : CacheSettings) (store : GlyphStore) : Prop where
  sized : store.cache.Sized settings
  fragment : ∀ id e name, load store.cache.fragCache id = some e → e.fragment = some name →
    (store.fragments.getD name []).length = e.size ∧ name < store.fragments.length ∧ e.size < 2 ^ 8

theorem kept_new (settings : CacheSettings) :
    GlyphStore.Kept settings ⟨glyphCacheNew settings, []⟩ where
  sized := glyphCacheNew_sized settings
  fragment id e name hload hname := by
    have he : e ∈ List.replicate 256 (⟨none, 0⟩ : FragmentEntry) := List.mem_of_getElem? hload
    rw [List.eq_of_mem_replicate he] at hname
    exact absurd hname (Option.some_ne_none name).symm

/-- The fragments are not touched when a glyph arrives. -/
theorem fragCache_glyphCachePut {id index glyph : ℕ} {c c' : GlyphCache} {ok : Bool}
    (h : glyphCachePut id index glyph c = some (c', ok)) : c'.fragCache = c.fragCache := by
  unfold glyphCachePut at h
  split at h
  · rw [← (Prod.mk.inj (Option.some.inj h)).1]
  · obtain ⟨cache, -, h⟩ := Option.bind_eq_some_iff.mp h
    split at h
    · rw [← (Prod.mk.inj (Option.some.inj h)).1]
    · obtain ⟨-, -, h⟩ := Option.bind_eq_some_iff.mp h
      obtain ⟨entries, -, h⟩ := Option.bind_eq_some_iff.mp h
      obtain ⟨cells, -, h⟩ := Option.bind_eq_some_iff.mp h
      rw [← (Prod.mk.inj (Option.some.inj h)).1]

theorem GlyphStore.Kept.glyph {id index glyph : ℕ} {cache : GlyphCache} {ok : Bool}
    (h : store.Kept settings) (hput : glyphCachePut id index glyph store.cache = some (cache, ok)) :
    GlyphStore.Kept settings { store with cache := cache } := by
  obtain ⟨cache', ok', hput', hsized⟩ := h.sized.put id index glyph
  rw [hput] at hput'
  obtain ⟨rfl, -⟩ := Prod.mk.inj (Option.some.inj hput')
  refine ⟨hsized, fun id e name hload hname => h.fragment id e name ?_ hname⟩
  rwa [← fragCache_glyphCachePut hput]

theorem GlyphStore.Kept.put (h : store.Kept settings) (id : ℕ) {copy : List UInt8}
    (hcopy : copy.length < 2 ^ 8) : (store.put id copy).Kept settings := by
  unfold GlyphStore.put
  by_cases hid : id > 255
  · rw [glyphCacheFragmentPut, if_pos hid]
    refine ⟨h.sized, fun id e name hload hname => ?_⟩
    obtain ⟨hlength, hlt, hsize⟩ := h.fragment id e name hload hname
    refine ⟨?_, by rw [List.length_append]; omega, hsize⟩
    rwa [List.getD_append _ _ _ _ hlt]
  · obtain ⟨cache, ok, hput, hsized⟩ :=
      h.sized.fragmentPut id copy.length (some store.fragments.length)
    rw [hput]
    refine ⟨hsized, fun id' e name hload hname => ?_⟩
    rw [glyphCacheFragmentPut, if_neg hid] at hput
    obtain ⟨prev, hprev, hput⟩ := Option.bind_eq_some_iff.mp hput
    obtain ⟨fragCache, hstore, hput⟩ := Option.bind_eq_some_iff.mp hput
    obtain ⟨rfl, -⟩ := Prod.mk.inj (Option.some.inj hput)
    have hin : id < store.cache.fragCache.length := load_isSome.mp (by rw [hprev]; rfl)
    rw [store_of_lt hin] at hstore
    obtain rfl := Option.some.inj hstore
    dsimp only [Option.getD_some] at hload ⊢
    rw [List.length_append, List.length_singleton]
    by_cases heq : id = id'
    · -- the new fragment
      subst heq
      rw [load_set_self hin] at hload
      obtain rfl := Option.some.inj hload
      obtain rfl := Option.some.inj hname
      refine ⟨?_, by omega, hcopy⟩
      rw [List.getD_append_right _ _ _ _ le_rfl, Nat.sub_self]
      rfl
    · rw [load_set_ne heq] at hload
      obtain ⟨hlength, hlt, hsize⟩ := h.fragment id' e name hload hname
      exact ⟨by rwa [List.getD_append _ _ _ _ hlt], by omega, hsize⟩

/-! ### Offsets and glyphs -/

section Round

variable {memory : ℕ → UInt8} {read : ℕ → TextAccess} {length op index : ℕ}

@[simp] theorem TextState.advance_store (glyph : Glyph) (s : TextState) :
    (s.advance order glyph).store = s.store := by
  unfold TextState.advance
  split_ifs <;> rfl

@[simp] theorem TextState.draw_store (call : Option GlyphDraw) (s : TextState) :
    (s.draw ctx call).1.store = s.store := by
  cases call <;> rfl

/-- The new index, and the store that the pen does not touch. -/
theorem value_updateGlyphOffset (order : TextOrder) (memory : ℕ → UInt8) (read : ℕ → TextAccess)
    (length index : ℕ) (s : TextState) :
    index ≤ (updateGlyphOffset order memory read length index s).value.1 ∧
      (updateGlyphOffset order memory read length index s).value.2.store = s.store := by
  unfold updateGlyphOffset
  rw [value_ite]
  split_ifs
  · rw [value_bind]
    dsimp only
    rw [value_ite]
    split_ifs
    · exact ⟨Nat.le_add_right index 3, rfl⟩
    · exact ⟨Nat.le_add_right index 1, rfl⟩
  · exact ⟨le_rfl, rfl⟩

/-- The further bytes of an offset are guarded, the first one is not. -/
theorem safe_updateGlyphOffset {P : TextAccess → Prop} (hread : ∀ i, P (read i) ↔ i < length)
    (s : TextState) :
    (updateGlyphOffset order memory read length index s).Safe P ↔ (order.HasOffsets → index < length) := by
  unfold updateGlyphOffset
  rw [safe_ite, safe_bind, safe_access, hread]
  dsimp only
  rw [safe_ite]
  simp only [safe_bind, safe_accesses, List.forall_mem_cons, hread, safe_pure]
  constructor
  · exact fun h hoffsets => (h.1 hoffsets).1
  · intro h
    refine ⟨fun hoffsets => ⟨h hoffsets, ?_⟩, fun _ => trivial⟩
    exact ⟨fun hmore => ⟨⟨by omega, by omega, fun _ hx => absurd hx List.not_mem_nil⟩, trivial⟩,
      fun _ => trivial⟩

theorem safe_signed (length : ℕ) (z : ℤ) : (signed z).Safe (Inside length) := by
  rw [signed, safe_bind, safe_access]
  exact ⟨trivial, (safe_pure _).mpr trivial⟩

theorem safe_clipStart (length : ℕ) (d : Int32) (b : Int16) : (clipStart d b).Safe (Inside length) := by
  rw [clipStart, safe_ite, safe_bind]
  exact ⟨fun _ => ⟨safe_signed length _, (safe_pure _).mpr trivial⟩, fun _ => (safe_pure _).mpr trivial⟩

theorem safe_clipExtent (length : ℕ) (c : UInt32) (s d : Int32) (stop : ℤ) :
    (clipExtent c s d stop).Safe (Inside length) := by
  rw [clipExtent, safe_bind, safe_ite]
  exact ⟨safe_signed length _, fun _ => safe_signed length _, fun _ => (safe_pure _).mpr trivial⟩

/-- The clipping makes sums only. -/
theorem safe_clipGlyph (length : ℕ) (glyph : Glyph) (s : TextState) :
    (clipGlyph order bound glyph s).Safe (Inside length) := by
  unfold clipGlyph
  simp only [safe_bind, safe_ite, safe_signed, safe_clipStart, safe_clipExtent, safe_pure, implies_true,
    and_self]

/-- A glyph of a cache is not the one behind its last. -/
def EntryInside (settings : CacheSettings) (order : TextOrder) (op : ℕ) : Prop :=
  order.cacheId ≤ 9 → op ≠ settings.glyphCacheEntries order.cacheId

theorem safe_glyphCacheLookup {c : GlyphCache} (h : c.Sized settings) (length op : ℕ) :
    (glyphCacheLookup order.cacheId op c).Safe (Inside length) ↔ EntryInside settings order op := by
  have hlength := h.length
  rw [glyphCacheLookup, safe_ite, EntryInside]
  by_cases hid : order.cacheId > 9
  · exact ⟨fun _ hle => by omega, fun _ => ⟨fun _ => (safe_pure _).mpr trivial, fun hle => absurd hid hle⟩⟩
  · obtain ⟨cache, hcache⟩ := exists_load (by omega : order.cacheId < c.glyphCache.length)
    obtain ⟨hnumber, -⟩ := h.cell _ cache hcache
    have hget : c.glyphCache.getD order.cacheId ⟨0, []⟩ = cache := by
      rw [List.getD_eq_getElem?_getD, show c.glyphCache[order.cacheId]? = some cache from hcache]
      rfl
    dsimp only
    rw [hget, safe_ite, safe_bind, safe_access]
    simp only [safe_pure, hid, not_false_eq_true, and_true, IsEmpty.forall_iff, implies_true, true_and,
      forall_const, Inside]
    omega

theorem value_updateProcessGlyph (ctx : TextContext) (order : TextOrder) (bound : RdpRect) (op : ℕ)
    (s : TextState) : (updateProcessGlyph ctx order bound op s).value.1.store = s.store := by
  unfold updateProcessGlyph
  rw [value_bind]
  cases (glyphCacheLookup order.cacheId op s.store.cache).value with
  | none => rfl
  | some name =>
    dsimp only
    rw [value_bind, value_pure]
    dsimp only
    split_ifs
    · rw [TextState.advance_store, TextState.draw_store]
    · rw [TextState.draw_store]

theorem safe_updateProcessGlyph (h : s.store.Kept settings) (length op : ℕ) :
    (updateProcessGlyph ctx order bound op s).Safe (Inside length) ↔ EntryInside settings order op := by
  unfold updateProcessGlyph
  rw [safe_bind, safe_glyphCacheLookup h.sized]
  refine and_iff_left ?_
  cases (glyphCacheLookup order.cacheId op s.store.cache).value with
  | none => exact (safe_pure _).mpr trivial
  | some name => exact (safe_bind _ _).mpr ⟨safe_clipGlyph length _ s, (safe_pure _).mpr trivial⟩

/-! ### Rounds -/

/-- What a round leaves behind: the index it goes on with lies behind `index`, and the store satisfies
`I`. -/
def Leaves (I : GlyphStore → Prop) (index : ℕ) : (ℕ × TextState) ⊕ (TextState × Bool) → Prop
  | .inl t => index ≤ t.1 ∧ I t.2.store
  | .inr r => I r.1.store

theorem leaves_goOn {I : GlyphStore → Prop} {r : TextState × Bool} (hindex : index ≤ length)
    (h : I r.1.store) : Leaves I index (goOn length r) := by
  unfold goOn
  split_ifs
  · exact ⟨hindex, h⟩
  · exact h

theorem leaves_glyphRound (ctx : TextContext) (order : TextOrder) (bound : RdpRect) (memory : ℕ → UInt8)
    (read : ℕ → TextAccess) (length op index : ℕ) (s : TextState) :
    Leaves (· = s.store) index (glyphRound ctx order bound memory read length op index s).value := by
  obtain ⟨hindex, hstore⟩ := value_updateGlyphOffset order memory read length index s
  unfold glyphRound
  rw [value_bind]
  dsimp only
  rw [value_bind, value_pure]
  exact leaves_goOn hindex ((value_updateProcessGlyph ctx order bound op _).trans hstore)

/-- A glyph index, in front of `index`, may be processed in a memory of `length` bytes. -/
def GlyphInside (settings : CacheSettings) (order : TextOrder) (length op index : ℕ) : Prop :=
  (order.HasOffsets → index < length) ∧ EntryInside settings order op

theorem safe_glyphRound {bytes : ℕ} (hread : ∀ i, Inside bytes (read i) ↔ i < length)
    (h : s.store.Kept settings) :
    (glyphRound ctx order bound memory read length op index s).Safe (Inside bytes) ↔
      GlyphInside settings order length op index := by
  have hkept : (updateGlyphOffset order memory read length index s).value.2.store.Kept settings := by
    rwa [(value_updateGlyphOffset order memory read length index s).2]
  unfold glyphRound
  rw [safe_bind, safe_updateGlyphOffset hread]
  dsimp only
  rw [safe_bind, safe_updateProcessGlyph hkept]
  simp only [safe_pure, and_true, GlyphInside]

end Round

/-! ### Fragments -/

section Fragment

variable {fragments : List UInt8} {size : ℕ} {t : ℕ × TextState}

def FragmentRoundInside (settings : CacheSettings) (order : TextOrder) (fragments : List UInt8) (size : ℕ)
    (t : ℕ × TextState) : Prop :=
  t.1 < size → GlyphInside settings order size (fragments.getD t.1 0).toNat (t.1 + 1)

theorem leaves_fragmentRound (ctx : TextContext) (order : TextOrder) (bound : RdpRect)
    (fragments : List UInt8) (size : ℕ) (t : ℕ × TextState) :
    Leaves (· = t.2.store) (t.1 + 1) (fragmentRound ctx order bound fragments size t).value := by
  rw [fragmentRound, value_ite]
  split_ifs
  · rw [value_bind]
    exact leaves_glyphRound ctx order bound _ _ size _ (t.1 + 1) t.2
  · exact rfl

theorem safe_fragmentRound {length : ℕ} (h : t.2.store.Kept settings) :
    (fragmentRound ctx order bound fragments size t).Safe (Inside length) ↔
      FragmentRoundInside settings order fragments size t := by
  rw [fragmentRound, safe_ite, safe_bind, safe_access, safe_glyphRound (fun i => Iff.rfl) h]
  constructor
  · exact fun hsafe hlt => (hsafe.1 hlt).2
  · exact fun hinside => ⟨fun hlt => ⟨hlt, hinside hlt⟩, fun _ => (safe_pure _).mpr trivial⟩

/-- A round that goes on has read something of the fragment. -/
theorem lt_of_next_fragmentRound {u : ℕ × TextState}
    (h : Next (fragmentRound ctx order bound fragments size) t u) : t.1 < size := by
  unfold Next fragmentRound at h
  by_contra hge
  rw [if_neg hge, value_pure] at h
  exact absurd h Sum.inr_ne_inl

theorem next_fragmentRound {u : ℕ × TextState}
    (h : Next (fragmentRound ctx order bound fragments size) t u) :
    t.1 < u.1 ∧ u.2.store = t.2.store := by
  have hleaves := leaves_fragmentRound ctx order bound fragments size t
  unfold Next at h
  rwa [h] at hleaves

/-- The loop over a fragment ends, with the store it has begun with. -/
theorem loop_fragmentRound (ctx : TextContext) (order : TextOrder) (bound : RdpRect)
    (fragments : List UInt8) (size : ℕ) (s : TextState) :
    ∃ r, (loop (fragmentRound ctx order bound fragments size) (size + 1) (0, s)).value = some r ∧
      r.1.store = s.store := by
  rw [value_loop]
  refine iterate_rule _ (I := fun t => t.2.store = s.store) (μ := fun t => size - t.1) ?_ ?_ rfl
    (by dsimp only; omega)
  · intro t u ht hnext
    have hlt := lt_of_next_fragmentRound hnext
    obtain ⟨hindex, hstore⟩ := next_fragmentRound hnext
    exact ⟨hstore.trans ht, by omega⟩
  · intro t r ht hexit
    have hleaves := leaves_fragmentRound ctx order bound fragments size t
    rw [hexit] at hleaves
    exact Eq.trans hleaves ht

/-- The loop over a fragment stays inside if and only if all its rounds do. -/
theorem safe_loop_fragmentRound {length : ℕ} (h : s.store.Kept settings) :
    (loop (fragmentRound ctx order bound fragments size) (size + 1) (0, s)).Safe (Inside length) ↔
      ∀ t, Visits (fragmentRound ctx order bound fragments size) (0, s) t →
        FragmentRoundInside settings order fragments size t := by
  obtain ⟨r, hr, -⟩ := loop_fragmentRound ctx order bound fragments size s
  rw [safe_loop_iff (by rw [hr]; exact Option.some_ne_none r)]
  refine forall₂_congr fun t ht => safe_fragmentRound ?_
  exact ht.invariant (I := fun t => t.2.store.Kept settings) h
    fun t u ht hnext => by rwa [(next_fragmentRound hnext).2]

end Fragment

/-! ### The operations -/

section Operation

variable {index : ℕ}

/-- The fragment that is used, if there is one, stays inside. -/
def UseInside (settings : CacheSettings) (ctx : TextContext) (order : TextOrder) (bound : RdpRect)
    (index : ℕ) (s : TextState) : Prop :=
  index + 1 < order.length →
    ∀ name size, glyphCacheFragmentGet (order.data index).toNat s.store.cache = some (some name, size) →
      ∀ t, Visits (fragmentRound ctx order bound (s.store.fragments.getD name []) size) (0, s) t →
        FragmentRoundInside settings order (s.store.fragments.getD name []) size t

/-- The bytes that are kept as a fragment are bytes of the order. -/
def AddInside (ctx : TextContext) (order : TextOrder) (index : ℕ) : Prop :=
  index + 2 ≤ order.length → ctx.malloc index → (order.data (index + 1)).toNat ≤ order.length

theorem leaves_useFragment (ctx : TextContext) (order : TextOrder) (bound : RdpRect) (index : ℕ)
    (s : TextState) : Leaves (· = s.store) (index + 1) (useFragment ctx order bound index s).value := by
  rw [useFragment, value_ite]
  split_ifs
  · exact rfl
  · rw [value_bind]
    dsimp only
    cases ((glyphCacheFragmentGet (order.data index).toNat s.store.cache).getD (none, 0)).1 with
    | none => exact rfl
    | some name =>
      dsimp only
      rw [value_bind, value_pure]
      obtain ⟨r, hr, hstore⟩ := loop_fragmentRound ctx order bound (s.store.fragments.getD name [])
        ((glyphCacheFragmentGet (order.data index).toNat s.store.cache).getD (none, 0)).2 s
      rw [hr]
      exact leaves_goOn le_rfl hstore

theorem safe_useFragment (h : s.store.Kept settings) :
    (useFragment ctx order bound index s).Safe (Inside order.length) ↔
      UseInside settings ctx order bound index s := by
  rw [useFragment, safe_ite, safe_bind, safe_access]
  obtain ⟨e, he⟩ := h.sized.fragmentGet (order.data index).toNat
  obtain ⟨fragment, size⟩ := e
  unfold UseInside
  rw [he]
  dsimp only [Option.getD_some]
  cases fragment with
  | none =>
    constructor
    · intro _ _ name size' heq
      exact absurd (Prod.mk.inj (Option.some.inj heq)).1.symm (Option.some_ne_none name)
    · intro _
      refine ⟨fun _ => (safe_pure _).mpr trivial, fun hlt => ⟨?_, (safe_pure _).mpr trivial⟩⟩
      show index < order.length
      omega
  | some name =>
    dsimp only
    rw [safe_bind, safe_loop_fragmentRound h]
    constructor
    · intro hsafe hlt name' size' heq
      obtain ⟨hname, rfl⟩ := Prod.mk.inj (Option.some.inj heq)
      obtain rfl := Option.some.inj hname
      exact (hsafe.2 (by omega)).2.1
    · intro hinside
      refine ⟨fun _ => (safe_pure _).mpr trivial, fun hlt => ⟨?_, ?_, (safe_pure _).mpr trivial⟩⟩
      · show index < order.length
        omega
      · exact hinside (by omega) name size rfl

theorem leaves_addFragment (ctx : TextContext) (order : TextOrder) (index : ℕ)
    (h : s.store.Kept settings) :
    Leaves (GlyphStore.Kept settings) (index + 1) (addFragment ctx order index s).value := by
  rw [addFragment, value_ite]
  split_ifs
  · exact h
  · refine ⟨Nat.le_succ _, h.put _ ?_⟩
    rw [List.length_map, List.length_range]
    exact (order.data (index + 1)).toNat_lt
  · exact ⟨Nat.le_succ _, h⟩

theorem safe_addFragment :
    (addFragment ctx order index s).Safe (Inside order.length) ↔ AddInside ctx order index := by
  rw [addFragment, safe_ite, safe_bind]
  dsimp only
  rw [safe_ite, safe_bind, safe_access]
  simp only [safe_accesses, List.forall_mem_cons, safe_pure, and_true, implies_true,
    true_and, AddInside, Inside]
  constructor
  · exact fun hsafe hlt hmalloc => (hsafe (by omega)).2 hmalloc
  · exact fun hinside hlt => ⟨⟨by omega, by omega, fun _ hx => absurd hx List.not_mem_nil⟩,
      hinside (by omega)⟩

end Operation

/-! ### The text -/

/-- A round over the data stays inside. -/
def RoundInside (settings : CacheSettings) (ctx : TextContext) (order : TextOrder) (bound : RdpRect)
    (t : ℕ × TextState) : Prop :=
  t.1 < order.length →
    if (order.data t.1).toNat = glyphFragmentUse then UseInside settings ctx order bound (t.1 + 1) t.2
    else if (order.data t.1).toNat = glyphFragmentAdd then AddInside ctx order (t.1 + 1)
    else GlyphInside settings order order.length (order.data t.1).toNat (t.1 + 1)

theorem Leaves.mono {I J : GlyphStore → Prop} {index index' : ℕ}
    {r : (ℕ × TextState) ⊕ (TextState × Bool)} (h : Leaves I index r) (hindex : index' ≤ index)
    (hIJ : ∀ store, I store → J store) : Leaves J index' r := by
  cases r with
  | inl t => exact ⟨hindex.trans h.1, hIJ _ h.2⟩
  | inr r => exact hIJ _ h

theorem leaves_textRound (ctx : TextContext) (order : TextOrder) (bound : RdpRect) {t : ℕ × TextState}
    (h : t.2.store.Kept settings) :
    Leaves (GlyphStore.Kept settings) (t.1 + 1) (textRound ctx order bound t).value := by
  have hkept : ∀ store, store = t.2.store → store.Kept settings := fun store heq => by rwa [heq]
  rw [textRound, value_ite]
  split_ifs with hlt
  · rw [value_bind]
    dsimp only
    split_ifs
    · exact (leaves_useFragment ctx order bound (t.1 + 1) t.2).mono (Nat.le_succ _) hkept
    · exact (leaves_addFragment ctx order (t.1 + 1) h).mono (Nat.le_succ _) fun _ => id
    · exact (leaves_glyphRound ctx order bound _ _ _ _ (t.1 + 1) t.2).mono le_rfl hkept
  · exact h

theorem safe_textRound {t : ℕ × TextState} (h : t.2.store.Kept settings) :
    (textRound ctx order bound t).Safe (Inside order.length) ↔ RoundInside settings ctx order bound t := by
  rw [textRound, safe_ite, safe_bind, safe_access]
  dsimp only
  rw [RoundInside]
  have hrest : (if (order.data t.1).toNat = glyphFragmentUse then useFragment ctx order bound (t.1 + 1) t.2
      else if (order.data t.1).toNat = glyphFragmentAdd then addFragment ctx order (t.1 + 1) t.2
      else glyphRound ctx order bound order.data .data order.length (order.data t.1).toNat (t.1 + 1)
        t.2).Safe (Inside order.length) ↔
      if (order.data t.1).toNat = glyphFragmentUse then UseInside settings ctx order bound (t.1 + 1) t.2
      else if (order.data t.1).toNat = glyphFragmentAdd then AddInside ctx order (t.1 + 1)
      else GlyphInside settings order order.length (order.data t.1).toNat (t.1 + 1) := by
    split_ifs
    · exact safe_useFragment h
    · exact safe_addFragment
    · exact safe_glyphRound (fun i => Iff.rfl) h
  rw [hrest]
  constructor
  · exact fun hsafe hlt => (hsafe.1 hlt).2
  · exact fun hinside => ⟨fun hlt => ⟨hlt, hinside hlt⟩, fun _ => (safe_pure _).mpr trivial⟩

/-- A round that goes on has read something of the data. -/
theorem next_textRound {t u : ℕ × TextState} (h : t.2.store.Kept settings)
    (hnext : Next (textRound ctx order bound) t u) :
    t.1 < order.length ∧ t.1 < u.1 ∧ u.2.store.Kept settings := by
  have hleaves := leaves_textRound ctx order bound h
  unfold Next at hnext
  rw [hnext] at hleaves
  refine ⟨?_, hleaves⟩
  by_contra hge
  rw [textRound, if_neg hge, value_pure] at hnext
  exact absurd hnext Sum.inr_ne_inl

theorem loop_textRound (ctx : TextContext) (order : TextOrder) (bound : RdpRect)
    (h : s.store.Kept settings) :
    ∃ r, (loop (textRound ctx order bound) (order.length + 1) (0, s)).value = some r ∧
      r.1.store.Kept settings := by
  rw [value_loop]
  refine iterate_rule _ (I := fun t => t.2.store.Kept settings) (μ := fun t => order.length - t.1) ?_ ?_ h
    (by dsimp only; omega)
  · intro t u ht hnext
    obtain ⟨hlt, hindex, hkept⟩ := next_textRound ht hnext
    exact ⟨hkept, by omega⟩
  · intro t r ht hexit
    have hleaves := leaves_textRound ctx order bound ht
    rwa [hexit] at hleaves

theorem safe_limitSide (length : ℕ) (start size : Int32) :
    (limitSide start size).Safe (Inside length) := by
  rw [limitSide, safe_ite, safe_bind]
  exact ⟨fun _ => ⟨safe_signed length _, (safe_pure _).mpr trivial⟩, fun _ => (safe_pure _).mpr trivial⟩

theorem safe_limitRect (length : ℕ) (desktopWidth : UInt32) (r : TextRect) :
    (limitRect desktopWidth r).Safe (Inside length) := by
  unfold limitRect
  simp only [safe_bind, safe_limitSide, safe_signed, safe_pure, and_self]

/-- The loop over the data is reached. -/
def Begins (ctx : TextContext) (order : TextOrder) : Prop :=
  ctx.beginDraw (limitRect ctx.desktopWidth order.op).value order.bgcolor order.fgcolor order.fOpRedundant ∧
    ctx.setBounds (limitRect ctx.desktopWidth order.bk).value

/-- The rectangle in which the glyphs are drawn. -/
def textBound (ctx : TextContext) (order : TextOrder) : RdpRect :=
  (limitRect ctx.desktopWidth order.bk).value.bound

/-- The state in which the loop over the data begins. -/
def TextOrder.start (order : TextOrder) (store : GlyphStore) : TextState := ⟨store, order.x, order.y, []⟩

theorem GlyphStore.Kept.text (h : store.Kept settings) (ctx : TextContext) (order : TextOrder) :
    (updateProcessGlyphFragments ctx order store).value.1.store.Kept settings := by
  unfold updateProcessGlyphFragments
  simp only [value_bind]
  rw [value_ite]
  split_ifs
  · rw [value_bind]
    obtain ⟨r, hr, hkept⟩ := loop_textRound ctx order (textBound ctx order) (s := order.start store) h
    unfold textBound TextOrder.start at hr
    rw [hr]
    exact hkept
  · exact h

theorem Reachable.kept (h : Reachable settings store) : store.Kept settings := by
  induction h with
  | new => exact kept_new settings
  | glyph _ hput ih => exact ih.glyph hput
  | text _ ctx order ih => exact ih.text ctx order

/-- A text stays inside its buffers if and only if all its rounds do: no offset is expected behind the last
byte of the data or of a fragment, no fragment is larger than the data that it is copied from, and no glyph
index is the number of the entries. -/
theorem inside_iff (h : Reachable settings store) (ctx : TextContext) (order : TextOrder) :
    (updateProcessGlyphFragments ctx order store).Safe (Inside order.length) ↔
      (Begins ctx order → ∀ t, Visits (textRound ctx order (textBound ctx order)) (0, order.start store) t →
        RoundInside settings ctx order (textBound ctx order) t) := by
  obtain ⟨r, hr, -⟩ := loop_textRound ctx order (textBound ctx order) (s := order.start store) h.kept
  have hloop : (loop (textRound ctx order (textBound ctx order)) (order.length + 1)
      (0, order.start store)).Safe (Inside order.length) ↔
      ∀ t, Visits (textRound ctx order (textBound ctx order)) (0, order.start store) t →
        RoundInside settings ctx order (textBound ctx order) t := by
    rw [safe_loop_iff (by rw [hr]; exact Option.some_ne_none r)]
    refine forall₂_congr fun t ht => safe_textRound ?_
    exact ht.invariant (I := fun t => t.2.store.Kept settings) h.kept
      fun t u ht hnext => (next_textRound ht hnext).2.2
  unfold updateProcessGlyphFragments
  simp only [safe_bind, safe_limitRect, true_and]
  rw [safe_ite, safe_bind]
  simp only [safe_pure, implies_true, and_true]
  exact imp_congr_right fun _ => hloop

/-- Settings with room for four glyphs in each cache. -/
def fourGlyphs : CacheSettings where
  bitmapCacheV2NumCells := 0
  numEntries := fun _ => 0
  numEntries_lt := fun _ => Nat.two_pow_pos 32
  pointerCacheSize := 0
  glyphCacheEntries := fun _ => 4

/-- A context in which every callback succeeds. -/
def willing : TextContext where
  glyph := fun _ => ⟨0, 0, 1, 1⟩
  desktopWidth := 1024
  beginDraw := fun _ _ _ _ => true
  setBounds := fun _ => true
  draw := fun _ _ => true
  endDraw := fun _ _ _ => true
  malloc := fun _ => true

theorem oneGlyph_length_lt : 1 < 2 ^ 8 := by decide

/-- A text of the glyph 1 without its offset. -/
def oneGlyph : TextOrder where
  data := fun _ => 1
  length := 1
  length_lt := oneGlyph_length_lt
  cacheId := 0
  ulCharInc := 0
  flAccel := soHorizontal
  bgcolor := 0
  fgcolor := 0
  x := 0
  y := 0
  bk := ⟨0, 0, 0, 0⟩
  op := ⟨0, 0, 0, 0⟩
  fOpRedundant := false

theorem glyphAndFragment_length_lt : 8 < 2 ^ 8 := by decide

/-- The glyph 1 with its offset, which become a fragment, and that fragment with an offset. -/
def glyphAndFragment : TextOrder :=
  { oneGlyph with
    data := fun i => [1, 0, 0xFF, 7, 2, 0xFE, 7, 0].getD i 0
    length := 8
    length_lt := glyphAndFragment_length_lt }

/-- With a glyph in the cache. -/
theorem inside_iff_fragment :
    ∃ cache, glyphCachePut 0 1 0 (glyphCacheNew fourGlyphs) = some (cache, true) ∧
      ((updateProcessGlyphFragments willing glyphAndFragment ⟨cache, []⟩).Safe (Inside 8) ↔
        (Begins willing glyphAndFragment → ∀ t,
          Visits (textRound willing glyphAndFragment (textBound willing glyphAndFragment))
            (0, glyphAndFragment.start ⟨cache, []⟩) t →
          RoundInside fourGlyphs willing glyphAndFragment (textBound willing glyphAndFragment) t)) := by
  obtain ⟨cache, hput⟩ : ∃ cache, glyphCachePut 0 1 0 (glyphCacheNew fourGlyphs) = some (cache, true) :=
    ⟨_, rfl⟩
  exact ⟨cache, hput, inside_iff (.glyph .new hput) willing glyphAndFragment⟩

/-- The byte behind the data is read as an offset. -/
theorem not_inside : ¬ ∀ (settings : CacheSettings) (store : GlyphStore), Reachable settings store →
    ∀ (ctx : TextContext) (order : TextOrder),
      (updateProcessGlyphFragments ctx order store).Safe (Inside order.length) := by
  intro h
  have hmem : TextAccess.data 1 ∈
      (updateProcessGlyphFragments willing oneGlyph ⟨glyphCacheNew fourGlyphs, []⟩).trace := by
    decide +kernel
  exact absurd (h fourGlyphs _ .new willing oneGlyph _ hmem) (Nat.lt_irrefl 1)

end FreeRDP.Cache.Text
