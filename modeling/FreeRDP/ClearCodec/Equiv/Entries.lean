import FreeRDP.ClearCodec.Equiv.Invariant

/-!
# The cache entries of a ClearCodec context

An entry is resized in two steps, its count first and its allocation second, and between the two it
does not satisfy the invariant.  The operations on entries are therefore looked at as a whole.
-/

namespace FreeRDP.Clear

open Triples

variable {env : Env} {call : Call} {fit : Prop} {facts : List Event}
  {held : List (Cache × ℕ × ℕ)} {s : State} {cache : Cache} {i n : ℕ} {e : Entry}

/-! ### One entry is changed -/

def State.put (s : State) (cache : Cache) (i : ℕ) (e : Entry) : State :=
  { s with clear := { s.clear with
      entries := Function.update s.clear.entries cache
        (Function.update (s.clear.entries cache) i e) } }

theorem State.put_same (s : State) (cache : Cache) (i : ℕ) (e : Entry) :
    (s.put cache i e).clear.entries cache i = e := by
  simp [State.put]

theorem State.put_other (s : State) {cache c : Cache} {i j : ℕ} (e : Entry)
    (h : ¬ (c = cache ∧ j = i)) : (s.put cache i e).clear.entries c j = s.clear.entries c j := by
  by_cases hc : c = cache
  · subst hc
    have hj : j ≠ i := fun hj => h ⟨rfl, hj⟩
    simp [State.put, hj]
  · simp [State.put, hc]

theorem Inv.put (h : Inv env call fit facts held s) (cache : Cache) (i : ℕ) (e : Entry)
    (hok : fit → e.Ok (bytesPerPixel call.dstFormat))
    (hheld : ∀ r ∈ held, r.1 = cache ∧ r.2.1 = i → e.count = r.2.2) :
    Inv env call fit facts held (s.put cache i e) where
  alloc := h.alloc
  format := h.format
  safe := h.safe
  mem := h.mem
  ok hfit c j := by
    by_cases hc : c = cache ∧ j = i
    · obtain ⟨rfl, rfl⟩ := hc
      rw [State.put_same]
      exact hok hfit
    · rw [State.put_other s e hc]
      exact h.ok hfit c j
  held r hr := by
    by_cases hc : r.1 = cache ∧ r.2.1 = i
    · obtain ⟨hcache, hi⟩ := hc
      subst hcache hi
      rw [State.put_same]
      exact hheld r hr ⟨rfl, rfl⟩
    · rw [State.put_other s e hc]
      exact h.held r hr
  within := h.within

/-- No entry of the cache is held. -/
def Free (cache : Cache) (held : List (Cache × ℕ × ℕ)) : Prop := ∀ r ∈ held, r.1 ≠ cache

theorem Inv.hold (h : Inv env call fit facts held s) (hn : (s.clear.entries cache i).count = n) :
    Inv env call fit facts ((cache, i, n) :: held) s :=
  { h with
    held := fun r hr => by
      rcases List.mem_cons.mp hr with rfl | hr
      · exact hn
      · exact h.held r hr }

theorem Inv.release {r : Cache × ℕ × ℕ} (h : Inv env call fit facts (r :: held) s) :
    Inv env call fit facts held s :=
  { h with held := fun q hq => h.held q (List.mem_cons_of_mem r hq) }

/-- The continuation of a program that learns the count of an entry. -/
theorem Stays.holding {α β : Type} {x : M α} {f : α → M β} {r : α → Cache × ℕ × ℕ}
    (hx : Triple (Inv env call fit [] []) (Inv env call fit facts held) x
      fun a => Inv env call fit facts (r a :: held))
    (hf : ∀ a, Stays env call fit facts (r a :: held) (f a)) : Stays env call fit facts held (x >>= f) :=
  hx.bind fun a => (hf a).conseq (fun _ h => h) fun _ _ h => h.release

/-! ### Resizing -/

/-- What setting the count of an entry does, all at once. -/
theorem setCount_eq (cache : Cache) (i count : ℕ) (s : State) :
    setCount env cache i count s =
      let e := s.clear.entries cache i
      let bytes := count * bytesPerPixel s.clear.format
      let s' := { s with asked := s.asked + 1 }
      if e.size < count then
        if env.entryAlloc s.asked then
          .ok () ((s'.put cache i ⟨count, count, some bytes⟩).add (.entry bytes bytes))
        else .error () (s'.put cache i ⟨count, count, e.pixels⟩)
      else if e.pixels = none ∧ e.size ≠ 0 then .error () (s.put cache i { e with count := count })
      else .ok () (s.put cache i { e with count := count }) := by
  dsimp only
  split_ifs <;>
    simp [setCount, getEntry, setEntry, resizeVbarEntry, reallocEntry, onlyIf, require, modifyClear,
      ask, touchEntry, emit, getClear, run_bind, run_map, run_ite, run_get, run_modify,
        run_modifyGet, run_pure, run_throw, State.put, State.add, Entry.allocated, *]

/-- An entry that is not held is replaced and held with its new count. -/
theorem Inv.replace (h : Inv env call fit facts held s) (hfree : Free cache held) (i : ℕ) (e : Entry)
    (hok : fit → e.Ok (bytesPerPixel call.dstFormat)) :
    Inv env call fit facts ((cache, i, e.count) :: held) (s.put cache i e) := by
  have hput := h.put cache i e hok fun r hr hc => absurd hc.1 (hfree r hr)
  exact hput.hold (by rw [State.put_same])

/-- An entry of the right size may have any count up to it. -/
theorem Inv.ok_recount (h : Inv env call fit facts held s) (cache : Cache) {i count : ℕ}
    (hsize : ¬ (s.clear.entries cache i).size < count) (hfit : fit) :
    Entry.Ok { s.clear.entries cache i with count := count } (bytesPerPixel call.dstFormat) :=
  ⟨Nat.le_of_not_lt hsize, (h.ok hfit cache i).size_le⟩

/-- The count of an entry is set; where no allocation fails the entry holds that many pixels. -/
theorem setCount_spec (hfree : Free cache held) (i count : ℕ) :
    Triple (Inv env call fit [] []) (Inv env call fit facts held) (setCount env cache i count)
      fun _ => Inv env call fit facts ((cache, i, count) :: held) := by
  intro s h
  have hs' : Inv env call fit facts held { s with asked := s.asked + 1 } := h.congr rfl rfl rfl
  rw [setCount_eq]
  dsimp only
  split_ifs with hsize halloc hnone
  · -- the entry grows, and its new bytes are cleared
    have hput := hs'.replace hfree i ⟨count, count, some (count * bytesPerPixel s.clear.format)⟩
      fun _ => ⟨le_rfl, by rw [h.format]; exact le_rfl⟩
    have hadd := hput.add
      (e := .entry (count * bytesPerPixel s.clear.format) (count * bytesPerPixel s.clear.format))
      (fun _ _ => trivial) fun _ _ => le_rfl
    exact hadd.tail
  · exact (hs'.replace hfree i _ fun h' => absurd (h.alloc h' s.asked) halloc).weaken
  · exact (h.replace hfree i _ (h.ok_recount cache hsize)).weaken
  · exact h.replace hfree i _ (h.ok_recount cache hsize)

theorem stays_setCount (hfree : Free cache held) (i count : ℕ) :
    Stays env call fit facts held (setCount env cache i count) :=
  (setCount_spec hfree i count).conseq (fun _ h => h) fun _ _ h => h.release

/-- What making room for a glyph does, all at once. -/
theorem enterGlyph_eq (i : ℕ) (s : State) :
    enterGlyph env call i s =
      let e := s.clear.entries .glyph i
      let count := call.nWidth * call.nHeight % 2 ^ 32
      let bytes := count * bytesPerPixel s.clear.format
      let s' := { s with asked := s.asked + 1 }
      if e.size < count then
        if env.entryAlloc s.asked then .ok () (s'.put .glyph i ⟨count, count, some bytes⟩)
        else .error () (s'.put .glyph i { e with count := count })
      else if e.pixels = none then .error () (s.put .glyph i { e with count := count })
      else .ok () (s.put .glyph i { e with count := count }) := by
  unfold enterGlyph
  dsimp only
  generalize call.nWidth * call.nHeight % 2 ^ 32 = count
  split_ifs <;>
    simp [getEntry, setEntry, reallocGlyph, onlyIf, require, modifyClear, ask, getClear, run_bind,
      run_map, run_get, run_modify, run_modifyGet, run_pure, run_throw, State.put, *]

theorem enterGlyph_spec (hfree : Free .glyph held) (i : ℕ) :
    Triple (Inv env call fit [] []) (Inv env call fit facts held) (enterGlyph env call i)
      fun _ => Inv env call fit facts ((.glyph, i, call.nWidth * call.nHeight % 2 ^ 32) :: held) := by
  intro s h
  have hs' : Inv env call fit facts held { s with asked := s.asked + 1 } := h.congr rfl rfl rfl
  rw [enterGlyph_eq]
  dsimp only
  split_ifs with hsize halloc hnone
  · refine hs'.replace hfree i ⟨_, _, some (_ * bytesPerPixel s.clear.format)⟩ fun _ => ⟨le_rfl, ?_⟩
    rw [h.format]
    exact le_rfl
  · exact (hs'.replace hfree i _ fun h' => absurd (h.alloc h' s.asked) halloc).weaken
  · exact (h.replace hfree i _ (h.ok_recount .glyph hsize)).weaken
  · exact h.replace hfree i _ (h.ok_recount .glyph hsize)

/-! ### Accesses -/

/-- The entry that is read is held with its count. -/
theorem getEntry_spec (cache : Cache) (i : ℕ) :
    Triple (Inv env call fit [] []) (Inv env call fit facts held) (getEntry cache i)
      fun e => Inv env call fit facts ((cache, i, e.count) :: held) :=
  fun _ h => h.hold rfl

theorem getEntry_held (hr : (cache, i, n) ∈ held) :
    Triple (Inv env call fit [] []) (Inv env call fit facts held) (getEntry cache i)
      fun e s => e.count = n ∧ Inv env call fit facts held s :=
  fun _ h => ⟨h.held _ hr, h⟩

/-- An entry is accessed within the count it is held with. -/
theorem stays_touchEntry
    (hn : fit → call.Near → ∃ m, n ≤ m ∧ (cache, i, m) ∈ held) :
    Stays env call fit facts held (touchEntry cache i n) := by
  intro s h
  refine (h.add (e := .entry (n * bytesPerPixel s.clear.format)
    (s.clear.entries cache i).allocated) (fun _ _ => trivial) fun hfit hnear => ?_).tail
  obtain ⟨m, hnm, hm⟩ := hn hfit hnear
  have hok := h.ok hfit cache i
  rw [← h.format] at hok
  exact hok.le (hnm.trans (h.held _ hm).ge)

end FreeRDP.Clear
