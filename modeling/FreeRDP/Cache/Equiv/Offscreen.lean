import FreeRDP.Cache.Basic

/-!
# The surface and the offscreen cache

`Active s`: the surface is the screen or the bitmap that the entry of the current surface holds.  The
orders keep this unless a Create Offscreen Bitmap order deletes the entry of the current surface through
its delete list, where nothing selects another surface.

* `offscreen_active_iff`: the surface is active all along a session if and only if no order of it does
  that.
* `Owned.not_freed`: an active surface has not been freed, since no entry holds a freed bitmap.
-/

namespace FreeRDP.Cache

open Checked

variable {s s' s'' : Offscreen} {order : OffscreenOrder} {index bitmap : ℕ} {gone gone' : List ℕ}
  {ok : Bool}

namespace Offscreen

def entry (s : Offscreen) (index : ℕ) : Option ℕ := (load s.entries index).join

/-- The surface is the screen or the bitmap of the entry `currentSurface`. -/
def Active (s : Offscreen) : Prop :=
  s.surface = none ∨ ∃ b, s.surface = some b ∧ load s.entries s.currentSurface = some (some b)

theorem load_eq_some {b : ℕ} : load s.entries index = some (some b) ↔ s.entry index = some b :=
  Option.join_eq_some_iff.symm

theorem active_iff : s.Active ↔ s.surface = none ∨ s.surface = s.entry s.currentSurface := by
  constructor
  · rintro (h | ⟨b, hb, hload⟩)
    · exact Or.inl h
    · exact Or.inr (hb.trans (load_eq_some.mp hload).symm)
  · rintro (h | h)
    · exact Or.inl h
    · cases hb : s.surface with
      | none => exact Or.inl hb
      | some b => exact Or.inr ⟨b, hb, load_eq_some.mpr (h.symm.trans hb)⟩

end Offscreen

open Offscreen

/-! ### The invariant -/

/-- The entries hold bitmaps of their own that are in memory, and a surface other than the screen has been
selected when `currentSurface` is the number of an entry. -/
structure Owned (s : Offscreen) : Prop where
  length : s.entries.length = s.maxEntries
  screen : s.maxEntries ≤ screenBitmapSurface
  held : ∀ i b, s.entry i = some b → b < s.allocated ∧ b ∉ s.freed
  unique : ∀ i j b, s.entry i = some b → s.entry j = some b → i = j
  freed_lt : ∀ b ∈ s.freed, b < s.allocated
  drawn : s.currentSurface < s.maxEntries → s.surface ≠ none

theorem owned_new : Owned offscreenCacheNew where
  length := List.length_replicate
  screen := by decide
  held i b h := by
    exfalso
    unfold entry offscreenCacheNew load at h
    rw [List.getElem?_replicate] at h
    split at h <;> exact nomatch h
  unique i j b h := by
    exfalso
    unfold entry offscreenCacheNew load at h
    rw [List.getElem?_replicate] at h
    split at h <;> exact nomatch h
  freed_lt b hb := nomatch hb
  drawn h := by
    exfalso
    exact absurd h (by decide)

/-! ### Entries that are deleted -/

/-- `s'` is `s` without the bitmaps of the entries in `gone`. -/
structure Deletes (gone : List ℕ) (s s' : Offscreen) : Prop where
  maxEntries : s'.maxEntries = s.maxEntries
  length : s'.entries.length = s.entries.length
  currentSurface : s'.currentSurface = s.currentSurface
  surface : s'.surface = s.surface
  allocated : s'.allocated = s.allocated
  entry : ∀ i, s'.entry i = if i ∈ gone then none else s.entry i
  freed : ∀ b, b ∈ s'.freed ↔ b ∈ s.freed ∨ ∃ i ∈ gone, s.entry i = some b

theorem Deletes.refl (s : Offscreen) : Deletes [] s s where
  maxEntries := rfl
  length := rfl
  currentSurface := rfl
  surface := rfl
  allocated := rfl
  entry i := by simp
  freed b := by simp

theorem Deletes.trans (h : Deletes gone s s') (h' : Deletes gone' s' s'') :
    Deletes (gone ++ gone') s s'' where
  maxEntries := h'.maxEntries.trans h.maxEntries
  length := h'.length.trans h.length
  currentSurface := h'.currentSurface.trans h.currentSurface
  surface := h'.surface.trans h.surface
  allocated := h'.allocated.trans h.allocated
  entry i := by
    rw [h'.entry, h.entry]
    by_cases hi : i ∈ gone <;> by_cases hi' : i ∈ gone' <;> simp [hi, hi']
  freed b := by
    rw [h'.freed, h.freed]
    constructor
    · rintro ((hb | ⟨i, hi, hb⟩) | ⟨i, hi, hb⟩)
      · exact Or.inl hb
      · exact Or.inr ⟨i, List.mem_append_left _ hi, hb⟩
      · rw [h.entry] at hb
        split at hb
        · exact nomatch hb
        · exact Or.inr ⟨i, List.mem_append_right _ hi, hb⟩
    · rintro (hb | ⟨i, hi, hb⟩)
      · exact Or.inl (Or.inl hb)
      · by_cases hgone : i ∈ gone
        · exact Or.inl (Or.inr ⟨i, hgone, hb⟩)
        · have hi' : i ∈ gone' := (List.mem_append.mp hi).resolve_left hgone
          exact Or.inr ⟨i, hi', by rw [h.entry, if_neg hgone]; exact hb⟩

theorem entry_of_le (hlength : s.entries.length = s.maxEntries) (h : s.maxEntries ≤ index) :
    s.entry index = none := by
  rw [entry, load_eq_none (by omega)]
  rfl

theorem offscreenCacheDelete_deletes (hlength : s.entries.length = s.maxEntries) (index : ℕ) :
    ∃ s', offscreenCacheDelete index s = some s' ∧ Deletes [index] s s' := by
  unfold offscreenCacheDelete
  split
  · next hout =>
    have hnone : s.entry index = none := entry_of_le hlength hout
    refine ⟨s, rfl, ⟨rfl, rfl, rfl, rfl, rfl, ?_, ?_⟩⟩
    · intro i
      split
      · next hi =>
        rw [List.mem_singleton.mp hi]
        exact hnone
      · rfl
    · intro b
      simp [hnone]
  · next hin =>
    have hlt : index < s.entries.length := by omega
    obtain ⟨prevBitmap, hload⟩ := exists_load hlt
    have hentry : s.entry index = prevBitmap := by
      rw [entry, hload]
      rfl
    rw [hload, store_of_lt hlt]
    refine ⟨_, rfl, ⟨rfl, List.length_set, rfl, rfl, rfl, ?_, ?_⟩⟩
    · intro i
      unfold entry
      dsimp only
      by_cases hi : i = index
      · rw [if_pos (List.mem_singleton.mpr hi), hi, load_set_self hlt]
        rfl
      · rw [if_neg fun h => hi (List.mem_singleton.mp h), load_set_ne (Ne.symm hi)]
    · intro b
      simp [hentry, or_comm, eq_comm]

theorem offscreenDeleteAll_deletes (indices : List ℕ) (hlength : s.entries.length = s.maxEntries) :
    ∃ s', offscreenDeleteAll indices s = some s' ∧ Deletes indices s s' := by
  induction indices generalizing s with
  | nil => exact ⟨s, rfl, Deletes.refl s⟩
  | cons index indices ih =>
    obtain ⟨s₁, h₁, hdel₁⟩ := offscreenCacheDelete_deletes hlength index
    obtain ⟨s₂, h₂, hdel₂⟩ := @ih s₁ (by rw [hdel₁.length, hdel₁.maxEntries, hlength])
    refine ⟨s₂, ?_, hdel₁.trans hdel₂⟩
    rw [offscreenDeleteAll, h₁]
    exact h₂

theorem Owned.deletes (h : Owned s) (hdel : Deletes gone s s') : Owned s' := by
  have hentry (i b : ℕ) (hb : s'.entry i = some b) : s.entry i = some b ∧ i ∉ gone := by
    rw [hdel.entry] at hb
    split at hb
    · exact nomatch hb
    · exact ⟨hb, by assumption⟩
  refine ⟨?_, ?_, ?_, ?_, ?_, ?_⟩
  · rw [hdel.length, hdel.maxEntries, h.length]
  · rw [hdel.maxEntries]
    exact h.screen
  · intro i b hb
    obtain ⟨hi, hgone⟩ := hentry i b hb
    rw [hdel.allocated, hdel.freed]
    refine ⟨(h.held i b hi).1, ?_⟩
    rintro (hfreed | ⟨j, hj, hjb⟩)
    · exact (h.held i b hi).2 hfreed
    · exact hgone (h.unique i j b hi hjb ▸ hj)
  · intro i j b hi hj
    exact h.unique i j b (hentry i b hi).1 (hentry j b hj).1
  · intro b hb
    rw [hdel.allocated]
    rcases (hdel.freed b).mp hb with hb | ⟨i, -, hb⟩
    · exact h.freed_lt b hb
    · exact (h.held i b hb).1
  · rw [hdel.currentSurface, hdel.maxEntries, hdel.surface]
    exact h.drawn

/-! ### A new bitmap -/

/-- A bitmap that is new in memory takes the place of the one of the entry, if there is such an entry. -/
theorem offscreenCachePut_eq (h : Owned s) (hempty : s.entry index = none) (hlt : bitmap < s.allocated)
    (hfreed : bitmap ∉ s.freed) (hfresh : ∀ i, s.entry i ≠ some bitmap) :
    ∃ s', offscreenCachePut index bitmap s = some s' ∧ Owned s' ∧ s'.maxEntries = s.maxEntries ∧
      s'.currentSurface = s.currentSurface ∧ s'.surface = s.surface ∧ s'.allocated = s.allocated ∧
      s'.freed = s.freed ∧
      ∀ i, s'.entry i = if i = index ∧ index < s.maxEntries then some bitmap else s.entry i := by
  unfold offscreenCachePut
  split
  · next hout =>
    refine ⟨s, rfl, h, rfl, rfl, rfl, rfl, rfl, fun i => ?_⟩
    rw [if_neg fun hi => absurd hi.2 (by omega)]
  · next hin =>
    have hlen := h.length
    have hindex : index < s.entries.length := by omega
    -- the entry has been emptied before, so that nothing is freed here
    have hload : load s.entries index = some none := by
      obtain ⟨prevBitmap, hload⟩ := exists_load hindex
      rw [Offscreen.entry, hload] at hempty
      rw [hload, show prevBitmap = none from hempty]
    have hdelete : offscreenCacheDelete index s = some { s with entries := s.entries.set index none } := by
      rw [offscreenCacheDelete, if_neg hin, hload, store_of_lt hindex]
      rfl
    have hentries : (s.entries.set index none).set index (some bitmap) =
        s.entries.set index (some bitmap) := List.set_set ..
    have hstore : store (s.entries.set index none) index (some bitmap) =
        some (s.entries.set index (some bitmap)) := by
      rw [store_of_lt (by rwa [List.length_set]), hentries]
    have hentry (i : ℕ) : entry { s with entries := s.entries.set index (some bitmap) } i =
        if i = index ∧ index < s.maxEntries then some bitmap else s.entry i := by
      unfold entry
      dsimp only
      by_cases hi : i = index
      · rw [if_pos ⟨hi, by omega⟩, hi, load_set_self hindex]
        rfl
      · rw [if_neg fun hc => hi hc.1, load_set_ne (Ne.symm hi)]
    rw [hdelete]
    refine ⟨{ s with entries := s.entries.set index (some bitmap) }, ?_, ?_, rfl, rfl, rfl, rfl, rfl,
      hentry⟩
    · change (store (s.entries.set index none) index (some bitmap)).bind
        (fun entries => some { s with entries := entries }) = _
      rw [hstore]
      rfl
    · refine ⟨(List.length_set).trans hlen, h.screen, ?_, ?_, h.freed_lt, h.drawn⟩
      · intro i b hb
        rw [hentry] at hb
        split at hb
        · obtain rfl := Option.some.inj hb
          exact ⟨hlt, hfreed⟩
        · exact h.held i b hb
      · intro i j b hi hj
        rw [hentry] at hi hj
        split at hi <;> split at hj
        · next hi' hj' => exact hi'.1.trans hj'.1.symm
        · obtain rfl := Option.some.inj hi
          exact absurd hj (hfresh j)
        · obtain rfl := Option.some.inj hj
          exact absurd hi (hfresh i)
        · exact h.unique i j b hi hj

/-- What a Create Offscreen Bitmap order does when the callbacks succeed. -/
theorem updateGdiCreateOffscreenBitmap_eq (h : Owned s) (order : CreateOffscreenBitmap) :
    ∃ s', updateGdiCreateOffscreenBitmap order true true s = some (s', true) ∧ Owned s' ∧
      s'.maxEntries = s.maxEntries ∧ s'.currentSurface = s.currentSurface ∧
      s'.surface = (if s.currentSurface = order.id then some s.allocated else s.surface) ∧
      ∀ i, s'.entry i = if i ∈ order.deleteList then none
        else if i = order.id ∧ order.id < s.maxEntries then some s.allocated
        else if i = order.id then none else s.entry i := by
  -- the bitmap is made
  have h₀ : Owned { s with allocated := s.allocated + 1 } :=
    ⟨h.length, h.screen, fun i b hb => ⟨Nat.lt_succ_of_lt (h.held i b hb).1, (h.held i b hb).2⟩, h.unique,
      fun b hb => Nat.lt_succ_of_lt (h.freed_lt b hb), h.drawn⟩
  obtain ⟨s₁, hs₁, hdel₁⟩ := offscreenCacheDelete_deletes h₀.length order.id
  have h₁ := h₀.deletes hdel₁
  have hfreed₁ : s.allocated ∉ s₁.freed := by
    intro hb
    rcases (hdel₁.freed _).mp hb with hb | ⟨i, -, hb⟩
    · exact absurd (h.freed_lt _ hb) (lt_irrefl _)
    · exact absurd (h.held i _ hb).1 (lt_irrefl _)
  have hfresh₁ (i : ℕ) : s₁.entry i ≠ some s.allocated := by
    intro hb
    rw [hdel₁.entry] at hb
    split at hb
    · exact nomatch hb
    · exact absurd (h.held i _ hb).1 (lt_irrefl _)
  have hempty₁ : s₁.entry order.id = none := by
    rw [hdel₁.entry, if_pos (List.mem_singleton_self _)]
  have hlt₁ : s.allocated < s₁.allocated := by
    rw [hdel₁.allocated]
    exact Nat.lt_succ_self _
  -- it is put into its entry, and may be the current surface
  obtain ⟨s₂, hs₂, h₂, hmax₂, hcurrent₂, hsurface₂, -, -, hentry₂⟩ :=
    offscreenCachePut_eq h₁ hempty₁ hlt₁ hfreed₁ hfresh₁
  have hcurrent : s₂.currentSurface = s.currentSurface := hcurrent₂.trans hdel₁.currentSurface
  have hmax : s₂.maxEntries = s.maxEntries := hmax₂.trans hdel₁.maxEntries
  set s₃ : Offscreen :=
    if s₂.currentSurface = order.id then { s₂ with surface := some s.allocated } else s₂ with hs₃
  have h₃ : Owned s₃ := by
    rw [hs₃]
    split
    · exact ⟨h₂.length, h₂.screen, h₂.held, h₂.unique, h₂.freed_lt, fun _ => nofun⟩
    · exact h₂
  have hsurface₃ : s₃.surface = if s.currentSurface = order.id then some s.allocated else s.surface := by
    rw [hs₃, hcurrent]
    split
    · rfl
    · rw [hsurface₂, hdel₁.surface]
  have hcurrent₃ : s₃.currentSurface = s.currentSurface := by
    rw [hs₃, ← hcurrent]
    split <;> rfl
  have hmax₃ : s₃.maxEntries = s.maxEntries := by
    rw [hs₃, ← hmax]
    split <;> rfl
  have hentry₃ (i : ℕ) : s₃.entry i = s₂.entry i := by
    rw [hs₃]
    split <;> rfl
  -- the delete list comes last
  obtain ⟨s₄, hs₄, hdel₄⟩ := offscreenDeleteAll_deletes order.deleteList h₃.length
  refine ⟨s₄, ?_, h₃.deletes hdel₄, hdel₄.maxEntries.trans hmax₃, hdel₄.currentSurface.trans hcurrent₃,
    hdel₄.surface.trans hsurface₃, fun i => ?_⟩
  · have hrun : updateGdiCreateOffscreenBitmap order true true s =
        ((offscreenCacheDelete order.id { s with allocated := s.allocated + 1 }).bind fun s₁ =>
          (offscreenCachePut order.id s.allocated s₁).bind fun s₂ =>
          (offscreenDeleteAll order.deleteList
            (if s₂.currentSurface = order.id then { s₂ with surface := some s.allocated } else s₂)).bind
          fun s₄ => some (s₄, true)) := rfl
    rw [hrun, hs₁, Option.bind_some, hs₂, Option.bind_some, ← hs₃, hs₄, Option.bind_some]
  · rw [hdel₄.entry, hentry₃, hentry₂, hdel₁.entry, hdel₁.maxEntries]
    simp only [List.mem_singleton]
    rfl

/-! ### Steps -/

/-- The order leaves the current surface in place. -/
def Spares (s : Offscreen) : OffscreenOrder → Prop
  | .create order alloc new =>
    alloc = true → new = true →
      if s.currentSurface < s.maxEntries then s.currentSurface ∉ order.deleteList
      else order.id ≠ s.currentSurface
  | .switch _ => True

/-- `update_gdi_switch_surface` selects the screen, or an entry that holds a bitmap, or fails. -/
theorem updateGdiSwitchSurface_cases (h : Owned s) (bitmapId : ℕ) :
    updateGdiSwitchSurface bitmapId s = some (s, false) ∨
    updateGdiSwitchSurface bitmapId s =
      some ({ s with surface := none, currentSurface := screenBitmapSurface }, true) ∨
    ∃ b, s.entry bitmapId = some b ∧ updateGdiSwitchSurface bitmapId s =
      some ({ s with surface := some b, currentSurface := bitmapId }, true) := by
  unfold updateGdiSwitchSurface
  split
  · next hscreen =>
    rw [hscreen]
    exact Or.inr (Or.inl rfl)
  unfold offscreenCacheGet
  split
  · exact Or.inl rfl
  · next hin =>
    have hlt : bitmapId < s.entries.length := by
      rw [h.length]
      omega
    obtain ⟨bitmap, hload⟩ := exists_load hlt
    rw [hload]
    cases bitmap with
    | none => exact Or.inl rfl
    | some b => exact Or.inr (Or.inr ⟨b, load_eq_some.mp hload, rfl⟩)

theorem updateGdiSwitchSurface_of_entry (h : Owned s) {bitmapId b : ℕ} (hb : s.entry bitmapId = some b) :
    updateGdiSwitchSurface bitmapId s =
      some ({ s with surface := some b, currentSurface := bitmapId }, true) := by
  have hload := load_eq_some.mpr hb
  have hin : bitmapId < s.maxEntries := by
    by_contra hout
    rw [entry_of_le h.length (by omega)] at hb
    exact nomatch hb
  have hscreen := h.screen
  rw [updateGdiSwitchSurface, if_neg (by omega), offscreenCacheGet, if_neg (by omega), hload]
  rfl

theorem offscreenStep_owned (h : Owned s) (hstep : OffscreenStep s order s') : Owned s' := by
  obtain ⟨ok, hstep⟩ := hstep
  cases order with
  | create order alloc new =>
    cases alloc with
    | false =>
      obtain ⟨rfl, -⟩ := Prod.mk.inj (Option.some.inj hstep)
      exact h
    | true =>
      cases new with
      | false =>
        obtain ⟨rfl, -⟩ := Prod.mk.inj (Option.some.inj hstep)
        have hnew (i b : ℕ) (hb : s.entry i = some b) : b < s.allocated + 1 ∧
            b ∉ s.allocated :: s.freed := by
          obtain ⟨hlt, hfreed⟩ := h.held i b hb
          refine ⟨Nat.lt_succ_of_lt hlt, fun hmem => ?_⟩
          rcases List.mem_cons.mp hmem with rfl | hmem
          · exact lt_irrefl _ hlt
          · exact hfreed hmem
        refine ⟨h.length, h.screen, hnew, h.unique, fun b hb => ?_, h.drawn⟩
        rcases List.mem_cons.mp hb with rfl | hb
        · exact Nat.lt_succ_self _
        · exact Nat.lt_succ_of_lt (h.freed_lt b hb)
      | true =>
        obtain ⟨s'', hs'', hs, -⟩ := updateGdiCreateOffscreenBitmap_eq h order
        obtain ⟨rfl, -⟩ := Prod.mk.inj (Option.some.inj (hs''.symm.trans hstep))
        exact hs
  | switch bitmapId =>
    rcases updateGdiSwitchSurface_cases h bitmapId with heq | heq | ⟨b, hb, heq⟩
    · obtain ⟨rfl, -⟩ := Prod.mk.inj (Option.some.inj (heq.symm.trans hstep))
      exact h
    · obtain ⟨rfl, -⟩ := Prod.mk.inj (Option.some.inj (heq.symm.trans hstep))
      have hscreen := h.screen
      exact ⟨h.length, h.screen, h.held, h.unique, h.freed_lt, fun hlt => absurd hlt (not_lt.mpr hscreen)⟩
    · obtain ⟨rfl, -⟩ := Prod.mk.inj (Option.some.inj (heq.symm.trans hstep))
      exact ⟨h.length, h.screen, h.held, h.unique, h.freed_lt, fun _ => nofun⟩

/-- An order keeps the surface active if and only if it leaves the current surface in place. -/
theorem offscreenStep_active (h : Owned s) (hactive : s.Active) (hstep : OffscreenStep s order s') :
    s'.Active ↔ Spares s order := by
  obtain ⟨ok, hstep⟩ := hstep
  cases order with
  | create order alloc new =>
    cases alloc with
    | false =>
      obtain ⟨rfl, -⟩ := Prod.mk.inj (Option.some.inj hstep)
      exact iff_of_true hactive nofun
    | true =>
      cases new with
      | false =>
        obtain ⟨rfl, -⟩ := Prod.mk.inj (Option.some.inj hstep)
        exact iff_of_true hactive fun _ => nofun
      | true =>
        obtain ⟨s'', hs'', -, -, hcurrent, hsurface, hentry⟩ := updateGdiCreateOffscreenBitmap_eq h order
        obtain ⟨rfl, -⟩ := Prod.mk.inj (Option.some.inj (hs''.symm.trans hstep))
        have hspares : Spares s (.create order true true) ↔
            if s.currentSurface < s.maxEntries then s.currentSurface ∉ order.deleteList
            else order.id ≠ s.currentSurface := ⟨fun hc => hc rfl rfl, fun hc _ _ => hc⟩
        rw [active_iff] at hactive ⊢
        rw [hspares, hsurface, hcurrent, hentry]
        by_cases hin : s.currentSurface < s.maxEntries
        · rw [if_pos hin]
          have hne := h.drawn hin
          have hsome : s.surface = s.entry s.currentSurface := hactive.resolve_left hne
          by_cases hgone : s.currentSurface ∈ order.deleteList
          · -- the bitmap of the current surface is deleted through the list
            rw [if_pos hgone]
            refine iff_of_false ?_ fun hc => hc hgone
            rw [or_self]
            split
            · exact nofun
            · exact hne
          · rw [if_neg hgone]
            refine iff_of_true (Or.inr ?_) hgone
            by_cases hid : s.currentSurface = order.id
            · rw [if_pos hid, if_pos ⟨hid, hid ▸ hin⟩]
            · rw [if_neg hid, if_neg fun hc => hid hc.1, if_neg hid, hsome]
        · rw [if_neg hin]
          have hnone : s.entry s.currentSurface = none := entry_of_le h.length (by omega)
          have hscreen : s.surface = none := by
            rcases hactive with hc | hc
            · exact hc
            · exact hc.trans hnone
          by_cases hid : s.currentSurface = order.id
          · -- no entry takes the bitmap that becomes the surface
            have hout : ¬ (s.currentSurface = order.id ∧ order.id < s.maxEntries) :=
              fun hc => hin (hid ▸ hc.2)
            rw [if_pos hid, if_neg hout, if_pos hid, ite_self]
            refine iff_of_false (fun hc => ?_) fun hc => hc hid.symm
            rcases hc with hc | hc <;> exact nomatch hc
          · rw [if_neg hid]
            exact iff_of_true (Or.inl hscreen) (Ne.symm hid)
  | switch bitmapId =>
    refine iff_of_true ?_ trivial
    rcases updateGdiSwitchSurface_cases h bitmapId with heq | heq | ⟨b, hb, heq⟩
    · obtain ⟨rfl, -⟩ := Prod.mk.inj (Option.some.inj (heq.symm.trans hstep))
      exact hactive
    · obtain ⟨rfl, -⟩ := Prod.mk.inj (Option.some.inj (heq.symm.trans hstep))
      exact Or.inl rfl
    · obtain ⟨rfl, -⟩ := Prod.mk.inj (Option.some.inj (heq.symm.trans hstep))
      exact Or.inr ⟨b, rfl, load_eq_some.mpr hb⟩

/-- An order that fails leaves the current surface in place. -/
theorem spares_of_failed (h : Owned s) (hfailed : offscreenOrder order s = some (s', false)) :
    Spares s order := by
  cases order with
  | create order alloc new =>
    rintro rfl rfl
    obtain ⟨s'', hs'', -⟩ := updateGdiCreateOffscreenBitmap_eq h order
    exact nomatch hs''.symm.trans hfailed
  | switch bitmapId => trivial

/-- No order accesses memory outside of the entries. -/
theorem exists_offscreenStep (h : Owned s) (order : OffscreenOrder) : ∃ s', OffscreenStep s order s' := by
  cases order with
  | create order alloc new =>
    cases alloc with
    | false => exact ⟨s, false, rfl⟩
    | true =>
      cases new with
      | false => exact ⟨_, false, rfl⟩
      | true =>
        obtain ⟨s', hs', -⟩ := updateGdiCreateOffscreenBitmap_eq h order
        exact ⟨s', true, hs'⟩
  | switch bitmapId =>
    rcases updateGdiSwitchSurface_cases h bitmapId with heq | heq | ⟨b, -, heq⟩
    · exact ⟨s, false, heq⟩
    · exact ⟨_, true, heq⟩
    · exact ⟨_, true, heq⟩

/-! ### Sessions -/

/-- The surface is the screen or the bitmap of the current entry after each order of a session that succeeds
if and only if no order of the session removes the bitmap of the current surface through its delete list, or
has the number of the screen while the screen is the surface. -/
theorem offscreen_active_iff (orders : List OffscreenOrder) :
    (∃ s, Runs OffscreenStep offscreenCacheNew orders s) ∧
    ((∀ as order s s', as ++ [order] <+: orders → Runs OffscreenStep offscreenCacheNew as s →
        offscreenOrder order s = some (s', true) → s'.Active) ↔
      ∀ as order s, as ++ [order] <+: orders → Runs OffscreenStep offscreenCacheNew as s →
        Spares s order) := by
  have howned {as : List OffscreenOrder} {s : Offscreen}
    (hrun : Runs OffscreenStep offscreenCacheNew as s) :
      Owned s := hrun.invariant owned_new fun _ _ _ h hstep => offscreenStep_owned h hstep
  have hscreen : offscreenCacheNew.Active := Or.inl rfl
  refine ⟨Runs.exists_run howned exists_offscreenStep orders, ?_, ?_⟩
  · intro hactive as order s hpre hrun
    -- a failed order changes neither the surface nor the entry
    have hall {as : List OffscreenOrder} {s : Offscreen}
        (hrun : Runs OffscreenStep offscreenCacheNew as s) : as <+: orders → s.Active := by
      induction hrun with
      | nil => exact fun _ => hscreen
      | @snoc as t u order hrun hstep ih =>
        intro hpre
        obtain ⟨ok, hok⟩ := hstep
        cases ok with
        | true => exact hactive as order t u hpre hrun hok
        | false =>
          have ht := ih ((List.prefix_append _ _).trans hpre)
          exact (offscreenStep_active (howned hrun) ht ⟨false, hok⟩).mpr
            (spares_of_failed (howned hrun) hok)
    have hs := hall hrun ((List.prefix_append _ _).trans hpre)
    obtain ⟨s', hstep⟩ := exists_offscreenStep (howned hrun) order
    have hs' := hall (hrun.snoc hstep) hpre
    exact (offscreenStep_active (howned hrun) hs hstep).mp hs'
  · intro hspares as order s s' hpre hrun hok
    have hs : Owned s ∧ s.Active :=
      Runs.invariant_of (I := fun s => Owned s ∧ s.Active) (C := Spares) ⟨owned_new, hscreen⟩
        (fun t a u ht hC hstep => ⟨offscreenStep_owned ht.1 hstep,
          (offscreenStep_active ht.1 ht.2 hstep).mpr hC⟩)
        (fun as' a t hpre' hrun' =>
          hspares as' a t (hpre'.trans ((List.prefix_append _ _).trans hpre)) hrun') hrun
    exact (offscreenStep_active hs.1 hs.2 ⟨true, hok⟩).mpr (hspares as order s hpre hrun)

/-- The first order makes the bitmap of entry 3, which the second one selects; the third one makes another
bitmap and deletes that of entry 3, which stays the surface. -/
theorem delete_current_surface :
    ∃ s s', Runs OffscreenStep offscreenCacheNew [.create ⟨3, []⟩ true true, .switch 3] s ∧
      offscreenOrder (.create ⟨4, [3]⟩ true true) s = some (s', true) ∧
      s'.surface = some 0 ∧ s'.currentSurface = 3 ∧ s'.entry 3 = none ∧ ¬ s'.Active := by
  obtain ⟨s₁, hs₁, h₁, hmax₁, -, -, hentry₁⟩ := updateGdiCreateOffscreenBitmap_eq owned_new ⟨3, []⟩
  have hthree : s₁.entry 3 = some 0 := (hentry₁ 3).trans (by decide)
  have hs₂ := updateGdiSwitchSurface_of_entry h₁ hthree
  have h₂ := offscreenStep_owned h₁ (⟨true, hs₂⟩ : OffscreenStep s₁ (.switch 3) _)
  obtain ⟨s₃, hs₃, -, -, hcurrent₃, hsurface₃, hentry₃⟩ := updateGdiCreateOffscreenBitmap_eq h₂ ⟨4, [3]⟩
  have hgone : s₃.entry 3 = none := (hentry₃ 3).trans (if_pos (by decide))
  have hsurface : s₃.surface = some 0 := hsurface₃.trans (if_neg (show 3 ≠ 4 by decide))
  refine ⟨_, s₃, (Runs.nil.snoc ⟨true, hs₁⟩).snoc ⟨true, hs₂⟩, hs₃, hsurface, hcurrent₃, hgone, ?_⟩
  rw [active_iff, hsurface, hcurrent₃, hgone]
  decide

end FreeRDP.Cache
