import FreeRDP.Collections.BufferPool
import Mathlib.Data.List.Nodup

/-!
# The buffers of a `BufferPool`

`Partitioned pool taken`: each buffer that is alive is at one place of one of the two arrays, and those
in `uArray` are the ones that have been taken.  Every call keeps this and stays inside the arrays, but
for a return out of a full `uArray`, which moves one item too many, and for returns that lose the
buffer.
-/

namespace FreeRDP.Collections

variable {pool pool' : BufferPool} {s s' : Slots BufferPoolItem} {taken : List ℕ} {granted : Bool}

def buffers (s : Slots BufferPoolItem) : List ℕ := s.elems.map BufferPoolItem.buffer

/-- The memory of an array, whose capacity is an `int`. -/
abbrev Sized (s : Slots BufferPoolItem) : Prop := s.Sized (2 ^ 31)

/-- Each buffer that is alive is at one place of one of the arrays; those in `uArray` are `taken`. -/
structure BufferPool.Partitioned (pool : BufferPool) (taken : List ℕ) : Prop where
  sizedA : Sized pool.a
  sizedU : Sized pool.u
  spare : pool.a.size < pool.a.capacity
  nodup : pool.heap.Nodup
  heap : pool.heap.Perm (buffers pool.a ++ buffers pool.u)
  taken : buffers pool.u = taken

@[simp] theorem length_buffers (s : Slots BufferPoolItem) : (buffers s).length = s.size := by
  rw [buffers, List.length_map, Slots.length_elems]

theorem getElem?_buffers {index : ℕ} (h : index < s.size) :
    (buffers s)[index]? = some (s.slot index).buffer := by
  rw [buffers, List.getElem?_map, Slots.getElem?_elems h, Option.map_some]

/-! ### Arrays -/

/-- An array grows to twice its capacity, or not at all. -/
theorem reallocItems_eq (hs : Sized s)
    (h : reallocItems granted (Int.bmod (s.capacity * 2) (2 ^ 32)) s = some s') :
    s' = { s with capacity := 2 * s.capacity, room := 2 * s.capacity } ∧
      2 * s.capacity < 2 ^ 31 := by
  have hlt := hs.capacity_lt
  unfold reallocItems Slots.realloc at h
  -- beyond `2 ^ 31` the capacity would be negative, and the number of bytes too large
  have hbmod : 2 * s.capacity < 2 ^ 31 ∧ Int.bmod (s.capacity * 2) (2 ^ 32) = 2 * s.capacity ∨
      2 ^ 31 ≤ 2 * s.capacity ∧ Int.bmod (s.capacity * 2) (2 ^ 32) = 2 * s.capacity - 2 ^ 32 := by
    rw [Int.bmod_def]
    split_ifs <;> omega
  by_cases hgranted : granted = true ∧
      (16 * Int.bmod (s.capacity * 2) (2 ^ 32) % 2 ^ 64).toNat < 2 ^ 63
  · rw [if_pos hgranted, Option.map_some] at h
    obtain ⟨hsmall, hbmod⟩ | ⟨hlarge, hbmod⟩ := hbmod
    · have hbytes : (16 * (2 * s.capacity : ℤ) % 2 ^ 64).toNat / 16 = 2 * s.capacity := by omega
      have hcapacity : (2 * s.capacity : ℤ).toNat = 2 * s.capacity := by omega
      rw [hbmod, hbytes, hcapacity] at h
      exact ⟨(Option.some.inj h).symm, hsmall⟩
    · rw [hbmod] at hgranted
      exact absurd hgranted.2 (by omega)
  · rw [if_neg hgranted] at h
    exact nomatch h

variable (granted) in
theorem shiftItems_eq (hs : Sized s) (hsize : s.size < s.capacity) {index : ℕ}
    (hindex : index < s.size) :
    ∃ s', shiftItems granted index (-1) s = some (true, s') ∧ Sized s' ∧ s'.size = s.size - 1 ∧
      s'.capacity = s.capacity ∧ s'.elems = s.elems.eraseIdx index := by
  obtain ⟨s₁, hmove, hsize₁, hcapacity₁, hsized₁, helems₁⟩ :=
    hs.remove (n := s.size - index) hindex (by omega) (by omega)
  refine ⟨_, ?_, hsized₁, rfl, hcapacity₁, helems₁⟩
  have hcount : ((s₁.size : ℤ) + -1).toNat = s.size - 1 := by omega
  simp [shiftItems, hmove, hcount]

/-- The buffers behind a shift, and the one that is gone. -/
theorem buffers_perm {index : ℕ} (hindex : index < s.size) (h : s'.elems = s.elems.eraseIdx index) :
    (buffers s).Perm ((s.slot index).buffer :: buffers s') :=
  (Slots.elems_perm hindex h).map BufferPoolItem.buffer

/-! ### Calls -/

namespace BufferPool.Partitioned

theorem nodup_buffers (h : pool.Partitioned taken) : (buffers pool.u).Nodup :=
  (List.nodup_append.mp (h.heap.nodup_iff.mp h.nodup)).2.1

/-- A buffer that has been taken is found in `uArray`. -/
theorem find (h : pool.Partitioned taken) {buffer : ℕ} (hmem : buffer ∈ taken) :
    ∃ index, pool.u.find (fun item => item.buffer = buffer) = some (some index) ∧
      index < pool.u.size ∧ (pool.u.slot index).buffer = buffer := by
  obtain ⟨found, hfind, hnone, hsome⟩ := Slots.find_eq
    (fun item : BufferPoolItem => item.buffer = buffer) h.sizedU.size_le_room
  rw [← h.taken, buffers, List.mem_map] at hmem
  obtain ⟨item, hitem, rfl⟩ := hmem
  cases found with
  | none => exact absurd (hnone rfl item hitem) (by simp)
  | some index =>
    obtain ⟨hlt, hbuffer⟩ := hsome index rfl
    exact ⟨index, hfind, hlt, of_decide_eq_true hbuffer⟩

theorem getBufferSize (h : pool.Partitioned taken) {item : BufferPoolItem}
    (hitem : item ∈ pool.u.elems) :
    bufferPoolGetBufferSize item.buffer pool = some item.size := by
  have hmem : item.buffer ∈ taken := h.taken ▸ List.mem_map_of_mem hitem
  obtain ⟨index, hfind, hindex, hbuffer⟩ := h.find hmem
  obtain ⟨i, hi, rfl⟩ := Slots.mem_elems.mp hitem
  -- no other item has the same buffer
  have hsame : index = i := by
    refine (List.getElem?_inj (by rwa [length_buffers]) h.nodup_buffers).mp ?_
    rw [getElem?_buffers hindex, getElem?_buffers hi, hbuffer]
  have hread : pool.u.read i = some (pool.u.slot i) :=
    Slots.read_eq (lt_of_lt_of_le hi (h.sizedU.size_le_room))
  simp [bufferPoolGetBufferSize, hfind, hsame, hread]

end BufferPool.Partitioned

/-- `buffer` is alive and in none of the arrays. -/
structure BufferPool.Pending (pool : BufferPool) (taken : List ℕ) (buffer : ℕ) : Prop where
  sizedA : Sized pool.a
  sizedU : Sized pool.u
  spare : pool.a.size < pool.a.capacity
  nodup : pool.heap.Nodup
  heap : pool.heap.Perm (buffer :: (buffers pool.a ++ buffers pool.u))
  taken : buffers pool.u = taken

/-- What a call of `BufferPool_Take` for `size` bytes promises about its result. -/
def Takes (size : ℤ) (taken : List ℕ) (result : Option ℕ) (pool' : BufferPool) : Prop :=
  pool'.Partitioned (taken ++ result.toList) ∧ ∀ buffer, result = some buffer →
    buffer ∉ taken ∧ ∃ recorded, bufferPoolGetBufferSize buffer pool' = some recorded ∧ size ≤ recorded

variable (granted) in
/-- A buffer without a place is put into `uArray` or freed. -/
theorem BufferPool.Pending.takeUsed {buffer : ℕ} (h : pool.Pending taken buffer) (size : ℤ) :
    ∃ result pool', bufferPoolTakeUsed granted buffer size pool = some (result, pool') ∧
      Takes size taken result pool' := by
  have hsize := h.sizedU.size_le
  obtain ⟨hfresh, hnodup⟩ := List.nodup_cons.mp (h.heap.nodup_iff.mp h.nodup)
  -- the array that the item is pushed on
  have hpush {u : Slots BufferPoolItem} (hsized : Sized u) (hlt : u.size < u.capacity)
      (hu : buffers u = buffers pool.u) :
      ∃ u', u.push ⟨size, buffer⟩ = some u' ∧ Takes size taken (some buffer) { pool with u := u' } := by
    obtain ⟨u', hpush, hsized', -, -, helems⟩ := hsized.push hlt ⟨size, buffer⟩
    have hbuffers : buffers u' = buffers pool.u ++ [buffer] := by
      rw [← hu, buffers, helems, List.map_append]
      rfl
    have hpart : BufferPool.Partitioned { pool with u := u' } (taken ++ [buffer]) :=
      ⟨h.sizedA, hsized', h.spare, h.nodup, by
        rw [hbuffers, ← List.append_assoc]
        exact h.heap.trans (List.perm_append_singleton buffer _).symm, by rw [hbuffers, h.taken]⟩
    refine ⟨u', hpush, hpart, ?_⟩
    rintro _ ⟨⟩
    refine ⟨fun hmem => hfresh (List.mem_append_right _ (h.taken ▸ hmem)), size, ?_, le_rfl⟩
    have hitem : (⟨size, buffer⟩ : BufferPoolItem) ∈ u'.elems := by
      rw [helems]
      exact List.mem_append_right _ (List.mem_singleton_self _)
    exact hpart.getBufferSize hitem
  unfold bufferPoolTakeUsed
  by_cases hfull : pool.u.size + 1 > pool.u.capacity
  · rw [if_pos hfull]
    cases hrealloc : reallocItems granted (Int.bmod (pool.u.capacity * 2) (2 ^ 32)) pool.u with
    | none =>
      refine ⟨none, _, rfl, ⟨h.sizedA, h.sizedU, h.spare, h.nodup.erase buffer, ?_, ?_⟩, nofun⟩
      · have herase := h.heap.erase buffer
        rwa [List.erase_cons_head] at herase
      · rw [h.taken]
        exact (List.append_nil taken).symm
    | some u =>
      obtain ⟨rfl, hlt⟩ := reallocItems_eq h.sizedU hrealloc
      have htwo := h.sizedU.two_le
      obtain ⟨u', hpush, htakes⟩ := hpush
        (show Sized { pool.u with capacity := 2 * pool.u.capacity, room := 2 * pool.u.capacity } from
          ⟨by dsimp only; omega, rfl, by dsimp only; omega, hlt⟩) (by dsimp only; omega) rfl
      exact ⟨some buffer, _, by simp [hpush], htakes⟩
  · rw [if_neg hfull]
    obtain ⟨u', hpush, htakes⟩ := hpush h.sizedU (by omega) rfl
    exact ⟨some buffer, _, by simp [hpush], htakes⟩

/-- The loop stays inside the array, and the indices that it finds are those of items. -/
theorem takeLoop_eq {a : Slots BufferPoolItem} {index n : ℕ} (size : ℤ) (maxIndex : ℕ) {maxSize : ℤ}
    (hn : index + n ≤ a.room) (hmax : maxSize = 0 ∨ maxIndex < index) :
    ∃ found maxSize' maxIndex',
      takeLoop a size index maxSize maxIndex n = some (found, maxSize', maxIndex') ∧
        (∀ j, found = some j → j < index + n) ∧ (maxSize' = 0 ∨ maxIndex' < index + n) := by
  induction n generalizing index maxSize maxIndex with
  | zero => exact ⟨none, maxSize, maxIndex, rfl, nofun, hmax⟩
  | succ n ih =>
    have hread := Slots.read_eq (show index < a.room by omega)
    generalize hmax' : (if (a.slot index).size > maxSize then ((a.slot index).size, index)
      else (maxSize, maxIndex)) = larger
    have hlarger : larger.1 = 0 ∨ larger.2 < index + 1 := by
      rw [← hmax']
      split_ifs
      · exact Or.inr (Nat.lt_succ_self index)
      · exact hmax.imp_right fun h => h.trans (Nat.lt_succ_self index)
    obtain ⟨largerSize, largerIndex⟩ := larger
    by_cases hfits : (a.slot index).size ≥ size
    · refine ⟨some index, largerSize, largerIndex, by simp [takeLoop, hread, hmax', hfits], ?_, ?_⟩
      · rintro j ⟨⟩
        omega
      · exact hlarger.imp_right fun h => by omega
    · obtain ⟨found, maxSize', maxIndex', hloop, hfound, hmaxIndex⟩ :=
        ih largerIndex (by omega : index + 1 + n ≤ a.room) hlarger
      refine ⟨found, maxSize', maxIndex', by simp [takeLoop, hread, hmax', hfits, hloop], ?_, ?_⟩
      · exact fun j hj => by have := hfound j hj; omega
      · exact hmaxIndex.imp_right fun h => by omega

/-- The address that the allocator gives is not in use. -/
theorem allocate_eq {mem : Option ℕ} {heap : List ℕ} {buffer : ℕ}
    (h : allocate mem heap = some buffer) : buffer ∉ heap := by
  simpa using (Option.filter_eq_some_iff.mp h).2

namespace BufferPool.Partitioned

variable (granted) in
/-- An available item is shifted out of `aArray`. -/
theorem shiftAvailable (h : pool.Partitioned taken) {index : ℕ} (hindex : index < pool.a.size) :
    ∃ a', bufferPoolShiftAvailable granted index (-1) pool = some (true, { pool with a := a' }) ∧
      Sized a' ∧ a'.size < a'.capacity ∧ pool.heap.Perm
        ((pool.a.slot index).buffer :: (buffers a' ++ buffers pool.u)) := by
  have hspare := h.spare
  obtain ⟨a', hshift, hsized, hsize, hcapacity, helems⟩ :=
    shiftItems_eq granted h.sizedA h.spare hindex
  refine ⟨a', by simp [bufferPoolShiftAvailable, hshift], hsized, by omega, ?_⟩
  exact h.heap.trans ((buffers_perm hindex helems).append_right _)

variable (granted) in
theorem take (h : pool.Partitioned taken) (size : ℤ) (mem : Option ℕ) :
    ∃ result pool', bufferPoolTake size mem granted pool = some (result, pool') ∧
      Takes size taken result pool' := by
  have hspare := h.spare
  have hroom := h.sizedA.room_eq
  have hkept : Takes size taken none pool := ⟨by simpa using h, nofun⟩
  generalize hsize' : (if size < 1 then 0 else size) = size'
  have hle : size ≤ size' := by
    rw [← hsize']
    split_ifs <;> omega
  have hlarger {result : Option ℕ} {pool' : BufferPool} (htakes : Takes size' taken result pool') :
      Takes size taken result pool' := by
    refine ⟨htakes.1, fun buffer hbuffer => ?_⟩
    obtain ⟨hnot, recorded, hrecorded, hsize⟩ := htakes.2 buffer hbuffer
    exact ⟨hnot, recorded, hrecorded, hle.trans hsize⟩
  obtain ⟨found, maxSize, maxIndex, hloop, hfound, hmaxIndex⟩ := takeLoop_eq size' 0
    (show 0 + pool.a.size ≤ pool.a.room by omega) (Or.inl rfl : (0 : ℤ) = 0 ∨ _)
  generalize hchosen : (if found = none ∧ maxSize ≠ 0 then some maxIndex else found) = chosen
  have hindex : ∀ j, chosen = some j → j < pool.a.size := by
    rintro j rfl
    split_ifs at hchosen with hmax
    · obtain rfl := Option.some.inj hchosen
      have := hmaxIndex.resolve_left hmax.2
      omega
    · have := hfound j hchosen
      omega
  unfold bufferPoolTake
  simp only [hsize', hloop, Option.bind_eq_bind, Option.bind_some, hchosen]
  cases chosen with
  | none =>
    -- a new buffer
    by_cases hzero : size' = 0
    · exact ⟨none, pool, by simp [hzero], hkept⟩
    cases hmem : allocate mem pool.heap with
    | none => exact ⟨none, pool, by simp [hzero], hkept⟩
    | some buffer =>
      have hpending : BufferPool.Pending { pool with heap := buffer :: pool.heap } taken buffer :=
        ⟨h.sizedA, h.sizedU, h.spare, List.nodup_cons.mpr ⟨allocate_eq hmem, h.nodup⟩,
          h.heap.cons buffer, h.taken⟩
      obtain ⟨result, pool', htake, htakes⟩ := hpending.takeUsed granted size'
      exact ⟨result, pool', by simp [hzero, htake], hlarger htakes⟩
  | some index =>
    have hlt := hindex index rfl
    have hread := Slots.read_eq (show index < pool.a.room by omega)
    obtain ⟨a', hshift, hsized, hspare', hperm⟩ := h.shiftAvailable granted hlt
    dsimp only
    rw [hread, Option.bind_some]
    by_cases hgrow : maxSize < size'
    · -- the buffer is made larger, and may move
      rw [if_pos hgrow]
      cases hmem : allocate mem (pool.heap.erase (pool.a.slot index).buffer) with
      | none => exact ⟨none, pool, rfl, hkept⟩
      | some buffer =>
        have hrest := hperm.erase (pool.a.slot index).buffer
        rw [List.erase_cons_head] at hrest
        have hpending : BufferPool.Pending ⟨a', pool.u,
            buffer :: pool.heap.erase (pool.a.slot index).buffer⟩ taken buffer :=
          ⟨hsized, h.sizedU, hspare', List.nodup_cons.mpr ⟨allocate_eq hmem, h.nodup.erase _⟩,
            hrest.cons buffer, h.taken⟩
        obtain ⟨result, pool', htake, htakes⟩ :=
          hpending.takeUsed granted size'
        exact ⟨result, pool', by simp [hshift, htake], hlarger htakes⟩
    · rw [if_neg hgrow, hshift, Option.bind_some]
      have hpending : BufferPool.Pending { pool with a := a' } taken (pool.a.slot index).buffer :=
        ⟨hsized, h.sizedU, hspare', h.nodup, hperm, h.taken⟩
      obtain ⟨result, pool', htake, htakes⟩ :=
        hpending.takeUsed granted size'
      exact ⟨result, pool', htake, hlarger htakes⟩

/-- A return out of an array with a spare place, of a buffer whose size is not lost. -/
theorem giveBack (h : pool.Partitioned taken) {buffer : ℕ} (hmem : buffer ∈ taken)
    (hspare : pool.u.size < pool.u.capacity)
    (hsize : ∀ item ∈ pool.u.elems, item.buffer = buffer → Int.bmod item.size (2 ^ 32) ≠ 0)
    (hgrow : pool.a.size + 1 ≥ pool.a.capacity →
      (reallocItems granted (Int.bmod (pool.a.capacity * 2) (2 ^ 32)) pool.a).isSome) :
    ∃ pool', bufferPoolReturn buffer granted pool = some (true, pool') ∧
      pool'.Partitioned (taken.erase buffer) := by
  have hspareA := h.spare
  obtain ⟨index, hfind, hindex, hbuffer⟩ := h.find hmem
  have hread := Slots.read_eq (lt_of_lt_of_le hindex h.sizedU.size_le_room)
  have hnonzero := hsize _ (Slots.mem_elems.mpr ⟨index, hindex, rfl⟩) hbuffer
  obtain ⟨u', hshift, hsizedU, -, -, helems⟩ := shiftItems_eq granted h.sizedU hspare hindex
  have herase : buffers u' = taken.erase buffer := by
    have hlength : index < (buffers pool.u).length := by rwa [length_buffers]
    have hget : (buffers pool.u)[index] = buffer := by
      have hget := getElem?_buffers hindex
      rw [List.getElem?_eq_getElem hlength, hbuffer] at hget
      exact Option.some.inj hget
    rw [← h.taken, ← hget, h.nodup_buffers.erase_getElem, buffers, helems, buffers,
      List.eraseIdx_map]
  -- the array that the item is pushed on
  have hpush {a : Slots BufferPoolItem} (hsized : Sized a) (hlt : a.size + 1 < a.capacity)
      (ha : buffers a = buffers pool.a) :
      ∃ a', a.push ⟨Int.bmod (pool.u.slot index).size (2 ^ 32), buffer⟩ = some a' ∧
        BufferPool.Partitioned { pool with a := a', u := u' } (taken.erase buffer) := by
    obtain ⟨a', hpush, hsized', hsize', hcapacity', helems'⟩ :=
      hsized.push (by omega) ⟨Int.bmod (pool.u.slot index).size (2 ^ 32), buffer⟩
    have hbuffers : buffers a' = buffers pool.a ++ [buffer] := by
      rw [← ha, buffers, helems', List.map_append]
      rfl
    refine ⟨a', hpush, hsized', hsizedU, by dsimp only; omega, h.nodup, ?_, herase⟩
    dsimp only
    rw [hbuffers, List.append_assoc, List.singleton_append]
    refine h.heap.trans (List.Perm.append_left _ ?_)
    have hperm := buffers_perm hindex helems
    rwa [hbuffer] at hperm
  by_cases hfull : pool.a.size + 1 ≥ pool.a.capacity
  · obtain ⟨a, hrealloc⟩ := Option.isSome_iff_exists.mp (hgrow hfull)
    obtain ⟨rfl, hlt⟩ := reallocItems_eq h.sizedA hrealloc
    have htwo := h.sizedA.two_le
    obtain ⟨a', hpush, hpart⟩ := hpush
      (show Sized { pool.a with capacity := 2 * pool.a.capacity, room := 2 * pool.a.capacity } from
        ⟨by dsimp only; omega, rfl, by dsimp only; omega, hlt⟩) (by dsimp only; omega) rfl
    refine ⟨{ pool with a := a', u := u' }, ?_, hpart⟩
    simp only [bufferPoolReturn, hfind, hread, bufferPoolShiftUsed, hshift, Option.map_some,
      Option.bind_eq_bind, Option.bind_some, if_neg hnonzero, if_pos hfull, hrealloc, hpush]
    rfl
  · obtain ⟨a', hpush, hpart⟩ := hpush h.sizedA (by omega) rfl
    refine ⟨{ pool with a := a', u := u' }, ?_, hpart⟩
    simp only [bufferPoolReturn, hfind, hread, bufferPoolShiftUsed, hshift, Option.map_some,
      Option.bind_eq_bind, Option.bind_some, if_neg hnonzero, if_neg hfull, hpush]
    rfl

end BufferPool.Partitioned

/-- The loop frees the buffers of an array, whatever else is alive. -/
theorem freeItems_eq (rest : List ℕ) {heap : List ℕ} {n : ℕ} (hn : n ≤ s.size) (hroom : s.size ≤ s.room)
    (h : heap.Perm ((buffers s).take n ++ rest)) :
    ∃ heap', freeItems s heap n = some heap' ∧ heap'.Perm rest := by
  induction n generalizing heap with
  | zero => exact ⟨heap, rfl, by simpa using h⟩
  | succ n ih =>
    have hread := Slots.read_eq (show n < s.room by omega)
    have hlast : (buffers s).take (n + 1) = (buffers s).take n ++ [(s.slot n).buffer] := by
      rw [List.take_add_one, getElem?_buffers (by omega)]
      rfl
    have hperm : (heap.erase (s.slot n).buffer).Perm ((buffers s).take n ++ rest) := by
      rw [hlast, List.append_assoc, List.singleton_append] at h
      have herase := (h.trans List.perm_middle).erase (s.slot n).buffer
      rwa [List.erase_cons_head] at herase
    obtain ⟨heap', hfree, hrest⟩ := ih (by omega) hperm
    exact ⟨heap', by simp [freeItems, hread, hfree], hrest⟩

theorem BufferPool.Partitioned.clear (h : pool.Partitioned taken) :
    ∃ pool', bufferPoolClear pool = some pool' ∧ pool'.Partitioned [] := by
  have htakeA : (buffers pool.a).take pool.a.size = buffers pool.a :=
    List.take_of_length_le (length_buffers pool.a).le
  have htakeU : (buffers pool.u).take pool.u.size = buffers pool.u :=
    List.take_of_length_le (length_buffers pool.u).le
  obtain ⟨heap₁, hfree₁, hrest₁⟩ := freeItems_eq (buffers pool.u)
    le_rfl h.sizedA.size_le_room (show pool.heap.Perm _ by rw [htakeA]; exact h.heap)
  obtain ⟨heap₂, hfree₂, hrest₂⟩ := freeItems_eq [] le_rfl h.sizedU.size_le_room
    (show heap₁.Perm _ by rw [htakeU, List.append_nil]; exact hrest₁)
  have hheap := hrest₂.eq_nil
  refine ⟨⟨{ pool.a with size := 0 }, { pool.u with size := 0 }, []⟩,
    by simp [bufferPoolClear, hfree₁, hfree₂, hheap], ⟨?_, ?_, ?_, List.nodup_nil, List.Perm.refl _,
      rfl⟩⟩
  · exact ⟨Nat.zero_le _, h.sizedA.room_eq, h.sizedA.two_le, h.sizedA.capacity_lt⟩
  · exact ⟨Nat.zero_le _, h.sizedU.room_eq, h.sizedU.two_le, h.sizedU.capacity_lt⟩
  · exact lt_of_lt_of_le Nat.zero_lt_two h.sizedA.two_le

/-! ### Runs -/

/-- A call of a function of the pool, with what the allocator gives. -/
inductive BufferPoolOp where
  | take (size : ℤ) (mem : Option ℕ) (granted : Bool)
  | giveBack (buffer : ℕ) (granted : Bool)
  | clear

/-- A call: what `BufferPool_Take` returns, and the pool behind it. -/
def BufferPoolOp.run (pool : BufferPool) : BufferPoolOp → Option (Option ℕ × BufferPool)
  | take size mem granted => bufferPoolTake size mem granted pool
  | giveBack buffer granted =>
    (bufferPoolReturn buffer granted pool).map fun (_, pool) => (none, pool)
  | clear => (bufferPoolClear pool).map fun pool => (none, pool)

/-- The buffers that are taken behind a call. -/
def BufferPoolOp.takenBehind (result : Option ℕ) (taken : List ℕ) : BufferPoolOp → List ℕ
  | take _ _ _ => taken ++ result.toList
  | giveBack buffer _ => taken.erase buffer
  | clear => []

/-- A buffer that is returned has been taken. -/
def BufferPoolOp.Valid (taken : List ℕ) : BufferPoolOp → Prop
  | giveBack buffer _ => buffer ∈ taken
  | _ => True

/-- A return out of an array that is not full, of a buffer whose recorded size is not a multiple of
`2 ^ 32`, and with memory for `aArray` if that has to grow. -/
def BufferPoolOp.Sound (pool : BufferPool) : BufferPoolOp → Prop
  | giveBack buffer granted => pool.u.size < pool.u.capacity ∧
      (∀ item ∈ pool.u.elems, item.buffer = buffer → Int.bmod item.size (2 ^ 32) ≠ 0) ∧
      (pool.a.size + 1 ≥ pool.a.capacity →
        (reallocItems granted (Int.bmod (pool.a.capacity * 2) (2 ^ 32)) pool.a).isSome)
  | _ => True

/-- The pools of the runs in which every call satisfies `P`, with the buffers that are taken. -/
inductive BufferPool.Reached (P : BufferPool → BufferPoolOp → Prop) : BufferPool → List ℕ → Prop
  | new : Reached P bufferPoolNew []
  | step {pool pool' : BufferPool} {taken : List ℕ} {op : BufferPoolOp} {result : Option ℕ} :
      Reached P pool taken → op.Valid taken → P pool op → op.run pool = some (result, pool') →
        Reached P pool' (op.takenBehind result taken)

theorem BufferPool.Partitioned.step (h : pool.Partitioned taken) {op : BufferPoolOp}
    (hvalid : op.Valid taken) (hsound : op.Sound pool) :
    ∃ result pool', op.run pool = some (result, pool') ∧
      pool'.Partitioned (op.takenBehind result taken) := by
  cases op with
  | take size mem granted =>
    obtain ⟨result, pool', htake, htakes⟩ := h.take granted size mem
    exact ⟨result, pool', htake, htakes.1⟩
  | giveBack buffer granted =>
    obtain ⟨hspare, hsize, hgrow⟩ := hsound
    obtain ⟨pool', hreturn, hpart⟩ := h.giveBack hvalid hspare hsize hgrow
    exact ⟨none, pool', by simp [BufferPoolOp.run, hreturn], hpart⟩
  | clear =>
    obtain ⟨pool', hclear, hpart⟩ := h.clear
    exact ⟨none, pool', by simp [BufferPoolOp.run, hclear], hpart⟩

theorem BufferPool.Reached.partitioned (h : BufferPool.Reached (fun pool op => op.Sound pool) pool taken) :
    pool.Partitioned taken := by
  induction h with
  | new =>
    have hsized : Sized (⟨0, 32, 32, fun _ => ⟨0, 0⟩⟩ : Slots BufferPoolItem) :=
      ⟨by decide, rfl, by decide, by decide⟩
    exact ⟨hsized, hsized, by decide, List.nodup_nil, List.Perm.refl _, rfl⟩
  | step _ hvalid hsound hrun ih =>
    obtain ⟨result', pool'', hrun', hpart⟩ := ih.step hvalid hsound
    rw [hrun] at hrun'
    obtain ⟨rfl, rfl⟩ := Prod.mk.inj (Option.some.inj hrun')
    exact hpart

/-- In every run whose calls satisfy the condition, each buffer that is alive is at one place of one of
the arrays, the size of the pool is the number of the buffers that are taken, and the next call stays
inside the arrays.  A buffer that is taken was not taken before and is large enough. -/
theorem reached_partition (h : BufferPool.Reached (fun pool op => op.Sound pool) pool taken) :
    pool.heap.Nodup ∧ pool.heap.Perm (buffers pool.a ++ buffers pool.u) ∧ taken = buffers pool.u ∧
      bufferPoolGetPoolSize pool = taken.length ∧
      pool.a.room = pool.a.capacity ∧ pool.u.room = pool.u.capacity ∧
      (∀ op : BufferPoolOp, op.Valid taken → op.Sound pool → (op.run pool).isSome) ∧
      ∀ size mem granted, ∃ result pool',
        bufferPoolTake size mem granted pool = some (result, pool') ∧
          ∀ buffer, result = some buffer → buffer ∉ taken ∧
            ∃ recorded, bufferPoolGetBufferSize buffer pool' = some recorded ∧ size ≤ recorded := by
  have hpart := h.partitioned
  refine ⟨hpart.nodup, hpart.heap, hpart.taken.symm, ?_, hpart.sizedA.room_eq, hpart.sizedU.room_eq,
    fun op hvalid hsound => ?_, fun size mem granted => ?_⟩
  · rw [← hpart.taken, length_buffers]
    rfl
  · obtain ⟨result, pool', hrun, -⟩ := hpart.step hvalid hsound
    exact Option.isSome_iff_exists.mpr ⟨_, hrun⟩
  · obtain ⟨result, pool', htake, htakes⟩ := hpart.take granted size mem
    exact ⟨result, pool', htake, htakes.2⟩

/-- Two buffers are taken, and the first one is returned. -/
theorem reached_partition_returned :
    ∃ pool, BufferPool.Reached (fun pool op => op.Sound pool) pool [2] ∧
      pool.heap.Perm (buffers pool.a ++ buffers pool.u) ∧ bufferPoolGetPoolSize pool = 1 := by
  have hreached : ∃ pool, BufferPool.Reached (fun pool op => op.Sound pool) pool [2] := by
    have hfirst := BufferPool.Reached.new.step
      (show (BufferPoolOp.take 5 (some 1) true).Valid [] from trivial)
      (show BufferPoolOp.Sound bufferPoolNew _ from trivial) rfl
    have hsecond := hfirst.step (show (BufferPoolOp.take 7 (some 2) true).Valid _ from trivial)
      trivial rfl
    exact ⟨_, hsecond.step (show (BufferPoolOp.giveBack 1 true).Valid _ from
      List.mem_of_elem_eq_true rfl) ⟨by decide, by decide, by decide⟩ rfl⟩
  obtain ⟨pool, h⟩ := hreached
  obtain ⟨-, hheap, -, hsize, -⟩ := reached_partition h
  exact ⟨pool, h, hheap, hsize⟩

def runBufferPool : List BufferPoolOp → BufferPool → List ℕ → Option (BufferPool × List ℕ)
  | [], pool, taken => some (pool, taken)
  | op :: ops, pool, taken => do
    let (result, pool) ← op.run pool
    runBufferPool ops pool (op.takenBehind result taken)

theorem reached_runBufferPool {P : BufferPool → BufferPoolOp → Prop} {ops : List BufferPoolOp}
    (h : BufferPool.Reached P pool taken) (hvalid : ∀ op ∈ ops, ∀ taken, op.Valid taken)
    (hP : ∀ op ∈ ops, ∀ pool, P pool op) {taken' : List ℕ}
    (hrun : runBufferPool ops pool taken = some (pool', taken')) :
    BufferPool.Reached P pool' taken' := by
  induction ops generalizing pool taken with
  | nil =>
    obtain ⟨rfl, rfl⟩ := Prod.mk.inj (Option.some.inj hrun)
    exact h
  | cons op ops ih =>
    obtain ⟨⟨result, pool₁⟩, hop, hrun⟩ := Option.bind_eq_some_iff.mp hrun
    exact ih (h.step (hvalid op List.mem_cons_self taken) (hP op List.mem_cons_self pool) hop)
      (fun op hop => hvalid op (List.mem_cons_of_mem _ hop))
      (fun op hop => hP op (List.mem_cons_of_mem _ hop)) hrun

/-- Of 32 buffers that are taken the first is returned: the item behind the end of `uArray` is
moved. -/
theorem reached_partition_full :
    ¬ ∀ pool taken, BufferPool.Reached (fun _ _ => True) pool taken →
      ∀ op : BufferPoolOp, op.Valid taken → (op.run pool).isSome := by
  intro h
  have hfull : (runBufferPool ((List.range 32).map fun i => .take 16 (some i) true) bufferPoolNew []).map
      (fun r => (decide (0 ∈ r.2), ((BufferPoolOp.giveBack 0 true).run r.1).isSome)) =
        some (true, false) := by
    decide
  obtain ⟨⟨pool, taken⟩, hrun, hresult⟩ := Option.map_eq_some_iff.mp hfull
  obtain ⟨htaken, hlost⟩ := Prod.mk.inj hresult
  have hreached : BufferPool.Reached (fun _ _ => True) pool taken := by
    refine reached_runBufferPool BufferPool.Reached.new (fun op hop taken => ?_)
      (fun _ _ _ => trivial) hrun
    obtain ⟨i, -, rfl⟩ := List.mem_map.mp hop
    trivial
  have hreturn := h pool taken hreached (.giveBack 0 true) (of_decide_eq_true htaken : 0 ∈ taken)
  exact absurd (hreturn.symm.trans hlost) (by decide)

end FreeRDP.Collections
