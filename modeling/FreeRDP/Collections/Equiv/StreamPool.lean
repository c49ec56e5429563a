import FreeRDP.Collections.StreamPool
import Mathlib.Data.List.Nodup
import Mathlib.Data.List.Count

/-!
# The streams of a `StreamPool`

`Consistent pool held`: each stream is at one place of one of the two arrays, the reference counts are
those of the references in `held`, and the streams in `uArray` are the ones with references.  The calls
keep this as long as an array that has to grow gets its memory, whose failure no caller of
`StreamPool_EnsureCapacity` looks at, and a reference count does not wrap.
-/

namespace FreeRDP.Collections

variable {pool pool' : StreamPool} {s : Slots ℕ} {held : List ℕ} {granted : Bool} {stream : PoolStream}

/-- The memory of an array of pointers. -/
abbrev PointersSized (s : Slots ℕ) : Prop := s.Sized (2 ^ 60)

/-- An array that is full and has to grow gets its memory. -/
def Grows (granted : Bool) (s : Slots ℕ) : Prop :=
  s.size = s.capacity → granted = true ∧ 16 * s.capacity < 2 ^ 63

/-! ### Arrays -/

/-- There is a spare place behind `StreamPool_EnsureCapacity`, if the array may grow. -/
theorem ensureCapacity_eq (hs : PointersSized s) (hgrow : Grows granted s) :
    ∃ done s', ensureCapacity granted 1 s = (done, s') ∧ PointersSized s' ∧ s'.size = s.size ∧
      s'.size < s'.capacity ∧ s'.elems = s.elems := by
  have hle := hs.size_le
  have hroom := hs.room_eq
  have htwo := hs.two_le
  have hlt := hs.capacity_lt
  have hneeded : (s.size + 1) % 2 ^ 64 = s.size + 1 := Nat.mod_eq_of_lt (by omega)
  have hpositive : ¬ s.capacity = 0 := by omega
  unfold ensureCapacity
  dsimp only
  rw [hneeded, if_neg hpositive]
  by_cases hfull : s.size + 1 > s.capacity
  · -- the array is full and becomes twice as large
    obtain ⟨hgranted, hbytes⟩ := hgrow (by omega)
    have hcapacity : s.capacity * 2 % 2 ^ 64 = s.capacity * 2 := Nat.mod_eq_of_lt (by omega)
    have hwidth : 8 * (s.capacity * 2) % 2 ^ 64 = 8 * (s.capacity * 2) := Nat.mod_eq_of_lt (by omega)
    have hmemory : 8 * (s.capacity * 2) < 2 ^ 63 := by omega
    rw [if_pos hfull, hcapacity, if_pos (by omega), if_pos (by omega), hwidth, Slots.realloc,
      if_pos ⟨hgranted, hmemory⟩, Nat.mul_div_cancel_left _ (by decide)]
    exact ⟨true, _, rfl, ⟨by dsimp only; omega, rfl, by dsimp only; omega, by dsimp only; omega⟩, rfl,
      by dsimp only; omega, rfl⟩
  rw [if_neg hfull]
  by_cases hsparse : s.size + 1 < s.capacity / 3
  · -- the array becomes half as large, if there is memory for that
    have hwidth : 8 * (s.capacity / 2) % 2 ^ 64 = 8 * (s.capacity / 2) := Nat.mod_eq_of_lt (by omega)
    rw [if_pos hsparse, if_pos (by omega), if_neg (by omega), hwidth, Slots.realloc]
    by_cases hmemory : granted = true ∧ 8 * (s.capacity / 2) < 2 ^ 63
    · rw [if_pos hmemory, Nat.mul_div_cancel_left _ (by decide)]
      exact ⟨true, _, rfl, ⟨by dsimp only; omega, rfl, by dsimp only; omega, by dsimp only; omega⟩,
        rfl, by dsimp only; omega, rfl⟩
    · rw [if_neg hmemory]
      exact ⟨false, s, rfl, hs, rfl, by omega, rfl⟩
  · rw [if_neg hsparse, if_neg (by omega)]
    exact ⟨true, s, rfl, hs, rfl, by omega, rfl⟩

variable (granted) in
theorem shiftStreams_eq (hs : PointersSized s) {index : ℕ} (hindex : index < s.size) :
    ∃ s', shiftStreams granted index (-1) s = some s' ∧ PointersSized s' ∧
      s'.elems = s.elems.eraseIdx index := by
  have hle := hs.size_le
  have hlt := hs.capacity_lt
  have hn : (((s.size : ℤ) - index + -1) % 2 ^ 64).toNat = s.size - index - 1 := by omega
  obtain ⟨s₁, hmove, hsize₁, hcapacity₁, hsized₁, helems₁⟩ :=
    hs.remove (n := s.size - index - 1) hindex (by omega) (by omega)
  have hcount : ((s₁.size : ℤ) + -1).toNat = s.size - 1 := by omega
  refine ⟨_, ?_, hsized₁, helems₁⟩
  unfold shiftStreams
  rw [if_neg (by decide), if_pos (by decide)]
  dsimp only
  rw [hn]
  by_cases hlast : s.size - index - 1 > 0
  · have hmove' : s.move index (index + (-(-1) : ℤ).toNat) (s.size - index - 1) = some s₁ := hmove
    rw [if_pos hlast, hmove', Option.bind_eq_bind, Option.bind_some, hcount]
    rfl
  · -- the last stream: nothing is moved
    have hzero : s.size - index - 1 = 0 := by omega
    have hsame : s₁ = s := by
      rw [hzero, Slots.move, if_pos (Or.inl rfl)] at hmove
      rw [← Option.some.inj hmove]
      congr 1
      funext i
      rw [if_neg (by omega)]
    subst hsame
    rw [if_neg hlast, Option.bind_eq_bind, Option.bind_some, hcount]
    rfl

/-! ### Calls -/

/-- Each stream is at one place of one of the arrays, and those in `uArray` have the references
`held`. -/
structure StreamPool.Consistent (pool : StreamPool) (held : List ℕ) : Prop where
  sizedA : PointersSized pool.a
  sizedU : PointersSized pool.u
  perm : (pool.a.elems ++ pool.u.elems).Perm (List.range pool.streams.length)
  pooled : ∀ (s : ℕ) (stream : PoolStream), pool.streams[s]? = some stream → stream.pool = true
  count : ∀ (s : ℕ) (stream : PoolStream), pool.streams[s]? = some stream →
    stream.count = held.count s
  count_lt : ∀ s, held.count s < 2 ^ 32
  used : ∀ s, s ∈ pool.u.elems ↔ s ∈ held

/-- The same with a stream `s` that is in none of the arrays yet. -/
structure StreamPool.Pending (pool : StreamPool) (held : List ℕ) (s : ℕ) : Prop where
  sizedA : PointersSized pool.a
  sizedU : PointersSized pool.u
  perm : (s :: (pool.a.elems ++ pool.u.elems)).Perm (List.range pool.streams.length)
  pooled : ∀ (t : ℕ) (stream : PoolStream), t ≠ s → pool.streams[t]? = some stream →
    stream.pool = true
  count : ∀ (t : ℕ) (stream : PoolStream), t ≠ s → pool.streams[t]? = some stream →
    stream.count = held.count t
  count_lt : ∀ t, held.count t < 2 ^ 32
  used : ∀ t, t ∈ pool.u.elems ↔ t ∈ held

/-- What a call of `StreamPool_Take` for `size` bytes promises about its result. -/
def HandsOut (size : ℕ) (pool : StreamPool) (held : List ℕ) (result : Option ℕ) (pool' : StreamPool) :
    Prop :=
  pool'.Consistent (held ++ result.toList) ∧ ∀ s, result = some s →
    s ∉ pool.u.elems ∧ ∃ stream, pool'.streams[s]? = some stream ∧ size ≤ stream.capacity

/-- A stream without a place is put into `uArray`. -/
theorem StreamPool.Pending.handOut {s size : ℕ} (h : pool.Pending held s)
    (hgrow : Grows granted pool.u) (hsize : size ≤ pool.capacity s) :
    ∃ pool', streamPoolHandOut granted s pool = some (some s, pool') ∧
      HandsOut size pool held (some s) pool' := by
  have hnodup := h.perm.nodup_iff.mpr List.nodup_range
  have hnot := (List.nodup_cons.mp hnodup).1
  have hfresh : s ∉ pool.u.elems := fun hmem => hnot (List.mem_append_right _ hmem)
  have hheld : s ∉ held := fun hmem => hfresh ((h.used s).mpr hmem)
  have hlt : s < pool.streams.length := List.mem_range.mp (h.perm.mem_iff.mp List.mem_cons_self)
  obtain ⟨done, u₁, hensure, hsized₁, hsize₁, hspare₁, helems₁⟩ := ensureCapacity_eq h.sizedU hgrow
  obtain ⟨u₂, hpush, hsized₂, -, -, helems₂⟩ := hsized₁.push hspare₁ s
  rw [helems₁] at helems₂
  refine ⟨⟨pool.a, u₂, pool.defaultSize, pool.streams.modify s fun stream =>
      { stream with pool := true, count := 1 }⟩, ?_, ⟨h.sizedA, hsized₂, ?_, ?_, ?_, ?_, ?_⟩, ?_⟩
  · simp [streamPoolHandOut, streamPoolAddUsed, streamPoolEnsureCapacity, hensure, hpush]
  · dsimp only
    rw [helems₂, List.length_modify, ← List.append_assoc]
    exact (List.perm_append_singleton s _).trans h.perm
  · intro t stream ht
    dsimp only at ht
    rw [List.getElem?_modify] at ht
    by_cases hts : s = t
    · obtain ⟨stream', -, rfl⟩ := Option.map_eq_some_iff.mp ht
      simp [hts]
    · exact h.pooled t stream (Ne.symm hts) (by simpa [hts] using ht)
  · intro t stream ht
    dsimp only at ht
    rw [List.getElem?_modify] at ht
    rw [Option.toList_some, List.count_append, List.count_singleton]
    by_cases hts : s = t
    · obtain ⟨stream', -, rfl⟩ := Option.map_eq_some_iff.mp ht
      rw [← hts, List.count_eq_zero_of_not_mem hheld]
      simp
    · rw [h.count t stream (Ne.symm hts) (by simpa [hts] using ht)]
      simp [hts]
  · intro t
    have hcount := h.count_lt t
    rw [Option.toList_some, List.count_append, List.count_singleton]
    by_cases hts : s = t
    · rw [← hts, List.count_eq_zero_of_not_mem hheld]
      simp
    · simpa [hts] using hcount
  · intro t
    dsimp only
    rw [helems₂, List.mem_append, List.mem_append, h.used t]
    rfl
  · rintro _ ⟨⟩
    refine ⟨hfresh, { pool.streams[s] with pool := true, count := 1 }, ?_, ?_⟩
    · simp [List.getElem?_eq_getElem hlt]
    · simpa [StreamPool.capacity, List.getElem?_eq_getElem hlt] using hsize

namespace StreamPool.Consistent

theorem nodup (h : pool.Consistent held) : (pool.a.elems ++ pool.u.elems).Nodup :=
  h.perm.nodup_iff.mpr List.nodup_range

theorem take (h : pool.Consistent held) (size : ℕ) (buffer : Option ℕ)
    (hgrow : Grows granted pool.u) :
    ∃ result pool', streamPoolTake size buffer granted pool = some (result, pool') ∧
      HandsOut size pool held result pool' := by
  have hkept : HandsOut size pool held none pool := ⟨by simpa using h, nofun⟩
  generalize hsize' : (if size = 0 then pool.defaultSize else size) = size'
  have hle : size ≤ size' := by
    rw [← hsize']
    split_ifs <;> omega
  obtain ⟨found, hfind, -, hfound⟩ := Slots.find_eq
    (fun s => size' ≤ pool.capacity s) h.sizedA.size_le_room
  unfold streamPoolTake
  dsimp only
  rw [hsize', hfind, Option.bind_eq_bind, Option.bind_some]
  cases found with
  | none =>
    -- a new stream
    dsimp only
    cases hnew : streamNew buffer size' with
    | none => exact ⟨none, pool, rfl, hkept⟩
    | some stream =>
      have hcapacity : stream.capacity = size' := by
        unfold streamNew at hnew
        split_ifs at hnew
        obtain ⟨buffer, -, rfl⟩ := Option.map_eq_some_iff.mp hnew
        rfl
      have hold {t : ℕ} {stream' : PoolStream} (hne : t ≠ pool.streams.length)
          (ht : (pool.streams ++ [stream])[t]? = some stream') : pool.streams[t]? = some stream' := by
        have hlt : t < pool.streams.length := by
          have := (List.getElem?_eq_some_iff.mp ht).1
          rw [List.length_append, List.length_singleton] at this
          omega
        rwa [List.getElem?_append_left hlt] at ht
      have hpending : StreamPool.Pending { pool with streams := pool.streams ++ [stream] } held
          pool.streams.length := by
        refine ⟨h.sizedA, h.sizedU, ?_, fun t stream' hne ht => h.pooled t stream' (hold hne ht),
          fun t stream' hne ht => h.count t stream' (hold hne ht), h.count_lt, h.used⟩
        dsimp only
        rw [List.length_append, List.length_singleton, List.range_succ]
        exact (List.perm_append_singleton _ _).symm.trans (h.perm.append_right _)
      obtain ⟨pool', hout, hhands⟩ := hpending.handOut hgrow (show size ≤ _ by
        simp [StreamPool.capacity, hcapacity, hle])
      exact ⟨_, pool', hout, hhands⟩
  | some index =>
    obtain ⟨hindex, hlarge⟩ := hfound index rfl
    have hread := Slots.read_eq (lt_of_lt_of_le hindex h.sizedA.size_le_room)
    obtain ⟨a', hshift, hsized, helems⟩ := shiftStreams_eq granted h.sizedA hindex
    have hpending : StreamPool.Pending { pool with a := a' } held (pool.a.slot index) :=
      ⟨hsized, h.sizedU,
        ((Slots.elems_perm hindex helems).append_right _).symm.trans h.perm,
        fun t stream' _ ht => h.pooled t stream' ht, fun t stream' _ ht => h.count t stream' ht,
        h.count_lt, h.used⟩
    obtain ⟨pool', hout, hhands⟩ := hpending.handOut hgrow
      (hle.trans (of_decide_eq_true hlarge))
    exact ⟨_, pool', by simp [hread, streamPoolShiftAvailable, hshift, hout], hhands⟩

theorem lt_length (h : pool.Consistent held) {s : ℕ} (hs : s ∈ held) : s < pool.streams.length :=
  List.mem_range.mp (h.perm.mem_iff.mp (List.mem_append_right _ ((h.used s).mpr hs)))

theorem addRef (h : pool.Consistent held) {s : ℕ} (hs : s ∈ held)
    (hlt : held.count s + 1 < 2 ^ 32) : (streamAddRef s pool).Consistent (held ++ [s]) := by
  refine ⟨h.sizedA, h.sizedU, by simpa [streamAddRef] using h.perm, ?_, ?_, ?_, ?_⟩
  · intro t stream ht
    simp only [streamAddRef, List.getElem?_modify] at ht
    by_cases hts : s = t
    · obtain ⟨stream', hstream', rfl⟩ := Option.map_eq_some_iff.mp ht
      have hpooled := h.pooled t stream' hstream'
      simp [hts, hpooled]
    · exact h.pooled t stream (by simpa [hts] using ht)
  · intro t stream ht
    simp only [streamAddRef, List.getElem?_modify] at ht
    rw [List.count_append, List.count_singleton]
    by_cases hts : s = t
    · obtain ⟨stream', hstream', rfl⟩ := Option.map_eq_some_iff.mp ht
      have hpooled := h.pooled t stream' hstream'
      have hcount := h.count t stream' hstream'
      rw [← hts] at hcount ⊢
      simpa [hpooled, hcount] using hlt
    · rw [h.count t stream (by simpa [hts] using ht)]
      simp [hts]
  · intro t
    have hcount := h.count_lt t
    rw [List.count_append, List.count_singleton]
    by_cases hts : s = t
    · simpa [← hts] using hlt
    · simpa [hts] using hcount
  · intro t
    rw [List.mem_append, List.mem_singleton]
    refine ⟨fun ht => Or.inl ((h.used t).mp ht), ?_⟩
    rintro (ht | rfl)
    · exact (h.used t).mpr ht
    · exact (h.used t).mpr hs

/-- A stream whose last reference is given up goes back to `aArray`. -/
theorem giveBack (h : pool.Consistent held) {s : ℕ} {streams : List PoolStream} (hs : s ∈ held)
    (hlength : streams.length = pool.streams.length) (hgrow : Grows granted pool.a)
    (hlast : s ∉ held.erase s)
    (hpooled : ∀ (t : ℕ) (stream : PoolStream), streams[t]? = some stream → stream.pool = true)
    (hcount : ∀ (t : ℕ) (stream : PoolStream), streams[t]? = some stream →
      stream.count = (held.erase s).count t) :
    ∃ pool', streamPoolReturn granted s { pool with streams := streams } = some pool' ∧
      pool'.Consistent (held.erase s) := by
  obtain ⟨done, a₁, hensure, hsized₁, hsize₁, hspare₁, helems₁⟩ := ensureCapacity_eq h.sizedA hgrow
  obtain ⟨a₂, hpush, hsized₂, -, -, helems₂⟩ := hsized₁.push hspare₁ s
  rw [helems₁] at helems₂
  obtain ⟨found, hfind, hnone, hfound⟩ := Slots.find_eq (fun t => t = s)
    h.sizedU.size_le_room
  have hused := (h.used s).mpr hs
  cases found with
  | none => exact absurd (hnone rfl s hused) (by simp)
  | some index =>
    obtain ⟨hindex, hslot⟩ := hfound index rfl
    have hslot : pool.u.slot index = s := of_decide_eq_true hslot
    obtain ⟨u', hshift, hsizedU, helems⟩ := shiftStreams_eq granted h.sizedU hindex
    have hperm : (pool.u.elems).Perm (s :: u'.elems) := hslot ▸ Slots.elems_perm hindex helems
    have hnodup := (List.nodup_append.mp h.nodup).2.1
    have hgone : s ∉ u'.elems := (List.nodup_cons.mp (hperm.nodup_iff.mp hnodup)).1
    refine ⟨⟨a₂, u', pool.defaultSize, streams⟩, ?_, hsized₂, hsizedU, ?_, hpooled, hcount,
      fun t => lt_of_le_of_lt (List.erase_sublist.count_le t) (h.count_lt t), fun t => ?_⟩
    · simp [streamPoolReturn, streamPoolEnsureCapacity, hensure, hpush, streamPoolRemoveUsed, hfind,
        streamPoolShiftUsed, hshift]
    · dsimp only
      rw [helems₂, hlength, List.append_assoc, List.singleton_append]
      exact (hperm.symm.append_left pool.a.elems).trans h.perm
    · dsimp only
      by_cases hts : t = s
      · rw [hts]
        exact iff_of_false hgone hlast
      · have hmem := hperm.mem_iff (a := t)
        rw [List.mem_erase_of_ne hts, ← h.used t, hmem, List.mem_cons, or_iff_right hts]

variable (granted) in
theorem release (h : pool.Consistent held) {s : ℕ} (hs : s ∈ held)
    (hgrow : held.count s = 1 → Grows granted pool.a) :
    ∃ pool', streamRelease granted s pool = some pool' ∧ pool'.Consistent (held.erase s) := by
  have hlt := h.lt_length hs
  obtain ⟨stream, hstream⟩ : ∃ stream, pool.streams[s]? = some stream :=
    ⟨_, List.getElem?_eq_getElem hlt⟩
  have hpooled := h.pooled s _ hstream
  have hcount := h.count s _ hstream
  have hbound := h.count_lt s
  have hpositive : 0 < held.count s := List.count_pos_iff.mpr hs
  have hminus : (held.count s + 2 ^ 32 - 1) % 2 ^ 32 = held.count s - 1 := by omega
  generalize hnew : pool.streams.set s { stream with count := held.count s - 1 } = streams
  have hlength : streams.length = pool.streams.length := by rw [← hnew, List.length_set]
  -- the streams behind the call have the references that are left
  have hleft : ∀ (t : ℕ) (stream : PoolStream), streams[t]? = some stream →
      stream.pool = true ∧ stream.count = (held.erase s).count t := by
    intro t stream' ht
    rw [← hnew, List.getElem?_set] at ht
    by_cases hts : s = t
    · rw [if_pos hts, if_pos hlt] at ht
      obtain rfl := Option.some.inj ht
      refine ⟨hpooled, ?_⟩
      rw [← hts, List.count_erase_self]
    · rw [if_neg hts] at ht
      refine ⟨h.pooled t stream' ht, ?_⟩
      rw [List.count_erase_of_ne (Ne.symm hts)]
      exact h.count t stream' ht
  have herase : (held.erase s).count s = held.count s - 1 := List.count_erase_self
  unfold streamRelease
  rw [hstream]
  dsimp only
  rw [if_pos hpooled, hcount, hminus, hnew]
  by_cases hlast : held.count s - 1 = 0
  · rw [if_pos hlast]
    exact h.giveBack hs hlength (hgrow (by omega))
      (fun hmem => absurd (List.count_pos_iff.mpr hmem) (by omega))
      (fun t stream ht => (hleft t stream ht).1) (fun t stream ht => (hleft t stream ht).2)
  · rw [if_neg hlast]
    refine ⟨_, rfl, h.sizedA, h.sizedU, by rw [hlength]; exact h.perm,
      fun t stream ht => (hleft t stream ht).1, fun t stream ht => (hleft t stream ht).2,
      fun t => lt_of_le_of_lt (List.erase_sublist.count_le t) (h.count_lt t), fun t => ?_⟩
    dsimp only
    rw [h.used t]
    by_cases hts : t = s
    · rw [hts]
      exact iff_of_true hs (List.count_pos_iff.mp (by omega))
    · exact (List.mem_erase_of_ne hts).symm

/-- What `StreamPool_Find` finds is in use. -/
theorem find (h : pool.Consistent held) (ptr : ℕ) :
    ∃ result, streamPoolFind ptr pool = some result ∧ ∀ s, result = some s → s ∈ pool.u.elems := by
  obtain ⟨found, hfind, -, hfound⟩ := Slots.find_eq (pool.covers ptr) h.sizedU.size_le_room
  cases found with
  | none => exact ⟨none, by simp [streamPoolFind, hfind], nofun⟩
  | some index =>
    obtain ⟨hindex, -⟩ := hfound index rfl
    have hread := Slots.read_eq (lt_of_lt_of_le hindex h.sizedU.size_le_room)
    refine ⟨some (pool.u.slot index), by simp [streamPoolFind, hfind, hread], ?_⟩
    rintro _ ⟨⟩
    exact Slots.mem_elems.mpr ⟨index, hindex, rfl⟩

end StreamPool.Consistent

/-! ### Runs -/

/-- A call of a function of the pool or of one of its streams, with what the allocator gives. -/
inductive StreamPoolOp where
  | take (size : ℕ) (buffer : Option ℕ) (granted : Bool)
  | addRef (s : ℕ)
  | release (s : ℕ) (granted : Bool)
  | find (ptr : ℕ)

/-- A call: the stream that it returns, and the pool behind it. -/
def StreamPoolOp.run (pool : StreamPool) : StreamPoolOp → Option (Option ℕ × StreamPool)
  | take size buffer granted => streamPoolTake size buffer granted pool
  | addRef s => some (none, streamAddRef s pool)
  | release s granted => (streamRelease granted s pool).map fun pool => (none, pool)
  | find ptr => (streamPoolFind ptr pool).map fun s => (s, pool)

/-- The references behind a call. -/
def StreamPoolOp.heldBehind (result : Option ℕ) (held : List ℕ) : StreamPoolOp → List ℕ
  | take _ _ _ => held ++ result.toList
  | addRef s => held ++ [s]
  | release s _ => held.erase s
  | find _ => held

/-- Whoever takes another reference has one, and each reference is released once. -/
def StreamPoolOp.Valid (held : List ℕ) : StreamPoolOp → Prop
  | addRef s => s ∈ held
  | release s _ => s ∈ held
  | _ => True

/-- An array that a stream is put into gets its memory if it has to grow, and a reference count does
not wrap. -/
def StreamPoolOp.Sound (pool : StreamPool) : StreamPoolOp → Prop
  | take _ _ granted => Grows granted pool.u
  | addRef s => ∀ stream, pool.streams[s]? = some stream → stream.count + 1 < 2 ^ 32
  | release s granted => ∀ stream, pool.streams[s]? = some stream → stream.count = 1 →
      Grows granted pool.a
  | find _ => True

/-- The pools of the runs in which every call satisfies `P`, with the references that are held. -/
inductive StreamPool.Reached (P : StreamPool → StreamPoolOp → Prop) (defaultSize : ℕ) :
    StreamPool → List ℕ → Prop
  | new : Reached P defaultSize (streamPoolNew defaultSize) []
  | step {pool pool' : StreamPool} {held : List ℕ} {op : StreamPoolOp} {result : Option ℕ} :
      Reached P defaultSize pool held → op.Valid held → P pool op →
        op.run pool = some (result, pool') →
          Reached P defaultSize pool' (op.heldBehind result held)

theorem StreamPool.Consistent.step (h : pool.Consistent held) {op : StreamPoolOp}
    (hvalid : op.Valid held) (hsound : op.Sound pool) :
    ∃ result pool', op.run pool = some (result, pool') ∧
      pool'.Consistent (op.heldBehind result held) := by
  -- the counts that the condition speaks of are those of the references
  have hcount {s : ℕ} (hs : s ∈ held) :
      ∃ stream, pool.streams[s]? = some stream ∧ stream.count = held.count s :=
    ⟨_, List.getElem?_eq_getElem (h.lt_length hs), h.count s _ (List.getElem?_eq_getElem _)⟩
  cases op with
  | take size buffer granted =>
    obtain ⟨result, pool', htake, hhands⟩ := h.take size buffer hsound
    exact ⟨result, pool', htake, hhands.1⟩
  | addRef s =>
    obtain ⟨stream, hstream, heq⟩ := hcount hvalid
    exact ⟨none, _, rfl, h.addRef hvalid (heq ▸ hsound stream hstream)⟩
  | release s granted =>
    obtain ⟨stream, hstream, heq⟩ := hcount hvalid
    obtain ⟨pool', hrelease, hpool'⟩ := h.release granted hvalid
      fun hone => hsound stream hstream (heq.trans hone)
    exact ⟨none, pool', by simp [StreamPoolOp.run, hrelease], hpool'⟩
  | find ptr =>
    obtain ⟨result, hfind, -⟩ := h.find ptr
    exact ⟨result, pool, by simp [StreamPoolOp.run, hfind], h⟩

/-- Each of the arrays of a new pool has 32 places. -/
theorem streamPoolNew_eq (defaultSize : ℕ) :
    streamPoolNew defaultSize =
      ⟨⟨0, 32, 32, fun _ => 0⟩, ⟨0, 32, 32, fun _ => 0⟩, defaultSize, []⟩ := by
  have hensure : ensureCapacity true 32 ⟨0, 0, 0, fun _ => 0⟩ = (true, ⟨0, 32, 32, fun _ => 0⟩) := by
    simp [ensureCapacity, Slots.realloc]
  simp only [streamPoolNew, streamPoolEnsureCapacity, hensure, if_true, Bool.false_eq_true, if_false]

theorem consistent_streamPoolNew (defaultSize : ℕ) : (streamPoolNew defaultSize).Consistent [] := by
  rw [streamPoolNew_eq]
  have hsized : PointersSized (⟨0, 32, 32, fun _ => 0⟩ : Slots ℕ) :=
    ⟨by decide, rfl, by decide, by decide⟩
  exact ⟨hsized, hsized, List.Perm.refl _, nofun, nofun, fun s => by simp, fun s => Iff.rfl⟩

theorem StreamPool.Reached.consistent {defaultSize : ℕ}
    (h : StreamPool.Reached (fun pool op => op.Sound pool) defaultSize pool held) :
    pool.Consistent held := by
  induction h with
  | new => exact consistent_streamPoolNew defaultSize
  | step _ hvalid hsound hrun ih =>
    obtain ⟨result', pool'', hrun', hpool'⟩ := ih.step hvalid hsound
    rw [hrun] at hrun'
    obtain ⟨rfl, rfl⟩ := Prod.mk.inj (Option.some.inj hrun')
    exact hpool'

/-- In every run whose calls satisfy the condition, each stream is at one place of one of the arrays
and in `uArray` just if it has references, and the next call stays inside the arrays.  A stream that is
taken was not in `uArray` and is large enough; one that is found is there. -/
theorem reached_consistent {defaultSize : ℕ}
    (h : StreamPool.Reached (fun pool op => op.Sound pool) defaultSize pool held) :
    (pool.a.elems ++ pool.u.elems).Perm (List.range pool.streams.length) ∧
      (∀ s stream, pool.streams[s]? = some stream → (s ∈ pool.u.elems ↔ 0 < stream.count)) ∧
      pool.a.size ≤ pool.a.capacity ∧ pool.u.size ≤ pool.u.capacity ∧
      (∀ op : StreamPoolOp, op.Valid held → op.Sound pool → (op.run pool).isSome) ∧
      (∀ size buffer granted, Grows granted pool.u → ∃ result pool',
        streamPoolTake size buffer granted pool = some (result, pool') ∧
          ∀ s, result = some s → s ∉ pool.u.elems ∧
            ∃ stream, pool'.streams[s]? = some stream ∧ size ≤ stream.capacity) ∧
      ∀ ptr, ∃ result, streamPoolFind ptr pool = some result ∧
        ∀ s, result = some s → s ∈ pool.u.elems := by
  have hpool := h.consistent
  refine ⟨hpool.perm, fun s stream hstream => ?_, hpool.sizedA.size_le, hpool.sizedU.size_le,
    fun op hvalid hsound => ?_, fun size buffer granted hgrow => ?_, hpool.find⟩
  · rw [hpool.count s stream hstream, List.count_pos_iff]
    exact hpool.used s
  · obtain ⟨result, pool', hrun, -⟩ := hpool.step hvalid hsound
    exact Option.isSome_iff_exists.mpr ⟨_, hrun⟩
  · obtain ⟨result, pool', htake, hhands⟩ := hpool.take size buffer hgrow
    exact ⟨result, pool', htake, hhands.2⟩

/-- Two streams are taken, and the first one is released. -/
theorem reached_consistent_released :
    ∃ pool, StreamPool.Reached (fun pool op => op.Sound pool) 0 pool [1] ∧
      (pool.a.elems ++ pool.u.elems).Perm (List.range pool.streams.length) := by
  have hreached : ∃ pool, StreamPool.Reached (fun pool op => op.Sound pool) 0 pool [1] := by
    have hfirst := StreamPool.Reached.new.step
      (show (StreamPoolOp.take 5 (some 1) true).Valid [] from trivial)
      (show StreamPoolOp.Sound (streamPoolNew 0) _ from fun hfull => absurd hfull (by decide)) rfl
    have hsecond := hfirst.step (show (StreamPoolOp.take 7 (some 2) true).Valid _ from trivial)
      (fun hfull => absurd hfull (by decide)) rfl
    exact ⟨_, hsecond.step (show (StreamPoolOp.release 0 true).Valid _ from
      List.mem_of_elem_eq_true rfl) (fun _ _ _ hfull => absurd hfull (by decide)) rfl⟩
  obtain ⟨pool, h⟩ := hreached
  exact ⟨pool, h, (reached_consistent h).1⟩

/-- The calls of a list, with the references that are held. -/
def runStreamPool : List StreamPoolOp → StreamPool → List ℕ → Option (StreamPool × List ℕ)
  | [], pool, held => some (pool, held)
  | op :: ops, pool, held => do
    let (result, pool) ← op.run pool
    runStreamPool ops pool (op.heldBehind result held)

theorem reached_runStreamPool {P : StreamPool → StreamPoolOp → Prop} {defaultSize : ℕ}
    {ops : List StreamPoolOp} (h : StreamPool.Reached P defaultSize pool held)
    (hvalid : ∀ op ∈ ops, ∀ held, op.Valid held) (hP : ∀ op ∈ ops, ∀ pool, P pool op)
    {held' : List ℕ} (hrun : runStreamPool ops pool held = some (pool', held')) :
    StreamPool.Reached P defaultSize pool' held' := by
  induction ops generalizing pool held with
  | nil =>
    obtain ⟨rfl, rfl⟩ := Prod.mk.inj (Option.some.inj hrun)
    exact h
  | cons op ops ih =>
    obtain ⟨⟨result, pool₁⟩, hop, hrun⟩ := Option.bind_eq_some_iff.mp hrun
    exact ih (h.step (hvalid op List.mem_cons_self held) (hP op List.mem_cons_self pool) hop)
      (fun op hop => hvalid op (List.mem_cons_of_mem _ hop))
      (fun op hop => hP op (List.mem_cons_of_mem _ hop)) hrun

/-- A stream is taken while `uArray` is full and cannot grow: it is written behind the array. -/
theorem reached_consistent_full :
    ¬ ∀ defaultSize pool held, StreamPool.Reached (fun _ _ => True) defaultSize pool held →
      ∀ op : StreamPoolOp, op.Valid held → (op.run pool).isSome := by
  intro h
  have hfull : (runStreamPool (List.replicate 32 (.take 16 (some 1) true)) (streamPoolNew 0) []).map
      (fun r => ((StreamPoolOp.take 16 (some 1) false).run r.1).isSome) = some false := by
    decide
  obtain ⟨⟨pool, held⟩, hrun, hlost⟩ := Option.map_eq_some_iff.mp hfull
  have hreached : StreamPool.Reached (fun _ _ => True) 0 pool held := by
    refine reached_runStreamPool StreamPool.Reached.new (fun op hop held => ?_)
      (fun _ _ _ => trivial) hrun
    rw [List.eq_of_mem_replicate hop]
    trivial
  have htake := h 0 pool held hreached (.take 16 (some 1) false) trivial
  exact absurd (htake.symm.trans hlost) (by decide)

end FreeRDP.Collections
