import FreeRDP.Nsc.Basic

/-!
# What the NSCodec decoder reads and writes

In a round the decoder takes a segment off the plane: one byte, or a run.  It checks that the output has
room for the segment, but neither that the plane has the bytes of the segment nor that the run is not longer
than what is left of the output (`bounded_iff`).
-/

namespace FreeRDP.Nsc

open Traced Iterate Memory

variable {src : ℕ → UInt8} {planeSize originalSize p left outSize n : ℕ} {d : Decoder}

/-! ### Segments -/

/-- What a round takes off the plane: a run of `len` times `value` in `size` bytes, for which `looked`
bytes are read. -/
structure Segment where
  value : UInt8
  len : ℕ
  size : ℕ
  looked : ℕ

/-- The segment at `p`, when there are `left` bytes to go. -/
def segmentAt (src : ℕ → UInt8) (p left : ℕ) : Segment :=
  if left = 5 then ⟨src p, 1, 1, 1⟩
  else if src p = src (p + 1) then
    if (src (p + 2)).toNat < 0xFF then ⟨src p, (src (p + 2)).toNat + 2, 3, 3⟩
    else ⟨src p, le32At src (p + 3), 7, 7⟩
  else ⟨src p, 1, 1, 2⟩

/-- What is written for the segment at the input. -/
def segmentStep (src : ℕ → UInt8) (d : Decoder) : Traced Access (Decoder ⊕ Option (List UInt8)) :=
  let s := segmentAt src d.input d.left
  fill s.value s.len (d.input + s.size) d

theorem value_decodeStep (hleft : 4 < d.left) :
    (decodeStep src d).value = (segmentStep src d).value := by
  rw [decodeStep, if_pos hleft, segmentStep, segmentAt, value_bind]
  by_cases hlast : d.left = 5
  · simp only [if_pos hlast]
  simp only [if_neg hlast, value_bind, value_ite]
  by_cases hrun : src d.input = src (d.input + 1)
  · simp only [if_pos hrun]
    by_cases hshort : (src (d.input + 2)).toNat < 0xFF
    · simp only [if_pos hshort]
    · simp only [if_neg hshort]
  · simp only [if_neg hrun]

theorem safe_loads_add {P : Access → Prop} (p m n : ℕ) :
    (loads p (m + n)).Safe P ↔ (loads p m).Safe P ∧ (loads (p + m) n).Safe P := by
  simp only [loads, safe_accesses, List.forall_mem_map, List.mem_range]
  constructor
  · intro h
    refine ⟨fun i hi => h i (by omega), fun i hi => ?_⟩
    rw [Nat.add_assoc]
    exact h (m + i) (by omega)
  · rintro ⟨hfirst, hrest⟩ i hi
    by_cases hm : i < m
    · exact hfirst i hm
    · have hlast := hrest (i - m) (by omega)
      rwa [Nat.add_assoc, Nat.add_sub_cancel' (Nat.le_of_not_lt hm)] at hlast

/-- A round reads the bytes of its segment, and the one behind a single byte. -/
theorem safe_decodeStep {P : Access → Prop} (hleft : 4 < d.left) :
    (decodeStep src d).Safe P ↔
      (loads d.input (segmentAt src d.input d.left).looked).Safe P ∧ (segmentStep src d).Safe P := by
  have htwo := safe_loads_add (P := P) d.input 1 1
  have hthree := safe_loads_add (P := P) d.input 2 1
  have hseven := safe_loads_add (P := P) d.input 3 4
  rw [decodeStep, if_pos hleft, segmentStep, segmentAt, safe_bind]
  by_cases hlast : d.left = 5
  · simp only [if_pos hlast]
  simp only [if_neg hlast, safe_bind]
  by_cases hrun : src d.input = src (d.input + 1)
  · simp only [if_pos hrun, safe_bind]
    by_cases hshort : (src (d.input + 2)).toNat < 0xFF
    · simp only [if_pos hshort, hthree, htwo, and_assoc]
    · simp only [if_neg hshort, safe_bind, hseven, hthree, htwo, and_assoc]
  · simp only [if_neg hrun, htwo, and_assoc]

/-! ### Accesses in bounds -/

/-- The plane and the output are not left. -/
def Access.Within (planeSize originalSize : ℕ) : Access → Prop
  | .load o => o < planeSize
  | .store o => o < originalSize

theorem within_loads :
    (loads p n).Safe (Access.Within planeSize originalSize) ↔ 0 < n → p + n ≤ planeSize := by
  rw [loads, safe_accesses, List.forall_mem_map]
  constructor
  · intro h hn
    have hlast : p + (n - 1) < planeSize := h (n - 1) (List.mem_range.mpr (by omega))
    omega
  · intro h i hi
    have hlt := List.mem_range.mp hi
    show p + i < planeSize
    omega

theorem within_stores :
    (stores p n).Safe (Access.Within planeSize originalSize) ↔ 0 < n → p + n ≤ originalSize := by
  rw [stores, safe_accesses, List.forall_mem_map]
  constructor
  · intro h hn
    have hlast : p + (n - 1) < originalSize := h (n - 1) (List.mem_range.mpr (by omega))
    omega
  · intro h i hi
    have hlt := List.mem_range.mp hi
    show p + i < originalSize
    omega

theorem segmentAt_looked (src : ℕ → UInt8) (p left : ℕ) :
    (segmentAt src p left).size ≤ (segmentAt src p left).looked ∧ 0 < (segmentAt src p left).size := by
  unfold segmentAt
  split_ifs <;> simp only <;> decide

/-- From `p` on, the plane has the segments of the `left` bytes and then the last four.  No segment is
longer than what is left of these; where the output has no room for one, nothing else is needed. -/
inductive Fits (src : ℕ → UInt8) (planeSize : ℕ) : ℕ → ℕ → ℕ → Prop
  | last {p left outSize : ℕ} (hend : left ≤ 4) (hlast : left = 4 → 4 ≤ outSize → p + 4 ≤ planeSize) :
    Fits src planeSize p left outSize
  | segment {p left outSize : ℕ} (hleft : 4 < left)
      (hlooked : p + (segmentAt src p left).looked ≤ planeSize)
      (hlen : (segmentAt src p left).len ≤ outSize → (segmentAt src p left).len ≤ left)
      (hrest : (segmentAt src p left).len ≤ outSize →
        Fits src planeSize (p + (segmentAt src p left).size) (left - (segmentAt src p left).len)
          (outSize - (segmentAt src p left).len)) :
    Fits src planeSize p left outSize

/-- The state after a segment. -/
def Decoder.next (src : ℕ → UInt8) (d : Decoder) : Decoder :=
  let s := segmentAt src d.input d.left
  { input := d.input + s.size
    out := d.out ++ List.replicate s.len s.value
    outSize := d.outSize - s.len
    left := (d.left + (2 ^ 32 - s.len)) % 2 ^ 32 }

theorem segmentStep_full (hroom : d.outSize < (segmentAt src d.input d.left).len) :
    segmentStep src d = pure (.inr none) := if_pos hroom

theorem segmentStep_next (hroom : ¬ d.outSize < (segmentAt src d.input d.left).len) :
    segmentStep src d =
      stores d.out.length (segmentAt src d.input d.left).len >>= fun _ => pure (.inl (d.next src)) :=
  if_neg hroom

theorem decodeStep_last (src : ℕ → UInt8) (hend : ¬ d.left > 4) :
    decodeStep src d =
      if d.outSize < 4 ∨ d.left < 4 then pure (.inr none)
      else
        loads d.input 4 >>= fun _ => stores d.out.length 4 >>= fun _ =>
          pure (.inr (some (d.out ++ bytesAt src d.input 4))) :=
  if_neg hend

/-- What has been written and what is left make up the original size. -/
def Decoder.Counts (originalSize : ℕ) (d : Decoder) : Prop :=
  d.out.length + d.left = originalSize

theorem Decoder.Counts.next (h : d.Counts originalSize) (hsize : originalSize < 2 ^ 32)
    (hlen : (segmentAt src d.input d.left).len ≤ d.left) :
    (d.next src).left = d.left - (segmentAt src d.input d.left).len ∧
      (d.next src).Counts originalSize := by
  have hcount : d.out.length + d.left = originalSize := h
  have hleft : (d.next src).left = d.left - (segmentAt src d.input d.left).len := by
    show (d.left + (2 ^ 32 - (segmentAt src d.input d.left).len)) % 2 ^ 32 = _
    omega
  refine ⟨hleft, ?_⟩
  rw [Decoder.Counts, hleft]
  show (d.out ++ List.replicate (segmentAt src d.input d.left).len _).length + _ = _
  rw [List.length_append, List.length_replicate]
  omega

/-- The end of a safe run has been reached through segments that are there. -/
theorem fits_of_safe (hsize : originalSize < 2 ^ 32) (hd : d.Counts originalSize)
    (hend : (loop (decodeStep src) n d).value ≠ none)
    (hsafe : (loop (decodeStep src) n d).Safe (Access.Within planeSize originalSize)) :
    Fits src planeSize d.input d.left d.outSize := by
  induction n generalizing d with
  | zero => exact absurd rfl hend
  | succ n ih =>
    obtain ⟨hround, hrest⟩ := safe_loop_succ.mp hsafe
    by_cases hleft : d.left > 4
    · obtain ⟨hloads, hstep⟩ := (safe_decodeStep hleft).mp hround
      obtain ⟨hsegment, hpos⟩ := segmentAt_looked src d.input d.left
      have hlooked := within_loads.mp hloads (by omega)
      by_cases hroom : d.outSize < (segmentAt src d.input d.left).len
      · exact .segment hleft hlooked (fun h => absurd h (Nat.not_le.mpr hroom))
          fun h => absurd h (Nat.not_le.mpr hroom)
      · have hvalue : (decodeStep src d).value = .inl (d.next src) := by
          rw [value_decodeStep hleft, segmentStep_next hroom]
          rfl
        rw [segmentStep_next hroom, safe_bind, within_stores] at hstep
        have hcount : d.out.length + d.left = originalSize := hd
        have hlen : (segmentAt src d.input d.left).len ≤ d.left := by
          by_contra hlong
          have := hstep.1 (by omega)
          omega
        obtain ⟨hnext, hcounts⟩ := hd.next hsize hlen
        rw [value_loop, iterate_inl hvalue, ← value_loop] at hend
        have hfits := ih hcounts hend (hrest _ hvalue)
        rw [hnext] at hfits
        exact .segment hleft hlooked (fun _ => hlen) fun _ => hfits
    · refine .last (Nat.le_of_not_lt hleft) fun hfour hroom => ?_
      rw [decodeStep_last src hleft, if_neg (by omega), safe_bind, within_loads] at hround
      exact hround.1 (by decide)

/-- Segments that are there are decoded safely. -/
theorem safe_of_fits (hsize : originalSize < 2 ^ 32) (hd : d.Counts originalSize)
    (hfits : Fits src planeSize d.input d.left d.outSize) :
    ∃ n, (loop (decodeStep src) n d).value ≠ none ∧
      (loop (decodeStep src) n d).Safe (Access.Within planeSize originalSize) := by
  have hexit {d : Decoder} {r : Option (List UInt8)} (h : (decodeStep src d).value = .inr r) :
      (loop (decodeStep src) 1 d).value ≠ none := by
    rw [value_loop, iterate_inr h]
    exact Option.some_ne_none _
  generalize hp : d.input = p at hfits
  generalize hl : d.left = left at hfits
  generalize ho : d.outSize = outSize at hfits
  induction hfits generalizing d with
  | last hend hlast =>
    subst hp hl ho
    have hcount : d.out.length + d.left = originalSize := hd
    have hstep := decodeStep_last src (Nat.not_lt.mpr hend)
    by_cases hfail : d.outSize < 4 ∨ d.left < 4
    · rw [if_pos hfail] at hstep
      refine ⟨1, hexit (r := none) (by rw [hstep]; rfl), safe_loop_succ.mpr ?_⟩
      rw [hstep]
      exact ⟨(safe_pure _).mpr trivial, nofun⟩
    · rw [if_neg hfail] at hstep
      refine ⟨1, hexit (by rw [hstep]; rfl), safe_loop_succ.mpr ?_⟩
      rw [hstep, safe_bind, safe_bind, within_loads, within_stores]
      refine ⟨⟨fun _ => hlast (by omega) (by omega), fun _ => by omega, ?_⟩, nofun⟩
      exact (safe_pure _).mpr trivial
  | segment hleft hlooked hlen hrest ih =>
    subst hp hl ho
    have hcount : d.out.length + d.left = originalSize := hd
    by_cases hroom : d.outSize < (segmentAt src d.input d.left).len
    · have hvalue : (decodeStep src d).value = .inr none := by
        rw [value_decodeStep hleft, segmentStep_full hroom]
        rfl
      refine ⟨1, hexit hvalue, safe_loop_succ.mpr ⟨?_, fun s' hs' => ?_⟩⟩
      · rw [safe_decodeStep hleft, segmentStep_full hroom, within_loads]
        exact ⟨fun _ => hlooked, (safe_pure _).mpr trivial⟩
      · rw [hvalue] at hs'
        cases hs'
    · have hvalue : (decodeStep src d).value = .inl (d.next src) := by
        rw [value_decodeStep hleft, segmentStep_next hroom]
        rfl
      have hfit := Nat.le_of_not_lt hroom
      obtain ⟨hnext, hcounts⟩ := hd.next hsize (hlen hfit)
      obtain ⟨n, hend, hsafe⟩ := ih hfit hcounts rfl hnext rfl
      refine ⟨n + 1, ?_, safe_loop_succ.mpr ⟨?_, fun s' hs' => ?_⟩⟩
      · rwa [value_loop, iterate_inl hvalue, ← value_loop]
      · rw [safe_decodeStep hleft, segmentStep_next hroom, within_loads, safe_bind, within_stores]
        have hle := hlen hfit
        exact ⟨fun _ => hlooked, fun _ => by omega, (safe_pure _).mpr trivial⟩
      · rw [hvalue] at hs'
        cases hs'
        exact hsafe

/-! ### Planes that are decoded in bounds -/

/-- The decoder returns, and leaves neither the plane nor the output. -/
def Bounded (src : ℕ → UInt8) (planeSize outSize originalSize : ℕ) : Prop :=
  ∃ n, (nscRleDecode src outSize originalSize n).value ≠ none ∧
    (nscRleDecode src outSize originalSize n).Safe (Access.Within planeSize originalSize)

theorem counts_init (outSize originalSize : ℕ) :
    Decoder.Counts originalSize ⟨0, [], outSize, originalSize⟩ := Nat.zero_add _

/-- The decoder stays in bounds if and only if the segments are there. -/
theorem bounded_iff (src : ℕ → UInt8) (outSize planeSize originalSize : ℕ)
    (hsize : originalSize < 2 ^ 32) :
    Bounded src planeSize outSize originalSize ↔ Fits src planeSize 0 originalSize outSize := by
  constructor
  · rintro ⟨n, hend, hsafe⟩
    exact fits_of_safe hsize (counts_init outSize originalSize) hend hsafe
  · intro hfits
    exact safe_of_fits hsize (counts_init outSize originalSize) hfits

/-- A run of twelve bytes, and the last four. -/
theorem bounded_iff_run : Bounded (fun i => [65, 65, 10, 1, 2, 3, 4].getD i 0) 7 16 16 :=
  (bounded_iff _ 16 7 16 (by decide)).mpr
    (.segment (by decide) (by decide) (fun _ => by decide) fun _ => .last (by decide) fun _ _ => by decide)

/-- The plane ends in front of the count of its run. -/
theorem not_bounded_run : ¬ Bounded (fun _ => 65) 2 100 100 := by
  rintro ⟨n, hend, hsafe⟩
  cases fits_of_safe (by decide) (counts_init 100 100) hend hsafe with
  | last hlast => exact absurd hlast (by decide)
  | segment _ hlooked => exact absurd hlooked (by decide)

end FreeRDP.Nsc
