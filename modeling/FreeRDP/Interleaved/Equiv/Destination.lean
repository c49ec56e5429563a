import FreeRDP.Interleaved.Accesses

/-!
# The interleaved decoder stays in its destination

An order moves on in the source and in the destination, and never past the end of the latter
(`Call.leads_order`).  A line above is read from the second line on only, so that it begins in the
destination; it also ends there if a line is no shorter than a pixel (`Call.rleDecompressTraced_inDest`).
Without that the foreground pixel of a background run is read past the end, because it is read before the
capacity is checked (`Call.rleDecompressTraced_not_inDest`).
-/

namespace FreeRDP.Interleaved

open Traced

variable {γ : Type} {c : Call} {s s' t : Cursor} {code k m n : ℕ} {x : OrderResult} {P : Access → Prop}
  {pixel : ℕ → Cursor → Traced Access ℕ}

/-! ### Pixels -/

namespace Call

/-- The pixel needs no other access than the pixel above it, and that from the second line on only. -/
def LooksAbove (c : Call) (pixel : ℕ → Cursor → Traced Access ℕ) : Prop :=
  ∀ (P : Access → Prop) (i : ℕ) (s : Cursor),
    (s.fFirstLine = false → (c.destReadAbove s).Safe P) → (pixel i s).Safe P

theorem looksAbove_background (c : Call) : c.LooksAbove c.background := by
  intro P i s h
  unfold background
  split_ifs with hfirst
  · exact (safe_pure _).mpr trivial
  · exact h (Bool.eq_false_iff.mpr hfirst)

theorem looksAbove_foreground (c : Call) : c.LooksAbove c.foreground := by
  intro P i s h
  unfold foreground
  split_ifs with hfirst
  · exact (safe_pure _).mpr trivial
  · exact (safe_bind _ _).mpr ⟨h (Bool.eq_false_iff.mpr hfirst), (safe_pure _).mpr trivial⟩

theorem looksAbove_fgbgPixel (c : Call) (bitmask : ℕ) : c.LooksAbove (c.fgbgPixel bitmask) := by
  intro P i s h
  unfold fgbgPixel
  by_cases hfirst : s.fFirstLine = true
  · rw [if_pos hfirst]
    exact (safe_pure _).mpr trivial
  · rw [if_neg hfirst]
    exact (safe_bind _ _).mpr ⟨h (Bool.eq_false_iff.mpr hfirst), (safe_pure _).mpr trivial⟩

theorem looksAbove_plain (c : Call) (p : ℕ → ℕ) : c.LooksAbove (plain p) :=
  fun _ _ _ _ => (safe_pure _).mpr trivial

/-- The header of an order has at least one byte. -/
theorem one_le_extractRunLengthTraced (c : Call) (code offset : ℕ) :
    1 ≤ (c.extractRunLengthTraced code offset).value.2 := by
  unfold extractRunLengthTraced
  dsimp only
  split_ifs
  all_goals simp only [value_bind, value_pure]
  all_goals decide

theorem safe_destPutPixel {p : ℕ} :
    (c.destPutPixel p s).Safe P ↔ ∀ i < c.bytes, P (.destStore (s.pbDest + i)) := by
  rw [destPutPixel, safe_bind, safe_accesses, List.forall_mem_map]
  simp only [safe_pure, and_true, List.mem_range]

theorem value_destPutPixel (c : Call) (p : ℕ) (s : Cursor) :
    ∃ dest, (c.destPutPixel p s).value = { s with pbDest := s.pbDest + c.bytes, dest := dest } :=
  ⟨_, rfl⟩

theorem value_paint (c : Call) (pixel : ℕ → Cursor → Traced Access ℕ) (n i : ℕ) (s : Cursor) :
    ∃ dest, (c.paint pixel n i s).value = { s with pbDest := s.pbDest + n * c.bytes, dest := dest } := by
  induction n generalizing i s with
  | zero => exact ⟨s.dest, by rw [Nat.zero_mul]; rfl⟩
  | succ n ih =>
    rw [paint, value_bind, value_bind]
    obtain ⟨dest, hput⟩ := c.value_destPutPixel (pixel i s).value s
    rw [hput]
    obtain ⟨dest', hpaint⟩ := ih (i + 1) { s with pbDest := s.pbDest + c.bytes, dest := dest }
    refine ⟨dest', ?_⟩
    rw [hpaint, Nat.succ_mul, Nat.add_comm (n * c.bytes), ← Nat.add_assoc]

/-- Painting is safe if each pixel is, and each place that a pixel is put. -/
theorem safe_paint {i : ℕ}
    (hpixel : ∀ j < n, ∀ i dest,
      (pixel i { s with pbDest := s.pbDest + j * c.bytes, dest := dest }).Safe P)
    (hput : ∀ o : ℕ, s.pbDest ≤ o → o < s.pbDest + n * c.bytes → P (.destStore o)) :
    (c.paint pixel n i s).Safe P := by
  induction n generalizing i s with
  | zero => exact (safe_pure _).mpr trivial
  | succ n ih =>
    rw [Nat.succ_mul] at hput
    rw [paint, safe_bind, safe_bind, safe_destPutPixel]
    obtain ⟨dest, hvalue⟩ := c.value_destPutPixel (pixel i s).value s
    rw [hvalue]
    refine ⟨?_, fun j hj => ?_, ih (fun j hj i dest' => ?_) fun o hle hlt => hput o ?_ ?_⟩
    · have hfirst := hpixel 0 (Nat.succ_pos n) i s.dest
      rwa [Nat.zero_mul, Nat.add_zero] at hfirst
    · have hplace := hput (s.pbDest + j) (Nat.le_add_right _ _) (by omega)
      rwa [Int.natCast_add] at hplace
    · have hnext := hpixel (j + 1) (by omega) i dest'
      rwa [Nat.succ_mul, Nat.add_comm (j * c.bytes), ← Nat.add_assoc] at hnext
    · exact Nat.le_trans (Nat.le_add_right _ _) hle
    · dsimp only at hlt
      omega

end Call

/-! ### What an order leads to -/

/-- The variables are in the destination, and below its first line if they left it. -/
structure Cursor.Within (c : Call) (s : Cursor) : Prop where
  inside : s.pbDest ≤ c.destEnd
  above : s.fFirstLine = false → c.rowDelta ≤ s.pbDest

/-- The variables have moved on by at least `k` bytes of the source, on the same line or not. -/
structure Cursor.Follows (c : Call) (k : ℕ) (s s' : Cursor) : Prop where
  pbSrc : s.pbSrc + k ≤ s'.pbSrc
  pbDest : s.pbDest ≤ s'.pbDest
  inside : s'.pbDest ≤ c.destEnd
  fFirstLine : s'.fFirstLine = s.fFirstLine

theorem Cursor.Follows.trans (h : s.Follows c k s') (h' : s'.Follows c m t) : s.Follows c (k + m) t :=
  ⟨by have := h.pbSrc; have := h'.pbSrc; omega, Nat.le_trans h.pbDest h'.pbDest, h'.inside,
    h'.fFirstLine.trans h.fFirstLine⟩

theorem Cursor.Follows.weaken (h : s.Follows c k s') (hm : m ≤ k) : s.Follows c m s' :=
  ⟨by have := h.pbSrc; omega, h.pbDest, h.inside, h.fFirstLine⟩

theorem Cursor.Follows.within (h : s.Follows c k s') (hs : s.Within c) : s'.Within c :=
  ⟨h.inside, fun hfirst => Nat.le_trans (hs.above (h.fFirstLine ▸ hfirst)) h.pbDest⟩

theorem Cursor.Within.refl (h : s.Within c) : s.Follows c 0 s :=
  ⟨Nat.le_refl _, Nat.le_refl _, h.inside, rfl⟩

theorem Cursor.Within.source (h : s.Within c) (k : ℕ) :
    s.Follows c k { s with pbSrc := s.pbSrc + k } := ⟨Nat.le_refl _, Nat.le_refl _, h.inside, rfl⟩

theorem Cursor.Within.fgPel (h : s.Within c) (p : ℕ) : s.Follows c 0 { s with fgPel := p } :=
  ⟨Nat.le_refl _, Nat.le_refl _, h.inside, rfl⟩

/-- The accesses that a call may make, as far as the destination goes. -/
structure Call.Allows (c : Call) (P : Access → Prop) : Prop where
  source : ∀ o, P (.source o)
  store : ∀ o : ℕ, o < c.destEnd → P (.destStore o)
  above : ∀ s : Cursor, s.Within c → s.fFirstLine = false → (c.destReadAbove s).Safe P

/-- The accesses are safe, and what they lead to moves on by at least `k` bytes of the source. -/
structure OrderResult.Meets (P : Access → Prop) (c : Call) (k : ℕ) (s : Cursor) (x : OrderResult) :
    Prop where
  safe : x.Safe P
  leads : ∀ s', x.value = some s' → s.Follows c k s'

namespace Call

theorem meets_none : OrderResult.Meets P c k s (pure none) :=
  ⟨(safe_pure _).mpr trivial, fun _ h => nomatch h⟩

theorem Within.meets_some (hs : s.Within c) : OrderResult.Meets P c 0 s (pure (some s)) := by
  refine ⟨(safe_pure _).mpr trivial, fun s' hs' => ?_⟩
  obtain rfl := Option.some.inj hs'
  exact hs.refl

theorem meets_of_follows (hs : s.Follows c k s') (h : OrderResult.Meets P c m s' x) :
    OrderResult.Meets P c (k + m) s x := ⟨h.safe, fun t ht => hs.trans (h.leads t ht)⟩

theorem meets_bind {y : Traced Access γ} {f : γ → OrderResult} (hy : y.Safe P)
    (h : OrderResult.Meets P c k s (f y.value)) : OrderResult.Meets P c k s (y >>= f) :=
  ⟨(safe_bind _ _).mpr ⟨hy, h.safe⟩, h.leads⟩

theorem meets_ite {p : Prop} [Decidable p] {y : OrderResult} (hx : OrderResult.Meets P c k s x)
    (hy : OrderResult.Meets P c k s y) : OrderResult.Meets P c k s (if p then x else y) := by
  by_cases hp : p
  · rwa [if_pos hp]
  · rwa [if_neg hp]

theorem follows_destPutPixel (p : ℕ) (hroom : s.pbDest + c.bytes ≤ c.destEnd) :
    s.Follows c 0 (c.destPutPixel p s).value := by
  obtain ⟨dest, hput⟩ := c.value_destPutPixel p s
  rw [hput]
  exact ⟨Nat.le_refl _, Nat.le_add_right _ _, hroom, rfl⟩

theorem within_watchLine (hs : s.Within c) : (c.watchLine s).Within c ∧
    (c.watchLine s).pbSrc = s.pbSrc := by
  unfold watchLine
  by_cases hend : s.fFirstLine = true ∧ c.rowDelta ≤ s.pbDest % 2 ^ 32
  · rw [if_pos hend]
    exact ⟨⟨hs.inside, fun _ => Nat.le_trans hend.2 (Nat.mod_le _ _)⟩, rfl⟩
  · rw [if_neg hend]
    exact ⟨hs, rfl⟩

theorem within_start (c : Call) (dest : ℤ → UInt8) : (c.start dest).Within c :=
  ⟨Nat.zero_le _, fun h => nomatch h⟩

namespace Allows

variable (h : c.Allows P)

include h

theorem safe_destPutPixel (p : ℕ) (hroom : s.pbDest + c.bytes ≤ c.destEnd) :
    (c.destPutPixel p s).Safe P := by
  refine Call.safe_destPutPixel.mpr fun i hi => ?_
  have hplace := h.store (s.pbDest + i) (by omega)
  rwa [Int.natCast_add] at hplace

theorem paintTraced (hpixel : c.LooksAbove pixel) (hs : s.Within c) (n : ℕ) :
    OrderResult.Meets P c 0 s (c.paintTraced pixel n s) := by
  unfold Call.paintTraced
  by_cases hcapacity : c.EnsureCapacity s n
  · rw [if_pos hcapacity]
    have hroom : s.pbDest + n * c.bytes ≤ c.destEnd := by
      obtain ⟨hsize, hinside⟩ := hcapacity
      omega
    refine meets_bind ?_ ⟨(safe_pure _).mpr trivial, fun s' hs' => ?_⟩
    · refine safe_paint (fun j _ i dest => hpixel P i _ fun hfirst => h.above _ ⟨?_, ?_⟩ hfirst)
        fun o _ ho => h.store o (by omega)
      · show s.pbDest + j * c.bytes ≤ c.destEnd
        have hle : j * c.bytes ≤ n * c.bytes := Nat.mul_le_mul_right _ (by omega)
        omega
      · exact fun _ => Nat.le_trans (hs.above hfirst) (Nat.le_add_right _ _)
    · obtain ⟨dest, hvalue⟩ := c.value_paint pixel n 0 s
      obtain rfl := Option.some.inj (hs'.symm.trans (congrArg some hvalue))
      refine ⟨Nat.le_refl _, Nat.le_add_right _ _, ?_, rfl⟩
      exact hroom
  · rw [if_neg hcapacity]
    exact meets_none

theorem safe_extractRunLengthTraced (code offset : ℕ) :
    (c.extractRunLengthTraced code offset).Safe P := by
  have hsource := h.source
  unfold extractRunLengthTraced
  simp only [safe_ite, safe_bind, safe_access, safe_pure, hsource, implies_true, and_self]

theorem readRun {next : ℕ → Cursor → OrderResult} (hs : s.Within c)
    (hnext : ∀ n t, t.Within c → OrderResult.Meets P c 0 t (next n t)) :
    OrderResult.Meets P c 1 s (c.readRun code s next) := by
  have hone := c.one_le_extractRunLengthTraced code s.pbSrc
  have hheader := hs.source (c.extractRunLengthTraced code s.pbSrc).value.2
  have hrest := meets_of_follows hheader
    (hnext (c.extractRunLengthTraced code s.pbSrc).value.1 _ (hheader.within hs))
  exact meets_bind (h.safe_extractRunLengthTraced code s.pbSrc)
    ⟨hrest.safe, fun t ht => (hrest.leads t ht).weaken hone⟩

theorem readPixel {next : ℕ → Cursor → OrderResult} (hs : s.Within c)
    (hnext : ∀ p t, t.Within c → t.pbDest = s.pbDest → OrderResult.Meets P c 0 t (next p t)) :
    OrderResult.Meets P c 0 s (c.readPixel s next) := by
  unfold Call.readPixel
  split_ifs
  · exact meets_none
  · have hpel := hs.source c.bytes
    have hrest := meets_of_follows hpel (hnext (c.srcReadPixel s).value _ (hpel.within hs) rfl)
    refine meets_bind ?_ ⟨hrest.safe, fun t ht => (hrest.leads t ht).weaken (Nat.zero_le _)⟩
    rw [srcReadPixel, safe_bind, safe_accesses, List.forall_mem_map]
    exact ⟨fun _ _ => h.source _, (safe_pure _).mpr trivial⟩

theorem putPixel (hpixel : c.LooksAbove pixel) (hs : s.Within c) (p n : ℕ)
    (hroom : s.pbDest + c.bytes ≤ c.destEnd) :
    OrderResult.Meets P c 0 s (c.destPutPixel p s >>= fun s => c.paintTraced pixel n s) := by
  have hfollows := follows_destPutPixel p hroom
  exact meets_bind (h.safe_destPutPixel p hroom)
    (meets_of_follows hfollows (h.paintTraced hpixel (hfollows.within hs) n))

/-- The pixel above is looked at before the capacity is checked. -/
theorem bgRun (hs : s.Within c) (n : ℕ) : OrderResult.Meets P c 0 s (c.bgRun n s) := by
  unfold Call.bgRun
  by_cases hinsert : s.fInsertFgPel = true
  · rw [if_pos hinsert]
    refine meets_bind (c.looksAbove_foreground P 0 s (h.above s hs)) ?_
    by_cases hcapacity : c.EnsureCapacity s 1
    · rw [if_pos hcapacity]
      obtain ⟨hroom, hinside⟩ := hcapacity
      exact h.putPixel c.looksAbove_background hs _ _ (by omega)
    · rw [if_neg hcapacity]
      exact meets_none
  · rw [if_neg hinsert]
    have hpaint := h.paintTraced c.looksAbove_background hs n
    refine ⟨(safe_bind _ _).mpr ⟨hpaint.safe, (safe_pure _).mpr trivial⟩, fun s' hs' => ?_⟩
    rw [value_bind, value_pure, Option.map_eq_some_iff] at hs'
    obtain ⟨t, ht, rfl⟩ := hs'
    have hfollows := hpaint.leads t ht
    exact ⟨hfollows.pbSrc, hfollows.pbDest, hfollows.inside, hfollows.fFirstLine⟩

theorem fgbgImage (hs : s.Within c) (k n : ℕ) : OrderResult.Meets P c 0 s (c.fgbgImage k n s) := by
  induction k generalizing n s with
  | zero => exact Within.meets_some hs
  | succ k ih =>
    rw [Call.fgbgImage]
    have hmask := hs.source 1
    have hpaint := h.paintTraced (c.looksAbove_fgbgPixel (c.src s.pbSrc).toNat) (hmask.within hs)
      (min n 8)
    refine meets_bind ((safe_access _).mpr (h.source _)) (meets_bind hpaint.safe ?_)
    cases hvalue : (c.paintTraced (c.fgbgPixel (c.src s.pbSrc).toNat) (min n 8)
        { s with pbSrc := s.pbSrc + 1 }).value with
    | none => exact meets_none
    | some t =>
      have ht := hmask.trans (hpaint.leads t hvalue)
      have hrest := meets_of_follows ht (ih (ht.within hs) (n - min n 8))
      exact ⟨hrest.safe, fun u hu => (hrest.leads u hu).weaken (Nat.zero_le _)⟩

theorem colorImage (hs : s.Within c) (hroom : s.pbDest + n * c.bytes ≤ c.destEnd) :
    OrderResult.Meets P c 0 s (c.colorImage n s) := by
  induction n generalizing s with
  | zero => exact Within.meets_some hs
  | succ n ih =>
    rw [Nat.succ_mul] at hroom
    rw [Call.colorImage]
    refine h.readPixel hs fun p t ht hpos => ?_
    have hroom' : t.pbDest + c.bytes ≤ c.destEnd := by omega
    have hfollows := follows_destPutPixel p hroom'
    refine meets_bind (h.safe_destPutPixel p hroom')
      (meets_of_follows hfollows (ih (hfollows.within ht) ?_))
    obtain ⟨dest, hput⟩ := c.value_destPutPixel p t
    rw [hput]
    show t.pbDest + c.bytes + n * c.bytes ≤ c.destEnd
    omega

theorem special (hpixel : c.LooksAbove pixel) (hs : s.Within c) (n : ℕ) :
    OrderResult.Meets P c 1 s (c.special pixel n s) :=
  meets_of_follows (hs.source 1) (h.paintTraced hpixel ((hs.source 1).within hs) n)

theorem otherOrder (hs : s.Within c) (code : ℕ) : OrderResult.Meets P c 1 s (c.otherOrder code s) := by
  refine meets_ite ?_ <| meets_ite ?_ <| meets_ite ?_ <| meets_ite ?_ <| meets_ite ?_ <|
    meets_ite ?_ <| meets_ite ?_ <| meets_ite ?_ <| meets_ite ?_ <| meets_ite ?_ <|
    meets_ite ?_ meets_none
  · exact h.readRun hs fun n t ht => h.paintTraced c.looksAbove_foreground ht n
  · exact h.readRun hs fun n t ht => h.readPixel ht fun p u hu _ =>
      meets_of_follows (hu.fgPel p) (h.paintTraced c.looksAbove_foreground ((hu.fgPel p).within hu) n)
  · exact h.readRun hs fun n t ht => h.readPixel ht fun pixelA u hu _ => h.readPixel hu
      fun pixelB v hv _ => h.paintTraced (c.looksAbove_plain _) hv (n * 2)
  · exact h.readRun hs fun n t ht => h.readPixel ht fun pixelA u hu _ =>
      h.paintTraced (c.looksAbove_plain _) hu n
  · exact h.readRun hs fun n t ht => meets_ite meets_none (h.fgbgImage ht _ n)
  · exact h.readRun hs fun n t ht => h.readPixel ht fun p u hu _ =>
      meets_of_follows (hu.fgPel p) (h.fgbgImage ((hu.fgPel p).within hu) _ n)
  · refine h.readRun hs fun n t ht => ?_
    by_cases hcapacity : c.EnsureCapacity t n
    · rw [if_pos hcapacity]
      obtain ⟨hsize, hinside⟩ := hcapacity
      exact h.colorImage ht (by omega)
    · rw [if_neg hcapacity]
      exact meets_none
  · exact h.special (c.looksAbove_fgbgPixel _) hs 8
  · exact h.special (c.looksAbove_fgbgPixel _) hs 8
  · exact h.special (c.looksAbove_plain _) hs 1
  · exact h.special (c.looksAbove_plain _) hs 1

theorem order (hs : s.Within c) (code : ℕ) : OrderResult.Meets P c 1 s (c.order code s) := by
  have hinsert : s.Follows c 0 { s with fInsertFgPel := false } :=
    ⟨Nat.le_refl _, Nat.le_refl _, hs.inside, rfl⟩
  refine meets_ite ?_ ?_
  · exact h.readRun hs fun n t ht => h.bgRun ht n
  · have hother := meets_of_follows hinsert (h.otherOrder (hinsert.within hs) code)
    exact ⟨hother.safe, fun t ht => (hother.leads t ht).weaken (by omega)⟩

/-- A round makes allowed accesses only, and moves on in the source. -/
theorem step (hs : s.Within c) :
    (c.step s).Safe P ∧ ∀ s', (c.step s).value = .inl s' →
      s'.Within c ∧ s.pbSrc < s'.pbSrc ∧ s.pbSrc < c.cbSrcBuffer := by
  unfold Call.step
  by_cases hleft : s.pbSrc < c.cbSrcBuffer
  · rw [if_pos hleft]
    obtain ⟨hwatch, hsame⟩ := within_watchLine hs
    obtain ⟨hsafe, hleads⟩ := h.order hwatch (extractCodeId (c.src s.pbSrc).toNat)
    rw [safe_bind, safe_bind, value_bind, value_bind]
    cases hvalue : (c.order (extractCodeId (c.src s.pbSrc).toNat) (c.watchLine s)).value with
    | none =>
      exact ⟨⟨(safe_access _).mpr (h.source _), hsafe, (safe_pure _).mpr trivial⟩, fun s' hs' =>
        nomatch hs'⟩
    | some t =>
      refine ⟨⟨(safe_access _).mpr (h.source _), hsafe, (safe_pure _).mpr trivial⟩, fun s' hs' => ?_⟩
      obtain rfl := Sum.inl.inj hs'
      have hfollows := hleads t hvalue
      have hsrc := hfollows.pbSrc
      exact ⟨hfollows.within hwatch, by omega, hleft⟩
  · rw [if_neg hleft]
    exact ⟨(safe_pure _).mpr trivial, fun s' hs' => nomatch hs'⟩

/-- The loop ends, and makes allowed accesses only. -/
theorem loop {rounds : ℕ} (hrounds : c.cbSrcBuffer < rounds) (dest : ℤ → UInt8) :
    (Traced.loop c.step rounds (c.start dest)).value ≠ none ∧
      (Traced.loop c.step rounds (c.start dest)).Safe P := by
  have hnext (t t' : Cursor) (ht : t.Within c) (_ : True) (ht' : Next c.step t t') :
      t'.Within c ∧ c.cbSrcBuffer - t'.pbSrc < c.cbSrcBuffer - t.pbSrc := by
    obtain ⟨hwithin, hlt, hleft⟩ := (h.step ht).2 t' ht'
    exact ⟨hwithin, by omega⟩
  refine (loop_iff hnext (fun t ht => iff_true_intro (h.step ht).1) (c.within_start dest) ?_).mpr
    fun _ _ => trivial
  exact Nat.lt_of_le_of_lt (Nat.sub_le _ _) hrounds

end Allows

end Call

/-! ### The accesses of the decoder -/

def Access.InDest (size : ℕ) : Access → Prop
  | .source _ => True
  | .destLoad o => 0 ≤ o ∧ o < size
  | .destStore o => 0 ≤ o ∧ o < size

namespace Call

/-- If a line is no shorter than a pixel, the pixel above is in the destination. -/
theorem allows_inDest (hpel : c.bytes ≤ c.rowDelta) : c.Allows (Access.InDest c.destEnd) where
  source _ := trivial
  store o ho := by
    show (0 : ℤ) ≤ o ∧ (o : ℤ) < c.destEnd
    omega
  above s hs hfirst := by
    rw [destReadAbove, safe_bind, safe_accesses, List.forall_mem_map]
    refine ⟨fun i hi => ?_, (safe_pure _).mpr trivial⟩
    have hlt := List.mem_range.mp hi
    have habove := hs.above hfirst
    have hinside := hs.inside
    show (0 : ℤ) ≤ s.pbDest - c.rowDelta + i ∧ (s.pbDest - c.rowDelta + i : ℤ) < c.destEnd
    omega

theorem allows_any (c : Call) : c.Allows fun _ => True :=
  ⟨fun _ => trivial, fun _ _ => trivial, fun _ _ _ _ _ => trivial⟩

/-- The decoder ends and stays in its destination, whose size is that of `pbDestEnd` in the arithmetic of
`UINT32`. -/
theorem rleDecompressTraced_inDest (hpel : c.rowDelta = 0 ∨ c.bytes ≤ c.rowDelta) {rounds : ℕ}
    (hrounds : c.cbSrcBuffer < rounds) (dest : ℤ → UInt8) :
    (∃ r, (c.rleDecompressTraced rounds dest).value = some r) ∧
      (c.rleDecompressTraced rounds dest).Safe
        (Access.InDest (c.rowDelta * c.height % 2 ^ 32)) := by
  unfold rleDecompressTraced
  by_cases hfalse : c.rowDelta = 0 ∨ c.rowDelta < c.width
  · rw [if_pos hfalse]
    exact ⟨⟨none, rfl⟩, (safe_pure _).mpr trivial⟩
  rw [if_neg hfalse]
  have hallows := allows_inDest (hpel.resolve_left fun hzero => hfalse (.inl hzero))
  obtain ⟨hends, hsafe⟩ := hallows.loop hrounds dest
  exact ⟨Option.ne_none_iff_exists'.mp hends, hsafe⟩

/-- Two lines of two pixels of two bytes: a colour run, and a background run that reads the line above. -/
def twoLines : Call := ⟨2, fun i => [0x62, 0x34, 0x12, 0x02].getD i 0, 4, 4, 2, 2⟩

theorem rleDecompressTraced_inDest_lines :
    (∃ r, (twoLines.rleDecompressTraced 5 fun _ => 0).value = some r) ∧
      (twoLines.rleDecompressTraced 5 fun _ => 0).Safe (Access.InDest (4 * 2 % 2 ^ 32)) :=
  rleDecompressTraced_inDest (.inr (by decide)) (by decide) _

/-- Two lines of no pixels of two bytes, one byte each: behind the only pixel, an empty background run that
follows another one reads the third byte of the destination. -/
theorem rleDecompressTraced_not_inDest :
    ∃ c : Call, (c.bytes = 1 ∨ c.bytes = 2 ∨ c.bytes = 3) ∧ c.width * c.bytes ≤ c.rowDelta ∧
      ∃ (rounds : ℕ) (dest : ℤ → UInt8), ¬ (c.rleDecompressTraced rounds dest).Safe
        (Access.InDest (c.rowDelta * c.height)) := by
  refine ⟨⟨2, fun i => [0xFD, 0xF0, 0, 0, 0xF0, 0, 0].getD i 0, 7, 1, 0, 2⟩, .inr (.inl rfl),
    by decide, 8, fun _ => 0, fun hsafe => ?_⟩
  have haccess := hsafe (.destLoad 2) (by decide +kernel)
  exact absurd haccess.2 (by decide)

end Call

end FreeRDP.Interleaved
