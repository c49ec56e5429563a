import FreeRDP.Planar.Basic
import Mathlib.Algebra.Order.Ring.Int

/-!
# The grammar of an encoded plane

A scanline of the source stands for `nWidth` codes, one for each pixel.  A segment has a control byte, raw
codes, and a run of the last code (`Segment`); `Coded` says that a source stands for the codes of a whole
plane.  A decoder turns such a source into the values of the codes (`values`), whatever its target is
(`Target.decode_coded`).
-/

namespace FreeRDP.Planar

open Traced Iterate Relation

variable {src : ℕ → UInt8} {SrcSize nWidth nHeight row n : ℕ} {c : ℕ → UInt8} {C : ℕ → ℕ → UInt8}
  {t : Target} {s : Walk} {a b : ℕ × ℕ}

/-! ### Segments and scanlines -/

/-- The code before `x`; the first run of a scanline is of zeros. -/
def lastCode (c : ℕ → UInt8) (x : ℕ) : UInt8 := if x = 0 then 0 else c (x - 1)

/-- A segment takes the pixel and the place in the source from `a` to `b`. -/
structure Segment (src : ℕ → UInt8) (nWidth : ℕ) (c : ℕ → UInt8) (a b : ℕ × ℕ) : Prop where
  lt : a.1 < nWidth
  x_eq : b.1 = a.1 + (control (src a.2).toNat).2 + (control (src a.2).toNat).1
  le : b.1 ≤ nWidth
  srcp_eq : b.2 = a.2 + 1 + (control (src a.2).toNat).2
  raw : ∀ i < (control (src a.2).toNat).2, c (a.1 + i) = src (a.2 + 1 + i)
  run : ∀ i < (control (src a.2).toNat).1,
    c (a.1 + (control (src a.2).toNat).2 + i) = lastCode c (a.1 + (control (src a.2).toNat).2)

/-- The source stands for the codes of the scanlines, and has `n` bytes. -/
def Coded (src : ℕ → UInt8) (nWidth nHeight : ℕ) (C : ℕ → ℕ → UInt8) (n : ℕ) : Prop :=
  ∃ P : ℕ → ℕ, P 0 = 0 ∧ P nHeight = n ∧
    ∀ row < nHeight, ReflTransGen (Segment src nWidth (C row)) (0, P row) (nWidth, P (row + 1))

/-- The values that the codes stand for. -/
def values (C : ℕ → ℕ → UInt8) : ℕ → ℕ → UInt8
  | 0, x => UInt8.ofNat (pixelOf true (C 0 x))
  | row + 1, x => UInt8.ofNat ((values C row x).toNat + pixelOf false (C (row + 1) x))

theorem Segment.srcp_le (h : Segment src nWidth c a b) : a.2 < b.2 := by
  have := h.srcp_eq
  omega

theorem srcp_le_of_segments (h : ReflTransGen (Segment src nWidth c) a b) : a.2 ≤ b.2 := by
  induction h with
  | refl => exact Nat.le_refl _
  | tail _ hlast ih => exact ih.trans hlast.srcp_le.le

theorem Coded.srcp_le {P : ℕ → ℕ}
    (h : ∀ row < nHeight, ReflTransGen (Segment src nWidth (C row)) (0, P row) (nWidth, P (row + 1)))
    (hrow : row ≤ nHeight) : P row ≤ P nHeight := by
  induction hrow using Nat.decreasingInduction with
  | self => exact Nat.le_refl _
  | of_succ k hk ih => exact (srcp_le_of_segments (h k hk)).trans ih

theorem pixelOf_zero (first : Bool) : pixelOf first 0 = 0 := by cases first <;> rfl

/-! ### Targets -/

/-- Pixels of the plane do not share a byte, and a scanline has room for all of its pixels. -/
structure Target.Fits (t : Target) (nWidth nHeight : ℕ) : Prop where
  inj {row x row' x' : ℕ} : row < nHeight → x < nWidth → row' < nHeight → x' < nWidth →
    t.pixelAt row x = t.pixelAt row' x' → row = row' ∧ x = x'
  stride_pos : 0 < t.stride
  limit : t.limit = t.stride * nWidth

/-- The bytes that are read are before `n`, and those that are written are of pixels of the plane. -/
def Access.Within (pixelAt : ℕ → ℕ → ℤ) (nWidth nHeight n : ℕ) : Access → Prop
  | .load o => o < n
  | .store o => ∃ row < nHeight, ∃ x < nWidth, o = pixelAt row x

/-- The pixels before `x` in the row, and those of the rows before it, have their values. -/
def Target.Written (t : Target) (nWidth : ℕ) (C : ℕ → ℕ → UInt8) (row x : ℕ) (dst : ℤ → UInt8) : Prop :=
  ∀ row' x', x' < nWidth → row' < row ∨ row' = row ∧ x' < x →
    dst (t.pixelAt row' x') = values C row' x'

/-- The state of a decoder whose next pixel is `x`. -/
structure Target.At (t : Target) (nWidth : ℕ) (C : ℕ → ℕ → UInt8) (row x srcp : ℕ) (s : Walk) : Prop where
  x_eq : s.x = x
  srcp_eq : s.srcp = srcp
  pixel : s.pixel = pixelOf (row = 0) (lastCode (C row) x)
  written : t.Written nWidth C row x s.dst

/-! ### Pixels -/

variable {x srcp : ℕ}

/-- The value of a pixel whose code is the last one. -/
theorem Target.value_put (hfit : t.Fits nWidth nHeight) (hrow : row < nHeight) (hx : x < nWidth)
    (hs : t.Written nWidth C row x s.dst) (hxs : s.x = x)
    (hpixel : s.pixel = pixelOf (row = 0) (C row x)) :
    t.At nWidth C row (x + 1) s.srcp (t.put row s).value := by
  have hvalue : t.valueOf row s = values C row x := by
    unfold valueOf
    cases row with
    | zero => rw [if_pos rfl, hpixel]; rfl
    | succ row =>
      have habove := hs row x hx (Or.inl (Nat.lt_succ_self row))
      rw [if_neg (Nat.succ_ne_zero row), hpixel, hxs, Nat.add_sub_cancel, habove]
      rfl
  constructor
  · show s.x + 1 = x + 1
    rw [hxs]
  · rfl
  · show s.pixel = _
    rw [hpixel, lastCode, if_neg (Nat.succ_ne_zero x), Nat.add_sub_cancel]
  · intro row' x' hx' hbefore
    show Function.update s.dst (t.pixelAt row s.x) (t.valueOf row s) (t.pixelAt row' x') = _
    by_cases hsame : row' = row ∧ x' = x
    · rw [hsame.1, hsame.2, hxs, Function.update_self, hvalue]
    · rw [Function.update_of_ne]
      · exact hs row' x' hx' (by omega)
      · rw [hxs]
        intro heq
        exact hsame (hfit.inj (by omega) hx' hrow hx heq)

theorem Target.safe_put (hrow : row < nHeight) (hx : s.x < nWidth) :
    (t.put row s).Safe (Access.Within t.pixelAt nWidth nHeight n) := by
  rw [put, safe_bind, safe_access]
  exact ⟨⟨row, hrow, s.x, hx, rfl⟩, (safe_pure _).mpr trivial⟩

theorem Target.putRaw_at {k : ℕ} (hfit : t.Fits nWidth nHeight) (hrow : row < nHeight)
    (hx : x + k ≤ nWidth) (hn : srcp + k ≤ n) (hs : t.At nWidth C row x srcp s)
    (hraw : ∀ i < k, C row (x + i) = src (srcp + i)) :
    t.At nWidth C row (x + k) (srcp + k) (t.putRaw src row k s).value ∧
      (t.putRaw src row k s).Safe (Access.Within t.pixelAt nWidth nHeight n) := by
  induction k generalizing x srcp s with
  | zero => exact ⟨hs, (safe_pure _).mpr trivial⟩
  | succ k ih =>
    have hcode : C row x = src s.srcp := by
      rw [hs.srcp_eq]
      exact hraw 0 (Nat.succ_pos k)
    have hput := t.value_put (s := { s with pixel := pixelOf (row = 0) (src s.srcp), srcp := s.srcp + 1 })
      hfit hrow (show x < nWidth by omega) hs.written hs.x_eq (by rw [hcode])
    have hsafe := t.safe_put (n := n)
      (s := { s with pixel := pixelOf (row = 0) (src s.srcp), srcp := s.srcp + 1 }) hrow
      (show s.x < nWidth by rw [hs.x_eq]; omega)
    have hnext : t.At nWidth C row (x + 1) (srcp + 1) (t.put row
        { s with pixel := pixelOf (row = 0) (src s.srcp), srcp := s.srcp + 1 }).value :=
      { hput with srcp_eq := hput.srcp_eq.trans (congrArg (· + 1) hs.srcp_eq) }
    have hrest := ih (by omega) (by omega) hnext fun i hi => by
      rw [Nat.add_right_comm, Nat.add_right_comm srcp]
      exact hraw (i + 1) (by omega)
    rw [Nat.add_right_comm, Nat.add_right_comm srcp] at hrest
    refine ⟨hrest.1, ?_⟩
    rw [putRaw, safe_bind, safe_access, safe_bind]
    refine ⟨?_, hsafe, hrest.2⟩
    show s.srcp < n
    rw [hs.srcp_eq]
    omega

theorem Target.putRun_at {k : ℕ} (hfit : t.Fits nWidth nHeight) (hrow : row < nHeight)
    (hx : x + k ≤ nWidth) (hs : t.At nWidth C row x srcp s)
    (hrun : ∀ i < k, C row (x + i) = lastCode (C row) x) :
    t.At nWidth C row (x + k) srcp (t.putRun row k s).value ∧
      (t.putRun row k s).Safe (Access.Within t.pixelAt nWidth nHeight n) := by
  induction k generalizing x s with
  | zero => exact ⟨hs, (safe_pure _).mpr trivial⟩
  | succ k ih =>
    have hcode : C row x = lastCode (C row) x := hrun 0 (Nat.succ_pos k)
    have hput := t.value_put hfit hrow (show x < nWidth by omega) hs.written hs.x_eq
      (by rw [hs.pixel, hcode])
    have hsafe := t.safe_put (n := n) hrow (show s.x < nWidth by rw [hs.x_eq]; omega)
    have hlast : lastCode (C row) (x + 1) = lastCode (C row) x := by
      rw [lastCode, if_neg (Nat.succ_ne_zero x), Nat.add_sub_cancel, hcode]
    have hrest := ih (by omega) (hs.srcp_eq ▸ hput) fun i hi => by
      rw [hlast, Nat.add_right_comm]
      exact hrun (i + 1) (by omega)
    rw [Nat.add_right_comm] at hrest
    refine ⟨hrest.1, ?_⟩
    rw [putRun, safe_bind]
    exact ⟨hsafe, hrest.2⟩

/-! ### Scanlines -/

/-- A round of the loop over a scanline decodes a segment. -/
theorem Target.decodeStep_segment (hfit : t.Fits nWidth nHeight) (hrow : row < nHeight)
    (hseg : Segment src nWidth (C row) a b) (hb : b.2 ≤ SrcSize) (hs : t.At nWidth C row a.1 a.2 s) :
    (t.decodeStep src SrcSize nWidth row s).Safe (Access.Within t.pixelAt nWidth nHeight SrcSize) ∧
      ∃ s', (t.decodeStep src SrcSize nWidth row s).value = .inl s' ∧
        t.At nWidth C row b.1 b.2 s' := by
  obtain ⟨hlt, hx, hle, hsrcp, hraw, hrun⟩ := hseg
  generalize hcontrol : control (src a.2).toNat = r at hx hsrcp hraw hrun
  obtain ⟨nRunLength, cRawBytes⟩ := r
  dsimp only at hx hsrcp hraw hrun
  have hstart : t.At nWidth C row a.1 (a.2 + 1) { s with srcp := s.srcp + 1 } :=
    ⟨hs.x_eq, congrArg (· + 1) hs.srcp_eq, hs.pixel, hs.written⟩
  obtain ⟨hraw', hrawSafe⟩ := t.putRaw_at (n := SrcSize) hfit hrow (by omega) (by omega) hstart hraw
  obtain ⟨hrun', hrunSafe⟩ := t.putRun_at (n := SrcSize) hfit hrow (by omega) hraw' hrun
  have hlimit : ¬ t.stride * s.x + (cRawBytes + nRunLength) > t.limit := by
    have hmul : t.stride * b.1 ≤ t.stride * nWidth := Nat.mul_le_mul_left _ hle
    have hpos : cRawBytes + nRunLength ≤ t.stride * (cRawBytes + nRunLength) :=
      Nat.le_mul_of_pos_left _ hfit.stride_pos
    rw [hfit.limit, hs.x_eq, Nat.not_lt]
    calc t.stride * a.1 + (cRawBytes + nRunLength)
        ≤ t.stride * a.1 + t.stride * (cRawBytes + nRunLength) := Nat.add_le_add_left hpos _
      _ = t.stride * b.1 := by rw [← Nat.mul_add, hx, Nat.add_assoc]
      _ ≤ t.stride * nWidth := hmul
  have hstep : t.decodeStep src SrcSize nWidth row s =
      access (.load s.srcp) >>= fun _ =>
        t.putRaw src row cRawBytes { s with srcp := s.srcp + 1 } >>= fun s =>
          t.putRun row nRunLength s >>= fun s => pure (.inl s) := by
    unfold decodeStep
    rw [if_pos (by rw [hs.x_eq]; exact hlt), hs.srcp_eq, hcontrol]
    dsimp only
    rw [if_neg (by omega), if_neg hlimit]
  rw [hstep]
  constructor
  · rw [safe_bind, safe_access, safe_bind, safe_bind]
    refine ⟨?_, hrawSafe, hrunSafe, (safe_pure _).mpr trivial⟩
    show s.srcp < SrcSize
    rw [hs.srcp_eq]
    omega
  · refine ⟨_, rfl, ?_⟩
    rw [hx, hsrcp]
    exact hrun'

theorem Target.loop_segments (hfit : t.Fits nWidth nHeight) (hrow : row < nHeight) (hb : b.2 ≤ SrcSize)
    (hend : b.1 = nWidth) (hsegs : ReflTransGen (Segment src nWidth (C row)) a b)
    (hs : t.At nWidth C row a.1 a.2 s) (hn : b.2 - a.2 < n) :
    (loop (t.decodeStep src SrcSize nWidth row) n s).Safe (Access.Within t.pixelAt nWidth nHeight SrcSize) ∧
      ∃ s', (loop (t.decodeStep src SrcSize nWidth row) n s).value = some (some s') ∧
        t.At nWidth C row b.1 b.2 s' := by
  induction hsegs using ReflTransGen.head_induction_on generalizing s n with
  | refl =>
    have hstep : t.decodeStep src SrcSize nWidth row s = pure (.inr (some s)) :=
      if_neg (by rw [hs.x_eq, hend]; exact Nat.lt_irrefl _)
    obtain ⟨k, rfl⟩ : ∃ k, n = k + 1 := ⟨n - 1, by omega⟩
    constructor
    · rw [safe_loop_succ, hstep]
      exact ⟨(safe_pure _).mpr trivial, nofun⟩
    · refine ⟨s, ?_, hs⟩
      rw [value_loop]
      exact iterate_inr (by rw [hstep]; rfl) k
  | head hseg hrest ih =>
    have hlt := hseg.srcp_le
    have hle := srcp_le_of_segments hrest
    obtain ⟨hsafe, s', hvalue, hs'⟩ := t.decodeStep_segment hfit hrow hseg (hle.trans hb) hs
    obtain ⟨k, rfl⟩ : ∃ k, n = k + 1 := ⟨n - 1, by omega⟩
    obtain ⟨hloop, hresult⟩ := ih hs' (n := k) (by omega)
    constructor
    · refine safe_loop_succ.mpr ⟨hsafe, fun u hu => ?_⟩
      rw [hvalue] at hu
      cases hu
      exact hloop
    · rwa [value_loop, iterate_inl hvalue, ← value_loop]

/-! ### Planes -/

/-- A scanline that has been decoded is before the next one. -/
theorem Target.Written.succ {dst : ℤ → UInt8} (h : t.Written nWidth C row nWidth dst) :
    t.Written nWidth C (row + 1) 0 dst :=
  fun row' x' hx' _ => h row' x' hx' (by omega)

theorem Target.decodeRows_coded {P : ℕ → ℕ} {rows : ℕ} (row : ℕ) (hfit : t.Fits nWidth nHeight)
    (hP : ∀ row < nHeight, ReflTransGen (Segment src nWidth (C row)) (0, P row) (nWidth, P (row + 1)))
    (hrows : row + rows = nHeight) (hn : P nHeight ≤ SrcSize) (hsrcp : s.srcp = P row)
    (hs : t.Written nWidth C row 0 s.dst) :
    (t.decodeRows src SrcSize nWidth rows row s).Safe (Access.Within t.pixelAt nWidth nHeight SrcSize) ∧
      ∃ s', (t.decodeRows src SrcSize nWidth rows row s).value = some (some s') ∧
        s'.srcp = P nHeight ∧ t.Written nWidth C nHeight 0 s'.dst := by
  induction rows generalizing row s with
  | zero =>
    obtain rfl : row = nHeight := hrows
    exact ⟨(safe_pure _).mpr trivial, s, rfl, hsrcp, hs⟩
  | succ rows ih =>
    have hrow : row < nHeight := by omega
    have hend := Coded.srcp_le hP (show row + 1 ≤ nHeight from hrow)
    have hstart : t.At nWidth C row 0 (P row) { s with x := 0, pixel := 0 } :=
      ⟨rfl, hsrcp, (pixelOf_zero _).symm, hs⟩
    obtain ⟨hsafe, s', hvalue, hs'⟩ := t.loop_segments (n := SrcSize + 1) hfit hrow (hend.trans hn) rfl
      (hP row hrow) hstart (by show P (row + 1) - P row < SrcSize + 1; omega)
    obtain ⟨hrest, hresult⟩ := ih (row + 1) (by omega) hs'.srcp_eq hs'.written.succ
    rw [decodeRows, safe_bind, value_bind, hvalue]
    exact ⟨⟨hsafe, hrest⟩, hresult⟩

/-- A source that stands for the codes of a plane is decoded to their values. -/
theorem Target.decode_coded (hfit : t.Fits nWidth nHeight) (hcoded : Coded src nWidth nHeight C n)
    (hn : n < 2 ^ 31) (dst : ℤ → UInt8) :
    (t.decode src n nWidth nHeight dst).Safe (Access.Within t.pixelAt nWidth nHeight n) ∧
      ∃ dst', (t.decode src n nWidth nHeight dst).value = some (some ((n : ℤ), dst')) ∧
        ∀ row < nHeight, ∀ x < nWidth, dst' (t.pixelAt row x) = values C row x := by
  obtain ⟨P, hzero, hend, hP⟩ := hcoded
  obtain ⟨hsafe, s, hvalue, hsrcp, hs⟩ := t.decodeRows_coded (s := ⟨0, 0, 0, dst⟩) 0 hfit hP
    (Nat.zero_add _) hend.le hzero.symm fun _ _ _ h => by omega
  rw [decode, safe_bind, value_bind, hvalue]
  refine ⟨⟨hsafe, (safe_pure _).mpr trivial⟩, s.dst, ?_, fun row hrow x hx => ?_⟩
  · have hreturn : Int.bmod s.srcp (2 ^ 32) = n := by
      rw [hsrcp, hend]
      exact Int.bmod_eq_of_le (by omega) (by omega)
    show some (some (Int.bmod s.srcp (2 ^ 32), s.dst)) = _
    rw [hreturn]
  · exact hs row x hx (Or.inl hrow)

end FreeRDP.Planar
