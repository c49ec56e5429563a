import FreeRDP.Interleaved.Equiv.Flushes

/-!
# The round trip of the interleaved codec

The decoder follows the encoder as long as all flushes are clean; the first other one leaves a wrong
pixel behind, which no later order repairs.  So the image comes back exactly when all flushes are
clean (`rleDecompress_bitmapCompress`).
-/

namespace FreeRDP.Interleaved

open ForwardCopy Iterate Decoder Encoder

variable {f : Format} {start : TempStream → ℕ} {w h k : ℕ} {img : ℕ → ℕ} {e e' : Encoder}
  {fl : Bool} {d : Decoder}

/-! ### Runs of the encoder -/

theorem Broken.append {b : ℕ} {d₀ : Decoder} {s : List UInt8} (hs : Broken b w h img d₀ s)
    (t : List UInt8) : Broken b w h img d₀ (s ++ t) := by
  obtain ⟨s₁, s₂, d, rfl, hexec, hbound, hwrong⟩ := hs
  exact ⟨s₁, s₂ ++ t, d, List.append_assoc _ _ _, hexec, hbound, hwrong⟩

theorem exists_append_of_flush {n : ℕ} {run : List UInt8} (hflush : e.flush f n run = some e') :
    ∃ t, e'.s = e.s ++ t := by
  rw [Encoder.flush, Option.ite_none_left_eq_some, Option.some_inj] at hflush
  rw [← hflush.2]
  exact ⟨_, rfl⟩

/-- The state of both sides after `k` pixels: the decoder follows as long as the flushes have been
clean, and is broken otherwise. -/
structure Outcome (f : Format) (w h : ℕ) (img : ℕ → ℕ) (d₀ : Decoder) (firstLine : Bool) (k : ℕ)
    (clean : Prop) (e : Encoder) : Prop where
  tracks : Tracks f w img firstLine k e
  placed : e.Placed f
  inSync : clean → InSync f.bytes w h img d₀ e.s (k - e.count)
  broken : ¬ clean → Broken f.bytes w h img d₀ e.s

def AllClean (f : Format) (start : TempStream → ℕ) (l : List (Encoder × Run)) : Prop :=
  ∀ x ∈ l, CleanFlush f start x.1 x.2

theorem allClean_append (l l' : List (Encoder × Run)) :
    AllClean f start (l ++ l') ↔ AllClean f start l ∧ AllClean f start l' :=
  List.forall_mem_append

section Act

variable {d₀ : Decoder} {clean : Prop} (hf : f.Lawful start) (hw : 0 < w) (hk : k ≤ w * h)
  (hwh : w * h < 2 ^ 16) (himg : ∀ j, img j < 2 ^ (8 * f.bytes))

include hf hw hk hwh himg

/-- A run breaks, where no added pixel can harm the next background run. -/
theorem Outcome.breakRun (he : Outcome f w h img d₀ fl k clean e) {pixel : ℕ} {r : Run}
    (hnext : r = .fill → 0 < e.fillCount →
      k - e.fillCount < w ∧ w ≤ k ∨ img k ≠ aboveOf w img k)
    (hact : e.breakRun f pixel r = some e') :
    Outcome f w h img d₀ fl k (clean ∧ (e.Wins r → CleanFlush f start e r)) e' := by
  refine ⟨he.tracks.breakRun hact, he.placed.breakRun hact, ?_, ?_⟩
  all_goals
    rw [Encoder.breakRun, Option.map_eq_some_iff] at hact
    obtain ⟨e₁, h₁, rfl⟩ := hact
    have hs : (e₁.clear pixel r).s = e₁.s := by cases r <;> rfl
    have hcount : (e₁.clear pixel r).count = e₁.count := by cases r <;> rfl
    rw [hs]
  · rintro ⟨hclean, hflush⟩
    rw [hcount]
    split_ifs at h₁ with hwins
    · have hsync := inSync_flushRun hf he.tracks hk hwh himg hw (he.inSync hclean) hwins.1 h₁
      rw [if_pos (hflush hwins)] at hsync
      obtain ⟨d, hexec, hd, hpos, hinsert⟩ := hsync
      have hcount₁ : e₁.count = 0 := by
        rw [flushRun, Encoder.flush, Option.ite_none_left_eq_some, Option.some_inj] at h₁
        rw [← h₁.2]
        rfl
      refine ⟨d, hexec, hd, by rw [hcount₁, hpos]; rfl, fun hflag => ?_⟩
      obtain ⟨rfl, hfirst⟩ := hinsert hflag
      rw [hpos]
      rcases hnext rfl (Nat.zero_lt_of_lt hwins.1) with ⟨hlt, hle⟩ | hne
      · exact .inl ⟨hfirst hlt, hle⟩
      · exact .inr hne
    · rw [Option.some_inj] at h₁
      exact h₁ ▸ he.inSync hclean
  · intro hdirty
    by_cases hclean : clean
    · split_ifs at h₁ with hwins
      · have hsync := inSync_flushRun hf he.tracks hk hwh himg hw (he.inSync hclean) hwins.1 h₁
        rwa [if_neg (fun hflush => hdirty ⟨hclean, fun _ => hflush⟩)] at hsync
      · exact absurd ⟨hclean, fun hwins' => absurd hwins' hwins⟩ hdirty
    · have hbroken := he.broken hclean
      split_ifs at h₁ with hwins
      · obtain ⟨t, ht⟩ := exists_append_of_flush h₁
        rw [ht]
        exact hbroken.append t
      · rw [Option.some_inj] at h₁
        exact h₁ ▸ hbroken

omit hw hk hwh himg hf in
theorem Outcome.congr {clean' : Prop} (he : Outcome f w h img d₀ fl k clean e)
    (hclean : clean' ↔ clean) : Outcome f w h img d₀ fl k clean' e := by
  rwa [hclean]

theorem Outcome.test (he : Outcome f w h img d₀ fl k clean e) {r : Run}
    (hy : fl = true → aboveOf w img k = 0)
    (hact : e.act f (.test fl (img k) (aboveOf w img k) r) = some e') :
    Outcome f w h img d₀ fl k (clean ∧ AllClean f start
      ((e.flushed f (.test fl (img k) (aboveOf w img k) r)).map fun r => (e, r)).toList) e' := by
  rw [act] at hact
  rw [flushed]
  split_ifs at hact with hc
  · rw [Option.some_inj] at hact
    rw [if_neg (fun h => h.1 hc)]
    exact hact ▸ he.congr (by simp [AllClean])
  · have hout := he.breakRun hf hw hk hwh himg (r := r) (by
      rintro rfl -
      exact .inr fun heq => hc ((testFill_iff hy).2 heq)) hact
    apply hout.congr
    by_cases hwins : e.Wins r <;> simp [AllClean, hc, hwins]

theorem Outcome.tests (rs : List Run) {rs₀ : List Run} (hy : fl = true → aboveOf w img k = 0)
    (he : Outcome f w h img d₀ fl k clean e)
    (hs : e.Settled f fl (img k) (aboveOf w img k) rs₀)
    (hacts : acts f (rs.map (.test fl (img k) (aboveOf w img k))) e = some e') :
    Outcome f w h img d₀ fl k (clean ∧ AllClean f start
      (log f (rs.map (.test fl (img k) (aboveOf w img k))) e)) e' ∧
      e'.Settled f fl (img k) (aboveOf w img k) (rs.reverse ++ rs₀) := by
  induction rs generalizing clean e rs₀ with
  | nil =>
    rw [List.map_nil, acts, Option.some_inj] at hacts
    subst hacts
    exact ⟨he.congr (by simp [AllClean, log]), hs⟩
  | cons r rs ih =>
    rw [List.map_cons, acts, Option.bind_eq_some_iff] at hacts
    obtain ⟨e₁, hact, hacts⟩ := hacts
    obtain ⟨hout, hsettled⟩ := ih (he.test hf hw hk hwh himg hy hact) (hs.test hact) hacts
    refine ⟨hout.congr ?_, by simpa using hsettled⟩
    rw [List.map_cons, log, hact, Option.elim_some, allClean_append, and_assoc]

/-- A pixel is tested for all runs and counted. -/
theorem Outcome.pixel (he : Outcome f w h img d₀ fl k clean e) (hfirst : fl = true → k < w)
    (hacts : acts f (pixelActions fl (img k, aboveOf w img k)) e = some e') :
    Outcome f w h img d₀ fl (k + 1) (clean ∧ AllClean f start
      (log f (pixelActions fl (img k, aboveOf w img k)) e)) e' := by
  have hy : fl = true → aboveOf w img k = 0 := fun hfl => if_pos (hfirst hfl)
  rw [pixelActions, acts_append, Option.bind_eq_some_iff] at hacts
  obtain ⟨e₁, htests, hcount⟩ := hacts
  have hnone : e.Settled f fl (img k) (aboveOf w img k) [] := fun r hr => absurd hr List.not_mem_nil
  obtain ⟨hout, hall⟩ := he.tests hf hw hk hwh himg runs hy hnone htests
  have hsettled : e₁.Settled f fl (img k) (aboveOf w img k) runs := by
    intro r _
    apply hall
    cases r <;> decide
  simp only [acts, act, Option.bind_some, Option.some_inj] at hcount
  subst hcount
  have hle := hout.tracks.count_le
  have hsub : k + 1 - (e₁.count + 1) = k - e₁.count := Nat.add_sub_add_right k 1 e₁.count
  rw [pixelActions, log_append, htests, Option.elim_some, allClean_append]
  refine ⟨hout.tracks.countPixel hout.placed hsettled hfirst, hout.placed.countPixel _ _, ?_, ?_⟩
  · rintro ⟨hclean, htest, -⟩
    change InSync f.bytes w h img d₀ e₁.s (k + 1 - (e₁.count + 1))
    rw [hsub]
    exact hout.inSync ⟨hclean, htest⟩
  · intro hdirty
    apply hout.broken
    rintro ⟨hclean, htest⟩
    exact hdirty ⟨hclean, htest, by simp [AllClean, log, flushed, act]⟩

end Act

section Lines

variable {d₀ : Decoder} {clean : Prop} (hf : f.Lawful start) (hw : 0 < w)
  (hwh : w * h < 2 ^ 16) (himg : ∀ j, img j < 2 ^ (8 * f.bytes))

include hf hw hwh himg

/-- A number of pixels, each with the one above it. -/
theorem Outcome.pixels (n : ℕ) (he : Outcome f w h img d₀ fl k clean e) (hk : k + n ≤ w * h)
    (hfirst : fl = true → k + n ≤ w)
    (hacts : acts f (((List.range n).map fun i => (img (k + i), aboveOf w img (k + i))).flatMap
      (pixelActions fl)) e = some e') :
    Outcome f w h img d₀ fl (k + n) (clean ∧ AllClean f start
      (log f (((List.range n).map fun i => (img (k + i), aboveOf w img (k + i))).flatMap
        (pixelActions fl)) e)) e' := by
  induction n generalizing e' with
  | zero =>
    simp only [List.range_zero, List.map_nil, List.flatMap_nil, acts, Option.some_inj] at hacts
    subst hacts
    exact he.congr (by simp [AllClean, log])
  | succ n ih =>
    rw [List.range_succ, List.map_append, List.flatMap_append, acts_append,
      Option.bind_eq_some_iff] at hacts
    obtain ⟨e₁, hfront, hlast⟩ := hacts
    rw [List.map_singleton, List.flatMap_singleton] at hlast
    have hout := (ih (by omega) (fun hfl => by have := hfirst hfl; omega) hfront).pixel hf hw
      (by omega) hwh himg (fun hfl => by have := hfirst hfl; omega) hlast
    apply hout.congr
    rw [List.range_succ, List.map_append, List.flatMap_append, log_append, hfront,
      Option.elim_some, allClean_append, List.map_singleton, List.flatMap_singleton, and_assoc]

theorem Outcome.finish (rs : List Run) {rs₀ : List Run} (he : Outcome f w h img d₀ true w clean e)
    (hh : 0 < h) (hzero : ∀ r ∈ rs₀, e.length r = 0)
    (hacts : acts f (rs.map .finish) e = some e') :
    Outcome f w h img d₀ true w (clean ∧ AllClean f start (log f (rs.map .finish) e)) e' ∧
      ∀ r ∈ rs.reverse ++ rs₀, e'.length r = 0 := by
  induction rs generalizing clean e rs₀ with
  | nil =>
    rw [List.map_nil, acts, Option.some_inj] at hacts
    subst hacts
    exact ⟨he.congr (by simp [AllClean, log]), hzero⟩
  | cons r rs ih =>
    rw [List.map_cons, acts, Option.bind_eq_some_iff] at hacts
    obtain ⟨e₁, hact, hacts⟩ := hacts
    have hout := he.breakRun hf hw (Nat.le_mul_of_pos_right w hh) hwh himg
      (fun _ hfill => .inl ⟨by omega, Nat.le_refl w⟩) hact
    have hzero₁ : ∀ r' ∈ r :: rs₀, e₁.length r' = 0 := by
      intro r' hr'
      rcases List.mem_cons.1 hr' with rfl | hmem
      · exact length_breakRun_self hact
      · exact length_breakRun_of_zero hact (hzero r' hmem)
    obtain ⟨hrest, hzero'⟩ := ih hout hzero₁ hacts
    refine ⟨hrest.congr ?_, by simpa using hzero'⟩
    rw [List.map_cons, log, hact, Option.elim_some, allClean_append, and_assoc, flushed]
    by_cases hwins : e.Wins r <;> simp [AllClean, hwins]

theorem Outcome.endFirstLine (he : Outcome f w h img d₀ true w clean e) (hh : 0 < h)
    (hacts : acts f [.finish .fill, .finish .mix, .finish .fom] e = some e') :
    Outcome f w h img d₀ false w (clean ∧ AllClean f start
      (log f [.finish .fill, .finish .mix, .finish .fom] e)) e' := by
  have hnone : ∀ r ∈ ([] : List Run), e.length r = 0 := fun r hr => absurd hr List.not_mem_nil
  obtain ⟨hout, hzero⟩ := he.finish hf hw hwh himg [.fill, .mix, .fom] hh hnone hacts
  refine ⟨hout.tracks.endFirstLine fun r hr => hzero r ?_, hout.placed, hout.inSync, hout.broken⟩
  simpa [or_comm, or_assoc, or_left_comm] using hr

/-- The lines behind the first, one after another. -/
theorem Outcome.lines (n i : ℕ) (he : Outcome f w h img d₀ false k clean e)
    (hk : k = (i + 1) * w) (hn : i + 1 + n = h)
    (hacts : acts f (imageActions w (some (Interleaved.pixels img (i * w) w))
      ((List.range' (i + 1) n).map fun t => Interleaved.pixels img (t * w) w)) e = some e') :
    Outcome f w h img d₀ false (w * h) (clean ∧ AllClean f start
      (log f (imageActions w (some (Interleaved.pixels img (i * w) w))
        ((List.range' (i + 1) n).map fun t => Interleaved.pixels img (t * w) w)) e)) e' := by
  subst hk
  induction n generalizing clean e i with
  | zero =>
    rw [List.range'_zero, List.map_nil, imageActions, acts, Option.some_inj] at hacts
    obtain rfl : i + 1 = h := hn
    subst hacts
    rw [Nat.mul_comm w]
    exact he.congr (by simp [AllClean, log, imageActions])
  | succ n ih =>
    have hline : lineActions w (some (Interleaved.pixels img (i * w) w))
        (Interleaved.pixels img ((i + 1) * w) w) =
        ((List.range w).map fun j => (img ((i + 1) * w + j), aboveOf w img ((i + 1) * w + j))).flatMap
          (pixelActions false) := by
      rw [lineActions, Option.getD_some, zip_line, Option.isNone_some, if_neg (by decide),
        List.append_nil]
    rw [List.range'_succ, List.map_cons, imageActions] at hacts ⊢
    rw [acts_append, Option.bind_eq_some_iff] at hacts
    obtain ⟨e₁, hfirst, hrest⟩ := hacts
    rw [hline] at hfirst
    have hk : (i + 1) * w + w ≤ w * h := by
      rw [← Nat.succ_mul, Nat.mul_comm]
      exact Nat.mul_le_mul_left w (by omega)
    have hout := he.pixels hf hw hwh himg w hk (by simp) hfirst
    rw [← Nat.succ_mul] at hout
    apply (ih (i + 1) (by omega) hrest hout).congr
    rw [log_append, hline, hfirst, Option.elim_some, allClean_append, and_assoc]

theorem Outcome.image (he : Outcome f w h img d₀ true 0 clean e) (hh : 0 < h)
    (hacts : acts f (imageActions w none
      ((List.range h).map fun t => Interleaved.pixels img (t * w) w)) e = some e') :
    Outcome f w h img d₀ false (w * h) (clean ∧ AllClean f start
      (log f (imageActions w none
        ((List.range h).map fun t => Interleaved.pixels img (t * w) w)) e)) e' := by
  have hline : lineActions w none (Interleaved.pixels img (0 * w) w) =
      ((List.range w).map fun j => (img (0 + j), aboveOf w img (0 + j))).flatMap
        (pixelActions true) ++ [.finish .fill, .finish .mix, .finish .fom] := by
    rw [lineActions, Nat.zero_mul, Option.getD_none, zip_firstLine, Option.isNone_none, if_pos rfl]
  obtain ⟨n, rfl⟩ : ∃ n, h = n + 1 := ⟨h - 1, by omega⟩
  rw [List.range_eq_range', List.range'_succ, List.map_cons, imageActions] at hacts ⊢
  rw [acts_append, Option.bind_eq_some_iff] at hacts
  obtain ⟨e₁, hfirst, hrest⟩ := hacts
  rw [hline, acts_append, Option.bind_eq_some_iff] at hfirst
  obtain ⟨e₂, hpixels, hend⟩ := hfirst
  have hw' : w ≤ w * (n + 1) := Nat.le_mul_of_pos_right w hh
  have hout := he.pixels hf hw hwh himg w (by omega) (fun _ => by omega) hpixels
  rw [Nat.zero_add] at hout
  have hout := hout.endFirstLine hf hw hwh himg hh hend
  have hall := hout.lines hf hw hwh himg n 0 (by omega) (by omega) hrest
  apply hall.congr
  rw [log_append, hline, log_append, acts_append, hpixels, Option.elim_some, Option.bind_some, hend,
    Option.elim_some, allClean_append, allClean_append]
  simp only [and_assoc]

end Lines

theorem Outcome.lastFlush {d₀ : Decoder} {clean : Prop} (hf : f.Lawful start) (hw : 0 < w)
    (hwh : w * h < 2 ^ 16) (himg : ∀ j, img j < 2 ^ (8 * f.bytes))
    (he : Outcome f w h img d₀ false (w * h) clean e)
    (hlast : e.rewind.lastFlush f = some e') :
    (clean ∧ AllClean f start
        ((runs.find? fun r => e.Wins r).map fun r => (e.rewind, r)).toList →
      ∃ d, Executes f.bytes w h d₀ e'.s d ∧ Shows img d ∧ d.position = w * h) ∧
    (¬ (clean ∧ AllClean f start
        ((runs.find? fun r => e.Wins r).map fun r => (e.rewind, r)).toList) →
      Broken f.bytes w h img d₀ e'.s) := by
  have htracks : Tracks f w img false (w * h) e.rewind :=
    ⟨he.tracks.count_le, he.tracks.inFirst, he.tracks.behindFirst, he.tracks.length_le,
      he.tracks.pending, he.tracks.lastPixel, he.tracks.follows⟩
  rw [Encoder.lastFlush] at hlast
  have hwinner : (runs.find? fun r => decide (e.rewind.Wins r)) =
      runs.find? fun r => decide (e.Wins r) := rfl
  rw [hwinner] at hlast
  cases hfind : runs.find? (fun r => decide (e.Wins r)) with
  | some r =>
    rw [hfind] at hlast
    have hwins : e.Wins r := by simpa using List.find?_some hfind
    have hiff : (clean ∧ AllClean f start ((some r).map fun r => (e.rewind, r)).toList) ↔
        clean ∧ CleanFlush f start e.rewind r := by simp [AllClean]
    rw [hiff]
    have hflush := fun hclean => inSync_flushRun hf htracks (Nat.le_refl _) hwh himg hw
      (he.inSync hclean) hwins.1 hlast
    constructor
    · rintro ⟨hclean, hlastClean⟩
      have hsync := hflush hclean
      rw [if_pos hlastClean] at hsync
      obtain ⟨d, hexec, hd, hpos, -⟩ := hsync
      exact ⟨d, hexec, hd.shows, hpos⟩
    · intro hdirty
      by_cases hclean : clean
      · have hsync := hflush hclean
        rwa [if_neg (fun hlastClean => hdirty ⟨hclean, hlastClean⟩)] at hsync
      · obtain ⟨t, ht⟩ := exists_append_of_flush hlast
        rw [ht]
        exact (he.broken hclean).append t
  | none =>
    rw [hfind] at hlast
    constructor
    · rintro ⟨hclean, -⟩
      obtain ⟨d, hexec, hd, hpos, -⟩ := he.inSync hclean
      obtain ⟨d', hcopy, hpos', hcopied⟩ := executes_copied hf htracks (Nat.le_refl _) hwh himg
        (Nat.le_refl _) hd hpos
      rw [hf.rewound _ rfl, if_pos rfl] at hcopied
      refine ⟨d', ?_, hcopied.1.shows, ?_⟩
      · rw [Encoder.flush, Option.ite_none_left_eq_some, Option.some_inj] at hlast
        rw [← hlast.2]
        have hs := hexec.trans hcopy
        rwa [← List.append_nil (f.outCopyCount _ _)] at hs
      · have := he.tracks.count_le
        rw [hpos', hpos]
        exact Nat.sub_add_cancel this
    · intro hdirty
      have hclean : ¬ clean := fun hclean => hdirty ⟨hclean, by simp [AllClean]⟩
      obtain ⟨t, ht⟩ := exists_append_of_flush hlast
      rw [ht]
      exact (he.broken hclean).append t

/-! ### The decoder never comes back to a pixel -/

namespace Decoder

variable {b size : ℕ} {d' d'' : Decoder}

/-- What has been written stays. -/
def Extends (d d' : Decoder) : Prop :=
  d.position ≤ d'.position ∧ ∀ j < d.position, d'.dest j = d.dest j

theorem Extends.refl (d : Decoder) : Extends d d := ⟨Nat.le_refl _, fun _ _ => rfl⟩

theorem Extends.trans (h₁ : Extends d d') (h₂ : Extends d' d'') : Extends d d'' := by
  refine ⟨h₁.1.trans h₂.1, fun j hj => ?_⟩
  rw [h₂.2 j (Nat.lt_of_lt_of_le hj h₁.1), h₁.2 j hj]

/-- A round that goes on, and one that returns, keep what has been written. -/
def Keeps (d : Decoder) : Round → Prop
  | .inl d' => Extends d d'
  | .inr (.ok (_, d')) => Extends d d'
  | .inr (.error _) => True

theorem Keeps.of_extends {r : Round} (h₁ : Extends d d') (h₂ : Keeps d' r) : Keeps d r := by
  rcases r with d'' | (_ | ⟨_, d''⟩)
  · exact Extends.trans h₁ h₂
  · trivial
  · exact Extends.trans h₁ h₂

theorem Keeps.ite {c : Prop} [Decidable c] {r₁ r₂ : Round} (h₁ : Keeps d r₁) (h₂ : Keeps d r₂) :
    Keeps d (if c then r₁ else r₂) := by
  split <;> assumption

theorem keeps_fail (d : Decoder) : Keeps d d.fail := Extends.refl d

theorem extends_put (d : Decoder) (p : ℕ) : Extends d (d.put b p) :=
  ⟨Nat.le_succ _, fun _ hj => Function.update_of_ne (Nat.ne_of_lt hj) _ _⟩

theorem extends_paint (pixel : Decoder → ℕ → ℕ) (n i : ℕ) (d : Decoder) :
    Extends d (d.paint b pixel n i) := by
  induction n generalizing i d with
  | zero => exact .refl d
  | succ n ih => exact (extends_put d _).trans (ih (i + 1) _)

theorem extends_watchLine (d : Decoder) : Extends d (d.watchLine w) := by
  unfold watchLine
  split <;> exact .refl d

theorem keeps_paintChecked (pixel : Decoder → ℕ → ℕ) (n : ℕ) (d : Decoder) :
    Keeps d (d.paintChecked b size pixel n) := by
  unfold paintChecked
  split
  · exact extends_paint pixel n 0 d
  · exact .refl d

theorem keeps_readPixel {next : ℕ → Decoder → Round} (hnext : ∀ p d, Keeps d (next p d))
    (d : Decoder) : Keeps d (d.readPixel b next) := by
  unfold readPixel
  split_ifs
  · exact .refl d
  · trivial
  · exact Keeps.of_extends (.refl d) (hnext _ _)

theorem keeps_readRun {code : ℕ} {next : ℕ → Decoder → Round} (hnext : ∀ n d, Keeps d (next n d))
    (d : Decoder) : Keeps d (d.readRun code next) := by
  unfold readRun
  split
  · trivial
  · exact Keeps.of_extends (.refl d) (hnext _ _)

theorem keeps_bgRun (n : ℕ) (d : Decoder) : Keeps d (d.bgRun b w size n) := by
  unfold bgRun
  generalize (n + (2 ^ 32 - 1)) % 2 ^ 32 = m
  split_ifs
  · exact Keeps.of_extends (extends_put d _) (keeps_paintChecked _ m _)
  · exact .refl d
  · have hpaint : Keeps d (d.paintChecked b size (fun d _ => d.background w) n) :=
      keeps_paintChecked _ n d
    split
    · rename_i d' heq
      rw [heq] at hpaint
      exact hpaint
    · rename_i r heq
      rw [heq] at hpaint
      exact hpaint

theorem keeps_fgbgImage (k n : ℕ) (d : Decoder) : Keeps d (d.fgbgImage b w size k n) := by
  induction k generalizing n d with
  | zero => exact .refl d
  | succ k ih =>
    rw [fgbgImage]
    split
    · trivial
    · rename_i c src _
      have hpaint : Keeps d
          (paintChecked b size (fgbgPixel w c.toNat) (min n 8) { d with src := src }) :=
        keeps_paintChecked _ _ _
      split
      · rename_i d' heq
        rw [heq] at hpaint
        exact Keeps.of_extends hpaint (ih _ _)
      · rename_i r heq
        rw [heq] at hpaint
        exact hpaint

theorem keeps_colorImage (n : ℕ) (d : Decoder) : Keeps d (d.colorImage b n) := by
  induction n generalizing d with
  | zero => exact .refl d
  | succ n ih =>
    rw [colorImage]
    have hpixel : Keeps d (d.readPixel b fun p d => .inl (d.put b p)) :=
      keeps_readPixel (fun p d => show Keeps d (.inl (d.put b p)) from extends_put d p) d
    split
    · rename_i d' heq
      rw [heq] at hpixel
      exact Keeps.of_extends hpixel (ih d')
    · rename_i r heq
      rw [heq] at hpixel
      exact hpixel

theorem keeps_otherOrder (code : ℕ) (d : Decoder) : Keeps d (d.otherOrder b w size code) := by
  unfold otherOrder
  refine .ite ?_ (.ite ?_ (.ite ?_ (.ite ?_ (.ite ?_ (.ite ?_ (.ite ?_ (.ite ?_ (.ite ?_ (.ite ?_
    (.ite ?_ (keeps_fail d)))))))))))
  · apply keeps_readRun
    intro n d
    apply keeps_paintChecked
  · apply keeps_readRun
    intro n d
    apply keeps_readPixel
    intro p d
    exact keeps_paintChecked _ n { d with fgPel := p }
  · apply keeps_readRun
    intro n d
    apply keeps_readPixel
    intro p d
    apply keeps_readPixel
    intro q d
    apply keeps_paintChecked
  · apply keeps_readRun
    intro n d
    apply keeps_readPixel
    intro p d
    apply keeps_paintChecked
  · apply keeps_readRun
    intro n d
    apply Keeps.ite (keeps_fail d)
    apply keeps_fgbgImage
  · apply keeps_readRun
    intro n d
    apply keeps_readPixel
    intro p d
    exact keeps_fgbgImage _ n { d with fgPel := p }
  · apply keeps_readRun
    intro n d
    exact Keeps.ite (keeps_colorImage n d) (keeps_fail d)
  · exact keeps_paintChecked _ 8 { d with src := d.src.drop 1 }
  · exact keeps_paintChecked _ 8 { d with src := d.src.drop 1 }
  · exact keeps_paintChecked _ 1 { d with src := d.src.drop 1 }
  · exact keeps_paintChecked _ 1 { d with src := d.src.drop 1 }

theorem keeps_step (d : Decoder) : Keeps d (d.step b w h) := by
  unfold step
  split
  · exact .refl d
  · apply Keeps.of_extends (extends_watchLine (w := w) d)
    unfold order
    split_ifs
    · exact keeps_readRun (fun n d => keeps_bgRun n d) _
    · exact keeps_otherOrder _ { d.watchLine w with insertFgPel := false }

/-- What has been written stays to the end of the loop. -/
theorem extends_of_iterate {n : ℕ} {ok : Bool}
    (hloop : iterate (step b w h) n d = some (.ok (ok, d'))) : Extends d d' := by
  induction n generalizing d with
  | zero => simp [iterate] at hloop
  | succ n ih =>
    have hkeeps := keeps_step (b := b) (w := w) (h := h) d
    cases hstep : step b w h d with
    | inl d₁ =>
      rw [iterate_inl hstep] at hloop
      rw [hstep] at hkeeps
      exact hkeeps.trans (ih hloop)
    | inr r =>
      rw [iterate_inr hstep, Option.some_inj] at hloop
      rw [hstep, hloop] at hkeeps
      exact hkeeps

end Decoder

/-! ### The round trip -/

/-- The pixels of an image in the order in which they are sent: the last line comes first. -/
def sentPixel (image : ℕ → ℕ → ℕ) (w h : ℕ) (j : ℕ) : ℕ := image (j % w) (h - 1 - j / w)

theorem linesOf_eq (image : ℕ → ℕ → ℕ) (hw : 0 < w) (h : ℕ) :
    linesOf image w h =
      (List.range h).map fun t => pixels (sentPixel image w h) (t * w) w := by
  have hlines : linesOf image w h =
      (List.range h).map fun t => (List.range w).map fun x => image x (h - 1 - t) := by
    induction h with
    | zero => rfl
    | succ h ih =>
      rw [linesOf, ih, List.range_succ_eq_map, List.map_cons, List.map_map]
      congr 1
      apply List.map_congr_left
      intro t _
      simp only [Function.comp_apply, show h + 1 - 1 - (t + 1) = h - 1 - t by omega]
  rw [hlines]
  apply List.map_congr_left
  intro t _
  apply List.map_congr_left
  intro x hx
  have hx : x < w := List.mem_range.1 hx
  rw [sentPixel, Nat.add_comm, Nat.add_mul_mod_self_right, Nat.mod_eq_of_lt hx,
    Nat.add_mul_div_right _ _ hw, Nat.div_eq_of_lt hx, Nat.zero_add]

/-- Two ways to read the pixels of an image: by column and line, and as they are sent. -/
theorem imageOf_iff {image : ℕ → ℕ → ℕ} (hw : 0 < w) (out : ℕ → ℕ) :
    (∀ x < w, ∀ y < h, imageOf out w x (h - 1 - y) = image x y) ↔
      ∀ j < w * h, out j = sentPixel image w h j := by
  constructor
  · intro himage j hj
    have hy : j / w < h := Nat.div_lt_of_lt_mul hj
    have hflip : ∀ q < h, h - 1 - q < h ∧ h - 1 - (h - 1 - q) = q := by omega
    have hpixel := himage (j % w) (Nat.mod_lt j hw) (h - 1 - j / w) (hflip _ hy).1
    rwa [imageOf, (hflip _ hy).2, Nat.mul_comm, Nat.div_add_mod] at hpixel
  · intro hsent x hx y hy
    have hj : (h - 1 - y) * w + x < w * h := by
      calc (h - 1 - y) * w + x < (h - 1 - y) * w + w := by omega
        _ = (h - 1 - y + 1) * w := (Nat.succ_mul _ _).symm
        _ ≤ h * w := Nat.mul_le_mul_right w (by omega)
        _ = w * h := Nat.mul_comm _ _
    rw [imageOf, hsent _ hj, sentPixel, Nat.add_comm, Nat.add_mul_mod_self_right,
      Nat.mod_eq_of_lt hx, Nat.add_mul_div_right _ _ hw, Nat.div_eq_of_lt hx, Nat.zero_add,
      show h - 1 - (h - 1 - y) = y by omega]

/-- What the decoder makes of bytes that it executes to the end. -/
theorem rleDecompress_of_executes {b : ℕ} {dest : ℕ → ℕ} {s : List UInt8} (hw : 0 < w)
    (hexec : Executes b w h ⟨[], dest, 0, whitePixel b, false, true⟩ s d) :
    rleDecompress b s dest w h = .ok (some d.dest) := by
  obtain ⟨m, hm, hloop⟩ := hexec
  have hloop := hloop [] (s.length - m + 1)
  rw [List.append_nil, show s.length - m + 1 + m = s.length + 1 by omega] at hloop
  have hstart : feed ⟨[], dest, 0, whitePixel b, false, true⟩ s =
      ⟨s, dest, 0, whitePixel b, false, true⟩ := rfl
  rw [rleDecompress, if_neg (by omega), ← hstart, hloop]
  rfl

/-- What the decoder makes of bytes after which it has a wrong pixel. -/
theorem rleDecompress_of_broken {b : ℕ} {dest out : ℕ → ℕ} {s : List UInt8} (hw : 0 < w)
    (hbroken : Broken b w h img ⟨[], dest, 0, whitePixel b, false, true⟩ s)
    (hout : rleDecompress b s dest w h = .ok (some out)) : ∃ j < w * h, out j ≠ img j := by
  obtain ⟨s₁, s₂, d, rfl, ⟨m, hm, hloop⟩, hbound, hwrong⟩ := hbroken
  have hloop := hloop s₂ (s₁.length - m + s₂.length + 1)
  rw [show s₁.length - m + s₂.length + 1 + m = (s₁ ++ s₂).length + 1 by
    rw [List.length_append]; omega] at hloop
  have hstart : feed ⟨[], dest, 0, whitePixel b, false, true⟩ (s₁ ++ s₂) =
      ⟨s₁ ++ s₂, dest, 0, whitePixel b, false, true⟩ := rfl
  rw [rleDecompress, if_neg (by omega), ← hstart, hloop] at hout
  cases hend : iterate (step b w h) (s₁.length - m + s₂.length + 1) (d.feed s₂) with
  | none => simp [hend] at hout
  | some r =>
    rcases r with stop | ⟨ok, d'⟩
    · simp [hend] at hout
    · have hstays := extends_of_iterate hend
      rw [hend] at hout
      obtain ⟨rfl, rfl⟩ : ok = true ∧ d'.dest = out := by
        cases ok
        · simp at hout
        · exact ⟨rfl, by simpa using hout⟩
      obtain ⟨j, hj, hne⟩ : ∃ j, j < d.position ∧ d.dest j ≠ img j := by
        simpa [Shows] using hwrong
      refine ⟨j, Nat.lt_of_lt_of_le hj hbound, ?_⟩
      rw [hstays.2 j hj]
      exact hne

/-- The encoder sends all lines, and the decoder reproduces them exactly when all flushes are
clean. -/
theorem rleDecompress_bitmapCompress {image : ℕ → ℕ → ℕ} {limit : ℕ} {temp : TempStream}
    {bytes : List UInt8} (hf : f.Lawful start) (hw : 0 < w) (hh : 0 < h) (hwh : w * h < 2 ^ 16)
    (htemp : temp.position = 0) (himage : ∀ x < w, ∀ y < h, image x y < 2 ^ (8 * f.bytes))
    (hc : bitmapCompress f image w limit (h - 1) temp = some (h, bytes)) (dest : ℕ → ℕ) :
    (∃ out, rleDecompress f.bytes bytes dest w h = .ok (some out) ∧
      ∀ x < w, ∀ y < h, imageOf out w x (h - 1 - y) = image x y) ↔
    AllClean f start
      (flushes f (imageActions w none (linesOf image w h)) (Encoder.start temp)) := by
  have himg : ∀ j, sentPixel image w h j < 2 ^ (8 * f.bytes) := fun j =>
    himage _ (Nat.mod_lt j hw) _ (Nat.lt_of_le_of_lt (Nat.sub_le _ _) (Nat.sub_one_lt_of_lt hh))
  -- the image, pixel by pixel
  have himageOf : ∀ out : ℕ → ℕ, (∀ x < w, ∀ y < h, imageOf out w x (h - 1 - y) = image x y) ↔
      ∀ j < w * h, out j = sentPixel image w h j := fun out => imageOf_iff hw out
  rw [bitmapCompress, Nat.sub_add_cancel hh, Option.bind_eq_some_iff] at hc
  obtain ⟨⟨n, e⟩, hlines, hlast⟩ := hc
  rw [Option.map_eq_some_iff] at hlast
  obtain ⟨e', hlast, heq⟩ := hlast
  rw [Prod.mk.injEq] at heq
  obtain ⟨rfl, rfl⟩ := heq
  have hacts := acts_of_addLines hlines (by simp [linesOf_eq image hw])
  have hstart : Outcome f w n (sentPixel image w n) ⟨[], dest, 0, whitePixel f.bytes, false, true⟩
      true 0 True (Encoder.start temp) := by
    refine ⟨tracks_start temp, ?_, fun _ => ?_, fun h => absurd trivial h⟩
    · rw [Placed, Encoder.start, htemp, Nat.zero_mul]
    · exact ⟨_, Executes.refl _, ⟨fun j hj => absurd hj (Nat.not_lt_zero j), rfl,
        fun h => by simp at h⟩, rfl, fun h => by simp at h⟩
  rw [linesOf_eq image hw] at hacts
  have hout := hstart.image hf hw hwh himg hh hacts
  obtain ⟨hclean, hdirty⟩ := hout.lastFlush hf hw hwh himg hlast
  rw [true_and, ← linesOf_eq image hw] at hclean hdirty
  rw [← linesOf_eq image hw] at hacts
  rw [flushes, hacts, Option.elim_some, allClean_append]
  constructor
  · rintro ⟨out, hdecompress, hpixels⟩
    by_contra hflush
    obtain ⟨j, hj, hwrong⟩ := rleDecompress_of_broken hw (hdirty hflush) hdecompress
    exact hwrong ((himageOf out).1 hpixels j hj)
  · intro hflush
    obtain ⟨d, hexec, hshows, hpos⟩ := hclean hflush
    refine ⟨d.dest, rleDecompress_of_executes hw hexec, (himageOf d.dest).2 fun j hj => ?_⟩
    exact hshows j (by rw [hpos]; exact hj)

/-! ### 16 bits a pixel -/

theorem linesOf_congr {image image' : ℕ → ℕ → ℕ} (himage : ∀ x < w, ∀ y < h, image x y = image' x y) :
    linesOf image w h = linesOf image' w h := by
  induction h with
  | zero => rfl
  | succ h ih =>
    rw [linesOf, linesOf, ih fun x hx y hy => himage x hx y (by omega)]
    congr 1
    apply List.map_congr_left
    intro x hx
    exact himage x (List.mem_range.1 hx) h (Nat.lt_succ_self h)

theorem freerdpImageCopy_corner (dst src : ℕ → ℕ → ℕ) (nXSrc nYSrc : ℕ) {x y : ℕ} (hx : x < w)
    (hy : y < h) :
    freerdpImageCopy dst 0 0 w h src nXSrc nYSrc false x y = src (nXSrc + x) (nYSrc + y) := by
  rw [freerdpImageCopy, if_pos ⟨Nat.zero_le x, by omega, Nat.zero_le y, by omega⟩]
  simp

/-- The two-colour runs that an encoder sends are of odd length. -/
def OddBicolors (l : List (Encoder × Run)) : Prop :=
  ∀ x ∈ l, x.2 = .bicolor → x.1.bicolorCount % 2 = 1

instance (l : List (Encoder × Run)) : Decidable (OddBicolors l) :=
  inferInstanceAs (Decidable (∀ x ∈ l, _))

/-- An image with 16 bits a pixel that has been sent as a whole comes back, pixel by pixel, exactly
when no two-colour run of even length has been sent. -/
theorem interleavedDecompress_interleavedCompress (sender receiver : Context)
    (nWidth nHeight nXSrc nYSrc nXDst nYDst : ℕ) (src dst : ℕ → ℕ → ℕ) (bytes : List UInt8)
    (hsrc : ∀ x < nWidth, ∀ y < nHeight, src (nXSrc + x) (nYSrc + y) < 2 ^ 16)
    (hc : interleavedCompress sender nWidth nHeight src nXSrc nYSrc = some (nHeight, bytes)) :
    (∃ out, interleavedDecompress receiver bytes nWidth nHeight dst nXDst nYDst = .ok (some out) ∧
      ∀ x < nWidth, ∀ y < nHeight, out (nXDst + x) (nYDst + y) = src (nXSrc + x) (nYSrc + y)) ↔
    OddBicolors (flushes rgb16
      (imageActions nWidth none
        (linesOf (fun x y => src (nXSrc + x) (nYSrc + y)) nWidth nHeight))
      (Encoder.start { sender.bts with position := 0 })) := by
  unfold interleavedCompress at hc
  split_ifs at hc with hzero hfour hlarge
  have hw : 0 < nWidth := by omega
  have hh : 0 < nHeight := by omega
  have hwh : nWidth * nHeight < 2 ^ 16 :=
    calc nWidth * nHeight ≤ 64 * 64 := Nat.mul_le_mul (by omega) (by omega)
      _ < 2 ^ 16 := by decide
  -- the source as it is copied to the temporary image
  have hcopy : ∀ x < nWidth, ∀ y < nHeight,
      freerdpImageCopy (imageOf sender.tempBuffer nWidth) 0 0 nWidth nHeight src nXSrc nYSrc false
        x y = src (nXSrc + x) (nYSrc + y) :=
    fun x hx y hy => freerdpImageCopy_corner _ src nXSrc nYSrc hx hy
  have hround := rleDecompress_bitmapCompress lawful_rgb16 hw hh hwh rfl
    (fun x hx y hy => by rw [hcopy x hx y hy]; exact hsrc x hx y hy) hc receiver.tempBuffer
  rw [linesOf_congr hcopy] at hround
  have hodd : ∀ l, AllClean rgb16 (fun _ => 0) l ↔ OddBicolors l := fun l =>
    forall₂_congr fun x _ => ⟨fun hx => hx.2, fun hx => ⟨rfl, hx⟩⟩
  rw [hodd] at hround
  rw [← hround]
  have hflip : ∀ out : ℕ → ℕ, ∀ x < nWidth, ∀ y < nHeight,
      freerdpImageCopy dst nXDst nYDst nWidth nHeight (imageOf out nWidth) 0 0 true (nXDst + x)
        (nYDst + y) = imageOf out nWidth x (nHeight - 1 - y) := by
    intro out x hx y hy
    rw [freerdpImageCopy, if_pos ⟨by omega, by omega, by omega, by omega⟩]
    simp
  unfold interleavedDecompress
  constructor
  · rintro ⟨image, hdecompress, hpixels⟩
    cases hrle : rleDecompress 2 bytes receiver.tempBuffer nWidth nHeight with
    | error stop => simp [hrle, Except.map] at hdecompress
    | ok r =>
      cases r with
      | none => simp [hrle, Except.map] at hdecompress
      | some out =>
        rw [hrle] at hdecompress
        obtain rfl : freerdpImageCopy dst nXDst nYDst nWidth nHeight (imageOf out nWidth) 0 0 true =
            image := by simpa [Except.map] using hdecompress
        refine ⟨out, hrle, fun x hx y hy => ?_⟩
        rw [← hflip out x hx y hy, hpixels x hx y hy, hcopy x hx y hy]
  · rintro ⟨out, hrle, hpixels⟩
    have hrle : rleDecompress 2 bytes receiver.tempBuffer nWidth nHeight = .ok (some out) := hrle
    refine ⟨freerdpImageCopy dst nXDst nYDst nWidth nHeight (imageOf out nWidth) 0 0 true,
      by rw [hrle]; rfl, fun x hx y hy => ?_⟩
    rw [hflip out x hx y hy, hpixels x hx y hy, hcopy x hx y hy]

def Context.empty : Context := ⟨fun _ => 0, ⟨fun _ => 0, 0⟩⟩

def imageOfLine (l : List ℕ) : ℕ → ℕ → ℕ := fun x _ => l.getD x 0

/-- A line with a two-colour run of five pixels comes back. -/
theorem interleavedDecompress_interleavedCompress_odd :
    ∃ out, interleavedDecompress .empty [0x83, 1, 0, 2, 0, 1, 0, 0xe2, 2, 0, 1, 0, 0x81, 3, 0] 8 1
        (fun _ _ => 0) 0 0 = .ok (some out) ∧
      ∀ x < 8, ∀ y < 1, out (0 + x) (0 + y) = imageOfLine [1, 2, 1, 2, 1, 2, 1, 3] (0 + x) (0 + y) :=
  (interleavedDecompress_interleavedCompress .empty .empty 8 1 0 0 0 0 _ _ _ (by decide) (by rfl)).2
    (by decide)

/-- A line with a two-colour run of four pixels comes back with their colours exchanged. -/
theorem interleavedDecompress_interleavedCompress_even :
    interleavedCompress .empty 8 1 (imageOfLine [1, 2, 1, 2, 1, 2, 3, 3]) 0 0 =
        some (1, [0x82, 1, 0, 2, 0, 0xe2, 2, 0, 1, 0, 0x82, 3, 0, 3, 0]) ∧
      ¬ ∃ out, interleavedDecompress .empty
          [0x82, 1, 0, 2, 0, 0xe2, 2, 0, 1, 0, 0x82, 3, 0, 3, 0] 8 1 (fun _ _ => 0) 0 0 =
            .ok (some out) ∧
        ∀ x < 8, ∀ y < 1, out x y = imageOfLine [1, 2, 1, 2, 1, 2, 3, 3] x y := by
  refine ⟨by rfl, ?_⟩
  rintro ⟨out, hout, hpixels⟩
  have hpixel : (interleavedDecompress .empty
      [0x82, 1, 0, 2, 0, 0xe2, 2, 0, 1, 0, 0x82, 3, 0, 3, 0] 8 1 (fun _ _ => 0) 0 0).toOption.map
        (fun r => r.map fun out => out 2 0) = some (some 2) := by rfl
  rw [hout] at hpixel
  have h2 : out 2 0 = 2 := by simpa [Except.toOption] using hpixel
  have h1 : out 2 0 = 1 := hpixels 2 (by decide) 0 (by decide)
  omega

/-! ### 24 bits a pixel -/

/-- An image with 24 bits a pixel that has been sent as a whole comes back, pixel by pixel, exactly
when no two-colour run of even length has been sent and the pixels before each run have been copied
from bytes that agree with them. -/
theorem rleDecompress_freerdpBitmapCompress (w h byteLimit : ℕ) (image : ℕ → ℕ → ℕ)
    (temp : TempStream) (dest : ℕ → ℕ) (bytes : List UInt8) (hw : 0 < w) (hw' : w ≤ 64) (hh : 0 < h)
    (hh' : h ≤ 64) (himage : ∀ x < w, ∀ y < h, image x y < 2 ^ 24)
    (hc : freerdpBitmapCompress 24 image w byteLimit (h - 1) temp = some (h, bytes)) :
    (∃ out, rleDecompress 3 bytes dest w h = .ok (some out) ∧
      ∀ x < w, ∀ y < h, imageOf out w x (h - 1 - y) = image x y) ↔
    ∀ p ∈ flushes bgr24 (imageActions w none (linesOf image w h))
        (Encoder.start { temp with position := 0 }),
      CleanFlush bgr24 TempStream.position p.1 p.2 := by
  have hwh : w * h < 2 ^ 16 :=
    calc w * h ≤ 64 * 64 := Nat.mul_le_mul hw' hh'
      _ < 2 ^ 16 := by decide
  exact rleDecompress_bitmapCompress lawful_bgr24 hw hh hwh rfl himage hc dest

/-- A line with a colour run comes back where the bytes behind the pixels before it are equal to them. -/
theorem rleDecompress_freerdpBitmapCompress_copy :
    ∃ out, rleDecompress 3 [0x82, 1, 0, 0, 2, 0, 0, 0x64, 2, 0, 0, 0x82, 3, 0, 0, 3, 0, 0]
        (fun _ => 0) 8 1 = .ok (some out) ∧
      ∀ x < 8, ∀ y < 1, imageOf out 8 x (1 - 1 - y) = imageOfLine [1, 2, 2, 2, 2, 2, 3, 3] x y :=
  (rleDecompress_freerdpBitmapCompress 8 1 1000 _
    ⟨fun i => if i = 18 then 1 else if i = 21 then 2 else 0, 0⟩ _ _ (by decide) (by decide)
    (by decide) (by decide) (by decide) (by rfl)).2 (by decide)

/-- The pixels before a colour run are copied from bytes behind them. -/
theorem rleDecompress_freerdpBitmapCompress_stale :
    freerdpBitmapCompress 24 (imageOfLine [1, 2, 2, 2, 2, 2, 3, 3]) 8 1000 0 ⟨fun _ => 0, 0⟩ =
        some (1, [0x82, 0, 0, 0, 0, 0, 0, 0x64, 2, 0, 0, 0x82, 3, 0, 0, 3, 0, 0]) ∧
      ¬ ∃ out, rleDecompress 3 [0x82, 0, 0, 0, 0, 0, 0, 0x64, 2, 0, 0, 0x82, 3, 0, 0, 3, 0, 0]
          (fun _ => 0) 8 1 = .ok (some out) ∧
        ∀ x < 8, ∀ y < 1, imageOf out 8 x (1 - 1 - y) = imageOfLine [1, 2, 2, 2, 2, 2, 3, 3] x y := by
  refine ⟨by rfl, ?_⟩
  rintro ⟨out, hout, hpixels⟩
  have hpixel : (rleDecompress 3 [0x82, 0, 0, 0, 0, 0, 0, 0x64, 2, 0, 0, 0x82, 3, 0, 0, 3, 0, 0]
      (fun _ => 0) 8 1).toOption.map (fun r => r.map fun out => out 0) = some (some 0) := by rfl
  rw [hout] at hpixel
  have h0 : out 0 = 0 := by simpa [Except.toOption] using hpixel
  have h1 : out 0 = 1 := hpixels 0 (by decide) 0 (by decide)
  omega

end FreeRDP.Interleaved
