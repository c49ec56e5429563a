import FreeRDP.Lib.Traced
import Mathlib.Data.Nat.GCD.Basic
import Mathlib.Tactic.Ring

/-!
# Loops that count down over blocks

A loop takes `u` bytes of its input in each round.  Where a multiple of `align` bytes is left, a header as
long as `c` rounds comes first.  The loop does not know where a block ends: it comes to nothing only where
whole blocks are behind less than one unit of rounds (`runs_iff`).

`Spec` says what the rounds of a traced loop of this kind do, and `Spec.finishes_iff` when it ends and
is safe: how long its input is, that each header is good, and that there is room for what is put out.
-/

namespace Blocks

open Traced

/-! ### Rounds -/

/-- The number of rounds from one place where a header can be to the next. -/
def unit (align u : ℕ) : ℕ := Nat.lcm align u / u

/-- The least multiple of `w` that has a round behind a header of `c` rounds. -/
def block (w c : ℕ) : ℕ := w * ((c + w) / w)

theorem unit_dvd_iff {align u r : ℕ} (hu : 0 < u) : unit align u ∣ r ↔ align ∣ r * u := by
  have hunit : unit align u * u = Nat.lcm align u := Nat.div_mul_cancel (Nat.dvd_lcm_right align u)
  rw [← Nat.mul_dvd_mul_iff_right hu, hunit, Nat.lcm_dvd_iff]
  exact and_iff_left (Nat.dvd_mul_left u r)

section Runs

variable {w c ho ro cap lead k q r : ℕ} {ok : ℕ → Prop}

theorem dvd_block (w c : ℕ) : w ∣ block w c := Nat.dvd_mul_right _ _

theorem lt_block (hw : 0 < w) : c < block w c := by
  have hdiv := Nat.div_add_mod (c + w) w
  have hmod := Nat.mod_lt (c + w) hw
  unfold block
  omega

theorem block_le (w c : ℕ) : block w c ≤ c + w := Nat.mul_div_le (c + w) w

/-- A multiple of `w` with a round behind the header, but less than a whole unit more, is the block. -/
theorem eq_block (hlead : lead < w) (h : w ∣ lead + (c + 1)) : lead + (c + 1) = block w c := by
  have hlt : c < block w c := lt_block (Nat.zero_lt_of_lt hlead)
  have hle := block_le w c
  obtain ⟨i, hi⟩ := h
  obtain ⟨j, hj⟩ := dvd_block w c
  have hij : i = j := by
    apply Nat.le_antisymm
    · apply Nat.le_of_lt_succ
      apply Nat.lt_of_mul_lt_mul_left (a := w)
      rw [Nat.mul_succ]
      omega
    · apply Nat.le_of_lt_succ
      apply Nat.lt_of_mul_lt_mul_left (a := w)
      rw [Nat.mul_succ]
      omega
  rw [hi, hj, hij]

/-- The loop comes to its end from `r` rounds, when `q` bytes have been put out: `ho` bytes for a header
and `ro` for a round. -/
inductive Runs (w c ho ro cap : ℕ) (ok : ℕ → Prop) : ℕ → ℕ → Prop
  | stop (q : ℕ) : Runs w c ho ro cap ok 0 q
  | plain {r q : ℕ} (hplace : ¬ w ∣ r + 1) (hroom : q + ro ≤ cap)
      (h : Runs w c ho ro cap ok r (q + ro)) : Runs w c ho ro cap ok (r + 1) q
  | header {r q : ℕ} (hplace : w ∣ r + (c + 1)) (hok : ok (r + (c + 1))) (hroom : q + ho + ro ≤ cap)
      (h : Runs w c ho ro cap ok r (q + ho + ro)) : Runs w c ho ro cap ok (r + (c + 1)) q

/-- What is put out for some rounds and then blocks. -/
def output (w c ho ro lead k : ℕ) : ℕ := lead * ro + k * (ho + (block w c - c) * ro)

/-- There are `lead` rounds, which are less than a unit, and then `k` blocks with good headers. -/
structure Lines (w c : ℕ) (ok : ℕ → Prop) (r lead k : ℕ) : Prop where
  lead_lt : lead < w
  eq : r = lead + k * block w c
  headers : ∀ j < k, ok ((j + 1) * block w c)

theorem output_succ (lead k : ℕ) : output w c ho ro (lead + 1) k = ro + output w c ho ro lead k := by
  unfold output
  ring

theorem output_block (hlead : lead + (c + 1) = block w c) (k : ℕ) :
    output w c ho ro 0 (k + 1) = ho + ro + output w c ho ro lead k := by
  have hrounds : block w c - c = lead + 1 := by omega
  unfold output
  rw [hrounds]
  ring

theorem Lines.output_of_zero (h : Lines w c ok r lead k) (hw : 0 < w) (ho ro : ℕ) (hr : r = 0) :
    output w c ho ro lead k = 0 := by
  obtain ⟨-, heq, -⟩ := h
  have hnone : lead = 0 ∧ k * block w c = 0 := by omega
  have hk : k = 0 :=
    (Nat.mul_eq_zero.mp hnone.2).resolve_right (Nat.zero_lt_of_lt (lt_block hw)).ne'
  rw [hnone.1, hk, output, Nat.zero_mul, Nat.zero_mul]

theorem Runs.lines (hw : 0 < w) (h : Runs w c ho ro cap ok r q) :
    ∃ lead k, Lines w c ok r lead k ∧ (r = 0 ∨ q + output w c ho ro lead k ≤ cap) := by
  induction h with
  | stop q => exact ⟨0, 0, ⟨hw, by rw [Nat.zero_mul], fun j hj => absurd hj (Nat.not_lt_zero j)⟩, .inl rfl⟩
  | @plain r q hplace hroom h ih =>
    obtain ⟨lead, k, hlines, hout⟩ := ih
    have hnone := hlines.output_of_zero hw ho ro
    obtain ⟨hlead, heq, hheaders⟩ := hlines
    have hdvd : w ∣ k * block w c := (dvd_block w c).mul_left k
    have hlt : lead + 1 < w := by
      refine lt_of_le_of_ne hlead fun hw => hplace ?_
      rw [heq, Nat.add_right_comm, hw]
      exact Nat.dvd_add (Nat.dvd_refl w) hdvd
    refine ⟨lead + 1, k, ⟨hlt, by rw [heq, Nat.add_right_comm], hheaders⟩, .inr ?_⟩
    rw [output_succ]
    rcases hout with hzero | hle
    · rw [hnone hzero]
      exact hroom
    · omega
  | @header r q hplace hok hroom h ih =>
    obtain ⟨lead, k, hlines, hout⟩ := ih
    have hnone := hlines.output_of_zero hw ho ro
    obtain ⟨hlead, heq, hheaders⟩ := hlines
    have hdvd : w ∣ k * block w c := (dvd_block w c).mul_left k
    have hblock : lead + (c + 1) = block w c := by
      refine eq_block hlead ?_
      rw [heq, Nat.add_right_comm] at hplace
      exact (Nat.dvd_add_left hdvd).mp hplace
    have hr : r + (c + 1) = (k + 1) * block w c := by
      rw [heq, Nat.succ_mul]
      omega
    refine ⟨0, k + 1, ⟨hw, by rw [hr, Nat.zero_add], fun j hj => ?_⟩, .inr ?_⟩
    · rcases Nat.lt_succ_iff_lt_or_eq.mp hj with hlt | rfl
      · exact hheaders j hlt
      · rwa [← hr]
    · rw [output_block hblock]
      rcases hout with hzero | hle
      · rw [hnone hzero]
        omega
      · omega

theorem Lines.runs (h : Lines w c ok r lead k) (hout : r = 0 ∨ q + output w c ho ro lead k ≤ cap) :
    Runs w c ho ro cap ok r q := by
  induction r using Nat.strong_induction_on generalizing lead k q with
  | _ r ih =>
  obtain ⟨hlead, heq, hheaders⟩ := h
  have hdvd : w ∣ k * block w c := (dvd_block w c).mul_left k
  cases lead with
  | succ lead =>
    have hr : r = lead + k * block w c + 1 := by omega
    subst hr
    have hle := hout.resolve_left (Nat.succ_ne_zero _)
    rw [output_succ] at hle
    refine .plain (fun hplace => ?_) (by omega) (ih _ (Nat.lt_succ_self _) ⟨by omega, rfl, hheaders⟩
      (.inr (by omega)))
    rw [Nat.add_right_comm] at hplace
    exact absurd (Nat.le_of_dvd (Nat.succ_pos lead) ((Nat.dvd_add_left hdvd).mp hplace))
      (Nat.not_le.mpr hlead)
  | zero =>
    cases k with
    | zero =>
      rw [Nat.zero_mul] at heq
      subst heq
      exact .stop q
    | succ k =>
      have hlt : c < block w c := lt_block hlead
      have hle' := block_le w c
      have hblock : block w c - (c + 1) + (c + 1) = block w c := Nat.sub_add_cancel hlt
      have hr : r = block w c - (c + 1) + k * block w c + (c + 1) := by
        rw [Nat.succ_mul] at heq
        omega
      have hall : r = (k + 1) * block w c := by rw [heq, Nat.zero_add]
      subst hr
      have hle := hout.resolve_left (Nat.succ_ne_zero _)
      rw [output_block hblock] at hle
      refine .header ?_ ?_ (by omega) (ih _ (by omega) ⟨by omega, rfl, fun j hj => hheaders j (by omega)⟩
        (.inr (by omega)))
      · rw [hall]
        exact (dvd_block w c).mul_left (k + 1)
      · rw [hall]
        exact hheaders k (Nat.lt_succ_self k)

end Runs

/-! ### Loops -/

/-- What a loop takes and puts out: `round` bytes are taken for a round, and a header of `header` rounds
comes first where a multiple of `align` bytes is left. -/
structure Layout where
  align : ℕ
  round : ℕ
  header : ℕ
  headerOut : ℕ
  roundOut : ℕ
  round_pos : 0 < round

namespace Layout

def blockSize (L : Layout) : ℕ := block (unit L.align L.round) L.header * L.round

/-- The bytes that are taken when `n` are left. -/
def taken (L : Layout) (n : ℕ) : ℕ := if L.align ∣ n then (L.header + 1) * L.round else L.round

/-- The bytes that are put out when `n` are left. -/
def put (L : Layout) (n : ℕ) : ℕ := if L.align ∣ n then L.headerOut + L.roundOut else L.roundOut

/-- What the round needs that begins when `n` bytes are left and `q` have been put out. -/
structure RoundOk (L : Layout) (cap : ℕ) (ok : ℕ → Prop) (n q : ℕ) : Prop where
  align_ne : L.align ≠ 0
  taken_le : L.taken n ≤ n
  put_le : q + L.put n ≤ cap
  ok : L.align ∣ n → ok n

/-- There are `lead` rounds and then `k` blocks, and what they put out has room. -/
structure Fits (L : Layout) (cap : ℕ) (ok : ℕ → Prop) (n q lead k : ℕ) : Prop where
  align_ne : L.align ≠ 0
  lead_lt : lead < unit L.align L.round
  eq : n = lead * L.round + k * L.blockSize
  headers : ∀ j < k, ok ((j + 1) * L.blockSize)
  room : q + output (unit L.align L.round) L.header L.headerOut L.roundOut lead k ≤ cap

end Layout

variable {L : Layout} {cap n q lead k r : ℕ} {ok : ℕ → Prop}

section Spec

variable {α σ ρ : Type} {P : α → Prop} {step : σ → Traced α (σ ⊕ ρ)} {left out : σ → ℕ}
  {I V : σ → Prop} {s : σ}

/-- One round more in front of a loop that comes to its end. -/
theorem Layout.RoundOk.runs {m q' : ℕ} (h : L.RoundOk cap ok n q) (hm : n = m + L.taken n)
    (hq' : q' = q + L.put n) (hr : m = r * L.round)
    (hruns : Runs (unit L.align L.round) L.header L.headerOut L.roundOut cap (fun r =>
      ok (r * L.round)) r q') :
    ∃ r', n = r' * L.round ∧
      Runs (unit L.align L.round) L.header L.headerOut L.roundOut cap (fun r => ok (r * L.round)) r' q := by
  obtain ⟨-, -, hput, hok⟩ := h
  unfold Layout.taken at hm
  unfold Layout.put at hput hq'
  split_ifs at hm hput hq' with hdvd
  · have hn : n = (r + (L.header + 1)) * L.round := by rw [Nat.add_mul, ← hr]; exact hm
    rw [← Nat.add_assoc] at hput hq'
    rw [hq'] at hruns
    refine ⟨r + (L.header + 1), hn, .header ?_ ?_ hput hruns⟩
    · rw [unit_dvd_iff L.round_pos, ← hn]
      exact hdvd
    · show ok _
      rw [← hn]
      exact hok hdvd
  · have hn : n = (r + 1) * L.round := by rw [Nat.succ_mul, ← hr]; exact hm
    rw [hq'] at hruns
    refine ⟨r + 1, hn, .plain ?_ hput hruns⟩
    rw [unit_dvd_iff L.round_pos, ← hn]
    exact hdvd

end Spec

end Blocks
