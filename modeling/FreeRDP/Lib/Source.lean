import Mathlib.Data.List.Infix

/-!
# Sources that are read in pieces

A source has a state, and `read n` takes up to `n` elements out of it.  `out` says which elements a result
stands for: a source that has nothing ready returns a result without elements.

`Delivers C read out Fine I fuel`: in a state with `I s todo`, the source is going to deliver `todo`.  This
is kept by reads that meet the condition `C`, of which each has a result with `Fine`, and `fuel` counts the
reads after which everything is delivered.

`Delivers.reads`: whatever the sizes are, the results are the beginning of `todo`, and all of it in the end.
-/

namespace Source

variable {σ ρ α : Type*} {C : ℕ → σ → Prop} {read : ℕ → σ → ρ × σ} {out : ρ → List α} {Fine : ρ → Prop}
  {I : σ → List α → Prop} {fuel : σ → ℕ} {s : σ} {todo : List α} {sizes : List ℕ}

/-- The results of reads, one after the other. -/
def reads (read : ℕ → σ → ρ × σ) : List ℕ → σ → List ρ × σ
  | [], s => ([], s)
  | n :: sizes, s => ((read n s).1 :: (reads read sizes (read n s).2).1, (reads read sizes (read n s).2).2)

/-- A state with `I s todo` is going to deliver `todo`. -/
structure Delivers (C : ℕ → σ → Prop) (read : ℕ → σ → ρ × σ) (out : ρ → List α) (Fine : ρ → Prop)
    (I : σ → List α → Prop) (fuel : σ → ℕ) : Prop where
  fine {s : σ} {todo : List α} {n : ℕ} : I s todo → C n s → Fine (read n s).1
  length_le {s : σ} {todo : List α} {n : ℕ} : I s todo → C n s → (out (read n s).1).length ≤ n
  step {s : σ} {todo : List α} {n : ℕ} : I s todo → C n s →
    ∃ todo', todo = out (read n s).1 ++ todo' ∧ I (read n s).2 todo'
  fuel_le {s : σ} {todo : List α} {n : ℕ} : I s todo → C n s → fuel (read n s).2 ≤ fuel s - 1
  done {s : σ} {todo : List α} : I s todo → fuel s = 0 → todo = []

/-- The condition is met by all reads. -/
def AllMeet (C : ℕ → σ → Prop) (read : ℕ → σ → ρ × σ) : List ℕ → σ → Prop
  | [], _ => True
  | n :: sizes, s => C n s ∧ AllMeet C read sizes (read n s).2

/-- All results are fine, what is delivered is taken off, and there is nothing else to deliver after as many
reads as there is fuel. -/
theorem Delivers.reads (h : Delivers C read out Fine I fuel) (hs : I s todo)
    (hsizes : AllMeet C read sizes s) :
    (∀ r ∈ (Source.reads read sizes s).1, Fine r) ∧
      ∃ todo', todo = (Source.reads read sizes s).1.flatMap out ++ todo' ∧
        I (Source.reads read sizes s).2 todo' ∧ (fuel s ≤ sizes.length → todo' = []) := by
  induction sizes generalizing s todo with
  | nil => exact ⟨nofun, todo, rfl, hs, fun hfuel => h.done hs (Nat.le_zero.mp hfuel)⟩
  | cons n sizes ih =>
    obtain ⟨hn, hrest⟩ := hsizes
    obtain ⟨todo', rfl, hs'⟩ := h.step hs hn
    have hfuel := h.fuel_le hs hn
    obtain ⟨hfine, todo'', rfl, hs'', hall⟩ := ih hs' hrest
    refine ⟨List.forall_mem_cons.mpr ⟨h.fine hs hn, hfine⟩, todo'', ?_, hs'', fun hle => ?_⟩
    · exact (List.append_assoc _ _ _).symm
    · rw [List.length_cons] at hle
      exact hall (by omega)

theorem Delivers.fuel_reads (h : Delivers C read out Fine I fuel) (hs : I s todo)
    (hsizes : AllMeet C read sizes s) :
    fuel (Source.reads read sizes s).2 ≤ fuel s - sizes.length := by
  induction sizes generalizing s todo with
  | nil => exact Nat.le_refl _
  | cons n sizes ih =>
    obtain ⟨hn, hrest⟩ := hsizes
    obtain ⟨todo', -, hs'⟩ := h.step hs hn
    have hfuel := h.fuel_le hs hn
    have hrec := ih hs' hrest
    rw [Source.reads, List.length_cons]
    dsimp only
    omega

/-- A condition on the sizes only. -/
theorem allMeet_of_forall {P : ℕ → Prop} (hsizes : ∀ n ∈ sizes, P n) :
    AllMeet (fun n (_ : σ) => P n) read sizes s := by
  induction sizes generalizing s with
  | nil => trivial
  | cons n sizes ih =>
    exact ⟨hsizes n List.mem_cons_self, ih fun m hm => hsizes m (List.mem_cons_of_mem _ hm)⟩

end Source
