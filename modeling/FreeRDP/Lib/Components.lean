import Mathlib.Data.List.Basic

/-!
# Systems of independent components

A system has a component under each key.  An input is for one component and changes it as that component
alone would (`alone`), the others not at all; what it puts out goes to a common log under its key.

However the inputs of the components are interleaved, each component ends, and puts out, what it would
have done alone (`run_interleaved`).
-/

namespace Components

variable {κ σ τ α β : Type*} [DecidableEq κ] {k j : κ} {s : σ} {t t' : τ} {a : α} {as as' : List α}
  {bs bs' : List β}

/-- The entries of a log under a key. -/
def under (k : κ) (log : List (κ × β)) : List β := (log.filter fun x => x.1 = k).map Prod.snd

@[simp] theorem under_nil (k : κ) : under k ([] : List (κ × β)) = [] := rfl

theorem under_append (k : κ) (log log' : List (κ × β)) :
    under k (log ++ log') = under k log ++ under k log' := by
  rw [under, List.filter_append, List.map_append]
  rfl

theorem under_cons_self (k : κ) (b : β) (log : List (κ × β)) :
    under k ((k, b) :: log) = b :: under k log := by
  simp [under]

theorem under_cons_of_ne (h : j ≠ k) (b : β) (log : List (κ × β)) :
    under k ((j, b) :: log) = under k log := by
  simp [under, h]

theorem under_map_self (k : κ) (bs : List β) : under k (bs.map fun b => (k, b)) = bs := by
  induction bs with
  | nil => rfl
  | cons b bs ih => rw [List.map_cons, under_cons_self, ih]

theorem under_map_of_ne (h : j ≠ k) (bs : List β) : under k (bs.map fun b => (j, b)) = [] := by
  induction bs with
  | nil => rfl
  | cons b bs ih => rw [List.map_cons, under_cons_of_ne h, ih]

/-- A log of images is the image of a log. -/
theorem exists_log {g : κ → α → β} {log : List (κ × β)} {entries : κ → List α}
    (h : ∀ k, under k log = (entries k).map (g k)) :
    ∃ log' : List (κ × α), log = log'.map (fun x => (x.1, g x.1 x.2)) ∧
      ∀ k, under k log' = entries k := by
  induction log generalizing entries with
  | nil =>
    refine ⟨[], rfl, fun k => ?_⟩
    have hk := (h k).symm
    rw [under_nil, List.map_eq_nil_iff] at hk
    rw [under_nil, hk]
  | cons x log ih =>
    obtain ⟨k, b⟩ := x
    have hk := h k
    rw [under_cons_self] at hk
    obtain ⟨a, as, hentries, rfl, has⟩ := List.map_eq_cons_iff.1 hk.symm
    have hrest : ∀ j, under j log = ((if j = k then as else entries j)).map (g j) := by
      intro j
      by_cases hj : j = k
      · subst hj
        rw [if_pos rfl, has]
      · rw [if_neg hj, ← h j, under_cons_of_ne (Ne.symm hj)]
    obtain ⟨log', rfl, hlog'⟩ := ih hrest
    refine ⟨(k, a) :: log', rfl, fun j => ?_⟩
    by_cases hj : j = k
    · subst hj
      rw [under_cons_self, hlog', if_pos rfl, hentries]
    · rw [under_cons_of_ne (Ne.symm hj), hlog', if_neg hj]

/-- A component on inputs of its own: what it becomes and what it puts out. -/
def alone (f : τ → α → Option (τ × List β)) : List α → τ → Option (τ × List β)
  | [], t => some (t, [])
  | a :: as, t => (f t a).bind fun r => (alone f as r.1).map fun r' => (r'.1, r.2 ++ r'.2)

theorem alone_append {f : τ → α → Option (τ × List β)} (h : alone f as t = some (t', bs))
    (as' : List α) : alone f (as ++ as') t = (alone f as' t').map fun r => (r.1, bs ++ r.2) := by
  induction as generalizing t bs with
  | nil =>
    cases h
    rw [List.nil_append]
    cases alone f as' t' <;> rfl
  | cons a as ih =>
    rw [alone, Option.bind_eq_some_iff] at h
    obtain ⟨r, hr, h⟩ := h
    rw [Option.map_eq_some_iff] at h
    obtain ⟨r', hr', heq⟩ := h
    cases heq
    rw [List.cons_append, alone, hr, Option.bind_some, ih hr']
    cases alone f as' r'.1 with
    | none => rfl
    | some r'' => simp

/-- Messages that leave a component as it was, and come out of it, do so in a row. -/
theorem alone_flatMap {f : τ → α → Option (τ × List β)} {encode : β → List α} {messages : List β}
    (h : ∀ b ∈ messages, alone f (encode b) t = some (t, [b])) :
    alone f (messages.flatMap encode) t = some (t, messages) := by
  induction messages with
  | nil => rfl
  | cons b messages ih =>
    rw [List.flatMap_cons, alone_append (h b List.mem_cons_self),
      ih fun b' hb' => h b' (List.mem_cons_of_mem _ hb')]
    rfl

/-- Any interleaving of the inputs: if each component can take its own, the system can take them all, and
each component ends and puts out what it would have done alone. -/
theorem run_interleaved {step : σ → κ × α → Option σ} {view : κ → σ → τ} {out : σ → List (κ × β)}
    {f : κ → τ → α → Option (τ × List β)}
    (hstep : ∀ {s k a t bs}, f k (view k s) a = some (t, bs) → ∃ s', step s (k, a) = some s' ∧
      view k s' = t ∧ (∀ j, j ≠ k → view j s' = view j s) ∧
      out s' = out s ++ bs.map fun b => (k, b))
    {trace : List (κ × α)} {final : κ → τ} {puts : κ → List β}
    (h : ∀ k, alone (f k) (under k trace) (view k s) = some (final k, puts k)) :
    ∃ s', trace.foldlM step s = some s' ∧ ∀ k, view k s' = final k ∧
      under k (out s') = under k (out s) ++ puts k := by
  induction trace generalizing s puts with
  | nil =>
    refine ⟨s, rfl, fun k => ?_⟩
    have hk := h k
    rw [under_nil, alone, Option.some_inj, Prod.mk.injEq] at hk
    exact ⟨hk.1, by rw [← hk.2, List.append_nil]⟩
  | cons x trace ih =>
    obtain ⟨k, a⟩ := x
    have hk := h k
    rw [under_cons_self, alone, Option.bind_eq_some_iff] at hk
    obtain ⟨⟨t, bs⟩, ha, hrest⟩ := hk
    rw [Option.map_eq_some_iff] at hrest
    obtain ⟨⟨t', bs'⟩, hrest, heq⟩ := hrest
    rw [Prod.mk.injEq] at heq
    obtain ⟨ht', hbs⟩ := heq
    obtain ⟨s₁, hs₁, hview, hothers, hout⟩ := hstep ha
    -- what is left for each component
    have hleft : ∀ j, alone (f j) (under j trace) (view j s₁) =
        some (final j, if j = k then bs' else puts j) := by
      intro j
      by_cases hj : j = k
      · subst hj
        rw [hview, hrest, if_pos rfl]
        exact congrArg (fun t => some (t, bs')) ht'
      · have hj' := h j
        rw [under_cons_of_ne (Ne.symm hj)] at hj'
        rw [hothers j hj, hj', if_neg hj]
    obtain ⟨s', hs', hall⟩ := ih hleft
    refine ⟨s', ?_, fun j => ⟨(hall j).1, ?_⟩⟩
    · rw [List.foldlM_cons, hs₁]
      exact hs'
    · rw [(hall j).2, hout, under_append]
      by_cases hj : j = k
      · subst hj
        rw [if_pos rfl, under_map_self, List.append_assoc]
        exact congrArg _ hbs
      · rw [if_neg hj, under_map_of_ne (Ne.symm hj), List.append_nil]

end Components
