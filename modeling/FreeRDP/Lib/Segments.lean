import Mathlib.Data.List.Basic

/-!
# Streams that arrive in segments

A stream is delivered as a list of segments, where an empty one is a pause.  `ready` is what arrives before
the first pause, and `later` the segments behind it.  `Advanced m segs segs'` says that the first `m` ready
elements have been taken.
-/

namespace Segments

variable {α : Type*} {segs segs' : List (List α)} {seg : List α} {m n : ℕ}

/-- What arrives before the first pause. -/
def ready : List (List α) → List α
  | [] => []
  | [] :: _ => []
  | (a :: seg) :: segs => (a :: seg) ++ ready segs

/-- The segments behind the first pause. -/
def later : List (List α) → List (List α)
  | [] => []
  | [] :: segs => segs
  | (_ :: _) :: segs => later segs

def pauses : List (List α) → ℕ
  | [] => 0
  | [] :: segs => pauses segs + 1
  | (_ :: _) :: segs => pauses segs

theorem ready_cons (h : seg ≠ []) : ready (seg :: segs) = seg ++ ready segs := by
  cases seg with
  | nil => exact absurd rfl h
  | cons a seg => rfl

theorem later_cons (h : seg ≠ []) : later (seg :: segs) = later segs := by
  cases seg with
  | nil => exact absurd rfl h
  | cons a seg => rfl

theorem pauses_cons (h : seg ≠ []) : pauses (seg :: segs) = pauses segs := by
  cases seg with
  | nil => exact absurd rfl h
  | cons a seg => rfl

/-- The stream is what is ready and what comes later. -/
theorem ready_append_later (segs : List (List α)) : ready segs ++ (later segs).flatten = segs.flatten := by
  induction segs with
  | nil => rfl
  | cons seg segs ih =>
    cases seg with
    | nil => rfl
    | cons a seg => rw [ready, later, List.append_assoc, ih, List.flatten_cons]

/-- Without a pause, the whole stream is ready. -/
theorem later_of_pauses_eq_zero (h : pauses segs = 0) : later segs = [] := by
  induction segs with
  | nil => rfl
  | cons seg segs ih =>
    cases seg with
    | nil => exact absurd h (Nat.succ_ne_zero _)
    | cons a seg => exact ih h

theorem pauses_later (segs : List (List α)) : pauses (later segs) = pauses segs - 1 := by
  induction segs with
  | nil => rfl
  | cons seg segs ih =>
    cases seg with
    | nil => rfl
    | cons a seg => exact ih

/-- The first `m` ready elements have been taken. -/
structure Advanced (m : ℕ) (segs segs' : List (List α)) : Prop where
  ready : ready segs' = (ready segs).drop m
  later : later segs' = later segs
  pauses : pauses segs' = pauses segs

theorem Advanced.refl (segs : List (List α)) : Advanced 0 segs segs := ⟨rfl, rfl, rfl⟩

theorem Advanced.trans {segs'' : List (List α)} (h : Advanced m segs segs')
    (h' : Advanced n segs' segs'') : Advanced (m + n) segs segs'' where
  ready := by rw [h'.ready, h.ready, List.drop_drop]
  later := h'.later.trans h.later
  pauses := h'.pauses.trans h.pauses

theorem Advanced.cons (hseg : seg ≠ []) (h : Advanced m segs segs') :
    Advanced (seg.length + m) (seg :: segs) segs' where
  ready := by
    have hnil : seg.drop (seg.length + m) = [] := List.drop_eq_nil_of_le (by omega)
    rw [h.ready, ready_cons hseg, List.drop_append, hnil, List.nil_append, Nat.add_sub_cancel_left]
  later := by rw [h.later, later_cons hseg]
  pauses := by rw [h.pauses, pauses_cons hseg]

theorem Advanced.drop (h : m < seg.length) : Advanced m (seg :: segs) (seg.drop m :: segs) := by
  have hseg : seg ≠ [] := List.ne_nil_of_length_pos (by omega)
  have hdrop : seg.drop m ≠ [] := List.ne_nil_of_length_pos (by rw [List.length_drop]; omega)
  refine ⟨?_, ?_, ?_⟩
  · rw [ready_cons hseg, ready_cons hdrop, List.drop_append_of_le_length (by omega)]
  · rw [later_cons hseg, later_cons hdrop]
  · rw [pauses_cons hseg, pauses_cons hdrop]

theorem Advanced.length_ready (h : Advanced m segs segs') :
    (Segments.ready segs').length = (Segments.ready segs).length - m := by
  rw [h.ready, List.length_drop]

/-- The stream that is left. -/
theorem Advanced.flatten (h : Advanced m segs segs') (hm : m ≤ (Segments.ready segs).length) :
    segs'.flatten = segs.flatten.drop m := by
  rw [← ready_append_later segs, ← ready_append_later segs', h.ready, h.later,
    List.drop_append_of_le_length hm]

end Segments
