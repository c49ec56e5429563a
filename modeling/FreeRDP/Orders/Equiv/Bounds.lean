import FreeRDP.Orders.Equiv.Header

/-!
# Bounds over a run

The server leaves out the bounds that have not changed between the last two calls of
`update_set_bounds`; the client takes those of the last order with bounds for them.  `clips_iff` says
when these are the same.
-/

namespace FreeRDP.Orders

open Wire

inductive BoundsEvent
  /-- `update_set_bounds` -/
  | setBounds (bounds : Option Bounds)
  /-- a primary order is sent -/
  | send (type : SendType) (s : OrderStruct)

/-- The bounds and the orders are well formed, and the client takes the orders. -/
def BoundsEvent.WellFormed (settings : PrimarySettings) : BoundsEvent → Prop
  | setBounds bounds => ∀ b ∈ bounds, b.IsInt16
  | send type s => type.Fits s ∧ checkPrimaryOrderSupported settings type.orderType.number = true

/-- The orders that the server sends, and its `currentBounds` at each of them. -/
def serverRun : ServerBounds → List BoundsEvent → List UInt8 × List Bounds
  | _, [] => ([], [])
  | update, .setBounds bounds :: events => serverRun (updateSetBounds update bounds) events
  | update, .send type s :: events =>
    let (bs, bounds) := serverRun update events
    (updateSendPrimary update type s [] ++ bs, update.currentBounds :: bounds)

/-- A client reads `n` orders, and draws each of them with the bounds in the list. -/
def clientRun (settings : PrimarySettings) (other : ℕ → Reader (PrimaryClient × Option Bounds)) :
    ℕ → PrimaryClient → Reader (List (Option Bounds))
  | 0, _ => return []
  | n + 1, client => do
    let (client, drawn) ← updateRecvOrder settings client other
    let rest ← clientRun settings other n client
    return drawn :: rest

/-- The bounds with which an order is to be drawn. -/
def Bounds.meant (bounds : Bounds) : Option Bounds := if bounds = Bounds.zero then none else some bounds

/-- Bounds that are left out are those of the last order with bounds. -/
structure ServerBounds.UpToDate (update : ServerBounds) (last : Bounds) : Prop where
  left : update.previousBounds.left = update.currentBounds.left → last.left = update.currentBounds.left
  top : update.previousBounds.top = update.currentBounds.top → last.top = update.currentBounds.top
  right : update.previousBounds.right = update.currentBounds.right → last.right = update.currentBounds.right
  bottom : update.previousBounds.bottom = update.currentBounds.bottom →
    last.bottom = update.currentBounds.bottom

/-- At each order with bounds, those that are left out are those of the order with bounds before, `last`
at first. -/
def UpToDateRun : Bounds → ServerBounds → List BoundsEvent → Prop
  | _, _, [] => True
  | last, update, .setBounds bounds :: events => UpToDateRun last (updateSetBounds update bounds) events
  | last, update, .send _ _ :: events =>
    if update.currentBounds = Bounds.zero then UpToDateRun last update events
    else update.UpToDate last ∧ UpToDateRun update.currentBounds update events

/-- The bounds with which a client draws the orders, with `old` before. -/
def drawnRun : Bounds → ServerBounds → List BoundsEvent → List (Option Bounds)
  | _, _, [] => []
  | old, update, .setBounds bounds :: events => drawnRun old (updateSetBounds update bounds) events
  | old, update, .send _ _ :: events => update.drawn old :: drawnRun (update.patch old) update events

variable {settings : PrimarySettings} {events : List BoundsEvent} {update : ServerBounds}
  {client : PrimaryClient}
  {last : Bounds}

/-- A client draws with what it has kept and patched. -/
theorem reads_clientRun (other : ℕ → Reader (PrimaryClient × Option Bounds))
    (h : ∀ event ∈ events, event.WellFormed settings) (hbounds : update.currentBounds.IsInt16) :
    Reads (clientRun settings other (serverRun update events).2.length client) (serverRun update events).1
      (drawnRun client.bounds update events) := by
  induction events generalizing update client with
  | nil => exact Reads.pure []
  | cons event events ih =>
    have htail : ∀ event ∈ events, event.WellFormed settings := fun e he => h e (List.mem_cons_of_mem _ he)
    have hhead := h event List.mem_cons_self
    cases event with
    | setBounds bounds =>
      refine ih htail ?_
      cases bounds with
      | none => exact Bounds.isInt16_zero
      | some b => exact hhead b rfl
    | send type s =>
      obtain ⟨t, -, hread⟩ := @reads_updateSendPrimary _ _ _ client _ other hhead.2 hhead.1 hbounds
      exact hread.bind ((ih htail hbounds).map rfl)

theorem patch_eq_iff (hne : update.currentBounds ≠ Bounds.zero) :
    update.patch last = update.currentBounds ↔ update.UpToDate last := by
  have hcoord (p c l : ℤ) : (if p ≠ c then c else l) = c ↔ (p = c → l = c) := by
    split_ifs with h
    · exact iff_of_true rfl fun heq => absurd heq h
    · exact ⟨fun hl _ => hl, fun hl => hl (not_not.mp h)⟩
  rw [ServerBounds.patch, if_neg hne, Bounds.ext_iff]
  simp only [hcoord]
  exact ⟨fun h => ⟨h.1, h.2.1, h.2.2.1, h.2.2.2⟩, fun h => ⟨h.left, h.top, h.right, h.bottom⟩⟩

/-- All orders are drawn with the bounds that are meant just if the run is up to date. -/
theorem drawnRun_eq_iff : drawnRun last update events = (serverRun update events).2.map Bounds.meant ↔
    UpToDateRun last update events := by
  induction events generalizing last update with
  | nil => exact iff_of_true rfl trivial
  | cons event events ih =>
    cases event with
    | setBounds bounds => exact ih
    | send type s =>
      have hcons : drawnRun last update (.send type s :: events) =
          (serverRun update (.send type s :: events)).2.map Bounds.meant ↔
          update.drawn last = update.currentBounds.meant ∧
            drawnRun (update.patch last) update events = (serverRun update events).2.map Bounds.meant :=
        List.cons_eq_cons
      rw [hcons, ih, UpToDateRun]
      by_cases hzero : update.currentBounds = Bounds.zero
      · have hpatch : update.patch last = last := if_pos hzero
        rw [if_pos hzero, hpatch, ServerBounds.drawn, Bounds.meant, if_pos hzero, if_pos hzero]
        exact and_iff_right rfl
      · rw [if_neg hzero, ServerBounds.drawn, Bounds.meant, if_neg hzero, if_neg hzero, Option.some_inj,
          patch_eq_iff hzero]
        refine and_congr_right fun hdate => ?_
        rw [(patch_eq_iff hzero).mpr hdate]

/-- The condition under which each order of a run is drawn with the bounds that the server means. -/
theorem clips_iff (other : ℕ → Reader (PrimaryClient × Option Bounds))
    (h : ∀ event ∈ events, event.WellFormed settings) (rest : List UInt8) :
    clientRun settings other (serverRun ⟨Bounds.zero, Bounds.zero⟩ events).2.length .reset
        ((serverRun ⟨Bounds.zero, Bounds.zero⟩ events).1 ++ rest) =
      some ((serverRun ⟨Bounds.zero, Bounds.zero⟩ events).2.map Bounds.meant, rest) ↔
    UpToDateRun Bounds.zero ⟨Bounds.zero, Bounds.zero⟩ events := by
  rw [reads_clientRun other h Bounds.isInt16_zero rest, Option.some_inj, Prod.mk.injEq, and_iff_left rfl]
  exact drawnRun_eq_iff

/-- Bounds for each of two orders, which share a side. -/
theorem clips_same_left :
    clientRun .all (fun _ => none) 2 .reset
        ((serverRun ⟨Bounds.zero, Bounds.zero⟩ [.setBounds (some ⟨1, 2, 3, 4⟩), .send .dstblt 0,
          .setBounds (some ⟨1, 5, 6, 7⟩), .send .dstblt 0]).1 ++ [9]) =
      some ([some ⟨1, 2, 3, 4⟩, some ⟨1, 5, 6, 7⟩], [9]) := by
  have hfits : SendType.dstblt.Fits 0 := by
    simp only [SendType.Fits, SendType.encoder, updateWriteDstbltOrder, List.forall_mem_cons,
      WriteStep.Fits]
    exact ⟨by decide, by decide, by decide, by decide, by decide, by simp⟩
  have hsend : (BoundsEvent.send .dstblt 0).WellFormed .all := ⟨hfits, rfl⟩
  have hset (b : Bounds) (hb : b.IsInt16) : (BoundsEvent.setBounds (some b)).WellFormed .all :=
    fun b' hb' => Option.mem_some_iff.mp hb' ▸ hb
  have hfirst : Bounds.IsInt16 ⟨1, 2, 3, 4⟩ := ⟨by decide, by decide, by decide, by decide⟩
  have hsecond : Bounds.IsInt16 ⟨1, 5, 6, 7⟩ := ⟨by decide, by decide, by decide, by decide⟩
  refine (@clips_iff .all [.setBounds (some ⟨1, 2, 3, 4⟩), .send .dstblt 0, .setBounds (some ⟨1, 5, 6, 7⟩),
    .send .dstblt 0] (fun _ => none) ?_ [9]).mpr ?_
  · simp only [List.forall_mem_cons]
    exact ⟨hset _ hfirst, hsend, hset _ hsecond, hsend, by simp⟩
  · exact ⟨⟨by decide, by decide, by decide, by decide⟩,
      ⟨by decide, by decide, by decide, by decide⟩, trivial⟩

/-- Bounds that are set twice are not sent. -/
theorem not_clips_twice :
    clientRun .all (fun _ => none) 1 .reset
        (serverRun ⟨Bounds.zero, Bounds.zero⟩ [.setBounds (some ⟨1, 2, 3, 4⟩),
          .setBounds (some ⟨1, 2, 3, 4⟩), .send .dstblt 0]).1 = some ([some Bounds.zero], []) ∧
      (serverRun ⟨Bounds.zero, Bounds.zero⟩ [.setBounds (some ⟨1, 2, 3, 4⟩), .setBounds (some ⟨1, 2, 3, 4⟩),
          .send .dstblt 0]).2 = [⟨1, 2, 3, 4⟩] := by
  decide

end FreeRDP.Orders
