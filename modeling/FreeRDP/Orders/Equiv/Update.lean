import FreeRDP.Orders.Senders

/-!
# Sends

A sender that returns `TRUE` has put its whole order behind what `update_check_flush` has left in the
stream (`Sender.send_appends`), and there is a state in which it does (`Sender.exists_send`).
-/

namespace FreeRDP.Orders

open Wire

variable {memory : Memory} {update : RdpUpdate} {sender : Sender} {s t : UpdateStream}
  {steps : List WriterStep}

/-! ### Whole orders -/

/-- What steps write if none of them fails. -/
def writtenBy : List WriterStep → Option (List UInt8)
  | [] => some []
  | .ensure _ :: steps => writtenBy steps
  | .write bs :: steps => do
    let bs ← bs
    let rest ← writtenBy steps
    return bs ++ rest

/-- The order that a sender puts into the stream if nothing fails. -/
def Sender.order (sender : Sender) : Option (List UInt8) :=
  if sender.complete then
    (writtenBy sender.steps).map fun bs =>
      overwrite (sender.first ++ bs) 0 (sender.header true (sender.first.length + bs.length))
  else none

def UpdateOrder.bytes (noBitmapCompressionHeader : Bool) (bounds : ServerBounds) : UpdateOrder →
    Option (List UInt8)
  | primary type s => if (encode s type.encoder).ok then some (updateSendPrimary bounds type s []) else none
  | secondary order => order.send noBitmapCompressionHeader
  | createOffscreenBitmap order =>
      some (byte (ORDER_SECONDARY ||| ORDER_TYPE_CREATE_OFFSCREEN_BITMAP <<< 2) ++
      updateWriteCreateOffscreenBitmapOrder order)
  | switchSurface bitmapId => some (byte (ORDER_SECONDARY ||| ORDER_TYPE_SWITCH_SURFACE <<< 2) ++
      le16 bitmapId)
  | windowState orderInfo order => some (updateSendNewOrExistingWindow orderInfo order)
  | windowIcon orderInfo iconInfo => some (windowControlFlags ::
      (writeWindowHeader (updateCalculateWindowIconOrder iconInfo) orderInfo ++ writeIconInfo iconInfo))
  | windowCachedIcon orderInfo cachedIcon =>
    some (windowControlFlags :: (writeWindowHeader 14 orderInfo ++ writeCachedIconInfo cachedIcon))
  | windowDelete orderInfo => some (windowControlFlags :: writeWindowHeader 11 orderInfo)
  | notifyIconState orderInfo order => (writtenBy (order.steps orderInfo.fieldFlags)).map fun bs =>
      windowControlFlags :: (writeWindowHeader (updateCalculateNewOrExistingNotificationIconsOrder
        orderInfo order)
        orderInfo ++ le32 orderInfo.notifyIconId) ++ bs
  | notifyIconDelete orderInfo =>
    some (windowControlFlags :: (writeWindowHeader 15 orderInfo ++ le32 orderInfo.notifyIconId))
  | monitoredDesktop orderInfo order => some (windowControlFlags ::
      (le16 (updateCalculateMonitoredDesktop orderInfo order) ++ (le32 orderInfo.fieldFlags ++
        writeMonitoredDesktop orderInfo.fieldFlags order)))
  | nonMonitoredDesktop orderInfo => some (windowControlFlags :: (le16 7 ++ le32 orderInfo.fieldFlags))

/-! ### Overwriting -/

theorem overwrite_append (front bs header : List UInt8) :
    overwrite (front ++ bs) front.length header = front ++ overwrite bs 0 header := by
  simp [overwrite, List.drop_append]

/-! ### Steps -/

/-- The bytes stay the same when a stream is made larger. -/
theorem bytes_streamEnsureRemainingCapacity {size : ℕ}
    (h : streamEnsureRemainingCapacity memory s size = some t) : t.bytes = s.bytes := by
  unfold streamEnsureRemainingCapacity streamEnsureCapacity at h
  dsimp only at h
  split_ifs at h <;> rw [← Option.some.inj h]

theorem bytes_runWriter (h : (runWriter memory s steps).2 = true) :
    ∃ bs, writtenBy steps = some bs ∧ (runWriter memory s steps).1.bytes = s.bytes ++ bs := by
  induction steps generalizing s with
  | nil => exact ⟨[], rfl, (List.append_nil _).symm⟩
  | cons step steps ih =>
    rw [runWriter] at h ⊢
    cases hrun : step.run memory s with
    | none =>
      rw [hrun] at h
      exact absurd h Bool.false_ne_true
    | some t =>
      rw [hrun] at h
      obtain ⟨bs, hbs, hbytes⟩ := ih h
      cases step with
      | ensure size => exact ⟨bs, hbs, by rw [hbytes, bytes_streamEnsureRemainingCapacity hrun]⟩
      | write front =>
        obtain ⟨bs', hfront, rfl⟩ := Option.map_eq_some_iff.mp hrun
        refine ⟨bs' ++ bs, ?_, hbytes.trans (List.append_assoc ..)⟩
        rw [hfront, writtenBy, hbs]
        rfl

/-- With memory for every size, the steps fail only where one of them has nothing to write. -/
theorem runWriter_of_memory (hmemory : ∀ n, memory.realloc n = true) {bs : List UInt8}
    (h : writtenBy steps = some bs) : (runWriter memory s steps).2 = true := by
  induction steps generalizing s bs with
  | nil => rfl
  | cons step steps ih =>
    rw [runWriter]
    cases step with
    | ensure size =>
      have hrun : ∃ t, (WriterStep.ensure size).run memory s = some t := by
        unfold WriterStep.run streamEnsureRemainingCapacity streamEnsureCapacity
        dsimp only
        rw [if_pos (hmemory _)]
        split_ifs <;> exact ⟨_, rfl⟩
      obtain ⟨t, ht⟩ := hrun
      rw [ht]
      exact ih h
    | write front =>
      obtain ⟨bs', hfront, hrest⟩ := Option.bind_eq_some_iff.mp h
      obtain ⟨rest, hsteps, -⟩ := Option.bind_eq_some_iff.mp hrest
      rw [hfront]
      exact ih hsteps

/-! ### Senders -/

/-- The bytes of the whole order are behind what there has been after `update_check_flush`. -/
theorem Sender.send_appends (hchecked : sender.checked = true) (hcomplete : sender.complete = true)
    (hunopened : sender.unopened = false) (h : (sender.send memory update).result = true) :
    ∃ s t order, (updateCheckFlush memory update sender.size).us = some s ∧
      (sender.send memory update).update.us = some t ∧ sender.order = some order ∧
      t.bytes = s.bytes ++ order := by
  unfold Sender.send at h ⊢
  dsimp only at h ⊢
  cases hus : (updateCheckFlush memory update sender.size).us with
  | none =>
    rw [hus] at h
    exact absurd (hunopened.symm.trans h) Bool.false_ne_true
  | some s =>
    rw [hus] at h
    dsimp only at h ⊢
    cases hensure : sender.ensure memory s with
    | none =>
      rw [hensure] at h
      exact absurd h Bool.false_ne_true
    | some s' =>
      have hs' : s'.bytes = s.bytes := by
        unfold Sender.ensure at hensure
        cases hroom : sender.room with
        | none =>
          rw [hroom] at hensure
          rw [Option.some.inj hensure]
        | some size =>
          rw [hroom] at hensure
          exact bytes_streamEnsureRemainingCapacity hensure
      rw [hensure] at h
      dsimp only at h ⊢
      by_cases hok : (runWriter memory (s'.put sender.first) sender.steps).2 = true
      · obtain ⟨bs, hbs, hbytes⟩ := bytes_runWriter hok
        have hput : (s'.put sender.first).bytes ++ bs = s.bytes ++ (sender.first ++ bs) := by
          rw [UpdateStream.put, hs', List.append_assoc]
        rw [if_pos (.inl hok), hbytes, hput, hok, overwrite_append, List.length_append,
          Nat.add_sub_cancel_left, List.length_append]
        refine ⟨s, _, _, rfl, rfl, ?_, rfl⟩
        rw [Sender.order, if_pos hcomplete, hbs]
        rfl
      · have hfails : ¬ ((runWriter memory (s'.put sender.first) sender.steps).2 = true ∨
            ¬ sender.checked = true) := by
          rintro (htrue | hunchecked)
          · exact hok htrue
          · exact hunchecked hchecked
        rw [if_neg hfails] at h
        exact absurd h Bool.false_ne_true

/-- A new connection with enough memory takes every order. -/
theorem Sender.exists_send {order : List UInt8} (h : sender.order = some order) :
    ∃ memory update, (sender.send memory update).result = true := by
  have hsteps : ∃ bs, writtenBy sender.steps = some bs := by
    unfold Sender.order at h
    split_ifs at h
    obtain ⟨bs, hbs, -⟩ := Option.map_eq_some_iff.mp h
    exact ⟨bs, hbs⟩
  obtain ⟨bs, hbs⟩ := hsteps
  have hensure : ∃ s', sender.ensure ⟨true, fun _ => true⟩ fastpathUpdatePduInitNew = some s' := by
    unfold Sender.ensure
    cases sender.room with
    | none => exact ⟨_, rfl⟩
    | some size =>
      unfold streamEnsureRemainingCapacity streamEnsureCapacity
      simp only [eq_self, if_true]
      split_ifs <;> exact ⟨_, rfl⟩
  obtain ⟨s', hs'⟩ := hensure
  refine ⟨⟨true, fun _ => true⟩, .initial, ?_⟩
  have hus : (updateCheckFlush ⟨true, fun _ => true⟩ .initial sender.size).us =
      some fastpathUpdatePduInitNew := rfl
  have hrun := runWriter_of_memory (s := s'.put sender.first) (fun n => (rfl : (Memory.mk true
    fun _ => true).realloc n = true)) hbs
  unfold Sender.send
  dsimp only
  rw [hus]
  dsimp only
  rw [hs']
  dsimp only
  rw [if_pos (.inl hrun)]

/-! ### Orders of senders -/

theorem order_window (size : ℕ) (room : Option ℕ) (controlFlags : UInt8) (bs : List UInt8) :
    (Sender.window size room controlFlags bs).order = some (controlFlags :: bs) := by
  simp [Sender.order, Sender.window, writtenBy, overwrite]

end FreeRDP.Orders
