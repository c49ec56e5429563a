import FreeRDP.Orders.Equiv.Update
import FreeRDP.Orders.Equiv.Window

/-!
# Sizes of window orders

The sizes of window state orders, icon orders and notification icon orders are added up in 16 bits.
`sender_fits_iff` says that a sender stays inside of the room that it has made if and only if the sum of the
parts that are present is in 16 bits, or it refuses the order.
-/

namespace FreeRDP.Orders

open Wire

variable {fieldFlags flag : ℕ} {bs : List UInt8} {sender : Sender} {orderInfo : WindowOrderInfo}

/-! ### Icons -/

theorem length_writeIconInfo (iconInfo : IconInfo) : (writeIconInfo iconInfo).length = iconInfo.size := by
  unfold writeIconInfo IconInfo.size
  by_cases hbpp : iconInfo.bpp ≤ 8
  · simp only [if_pos hbpp, List.length_append, length_le16, length_byte]
    omega
  · simp only [if_neg hbpp, List.length_append, length_le16, length_byte, List.length_nil]
    omega

theorem updateCalculateWindowIconOrder_eq (iconInfo : IconInfo) :
    updateCalculateWindowIconOrder iconInfo = (11 + iconInfo.size) % 2 ^ 16 := by
  unfold updateCalculateWindowIconOrder IconInfo.size
  congr 1
  omega

theorem length_writeWindowHeader (orderSize : ℕ) (orderInfo : WindowOrderInfo) :
    (writeWindowHeader orderSize orderInfo).length = 10 := rfl

/-! ### Notification icons -/

theorem updateCalculateNotificationIconsOrder_eq (orderInfo : WindowOrderInfo)
    (order : NotifyIconStateOrder) :
    updateCalculateNewOrExistingNotificationIconsOrder orderInfo order =
      order.size orderInfo.fieldFlags % 2 ^ 16 := rfl

/-- There is an info tip or a state for a version that is 0. -/
def NotifyIconStateOrder.Refused (fieldFlags : ℕ) (order : NotifyIconStateOrder) : Prop :=
  order.noTips fieldFlags = true ∧ (fieldFlags &&& WINDOW_ORDER_FIELD_NOTIFY_INFO_TIP ≠ 0 ∨
    fieldFlags &&& WINDOW_ORDER_FIELD_NOTIFY_STATE ≠ 0)

instance (fieldFlags : ℕ) (order : NotifyIconStateOrder) : Decidable (order.Refused fieldFlags) :=
  inferInstanceAs (Decidable (_ ∧ _))

def writeNotifyIconInfotip (infoTip : NotifyIconInfotip) : List UInt8 :=
  le32 infoTip.timeout ++ (le32 infoTip.flags ++
    (writeUnicodeString infoTip.text ++ writeUnicodeString infoTip.title))

def NotifyIconStateOrder.writeIcon (fieldFlags : ℕ) (order : NotifyIconStateOrder) : List UInt8 :=
  if fieldFlags &&& WINDOW_ORDER_ICON ≠ 0 then writeIconInfo order.icon
  else writeField fieldFlags WINDOW_ORDER_CACHED_ICON (writeCachedIconInfo order.cachedIcon)

/-- What the steps of a notification icon order write if none of them is refused. -/
def NotifyIconStateOrder.body (fieldFlags : ℕ) (order : NotifyIconStateOrder) : List UInt8 :=
  writeField fieldFlags WINDOW_ORDER_FIELD_NOTIFY_VERSION (le32 order.version) ++
    (writeField fieldFlags WINDOW_ORDER_FIELD_NOTIFY_TIP (writeUnicodeString order.toolTip) ++
    (writeField fieldFlags WINDOW_ORDER_FIELD_NOTIFY_INFO_TIP (writeNotifyIconInfotip order.infoTip) ++
    (writeField fieldFlags WINDOW_ORDER_FIELD_NOTIFY_STATE (le32 order.state) ++
    order.writeIcon fieldFlags)))

theorem writtenBy_steps_of_refused {order : NotifyIconStateOrder} (h : order.Refused fieldFlags) :
    writtenBy (order.steps fieldFlags) = none := by
  obtain ⟨hnoTips, hflag⟩ := h
  unfold NotifyIconStateOrder.steps
  dsimp only
  rw [hnoTips, if_pos rfl, if_pos rfl]
  by_cases hinfoTip : fieldFlags &&& WINDOW_ORDER_FIELD_NOTIFY_INFO_TIP ≠ 0
  · rw [if_pos hinfoTip]
    rfl
  · rw [if_neg hinfoTip, if_pos (hflag.resolve_left hinfoTip)]
    rfl

theorem writtenBy_steps {order : NotifyIconStateOrder} (h : ¬ order.Refused fieldFlags) :
    writtenBy (order.steps fieldFlags) = some (order.body fieldFlags) := by
  have hfield (flag : ℕ) (bs : List UInt8) (hflag : fieldFlags &&& flag ≠ 0 →
    order.noTips fieldFlags = false) :
      (if fieldFlags &&& flag ≠ 0 then if order.noTips fieldFlags = true then none else some bs
        else some []) = some (writeField fieldFlags flag bs) := by
    unfold writeField
    split_ifs with hset hnoTips
    · rw [hflag hset] at hnoTips
      exact absurd hnoTips Bool.false_ne_true
    · rfl
    · rfl
  have htips (hflag : fieldFlags &&& WINDOW_ORDER_FIELD_NOTIFY_INFO_TIP ≠ 0 ∨
      fieldFlags &&& WINDOW_ORDER_FIELD_NOTIFY_STATE ≠ 0) : order.noTips fieldFlags = false :=
    Bool.eq_false_iff.mpr fun hnoTips => h ⟨hnoTips, hflag⟩
  unfold NotifyIconStateOrder.steps
  dsimp only
  rw [hfield _ _ fun hset => htips (.inl hset), hfield _ _ fun hset => htips (.inr hset)]
  show some _ = some _
  rw [List.append_nil]
  rfl

theorem length_body (fieldFlags : ℕ) (order : NotifyIconStateOrder) :
    15 + (order.body fieldFlags).length = order.size fieldFlags := by
  have hcached : (writeCachedIconInfo order.cachedIcon).length = 3 := rfl
  have hicon : (order.writeIcon fieldFlags).length =
      if fieldFlags &&& WINDOW_ORDER_ICON ≠ 0 then order.icon.size
      else if fieldFlags &&& WINDOW_ORDER_CACHED_ICON ≠ 0 then 3 else 0 := by
    unfold NotifyIconStateOrder.writeIcon
    split_ifs with h h'
    · exact length_writeIconInfo order.icon
    · rw [length_writeField, if_pos h', hcached]
    · rw [length_writeField, if_neg h']
  have hinfoTip : (writeNotifyIconInfotip order.infoTip).length =
      12 + order.infoTip.text.length + order.infoTip.title.length := by
    simp only [writeNotifyIconInfotip, List.length_append, length_le32, length_writeUnicodeString]
    omega
  unfold NotifyIconStateOrder.body NotifyIconStateOrder.size
  simp only [List.length_append, length_writeField, length_le32, length_writeUnicodeString, hicon, hinfoTip]
  omega

/-! ### Senders -/

/-- The number of bytes in the stream of an update. -/
def RdpUpdate.written (update : RdpUpdate) : ℕ := update.us.elim 0 fun s => s.bytes.length

/-- Each call of a sender returns `FALSE`, or does not write more than it has made room for. -/
def Sender.Fits (sender : Sender) : Prop :=
  ∀ memory update, (sender.send memory update).result = true → ∀ room, sender.room = some room →
    (sender.send memory update).update.written ≤ (updateCheckFlush memory update sender.size).written + room

/-- A sender that looks at all that it calls. -/
structure Sender.Strict (sender : Sender) : Prop where
  checked : sender.checked = true
  complete : sender.complete = true
  unopened : sender.unopened = false

theorem Sender.Strict.fits_iff (h : sender.Strict) {room : ℕ} (hroom : sender.room = some room) :
    sender.Fits ↔ ∀ order, sender.order = some order → order.length ≤ room := by
  have hwritten {memory : Memory} {update : RdpUpdate} {order : List UInt8}
    (horder : sender.order = some order)
      (hresult : (sender.send memory update).result = true) : (sender.send memory update).update.written =
        (updateCheckFlush memory update sender.size).written + order.length := by
    obtain ⟨s, t, order', hs, ht, horder', hbytes⟩ :=
      Sender.send_appends h.checked h.complete h.unopened hresult
    rw [RdpUpdate.written, RdpUpdate.written, hs, ht, Option.elim_some, Option.elim_some, hbytes,
      List.length_append, Option.some.inj (horder'.symm.trans horder)]
  constructor
  · intro hfits order horder
    obtain ⟨memory, update, hresult⟩ := Sender.exists_send horder
    have hle := hfits memory update hresult room hroom
    rw [hwritten horder hresult] at hle
    exact Nat.le_of_add_le_add_left hle
  · intro hle memory update hresult room' hroom'
    obtain ⟨s, t, order, -, -, horder, -⟩ := Sender.send_appends h.checked h.complete h.unopened hresult
    obtain rfl : room = room' := Option.some.inj (hroom.symm.trans hroom')
    rw [hwritten horder hresult]
    exact Nat.add_le_add_left (hle order horder) _

/-- A sender with one order of `n` bytes, and room for that number in 16 bits. -/
theorem Sender.Strict.fits_iff_lt (h : sender.Strict) {n : ℕ} (hroom : sender.room = some (n % 2 ^ 16))
    (horder : ∃ order, sender.order = some order ∧ order.length = n) : sender.Fits ↔ n < 2 ^ 16 := by
  obtain ⟨order, horder, hlength⟩ := horder
  rw [h.fits_iff hroom]
  constructor
  · intro hle
    have hmod := hle order horder
    rw [hlength] at hmod
    exact hmod.trans_lt (Nat.mod_lt n (by decide))
  · intro hlt order' horder'
    rw [← Option.some.inj (horder.symm.trans horder'), hlength, Nat.mod_eq_of_lt hlt]

/-! ### Window orders -/

/-- What the senders of window state orders, icon orders and notification icon orders are given. -/
inductive RailOrder
  | windowState (orderInfo : WindowOrderInfo) (order : WindowStateOrder)
  | windowIcon (orderInfo : WindowOrderInfo) (iconInfo : IconInfo)
  | notifyIconState (orderInfo : WindowOrderInfo) (order : NotifyIconStateOrder)

namespace RailOrder

def toUpdateOrder : RailOrder → UpdateOrder
  | windowState orderInfo order => .windowState orderInfo order
  | windowIcon orderInfo iconInfo => .windowIcon orderInfo iconInfo
  | notifyIconState orderInfo order => .notifyIconState orderInfo order

/-- The rectangles are as many as their counts say. -/
def WellFormed : RailOrder → Prop
  | windowState _ order => order.windowRects.length = order.numWindowRects ∧
      order.visibilityRects.length = order.numVisibilityRects
  | windowIcon _ _ | notifyIconState _ _ => True

/-- The sum of the sizes of all parts that are present. -/
def size : RailOrder → ℕ
  | windowState orderInfo order => order.size orderInfo.fieldFlags
  | windowIcon _ iconInfo => 11 + iconInfo.size
  | notifyIconState orderInfo order => order.size orderInfo.fieldFlags

/-- The sender returns `FALSE` for the version of a notification icon. -/
def Refused : RailOrder → Prop
  | windowState _ _ | windowIcon _ _ => False
  | notifyIconState orderInfo order => order.Refused orderInfo.fieldFlags

end RailOrder

section Fits

variable {noHdr : Bool} {bounds : ServerBounds}

theorem strict_window (size : ℕ) (room : Option ℕ) (controlFlags : UInt8) (bs : List UInt8) :
    (Sender.window size room controlFlags bs).Strict := ⟨rfl, rfl, rfl⟩

theorem windowState_fits_iff {order : WindowStateOrder}
    (h : (RailOrder.windowState orderInfo order).WellFormed) :
    ((UpdateOrder.windowState orderInfo order).sender noHdr bounds).Fits ↔
      order.size orderInfo.fieldFlags < 2 ^ 16 := by
  refine Sender.Strict.fits_iff_lt (strict_window _ _ _ _) rfl ⟨_, order_window _ _ _ _, ?_⟩
  rw [← WindowStateOrder.length_send h.1 h.2 orderInfo]
  rfl

theorem windowIcon_fits_iff (iconInfo : IconInfo) :
    ((UpdateOrder.windowIcon orderInfo iconInfo).sender noHdr bounds).Fits ↔
      11 + iconInfo.size < 2 ^ 16 := by
  refine Sender.Strict.fits_iff_lt (strict_window _ _ _ _) ?_ ⟨_, order_window _ _ _ _, ?_⟩
  · rw [← updateCalculateWindowIconOrder_eq]
    rfl
  · rw [List.length_cons, List.length_append, length_writeWindowHeader, length_writeIconInfo]
    omega

theorem notifyIconState_fits_iff (order : NotifyIconStateOrder) :
    ((UpdateOrder.notifyIconState orderInfo order).sender noHdr bounds).Fits ↔
      order.Refused orderInfo.fieldFlags ∨ order.size orderInfo.fieldFlags < 2 ^ 16 := by
  have hstrict : ((UpdateOrder.notifyIconState orderInfo order).sender noHdr bounds).Strict :=
    ⟨rfl, rfl, rfl⟩
  have horder : ((UpdateOrder.notifyIconState orderInfo order).sender noHdr bounds).order =
      (UpdateOrder.notifyIconState orderInfo order).bytes noHdr bounds := rfl
  by_cases hrefused : order.Refused orderInfo.fieldFlags
  · refine iff_of_true ?_ (.inl hrefused)
    rw [hstrict.fits_iff rfl, horder, UpdateOrder.bytes, writtenBy_steps_of_refused hrefused]
    exact fun order h => absurd h.symm (Option.some_ne_none order)
  · rw [or_iff_right hrefused]
    have hbytes := horder
    rw [UpdateOrder.bytes, writtenBy_steps hrefused, Option.map_some] at hbytes
    refine hstrict.fits_iff_lt rfl ⟨_, hbytes, ?_⟩
    rw [← length_body, List.length_append, List.length_cons, List.length_append, length_writeWindowHeader,
      length_le32]

end Fits

/-- No call writes more than it has made room for if and only if the size is in 16 bits, or the order is
refused. -/
theorem sender_fits_iff {o : RailOrder} (noHdr : Bool) (bounds : ServerBounds) (h : o.WellFormed) :
    (o.toUpdateOrder.sender noHdr bounds).Fits ↔ o.Refused ∨ o.size < 2 ^ 16 := by
  cases o with
  | windowState orderInfo order => exact (windowState_fits_iff h).trans (or_iff_right not_false).symm
  | windowIcon orderInfo iconInfo =>
    exact (windowIcon_fits_iff iconInfo).trans (or_iff_right not_false).symm
  | notifyIconState orderInfo order => exact notifyIconState_fits_iff order

/-- One rectangle and a title. -/
theorem sender_fits_title : ((RailOrder.windowState ⟨7, 0x01000104, 0⟩ { WindowStateOrder.zero with
    numWindowRects := 1
    windowRects := [⟨0, 0, 4, 3⟩]
    titleInfo := [0x41, 0] }).toUpdateOrder.sender false ⟨Bounds.zero, Bounds.zero⟩).Fits := by
  refine (sender_fits_iff false _ ?_).mpr (.inr (by decide))
  exact ⟨rfl, rfl⟩

theorem not_sender_fits_of_length {bitsMask bitsColor : List UInt8} (hmask : bitsMask.length = 2032)
    (hcolor : bitsColor.length = 64516) :
    ¬ ((RailOrder.windowIcon ⟨7, 0x41000000, 0⟩ ⟨0, 0, 32, 127, 127, bitsMask, [],
      bitsColor⟩).toUpdateOrder.sender
      false ⟨Bounds.zero, Bounds.zero⟩).Fits := by
  intro h
  have hlt := (windowIcon_fits_iff _).mp h
  unfold IconInfo.size at hlt
  dsimp only at hlt
  rw [hmask, hcolor] at hlt
  omega

/-- An icon of 127 by 127 pixels with 32 bits for each. -/
theorem not_sender_fits_icon : ¬ ((RailOrder.windowIcon ⟨7, 0x41000000, 0⟩
    ⟨0, 0, 32, 127, 127, List.replicate 2032 0, [], List.replicate 64516 0⟩).toUpdateOrder.sender false
      ⟨Bounds.zero, Bounds.zero⟩).Fits :=
  not_sender_fits_of_length List.length_replicate List.length_replicate

end FreeRDP.Orders
