import FreeRDP.Orders.Equiv.Sizes

/-!
# Icon orders and desktop orders

What a client is given for the window icon orders, the notification icon orders and the monitored
desktop orders that a server sends.  The parts of an order are present or not by `fieldFlags`, and the
color table of an icon by `bpp`.  `updateOrder_delivers_iff` says that what is delivered is what has
been sent if and only if the numbers of an icon fit their bytes.
-/

namespace FreeRDP.Orders

open Wire

variable {fieldFlags flag : ℕ} {bs bs' : List UInt8} {sender : Sender} {orderInfo : WindowOrderInfo}
  {settings : WindowSettings} {r r' : WindowOrderInfo × WindowMessage}

/-! ### Icons -/

def IconInfo.HasDepth (iconInfo : IconInfo) : Prop := iconInfo.bpp ∈ [1, 4, 8, 16, 24, 32]

/-- There is a color table only up to 8 bits per pixel. -/
def IconInfo.present (iconInfo : IconInfo) : IconInfo :=
  { iconInfo with colorTable := if iconInfo.bpp ≤ 8 then iconInfo.colorTable else [] }

/-- The icon with the bytes that are written for its numbers. -/
def IconInfo.onWire (iconInfo : IconInfo) : IconInfo :=
  { iconInfo with
    cacheEntry := iconInfo.cacheEntry % 2 ^ 16
    cacheId := iconInfo.cacheId % 2 ^ 8
    width := iconInfo.width % 2 ^ 16
    height := iconInfo.height % 2 ^ 16 }

/-- The numbers of an icon fit their bytes. -/
structure IconInfo.FitsWire (iconInfo : IconInfo) : Prop where
  cacheEntry : iconInfo.cacheEntry < 2 ^ 16
  cacheId : iconInfo.cacheId < 2 ^ 8
  width : iconInfo.width < 2 ^ 16
  height : iconInfo.height < 2 ^ 16

theorem IconInfo.onWire_present {iconInfo : IconInfo} :
    iconInfo.onWire.present = iconInfo.present ↔ iconInfo.FitsWire := by
  constructor
  · intro h
    obtain ⟨hentry, hid, -, hwidth, hheight, -⟩ := IconInfo.mk.inj h
    exact ⟨(Nat.mod_eq_iff_lt (by decide)).mp hentry, (Nat.mod_eq_iff_lt (by decide)).mp hid,
      (Nat.mod_eq_iff_lt (by decide)).mp hwidth, (Nat.mod_eq_iff_lt (by decide)).mp hheight⟩
  · rintro ⟨hentry, hid, hwidth, hheight⟩
    unfold IconInfo.onWire
    rw [Nat.mod_eq_of_lt hentry, Nat.mod_eq_of_lt hid, Nat.mod_eq_of_lt hwidth, Nat.mod_eq_of_lt hheight]

/-- The reader and the writer of an icon agree on where there is a color table. -/
theorem mem_bpps_iff {iconInfo : IconInfo} (h : iconInfo.HasDepth) :
    iconInfo.bpp ∈ [1, 4, 8] ↔ iconInfo.bpp ≤ 8 := by
  unfold IconInfo.HasDepth at h
  simp only [List.mem_cons, List.not_mem_nil, or_false] at h ⊢
  omega

theorem reads_iconInfo {iconInfo : IconInfo} (h : iconInfo.HasDepth) (hsize : iconInfo.size < 2 ^ 16) :
    Reads updateReadIconInfo (writeIconInfo iconInfo) iconInfo.onWire.present := by
  have hbpp : 1 ≤ iconInfo.bpp ∧ iconInfo.bpp ≤ 32 := by
    unfold IconInfo.HasDepth at h
    simp only [List.mem_cons, List.not_mem_nil, or_false] at h
    omega
  have htable := mem_bpps_iff h
  have hlength : 8 ≤ (writeIconInfo iconInfo).length := by
    rw [length_writeIconInfo]
    unfold IconInfo.size
    omega
  unfold IconInfo.size at hsize
  refine Reads.need hlength ((Reads.u16le_mod _).bind ((Reads.u8_mod _).bind
    ((Reads.u8 (by omega)).bind (Reads.skip (Reads.check hbpp) ((Reads.u16le_mod _).bind
      ((Reads.u16le_mod _).bind ?_))))))
  unfold IconInfo.onWire IconInfo.present
  dsimp only
  by_cases hle : iconInfo.bpp ≤ 8
  · rw [if_pos hle] at hsize
    rw [if_pos hle, if_pos hle, if_pos (htable.mpr hle)]
    refine (Reads.need (by simp) (Reads.u16le (by omega))).bind (Reads.need (by simp; omega)
      ((Reads.u16le (by omega)).bind ((Reads.u16le (by omega)).bind ?_)))
    exact Reads.need (by simp) ((Reads.bytes rfl).bind (Reads.need (by simp)
      ((Reads.bytes rfl).bind (Reads.need (Nat.le_refl _) ((Reads.bytes rfl).map rfl)))))
  · rw [if_neg hle] at hsize
    rw [if_neg hle, if_neg hle, if_neg fun hmem => hle (htable.mp hmem)]
    refine (Reads.pure 0).bind (Reads.need (by simp; omega)
      ((Reads.u16le (by omega)).bind ((Reads.u16le (by omega)).bind ?_)))
    have hnone : Reads (bytes 0) [] [] := Reads.bytes rfl
    exact Reads.need (by simp) ((Reads.bytes rfl).bind (Reads.need (Nat.zero_le _)
      (hnone.bind (Reads.need (Nat.le_refl _) ((Reads.bytes rfl).map rfl)))))

/-- The cached icon with the bytes that are written for its numbers. -/
def CachedIconInfo.onWire (cachedIcon : CachedIconInfo) : CachedIconInfo :=
  ⟨cachedIcon.cacheEntry % 2 ^ 16, cachedIcon.cacheId % 2 ^ 8⟩

/-- The numbers of a cached icon fit their bytes. -/
structure CachedIconInfo.FitsWire (cachedIcon : CachedIconInfo) : Prop where
  cacheEntry : cachedIcon.cacheEntry < 2 ^ 16
  cacheId : cachedIcon.cacheId < 2 ^ 8

theorem CachedIconInfo.onWire_eq {cachedIcon : CachedIconInfo} :
    cachedIcon.onWire = cachedIcon ↔ cachedIcon.FitsWire := by
  constructor
  · intro h
    exact ⟨(Nat.mod_eq_iff_lt (by decide)).mp (congrArg CachedIconInfo.cacheEntry h),
      (Nat.mod_eq_iff_lt (by decide)).mp (congrArg CachedIconInfo.cacheId h)⟩
  · rintro ⟨hentry, hid⟩
    unfold CachedIconInfo.onWire
    rw [Nat.mod_eq_of_lt hentry, Nat.mod_eq_of_lt hid]

theorem reads_cachedIconInfo (cachedIcon : CachedIconInfo) :
    Reads updateReadCachedIconInfo (writeCachedIconInfo cachedIcon) cachedIcon.onWire :=
  Reads.need (Nat.le_refl 3) ((Reads.u16le_mod _).bind ((Reads.u8_mod _).map rfl))

/-! ### Notification icons -/

/-- The parts of a notification icon order that are present, and zeros. -/
def NotifyIconStateOrder.present (fieldFlags : ℕ) (order : NotifyIconStateOrder) :
    NotifyIconStateOrder where
  version := ifField fieldFlags WINDOW_ORDER_FIELD_NOTIFY_VERSION order.version 0
  toolTip := ifField fieldFlags WINDOW_ORDER_FIELD_NOTIFY_TIP order.toolTip []
  infoTip := ifField fieldFlags WINDOW_ORDER_FIELD_NOTIFY_INFO_TIP order.infoTip ⟨0, 0, [], []⟩
  state := ifField fieldFlags WINDOW_ORDER_FIELD_NOTIFY_STATE order.state 0
  icon := ifField fieldFlags WINDOW_ORDER_ICON order.icon.present ⟨0, 0, 0, 0, 0, [], [], []⟩
  cachedIcon := ifField fieldFlags WINDOW_ORDER_CACHED_ICON order.cachedIcon ⟨0, 0⟩

/-- The order with the bytes that are written for the numbers of its icon. -/
def NotifyIconStateOrder.onWire (order : NotifyIconStateOrder) : NotifyIconStateOrder :=
  { order with icon := order.icon.onWire, cachedIcon := order.cachedIcon.onWire }

/-- The numbers of the icon that is present fit their bytes. -/
def NotifyIconStateOrder.FitsWire (fieldFlags : ℕ) (order : NotifyIconStateOrder) : Prop :=
  (fieldFlags &&& WINDOW_ORDER_ICON ≠ 0 → order.icon.FitsWire) ∧
    (fieldFlags &&& WINDOW_ORDER_CACHED_ICON ≠ 0 → order.cachedIcon.FitsWire)

/-- The fields fit the types of the structure, and an icon that is present has a depth. -/
structure NotifyIconStateOrder.WellFormed (fieldFlags : ℕ) (order : NotifyIconStateOrder) : Prop where
  version : order.version < 2 ^ 32
  toolTip : order.toolTip.length < 2 ^ 16
  timeout : order.infoTip.timeout < 2 ^ 32
  flags : order.infoTip.flags < 2 ^ 32
  text : order.infoTip.text.length < 2 ^ 16
  title : order.infoTip.title.length < 2 ^ 16
  state : order.state < 2 ^ 32
  icon : fieldFlags &&& WINDOW_ORDER_ICON ≠ 0 → order.icon.HasDepth

theorem ifField_eq_iff {α : Type} {a b absent : α} :
    ifField fieldFlags flag a absent = ifField fieldFlags flag b absent ↔
      (fieldFlags &&& flag ≠ 0 → a = b) := by
  unfold ifField
  split_ifs with hflag
  · exact ⟨fun h _ => h, fun h => h hflag⟩
  · exact iff_of_true rfl fun h => absurd h hflag

theorem NotifyIconStateOrder.onWire_present {order : NotifyIconStateOrder} :
    order.onWire.present fieldFlags = order.present fieldFlags ↔ order.FitsWire fieldFlags := by
  unfold NotifyIconStateOrder.FitsWire
  rw [← IconInfo.onWire_present, ← CachedIconInfo.onWire_eq, ← ifField_eq_iff, ← ifField_eq_iff]
  constructor
  · intro h
    exact ⟨congrArg NotifyIconStateOrder.icon h, congrArg NotifyIconStateOrder.cachedIcon h⟩
  · rintro ⟨hicon, hcached⟩
    unfold NotifyIconStateOrder.present
    rw [← hicon, ← hcached]
    rfl

theorem NotifyIconStateOrder.WellFormed.reads_infoTip {order : NotifyIconStateOrder}
    (h : order.WellFormed fieldFlags) :
    Reads updateReadNotifyIconInfotip (writeNotifyIconInfotip order.infoTip) order.infoTip := by
  refine Reads.need ?_ ((Reads.u32le h.timeout).bind ((Reads.u32le h.flags).bind
    ((reads_railReadUnicodeString h.text).bind ((reads_railReadUnicodeString h.title).map rfl))))
  simp only [writeNotifyIconInfotip, List.length_append, length_le32]
  omega

/-- The icon and the cached icon are behind each other if at most one of them is present. -/
theorem writeIcon_eq {order : NotifyIconStateOrder}
    (h : fieldFlags &&& WINDOW_ORDER_ICON = 0 ∨ fieldFlags &&& WINDOW_ORDER_CACHED_ICON = 0) :
    order.writeIcon fieldFlags = writeField fieldFlags WINDOW_ORDER_ICON (writeIconInfo order.icon) ++
      writeField fieldFlags WINDOW_ORDER_CACHED_ICON (writeCachedIconInfo order.cachedIcon) := by
  unfold NotifyIconStateOrder.writeIcon
  rcases h with hicon | hcached
  · have hnil : writeField fieldFlags WINDOW_ORDER_ICON (writeIconInfo order.icon) = [] :=
      if_neg (not_not.mpr hicon)
    rw [if_neg (not_not.mpr hicon), hnil, List.nil_append]
  · have hnil : writeField fieldFlags WINDOW_ORDER_CACHED_ICON
        (writeCachedIconInfo order.cachedIcon) = [] :=
      if_neg (not_not.mpr hcached)
    rw [hnil, List.append_nil, writeField]

theorem NotifyIconStateOrder.WellFormed.reads_body {order : NotifyIconStateOrder}
    (h : order.WellFormed fieldFlags)
    (hicon : fieldFlags &&& WINDOW_ORDER_ICON = 0 ∨ fieldFlags &&& WINDOW_ORDER_CACHED_ICON = 0)
    (hsize : order.size fieldFlags < 2 ^ 16) :
    Reads (updateReadNotificationIconStateOrder fieldFlags) (order.body fieldFlags)
      (order.onWire.present fieldFlags) := by
  have hreads : Reads (readField fieldFlags WINDOW_ORDER_ICON ⟨0, 0, 0, 0, 0, [], [], []⟩
    updateReadIconInfo)
      (writeField fieldFlags WINDOW_ORDER_ICON (writeIconInfo order.icon))
      (ifField fieldFlags WINDOW_ORDER_ICON order.icon.onWire.present ⟨0, 0, 0, 0, 0, [], [], []⟩) := by
    by_cases hflag : fieldFlags &&& WINDOW_ORDER_ICON ≠ 0
    · refine reads_readField _ (reads_iconInfo (h.icon hflag) ?_)
      unfold NotifyIconStateOrder.size at hsize
      dsimp only at hsize
      rw [if_pos hflag] at hsize
      exact (Nat.le_add_left _ _).trans_lt hsize
    · unfold readField writeField ifField
      rw [if_neg hflag, if_neg hflag, if_neg hflag]
      exact Reads.pure _
  rw [NotifyIconStateOrder.body, writeIcon_eq hicon]
  exact (reads_readField 0 (reads_readUint32 h.version)).bind <|
    (reads_readField [] (reads_railReadUnicodeString h.toolTip)).bind <|
    (reads_readField _ h.reads_infoTip).bind <| (reads_readField 0 (reads_readUint32 h.state)).bind <|
    hreads.bind <| (reads_readField _ (reads_cachedIconInfo order.cachedIcon)).map rfl

/-! ### Desktops -/

/-- The fields fit the types of the structure, and there are as many ids as the number says, which is
one byte. -/
structure MonitoredDesktopOrder.WellFormed (order : MonitoredDesktopOrder) : Prop where
  activeWindowId : order.activeWindowId < 2 ^ 32
  numWindowIds : order.numWindowIds ≤ 255
  length : order.windowIds.length = order.numWindowIds
  windowIds : ∀ id ∈ order.windowIds, id < 2 ^ 32

def MonitoredDesktopOrder.present (fieldFlags : ℕ) (order : MonitoredDesktopOrder) :
    MonitoredDesktopOrder where
  activeWindowId := ifField fieldFlags WINDOW_ORDER_FIELD_DESKTOP_ACTIVE_WND order.activeWindowId 0
  numWindowIds := ifField fieldFlags WINDOW_ORDER_FIELD_DESKTOP_ZORDER order.numWindowIds 0
  windowIds := ifField fieldFlags WINDOW_ORDER_FIELD_DESKTOP_ZORDER order.windowIds []

theorem length_flatMap_le32 (l : List ℕ) : (l.flatMap le32).length = 4 * l.length := by
  induction l with
  | nil => rfl
  | cons n l ih =>
    rw [List.flatMap_cons, List.length_append, ih, length_le32, List.length_cons]
    omega

theorem MonitoredDesktopOrder.WellFormed.reads_windowIds {order : MonitoredDesktopOrder}
    (h : order.WellFormed) :
    Reads readWindowIds (byte order.numWindowIds ++ (order.windowIds.take order.numWindowIds).flatMap le32)
      (order.numWindowIds, order.windowIds) := by
  have hmany : Reads (many u32le order.numWindowIds) (order.windowIds.flatMap le32) order.windowIds := by
    rw [← h.length]
    exact Reads.many fun id hid => Reads.u32le (h.windowIds id hid)
  rw [List.take_of_length_le h.length.le]
  refine Reads.need (by simp) ((Reads.u8 (Nat.lt_succ_of_le h.numWindowIds)).bind ?_)
  refine Reads.need ?_ (hmany.map rfl)
  rw [length_flatMap_le32, h.length]

theorem MonitoredDesktopOrder.WellFormed.reads_body {order : MonitoredDesktopOrder} (h : order.WellFormed) :
    Reads (updateReadDesktopActivelyMonitoredOrder fieldFlags) (writeMonitoredDesktop fieldFlags order)
      (order.present fieldFlags) :=
  (reads_readField 0 (reads_readUint32 h.activeWindowId)).bind <|
    (reads_readField_pair 0 [] h.reads_windowIds).map rfl

/-- The size of a monitored desktop order is in 16 bits. -/
theorem MonitoredDesktopOrder.WellFormed.length_write {order : MonitoredDesktopOrder} (h : order.WellFormed)
    (orderInfo : WindowOrderInfo) :
    7 + (writeMonitoredDesktop orderInfo.fieldFlags order).length =
      updateCalculateMonitoredDesktop orderInfo order := by
  have hids : (byte order.numWindowIds ++ (order.windowIds.take order.numWindowIds).flatMap le32).length =
      1 + 4 * order.numWindowIds := by
    rw [List.take_of_length_le h.length.le, List.length_append, length_byte, length_flatMap_le32, h.length]
  have hnumber := h.numWindowIds
  unfold writeMonitoredDesktop updateCalculateMonitoredDesktop
  rw [List.length_append, length_writeField, length_writeField, hids, length_le32]
  split_ifs <;> omega

/-! ### What is delivered -/

/-- Each call of a sender that returns `TRUE` has written as many bytes as `size` says.  A client that
supports the order takes what is behind the first of them, and nothing else, and is given `r`. -/
def Sender.Delivers (sender : Sender) (r : WindowOrderInfo × WindowMessage) : Prop :=
  ∀ memory update, (sender.send memory update).result = true →
    ∃ s t bs, (updateCheckFlush memory update sender.size).us = some s ∧
      (sender.send memory update).update.us = some t ∧ t.bytes = s.bytes ++ bs ∧
      bs.length = sender.size ∧ ∀ settings rest, windowOrderSupported settings r.1.fieldFlags = true →
        updateRecvAltsecWindowOrder settings (bs.tail ++ rest) = some (some r, rest)

/-- Nothing is delivered by a sender that returns `FALSE`. -/
theorem Sender.Strict.delivers_of_none (h : sender.Strict) (horder : sender.order = none) :
    sender.Delivers r := by
  intro memory update hresult
  obtain ⟨s, t, bs, -, -, horder', -⟩ := Sender.send_appends h.checked h.complete h.unopened hresult
  exact absurd (horder'.symm.trans horder) (Option.some_ne_none bs)

theorem Sender.Strict.delivers_iff (h : sender.Strict) (horder : sender.order = some bs)
    (hlength : bs.length = sender.size) (hflags : r'.1.fieldFlags = r.1.fieldFlags)
    (hrecv : ∀ settings rest, windowOrderSupported settings r'.1.fieldFlags = true →
      updateRecvAltsecWindowOrder settings (bs.tail ++ rest) = some (some r', rest)) :
    sender.Delivers r ↔ r' = r := by
  constructor
  · intro hdelivers
    obtain ⟨memory, update, hresult⟩ := Sender.exists_send horder
    obtain ⟨s, t, bs', hs, ht, hbytes, -, hrecv'⟩ := hdelivers memory update hresult
    obtain ⟨s', t', order, hs', ht', horder', hbytes'⟩ :=
      Sender.send_appends h.checked h.complete h.unopened hresult
    obtain rfl : s = s' := Option.some.inj (hs.symm.trans hs')
    obtain rfl : t = t' := Option.some.inj (ht.symm.trans ht')
    obtain rfl : bs = order := Option.some.inj (horder.symm.trans horder')
    obtain rfl : bs' = bs := List.append_cancel_left (hbytes.symm.trans hbytes')
    have hboth := (hrecv ⟨WINDOW_LEVEL_SUPPORTED_EX, false⟩ [] rfl).symm.trans
      (hrecv' ⟨WINDOW_LEVEL_SUPPORTED_EX, false⟩ [] rfl)
    exact Option.some.inj (Prod.mk.inj (Option.some.inj hboth)).1
  · rintro rfl memory update hresult
    obtain ⟨s, t, order, hs, ht, horder', hbytes⟩ :=
      Sender.send_appends h.checked h.complete h.unopened hresult
    obtain rfl : bs = order := Option.some.inj (horder.symm.trans horder')
    exact ⟨s, t, bs, hs, ht, hbytes, hlength, hrecv⟩

/-- The same for an order with a type and the right size, which is read as `r'`. -/
theorem Sender.Strict.delivers_iff_of_typed (h : sender.Strict)
    (horder : sender.order = some (windowControlFlags :: (le16 sender.size ++ (le32 fieldFlags ++ bs))))
    (hsize : 7 + bs.length = sender.size) (hlt : sender.size < 2 ^ 16) (hflags : fieldFlags < 2 ^ 32)
    (htype : HasType fieldFlags) (hreads : Reads (updateRecvTypedOrder fieldFlags) bs r')
    (hr' : r'.1.fieldFlags = fieldFlags) (hr : r.1.fieldFlags = fieldFlags) :
    sender.Delivers r ↔ r' = r := by
  refine h.delivers_iff horder ?_ (hr'.trans hr.symm) fun settings rest hsupported => ?_
  · simp only [List.length_cons, List.length_append, length_le16, length_le32]
    omega
  · rw [hr'] at hsupported
    exact updateRecvAltsecWindowOrder_of_typed hflags htype hsupported hlt hreads (by omega)

/-- The numbers of a header fit their bytes. -/
structure WindowOrderInfo.WellFormed (orderInfo : WindowOrderInfo) : Prop where
  windowId : orderInfo.windowId < 2 ^ 32
  fieldFlags : orderInfo.fieldFlags < 2 ^ 32
  notifyIconId : orderInfo.notifyIconId < 2 ^ 32

structure IsWindowIcon (fieldFlags : ℕ) : Prop where
  type : fieldFlags &&& WINDOW_ORDER_TYPE_WINDOW ≠ 0
  icon : fieldFlags &&& WINDOW_ORDER_ICON ≠ 0

/-- The flags of a notification icon order, with at most one of the icons. -/
structure IsNotifyIcon (fieldFlags : ℕ) : Prop where
  window : fieldFlags &&& WINDOW_ORDER_TYPE_WINDOW = 0
  type : fieldFlags &&& WINDOW_ORDER_TYPE_NOTIFY ≠ 0
  deleted : fieldFlags &&& WINDOW_ORDER_STATE_DELETED = 0
  icon : fieldFlags &&& WINDOW_ORDER_ICON = 0 ∨ fieldFlags &&& WINDOW_ORDER_CACHED_ICON = 0

structure IsMonitoredDesktop (fieldFlags : ℕ) : Prop where
  window : fieldFlags &&& WINDOW_ORDER_TYPE_WINDOW = 0
  notify : fieldFlags &&& WINDOW_ORDER_TYPE_NOTIFY = 0
  type : fieldFlags &&& WINDOW_ORDER_TYPE_DESKTOP ≠ 0
  monitored : fieldFlags &&& WINDOW_ORDER_FIELD_DESKTOP_NONE = 0

def notifyIconMessage (fieldFlags : ℕ) (order : NotifyIconStateOrder) : WindowMessage :=
  if fieldFlags &&& WINDOW_ORDER_STATE_NEW ≠ 0 then .notifyIconCreate order else .notifyIconUpdate order

theorem notifyIconMessage_inj {order order' : NotifyIconStateOrder} :
    notifyIconMessage fieldFlags order = notifyIconMessage fieldFlags order' ↔ order = order' := by
  unfold notifyIconMessage
  split_ifs
  · exact ⟨WindowMessage.notifyIconCreate.inj, congrArg _⟩
  · exact ⟨WindowMessage.notifyIconUpdate.inj, congrArg _⟩

/-- What a client is to be given for an order. -/
inductive Expects : UpdateOrder → WindowOrderInfo × WindowMessage → Prop
  | windowIcon {orderInfo : WindowOrderInfo} {iconInfo : IconInfo} (hinfo : orderInfo.WellFormed)
      (hflags : IsWindowIcon orderInfo.fieldFlags) (hicon : iconInfo.HasDepth) :
    Expects (.windowIcon orderInfo iconInfo)
      ({ orderInfo with notifyIconId := 0 }, .windowIcon iconInfo.present)
  | notifyIconState {orderInfo : WindowOrderInfo} {order : NotifyIconStateOrder}
      (hinfo : orderInfo.WellFormed)
      (hflags : IsNotifyIcon orderInfo.fieldFlags) (horder : order.WellFormed orderInfo.fieldFlags) :
    Expects (.notifyIconState orderInfo order)
      (orderInfo, notifyIconMessage orderInfo.fieldFlags (order.present orderInfo.fieldFlags))
  | monitoredDesktop {orderInfo : WindowOrderInfo} {order : MonitoredDesktopOrder}
      (hinfo : orderInfo.WellFormed) (hflags : IsMonitoredDesktop orderInfo.fieldFlags)
      (horder : order.WellFormed) :
    Expects (.monitoredDesktop orderInfo order)
      ({ orderInfo with windowId := 0, notifyIconId := 0 },
        .monitoredDesktop (order.present orderInfo.fieldFlags))

/-- The numbers of an icon that is sent fit their bytes. -/
def UpdateOrder.FitsWire : UpdateOrder → Prop
  | windowIcon _ iconInfo => iconInfo.FitsWire
  | notifyIconState orderInfo order =>
    order.Refused orderInfo.fieldFlags ∨ order.FitsWire orderInfo.fieldFlags
  | _ => True

section Delivers

variable {noHdr : Bool} {bounds : ServerBounds}

theorem windowIcon_delivers_iff {iconInfo : IconInfo} (hinfo : orderInfo.WellFormed)
    (hflags : IsWindowIcon orderInfo.fieldFlags) (hicon : iconInfo.HasDepth)
    (hsize : 11 + iconInfo.size < 2 ^ 16) :
    ((UpdateOrder.windowIcon orderInfo iconInfo).sender noHdr bounds).Delivers
      ({ orderInfo with notifyIconId := 0 }, .windowIcon iconInfo.present) ↔ iconInfo.FitsWire := by
  have hcalculate : updateCalculateWindowIconOrder iconInfo = 11 + iconInfo.size := by
    rw [updateCalculateWindowIconOrder_eq, Nat.mod_eq_of_lt hsize]
  have htyped : Reads (updateRecvTypedOrder orderInfo.fieldFlags)
      (le32 orderInfo.windowId ++ writeIconInfo iconInfo)
      ({ orderInfo with notifyIconId := 0 }, .windowIcon iconInfo.onWire.present) := by
    rw [updateRecvTypedOrder, if_pos hflags.type]
    refine Reads.need (by simp) ((Reads.u32le hinfo.windowId).bind ?_)
    rw [if_pos hflags.icon]
    exact (reads_iconInfo hicon (by omega)).map rfl
  have hstrict : ((UpdateOrder.windowIcon orderInfo iconInfo).sender noHdr bounds).Strict :=
    strict_window _ _ _ _
  rw [hstrict.delivers_iff_of_typed ?_ ?_ ?_ hinfo.fieldFlags (.inl hflags.type) htyped rfl rfl,
    ← IconInfo.onWire_present]
  · exact ⟨fun h => WindowMessage.windowIcon.inj (Prod.mk.inj h).2, fun h => by rw [h]⟩
  · refine (order_window _ _ _ _).trans ?_
    rw [writeWindowHeader, List.append_assoc, List.append_assoc]
    rfl
  · refine Eq.trans ?_ hcalculate.symm
    rw [List.length_append, length_le32, length_writeIconInfo]
    omega
  · exact hcalculate.trans_lt hsize

theorem notifyIconState_delivers_iff {order : NotifyIconStateOrder} (hinfo : orderInfo.WellFormed)
    (hflags : IsNotifyIcon orderInfo.fieldFlags) (horder : order.WellFormed orderInfo.fieldFlags)
    (hsize : ¬ order.Refused orderInfo.fieldFlags → order.size orderInfo.fieldFlags < 2 ^ 16) :
    ((UpdateOrder.notifyIconState orderInfo order).sender noHdr bounds).Delivers
      (orderInfo, notifyIconMessage orderInfo.fieldFlags (order.present orderInfo.fieldFlags)) ↔
        order.Refused orderInfo.fieldFlags ∨ order.FitsWire orderInfo.fieldFlags := by
  have hstrict : ((UpdateOrder.notifyIconState orderInfo order).sender noHdr bounds).Strict :=
    ⟨rfl, rfl, rfl⟩
  have hbytes : ((UpdateOrder.notifyIconState orderInfo order).sender noHdr bounds).order =
      (UpdateOrder.notifyIconState orderInfo order).bytes noHdr bounds := rfl
  by_cases hrefused : order.Refused orderInfo.fieldFlags
  · refine iff_of_true (hstrict.delivers_of_none ?_) (.inl hrefused)
    rw [hbytes, UpdateOrder.bytes, writtenBy_steps_of_refused hrefused]
    rfl
  · have hlt := hsize hrefused
    have hcalculate : updateCalculateNewOrExistingNotificationIconsOrder orderInfo order =
        order.size orderInfo.fieldFlags := by
      rw [updateCalculateNotificationIconsOrder_eq, Nat.mod_eq_of_lt hlt]
    have htyped : Reads (updateRecvTypedOrder orderInfo.fieldFlags)
        (le32 orderInfo.windowId ++ (le32 orderInfo.notifyIconId ++ order.body orderInfo.fieldFlags))
        (orderInfo, notifyIconMessage orderInfo.fieldFlags
          (order.onWire.present orderInfo.fieldFlags)) := by
      rw [updateRecvTypedOrder, if_neg (not_not.mpr hflags.window), if_pos hflags.type]
      refine Reads.need (by simp; omega) ((Reads.u32le hinfo.windowId).bind
        ((Reads.u32le hinfo.notifyIconId).bind ?_))
      rw [if_neg (not_not.mpr hflags.deleted)]
      exact (horder.reads_body hflags.icon hlt).map rfl
    rw [or_iff_right hrefused, hstrict.delivers_iff_of_typed ?_ ?_ ?_ hinfo.fieldFlags
      (.inr (.inl hflags.type)) htyped rfl rfl, ← NotifyIconStateOrder.onWire_present]
    · exact ⟨fun h => notifyIconMessage_inj.mp (Prod.mk.inj h).2, fun h => by rw [h]⟩
    · rw [hbytes, UpdateOrder.bytes, writtenBy_steps hrefused, Option.map_some, writeWindowHeader,
        List.cons_append, List.append_assoc, List.append_assoc, List.append_assoc]
      rfl
    · refine Eq.trans ?_ hcalculate.symm
      rw [List.length_append, List.length_append, length_le32, length_le32, ← length_body]
      omega
    · exact hcalculate.trans_lt hlt

theorem monitoredDesktop_delivers {order : MonitoredDesktopOrder} (hinfo : orderInfo.WellFormed)
    (hflags : IsMonitoredDesktop orderInfo.fieldFlags) (horder : order.WellFormed) :
    ((UpdateOrder.monitoredDesktop orderInfo order).sender noHdr bounds).Delivers
      ({ orderInfo with windowId := 0, notifyIconId := 0 },
        .monitoredDesktop (order.present orderInfo.fieldFlags)) := by
  have hlength := horder.length_write orderInfo
  have htyped : Reads (updateRecvTypedOrder orderInfo.fieldFlags)
      (writeMonitoredDesktop orderInfo.fieldFlags order)
      ({ orderInfo with windowId := 0, notifyIconId := 0 },
        .monitoredDesktop (order.present orderInfo.fieldFlags)) := by
    rw [updateRecvTypedOrder, if_neg (not_not.mpr hflags.window), if_neg (not_not.mpr hflags.notify),
      updateRecvDesktopInfoOrder, if_neg (not_not.mpr hflags.monitored)]
    exact horder.reads_body.map rfl
  have hstrict : ((UpdateOrder.monitoredDesktop orderInfo order).sender noHdr bounds).Strict :=
    strict_window _ _ _ _
  refine (hstrict.delivers_iff_of_typed (order_window _ _ _ _) hlength ?_ hinfo.fieldFlags
    (.inr (.inr hflags.type)) htyped rfl rfl).mpr rfl
  exact Nat.mod_lt _ (by decide)

end Delivers

/-- What is delivered is what has been sent if and only if the numbers of an icon fit their bytes. -/
theorem updateOrder_delivers_iff {o : UpdateOrder} (noHdr : Bool) (bounds : ServerBounds) (h : Expects o r)
    (hlength : ∀ bs, o.bytes noHdr bounds = some bs → bs.length ≤ 65535) :
    (o.sender noHdr bounds).Delivers r ↔ o.FitsWire := by
  cases h with
  | @windowIcon orderInfo iconInfo hinfo hflags hicon =>
    refine windowIcon_delivers_iff hinfo hflags hicon ?_
    have hle := hlength _ rfl
    rw [List.length_cons, List.length_append, length_writeWindowHeader, length_writeIconInfo] at hle
    omega
  | @notifyIconState orderInfo order hinfo hflags horder =>
    refine notifyIconState_delivers_iff hinfo hflags horder fun hrefused => ?_
    rw [UpdateOrder.bytes, writtenBy_steps hrefused, Option.map_some] at hlength
    have hle := hlength _ rfl
    rw [List.length_append, List.length_cons, List.length_append, length_writeWindowHeader, length_le32,
      length_body] at hle
    omega
  | monitoredDesktop hinfo hflags horder =>
    exact iff_of_true (monitoredDesktop_delivers hinfo hflags horder) trivial

/-- An icon of one pixel with a color table. -/
theorem updateOrder_delivers_icon :
    ((UpdateOrder.windowIcon ⟨7, 0x41000000, 0⟩ ⟨3, 2, 4, 1, 1, [0x80], [1, 2, 3, 0], [0x10]⟩).sender false
      ⟨Bounds.zero, Bounds.zero⟩).Delivers
        (⟨7, 0x41000000, 0⟩, .windowIcon ⟨3, 2, 4, 1, 1, [0x80], [1, 2, 3, 0], [0x10]⟩) := by
  have hexpects : Expects (.windowIcon ⟨7, 0x41000000, 0⟩ ⟨3, 2, 4, 1, 1, [0x80], [1, 2, 3, 0], [0x10]⟩)
      (⟨7, 0x41000000, 0⟩, .windowIcon ⟨3, 2, 4, 1, 1, [0x80], [1, 2, 3, 0], [0x10]⟩) :=
    .windowIcon ⟨by decide, by decide, by decide⟩ ⟨by decide, by decide⟩
      (by unfold IconInfo.HasDepth; decide)
  refine (updateOrder_delivers_iff false _ hexpects fun bs hbs => ?_).mpr
    ⟨by decide, by decide, by decide, by decide⟩
  rw [← Option.some.inj hbs]
  decide

/-- The number of a cache entry that is not in two bytes. -/
theorem not_updateOrder_delivers_cacheEntry :
    ∃ (o : UpdateOrder) (r : WindowOrderInfo × WindowMessage), Expects o r ∧
      (∀ bs, o.bytes false ⟨Bounds.zero, Bounds.zero⟩ = some bs → bs.length ≤ 65535) ∧
      ¬ (o.sender false ⟨Bounds.zero, Bounds.zero⟩).Delivers r := by
  have hinfo : WindowOrderInfo.WellFormed ⟨7, 0x41000000, 0⟩ := ⟨by decide, by decide, by decide⟩
  have hflags : IsWindowIcon 0x41000000 := ⟨by decide, by decide⟩
  have hicon : IconInfo.HasDepth ⟨65536, 2, 32, 1, 1, [0x80], [], [1, 2, 3, 4]⟩ := by
    unfold IconInfo.HasDepth
    decide
  refine ⟨.windowIcon ⟨7, 0x41000000, 0⟩ ⟨65536, 2, 32, 1, 1, [0x80], [], [1, 2, 3, 4]⟩, _,
    .windowIcon hinfo hflags hicon, fun bs hbs => ?_, fun h => ?_⟩
  · rw [← Option.some.inj hbs]
    decide
  · have hfits := (windowIcon_delivers_iff hinfo hflags hicon (by decide)).mp h
    exact absurd hfits.cacheEntry (by decide)

end FreeRDP.Orders
