import Mathlib.Tactic.Ring
import FreeRDP.Orders.Window

/-!
# Window state orders

Each field that is written is read back (`reads_readField`).  Where the order says that there are no
rectangles in the window, the reader does not read the fields behind them; `roundTrips_iff` says when
this, or a byte that is too small for its value, makes a difference.
-/

namespace FreeRDP.Orders

open Wire

variable {α β : Type} {fieldFlags flag : ℕ} {order : WindowStateOrder} {bs rest : List UInt8}

/-! ### Fields -/

/-- The value of a field, or `absent` if its flag is not set. -/
def ifField (fieldFlags flag : ℕ) (a absent : α) : α := if fieldFlags &&& flag ≠ 0 then a else absent

theorem reads_readField {r : Reader α} {a : α} (absent : α) (h : Reads r bs a) :
    Reads (readField fieldFlags flag absent r) (writeField fieldFlags flag bs)
      (ifField fieldFlags flag a absent) := by
  unfold readField writeField ifField
  split_ifs
  · exact h
  · exact Reads.pure absent

theorem reads_readField_pair {r : Reader (α × β)} {a : α} {b : β} (a₀ : α) (b₀ : β)
    (h : Reads r bs (a, b)) :
    Reads (readField fieldFlags flag (a₀, b₀) r) (writeField fieldFlags flag bs)
      (ifField fieldFlags flag a a₀, ifField fieldFlags flag b b₀) := by
  unfold readField writeField ifField
  split_ifs
  · exact h
  · exact Reads.pure (a₀, b₀)

theorem reads_readByte (n : ℕ) : Reads readByte (byte n) (n % 2 ^ 8) := by
  refine Reads.need (Nat.le_refl 1) fun rest => ?_
  exact congrArg (fun k => some (k, rest)) (UInt8.toNat_ofNat' (n := n))

theorem reads_readUint32 {n : ℕ} (hn : n < 2 ^ 32) : Reads readUint32 (le32 n) n :=
  Reads.need (Nat.le_refl 4) (Reads.u32le hn)

theorem reads_readUint32s {m n : ℕ} (hm : m < 2 ^ 32) (hn : n < 2 ^ 32) :
    Reads readUint32s (le32 m ++ le32 n) (m, n) :=
  Reads.need (Nat.le_refl 8) ((Reads.u32le hm).bind ((Reads.u32le hn).map rfl))

/-- A value of type `INT32`. -/
def IsInt32 (value : ℤ) : Prop := -2 ^ 31 ≤ value ∧ value < 2 ^ 31

instance (value : ℤ) : Decidable (IsInt32 value) := inferInstanceAs (Decidable (_ ∧ _))

theorem signed_writeInt32 {value : ℤ} (h : IsInt32 value) : signed 32 (value % 2 ^ 32).toNat = value := by
  obtain ⟨hlow, hhigh⟩ := h
  have hcast : (((value % 2 ^ 32).toNat : ℕ) : ℤ) = value % 2 ^ 32 := by omega
  rw [signed, hcast, Int.bmod_def]
  split_ifs <;> omega

theorem reads_readInt32s {m n : ℤ} (hm : IsInt32 m) (hn : IsInt32 n) :
    Reads readInt32s (writeInt32 m ++ writeInt32 n) (m, n) := by
  have hm' : (m % 2 ^ 32).toNat < 2 ^ 32 := by omega
  have hn' : (n % 2 ^ 32).toNat < 2 ^ 32 := by omega
  refine Reads.need (Nat.le_refl 8) ((Reads.u32le hm').bind ((Reads.u32le hn').map ?_))
  rw [signed_writeInt32 hm, signed_writeInt32 hn]

theorem reads_railReadUnicodeString {string : List UInt8} (h : string.length < 2 ^ 16) :
    Reads railReadUnicodeString (writeUnicodeString string) string := by
  refine Reads.need (by simp [writeUnicodeString, le16]) ((Reads.u16le h).bind ?_)
  refine Reads.need (Nat.le_refl _) ?_
  cases string with
  | nil => exact Reads.pure []
  | cons c string =>
    have hne : (c :: string).length ≠ 0 := Nat.succ_ne_zero _
    rw [if_neg hne]
    exact Reads.bytes rfl

/-! ### Rectangles -/

/-- The sides of a rectangle fit their bytes. -/
structure Rectangle16.WellFormed (rect : Rectangle16) : Prop where
  left : rect.left < 2 ^ 16
  top : rect.top < 2 ^ 16
  right : rect.right < 2 ^ 16
  bottom : rect.bottom < 2 ^ 16

theorem Rectangle16.WellFormed.reads {rect : Rectangle16} (h : rect.WellFormed) :
    Reads readRectangle16 (writeRectangle16 rect) rect :=
  (Reads.u16le h.left).bind ((Reads.u16le h.top).bind
    ((Reads.u16le h.right).bind ((Reads.u16le h.bottom).map rfl)))

theorem length_flatMap_writeRectangle16 (rects : List Rectangle16) :
    (rects.flatMap writeRectangle16).length = rects.length * 8 := by
  induction rects with
  | nil => rfl
  | cons rect rects ih =>
    have hrect : (writeRectangle16 rect).length = 8 := rfl
    rw [List.flatMap_cons, List.length_append, ih, hrect, List.length_cons]
    omega

/-- A list of rectangles that is as long as it says. -/
structure IsRects (number : ℕ) (rects : List Rectangle16) : Prop where
  number_lt : number < 2 ^ 16
  length : rects.length = number
  wellFormed : ∀ rect ∈ rects, rect.WellFormed

theorem IsRects.reads {number : ℕ} {rects : List Rectangle16} (h : IsRects number rects) :
    Reads (many readRectangle16 number) (rects.flatMap writeRectangle16) rects := by
  obtain ⟨-, rfl, hrects⟩ := h
  exact Reads.many fun rect hrect => (hrects rect hrect).reads

theorem reads_readVisibilityRects {number : ℕ} {rects : List Rectangle16} (h : IsRects number rects) :
    Reads readVisibilityRects (writeRects number rects) (number, rects) := by
  unfold writeRects
  rw [List.take_of_length_le h.length.le]
  refine Reads.need (by simp [le16]) ((Reads.u16le h.number_lt).bind ?_)
  split_ifs with hzero
  · refine Reads.need ?_ (h.reads.map rfl)
    rw [length_flatMap_writeRectangle16, h.length]
  · obtain rfl : number = 0 := not_not.mp hzero
    obtain rfl := List.length_eq_zero_iff.mp h.length
    exact Reads.pure _

/-! ### Window state orders -/

/-- The fields fit the types of the structure, and the rectangles are as many as their counts say. -/
structure WindowStateOrder.WellFormed (order : WindowStateOrder) : Prop where
  ownerWindowId : order.ownerWindowId < 2 ^ 32
  style : order.style < 2 ^ 32
  extendedStyle : order.extendedStyle < 2 ^ 32
  showState : order.showState < 2 ^ 32
  titleInfo : order.titleInfo.length < 2 ^ 16
  clientOffsetX : IsInt32 order.clientOffsetX
  clientOffsetY : IsInt32 order.clientOffsetY
  clientAreaWidth : order.clientAreaWidth < 2 ^ 32
  clientAreaHeight : order.clientAreaHeight < 2 ^ 32
  RPContent : order.RPContent < 2 ^ 32
  rootParentHandle : order.rootParentHandle < 2 ^ 32
  windowOffsetX : IsInt32 order.windowOffsetX
  windowOffsetY : IsInt32 order.windowOffsetY
  windowClientDeltaX : IsInt32 order.windowClientDeltaX
  windowClientDeltaY : IsInt32 order.windowClientDeltaY
  windowWidth : order.windowWidth < 2 ^ 32
  windowHeight : order.windowHeight < 2 ^ 32
  windowRects : IsRects order.numWindowRects order.windowRects
  visibleOffsetX : IsInt32 order.visibleOffsetX
  visibleOffsetY : IsInt32 order.visibleOffsetY
  resizeMarginLeft : order.resizeMarginLeft < 2 ^ 32
  resizeMarginTop : order.resizeMarginTop < 2 ^ 32
  resizeMarginRight : order.resizeMarginRight < 2 ^ 32
  resizeMarginBottom : order.resizeMarginBottom < 2 ^ 32
  visibilityRects : IsRects order.numVisibilityRects order.visibilityRects
  OverlayDescription : order.OverlayDescription.length < 2 ^ 16
  TaskbarButton : order.TaskbarButton < 2 ^ 8
  EnforceServerZOrder : order.EnforceServerZOrder < 2 ^ 8
  AppBarState : order.AppBarState < 2 ^ 8
  AppBarEdge : order.AppBarEdge < 2 ^ 8

/-- The fields in front of the rectangles of the window that are present, and zeros. -/
def WindowStateOrder.head (fieldFlags : ℕ) (order : WindowStateOrder) : WindowStateOrder :=
  { WindowStateOrder.zero with
    ownerWindowId := ifField fieldFlags WINDOW_ORDER_FIELD_OWNER order.ownerWindowId 0
    style := ifField fieldFlags WINDOW_ORDER_FIELD_STYLE order.style 0
    extendedStyle := ifField fieldFlags WINDOW_ORDER_FIELD_STYLE order.extendedStyle 0
    showState := ifField fieldFlags WINDOW_ORDER_FIELD_SHOW order.showState 0
    titleInfo := ifField fieldFlags WINDOW_ORDER_FIELD_TITLE order.titleInfo []
    clientOffsetX := ifField fieldFlags WINDOW_ORDER_FIELD_CLIENT_AREA_OFFSET order.clientOffsetX 0
    clientOffsetY := ifField fieldFlags WINDOW_ORDER_FIELD_CLIENT_AREA_OFFSET order.clientOffsetY 0
    clientAreaWidth := ifField fieldFlags WINDOW_ORDER_FIELD_CLIENT_AREA_SIZE order.clientAreaWidth 0
    clientAreaHeight := ifField fieldFlags WINDOW_ORDER_FIELD_CLIENT_AREA_SIZE order.clientAreaHeight 0
    resizeMarginLeft := ifField fieldFlags WINDOW_ORDER_FIELD_RESIZE_MARGIN_X order.resizeMarginLeft 0
    resizeMarginRight := ifField fieldFlags WINDOW_ORDER_FIELD_RESIZE_MARGIN_X order.resizeMarginRight 0
    resizeMarginTop := ifField fieldFlags WINDOW_ORDER_FIELD_RESIZE_MARGIN_Y order.resizeMarginTop 0
    resizeMarginBottom := ifField fieldFlags WINDOW_ORDER_FIELD_RESIZE_MARGIN_Y order.resizeMarginBottom 0
    RPContent := ifField fieldFlags WINDOW_ORDER_FIELD_RP_CONTENT order.RPContent 0
    rootParentHandle := ifField fieldFlags WINDOW_ORDER_FIELD_ROOT_PARENT order.rootParentHandle 0
    windowOffsetX := ifField fieldFlags WINDOW_ORDER_FIELD_WND_OFFSET order.windowOffsetX 0
    windowOffsetY := ifField fieldFlags WINDOW_ORDER_FIELD_WND_OFFSET order.windowOffsetY 0
    windowClientDeltaX := ifField fieldFlags WINDOW_ORDER_FIELD_WND_CLIENT_DELTA order.windowClientDeltaX 0
    windowClientDeltaY := ifField fieldFlags WINDOW_ORDER_FIELD_WND_CLIENT_DELTA order.windowClientDeltaY 0
    windowWidth := ifField fieldFlags WINDOW_ORDER_FIELD_WND_SIZE order.windowWidth 0
    windowHeight := ifField fieldFlags WINDOW_ORDER_FIELD_WND_SIZE order.windowHeight 0 }

/-- A structure that is given the fields behind the rectangles of the window that are present, and zeros. -/
def WindowStateOrder.tail (fieldFlags : ℕ) (order windowState : WindowStateOrder) : WindowStateOrder :=
  { windowState with
    visibleOffsetX := ifField fieldFlags WINDOW_ORDER_FIELD_VIS_OFFSET order.visibleOffsetX 0
    visibleOffsetY := ifField fieldFlags WINDOW_ORDER_FIELD_VIS_OFFSET order.visibleOffsetY 0
    numVisibilityRects := ifField fieldFlags WINDOW_ORDER_FIELD_VISIBILITY order.numVisibilityRects 0
    visibilityRects := ifField fieldFlags WINDOW_ORDER_FIELD_VISIBILITY order.visibilityRects []
    OverlayDescription := ifField fieldFlags WINDOW_ORDER_FIELD_OVERLAY_DESCRIPTION
      order.OverlayDescription []
    TaskbarButton := ifField fieldFlags WINDOW_ORDER_FIELD_TASKBAR_BUTTON order.TaskbarButton 0
    EnforceServerZOrder := ifField fieldFlags WINDOW_ORDER_FIELD_ENFORCE_SERVER_ZORDER
      order.EnforceServerZOrder 0
    AppBarState := ifField fieldFlags WINDOW_ORDER_FIELD_APPBAR_STATE order.AppBarState 0
    AppBarEdge := ifField fieldFlags WINDOW_ORDER_FIELD_APPBAR_EDGE order.AppBarEdge 0 }

def WindowStateOrder.present (fieldFlags : ℕ) (order : WindowStateOrder) : WindowStateOrder :=
  order.tail fieldFlags
    { order.head fieldFlags with
      numWindowRects := ifField fieldFlags WINDOW_ORDER_FIELD_WND_RECTS order.numWindowRects 0
      windowRects := ifField fieldFlags WINDOW_ORDER_FIELD_WND_RECTS order.windowRects [] }

/-- The order with the bytes that are written for `showState` and `RPContent`. -/
def WindowStateOrder.onWire (order : WindowStateOrder) : WindowStateOrder :=
  { order with showState := order.showState % 2 ^ 8, RPContent := order.RPContent % 2 ^ 8 }

theorem WindowStateOrder.WellFormed.reads_head (h : order.WellFormed) :
    Reads (readWindowStateHead fieldFlags) (writeWindowStateHead fieldFlags order)
      (order.onWire.head fieldFlags) :=
  (reads_readField 0 (reads_readUint32 h.ownerWindowId)).bind <|
  (reads_readField_pair 0 0 (reads_readUint32s h.style h.extendedStyle)).bind <|
  (reads_readField 0 (reads_readByte order.showState)).bind <|
  (reads_readField [] (reads_railReadUnicodeString h.titleInfo)).bind <|
  (reads_readField_pair 0 0 (reads_readInt32s h.clientOffsetX h.clientOffsetY)).bind <|
  (reads_readField_pair 0 0 (reads_readUint32s h.clientAreaWidth h.clientAreaHeight)).bind <|
  (reads_readField_pair 0 0 (reads_readUint32s h.resizeMarginLeft h.resizeMarginRight)).bind <|
  (reads_readField_pair 0 0 (reads_readUint32s h.resizeMarginTop h.resizeMarginBottom)).bind <|
  (reads_readField 0 (reads_readByte order.RPContent)).bind <|
  (reads_readField 0 (reads_readUint32 h.rootParentHandle)).bind <|
  (reads_readField_pair 0 0 (reads_readInt32s h.windowOffsetX h.windowOffsetY)).bind <|
  (reads_readField_pair 0 0 (reads_readInt32s h.windowClientDeltaX h.windowClientDeltaY)).bind <|
  (reads_readField_pair 0 0 (reads_readUint32s h.windowWidth h.windowHeight)).map rfl

theorem WindowStateOrder.WellFormed.reads_tail (h : order.WellFormed) (windowState : WindowStateOrder) :
    Reads (readWindowStateTail fieldFlags windowState) (writeWindowStateTail fieldFlags order)
      (order.tail fieldFlags windowState) := by
  have hbyte {n : ℕ} (hn : n < 2 ^ 8) : Reads readByte (byte n) n := by
    have hread := reads_readByte n
    rwa [Nat.mod_eq_of_lt hn] at hread
  exact (reads_readField_pair 0 0 (reads_readInt32s h.visibleOffsetX h.visibleOffsetY)).bind <|
    (reads_readField_pair 0 [] (reads_readVisibilityRects h.visibilityRects)).bind <|
    (reads_readField [] (reads_railReadUnicodeString h.OverlayDescription)).bind <|
    (reads_readField 0 (hbyte h.TaskbarButton)).bind <|
    (reads_readField 0 (hbyte h.EnforceServerZOrder)).bind <|
    (reads_readField 0 (hbyte h.AppBarState)).bind <|
    (reads_readField 0 (hbyte h.AppBarEdge)).map rfl

/-! ### Orders without rectangles -/

/-- The flags of the fields behind the rectangles of the window. -/
def windowOrderFieldsTail : ℕ :=
  WINDOW_ORDER_FIELD_VIS_OFFSET |||
    (WINDOW_ORDER_FIELD_VISIBILITY ||| (WINDOW_ORDER_FIELD_OVERLAY_DESCRIPTION |||
    (WINDOW_ORDER_FIELD_TASKBAR_BUTTON ||| (WINDOW_ORDER_FIELD_ENFORCE_SERVER_ZORDER |||
    (WINDOW_ORDER_FIELD_APPBAR_STATE ||| WINDOW_ORDER_FIELD_APPBAR_EDGE)))))

/-- The order says that the window has no rectangles, and fields follow. -/
def WindowStateOrder.CutOff (fieldFlags : ℕ) (order : WindowStateOrder) : Prop :=
  fieldFlags &&& WINDOW_ORDER_FIELD_WND_RECTS ≠ 0 ∧ order.numWindowRects = 0 ∧
    fieldFlags &&& windowOrderFieldsTail ≠ 0

instance (fieldFlags : ℕ) (order : WindowStateOrder) : Decidable (order.CutOff fieldFlags) :=
  inferInstanceAs (Decidable (_ ∧ _ ∧ _))

theorem and_windowOrderFieldsTail : fieldFlags &&& windowOrderFieldsTail = 0 ↔
    fieldFlags &&& WINDOW_ORDER_FIELD_VIS_OFFSET = 0 ∧ fieldFlags &&& WINDOW_ORDER_FIELD_VISIBILITY = 0 ∧
    fieldFlags &&& WINDOW_ORDER_FIELD_OVERLAY_DESCRIPTION = 0 ∧
    fieldFlags &&& WINDOW_ORDER_FIELD_TASKBAR_BUTTON = 0 ∧
    fieldFlags &&& WINDOW_ORDER_FIELD_ENFORCE_SERVER_ZORDER = 0 ∧
    fieldFlags &&& WINDOW_ORDER_FIELD_APPBAR_STATE = 0 ∧
      fieldFlags &&& WINDOW_ORDER_FIELD_APPBAR_EDGE = 0 := by
  simp only [windowOrderFieldsTail, Nat.and_or_distrib_left, Nat.or_eq_zero_iff]

theorem writeField_eq_nil (h : bs ≠ []) : writeField fieldFlags flag bs = [] ↔ fieldFlags &&& flag = 0 := by
  unfold writeField
  split_ifs with hflag
  · exact iff_of_false h hflag
  · exact iff_of_true rfl (not_not.mp hflag)

theorem writeWindowStateTail_eq_nil :
    writeWindowStateTail fieldFlags order = [] ↔ fieldFlags &&& windowOrderFieldsTail = 0 := by
  have hint (m n : ℤ) : writeInt32 m ++ writeInt32 n ≠ [] := List.cons_ne_nil _ _
  have hrects (n : ℕ) (rects : List Rectangle16) : writeRects n rects ≠ [] := List.cons_ne_nil _ _
  have hstring (string : List UInt8) : writeUnicodeString string ≠ [] := List.cons_ne_nil _ _
  have hbyte (n : ℕ) : byte n ≠ [] := List.cons_ne_nil _ _
  rw [and_windowOrderFieldsTail, writeWindowStateTail]
  simp only [List.append_eq_nil_iff, writeField_eq_nil (hint _ _), writeField_eq_nil (hrects _ _),
    writeField_eq_nil (hstring _), writeField_eq_nil (hbyte _)]

theorem WindowStateOrder.tail_of_absent (habsent : fieldFlags &&& windowOrderFieldsTail = 0)
    (order order' : WindowStateOrder) :
    order.tail fieldFlags (order'.head fieldFlags) = order'.head fieldFlags := by
  obtain ⟨h₁, h₂, h₃, h₄, h₅, h₆, h₇⟩ := and_windowOrderFieldsTail.mp habsent
  simp [WindowStateOrder.tail, WindowStateOrder.head, WindowStateOrder.zero, ifField, h₁, h₂, h₃,
    h₄, h₅, h₆, h₇]

theorem WindowStateOrder.WellFormed.reads_state (h : order.WellFormed) (hcut : ¬ order.CutOff fieldFlags) :
    Reads (updateReadWindowStateOrder fieldFlags)
      (writeWindowStateHead fieldFlags order ++
        (writeField fieldFlags WINDOW_ORDER_FIELD_WND_RECTS
          (writeRects order.numWindowRects order.windowRects) ++
          writeWindowStateTail fieldFlags order))
      (order.onWire.present fieldFlags) := by
  refine h.reads_head.bind ?_
  unfold WindowStateOrder.present writeField ifField
  split_ifs with hflag
  · unfold writeRects
    rw [List.take_of_length_le h.windowRects.length.le, List.append_assoc]
    refine Reads.need (by simp [le16]) ((Reads.u16le h.windowRects.number_lt).bind ?_)
    split_ifs with hzero
    · have habsent : fieldFlags &&& windowOrderFieldsTail = 0 := by
        by_contra hpresent
        exact hcut ⟨hflag, hzero, hpresent⟩
      have hnil : order.windowRects = [] := List.length_eq_zero_iff.mp (h.windowRects.length.trans hzero)
      have hhead : order.onWire.tail fieldFlags { order.onWire.head fieldFlags with
          numWindowRects := order.numWindowRects, windowRects := order.windowRects } =
          order.onWire.head fieldFlags := by
        rw [hzero, hnil]
        exact WindowStateOrder.tail_of_absent habsent _ _
      rw [writeWindowStateTail_eq_nil.mpr habsent, hnil]
      exact hhead ▸ Reads.pure _
    · have hlength : 8 * order.numWindowRects ≤
          (order.windowRects.flatMap writeRectangle16 ++ writeWindowStateTail fieldFlags order).length := by
        rw [List.length_append, length_flatMap_writeRectangle16, h.windowRects.length]
        omega
      exact Reads.need hlength (h.windowRects.reads.bind (h.reads_tail _))
  · exact h.reads_tail _

/-- Where there are no rectangles, the reader stops. -/
theorem WindowStateOrder.WellFormed.reads_state_cutOff (h : order.WellFormed)
    (hcut : order.CutOff fieldFlags) :
    Reads (updateReadWindowStateOrder fieldFlags) (writeWindowStateHead fieldFlags order ++ le16 0)
      (order.onWire.head fieldFlags) := by
  refine h.reads_head.bind ?_
  rw [if_pos hcut.1]
  exact Reads.need (by simp [le16]) ((Reads.u16le (by decide)).last (Reads.pure _))

/-! ### The length -/

theorem length_writeField (fieldFlags flag : ℕ) (bs : List UInt8) :
    (writeField fieldFlags flag bs).length = if fieldFlags &&& flag ≠ 0 then bs.length else 0 := by
  unfold writeField
  split_ifs <;> rfl

/-- The size is kept in a `UINT16`. -/
theorem updateCalculateNewOrExistingWindow_eq (fieldFlags : ℕ) (order : WindowStateOrder) :
    updateCalculateNewOrExistingWindow fieldFlags order = order.size fieldFlags % 2 ^ 16 := rfl

theorem length_writeUnicodeString (string : List UInt8) :
    (writeUnicodeString string).length = 2 + string.length := by
  rw [writeUnicodeString, List.length_append, length_le16]

theorem length_writeRects {number : ℕ} {rects : List Rectangle16} (h : rects.length = number) :
    (writeRects number rects).length = 2 + number * 8 := by
  rw [writeRects, List.take_of_length_le h.le, List.length_append, length_flatMap_writeRectangle16, h,
    length_le16]

/-- The three lists of fields agree on their widths. -/
theorem WindowStateOrder.length_send (hwindow : order.windowRects.length = order.numWindowRects)
    (hvisibility : order.visibilityRects.length = order.numVisibilityRects) (orderInfo : WindowOrderInfo) :
    (updateSendNewOrExistingWindow orderInfo order).length = order.size orderInfo.fieldFlags := by
  have hint (m n : ℤ) : (writeInt32 m ++ writeInt32 n).length = 8 := rfl
  have huint (m n : ℕ) : (le32 m ++ le32 n).length = 8 := rfl
  unfold WindowStateOrder.size
  simp only [updateSendNewOrExistingWindow, writeWindowStateHead, writeWindowStateTail, List.length_append,
    length_writeField, hint, huint, length_writeRects hwindow, length_writeRects hvisibility,
    length_writeUnicodeString, length_byte, length_le32, length_le16]
  ring

theorem WindowStateOrder.WellFormed.length_send (h : order.WellFormed) (orderInfo : WindowOrderInfo)
    (hlen : (updateSendNewOrExistingWindow orderInfo order).length ≤ 65535) :
    (updateSendNewOrExistingWindow orderInfo order).length =
      updateCalculateNewOrExistingWindow orderInfo.fieldFlags order := by
  have hsize := WindowStateOrder.length_send h.windowRects.length h.visibilityRects.length orderInfo
  rw [updateCalculateNewOrExistingWindow_eq, ← hsize, Nat.mod_eq_of_lt (by omega)]

/-! ### The round trip -/

def windowMessage (fieldFlags : ℕ) (order : WindowStateOrder) : WindowMessage :=
  if fieldFlags &&& WINDOW_ORDER_STATE_NEW ≠ 0 then .windowCreate order else .windowUpdate order

/-- The header of a window state order, which is neither for an icon nor for a window that is gone. -/
structure WindowOrderInfo.IsState (orderInfo : WindowOrderInfo) : Prop where
  windowId : orderInfo.windowId < 2 ^ 32
  fieldFlags : orderInfo.fieldFlags < 2 ^ 32
  type : orderInfo.fieldFlags &&& WINDOW_ORDER_TYPE_WINDOW ≠ 0
  icon : orderInfo.fieldFlags &&& WINDOW_ORDER_ICON = 0
  cachedIcon : orderInfo.fieldFlags &&& WINDOW_ORDER_CACHED_ICON = 0
  deleted : orderInfo.fieldFlags &&& WINDOW_ORDER_STATE_DELETED = 0

/-- What `update_recv_altsec_window_order` calls for an order that has a type. -/
def updateRecvTypedOrder (fieldFlags : ℕ) : Reader (WindowOrderInfo × WindowMessage) :=
  if fieldFlags &&& WINDOW_ORDER_TYPE_WINDOW ≠ 0 then updateRecvWindowInfoOrder fieldFlags
  else if fieldFlags &&& WINDOW_ORDER_TYPE_NOTIFY ≠ 0 then updateRecvNotificationIconInfoOrder fieldFlags
  else updateRecvDesktopInfoOrder fieldFlags

def HasType (fieldFlags : ℕ) : Prop :=
  fieldFlags &&& WINDOW_ORDER_TYPE_WINDOW ≠ 0 ∨ fieldFlags &&& WINDOW_ORDER_TYPE_NOTIFY ≠ 0 ∨
    fieldFlags &&& WINDOW_ORDER_TYPE_DESKTOP ≠ 0

/-- A client takes an order that it supports and that is as long as it says. -/
theorem updateRecvAltsecWindowOrder_of_typed {settings : WindowSettings} {orderSize : ℕ}
    {r : WindowOrderInfo × WindowMessage} (hflags : fieldFlags < 2 ^ 32) (htype : HasType fieldFlags)
    (hsupported : windowOrderSupported settings fieldFlags = true) (horderSize : orderSize < 2 ^ 16)
    (hreads : Reads (updateRecvTypedOrder fieldFlags) bs r)
    (hlen : orderSize ≤ 7 + bs.length + rest.length) :
    updateRecvAltsecWindowOrder settings (le16 orderSize ++ (le32 fieldFlags ++ bs) ++ rest) =
      some (some r, rest) := by
  have hsize : ¬ (le16 orderSize ++ (le32 fieldFlags ++ bs) ++ rest).length + 1 < orderSize := by
    simp only [List.length_append, length_le16, length_le32]
    omega
  refine Reads.need (by simp; omega) ((Reads.u16le horderSize).bind ((Reads.u32le hflags).bind ?_)) rest
  refine Reads.skip (Reads.check hsize) (Reads.skip (Reads.check hsupported) ?_)
  unfold updateRecvTypedOrder at hreads
  by_cases hwindow : fieldFlags &&& WINDOW_ORDER_TYPE_WINDOW ≠ 0
  · rw [if_pos hwindow] at hreads ⊢
    exact hreads.map rfl
  · rw [if_neg hwindow] at hreads ⊢
    by_cases hnotify : fieldFlags &&& WINDOW_ORDER_TYPE_NOTIFY ≠ 0
    · rw [if_pos hnotify] at hreads ⊢
      exact hreads.map rfl
    · rw [if_neg hnotify] at hreads ⊢
      rw [if_pos ((htype.resolve_left hwindow).resolve_left hnotify)]
      exact hreads.map rfl

/-- A client is given what `update_read_window_state_order` reads behind the header. -/
theorem updateRecvAltsecWindowOrder_of_reads {orderInfo : WindowOrderInfo} {order' : WindowStateOrder}
    {settings : WindowSettings} {orderSize : ℕ} (hinfo : orderInfo.IsState)
    (hsupported : windowOrderSupported settings orderInfo.fieldFlags = true)
    (horderSize : orderSize < 2 ^ 16)
    (hreads : Reads (updateReadWindowStateOrder orderInfo.fieldFlags) bs order')
    (hlen : orderSize ≤ 11 + bs.length + rest.length) :
    updateRecvAltsecWindowOrder settings
      ((le16 orderSize ++ (le32 orderInfo.fieldFlags ++ (le32 orderInfo.windowId ++ bs))) ++ rest) =
      some (some ({ orderInfo with notifyIconId := 0 }, windowMessage orderInfo.fieldFlags order'),
        rest) := by
  have hwindow : Reads (updateRecvTypedOrder orderInfo.fieldFlags) (le32 orderInfo.windowId ++ bs)
      ({ orderInfo with notifyIconId := 0 }, windowMessage orderInfo.fieldFlags order') := by
    rw [updateRecvTypedOrder, if_pos hinfo.type]
    refine Reads.need (by simp) ((Reads.u32le hinfo.windowId).bind ?_)
    rw [if_neg (not_not.mpr hinfo.icon), if_neg (not_not.mpr hinfo.cachedIcon),
      if_neg (not_not.mpr hinfo.deleted)]
    exact hreads.map rfl
  refine updateRecvAltsecWindowOrder_of_typed hinfo.fieldFlags
    (.inl hinfo.type) hsupported horderSize hwindow ?_
  rw [List.length_append, length_le32]
  omega

/-- An order has as many bytes as it says, and a client that supports it takes these bytes and no others
and is given the fields that are present. -/
structure WindowStateOrder.RoundTrips (orderInfo : WindowOrderInfo) (order : WindowStateOrder) : Prop where
  orderSize : (updateSendNewOrExistingWindow orderInfo order).length =
    updateCalculateNewOrExistingWindow orderInfo.fieldFlags order
  recv (settings : WindowSettings) (rest : List UInt8) :
    windowOrderSupported settings orderInfo.fieldFlags = true →
    updateRecvAltsecWindowOrder settings ((updateSendNewOrExistingWindow orderInfo order).tail ++ rest) =
      some (some ({ orderInfo with notifyIconId := 0 },
        windowMessage orderInfo.fieldFlags (order.present orderInfo.fieldFlags)), rest)

/-- The fields that are present and that are written in one byte are in one byte. -/
def WindowStateOrder.FitsWire (fieldFlags : ℕ) (order : WindowStateOrder) : Prop :=
  (fieldFlags &&& WINDOW_ORDER_FIELD_SHOW ≠ 0 → order.showState < 2 ^ 8) ∧
    (fieldFlags &&& WINDOW_ORDER_FIELD_RP_CONTENT ≠ 0 → order.RPContent < 2 ^ 8)

instance (fieldFlags : ℕ) (order : WindowStateOrder) : Decidable (order.FitsWire fieldFlags) :=
  inferInstanceAs (Decidable (_ ∧ _))

theorem ifField_mod_eq {n : ℕ} :
    ifField fieldFlags flag (n % 2 ^ 8) 0 = ifField fieldFlags flag n 0 ↔
      (fieldFlags &&& flag ≠ 0 → n < 2 ^ 8) := by
  unfold ifField
  split_ifs with hflag
  · exact ⟨fun h _ => h ▸ Nat.mod_lt n (by decide), fun h => Nat.mod_eq_of_lt (h hflag)⟩
  · exact iff_of_true rfl fun h => absurd h hflag

theorem WindowStateOrder.present_onWire :
    order.onWire.present fieldFlags = order.present fieldFlags ↔ order.FitsWire fieldFlags := by
  unfold WindowStateOrder.FitsWire
  rw [← ifField_mod_eq, ← ifField_mod_eq]
  constructor
  · intro h
    exact ⟨congrArg WindowStateOrder.showState h, congrArg WindowStateOrder.RPContent h⟩
  · rintro ⟨hshow, hcontent⟩
    simp only [present, tail, head, onWire, hshow, hcontent]

theorem windowMessage_injective (fieldFlags : ℕ) : Function.Injective (windowMessage fieldFlags) := by
  intro order order' h
  unfold windowMessage at h
  split_ifs at h
  · exact WindowMessage.windowCreate.inj h
  · exact WindowMessage.windowUpdate.inj h

/-- The condition under which a window state order arrives as it is. -/
theorem roundTrips_iff {orderInfo : WindowOrderInfo} (hinfo : orderInfo.IsState) (h : order.WellFormed)
    (hlen : (updateSendNewOrExistingWindow orderInfo order).length ≤ 65535) :
    order.RoundTrips orderInfo ↔
      ¬ order.CutOff orderInfo.fieldFlags ∧ order.FitsWire orderInfo.fieldFlags := by
  have horderSize := h.length_send orderInfo hlen
  have hsize : updateCalculateNewOrExistingWindow orderInfo.fieldFlags order < 2 ^ 16 := by omega
  let settings : WindowSettings := ⟨WINDOW_LEVEL_SUPPORTED_EX, false⟩
  have hsupported : windowOrderSupported settings orderInfo.fieldFlags = true := rfl
  by_cases hcut : order.CutOff orderInfo.fieldFlags
  · refine iff_of_false (fun hround => ?_) fun hcond => hcond.1 hcut
    have hnil : order.windowRects = [] := List.length_eq_zero_iff.mp (h.windowRects.length.trans hcut.2.1)
    have hbody : writeField orderInfo.fieldFlags WINDOW_ORDER_FIELD_WND_RECTS
        (writeRects order.numWindowRects order.windowRects) = le16 0 := by
      rw [writeField, if_pos hcut.1, hnil, hcut.2.1]
      rfl
    have hsend : (updateSendNewOrExistingWindow orderInfo order).tail ++ [] =
        (le16 (updateCalculateNewOrExistingWindow orderInfo.fieldFlags order) ++
          (le32 orderInfo.fieldFlags ++
          (le32 orderInfo.windowId ++ (writeWindowStateHead orderInfo.fieldFlags order ++ le16 0)))) ++
          writeWindowStateTail orderInfo.fieldFlags order := by
      rw [updateSendNewOrExistingWindow, hbody]
      simp [byte]
    have hrecv := hround.recv settings [] hsupported
    rw [hsend, updateRecvAltsecWindowOrder_of_reads hinfo hsupported hsize
      (h.reads_state_cutOff hcut)] at hrecv
    · have htail := (Prod.mk.inj (Option.some.inj hrecv)).2
      exact hcut.2.2 (writeWindowStateTail_eq_nil.mp htail)
    · have hlength := congrArg List.length hsend
      simp only [List.length_append, List.length_tail, length_le16, length_le32] at hlength ⊢
      omega
  · have hrecv {settings : WindowSettings} (rest : List UInt8)
        (hsupported : windowOrderSupported settings orderInfo.fieldFlags = true) :
        updateRecvAltsecWindowOrder settings
          ((updateSendNewOrExistingWindow orderInfo order).tail ++ rest) =
          some (some ({ orderInfo with notifyIconId := 0 },
            windowMessage orderInfo.fieldFlags (order.onWire.present orderInfo.fieldFlags)), rest) := by
      refine updateRecvAltsecWindowOrder_of_reads hinfo hsupported hsize (h.reads_state hcut) ?_
      rw [← horderSize, updateSendNewOrExistingWindow]
      simp only [List.length_append, length_byte, length_le16, length_le32]
      omega
    constructor
    · intro hround
      have hboth := (hrecv [] hsupported).symm.trans (hround.recv settings [] hsupported)
      have hpair := Option.some.inj (Prod.mk.inj (Option.some.inj hboth)).1
      exact ⟨hcut, WindowStateOrder.present_onWire.mp (windowMessage_injective _ (Prod.mk.inj hpair).2)⟩
    · rintro ⟨-, hfits⟩
      refine ⟨horderSize, fun settings rest hsupported => ?_⟩
      rw [hrecv rest hsupported, WindowStateOrder.present_onWire.mpr hfits]

theorem WindowStateOrder.wellFormed_zero : WindowStateOrder.zero.WellFormed := by
  have hrects : IsRects 0 [] := ⟨by decide, rfl, fun _ h => absurd h List.not_mem_nil⟩
  constructor <;> first | exact hrects | decide

/-- One rectangle, and then a taskbar button. -/
theorem roundTrips_rects :
    { WindowStateOrder.zero with numWindowRects := 1, windowRects := [⟨0, 0, 4, 3⟩], TaskbarButton := 1 }.RoundTrips
      ⟨7, 0x01800100, 0⟩ := by
  have hrects : IsRects 1 [⟨0, 0, 4, 3⟩] :=
    ⟨by decide, rfl, fun rect h => List.mem_singleton.mp h ▸ ⟨by decide, by decide, by decide, by decide⟩⟩
  have hinfo : WindowOrderInfo.IsState ⟨7, 0x01800100, 0⟩ :=
    ⟨by decide, by decide, by decide, by decide, by decide, by decide⟩
  let order : WindowStateOrder :=
    { WindowStateOrder.zero with numWindowRects := 1, windowRects := [⟨0, 0, 4, 3⟩], TaskbarButton := 1 }
  have horder : order.WellFormed :=
    { WindowStateOrder.wellFormed_zero with windowRects := hrects, TaskbarButton := by decide }
  exact (roundTrips_iff hinfo horder (by decide)).mpr (by decide)

/-- With no rectangle, the taskbar button is not read. -/
theorem not_roundTrips_noRects :
    ∃ (orderInfo : WindowOrderInfo) (order : WindowStateOrder), orderInfo.IsState ∧ order.WellFormed ∧
      (updateSendNewOrExistingWindow orderInfo order).length ≤ 65535 ∧
      updateRecvAltsecWindowOrder ⟨WINDOW_LEVEL_SUPPORTED_EX, false⟩
        (updateSendNewOrExistingWindow orderInfo order).tail =
          some (some (orderInfo, .windowUpdate { order with TaskbarButton := 0 }), [1]) ∧
      ¬ order.RoundTrips orderInfo := by
  refine ⟨⟨7, 0x01800100, 0⟩, { WindowStateOrder.zero with TaskbarButton := 1 },
    ⟨by decide, by decide, by decide, by decide, by decide, by decide⟩,
    { WindowStateOrder.wellFormed_zero with TaskbarButton := by decide }, by decide, by decide, fun h => ?_⟩
  exact absurd (h.recv ⟨WINDOW_LEVEL_SUPPORTED_EX, false⟩ [] rfl) (by decide)

end FreeRDP.Orders
