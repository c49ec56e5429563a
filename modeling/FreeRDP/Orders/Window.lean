import FreeRDP.Orders.Secondary

/-!
# Window orders

The senders of window state orders in `libfreerdp/core/update.c` and the readers of
`libfreerdp/core/window.c`.  A structure that is read starts with zeros; the rectangles and the strings
that are written are as long as their counts say, and allocations succeed.  The reader gives what the
callback is given.
-/

namespace FreeRDP.Orders

open Wire

def WINDOW_ORDER_TYPE_WINDOW : ℕ := 0x01000000
def WINDOW_ORDER_TYPE_NOTIFY : ℕ := 0x02000000
def WINDOW_ORDER_TYPE_DESKTOP : ℕ := 0x04000000
def WINDOW_ORDER_STATE_NEW : ℕ := 0x10000000
def WINDOW_ORDER_STATE_DELETED : ℕ := 0x20000000
def WINDOW_ORDER_ICON : ℕ := 0x40000000
def WINDOW_ORDER_CACHED_ICON : ℕ := 0x80000000

def WINDOW_ORDER_FIELD_OWNER : ℕ := 0x00000002
def WINDOW_ORDER_FIELD_STYLE : ℕ := 0x00000008
def WINDOW_ORDER_FIELD_SHOW : ℕ := 0x00000010
def WINDOW_ORDER_FIELD_TITLE : ℕ := 0x00000004
def WINDOW_ORDER_FIELD_CLIENT_AREA_OFFSET : ℕ := 0x00004000
def WINDOW_ORDER_FIELD_CLIENT_AREA_SIZE : ℕ := 0x00010000
def WINDOW_ORDER_FIELD_RESIZE_MARGIN_X : ℕ := 0x00000080
def WINDOW_ORDER_FIELD_RESIZE_MARGIN_Y : ℕ := 0x08000000
def WINDOW_ORDER_FIELD_RP_CONTENT : ℕ := 0x00020000
def WINDOW_ORDER_FIELD_ROOT_PARENT : ℕ := 0x00040000
def WINDOW_ORDER_FIELD_WND_OFFSET : ℕ := 0x00000800
def WINDOW_ORDER_FIELD_WND_CLIENT_DELTA : ℕ := 0x00008000
def WINDOW_ORDER_FIELD_WND_SIZE : ℕ := 0x00000400
def WINDOW_ORDER_FIELD_WND_RECTS : ℕ := 0x00000100
def WINDOW_ORDER_FIELD_VIS_OFFSET : ℕ := 0x00001000
def WINDOW_ORDER_FIELD_VISIBILITY : ℕ := 0x00000200
def WINDOW_ORDER_FIELD_OVERLAY_DESCRIPTION : ℕ := 0x00400000
def WINDOW_ORDER_FIELD_ICON_OVERLAY_NULL : ℕ := 0x00200000
def WINDOW_ORDER_FIELD_TASKBAR_BUTTON : ℕ := 0x00800000
def WINDOW_ORDER_FIELD_ENFORCE_SERVER_ZORDER : ℕ := 0x00080000
def WINDOW_ORDER_FIELD_APPBAR_STATE : ℕ := 0x00000040
def WINDOW_ORDER_FIELD_APPBAR_EDGE : ℕ := 0x00000001

def WINDOW_ORDER_FIELD_NOTIFY_VERSION : ℕ := 0x00000008
def WINDOW_ORDER_FIELD_NOTIFY_TIP : ℕ := 0x00000001
def WINDOW_ORDER_FIELD_NOTIFY_INFO_TIP : ℕ := 0x00000002
def WINDOW_ORDER_FIELD_NOTIFY_STATE : ℕ := 0x00000004
def WINDOW_ORDER_FIELD_DESKTOP_NONE : ℕ := 0x00000001
def WINDOW_ORDER_FIELD_DESKTOP_ZORDER : ℕ := 0x00000010
def WINDOW_ORDER_FIELD_DESKTOP_ACTIVE_WND : ℕ := 0x00000020

/-! ### Structures -/

structure Rectangle16 where
  left : ℕ
  top : ℕ
  right : ℕ
  bottom : ℕ
deriving DecidableEq, Repr

/-- `WINDOW_STATE_ORDER`.  A `RAIL_UNICODE_STRING` is its bytes. -/
structure WindowStateOrder where
  ownerWindowId : ℕ
  style : ℕ
  extendedStyle : ℕ
  showState : ℕ
  titleInfo : List UInt8
  clientOffsetX : ℤ
  clientOffsetY : ℤ
  clientAreaWidth : ℕ
  clientAreaHeight : ℕ
  RPContent : ℕ
  rootParentHandle : ℕ
  windowOffsetX : ℤ
  windowOffsetY : ℤ
  windowClientDeltaX : ℤ
  windowClientDeltaY : ℤ
  windowWidth : ℕ
  windowHeight : ℕ
  numWindowRects : ℕ
  windowRects : List Rectangle16
  visibleOffsetX : ℤ
  visibleOffsetY : ℤ
  resizeMarginLeft : ℕ
  resizeMarginTop : ℕ
  resizeMarginRight : ℕ
  resizeMarginBottom : ℕ
  numVisibilityRects : ℕ
  visibilityRects : List Rectangle16
  OverlayDescription : List UInt8
  TaskbarButton : ℕ
  EnforceServerZOrder : ℕ
  AppBarState : ℕ
  AppBarEdge : ℕ
deriving DecidableEq, Repr

/-- The structure that a reader starts with. -/
def WindowStateOrder.zero : WindowStateOrder where
  ownerWindowId := 0
  style := 0
  extendedStyle := 0
  showState := 0
  titleInfo := []
  clientOffsetX := 0
  clientOffsetY := 0
  clientAreaWidth := 0
  clientAreaHeight := 0
  RPContent := 0
  rootParentHandle := 0
  windowOffsetX := 0
  windowOffsetY := 0
  windowClientDeltaX := 0
  windowClientDeltaY := 0
  windowWidth := 0
  windowHeight := 0
  numWindowRects := 0
  windowRects := []
  visibleOffsetX := 0
  visibleOffsetY := 0
  resizeMarginLeft := 0
  resizeMarginTop := 0
  resizeMarginRight := 0
  resizeMarginBottom := 0
  numVisibilityRects := 0
  visibilityRects := []
  OverlayDescription := []
  TaskbarButton := 0
  EnforceServerZOrder := 0
  AppBarState := 0
  AppBarEdge := 0

structure WindowOrderInfo where
  windowId : ℕ
  fieldFlags : ℕ
  notifyIconId : ℕ
deriving DecidableEq, Repr

/-! ### Writing -/

/-- A field that is written if its flag is set. -/
def writeField (fieldFlags flag : ℕ) (bs : List UInt8) : List UInt8 :=
  if fieldFlags &&& flag ≠ 0 then bs else []

def writeInt32 (value : ℤ) : List UInt8 := le32 (value % 2 ^ 32).toNat

def writeUnicodeString (string : List UInt8) : List UInt8 := le16 string.length ++ string

def writeRectangle16 (rect : Rectangle16) : List UInt8 :=
  le16 rect.left ++ (le16 rect.top ++ (le16 rect.right ++ le16 rect.bottom))

def writeRects (number : ℕ) (rects : List Rectangle16) : List UInt8 :=
  le16 number ++ (rects.take number).flatMap writeRectangle16

/-- The sum of `update_calculate_new_or_existing_window`, before it is kept in a `UINT16`. -/
def WindowStateOrder.size (fieldFlags : ℕ) (order : WindowStateOrder) : ℕ :=
  let size (flag n : ℕ) : ℕ := if fieldFlags &&& flag ≠ 0 then n else 0
  11 + size WINDOW_ORDER_FIELD_OWNER 4 +
    size WINDOW_ORDER_FIELD_STYLE 8 +
    size WINDOW_ORDER_FIELD_SHOW 1 +
    size WINDOW_ORDER_FIELD_TITLE (2 + order.titleInfo.length) +
    size WINDOW_ORDER_FIELD_CLIENT_AREA_OFFSET 8 +
    size WINDOW_ORDER_FIELD_CLIENT_AREA_SIZE 8 +
    size WINDOW_ORDER_FIELD_RESIZE_MARGIN_X 8 +
    size WINDOW_ORDER_FIELD_RESIZE_MARGIN_Y 8 +
    size WINDOW_ORDER_FIELD_RP_CONTENT 1 +
    size WINDOW_ORDER_FIELD_ROOT_PARENT 4 +
    size WINDOW_ORDER_FIELD_WND_OFFSET 8 +
    size WINDOW_ORDER_FIELD_WND_CLIENT_DELTA 8 +
    size WINDOW_ORDER_FIELD_WND_SIZE 8 +
    size WINDOW_ORDER_FIELD_WND_RECTS (2 + order.numWindowRects * 8) +
    size WINDOW_ORDER_FIELD_VIS_OFFSET 8 +
    size WINDOW_ORDER_FIELD_VISIBILITY (2 + order.numVisibilityRects * 8) +
    size WINDOW_ORDER_FIELD_OVERLAY_DESCRIPTION (2 + order.OverlayDescription.length) +
    size WINDOW_ORDER_FIELD_TASKBAR_BUTTON 1 +
    size WINDOW_ORDER_FIELD_ENFORCE_SERVER_ZORDER 1 +
    size WINDOW_ORDER_FIELD_APPBAR_STATE 1 +
    size WINDOW_ORDER_FIELD_APPBAR_EDGE 1

def updateCalculateNewOrExistingWindow (fieldFlags : ℕ) (order : WindowStateOrder) : ℕ :=
  order.size fieldFlags % 2 ^ 16

/-- The fields of a window state order that are written before the rectangles of the window. -/
def writeWindowStateHead (fieldFlags : ℕ) (order : WindowStateOrder) : List UInt8 :=
  writeField fieldFlags WINDOW_ORDER_FIELD_OWNER (le32 order.ownerWindowId) ++
  (writeField fieldFlags WINDOW_ORDER_FIELD_STYLE (le32 order.style ++ le32 order.extendedStyle) ++
  (writeField fieldFlags WINDOW_ORDER_FIELD_SHOW (byte order.showState) ++
  (writeField fieldFlags WINDOW_ORDER_FIELD_TITLE (writeUnicodeString order.titleInfo) ++
  (writeField fieldFlags WINDOW_ORDER_FIELD_CLIENT_AREA_OFFSET
    (writeInt32 order.clientOffsetX ++ writeInt32 order.clientOffsetY) ++
  (writeField fieldFlags WINDOW_ORDER_FIELD_CLIENT_AREA_SIZE
    (le32 order.clientAreaWidth ++ le32 order.clientAreaHeight) ++
  (writeField fieldFlags WINDOW_ORDER_FIELD_RESIZE_MARGIN_X
    (le32 order.resizeMarginLeft ++ le32 order.resizeMarginRight) ++
  (writeField fieldFlags WINDOW_ORDER_FIELD_RESIZE_MARGIN_Y
    (le32 order.resizeMarginTop ++ le32 order.resizeMarginBottom) ++
  (writeField fieldFlags WINDOW_ORDER_FIELD_RP_CONTENT (byte order.RPContent) ++
  (writeField fieldFlags WINDOW_ORDER_FIELD_ROOT_PARENT (le32 order.rootParentHandle) ++
  (writeField fieldFlags WINDOW_ORDER_FIELD_WND_OFFSET
    (writeInt32 order.windowOffsetX ++ writeInt32 order.windowOffsetY) ++
  (writeField fieldFlags WINDOW_ORDER_FIELD_WND_CLIENT_DELTA
    (writeInt32 order.windowClientDeltaX ++ writeInt32 order.windowClientDeltaY) ++
  writeField fieldFlags WINDOW_ORDER_FIELD_WND_SIZE
    (le32 order.windowWidth ++ le32 order.windowHeight))))))))))))

/-- The fields that are written behind the rectangles of the window. -/
def writeWindowStateTail (fieldFlags : ℕ) (order : WindowStateOrder) : List UInt8 :=
  writeField fieldFlags WINDOW_ORDER_FIELD_VIS_OFFSET
    (writeInt32 order.visibleOffsetX ++ writeInt32 order.visibleOffsetY) ++
  (writeField fieldFlags WINDOW_ORDER_FIELD_VISIBILITY
    (writeRects order.numVisibilityRects order.visibilityRects) ++
  (writeField fieldFlags WINDOW_ORDER_FIELD_OVERLAY_DESCRIPTION
    (writeUnicodeString order.OverlayDescription) ++
  (writeField fieldFlags WINDOW_ORDER_FIELD_TASKBAR_BUTTON (byte order.TaskbarButton) ++
  (writeField fieldFlags WINDOW_ORDER_FIELD_ENFORCE_SERVER_ZORDER (byte order.EnforceServerZOrder) ++
  (writeField fieldFlags WINDOW_ORDER_FIELD_APPBAR_STATE (byte order.AppBarState) ++
  writeField fieldFlags WINDOW_ORDER_FIELD_APPBAR_EDGE (byte order.AppBarEdge))))))

def ORDER_TYPE_WINDOW : ℕ := 0x0B

def updateSendNewOrExistingWindow (orderInfo : WindowOrderInfo) (order : WindowStateOrder) : List UInt8 :=
  byte (ORDER_SECONDARY ||| ORDER_TYPE_WINDOW <<< 2) ++
  (le16 (updateCalculateNewOrExistingWindow orderInfo.fieldFlags order) ++ (le32 orderInfo.fieldFlags ++
  (le32 orderInfo.windowId ++ (writeWindowStateHead orderInfo.fieldFlags order ++
  (writeField orderInfo.fieldFlags WINDOW_ORDER_FIELD_WND_RECTS
    (writeRects order.numWindowRects order.windowRects) ++
  writeWindowStateTail orderInfo.fieldFlags order)))))

/-! ### Reading -/

def readField {α : Type} (fieldFlags flag : ℕ) (absent : α) (r : Reader α) : Reader α :=
  if fieldFlags &&& flag ≠ 0 then r else return absent

def readByte : Reader ℕ := do
  need 1
  u8

def readUint32 : Reader ℕ := do
  need 4
  u32le

/-- Two fields of type `UINT32`. -/
def readUint32s : Reader (ℕ × ℕ) := do
  need 8
  let a ← u32le
  let b ← u32le
  return (a, b)

/-- Two fields of type `INT32`. -/
def readInt32s : Reader (ℤ × ℤ) := do
  need 8
  let a ← u32le
  let b ← u32le
  return (signed 32 a, signed 32 b)

def railReadUnicodeString : Reader (List UInt8) := do
  need 2
  let newLen ← u16le
  need newLen
  if newLen = 0 then return [] else bytes newLen

def readRectangle16 : Reader Rectangle16 := do
  let left ← u16le
  let top ← u16le
  let right ← u16le
  let bottom ← u16le
  return { left, top, right, bottom }

/-- The visible rectangles, with their number. -/
def readVisibilityRects : Reader (ℕ × List Rectangle16) := do
  need 2
  let number ← u16le
  if number ≠ 0 then do
    need (number * 8)
    let rects ← many readRectangle16 number
    return (number, rects)
  else return (0, [])

/-- The fields that are read before the rectangles of the window. -/
def readWindowStateHead (fieldFlags : ℕ) : Reader WindowStateOrder := do
  let ownerWindowId ← readField fieldFlags WINDOW_ORDER_FIELD_OWNER 0 readUint32
  let (style, extendedStyle) ← readField fieldFlags WINDOW_ORDER_FIELD_STYLE (0, 0) readUint32s
  let showState ← readField fieldFlags WINDOW_ORDER_FIELD_SHOW 0 readByte
  let titleInfo ← readField fieldFlags WINDOW_ORDER_FIELD_TITLE [] railReadUnicodeString
  let (clientOffsetX, clientOffsetY) ← readField fieldFlags WINDOW_ORDER_FIELD_CLIENT_AREA_OFFSET
    (0, 0) readInt32s
  let (clientAreaWidth, clientAreaHeight) ←
    readField fieldFlags WINDOW_ORDER_FIELD_CLIENT_AREA_SIZE (0, 0) readUint32s
  let (resizeMarginLeft, resizeMarginRight) ←
    readField fieldFlags WINDOW_ORDER_FIELD_RESIZE_MARGIN_X (0, 0) readUint32s
  let (resizeMarginTop, resizeMarginBottom) ←
    readField fieldFlags WINDOW_ORDER_FIELD_RESIZE_MARGIN_Y (0, 0) readUint32s
  let RPContent ← readField fieldFlags WINDOW_ORDER_FIELD_RP_CONTENT 0 readByte
  let rootParentHandle ← readField fieldFlags WINDOW_ORDER_FIELD_ROOT_PARENT 0 readUint32
  let (windowOffsetX, windowOffsetY) ← readField fieldFlags WINDOW_ORDER_FIELD_WND_OFFSET (0, 0) readInt32s
  let (windowClientDeltaX, windowClientDeltaY) ←
    readField fieldFlags WINDOW_ORDER_FIELD_WND_CLIENT_DELTA (0, 0) readInt32s
  let (windowWidth, windowHeight) ← readField fieldFlags WINDOW_ORDER_FIELD_WND_SIZE (0, 0) readUint32s
  return { WindowStateOrder.zero with
    ownerWindowId, style, extendedStyle, showState, titleInfo, clientOffsetX, clientOffsetY,
      clientAreaWidth,
    clientAreaHeight, resizeMarginLeft, resizeMarginRight, resizeMarginTop, resizeMarginBottom, RPContent,
    rootParentHandle, windowOffsetX, windowOffsetY, windowClientDeltaX, windowClientDeltaY, windowWidth,
    windowHeight }

/-- The fields that are read behind the rectangles of the window. -/
def readWindowStateTail (fieldFlags : ℕ) (windowState : WindowStateOrder) : Reader WindowStateOrder := do
  let (visibleOffsetX, visibleOffsetY) ← readField fieldFlags WINDOW_ORDER_FIELD_VIS_OFFSET
    (0, 0) readInt32s
  let (numVisibilityRects, visibilityRects) ←
    readField fieldFlags WINDOW_ORDER_FIELD_VISIBILITY (0, []) readVisibilityRects
  let OverlayDescription ← readField fieldFlags WINDOW_ORDER_FIELD_OVERLAY_DESCRIPTION
    [] railReadUnicodeString
  let TaskbarButton ← readField fieldFlags WINDOW_ORDER_FIELD_TASKBAR_BUTTON 0 readByte
  let EnforceServerZOrder ← readField fieldFlags WINDOW_ORDER_FIELD_ENFORCE_SERVER_ZORDER 0 readByte
  let AppBarState ← readField fieldFlags WINDOW_ORDER_FIELD_APPBAR_STATE 0 readByte
  let AppBarEdge ← readField fieldFlags WINDOW_ORDER_FIELD_APPBAR_EDGE 0 readByte
  return { windowState with
    visibleOffsetX, visibleOffsetY, numVisibilityRects, visibilityRects, OverlayDescription, TaskbarButton,
    EnforceServerZOrder, AppBarState, AppBarEdge }

def updateReadWindowStateOrder (fieldFlags : ℕ) : Reader WindowStateOrder := do
  let windowState ← readWindowStateHead fieldFlags
  if fieldFlags &&& WINDOW_ORDER_FIELD_WND_RECTS ≠ 0 then do
    need 2
    let numWindowRects ← u16le
    -- nothing else is read if there are no rectangles
    if numWindowRects = 0 then return windowState
    else do
      need (8 * numWindowRects)
      let windowRects ← many readRectangle16 numWindowRects
      readWindowStateTail fieldFlags { windowState with numWindowRects, windowRects }
  else readWindowStateTail fieldFlags windowState

structure IconInfo where
  cacheEntry : ℕ
  cacheId : ℕ
  bpp : ℕ
  width : ℕ
  height : ℕ
  bitsMask : List UInt8
  colorTable : List UInt8
  bitsColor : List UInt8
deriving DecidableEq, Repr

def updateReadIconInfo : Reader IconInfo := do
  need 8
  let cacheEntry ← u16le
  let cacheId ← u8
  let bpp ← u8
  check (1 ≤ bpp ∧ bpp ≤ 32)
  let width ← u16le
  let height ← u16le
  let cbColorTable ← (if bpp ∈ [1, 4, 8] then do
      need 2
      u16le
    else return 0 : Reader ℕ)
  need 4
  let cbBitsMask ← u16le
  let cbBitsColor ← u16le
  need cbBitsMask
  let bitsMask ← bytes cbBitsMask
  need cbColorTable
  let colorTable ← bytes cbColorTable
  need cbBitsColor
  let bitsColor ← bytes cbBitsColor
  return { cacheEntry, cacheId, bpp, width, height, bitsMask, colorTable, bitsColor }

structure CachedIconInfo where
  cacheEntry : ℕ
  cacheId : ℕ
deriving DecidableEq, Repr

def updateReadCachedIconInfo : Reader CachedIconInfo := do
  need 3
  let cacheEntry ← u16le
  let cacheId ← u8
  return { cacheEntry, cacheId }

structure NotifyIconInfotip where
  timeout : ℕ
  flags : ℕ
  text : List UInt8
  title : List UInt8
deriving DecidableEq, Repr

def updateReadNotifyIconInfotip : Reader NotifyIconInfotip := do
  need 8
  let timeout ← u32le
  let flags ← u32le
  let text ← railReadUnicodeString
  let title ← railReadUnicodeString
  return { timeout, flags, text, title }

structure NotifyIconStateOrder where
  version : ℕ
  toolTip : List UInt8
  infoTip : NotifyIconInfotip
  state : ℕ
  icon : IconInfo
  cachedIcon : CachedIconInfo
deriving DecidableEq, Repr

def updateReadNotificationIconStateOrder (fieldFlags : ℕ) : Reader NotifyIconStateOrder := do
  let version ← readField fieldFlags WINDOW_ORDER_FIELD_NOTIFY_VERSION 0 readUint32
  let toolTip ← readField fieldFlags WINDOW_ORDER_FIELD_NOTIFY_TIP [] railReadUnicodeString
  let infoTip ← readField fieldFlags WINDOW_ORDER_FIELD_NOTIFY_INFO_TIP ⟨0, 0, [], []⟩
    updateReadNotifyIconInfotip
  let state ← readField fieldFlags WINDOW_ORDER_FIELD_NOTIFY_STATE 0 readUint32
  let icon ← readField fieldFlags WINDOW_ORDER_ICON ⟨0, 0, 0, 0, 0, [], [], []⟩ updateReadIconInfo
  let cachedIcon ← readField fieldFlags WINDOW_ORDER_CACHED_ICON ⟨0, 0⟩ updateReadCachedIconInfo
  return { version, toolTip, infoTip, state, icon, cachedIcon }

structure MonitoredDesktopOrder where
  activeWindowId : ℕ
  numWindowIds : ℕ
  windowIds : List ℕ
deriving DecidableEq, Repr

def readWindowIds : Reader (ℕ × List ℕ) := do
  need 1
  let number ← u8
  need (4 * number)
  let ids ← many u32le number
  return (number, ids)

def updateReadDesktopActivelyMonitoredOrder (fieldFlags : ℕ) : Reader MonitoredDesktopOrder := do
  let activeWindowId ← readField fieldFlags WINDOW_ORDER_FIELD_DESKTOP_ACTIVE_WND 0 readUint32
  let (numWindowIds, windowIds) ← readField fieldFlags WINDOW_ORDER_FIELD_DESKTOP_ZORDER
    (0, []) readWindowIds
  return { activeWindowId, numWindowIds, windowIds }

/-! ### Receiving -/

/-- The callback that is called, and what it is given besides the header. -/
inductive WindowMessage
  | windowIcon (icon : IconInfo)
  | windowCachedIcon (icon : CachedIconInfo)
  | windowDelete
  | windowCreate (order : WindowStateOrder)
  | windowUpdate (order : WindowStateOrder)
  | notifyIconDelete
  | notifyIconCreate (order : NotifyIconStateOrder)
  | notifyIconUpdate (order : NotifyIconStateOrder)
  | nonMonitoredDesktop
  | monitoredDesktop (order : MonitoredDesktopOrder)
deriving DecidableEq, Repr

def updateRecvWindowInfoOrder (fieldFlags : ℕ) : Reader (WindowOrderInfo × WindowMessage) := do
  need 4
  let windowId ← u32le
  let orderInfo : WindowOrderInfo := { windowId, fieldFlags, notifyIconId := 0 }
  if fieldFlags &&& WINDOW_ORDER_ICON ≠ 0 then do
    let icon ← updateReadIconInfo
    return (orderInfo, .windowIcon icon)
  else if fieldFlags &&& WINDOW_ORDER_CACHED_ICON ≠ 0 then do
    let icon ← updateReadCachedIconInfo
    return (orderInfo, .windowCachedIcon icon)
  else if fieldFlags &&& WINDOW_ORDER_STATE_DELETED ≠ 0 then return (orderInfo, .windowDelete)
  else do
    let order ← updateReadWindowStateOrder fieldFlags
    return (orderInfo,
      if fieldFlags &&& WINDOW_ORDER_STATE_NEW ≠ 0 then .windowCreate order else .windowUpdate order)

def updateRecvNotificationIconInfoOrder (fieldFlags : ℕ) : Reader (WindowOrderInfo × WindowMessage) := do
  need 8
  let windowId ← u32le
  let notifyIconId ← u32le
  let orderInfo : WindowOrderInfo := { windowId, fieldFlags, notifyIconId }
  if fieldFlags &&& WINDOW_ORDER_STATE_DELETED ≠ 0 then return (orderInfo, .notifyIconDelete)
  else do
    let order ← updateReadNotificationIconStateOrder fieldFlags
    return (orderInfo,
      if fieldFlags &&& WINDOW_ORDER_STATE_NEW ≠ 0 then .notifyIconCreate order
      else .notifyIconUpdate order)

def updateRecvDesktopInfoOrder (fieldFlags : ℕ) : Reader (WindowOrderInfo × WindowMessage) := do
  let orderInfo : WindowOrderInfo := { windowId := 0, fieldFlags, notifyIconId := 0 }
  if fieldFlags &&& WINDOW_ORDER_FIELD_DESKTOP_NONE ≠ 0 then return (orderInfo, .nonMonitoredDesktop)
  else do
    let order ← updateReadDesktopActivelyMonitoredOrder fieldFlags
    return (orderInfo, .monitoredDesktop order)

def WINDOW_LEVEL_SUPPORTED : ℕ := 1
def WINDOW_LEVEL_SUPPORTED_EX : ℕ := 2

/-- The settings that decide which window orders a client takes. -/
structure WindowSettings where
  remoteWndSupportLevel : ℕ
  allowUnanouncedOrdersFromServer : Bool

def windowOrderSupported (settings : WindowSettings) (fieldFlags : ℕ) : Bool :=
  let mask := WINDOW_ORDER_FIELD_CLIENT_AREA_SIZE ||| WINDOW_ORDER_FIELD_RP_CONTENT |||
    WINDOW_ORDER_FIELD_ROOT_PARENT
  if settings.remoteWndSupportLevel = WINDOW_LEVEL_SUPPORTED_EX then true
  else if settings.remoteWndSupportLevel = WINDOW_LEVEL_SUPPORTED then
    fieldFlags &&& mask = 0 || settings.allowUnanouncedOrdersFromServer
  else settings.allowUnanouncedOrdersFromServer

def updateRecvAltsecWindowOrder (settings : WindowSettings) :
    Reader (Option (WindowOrderInfo × WindowMessage)) :=
  fun s => (do
    need 6
    let orderSize ← u16le
    let fieldFlags ← u32le
    check (¬ s.length + 1 < orderSize)
    check (windowOrderSupported settings fieldFlags)
    if fieldFlags &&& WINDOW_ORDER_TYPE_WINDOW ≠ 0 then do
      let r ← updateRecvWindowInfoOrder fieldFlags
      return some r
    else if fieldFlags &&& WINDOW_ORDER_TYPE_NOTIFY ≠ 0 then do
      let r ← updateRecvNotificationIconInfoOrder fieldFlags
      return some r
    else if fieldFlags &&& WINDOW_ORDER_TYPE_DESKTOP ≠ 0 then do
      let r ← updateRecvDesktopInfoOrder fieldFlags
      return some r
    else return none : Reader (Option (WindowOrderInfo × WindowMessage))) s

end FreeRDP.Orders
