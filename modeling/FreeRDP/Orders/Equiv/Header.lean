import Mathlib.Tactic.Ring
import FreeRDP.Orders.Equiv.Send

/-!
# Headers of primary orders that are sent

The header has the length that `update_prepare_order_info` has computed, so that it fills the room in
front of the order.  A client takes the bounds that the header announces, and keeps the others
(`ServerBounds.patch`).
-/

namespace FreeRDP.Orders

open Wire Retain

variable {update : ServerBounds} {type : SendType} {s : OrderStruct} {client : PrimaryClient}
  {settings : PrimarySettings}

/-! ### Bounds -/

/-- The bounds that a client has behind an order, with `bounds` before. -/
def ServerBounds.patch (update : ServerBounds) (bounds : Bounds) : Bounds :=
  if update.currentBounds = Bounds.zero then bounds
  else
    { left := if update.previousBounds.left ≠ update.currentBounds.left then update.currentBounds.left
        else bounds.left
      top := if update.previousBounds.top ≠ update.currentBounds.top then update.currentBounds.top
        else bounds.top
      right :=
        if update.previousBounds.right ≠ update.currentBounds.right then update.currentBounds.right
          else bounds.right
      bottom :=
        if update.previousBounds.bottom ≠ update.currentBounds.bottom then update.currentBounds.bottom
        else bounds.bottom }

/-- The bounds are 16-bit signed coordinates. -/
structure Bounds.IsInt16 (bounds : Bounds) : Prop where
  left : Orders.IsInt16 bounds.left
  top : Orders.IsInt16 bounds.top
  right : Orders.IsInt16 bounds.right
  bottom : Orders.IsInt16 bounds.bottom

theorem Bounds.isInt16_zero : Bounds.zero.IsInt16 := ⟨by decide, by decide, by decide, by decide⟩

/-- The flags of the bounds of which `a`, `b`, `c` and `d` say whether they are sent. -/
def boundsFlagsOf (a b c d : Bool) : ℕ :=
  (if a then BOUND_LEFT else 0) ||| (if b then BOUND_TOP else 0) ||| (if c then BOUND_RIGHT else 0) |||
    (if d then BOUND_BOTTOM else 0)

theorem boundsFlagsOf_and (a b c d : Bool) :
    boundsFlagsOf a b c d < 2 ^ 8 ∧
    (boundsFlagsOf a b c d &&& BOUND_LEFT ≠ 0 ↔ a = true) ∧
      (boundsFlagsOf a b c d &&& BOUND_TOP ≠ 0 ↔ b = true) ∧
    (boundsFlagsOf a b c d &&& BOUND_RIGHT ≠ 0 ↔ c = true) ∧
      (boundsFlagsOf a b c d &&& BOUND_BOTTOM ≠ 0 ↔ d = true) ∧
    boundsFlagsOf a b c d &&& BOUND_DELTA_LEFT = 0 ∧ boundsFlagsOf a b c d &&& BOUND_DELTA_TOP = 0 ∧
    boundsFlagsOf a b c d &&& BOUND_DELTA_RIGHT = 0 ∧ boundsFlagsOf a b c d &&& BOUND_DELTA_BOTTOM = 0 := by
  revert a b c d
  decide

theorem reads_readBound {flags flag delta : ℕ} {sent : Bool} {coord old : ℤ}
    (hflag : flags &&& flag ≠ 0 ↔ sent = true)
    (hdelta : flags &&& delta = 0) (h : IsInt16 coord) :
    Reads (readBound flags flag delta old) (writeBound flags flag coord) (if sent then coord else old) := by
  unfold readBound writeBound
  by_cases hsent : sent = true
  · rw [if_pos (hflag.mpr hsent), if_pos (hflag.mpr hsent), if_pos hsent]
    exact reads_updateReadCoord h old
  · rw [if_neg (mt hflag.mp hsent), if_neg (mt hflag.mp hsent), if_neg hsent, if_neg (not_not.mpr hdelta)]
    exact Reads.pure old

/-- The three kinds of headers: without bounds, with the bounds that have been sent last, and with
bounds. -/
theorem updatePrepareBounds_cases (update : ServerBounds) (controlFlags : ℕ) :
    (update.currentBounds = Bounds.zero ∧ updatePrepareBounds update controlFlags = (controlFlags, 0, 0)) ∨
    (update.currentBounds ≠ Bounds.zero ∧ update.previousBounds = update.currentBounds ∧
      updatePrepareBounds update controlFlags =
        (controlFlags ||| ORDER_BOUNDS ||| ORDER_ZERO_BOUNDS_DELTAS, 0, 0)) ∨
    (update.currentBounds ≠ Bounds.zero ∧ update.previousBounds ≠ update.currentBounds ∧
      ∃ a b c d : Bool, (a = true ↔ update.previousBounds.left ≠ update.currentBounds.left) ∧
        (b = true ↔ update.previousBounds.top ≠ update.currentBounds.top) ∧
        (c = true ↔ update.previousBounds.right ≠ update.currentBounds.right) ∧
        (d = true ↔ update.previousBounds.bottom ≠ update.currentBounds.bottom) ∧
        updatePrepareBounds update controlFlags = (controlFlags ||| ORDER_BOUNDS, boundsFlagsOf a b c d,
          1 + (if a then 2 else 0) + (if b then 2 else 0) + (if c then 2 else 0) +
            (if d then 2 else 0))) := by
  by_cases hzero : update.currentBounds = Bounds.zero
  · exact Or.inl ⟨hzero, by rw [updatePrepareBounds, if_pos hzero]⟩
  · by_cases hsame : update.previousBounds = update.currentBounds
    · exact Or.inr (Or.inl ⟨hzero, hsame, by rw [updatePrepareBounds, if_neg hzero, if_pos hsame]⟩)
    · refine Or.inr (Or.inr ⟨hzero, hsame, decide (update.previousBounds.left ≠ update.currentBounds.left),
        decide (update.previousBounds.top ≠ update.currentBounds.top),
        decide (update.previousBounds.right ≠ update.currentBounds.right),
        decide (update.previousBounds.bottom ≠ update.currentBounds.bottom), decide_eq_true_iff,
          decide_eq_true_iff, decide_eq_true_iff, decide_eq_true_iff, ?_⟩)
      rw [updatePrepareBounds, if_neg hzero, if_neg hsame]
      simp only [boundsFlagsOf, decide_eq_true_eq]

theorem reads_updateReadBounds {orderInfo : SendOrderInfo} {a b c d : Bool} (old : Bounds)
    (hcontrol : orderInfo.controlFlags &&& ORDER_BOUNDS ≠ 0)
    (hdeltas : orderInfo.controlFlags &&& ORDER_ZERO_BOUNDS_DELTAS = 0)
    (hflags : orderInfo.boundsFlags = boundsFlagsOf a b c d) (h : orderInfo.bounds.IsInt16) :
    Reads (updateReadBounds old) (updateWriteBounds orderInfo)
      { left := if a then orderInfo.bounds.left else old.left,
        top := if b then orderInfo.bounds.top else old.top,
        right := if c then orderInfo.bounds.right else old.right,
        bottom := if d then orderInfo.bounds.bottom else old.bottom } := by
  obtain ⟨hlt, hleft, htop, hright, hbottom, hleft', htop', hright', hbottom'⟩ := boundsFlagsOf_and a b c d
  rw [updateWriteBounds, if_neg hcontrol, if_neg (not_not.mpr hdeltas), hflags]
  exact Reads.need (by simp) <| (Reads.u8 hlt).bind <| (reads_readBound hleft hleft' h.left).bind <|
    (reads_readBound htop htop' h.top).bind <| (reads_readBound hright hright' h.right).bind <|
    (reads_readBound hbottom hbottom' h.bottom).map rfl

/-! ### Order information -/

/-- `ORDER_INFO` when the header is written. -/
def sentOrderInfo (update : ServerBounds) (type : SendType) (s : OrderStruct) : SendOrderInfo :=
  { (updatePrepareOrderInfo update type.orderType.number).1 with
    fieldFlags := (encode s type.encoder).fieldFlags }

theorem length_writeBound {boundsFlags flag : ℕ} {sent : Bool} {coord : ℤ}
    (h : boundsFlags &&& flag ≠ 0 ↔ sent = true) :
    (writeBound boundsFlags flag coord).length = if sent then 2 else 0 := by
  unfold writeBound
  by_cases hsent : sent = true
  · rw [if_pos (h.mpr hsent), if_pos hsent]
    rfl
  · rw [if_neg (mt h.mp hsent), if_neg hsent]
    rfl

theorem fieldBytes_cases (type : SendType) (fieldFlags : ℕ) :
    ∃ n, getPrimaryDrawingOrderFieldBytes type.orderType.number = some n ∧
      (updateWriteFieldFlags fieldFlags n).length = n := by
  cases type <;> exact ⟨_, rfl, rfl⟩

theorem length_header {orderInfo : SendOrderInfo} {n : ℕ}
    (htype : orderInfo.controlFlags &&& ORDER_TYPE_CHANGE ≠ 0)
    (hn : getPrimaryDrawingOrderFieldBytes orderInfo.orderType = some n)
    (hlength : (updateWriteFieldFlags orderInfo.fieldFlags n).length = n) :
    (updateWriteOrderInfo orderInfo).length = 2 + n + (updateWriteBounds orderInfo).length := by
  rw [updateWriteOrderInfo, if_pos htype, hn, Option.getD_some]
  simp only [List.length_append, length_byte, hlength]
  omega

theorem sentOrderInfo_eq (s : OrderStruct) {controlFlags boundsFlags length : ℕ}
    (h : updatePrepareBounds update (ORDER_STANDARD ||| ORDER_TYPE_CHANGE) = (controlFlags,
      boundsFlags, length)) :
    sentOrderInfo update type s = ⟨controlFlags, type.orderType.number, (encode s type.encoder).fieldFlags,
        boundsFlags, update.currentBounds⟩ ∧
      (updatePrepareOrderInfo update type.orderType.number).2 =
        2 + (getPrimaryDrawingOrderFieldBytes type.orderType.number).getD 0 + length := by
  unfold sentOrderInfo updatePrepareOrderInfo
  rw [h]
  exact ⟨rfl, rfl⟩

theorem updateWriteBounds_nil {orderInfo : SendOrderInfo} (h : orderInfo.controlFlags &&& ORDER_BOUNDS = 0 ∨
    orderInfo.controlFlags &&& ORDER_ZERO_BOUNDS_DELTAS ≠ 0) : updateWriteBounds orderInfo = [] := by
  unfold updateWriteBounds
  split_ifs with h₁ h₂
  · rfl
  · rfl
  · exact absurd h (not_or.mpr ⟨h₁, h₂⟩)

/-- The header fills the room that has been left for it. -/
theorem length_updateWriteOrderInfo (update : ServerBounds) (type : SendType) (s : OrderStruct) :
    (updateWriteOrderInfo (sentOrderInfo update type s)).length =
      (updatePrepareOrderInfo update type.orderType.number).2 := by
  obtain ⟨n, hn, hlength⟩ := fieldBytes_cases type (encode s type.encoder).fieldFlags
  obtain ⟨-, hbounds⟩ | ⟨-, -, hbounds⟩ | ⟨-, -, a, b, c, d, -, -, -, -, hbounds⟩ :=
    updatePrepareBounds_cases update (ORDER_STANDARD ||| ORDER_TYPE_CHANGE)
  all_goals
    obtain ⟨hinfo, hroom⟩ := @sentOrderInfo_eq _ type s _ _ _ hbounds
    rw [hinfo, hroom, hn, Option.getD_some]
  · have htype : (ORDER_STANDARD ||| ORDER_TYPE_CHANGE) &&& ORDER_TYPE_CHANGE ≠ 0 := by decide
    have hnone : (ORDER_STANDARD ||| ORDER_TYPE_CHANGE) &&& ORDER_BOUNDS = 0 := by decide
    refine (length_header htype hn hlength).trans ?_
    rw [updateWriteBounds_nil (Or.inl hnone), List.length_nil]
  · have htype : (ORDER_STANDARD ||| ORDER_TYPE_CHANGE ||| ORDER_BOUNDS ||| ORDER_ZERO_BOUNDS_DELTAS) &&&
        ORDER_TYPE_CHANGE ≠ 0 := by decide
    have hsame : (ORDER_STANDARD ||| ORDER_TYPE_CHANGE ||| ORDER_BOUNDS ||| ORDER_ZERO_BOUNDS_DELTAS) &&&
        ORDER_ZERO_BOUNDS_DELTAS ≠ 0 := by decide
    refine (length_header htype hn hlength).trans ?_
    rw [updateWriteBounds_nil (Or.inr hsame), List.length_nil]
  · obtain ⟨-, hleft, htop, hright, hbottom, -⟩ := boundsFlagsOf_and a b c d
    have htype : (ORDER_STANDARD ||| ORDER_TYPE_CHANGE ||| ORDER_BOUNDS) &&& ORDER_TYPE_CHANGE ≠
      0 := by decide
    have hsent : ¬ (ORDER_STANDARD ||| ORDER_TYPE_CHANGE ||| ORDER_BOUNDS) &&& ORDER_BOUNDS = 0 := by decide
    have hnew : ¬ (ORDER_STANDARD ||| ORDER_TYPE_CHANGE ||| ORDER_BOUNDS) &&&
        ORDER_ZERO_BOUNDS_DELTAS ≠ 0 := by
      decide
    refine (length_header htype hn hlength).trans ?_
    rw [updateWriteBounds, if_neg hsent, if_neg hnew]
    simp only [List.length_append, length_byte, length_writeBound hleft, length_writeBound htop,
      length_writeBound hright, length_writeBound hbottom]
    ring

/-- The header stands in front of the order, behind what has been in the stream. -/
theorem updateSendPrimary_eq (update : ServerBounds) (type : SendType) (s : OrderStruct)
    (stream : List UInt8) :
    updateSendPrimary update type s stream =
      stream ++ (updateWriteOrderInfo (sentOrderInfo update type s) ++ (encode s type.encoder).bytes) := by
  have hlength := length_updateWriteOrderInfo update type s
  have hdrop : (stream ++ List.replicate (updatePrepareOrderInfo update type.orderType.number).2 0 ++
      (encode s type.encoder).bytes).drop
        (stream.length + (updateWriteOrderInfo (sentOrderInfo update type s)).length) =
      (encode s type.encoder).bytes := by
    refine List.drop_left' ?_
    rw [List.length_append, List.length_replicate, hlength]
  have hsend : updateSendPrimary update type s stream =
      (stream ++ List.replicate (updatePrepareOrderInfo update type.orderType.number).2 0 ++
        (encode s type.encoder).bytes).take stream.length ++ updateWriteOrderInfo
          (sentOrderInfo update type s) ++
      (stream ++ List.replicate (updatePrepareOrderInfo update type.orderType.number).2 0 ++
        (encode s type.encoder).bytes).drop
          (stream.length + (updateWriteOrderInfo (sentOrderInfo update type s)).length) := rfl
  rw [hsend, hdrop, List.append_assoc, List.append_assoc, List.take_left]

/-! ### Receiving -/

def sentControlFlags : List ℕ :=
  [ORDER_STANDARD ||| ORDER_TYPE_CHANGE,
    ORDER_STANDARD ||| ORDER_TYPE_CHANGE ||| ORDER_BOUNDS ||| ORDER_ZERO_BOUNDS_DELTAS,
    ORDER_STANDARD ||| ORDER_TYPE_CHANGE ||| ORDER_BOUNDS]

theorem number_lt (type : OrderType) : type.number < 2 ^ 8 := by cases type <;> decide

theorem orderTypeOf_number (type : OrderType) : orderTypeOf type.number = some type := by cases type <;> rfl

/-- The flags of the fields of an order are read back, and each of its fields is announced. -/
theorem reads_updateReadFieldFlags (type : SendType) (s : OrderStruct) {flags : ℕ}
    (hflags : flags ∈ sentControlFlags) :
    ∃ n, getPrimaryDrawingOrderFieldBytes type.orderType.number = some n ∧
      Reads (updateReadFieldFlags flags n) (updateWriteFieldFlags (encode s type.encoder).fieldFlags n)
        (encode s type.encoder).fieldFlags ∧
      ∀ n ∈ type.encoder.flatMap WriteStep.fields, orderFieldFlagIsSet
        (encode s type.encoder).fieldFlags n = true := by
  rw [(encode_eq s type.encoder).1]
  have hbytes (n : ℕ) : fieldBytesOf flags n = n := by
    simp only [sentControlFlags, List.mem_cons, List.not_mem_nil, or_false] at hflags
    obtain rfl | rfl | rfl := hflags <;> rfl
  unfold updateReadFieldFlags
  cases type <;> refine ⟨_, rfl, ?_, by decide⟩ <;> rw [hbytes] <;> exact fun rest => rfl

/-- A client takes the header and the order behind it. -/
theorem reads_updateRecvOrder {other : ℕ → Reader (PrimaryClient × Option Bounds)} {flags : ℕ}
    {bs : List UInt8}
    {bounds : Bounds} (hflags : flags ∈ sentControlFlags)
    (hsupported : checkPrimaryOrderSupported settings type.orderType.number = true) (h : type.Fits s)
    (hbounds : Reads (if flags &&& ORDER_BOUNDS ≠ 0 ∧ flags &&& ORDER_ZERO_BOUNDS_DELTAS = 0 then
        updateReadBounds client.bounds else return client.bounds : Reader Bounds) bs bounds) :
    ∃ t, SameIn (type.cells s) (writtenBrush s) t ∧
      Reads (updateRecvOrder settings client other)
        (byte flags ++ (byte type.orderType.number ++
          (updateWriteFieldFlags (encode s type.encoder).fieldFlags
              ((getPrimaryDrawingOrderFieldBytes type.orderType.number).getD 0) ++
            (bs ++ (encode s type.encoder).bytes))))
        (⟨type.orderType.number, bounds, Function.update client.primary type.orderType t⟩,
          if flags &&& ORDER_BOUNDS ≠ 0 then some bounds else none) := by
  obtain ⟨n, hn, hfields, hhas⟩ := reads_updateReadFieldFlags type s hflags
  obtain ⟨t, hread, hsame⟩ := type.transfers h hhas (client.primary type.orderType) trivial
  rw [← (encode_eq s type.encoder).2] at hread
  have hall : ∀ flags ∈ sentControlFlags, flags < 2 ^ 8 ∧ flags &&& ORDER_STANDARD ≠ 0 ∧
      flags &&& ORDER_SECONDARY = 0 ∧ flags &&& ORDER_TYPE_CHANGE ≠ 0 ∧
        flags &&& ORDER_DELTA_COORDINATES = 0 := by decide
  obtain ⟨hlt, hstandard, hsecondary, hchange, hdelta⟩ := hall flags hflags
  have htype : Reads (if flags &&& ORDER_TYPE_CHANGE ≠ 0 then do
      need 1
      u8
    else return client.orderType : Reader ℕ) (byte type.orderType.number) type.orderType.number := by
    rw [if_pos hchange]
    exact Reads.need (Nat.le_refl 1) (Reads.u8 (number_lt type.orderType))
  have hcount : Reads (fun s => (getPrimaryDrawingOrderFieldBytes type.orderType.number).map (·,
      s) : Reader ℕ) [] n := by
    rw [hn]
    exact fun rest => rfl
  have hprimary : Reads (readPrimaryOrder
      ⟨type.orderType, (encode s type.encoder).fieldFlags, flags &&& ORDER_DELTA_COORDINATES ≠ 0⟩
        client.primary)
      (encode s type.encoder).bytes (Function.update client.primary type.orderType t) := by
    have habsolute : decide (flags &&& ORDER_DELTA_COORDINATES ≠ 0) = false :=
      decide_eq_false (not_not.mpr hdelta)
    rw [readPrimaryOrder, habsolute]
    exact hread.map rfl
  refine ⟨t, hsame, ?_⟩
  rw [hn, Option.getD_some]
  refine Reads.need (by simp) ((Reads.u8 hlt).bind ?_)
  rw [if_neg hstandard, if_neg (not_not.mpr hsecondary)]
  refine htype.bind (Reads.skip (Reads.check hsupported)
    (Reads.skip hcount (hfields.bind (hbounds.bind ?_))))
  rw [orderTypeOf_number]
  exact hprimary.map rfl

/-- The bounds with which a client draws an order, with `bounds` before. -/
def ServerBounds.drawn (update : ServerBounds) (bounds : Bounds) : Option Bounds :=
  if update.currentBounds = Bounds.zero then none else some (update.patch bounds)

theorem updateWriteOrderInfo_eq {orderInfo : SendOrderInfo}
    (h : orderInfo.controlFlags ∈ sentControlFlags) :
    updateWriteOrderInfo orderInfo = byte orderInfo.controlFlags ++ (byte orderInfo.orderType ++
      (updateWriteFieldFlags orderInfo.fieldFlags
        ((getPrimaryDrawingOrderFieldBytes orderInfo.orderType).getD 0) ++
        updateWriteBounds orderInfo)) := by
  have hall : ∀ flags ∈ sentControlFlags, flags &&& ORDER_TYPE_CHANGE ≠ 0 := by decide
  rw [updateWriteOrderInfo, if_pos (hall _ h)]

/-- A client takes an order that is sent, and no bytes behind it. -/
theorem reads_updateSendPrimary (other : ℕ → Reader (PrimaryClient × Option Bounds))
    (hsupported : checkPrimaryOrderSupported settings type.orderType.number = true) (h : type.Fits s)
    (hbounds : update.currentBounds.IsInt16) :
    ∃ t, SameIn (type.cells s) (writtenBrush s) t ∧
      Reads (updateRecvOrder settings client other) (updateSendPrimary update type s [])
        (⟨type.orderType.number, update.patch client.bounds,
          Function.update client.primary type.orderType t⟩, update.drawn client.bounds) := by
  -- the control flags, and what the client reads behind the flags of the fields
  obtain ⟨orderInfo, horder, hcontrol, hpatch, hdrawn⟩ :
    ∃ orderInfo, sentOrderInfo update type s = orderInfo ∧ orderInfo.controlFlags ∈ sentControlFlags ∧
      Reads (if orderInfo.controlFlags &&& ORDER_BOUNDS ≠ 0 ∧
          orderInfo.controlFlags &&& ORDER_ZERO_BOUNDS_DELTAS = 0 then updateReadBounds client.bounds
        else return client.bounds : Reader Bounds) (updateWriteBounds orderInfo)
          (update.patch client.bounds) ∧
      (if orderInfo.controlFlags &&& ORDER_BOUNDS ≠ 0 then some (update.patch client.bounds) else none) =
        update.drawn client.bounds := by
    obtain ⟨hzero, hprepare⟩ | ⟨hne, hsame, hprepare⟩ | ⟨hne, hdiff, a, b, c, d, ha, hb, hc, hd,
        hprepare⟩ :=
      updatePrepareBounds_cases update (ORDER_STANDARD ||| ORDER_TYPE_CHANGE)
    · have hnone : (ORDER_STANDARD ||| ORDER_TYPE_CHANGE) &&& ORDER_BOUNDS = 0 := by decide
      have hpatch : update.patch client.bounds = client.bounds := if_pos hzero
      refine ⟨_, (@sentOrderInfo_eq _ type s _ _ _ hprepare).1, List.mem_cons_self, ?_, ?_⟩
      · rw [updateWriteBounds_nil (Or.inl hnone), if_neg fun h => h.1 hnone, hpatch]
        exact Reads.pure client.bounds
      · rw [if_neg (not_not.mpr hnone), ServerBounds.drawn, if_pos hzero]
    · have hold : (ORDER_STANDARD ||| ORDER_TYPE_CHANGE ||| ORDER_BOUNDS ||| ORDER_ZERO_BOUNDS_DELTAS) &&&
          ORDER_BOUNDS ≠ 0 := by decide
      have hdeltas : (ORDER_STANDARD ||| ORDER_TYPE_CHANGE ||| ORDER_BOUNDS |||
        ORDER_ZERO_BOUNDS_DELTAS) &&&
          ORDER_ZERO_BOUNDS_DELTAS ≠ 0 := by decide
      have hpatch : update.patch client.bounds = client.bounds := by simp [ServerBounds.patch, hsame]
      refine ⟨_, (@sentOrderInfo_eq _ type s _ _ _ hprepare).1, by simp [sentControlFlags], ?_, ?_⟩
      · rw [updateWriteBounds_nil (Or.inr hdeltas), if_neg fun h => hdeltas h.2, hpatch]
        exact Reads.pure client.bounds
      · rw [if_pos hold, ServerBounds.drawn, if_neg hne]
    · have hnew : (ORDER_STANDARD ||| ORDER_TYPE_CHANGE ||| ORDER_BOUNDS) &&& ORDER_BOUNDS ≠ 0 := by decide
      have hdeltas : (ORDER_STANDARD ||| ORDER_TYPE_CHANGE ||| ORDER_BOUNDS) &&&
          ORDER_ZERO_BOUNDS_DELTAS = 0 := by
        decide
      refine ⟨_, (@sentOrderInfo_eq _ type s _ _ _ hprepare).1, by simp [sentControlFlags], ?_, ?_⟩
      · have hread := @reads_updateReadBounds ⟨ORDER_STANDARD ||| ORDER_TYPE_CHANGE ||| ORDER_BOUNDS,
          type.orderType.number, (encode s type.encoder).fieldFlags, boundsFlagsOf a b c d,
            update.currentBounds⟩
          a b c d client.bounds hnew hdeltas rfl hbounds
        rw [if_pos ⟨hnew, hdeltas⟩, ServerBounds.patch, if_neg hne]
        simpa only [ha, hb, hc, hd] using hread
      · rw [if_pos hnew, ServerBounds.drawn, if_neg hne]
  obtain ⟨t, hsame, hread⟩ := @reads_updateRecvOrder _ _ _ _ other _ _ _ hcontrol hsupported h hpatch
  refine ⟨t, hsame, ?_⟩
  rw [updateSendPrimary_eq, List.nil_append, horder, updateWriteOrderInfo_eq hcontrol, ← hdrawn]
  subst horder
  have htype : (sentOrderInfo update type s).orderType = type.orderType.number := rfl
  have hfields : (sentOrderInfo update type s).fieldFlags = (encode s type.encoder).fieldFlags := rfl
  simpa only [List.append_assoc, htype, hfields] using hread

/-! ### Orders without bounds -/

/-- A client takes exactly the bytes of an order without bounds, draws it without bounds, and has what
the order transmits; a brush is that behind `update_write_brush`. -/
theorem recv_send_primary (other : ℕ → Reader (PrimaryClient × Option Bounds))
    (hnull : update.currentBounds = Bounds.zero)
    (hsupported : checkPrimaryOrderSupported settings type.orderType.number = true) (h : type.Fits s)
    (stream rest : List UInt8) :
    ∃ bs client', updateSendPrimary update type s stream = stream ++ bs ∧
      updateRecvOrder settings client other (bs ++ rest) = some ((client', none), rest) ∧
      ∀ k ∈ type.cells s, client'.primary type.orderType k = writtenBrush s k := by
  have hzero : update.currentBounds.IsInt16 := by
    rw [hnull]
    exact Bounds.isInt16_zero
  obtain ⟨t, hsame, hread⟩ := @reads_updateSendPrimary update type s client settings other
    hsupported h hzero
  refine ⟨updateSendPrimary update type s [],
    ⟨type.orderType.number, update.patch client.bounds,
      Function.update client.primary type.orderType t⟩, ?_, ?_, fun k hk => ?_⟩
  · rw [updateSendPrimary_eq, updateSendPrimary_eq, List.nil_append]
  · rw [hread rest, ServerBounds.drawn, if_pos hnull]
  · rw [← hsame k hk]
    exact congrFun (Function.update_self ..) k

/-- A client that takes all orders. -/
def PrimarySettings.all : PrimarySettings := ⟨fun _ => true, true⟩

def cachedPattern : OrderStruct :=
  fun k => if k = (.brushStyle, 0) then 0x83 else if k = (.brushIndex, 0) then 7 else 0

theorem recv_send_patblt : ∃ bs client',
    updateSendPrimary ⟨Bounds.zero, Bounds.zero⟩ .patblt cachedPattern [0] = [0] ++ bs ∧
    updateRecvOrder .all .reset (fun _ => none) (bs ++ [1]) = some ((client', none), [1]) ∧
    ∀ k ∈ SendType.patblt.cells cachedPattern,
      client'.primary .patblt k = writtenBrush cachedPattern k := by
  have hbrush : IsBrush cachedPattern :=
    ⟨by decide, by decide, by decide, by decide, by decide, by decide, by decide⟩
  refine recv_send_primary (fun _ => none) rfl rfl ?_ [0] [1]
  simp only [SendType.Fits, SendType.encoder, updateWritePatbltOrder, List.forall_mem_cons, WriteStep.Fits]
  exact ⟨by decide, by decide, by decide, by decide, by decide, by decide, by decide, hbrush, by simp⟩

/-- An index of 17 bits does not fit the two bytes that are sent. -/
theorem not_recv_send_cacheIndex :
    (updateRecvOrder .all .reset (fun _ => none)
      (updateSendPrimary ⟨Bounds.zero, Bounds.zero⟩ .memblt
        (Function.update 0 (.cacheIndex, 0) 0x10000) [])).map
        (fun r => (r.1.1.primary .memblt (.cacheIndex, 0), r.2)) = some (0, []) := by
  decide

end FreeRDP.Orders
