import Mathlib.Tactic.IntervalCases
import FreeRDP.Orders.Send
import FreeRDP.Orders.Equiv.Messages

/-!
# Primary orders that are sent

Each step of an encoder is undone by the steps of the decoder that read the same fields; `Transfers`
says what is known of the structure of the client between two steps.
-/

namespace FreeRDP.Orders

open Wire Retain

variable {s t : OrderStruct} {has : ℕ → Bool} {bs bs' : List UInt8} {steps steps' : List Step} {step : Step}
  {n : ℕ} {m : Member} {known : List Cell}

/-! ### Values -/

/-- A value of type `INT16`. -/
def IsInt16 (v : ℤ) : Prop := -2 ^ 15 ≤ v ∧ v < 2 ^ 15

/-- An unsigned value of `bits` bits. -/
def IsUnsigned (bits : ℕ) (v : ℤ) : Prop := 0 ≤ v ∧ v < 2 ^ bits

instance (v : ℤ) : Decidable (IsInt16 v) := inferInstanceAs (Decidable (_ ∧ _))

instance (bits : ℕ) (v : ℤ) : Decidable (IsUnsigned bits v) := inferInstanceAs (Decidable (_ ∧ _))

theorem IsUnsigned.toNat_lt {bits : ℕ} {v : ℤ} (h : IsUnsigned bits v) : v.toNat < 2 ^ bits := by
  rw [Int.toNat_lt h.1]
  exact_mod_cast h.2

theorem IsUnsigned.cast_toNat {bits : ℕ} {v : ℤ} (h : IsUnsigned bits v) : (v.toNat : ℤ) = v :=
  Int.toNat_of_nonneg h.1

theorem IsUnsigned.emod_toNat {bits : ℕ} {v : ℤ} (h : IsUnsigned bits v) :
    (v % 2 ^ bits).toNat = v.toNat := by
  rw [Int.emod_eq_of_lt h.1 h.2]

theorem reads_updateReadCoord {v : ℤ} (h : IsInt16 v) (coord : ℤ) :
    Reads (updateReadCoord coord false) (updateWriteCoord v) v := by
  have hlt : (v % 2 ^ 16).toNat < 2 ^ 16 := by omega
  exact Reads.need (Nat.le_refl 2) ((Reads.u16le hlt).map (signed_emod h.1 h.2))

theorem reads_uint8 {v : ℤ} (h : IsUnsigned 8 v) : Reads u8 (writeUint8 v) v.toNat := by
  rw [writeUint8, h.emod_toNat]
  exact Reads.u8 h.toNat_lt

theorem reads_uint16 {v : ℤ} (h : IsUnsigned 16 v) : Reads u16le (writeUint16 v) v.toNat := by
  rw [writeUint16, h.emod_toNat]
  exact Reads.u16le h.toNat_lt

theorem reads_updateReadColor {v : ℤ} (h : IsUnsigned 24 v) :
    Reads updateReadColor (updateWriteColor v) v.toNat := by
  have hlt := h.toNat_lt
  have hbyte (c : ℕ) : c &&& 0xFF < 2 ^ 8 := by rw [and_0xFF]; omega
  have hmask : ∀ b < 2 ^ 8, b <<< 8 &&& 0xFF00 = b <<< 8 ∧ b <<< 16 &&& 0xFF0000 = b <<< 16 := by
    decide +kernel
  refine Reads.need (Nat.le_refl 3) ((Reads.u8 (hbyte _)).bind ((Reads.u8 (hbyte _)).bind
    ((Reads.u8 (hbyte _)).map ?_)))
  rw [(hmask _ (hbyte _)).1, (hmask _ (hbyte _)).2, Nat.or_comm, Nat.or_comm (_ &&& _), ← Nat.or_assoc,
    shiftLeft_or_or _ (hbyte _) (hbyte _), and_0xFF, and_0xFF, and_0xFF, Nat.shiftRight_eq_div_pow,
    Nat.shiftRight_eq_div_pow]
  omega

/-- A byte of the color `c` is assigned. -/
theorem testBit_color {mask shift picked : ℕ} (h : (mask, shift) ∈ colorBytes)
    (hpicked : picked = 0xFF <<< shift)
    (old c i : ℕ) :
    (old &&& mask ||| ((c &&& picked) >>> shift) <<< shift).testBit i =
      if shift ≤ i ∧ i < shift + 8 then c.testBit i else decide (i < 24) && old.testBit i := by
  subst hpicked
  have hshift := shift_of_mem h
  have hbyte : (c &&& 0xFF <<< shift) >>> shift < 2 ^ 8 := by
    rw [Nat.shiftRight_and_distrib, Nat.shiftLeft_shiftRight, and_0xFF]
    omega
  rw [Nat.testBit_or, Nat.testBit_and, testBit_mask h]
  by_cases hin : shift ≤ i ∧ i < shift + 8
  · have hbit : Nat.testBit 0xFF (i - shift) = true := by
      rw [show (0xFF : ℕ) = 2 ^ 8 - 1 from rfl, Nat.testBit_two_pow_sub_one]
      exact decide_eq_true (by omega)
    rw [if_pos hin, Nat.testBit_shiftLeft, Nat.testBit_shiftRight, Nat.testBit_and, Nat.testBit_shiftLeft,
      Nat.add_sub_cancel' hin.1, hbit]
    simp [hin]
  · rw [if_neg hin, testBit_byte hbyte hin]
    simp [hin, Bool.and_comm]

theorem color_of_bytes (old : ℕ) {c : ℕ} (hc : c < 2 ^ 24) :
    (((old &&& 0x00FFFF00 ||| ((c &&& 0x000000FF) >>> 0) <<< 0) &&& 0x00FF00FF |||
      ((c &&& 0x0000FF00) >>> 8) <<< 8) &&& 0x0000FFFF ||| ((c &&& 0x00FF0000) >>> 16) <<< 16) = c := by
  refine Nat.eq_of_testBit_eq fun i => ?_
  have hlow := @testBit_color 0x00FFFF00 0 0x000000FF (by decide) (by decide) old c i
  have hmid (old : ℕ) := @testBit_color 0x00FF00FF 8 0x0000FF00 (by decide) (by decide) old c i
  have hhigh (old : ℕ) := @testBit_color 0x0000FFFF 16 0x00FF0000 (by decide) (by decide) old c i
  rw [hhigh, hmid, hlow]
  by_cases hi : i < 24
  · rw [decide_eq_true hi, Bool.true_and, Bool.true_and]
    split_ifs with h₁ h₂ h₃
    · rfl
    · rfl
    · rfl
    · omega
  · have hbit : c.testBit i = false :=
      Nat.testBit_lt_two_pow (hc.trans_le (Nat.pow_le_pow_right (by decide) (not_lt.mp hi)))
    simp [hi, hbit]

/-! ### Steps -/

/-- Steps read `bs`, and `Q` holds of the structure behind them if `P` held before. -/
def Transfers (has : ℕ → Bool) (P : OrderStruct → Prop) (bs : List UInt8) (steps : List Step)
    (Q : OrderStruct → Prop) : Prop :=
  ∀ t, P t → ∃ t', Reads (decode has (steps.map (Step.part false)) t) bs t' ∧ Q t'

variable {P Q R : OrderStruct → Prop}

theorem Transfers.nil (h : ∀ t, P t → Q t) : Transfers has P [] [] Q :=
  fun t ht => ⟨t, Reads.pure t, h t ht⟩

theorem decode_append (has : ℕ → Bool) (ps qs : List (Part Cell ℤ)) (t : OrderStruct) :
    decode has (ps ++ qs) t = decode has ps t >>= decode has qs := by
  induction ps generalizing t with
  | nil => rfl
  | cons p ps ih =>
    rw [List.cons_append, decode, decode, bind_assoc]
    exact congrArg _ (funext fun t => ih t)

theorem Transfers.append (h : Transfers has P bs steps Q) (h' : Transfers has Q bs' steps' R) :
    Transfers has P (bs ++ bs') (steps ++ steps') R := by
  intro t ht
  obtain ⟨t₁, hread, hQ⟩ := h t ht
  obtain ⟨t₂, hread', hR⟩ := h' t₁ hQ
  refine ⟨t₂, ?_, hR⟩
  rw [List.map_append, decode_append]
  exact hread.bind hread'

/-- The structures have the same values in `cells`. -/
def SameIn (cells : List Cell) (s t : OrderStruct) : Prop := ∀ k ∈ cells, t k = s k

theorem Transfers.one (step : Step) {ws : OrderStruct → List (Cell × ℤ)} (hhas : step.field.all has = true)
    (hread : ∀ t, P t → Reads (step.read false t) bs (ws t)) (hQ : ∀ t, P t → Q (write (ws t) t)) :
    Transfers has P bs [step] Q := by
  intro t ht
  refine ⟨write (ws t) t, ?_, hQ t ht⟩
  have hrun : Reads ((step.part false).run t) bs (write (ws t) t) := (hread t ht).map rfl
  have hdecode : decode has ([step].map (Step.part false)) t = (step.part false).run t >>= pure := by
    rw [List.map_cons, decode]
    exact congrArg (· >>= pure) (if_pos hhas)
  rw [hdecode]
  exact hrun.last (Reads.pure _)

/-- Values that are those of `s` are assigned. -/
theorem SameIn.write {ws : List (Cell × ℤ)} (h : SameIn known s t) (hws : ∀ w ∈ ws, s w.1 = w.2) :
    SameIn (known ++ ws.map Prod.fst) s (Retain.write ws t) := by
  induction ws generalizing known t with
  | nil =>
    rw [List.map_nil, List.append_nil]
    exact h
  | cons w ws ih =>
    have hnext : SameIn (known ++ [w.1]) s (Function.update t w.1 w.2) := by
      intro k hk
      by_cases heq : k = w.1
      · rw [heq, Function.update_self, hws w List.mem_cons_self]
      · rw [Function.update_of_ne heq]
        exact h k ((List.mem_append.mp hk).resolve_right fun hmem => heq (List.mem_singleton.mp hmem))
    have hrest := ih hnext fun w' hw' => hws w' (List.mem_cons_of_mem _ hw')
    rwa [List.append_assoc] at hrest

theorem Transfers.assign (step : Step) {ws : List (Cell × ℤ)} (hhas : step.field.all has = true)
    (hread : ∀ t, SameIn known s t → Reads (step.read false t) bs ws) (hws : ∀ w ∈ ws, s w.1 = w.2) :
    Transfers has (SameIn known s) bs [step] (SameIn (known ++ ws.map Prod.fst) s) :=
  Transfers.one step hhas hread fun _ ht => ht.write hws

theorem transfers_coord (hhas : has n = true) (h : IsInt16 (s (m, 0))) :
    Transfers has (SameIn known s) (updateWriteCoord (s (m, 0))) [.coord n m]
      (SameIn (known ++ [(m, 0)]) s) := by
  have hread (t : OrderStruct) : Reads ((Step.coord n m).read false t) (updateWriteCoord (s (m, 0)))
      [((m, 0), s (m, 0))] := (reads_updateReadCoord h _).map rfl
  exact Transfers.assign (.coord n m) hhas (fun t _ => hread t) (by simp)

theorem transfers_byte (hhas : has n = true) (h : IsUnsigned 8 (s (m, 0))) :
    Transfers has (SameIn known s) (writeUint8 (s (m, 0))) [.byte n m] (SameIn (known ++ [(m, 0)]) s) := by
  have hread (t : OrderStruct) : Reads ((Step.byte n m).read false t) (writeUint8 (s (m, 0)))
      [((m, 0), (s (m, 0)).toNat)] := Reads.need (Nat.le_refl 1) ((reads_uint8 h).map rfl)
  exact Transfers.assign (.byte n m) hhas (fun t _ => hread t) (by simp [h.cast_toNat])

theorem transfers_uint16 (hhas : has n = true) (h : IsUnsigned 16 (s (m, 0))) :
    Transfers has (SameIn known s) (writeUint16 (s (m, 0))) [.uint16 n m]
      (SameIn (known ++ [(m, 0)]) s) := by
  have hread (t : OrderStruct) : Reads ((Step.uint16 n m).read false t) (writeUint16 (s (m, 0)))
      [((m, 0), (s (m, 0)).toNat)] := Reads.need (Nat.le_refl 2) ((reads_uint16 h).map rfl)
  exact Transfers.assign (.uint16 n m) hhas (fun t _ => hread t) (by simp [h.cast_toNat])

theorem transfers_int16 (hhas : has n = true) (h : IsInt16 (s (m, 0))) :
    Transfers has (SameIn known s) (writeUint16 (s (m, 0))) [.int16 n m]
      (SameIn (known ++ [(m, 0)]) s) := by
  have hlt : (s (m, 0) % 2 ^ 16).toNat < 2 ^ 16 := by omega
  have hread (t : OrderStruct) : Reads ((Step.int16 n m).read false t) (writeUint16 (s (m, 0)))
      [((m, 0), s (m, 0))] := by
    refine Reads.need (Nat.le_refl 2) ((Reads.u16le hlt).map ?_)
    rw [signed_emod h.1 h.2]
  exact Transfers.assign (.int16 n m) hhas (fun t _ => hread t) (by simp)

theorem transfers_color (hhas : has n = true) (h : IsUnsigned 24 (s (m, 0))) :
    Transfers has (SameIn known s) (updateWriteColor (s (m, 0))) [.color n m]
      (SameIn (known ++ [(m, 0)]) s) := by
  have hread (t : OrderStruct) : Reads ((Step.color n m).read false t) (updateWriteColor (s (m, 0)))
      [((m, 0), (s (m, 0)).toNat)] := (reads_updateReadColor h).map rfl
  exact Transfers.assign (.color n m) hhas (fun t _ => hread t) (by simp [h.cast_toNat])

theorem reads_colorByte (n mask shift : ℕ) {b : ℕ} (hb : b < 2 ^ 8) (t : OrderStruct) :
    Reads ((Step.colorByte n mask shift).read false t) (byte b)
      [((.color, 0), ((t (.color, 0)).toNat &&& mask ||| b <<< shift : ℕ))] :=
  Reads.need (Nat.le_refl 1) ((Reads.u8 hb).map rfl)

/-- The three bytes of a color, of which each keeps the others. -/
theorem transfers_colorBytes (hlow : has 5 = true) (hmid : has 6 = true) (hhigh : has 7 = true)
    (h : IsUnsigned 24 (s (.color, 0))) :
    Transfers has (SameIn known s)
      (byte (((s (.color, 0)).toNat &&& 0x000000FF) >>> 0) ++
        (byte (((s (.color, 0)).toNat &&& 0x0000FF00) >>> 8) ++
          byte (((s (.color, 0)).toNat &&& 0x00FF0000) >>> 16)))
      [.colorByte 5 0x00FFFF00 0, .colorByte 6 0x00FF00FF 8, .colorByte 7 0x0000FFFF 16]
      (SameIn (known ++ [(.color, 0)]) s) := by
  have hbyte (c : ℕ) {shift picked : ℕ} (hpicked : picked >>> shift = 0xFF) :
      (c &&& picked) >>> shift < 2 ^ 8 := by
    rw [Nat.shiftRight_and_distrib, hpicked, and_0xFF]
    omega
  have hlt := h.toNat_lt
  have hcast := h.cast_toNat
  generalize (s (.color, 0)).toNat = c at hlt hcast
  -- the color with the bytes so far, and what is known besides
  let low (old : ℕ) : ℕ := old &&& 0x00FFFF00 ||| ((c &&& 0x000000FF) >>> 0) <<< 0
  let mid (old : ℕ) : ℕ := low old &&& 0x00FF00FF ||| ((c &&& 0x0000FF00) >>> 8) <<< 8
  let high (old : ℕ) : ℕ := mid old &&& 0x0000FFFF ||| ((c &&& 0x00FF0000) >>> 16) <<< 16
  let Held (color : ℕ → ℕ) (t : OrderStruct) : Prop :=
    (∃ old, t (.color, 0) = (color old : ℕ)) ∧ ∀ k ∈ known, k ≠ (.color, 0) → t k = s k
  have hheld {color color' : ℕ → ℕ} (n mask shift : ℕ) {b : ℕ} (hhas : has n = true) (hb : b < 2 ^ 8)
      (hcolor : ∀ old, color' old = color old &&& mask ||| b <<< shift) :
      Transfers has (Held color) (byte b) [.colorByte n mask shift] (Held color') := by
    refine Transfers.one (.colorByte n mask shift) hhas (fun t _ => reads_colorByte n mask shift hb t)
      fun t ht => ⟨?_, fun k hk hne => ?_⟩
    · obtain ⟨old, hold⟩ := ht.1
      refine ⟨old, ?_⟩
      rw [write_cons, write_nil, Function.update_self, hold, Int.toNat_natCast, hcolor]
    · rw [write_cons, write_nil, Function.update_of_ne hne, ht.2 k hk hne]
  have hfirst : Transfers has (SameIn known s) (byte ((c &&& 0x000000FF) >>> 0)) [.colorByte 5 0x00FFFF00 0]
      (Held low) := by
    refine Transfers.one (.colorByte 5 0x00FFFF00 0) hlow
      (fun t _ => reads_colorByte 5 _ 0 (hbyte c (by decide)) t) fun t ht =>
        ⟨⟨(t (.color, 0)).toNat, ?_⟩, fun k hk hne => ?_⟩
    · rw [write_cons, write_nil, Function.update_self]
    · rw [write_cons, write_nil, Function.update_of_ne hne, ht k hk]
  have hsecond : Transfers has (Held low) (byte ((c &&& 0x0000FF00) >>> 8))
      [.colorByte 6 0x00FF00FF 8] (Held mid) :=
    hheld 6 0x00FF00FF 8 hmid (hbyte c (by decide)) fun _ => rfl
  have hthird : Transfers has (Held mid) (byte ((c &&& 0x00FF0000) >>> 16))
      [.colorByte 7 0x0000FFFF 16] (Held high) :=
    hheld 7 0x0000FFFF 16 hhigh (hbyte c (by decide)) fun _ => rfl
  have hall := hfirst.append (hsecond.append hthird)
  intro t ht
  obtain ⟨t', hread, ⟨old, hcolor⟩, hkeep⟩ := hall t ht
  refine ⟨t', hread, fun k hk => ?_⟩
  by_cases hne : k = (.color, 0)
  · have hhigh : high old = c := color_of_bytes old hlt
    rw [hne, hcolor, hhigh, hcast]
  · exact hkeep k ((List.mem_append.mp hk).resolve_right fun hmem => hne (List.mem_singleton.mp hmem)) hne

theorem transfers_glyphs (hhas : has n = true) (hcb : IsUnsigned 8 (s (.cbData, 0)))
    (hdata : ∀ i < (s (.cbData, 0)).toNat, IsUnsigned 8 (s (.data, i))) :
    Transfers has (SameIn known s)
      (writeUint8 (s (.cbData, 0)) ++ (List.range (s (.cbData, 0)).toNat).flatMap fun i =>
        writeUint8 (s (.data, i)))
      [.glyphs n]
      (SameIn (known ++ ((.cbData, 0) :: (List.range (s (.cbData, 0)).toNat).map fun i =>
        (Member.data, i))) s) := by
  let glyphs : List UInt8 := (List.range (s (.cbData, 0)).toNat).map fun i =>
    UInt8.ofNat (s (.data, i) % 2 ^ 8).toNat
  have hbytes : ((List.range (s (.cbData, 0)).toNat).flatMap fun i => writeUint8 (s (.data, i))) = glyphs :=
    List.flatMap_pure_eq_map _ _
  have hlength : glyphs.length = (s (.cbData, 0)).toNat := by rw [List.length_map, List.length_range]
  have harray : Member.array .data (glyphs.map fun b => (b.toNat : ℤ)) =
      (List.range (s (.cbData, 0)).toNat).map fun i => ((Member.data, i), s (.data, i)) := by
    refine List.ext_getElem (by simp [Member.array, hlength]) fun i hi hi' => ?_
    have hlt : i < (s (.cbData, 0)).toNat := by simpa using hi'
    have hvalue : ((UInt8.ofNat (s (.data, i) % 2 ^ 8).toNat).toNat : ℤ) = s (.data, i) := by
      rw [(hdata i hlt).emod_toNat, UInt8.toNat_ofNat', Nat.mod_eq_of_lt (hdata i hlt).toNat_lt,
        (hdata i hlt).cast_toNat]
    simp only [Member.array, glyphs, List.getElem_map, List.getElem_zipIdx, List.getElem_range,
      Nat.zero_add, hvalue]
  have hread (t : OrderStruct) : Reads ((Step.glyphs n).read false t)
      (writeUint8 (s (.cbData, 0)) ++ (List.range (s (.cbData, 0)).toNat).flatMap fun i =>
        writeUint8 (s (.data, i)))
      (((.cbData, 0), ((s (.cbData, 0)).toNat : ℤ)) :: Member.array .data (glyphs.map fun b =>
        (b.toNat : ℤ))) := by
    rw [hbytes]
    refine Reads.need ?_ ((reads_uint8 hcb).bind (Reads.need hlength.ge ((Reads.bytes hlength).map rfl)))
    rw [List.length_append, writeUint8, length_byte]
    exact Nat.le_add_right 1 _
  have hassign := @Transfers.assign s has _ known (.glyphs n) _ hhas (fun t _ => hread t) ?_
  · rw [harray, List.map_cons, List.map_map] at hassign
    exact hassign
  · rw [harray]
    simp [hcb.cast_toNat]

/-! ### Brushes -/

/-- The members of a brush are bytes, and its style is one that `update_write_brush` takes. -/
structure IsBrush (s : OrderStruct) : Prop where
  x : IsUnsigned 8 (s (.brushX, 0))
  y : IsUnsigned 8 (s (.brushY, 0))
  style : IsUnsigned 8 (s (.brushStyle, 0))
  hatch : IsUnsigned 8 (s (.brushHatch, 0))
  index : IsUnsigned 8 (s (.brushIndex, 0))
  p8x8 : ∀ i < 8, IsUnsigned 8 (s (.brushP8x8, i))
  accepted : acceptsBrush s = true

/-- The members of a brush that a client has from an order. -/
def brushCells (s : OrderStruct) : List Cell :=
  [(.brushX, 0), (.brushY, 0), (.brushStyle, 0), (.brushHatch, 0)] ++
    (if isCachedBrush s then [(.brushIndex, 0), (.brushBpp, 0)] else []) ++
    [(.brushData, 0), (.brushP8x8, 7), (.brushP8x8, 6), (.brushP8x8, 5), (.brushP8x8, 4), (.brushP8x8, 3),
      (.brushP8x8, 2), (.brushP8x8, 1), (.brushP8x8, 0)]

def brushRowBytes (s : OrderStruct) : List UInt8 :=
  writeUint8 (s (.brushP8x8, 7)) ++ (writeUint8 (s (.brushP8x8, 6)) ++ (writeUint8 (s (.brushP8x8, 5)) ++
    (writeUint8 (s (.brushP8x8, 4)) ++ (writeUint8 (s (.brushP8x8, 3)) ++ (writeUint8 (s (.brushP8x8, 2)) ++
    writeUint8 (s (.brushP8x8, 1)))))))

/-- What `update_write_brush` writes if all fields of the brush are announced. -/
def brushBytes (s : OrderStruct) : List UInt8 :=
  writeUint8 (s (.brushX, 0)) ++ (writeUint8 (s (.brushY, 0)) ++ (writeUint8 (s (.brushStyle, 0)) ++
    (writeUint8 (writtenBrush s (.brushHatch, 0)) ++ brushRowBytes s)))

theorem writtenBrush_of_ne {k : Cell} (h : k.1 ∉ [Member.brushHatch, .brushBpp, .brushData])
    (hp : k ≠ (.brushP8x8, 0)) : writtenBrush s k = s k := by
  have hne (m : Member) (hm : m ∈ [Member.brushHatch, .brushBpp, .brushData]) (i : ℕ) : k ≠ (m, i) :=
    fun heq => h (heq ▸ hm)
  unfold writtenBrush
  rw [write_cons, write_cons, write_nil, Function.update_of_ne hp,
    Function.update_of_ne (hne _ (by simp) _)]
  split_ifs
  · rw [write_cons, write_cons, write_nil, Function.update_of_ne (hne _ (by simp) _),
      Function.update_of_ne (hne _ (by simp) _)]
  · rfl

theorem writtenBrush_hatch : writtenBrush s (.brushHatch, 0) =
    if isCachedBrush s then s (.brushIndex, 0) else s (.brushHatch, 0) := by
  unfold writtenBrush
  split_ifs <;> simp

theorem writtenBrush_p8x8_zero : writtenBrush s (.brushP8x8, 0) = writtenBrush s (.brushHatch, 0) := by
  rw [writtenBrush_hatch]
  unfold writtenBrush
  split_ifs <;> simp

theorem writtenBrush_data : writtenBrush s (.brushData, 0) = 1 := by simp [writtenBrush]

theorem getBmfBpp_ne_zero {bmf bpp : ℕ} (h : getBmfBpp bmf = some bpp) : bpp ≠ 0 := by
  unfold getBmfBpp at h
  split at h <;> first | (obtain rfl := Option.some.inj h; decide) | exact nomatch h

theorem transfers_cachedBrush (h : acceptsBrush s = true) (hstyle : (Member.brushStyle, 0) ∈ known)
    (hhatch : (Member.brushHatch, 0) ∈ known) :
    Transfers has (SameIn known (writtenBrush s)) [] [.cachedBrush]
      (SameIn (known ++ if isCachedBrush s then [(.brushIndex, 0), (.brushBpp, 0)] else [])
        (writtenBrush s)) := by
  have hstyle' {t : OrderStruct} (ht : SameIn known (writtenBrush s) t) :
      t (.brushStyle, 0) = s (.brushStyle, 0) := by
    rw [ht _ hstyle, writtenBrush_of_ne (by simp) (by simp)]
  by_cases hcached : isCachedBrush s = true
  · rw [if_pos hcached]
    obtain ⟨bpp, hbpp⟩ : ∃ bpp, getBmfBpp (s (.brushStyle, 0)).toNat = some bpp := by
      rw [acceptsBrush, hcached] at h
      exact Option.isSome_iff_exists.mp h
    have hread {t : OrderStruct} (ht : SameIn known (writtenBrush s) t) :
        Reads (Step.cachedBrush.read false t) []
          [((.brushIndex, 0), s (.brushIndex, 0)), ((.brushBpp, 0), (bpp : ℤ))] := by
      have hstep : Step.cachedBrush.read false t = fun bs =>
        (getBmfBpp (t (.brushStyle, 0)).toNat).map fun bpp =>
          ([((.brushIndex, 0), t (.brushHatch, 0)),
            ((.brushBpp, 0), ((if bpp = 0 then 1 else bpp : ℕ) : ℤ))], bs) := by
        refine if_pos ?_
        rw [hstyle' ht]
        simpa [isCachedBrush] using hcached
      intro rest
      rw [hstep, hstyle' ht, hbpp, ht _ hhatch, writtenBrush_hatch, if_pos hcached]
      simp [getBmfBpp_ne_zero hbpp]
    refine Transfers.assign .cachedBrush rfl (fun t ht => hread ht) ?_
    simp [writtenBrush, hcached, hbpp]
  · rw [if_neg hcached, List.append_nil]
    have hread {t : OrderStruct} (ht : SameIn known (writtenBrush s) t) :
        Reads (Step.cachedBrush.read false t) [] [] := by
      have hstep : Step.cachedBrush.read false t = pure [] := by
        refine if_neg ?_
        rw [hstyle' ht]
        simpa [isCachedBrush] using hcached
      rw [hstep]
      exact Reads.pure []
    exact Transfers.one .cachedBrush rfl (fun t ht => hread ht) fun t ht => ht

theorem transfers_brushRows (hhas : has n = true) (h : ∀ i < 8, IsUnsigned 8 (s (.brushP8x8, i)))
    (hhatch : (Member.brushHatch, 0) ∈ known) :
    Transfers has (SameIn known (writtenBrush s)) (brushRowBytes s) [.brushRows n]
      (SameIn (known ++ [(.brushData, 0), (.brushP8x8, 7), (.brushP8x8, 6), (.brushP8x8, 5),
        (.brushP8x8, 4),
        (.brushP8x8, 3), (.brushP8x8, 2), (.brushP8x8, 1), (.brushP8x8, 0)]) (writtenBrush s)) := by
  have hrow (i : ℕ) (hi : i < 8) := reads_uint8 (h i hi)
  have hp {i : ℕ} (hi : i ≠ 0) : writtenBrush s (.brushP8x8, i) = s (.brushP8x8, i) :=
    writtenBrush_of_ne (by simp) (by simpa using hi)
  have hread {t : OrderStruct} (ht : SameIn known (writtenBrush s) t) :
    Reads ((Step.brushRows n).read false t)
      (brushRowBytes s)
      [((.brushData, 0), 1), ((.brushP8x8, 7), ((s (.brushP8x8, 7)).toNat : ℤ)),
        ((.brushP8x8, 6), ((s (.brushP8x8, 6)).toNat : ℤ)),
          ((.brushP8x8, 5), ((s (.brushP8x8, 5)).toNat : ℤ)),
        ((.brushP8x8, 4), ((s (.brushP8x8, 4)).toNat : ℤ)),
          ((.brushP8x8, 3), ((s (.brushP8x8, 3)).toNat : ℤ)),
        ((.brushP8x8, 2), ((s (.brushP8x8, 2)).toNat : ℤ)),
          ((.brushP8x8, 1), ((s (.brushP8x8, 1)).toNat : ℤ)),
        ((.brushP8x8, 0), writtenBrush s (.brushHatch, 0))] := by
    refine Reads.need (Nat.le_refl 7) ((hrow 7 (by decide)).bind ((hrow 6 (by decide)).bind
      ((hrow 5 (by decide)).bind ((hrow 4 (by decide)).bind
        ((hrow 3 (by decide)).bind ((hrow 2 (by decide)).bind
      ((hrow 1 (by decide)).map ?_)))))))
    rw [ht _ hhatch]
  refine Transfers.assign (.brushRows n) hhas (fun t ht => hread ht) ?_
  have hcast (i : ℕ) (hi : i < 8) := (h i hi).cast_toNat
  simp [writtenBrush_data, writtenBrush_p8x8_zero, hp, hcast]

theorem transfers_brush {first : ℕ} (hhas : ∀ n ∈ (WriteStep.brush first).fields, has n = true)
    (h : IsBrush s) :
    Transfers has (SameIn known (writtenBrush s)) (brushBytes s) (updateReadBrush first)
      (SameIn (known ++ brushCells s) (writtenBrush s)) := by
  have hhatch : IsUnsigned 8 (writtenBrush s (.brushHatch, 0)) := by
    rw [writtenBrush_hatch]
    split_ifs
    · exact h.index
    · exact h.hatch
  have hbyte {known : List Cell} (n : ℕ) (hn : has n = true) (m : Member)
      (hm : m ∉ [Member.brushHatch, .brushBpp, .brushData, .brushP8x8]) (hv : IsUnsigned 8 (s (m, 0))) :
      Transfers has (SameIn known (writtenBrush s)) (writeUint8 (s (m, 0))) [.byte n m]
        (SameIn (known ++ [(m, 0)]) (writtenBrush s)) := by
    have heq : writtenBrush s (m, 0) = s (m, 0) :=
      writtenBrush_of_ne (fun hmem => hm (by simp at hmem ⊢; tauto)) fun heq => hm
        (by simp [(Prod.mk.inj heq).1])
    rw [← heq] at hv ⊢
    exact transfers_byte hn hv
  simp only [WriteStep.fields, List.mem_cons, List.not_mem_nil, or_false, forall_eq_or_imp,
    forall_eq] at hhas
  obtain ⟨hx, hy, hstyle, hhatch', hrows⟩ := hhas
  have hall := (@hbyte known _ hx .brushX (by simp) h.x).append <|
    (hbyte _ hy .brushY (by simp) h.y).append <| (hbyte _ hstyle .brushStyle (by simp) h.style).append <|
    (transfers_byte hhatch' hhatch).append <| (transfers_cachedBrush h.accepted (by simp) (by
      simp)).append <|
    transfers_brushRows hrows h.p8x8 (by simp)
  simpa only [List.append_assoc, brushCells, brushBytes, updateReadBrush, List.cons_append,
    List.nil_append] using hall

/-! ### Encoders -/

theorem testBit_setOrderFieldFlags {fields : List ℕ} (fieldFlags : ℕ) (hn : n ∈ fields) :
    (setOrderFieldFlags fieldFlags fields).testBit (n - 1) = true := by
  have hkeep (fields : List ℕ) (flags : ℕ) (h : flags.testBit (n - 1) = true) :
      (setOrderFieldFlags flags fields).testBit (n - 1) = true := by
    induction fields generalizing flags with
    | nil => exact h
    | cons k fields ih => exact ih _ (by rw [Nat.testBit_or, h, Bool.true_or])
  induction fields generalizing fieldFlags with
  | nil => exact absurd hn List.not_mem_nil
  | cons k fields ih =>
    obtain rfl | hmem := List.mem_cons.mp hn
    · exact hkeep fields _ (by rw [Nat.testBit_or, Nat.one_shiftLeft, Nat.testBit_two_pow_self,
        Bool.or_true])
    · exact ih _ hmem

/-- What a step writes if its fields are announced. -/
def WriteStep.bytes (s : OrderStruct) : WriteStep → List UInt8
  | brush _ => (updateWriteBrush s 0x1F).1
  | step => (step.write s 0).1

theorem updateWriteBrush_of_testBit {fieldFlags : ℕ} (h : ∀ i < 5, fieldFlags.testBit i = true) :
    updateWriteBrush s fieldFlags = updateWriteBrush s 0x1F := by
  have hflag (i : ℕ) (hi : i < 5) : (fieldFlags &&& 2 ^ i ≠ 0) = True := by
    rw [Nat.and_two_pow, h i hi]
    simp
  have h₀ : (fieldFlags &&& 0x01 ≠ 0) = True := hflag 0 (by decide)
  have h₁ : (fieldFlags &&& 0x02 ≠ 0) = True := hflag 1 (by decide)
  have h₂ : (fieldFlags &&& 0x04 ≠ 0) = True := hflag 2 (by decide)
  have h₃ : (fieldFlags &&& 0x08 ≠ 0) = True := hflag 3 (by decide)
  have h₄ : (fieldFlags &&& 0x10 ≠ 0) = True := hflag 4 (by decide)
  unfold updateWriteBrush
  simp only [h₀, h₁, h₂, h₃, h₄]
  simp

theorem updateWriteBrush_accepted (h : acceptsBrush s = true) :
    updateWriteBrush s 0x1F = (brushBytes s, true) := by
  unfold updateWriteBrush
  simp only [h, brushBytes, brushRowBytes, writtenBrush_hatch]
  simp

theorem WriteStep.write_fields (step : WriteStep) (fieldFlags : ℕ) :
    (step.write s (setOrderFieldFlags fieldFlags step.fields)).1 = step.bytes s := by
  cases step with
  | brush first =>
    have hbit (i : ℕ) (hi : i < 5) :
        (setOrderFieldFlags fieldFlags (brush first).fields >>> first % 2 ^ 8).testBit i = true := by
      rw [Nat.testBit_mod_two_pow, decide_eq_true (by omega), Bool.true_and, Nat.testBit_shiftRight]
      have hmem : first + i + 1 ∈ (brush first).fields := by
        simp only [fields, List.mem_cons, List.not_mem_nil, or_false]
        omega
      exact testBit_setOrderFieldFlags fieldFlags hmem
    exact congrArg Prod.fst (updateWriteBrush_of_testBit hbit)
  | _ => rfl

theorem setOrderFieldFlags_append (fieldFlags : ℕ) (fields fields' : List ℕ) :
    setOrderFieldFlags fieldFlags (fields ++ fields') = setOrderFieldFlags
      (setOrderFieldFlags fieldFlags fields) fields' :=
  List.foldl_append

theorem encode_eq (s : OrderStruct) (steps : List WriteStep) :
    (encode s steps).fieldFlags = setOrderFieldFlags 0 (steps.flatMap WriteStep.fields) ∧
      (encode s steps).bytes = steps.flatMap (WriteStep.bytes s) := by
  have hfold (w : Encoded) : (steps.foldl (Encoded.step s) w).fieldFlags =
        setOrderFieldFlags w.fieldFlags (steps.flatMap WriteStep.fields) ∧
      (steps.foldl (Encoded.step s) w).bytes = w.bytes ++ steps.flatMap (WriteStep.bytes s) := by
    induction steps generalizing w with
    | nil => exact ⟨rfl, (List.append_nil _).symm⟩
    | cons step steps ih =>
      obtain ⟨hflags, hbytes⟩ := ih (w.step s step)
      refine ⟨?_, ?_⟩
      · rw [List.foldl_cons, hflags, List.flatMap_cons, setOrderFieldFlags_append]
        rfl
      · rw [List.foldl_cons, hbytes, List.flatMap_cons, ← List.append_assoc,
          ← step.write_fields w.fieldFlags]
        rfl
  exact hfold ⟨0, [], true⟩

/-! ### Orders -/

def WriteStep.Fits (s : OrderStruct) : WriteStep → Prop
  | coord _ m | int16 _ m => IsInt16 (s (m, 0))
  | byte _ m => IsUnsigned 8 (s (m, 0))
  | uint16 _ m => IsUnsigned 16 (s (m, 0))
  | color _ m => IsUnsigned 24 (s (m, 0))
  | colorByte _ _ _ => IsUnsigned 24 (s (.color, 0))
  | cacheId _ => IsUnsigned 8 (s (.cacheId, 0)) ∧ IsUnsigned 8 (s (.colorIndex, 0))
  | brush _ => IsBrush s
  | glyphs _ => IsUnsigned 8 (s (.cbData, 0)) ∧ ∀ i < (s (.cbData, 0)).toNat, IsUnsigned 8 (s (.data, i))

def WriteStep.cells (s : OrderStruct) : WriteStep → List Cell
  | coord _ m | int16 _ m | byte _ m | uint16 _ m | color _ m => [(m, 0)]
  | colorByte _ _ _ => [(.color, 0)]
  | cacheId _ => [(.cacheId, 0), (.colorIndex, 0)]
  | brush _ => brushCells s
  | glyphs _ => (.cbData, 0) :: (List.range (s (.cbData, 0)).toNat).map fun i => (.data, i)

/-- The steps of a decoder that read what a step writes. -/
def WriteStep.readSteps : WriteStep → List Step
  | coord n m => [.coord n m]
  | byte n m => [.byte n m]
  | uint16 n m => [.uint16 n m]
  | int16 n m => [.int16 n m]
  | color n m => [.color n m]
  | colorByte n mask shift => [.colorByte n (0x00FFFFFF ^^^ mask) shift]
  | cacheId n => [.uint16 n .cacheId]
  | brush first => updateReadBrush first
  | glyphs n => [.glyphs n]

/-- The members of a brush, which other steps do not transmit. -/
def Member.isBrush (m : Member) : Bool := m ∈ [Member.brushHatch, .brushBpp, .brushData, .brushP8x8]

/-- A step that is undone by reading what it has written. -/
def WriteStep.isPlain : WriteStep → Bool
  | coord _ m | byte _ m | uint16 _ m | int16 _ m | color _ m => !m.isBrush
  | brush _ | glyphs _ => true
  | colorByte _ _ _ | cacheId _ => false

theorem writtenBrush_of_not_isBrush (h : m.isBrush = false) (i : ℕ) : writtenBrush s (m, i) = s (m, i) := by
  have hmem : m ∉ [Member.brushHatch, .brushBpp, .brushData, .brushP8x8] := of_decide_eq_false h
  simp only [List.mem_cons, List.not_mem_nil, or_false, not_or] at hmem
  exact writtenBrush_of_ne (by simp [hmem]) (by simp [hmem])

theorem WriteStep.transfers {step : WriteStep} (hplain : step.isPlain = true) (h : step.Fits s)
    (hhas : ∀ n ∈ step.fields, has n = true) :
    Transfers has (SameIn known (writtenBrush s)) (step.bytes s) step.readSteps
      (SameIn (known ++ step.cells s) (writtenBrush s)) := by
  have hsame (m : Member) (hm : m.isBrush = false) : writtenBrush s (m, 0) = s (m, 0) :=
    writtenBrush_of_not_isBrush hm 0
  cases step with
  | coord n m =>
    have heq := hsame m (by simpa [isPlain] using hplain)
    have hm := @transfers_coord (writtenBrush s) has n m known (hhas n (List.mem_singleton_self n))
      (heq.symm ▸ h)
    rwa [heq] at hm
  | byte n m =>
    have heq := hsame m (by simpa [isPlain] using hplain)
    have hm := @transfers_byte (writtenBrush s) has n m known (hhas n (List.mem_singleton_self n))
      (heq.symm ▸ h)
    rwa [heq] at hm
  | uint16 n m =>
    have heq := hsame m (by simpa [isPlain] using hplain)
    have hm := @transfers_uint16 (writtenBrush s) has n m known (hhas n (List.mem_singleton_self n))
      (heq.symm ▸ h)
    rwa [heq] at hm
  | int16 n m =>
    have heq := hsame m (by simpa [isPlain] using hplain)
    have hm := @transfers_int16 (writtenBrush s) has n m known (hhas n (List.mem_singleton_self n))
      (heq.symm ▸ h)
    rwa [heq] at hm
  | color n m =>
    have heq := hsame m (by simpa [isPlain] using hplain)
    have hm := @transfers_color (writtenBrush s) has n m known (hhas n (List.mem_singleton_self n))
      (heq.symm ▸ h)
    rwa [heq] at hm
  | colorByte n mask shift => exact nomatch hplain
  | cacheId n => exact nomatch hplain
  | brush first =>
    have hbytes : (brush first).bytes s = brushBytes s :=
      congrArg Prod.fst (updateWriteBrush_accepted h.accepted)
    rw [hbytes]
    exact transfers_brush hhas h
  | glyphs n =>
    have hcb : writtenBrush s (.cbData, 0) = s (.cbData, 0) := writtenBrush_of_not_isBrush rfl 0
    have hdata (i : ℕ) : writtenBrush s (.data, i) = s (.data, i) := writtenBrush_of_not_isBrush rfl i
    have hglyphs := @transfers_glyphs (writtenBrush s) has n known (hhas n (List.mem_singleton_self n))
    simp only [hcb, hdata] at hglyphs
    exact hglyphs h.1 h.2

theorem transfers_steps {steps : List WriteStep} (hplain : ∀ step ∈ steps, step.isPlain = true)
    (h : ∀ step ∈ steps, step.Fits s) (hhas : ∀ n ∈ steps.flatMap WriteStep.fields, has n = true) :
    Transfers has (SameIn known (writtenBrush s)) (steps.flatMap (WriteStep.bytes s))
      (steps.flatMap WriteStep.readSteps)
      (SameIn (known ++ steps.flatMap (WriteStep.cells s)) (writtenBrush s)) := by
  induction steps generalizing known with
  | nil => exact Transfers.nil fun t ht => by simpa using ht
  | cons step steps ih =>
    have hhead := @WriteStep.transfers s has known step (hplain step List.mem_cons_self)
      (h step List.mem_cons_self)
      fun n hn => hhas n (List.mem_flatMap.mpr ⟨step, List.mem_cons_self, hn⟩)
    have htail := @ih (known ++ step.cells s) (fun w hw => hplain w (List.mem_cons_of_mem _ hw))
      (fun w hw => h w (List.mem_cons_of_mem _ hw)) fun n hn =>
        hhas n (by rw [List.flatMap_cons]; exact List.mem_append_right _ hn)
    have hall := hhead.append htail
    rw [List.append_assoc] at hall
    exact hall

/-- The members of an order fit their bytes. -/
def SendType.Fits (type : SendType) (s : OrderStruct) : Prop := ∀ step ∈ type.encoder, step.Fits s

def SendType.cells (type : SendType) (s : OrderStruct) : List Cell :=
  type.encoder.flatMap (WriteStep.cells s)

variable {type : SendType}

theorem transfers_plain (hplain : ∀ step ∈ type.encoder, step.isPlain = true)
    (hdecoder : type.encoder.flatMap WriteStep.readSteps = type.orderType.decoder) (h : type.Fits s)
    (hhas : ∀ n ∈ type.encoder.flatMap WriteStep.fields, has n = true) :
    Transfers has (fun _ => True) (type.encoder.flatMap (WriteStep.bytes s)) type.orderType.decoder
      (SameIn (type.cells s) (writtenBrush s)) := by
  have hsteps := @transfers_steps s has [] type.encoder hplain h hhas
  rw [hdecoder] at hsteps
  exact fun t _ => hsteps t fun k hk => absurd hk List.not_mem_nil

/-- The color of a rectangle is sent byte by byte. -/
theorem transfers_opaqueRect (h : SendType.opaqueRect.Fits s)
    (hhas : ∀ n ∈ SendType.opaqueRect.encoder.flatMap WriteStep.fields, has n = true) :
    Transfers has (fun _ => True) (SendType.opaqueRect.encoder.flatMap (WriteStep.bytes s))
      SendType.opaqueRect.orderType.decoder (SameIn (SendType.opaqueRect.cells s) (writtenBrush s)) := by
  let coords : List WriteStep :=
    [.coord 1 .nLeftRect, .coord 2 .nTopRect, .coord 3 .nWidth, .coord 4 .nHeight]
  have hcoords : ∀ step ∈ coords, step ∈ SendType.opaqueRect.encoder := by decide
  have hfields : ∀ n ∈ coords.flatMap WriteStep.fields,
      n ∈ SendType.opaqueRect.encoder.flatMap WriteStep.fields := by
    decide
  have hcolor : IsUnsigned 24 (writtenBrush s (.color, 0)) := by
    rw [writtenBrush_of_not_isBrush rfl]
    exact h (.colorByte 5 0x000000FF 0) (by decide)
  have hsteps := @transfers_steps s has [] coords (by decide)
    (fun step hstep => h step (hcoords step hstep))
    fun n hn => hhas n (hfields n hn)
  have hbytes := @transfers_colorBytes (writtenBrush s) has (coords.flatMap (WriteStep.cells s))
    (hhas 5 (by decide))
    (hhas 6 (by decide)) (hhas 7 (by decide)) hcolor
  rw [writtenBrush_of_not_isBrush rfl] at hbytes
  intro t _
  obtain ⟨t', hread, hsame⟩ := (hsteps.append hbytes) t fun k hk => absurd hk List.not_mem_nil
  refine ⟨t', hread, fun k hk => hsame k ?_⟩
  have hcells : ∀ k ∈ SendType.opaqueRect.cells s, k ∈ coords.flatMap
      (WriteStep.cells s) ++ [(.color, 0)] := by
    simp [SendType.cells, SendType.encoder, updateWriteOpaqueRectOrder, WriteStep.cells, coords]
  exact hcells k hk

/-- `colorIndex` is sent with `cacheId`. -/
theorem transfers_memblt (h : SendType.memblt.Fits s)
    (hhas : ∀ n ∈ SendType.memblt.encoder.flatMap WriteStep.fields, has n = true) :
    Transfers has (fun _ => True) (SendType.memblt.encoder.flatMap (WriteStep.bytes s))
      SendType.memblt.orderType.decoder (SameIn (SendType.memblt.cells s) (writtenBrush s)) := by
  obtain ⟨hid₀, hindex⟩ : (WriteStep.cacheId 1).Fits s := h _ (by decide)
  have hid' := hid₀.toNat_lt
  have hindex' := hindex.toNat_lt
  -- the structure with what is sent for `cacheId`
  let sent : ℕ := (s (.cacheId, 0)).toNat &&& 0xFF ||| ((s (.colorIndex, 0)).toNat &&& 0xFF) <<< 8
  let s' : OrderStruct := Function.update s (.cacheId, 0) (sent : ℤ)
  have hsent : sent = (s (.colorIndex, 0)).toNat * 2 ^ 8 + (s (.cacheId, 0)).toNat := by
    have hmod : (s (.cacheId, 0)).toNat &&& 0xFF < 2 ^ 8 := by rw [and_0xFF]; omega
    show (s (.cacheId, 0)).toNat &&& 0xFF ||| ((s (.colorIndex, 0)).toNat &&& 0xFF) <<< 8 = _
    rw [Nat.or_comm, shiftLeft_or _ hmod, and_0xFF, and_0xFF, Nat.mod_eq_of_lt hid',
      Nat.mod_eq_of_lt hindex']
  have hcacheId : writtenBrush s' (.cacheId, 0) = (sent : ℤ) := by
    rw [writtenBrush_of_not_isBrush rfl]
    exact Function.update_self ..
  have hwrite : writeUint16 (sent : ℤ) = le16 sent := by
    have hmod : ((sent : ℤ) % 2 ^ 16).toNat = sent := by omega
    rw [writeUint16, hmod]
  let rest : List WriteStep := [.coord 2 .nLeftRect, .coord 3 .nTopRect, .coord 4 .nWidth,
    .coord 5 .nHeight, .byte 6 .bRop, .coord 7 .nXSrc, .coord 8 .nYSrc, .uint16 9 .cacheIndex]
  have hencoder : SendType.memblt.encoder = .cacheId 1 :: rest := rfl
  have hfirst := @transfers_uint16 (writtenBrush s') has 1 .cacheId [] (hhas 1 (by decide)) (by
    rw [hcacheId]
    exact ⟨by omega, by omega⟩)
  rw [hcacheId, hwrite, List.nil_append] at hfirst
  have hfits : ∀ step ∈ rest, step.Fits s' := by
    have hfits : ∀ step ∈ rest, step.Fits s := fun step hstep => h step (List.mem_cons_of_mem _ hstep)
    simpa [rest, WriteStep.Fits, s'] using hfits
  have hrest := @transfers_steps s' has [(.cacheId, 0)] rest (by decide) hfits fun n hn =>
    hhas n (by rw [hencoder, List.flatMap_cons]; exact List.mem_append_right _ hn)
  have hsplit : Transfers has (SameIn ([(.cacheId, 0)] ++ rest.flatMap (WriteStep.cells s'))
    (writtenBrush s')) []
      [.splitCacheId] (SameIn (SendType.memblt.cells s) (writtenBrush s)) := by
    refine Transfers.one .splitCacheId rfl (fun t _ => Reads.pure _) fun t ht k hk => ?_
    have hid : t (.cacheId, 0) = (sent : ℤ) := (ht _ (by simp)).trans hcacheId
    have hhigh : sent >>> 8 = (s (.colorIndex, 0)).toNat := by rw [Nat.shiftRight_eq_div_pow]; omega
    have hlow : sent &&& 0xFF = (s (.cacheId, 0)).toNat := by rw [and_0xFF]; omega
    have hread : write [((.colorIndex, 0), (((t (.cacheId, 0)).toNat >>> 8 : ℕ) : ℤ)),
        ((.cacheId, 0), (((t (.cacheId, 0)).toNat &&& 0xFF : ℕ) : ℤ)), ((.bitmap, 0), 0)] t k =
          writtenBrush s k := by
      rw [hid, Int.toNat_natCast, hhigh, hlow, hid₀.cast_toNat, hindex.cast_toNat]
      obtain rfl | hk := List.mem_cons.mp hk
      · rw [writtenBrush_of_not_isBrush rfl]
        simp
      · obtain rfl | hk := List.mem_cons.mp hk
        · rw [writtenBrush_of_not_isBrush rfl]
          simp
        · have hne : ∀ k ∈ rest.flatMap (WriteStep.cells s),
              k ≠ (.cacheId, 0) ∧ k ≠ (.colorIndex, 0) ∧ k ≠ (.bitmap, 0) ∧ k.1.isBrush = false := by
            simp [rest, WriteStep.cells, Member.isBrush]
          obtain ⟨hne₁, hne₂, hne₃, hbrush⟩ := hne k hk
          have hsame : writtenBrush s' k = writtenBrush s k := by
            rw [← Prod.mk.eta (p := k), writtenBrush_of_not_isBrush hbrush,
              writtenBrush_of_not_isBrush hbrush]
            exact Function.update_of_ne hne₁ ..
          rw [write_of_ne (by simp [hne₁.symm, hne₂.symm, hne₃.symm]),
            ht k (List.mem_append_right _ hk), hsame]
    exact hread
  have hall := hfirst.append (hrest.append hsplit)
  rw [List.append_nil] at hall
  exact fun t _ => hall t fun k hk => absurd hk List.not_mem_nil

theorem SendType.transfers (type : SendType) (h : type.Fits s)
    (hhas : ∀ n ∈ type.encoder.flatMap WriteStep.fields, has n = true) :
    Transfers has (fun _ => True) (type.encoder.flatMap (WriteStep.bytes s)) type.orderType.decoder
      (SameIn (type.cells s) (writtenBrush s)) := by
  cases type with
  | opaqueRect => exact transfers_opaqueRect h hhas
  | memblt => exact transfers_memblt h hhas
  | _ => exact transfers_plain (by decide) (by decide) h hhas

end FreeRDP.Orders
