import FreeRDP.FastPath.Basic
import FreeRDP.Lib.Wire
import Mathlib.Data.Int.ModEq

/-!
# Packed encoding rules

The readers and writers of `libfreerdp/crypto/per.c`.  A writer gives the bytes that it appends to the
stream, which grows as it needs to; a reader fails where the source returns `FALSE`.  Fixed-width values
are natural numbers below their bound.
-/

namespace FreeRDP.Per

open Wire
open FastPath (perReadLength)

/-! ### Lengths and single bytes -/

def perWriteLength (length : ℕ) : List UInt8 :=
  if length > 0x7F then be16 (length ||| 0x8000) else byte length

def perReadChoice : Reader ℕ := do
  need 1
  u8

def perWriteChoice (choice : ℕ) : List UInt8 := byte choice

def perReadSelection : Reader ℕ := do
  need 1
  u8

def perWriteSelection (selection : ℕ) : List UInt8 := byte selection

def perReadNumberOfSets : Reader ℕ := do
  need 1
  u8

def perWriteNumberOfSets (number : ℕ) : List UInt8 := byte number

def perReadPadding (length : ℕ) : Reader Unit := do
  need length
  seek length

def perWritePadding (length : ℕ) : List UInt8 := List.replicate length 0

/-! ### Integers -/

def perReadInteger : Reader ℕ := do
  let length ← perReadLength
  need length
  if length = 0 then return 0
  else if length = 1 then u8
  else if length = 2 then u16be
  else failure

def perWriteInteger (integer : ℕ) : List UInt8 :=
  if integer ≤ 0xFF then perWriteLength 1 ++ byte integer
  else if integer ≤ 0xFFFF then perWriteLength 2 ++ be16 integer
  else if integer ≤ 0xFFFFFFFF then perWriteLength 4 ++ be32 integer
  else []

def perReadInteger16 (min : ℕ) : Reader ℕ := do
  need 2
  let integer ← u16be
  check (integer + min ≤ 0xFFFF)
  return integer + min

/-- `per_write_integer16`.  The difference is taken in an `int` and written as a `UINT16`. -/
def perWriteInteger16 (integer min : ℕ) : List UInt8 :=
  be16 (((integer : ℤ) - min) % 2 ^ 16).toNat

def perReadEnumerated (count : ℕ) : Reader ℕ := do
  need 1
  let enumerated ← u8
  check (enumerated + 1 ≤ count)
  return enumerated

def perWriteEnumerated (enumerated : ℕ) : List UInt8 := byte enumerated

/-! ### Object identifiers -/

/-- Six tuples of an object identifier. -/
structure Oid where
  tuple1 : ℕ
  tuple2 : ℕ
  tuple3 : ℕ
  tuple4 : ℕ
  tuple5 : ℕ
  tuple6 : ℕ
deriving DecidableEq, Repr

/-- `per_read_object_identifier`, which compares what it reads with `oid`. -/
def perReadObjectIdentifier (oid : Oid) : Reader Unit := do
  let length ← perReadLength
  check (length = 5)
  need length
  let t12 ← u8
  let t3 ← u8
  let t4 ← u8
  let t5 ← u8
  let t6 ← u8
  check ((⟨t12 / 40, t12 % 40, t3, t4, t5, t6⟩ : Oid) = oid)

def perWriteObjectIdentifier (oid : Oid) : List UInt8 :=
  byte 5 ++ (byte (oid.tuple1 * 40 + oid.tuple2) ++ (byte oid.tuple3 ++ (byte oid.tuple4 ++
    (byte oid.tuple5 ++ byte oid.tuple6))))

/-! ### Strings -/

/-- The length of a string as it is written. -/
def biasedLength (length min : ℕ) : ℕ := if length ≥ min then length - min else min

/-- `per_read_octet_string`, which compares what it reads with `octStr`. -/
def perReadOctetString (octStr : List UInt8) (min : ℕ) : Reader Unit := do
  let mlength ← perReadLength
  check (mlength + min = octStr.length)
  need octStr.length
  let aOctStr ← bytes octStr.length
  check (aOctStr = octStr)

def perWriteOctetString (octStr : List UInt8) (min : ℕ) : List UInt8 :=
  perWriteLength (biasedLength octStr.length min) ++ octStr

/-- `per_read_numeric_string`, which looks at the length alone. -/
def perReadNumericString (min : ℕ) : Reader Unit := do
  let mlength ← perReadLength
  let length := (mlength + min + 1) / 2
  need length
  seek length

/-- A digit of a numeric string.  The remainder is that of an `int`, stored in a `BYTE`. -/
def digit (c : UInt8) : ℕ := (((c.toNat : ℤ) - 0x30).tmod 10 % 2 ^ 8).toNat

/-- At most `fuel` turns of the loop of `per_write_numeric_string`, whose index is a `UINT16`. -/
def packDigits (numStr : List UInt8) : (fuel : ℕ) → (i : ℕ) → Option (List UInt8)
  | 0, _ => none
  | fuel + 1, i =>
    if i < numStr.length then do
      let c1 := digit (numStr.getD i 0)
      let c2 := digit (if i + 1 < numStr.length then numStr.getD (i + 1) 0 else 0x30)
      let rest ← packDigits numStr fuel ((i + 2) % 2 ^ 16)
      return byte (c1 <<< 4 ||| c2) ++ rest
    else some []

/-- `per_write_numeric_string`, if its loop ends within `fuel` turns. -/
def perWriteNumericString (fuel : ℕ) (numStr : List UInt8) (min : ℕ) : Option (List UInt8) := do
  let digits ← packDigits numStr fuel 0
  return perWriteLength (biasedLength numStr.length min) ++ digits

end FreeRDP.Per

/-!
## Reading back what the writers write

`PerItem.Inverted item`: the reader that belongs to the item reads back what the writer has written, and
no more.  This holds of the integers below `2 ^ 16` and of the strings whose length can be written, and
of everything else that may be written at all.
-/

namespace FreeRDP.Per

open Wire
open FastPath (perReadLength)

variable {n min : ℕ} {str : List UInt8}

/-! ### Lengths -/

/-- A length with its highest bit set is read without it. -/
theorem perReadLength_or (hn : n < 2 ^ 16) :
    Reads perReadLength (be16 (n ||| 0x8000)) (n % 0x8000) := by
  have hbits : ∀ a < 256, (UInt8.ofNat (a ||| 0x80)).toNat &&& 0x80 ≠ 0 ∧
      (UInt8.ofNat (a ||| 0x80)).toNat &&& 0x7F = a % 0x80 := by decide +kernel
  have hhigh : (n ||| 0x8000) / 2 ^ 8 = n / 2 ^ 8 ||| 0x80 := by
    rw [← Nat.shiftRight_eq_div_pow, Nat.shiftRight_or_distrib, Nat.shiftRight_eq_div_pow]
    rfl
  have hlow : (UInt8.ofNat (n ||| 0x8000)).toNat = n % 2 ^ 8 := by
    rw [UInt8.toNat_ofNat', Nat.or_mod_two_pow]
    exact Nat.or_zero _
  obtain ⟨hbit, hfield⟩ := hbits (n / 2 ^ 8) (by omega)
  intro rest
  rw [be16, hhigh, List.cons_append, List.cons_append, List.nil_append]
  simp only [perReadLength]
  rw [if_pos hbit, hfield, hlow, Nat.shiftLeft_eq]
  congr 2
  omega

theorem perReadLength_perWriteLength (hn : n < 2 ^ 16) :
    Reads perReadLength (perWriteLength n) (n % 0x8000) := by
  unfold perWriteLength
  by_cases hlong : n > 0x7F
  · rw [if_pos hlong]
    exact perReadLength_or hn
  · have hbit : ∀ a < 128, ¬ a &&& 0x80 ≠ 0 := by decide
    have hbyte : (UInt8.ofNat n).toNat = n := by
      rw [UInt8.toNat_ofNat']
      omega
    intro rest
    rw [if_neg hlong, byte, List.cons_append, List.nil_append]
    simp only [perReadLength]
    rw [hbyte, if_neg (hbit n (by omega)), Nat.mod_eq_of_lt (by omega)]

theorem reads_perReadLength (hn : n < 0x8000) : Reads perReadLength (perWriteLength n) n := by
  have hread := perReadLength_perWriteLength (n := n) (by omega)
  rwa [Nat.mod_eq_of_lt hn] at hread

theorem perReadLength_bind {α : Type} {f : ℕ → Reader α} (hn : n < 2 ^ 16) (rest : List UInt8) :
    ((perReadLength : Reader ℕ) >>= f) (perWriteLength n ++ rest) = f (n % 0x8000) rest := by
  have hstep : ((perReadLength : Reader ℕ) >>= f) (perWriteLength n ++ rest) =
      (perReadLength (perWriteLength n ++ rest)).bind fun p => f p.1 p.2 := rfl
  rw [hstep, perReadLength_perWriteLength hn rest, Option.bind_some]

/-! ### Integers -/

theorem reads_perReadInteger (hn : n ≤ 0xFFFF) : Reads perReadInteger (perWriteInteger n) n := by
  unfold perReadInteger perWriteInteger
  by_cases hone : n ≤ 0xFF
  · rw [if_pos hone]
    exact (reads_perReadLength (by decide)).bind (Reads.need le_rfl (Reads.u8 (by omega)))
  · rw [if_neg hone, if_pos hn]
    exact (reads_perReadLength (by decide)).bind (Reads.need le_rfl (Reads.u16be (by omega)))

/-- An integer of four bytes is written, but refused by the reader. -/
theorem perReadInteger_of_gt (hgt : 0xFFFF < n) (hn : n < 2 ^ 32) (rest : List UInt8) :
    perReadInteger (perWriteInteger n ++ rest) = none := by
  unfold perReadInteger perWriteInteger
  rw [if_neg (by omega), if_neg (by omega), if_pos (by omega), List.append_assoc,
    perReadLength_bind (by decide)]
  show ((need 4 : Reader Unit) (be32 n ++ rest)).bind (fun _ => none) = none
  exact Option.bind_fun_none _

theorem reads_perReadInteger16 {integer : ℕ} (hn : integer < 2 ^ 16) (hmin : min ≤ integer) :
    Reads (perReadInteger16 min) (perWriteInteger16 integer min) integer := by
  have hdiff : (((integer : ℤ) - min) % 2 ^ 16).toNat = integer - min := by omega
  unfold perReadInteger16 perWriteInteger16
  rw [hdiff]
  refine Reads.need (by simp [be16]) ?_
  refine (Reads.u16be (by omega)).last (Reads.skip (Reads.check (by omega)) ?_)
  rw [Nat.sub_add_cancel hmin]
  exact Reads.pure integer

/-! ### Single bytes -/

theorem reads_need_u8 (hn : n < 2 ^ 8) :
    Reads (do need 1; u8) (byte n) n := Reads.need le_rfl (Reads.u8 hn)

theorem reads_perReadPadding (n : ℕ) : Reads (perReadPadding n) (perWritePadding n) () :=
  Reads.need (List.length_replicate ..).ge (Reads.seek (List.length_replicate ..))

theorem reads_perReadEnumerated {count : ℕ} (hn : n < count) (hcount : count < 2 ^ 8) :
    Reads (perReadEnumerated count) (perWriteEnumerated n) n :=
      Reads.need (show 1 ≤ (byte n).length from le_rfl)
    ((Reads.u8 (by omega)).last (Reads.skip (Reads.check (by omega)) (Reads.pure n)))

/-! ### Object identifiers -/

theorem reads_perReadObjectIdentifier {oid : Oid} (h1 : oid.tuple1 ≤ 2) (h2 : oid.tuple2 < 40)
    (h3 : oid.tuple3 < 2 ^ 8) (h4 : oid.tuple4 < 2 ^ 8) (h5 : oid.tuple5 < 2 ^ 8)
    (h6 : oid.tuple6 < 2 ^ 8) :
    Reads (perReadObjectIdentifier oid) (perWriteObjectIdentifier oid) () := by
  have hdiv : (oid.tuple1 * 40 + oid.tuple2) / 40 = oid.tuple1 := by omega
  have hmod : (oid.tuple1 * 40 + oid.tuple2) % 40 = oid.tuple2 := by omega
  refine (reads_perReadLength (n := 5) (by decide)).bind (Reads.skip (Reads.check rfl) ?_)
  refine Reads.need le_rfl ((Reads.u8 (by omega)).bind ((Reads.u8 h3).bind ((Reads.u8 h4).bind
    ((Reads.u8 h5).bind ((Reads.u8 h6).last (Reads.check ?_))))))
  rw [hdiv, hmod]

/-! ### Octet strings -/

theorem reads_perReadOctetString (hmin : min ≤ str.length) (hshort : str.length - min < 0x8000) :
    Reads (perReadOctetString str min) (perWriteOctetString str min) () := by
  unfold perReadOctetString perWriteOctetString biasedLength
  rw [if_pos hmin]
  refine (reads_perReadLength hshort).bind (Reads.skip (Reads.check (by omega)) ?_)
  exact Reads.need le_rfl ((Reads.bytes rfl).last (Reads.check rfl))

/-- The length of a longer string is read wrongly, and the string refused. -/
theorem perReadOctetString_of_ge (hstr : str.length < 2 ^ 16) (hmin : min ≤ str.length)
    (hlong : 0x8000 ≤ str.length - min) (rest : List UInt8) :
    perReadOctetString str min (perWriteOctetString str min ++ rest) = none := by
  have hlength : ¬ (str.length - min) % 0x8000 + min = str.length := by omega
  unfold perReadOctetString perWriteOctetString biasedLength
  rw [if_pos hmin, List.append_assoc, perReadLength_bind (by omega)]
  show (check ((str.length - min) % 0x8000 + min = str.length) (str ++ rest)).bind _ = none
  rw [check, if_neg hlength]
  rfl

/-! ### Numeric strings -/

/-- The loop ends, unless its index wraps. -/
theorem packDigits_isSome (hstr : str.length < 2 ^ 16 - 1) {fuel i : ℕ}
    (hfuel : str.length + 1 < 2 * fuel + i) (hi : i ≤ str.length + 1) :
    ∃ digits, packDigits str fuel i = some digits := by
  induction fuel generalizing i with
  | zero => exact absurd hfuel (by omega)
  | succ fuel ih =>
    by_cases hend : i < str.length
    · have hwrap : (i + 2) % 2 ^ 16 = i + 2 := Nat.mod_eq_of_lt (by omega)
      obtain ⟨digits, hdigits⟩ := ih (i := i + 2) (by omega) (by omega)
      exact ⟨_, by simp only [packDigits, if_pos hend, hwrap, hdigits]; rfl⟩
    · exact ⟨[], by simp only [packDigits, if_neg hend]⟩

theorem length_packDigits (hstr : str.length < 2 ^ 16 - 1) {fuel i : ℕ} {digits : List UInt8}
    (h : packDigits str fuel i = some digits) (hi : i ≤ str.length + 1) :
    digits.length = (str.length + 1 - i) / 2 := by
  induction fuel generalizing i digits with
  | zero => exact nomatch h
  | succ fuel ih =>
    unfold packDigits at h
    by_cases hend : i < str.length
    · have hwrap : (i + 2) % 2 ^ 16 = i + 2 := Nat.mod_eq_of_lt (by omega)
      rw [if_pos hend, hwrap] at h
      obtain ⟨rest, hrest, h⟩ := Option.bind_eq_some_iff.mp h
      obtain rfl := Option.some.inj h
      rw [List.length_append, ih hrest (by omega)]
      show 1 + _ = _
      omega
    · rw [if_neg hend] at h
      obtain rfl := Option.some.inj h
      show 0 = _
      omega

/-- With `2 ^ 16 - 1` digits the index wraps before it gets to the end, and the loop does not end. -/
theorem packDigits_of_eq (hstr : str.length = 2 ^ 16 - 1) (fuel : ℕ) {i : ℕ} (hi : i < 2 ^ 16)
    (heven : i % 2 = 0) : packDigits str fuel i = none := by
  induction fuel generalizing i with
  | zero => rfl
  | succ fuel ih =>
    have hnext := ih (i := (i + 2) % 2 ^ 16) (Nat.mod_lt _ (by decide)) (by omega)
    simp only [packDigits, if_pos (show i < str.length by omega), hnext]
    rfl

/-- The reader goes over the bytes that the length stands for. -/
theorem perReadNumericString_eq (hstr : str.length < 2 ^ 16) (hmin : min ≤ str.length)
    (digits rest : List UInt8) :
    perReadNumericString min (perWriteLength (biasedLength str.length min) ++ digits ++ rest) =
      (do need (((str.length - min) % 0x8000 + min + 1) / 2)
          seek (((str.length - min) % 0x8000 + min + 1) / 2) : Reader Unit) (digits ++ rest) := by
  unfold perReadNumericString biasedLength
  rw [if_pos hmin, List.append_assoc, perReadLength_bind (by omega)]

/-! ### All items -/

/-- A value that one of the writers writes, with what its reader is given. -/
inductive PerItem where
  | length (length : ℕ)
  | choice (choice : ℕ)
  | selection (selection : ℕ)
  | numberOfSets (number : ℕ)
  | padding (length : ℕ)
  | integer (integer : ℕ)
  | integer16 (integer min : ℕ)
  | enumerated (enumerated count : ℕ)
  | objectIdentifier (oid : Oid)
  | octetString (octStr : List UInt8) (min : ℕ)
  | numericString (numStr : List UInt8) (min : ℕ)

/-- The values that may be written. -/
def PerItem.Admissible : PerItem → Prop
  | length n => n < 0x8000
  | choice n => n < 2 ^ 8
  | selection n => n < 2 ^ 8
  | numberOfSets n => n < 2 ^ 8
  | padding n => n < 2 ^ 16
  | integer n => n < 2 ^ 32
  | integer16 n min => n < 2 ^ 16 ∧ min ≤ n
  | enumerated n count => n < count ∧ count < 2 ^ 8
  | objectIdentifier oid => oid.tuple1 ≤ 2 ∧ oid.tuple2 < 40 ∧ oid.tuple3 < 2 ^ 8 ∧
      oid.tuple4 < 2 ^ 8 ∧ oid.tuple5 < 2 ^ 8 ∧ oid.tuple6 < 2 ^ 8
  | octetString octStr min => octStr.length < 2 ^ 16 ∧ min ≤ octStr.length
  | numericString numStr min => numStr.length < 2 ^ 16 ∧ min ≤ numStr.length

/-- The reader of an item reads back what the writer writes, and no more: it gives the value or, where
it is given the value, succeeds. -/
def PerItem.Inverted : PerItem → Prop
  | length n => Reads perReadLength (perWriteLength n) n
  | choice n => Reads perReadChoice (perWriteChoice n) n
  | selection n => Reads perReadSelection (perWriteSelection n) n
  | numberOfSets n => Reads perReadNumberOfSets (perWriteNumberOfSets n) n
  | padding n => Reads (perReadPadding n) (perWritePadding n) ()
  | integer n => Reads perReadInteger (perWriteInteger n) n
  | integer16 n min => Reads (perReadInteger16 min) (perWriteInteger16 n min) n
  | enumerated n count => Reads (perReadEnumerated count) (perWriteEnumerated n) n
  | objectIdentifier oid => Reads (perReadObjectIdentifier oid) (perWriteObjectIdentifier oid) ()
  | octetString octStr min =>
    Reads (perReadOctetString octStr min) (perWriteOctetString octStr min) ()
  | numericString numStr min => ∃ fuel bs, perWriteNumericString fuel numStr min = some bs ∧
      Reads (perReadNumericString min) bs ()

/-- Integers that fit in two bytes, and strings whose length fits in 15 bits above `min`; the loop over
a numeric string ends. -/
def PerItem.Short : PerItem → Prop
  | integer n => n ≤ 0xFFFF
  | octetString octStr min => octStr.length - min < 0x8000
  | numericString numStr min => numStr.length - min < 0x8000 ∧ numStr.length < 2 ^ 16 - 1
  | _ => True

theorem inverted_numericString_iff (hstr : str.length < 2 ^ 16) (hmin : min ≤ str.length) :
    (PerItem.numericString str min).Inverted ↔
      str.length - min < 0x8000 ∧ str.length < 2 ^ 16 - 1 := by
  constructor
  · rintro ⟨fuel, bs, hwrite, hreads⟩
    obtain ⟨digits, hdigits, hbs⟩ := Option.bind_eq_some_iff.mp hwrite
    obtain rfl := Option.some.inj hbs
    have hends : str.length < 2 ^ 16 - 1 := by
      by_contra hlong
      rw [packDigits_of_eq (by omega) fuel (by decide) rfl] at hdigits
      exact nomatch hdigits
    refine ⟨?_, hends⟩
    by_contra hlong
    -- the reader stops before the end
    have hlength := length_packDigits hends hdigits (by omega)
    have hread := hreads []
    rw [perReadNumericString_eq hstr hmin, List.append_nil] at hread
    generalize hk : ((str.length - min) % 0x8000 + min + 1) / 2 = k at hread
    have hle : k < digits.length := by omega
    have hstep : (do need k; seek k : Reader Unit) digits =
        ((need k : Reader Unit) digits).bind fun p => seek k p.2 := rfl
    rw [hstep, need, if_pos hle.le, Option.bind_some, seek, if_pos hle.le] at hread
    have hrest : digits.drop k = [] := congrArg Prod.snd (Option.some.inj hread)
    have := List.drop_eq_nil_iff.mp hrest
    omega
  · rintro ⟨hshort, hends⟩
    obtain ⟨digits, hdigits⟩ :=
      packDigits_isSome hends
        (show str.length + 1 < 2 * (str.length + 1) + 0 by omega) (by omega)
    have hlength := length_packDigits hends hdigits (by omega)
    refine ⟨str.length + 1, perWriteLength (biasedLength str.length min) ++ digits, ?_, ?_⟩
    · simp only [perWriteNumericString, hdigits]
      rfl
    · intro rest
      have hcount : ((str.length - min) % 0x8000 + min + 1) / 2 = digits.length := by omega
      rw [perReadNumericString_eq hstr hmin, hcount]
      exact Reads.need le_rfl (Reads.seek rfl) rest

/-- Everything that may be written is read back, but for integers of four bytes and for strings whose
length takes more than 15 bits. -/
theorem inverted_iff_short (item : PerItem) (h : item.Admissible) : item.Inverted ↔ item.Short := by
  cases item with
  | length n => exact iff_of_true (reads_perReadLength h) trivial
  | choice n => exact iff_of_true (reads_need_u8 h) trivial
  | selection n => exact iff_of_true (reads_need_u8 h) trivial
  | numberOfSets n => exact iff_of_true (reads_need_u8 h) trivial
  | padding n => exact iff_of_true (reads_perReadPadding n) trivial
  | integer n =>
    refine ⟨fun hread => ?_, reads_perReadInteger⟩
    by_contra hgt
    have hnone := perReadInteger_of_gt (Nat.lt_of_not_ge hgt) h []
    rw [hread []] at hnone
    exact nomatch hnone
  | integer16 n min => exact iff_of_true (reads_perReadInteger16 h.1 h.2) trivial
  | enumerated n count => exact iff_of_true (reads_perReadEnumerated h.1 h.2) trivial
  | objectIdentifier oid =>
    obtain ⟨h1, h2, h3, h4, h5, h6⟩ := h
    exact iff_of_true (reads_perReadObjectIdentifier h1 h2 h3 h4 h5 h6) trivial
  | octetString str min =>
    refine ⟨fun hread => ?_, reads_perReadOctetString h.2⟩
    by_contra hlong
    have hnone := perReadOctetString_of_ge h.1 h.2 (Nat.le_of_not_lt hlong) []
    rw [hread []] at hnone
    exact nomatch hnone
  | numericString str min => exact inverted_numericString_iff h.1 h.2

/-- An integer of two bytes. -/
theorem inverted_iff_short_integer : (PerItem.integer 300).Inverted ↔ (PerItem.integer 300).Short :=
  inverted_iff_short (.integer 300) (by decide : 300 < 2 ^ 32)

/-- An integer of four bytes is refused. -/
theorem inverted_integer_large :
    ¬ ∀ item : PerItem, item.Admissible → item.Inverted := by
  intro h
  have hread := h (.integer 0x10000) (by decide : 0x10000 < 2 ^ 32) []
  have hnone := perReadInteger_of_gt (n := 0x10000) (by decide) (by decide) []
  rw [hread] at hnone
  exact nomatch hnone

end FreeRDP.Per
