import FreeRDP.Lib.Wire

/-!
# Basic encoding rules

The tags, lengths and integers of `libfreerdp/crypto/ber.c`.  A writer gives the bytes that it appends to
the stream, and the size that it returns; a reader fails where the source returns `FALSE`.
-/

namespace FreeRDP.Crypto

open Wire

def BER_CLASS_UNIV : ℕ := 0x00

def BER_PRIMITIVE : ℕ := 0x00

def BER_CONSTRUCT : ℕ := 0x20

def BER_TAG_MASK : ℕ := 0x1F

def BER_TAG_INTEGER : ℕ := 0x02

def BER_TAG_SEQUENCE : ℕ := 0x10

def BER_TAG_SEQUENCE_OF : ℕ := 0x10

def berPc (pc : Bool) : ℕ := if pc then BER_CONSTRUCT else BER_PRIMITIVE

/-- What a writer has written, and what it returns. -/
structure Written where
  bytes : List UInt8
  size : ℕ
  deriving DecidableEq, Repr

/-! ### Lengths -/

def berReadLength : Reader ℕ := do
  need 1
  let byte ← u8
  if byte &&& 0x80 ≠ 0 then do
    let byte := byte &&& 0x7F
    need byte
    if byte = 1 then u8
    else if byte = 2 then u16be
    else failure
  else return byte

def berWriteLength (length : ℕ) : Written :=
  if length > 0xFF then ⟨byte (0x80 ^^^ 2) ++ be16 length, 3⟩
  else if length > 0x7F then ⟨byte (0x80 ^^^ 1) ++ byte length, 2⟩
  else ⟨byte length, 1⟩

def berSizeofLength (length : ℕ) : ℕ :=
  if length > 0xFF then 3
  else if length > 0x7F then 2
  else 1

/-! ### Tags -/

def universalTag (tag : ℕ) (pc : Bool) : ℕ := BER_CLASS_UNIV ||| berPc pc ||| BER_TAG_MASK &&& tag

def berReadUniversalTag (tag : ℕ) (pc : Bool) : Reader Unit := do
  need 1
  let byte ← u8
  check (byte = universalTag tag pc)

def berWriteUniversalTag (tag : ℕ) (pc : Bool) : Written := ⟨byte (universalTag tag pc), 1⟩

def berReadSequenceTag : Reader ℕ := do
  need 1
  let byte ← u8
  check (byte = BER_CLASS_UNIV ||| BER_CONSTRUCT ||| BER_TAG_SEQUENCE_OF)
  berReadLength

def berWriteSequenceTag (length : ℕ) : Written :=
  ⟨byte (BER_CLASS_UNIV ||| BER_CONSTRUCT ||| BER_TAG_MASK &&& BER_TAG_SEQUENCE) ++
    (berWriteLength length).bytes, 1 + (berWriteLength length).size⟩

/-! ### Integers -/

def berReadInteger : Reader ℕ := do
  berReadUniversalTag BER_TAG_INTEGER false
  let length ← berReadLength
  need length
  if length = 1 then u8
  else if length = 2 then u16be
  else if length = 3 then do
    let byte ← u8
    let value ← u16be
    return value + byte <<< 16
  else if length = 4 then u32be
  else failure

def integerOf (length : ℕ) (content : List UInt8) : List UInt8 :=
  (berWriteUniversalTag BER_TAG_INTEGER false).bytes ++ ((berWriteLength length).bytes ++ content)

def berWriteInteger (value : ℕ) : Written :=
  if value < 0x80 then ⟨integerOf 1 (byte value), 3⟩
  else if value < 0x8000 then ⟨integerOf 2 (be16 value), 4⟩
  else if value < 0x800000 then
    ⟨integerOf 3 (byte (value >>> 16) ++ be16 (value &&& 0xFFFF)), 5⟩
  else if value < 0x80000000 then ⟨integerOf 4 (be32 value), 6⟩
  else ⟨integerOf 4 (be32 value), 6⟩

def berSizeofInteger (value : ℕ) : ℕ :=
  if value < 0x80 then 3
  else if value < 0x8000 then 4
  else if value < 0x800000 then 5
  else if value < 0x80000000 then 6
  else 6

end FreeRDP.Crypto

/-!
## Reading back lengths and integers

The size that is predicted for a length or an integer is the size that is written and returned, and the
reader takes all of it: `ber_roundTrip`.
-/

namespace FreeRDP.Crypto

open Wire

variable {length value : ℕ} {content : List UInt8}

/-! ### Lengths -/

theorem length_berWriteLength (length : ℕ) :
    (berWriteLength length).bytes.length = berSizeofLength length ∧
      (berWriteLength length).size = berSizeofLength length := by
  unfold berWriteLength berSizeofLength
  split_ifs <;> exact ⟨rfl, rfl⟩

theorem reads_berReadLength (hlength : length ≤ 0xFFFF) :
    Reads berReadLength (berWriteLength length).bytes length := by
  unfold berWriteLength
  by_cases hlong : length > 0xFF
  · rw [if_pos hlong]
    refine Reads.need (by simp) ((Reads.u8 (n := 0x80 ^^^ 2) (by decide)).bind ?_)
    exact Reads.need (Nat.le_refl 2) (Reads.u16be (by omega))
  rw [if_neg hlong]
  by_cases hmiddle : length > 0x7F
  · rw [if_pos hmiddle]
    refine Reads.need (by simp) ((Reads.u8 (n := 0x80 ^^^ 1) (by decide)).bind ?_)
    exact Reads.need (Nat.le_refl 1) (Reads.u8 (by omega))
  · rw [if_neg hmiddle]
    refine Reads.need le_rfl ((Reads.u8 (by omega)).last ?_)
    have hbit : ∀ a < 128, ¬ a &&& 0x80 ≠ 0 := by decide
    rw [if_neg (hbit length (by omega))]
    exact Reads.pure length

/-! ### Integers -/

theorem reads_berReadUniversalTag (tag : ℕ) (pc : Bool) (htag : universalTag tag pc < 2 ^ 8) :
    Reads (berReadUniversalTag tag pc) (berWriteUniversalTag tag pc).bytes () :=
  Reads.need le_rfl ((Reads.u8 htag).last (Reads.check rfl))

theorem reads_berReadSequenceTag (hlength : length ≤ 0xFFFF) :
    Reads berReadSequenceTag (berWriteSequenceTag length).bytes length := by
  unfold berReadSequenceTag berWriteSequenceTag
  apply Reads.need (by simp)
  apply (Reads.u8 (by decide)).bind
  exact Reads.skip (Reads.check rfl) (reads_berReadLength hlength)

theorem length_integerOf (hlength : length < 0x80) :
    (integerOf length content).length = 2 + content.length := by
  unfold integerOf berWriteLength
  rw [if_neg (by omega), if_neg (by omega), List.length_append, List.length_append]
  show 1 + (1 + content.length) = _
  omega

theorem length_berWriteInteger (value : ℕ) :
    (berWriteInteger value).bytes.length = berSizeofInteger value ∧
      (berWriteInteger value).size = berSizeofInteger value := by
  unfold berWriteInteger berSizeofInteger
  split_ifs
  all_goals exact ⟨length_integerOf (by decide), rfl⟩

/-- The tag and the length of an integer are read before its content. -/
theorem reads_integerOf {f : ℕ → Reader ℕ} (hlength : length < 0x80)
    (h : Reads (f length) content value) :
    Reads (do berReadUniversalTag BER_TAG_INTEGER false; let length ← berReadLength; f length)
      (integerOf length content) value :=
  (reads_berReadUniversalTag _ _ (by decide)).bind ((reads_berReadLength (by omega)).bind h)

theorem reads_berReadInteger (hvalue : value < 2 ^ 32) :
    Reads berReadInteger (berWriteInteger value).bytes value := by
  unfold berWriteInteger berReadInteger
  by_cases h1 : value < 0x80
  · rw [if_pos h1]
    exact reads_integerOf (by decide) (Reads.need (Nat.le_refl 1) (Reads.u8 (by omega)))
  rw [if_neg h1]
  by_cases h2 : value < 0x8000
  · rw [if_pos h2]
    exact reads_integerOf (by decide) (Reads.need (Nat.le_refl 2) (Reads.u16be (by omega)))
  rw [if_neg h2]
  by_cases h3 : value < 0x800000
  · have hhigh : value >>> 16 = value / 2 ^ 16 := Nat.shiftRight_eq_div_pow value 16
    have hlow : value &&& 0xFFFF = value % 2 ^ 16 := Nat.and_two_pow_sub_one_eq_mod value 16
    rw [if_pos h3, hhigh, hlow]
    refine reads_integerOf (by decide) (Reads.need (Nat.le_refl 3) ?_)
    refine (Reads.u8 (by omega)).bind ((Reads.u16be (by omega)).map ?_)
    rw [Nat.shiftLeft_eq, Nat.mul_comm]
    exact Nat.mod_add_div value (2 ^ 16)
  rw [if_neg h3, ite_self]
  exact reads_integerOf (by decide) (Reads.need (Nat.le_refl 4) (Reads.u32be hvalue))

/-- The sizes of lengths and integers are predicted, and both are read back. -/
theorem ber_roundTrip :
    (∀ value < 2 ^ 32,
      (berWriteInteger value).bytes.length = berSizeofInteger value ∧
        (berWriteInteger value).size = berSizeofInteger value ∧
        Reads berReadInteger (berWriteInteger value).bytes value) ∧
    ∀ length ≤ 0xFFFF,
      (berWriteLength length).bytes.length = berSizeofLength length ∧
        (berWriteLength length).size = berSizeofLength length ∧
        Reads berReadLength (berWriteLength length).bytes length := by
  constructor
  · intro value hvalue
    obtain ⟨hbytes, hsize⟩ := length_berWriteInteger value
    exact ⟨hbytes, hsize, reads_berReadInteger hvalue⟩
  · intro length hlength
    obtain ⟨hbytes, hsize⟩ := length_berWriteLength length
    exact ⟨hbytes, hsize, reads_berReadLength hlength⟩

/-- An error code and a length of two bytes. -/
theorem ber_roundTrip_error :
    (berWriteInteger 0x80090308).bytes.length = 6 ∧
      Reads berReadInteger (berWriteInteger 0x80090308).bytes 0x80090308 ∧
      Reads berReadLength (berWriteLength 0x1234).bytes 0x1234 :=
  ⟨(ber_roundTrip.1 0x80090308 (by decide)).1, (ber_roundTrip.1 0x80090308 (by decide)).2.2,
    (ber_roundTrip.2 0x1234 (by decide)).2.2⟩

end FreeRDP.Crypto
