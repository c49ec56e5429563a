import FreeRDP.Lib.Wire
import Mathlib.Algebra.Order.Ring.Int
import Mathlib.Data.List.Basic

/-!
# Base64

`libfreerdp/crypto/base64.c`.  A character is its code.  A result `none` of the encoder is what C leaves
undefined: the counter of the blocks, an `int`, overflows, or the data is read past its end.
-/

namespace FreeRDP.Crypto

def base64 : List UInt8 :=
  ['A', 'B', 'C', 'D', 'E', 'F', 'G', 'H', 'I', 'J', 'K', 'L', 'M', 'N', 'O', 'P', 'Q', 'R', 'S', 'T',
    'U', 'V', 'W', 'X', 'Y', 'Z', 'a', 'b', 'c', 'd', 'e', 'f', 'g', 'h', 'i', 'j', 'k', 'l', 'm', 'n',
    'o', 'p', 'q', 'r', 's', 't', 'u', 'v', 'w', 'x', 'y', 'z', '0', '1', '2', '3', '4', '5', '6', '7',
    '8', '9', '+', '/'].map fun c => UInt8.ofNat c.toNat

def pad : UInt8 := 61

/-- An `int` of the value of a `size_t`. -/
def toInt (n : ℕ) : ℤ := Int.bmod n (2 ^ 32)

/-! ### Encoding -/

def base64At (i : ℕ) : UInt8 := base64.getD i 0

/-- `c`, of three bytes. -/
def blockOf (q0 q1 q2 : UInt8) : ℕ := q0.toNat <<< 16 + q1.toNat <<< 8 + q2.toNat

def char1 (c : ℕ) : UInt8 := base64At ((c &&& 0x00FC0000) >>> 18)

def char2 (c : ℕ) : UInt8 := base64At ((c &&& 0x0003F000) >>> 12)

def char3 (c : ℕ) : UInt8 := base64At ((c &&& 0x00000FC0) >>> 6)

def char4 (c : ℕ) : UInt8 := base64At (c &&& 0x0000003F)

/-- The loop over the complete blocks, from `i` up to `blocks` in steps of three: the characters, and what
is left of the data. -/
def encodeBlocks (blocks : ℤ) : ℤ → List UInt8 → Option (List UInt8 × List UInt8)
  | i, q0 :: q1 :: q2 :: q =>
    if i < blocks then
      if i + 3 < 2 ^ 31 then
        (encodeBlocks blocks (i + 3) q).map fun r =>
          let c := blockOf q0 q1 q2
          ([char1 c, char2 c, char3 c, char4 c] ++ r.1, r.2)
      else none
    else some ([], q0 :: q1 :: q2 :: q)
  | i, q => if i < blocks then none else some ([], q)

def encodeRemainder (length : ℕ) (q : List UInt8) : Option (List UInt8) :=
  match length % 3, q with
  | 0, _ => some []
  | 1, q0 :: _ =>
    let c := blockOf q0 0 0
    some [char1 c, char2 c, pad, pad]
  | 2, q0 :: q1 :: _ =>
    let c := blockOf q0 q1 0
    some [char1 c, char2 c, char3 c, pad]
  | _, _ => none

def cryptoBase64Encode (data : List UInt8) : Option (List UInt8) :=
  let blocks := toInt (data.length - data.length % 3)
  (encodeBlocks blocks 0 data).bind fun r =>
  (encodeRemainder data.length r.2).map fun remainder => r.1 ++ remainder

/-! ### Decoding -/

/-- `base64_decode_char`, with `none` for -1. -/
def base64DecodeChar (c : UInt8) : Option ℕ :=
  let n := c.toNat
  if 'A'.toNat ≤ n ∧ n ≤ 'Z'.toNat then some (n - 'A'.toNat)
  else if 'a'.toNat ≤ n ∧ n ≤ 'z'.toNat then some (n - 'a'.toNat + 26)
  else if '0'.toNat ≤ n ∧ n ≤ '9'.toNat then some (n - '0'.toNat + 52)
  else if n = '+'.toNat then some 62
  else if n = '/'.toNat then some 63
  else none

def byte1 (n0 n1 : ℕ) : UInt8 := UInt8.ofNat (n0 <<< 2 + n1 >>> 4)

def byte2 (n1 n2 : ℕ) : UInt8 := UInt8.ofNat ((n1 &&& 15) <<< 4 + n2 >>> 2)

def byte3 (n2 n3 : ℕ) : UInt8 := UInt8.ofNat ((n2 &&& 3) <<< 6 + n3)

def decodeBlock (c0 c1 c2 c3 : UInt8) : Option (List UInt8) :=
  match base64DecodeChar c0, base64DecodeChar c1, base64DecodeChar c2, base64DecodeChar c3 with
  | some n0, some n1, some n2, some n3 => some [byte1 n0 n1, byte2 n1 n2, byte3 n2 n3]
  | _, _, _, _ => none

def decodeLast (c0 c1 c2 c3 : UInt8) : Option (List UInt8) :=
  match base64DecodeChar c0, base64DecodeChar c1, base64DecodeChar c2, base64DecodeChar c3 with
  | some n0, some n1, none, none => some [byte1 n0 n1]
  | some n0, some n1, some n2, none => some [byte1 n0 n1, byte2 n1 n2]
  | some n0, some n1, some n2, some n3 => some [byte1 n0 n1, byte2 n1 n2, byte3 n2 n3]
  | _, _, _, _ => none

/-- The blocks of a string whose length is a multiple of four. -/
def decodeBlocks : List UInt8 → Option (List UInt8)
  | [c0, c1, c2, c3] => decodeLast c0 c1 c2 c3
  | c0 :: c1 :: c2 :: c3 :: s =>
    (decodeBlock c0 c1 c2 c3).bind fun q => (decodeBlocks s).map fun data => q ++ data
  | _ => none

/-- `base64_decode`, with `none` for `NULL`. -/
def cryptoBase64Decode (s : List UInt8) : Option (List UInt8) :=
  if s.length % 4 ≠ 0 then none
  else if s.length / 4 < 1 then none
  else decodeBlocks s

end FreeRDP.Crypto

/-!
## Decoding what has been encoded

`encoded` is the encoding of any number of bytes.  The encoder computes it as long as its `int` counts the
blocks (`cryptoBase64Encode_eq`), and the decoder takes it back (`decodeBlocks_encoded`).  The decoder
takes more than that: the loop over the blocks refuses a character outside the alphabet, but the last
block takes any such character for an `=` (`isSome_decodeBlocks`).
-/

namespace FreeRDP.Crypto

/-! ### Characters -/

theorem base64DecodeChar_base64At : ∀ i < 64, base64DecodeChar (base64At i) = some i := by decide

theorem base64DecodeChar_pad : base64DecodeChar pad = none := by decide

theorem base64At_mem {i : ℕ} (hi : i < 64) : base64At i ∈ base64 := by
  rw [base64At, List.getD_eq_getElem _ _ (hi : i < base64.length)]
  exact List.getElem_mem _

theorem toNat_base64At : ∀ i < 64, (base64At i).toNat =
    if i < 26 then 65 + i else if i < 52 then 71 + i else if i < 62 then i - 4
    else if i = 62 then 43 else 47 := by decide

/-- The characters that have a value are those of the alphabet. -/
theorem isSome_base64DecodeChar (c : UInt8) : (base64DecodeChar c).isSome ↔ c ∈ base64 := by
  constructor
  · intro h
    have hcode : ∃ i < 64, (base64At i).toNat = c.toNat := by
      simp only [base64DecodeChar] at h
      split_ifs at h with hupper hlower hdigit hplus hslash
      · replace hupper : 65 ≤ c.toNat ∧ c.toNat ≤ 90 := hupper
        refine ⟨c.toNat - 65, by omega, ?_⟩
        rw [toNat_base64At _ (by omega), if_pos (by omega)]
        omega
      · replace hlower : 97 ≤ c.toNat ∧ c.toNat ≤ 122 := hlower
        refine ⟨c.toNat - 71, by omega, ?_⟩
        rw [toNat_base64At _ (by omega), if_neg (by omega), if_pos (by omega)]
        omega
      · replace hdigit : 48 ≤ c.toNat ∧ c.toNat ≤ 57 := hdigit
        refine ⟨c.toNat + 4, by omega, ?_⟩
        rw [toNat_base64At _ (by omega), if_neg (by omega), if_neg (by omega), if_pos (by omega)]
        omega
      · exact ⟨62, by decide, hplus.symm⟩
      · exact ⟨63, by decide, hslash.symm⟩
      · exact absurd h Bool.false_ne_true
    obtain ⟨i, hi, heq⟩ := hcode
    exact UInt8.toNat_inj.mp heq ▸ base64At_mem hi
  · intro hmem
    obtain ⟨i, hi, rfl⟩ := List.mem_iff_getElem.mp hmem
    have hvalue := base64DecodeChar_base64At i hi
    rw [base64At, List.getD_eq_getElem _ _ hi] at hvalue
    rw [hvalue, Option.isSome_some]

theorem base64DecodeChar_eq_none (c : UInt8) : base64DecodeChar c = none ↔ c ∉ base64 := by
  rw [← isSome_base64DecodeChar, ← Option.not_isSome_iff_eq_none]

theorem and_63 (n : ℕ) : n &&& 63 = n % 64 := Nat.and_two_pow_sub_one_eq_mod n 6

theorem and_15 (n : ℕ) : n &&& 15 = n % 16 := Nat.and_two_pow_sub_one_eq_mod n 4

theorem and_3 (n : ℕ) : n &&& 3 = n % 4 := Nat.and_two_pow_sub_one_eq_mod n 2

theorem and_shiftRight (c i mask : ℕ) (hmask : mask >>> i = 63) :
    (c &&& mask) >>> i = c / 2 ^ i % 64 := by
  rw [Nat.shiftRight_and_distrib, hmask, and_63, Nat.shiftRight_eq_div_pow]

theorem base64DecodeChar_char1 (c : ℕ) : base64DecodeChar (char1 c) = some (c / 2 ^ 18 % 64) := by
  rw [char1, and_shiftRight c 18 _ rfl]
  exact base64DecodeChar_base64At _ (Nat.mod_lt _ (by decide))

theorem base64DecodeChar_char2 (c : ℕ) : base64DecodeChar (char2 c) = some (c / 2 ^ 12 % 64) := by
  rw [char2, and_shiftRight c 12 _ rfl]
  exact base64DecodeChar_base64At _ (Nat.mod_lt _ (by decide))

theorem base64DecodeChar_char3 (c : ℕ) : base64DecodeChar (char3 c) = some (c / 2 ^ 6 % 64) := by
  rw [char3, and_shiftRight c 6 _ rfl]
  exact base64DecodeChar_base64At _ (Nat.mod_lt _ (by decide))

theorem base64DecodeChar_char4 (c : ℕ) : base64DecodeChar (char4 c) = some (c % 64) := by
  rw [char4, and_63]
  exact base64DecodeChar_base64At _ (Nat.mod_lt _ (by decide))

/-! ### Blocks -/

section Block

variable (q0 q1 q2 : UInt8)

theorem blockOf_eq : blockOf q0 q1 q2 = q0.toNat * 2 ^ 16 + q1.toNat * 2 ^ 8 + q2.toNat := by
  rw [blockOf, Nat.shiftLeft_eq, Nat.shiftLeft_eq]

/-- The first byte is in the first two characters. -/
theorem byte1_blockOf :
    byte1 (blockOf q0 q1 q2 / 2 ^ 18 % 64) (blockOf q0 q1 q2 / 2 ^ 12 % 64) = q0 := by
  apply UInt8.toNat_inj.mp
  have h0 := q0.toNat_lt
  have h1 := q1.toNat_lt
  have h2 := q2.toNat_lt
  rw [byte1, UInt8.toNat_ofNat', Nat.shiftLeft_eq, Nat.shiftRight_eq_div_pow, blockOf_eq]
  omega

theorem byte2_blockOf :
    byte2 (blockOf q0 q1 q2 / 2 ^ 12 % 64) (blockOf q0 q1 q2 / 2 ^ 6 % 64) = q1 := by
  apply UInt8.toNat_inj.mp
  have h1 := q1.toNat_lt
  have h2 := q2.toNat_lt
  rw [byte2, UInt8.toNat_ofNat', and_15, Nat.shiftLeft_eq, Nat.shiftRight_eq_div_pow, blockOf_eq]
  omega

theorem byte3_blockOf : byte3 (blockOf q0 q1 q2 / 2 ^ 6 % 64) (blockOf q0 q1 q2 % 64) = q2 := by
  apply UInt8.toNat_inj.mp
  have h2 := q2.toNat_lt
  rw [byte3, UInt8.toNat_ofNat', and_3, Nat.shiftLeft_eq, blockOf_eq]
  omega

theorem decodeBlock_blockOf :
    decodeBlock (char1 (blockOf q0 q1 q2)) (char2 (blockOf q0 q1 q2)) (char3 (blockOf q0 q1 q2))
      (char4 (blockOf q0 q1 q2)) = some [q0, q1, q2] := by
  simp only [decodeBlock, base64DecodeChar_char1, base64DecodeChar_char2, base64DecodeChar_char3,
    base64DecodeChar_char4, byte1_blockOf, byte2_blockOf, byte3_blockOf]

theorem decodeLast_blockOf :
    decodeLast (char1 (blockOf q0 q1 q2)) (char2 (blockOf q0 q1 q2)) (char3 (blockOf q0 q1 q2))
      (char4 (blockOf q0 q1 q2)) = some [q0, q1, q2] := by
  simp only [decodeLast, base64DecodeChar_char1, base64DecodeChar_char2, base64DecodeChar_char3,
    base64DecodeChar_char4, byte1_blockOf, byte2_blockOf, byte3_blockOf]

theorem decodeLast_two :
    decodeLast (char1 (blockOf q0 q1 q2)) (char2 (blockOf q0 q1 q2)) (char3 (blockOf q0 q1 q2)) pad =
      some [q0, q1] := by
  simp only [decodeLast, base64DecodeChar_char1, base64DecodeChar_char2, base64DecodeChar_char3,
    base64DecodeChar_pad, byte1_blockOf, byte2_blockOf]

theorem decodeLast_one :
    decodeLast (char1 (blockOf q0 q1 q2)) (char2 (blockOf q0 q1 q2)) pad pad = some [q0] := by
  simp only [decodeLast, base64DecodeChar_char1, base64DecodeChar_char2, base64DecodeChar_pad,
    byte1_blockOf]

end Block

/-! ### What is encoded is decoded -/

/-- The encoding of any number of bytes. -/
def encoded : List UInt8 → List UInt8
  | [] => []
  | [q0] => [char1 (blockOf q0 0 0), char2 (blockOf q0 0 0), pad, pad]
  | [q0, q1] =>
    [char1 (blockOf q0 q1 0), char2 (blockOf q0 q1 0), char3 (blockOf q0 q1 0), pad]
  | q0 :: q1 :: q2 :: q =>
    [char1 (blockOf q0 q1 q2), char2 (blockOf q0 q1 q2), char3 (blockOf q0 q1 q2),
      char4 (blockOf q0 q1 q2)] ++ encoded q

theorem encoded_ne_nil : ∀ {q : List UInt8}, q ≠ [] → encoded q ≠ []
  | [], h => absurd rfl h
  | [_], _ => List.cons_ne_nil _ _
  | [_, _], _ => List.cons_ne_nil _ _
  | _ :: _ :: _ :: _, _ => List.cons_ne_nil _ _

theorem length_encoded (q : List UInt8) : (encoded q).length % 4 = 0 := by
  induction q using encoded.induct with
  | case1 | case2 | case3 => simp [encoded]
  | case4 q0 q1 q2 q ih =>
    rw [encoded, List.length_append]
    show (4 + (encoded q).length) % 4 = 0
    omega

theorem decodeBlocks_cons (c0 c1 c2 c3 : UInt8) {s : List UInt8} (hs : s ≠ []) :
    decodeBlocks (c0 :: c1 :: c2 :: c3 :: s) =
      (decodeBlock c0 c1 c2 c3).bind fun q => (decodeBlocks s).map fun data => q ++ data := by
  cases s with
  | nil => exact absurd rfl hs
  | cons c s => rfl

theorem decodeBlocks_encoded {q : List UInt8} (hq : q ≠ []) : decodeBlocks (encoded q) = some q := by
  induction q using encoded.induct with
  | case1 => exact absurd rfl hq
  | case2 q0 => exact decodeLast_one q0 0 0
  | case3 q0 q1 => exact decodeLast_two q0 q1 0
  | case4 q0 q1 q2 q ih =>
    by_cases hlast : q = []
    · subst hlast
      exact decodeLast_blockOf q0 q1 q2
    · have hcons := decodeBlocks_cons (char1 (blockOf q0 q1 q2)) (char2 (blockOf q0 q1 q2))
        (char3 (blockOf q0 q1 q2)) (char4 (blockOf q0 q1 q2)) (encoded_ne_nil hlast)
      rw [decodeBlock_blockOf, ih hlast] at hcons
      exact hcons

theorem cryptoBase64Decode_encoded {q : List UInt8} (hq : q ≠ []) :
    cryptoBase64Decode (encoded q) = some q := by
  have hlength := length_encoded q
  have hpos := List.length_pos_iff.mpr (encoded_ne_nil hq)
  rw [cryptoBase64Decode, if_neg (by omega), if_neg (by omega), decodeBlocks_encoded hq]

/-- The two parts of the encoder, with the counter at `i`, give the encoding of what is left. -/
theorem encodeBlocks_bind {blocks i : ℤ} {length : ℕ} (q : List UInt8) (hi : 0 ≤ i)
    (hblocks : blocks < 2 ^ 31) (hlength : length % 3 = q.length % 3)
    (hleft : blocks - i = q.length - (q.length % 3 : ℕ)) :
    (encodeBlocks blocks i q).bind (fun r =>
      (encodeRemainder length r.2).map fun remainder => r.1 ++ remainder) = some (encoded q) := by
  induction q using encoded.induct generalizing i with
  | case1 =>
    have hlength : length % 3 = 0 := hlength
    have hend : ¬ i < blocks := by simp only [List.length_nil] at hleft; omega
    simp only [encodeBlocks, if_neg hend, Option.bind_some, encodeRemainder, hlength,
      Option.map_some, List.append_nil, encoded]
  | case2 q0 =>
    have hlength : length % 3 = 1 := hlength
    have hend : ¬ i < blocks := by
      simp only [List.length_cons, List.length_nil] at hleft
      omega
    simp only [encodeBlocks, if_neg hend, Option.bind_some, encodeRemainder, hlength,
      Option.map_some, List.nil_append, encoded]
  | case3 q0 q1 =>
    have hlength : length % 3 = 2 := hlength
    have hend : ¬ i < blocks := by
      simp only [List.length_cons, List.length_nil] at hleft
      omega
    simp only [encodeBlocks, if_neg hend, Option.bind_some, encodeRemainder, hlength,
      Option.map_some, List.nil_append, encoded]
  | case4 q0 q1 q2 q ih =>
    simp only [List.length_cons] at hlength hleft
    have hcount : i < blocks := by omega
    have hnext : i + 3 < 2 ^ 31 := by omega
    have hrest := ih (i := i + 3) (by omega) (by omega) (by omega)
    rw [encodeBlocks, if_pos hcount, if_pos hnext, encoded, Option.bind_map]
    cases hr : encodeBlocks blocks (i + 3) q with
    | none =>
      rw [hr] at hrest
      exact absurd hrest (Option.some_ne_none _).symm
    | some r =>
      rw [hr, Option.bind_some] at hrest
      cases hrem : encodeRemainder length r.2 with
      | none =>
        rw [hrem] at hrest
        exact absurd hrest (Option.some_ne_none _).symm
      | some remainder =>
        rw [hrem, Option.map_some] at hrest
        rw [Option.bind_some, Function.comp_apply, hrem, Option.map_some, ← Option.some.inj hrest,
          List.append_assoc]

theorem toInt_of_lt {n : ℕ} (h : n < 2 ^ 31) : toInt n = n := Int.bmod_eq_of_le (by omega) (by omega)

/-- An `int` counts up to `2 ^ 31` bytes in complete blocks. -/
theorem cryptoBase64Encode_eq {x : List UInt8} (hx : x.length - x.length % 3 < 2 ^ 31) :
    cryptoBase64Encode x = some (encoded x) := by
  have hmod := Nat.mod_le x.length 3
  rw [cryptoBase64Encode, toInt_of_lt hx]
  exact encodeBlocks_bind x le_rfl (by omega) rfl (by omega)

/-! ### The counter of the blocks -/

theorem length_decodeBlocks {s data : List UInt8} (h : decodeBlocks s = some data) :
    4 * data.length ≤ 3 * s.length := by
  induction s using decodeBlocks.induct generalizing data with
  | case1 c0 c1 c2 c3 =>
    simp only [decodeBlocks, decodeLast] at h
    split at h <;> cases h <;> simp
  | case2 c0 c1 c2 c3 s hs ih =>
    rw [decodeBlocks_cons _ _ _ _ hs] at h
    cases hq : decodeBlock c0 c1 c2 c3 with
    | none => rw [hq] at h; cases h
    | some q =>
      rw [hq, Option.bind_some, Option.map_eq_some_iff] at h
      obtain ⟨rest, hrest, rfl⟩ := h
      have hlength : q.length = 3 := by
        simp only [decodeBlock] at hq
        split at hq <;> cases hq
        rfl
      have := ih hrest
      simp only [List.length_append, List.length_cons]
      omega
  | case3 s hlast hcons =>
    rw [decodeBlocks] at h
    · cases h
    · exact hlast
    · exact hcons

theorem length_encodeBlocks {blocks i : ℤ} {q : List UInt8} {r : List UInt8 × List UInt8}
    (h : encodeBlocks blocks i q = some r) :
    r.1.length = 0 ∨ i < blocks ∧ 3 * (r.1.length : ℤ) < 4 * (2 ^ 31 - i) := by
  induction i, q using encodeBlocks.induct blocks generalizing r with
  | case1 i q0 q1 q2 q hcount hnext ih =>
    rw [encodeBlocks, if_pos hcount, if_pos hnext, Option.map_eq_some_iff] at h
    obtain ⟨r', hr', rfl⟩ := h
    right
    refine ⟨hcount, ?_⟩
    simp only [List.length_append, List.length_cons, List.length_nil]
    rcases ih hr' with hzero | ⟨-, hle⟩ <;> omega
  | case2 i q0 q1 q2 q hcount hnext =>
    rw [encodeBlocks, if_pos hcount, if_neg hnext] at h
    cases h
  | case3 i q0 q1 q2 q hcount =>
    rw [encodeBlocks, if_neg hcount] at h
    cases h
    exact Or.inl rfl
  | case4 i q hq hcount =>
    rw [encodeBlocks, if_pos hcount] at h
    · cases h
    · exact hq
  | case5 i q hq hcount =>
    rw [encodeBlocks, if_neg hcount] at h
    · cases h
      exact Or.inl rfl
    · exact hq

theorem length_encodeRemainder {length : ℕ} {q remainder : List UInt8}
    (h : encodeRemainder length q = some remainder) : remainder.length ≤ 4 := by
  unfold encodeRemainder at h
  split at h <;> cases h <;> simp

theorem decodeBlocks_of_cryptoBase64Decode {s data : List UInt8}
    (h : cryptoBase64Decode s = some data) : decodeBlocks s = some data := by
  unfold cryptoBase64Decode at h
  split_ifs at h
  exact h

theorem toInt_neg {n : ℕ} (hle : 2 ^ 31 ≤ n) (hlt : n < 2 ^ 32) : toInt n < 0 :=
  (Int.bmod_neg_iff (by omega) (by omega)).mpr (Or.inr (by omega))

/-- When the `int` of the blocks has overflowed, less is encoded than there was. -/
theorem decode_encode_ne {x : List UInt8} (hx : ¬ x.length - x.length % 3 < 2 ^ 31) :
    (cryptoBase64Encode x).bind cryptoBase64Decode ≠ some x := by
  intro h
  obtain ⟨s, hs, hdata⟩ := Option.bind_eq_some_iff.mp h
  obtain ⟨r, hr, hs⟩ := Option.bind_eq_some_iff.mp hs
  obtain ⟨remainder, hremainder, rfl⟩ := Option.map_eq_some_iff.mp hs
  have hdecoded := length_decodeBlocks (decodeBlocks_of_cryptoBase64Decode hdata)
  have hrem := length_encodeRemainder hremainder
  rw [List.length_append] at hdecoded
  rcases length_encodeBlocks hr with hzero | ⟨hpos, hle⟩
  · omega
  · -- the `int` is not negative again from `2 ^ 32` bytes on
    have hneg := toInt_neg (n := x.length - x.length % 3) (by omega) (by omega)
    omega

/-! ### What is accepted -/

/-- Characters of the alphabet, with `=` only as the last one or two characters. -/
def Grammar (s : List UInt8) : Prop :=
  ∃ body, (∀ c ∈ body, c ∈ base64) ∧ (s = body ∨ s = body ++ [pad] ∨ s = body ++ [pad, pad])

/-- The last two characters `c` and `d` are of the alphabet or an `=`, or something else is refused:
another character, or a last character of the alphabet behind one that is not. -/
def PaddingOnly (s : List UInt8) : Prop :=
  ∃ t c d, s = t ++ [c, d] ∧
    ((∃ x ∈ t, x ∉ base64) ∨ (c ∉ base64 ∧ d ∈ base64) ∨
      (c ∈ base64 ∨ c = pad) ∧ (d ∈ base64 ∨ d = pad))

theorem isSome_decodeLast (c0 c1 c2 c3 : UInt8) :
    (decodeLast c0 c1 c2 c3).isSome ↔
      c0 ∈ base64 ∧ c1 ∈ base64 ∧ (c2 ∈ base64 ∨ c3 ∉ base64) := by
  rw [← isSome_base64DecodeChar c0, ← isSome_base64DecodeChar c1, ← isSome_base64DecodeChar c2,
    ← base64DecodeChar_eq_none c3, decodeLast]
  cases base64DecodeChar c0 <;> cases base64DecodeChar c1 <;> cases base64DecodeChar c2 <;>
    cases base64DecodeChar c3 <;> simp

theorem isSome_decodeBlock (c0 c1 c2 c3 : UInt8) :
    (decodeBlock c0 c1 c2 c3).isSome ↔
      c0 ∈ base64 ∧ c1 ∈ base64 ∧ c2 ∈ base64 ∧ c3 ∈ base64 := by
  rw [← isSome_base64DecodeChar c0, ← isSome_base64DecodeChar c1, ← isSome_base64DecodeChar c2,
    ← isSome_base64DecodeChar c3, decodeBlock]
  cases base64DecodeChar c0 <;> cases base64DecodeChar c1 <;> cases base64DecodeChar c2 <;>
    cases base64DecodeChar c3 <;> simp

/-- The decoder looks at the last two characters in another way than at the others. -/
theorem isSome_decodeBlocks (c d : UInt8) :
    ∀ t : List UInt8, (t.length + 2) % 4 = 0 →
      ((decodeBlocks (t ++ [c, d])).isSome ↔
        (∀ x ∈ t, x ∈ base64) ∧ (c ∈ base64 ∨ d ∉ base64))
  | [], h => absurd h (by decide)
  | [_], h => absurd h (by simp)
  | [c0, c1], _ => by
    show (decodeLast c0 c1 c d).isSome ↔ _
    rw [isSome_decodeLast, List.forall_mem_cons, List.forall_mem_singleton, and_assoc]
  | [_, _, _], h => absurd h (by simp)
  | c0 :: c1 :: c2 :: c3 :: t, h => by
    have ih := isSome_decodeBlocks c d t (by simp only [List.length_cons] at h; omega)
    have hne : t ++ [c, d] ≠ [] := by simp
    simp only [List.cons_append, decodeBlocks_cons _ _ _ _ hne, List.forall_mem_cons]
    have hblock := isSome_decodeBlock c0 c1 c2 c3
    cases hq : decodeBlock c0 c1 c2 c3 with
    | none =>
      rw [hq] at hblock
      have hno : ¬ (c0 ∈ base64 ∧ c1 ∈ base64 ∧ c2 ∈ base64 ∧ c3 ∈ base64) :=
        fun h => Bool.false_ne_true (hblock.mpr h)
      rw [Option.bind_none]
      exact iff_of_false Bool.false_ne_true fun h =>
        hno ⟨h.1.1, h.1.2.1, h.1.2.2.1, h.1.2.2.2.1⟩
    | some q =>
      rw [hq] at hblock
      obtain ⟨h0, h1, h2, h3⟩ := hblock.mp rfl
      rw [Option.bind_some, Option.isSome_map, ih]
      simp only [h0, h1, h2, h3, true_and]

theorem isSome_cryptoBase64Decode {t : List UInt8} {c d : UInt8} (h : (t ++ [c, d]).length % 4 = 0) :
    (cryptoBase64Decode (t ++ [c, d])).isSome ↔
      (∀ x ∈ t, x ∈ base64) ∧ (c ∈ base64 ∨ d ∉ base64) := by
  have hlength : (t ++ [c, d]).length = t.length + 2 := List.length_append
  rw [cryptoBase64Decode, if_neg (by omega), if_neg (by omega)]
  exact isSome_decodeBlocks c d t (by omega)

theorem pad_notMem : pad ∉ base64 := by decide

/-- A string is of the grammar when its last two characters are. -/
theorem grammar_iff (t : List UInt8) (c d : UInt8) :
    Grammar (t ++ [c, d]) ↔
      (∀ x ∈ t, x ∈ base64) ∧
        (c ∈ base64 ∧ (d ∈ base64 ∨ d = pad) ∨ c = pad ∧ d = pad) := by
  have hone : t ++ [c, d] = (t ++ [c]) ++ [d] := by simp
  constructor
  · rintro ⟨body, hbody, rfl | h | h⟩
    · refine ⟨fun x hx => hbody x (by simp [hx]), Or.inl ⟨hbody c (by simp), Or.inl ?_⟩⟩
      exact hbody d (by simp)
    · rw [hone] at h
      obtain ⟨rfl, hd⟩ := List.append_inj' h rfl
      refine ⟨fun x hx => hbody x (by simp [hx]), Or.inl ⟨hbody c (by simp), Or.inr ?_⟩⟩
      exact List.singleton_inj.mp hd
    · obtain ⟨rfl, hcd⟩ := List.append_inj' h rfl
      refine ⟨hbody, Or.inr ?_⟩
      simpa using hcd
  · rintro ⟨ht, ⟨hc, hd | rfl⟩ | ⟨rfl, rfl⟩⟩
    · refine ⟨t ++ [c, d], ?_, Or.inl rfl⟩
      simp only [List.forall_mem_append, List.forall_mem_cons]
      exact ⟨ht, hc, hd, List.forall_mem_nil _⟩
    · refine ⟨t ++ [c], ?_, Or.inr (Or.inl hone)⟩
      simp only [List.forall_mem_append, List.forall_mem_singleton]
      exact ⟨ht, hc⟩
    · exact ⟨t, ht, Or.inr (Or.inr rfl)⟩

theorem exists_append_pair {s : List UInt8} (h : s.length % 4 = 0) (hs : s ≠ []) :
    ∃ t c d, s = t ++ [c, d] := by
  have hpos := List.length_pos_iff.mpr hs
  obtain ⟨d, r, hr⟩ := List.exists_cons_of_length_pos (l := s.reverse) (by simp; omega)
  have hlength := congrArg List.length hr
  rw [List.length_reverse, List.length_cons] at hlength
  obtain ⟨c, t, rfl⟩ := List.exists_cons_of_length_pos (l := r) (by omega)
  exact ⟨t.reverse, c, d, by rw [← List.reverse_reverse s, hr]; simp⟩

theorem decode_grammar_iff {s : List UInt8} (h : s.length % 4 = 0) (hs : s ≠ []) :
    ((cryptoBase64Decode s).isSome → Grammar s) ↔ PaddingOnly s := by
  obtain ⟨t, c, d, rfl⟩ := exists_append_pair h hs
  rw [isSome_cryptoBase64Decode h, grammar_iff]
  have hpad := pad_notMem
  constructor
  · intro hgrammar
    refine ⟨t, c, d, rfl, ?_⟩
    by_cases ht : ∀ x ∈ t, x ∈ base64
    · right
      by_cases hcd : c ∈ base64 ∨ d ∉ base64
      · rcases (hgrammar ⟨ht, hcd⟩).2 with ⟨hc, hd⟩ | ⟨rfl, rfl⟩
        · exact Or.inr ⟨Or.inl hc, hd⟩
        · exact Or.inr ⟨Or.inr rfl, Or.inr rfl⟩
      · rw [not_or, not_not] at hcd
        exact Or.inl hcd
    · left
      rw [not_forall] at ht
      obtain ⟨x, hx⟩ := ht
      exact ⟨x, Classical.not_imp.mp hx⟩
  · rintro ⟨t', c', d', heq, hcond⟩ ⟨ht, hcd⟩
    obtain ⟨rfl, hlast⟩ := List.append_inj' heq rfl
    obtain ⟨rfl, rfl⟩ : c = c' ∧ d = d' := by simpa using hlast
    refine ⟨ht, ?_⟩
    rcases hcond with ⟨x, hx, hno⟩ | ⟨hc, hd⟩ | ⟨hc | rfl, hd⟩
    · exact absurd (ht x hx) hno
    · exact absurd hd (hcd.resolve_left hc)
    · exact Or.inl ⟨hc, hd⟩
    · exact Or.inr ⟨rfl, hd.resolve_left (hcd.resolve_left hpad)⟩

/-! ### The round trip and the grammar -/

/-- What is encoded is decoded when an `int` counts the complete blocks, and what is decoded is of the
grammar when the last two characters are of the alphabet or an `=`, or the string is refused otherwise. -/
theorem base64_iff (x s : List UInt8) (hx : x ≠ []) (hlength : s.length % 4 = 0) (hs : s ≠ []) :
    ((cryptoBase64Encode x).bind cryptoBase64Decode = some x ↔
      x.length - x.length % 3 < 2 ^ 31) ∧
    (((cryptoBase64Decode s).isSome → Grammar s) ↔ PaddingOnly s) := by
  constructor
  · constructor
    · intro h
      by_contra hlong
      exact decode_encode_ne hlong h
    · intro hshort
      rw [cryptoBase64Encode_eq hshort, Option.bind_some, cryptoBase64Decode_encoded hx]
  · exact decode_grammar_iff hlength hs

/-- `QQ==` is of the condition. -/
theorem base64_iff_padded :
    (cryptoBase64Encode [65]).bind cryptoBase64Decode = some [65] ∧ Grammar [81, 81, pad, pad] := by
  have h := base64_iff [65] [81, 81, pad, pad] (by decide) rfl (by decide)
  refine ⟨h.1.mpr (by decide), h.2.mpr ?_ rfl⟩
  exact ⟨[81, 81], pad, pad, rfl, Or.inr (Or.inr ⟨Or.inr rfl, Or.inr rfl⟩)⟩

/-- `QQ!!` is decoded. -/
theorem not_base64_grammar :
    cryptoBase64Decode [81, 81, 33, 33] = some [65] ∧ ¬ Grammar [81, 81, 33, 33] := by
  refine ⟨by decide, fun h => ?_⟩
  obtain ⟨-, h | h⟩ := (grammar_iff [81, 81] 33 33).mp h
  · exact absurd h.1 (by decide)
  · exact absurd h.1 (by decide)

end FreeRDP.Crypto
