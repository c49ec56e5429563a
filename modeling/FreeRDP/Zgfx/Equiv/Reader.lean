import FreeRDP.Zgfx.Basic
import FreeRDP.Lib.PrefixCode

/-!
# The bit reader of ZGFX

A reader that stands at bit `p` of the data of a segment (`Reader.ReadsAt`) reads the fields of the
bit stream one after another: `getBits` reads a field, `findToken` the row of the table whose
prefix stands there, and `readCount` a match length.
-/

namespace FreeRDP.Zgfx

open BitField PrefixCode

def dataBit (data : List UInt8) : ℕ → Bool := byteBit fun i => data.getD i 0

/-- The reader stands at bit `p` of `data`, of which the first `total` bits are to be decoded. -/
structure Reader.ReadsAt (data : List UInt8) (total : ℕ) (r : Reader) (p : ℕ) : Prop where
  input : data <+: r.input
  inputEnd : r.inputEnd = data.length
  current : 8 * r.current = p + r.cBitsCurrent
  lt : r.cBitsCurrent < 8
  bitsCurrent : r.bitsCurrent = fieldAt (dataBit data) p r.cBitsCurrent
  remaining : r.cBitsRemaining + p = total

variable {data : List UInt8} {total : ℕ} {r : Reader} {p n : ℕ}

/-! ### Bits -/

theorem Reader.loadByte_eq (hinput : data <+: r.input)
    (hend : r.inputEnd = data.length) (hcurrent : 8 * r.current = p + r.cBitsCurrent)
    (hbits : r.bitsCurrent = fieldAt (dataBit data) p r.cBitsCurrent)
    (hlt : r.current < data.length) (hc : r.cBitsCurrent + 8 ≤ 32) :
    r.loadByte =
      { r with
        bitsCurrent := fieldAt (dataBit data) p (r.cBitsCurrent + 8)
        current := r.current + 1
        cBitsCurrent := r.cBitsCurrent + 8 } := by
  have hbyte : fieldAt (dataBit data) (p + r.cBitsCurrent) 8 = (r.input.getD r.current 0).toNat := by
    obtain ⟨rest, hrest⟩ := hinput
    rw [← hcurrent, dataBit, fieldAt_byteBit, ← hrest, List.getD_append _ _ _ _ hlt]
  have hsum := fieldAt_add (dataBit data) p r.cBitsCurrent 8
  have hfits : fieldAt (dataBit data) p (r.cBitsCurrent + 8) < 2 ^ 32 :=
    lt_of_lt_of_le (fieldAt_lt _ _ _) (Nat.pow_le_pow_right (by decide) hc)
  rw [hbyte, ← hbits] at hsum
  have hload : ((r.bitsCurrent <<< 8) % 2 ^ 32 + (r.input.getD r.current 0).toNat) % 2 ^ 32 =
      fieldAt (dataBit data) p (r.cBitsCurrent + 8) := by
    rw [Nat.shiftLeft_eq, hsum, Nat.mod_add_mod, Nat.mod_eq_of_lt (by omega)]
  have hcBits : (r.cBitsCurrent + 8) % 2 ^ 32 = r.cBitsCurrent + 8 := Nat.mod_eq_of_lt (by omega)
  rw [Reader.loadByte, if_pos (by omega), if_pos (by omega), hload, hcBits]

/-- Some bytes are appended to the cached bits. -/
theorem Reader.loadBytes_eq (k : ℕ) (hinput : data <+: r.input)
    (hend : r.inputEnd = data.length) (hcurrent : 8 * r.current = p + r.cBitsCurrent)
    (hbits : r.bitsCurrent = fieldAt (dataBit data) p r.cBitsCurrent)
    (hle : r.current + k ≤ data.length) (hc : r.cBitsCurrent + 8 * k ≤ 32) :
    r.loadBytes k =
      { r with
        bitsCurrent := fieldAt (dataBit data) p (r.cBitsCurrent + 8 * k)
        current := r.current + k
        cBitsCurrent := r.cBitsCurrent + 8 * k } := by
  induction k generalizing r with
  | zero => simp [Reader.loadBytes, ← hbits]
  | succ k ih =>
    have hrest := ih
      (r :=
        { r with
          bitsCurrent := fieldAt (dataBit data) p (r.cBitsCurrent + 8)
          current := r.current + 1
          cBitsCurrent := r.cBitsCurrent + 8 })
      hinput hend (by dsimp only; omega) rfl (by dsimp only; omega) (by dsimp only; omega)
    rw [Reader.loadBytes, Reader.loadByte_eq hinput hend hcurrent hbits (by omega) (by omega), hrest]
    dsimp only
    rw [show r.cBitsCurrent + 8 + 8 * k = r.cBitsCurrent + 8 * (k + 1) by omega,
      show r.current + 1 + k = r.current + (k + 1) by omega]

/-- `zgfx_GetBits` reads the next field. -/
theorem Reader.ReadsAt.getBits (h : r.ReadsAt data total p) (htotal : total ≤ 8 * data.length)
    (htotal' : total < 2 ^ 32) (hn : n ≤ 24) (hp : p + n ≤ total) :
    (r.getBits n).ReadsAt data total (p + n) ∧
      (r.getBits n).bits = fieldAt (dataBit data) p n := by
  obtain ⟨hinput, hend, hcurrent, hlt, hbits, hremaining⟩ := h
  generalize hk : (n - r.cBitsCurrent + 7) / 8 = k
  have hload := Reader.loadBytes_eq k hinput hend hcurrent hbits (by omega) (by omega)
  -- the cached bits are the field and what stays cached
  have hsplit : r.cBitsCurrent + 8 * k = n + (r.cBitsCurrent + 8 * k - n) := by omega
  have hdiv := fieldAt_div (dataBit data) p n (r.cBitsCurrent + 8 * k - n)
  have hmod := fieldAt_mod (dataBit data) p n (r.cBitsCurrent + 8 * k - n)
  rw [← hsplit] at hdiv hmod
  rw [Reader.getBits, hk, hload]
  refine ⟨⟨hinput, hend, by dsimp only; omega, by dsimp only; omega, ?_, by dsimp only; omega⟩, ?_⟩
  · rw [Nat.one_shiftLeft, Nat.and_two_pow_sub_one_eq_mod, hmod]
  · rw [Nat.shiftRight_eq_div_pow, hdiv]

/-! ### Prefixes -/

theorem Reader.ReadsAt.readPrefix {a : ℕ} (h : r.ReadsAt data total (p + a))
    (htotal : total ≤ 8 * data.length) (htotal' : total < 2 ^ 32) (hp : p + (a + n) ≤ total) :
    (r.readPrefix n (fieldAt (dataBit data) p a)).1.ReadsAt data total (p + (a + n)) ∧
      (r.readPrefix n (fieldAt (dataBit data) p a)).2 = fieldAt (dataBit data) p (a + n) := by
  induction n generalizing r a with
  | zero => exact ⟨h, rfl⟩
  | succ n ih =>
    obtain ⟨hread, hbits⟩ := h.getBits (n := 1) htotal htotal' (by omega) (by omega)
    have hfield : (fieldAt (dataBit data) p a) <<< 1 + (r.getBits 1).bits =
        fieldAt (dataBit data) p (a + 1) := by
      rw [hbits, fieldAt_add, Nat.shiftLeft_eq]
    rw [Reader.readPrefix, hfield, show a + (n + 1) = a + 1 + n by omega]
    exact ih hread (by omega)

/-- The prefix code of a row of the table. -/
def TokenRow.row (t : TokenRow) : Row := ⟨t.prefixLength, t.prefixCode, t.valueBits, t.valueBase⟩

/-- In a table that is prefix-free and ordered by length, the row whose prefix stands at the reader
is found. -/
theorem Reader.ReadsAt.findToken {rows : List TokenRow} {t : TokenRow} {a : ℕ}
    (hsorted : rows.Pairwise fun s t => s.prefixLength ≤ t.prefixLength)
    (hfree : PrefixFree (rows.map TokenRow.row)) (ht : t ∈ rows)
    (hmatch : t.row.Matches (dataBit data) p) (ha : ∀ s ∈ rows, a ≤ s.prefixLength)
    (h : r.ReadsAt data total (p + a)) (htotal : total ≤ 8 * data.length)
    (htotal' : total < 2 ^ 32) (hp : p + t.prefixLength ≤ total) :
    (r.findToken rows a (fieldAt (dataBit data) p a)).2 = some t ∧
      (r.findToken rows a (fieldAt (dataBit data) p a)).1.ReadsAt data total
        (p + t.prefixLength) := by
  induction rows generalizing r a with
  | nil => simp at ht
  | cons s rows ih =>
    obtain ⟨hle, hsorted⟩ := List.pairwise_cons.mp hsorted
    rw [List.map_cons] at hfree
    obtain ⟨hapart, hfree⟩ := List.pairwise_cons.mp hfree
    have has : a ≤ s.prefixLength := ha s (by simp)
    have hst : s.prefixLength ≤ t.prefixLength := by
      rcases List.mem_cons.mp ht with rfl | hmem
      · exact Nat.le_refl _
      · exact hle t hmem
    obtain ⟨hread, hfield⟩ := h.readPrefix (n := s.prefixLength - a) htotal htotal' (by omega)
    rw [Nat.add_sub_cancel' has] at hread hfield
    rw [Reader.findToken]
    rcases List.mem_cons.mp ht with rfl | hmem
    · rw [if_pos (by rw [hfield]; exact hmatch)]
      exact ⟨rfl, hread⟩
    · -- an earlier row cannot match where `t` does
      have hno : fieldAt (dataBit data) p s.prefixLength ≠ s.prefixCode :=
        (hapart t.row (List.mem_map_of_mem hmem)).symm.not_matches hmatch
      rw [if_neg (by rw [hfield]; exact hno), hfield, Nat.max_eq_right has]
      exact ih hsorted hfree hmem (fun u hu => hle u hu) hread

theorem prefixFree_tokenTable : PrefixFree (ZGFX_TOKEN_TABLE.map TokenRow.row) := by decide

theorem sorted_tokenTable :
    ZGFX_TOKEN_TABLE.Pairwise fun s t => s.prefixLength ≤ t.prefixLength := by decide

/-! ### Match lengths -/

/-- The code of a match length: a zero for 3, else a one, the exponent in unary and the rest. -/
def countFields (n : ℕ) : List (ℕ × ℕ) :=
  if n = 3 then [(1, 0)]
  else (1, 1) :: (List.replicate (n.log2 - 2) (1, 1) ++ [(1, 0), (n.log2, n - 2 ^ n.log2)])

/-- The unary part: `k` ones and a zero. -/
theorem Reader.ReadsAt.countLoop {k : ℕ} {fs : List (ℕ × ℕ)} (h : r.ReadsAt data total p)
    (rounds count extra : ℕ) (htotal : total ≤ 8 * data.length) (htotal' : total < 2 ^ 32)
    (hspells : Spells (dataBit data) p (List.replicate k (1, 1) ++ (1, 0) :: fs))
    (hp : p + k + 1 ≤ total) (hrounds : k < rounds) (hcount : count * 2 ^ k < 2 ^ 32)
    (hextra : extra + k < 2 ^ 32) :
    ∃ r' : Reader, (r.getBits 1).countLoop rounds count extra = some (r', count * 2 ^ k, extra + k) ∧
      r'.ReadsAt data total (p + k + 1) ∧ Spells (dataBit data) (p + k + 1) fs := by
  obtain ⟨rounds, rfl⟩ : ∃ n, rounds = n + 1 := ⟨rounds - 1, by omega⟩
  obtain ⟨hread, hbits⟩ := h.getBits (n := 1) htotal htotal' (by omega) (by omega)
  induction k generalizing r p rounds count extra with
  | zero =>
    obtain ⟨hzero, hrest⟩ := hspells
    refine ⟨r.getBits 1, ?_, hread, hrest⟩
    rw [Reader.countLoop, if_neg (by rw [hbits, hzero]; decide), pow_zero, Nat.mul_one, Nat.add_zero]
  | succ k ih =>
    rw [List.replicate_succ, List.cons_append] at hspells
    obtain ⟨hone, hrest⟩ := hspells
    have hle : count * 2 ≤ count * 2 ^ (k + 1) :=
      Nat.mul_le_mul_left _ (by rw [pow_succ]; have := Nat.two_pow_pos k; omega)
    have hnext : count * 2 * 2 ^ k = count * 2 ^ (k + 1) := by rw [pow_succ]; ring
    obtain ⟨rounds, rfl⟩ : ∃ n, rounds = n + 1 := ⟨rounds - 1, by omega⟩
    obtain ⟨hread', hbits'⟩ := hread.getBits (n := 1) htotal htotal' (by omega) (by omega)
    obtain ⟨r', hloop, hr', hfs⟩ := ih hread (count * 2) (extra + 1) hrest
      (by omega) (by rw [hnext]; exact hcount) (by omega) rounds (by omega) hread' hbits'
    refine ⟨r', ?_, by rw [show p + (k + 1) + 1 = p + 1 + k + 1 by omega]; exact hr',
      by rw [show p + (k + 1) + 1 = p + 1 + k + 1 by omega]; exact hfs⟩
    rw [Reader.countLoop, if_pos (by rw [hbits, hone]), Nat.mod_eq_of_lt (by omega),
      Nat.mod_eq_of_lt (a := extra + 1) (by omega), hloop, hnext, show extra + 1 + k = extra + (k + 1) by omega]

theorem width_replicate_one (k v : ℕ) : width (List.replicate k (1, v)) = k := by
  induction k with
  | zero => rfl
  | succ k ih =>
    rw [List.replicate_succ, width_cons, ih]
    exact Nat.add_comm 1 k

theorem Reader.ReadsAt.readCount (h : r.ReadsAt data total p) (htotal : total ≤ 8 * data.length)
    (htotal' : total < 2 ^ 32) (hn : 3 ≤ n) (hn' : n < 2 ^ 24)
    (hspells : Spells (dataBit data) p (countFields n)) (hp : p + width (countFields n) ≤ total) :
    ∃ r' : Reader, r.readCount = some (r', n) ∧
      r'.ReadsAt data total (p + width (countFields n)) := by
  unfold countFields at hspells hp ⊢
  by_cases h3 : n = 3
  · rw [if_pos h3] at hspells hp ⊢
    obtain ⟨hread, hbits⟩ := h.getBits (n := 1) htotal htotal' (by omega) (by simpa using hp)
    refine ⟨r.getBits 1, ?_, hread⟩
    rw [Reader.readCount, if_pos (by rw [hbits]; exact hspells.1), h3]
  · rw [if_neg h3] at hspells hp ⊢
    have hlog : 2 ≤ n.log2 := (Nat.le_log2 (by omega)).mpr (by omega)
    have hlog' : n.log2 < 24 := (Nat.log2_lt (by omega)).mpr hn'
    have hlow : 2 ^ n.log2 ≤ n := Nat.log2_self_le (by omega)
    have hpow : 4 * 2 ^ (n.log2 - 2) = 2 ^ n.log2 := by
      rw [show (4 : ℕ) = 2 ^ 2 by rfl, ← pow_add]
      congr 1
      omega
    obtain ⟨hone, hspells⟩ := hspells
    simp only [width_cons, width_append, width_nil, width_replicate_one] at hp ⊢
    obtain ⟨hread, hbits⟩ := h.getBits (n := 1) htotal htotal' (by omega) (by omega)
    obtain ⟨hread', -⟩ := hread.getBits (n := 1) htotal htotal' (by omega) (by omega)
    have hcur := hread'.current
    have hcur' := hread'.lt
    obtain ⟨r', hloop, hr', hfs⟩ := hread.countLoop (k := n.log2 - 2)
      (8 * (((r.getBits 1).getBits 1).inputEnd - ((r.getBits 1).getBits 1).current) + 9) 4 2 htotal
        htotal' hspells (by omega)
      (by rw [hread'.inputEnd]; omega) (by rw [hpow]; omega) (by omega)
    obtain ⟨hr'', hbits''⟩ := hr'.getBits (n := n.log2) htotal htotal' (by omega) (by omega)
    have hends : ¬ r'.Endless (2 + (n.log2 - 2)) := by
      have hlt := hr'.lt
      unfold Reader.Endless
      omega
    refine ⟨r'.getBits n.log2, ?_, ?_⟩
    · rw [Reader.readCount, if_neg (by rw [hbits, hone]; decide), Reader.readUnary]
      dsimp only
      rw [hloop]
      dsimp only
      rw [if_neg hends, show 2 + (n.log2 - 2) = n.log2 by omega, hpow, hbits'', hfs.1,
        Nat.add_sub_cancel' hlow, Nat.mod_eq_of_lt (by omega)]
    · rw [show p + (1 + (n.log2 - 2 + (1 + (n.log2 + 0)))) = p + 1 + (n.log2 - 2) + 1 + n.log2 by
        omega]
      exact hr''

end FreeRDP.Zgfx
