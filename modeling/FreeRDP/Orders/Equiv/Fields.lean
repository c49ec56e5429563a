import FreeRDP.Orders.Fields

/-!
# Fields of variable length are read back

Each of the fields is read back by its reader, for all the values that its writer writes.
-/

namespace FreeRDP.Orders

open Wire

variable {value : ℕ} {bs : List UInt8}

/-! ### Two bytes -/

theorem reads_updateRead2ByteUnsigned (h : updateWrite2ByteUnsigned value = some bs) :
    Reads updateRead2ByteUnsigned bs value := by
  have hlong : ∀ a < 128, a ||| 0x80 < 2 ^ 8 ∧ (a ||| 0x80) &&& 0x80 ≠ 0 ∧
      (a ||| 0x80) &&& 0x7F = a := by decide
  have hshort : ∀ a < 128, ¬ a &&& 0x80 ≠ 0 ∧ a &&& 0x7F = a := by decide
  unfold updateWrite2ByteUnsigned at h
  by_cases hmax : value > 0x7FFF
  · rw [if_pos hmax] at h
    exact nomatch h
  rw [if_neg hmax] at h
  by_cases hbytes : value ≥ 0x7F
  · rw [if_pos hbytes] at h
    obtain rfl := Option.some.inj h
    have hhigh : (value &&& 0x7F00) >>> 8 = value / 2 ^ 8 := by
      rw [Nat.shiftRight_and_distrib, Nat.shiftRight_eq_div_pow]
      exact (hshort (value / 2 ^ 8) (by omega)).2
    obtain ⟨hlt, hbit, hfield⟩ := hlong (value / 2 ^ 8) (by omega)
    rw [hhigh, and_0xFF]
    refine Reads.need (by simp [byte]) ((Reads.u8 hlt).bind ?_)
    rw [if_pos hbit, hfield]
    refine Reads.need le_rfl ((Reads.u8 (Nat.mod_lt _ (by decide))).map ?_)
    rw [shiftLeft_or _ (Nat.mod_lt _ (by decide)), Nat.mul_comm, Nat.div_add_mod]
  · rw [if_neg hbytes] at h
    obtain ⟨hbit, hfield⟩ := hshort value (by omega)
    rw [hfield] at h
    obtain rfl := Option.some.inj h
    refine Reads.need le_rfl ((Reads.u8 (by omega)).last ?_)
    rw [if_neg hbit, hfield]
    exact Reads.pure value

theorem exists_updateWrite2ByteUnsigned (h : value ≤ 0x7FFF) :
    ∃ bs, updateWrite2ByteUnsigned value = some bs := by
  unfold updateWrite2ByteUnsigned
  rw [if_neg (by omega)]
  split_ifs
  · exact ⟨_, rfl⟩
  · exact ⟨_, rfl⟩

/-- The sign of a field stands in the byte with the high bits. -/
theorem reads_updateRead2ByteSigned {value : ℤ} (h : updateWrite2ByteSigned value = some bs) :
    Reads updateRead2ByteSigned bs value := by
  have hlong : ∀ sign ∈ [0x40, 0], ∀ a < 64, a ||| sign ||| 0x80 < 2 ^ 8 ∧
      (a ||| sign ||| 0x80) &&& 0x80 ≠ 0 ∧ (a ||| sign ||| 0x80) &&& 0x3F = a ∧
        (a ||| sign ||| 0x80) &&& 0x40 = sign := by decide
  have hshort : ∀ sign ∈ [0x40, 0], ∀ a < 64, a ||| sign < 2 ^ 8 ∧ ¬ (a ||| sign) &&& 0x80 ≠ 0 ∧
      (a ||| sign) &&& 0x3F = a ∧ (a ||| sign) &&& 0x40 = sign := by decide
  have hmask : ∀ a < 64, a &&& 0x3F = a := by decide
  -- the sign that is written, and what is read of it
  obtain ⟨sign, hsign, hmem, hvalue⟩ : ∃ sign, (if value < 0 then 0x40 else 0) = sign ∧
      sign ∈ [0x40, 0] ∧ (if sign ≠ 0 then -(value.natAbs : ℤ) else value.natAbs) = value := by
    by_cases hneg : value < 0
    · exact ⟨0x40, if_pos hneg, by simp, by rw [if_pos (by decide)]; omega⟩
    · exact ⟨0, if_neg hneg, by simp, by rw [if_neg (by decide)]; omega⟩
  unfold updateWrite2ByteSigned at h
  rw [hsign] at h
  dsimp only at h
  by_cases hmax : value.natAbs > 0x3FFF
  · rw [if_pos hmax] at h
    exact nomatch h
  rw [if_neg hmax] at h
  by_cases hbytes : value.natAbs ≥ 0x3F
  · rw [if_pos hbytes] at h
    obtain rfl := Option.some.inj h
    have hhigh : (value.natAbs &&& 0x3F00) >>> 8 = value.natAbs / 2 ^ 8 := by
      rw [Nat.shiftRight_and_distrib, Nat.shiftRight_eq_div_pow]
      exact hmask (value.natAbs / 2 ^ 8) (by omega)
    obtain ⟨hlt, hbit, hfield, hsignBit⟩ := hlong sign hmem (value.natAbs / 2 ^ 8) (by omega)
    rw [hhigh, and_0xFF]
    refine Reads.need (by simp [byte]) ((Reads.u8 hlt).bind ?_)
    rw [readMagnitude, if_pos hbit, hfield, hsignBit]
    have hread : Reads (do
        need 1
        let c ← u8
        return (value.natAbs / 2 ^ 8) <<< 8 ||| c : Reader ℕ) (byte (value.natAbs % 2 ^ 8))
        value.natAbs := by
      refine Reads.need le_rfl ((Reads.u8 (Nat.mod_lt _ (by decide))).map ?_)
      rw [shiftLeft_or _ (Nat.mod_lt _ (by decide)), Nat.mul_comm, Nat.div_add_mod]
    exact hread.map hvalue
  · rw [if_neg hbytes, hmask _ (by omega)] at h
    obtain rfl := Option.some.inj h
    obtain ⟨hlt, hbit, hfield, hsignBit⟩ := hshort sign hmem value.natAbs (by omega)
    refine Reads.need le_rfl ((Reads.u8 hlt).last ?_)
    rw [readMagnitude, if_neg hbit, hfield, hsignBit]
    exact (Reads.pure value.natAbs).map hvalue

theorem exists_updateWrite2ByteSigned {value : ℤ} (h : value.natAbs ≤ 0x3FFF) :
    ∃ bs, updateWrite2ByteSigned value = some bs := by
  unfold updateWrite2ByteSigned
  dsimp only
  rw [if_neg (by omega)]
  by_cases hbytes : value.natAbs ≥ 0x3F
  · exact ⟨_, if_pos hbytes⟩
  · exact ⟨_, if_neg hbytes⟩

/-! ### Four bytes -/

theorem reads_updateRead4ByteUnsigned (h : updateWrite4ByteUnsigned value = some bs) :
    Reads updateRead4ByteUnsigned bs value := by
  have hfields : ∀ count ∈ [0, 1, 2, 3], ∀ a < 64, a ||| count <<< 6 < 2 ^ 8 ∧
      ((a ||| count <<< 6) &&& 0xC0) >>> 6 = count ∧ (a ||| count <<< 6) &&& 0x3F = a := by decide
  have hmask : ∀ a < 64, a &&& 0x3F = a := by decide
  have hmod (n : ℕ) : n % 2 ^ 8 < 2 ^ 8 := Nat.mod_lt _ (by decide)
  unfold updateWrite4ByteUnsigned at h
  by_cases hone : value ≤ 0x3F
  · rw [if_pos hone] at h
    obtain rfl := Option.some.inj h
    obtain ⟨hlt, hcount, hfield⟩ := hfields 0 (by simp) value (by omega)
    refine Reads.need le_rfl ((Reads.u8 (by omega)).last ?_)
    rw [Nat.zero_shiftLeft, Nat.or_zero] at hcount hfield
    rw [hcount, hfield]
    exact Reads.need le_rfl (Reads.pure value)
  rw [if_neg hone] at h
  by_cases htwo : value ≤ 0x3FFF
  · rw [if_pos htwo, Nat.shiftRight_eq_div_pow, hmask (value / 2 ^ 8) (by omega), and_0xFF] at h
    obtain rfl := Option.some.inj h
    obtain ⟨hlt, hcount, hfield⟩ := hfields 1 (by simp) (value / 2 ^ 8) (by omega)
    refine Reads.need (by simp [byte]) ((Reads.u8 hlt).bind ?_)
    rw [hcount, hfield]
    refine Reads.need le_rfl ((Reads.u8 (hmod _)).map ?_)
    rw [shiftLeft_or _ (hmod _)]
    omega
  rw [if_neg htwo] at h
  by_cases hthree : value ≤ 0x3FFFFF
  · rw [if_pos hthree, Nat.shiftRight_eq_div_pow, Nat.shiftRight_eq_div_pow,
      hmask (value / 2 ^ 16) (by omega), and_0xFF, and_0xFF] at h
    obtain rfl := Option.some.inj h
    obtain ⟨hlt, hcount, hfield⟩ := hfields 2 (by simp) (value / 2 ^ 16) (by omega)
    refine Reads.need (by simp [byte]) ((Reads.u8 hlt).bind ?_)
    rw [hcount, hfield]
    refine Reads.need le_rfl ((Reads.u8 (hmod _)).bind ((Reads.u8 (hmod _)).map ?_))
    rw [shiftLeft_or_or _ (hmod _) (hmod _)]
    omega
  rw [if_neg hthree] at h
  by_cases hfour : value ≤ 0x3FFFFFFF
  · rw [if_pos hfour, Nat.shiftRight_eq_div_pow, Nat.shiftRight_eq_div_pow,
      Nat.shiftRight_eq_div_pow, hmask (value / 2 ^ 24) (by omega), and_0xFF, and_0xFF, and_0xFF] at h
    obtain rfl := Option.some.inj h
    obtain ⟨hlt, hcount, hfield⟩ := hfields 3 (by simp) (value / 2 ^ 24) (by omega)
    refine Reads.need (by simp [byte]) ((Reads.u8 hlt).bind ?_)
    rw [hcount, hfield]
    refine Reads.need le_rfl ((Reads.u8 (hmod _)).bind ((Reads.u8 (hmod _)).bind
      ((Reads.u8 (hmod _)).map ?_)))
    rw [shiftLeft_or_or_or _ (hmod _) (hmod _) (hmod _)]
    omega
  · rw [if_neg hfour] at h
    exact absurd h (Option.some_ne_none _).symm

theorem exists_updateWrite4ByteUnsigned (h : value ≤ 0x3FFFFFFF) :
    ∃ bs, updateWrite4ByteUnsigned value = some bs := by
  unfold updateWrite4ByteUnsigned
  split_ifs
  · exact ⟨_, rfl⟩
  · exact ⟨_, rfl⟩
  · exact ⟨_, rfl⟩
  · exact ⟨_, rfl⟩

end FreeRDP.Orders
