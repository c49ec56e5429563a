import FreeRDP.Zgfx.Equiv.Segment

/-!
# The history ring byte by byte

`zgfx_history_buffer_ring_write` and `zgfx_history_buffer_ring_read` move blocks.  `putByte` writes one
byte as the branch for literals does, and `copyBytewise` copies a match one byte at a time.  A ring is
determined by its index and the past that it holds, and with these the blocks and the bytes agree:
`ringWrite_eq_foldl` for writes of any length and `ringCopy_eq_bytewise` for the copies.
-/

namespace FreeRDP.Zgfx

open ForwardCopy Ring

/-- `HistoryBuffer[HistoryIndex] = c`, and the index goes on. -/
def Context.putByte (zgfx : Context) (c : UInt8) : Context where
  historyBuffer := Function.update zgfx.historyBuffer zgfx.historyIndex c
  historyIndex := if zgfx.historyIndex + 1 = historyBufferSize then 0 else zgfx.historyIndex + 1
  index_lt := by
    have hlt := zgfx.index_lt
    split_ifs <;> omega

/-- The byte `distance` positions behind the index. -/
def Context.byteBehind (zgfx : Context) (distance : ℕ) : UInt8 :=
  zgfx.historyBuffer ((zgfx.historyIndex + historyBufferSize - distance) % historyBufferSize)

/-- `count` bytes, each of them read `distance` positions behind the index and appended to the ring. -/
def Context.copyBytewise (distance : ℕ) : ℕ → Context → List UInt8 × Context
  | 0, zgfx => ([], zgfx)
  | count + 1, zgfx =>
    let c := zgfx.byteBehind distance
    let rest := copyBytewise distance count (zgfx.putByte c)
    (c :: rest.1, rest.2)

variable {zgfx zgfx' : Context} {past : ℕ → UInt8}

/-! ### Rings -/

/-- A context is determined by its index, by the past that it holds and by what lies behind the ring. -/
theorem Context.Holds.eq (h : zgfx.Holds past) (h' : zgfx'.Holds past)
    (hindex : zgfx.historyIndex = zgfx'.historyIndex)
    (hbehind : ∀ i, historyBufferSize ≤ i → zgfx.historyBuffer i = zgfx'.historyBuffer i) :
    zgfx = zgfx' := by
  have hbuffer : zgfx.historyBuffer = zgfx'.historyBuffer := by
    funext i
    by_cases hi : i < historyBufferSize
    · unfold Context.Holds at h'
      rw [← hindex] at h'
      exact Ring.Holds.cell_eq h h' zgfx.index_lt hi
    · exact hbehind i (by omega)
  cases zgfx
  cases zgfx'
  simp only at hindex hbuffer
  subst hindex hbuffer
  rfl

theorem Context.exists_holds (zgfx : Context) : ∃ past, zgfx.Holds past :=
  ⟨_, holds_pastOf historyBufferSize zgfx.historyBuffer zgfx.historyIndex⟩

/-! ### One byte -/

theorem historyIndex_putByte (zgfx : Context) (c : UInt8) :
    (zgfx.putByte c).historyIndex = (zgfx.historyIndex + 1) % historyBufferSize := by
  have hlt := zgfx.index_lt
  show (if _ then _ else _) = _
  split_ifs with h
  · rw [h, Nat.mod_self]
  · rw [Nat.mod_eq_of_lt (by omega)]

theorem putByte_of_ge (zgfx : Context) (c : UInt8) {i : ℕ} (hi : historyBufferSize ≤ i) :
    (zgfx.putByte c).historyBuffer i = zgfx.historyBuffer i := by
  have hlt := zgfx.index_lt
  exact Function.update_of_ne (by omega) _ _

theorem Context.Holds.putByte (h : zgfx.Holds past) (c : UInt8) :
    (zgfx.putByte c).Holds (push past c) := by
  have hlt := zgfx.index_lt
  have hwrite := Ring.Holds.write h zgfx.index_lt (l := [c]) (by rw [List.length_singleton]; omega)
  have hpiece : Ring.write historyBufferSize zgfx.historyBuffer zgfx.historyIndex [c] =
      (zgfx.putByte c).historyBuffer := by
    rw [Ring.write, if_pos (by rw [List.length_singleton]; omega)]
    rfl
  rw [hpiece, List.length_singleton, ← historyIndex_putByte zgfx c] at hwrite
  exact hwrite

/-! ### Bytes one after another -/

theorem Context.Holds.foldl_putByte (h : zgfx.Holds past) (src : List UInt8) :
    (src.foldl Context.putByte zgfx).Holds (append past src) := by
  induction src generalizing zgfx past with
  | nil => exact h
  | cons c src ih =>
    rw [List.foldl_cons, append_cons]
    exact ih (h.putByte c)

theorem historyIndex_foldl_putByte (zgfx : Context) (src : List UInt8) :
    (src.foldl Context.putByte zgfx).historyIndex =
      (zgfx.historyIndex + src.length) % historyBufferSize := by
  induction src generalizing zgfx with
  | nil => exact (Nat.mod_eq_of_lt zgfx.index_lt).symm
  | cons c src ih =>
    rw [List.foldl_cons, ih, historyIndex_putByte, Nat.mod_add_mod, List.length_cons]
    congr 1
    omega

theorem foldl_putByte_of_ge (zgfx : Context) (src : List UInt8) {i : ℕ}
    (hi : historyBufferSize ≤ i) :
    (src.foldl Context.putByte zgfx).historyBuffer i = zgfx.historyBuffer i := by
  induction src generalizing zgfx with
  | nil => rfl
  | cons c src ih => rw [List.foldl_cons, ih, putByte_of_ge zgfx c hi]

/-! ### Blocks -/

theorem length_drop_ringResidue (src : List UInt8) :
    (src.drop (ringResidue src)).length = min src.length historyBufferSize := by
  rw [List.length_drop, ringResidue]
  omega

theorem historyIndex_ringWrite (zgfx : Context) (src : List UInt8) :
    (ringWrite zgfx src).historyIndex = (zgfx.historyIndex + src.length) % historyBufferSize := by
  have hlen := length_drop_ringResidue src
  rw [ringWrite_historyIndex, ringIndex_eq (Nat.mod_lt _ historyBufferSize_pos) (by omega),
    Nat.mod_add_mod]
  congr 1
  unfold ringResidue at hlen ⊢
  omega

theorem ringWrite_of_ge (zgfx : Context) (src : List UInt8) {i : ℕ} (hi : historyBufferSize ≤ i) :
    (ringWrite zgfx src).historyBuffer i = zgfx.historyBuffer i := by
  have hlen := length_drop_ringResidue src
  rw [ringWrite_historyBuffer]
  exact write_of_ge (Nat.mod_lt _ historyBufferSize_pos) (by omega) hi

/-- `zgfx_history_buffer_ring_write` appends, also what does not fit into the ring. -/
theorem Context.Holds.ringWrite_any (h : zgfx.Holds past) (src : List UInt8) :
    (Zgfx.ringWrite zgfx src).Holds (append past src) := by
  by_cases hsrc : src.length ≤ historyBufferSize
  · exact h.ringWrite hsrc
  · -- the first bytes are passed over, the others fill the ring
    have hlen : (src.drop (ringResidue src)).length = historyBufferSize := by
      rw [length_drop_ringResidue]
      omega
    have hsplit : append past src =
        append (append past (src.take (ringResidue src))) (src.drop (ringResidue src)) := by
      rw [← append_append, List.take_append_drop]
    have hindex : (Zgfx.ringWrite zgfx src).historyIndex =
        (zgfx.historyIndex + ringResidue src) % historyBufferSize := by
      rw [historyIndex_ringWrite, ringResidue,
        show zgfx.historyIndex + src.length =
          zgfx.historyIndex + (src.length - historyBufferSize) + historyBufferSize by omega,
        Nat.add_mod_right]
    rw [Context.Holds, ringWrite_historyBuffer, hindex, hsplit]
    exact holds_write_full _ _ (Nat.mod_lt _ historyBufferSize_pos) hlen

/-- `zgfx_history_buffer_ring_write` leaves what writing byte by byte leaves. -/
theorem ringWrite_eq_foldl (zgfx : Context) (src : List UInt8) :
    ringWrite zgfx src = src.foldl Context.putByte zgfx := by
  obtain ⟨past, hpast⟩ := zgfx.exists_holds
  apply (hpast.ringWrite_any src).eq (hpast.foldl_putByte src)
  · rw [historyIndex_ringWrite, historyIndex_foldl_putByte]
  · intro i hi
    rw [ringWrite_of_ge zgfx src hi, foldl_putByte_of_ge zgfx src hi]

/-! ### Copies -/

/-- The bytes of a copy are those that the past determines. -/
theorem Context.Holds.copyBytewise (h : zgfx.Holds past) {distance : ℕ} (hd : 1 ≤ distance)
    (hd' : distance ≤ historyBufferSize) (count : ℕ) :
    zgfx.copyBytewise distance count =
      (copyBytes past distance count, (copyBytes past distance count).foldl Context.putByte zgfx) := by
  induction count generalizing zgfx past with
  | zero => rfl
  | succ count ih =>
    have hbyte : zgfx.byteBehind distance = past distance := h distance hd hd'
    rw [Context.copyBytewise, hbyte, ih (h.putByte _), copyBytes]
    rfl

/-- The copies of blocks agree with the copies of bytes: a match of any distance within the ring leaves
the same destination and the same context, and a block of any length, also one that is longer than the
ring, the same context. -/
theorem ringCopy_eq_bytewise :
    (∀ (zgfx : Context) (distance count : ℕ), 1 ≤ distance → distance ≤ historyBufferSize →
      count ≤ 65536 →
      (ringRead zgfx distance count, ringWrite zgfx (ringRead zgfx distance count)) =
        zgfx.copyBytewise distance count) ∧
    ∀ (zgfx : Context) (src : List UInt8), ringWrite zgfx src = src.foldl Context.putByte zgfx := by
  constructor
  · intro zgfx distance count hd hd' _
    obtain ⟨past, hpast⟩ := zgfx.exists_holds
    rw [hpast.ringRead hd hd', hpast.copyBytewise hd hd', ringWrite_eq_foldl]
  · exact ringWrite_eq_foldl

/-- A match of five bytes at distance two, behind two bytes in a new ring. -/
theorem ringCopy_eq_bytewise_five :
    (ringRead (ringWrite zgfxContextNew [7, 9]) 2 5,
        ringWrite (ringWrite zgfxContextNew [7, 9]) (ringRead (ringWrite zgfxContextNew [7, 9]) 2 5)) =
      (ringWrite zgfxContextNew [7, 9]).copyBytewise 2 5 := by
  have hsize : 2 ≤ historyBufferSize := by
    unfold historyBufferSize
    decide
  exact ringCopy_eq_bytewise.1 _ 2 5 (by decide) hsize (by decide)

end FreeRDP.Zgfx
