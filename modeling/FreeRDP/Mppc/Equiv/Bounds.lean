import FreeRDP.Mppc.Equiv.Codes

/-!
# The MPPC decoder and the bounds of its history

`mppc_decompress` checks that the destination of a back-reference stays inside the history, but
masks its source index and then lets it run on.  `backReferences` lists the back-references that a
packet spells, with the index at which each is written; `mppcDecompress_ok_iff` shows that a call
returns, without leaving `HistoryBuffer`, exactly when each of them that starts before the front of
the buffer also ends there.  `runOps_ok_iff` carries this over whole sequences of calls.
-/

namespace FreeRDP.Mppc

open BitStream ForwardCopy Iterate

/-! ### The back-references of a packet -/

/-- The index a back-reference is written at, its offset and its length. -/
structure BackReference where
  index : ℕ
  offset : ℕ
  length : ℕ
  deriving DecidableEq, Repr

/-- A back-reference of RDP5 that starts before the front of the buffer is no longer than the part
of it that lies there. -/
def BackReference.Inside (level : ℕ) (b : BackReference) : Prop :=
  level ≠ 0 → b.index < b.offset % 65536 → b.length ≤ b.offset % 65536 - b.index

instance (level : ℕ) (b : BackReference) : Decidable (b.Inside level) :=
  inferInstanceAs (Decidable (_ → _ → _))

/-- The back-references that the bits of `bs` spell, for a first token written at `p`, as far as
the history has room for them. -/
def backReferences (level size : ℕ) : ℕ → BitStream → ℕ → List BackReference
  | 0, _, _ => []
  | n + 1, bs, p =>
    if bs.remainingLength < 8 then []
    else if size - 1 < p then []
    else if bs.accumulator &&& 0x80000000 = 0x00000000 then
      backReferences level size n (bs.shift 8) (p + 1)
    else if bs.accumulator &&& 0xC0000000 = 0x80000000 then
      backReferences level size n (bs.shift 9) (p + 1)
    else
      match readRow (copyOffsetRows level) bs with
      | none => []
      | some (offset, bs) =>
        match readRow (lengthOfMatchRows level) bs with
        | none => []
        | some (length, bs) =>
          if size - 1 < p + length - 1 then []
          else ⟨p, offset, length⟩ :: backReferences level size n bs (p + length)

/-- The back-references of a packet, from the state before the call. -/
def packetBackReferences (mppc : Context) (src : List UInt8) (flags : ℕ) : List BackReference :=
  if flags &&& PACKET_COMPRESSED = 0 then []
  else
    let d := startDecoder (applyFlags mppc flags) src
    backReferences mppc.compressionLevel mppc.historyBufferSize decompressRounds d.bs d.historyPtr

/-! ### One round -/

/-- Every length the decoder reads is at least 3, every offset at most 67903. -/
theorem readRow_bounds {rows : List DecodeRow} {lo hi : ℕ} {bs bs' : BitStream} {v : ℕ}
    (hrows : ∀ r ∈ rows, lo ≤ r.base ∧ r.low + r.base ≤ hi) (h : readRow rows bs = some (v, bs')) :
    lo ≤ v ∧ v ≤ hi := by
  unfold readRow at h
  obtain ⟨r, hr, heq⟩ := Option.map_eq_some_iff.mp h
  obtain ⟨hlo, hhi⟩ := hrows r (List.mem_of_find?_eq_some hr)
  have hle : (bs.accumulator >>> r.shift) &&& r.low ≤ r.low := Nat.and_le_right
  have hv := congrArg Prod.fst heq
  dsimp only at hv
  omega

theorem lengthOfMatch_bounds {level : ℕ} {bs bs' : BitStream} {v : ℕ}
    (h : readRow (lengthOfMatchRows level) bs = some (v, bs')) : 3 ≤ v ∧ v ≤ 65535 := by
  refine readRow_bounds ?_ h
  unfold lengthOfMatchRows
  split_ifs <;> decide

theorem copyOffset_bounds {level : ℕ} {bs bs' : BitStream} {v : ℕ}
    (h : readRow (copyOffsetRows level) bs = some (v, bs')) : 0 ≤ v ∧ v ≤ 67903 := by
  refine readRow_bounds ?_ h
  unfold copyOffsetRows
  split_ifs <;> decide

/-- The source of a back-reference stays inside the array exactly when it is `Inside`. -/
theorem sourceIndex_add_le_iff {level index offset length : ℕ} (hoff : offset ≤ 67903)
    (hlen : index + length ≤ historySize level) :
    sourceIndex level index offset + length ≤ historyBytes ↔
      (⟨index, offset, length⟩ : BackReference).Inside level := by
  unfold sourceIndex BackReference.Inside historyBytes
  unfold historySize at hlen
  by_cases h : level = 0
  · simp only [h, if_true, ne_eq, not_true_eq_false, if_false, false_implies, iff_true] at *
    rw [show (0x1FFF : ℕ) = 2 ^ 13 - 1 by rfl, Nat.and_two_pow_sub_one_eq_mod]
    omega
  · simp only [h, if_false, ne_eq, not_false_eq_true, if_true, true_implies] at *
    rw [show (0xFFFF : ℕ) = 2 ^ 16 - 1 by rfl, Nat.and_two_pow_sub_one_eq_mod]
    omega

/-! ### The loop -/

/-- The decoding loop leaves with a status exactly when its back-references stay inside. -/
theorem iterate_ok_iff {level n : ℕ} {d : Decoder} (hn : historySize level + 1 - d.historyPtr < n) :
    (∃ r, iterate (decompressStep level (historySize level)) n d = some (.ok r)) ↔
      ∀ b ∈ backReferences level (historySize level) n d.bs d.historyPtr, b.Inside level := by
  have hsize := historySize_bounds level
  induction n generalizing d with
  | zero => omega
  | succ n ih =>
    -- a round that exits with a status spells no further back-reference
    have hexit : ∀ r, decompressStep level (historySize level) d = .inr (.ok r) →
        ∃ r, iterate (decompressStep level (historySize level)) (n + 1) d = some (.ok r) :=
      fun r hr => ⟨r, iterate_inr hr n⟩
    rw [backReferences]
    by_cases hrem : d.bs.remainingLength < 8
    · rw [if_pos hrem]
      exact iff_of_true (hexit (1, d) (by rw [decompressStep, if_pos hrem])) (by simp)
    by_cases hend : historySize level - 1 < d.historyPtr
    · rw [if_neg hrem, if_pos hend]
      exact iff_of_true (hexit (-1004, d) (by rw [decompressStep, if_neg hrem, if_pos hend]))
        (by simp)
    rw [if_neg hrem, if_neg hend]
    -- a literal is stored below the end
    have hput : ∀ v k, d.putLiteral v k = .inl ⟨d.bs.shift k,
        Function.update d.historyBuffer d.historyPtr (UInt8.ofNat v), d.historyPtr + 1⟩ := by
      intro v k
      rw [Decoder.putLiteral, if_neg (by rw [historyBytes]; omega)]
    by_cases hshort : d.bs.accumulator &&& 0x80000000 = 0x00000000
    · rw [if_pos hshort, iterate_inl (by rw [decompressStep, if_neg hrem, if_neg hend,
        if_pos hshort, hput])]
      exact ih (by dsimp only; omega)
    by_cases hlong : d.bs.accumulator &&& 0xC0000000 = 0x80000000
    · rw [if_neg hshort, if_pos hlong, iterate_inl (by rw [decompressStep, if_neg hrem,
        if_neg hend, if_neg hshort, if_pos hlong, hput])]
      exact ih (by dsimp only; omega)
    rw [if_neg hshort, if_neg hlong]
    have hstep : decompressStep level (historySize level) d = d.readMatch level (historySize level) := by
      rw [decompressStep, if_neg hrem, if_neg hend, if_neg hshort, if_neg hlong]
    rw [Decoder.readMatch] at hstep
    cases hoff : readRow (copyOffsetRows level) d.bs with
    | none =>
      simp only [hoff] at hstep
      exact iff_of_true (hexit _ hstep) (by simp)
    | some x =>
      obtain ⟨offset, bs⟩ := x
      simp only [hoff] at hstep ⊢
      cases hlen : readRow (lengthOfMatchRows level) bs with
      | none =>
        simp only [hlen] at hstep ⊢
        exact iff_of_true (hexit _ hstep) (by simp)
      | some y =>
        obtain ⟨length, bs'⟩ := y
        simp only [hlen] at hstep ⊢
        have h3 := (lengthOfMatch_bounds hlen).1
        by_cases hover : historySize level - 1 < d.historyPtr + length - 1
        · rw [if_pos hover] at hstep ⊢
          exact iff_of_true (hexit _ hstep) (by simp)
        rw [if_neg hover] at hstep ⊢
        have hinside := sourceIndex_add_le_iff (copyOffset_bounds hoff).2
          (by omega : d.historyPtr + length ≤ historySize level)
        rw [List.forall_mem_cons, ← hinside]
        by_cases hsrc : sourceIndex level d.historyPtr offset + length ≤ historyBytes
        · rw [Decoder.copyMatch, checkedCopy_of_le _ hsrc (by rw [historyBytes]; omega)] at hstep
          rw [iterate_inl hstep]
          simp only [hsrc, true_and]
          exact ih (by dsimp only; omega)
        · -- the copy reads past the last byte of the buffer
          obtain ⟨i, hcopy, -⟩ := checkedCopy_of_gt d.historyBuffer d.historyPtr
            (by omega : 0 < length) (Nat.lt_of_not_le hsrc)
          rw [Decoder.copyMatch, hcopy] at hstep
          rw [iterate_inr hstep]
          simp [hsrc]

/-! ### Calls and sequences of calls -/

theorem compressionLevel_applyFlags (mppc : Context) (flags : ℕ) :
    (applyFlags mppc flags).compressionLevel = mppc.compressionLevel ∧
      (applyFlags mppc flags).historyBufferSize = mppc.historyBufferSize := by
  unfold applyFlags
  split_ifs <;> exact ⟨rfl, rfl⟩

/-- A call of `mppc_decompress` returns, having stayed inside `HistoryBuffer`, exactly when the
back-references of its packet do. -/
theorem mppcDecompress_ok_iff (mppc : Context) (src : List UInt8) (flags : ℕ) :
    (∃ d, mppcDecompress mppc src flags = .ok d) ↔
      ∀ b ∈ packetBackReferences mppc src flags, b.Inside mppc.compressionLevel := by
  obtain ⟨hlevel, hsize⟩ := compressionLevel_applyFlags mppc flags
  unfold mppcDecompress packetBackReferences
  by_cases hflags : flags &&& PACKET_COMPRESSED = 0
  · simp [hflags]
  simp only [hflags, if_false, hlevel, hsize]
  have hsizes := historySize_bounds mppc.compressionLevel
  rw [← historySize_level, ← iterate_ok_iff (by rw [decompressRounds, historyBytes]; omega)]
  cases iterate (decompressStep mppc.compressionLevel (historySize mppc.compressionLevel))
      decompressRounds (startDecoder (applyFlags mppc flags) src) with
  | none => simp
  | some r => cases r <;> simp

/-- What the owner of a receiving context can do with it. -/
inductive Op where
  | setCompressionLevel (level : ℕ)
  | decompress (src : List UInt8) (flags : ℕ)

/-- A sequence of operations; an `error` is a call that did not return. -/
def runOps : Context → List Op → Except Stop Context
  | mppc, [] => .ok mppc
  | mppc, .setCompressionLevel level :: ops => runOps (mppcSetCompressionLevel mppc level) ops
  | mppc, .decompress src flags :: ops =>
    match mppcDecompress mppc src flags with
    | .ok d => runOps d.mppc ops
    | .error stop => .error stop

/-- Every packet of the sequence has its back-references inside, in the state it meets. -/
def AllInside : Context → List Op → Prop
  | _, [] => True
  | mppc, .setCompressionLevel level :: ops => AllInside (mppcSetCompressionLevel mppc level) ops
  | mppc, .decompress src flags :: ops =>
    (∀ b ∈ packetBackReferences mppc src flags, b.Inside mppc.compressionLevel) ∧
      ∀ d, mppcDecompress mppc src flags = .ok d → AllInside d.mppc ops

/-- Every call of a sequence on a fresh context terminates and stays inside `HistoryBuffer` exactly
when no packet spells a back-reference that wraps around the front of the buffer and is longer than
the part before it. -/
theorem runOps_ok_iff (level : ℕ) (ops : List Op) :
    (∃ mppc, runOps (mppcContextNew level) ops = .ok mppc) ↔
      AllInside (mppcContextNew level) ops := by
  generalize mppcContextNew level = mppc
  induction ops generalizing mppc with
  | nil => simp [runOps, AllInside]
  | cons op ops ih =>
    cases op with
    | setCompressionLevel level => exact ih _
    | decompress src flags =>
      rw [runOps, AllInside, ← mppcDecompress_ok_iff]
      cases hd : mppcDecompress mppc src flags with
      | error stop => simp
      | ok d => simpa using ih d.mppc

/-- A back-reference of offset 1 and length 3 as the first token of a first packet: its source is
the last byte of the buffer, and the copy goes on with the byte behind it. -/
theorem runOps_fault :
    runOps (mppcContextNew 1) [.decompress [0xF8, 0x20] 0x21] = .error (.fault 65536) := by
  set d := startDecoder (applyFlags (mppcContextNew 1) 0x21) [0xF8, 0x20] with hd
  have hcopy : d.copyMatch 1 1 3 ((d.bs.shift 11).shift 1) = .inr (.error (.fault 65536)) := by
    rw [Decoder.copyMatch, show sourceIndex 1 d.historyPtr 1 = 65535 by decide, checkedCopy,
      if_neg (by decide), if_neg (by decide), checkedCopy, if_pos (by decide)]
  have hstep : decompressStep 1 65536 d = .inr (.error (.fault 65536)) := by
    rw [decompressStep, if_neg (by decide), if_neg (by decide), if_neg (by decide),
      if_neg (by decide), Decoder.readMatch,
      show readRow (copyOffsetRows 1) d.bs = some (1, d.bs.shift 11) by rw [hd]; rfl]
    dsimp only
    rw [show readRow (lengthOfMatchRows 1) (d.bs.shift 11) =
      some (3, (d.bs.shift 11).shift 1) by rw [hd]; rfl]
    dsimp only
    rw [if_neg (by decide), hcopy]
  have hrun : iterate (decompressStep 1 65536) decompressRounds d =
      some (.error (.fault 65536)) := iterate_inr hstep _
  have hcall : mppcDecompress (mppcContextNew 1) [0xF8, 0x20] 0x21 = .error (.fault 65536) := by
    rw [mppcDecompress, if_neg (by decide), ← hd,
      show (applyFlags (mppcContextNew 1) 0x21).compressionLevel = 1 from rfl,
      show (applyFlags (mppcContextNew 1) 0x21).historyBufferSize = 65536 from rfl, hrun]
  rw [runOps, hcall]

end FreeRDP.Mppc
