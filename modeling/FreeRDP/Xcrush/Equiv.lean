import FreeRDP.Lib.Run
import FreeRDP.Xcrush.Basic

/-!
# What the XCRUSH decoder reads and writes

The checks of `xcrush_decompress_l1` keep every copy inside the source and inside the history.  They
do not keep a match from pointing at the very place that it is copied to, where `xcrush_copy_bytes`
divides by the distance of its two pointers.  `xcrushDecompressL1_sound_iff` says that in every state a
receiver can reach a call is sound if and only if it meets no such match.
-/

namespace FreeRDP.Xcrush

open Traced Iterate

/-- The access is inside the source or the history, and a divisor is not zero. -/
def Access.Sound (srcSize : ℕ) : Access → Prop
  | .load (.source offset) => offset < srcSize
  | .load (.history offset) => offset < historyBufferSize
  | .store (.source _) => False
  | .store (.history offset) => offset < historyBufferSize
  | .modulo divisor => divisor ≠ 0

/-- The `n` bytes from the pointer on belong to its object. -/
def Pointer.Inside (srcSize n : ℕ) : Pointer → Prop
  | .source offset => offset + n ≤ srcSize
  | .history offset => offset + n ≤ historyBufferSize

variable {srcSize : ℕ} {l : Layout srcSize} {src : List UInt8} {p : Pointer} {dst n : ℕ}
  {historyBuffer : ℕ → UInt8}

/-! ### Copies -/

theorem Pointer.Inside.load {i : ℕ} (h : p.Inside srcSize n) (hi : i < n) :
    (Access.load (p.add i)).Sound srcSize := by
  cases p with
  | source offset =>
    have hle : offset + n ≤ srcSize := h
    show offset + i < srcSize
    omega
  | history offset =>
    have hle : offset + n ≤ historyBufferSize := h
    show offset + i < historyBufferSize
    omega

theorem Pointer.Inside.add {i k : ℕ} (h : p.Inside srcSize n) (hi : i + k ≤ n) :
    (p.add i).Inside srcSize k := by
  cases p with
  | source offset =>
    have hle : offset + n ≤ srcSize := h
    show offset + i + k ≤ srcSize
    omega
  | history offset =>
    have hle : offset + n ≤ historyBufferSize := h
    show offset + i + k ≤ historyBufferSize
    omega

theorem safe_memcpy (hp : p.Inside srcSize n) (hdst : dst + n ≤ historyBufferSize) :
    (memcpy src dst p n historyBuffer).Safe (Access.Sound srcSize) := by
  rw [memcpy, safe_bind, safe_bind, safe_accesses, safe_accesses, List.forall_mem_map,
    List.forall_mem_map]
  refine ⟨fun i hi => hp.load (List.mem_range.mp hi), fun i hi => ?_, (safe_pure _).mpr trivial⟩
  have hlt := List.mem_range.mp hi
  show dst + i < historyBufferSize
  omega

/-- The blocks of the loop end where the loop does. -/
theorem safe_copyBlocks {diff last : ℕ} (hlast : diff ∣ last)
    (hp : p.Inside srcSize last) (hdst : dst + last ≤ historyBufferSize) (rounds : ℕ) {a : ℕ}
    (ha : diff ∣ a) :
    (copyBlocks src dst p diff last rounds a historyBuffer).Safe (Access.Sound srcSize) := by
  induction rounds generalizing a historyBuffer with
  | zero => exact (safe_pure _).mpr trivial
  | succ rounds ih =>
    rw [copyBlocks, safe_ite, safe_bind]
    refine ⟨fun hlt => ⟨?_, ih (Nat.dvd_add ha (Nat.dvd_refl diff))⟩, fun _ => (safe_pure _).mpr trivial⟩
    have hle : a + diff ≤ last := by
      have := Nat.le_of_dvd (by omega) (Nat.dvd_sub hlast ha)
      omega
    exact safe_memcpy (hp.add hle) (by omega)

/-- A copy inside the two objects is sound if and only if it is not onto itself. -/
theorem safe_xcrushCopyBytes_iff (hp : p.Inside srcSize n) (hdst : dst + n ≤ historyBufferSize) :
    (xcrushCopyBytes l src dst p n historyBuffer).Safe (Access.Sound srcSize) ↔
      l.address p ≠ l.address (.history dst) := by
  unfold xcrushCopyBytes
  dsimp only
  by_cases hapart : l.address p + n < l.address (.history dst) ∨
      l.address p > l.address (.history dst) + n
  · rw [if_pos hapart]
    exact ⟨fun _ => by omega, fun _ => safe_memcpy hp hdst⟩
  rw [if_neg hapart, safe_bind, safe_access, safe_bind]
  generalize hdiff : (if l.address (.history dst) > l.address p then
    l.address (.history dst) - l.address p else l.address p - l.address (.history dst)) = diff
  constructor
  · rintro ⟨hmodulo, -⟩ heq
    rw [if_neg (by omega)] at hdiff
    have hne : diff ≠ 0 := hmodulo
    omega
  · intro hne
    have hpos : 0 < diff := by
      rw [← hdiff]
      split_ifs <;> omega
    have hmod : n % diff ≤ n := Nat.mod_le n diff
    have hlast : diff ∣ n - n % diff := Nat.dvd_sub_mod n
    refine ⟨hpos.ne', ?_, ?_⟩
    · have hblocks : p.Inside srcSize (n - n % diff) := by
        cases p with
        | source offset => exact Nat.le_trans (by omega : offset + (n - n % diff) ≤ offset + n) hp
        | history offset => exact Nat.le_trans (by omega : offset + (n - n % diff) ≤ offset + n) hp
      exact safe_copyBlocks hlast hblocks (by omega) n (Nat.dvd_zero diff)
    · rw [safe_ite]
      exact ⟨fun _ => safe_memcpy (hp.add (by omega)) (by omega), fun _ => (safe_pure _).mpr trivial⟩

theorem Layout.address_source_ne (l : Layout srcSize) {offset : ℕ} (h : offset < srcSize)
    (hdst : dst < historyBufferSize) : l.address (.source offset) ≠ l.address (.history dst) := by
  have hapart := l.apart
  simp only [Layout.address]
  omega

/-! ### The table of matches -/

def details (src : List UInt8) (matchIndex : ℕ) : MatchDetails := (readDetails src matchIndex).value

/-- Where the match before `MatchDetails[matchIndex]` ends in the output. -/
def matchEnd (src : List UInt8) : ℕ → ℕ
  | 0 => 0
  | matchIndex + 1 => (details src matchIndex).matchOutputOffset + (details src matchIndex).matchLength

/-- Where the literals after the match before `MatchDetails[matchIndex]` begin in the source. -/
def literalsEnd (src : List UInt8) (matchCount : ℕ) : ℕ → ℕ
  | 0 => 2 + 8 * matchCount
  | matchIndex + 1 => literalsEnd src matchCount matchIndex +
      ((details src matchIndex).matchOutputOffset - matchEnd src matchIndex)

theorem matchEnd_succ (src : List UInt8) (i : ℕ) :
    matchEnd src (i + 1) = (details src i).matchOutputOffset + (details src i).matchLength := rfl

theorem literalsEnd_succ (src : List UInt8) (matchCount i : ℕ) :
    literalsEnd src matchCount (i + 1) =
      literalsEnd src matchCount i + ((details src i).matchOutputOffset - matchEnd src i) := rfl

/-- The match follows the one before it, the source has the literals between the two, and the history,
which the output extends from `historyOffset` on, has room for the match at both ends of its copy. -/
def Accepted (src : List UInt8) (matchCount historyOffset matchIndex : ℕ) : Prop :=
  matchEnd src matchIndex ≤ (details src matchIndex).matchOutputOffset ∧
    literalsEnd src matchCount (matchIndex + 1) ≤ src.length ∧
    historyOffset + matchEnd src (matchIndex + 1) < historyBufferSize ∧
    (details src matchIndex).matchHistoryOffset + (details src matchIndex).matchLength <
      historyBufferSize

/-- No match that is reached points at the place in the history that it is copied to. -/
def MatchesApart (src : List UInt8) (matchCount historyOffset : ℕ) : Prop :=
  ∀ i < matchCount, (∀ j ≤ i, Accepted src matchCount historyOffset j) →
    (details src i).matchHistoryOffset ≠ historyOffset + (details src i).matchOutputOffset

theorem safe_dataReadUInt16 {offset : ℕ} (h : offset + 2 ≤ src.length) :
    (dataReadUInt16 src offset).Safe (Access.Sound src.length) := by
  rw [dataReadUInt16, safe_bind, safe_accesses]
  refine ⟨?_, (safe_pure _).mpr trivial⟩
  intro a ha
  rcases List.mem_pair.mp ha with rfl | rfl
  · show offset < src.length
    omega
  · show offset + 1 < src.length
    omega

theorem safe_readDetails {matchIndex : ℕ} (h : 2 + 8 * (matchIndex + 1) ≤ src.length) :
    (readDetails src matchIndex).Safe (Access.Sound src.length) := by
  have hread {offset : ℕ} (ho : offset + 2 ≤ src.length) := safe_dataReadUInt16 ho
  have hlow := hread (by omega : 2 + 8 * matchIndex + 2 ≤ src.length)
  have hmiddle := hread (by omega : 2 + 8 * matchIndex + 2 + 2 ≤ src.length)
  have hhigh := hread (by omega : 2 + 8 * matchIndex + 4 + 2 ≤ src.length)
  have hlast := hread (by omega : 2 + 8 * matchIndex + 4 + 2 + 2 ≤ src.length)
  simp only [readDetails, dataReadUInt32, safe_bind, safe_pure, hlow, hmiddle, hhigh, hlast,
    and_self]

/-! ### The walk over the matches -/

/-- The walk has not left the source or the history. -/
structure Walk.Within (srcSize : ℕ) (w : Walk) : Prop where
  literals : w.literals ≤ srcSize
  historyPtr : w.historyPtr < historyBufferSize

/-- The next match passes the checks: there are literals and room before it, and room for it. -/
def Walk.Passes (srcSize : ℕ) (m : MatchDetails) (w : Walk) : Prop :=
  w.outputOffset ≤ m.matchOutputOffset ∧
    w.literals + (m.matchOutputOffset - w.outputOffset) ≤ srcSize ∧
    w.historyPtr + (m.matchOutputOffset - w.outputOffset) + m.matchLength < historyBufferSize ∧
    m.matchHistoryOffset + m.matchLength < historyBufferSize

/-- If the next match passes the checks, it is not copied onto itself. -/
def Walk.Apart (src : List UInt8) (matchCount : ℕ) (w : Walk) : Prop :=
  w.matchIndex < matchCount → w.Passes src.length (details src w.matchIndex) →
    (details src w.matchIndex).matchHistoryOffset ≠
      w.historyPtr + ((details src w.matchIndex).matchOutputOffset - w.outputOffset)

/-- The walk after its next match, before which it takes `n` literals. -/
def Walk.taken (n : ℕ) (m : MatchDetails) (historyBuffer : ℕ → UInt8) (w : Walk) : Walk :=
  { matchIndex := w.matchIndex + 1
    literals := w.literals + n
    historyPtr := w.historyPtr + n + m.matchLength
    outputOffset := w.outputOffset + n + m.matchLength
    historyBuffer := historyBuffer }

variable {w w' : Walk} {m : MatchDetails} {matchCount historyOffset : ℕ}

theorem Walk.Within.copyLiterals {l : Layout src.length} (h : w.Within src.length) {k : ℕ}
    (hk : 0 < k) (hsrc : w.literals + k ≤ src.length)
    (hhistory : w.historyPtr + k < historyBufferSize) :
    (w.copyLiterals l src k).Safe (Access.Sound src.length) ∧
      (w.copyLiterals l src k).value.Within src.length := by
  refine ⟨?_, hsrc, hhistory⟩
  rw [Walk.copyLiterals, safe_bind]
  refine ⟨?_, (safe_pure _).mpr trivial⟩
  have hinside : (Pointer.source w.literals).Inside src.length k := hsrc
  rw [safe_xcrushCopyBytes_iff hinside (by omega)]
  exact l.address_source_ne (by omega) h.historyPtr

/-- A match that has room is sound if and only if it is not copied onto itself. -/
theorem Walk.copyMatch_of_room {l : Layout src.length}
    (hto : w.historyPtr + m.matchLength < historyBufferSize)
    (hfrom : m.matchHistoryOffset + m.matchLength < historyBufferSize) :
    ((w.copyMatch l src m).Safe (Access.Sound src.length) ↔ m.matchHistoryOffset ≠ w.historyPtr) ∧
      ∃ historyBuffer, (w.copyMatch l src m).value = .inl (w.taken 0 m historyBuffer) := by
  have hinside : (Pointer.history m.matchHistoryOffset).Inside src.length m.matchLength := by
    show m.matchHistoryOffset + m.matchLength ≤ historyBufferSize
    omega
  rw [Walk.copyMatch, if_neg (by omega), safe_bind, safe_xcrushCopyBytes_iff hinside (by omega)]
  refine ⟨?_, _, rfl⟩
  rw [safe_pure, and_true]
  simp only [Layout.address]
  omega

theorem Walk.copyMatch_of_no_room {l : Layout src.length}
    (h : historyBufferSize ≤ w.historyPtr + m.matchLength ∨
      historyBufferSize ≤ m.matchHistoryOffset + m.matchLength) :
    w.copyMatch l src m = w.leave (-1011) := by
  rw [Walk.copyMatch, if_pos h]

/-- A round whose match passes the checks is sound if and only if the match is not copied onto itself. -/
theorem Walk.Within.step_of_passes {l : Layout src.length} (h : w.Within src.length)
    (hmatches : 2 + 8 * matchCount ≤ src.length) (hlt : w.matchIndex < matchCount)
    (hpasses : w.Passes src.length (details src w.matchIndex)) :
    ((w.step l src matchCount).Safe (Access.Sound src.length) ↔ w.Apart src matchCount) ∧
      ∃ historyBuffer, (w.step l src matchCount).value =
        .inl (w.taken ((details src w.matchIndex).matchOutputOffset - w.outputOffset)
          (details src w.matchIndex) historyBuffer) := by
  have hread : (readDetails src w.matchIndex).Safe (Access.Sound src.length) :=
    safe_readDetails (by omega)
  have hvalue : (readDetails src w.matchIndex).value = details src w.matchIndex := rfl
  have hApart : w.Apart src matchCount ↔ (details src w.matchIndex).matchHistoryOffset ≠
      w.historyPtr + ((details src w.matchIndex).matchOutputOffset - w.outputOffset) :=
    ⟨fun h => h hlt hpasses, fun h _ _ => h⟩
  rw [hApart, Walk.step, if_neg (by omega), safe_bind, value_bind, hvalue]
  simp only [hread, true_and]
  clear hApart
  generalize details src w.matchIndex = m at hpasses ⊢
  obtain ⟨hoffset, hsrc, hto, hfrom⟩ := hpasses
  rw [if_neg (by omega), if_neg (by omega), if_neg (by omega), if_neg (by omega)]
  by_cases hnone : m.matchOutputOffset - w.outputOffset = 0
  · -- the match goes where the walk is
    rw [if_neg (by omega), hnone, Nat.add_zero]
    exact Walk.copyMatch_of_room (by omega) hfrom
  · -- the literals before the match are copied, which leaves the walk where its match goes
    obtain ⟨hsafe, hwithin⟩ := h.copyLiterals (l := l)
      (k := m.matchOutputOffset - w.outputOffset) (by omega) hsrc (by omega)
    have hliterals : ¬ src.length <
        (w.copyLiterals l src (m.matchOutputOffset - w.outputOffset)).value.literals :=
      Nat.not_lt.mpr hwithin.literals
    rw [if_pos (by omega), if_neg (by have := h.literals; omega), safe_bind, value_bind,
      if_neg hliterals]
    simp only [hsafe, true_and]
    exact Walk.copyMatch_of_room hto hfrom

/-- A round whose match does not pass the checks is sound, and the last one.  It only succeeds without
copying anything. -/
theorem Walk.Within.step_of_not_passes {l : Layout src.length} (h : w.Within src.length)
    (hmatches : 2 + 8 * matchCount ≤ src.length)
    (hno : ¬ (w.matchIndex < matchCount ∧ w.Passes src.length (details src w.matchIndex))) :
    (w.step l src matchCount).Safe (Access.Sound src.length) ∧
      ∃ status w', (w.step l src matchCount).value = .inr (status, w') ∧ (0 ≤ status → w' = w) := by
  have hleave (status : ℤ) : (w.leave status).Safe (Access.Sound src.length) ∧
      ∃ status' w', (w.leave status).value = .inr (status', w') ∧ (0 ≤ status' → w' = w) :=
    ⟨(safe_pure _).mpr trivial, status, w, rfl, fun _ => rfl⟩
  by_cases hlast : matchCount ≤ w.matchIndex
  · rw [Walk.step, if_pos hlast]
    exact hleave _
  have hread : (readDetails src w.matchIndex).Safe (Access.Sound src.length) :=
    safe_readDetails (by omega)
  have hvalue : (readDetails src w.matchIndex).value = details src w.matchIndex := rfl
  rw [Walk.step, if_neg hlast, safe_bind, value_bind, hvalue]
  simp only [hread, true_and]
  have hfails : ¬ w.Passes src.length (details src w.matchIndex) := fun hp => hno ⟨by omega, hp⟩
  clear hno
  generalize details src w.matchIndex = m at hfails ⊢
  unfold Walk.Passes at hfails
  have hliterals := h.literals
  split_ifs with h1 h2 h3 h4 h5 h6
  · exact hleave _
  · exact hleave _
  · exact hleave _
  · exact hleave _
  · exact hleave _
  · -- the literals are copied before the match is refused
    obtain ⟨hsafe, hwithin⟩ := h.copyLiterals (l := l)
      (k := m.matchOutputOffset - w.outputOffset) (by omega) (by omega) (by omega)
    have hptr : (w.copyLiterals l src (m.matchOutputOffset - w.outputOffset)).value.historyPtr =
        w.historyPtr + (m.matchOutputOffset - w.outputOffset) := rfl
    rw [safe_bind, value_bind, if_neg (Nat.not_lt.mpr hwithin.literals),
      Walk.copyMatch_of_no_room (by rw [hptr]; omega)]
    exact ⟨⟨hsafe, (safe_pure _).mpr trivial⟩, -1011, _, rfl, fun hstatus => by omega⟩
  · rw [Walk.copyMatch_of_no_room (by omega)]
    exact hleave _

/-- The walk has taken the matches before its own. -/
structure Walk.Follows (src : List UInt8) (matchCount historyOffset : ℕ) (w : Walk) : Prop where
  outputOffset : w.outputOffset = matchEnd src w.matchIndex
  historyPtr : w.historyPtr = historyOffset + matchEnd src w.matchIndex
  literals : w.literals = literalsEnd src matchCount w.matchIndex
  accepted : ∀ j < w.matchIndex, Accepted src matchCount historyOffset j

theorem Walk.Follows.within (h : w.Follows src matchCount historyOffset)
    (hmatches : 2 + 8 * matchCount ≤ src.length) (hoffset : historyOffset < historyBufferSize) :
    w.Within src.length := by
  have hptr := h.historyPtr
  have hliterals := h.literals
  have haccepted := h.accepted
  generalize w.matchIndex = i at hptr hliterals haccepted
  cases i with
  | zero => exact ⟨by rw [hliterals]; exact hmatches, by rw [hptr]; exact hoffset⟩
  | succ i =>
    obtain ⟨-, hsrc, hto, -⟩ := haccepted i (by omega)
    exact ⟨by omega, by omega⟩

theorem Walk.Follows.passes_iff (h : w.Follows src matchCount historyOffset) :
    w.Passes src.length (details src w.matchIndex) ↔
      Accepted src matchCount historyOffset w.matchIndex := by
  have hoffset := h.outputOffset
  have hptr := h.historyPtr
  have hliterals := h.literals
  rw [Walk.Passes, Accepted, literalsEnd_succ, matchEnd_succ, ← hoffset, ← hliterals, hptr, ← hoffset]
  omega

/-- A round of a walk goes on if and only if its match is accepted, and takes the match. -/
theorem Walk.Follows.next {l : Layout src.length} (h : w.Follows src matchCount historyOffset)
    (hmatches : 2 + 8 * matchCount ≤ src.length) (hoffset : historyOffset < historyBufferSize)
    (hnext : Next (Walk.step l src matchCount) w w') :
    w'.Follows src matchCount historyOffset ∧ w'.matchIndex = w.matchIndex + 1 ∧
      w.matchIndex < matchCount := by
  have hwithin := h.within hmatches hoffset
  by_cases hpasses : w.matchIndex < matchCount ∧ w.Passes src.length (details src w.matchIndex)
  · obtain ⟨-, historyBuffer, hvalue⟩ :=
      hwithin.step_of_passes (l := l) hmatches hpasses.1 hpasses.2
    have haccepted := h.passes_iff.mp hpasses.2
    obtain rfl := Sum.inl.inj (hvalue.symm.trans hnext)
    have hoffset := h.outputOffset
    have hptr := h.historyPtr
    have hle := haccepted.1
    refine ⟨⟨?_, ?_, ?_, fun j hj => ?_⟩, rfl, hpasses.1⟩
    · simp only [Walk.taken, matchEnd]
      omega
    · simp only [Walk.taken, matchEnd]
      omega
    · simp only [Walk.taken, literalsEnd, h.literals, hoffset]
    · rcases Nat.lt_succ_iff_lt_or_eq.mp hj with hlt | rfl
      · exact h.accepted j hlt
      · exact haccepted
  · obtain ⟨-, status, w'', hvalue, -⟩ := hwithin.step_of_not_passes (l := l) hmatches hpasses
    exact nomatch hvalue.symm.trans hnext

/-- A round is sound if and only if its match, if accepted, is not copied onto itself. -/
theorem Walk.Follows.safe_iff {l : Layout src.length} (h : w.Follows src matchCount historyOffset)
    (hmatches : 2 + 8 * matchCount ≤ src.length) (hoffset : historyOffset < historyBufferSize) :
    (w.step l src matchCount).Safe (Access.Sound src.length) ↔
      (w.matchIndex < matchCount → Accepted src matchCount historyOffset w.matchIndex →
        (details src w.matchIndex).matchHistoryOffset ≠
          historyOffset + (details src w.matchIndex).matchOutputOffset) := by
  have hwithin := h.within hmatches hoffset
  by_cases hpasses : w.matchIndex < matchCount ∧ w.Passes src.length (details src w.matchIndex)
  · rw [(hwithin.step_of_passes hmatches hpasses.1 hpasses.2).1]
    have haccepted := h.passes_iff.mp hpasses.2
    have hto : w.historyPtr + ((details src w.matchIndex).matchOutputOffset - w.outputOffset) =
        historyOffset + (details src w.matchIndex).matchOutputOffset := by
      have hle := haccepted.1
      have hptr := h.historyPtr
      have houtput := h.outputOffset
      omega
    unfold Walk.Apart
    rw [hto, h.passes_iff]
  · refine ⟨fun _ hlt haccepted => ?_, fun _ => (hwithin.step_of_not_passes hmatches hpasses).1⟩
    exact absurd ⟨hlt, h.passes_iff.mpr haccepted⟩ hpasses

/-- The walk reaches every match that is accepted together with those before it. -/
theorem Walk.Follows.exists_visit {l : Layout src.length} (h : w.Follows src matchCount historyOffset)
    (hzero : w.matchIndex = 0) (hmatches : 2 + 8 * matchCount ≤ src.length)
    (hoffset : historyOffset < historyBufferSize) {i : ℕ} (hi : i ≤ matchCount)
    (haccepted : ∀ j < i, Accepted src matchCount historyOffset j) :
    ∃ w', Visits (Walk.step l src matchCount) w w' ∧ w'.Follows src matchCount historyOffset ∧
      w'.matchIndex = i := by
  induction i with
  | zero => exact ⟨w, .refl, h, hzero⟩
  | succ i ih =>
    obtain ⟨w', hvisit, hfollows, rfl⟩ := ih (by omega) fun j hj => haccepted j (by omega)
    have hpasses := hfollows.passes_iff.mpr (haccepted w'.matchIndex (by omega))
    obtain ⟨-, historyBuffer, hvalue⟩ :=
      (hfollows.within hmatches hoffset).step_of_passes (l := l) hmatches (by omega) hpasses
    obtain ⟨hfollows', hindex, -⟩ := hfollows.next hmatches hoffset hvalue
    exact ⟨_, hvisit.tail hvalue, hfollows', hindex⟩

/-- The loop ends soundly if and only if no match that it reaches is copied onto itself. -/
theorem Walk.Follows.loop_iff {l : Layout src.length} (h : w.Follows src matchCount historyOffset)
    (hzero : w.matchIndex = 0) (hmatches : 2 + 8 * matchCount ≤ src.length)
    (hoffset : historyOffset < historyBufferSize) {rounds : ℕ} (hrounds : matchCount < rounds) :
    (loop (Walk.step l src matchCount) rounds w).value ≠ none ∧
        (loop (Walk.step l src matchCount) rounds w).Safe (Access.Sound src.length) ↔
      MatchesApart src matchCount historyOffset := by
  have hnext (t t' : Walk) (ht : t.Follows src matchCount historyOffset)
      (ht' : Next (Walk.step l src matchCount) t t') := ht.next hmatches hoffset ht'
  rw [Traced.loop_iff (μ := fun t => matchCount - t.matchIndex)
    (fun t t' ht _ ht' => ⟨(hnext t t' ht ht').1, by have := hnext t t' ht ht'; omega⟩)
    (fun t ht => ht.safe_iff hmatches hoffset) h (by omega)]
  constructor
  · intro hall i hi haccepted
    obtain ⟨t, hvisit, -, rfl⟩ :=
      h.exists_visit hzero hmatches hoffset hi.le fun j hj => haccepted j hj.le
    exact hall t hvisit hi (haccepted _ le_rfl)
  · intro hapart t hvisit hlt haccepted
    have ht := hvisit.invariant h fun u u' hu hu' => (hnext u u' hu hu').1
    refine hapart t.matchIndex hlt fun j hj => ?_
    rcases Nat.lt_or_eq_of_le hj with hlt' | rfl
    · exact ht.accepted j hlt'
    · exact haccepted

/-- A loop that is left soundly leaves a walk inside its objects. -/
theorem Walk.Follows.exit {l : Layout src.length} (h : w.Follows src matchCount historyOffset)
    (hmatches : 2 + 8 * matchCount ≤ src.length) (hoffset : historyOffset < historyBufferSize)
    {rounds : ℕ} {status : ℤ}
    (hexit : (loop (Walk.step l src matchCount) rounds w).value = some (status, w'))
    (hstatus : 0 ≤ status) :
    w'.Within src.length := by
  obtain ⟨t, hvisit, hvalue⟩ := exists_exit hexit
  have ht := hvisit.invariant h fun u u' hu hu' => (hu.next hmatches hoffset hu').1
  have hwithin := ht.within hmatches hoffset
  by_cases hpasses : t.matchIndex < matchCount ∧ t.Passes src.length (details src t.matchIndex)
  · obtain ⟨-, historyBuffer, hvalue'⟩ :=
      hwithin.step_of_passes (l := l) hmatches hpasses.1 hpasses.2
    exact nomatch hvalue'.symm.trans hvalue
  · obtain ⟨-, status', t', hvalue', hsame⟩ :=
      hwithin.step_of_not_passes (l := l) hmatches hpasses
    obtain ⟨rfl, rfl⟩ := Prod.mk.inj (Sum.inr.inj (hvalue'.symm.trans hvalue))
    rw [hsame hstatus]
    exact hwithin

/-! ### Calls -/

theorem Walk.Within.copyRest {l : Layout src.length} (h : w.Within src.length) :
    (w.copyRest l src).Safe (Access.Sound src.length) ∧
      (w.copyRest l src).value.2.Within src.length := by
  unfold Walk.copyRest
  dsimp only
  split_ifs with hmore hroom
  · exact ⟨(safe_pure _).mpr trivial, h⟩
  · obtain ⟨hsafe, hwithin⟩ := h.copyLiterals (l := l) (k := src.length - w.literals)
      (by omega) (by omega) (by omega)
    rw [safe_bind]
    exact ⟨⟨hsafe, (safe_pure _).mpr trivial⟩, hwithin⟩
  · exact ⟨(safe_pure _).mpr trivial, h⟩

variable {xcrush xcrush' : Context} {d : Decompressed} {flags rounds : ℕ}

theorem Context.safe_finish {l : Layout src.length} (h : w.Within src.length)
    (hoffset : xcrush.historyOffset < historyBufferSize) :
    (xcrush.finish l src w).Safe (Access.Sound src.length) ∧
      (xcrush.finish l src w).value.xcrush.historyOffset < historyBufferSize := by
  obtain ⟨hsafe, hwithin⟩ := h.copyRest (l := l)
  rw [Context.finish, safe_bind, value_bind]
  simp only [hsafe, true_and]
  split_ifs
  · exact ⟨(safe_pure _).mpr trivial, hoffset⟩
  · exact ⟨(safe_pure _).mpr trivial, hwithin.historyPtr⟩

/-- The matches and what follows them are sound if and only if no match is copied onto itself. -/
theorem Context.runMatches_sound_iff {l : Layout src.length}
    (h : w.Follows src matchCount xcrush.historyOffset) (hzero : w.matchIndex = 0)
    (hmatches : 2 + 8 * matchCount ≤ src.length)
    (hoffset : xcrush.historyOffset < historyBufferSize) (hrounds : matchCount < rounds) :
    (∃ d, (xcrush.runMatches l src matchCount rounds w).value = some d) ∧
        (xcrush.runMatches l src matchCount rounds w).Safe (Access.Sound src.length) ↔
      MatchesApart src matchCount xcrush.historyOffset := by
  rw [← h.loop_iff hzero hmatches hoffset hrounds (l := l), Context.runMatches, safe_bind, value_bind]
  have hexit {status : ℤ} {w' : Walk}
      (hvalue : (loop (Walk.step l src matchCount) rounds w).value = some (status, w'))
      (hstatus : 0 ≤ status) : w'.Within src.length := h.exit hmatches hoffset hvalue hstatus
  cases hvalue : (loop (Walk.step l src matchCount) rounds w).value with
  | none => simp
  | some result =>
    obtain ⟨status, w'⟩ := result
    dsimp only
    split_ifs with hstatus
    · simp
    · have hfinish := Context.safe_finish (l := l) (hexit hvalue (by omega)) hoffset
      simp [hfinish.1]

theorem Context.historyOffset_runMatches {l : Layout src.length}
    (h : w.Follows src matchCount xcrush.historyOffset)
    (hmatches : 2 + 8 * matchCount ≤ src.length)
    (hoffset : xcrush.historyOffset < historyBufferSize)
    (hvalue : (xcrush.runMatches l src matchCount rounds w).value = some d) :
    d.xcrush.historyOffset < historyBufferSize := by
  rw [Context.runMatches, value_bind] at hvalue
  have hexit {status : ℤ} {w' : Walk}
      (hvalue : (loop (Walk.step l src matchCount) rounds w).value = some (status, w'))
      (hstatus : 0 ≤ status) : w'.Within src.length := h.exit hmatches hoffset hvalue hstatus
  cases hloop : (loop (Walk.step l src matchCount) rounds w).value with
  | none =>
    rw [hloop] at hvalue
    exact nomatch hvalue
  | some result =>
    obtain ⟨status, w'⟩ := result
    rw [hloop] at hvalue
    dsimp only at hvalue
    split_ifs at hvalue with hstatus
    · obtain rfl := Option.some.inj hvalue
      exact hoffset
    · have hfinish := Context.safe_finish (l := l) (hexit hloop (by omega)) hoffset
      obtain rfl := Option.some.inj hvalue
      exact hfinish.2

def matchCountOf (src : List UInt8) : ℕ := (dataReadUInt16 src 0).value

/-- The source is compressed and holds its table of matches. -/
def HasMatches (src : List UInt8) (flags : ℕ) : Prop :=
  2 ≤ src.length ∧ flags &&& L1_NO_COMPRESSION = 0 ∧ flags &&& L1_COMPRESSED ≠ 0 ∧
    2 + 8 * matchCountOf src ≤ src.length

/-- What a call needs to be sound. -/
def CallApart (src : List UInt8) (xcrush : Context) (flags : ℕ) : Prop :=
  HasMatches src flags →
    MatchesApart src (matchCountOf src) (xcrush.applyFlags flags).historyOffset

theorem Context.historyOffset_applyFlags (hoffset : xcrush.historyOffset < historyBufferSize) :
    (xcrush.applyFlags flags).historyOffset < historyBufferSize := by
  unfold Context.applyFlags
  split_ifs
  · exact historyBufferSize_pos
  · exact hoffset

theorem Context.follows_start (xcrush : Context) (src : List UInt8) (matchCount : ℕ) :
    (xcrush.start (2 + 8 * matchCount)).Follows src matchCount xcrush.historyOffset :=
  ⟨rfl, rfl, rfl, fun _ => nofun⟩

/-- A call ends soundly if and only if it has no match that is copied onto itself, and what it leaves is a
history whose end is in the history. -/
theorem xcrushDecompressL1_spec (l : Layout src.length) (flags : ℕ)
    (hoffset : xcrush.historyOffset < historyBufferSize) :
    ((∃ d, (xcrushDecompressL1 src l xcrush flags).value = some d) ∧
        (xcrushDecompressL1 src l xcrush flags).Safe (Access.Sound src.length) ↔
      CallApart src xcrush flags) ∧
    ∀ d, (xcrushDecompressL1 src l xcrush flags).value = some d →
      d.xcrush.historyOffset < historyBufferSize := by
  have happlied : (xcrush.applyFlags flags).historyOffset < historyBufferSize :=
    Context.historyOffset_applyFlags hoffset
  have hfail (x : Context) (hx : x.historyOffset < historyBufferSize) (status : ℤ) (w : Walk)
      (hno : ¬ HasMatches src flags) :
      ((∃ d, (pure (some (x.fail status w)) : Traced Access _).value = some d) ∧
          (pure (some (x.fail status w)) : Traced Access _).Safe (Access.Sound src.length) ↔
        CallApart src xcrush flags) ∧
      ∀ d, (pure (some (x.fail status w)) : Traced Access _).value = some d →
        d.xcrush.historyOffset < historyBufferSize := by
    refine ⟨⟨fun _ h => absurd h hno, fun _ => ⟨⟨_, rfl⟩, (safe_pure _).mpr trivial⟩⟩, fun d hd => ?_⟩
    obtain rfl := Option.some.inj hd
    exact hx
  unfold xcrushDecompressL1
  dsimp only
  split_ifs with h1 h2 h3 h4
  · exact hfail _ hoffset _ _ fun h => by have := h.1; omega
  · -- the source is one run of literals
    have hno : ¬ HasMatches src flags := fun h => h2 h.2.1
    have hwithin : ((xcrush.applyFlags flags).start 0).Within src.length := ⟨Nat.zero_le _, happlied⟩
    have hfinish := Context.safe_finish (l := l) hwithin happlied
    rw [safe_bind]
    refine ⟨⟨fun _ h => absurd h hno, fun _ => ⟨⟨_, rfl⟩, hfinish.1, (safe_pure _).mpr trivial⟩⟩,
      fun d hd => ?_⟩
    obtain rfl := Option.some.inj hd
    exact hfinish.2
  · exact hfail _ happlied _ _ fun h => h.2.2.1 h3
  · exact hfail _ happlied _ _ fun h => by have := h.1; omega
  · have hread : (dataReadUInt16 src 0).Safe (Access.Sound src.length) :=
      safe_dataReadUInt16 (by omega)
    rw [safe_bind, value_bind]
    simp only [hread, true_and]
    have hcount : (dataReadUInt16 src 0).value = matchCountOf src := rfl
    rw [hcount]
    by_cases h5 : src.length < 2 + 8 * matchCountOf src
    · have hstart : src.length <
          ((xcrush.applyFlags flags).start (2 + 8 * matchCountOf src)).literals := h5
      rw [if_pos hstart]
      exact hfail _ happlied _ _ fun h => by have := h.2.2.2; omega
    · have hstart : ¬ src.length <
          ((xcrush.applyFlags flags).start (2 + 8 * matchCountOf src)).literals := h5
      have hhas : HasMatches src flags := ⟨by omega, not_not.mp h2, h3, by omega⟩
      rw [if_neg hstart]
      have hfollows := (xcrush.applyFlags flags).follows_start src (matchCountOf src)
      constructor
      · rw [Context.runMatches_sound_iff hfollows rfl (by omega) happlied (Nat.lt_succ_self _)]
        exact ⟨fun h _ => h, fun h => h hhas⟩
      · intro d hd
        exact Context.historyOffset_runMatches hfollows (by omega) happlied hd

/-! ### Runs of calls -/

/-- What happens to a receiver. -/
inductive Input where
  | reset
  | packet (layout : (n : ℕ) → Layout n) (src : List UInt8) (flags : ℕ)

/-- An input takes the receiver from one state to the next. -/
def Step (xcrush : Context) : Input → Context → Prop
  | .reset, xcrush' => xcrush' = xcrushContextReset xcrush false
  | .packet layout src flags, xcrush' =>
    ∃ x d, xcrushDecompress layout xcrush src flags = .ok x ∧ x.value = some d ∧ d.xcrush = xcrush'

/-- The history of a receiver ends in `HistoryBuffer`. -/
theorem Step.historyOffset_lt {input : Input} (h : Step xcrush input xcrush')
    (hoffset : xcrush.historyOffset < historyBufferSize) :
    xcrush'.historyOffset < historyBufferSize := by
  cases input with
  | reset =>
    rw [show xcrush' = xcrushContextReset xcrush false from h]
    exact historyBufferSize_pos
  | packet layout src flags =>
    obtain ⟨x, d, hx, hd, rfl⟩ := h
    have hflush : (xcrush.flush flags).historyOffset < historyBufferSize := by
      unfold Context.flush
      split_ifs
      · exact historyBufferSize_pos
      · exact hoffset
    unfold xcrushDecompress at hx
    dsimp only at hx
    split_ifs at hx with h1 h2
    · obtain rfl := Except.ok.inj hx
      obtain rfl := Option.some.inj hd
      exact hoffset
    · obtain rfl := Except.ok.inj hx
      exact (xcrushDecompressL1_spec _ _ hflush).2 d hd
    · generalize Mppc.mppcDecompress _ _ _ = result at hx
      cases result with
      | error stop => exact nomatch hx
      | ok level2 =>
        have hmppc : ({ xcrush.flush flags with mppc := level2.mppc } : Context).historyOffset <
          historyBufferSize := hflush
        dsimp only at hx
        split_ifs at hx
        · obtain rfl := Except.ok.inj hx
          obtain rfl := Option.some.inj hd
          exact hmppc
        · obtain rfl := Except.ok.inj hx
          exact (xcrushDecompressL1_spec _ _ hmppc).2 d hd

/-- In every state that a receiver reaches, a call ends, and reads and writes inside its source and the
history without a division by zero, if and only if no match that it reaches is copied onto itself. -/
theorem xcrushDecompressL1_sound_iff {inputs : List Input}
    (h : Runs Step xcrushContextNew inputs xcrush) (src : List UInt8) (l : Layout src.length)
    (flags : ℕ) :
    (∃ d, (xcrushDecompressL1 src l xcrush flags).value = some d) ∧
        (xcrushDecompressL1 src l xcrush flags).Safe (Access.Sound src.length) ↔
      CallApart src xcrush flags := by
  have hoffset : xcrush.historyOffset < historyBufferSize :=
    h.invariant (I := fun x => x.historyOffset < historyBufferSize) historyBufferSize_pos
      fun _ _ _ ht hstep => Step.historyOffset_lt hstep ht
  exact (xcrushDecompressL1_spec l flags hoffset).1

/-- Where the source and the history could lie. -/
def layoutAfter (n : ℕ) : Layout n := ⟨historyBufferSize, 0, Or.inr (Nat.zero_add _).le⟩

/-- A match of three bytes from the front of the history, behind a literal. -/
def literalAndMatch : List UInt8 := [1, 0, 3, 0, 1, 0, 0, 0, 0, 0, 0x43]

/-- Two literals, and then a literal and a match that overlaps its source. -/
theorem xcrushDecompressL1_sound_iff_match :
    Accepted literalAndMatch 1 2 0 ∧
      ∃ xcrush, Runs Step xcrushContextNew [.packet layoutAfter [2, 0, 0x41, 0x42] 0] xcrush ∧
        (∃ d, (xcrushDecompressL1 literalAndMatch (layoutAfter 11) xcrush L1_COMPRESSED).value =
            some d) ∧
          (xcrushDecompressL1 literalAndMatch (layoutAfter 11) xcrush L1_COMPRESSED).Safe
            (Access.Sound 11) := by
  have haccepted : Accepted literalAndMatch 1 2 0 := by
    unfold Accepted historyBufferSize
    decide
  have hliterals : CallApart [0x41, 0x42] xcrushContextNew L1_NO_COMPRESSION :=
    fun h => absurd h.2.1 (by decide)
  obtain ⟨⟨d, hd⟩, -⟩ := (xcrushDecompressL1_spec (layoutAfter [(0x41 : UInt8), 0x42].length) _
    historyBufferSize_pos).1.mpr hliterals
  have hrun : Runs Step xcrushContextNew [.packet layoutAfter [2, 0, 0x41, 0x42] 0] d.xcrush :=
    .snoc .nil ⟨_, d, rfl, hd, rfl⟩
  refine ⟨haccepted, d.xcrush, hrun, (xcrushDecompressL1_sound_iff hrun literalAndMatch
    (layoutAfter 11) L1_COMPRESSED).mpr fun _ i hi _ => ?_⟩
  obtain rfl : i = 0 := Nat.lt_one_iff.mp hi
  exact (Nat.succ_ne_zero _).symm

/-- A first packet with one empty match at the front of the history divides by zero. -/
theorem xcrushDecompressL1_not_sound :
    ∃ (inputs : List Input) (xcrush : Context), Runs Step xcrushContextNew inputs xcrush ∧
      ∃ (src : List UInt8) (l : Layout src.length) (flags : ℕ),
        ¬ (xcrushDecompressL1 src l xcrush flags).Safe (Access.Sound src.length) := by
  refine ⟨[], xcrushContextNew, .nil, [1, 0, 0, 0, 0, 0, 0, 0, 0, 0], layoutAfter 10, L1_COMPRESSED, ?_⟩
  intro hsafe
  have hoffset : xcrushContextNew.historyOffset < historyBufferSize := historyBufferSize_pos
  unfold xcrushDecompressL1 at hsafe
  rw [if_neg (by decide), if_neg (by decide), if_neg (by decide), if_neg (by decide), safe_bind] at hsafe
  have hcount : (dataReadUInt16 [1, 0, 0, 0, 0, 0, 0, 0, 0, 0] 0).value = 1 := by decide
  have hloop := hsafe.2
  dsimp only at hloop
  rw [hcount, if_neg (by decide), Context.runMatches, safe_bind, safe_loop_succ] at hloop
  have hstart := xcrushContextNew.follows_start [1, 0, 0, 0, 0, 0, 0, 0, 0, 0] 1
  have hround := (hstart.safe_iff (by decide) hoffset).mp hloop.1.1
  have haccepted : Accepted [1, 0, 0, 0, 0, 0, 0, 0, 0, 0] 1 xcrushContextNew.historyOffset 0 :=
    ⟨Nat.le_refl 0, by decide, historyBufferSize_pos, historyBufferSize_pos⟩
  exact hround (by decide) haccepted rfl

end FreeRDP.Xcrush

/-!
## `xcrush_copy_bytes` is the forward copy

A match that reaches into its own destination repeats its bytes.  `xcrush_copy_bytes` does not copy
byte by byte: it hands `memcpy` blocks that are as long as the distance of its two pointers, whichever
of them is in front, so that no block meets its own destination.

1. One block is a forward copy (`value_memcpy_of_apart`); `memcpy` is only asked for such blocks.
2. So is the loop, a block at a time (`value_copyBlocks`).
3. The rest is one more block, shorter than the distance (`xcrushCopyBytes_eq_forwardCopy`).
-/

namespace FreeRDP.Xcrush

open ForwardCopy Traced

variable {srcSize : ℕ} {src : List UInt8} {historyBuffer : ℕ → UInt8} {dst offset n : ℕ}

/-- A block that does not meet its destination. -/
theorem value_memcpy_of_apart (h : offset + n ≤ dst ∨ dst + n ≤ offset) :
    (memcpy src dst (.history offset) n historyBuffer).value =
      forwardCopy historyBuffer dst offset n := by
  rw [forwardCopy_of_apart h]
  simp only [memcpy, value_bind, value_pure]
  rfl

/-- The blocks of the loop, each as long as the distance of the two pointers. -/
theorem value_copyBlocks {diff last : ℕ} (hdiff : offset + diff = dst ∨ dst + diff = offset)
    (hpos : 0 < diff) {blocks rounds a : ℕ} (hlast : a + blocks * diff = last)
    (hrounds : blocks ≤ rounds) :
    (copyBlocks src dst (.history offset) diff last rounds a historyBuffer).value =
      forwardCopy historyBuffer (dst + a) (offset + a) (blocks * diff) := by
  induction blocks generalizing rounds a historyBuffer with
  | zero =>
    rw [Nat.zero_mul] at hlast ⊢
    cases rounds with
    | zero => rfl
    | succ rounds =>
      rw [copyBlocks, if_neg (by omega)]
      rfl
  | succ blocks ih =>
    obtain ⟨rounds, rfl⟩ : ∃ k, rounds = k + 1 := ⟨rounds - 1, by omega⟩
    rw [Nat.succ_mul] at hlast ⊢
    have hapart : offset + a + diff ≤ dst + a ∨ dst + a + diff ≤ offset + a := by omega
    rw [copyBlocks, if_pos (by omega), value_bind, Pointer.add, value_memcpy_of_apart hapart,
      ih (by omega) (by omega), Nat.add_comm (blocks * diff), forwardCopy_add, Nat.add_assoc dst,
      Nat.add_assoc offset]

/-- Inside `HistoryBuffer`, from a place that is not the destination, `xcrush_copy_bytes` copies byte
after byte. -/
theorem xcrushCopyBytes_eq_forwardCopy (l : Layout srcSize) (src : List UInt8)
    (historyBuffer : ℕ → UInt8) (num : ℕ) {dst offset : ℕ} (h : offset ≠ dst) :
    (xcrushCopyBytes l src dst (.history offset) num historyBuffer).value =
      forwardCopy historyBuffer dst offset num := by
  unfold xcrushCopyBytes Layout.address
  dsimp only
  by_cases hapart : l.history + offset + num < l.history + dst ∨
      l.history + offset > l.history + dst + num
  · rw [if_pos hapart, value_memcpy_of_apart (by omega)]
  rw [if_neg hapart, value_bind, value_bind]
  generalize hdiff : (if l.history + dst > l.history + offset then
    l.history + dst - (l.history + offset) else l.history + offset - (l.history + dst)) = diff
  have hpos : 0 < diff := by
    rw [← hdiff]
    split_ifs <;> omega
  have hdist : offset + diff = dst ∨ dst + diff = offset := by
    rw [← hdiff]
    split_ifs <;> omega
  have hmod : num % diff < diff := Nat.mod_lt num hpos
  have hle : num % diff ≤ num := Nat.mod_le num diff
  have hblocks : num / diff * diff = num - num % diff := by
    rw [Nat.mul_comm, Nat.mul_div_self_eq_mod_sub_self]
  have hrounds : num / diff ≤ num := Nat.div_le_self num diff
  rw [value_copyBlocks hdist hpos (by rw [Nat.zero_add, hblocks]) hrounds, hblocks, Nat.add_zero,
    Nat.add_zero]
  have hsplit := forwardCopy_add historyBuffer dst offset (num - num % diff) (num % diff)
  rw [Nat.sub_add_cancel hle] at hsplit
  by_cases hrest : num % diff = 0
  · rw [if_neg (not_not.mpr hrest), value_pure, hsplit, hrest, forwardCopy_zero]
  · have hlast : offset + (num - num % diff) + num % diff ≤ dst + (num - num % diff) ∨
        dst + (num - num % diff) + num % diff ≤ offset + (num - num % diff) := by omega
    rw [if_pos hrest, Pointer.add, value_memcpy_of_apart hlast, hsplit]

/-- Five bytes from two places back repeat the two. -/
theorem xcrushCopyBytes_repeats :
    (xcrushCopyBytes (⟨historyBufferSize, 0, Or.inr (Nat.zero_add _).le⟩ : Layout 0) [] 2
      (.history 0) 5 fun i => UInt8.ofNat i).value =
        forwardCopy (fun i => UInt8.ofNat i) 2 0 5 :=
  xcrushCopyBytes_eq_forwardCopy _ [] _ 5 (Nat.ne_of_lt Nat.two_pos)

end FreeRDP.Xcrush
