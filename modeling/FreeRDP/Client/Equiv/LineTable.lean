import FreeRDP.Client.RdpFile
import FreeRDP.Lib.Run

/-!
# Which line of a `.rdp` file is filled in

`freerdp_client_parse_rdp_file_buffer` counts the lines of its text, and fills in the line of the table that
has the number of the text line.  The table counts the lines that have been added, by earlier calls too and
without the lines of one byte.

1. A line is added at the end of the table, which has room for it (`addLine_spec`).
2. Filling in is consistent if and only if it is the last line (`safe_touch_iff`).
3. So a text line that is filled in has to be one with as many lines skipped in front of it as the table had
   before the call (`RdpFile.Sound.safe_parseLines_iff`).
4. `calls_consistent_iff` is about runs.
-/

namespace FreeRDP.Client

open Traced

variable {memory : Memory} {mem : ℕ → Memory} {file file' : RdpFile} {line name value : CString}
  {index : ℤ} {i k size rounds : ℕ}

/-- The place is in the table, and the line that is filled in is the last one. -/
def Access.Consistent : Access → Prop
  | .line i size => i < size
  | .fill i last => i = last
  | .noText => False

/-- The lines are in the table. -/
structure RdpFile.Sound (file : RdpFile) : Prop where
  lineCount_le : file.lineCount ≤ file.lineSize
  lineSize_pos : 0 < file.lineSize
  relaxed : file.relaxed = true

/-- The table has room for a line, or gets it. -/
def Appends (memory : Memory) (file : RdpFile) : Prop :=
  memory.text = true ∧
    (file.lineCount < file.lineSize ∨ memory.table = true ∧ file.lineSize * 2 * 56 < 2 ^ 63)

/-! ### Adding a line -/

namespace RdpFile

theorem growLines_spec (hpos : 0 < file.lineSize) (h : file.lineCount + 1 ≤ file.lineSize + rounds)
    (hgrow : file.growLines memory rounds = some file') :
    file' = { file with lineSize := file'.lineSize } ∧ file.lineCount < file'.lineSize := by
  induction rounds generalizing file with
  | zero =>
    obtain rfl := Option.some.inj hgrow
    exact ⟨rfl, h⟩
  | succ rounds ih =>
    rw [growLines] at hgrow
    dsimp only at hgrow
    split_ifs at hgrow with hfull
    · have hpos' : 0 < file.lineSize * 2 := by omega
      have hroom : file.lineCount + 1 ≤ file.lineSize * 2 + rounds := by omega
      exact @ih { file with lineSize := file.lineSize * 2 } hpos' hroom hgrow
    · obtain rfl := Option.some.inj hgrow
      exact ⟨rfl, by omega⟩

theorem Sound.growLines_eq_none_iff (h : file.Sound) :
    file.growLines memory (file.lineCount + 1) = none ↔
      ¬ (file.lineCount < file.lineSize ∨
        memory.table = true ∧ file.lineSize * 2 * 56 < 2 ^ 63) := by
  have hle := h.lineCount_le
  have hpos := h.lineSize_pos
  rw [growLines]
  by_cases hroom : file.lineCount < file.lineSize
  · rw [if_neg (by omega)]
    exact iff_of_false (Option.some_ne_none _) fun hnot => hnot (Or.inl hroom)
  rw [if_pos (by omega), or_iff_right hroom]
  by_cases hmemory : memory.table = true ∧ file.lineSize * 2 * 56 < 2 ^ 63
  · rw [if_pos hmemory]
    refine iff_of_false ?_ fun hnot => hnot hmemory
    obtain ⟨rounds, hrounds⟩ : ∃ r, file.lineCount = r + 1 := ⟨file.lineCount - 1, by omega⟩
    rw [hrounds, growLines]
    dsimp only
    rw [if_neg (by omega)]
    exact Option.some_ne_none _
  · rw [if_neg hmemory]
    exact iff_of_true rfl hmemory

/-- What filling in leaves as it is. -/
structure SameTable (file file' : RdpFile) : Prop where
  lineCount : file'.lineCount = file.lineCount
  lineSize : file'.lineSize = file.lineSize
  relaxed : file'.relaxed = file.relaxed

theorem SameTable.rfl : SameTable file file := ⟨Eq.refl _, Eq.refl _, Eq.refl _⟩

theorem SameTable.setLine (line : RdpFileLine) : SameTable file (file.setLine i line) :=
  ⟨Eq.refl _, Eq.refl _, Eq.refl _⟩

theorem SameTable.sound (h : SameTable file file') (hs : file.Sound) : file'.Sound :=
  ⟨by rw [h.lineCount, h.lineSize]; exact hs.lineCount_le, by rw [h.lineSize]; exact hs.lineSize_pos,
    by rw [h.relaxed]; exact hs.relaxed⟩

/-- The index that a line gets. -/
def indexOf (index : ℤ) (file : RdpFile) : ℤ := if index < 0 then file.lineCount else index

/-- A line is added behind the others, in the table. -/
theorem Sound.addLine_spec (h : file.Sound) (memory : Memory) (line : CString) (index : ℤ) :
    (file.addLine memory line index).Safe Access.Consistent ∧
      (file.addLine memory line index).value.2.Sound ∧
      (Appends memory file → (file.addLine memory line index).value.1 = indexOf index file ∧
        (file.addLine memory line index).value.2.lineCount = file.lineCount + 1) ∧
      (¬ Appends memory file → (file.addLine memory line index).value.1 = -1) := by
  have hle := h.lineCount_le
  have hpos := h.lineSize_pos
  unfold addLine
  dsimp only
  cases hgrow : file.growLines memory (file.lineCount + 1) with
  | none =>
    have hnot := h.growLines_eq_none_iff.mp hgrow
    exact ⟨(safe_pure _).mpr trivial, h, fun happ => absurd happ.2 hnot, fun _ => rfl⟩
  | some grown =>
    obtain ⟨hgrown, hroom⟩ := growLines_spec hpos (by omega) hgrow
    have happ : Appends memory file ↔ memory.text = true := by
      refine and_iff_left (not_not.mp fun hnot => ?_)
      rw [h.growLines_eq_none_iff.mpr hnot] at hgrow
      exact Option.some_ne_none _ hgrow.symm
    have hcount : grown.lineCount = file.lineCount := by rw [hgrown]
    have hrelaxed : grown.relaxed = true := by rw [hgrown]; exact h.relaxed
    have hroom' : grown.lineCount < grown.lineSize := hcount ▸ hroom
    have hpos' : 0 < grown.lineSize := Nat.lt_of_le_of_lt (Nat.zero_le _) hroom'
    dsimp only
    rw [happ, safe_bind, safe_access, value_bind]
    by_cases htext : memory.text = true
    · rw [if_pos htext]
      exact ⟨⟨hroom', (safe_pure _).mpr trivial⟩, ⟨hroom', hpos', hrelaxed⟩,
        fun _ => ⟨rfl, congrArg (· + 1) hcount⟩, fun hnot => absurd htext hnot⟩
    · rw [if_neg htext]
      exact ⟨⟨hroom', (safe_pure _).mpr trivial⟩, ⟨Nat.le_of_lt hroom', hpos', hrelaxed⟩,
        fun hyes => absurd hyes htext, fun _ => rfl⟩

/-! ### Filling a line in -/

theorem safe_touch_iff (h : file.Sound) (hpos : 0 < file.lineCount) :
    (file.touch i).Safe Access.Consistent ↔ file.lineCount = i + 1 := by
  have hle := h.lineCount_le
  unfold touch
  rw [safe_bind, safe_access, safe_bind, safe_access]
  constructor
  · rintro ⟨-, hlast, -⟩
    have heq : i = file.lineCount - 1 := hlast
    omega
  · intro heq
    refine ⟨?_, ?_, (safe_pure _).mpr trivial⟩
    · show i < file.lineSize
      omega
    · show i = file.lineCount - 1
      omega

theorem Sound.safe_setInteger_iff (h : file.Sound) (hpos : 0 < file.lineCount) (n : ℤ) :
    (file.setInteger memory name n i).Safe Access.Consistent ↔ (0 ≤ n → file.lineCount = i + 1) := by
  unfold setInteger
  by_cases hneg : n < 0
  · rw [if_pos hneg]
    exact iff_of_true ((safe_pure _).mpr trivial) fun hn => by omega
  rw [if_neg hneg]
  dsimp only
  rw [if_neg (by omega), safe_bind, Int.toNat_natCast, safe_touch_iff h hpos]
  refine ⟨fun hsafe _ => hsafe.1, fun hlast => ⟨hlast (by omega), ?_⟩⟩
  split_ifs <;> exact (safe_pure _).mpr trivial

theorem sameTable_setInteger (n : ℤ) :
    SameTable file (file.setInteger memory name n index).value.2 := by
  unfold setInteger
  dsimp only
  split_ifs <;> exact ⟨rfl, rfl, rfl⟩

theorem Sound.safe_setString_iff (h : file.Sound) (hpos : 0 < file.lineCount) :
    (file.setString memory name value i).Safe Access.Consistent ↔
      ((isStandard stringNames name = true → memory.field = true) → file.lineCount = i + 1) := by
  unfold setString
  dsimp only
  by_cases hfield : isStandard stringNames name = true ∧ ¬ memory.field = true
  · rw [if_pos hfield]
    exact iff_of_true ((safe_pure _).mpr trivial) fun himp => absurd (himp hfield.1) hfield.2
  have himp : isStandard stringNames name = true → memory.field = true := fun hstandard =>
    not_not.mp fun hnot => hfield ⟨hstandard, hnot⟩
  rw [if_neg hfield, if_neg (by omega), safe_bind, Int.toNat_natCast, safe_touch_iff h hpos]
  refine ⟨fun hsafe _ => hsafe.1, fun hlast => ⟨hlast himp, ?_⟩⟩
  split_ifs <;> exact (safe_pure _).mpr trivial

theorem sameTable_setString : SameTable file (file.setString memory name value index).value.2 := by
  unfold setString
  dsimp only
  split_ifs <;> exact ⟨rfl, rfl, rfl⟩

end RdpFile

/-! ### Lines -/

/-- What is in the line is filled in: a number that is not negative, or a string. -/
def FillsContent (memory : Memory) : LineContent → Prop
  | .field name type value =>
    (type = 105 ∧ ∃ n, strtol value = some n ∧ 0 ≤ n ∧ n ≤ INT32_MAX) ∨
    (type = 115 ∧ memory.copy = true ∧ (isStandard stringNames name = true → memory.field = true))
  | _ => False

/-- A line of one byte, which is not added. -/
def Skipped (size : ℕ) (line : CString) : Prop := min line.length size ≤ 1

instance (size : ℕ) (line : CString) : Decidable (Skipped size line) :=
  inferInstanceAs (Decidable (min line.length size ≤ 1))

def Fills (memory : Memory) (size : ℕ) (line : CString) (file : RdpFile) : Prop :=
  ¬ Skipped size line ∧ Appends memory file ∧ FillsContent memory (contentOf line)

namespace RdpFile

theorem Sound.safe_parseInteger_iff (h : file.Sound) (hpos : 0 < file.lineCount) :
    (file.parseInteger memory name value i).Safe Access.Consistent ↔
      ((∃ n, strtol value = some n ∧ 0 ≤ n ∧ n ≤ INT32_MAX) → file.lineCount = i + 1) := by
  unfold parseInteger
  cases hn : (strtol value).filter fun ivalue => INT32_MIN ≤ ivalue ∧ ivalue ≤ INT32_MAX with
  | none =>
    refine iff_of_true ((safe_pure _).mpr trivial) ?_
    rintro ⟨n, hstrtol, hzero, hmax⟩
    rw [hstrtol, Option.filter_some, if_pos] at hn
    · exact absurd hn (Option.some_ne_none n)
    · have hmin : INT32_MIN ≤ n := Int.le_trans (by decide) hzero
      exact decide_eq_true ⟨hmin, hmax⟩
  | some n =>
    obtain ⟨hstrtol, hbounds⟩ := Option.filter_eq_some_iff.mp hn
    have hmax := (of_decide_eq_true hbounds).2
    dsimp only
    rw [safe_bind, h.safe_setInteger_iff hpos]
    constructor
    · rintro ⟨hsafe, -⟩ ⟨m, hm, hzero, -⟩
      have heq : n = m := Option.some.inj (hstrtol.symm.trans hm)
      exact hsafe (heq ▸ hzero)
    · intro hlast
      exact ⟨fun hzero => hlast ⟨n, hstrtol, hzero, hmax⟩, (safe_pure _).mpr trivial⟩

theorem sameTable_parseInteger : SameTable file (file.parseInteger memory name value index).value.2 := by
  unfold parseInteger
  cases (strtol value).filter fun ivalue => INT32_MIN ≤ ivalue ∧ ivalue ≤ INT32_MAX with
  | none => exact SameTable.rfl
  | some n => exact sameTable_setInteger n

theorem Sound.safe_parseString_iff (h : file.Sound) (hpos : 0 < file.lineCount) :
    (file.parseString memory name value i).Safe Access.Consistent ↔
      (memory.copy = true ∧ (isStandard stringNames name = true → memory.field = true) →
        file.lineCount = i + 1) := by
  unfold parseString
  by_cases hcopy : memory.copy = true
  · rw [if_pos hcopy, safe_bind, h.safe_setString_iff hpos]
    exact ⟨fun hsafe hfield => hsafe.1 hfield.2, fun hlast =>
      ⟨fun hfield => hlast ⟨hcopy, hfield⟩, (safe_pure _).mpr trivial⟩⟩
  · rw [if_neg hcopy]
    exact iff_of_true ((safe_pure _).mpr trivial) fun hyes => absurd hyes.1 hcopy

theorem sameTable_parseString : SameTable file (file.parseString memory name value index).value.2 := by
  unfold parseString
  split_ifs
  · exact sameTable_setString
  · exact SameTable.rfl

/-- What is done with the content of a line that has been added. -/
theorem Sound.parseLine_spec (h : file.Sound) (memory : Memory) (size i : ℕ) (line : CString) :
    ((file.parseLine memory size i line).Safe Access.Consistent ↔
      (Fills memory size line file → file.lineCount = i)) ∧
    (file.parseLine memory size i line).value.2.Sound ∧
    ((file.parseLine memory size i line).value.1 = true →
      (file.parseLine memory size i line).value.2.lineCount =
        file.lineCount + if Skipped size line then 0 else 1) := by
  unfold parseLine
  by_cases hskipped : Skipped size line
  · have hshort : ¬ min line.length size > 1 := Nat.not_lt.mpr hskipped
    rw [if_neg hshort, if_pos hskipped]
    exact ⟨iff_of_true ((safe_pure _).mpr trivial) fun hfills => absurd hskipped hfills.1, h,
      fun _ => rfl⟩
  have hlong : min line.length size > 1 := Nat.lt_of_not_le hskipped
  obtain ⟨hadd, hsound, hyes, hno⟩ := h.addLine_spec memory line i
  rw [if_pos hlong, if_neg hskipped, safe_bind, value_bind, and_iff_right hadd]
  generalize (file.addLine memory line i).value = added at hsound hyes hno ⊢
  obtain ⟨index, file'⟩ := added
  dsimp only at hsound hyes hno ⊢
  by_cases happ : Appends memory file
  · obtain ⟨hindex, hcount⟩ := hyes happ
    have hi : index = i := by
      rw [hindex, indexOf, if_neg (by omega)]
    have hpos : 0 < file'.lineCount := by omega
    have hne : ¬ index = -1 := by omega
    have hlast : file'.lineCount = i + 1 ↔ file.lineCount = i := by omega
    rw [if_neg hne]
    have hfills : Fills memory size line file ↔ FillsContent memory (contentOf line) :=
      ⟨fun hf => hf.2.2, fun hf => ⟨hskipped, happ, hf⟩⟩
    rw [hfills]
    cases contentOf line with
    | argument => exact ⟨iff_of_true ((safe_pure _).mpr trivial) fun hf => False.elim hf, hsound,
        fun _ => hcount⟩
    | other => exact ⟨iff_of_true ((safe_pure _).mpr trivial) fun hf => False.elim hf, hsound,
        fun _ => hcount⟩
    | field name type value =>
      unfold FillsContent
      dsimp only
      by_cases hinteger : type = 105
      · have htable : SameTable file' (file'.parseInteger memory name value i).value.2 :=
          sameTable_parseInteger
        have hcontent : (type = 105 ∧ ∃ n, strtol value = some n ∧ 0 ≤ n ∧ n ≤ INT32_MAX) ∨
            (type = 115 ∧ memory.copy = true ∧
              (isStandard stringNames name = true → memory.field = true)) ↔
            ∃ n, strtol value = some n ∧ 0 ≤ n ∧ n ≤ INT32_MAX := by
          rw [hinteger]
          simp
        rw [if_pos hinteger, hcontent, hsound.safe_parseInteger_iff hpos, hlast]
        exact ⟨Iff.rfl, htable.sound hsound, fun _ => htable.lineCount.trans hcount⟩
      rw [if_neg hinteger]
      by_cases hstring : type = 115
      · have htable : SameTable file' (file'.parseString memory name value i).value.2 :=
          sameTable_parseString
        have hcontent : (type = 105 ∧ ∃ n, strtol value = some n ∧ 0 ≤ n ∧ n ≤ INT32_MAX) ∨
            (type = 115 ∧ memory.copy = true ∧
              (isStandard stringNames name = true → memory.field = true)) ↔
            memory.copy = true ∧ (isStandard stringNames name = true → memory.field = true) := by
          rw [hstring]
          simp
        rw [if_pos hstring, hcontent, hsound.safe_parseString_iff hpos, hlast]
        exact ⟨Iff.rfl, htable.sound hsound, fun _ => htable.lineCount.trans hcount⟩
      rw [if_neg hstring]
      refine ⟨iff_of_true ((safe_pure _).mpr trivial) ?_, hsound, fun _ => hcount⟩
      rintro (⟨htype, -⟩ | ⟨htype, -⟩)
      · exact absurd htype hinteger
      · exact absurd htype hstring
  · rw [if_pos (hno happ)]
    exact ⟨iff_of_true ((safe_pure _).mpr trivial) fun hfills => absurd hfills.2.1 happ, hsound,
      fun hgoes => absurd hgoes Bool.false_ne_true⟩

/-! ### Texts -/

/-- The loop comes to the `k`-th of the lines, and the file is then `file'`. -/
def Comes (mem : ℕ → Memory) (size i : ℕ) (lines : List CString) (k : ℕ) (file file' : RdpFile) : Prop :=
  (file.parseLines mem size i (lines.take k)).value = (true, file')

theorem comes_succ {lines : List CString} :
    Comes mem size i (line :: lines) (k + 1) file file' ↔
      (file.parseLine (mem i) size i line).value.1 = true ∧
        Comes mem size (i + 1) lines k (file.parseLine (mem i) size i line).value.2 file' := by
  unfold Comes
  rw [List.take_succ_cons, parseLines, value_bind]
  generalize (file.parseLine (mem i) size i line).value = parsed
  obtain ⟨goesOn, file₁⟩ := parsed
  dsimp only
  cases goesOn with
  | true => rw [if_pos rfl, and_iff_right rfl]
  | false =>
    rw [if_neg Bool.false_ne_true, value_pure]
    refine iff_of_false (fun h => ?_) fun h => Bool.false_ne_true h.1
    exact Bool.false_ne_true (congrArg Prod.fst h)

theorem Sound.sound_parseLines (h : file.Sound) (lines : List CString) :
    (file.parseLines mem size i lines).value.2.Sound := by
  induction lines generalizing file i with
  | nil => exact h
  | cons line lines ih =>
    obtain ⟨-, hsound, -⟩ := h.parseLine_spec (mem i) size i line
    rw [parseLines, value_bind]
    generalize (file.parseLine (mem i) size i line).value = parsed at hsound ⊢
    obtain ⟨goesOn, file₁⟩ := parsed
    cases goesOn with
    | true => exact ih hsound
    | false => exact hsound

/-- The loop is consistent if and only if each line that it fills in has the number of the last line of the
table, which counts the lines that have not been skipped. -/
theorem Sound.safe_parseLines_iff (h : file.Sound) (lines : List CString) :
    (file.parseLines mem size i lines).Safe Access.Consistent ↔
      ∀ k line file', lines[k]? = some line → Comes mem size i lines k file file' →
        Fills (mem (i + k)) size line file' →
          file.lineCount + (lines.take k).countP (¬ Skipped size ·) = i + k := by
  induction lines generalizing file i with
  | nil =>
    refine iff_of_true ((safe_pure _).mpr trivial) ?_
    intro k line file' hline
    exact absurd hline (Option.some_ne_none line).symm
  | cons line lines ih =>
    obtain ⟨hsafe, hsound, hcount⟩ := h.parseLine_spec (mem i) size i line
    have hrest : (file.parseLines mem size i (line :: lines)).Safe Access.Consistent ↔
        (file.parseLine (mem i) size i line).Safe Access.Consistent ∧
          ((file.parseLine (mem i) size i line).value.1 = true →
            ((file.parseLine (mem i) size i line).value.2.parseLines mem size (i + 1) lines).Safe
              Access.Consistent) := by
      rw [parseLines, safe_bind]
      generalize (file.parseLine (mem i) size i line).value = parsed
      obtain ⟨goesOn, file₁⟩ := parsed
      dsimp only
      rw [safe_ite]
      exact and_congr_right fun _ => and_iff_left fun _ => (safe_pure _).mpr trivial
    rw [hrest, hsafe]
    constructor
    · rintro ⟨hfirst, hlater⟩ k line' file' hline hcomes hfills
      cases k with
      | zero =>
        obtain rfl := Option.some.inj hline
        have hfile : file' = file := (congrArg Prod.snd hcomes).symm
        rw [hfile] at hfills
        rw [List.take_zero, List.countP_nil]
        exact hfirst hfills
      | succ k =>
        obtain ⟨hgoes, hcomes⟩ := comes_succ.mp hcomes
        have hk := (ih hsound).mp (hlater hgoes) k line' file' hline hcomes
          (by rwa [Nat.add_right_comm, Nat.add_assoc])
        rw [hcount hgoes] at hk
        rw [List.take_succ_cons, List.countP_cons]
        simp only [decide_not, Bool.not_eq_true', decide_eq_false_iff_not] at hk ⊢
        split_ifs at hk ⊢ <;> omega
    · intro hall
      refine ⟨fun hfills => ?_, fun hgoes => (ih hsound).mpr ?_⟩
      · have hzero := hall 0 line file rfl rfl hfills
        rwa [List.take_zero, List.countP_nil, Nat.add_zero, Nat.add_zero] at hzero
      · intro k line' file' hline hcomes hfills
        have hk := hall (k + 1) line' file' hline (comes_succ.mpr ⟨hgoes, hcomes⟩)
          (by rwa [Nat.add_right_comm, Nat.add_assoc] at hfills)
        rw [hcount hgoes]
        rw [List.take_succ_cons, List.countP_cons] at hk
        simp only [decide_not, Bool.not_eq_true', decide_eq_false_iff_not] at hk ⊢
        split_ifs at hk ⊢ <;> omega

end RdpFile

/-- In the lines of a text, as many have been skipped in front of one that is filled in as there were in
the table before. -/
def Aligned (mem : ℕ → Memory) (size : ℕ) (lines : List CString) (file : RdpFile) : Prop :=
  ∀ k line file', lines[k]? = some line → RdpFile.Comes mem size 0 lines k file file' →
    Fills (mem k) size line file' → file.lineCount = (lines.take k).countP (Skipped size ·)

namespace RdpFile

theorem Sound.safe_iff_aligned (h : file.Sound) (lines : List CString) :
    (file.parseLines mem size 0 lines).Safe Access.Consistent ↔ Aligned mem size lines file := by
  rw [h.safe_parseLines_iff]
  refine forall₃_congr fun k line file' => forall_congr' fun hline => forall_congr' fun _ => ?_
  rw [Nat.zero_add]
  refine forall_congr' fun _ => ?_
  -- the lines in front are those that have been skipped and those that have not
  have hlength : (lines.take k).length = k := by
    rw [List.length_take, Nat.min_eq_left]
    exact Nat.le_of_lt (List.getElem?_eq_some_iff.mp hline).1
  have hsplit := List.length_eq_countP_add_countP (l := lines.take k)
    (fun l => decide (Skipped size l))
  simp only [decide_not, Bool.not_eq_true, Bool.decide_eq_false] at hsplit ⊢
  omega

end RdpFile

/-! ### Options -/

section Setters

variable {name text : CString} {change : RdpFileLine → ℤ × RdpFileLine} {failed : ℤ → Bool}
  {fill : ℤ → RdpFile → Traced Access (ℤ × RdpFile)}

/-- An option is set in a line that has just been added. -/
theorem setOption_spec (h : file.Sound) (memory : Memory) (hfailed : failed (-1) = true)
    (hpassed : ∀ n : ℕ, failed n = false)
    (hfill : ∀ file' : RdpFile, file'.Sound → file'.lineCount = file.lineCount + 1 →
      (fill (file.lineCount : ℕ) file').Safe Access.Consistent ∧
        (fill (file.lineCount : ℕ) file').value.2.Sound) :
    (setOption memory name text change failed fill file).Safe Access.Consistent ∧
      (setOption memory name text change failed fill file).value.2.Sound := by
  unfold setOption
  by_cases hfail : INT_MAX < text.length ∨ ¬ memory.copy = true
  · rw [if_pos hfail]
    exact ⟨(safe_pure _).mpr trivial, h⟩
  rw [if_neg hfail]
  cases findLineByName name file with
  | some i => exact ⟨(safe_pure _).mpr trivial, (RdpFile.SameTable.setLine _).sound h⟩
  | none =>
    dsimp only
    obtain ⟨hadd, hsound, hyes, hno⟩ := h.addLine_spec memory text (-1)
    rw [safe_bind, value_bind, and_iff_right hadd]
    generalize (file.addLine memory text (-1)).value = added at hsound hyes hno ⊢
    obtain ⟨index, file'⟩ := added
    dsimp only at hsound hyes hno ⊢
    by_cases happ : Appends memory file
    · obtain ⟨hindex, hcount⟩ := hyes happ
      have hi : index = (file.lineCount : ℕ) := by rw [hindex, RdpFile.indexOf, if_pos (by decide)]
      rw [hi, hpassed, if_neg Bool.false_ne_true]
      exact hfill file' hsound hcount
    · rw [hno happ, hfailed, if_pos rfl]
      exact ⟨(safe_pure _).mpr trivial, hsound⟩

end Setters

theorem setStringOption_spec (h : file.Sound) (memory : Memory) (name value : CString) :
    (setStringOption memory name value file).Safe Access.Consistent ∧
      (setStringOption memory name value file).value.2.Sound := by
  refine setOption_spec h memory rfl (fun n => decide_eq_false (by omega)) fun file' hsound hcount => ?_
  rw [safe_bind, value_bind, hsound.safe_setString_iff (by omega)]
  exact ⟨⟨fun _ => hcount, (safe_pure _).mpr trivial⟩, RdpFile.sameTable_setString.sound hsound⟩

theorem setIntegerOption_spec (h : file.Sound) (memory : Memory) (name : CString) (n : ℤ) :
    (setIntegerOption memory name n file).Safe Access.Consistent ∧
      (setIntegerOption memory name n file).value.2.Sound := by
  refine setOption_spec h memory rfl (fun n => decide_eq_false (by omega)) fun file' hsound hcount => ?_
  rw [safe_bind, value_bind, hsound.safe_setInteger_iff (by omega)]
  exact ⟨⟨fun _ => hcount, (safe_pure _).mpr trivial⟩, (RdpFile.sameTable_setInteger n).sound hsound⟩

/-! ### Runs -/

/-- A text is aligned with the table; a UTF-16 buffer has one. -/
def TextAligned (mem : ℕ → Memory) (file : RdpFile) : Converted × ℕ → Prop
  | (.failed, _) => True
  | (.nothing, _) => False
  | (.text text, size) => Aligned mem size (linesOf text) file

/-- The text of a call is aligned with the table. -/
def Call.Aligned (convert : List UInt8 → Converted) (file : RdpFile) : Call → Prop
  | parse copy mem buffer => TextAligned mem file (textOf convert copy buffer)
  | _ => True

variable {convert : List UInt8 → Converted}

/-- A call keeps the table sound, and is consistent if and only if its text is aligned with the table. -/
theorem RdpFile.Sound.call (h : file.Sound) (call : Call) :
    ((call.run convert file).Safe Access.Consistent ↔ call.Aligned convert file) ∧
      (call.run convert file).value.Sound := by
  cases call with
  | parse copy mem buffer =>
    unfold Call.run Call.Aligned parseRdpFileBuffer
    dsimp only
    rw [safe_bind, value_bind]
    generalize textOf convert copy buffer = t
    obtain ⟨converted, size⟩ := t
    cases converted with
    | failed => exact ⟨iff_of_true ⟨(safe_pure _).mpr trivial, (safe_pure _).mpr trivial⟩ trivial, h⟩
    | nothing =>
      dsimp only
      rw [safe_bind, safe_access]
      exact ⟨iff_of_false (fun hsafe => hsafe.1.1) id, h⟩
    | text text =>
      dsimp only
      rw [h.safe_iff_aligned]
      exact ⟨and_iff_left ((safe_pure _).mpr trivial), h.sound_parseLines _⟩
  | setString memory name value =>
    obtain ⟨hsafe, hsound⟩ :=
      setStringOption_spec h memory name value
    exact ⟨iff_of_true ((safe_bind ..).mpr ⟨hsafe, (safe_pure _).mpr trivial⟩) trivial, hsound⟩
  | setInteger memory name n =>
    obtain ⟨hsafe, hsound⟩ := setIntegerOption_spec h memory name n
    exact ⟨iff_of_true ((safe_bind ..).mpr ⟨hsafe, (safe_pure _).mpr trivial⟩) trivial, hsound⟩

theorem sound_rdpFileNew : rdpFileNew.Sound := ⟨Nat.zero_le 32, (by decide : 0 < 32), rfl⟩

def Step (convert : List UInt8 → Converted) (file : RdpFile) (call : Call) (file' : RdpFile) : Prop :=
  (call.run convert file).value = file'

/-- In a run from a fresh file all calls access the table inside, and fill in the line that they have just
added, if and only if the text of each of them is aligned with the table that it finds. -/
theorem calls_consistent_iff (convert : List UInt8 → Converted) (calls : List Call) :
    (∀ (calls' : List Call) (call : Call) (file : RdpFile), calls' ++ [call] <+: calls →
      Runs (Step convert) rdpFileNew calls' file →
        (call.run convert file).Safe Access.Consistent) ↔
      ∀ (calls' : List Call) (call : Call) (file : RdpFile), calls' ++ [call] <+: calls →
        Runs (Step convert) rdpFileNew calls' file → call.Aligned convert file := by
  have hsound : ∀ {calls' : List Call} {file : RdpFile}, Runs (Step convert) rdpFileNew calls' file →
      file.Sound := by
    intro calls' file hrun
    refine hrun.invariant sound_rdpFileNew ?_
    rintro t call u ht rfl
    exact (ht.call call).2
  constructor
  · intro hall calls' call file hprefix hrun
    exact ((hsound hrun).call call).1.mp (hall calls' call file hprefix hrun)
  · intro hall calls' call file hprefix hrun
    exact ((hsound hrun).call call).1.mpr (hall calls' call file hprefix hrun)

def Access.InTable : Access → Prop
  | .line i size => i < size
  | _ => True

/-- The line that is filled in is the last one. -/
def Access.FillsLast : Access → Prop
  | .fill i last => i = last
  | _ => True

/-- Behind 32 lines of one byte a line is filled in that is not in the table of a fresh file. -/
def longText : List UInt8 := (List.replicate 32 [97, 10]).flatten ++ cString "b:i:1"

/-- The long text leaves the table, and a second text fills in the line of the first one. -/
theorem parse_not_consistent :
    ¬ (parseRdpFileBuffer (fun _ => .nothing) true (fun _ => .plenty) longText rdpFileNew).Safe
      Access.InTable ∧
    ¬ (parseRdpFileBuffer (fun _ => .nothing) true (fun _ => .plenty) (cString "bb:i:1")
      (parseRdpFileBuffer (fun _ => .nothing) true (fun _ => .plenty) (cString "aa:i:1")
        rdpFileNew).value.2).Safe Access.FillsLast := by
  constructor
  · intro hsafe
    have hmem : Access.line 32 32 ∈ (parseRdpFileBuffer (fun _ => .nothing) true (fun _ => .plenty)
        longText rdpFileNew).trace := by decide +kernel
    exact Nat.lt_irrefl 32 (hsafe _ hmem)
  · intro hsafe
    have hmem : Access.fill 0 1 ∈ (parseRdpFileBuffer (fun _ => .nothing) true (fun _ => .plenty)
        (cString "bb:i:1") (parseRdpFileBuffer (fun _ => .nothing) true (fun _ => .plenty)
          (cString "aa:i:1") rdpFileNew).value.2).trace := by decide +kernel
    exact Nat.zero_ne_one (hsafe _ hmem)

end FreeRDP.Client
