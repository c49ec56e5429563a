import FreeRDP.Client.Equiv.LineTable
import Mathlib.Data.List.Find

/-!
# The options of a `.rdp` file as a map

A call that sets an option changes the line that has its name, or adds one.  A line that is there keeps its
type flag, which is that of the setter that has added it, and the getter of the other type does not look at
the value.  A negative number for a name that has no line is written into the text of the new line only, and
the getter of numbers returns -1 then.

1. The line of a name behind a change of a line, and behind a new one (`findLineByName_setLine`,
   `findLineByName_append`).
2. A call leaves the options of other names alone (`OptionCall.unaffected`), and its value is read back if
   and only if it fits (`OptionCall.reads_iff`).
3. `options_map_iff`: in a run all values are read back if and only if all calls fit.
-/

namespace FreeRDP.Client

open Traced

/-! ### Calls -/

inductive OptionValue where
  | string (value : CString)
  | integer (n : ℤ)
  deriving DecidableEq, Repr

inductive OptionCall where
  | setString (memory : Memory) (name value : CString)
  | setInteger (memory : Memory) (name : CString) (n : ℤ)

namespace OptionCall

def name : OptionCall → CString
  | setString _ name _ => name
  | setInteger _ name _ => name

def value : OptionCall → OptionValue
  | setString _ _ value => .string value
  | setInteger _ _ n => .integer n

def run (file : RdpFile) : OptionCall → Traced Access (ℤ × RdpFile)
  | setString memory name value => setStringOption memory name value file
  | setInteger memory name n => setIntegerOption memory name n file

/-- A number is an `int`. -/
def IsInt : OptionCall → Prop
  | setString _ _ _ => True
  | setInteger _ _ n => -2 ^ 31 ≤ n ∧ n < 2 ^ 31

/-- A string is for a name whose line is one of a string, if there is one.  A number is -1, or for a name
whose line is one of a number, or not negative and for a name without a line, which gets a name. -/
def Fits (file : RdpFile) : OptionCall → Prop
  | setString _ name _ => ∀ i, findLineByName name file = some i → (file.lines i).typeString = true
  | setInteger memory name n =>
    n = -1 ∨ (∃ i, findLineByName name file = some i ∧ (file.lines i).typeInteger = true) ∨
      findLineByName name file = none ∧ 0 ≤ n ∧ memory.name = true

end OptionCall

def Succeeds (file : RdpFile) (call : OptionCall) (file' : RdpFile) : Prop :=
  call.IsInt ∧ (call.run file).value = (0, file')

variable {memory : Memory} {file file' : RdpFile} {name name' value : CString} {line : RdpFileLine}
  {n : ℤ} {i : ℕ}

/-! ### Names -/

theorem sameName_iff : sameName name name' = true ↔ name.map toLower = name'.map toLower := by
  rw [sameName, beq_iff_eq]

theorem sameName_congr {other : CString} (h : sameName name name' = true) :
    sameName name other = sameName name' other := by
  unfold sameName
  rw [sameName_iff.mp h]

theorem findLineByName_congr (h : sameName name name' = true) :
    findLineByName name file = findLineByName name' file := by
  have hsame : sameName name = sameName name' := funext fun _ => sameName_congr h
  unfold findLineByName
  rw [hsame]

/-! ### Lines -/

def IsLineOf (name : CString) (line : RdpFileLine) : Bool :=
  line.formatted && line.name.any (sameName name)

theorem findLineByName_eq (name : CString) (file : RdpFile) :
    findLineByName name file =
      (List.range file.lineCount).find? fun i => IsLineOf name (file.lines i) := rfl

theorem lt_of_findLineByName (h : findLineByName name file = some i) : i < file.lineCount :=
  List.mem_range.mp (List.mem_of_find?_eq_some h)

theorem isLineOf_of_findLineByName (h : findLineByName name file = some i) :
    IsLineOf name (file.lines i) = true := by
  rw [findLineByName_eq] at h
  exact List.find?_some (p := fun i => IsLineOf name (file.lines i)) h

theorem sameName_of_isLineOf (h : IsLineOf name line = true) (h' : IsLineOf name' line = true) :
    sameName name' name = true := by
  unfold IsLineOf at h h'
  rw [Bool.and_eq_true, Option.any_eq_true] at h h'
  obtain ⟨-, m, hm, hsame⟩ := h
  obtain ⟨-, m', hm', hsame'⟩ := h'
  obtain rfl : m = m' := Option.some.inj (hm.symm.trans hm')
  rw [sameName_iff] at hsame hsame' ⊢
  rw [hsame', hsame]

theorem findLineByName_setLine (hformatted : line.formatted = (file.lines i).formatted)
    (hname : line.name = (file.lines i).name) :
    findLineByName name (file.setLine i line) = findLineByName name file := by
  rw [findLineByName_eq, findLineByName_eq]
  congr 1
  funext j
  show IsLineOf name (Function.update file.lines i line j) = _
  by_cases hj : j = i
  · rw [hj, Function.update_self, IsLineOf, hformatted, hname]
    rfl
  · rw [Function.update_of_ne hj]

structure Appended (file file' : RdpFile) : Prop where
  lineCount : file'.lineCount = file.lineCount + 1
  lines : ∀ j < file.lineCount, file'.lines j = file.lines j

theorem findLineByName_append (h : Appended file file') :
    findLineByName name file' = (findLineByName name file).or
      (if IsLineOf name (file'.lines file.lineCount) then some file.lineCount else none) := by
  have hcongr : ((List.range file.lineCount).find? fun i => IsLineOf name (file'.lines i)) =
      (List.range file.lineCount).find? fun i => IsLineOf name (file.lines i) :=
    List.find?_congr fun j hj => by rw [h.lines j (List.mem_range.mp hj)]
  rw [findLineByName_eq, findLineByName_eq, h.lineCount, List.range_succ, List.find?_append, hcongr]
  congr 1
  rw [List.find?_singleton]

/-! ### Options -/

/-- The getter of its type returns the value. -/
def Reads (file : RdpFile) (name : CString) : OptionValue → Prop
  | .string value => getStringOption name file = some value
  | .integer n => getIntegerOption name file = n

/-- Both getters return for the name what they have returned before. -/
def Unaffected (file file' : RdpFile) (name : CString) : Prop :=
  getStringOption name file' = getStringOption name file ∧
    getIntegerOption name file' = getIntegerOption name file

theorem getStringOption_of_find (h : findLineByName name file = some i) :
    getStringOption name file =
      if (file.lines i).typeString then (file.lines i).sValue else none := by
  rw [getStringOption, h]
  rfl

theorem getIntegerOption_of_find (h : findLineByName name file = some i) :
    getIntegerOption name file =
      if (file.lines i).typeInteger then (file.lines i).iValue.bmod (2 ^ 32) else -1 := by
  rw [getIntegerOption, h]

theorem getStringOption_of_none (h : findLineByName name file = none) :
    getStringOption name file = none := by
  rw [getStringOption, h]
  rfl

theorem getIntegerOption_of_none (h : findLineByName name file = none) :
    getIntegerOption name file = -1 := by
  rw [getIntegerOption, h]

/-- The line of a name, and so its option, is as before. -/
theorem unaffected_of_find (hfind : findLineByName name file' = findLineByName name file)
    (hlines : ∀ j, findLineByName name file = some j → file'.lines j = file.lines j) :
    Unaffected file file' name := by
  unfold Unaffected
  cases hj : findLineByName name file with
  | none =>
    rw [hj] at hfind
    rw [getStringOption_of_none hfind, getStringOption_of_none hj, getIntegerOption_of_none hfind,
      getIntegerOption_of_none hj]
    exact ⟨rfl, rfl⟩
  | some j =>
    rw [hj] at hfind
    rw [getStringOption_of_find hfind, getStringOption_of_find hj, getIntegerOption_of_find hfind,
      getIntegerOption_of_find hj, hlines j hj]
    exact ⟨rfl, rfl⟩

/-- The value of a line is changed: the options of other names are as before. -/
theorem unaffected_setLine (hfind : findLineByName name file = some i)
    (hformatted : line.formatted = (file.lines i).formatted) (hname : line.name = (file.lines i).name)
    (hother : ¬ sameName name' name = true) : Unaffected file (file.setLine i line) name' := by
  refine unaffected_of_find (findLineByName_setLine hformatted hname) fun j hj => ?_
  have hne : j ≠ i := by
    rintro rfl
    exact hother (sameName_of_isLineOf (isLineOf_of_findLineByName hfind)
      (isLineOf_of_findLineByName hj))
  exact Function.update_of_ne hne _ _

/-- A line is added that is not one of the name. -/
theorem unaffected_append (h : Appended file file')
    (hother : IsLineOf name (file'.lines file.lineCount) = false) : Unaffected file file' name := by
  refine unaffected_of_find ?_ fun j hj => h.lines j (lt_of_findLineByName hj)
  rw [findLineByName_append h, hother, if_neg Bool.false_ne_true, Option.or_none]

/-! ### What a call does -/

theorem appended_addLine (h : file.Sound) {text : CString} {r : ℤ}
    (hvalue : (file.addLine memory text (-1)).value = (r, file')) (hr : r ≠ -1) :
    Appended file file' ∧ r = file.lineCount ∧ (file'.lines file.lineCount).formatted = false := by
  have hle := h.lineCount_le
  unfold RdpFile.addLine at hvalue
  dsimp only at hvalue
  cases hgrow : file.growLines memory (file.lineCount + 1) with
  | none =>
    rw [hgrow] at hvalue
    exact absurd (congrArg Prod.fst hvalue).symm hr
  | some grown =>
    obtain ⟨hgrown, -⟩ := RdpFile.growLines_spec h.lineSize_pos (by omega) hgrow
    have hcount : grown.lineCount = file.lineCount := by rw [hgrown]
    have hlines : grown.lines = file.lines := by rw [hgrown]
    rw [hgrow] at hvalue
    dsimp only at hvalue
    rw [value_bind] at hvalue
    by_cases htext : memory.text = true
    · rw [if_pos htext, value_pure, if_pos (by decide), Prod.mk.injEq] at hvalue
      obtain ⟨hindex, rfl⟩ := hvalue
      refine ⟨⟨congrArg (· + 1) hcount, fun j hj => ?_⟩, hindex.symm, ?_⟩
      · show Function.update grown.lines grown.lineCount _ j = _
        rw [Function.update_of_ne (by omega), hlines]
      · show (Function.update grown.lines grown.lineCount _ file.lineCount).formatted = _
        rw [hcount, Function.update_self]
        rfl
    · rw [if_neg htext] at hvalue
      exact absurd (congrArg Prod.fst hvalue).symm hr

/-- The value of a line is changed, and not what it is a line of. -/
structure SameKind (line line' : RdpFileLine) : Prop where
  formatted : line'.formatted = line.formatted
  name : line'.name = line.name
  typeString : line'.typeString = line.typeString
  typeInteger : line'.typeInteger = line.typeInteger

def filledString (name value : CString) (line : RdpFileLine) : RdpFileLine :=
  { line with
    name := some name
    sValue := some value
    formatted := true
    standard := isStandard stringNames name
    typeString := true
    typeInteger := false }

def filledInteger (name : CString) (n : ℤ) (line : RdpFileLine) : RdpFileLine :=
  { line with
    name := some name
    iValue := n
    formatted := true
    standard := isStandard integerNames name
    typeString := false
    typeInteger := true }

theorem setString_filled (hr : (file.setString memory name value i).value.1 ≠ -1) :
    (file.setString memory name value i).value.2 =
      file.setLine i (filledString name value (file.lines i)) := by
  unfold RdpFile.setString at hr ⊢
  dsimp only at hr ⊢
  by_cases hfield : isStandard stringNames name = true ∧ ¬ memory.field = true
  · rw [if_pos hfield] at hr
    exact absurd rfl hr
  rw [if_neg hfield, if_neg (by omega), value_bind] at hr ⊢
  by_cases hmemory : memory.name = true ∧ memory.sValue = true
  · rw [if_pos hmemory]
    rfl
  · rw [if_neg hmemory] at hr
    exact absurd rfl hr

theorem setInteger_filled (hn : 0 ≤ n) (hmemory : memory.name = true) :
    (file.setInteger memory name n i).value.2 =
      file.setLine i (filledInteger name n (file.lines i)) := by
  unfold RdpFile.setInteger
  dsimp only
  rw [if_neg (by omega), if_neg (by omega), value_bind, if_pos hmemory]
  rfl

/-- A negative number is not filled in, and a name that cannot be copied neither. -/
theorem setInteger_not_filled (file : RdpFile) (name : CString) (i : ℕ)
    (hnot : ¬ (0 ≤ n ∧ memory.name = true)) :
    (file.setInteger memory name n i).value.2 = file ∨
      (file.setInteger memory name n i).value.2 =
        file.setLine i { file.lines i with name := none } := by
  unfold RdpFile.setInteger
  dsimp only
  by_cases hneg : n < 0
  · rw [if_pos hneg]
    exact Or.inl rfl
  · have hmemory : ¬ memory.name = true := fun hyes => hnot ⟨by omega, hyes⟩
    rw [if_neg hneg, if_neg (by omega), value_bind, if_neg hmemory]
    exact Or.inr rfl

theorem Appended.setLine (h : Appended file file') (line : RdpFileLine) :
    Appended file (file'.setLine file.lineCount line) := by
  refine ⟨h.lineCount, fun j hj => ?_⟩
  show Function.update file'.lines file.lineCount line j = _
  rw [Function.update_of_ne (by omega), h.lines j hj]

theorem lines_setLine (file : RdpFile) (i : ℕ) (line : RdpFileLine) :
    (file.setLine i line).lines i = line := by
  show Function.update file.lines i line i = line
  exact Function.update_self _ _ _

/-- A call that succeeds changes the line of the name, or fills in a new one. -/
theorem setOption_cases {text : CString} {change : RdpFileLine → ℤ × RdpFileLine} {failed : ℤ → Bool}
    {fill : ℤ → RdpFile → Traced Access (ℤ × RdpFile)} (h : file.Sound) (hfailed : failed (-1) = true)
    (hvalue : (setOption memory name text change failed fill file).value = (0, file')) :
    (∃ i line, findLineByName name file = some i ∧ change (file.lines i) = (0, line) ∧
      file' = file.setLine i line) ∨
    (findLineByName name file = none ∧ ∃ file₁, Appended file file₁ ∧
      (file₁.lines file.lineCount).formatted = false ∧
      (fill (file.lineCount : ℕ) file₁).value = (0, file')) := by
  have hnot : ∀ {f : RdpFile}, (-1, f) = ((0 : ℤ), file') → False := fun heq =>
    absurd (congrArg Prod.fst heq) (by decide : (-1 : ℤ) ≠ 0)
  unfold setOption at hvalue
  by_cases hfail : INT_MAX < text.length ∨ ¬ memory.copy = true
  · rw [if_pos hfail] at hvalue
    exact (hnot hvalue).elim
  rw [if_neg hfail] at hvalue
  cases hfind : findLineByName name file with
  | some i =>
    rw [hfind] at hvalue
    obtain ⟨hresult, hfile⟩ := Prod.mk.inj hvalue
    exact Or.inl ⟨i, _, rfl, Prod.ext hresult rfl, hfile.symm⟩
  | none =>
    rw [hfind] at hvalue
    dsimp only at hvalue
    rw [value_bind] at hvalue
    cases hadd : (file.addLine memory text (-1)).value with
    | mk r file₁ =>
      rw [hadd] at hvalue
      dsimp only at hvalue
      by_cases hr : failed r = true
      · rw [if_pos hr] at hvalue
        exact (hnot hvalue).elim
      obtain ⟨happ, rfl, hformatted⟩ := appended_addLine h hadd fun heq => hr (heq ▸ hfailed)
      rw [if_neg hr] at hvalue
      exact Or.inr ⟨rfl, file₁, happ, hformatted, hvalue⟩

/-- A string is set in the line of the name, or in a new one. -/
theorem setStringOption_cases (h : file.Sound)
    (hvalue : (setStringOption memory name value file).value = (0, file')) :
    (∃ i line, findLineByName name file = some i ∧ file' = file.setLine i line ∧
      SameKind (file.lines i) line ∧ line.sValue = some value) ∨
    (findLineByName name file = none ∧ Appended file file' ∧
      ∃ line, file'.lines file.lineCount = filledString name value line) := by
  rcases setOption_cases h rfl hvalue with
    ⟨i, line, hfind, hchange, hfile⟩ | ⟨hfind, file₁, happ, -, hfill⟩
  · refine Or.inl ⟨i, line, hfind, hfile, ?_⟩
    split_ifs at hchange
    · obtain rfl := (Prod.mk.inj hchange).2
      exact ⟨⟨rfl, rfl, rfl, rfl⟩, rfl⟩
    · exact absurd (Prod.mk.inj hchange).1 (by decide)
  · rw [value_bind, value_pure, Prod.mk.injEq] at hfill
    obtain ⟨hresult, rfl⟩ := hfill
    have hfilled : (file₁.setString memory name value file.lineCount).value.1 ≠ -1 := by
      intro heq
      rw [if_pos heq] at hresult
      exact absurd hresult (by decide)
    refine Or.inr ⟨hfind, ?_⟩
    rw [setString_filled hfilled]
    exact ⟨happ.setLine _, _, lines_setLine _ _ _⟩

/-- A number is set in the line of the name, or in a new one, or in the text of a new one only. -/
theorem setIntegerOption_cases (h : file.Sound)
    (hvalue : (setIntegerOption memory name n file).value = (0, file')) :
    (∃ i line, findLineByName name file = some i ∧ file' = file.setLine i line ∧
      SameKind (file.lines i) line ∧ line.iValue = n) ∨
    (findLineByName name file = none ∧ Appended file file' ∧
      (0 ≤ n ∧ memory.name = true ∧
          (∃ line, file'.lines file.lineCount = filledInteger name n line) ∨
        ¬ (0 ≤ n ∧ memory.name = true) ∧ (file'.lines file.lineCount).formatted = false)) := by
  rcases setOption_cases h rfl hvalue with
    ⟨i, line, hfind, hchange, hfile⟩ | ⟨hfind, file₁, happ, hformatted, hfill⟩
  · obtain rfl := (Prod.mk.inj hchange).2
    exact Or.inl ⟨i, _, hfind, hfile, ⟨rfl, rfl, rfl, rfl⟩, rfl⟩
  · rw [value_bind, value_pure, Prod.mk.injEq] at hfill
    obtain ⟨-, rfl⟩ := hfill
    refine Or.inr ⟨hfind, ?_⟩
    by_cases hfills : 0 ≤ n ∧ memory.name = true
    · rw [setInteger_filled hfills.1 hfills.2]
      exact ⟨happ.setLine _, Or.inl ⟨hfills.1, hfills.2, _, lines_setLine _ _ _⟩⟩
    · rcases setInteger_not_filled file₁ name file.lineCount hfills with heq | heq
      · rw [heq]
        exact ⟨happ, Or.inr ⟨hfills, hformatted⟩⟩
      · rw [heq]
        refine ⟨happ.setLine _, Or.inr ⟨hfills, ?_⟩⟩
        rw [lines_setLine]
        exact hformatted

/-! ### What is read back -/

theorem isLineOf_filledString :
    IsLineOf name' (filledString name value line) = sameName name' name := rfl

theorem isLineOf_filledInteger :
    IsLineOf name' (filledInteger name n line) = sameName name' name := rfl

theorem isLineOf_of_not_formatted (h : line.formatted = false) : IsLineOf name line = false := by
  rw [IsLineOf, h, Bool.false_and]

theorem OptionCall.unaffected {call : OptionCall} (h : file.Sound) (hcall : Succeeds file call file')
    (hother : ¬ sameName name call.name = true) : Unaffected file file' name := by
  have hno := Bool.eq_false_iff.mpr hother
  obtain ⟨-, hvalue⟩ := hcall
  cases call with
  | setString memory name' value =>
    rcases setStringOption_cases h hvalue with
      ⟨i, line, hfind, rfl, hkind, -⟩ | ⟨-, happ, line, hline⟩
    · exact unaffected_setLine hfind hkind.formatted hkind.name hother
    · exact unaffected_append happ (by rw [hline, isLineOf_filledString]; exact hno)
  | setInteger memory name' n =>
    rcases setIntegerOption_cases h hvalue with
      ⟨i, line, hfind, rfl, hkind, -⟩ | ⟨-, happ, ⟨-, -, line, hline⟩ | ⟨-, hformatted⟩⟩
    · exact unaffected_setLine hfind hkind.formatted hkind.name hother
    · exact unaffected_append happ (by rw [hline, isLineOf_filledInteger]; exact hno)
    · exact unaffected_append happ (isLineOf_of_not_formatted hformatted)

theorem reads_congr (h : sameName name name' = true) (v : OptionValue) :
    Reads file name v ↔ Reads file name' v := by
  have hfind : findLineByName name = findLineByName name' := funext fun _ => findLineByName_congr h
  cases v with
  | string value => rw [Reads, Reads, getStringOption, getStringOption, hfind]
  | integer n => rw [Reads, Reads, getIntegerOption, getIntegerOption, hfind]

theorem findLineByName_changed (hfind : findLineByName name file = some i)
    (hkind : SameKind (file.lines i) line) :
    findLineByName name (file.setLine i line) = some i := by
  rw [findLineByName_setLine hkind.formatted hkind.name, hfind]

theorem findLineByName_added (hfind : findLineByName name file = none) (happ : Appended file file')
    (hline : IsLineOf name (file'.lines file.lineCount) = true) :
    findLineByName name file' = some file.lineCount := by
  rw [findLineByName_append happ, hfind, if_pos hline, Option.none_or]

theorem sameName_self (name : CString) : sameName name name = true := sameName_iff.mpr rfl

/-- A value is read back if and only if the call fits. -/
theorem OptionCall.reads_iff {call : OptionCall} (h : file.Sound) (hcall : Succeeds file call file') :
    Reads file' call.name call.value ↔ call.Fits file := by
  obtain ⟨hint, hvalue⟩ := hcall
  cases call with
  | setString memory name value =>
    show getStringOption name file' = some value ↔
      ∀ i, findLineByName name file = some i → (file.lines i).typeString = true
    rcases setStringOption_cases h hvalue with
      ⟨i, line, hfind, rfl, hkind, hline⟩ | ⟨hfind, happ, line, hline⟩
    · rw [getStringOption_of_find (findLineByName_changed hfind hkind), lines_setLine,
        hkind.typeString, hline]
      constructor
      · intro hread j hj
        obtain rfl : j = i := Option.some.inj (hj.symm.trans hfind)
        by_contra htype
        rw [if_neg htype] at hread
        exact Option.some_ne_none _ hread.symm
      · intro htype
        exact if_pos (htype i hfind)
    · have hname : IsLineOf name (file'.lines file.lineCount) = true := by
        rw [hline, isLineOf_filledString, sameName_self]
      rw [getStringOption_of_find (findLineByName_added hfind happ hname), hline]
      refine iff_of_true rfl fun j hj => ?_
      exact absurd (hj.symm.trans hfind) (Option.some_ne_none j)
  | setInteger memory name n =>
    obtain ⟨hmin, hmax⟩ := hint
    have hbmod : n.bmod (2 ^ 32) = n := Int.bmod_eq_of_le (by omega) (by omega)
    show getIntegerOption name file' = n ↔
      (n = -1 ∨ (∃ i, findLineByName name file = some i ∧ (file.lines i).typeInteger = true) ∨
        findLineByName name file = none ∧ 0 ≤ n ∧ memory.name = true)
    rcases setIntegerOption_cases h hvalue with
      ⟨i, line, hfind, rfl, hkind, hline⟩ | ⟨hfind, happ, hlast⟩
    · rw [getIntegerOption_of_find (findLineByName_changed hfind hkind), lines_setLine,
        hkind.typeInteger, hline, hbmod]
      by_cases htype : (file.lines i).typeInteger = true
      · rw [if_pos htype]
        exact iff_of_true rfl (Or.inr (Or.inl ⟨i, hfind, htype⟩))
      · rw [if_neg htype]
        constructor
        · intro hn
          exact Or.inl hn.symm
        · rintro (hn | ⟨j, hj, htype'⟩ | ⟨hnone, -⟩)
          · exact hn.symm
          · obtain rfl : j = i := Option.some.inj (hj.symm.trans hfind)
            exact absurd htype' htype
          · exact absurd (hfind.symm.trans hnone) (Option.some_ne_none i)
    · have hnone : ¬ ∃ i, findLineByName name file = some i ∧ (file.lines i).typeInteger = true := by
        rintro ⟨j, hj, -⟩
        exact Option.some_ne_none j (hj.symm.trans hfind)
      rcases hlast with ⟨hn, hmemory, line, hline⟩ | ⟨hnot, hformatted⟩
      · have hname : IsLineOf name (file'.lines file.lineCount) = true := by
          rw [hline, isLineOf_filledInteger, sameName_self]
        rw [getIntegerOption_of_find (findLineByName_added hfind happ hname), hline]
        exact iff_of_true hbmod (Or.inr (Or.inr ⟨hfind, hn, hmemory⟩))
      · have hfind' : findLineByName name file' = none := by
          rw [findLineByName_append happ, hfind, isLineOf_of_not_formatted hformatted]
          rfl
        rw [getIntegerOption_of_none hfind']
        constructor
        · intro hn
          exact Or.inl hn.symm
        · rintro (hn | hsome | ⟨-, hyes⟩)
          · exact hn.symm
          · exact absurd hsome hnone
          · exact absurd hyes hnot

/-! ### Runs -/

/-- The value that has been set last under a name. -/
def lastSet (name : CString) (calls : List OptionCall) : Option OptionValue :=
  calls.foldl (fun last call => if sameName name call.name then some call.value else last) none

/-- The getter of the type that has been set last returns what has been set. -/
def ReadsBack (calls : List OptionCall) (file : RdpFile) : Prop :=
  ∀ name v, lastSet name calls = some v → Reads file name v

theorem lastSet_concat (name : CString) (calls : List OptionCall) (call : OptionCall) :
    lastSet name (calls ++ [call]) =
      if sameName name call.name then some call.value else lastSet name calls := by
  rw [lastSet, List.foldl_append]
  rfl

theorem Unaffected.reads {v : OptionValue} (h : Unaffected file file' name) :
    Reads file' name v ↔ Reads file name v := by
  cases v with
  | string value => rw [Reads, Reads, h.1]
  | integer n => rw [Reads, Reads, h.2]

theorem readsBack_concat {calls : List OptionCall} {call : OptionCall} (h : file.Sound)
    (hcall : Succeeds file call file') (hreads : ReadsBack calls file) :
    ReadsBack (calls ++ [call]) file' ↔ call.Fits file := by
  rw [← call.reads_iff h hcall]
  constructor
  · intro hall
    exact hall call.name call.value (by rw [lastSet_concat, if_pos (sameName_self _)])
  · intro hlast name v hv
    rw [lastSet_concat] at hv
    by_cases hsame : sameName name call.name = true
    · rw [if_pos hsame] at hv
      obtain rfl := Option.some.inj hv
      exact (reads_congr hsame _).mpr hlast
    · rw [if_neg hsame] at hv
      exact (call.unaffected h hcall hsame).reads.mpr (hreads name v hv)

theorem sound_of_succeeds {call : OptionCall} (h : file.Sound) (hcall : Succeeds file call file') :
    file'.Sound := by
  obtain ⟨-, hvalue⟩ := hcall
  have hfile : (call.run file).value.2 = file' := congrArg Prod.snd hvalue
  cases call with
  | setString memory name value => exact hfile ▸ (setStringOption_spec h memory name value).2
  | setInteger memory name n => exact hfile ▸ (setIntegerOption_spec h memory name n).2

theorem sound_of_run {calls : List OptionCall} (h : Runs Succeeds rdpFileNew calls file) :
    file.Sound :=
  h.invariant sound_rdpFileNew fun _ _ _ hsound hcall => sound_of_succeeds hsound hcall

/-- In a run of calls that succeed, from a fresh file, a call leaves the options of other names alone, and
all values are read back behind every call if and only if every call fits the file that it finds. -/
theorem options_map_iff (calls : List OptionCall) :
    (∀ (calls' : List OptionCall) (call : OptionCall) (t u : RdpFile), calls' ++ [call] <+: calls →
      Runs Succeeds rdpFileNew calls' t → Succeeds t call u →
        ∀ name, ¬ sameName name call.name = true → Unaffected t u name) ∧
    ((∀ (calls' : List OptionCall) (t : RdpFile), calls' <+: calls →
      Runs Succeeds rdpFileNew calls' t → ReadsBack calls' t) ↔
      ∀ (calls' : List OptionCall) (call : OptionCall) (t u : RdpFile), calls' ++ [call] <+: calls →
        Runs Succeeds rdpFileNew calls' t → Succeeds t call u → call.Fits t) := by
  refine ⟨fun calls' call t u _ hrun hcall name => call.unaffected (sound_of_run hrun) hcall, ?_, ?_⟩
  · intro hall calls' call t u hprefix hrun hcall
    have ht := hall calls' t ((List.prefix_append _ _).trans hprefix) hrun
    exact (readsBack_concat (sound_of_run hrun) hcall ht).mp (hall _ u hprefix (hrun.snoc hcall))
  · intro hall calls' t hprefix hrun
    induction hrun with
    | nil =>
      intro name v hv
      exact absurd hv (Option.some_ne_none v).symm
    | @snoc calls' t u call hrun hcall ih =>
      have ht := ih ((List.prefix_append _ _).trans hprefix)
      exact (readsBack_concat (sound_of_run hrun) hcall ht).mpr (hall calls' call t u hprefix hrun hcall)

/-- A string for a name that has a number, and a negative number for a name without a line. -/
theorem options_not_map :
    (∃ t u, Succeeds rdpFileNew (.setInteger .plenty (cString "a") 1) t ∧
      Succeeds t (.setString .plenty (cString "a") (cString "b")) u ∧
        ¬ Reads u (cString "a") (.string (cString "b"))) ∧
    ∃ t, Succeeds rdpFileNew (.setInteger .plenty (cString "a") (-5)) t ∧
      ¬ Reads t (cString "a") (.integer (-5)) := by
  constructor
  · refine ⟨_, _, ⟨⟨by decide, by decide⟩, rfl⟩, ⟨trivial, rfl⟩, ?_⟩
    show getStringOption _ _ ≠ _
    decide +kernel
  · refine ⟨_, ⟨⟨by decide, by decide⟩, rfl⟩, ?_⟩
    show getIntegerOption _ _ ≠ _
    decide +kernel

end FreeRDP.Client
