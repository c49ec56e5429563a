import FreeRDP.Cmdline.CommaSeparated
import Mathlib.Algebra.Order.Ring.Nat
import Mathlib.Data.List.Basic

/-!
# Comma separated values read back

The parser splits a string at its commas, the way `List.splitOn` does, and the other function joins strings
like `List.intercalate`.  Both count before they write, and what they write stays in their block.

The number that `_snprintf` returns is an `int`: a value of `INT_MAX` bytes or more, or as many values,
cannot be joined.  Otherwise `commaSeparatedValues_inverse`: the two functions are inverse to each
other.
-/

namespace FreeRDP.Cmdline

open Traced

variable {memory : ℕ → Bool} {name : Option CString} {s : CString} {v rest d bs : List UInt8}
  {prefixSize size n m k : ℕ}

/-! ### Strings -/

theorem strchr_eq_none {c : UInt8} : strchr s c = none ↔ c ∉ s.bytes := by
  rw [strchr, List.findIdx?_eq_none_iff]
  constructor
  · exact fun h hc => absurd (h c hc) (by simp)
  · exact fun h x hx => beq_eq_false_iff_ne.mpr (ne_of_mem_of_not_mem hx h)

theorem strchr_eq_some {c : UInt8} (h : s.bytes = v ++ c :: rest) (hv : c ∉ v) :
    strchr s c = some v.length := by
  have hnone : v.findIdx? (· == c) = none :=
    List.findIdx?_eq_none_iff.mpr fun x hx => beq_eq_false_iff_ne.mpr (ne_of_mem_of_not_mem hx hv)
  rw [strchr, h, List.findIdx?_append, hnone, List.findIdx?_cons]
  simp

theorem bytes_cStringAt (d : List UInt8) (hbs : 0 ∉ bs) (z : List UInt8) :
    (cStringAt (d ++ (bs ++ 0 :: z)) d.length).bytes = bs := by
  change ((d ++ (bs ++ 0 :: z)).drop d.length).takeWhile _ = bs
  rw [List.drop_left, List.takeWhile_append_of_pos, List.takeWhile_cons_of_neg, List.append_nil]
  · simp
  · exact fun b hb => decide_eq_true (ne_of_mem_of_not_mem hb hbs)

theorem length_splitOn_comma (s : CString) :
    (s.bytes.splitOn comma).length = countCommas s + 1 := by
  induction s using countCommas.induct with
  | case1 s offset hoffset ih =>
    have hmem : comma ∈ s.bytes := by
      by_contra hmem
      exact absurd (hoffset.symm.trans (strchr_eq_none.mpr hmem)) (Option.some_ne_none _)
    obtain ⟨v, rest, hsplit, hv⟩ := List.eq_append_cons_of_mem hmem
    obtain rfl : v.length = offset :=
      Option.some.inj ((strchr_eq_some hsplit hv).symm.trans hoffset)
    have hdrop : (s.drop (v.length + 1)).bytes = rest := by
      change s.bytes.drop (v.length + 1) = rest
      rw [hsplit, List.append_cons]
      exact List.drop_left' (List.length_append ..)
    rw [hdrop] at ih
    rw [countCommas]
    split
    case h_1 offset' hoffset' =>
      obtain rfl : v.length = offset' := Option.some.inj (hoffset.symm.trans hoffset')
      rw [← ih, hsplit, List.splitOn_append_cons_self_of_not_mem hv, List.length_cons]
    case h_2 hnone => exact absurd (hoffset.symm.trans hnone) (Option.some_ne_none _)
  | case2 s hnone =>
    rw [countCommas]
    split
    case h_1 hoffset => exact absurd (hoffset.symm.trans hnone) (Option.some_ne_none _)
    case h_2 =>
      rw [List.splitOn_eq_singleton (strchr_eq_none.mp hnone)]
      rfl

/-! ### Splitting -/

theorem splitStep_comma {table : List (Option Pointer)} {text : List UInt8} {str offset index : ℕ}
    (h : strchr (cStringAt text str) comma = some offset) :
    splitStep prefixSize (⟨table, text⟩, str) index =
      ⟨(⟨table.set index (some (.text str)), text.set (str + offset) 0⟩, str + offset + 1),
        [.pointer (pointerSize * index), .bytes (prefixSize + (str + offset)) 1]⟩ := by
  rw [splitStep]
  simp only [h]
  rfl

theorem splitStep_last {table : List (Option Pointer)} {text : List UInt8} {str index : ℕ}
    (h : strchr (cStringAt text str) comma = none) :
    splitStep prefixSize (⟨table, text⟩, str) index =
      ⟨(⟨table.set index (some (.text str)), text⟩, str), [.pointer (pointerSize * index)]⟩ := by
  rw [splitStep]
  simp only [h]
  rfl

theorem set_table {done : List (Option Pointer)} (p : Option Pointer) (hdone : done.length = m)
    (n k : ℕ) :
    (done ++ List.replicate (n + 1 + k) none).set m p = done ++ [p] ++ List.replicate (n + k) none := by
  rw [List.set_append_right m p (Nat.le_of_eq hdone), hdone, Nat.sub_self, Nat.add_right_comm,
    List.replicate_succ, List.set_cons_zero, List.append_assoc, List.singleton_append]

/-- What the loop leaves behind `d` of a string `rest`: as many bytes, where the pointers find the
values. -/
def SplitInto (done : List (Option Pointer)) (d rest z : List UInt8) (k : ℕ) (block : Block) : Prop :=
  ∃ (offsets : List ℕ) (x : List UInt8), x.length = rest.length ∧
    block = ⟨done ++ offsets.map (fun p => some (.text p)) ++ List.replicate k none,
      d ++ (x ++ 0 :: z)⟩ ∧
    offsets.map (fun p => (cStringAt block.text p).bytes) = rest.splitOn comma

/-- A value, and what the loop makes of the string behind its comma. -/
theorem SplitInto.cons {done : List (Option Pointer)} {z : List UInt8} {block : Block} (hv : comma ∉ v)
    (hnul : 0 ∉ v) (h : SplitInto (done ++ [some (.text d.length)]) (d ++ v ++ [0]) rest z k block) :
    SplitInto done d (v ++ comma :: rest) z k block := by
  obtain ⟨offsets, x, hlength, hblock, hvalues⟩ := h
  have htext : block.text = d ++ (v ++ 0 :: (x ++ 0 :: z)) := by
    rw [hblock]
    simp
  refine ⟨d.length :: offsets, v ++ 0 :: x, ?_, ?_, ?_⟩
  · rw [List.length_append, List.length_append, List.length_cons, List.length_cons, hlength]
  · rw [hblock]
    simp
  · rw [List.map_cons, hvalues, List.splitOn_append_cons_self_of_not_mem hv, htext,
      bytes_cStringAt d hnul]

/-- The loop gives a pointer to each value. -/
theorem ensures_split (done : List (Option Pointer)) (d : List UInt8) (z : List UInt8) (hrest : 0 ∉ rest)
    (hn : (rest.splitOn comma).length = n) (hdone : done.length = m)
    (htab : pointerSize * (m + n) ≤ prefixSize) (hsize : prefixSize + (d.length + rest.length) ≤ size) :
    ((List.range' m n).foldlM (splitStep prefixSize)
      (⟨done ++ List.replicate (n + k) none, d ++ (rest ++ 0 :: z)⟩, d.length)).Ensures
        (InBlock prefixSize size) fun s => SplitInto done d rest z k s.1 := by
  induction n generalizing m done d rest with
  | zero => exact absurd (List.length_eq_zero_iff.mp hn) (List.splitOn_ne_nil _ _)
  | succ n ih =>
    have hbytes := bytes_cStringAt d hrest z
    have hpointer : InBlock prefixSize size (.pointer (pointerSize * m)) := by
      change pointerSize * m + pointerSize ≤ prefixSize
      rw [← Nat.mul_succ]
      exact Nat.le_trans (Nat.mul_le_mul_left _ (by omega)) htab
    rw [List.range'_succ, List.foldlM_cons]
    by_cases hcomma : comma ∈ rest
    · -- the comma becomes the end of the value, and the loop goes on behind it
      obtain ⟨v, rest, rfl, hv⟩ := List.eq_append_cons_of_mem hcomma
      obtain ⟨hnul, hrest⟩ := not_or.mp (List.mem_append.not.mp hrest)
      rw [List.splitOn_append_cons_self_of_not_mem hv, List.length_cons, Nat.succ.injEq] at hn
      rw [List.length_append, List.length_cons] at hsize
      have hset : (d ++ (v ++ comma :: rest ++ 0 :: z)).set (d.length + v.length) 0 =
          d ++ v ++ [0] ++ (rest ++ 0 :: z) := by
        rw [List.append_assoc v, ← List.append_assoc, ← List.length_append,
          List.set_append_right _ _ (Nat.le_refl _), Nat.sub_self]
        simp
      have hlength : d.length + v.length + 1 = (d ++ v ++ [0]).length := by
        rw [List.length_append, List.length_append, List.length_singleton]
      rw [splitStep_comma (strchr_eq_some hbytes hv), set_table _ hdone, hset, hlength]
      have hloop := ih (done ++ [some (.text d.length)]) (d ++ v ++ [0]) (m := m + 1)
        (fun h => hrest (List.mem_cons_of_mem _ h)) hn (by simp [hdone]) (by rwa [Nat.add_right_comm])
        (by rw [← hlength]; omega)
      refine Ensures.bind (Q := fun s => s = _) ⟨?_, rfl⟩ ?_
      · rintro a ha
        rcases List.mem_cons.mp ha with rfl | ha
        · exact hpointer
        · rw [List.mem_singleton.mp ha]
          exact ⟨Nat.le_add_right _ _, by omega⟩
      · rintro _ rfl
        exact ⟨hloop.1, hloop.2.cons hv hnul⟩
    · rw [List.splitOn_eq_singleton hcomma, List.length_singleton] at hn
      obtain rfl : n = 0 := by omega
      rw [splitStep_last (strchr_eq_none.mpr (by rwa [hbytes])), set_table _ hdone]
      refine ⟨?_, [d.length], rest, rfl, ?_, ?_⟩
      · rintro a ha
        rw [List.mem_singleton.mp ha]
        exact hpointer
      · simp
      · rw [List.splitOn_eq_singleton hcomma]
        exact congrArg (fun bytes => [bytes]) hbytes

/-! ### The parser -/

theorem toSize_of_lt (h : n < 2 ^ 64) : toSize n = n := Nat.mod_eq_of_lt h

theorem calloc_eq (h : n * k < 2 ^ 64) (hmemory : memory (n * k) = true) :
    calloc memory n k = some (n * k) := if_pos ⟨h, hmemory⟩

def valueCount (name : Option CString) (list : CString) : ℕ :=
  countCommas list + 1 + if name.isSome then 1 else 0

/-- The size of the table, which ends with a null pointer. -/
def tableSize (name : Option CString) (list : CString) : ℕ :=
  (valueCount name list + 1) * pointerSize

def blockSize (name : Option CString) (list : CString) : ℕ :=
  (list.length + tableSize name list + 1) * pointerSize

theorem overwrite_zeros (bytes : List UInt8) (h : bytes.length < n) :
    overwrite (List.replicate n 0) 0 bytes = bytes ++ 0 :: List.replicate (n - bytes.length - 1) 0 := by
  rw [overwrite, List.take_zero, List.nil_append, Nat.zero_add, List.drop_replicate,
    ← List.replicate_succ]
  congr 2
  omega

/-- The sizes do not wrap. -/
theorem parseList_eq (list : CString) (hsize : blockSize name list < 2 ^ 64)
    (hmemory : memory (blockSize name list) = true) :
    parseList memory name list = (do
      let first := if name.isSome then 1 else 0
      access (.bytes (tableSize name list) list.length)
      accesses ((List.range first).map fun index => .pointer (pointerSize * index))
      let table := List.replicate first (some .name) ++
        List.replicate (countCommas list + 1 + 1) none
      let text := list.bytes ++
        0 :: List.replicate (blockSize name list - tableSize name list - list.length - 1) 0
      let s ← (List.range' first (countCommas list + 1)).foldlM (splitStep (tableSize name list))
        (⟨table, text⟩, 0)
      return some ⟨s.1, valueCount name list⟩) := by
  have htable : tableSize name list = (valueCount name list + 1) * 8 := rfl
  have hblock : blockSize name list = (list.length + tableSize name list + 1) * 8 := rfl
  have hcount : toSize (countCommas list + 1 + if name.isSome then 1 else 0) = valueCount name list :=
    toSize_of_lt (by rw [← valueCount]; omega)
  have htab : toSize (toSize (valueCount name list + 1) * pointerSize) = tableSize name list := by
    rw [toSize_of_lt (n := valueCount name list + 1) (by omega)]
    exact toSize_of_lt (by rw [← tableSize]; omega)
  have hargument : toSize (list.length + tableSize name list + 1) = list.length + tableSize name list + 1 :=
    toSize_of_lt (by omega)
  have htext := overwrite_zeros (n := blockSize name list - tableSize name list) list.bytes
    (by rw [← CString.length]; omega)
  have hfirst : valueCount name list - (if name.isSome then 1 else 0) = countCommas list + 1 :=
    Nat.add_sub_cancel _ _
  have hrest : valueCount name list + 1 - (if name.isSome then 1 else 0) = countCommas list + 1 + 1 := by
    rw [valueCount]
    omega
  unfold parseList
  dsimp only
  rw [hcount, htab, hargument, calloc_eq hsize hmemory, hfirst, hrest]
  dsimp only
  rw [← blockSize, htext]
  rfl

theorem strings_of_splitInto {done : List (Option Pointer)} {z : List UInt8} {block : Block} {count : ℕ}
    (h : SplitInto done [] rest z k block)
    (hdone : done.filterMap (block.deref name) = name.toList)
    (hcount : count = done.length + (rest.splitOn comma).length) :
    ((⟨block, count⟩ : Values).strings name).map CString.bytes =
      name.toList.map CString.bytes ++ rest.splitOn comma := by
  obtain ⟨offsets, x, -, hblock, hvalues⟩ := h
  have htake : block.table.take count = done ++ offsets.map fun p => some (.text p) := by
    rw [hblock, hcount, ← hvalues]
    exact List.take_left' (by simp)
  have hderef (p : ℕ) : block.deref name (some (.text p)) = some (cStringAt block.text p) := rfl
  rw [Values.strings, htake, List.filterMap_append, hdone, List.filterMap_map, List.map_append, ← hvalues]
  congr 1
  have hsome : (block.deref name ∘ fun p => some (.text p)) = fun p => some (cStringAt block.text p) :=
    funext hderef
  rw [hsome, List.filterMap_eq_map', List.map_map]
  rfl

/-- The parser writes inside of its block, and the strings that it returns are the values. -/
theorem ensures_parse (memory : ℕ → Bool) (name : Option CString) (list : CString)
    (hsize : blockSize name list < 2 ^ 64)
    (hmemory : memory (blockSize name list) = true) :
    (commandLineParseCommaSeparatedValuesEx memory name (some list)).Ensures
      (InBlock (tableSize name list) (blockSize name list)) fun r => ∃ values, r = some values ∧
        values.count = valueCount name list ∧
        (values.strings name).map CString.bytes =
          name.toList.map CString.bytes ++ list.bytes.splitOn comma := by
  have htable : tableSize name list = (valueCount name list + 1) * 8 := rfl
  have hblock : blockSize name list = (list.length + tableSize name list + 1) * 8 := rfl
  have hcount : valueCount name list = countCommas list + 1 + if name.isSome then 1 else 0 := rfl
  have hlength := length_splitOn_comma list
  rw [commandLineParseCommaSeparatedValuesEx, parseList_eq list hsize hmemory]
  refine Ensures.bind (Q := fun _ => True) ⟨?_, trivial⟩ fun _ _ => ?_
  · rw [safe_access]
    exact ⟨Nat.le_refl _, by omega⟩
  refine Ensures.bind (Q := fun _ => True) ⟨?_, trivial⟩ fun _ _ => ?_
  · rw [safe_accesses]
    intro a ha
    obtain ⟨index, hindex, rfl⟩ := List.mem_map.mp ha
    have := List.mem_range.mp hindex
    change pointerSize * index + pointerSize ≤ tableSize name list
    rw [pointerSize]
    omega
  refine Ensures.bind (ensures_split (k := 1) _ [] _ list.nul_notMem hlength List.length_replicate ?_ ?_) ?_
  · rw [pointerSize]
    omega
  · rw [List.length_nil, ← CString.length]
    omega
  · intro s hs
    refine ensures_pure ⟨_, rfl, rfl, strings_of_splitInto hs ?_ ?_⟩
    · cases name <;> rfl
    · rw [hlength, List.length_replicate]
      omega

/-! ### Joining -/

section Join

variable {argv filters : List CString} {offset : ℕ} {arg value : CString}

def withComma (value : CString) : List UInt8 := value.bytes ++ [comma]

/-- The size of the block for the joined string, with the byte that ends it. -/
def joinedSize (argv : List CString) : ℕ := (argv.map fun value => value.length + 1).sum + 1

theorem joinedSize_cons (value : CString) (argv : List CString) :
    joinedSize (value :: argv) = value.length + 1 + joinedSize argv := by
  rw [joinedSize, List.map_cons, List.sum_cons, Nat.add_assoc, ← joinedSize]

/-- What the filters leave of the values. -/
def kept (filters argv : List CString) : List CString :=
  argv.filterMap fun value => filtered value filters

theorem kept_cons_none (h : filtered value filters = none) (argv : List CString) :
    kept filters (value :: argv) = kept filters argv :=
  List.filterMap_cons_none (f := fun value => filtered value filters) h

theorem kept_cons_some (h : filtered value filters = some arg) (argv : List CString) :
    kept filters (value :: argv) = arg :: kept filters argv :=
  List.filterMap_cons_some (f := fun value => filtered value filters) h

theorem kept_nil (argv : List CString) : kept [] argv = argv := List.filterMap_some

theorem length_withComma (value : CString) : (withComma value).length = value.length + 1 :=
  List.length_append

theorem length_overwrite {str bytes : List UInt8} (h : offset + bytes.length ≤ str.length) :
    (overwrite str offset bytes).length = str.length := by
  simp only [overwrite, List.length_append, List.length_take, List.length_drop]
  omega

theorem length_filtered_le (h : filtered value filters = some arg) : arg.length ≤ value.length := by
  unfold filtered at h
  split_ifs at h with hfilters
  · rw [Option.some.inj h]
  · obtain ⟨filter, -, rfl⟩ := Option.map_eq_some_iff.mp h
    exact (List.drop_sublist _ _).length_le

theorem toSize_sub (hsize : size < 2 ^ 64) (hoffset : offset ≤ size) :
    toSize (size + 2 ^ 64 - offset) = size - offset := by
  rw [toSize, Nat.add_comm, Nat.add_sub_assoc hoffset, Nat.add_mod_left]
  exact Nat.mod_eq_of_lt (by omega)

/-- A value that fits is stored with its comma, and ended. -/
theorem snprintf_eq (str : List UInt8) (offset : ℕ) (h : value.length + 1 < n) :
    snprintf str offset n value =
      ⟨(overwrite str offset (withComma value ++ [0]),
        if value.length < INT_MAX then (value.length + 1 : ℕ) else -1),
        [.bytes offset (value.length + 2)]⟩ := by
  have hlength := length_withComma value
  have htake : (withComma value).take (n - 1) = withComma value := by
    apply List.take_of_length_le
    omega
  unfold snprintf
  dsimp only
  rw [if_neg (by omega), ← withComma, htake, hlength]
  simp only [List.length_append, hlength, List.length_singleton]
  rfl

/-- The loop writes inside of the block, whatever the lengths are. -/
theorem safe_joinLoop (filters : List CString) {str : List UInt8} (hsize : size < 2 ^ 64)
    (hstr : str.length = size)
    (hroom : offset + joinedSize argv ≤ size) :
    (joinLoop filters size argv str offset).Ensures (InBlock 0 size) fun r =>
      ∀ p, r = some p → p.2 < size := by
  induction argv generalizing str offset with
  | nil =>
    refine ensures_pure fun p hp => ?_
    rw [← Option.some.inj hp]
    exact Nat.lt_of_lt_of_le (Nat.lt_succ_self _) hroom
  | cons value argv ih =>
    have hvalue := joinedSize_cons value argv
    have hpos : 0 < joinedSize argv := Nat.succ_pos _
    rw [joinLoop]
    split
    case h_1 => exact ih hstr (by omega)
    case h_2 arg harg =>
      have hle := length_filtered_le harg
      rw [toSize_sub hsize (by omega), snprintf_eq _ _ (by omega)]
      refine Ensures.bind (Q := fun r => r = _) ⟨?_, rfl⟩ ?_
      · rintro a ha
        rw [List.mem_singleton.mp ha]
        exact ⟨Nat.zero_le _, by omega⟩
      · rintro _ rfl
        dsimp only
        refine ensures_ite (fun _ => ensures_pure fun p hp => ?_) fun hrc => ?_
        · exact absurd hp.symm (Option.some_ne_none p)
        · split_ifs at hrc ⊢ with hmax
          · rw [Int.toNat_natCast, toSize_of_lt (by omega)]
            refine ih ?_ (by omega)
            rw [length_overwrite, hstr]
            rw [List.length_append, length_withComma, List.length_singleton]
            omega
          · exact absurd (by decide) hrc

theorem overwrite_value (d : List UInt8) (value : CString) (h : value.length < n) :
    overwrite (d ++ List.replicate (n + 1) 0) d.length (withComma value ++ [0]) =
      d ++ withComma value ++ List.replicate (n - (value.length + 1) + 1) 0 := by
  have hdrop : (d ++ List.replicate (n + 1) 0).drop (d.length + (withComma value ++ [0]).length) =
      List.replicate (n - (value.length + 1)) (0 : UInt8) := by
    rw [List.length_append, length_withComma, List.length_singleton, ← List.drop_drop, List.drop_left,
      List.drop_replicate]
    congr 1
    omega
  rw [overwrite, List.take_left, hdrop, List.replicate_succ]
  simp

/-- The values one after the other, each with its comma. -/
theorem value_joinLoop (filters : List CString) (d : List UInt8) (hsize : size < 2 ^ 64)
    (hd : size = d.length + (n + 1))
    (hroom : joinedSize argv ≤ n + 1) (hshort : ∀ value ∈ argv, value.length < INT_MAX) :
    ∃ k, (joinLoop filters size argv (d ++ List.replicate (n + 1) 0) d.length).value =
      some (d ++ (kept filters argv).flatMap withComma ++
          List.replicate (k + 1) 0,
        (d ++ (kept filters argv).flatMap withComma).length) := by
  induction argv generalizing d n with
  | nil => exact ⟨n, by simp [joinLoop, kept]⟩
  | cons value argv ih =>
    have hvalue := joinedSize_cons value argv
    have hpos : 0 < joinedSize argv := Nat.succ_pos _
    obtain ⟨hfirst, hshort⟩ := List.forall_mem_cons.mp hshort
    rw [joinLoop]
    cases harg : filtered value filters with
    | none =>
      rw [kept_cons_none harg]
      exact ih d hd (by omega) hshort
    | some arg =>
      have hle := length_filtered_le harg
      have hrest := ih (d ++ withComma arg) (n := n - (arg.length + 1))
        (by rw [List.length_append, length_withComma]; omega) (by omega) hshort
      rw [List.length_append, length_withComma] at hrest
      dsimp only
      rw [toSize_sub hsize (by omega), snprintf_eq _ _ (by omega), if_pos (by omega), value_bind]
      dsimp only
      rw [if_neg (by omega), Int.toNat_natCast, toSize_of_lt (by omega), overwrite_value d arg (by omega),
        kept_cons_some harg, List.flatMap_cons, ← List.append_assoc]
      exact hrest

/-- The last comma makes the difference to `List.intercalate`. -/
theorem flatMap_withComma {values : List CString} (h : values ≠ []) :
    values.flatMap withComma = [comma].intercalate (values.map CString.bytes) ++ [comma] := by
  induction values with
  | nil => exact absurd rfl h
  | cons value values ih =>
    cases values with
    | nil => simp [withComma]
    | cons value' values =>
      rw [List.flatMap_cons, ih (List.cons_ne_nil _ _), withComma]
      simp only [List.map_cons, List.intercalate_cons_cons, List.append_assoc]

theorem nul_notMem_intercalate (values : List CString) :
    0 ∉ [comma].intercalate (values.map CString.bytes) := by
  induction values with
  | nil => simp
  | cons value values ih =>
    cases values with
    | nil => simpa using value.nul_notMem
    | cons value' values =>
      rw [List.map_cons, List.map_cons, List.intercalate_cons_cons]
      simp only [List.mem_append, List.mem_singleton, not_or]
      exact ⟨⟨value.nul_notMem, by decide⟩, ih⟩

/-- The sizes of the values are summed up. -/
theorem foldl_length (argv : List CString) (h : size + (argv.map CString.length).sum < 2 ^ 64) :
    argv.foldl (fun size arg => toSize (size + arg.length)) size =
      size + (argv.map CString.length).sum := by
  induction argv generalizing size with
  | nil => rfl
  | cons arg argv ih =>
    rw [List.map_cons, List.sum_cons] at h ⊢
    rw [List.foldl_cons, toSize_of_lt (by omega), ih (by omega), Nat.add_assoc]

theorem joinedSize_eq (argv : List CString) :
    joinedSize argv = argv.length + 1 + (argv.map CString.length).sum := by
  induction argv with
  | nil => rfl
  | cons value argv ih =>
    rw [joinedSize_cons, ih, List.map_cons, List.sum_cons, List.length_cons]
    omega

theorem sizeOfInt_eq (h : n < 2 ^ 31) : sizeOfInt n = n := by
  have hmod : (n : ℤ) % ((2 ^ 32 : ℕ) : ℤ) = n := by
    apply Int.emod_eq_of_lt <;> omega
  unfold sizeOfInt
  rw [Int.bmod_def, hmod]
  split_ifs <;> omega

/-- The block is large enough, and holds the values with commas between them. -/
theorem ensures_join (filters : List CString) (hargv : argv ≠ []) (hcount : argv.length < INT_MAX)
    (hsize : joinedSize argv < 2 ^ 64) (hmemory : memory (joinedSize argv) = true) :
    (commandLineToCommaSeparatedValuesEx memory argv.length (some argv) filters).Ensures
      (InBlock 0 (joinedSize argv)) fun r => (∀ value ∈ argv, value.length < INT_MAX) →
        ∃ str, r = some str ∧ str.bytes =
          [comma].intercalate ((kept filters argv).map CString.bytes) := by
  have hint : (argv.length : ℤ) + 1 = (argv.length + 1 : ℕ) := rfl
  have hfold : argv.foldl (fun size arg => toSize (size + arg.length)) (sizeOfInt (argv.length + 1)) =
      joinedSize argv := by
    rw [INT_MAX] at hcount
    rw [hint, sizeOfInt_eq (by omega), foldl_length _ (by rwa [← joinedSize_eq]), ← joinedSize_eq]
  have hpos : 0 < argv.length := List.length_pos_iff.mpr hargv
  have hroom : 0 < joinedSize argv := Nat.succ_pos _
  have hcalloc : calloc memory (joinedSize argv) 1 = some (joinedSize argv) := by
    rw [calloc_eq (by rwa [Nat.mul_one]) (by rwa [Nat.mul_one]), Nat.mul_one]
  unfold commandLineToCommaSeparatedValuesEx
  dsimp only
  rw [if_neg (by omega), Int.toNat_natCast, List.take_length, hfold, hcalloc]
  dsimp only
  constructor
  · obtain ⟨hloop, hoffset⟩ := safe_joinLoop filters hsize (List.length_replicate (a := (0 : UInt8)))
      (Nat.le_of_eq (Nat.zero_add (joinedSize argv)))
    refine (safe_bind _ _).mpr ⟨hloop, ?_⟩
    split
    case h_1 => exact (safe_pure _).mpr trivial
    case h_2 str offset hvalue =>
      have hlt := hoffset _ hvalue
      refine safe_ite.mpr ⟨fun hpos => ?_, fun _ => (safe_pure _).mpr trivial⟩
      refine (safe_bind _ _).mpr ⟨(safe_access _).mpr ⟨Nat.zero_le _, ?_⟩, (safe_pure _).mpr trivial⟩
      change offset < joinedSize argv at hlt
      omega
  · intro hshort
    obtain ⟨k, hvalue⟩ := value_joinLoop filters [] hsize (n := joinedSize argv - 1)
      (by rw [List.length_nil]; omega) (by omega) hshort
    rw [Nat.sub_add_cancel hroom, List.nil_append, List.nil_append, List.length_nil] at hvalue
    rw [value_bind, hvalue]
    dsimp only
    by_cases hkept : kept filters argv = []
    · rw [hkept]
      exact ⟨_, rfl, rfl⟩
    · rw [flatMap_withComma hkept, List.length_append, List.length_singleton, if_pos (Nat.succ_pos _)]
      refine ⟨_, rfl, ?_⟩
      have hset : ([comma].intercalate ((kept filters argv).map CString.bytes) ++ [comma] ++
          List.replicate (k + 1) 0).set ([comma].intercalate ((kept filters argv).map CString.bytes)).length
            0 = [] ++ ([comma].intercalate ((kept filters argv).map CString.bytes) ++
              0 :: List.replicate (k + 1) 0) := by
        rw [List.append_assoc, List.set_append_right _ _ (Nat.le_refl _), Nat.sub_self]
        rfl
      rw [Nat.add_sub_cancel, hset]
      exact bytes_cStringAt [] (nul_notMem_intercalate _) _

/-- A value that is too long makes `_snprintf` fail, and there is no string. -/
theorem value_join_long (memory : ℕ → Bool) (h : INT_MAX ≤ value.length) :
    (commandLineToCommaSeparatedValues memory 1 (some [value])).value = none := by
  have hsnprintf (str : List UInt8) (offset n : ℕ) : (snprintf str offset n value).value.2 = -1 := by
    refine if_neg ?_
    rw [List.length_append, ← CString.length, List.length_singleton]
    omega
  have hloop (size : ℕ) (str : List UInt8) (offset : ℕ) :
      (joinLoop [] size [value] str offset).value = none := by
    have hrc := hsnprintf str offset (toSize (size + 2 ^ 64 - offset))
    rw [joinLoop, filtered, if_pos rfl]
    dsimp only
    rw [value_bind]
    generalize (snprintf str offset (toSize (size + 2 ^ 64 - offset)) value).value = r at hrc ⊢
    obtain ⟨str', rc⟩ := r
    obtain rfl : rc = -1 := hrc
    rfl
  unfold commandLineToCommaSeparatedValues commandLineToCommaSeparatedValuesEx
  dsimp only
  rw [if_neg (by decide)]
  split
  case h_1 => rfl
  case h_2 size hsize =>
    have htake : [value].take (1 : ℤ).toNat = [value] := rfl
    rw [value_bind, htake, hloop]
    rfl

end Join

/-! ### There and back -/

/-- `calloc` finds memory for a block. -/
def Granted (memory : ℕ → Bool) (size : ℕ) : Prop := size < 2 ^ 64 ∧ memory size = true

theorem bytes_injective : Function.Injective CString.bytes := fun _ _ => CString.ext

/-- Splitting and joining are inverse to each other, and write inside of their blocks. -/
theorem commaSeparatedValues_inverse (memory : ℕ → Bool) :
    (∀ s : CString, Granted memory (blockSize none s) →
      (commandLineParseCommaSeparatedValues memory (some s)).Safe
        (InBlock (tableSize none s) (blockSize none s)) ∧
      ∃ values, (commandLineParseCommaSeparatedValues memory (some s)).value = some values ∧
        (values.count < INT_MAX → Granted memory (joinedSize (values.strings none)) →
          (commandLineToCommaSeparatedValues memory values.count (some (values.strings none))).Safe
            (InBlock 0 (joinedSize (values.strings none))) ∧
          ((∀ value ∈ values.strings none, value.length < INT_MAX) →
            (commandLineToCommaSeparatedValues memory values.count (some (values.strings none))).value =
              some s))) ∧
    ∀ values : List CString, values ≠ [] → (∀ value ∈ values, comma ∉ value.bytes) →
      values.length < INT_MAX → Granted memory (joinedSize values) →
      (commandLineToCommaSeparatedValues memory values.length (some values)).Safe
        (InBlock 0 (joinedSize values)) ∧
      ((∀ value ∈ values, value.length < INT_MAX) →
        ∃ s, (commandLineToCommaSeparatedValues memory values.length (some values)).value = some s ∧
          (Granted memory (blockSize none s) →
            (commandLineParseCommaSeparatedValues memory (some s)).Safe
              (InBlock (tableSize none s) (blockSize none s)) ∧
            ∃ parsed, (commandLineParseCommaSeparatedValues memory (some s)).value = some parsed ∧
              parsed.strings none = values ∧ parsed.count = values.length)) := by
  constructor
  · rintro s ⟨hsize, hmemory⟩
    obtain ⟨hsafe, values, hvalue, hcount, hstrings⟩ := ensures_parse memory none s hsize hmemory
    refine ⟨hsafe, values, hvalue, fun hmax hgranted => ?_⟩
    change (values.strings none).map CString.bytes = s.bytes.splitOn comma at hstrings
    have hlength : values.count = (values.strings none).length := by
      rw [hcount, ← List.length_map CString.bytes, hstrings, length_splitOn_comma]
      rfl
    have hne : values.strings none ≠ [] := by
      intro hnil
      rw [hnil] at hstrings
      exact List.splitOn_ne_nil _ _ hstrings.symm
    rw [hlength] at hmax ⊢
    obtain ⟨hsafe', hjoin⟩ := ensures_join [] hne hmax hgranted.1 hgranted.2
    refine ⟨hsafe', fun hshort => ?_⟩
    obtain ⟨str, hstr, hbytes⟩ := hjoin hshort
    rw [kept_nil, hstrings, List.intercalate_splitOn] at hbytes
    rw [commandLineToCommaSeparatedValues, hstr, CString.ext hbytes]
  · rintro values hne hcomma hmax ⟨hsize, hmemory⟩
    obtain ⟨hsafe, hjoin⟩ := ensures_join [] hne hmax hsize hmemory
    refine ⟨hsafe, fun hshort => ?_⟩
    obtain ⟨s, hs, hbytes⟩ := hjoin hshort
    refine ⟨s, hs, fun hgranted => ?_⟩
    obtain ⟨hsafe', parsed, hparsed, hcount, hstrings⟩ := ensures_parse memory none s hgranted.1 hgranted.2
    have hsplit : s.bytes.splitOn comma = values.map CString.bytes := by
      rw [hbytes, kept_nil, List.splitOn_intercalate comma (List.forall_mem_map.mpr hcomma)]
      exact fun hnil => hne (List.map_eq_nil_iff.mp hnil)
    refine ⟨hsafe', parsed, hparsed, List.map_injective_iff.mpr bytes_injective (hstrings.trans hsplit), ?_⟩
    rw [hcount, ← List.length_map CString.bytes, ← hsplit, length_splitOn_comma]
    rfl

theorem commaSeparatedValues_inverse_two :
    (commandLineParseCommaSeparatedValues (fun _ => true) (some ⟨[97, 44, 98], by decide⟩)).Safe
        (InBlock (tableSize none ⟨[97, 44, 98], by decide⟩) (blockSize none ⟨[97, 44, 98], by decide⟩)) ∧
      ∃ s, (commandLineToCommaSeparatedValues (fun _ => true) 2
        (some [⟨[97], by decide⟩, ⟨[98], by decide⟩])).value = some s := by
  have hinverse := commaSeparatedValues_inverse fun _ => true
  constructor
  · have hcount : countCommas ⟨[97, 44, 98], by decide⟩ + 1 = 2 := (length_splitOn_comma _).symm
    refine (hinverse.1 _ ⟨?_, rfl⟩).1
    rw [blockSize, tableSize, valueCount, hcount]
    decide
  · have hmax (n : ℕ) (h : n ≤ 2) : n < INT_MAX := Nat.lt_of_le_of_lt h (by decide)
    have hshort : ∀ value ∈ [(⟨[97], by decide⟩ : CString), ⟨[98], by decide⟩], value.length ≤ 2 := by
      decide
    obtain ⟨-, h⟩ := hinverse.2 [⟨[97], by decide⟩, ⟨[98], by decide⟩] (by decide) (by decide)
      (hmax 2 (Nat.le_refl 2)) ⟨by decide, rfl⟩
    obtain ⟨s, hs, -⟩ := h fun value hvalue => hmax _ (hshort value hvalue)
    exact ⟨s, hs⟩

/-- A string of `INT_MAX` bytes without a comma is returned by the parser, but cannot be joined. -/
theorem not_inverse_of_long (hcomma : comma ∉ s.bytes) (hlength : s.length = INT_MAX) :
    ∃ values, (commandLineParseCommaSeparatedValues (fun _ => true) (some s)).value = some values ∧
      (commandLineToCommaSeparatedValues (fun _ => true) values.count
        (some (values.strings none))).value = none := by
  have hsplit : s.bytes.splitOn comma = [s.bytes] := List.splitOn_eq_singleton hcomma
  have hcommas : countCommas s = 0 := by
    have := length_splitOn_comma s
    rw [hsplit, List.length_singleton] at this
    omega
  have hsize : blockSize none s < 2 ^ 64 := by
    rw [blockSize, tableSize, valueCount, hcommas, hlength]
    decide
  obtain ⟨-, values, hvalue, hcount, hstrings⟩ := ensures_parse (fun _ => true) none s hsize rfl
  have hvalues : values.strings none = [s] :=
    List.map_injective_iff.mpr bytes_injective (hstrings.trans hsplit)
  have hone : (values.count : ℤ) = 1 := by
    rw [hcount, valueCount, hcommas]
    rfl
  refine ⟨values, hvalue, ?_⟩
  rw [hvalues, hone]
  exact value_join_long _ (Nat.le_of_eq hlength.symm)

/-- The letter `a`, `INT_MAX` times. -/
def longValue : CString where
  bytes := List.replicate INT_MAX 97
  nul_notMem := fun h => absurd (List.eq_of_mem_replicate h) (by decide)

theorem commaSeparatedValues_not_inverse :
    ¬ ∀ (s : CString) (values : Values),
      (commandLineParseCommaSeparatedValues (fun _ => true) (some s)).value = some values →
        (commandLineToCommaSeparatedValues (fun _ => true) values.count
          (some (values.strings none))).value = some s := by
  intro h
  have hcomma : comma ∉ longValue.bytes := fun h => absurd (List.eq_of_mem_replicate h) (by decide)
  obtain ⟨values, hvalue, hnone⟩ := not_inverse_of_long hcomma List.length_replicate
  exact Option.some_ne_none longValue ((h longValue values hvalue).symm.trans hnone)

end FreeRDP.Cmdline
