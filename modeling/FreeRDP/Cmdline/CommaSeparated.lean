import FreeRDP.Lib.Traced
import Mathlib.Algebra.Group.Int.Defs
import Mathlib.Algebra.Group.Nat.Defs
import Mathlib.Data.List.TakeWhile

/-!
# Comma separated values

`CommandLineParseCommaSeparatedValuesEx` and `CommandLineToCommaSeparatedValuesEx` of
`winpr/libwinpr/utils/cmdline.c`.  The first splits a string at its commas, and the second joins strings
with commas.

The parser has one block for the table of pointers and for a copy of the string, which is behind the
table: `prefixSize` is the size of the table.  The two parts are kept apart here, and a pointer into the
copy is its offset there.  What is written is recorded by its place in the block.  `memory` says which
sizes `calloc` finds memory for.
-/

namespace FreeRDP.Cmdline

open Traced

/-! ### Strings and memory -/

/-- The bytes of a C string, without the one that ends it. -/
@[ext]
structure CString where
  bytes : List UInt8
  nul_notMem : 0 ∉ bytes
deriving DecidableEq

/-- `strlen`. -/
def CString.length (s : CString) : ℕ := s.bytes.length

theorem nul_notMem_takeWhile (bytes : List UInt8) : 0 ∉ bytes.takeWhile (· ≠ 0) := by
  intro h
  simpa using List.mem_takeWhile_imp h

def cStringAt (bytes : List UInt8) (offset : ℕ) : CString :=
  ⟨(bytes.drop offset).takeWhile (· ≠ 0), nul_notMem_takeWhile _⟩

/-- `strchr`, which gives the offset from the beginning of the string. -/
def strchr (s : CString) (c : UInt8) : Option ℕ := s.bytes.findIdx? (· == c)

/-- A number as a `size_t`. -/
def toSize (n : ℕ) : ℕ := n % 2 ^ 64

def INT_MAX : ℕ := 2 ^ 31 - 1

/-- An `int` as a `size_t`. -/
def sizeOfInt (n : ℤ) : ℕ := (n.bmod (2 ^ 32) % 2 ^ 64).toNat

/-- `sizeof (char*)`. -/
def pointerSize : ℕ := 8

/-- `calloc`: the number of bytes, if there is memory for them. -/
def calloc (memory : ℕ → Bool) (n size : ℕ) : Option ℕ :=
  if n * size < 2 ^ 64 ∧ memory (n * size) = true then some (n * size) else none

inductive Write where
  | pointer (offset : ℕ)
  | bytes (offset n : ℕ)
  deriving DecidableEq, Repr

/-- The pointers are written to the table, and the bytes behind it. -/
def InBlock (prefixSize size : ℕ) : Write → Prop
  | .pointer offset => offset + pointerSize ≤ prefixSize
  | .bytes offset n => prefixSize ≤ offset ∧ offset + n ≤ size

/-- Bytes are written over others. -/
def overwrite (str : List UInt8) (offset : ℕ) (bytes : List UInt8) : List UInt8 :=
  str.take offset ++ bytes ++ str.drop (offset + bytes.length)

def comma : UInt8 := 44

/-! ### Splitting -/

/-- A pointer to the argument `name`, or to the copy of the string. -/
inductive Pointer where
  | name
  | text (offset : ℕ)
  deriving DecidableEq, Repr

structure Block where
  table : List (Option Pointer)
  text : List UInt8
deriving DecidableEq, Repr

structure Values where
  block : Block
  count : ℕ
deriving DecidableEq, Repr

def Block.deref (block : Block) (name : Option CString) : Option Pointer → Option CString
  | some (.text offset) => some (cStringAt block.text offset)
  | some .name => name
  | none => none

/-- The strings of the values; `name` is the argument of the parser. -/
def Values.strings (values : Values) (name : Option CString) : List CString :=
  (values.block.table.take values.count).filterMap (values.block.deref name)

def CString.drop (s : CString) (n : ℕ) : CString :=
  ⟨s.bytes.drop n, fun h => s.nul_notMem (List.mem_of_mem_drop h)⟩

def countCommas (list : CString) : ℕ :=
  match h : strchr list comma with
  | some offset => countCommas (list.drop (offset + 1)) + 1
  | none => 0
termination_by list.length
decreasing_by
  have hlt := (List.findIdx?_eq_some_iff_findIdx_eq.mp h).1
  change (list.bytes.drop (offset + 1)).length < list.bytes.length
  rw [List.length_drop]
  omega

/-- The loop body that fills the table; `str` is an offset in the copy. -/
def splitStep (prefixSize : ℕ) (s : Block × ℕ) (index : ℕ) : Traced Write (Block × ℕ) := do
  let (block, str) := s
  access (.pointer (pointerSize * index))
  let table := block.table.set index (some (.text str))
  match strchr (cStringAt block.text str) comma with
  | some offset => do
    access (.bytes (prefixSize + (str + offset)) 1)
    return (⟨table, block.text.set (str + offset) 0⟩, str + offset + 1)
  | none => return (⟨table, block.text⟩, str)

/-- `CommandLineParseCommaSeparatedValuesEx` without a list. -/
def parseName (memory : ℕ → Bool) (name : CString) : Traced Write (Option Values) :=
  match calloc memory (toSize (2 + name.length)) pointerSize with
  | none => return none
  | some size => do
    access (.pointer 0)
    access (.bytes pointerSize (name.length + 1))
    let text := overwrite (List.replicate (size - pointerSize) 0) 0 (name.bytes ++ [0])
    return some ⟨⟨[some (.text 0)], text⟩, 1⟩

/-- `CommandLineParseCommaSeparatedValuesEx` with a list. -/
def parseList (memory : ℕ → Bool) (name : Option CString) (list : CString) :
    Traced Write (Option Values) :=
  let nCommas := countCommas list
  let first := if name.isSome then 1 else 0
  let nArgs := toSize (nCommas + 1 + first)
  let prefixSize := toSize (toSize (nArgs + 1) * pointerSize)
  match calloc memory (toSize (list.length + prefixSize + 1)) pointerSize with
  | none => return none
  | some size => do
    access (.bytes prefixSize list.length)
    accesses ((List.range first).map fun index => .pointer (pointerSize * index))
    let table := List.replicate first (some .name) ++ List.replicate (nArgs + 1 - first) none
    let text := overwrite (List.replicate (size - prefixSize) 0) 0 list.bytes
    let s ← (List.range' first (nArgs - first)).foldlM (splitStep prefixSize) (⟨table, text⟩, 0)
    return some ⟨s.1, nArgs⟩

/-- `CommandLineParseCommaSeparatedValuesEx`, with a place for the count. -/
def commandLineParseCommaSeparatedValuesEx (memory : ℕ → Bool) (name list : Option CString) :
    Traced Write (Option Values) :=
  match list, name with
  | some list, name => parseList memory name list
  | none, some name => parseName memory name
  | none, none => return none

def commandLineParseCommaSeparatedValues (memory : ℕ → Bool) (list : Option CString) :
    Traced Write (Option Values) :=
  commandLineParseCommaSeparatedValuesEx memory none list

/-! ### Joining -/

/-- `_snprintf` of `"%s,"` to an offset of the block, with its result. -/
def snprintf (str : List UInt8) (offset n : ℕ) (arg : CString) : Traced Write (List UInt8 × ℤ) := do
  let text := arg.bytes ++ [comma]
  let stored := if n = 0 then [] else text.take (n - 1) ++ [0]
  access (.bytes offset stored.length)
  return (overwrite str offset stored, if text.length ≤ INT_MAX then (text.length : ℤ) else -1)

/-- `tolower`. -/
def toLower (b : UInt8) : UInt8 := if 65 ≤ b ∧ b ≤ 90 then b + 32 else b

def filtered (arg : CString) (filters : List CString) : Option CString :=
  if filters = [] then some arg
  else
    (filters.find? fun filter =>
      (arg.bytes.take filter.length).map toLower == filter.bytes.map toLower).map fun filter =>
        arg.drop filter.length

/-- The loop that joins; `size` is the one of the block. -/
def joinLoop (filters : List CString) (size : ℕ) :
    List CString → List UInt8 → ℕ → Traced Write (Option (List UInt8 × ℕ))
  | [], str, offset => return some (str, offset)
  | value :: argv, str, offset =>
    match filtered value filters with
    | none => joinLoop filters size argv str offset
    | some arg => do
      let (str, rc) ← snprintf str offset (toSize (size + 2 ^ 64 - offset)) arg
      if rc ≤ 0 then return none
      else joinLoop filters size argv str (toSize (offset + rc.toNat))

def commandLineToCommaSeparatedValuesEx (memory : ℕ → Bool) (argc : ℤ) (argv : Option (List CString))
    (filters : List CString) : Traced Write (Option CString) :=
  match argv with
  | none => return none
  | some argv =>
    if argc ≤ 0 then return none
    else
      let argv := argv.take argc.toNat
      let size := argv.foldl (fun size arg => toSize (size + arg.length)) (sizeOfInt (argc + 1))
      match calloc memory size 1 with
      | none => return none
      | some size => do
        match ← joinLoop filters size argv (List.replicate size 0) 0 with
        | none => return none
        | some (str, offset) =>
          if offset > 0 then do
            access (.bytes (offset - 1) 1)
            return some (cStringAt (str.set (offset - 1) 0) 0)
          else return some (cStringAt str 0)

def commandLineToCommaSeparatedValues (memory : ℕ → Bool) (argc : ℤ) (argv : Option (List CString)) :
    Traced Write (Option CString) :=
  commandLineToCommaSeparatedValuesEx memory argc argv []

end FreeRDP.Cmdline
