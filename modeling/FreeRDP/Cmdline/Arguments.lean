import FreeRDP.Cmdline.CommaSeparated

/-!
# Arguments of a command line

`CommandLineParseArgumentsA` of `winpr/libwinpr/utils/cmdline.c`, without filters.  An argument has a sigil, a
keyword, and possibly a separator with a value.  The options with this keyword are set; depending on the
flags, the value of an option is the argument that comes next.

An index of an argument is an `int`, and each one at which `argv` is read is recorded.  The loop over the
arguments is `loop` of its body, as the body may change the index.
-/

namespace FreeRDP.Cmdline

open Traced

/-! ### Flags -/

/-- `COMMAND_LINE_VALUE_FLAG`. -/
def VALUE_FLAG : UInt32 := 0x00000001
/-- `COMMAND_LINE_VALUE_REQUIRED`. -/
def VALUE_REQUIRED : UInt32 := 0x00000002
/-- `COMMAND_LINE_VALUE_OPTIONAL`. -/
def VALUE_OPTIONAL : UInt32 := 0x00000004
/-- `COMMAND_LINE_VALUE_BOOL`. -/
def VALUE_BOOL : UInt32 := 0x00000008
/-- `COMMAND_LINE_PRINT`. -/
def PRINT : UInt32 := 0x00000200
/-- `COMMAND_LINE_PRINT_HELP`. -/
def PRINT_HELP : UInt32 := 0x00000400
/-- `COMMAND_LINE_PRINT_VERSION`. -/
def PRINT_VERSION : UInt32 := 0x00000800
/-- `COMMAND_LINE_PRINT_BUILDCONFIG`. -/
def PRINT_BUILDCONFIG : UInt32 := 0x00001000
/-- `COMMAND_LINE_ARGUMENT_PRESENT`. -/
def ARGUMENT_PRESENT : UInt32 := 0x80000000
/-- `COMMAND_LINE_VALUE_PRESENT`. -/
def VALUE_PRESENT : UInt32 := 0x40000000
/-- `COMMAND_LINE_SIGIL_NONE`. -/
def SIGIL_NONE : UInt32 := 0x00000001
/-- `COMMAND_LINE_SIGIL_SLASH`. -/
def SIGIL_SLASH : UInt32 := 0x00000002
/-- `COMMAND_LINE_SIGIL_DASH`. -/
def SIGIL_DASH : UInt32 := 0x00000004
/-- `COMMAND_LINE_SIGIL_DOUBLE_DASH`. -/
def SIGIL_DOUBLE_DASH : UInt32 := 0x00000008
/-- `COMMAND_LINE_SIGIL_PLUS_MINUS`. -/
def SIGIL_PLUS_MINUS : UInt32 := 0x00000010
/-- `COMMAND_LINE_SIGIL_ENABLE_DISABLE`. -/
def SIGIL_ENABLE_DISABLE : UInt32 := 0x00000020
/-- `COMMAND_LINE_SIGIL_NOT_ESCAPED`. -/
def SIGIL_NOT_ESCAPED : UInt32 := 0x00000040
/-- `COMMAND_LINE_SEPARATOR_COLON`. -/
def SEPARATOR_COLON : UInt32 := 0x00000100
/-- `COMMAND_LINE_SEPARATOR_EQUAL`. -/
def SEPARATOR_EQUAL : UInt32 := 0x00000200
/-- `COMMAND_LINE_SEPARATOR_SPACE`. -/
def SEPARATOR_SPACE : UInt32 := 0x00000400
/-- `COMMAND_LINE_IGN_UNKNOWN_KEYWORD`. -/
def IGN_UNKNOWN_KEYWORD : UInt32 := 0x00001000

/-- What `CommandLineParseArgumentsA` returns. -/
inductive Status where
  | ok
  | error
  | noKeyword
  | unexpectedValue
  | missingValue
  | print
  | printHelp
  | printVersion
  | printBuildconfig
  deriving DecidableEq, Repr

/-! ### Options -/

/-- The `Value` of an option: what the table has at first, one of the constants, or a string. -/
inductive Value where
  | null
  | one
  | string (s : CString)
  deriving DecidableEq

/-- `BoolValueTrue` and `BoolValueFalse`. -/
def boolValue : Bool → Value
  | true => .one
  | false => .null

/-- `COMMAND_LINE_ARGUMENT_A`. -/
structure Argument where
  name : CString
  flags : UInt32
  value : Value
  index : ℤ
  aliasName : Option CString
deriving DecidableEq

def hasFlag (flags mask : UInt32) : Bool := flags &&& mask != 0

def literal (s : String) : List UInt8 := s.toList.map fun c => UInt8.ofNat c.toNat

/-- `strncmp` finds no difference. -/
def sameStart (n : ℕ) (s t : List UInt8) : Bool := s.take n == t.take n

/-- A character of a string, which is 0 at its end. -/
def CString.get (s : CString) (k : ℕ) : UInt8 := s.bytes.getD k 0

def charCode (c : Char) : UInt8 := UInt8.ofNat c.toNat

def Argument.isKeyword (option : Argument) (keyword : CString) (keywordLength : ℕ) : Bool :=
  let same (name : CString) := sameStart keywordLength name.bytes keyword.bytes &&
    name.length == keywordLength
  same option.name || option.aliasName.any same

/-! ### One argument -/

/-- `sigil_length`, `escaped` and `notescaped`. -/
structure Sigil where
  length : ℕ
  escaped : Bool
  notescaped : Bool
  deriving DecidableEq, Repr

/-- The sigil of an argument; `none` is an error. -/
def sigilOf (flags : UInt32) (notescaped : Bool) (sigil : CString) : Option Sigil :=
  if sigil.get 0 = charCode '/' ∧ hasFlag flags SIGIL_SLASH then some ⟨1, true, notescaped⟩
  else if sigil.get 0 = charCode '-' ∧ hasFlag flags SIGIL_DASH then
    if sigil.length > 2 ∧ sigil.get 1 = charCode '-' ∧ hasFlag flags SIGIL_DOUBLE_DASH then
      some ⟨2, true, notescaped⟩
    else some ⟨1, true, notescaped⟩
  else if sigil.get 0 = charCode '+' ∧ hasFlag flags SIGIL_PLUS_MINUS then some ⟨1, true, notescaped⟩
  else if sigil.get 0 = charCode '-' ∧ hasFlag flags SIGIL_PLUS_MINUS then some ⟨1, true, notescaped⟩
  else if hasFlag flags SIGIL_NONE then some ⟨0, true, notescaped⟩
  else if hasFlag flags SIGIL_NOT_ESCAPED then
    if notescaped then none else some ⟨0, false, true⟩
  else none

/-- `keyword`, `keyword_length`, `toggle` and `value`. -/
structure Keyword where
  keyword : CString
  keywordLength : ℕ
  toggle : Option Bool
  value : Option CString
  deriving DecidableEq

def keywordOf (flags : UInt32) (argument : CString) : Keyword :=
  let enableDisable := hasFlag flags SIGIL_ENABLE_DISABLE
  let (keyword, toggle) :=
    if enableDisable ∧ sameStart 7 argument.bytes (literal "enable-") then
      (argument.drop 7, some true)
    else if enableDisable ∧ sameStart 8 argument.bytes (literal "disable-") then
      (argument.drop 8, some false)
    else (argument, none)
  let colon := if hasFlag flags SEPARATOR_COLON then strchr keyword (charCode ':') else none
  let separator := colon.or
    (if hasFlag flags SEPARATOR_EQUAL then strchr keyword (charCode '=') else none)
  match separator with
  | some offset => ⟨keyword, offset, toggle, some (keyword.drop (offset + 1))⟩
  | none => ⟨keyword, keyword.length, toggle, none⟩

/-! ### The options of a keyword -/

def argAt (argv : List CString) (i : ℤ) : Traced ℤ CString :=
  ⟨argv.getD i.toNat ⟨[], List.not_mem_nil⟩, [i]⟩

/-- `i` and `value`. -/
structure Cursor where
  i : ℤ
  value : Option CString
  deriving DecidableEq

def valuePresent (flags : UInt32) (argv : List CString) (i : ℤ) : Traced ℤ Bool := do
  let present ← if hasFlag flags SIGIL_DASH then do
      let next ← argAt argv (i + 1)
      pure !(sameStart 1 next.bytes (literal "-"))
    else pure true
  let present ← if hasFlag flags SIGIL_DOUBLE_DASH then do
      let next ← argAt argv (i + 1)
      pure (present && !(sameStart 2 next.bytes (literal "--")))
    else pure present
  if hasFlag flags SIGIL_SLASH then do
    let next ← argAt argv (i + 1)
    return present && !(sameStart 1 next.bytes (literal "/"))
  else return present

/-- The value of an option may be the argument that comes next. -/
def nextValue (flags : UInt32) (argv : List CString) (option : Argument) (c : Cursor) :
    Traced ℤ (Except Status Cursor) :=
  if hasFlag flags SEPARATOR_SPACE ∧ c.i + 1 < argv.length then do
    let present ← valuePresent flags argv c.i
    let argument := hasFlag option.flags VALUE_REQUIRED || hasFlag option.flags VALUE_OPTIONAL
    if present ∧ argument then do
      let value ← argAt argv (c.i + 1)
      return .ok ⟨c.i + 1, some value⟩
    else if !present ∧ hasFlag option.flags VALUE_OPTIONAL then return .ok { c with value := none }
    else if !present ∧ argument then do
      let _ ← argAt argv c.i
      return .error .error
    else return .ok c
  else return .ok c

def dropFlagValue (flags : UInt32) (argv : List CString) (option : Argument) (c : Cursor) :
    Traced ℤ (Except Status Cursor) :=
  if c.value.isSome ∧ hasFlag option.flags VALUE_FLAG then
    if hasFlag flags SEPARATOR_SPACE then return .ok ⟨c.i - 1, none⟩
    else do
      let _ ← argAt argv c.i
      return .error .unexpectedValue
  else return .ok c

def flagValue (flags : UInt32) (sigil : CString) (toggle : Option Bool) (option : Argument) : Argument :=
  if hasFlag option.flags VALUE_FLAG then
    { option with value := .one, flags := option.flags ||| VALUE_PRESENT }
  else if hasFlag option.flags VALUE_BOOL then
    let value :=
      if hasFlag flags SIGIL_ENABLE_DISABLE then boolValue (toggle.getD true)
      else boolValue (sigil.get 0 != charCode '-')
    { option with value := value, flags := option.flags ||| VALUE_PRESENT }
  else option

/-- The flags that end the parsing. -/
def printStatus (option : Argument) : Option Status :=
  if hasFlag option.flags PRINT then some .print
  else if hasFlag option.flags PRINT_HELP then some .printHelp
  else if hasFlag option.flags PRINT_VERSION then some .printVersion
  else if hasFlag option.flags PRINT_BUILDCONFIG then some .printBuildconfig
  else none

def endRound (option : Argument) (c : Cursor) : Argument × Except Status Cursor :=
  match printStatus option with
  | some status => (option, .error status)
  | none => (option, .ok c)

/-- An option whose keyword has been found is set. -/
def setOption (flags : UInt32) (argv : List CString) (sigil : CString) (toggle : Option Bool)
    (option : Argument) (c : Cursor) : Traced ℤ (Argument × Except Status Cursor) :=
  let present := { option with flags := option.flags ||| ARGUMENT_PRESENT }
  match c.value with
  | none =>
    if hasFlag option.flags VALUE_REQUIRED then do
      let _ ← argAt argv c.i
      return (option, .error .missingValue)
    else return endRound (flagValue flags sigil toggle present) c
  | some value =>
    if hasFlag present.flags (VALUE_OPTIONAL ||| VALUE_REQUIRED) then
      return endRound
        { present with value := .string value, flags := present.flags ||| VALUE_PRESENT } c
    else do
      let _ ← argAt argv c.i
      return (present, .error .unexpectedValue)

/-- The loop body for an option with the keyword. -/
def applyOption (flags : UInt32) (argv : List CString) (sigil : CString) (toggle : Option Bool)
    (option : Argument) (c : Cursor) : Traced ℤ (Argument × Except Status Cursor) := do
  let option := { option with index := c.i }
  match ← nextValue flags argv option c with
  | .error status => return (option, .error status)
  | .ok c =>
    match ← dropFlagValue flags argv option c with
    | .error status => return (option, .error status)
    | .ok c => setOption flags argv sigil toggle option c

def matchOptions (flags : UInt32) (argv : List CString) (sigil : CString) (k : Keyword) :
    List Argument → Cursor → Bool → Traced ℤ (List Argument × Except Status (Cursor × Bool))
  | [], c, found => return ([], .ok (c, found))
  | option :: options, c, found =>
    if option.isKeyword k.keyword k.keywordLength then do
      let (option, r) ← applyOption flags argv sigil k.toggle option c
      match r with
      | .error status => return (option :: options, .error status)
      | .ok c => do
        let (options, r) ← matchOptions flags argv sigil k options c true
        return (option :: options, r)
    else do
      let (options, r) ← matchOptions flags argv sigil k options c found
      return (option :: options, r)

/-! ### The arguments -/

/-- The state of the loop over the arguments. -/
structure Parser where
  i : ℤ
  notescaped : Bool
  options : List Argument
  deriving DecidableEq

/-- The options of a keyword are set, and the loop goes on. -/
def applyKeyword (flags : UInt32) (argv : List CString) (sigil : CString) (k : Keyword)
    (notescaped : Bool) (s : Parser) : Traced ℤ (Parser ⊕ Status × List Argument) := do
  let (options, r) ← matchOptions flags argv sigil k s.options ⟨s.i, k.value⟩ false
  match r with
  | .error status => return .inr (status, options)
  | .ok (c, found) =>
    if !found ∧ !hasFlag flags IGN_UNKNOWN_KEYWORD then do
      let _ ← argAt argv c.i
      return .inr (.noKeyword, options)
    else return .inl ⟨c.i + 1, notescaped, options⟩

/-- The loop body of `CommandLineParseArgumentsA`. -/
def parseStep (flags : UInt32) (argv : List CString) (s : Parser) :
    Traced ℤ (Parser ⊕ Status × List Argument) :=
  if s.i < argv.length then do
    let sigil ← argAt argv s.i
    match sigilOf flags s.notescaped sigil with
    | none => do
      let _ ← argAt argv s.i
      return .inr (.error, s.options)
    | some g =>
      if sigil.length < g.length + 1 then
        if hasFlag flags IGN_UNKNOWN_KEYWORD then return .inl ⟨s.i + 1, g.notescaped, s.options⟩
        else return .inr (.noKeyword, s.options)
      else if !g.escaped then return .inl ⟨s.i + 1, g.notescaped, s.options⟩
      else applyKeyword flags argv sigil (keywordOf flags (sigil.drop g.length)) g.notescaped s
  else return .inr (.ok, s.options)

/-- `CommandLineParseArgumentsA`, for at most so many rounds; `argc` is the length of `argv`. -/
def commandLineParseArgumentsA (rounds : ℕ) (argv : Option (List CString)) (options : List Argument)
    (flags : UInt32) : Traced ℤ (Option (Status × List Argument)) :=
  match argv with
  | none => return some (.ok, options)
  | some argv =>
    if argv.length = 1 then
      return some (if hasFlag flags IGN_UNKNOWN_KEYWORD then .ok else .printHelp, options)
    else loop (parseStep flags argv) rounds ⟨1, false, options⟩

end FreeRDP.Cmdline
