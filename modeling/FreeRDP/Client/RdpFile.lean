import FreeRDP.Lib.Traced
import Mathlib.Algebra.Group.Int.Defs
import Mathlib.Algebra.Group.Nat.Defs

/-!
# The line table of a `.rdp` file

`freerdp_client_parse_rdp_file_buffer` and the functions that set and get options, of
`client/common/file.c`.  A file has a table of lines; a line of the form `name:type:value` is *formatted*,
and an option is looked up by its name among the formatted lines.

A C string is the list of its bytes, without the one that ends it.  The functions record at which places of
the table they write, next to its size, and which line they fill in, next to the one that is the last.
`Memory` says which allocations of a line succeed.  `ConvertFromUnicode` is a parameter.

The fields of `rdpFile` for the standard options and `args` are left out, and so is `trim_strings`, which
only changes such fields.
-/

namespace FreeRDP.Client

open Traced

/-! ### Strings -/

abbrev CString := List UInt8

def cString (s : String) : CString := s.toList.map fun c => UInt8.ofNat c.toNat

def toLower (b : UInt8) : UInt8 := if 65 ≤ b ∧ b ≤ 90 then b + 32 else b

/-- `_stricmp` gives 0. -/
def sameName (name name' : CString) : Bool := name.map toLower == name'.map toLower

def isSpace (b : UInt8) : Bool := b = 32 || (9 ≤ b && b ≤ 13)

def digitValue (base : ℕ) (b : UInt8) : Option ℕ :=
  let digit :=
    if 48 ≤ b ∧ b ≤ 57 then b.toNat - 48
    else if 97 ≤ toLower b ∧ toLower b ≤ 122 then (toLower b).toNat - 97 + 10
    else base
  if digit < base then some digit else none

def digitsOf (base : ℕ) : CString → List ℕ
  | [] => []
  | b :: s =>
    match digitValue base b with
    | some digit => digit :: digitsOf base s
    | none => []

/-- The base of a number, by its first digits, and where the digits of that base begin. -/
def baseOf (s : CString) : ℕ × CString :=
  let digits := s.drop 2
  if s.head? = some 48 then
    if (s[1]?.map toLower) = some 120 ∧ digitsOf 16 digits ≠ [] then (16, digits) else (8, s)
  else (10, s)

/-- `strtol` with base 0, without the bounds of a `long`; `none` where there are no digits. -/
def strtol (s : CString) : Option ℤ :=
  let s := s.dropWhile isSpace
  let negative := s.head? = some 45
  let (base, s) := baseOf (if negative ∨ s.head? = some 43 then s.drop 1 else s)
  let digits := digitsOf base s
  if digits = [] then none
  else
    let n := digits.foldl (fun n digit => n * base + digit) 0
    some (if negative then -(n : ℤ) else n)

/-! ### Standard options -/

/-- The names of `freerdp_client_rdp_file_set_integer`. -/
def integerNames : List String :=
  ["use multimon", "maximizetocurrentdisplays", "singlemoninwindowedmode", "screen mode id",
    "span monitors", "smart sizing", "dynamic resolution", "enablesuperpan",
    "superpanaccelerationfactor", "desktopwidth", "desktopheight", "desktop size id",
    "session bpp", "desktopscalefactor", "compression", "keyboardhook", "disable ctrl+alt+del",
    "audiomode", "audioqualitymode", "audiocapturemode", "encode redirected video capture",
    "redirected video capture encoding quality", "videoplaybackmode", "connection type",
    "networkautodetect", "bandwidthautodetect", "pinconnectionbar", "displayconnectionbar",
    "workspaceid", "enableworkspacereconnect", "disable wallpaper", "allow font smoothing",
    "allow desktop composition", "disable full window drag", "disable menu anims",
    "disable themes", "disable cursor setting", "bitmapcachesize", "bitmapcachepersistenable",
    "server port", "redirectdrives", "redirectprinters", "redirectcomports", "redirectsmartcards",
    "redirectclipboard", "redirectposdevices", "redirectdirectx", "disableprinterredirection",
    "disableclipboardredirection", "connect to console", "administrative session",
    "autoreconnection enabled", "autoreconnect max retries", "public mode", "authentication level",
    "promptcredentialonce", "prompt for credentials", "negotiate security layer",
    "enablecredsspsupport", "remoteapplicationmode", "remoteapplicationexpandcmdline",
    "remoteapplicationexpandworkingdir", "disableconnectionsharing", "disableremoteappcapscheck",
    "gatewayusagemethod", "gatewayprofileusagemethod", "gatewaycredentialssource",
    "use redirection server name", "rdgiskdcproxy"]

/-- The names of `freerdp_client_rdp_file_set_string`. -/
def stringNames : List String :=
  ["username", "domain", "password", "full address", "alternate full address",
    "usbdevicestoredirect", "camerastoredirect", "loadbalanceinfo", "remoteapplicationname",
    "remoteapplicationicon", "remoteapplicationprogram", "remoteapplicationfile",
    "remoteapplicationguid", "remoteapplicationcmdline", "alternate shell",
    "shell working directory", "gatewayhostname", "gatewayaccesstoken", "kdcproxyname",
    "drivestoredirect", "devicestoredirect", "winposstr", "pcb", "selectedmonitors"]

def isStandard (names : List String) (name : CString) : Bool :=
  names.any fun standard => sameName name (cString standard)

/-! ### Files -/

def INT_MAX : ℕ := 2 ^ 31 - 1

def INT32_MAX : ℤ := 2 ^ 31 - 1

def INT32_MIN : ℤ := -2 ^ 31

/-- `struct rdp_file_line`.  The flags are those of `RDP_FILE_LINE_FLAG`; `none` is `NULL`. -/
structure RdpFileLine where
  text : CString
  name : Option CString
  sValue : Option CString
  index : ℕ
  iValue : ℤ
  formatted : Bool
  standard : Bool
  typeString : Bool
  typeInteger : Bool
deriving DecidableEq, Repr

def RdpFileLine.ofText (text : CString) (index : ℕ) : RdpFileLine :=
  ⟨text, none, none, index, 0, false, false, false, false⟩

/-- The line table of `struct rdp_file`.  `relaxed` is `RDP_FILE_FLAG_PARSE_INT_RELAXED`. -/
structure RdpFile where
  lines : ℕ → RdpFileLine
  lineCount : ℕ
  lineSize : ℕ
  relaxed : Bool

/-- `freerdp_client_rdp_file_new_ex`, which fills the flags with ones after it has set them. -/
def rdpFileNew : RdpFile := ⟨fun _ => .ofText [] 0, 0, 32, true⟩

/-- The allocations of a line or of an option that succeed: the table that grows, the text of a new line,
an argument, the copy of the value or of the text, the field of a standard option, and the name and the
string of a line. -/
structure Memory where
  table : Bool
  text : Bool
  argument : Bool
  copy : Bool
  field : Bool
  name : Bool
  sValue : Bool
deriving DecidableEq, Repr

/-- All of them. -/
def Memory.plenty : Memory := ⟨true, true, true, true, true, true, true⟩

inductive Access where
  /-- `lines[i]` is written, in a table of `size` lines. -/
  | line (i size : ℕ)
  /-- The line `i` is filled in, and the line `last` has been appended. -/
  | fill (i last : ℕ)
  /-- `strtok_s` goes on in a text that there is not. -/
  | noText
  deriving DecidableEq, Repr

namespace RdpFile

def setLine (i : ℕ) (line : RdpFileLine) (file : RdpFile) : RdpFile :=
  { file with lines := Function.update file.lines i line }

/-! ### Adding a line -/

/-- The loop that doubles the table until there is room for a line.  A line has 56 bytes; no memory has
`2 ^ 63`. -/
def growLines (memory : Memory) : ℕ → RdpFile → Option RdpFile
  | 0, file => some file
  | rounds + 1, file =>
    if file.lineCount + 1 > file.lineSize then
      let new_size := file.lineSize * 2
      if memory.table ∧ new_size * 56 < 2 ^ 63 then
        growLines memory rounds { file with lineSize := new_size }
      else none
    else some file

/-- `freerdp_client_parse_rdp_file_add_line`. -/
def addLine (memory : Memory) (line : CString) (index : ℤ) (file : RdpFile) :
    Traced Access (ℤ × RdpFile) :=
  let index := if index < 0 then (file.lineCount : ℤ) else index
  match file.growLines memory (file.lineCount + 1) with
  | none => pure (-1, file)
  | some file => do
    access (.line file.lineCount file.lineSize)
    let file := file.setLine file.lineCount (.ofText line index.toNat)
    if memory.text then pure (index, { file with lineCount := file.lineCount + 1 })
    else pure (-1, file)

/-! ### Filling a line in -/

/-- The line `index` is looked up to be filled in. -/
def touch (index : ℕ) (file : RdpFile) : Traced Access RdpFileLine := do
  access (.line index file.lineSize)
  access (.fill index (file.lineCount - 1))
  pure (file.lines index)

/-- `freerdp_client_rdp_file_set_integer`. -/
def setInteger (memory : Memory) (name : CString) (value index : ℤ) (file : RdpFile) :
    Traced Access (Bool × RdpFile) :=
  if value < 0 then pure (false, file)
  else
    let standard := isStandard integerNames name
    if index < 0 then pure (!standard, file)
    else do
      let line ← file.touch index.toNat
      if memory.name then
        pure (!standard, file.setLine index.toNat
          { line with
            name := some name
            iValue := value
            formatted := true
            standard := standard
            typeString := false
            typeInteger := true })
      else pure (false, file.setLine index.toNat { line with name := none })

/-- `freerdp_client_rdp_file_set_string`.  What has been freed is as good as `NULL`. -/
def setString (memory : Memory) (name value : CString) (index : ℤ) (file : RdpFile) :
    Traced Access (ℤ × RdpFile) :=
  let standard := isStandard stringNames name
  let result : ℤ := if standard then 0 else 1
  if standard ∧ ¬ memory.field then pure (-1, file)
  else if index < 0 then pure (result, file)
  else do
    let line ← file.touch index.toNat
    if memory.name ∧ memory.sValue then
      pure (result, file.setLine index.toNat
        { line with
          name := some name
          sValue := some value
          formatted := true
          standard := standard
          typeString := true
          typeInteger := false })
    else pure (-1, file.setLine index.toNat { line with name := none, sValue := none })

/-! ### Parsing -/

/-- `freerdp_client_parse_rdp_file_integer`. -/
def parseInteger (memory : Memory) (name value : CString) (index : ℤ) (file : RdpFile) :
    Traced Access (Bool × RdpFile) :=
  match (strtol value).filter fun ivalue => INT32_MIN ≤ ivalue ∧ ivalue ≤ INT32_MAX with
  | none => pure (file.relaxed, file)
  | some ivalue => do
    let (_, file) ← file.setInteger memory name ivalue index
    pure (true, file)

/-- `freerdp_client_parse_rdp_file_string`. -/
def parseString (memory : Memory) (name value : CString) (index : ℤ) (file : RdpFile) :
    Traced Access (Bool × RdpFile) :=
  if memory.copy then do
    let (result, file) ← file.setString memory name value index
    pure (result ≠ -1, file)
  else pure (false, file)

end RdpFile

/-- What is in a line: an option of the command line, a name, a type and a value, or something else. -/
inductive LineContent where
  | argument
  | field (name : CString) (type : UInt8) (value : CString)
  | other
  deriving DecidableEq, Repr

/-- The parts of a line.  The type is one byte between two colons, neither of them in front of the name. -/
def contentOf (line : CString) : LineContent :=
  if line.head? = some 47 then .argument
  else
    let name := line.takeWhile (· ≠ 58)
    match line.drop name.length with
    | _ :: type :: colon :: value =>
      if type ≠ 58 ∧ colon = 58 then .field name type value else .other
    | _ => .other

namespace RdpFile

/-- One line of the loop of `freerdp_client_parse_rdp_file_buffer_ex`, and whether the loop goes on. -/
def parseLine (memory : Memory) (size index : ℕ) (line : CString) (file : RdpFile) :
    Traced Access (Bool × RdpFile) :=
  if min line.length size > 1 then do
    let (added, file) ← file.addLine memory line index
    if added = -1 then pure (false, file)
    else
      match contentOf line with
      | .argument => pure (memory.argument, file)
      | .field name type value =>
        if type = 105 then file.parseInteger memory name value index
        else if type = 115 then file.parseString memory name value index
        else pure (true, file)
      | .other => pure (true, file)
  else pure (true, file)

/-- The loop of `freerdp_client_parse_rdp_file_buffer_ex` from the line `index` on. -/
def parseLines (memory : ℕ → Memory) (size : ℕ) :
    ℕ → List CString → RdpFile → Traced Access (Bool × RdpFile)
  | _, [], file => pure (true, file)
  | index, line :: lines, file => do
    let (goesOn, file) ← file.parseLine (memory index) size index line
    if goesOn then parseLines memory size (index + 1) lines file else pure (false, file)

end RdpFile

/-- What `strtok_s` returns, call after call. -/
def linesOf (text : CString) : List CString :=
  ((text.takeWhile (· ≠ 0)).splitOnP fun b => b = 13 || b = 10).filter (· ≠ [])

/-- What `ConvertFromUnicode` comes to: it fails, gives nothing, or a text. -/
inductive Converted where
  | failed
  | nothing
  | text (text : CString)
  deriving DecidableEq, Repr

/-- The text of a buffer, and the size that bounds a line.  `copy` is whether the allocation succeeds. -/
def textOf (convert : List UInt8 → Converted) (copy : Bool) (buffer : List UInt8) : Converted × ℕ :=
  let size := buffer.length
  if size < 2 then (.failed, size)
  else if buffer.take 2 = [0xff, 0xfe] then
    let size := size / 2 - 1
    if size > INT_MAX then (.failed, size)
    else (convert ((buffer.drop 2).take (2 * size)), size)
  else if copy then (.text buffer, size)
  else (.failed, size)

/-- `freerdp_client_parse_rdp_file_buffer`, without a callback. -/
def parseRdpFileBuffer (convert : List UInt8 → Converted) (copy : Bool) (memory : ℕ → Memory)
    (buffer : List UInt8) (file : RdpFile) : Traced Access (Bool × RdpFile) :=
  match textOf convert copy buffer with
  | (.failed, _) => pure (false, file)
  | (.nothing, _) => do
    access .noText
    pure (false, file)
  | (.text text, size) => file.parseLines memory size 0 (linesOf text)

/-! ### Options -/

/-- `freerdp_client_rdp_file_find_line_by_name`: the index of the line. -/
def findLineByName (name : CString) (file : RdpFile) : Option ℕ :=
  (List.range file.lineCount).find? fun index =>
    (file.lines index).formatted && (file.lines index).name.any (sameName name)

/-- What the functions that set an option share: the line of the name is changed, or a line with `text`
is added and filled in. -/
def setOption (memory : Memory) (name text : CString) (change : RdpFileLine → ℤ × RdpFileLine)
    (failed : ℤ → Bool) (fill : ℤ → RdpFile → Traced Access (ℤ × RdpFile)) (file : RdpFile) :
    Traced Access (ℤ × RdpFile) :=
  if INT_MAX < text.length ∨ ¬ memory.copy then pure (-1, file)
  else
    match findLineByName name file with
    | some i =>
      let (result, line) := change (file.lines i)
      pure (result, file.setLine i line)
    | none => do
      let (index, file) ← file.addLine memory text (-1)
      if failed index then pure (-1, file) else fill index file

/-- `freerdp_client_rdp_file_set_string_option`. -/
def setStringOption (memory : Memory) (name value : CString) : RdpFile → Traced Access (ℤ × RdpFile) :=
  let text := name ++ cString ":s:" ++ value
  setOption memory name text
    (fun line =>
      if memory.sValue then (0, { line with sValue := some value, text := text })
      else (-1, { line with sValue := none }))
    (fun index => index = -1)
    fun index file => do
      let (result, file) ← file.setString memory name value index
      pure (if result = -1 then -1 else 0, file)

/-- `freerdp_client_rdp_file_get_string_option`. -/
def getStringOption (name : CString) (file : RdpFile) : Option CString := do
  let i ← findLineByName name file
  if (file.lines i).typeString then (file.lines i).sValue else none

/-- `freerdp_client_rdp_file_set_integer_option`. -/
def setIntegerOption (memory : Memory) (name : CString) (value : ℤ) :
    RdpFile → Traced Access (ℤ × RdpFile) :=
  let text := name ++ cString ":i:" ++ cString (toString value)
  setOption memory name text (fun line => (0, { line with iValue := value, text := text }))
    (fun index => index < 0)
    fun index file => do
      let (_, file) ← file.setInteger memory name value index
      pure (0, file)

/-- `freerdp_client_rdp_file_get_integer_option`. -/
def getIntegerOption (name : CString) (file : RdpFile) : ℤ :=
  match findLineByName name file with
  | some i => if (file.lines i).typeInteger then (file.lines i).iValue.bmod (2 ^ 32) else -1
  | none => -1

/-! ### Calls -/

inductive Call where
  | parse (copy : Bool) (memory : ℕ → Memory) (buffer : List UInt8)
  | setString (memory : Memory) (name value : CString)
  | setInteger (memory : Memory) (name : CString) (value : ℤ)

def Call.run (convert : List UInt8 → Converted) (file : RdpFile) : Call → Traced Access RdpFile
  | parse copy memory buffer => do
    let (_, file) ← parseRdpFileBuffer convert copy memory buffer file
    pure file
  | setString memory name value => do
    let (_, file) ← setStringOption memory name value file
    pure file
  | setInteger memory name value => do
    let (_, file) ← setIntegerOption memory name value file
    pure file

end FreeRDP.Client
