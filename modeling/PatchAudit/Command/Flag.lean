import PatchAudit.Text.Csv
import PatchAudit.Text.Numeral
import PatchAudit.Text.Quoted

/-!
# Flags

What can be given on the command line besides words: `--name value`, `--name=value`, `-n value`,
`-nvalue` and `-n=value`.  A switch needs no value, and the letters of switches may be put together.
-/

namespace PatchAudit

/-- The flags of all commands. -/
inductive Flag where
  | config
  | debug
  | help
  | format
  | pattern
  | skip
  | jobs
  | cache
  | clearCache
  | stat
  | addr
  | port
  | noDescriptions
  deriving DecidableEq, Repr

namespace Flag

/-- The name of a flag. -/
def name : Flag → Bytes
  | config => "config"
  | debug => "debug"
  | help => "help"
  | format => "format"
  | pattern => "pattern"
  | skip => "skip"
  | jobs => "jobs"
  | cache => "cache"
  | clearCache => "clear-cache"
  | stat => "stat"
  | addr => "addr"
  | port => "port"
  | noDescriptions => "no-descriptions"

/-- The letter of a flag. -/
def letter? : Flag → Option UInt8
  | help => some 0x68
  | format => some 0x66
  | jobs => some 0x6A
  | addr => some 0x61
  | port => some 0x70
  | _ => none

/-- Whether a flag is switched on without a value. -/
def isSwitch : Flag → Bool
  | debug => true
  | help => true
  | cache => true
  | clearCache => true
  | stat => true
  | noDescriptions => true
  | _ => false

/-- A flag as it is named in errors. -/
def label (f : Flag) : Bytes :=
  match f.letter? with
  | some l => "-" ++ [l] ++ ", --" ++ f.name
  | none => "--" ++ f.name

/-- The flag with a name among the ones given. -/
def named? (scope : List Flag) (name : Bytes) : Option Flag := scope.find? (·.name == name)

/-- The flag with a letter among the ones given. -/
def lettered? (scope : List Flag) (l : UInt8) : Option Flag := scope.find? (·.letter? == some l)

end Flag

/-- The values of all flags. -/
structure FlagValues where
  config : Bytes := []
  debug : Bool := false
  help : Bool := false
  format : Bytes := "text"
  pattern : Bytes := []
  /-- The items given so far. -/
  skipItems : List Bytes := []
  jobs : Int := 0
  cache : Bool := false
  clearCache : Bool := false
  stat : Bool := false
  addr : Bytes := "127.0.0.1"
  port : Int := 6142
  noDescriptions : Bool := false
  deriving DecidableEq, Repr

namespace FlagValues

/-- The names to skip.  A list of one empty item is no list. -/
def skip (v : FlagValues) : List Bytes :=
  let written := Csv.write v.skipItems
  if written.isEmpty then [] else (Csv.read written).toOption.getD []

end FlagValues

/-- Why a value does not fit a flag. -/
inductive ValueFault where
  | number (value : Bytes) (why : NumeralFault)
  | switch (value : Bytes)
  | list (why : Csv.Fault)
  deriving DecidableEq, Repr

/-- The wording of a fault. -/
def ValueFault.message : ValueFault → Bytes
  | number value why => "strconv.ParseInt: parsing " ++ Quoted.encode value ++ ": " ++ why.message
  | switch value => "strconv.ParseBool: parsing " ++ Quoted.encode value ++ ": invalid syntax"
  | list why => why.message

namespace Flag

/-- The words that switch a flag on. -/
def onWords : List Bytes := ["1", "t", "T", "TRUE", "true", "True"]

/-- The words that switch a flag off. -/
def offWords : List Bytes := ["0", "f", "F", "FALSE", "false", "False"]

/-- The position of a switch. -/
def switch (value : Bytes) : Except ValueFault Bool :=
  if onWords.contains value then .ok true
  else if offWords.contains value then .ok false
  else .error (.switch value)

/-- A number, in the base that its mark tells. -/
def number (value : Bytes) : Except ValueFault Int :=
  (Numeral.readMarked 64 value).mapError (.number value)

/-- The items of a list. -/
def items (value : Bytes) : Except ValueFault (List Bytes) :=
  if value.isEmpty then .ok [] else (Csv.read value).mapError .list

/-- Gives a flag a value.  The items of a list are put behind those given before. -/
def set (v : FlagValues) (f : Flag) (value : Bytes) : Except ValueFault FlagValues :=
  match f with
  | config => .ok { v with config := value }
  | debug => do return { v with debug := ← switch value }
  | help => do return { v with help := ← switch value }
  | format => .ok { v with format := value }
  | pattern => .ok { v with pattern := value }
  | skip => do return { v with skipItems := v.skipItems ++ (← items value) }
  | jobs => do return { v with jobs := ← number value }
  | cache => do return { v with cache := ← switch value }
  | clearCache => do return { v with clearCache := ← switch value }
  | stat => do return { v with stat := ← switch value }
  | addr => .ok { v with addr := value }
  | port => do return { v with port := ← number value }
  | noDescriptions => do return { v with noDescriptions := ← switch value }

end Flag

end PatchAudit
