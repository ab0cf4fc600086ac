import PatchAudit.Text.Bytes

/-!
# TOML values

The values that a settings file may hold.  Of floating-point numbers and of dates and times only
the fact that they are well formed matters here.
-/

namespace PatchAudit

/-- A value of a TOML document. -/
inductive TomlValue where
  | string (s : Bytes)
  | integer (i : Int)
  | float
  | boolean (b : Bool)
  | moment
  | array (items : List TomlValue)
  | table (fields : List (Bytes × TomlValue))
  /-- Tables that were opened one after the other under the same header. -/
  | tables (ts : List (List (Bytes × TomlValue)))

/-- A table: its fields in the order of their definition. -/
abbrev TomlTable := List (Bytes × TomlValue)

/-- A key: the names that lead to a value from the top. -/
abbrev TomlKey := List Bytes

namespace TomlKey

/-- Whether a name may be written without quotes. -/
def isBareByte (b : UInt8) : Bool :=
  Bytes.isDigit b || (0x41 ≤ b && b ≤ 0x5A) || (0x61 ≤ b && b ≤ 0x7A) || b == 0x5F || b == 0x2D

/-- A byte inside a quoted name. -/
def quoteByte (b : UInt8) : Bytes :=
  if b = 0x22 then "\\\"" else if b = 0x5C then "\\\\" else if b = 0x08 then "\\b"
  else if b = 0x09 then "\\t" else if b = 0x0A then "\\n" else if b = 0x0C then "\\f"
  else if b = 0x0D then "\\r"
  else if b < 0x20 ∨ b = 0x7F then "\\u00" ++ Bytes.hexPadded 2 b.toNat
  else [b]

/-- A name as it is written in a key. -/
def renderName (name : Bytes) : Bytes :=
  if !name.isEmpty && name.all isBareByte then name
  else 0x22 :: name.flatMap quoteByte ++ [0x22]

/-- A key as it is written. -/
def render (key : TomlKey) : Bytes := Bytes.join "." (key.map renderName)

end TomlKey

/-- A document: its values, and its keys in the order of the file. -/
structure TomlDocument where
  root : TomlTable
  keys : List TomlKey

end PatchAudit
