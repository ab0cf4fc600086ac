import PatchAudit.Text.Utf8

/-!
# JSON values and their text

Numbers are kept as their literal, strings as bytes, objects as their fields in order.  A value is
written on one line, or indented by two blanks for each level.  A byte of a string that is part of
no character is written as the escape of U+FFFD; some releases of the encoder write that character
itself, which means the same, so the spelling is an argument of what writes.
-/

namespace PatchAudit

/-- How a byte that is part of no character is written inside a string. -/
inductive StraySpelling where
  /-- As the escape of U+FFFD. -/
  | escape
  /-- As U+FFFD itself. -/
  | character
  deriving DecidableEq, Repr

/-- A JSON value. -/
inductive JsonValue where
  | null
  | bool (b : Bool)
  | number (literal : Bytes)
  | string (s : Bytes)
  | array (items : List JsonValue)
  | object (fields : List (Bytes × JsonValue))

namespace JsonValue

/-- An integer as a value. -/
def int (i : Int) : JsonValue := number (Bytes.ofInt i)

/-- Four hexadecimal digits after a backslash and a letter. -/
def unicodeEscape (v : Nat) : Bytes := "\\u" ++ Bytes.hexPadded 4 v

/-- A character inside a string.  Besides what the format requires, the characters that matter to a
web page and the two Unicode line separators are escaped. -/
def escapeChar (c : Char) : Bytes :=
  let v := c.toNat
  if c = '"' then "\\\"" else if c = '\\' then "\\\\"
  else if v = 0x08 then "\\b" else if v = 0x0C then "\\f" else if v = 0x0A then "\\n"
  else if v = 0x0D then "\\r" else if v = 0x09 then "\\t"
  else if v < 0x20 ∨ c = '<' ∨ c = '>' ∨ c = '&' ∨ v = 0x2028 ∨ v = 0x2029 then unicodeEscape v
  else String.utf8EncodeChar c

/-- What is written for a stray byte. -/
def strayText : StraySpelling → Bytes
  | .escape => unicodeEscape 0xFFFD
  | .character => String.utf8EncodeChar (Char.ofNat 0xFFFD)

variable (stray : StraySpelling)

/-- A piece of a string. -/
def escapePiece : Piece → Bytes
  | .char c => escapeChar c
  | .stray _ => strayText stray

/-- A string in quotes. -/
def quote (s : Bytes) : Bytes := 0x22 :: (Bytes.pieces s).flatMap (escapePiece stray) ++ [0x22]

/-- How the parts of a value are set apart. -/
inductive Layout where
  /-- Each part stands on a line of its own, indented by two blanks for each level. -/
  | indented
  /-- All parts stand on one line, without blanks. -/
  | compact
  deriving DecidableEq, Repr

namespace Layout

/-- What stands in front of a part at a level. -/
def gap : Layout → Nat → Bytes
  | indented, depth => 0x0A :: Bytes.fill (2 * depth) 0x20
  | compact, _ => []

/-- What stands between a colon and a value. -/
def space : Layout → Bytes
  | indented => " "
  | compact => []

end Layout

variable (layout : Layout)

mutual

/-- A value as it is written at a given level. -/
def written (depth : Nat) : JsonValue → Bytes
  | array (x :: xs) =>
    "[" ++ layout.gap (depth + 1) ++ written (depth + 1) x ++ writtenItems (depth + 1) xs
      ++ layout.gap depth ++ "]"
  | object ((k, x) :: xs) =>
    "\x7b" ++ layout.gap (depth + 1) ++ quote stray k ++ ":" ++ layout.space ++ written (depth + 1) x
      ++ writtenFields (depth + 1) xs ++ layout.gap depth ++ "\x7d"
  | array [] => "[]"
  | object [] => "\x7b\x7d"
  | null => "null"
  | bool true => "true"
  | bool false => "false"
  | number literal => literal
  | string s => quote stray s

/-- The items of an array after its first one. -/
def writtenItems (depth : Nat) : List JsonValue → Bytes
  | [] => []
  | x :: xs => "," ++ layout.gap depth ++ written depth x ++ writtenItems depth xs

/-- The fields of an object after its first one. -/
def writtenFields (depth : Nat) : List (Bytes × JsonValue) → Bytes
  | [] => []
  | (k, x) :: xs =>
    "," ++ layout.gap depth ++ quote stray k ++ ":" ++ layout.space ++ written depth x
      ++ writtenFields depth xs

end

/-- A value as a text of its own, with a line end after it. -/
def document (v : JsonValue) : Bytes := written stray layout 0 v ++ [0x0A]

/-- A value on lines of its own. -/
def page (v : JsonValue) : Bytes := document stray .indented v

/-- A value on one line. -/
def line (v : JsonValue) : Bytes := document stray .compact v

end JsonValue

end PatchAudit
