import PatchAudit.Json.Value

/-!
# Reading JSON

A text is read as characters, a stray byte counting as U+FFFD; such a character has a meaning only
inside strings.  Readers take a value from the front of the characters and return the rest.
Brackets nest up to a fixed depth.
-/

namespace PatchAudit

namespace JsonValue

/-! ### Strings -/

/-- What a string is written with: characters, and numbers of 16 bits given by an escape. -/
inductive StringUnit where
  | char (c : Char)
  | code (u : Nat)
  deriving DecidableEq, Repr

/-- The character that a letter after a backslash stands for. -/
def escaped? (c : Char) : Option Char :=
  if c = '"' ∨ c = '\\' ∨ c = '/' then some c
  else if c = 'b' then some '\x08'
  else if c = 'f' then some '\x0C'
  else if c = 'n' then some '\n'
  else if c = 'r' then some '\r'
  else if c = 't' then some '\t'
  else none

/-- The value of a hexadecimal digit. -/
def hexChar? (c : Char) : Option Nat :=
  if c.toNat < 0x80 then Bytes.hexValue? c.toNat.toUInt8 else none

/-- The value of four hexadecimal digits. -/
def hexCode? (a b c d : Char) : Option Nat := do
  return (((← hexChar? a) * 16 + (← hexChar? b)) * 16 + (← hexChar? c)) * 16 + (← hexChar? d)

/-- The units of a string up to its closing quote, and what follows the quote.  A control character
has to be escaped. -/
def stringUnits : List Char → Option (List StringUnit × List Char)
  | '"' :: r => some ([], r)
  | '\\' :: 'u' :: a :: b :: c :: d :: r => do
    let u ← hexCode? a b c d
    let (units, rest) ← stringUnits r
    return (.code u :: units, rest)
  | '\\' :: e :: r => do
    let c ← escaped? e
    let (units, rest) ← stringUnits r
    return (.char c :: units, rest)
  | c :: r =>
    if c = '\\' ∨ c.toNat < 0x20 then none
    else do
      let (units, rest) ← stringUnits r
      return (.char c :: units, rest)
  | [] => none

/-- Whether a code is the first half of a pair. -/
def isHighHalf (u : Nat) : Bool := 0xD800 ≤ u && u < 0xDC00

/-- Whether a code is the second half of a pair. -/
def isLowHalf (u : Nat) : Bool := 0xDC00 ≤ u && u < 0xE000

/-- The character of a code that is in no pair; a half alone stands for U+FFFD. -/
def loneChar (u : Nat) : Char := if u.isValidChar then Char.ofNat u else Char.ofNat 0xFFFD

/-- The characters of units, where a first half and a second half next to it make one. -/
def joinUnits : List StringUnit → List Char
  | .code u :: .code v :: r =>
    if isHighHalf u && isLowHalf v then
      Char.ofNat (0x10000 + (u - 0xD800) * 0x400 + (v - 0xDC00)) :: joinUnits r
    else loneChar u :: joinUnits (.code v :: r)
  | .code u :: r => loneChar u :: joinUnits r
  | .char c :: r => c :: joinUnits r
  | [] => []

/-- Reads a string after its opening quote. -/
def readString (s : List Char) : Option (Bytes × List Char) :=
  (stringUnits s).map fun (units, rest) => (Bytes.ofChars (joinUnits units), rest)

/-! ### Numbers -/

/-- The digits at the front and the rest. -/
def digits (s : List Char) : List Char × List Char := s.span Char.isDigit

/-- Reads a whole number: a zero, or digits that do not begin with one. -/
def readWhole : List Char → Option (List Char × List Char)
  | '0' :: r => some (['0'], r)
  | s =>
    match digits s with
    | ([], _) => none
    | (ds, rest) => some (ds, rest)

/-- Reads at least one digit after a mark. -/
def readDigitsAfter (mark : List Char) (s : List Char) : Option (List Char × List Char) :=
  match digits s with
  | ([], _) => none
  | (ds, rest) => some (mark ++ ds, rest)

/-- Reads what may follow the point of a number. -/
def readFraction : List Char → Option (List Char × List Char)
  | '.' :: r => readDigitsAfter ['.'] r
  | s => some ([], s)

/-- Reads what may be the exponent of a number. -/
def readExponent : List Char → Option (List Char × List Char)
  | c :: r =>
    if c = 'e' ∨ c = 'E' then
      match r with
      | '+' :: r => readDigitsAfter [c, '+'] r
      | '-' :: r => readDigitsAfter [c, '-'] r
      | r => readDigitsAfter [c] r
    else some ([], c :: r)
  | [] => some ([], [])

/-- Reads a number, which is kept as it is written. -/
def readNumber (s : List Char) : Option (Bytes × List Char) := do
  let (sign, s) := match s with
    | '-' :: r => (['-'], r)
    | s => ([], s)
  let (whole, s) ← readWhole s
  let (fraction, s) ← readFraction s
  let (exponent, s) ← readExponent s
  return (Bytes.ofChars (sign ++ whole ++ fraction ++ exponent), s)

/-! ### Values -/

/-- Whether a character may stand between the parts of a value. -/
def isBlank (c : Char) : Bool := c = ' ' || c = '\t' || c = '\r' || c = '\n'

/-- The characters without the blanks in front. -/
def skipBlanks (s : List Char) : List Char := s.dropWhile isBlank

/-- Reads a word and gives its value. -/
def readWord (word : String) (v : JsonValue) (s : List Char) : Option (JsonValue × List Char) :=
  if word.toList.isPrefixOf s then some (v, s.drop word.length) else none

mutual

/-- Reads a value inside at most `depth` further brackets. -/
def readValue : Nat → Nat → List Char → Option (JsonValue × List Char)
  | 0, _, _ => none
  | fuel + 1, depth, s =>
    match skipBlanks s with
    | '"' :: r => (readString r).map fun (x, rest) => (string x, rest)
    | '[' :: r =>
      if depth = 0 then none
      else
        match skipBlanks r with
        | ']' :: rest => some (array [], rest)
        | _ => (readItems fuel (depth - 1) r).map fun (items, rest) => (array items, rest)
    | '{' :: r =>
      if depth = 0 then none
      else
        match skipBlanks r with
        | '}' :: rest => some (object [], rest)
        | _ => (readFields fuel (depth - 1) r).map fun (fields, rest) => (object fields, rest)
    | 'n' :: r => readWord "ull" null r
    | 't' :: r => readWord "rue" (bool true) r
    | 'f' :: r => readWord "alse" (bool false) r
    | s => (readNumber s).map fun (literal, rest) => (number literal, rest)

/-- Reads the items of an array up to its closing bracket. -/
def readItems : Nat → Nat → List Char → Option (List JsonValue × List Char)
  | 0, _, _ => none
  | fuel + 1, depth, s => do
    let (x, rest) ← readValue fuel depth s
    match skipBlanks rest with
    | ',' :: r =>
      let (items, rest) ← readItems fuel depth r
      return (x :: items, rest)
    | ']' :: rest => return ([x], rest)
    | _ => none

/-- Reads the fields of an object up to its closing bracket. -/
def readFields : Nat → Nat → List Char → Option (List (Bytes × JsonValue) × List Char)
  | 0, _, _ => none
  | fuel + 1, depth, s =>
    match skipBlanks s with
    | '"' :: r => do
      let (key, rest) ← readString r
      match skipBlanks rest with
      | ':' :: r =>
        let (x, rest) ← readValue fuel depth r
        match skipBlanks rest with
        | ',' :: r =>
          let (fields, rest) ← readFields fuel depth r
          return ((key, x) :: fields, rest)
        | '}' :: rest => return ([(key, x)], rest)
        | _ => none
      | _ => none
    | _ => none

end

/-- How deep brackets may nest. -/
def mostNested : Nat := 10000

/-- The value at the front of a text and the characters after it. -/
def first? (text : Bytes) : Option (JsonValue × List Char) :=
  let s := Bytes.chars text
  readValue (2 * s.length + 2) mostNested s

/-- The value of a text that holds just one. -/
def whole? (text : Bytes) : Option JsonValue :=
  match first? text with
  | some (v, rest) => if (skipBlanks rest).isEmpty then some v else none
  | none => none

end JsonValue

end PatchAudit
