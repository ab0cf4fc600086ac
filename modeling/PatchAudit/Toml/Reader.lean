import PatchAudit.Text.Utf8
import PatchAudit.Toml.Scalar
import PatchAudit.Toml.Tree

/-!
# Reading TOML

A document is read from left to right into a tree.  The text has to be well-formed UTF-8 without
control characters, apart from tabs and line ends.
-/

namespace PatchAudit

namespace TomlReader

/-- Whether a text may be a document: no stray byte, no U+FFFD, and of the control characters only
tabs, newlines, and returns in front of a newline. -/
def isClean : List Piece → Bool
  | [] => true
  | .stray _ :: _ => false
  | .char c :: rest =>
    let v := c.toNat
    if v = 0x0D then
      match rest with
      | .char d :: _ => d.toNat == 0x0A && isClean rest
      | _ => false
    else if v = 0xFFFD ∨ v = 0x7F ∨ (v < 0x20 ∧ v ≠ 0x09 ∧ v ≠ 0x0A) then false
    else isClean rest

/-- Whether a byte is a blank inside a line. -/
def isBlank (b : UInt8) : Bool := b == 0x20 || b == 0x09

/-- Whether a byte is part of a line end. -/
def isNewline (b : UInt8) : Bool := b == 0x0A || b == 0x0D

/-- A text without the blanks in front. -/
def dropBlanks (s : Bytes) : Bytes := s.dropWhile isBlank

/-- A text without the blanks, line ends and comments in front; the flag tells whether a comment is
open. -/
def dropFiller (inComment : Bool) : Bytes → Bytes
  | [] => []
  | b :: r =>
    if inComment then dropFiller (!isNewline b) r
    else if isBlank b || isNewline b then dropFiller false r
    else if b = 0x23 then dropFiller true r
    else b :: r

/-! ### Strings -/

/-- What the escape after a backslash stands for, and how many bytes it takes. -/
def escape? : Bytes → Option (Bytes × Nat)
  | [] => none
  | b :: r =>
    let wide (n : Nat) : Option (Bytes × Nat) := do
      let ds := r.take n
      if ds.length < n then none
      let v ← ds.foldlM (fun acc d => (Bytes.hexValue? d).map (acc * 16 + ·)) 0
      if v.isValidChar then some (String.utf8EncodeChar (Char.ofNat v), n + 1) else none
    if b = 0x62 then some ([0x08], 1) else if b = 0x74 then some ([0x09], 1)
    else if b = 0x6E then some ([0x0A], 1) else if b = 0x66 then some ([0x0C], 1)
    else if b = 0x72 then some ([0x0D], 1) else if b = 0x22 then some ([0x22], 1)
    else if b = 0x5C then some ([0x5C], 1)
    else if b = 0x75 then wide 4 else if b = 0x55 then wide 8
    else none

/-- A basic string after its opening quote, having still to pass over a number of bytes: its text
and what follows it. -/
def basicString? : Nat → Bytes → Option (Bytes × Bytes)
  | _, [] => none
  | n + 1, _ :: r => basicString? n r
  | 0, b :: r =>
    if b = 0x22 then some ([], r)
    else if isNewline b then none
    else if b = 0x5C then do
      let (out, n) ← escape? r
      let (more, rest) ← basicString? n r
      return (out ++ more, rest)
    else (basicString? 0 r).map fun (more, rest) => (b :: more, rest)

/-- A literal string after its opening quote. -/
def literalString? : Bytes → Option (Bytes × Bytes)
  | [] => none
  | b :: r =>
    if b = 0x27 then some ([], r)
    else if isNewline b then none
    else (literalString? r).map fun (more, rest) => (b :: more, rest)

/-- Whether one more quote may stand in front of three: at most two quotes may, of which an escaped
one does not count.  `passed` is the text so far as it is written, the last byte first. -/
def mayPrecede (quote : UInt8) (passed : Bytes) : Bool :=
  match passed with
  | a :: b :: rest => !(a == quote && b == quote) || (quote == 0x22 && rest.head? == some 0x5C)
  | _ => true

/-- A basic string of several lines after its opening quotes. -/
def basicLines? : Nat → Bytes → Bytes → Option (Bytes × Bytes)
  | _, _, [] => none
  | n + 1, passed, _ :: r => basicLines? n passed r
  | 0, passed, b :: r =>
    if b = 0x22 ∧ Bytes.hasStart [0x22, 0x22] r then
      if (r.drop 2).head? = some 0x22 then
        if mayPrecede 0x22 passed then
          (basicLines? 0 (b :: passed) r).map fun (more, rest) => (b :: more, rest)
        else none
      else some ([], r.drop 2)
    else if b = 0x5C then
      let gap := r.takeWhile fun c => isBlank c || isNewline c
      if !gap.isEmpty then
        if gap.contains 0x0A then basicLines? gap.length [] r else none
      else do
        let (out, n) ← escape? r
        let (more, rest) ← basicLines? n ((r.take n).reverse ++ b :: passed) r
        return (out ++ more, rest)
    else (basicLines? 0 (b :: passed) r).map fun (more, rest) => (b :: more, rest)

/-- A literal string of several lines after its opening quotes. -/
def literalLines? (passed : Bytes) : Bytes → Option (Bytes × Bytes)
  | [] => none
  | b :: r =>
    if b = 0x27 ∧ Bytes.hasStart [0x27, 0x27] r ∧ (r.drop 2).head? ≠ some 0x27 then
      some ([], r.drop 2)
    else if b = 0x27 ∧ Bytes.hasStart [0x27, 0x27] r ∧ !mayPrecede 0x27 passed then none
    else (literalLines? (b :: passed) r).map fun (more, rest) => (b :: more, rest)

/-- A text without a line end in front. -/
def dropNewline : Bytes → Bytes
  | 0x0A :: r => r
  | 0x0D :: 0x0A :: r => r
  | s => s

/-! ### Keys -/

/-- One name of a key, and what follows it. -/
def keyName? : Bytes → Option (Bytes × Bytes)
  | 0x22 :: r => basicString? 0 r
  | 0x27 :: r => literalString? r
  | s =>
    let name := s.takeWhile TomlKey.isBareByte
    if name.isEmpty then none else some (name, s.drop name.length)

/-- A key of at most `fuel` names up to the byte `stop`. -/
def key? (stop : UInt8) : Nat → Bytes → Option (TomlKey × Bytes)
  | 0, _ => none
  | fuel + 1, s => do
    let (name, rest) ← keyName? (dropBlanks s)
    match dropBlanks rest with
    | b :: r =>
      if b = stop then some ([name], r)
      else if b = 0x2E then do
        let (more, rest) ← key? stop fuel r
        return (name :: more, rest)
      else none
    | [] => none

/-! ### Values -/

/-- Whether a byte may be part of a number, a date or a word. -/
def isWordByte (b : UInt8) : Bool := TomlKey.isBareByte b || b == 0x2B || b == 0x2E || b == 0x3A

/-- A value that is no string and has no parts.  A blank may divide a date from a time. -/
def scalar? (s : Bytes) : Option (TomlValue × Bytes) := do
  let word := s.takeWhile isWordByte
  let rest := s.drop word.length
  let time := match rest with
    | 0x20 :: d :: r =>
      if TomlScalar.date? word == some [] && Bytes.isDigit d then
        0x20 :: (d :: r).takeWhile isWordByte
      else []
    | _ => []
  let v ← TomlScalar.read? (word ++ time)
  return (v, rest.drop time.length)

/-- A string of any form that starts here, with its text and what follows it. -/
def string? (s : Bytes) : Option (Bytes × Bytes) :=
  match s with
  | 0x22 :: 0x22 :: 0x22 :: r => basicLines? 0 [] (dropNewline r)
  | 0x27 :: 0x27 :: 0x27 :: r => literalLines? [] (dropNewline r)
  | 0x22 :: r => basicString? 0 r
  | 0x27 :: r => literalString? r
  | _ => none

/-- A document half read. -/
structure Reading where
  rest : Bytes
  tree : TomlTree := {}
  /-- The name that the next value is for. -/
  name : Bytes := []

/-- Whether a value is an array. -/
def isArray : TomlValue → Bool
  | .array _ => true
  | _ => false

/-- Puts a value under the current name and goes back to a context. -/
def settle (v : TomlValue) (outer : TomlKey) (r : Reading) : Option Reading := do
  let tree ← r.tree.define r.name v
  return { r with tree := { tree.noteKind r.name (isArray v) with context := outer } }

/-- Reads a key and its equals sign, opening the tables before its last name. -/
def beginField (r : Reading) : Option Reading := do
  let (key, rest) ← key? 0x3D (r.rest.length + 1) r.rest
  let tree ← r.tree.openDotted key.dropLast
  let name := key.getLastD []
  return ⟨dropBlanks rest, tree.list (tree.context ++ [name]), name⟩

mutual

/-- Reads a value; `inArray` tells whether it is an element of an array. -/
def value (inArray : Bool) : Nat → Reading → Option (TomlValue × Reading)
  | 0, _ => none
  | fuel + 1, r =>
    match r.rest with
    | 0x5B :: rest => do
      let tree := r.tree.noteKind r.name true
      let (items, r) ← arrayItems fuel { r with rest := rest, tree := tree }
      return (.array items, r)
    | 0x7B :: rest => do
      let outer := r.tree.context
      let context := outer ++ [r.name]
      let tree ← (r.tree.imply context).openTable context inArray
      let done ← inlineFields fuel true { r with rest := dropBlanks rest, tree := tree }
      let fields ← TomlTree.tableAt? context done.tree.root
      return (.table fields, { done with name := r.name, tree := { done.tree with context := outer } })
    | s =>
      match string? s with
      | some (text, rest) => some (.string text, { r with rest := rest })
      | none =>
        if s.head? = some 0x22 ∨ s.head? = some 0x27 then none
        else (scalar? s).map fun (v, rest) => (v, { r with rest := rest })

/-- Reads the elements of an array up to its closing bracket. -/
def arrayItems : Nat → Reading → Option (List TomlValue × Reading)
  | 0, _ => none
  | fuel + 1, r =>
    match dropFiller false r.rest with
    | 0x5D :: rest => some ([], { r with rest := rest })
    | s => do
      let (v, r) ← value true fuel { r with rest := s }
      match dropFiller false r.rest with
      | 0x2C :: rest => do
        let (more, r) ← arrayItems fuel { r with rest := rest }
        return (v :: more, r)
      | 0x5D :: rest => some ([v], { r with rest := rest })
      | _ => none

/-- Reads the fields of an inline table up to its closing brace, which may stand at the front only
if `mayEnd` is set. -/
def inlineFields : Nat → Bool → Reading → Option Reading
  | 0, _, _ => none
  | fuel + 1, mayEnd, r =>
    match r.rest with
    | 0x7D :: rest => if mayEnd then some { r with rest := rest } else none
    | _ => do
      let context := r.tree.context
      let (v, r) ← value false fuel (← beginField r)
      let r ← settle v context r
      match dropBlanks r.rest with
      | 0x2C :: rest => inlineFields fuel false { r with rest := dropBlanks rest }
      | 0x7D :: rest => some { r with rest := rest }
      | _ => none

end

/-! ### The document -/

/-- Reads the header of a table after its opening bracket. -/
def header (r : Reading) : Option Reading := do
  let (repeated, body) := match r.rest with
    | 0x5B :: s => (true, s)
    | s => (false, s)
  let (key, rest) ← key? 0x5D (body.length + 1) body
  let rest ←
    if repeated then
      match rest with
      | 0x5D :: s => some s
      | _ => none
    else some rest
  let tree ← r.tree.openTable key repeated
  return { r with rest := rest, tree := (tree.noteKind [] false).list key }

/-- Reads a key with its value. -/
def field (r : Reading) : Option Reading := do
  let context := r.tree.context
  let (v, r) ← value false (2 * r.rest.length + 2) (← beginField r)
  settle v context r

/-- Whether a line may end here. -/
def atLineEnd (s : Bytes) : Bool :=
  match dropBlanks s with
  | [] => true
  | b :: _ => b == 0x23 || isNewline b

/-- Reads headers and fields up to the end, of which there are at most `fuel`. -/
def items : Nat → Reading → Option Reading
  | 0, _ => none
  | fuel + 1, r =>
    match dropFiller false r.rest with
    | [] => some r
    | 0x5B :: rest => do
      let r ← header { r with rest := rest }
      if atLineEnd r.rest then items fuel r else none
    | s => do
      let r ← field { r with rest := s }
      if atLineEnd r.rest then items fuel r else none

/-- A text without a byte order mark in front. -/
def dropMark (s : Bytes) : Bytes :=
  if Bytes.hasStart [0xFF, 0xFE] s || Bytes.hasStart [0xFE, 0xFF] s then s.drop 2
  else if Bytes.hasStart [0xEF, 0xBB, 0xBF] s then s.drop 3
  else s

end TomlReader

/-- Reads a document. -/
def TomlDocument.read? (text : Bytes) : Option TomlDocument :=
  let body := TomlReader.dropMark text
  if TomlReader.isClean (Bytes.pieces body) then
    (TomlReader.items (body.length + 1) { rest := body }).map fun r => r.tree.finish
  else none

end PatchAudit
