import PatchAudit.Text.Bytes

/-!
# Characters of a byte text

A text is read as UTF-8 from left to right.  A byte that begins no well-formed sequence stands
alone, so every text is a sequence of pieces, and the pieces spell the text again.
-/

namespace PatchAudit

/-- One step of reading a text: a character, or a byte that begins none. -/
inductive Piece where
  | char (c : Char)
  | stray (b : UInt8)
  deriving DecidableEq, Repr

namespace Piece

/-- The bytes that a piece was read from. -/
def bytes : Piece → Bytes
  | char c => String.utf8EncodeChar c
  | stray b => [b]

/-- A piece as a character, a stray byte standing for U+FFFD. -/
def toChar : Piece → Char
  | char c => c
  | stray _ => Char.ofNat 0xFFFD

end Piece

namespace Bytes

/-- Whether a byte continues a sequence. -/
def isTail (b : UInt8) : Bool := 0x80 ≤ b && b < 0xC0

/-- The character with the value `high` followed by six bits of each tail byte, provided that the
value is no smaller than `least` and is the value of a character. -/
def scalar? (least high : Nat) (tails : Bytes) : Option Char :=
  let v := tails.foldl (fun acc t => acc * 64 + (t.toNat - 0x80)) high
  if tails.all isTail ∧ least ≤ v ∧ v.isValidChar then some (Char.ofNat v) else none

/-- The character at the front of a text and the number of tail bytes that it takes. -/
def front? (b : UInt8) (r : Bytes) : Option (Char × Nat) :=
  if b < 0x80 then some (Char.ofNat b.toNat, 0)
  else if b < 0xC0 then none
  else if b < 0xE0 then
    match r with
    | x :: _ => (scalar? 0x80 (b.toNat - 0xC0) [x]).map (·, 1)
    | _ => none
  else if b < 0xF0 then
    match r with
    | x :: y :: _ => (scalar? 0x800 (b.toNat - 0xE0) [x, y]).map (·, 2)
    | _ => none
  else if b < 0xF8 then
    match r with
    | x :: y :: z :: _ => (scalar? 0x10000 (b.toNat - 0xF0) [x, y, z]).map (·, 3)
    | _ => none
  else none

/-- The pieces of a text after passing over a number of bytes. -/
def piecesFrom : Nat → Bytes → List Piece
  | _, [] => []
  | n + 1, _ :: r => piecesFrom n r
  | 0, b :: r =>
    match front? b r with
    | some (c, n) => .char c :: piecesFrom n r
    | none => .stray b :: piecesFrom 0 r

/-- The pieces of a text. -/
def pieces (s : Bytes) : List Piece := piecesFrom 0 s

/-- The characters of a text, each stray byte read as U+FFFD. -/
def chars (s : Bytes) : List Char := (pieces s).map Piece.toChar

/-- The UTF-8 spelling of characters. -/
def ofChars (cs : List Char) : Bytes := cs.flatMap String.utf8EncodeChar

/-- A text with each stray byte replaced by the spelling of U+FFFD. -/
def scrub (s : Bytes) : Bytes := ofChars (chars s)

/-- Whether a text is well-formed UTF-8. -/
def isUtf8 (s : Bytes) : Bool :=
  (pieces s).all fun
    | .char _ => true
    | .stray _ => false

/-- The number of characters, each stray byte counting as one. -/
def charCount (s : Bytes) : Nat := (chars s).length

/-- The text as a string, each stray byte read as U+FFFD. -/
def toString (s : Bytes) : String := String.ofList (chars s)

/-- A text followed by blanks up to a number of characters. -/
def padRight (width : Nat) (s : Bytes) : Bytes := s ++ fill (width - charCount s) 0x20

end Bytes

end PatchAudit
