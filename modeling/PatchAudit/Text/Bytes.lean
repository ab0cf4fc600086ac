/-!
# Byte texts

Patch texts, file names and messages are sequences of bytes: none of them has to be well-formed
UTF-8.  This module holds the type, the literals and the few searches that everything else uses.
-/

namespace PatchAudit

/-- A text, as the list of its bytes. -/
abbrev Bytes := List UInt8

namespace Bytes

/-- The UTF-8 spelling of a literal. -/
def ofString (s : String) : Bytes := s.toList.flatMap String.utf8EncodeChar

instance : Coe String Bytes := ⟨ofString⟩

/-! ### Numbers -/

/-- The decimal digits of a number, without leading zeros. -/
def ofNat (n : Nat) : Bytes := (Nat.toDigits 10 n).map fun c => c.toNat.toUInt8

/-- The decimal digits of an integer, after a minus sign if it is negative. -/
def ofInt : Int → Bytes
  | .ofNat n => ofNat n
  | .negSucc n => 0x2D :: ofNat (n + 1)

/-- The decimal digits of an integer with a sign in front, zero counting as positive. -/
def ofSigned : Int → Bytes
  | .ofNat n => 0x2B :: ofNat n
  | .negSucc n => 0x2D :: ofNat (n + 1)

/-- The digit of a value below sixteen, in lower case. -/
def hexDigit (n : Nat) : UInt8 := (if n < 10 then 48 + n else 87 + n).toUInt8

/-- A value in hexadecimal, padded to a number of digits and cut to it. -/
def hexPadded : Nat → Nat → Bytes
  | 0, _ => []
  | w + 1, n => hexPadded w (n / 16) ++ [hexDigit (n % 16)]

/-- Two hexadecimal digits for each byte. -/
def toHex (s : Bytes) : Bytes := s.flatMap fun b => hexPadded 2 b.toNat

/-- The value of a hexadecimal digit in either case. -/
def hexValue? (b : UInt8) : Option Nat :=
  if 0x30 ≤ b ∧ b ≤ 0x39 then some (b.toNat - 0x30)
  else if 0x61 ≤ b ∧ b ≤ 0x66 then some (b.toNat - 0x57)
  else if 0x41 ≤ b ∧ b ≤ 0x46 then some (b.toNat - 0x37)
  else none

/-- The bytes spelled by pairs of hexadecimal digits. -/
def ofHex? : Bytes → Option Bytes
  | [] => some []
  | [_] => none
  | a :: b :: r => do
    let x ← hexValue? a
    let y ← hexValue? b
    let rest ← ofHex? r
    return (16 * x + y).toUInt8 :: rest

/-- The `n` lowest bytes of a number, the highest of them first. -/
def bigEndian : Nat → Nat → Bytes
  | 0, _ => []
  | n + 1, v => bigEndian n (v / 256) ++ [v.toUInt8]

/-- The value of bytes with the first one highest. -/
def bigEndianValue (s : Bytes) : Nat := s.foldl (fun acc b => acc * 256 + b.toNat) 0

/-- Whether a byte is a decimal digit. -/
def isDigit (b : UInt8) : Bool := 0x30 ≤ b && b ≤ 0x39

/-! ### Searching and cutting -/

/-- Whether a text starts with `t`. -/
def hasStart (t s : Bytes) : Bool := t.isPrefixOf s

/-- Whether a text ends with `t`. -/
def hasEnd (t s : Bytes) : Bool := t.isSuffixOf s

/-- Whether `t` occurs somewhere in a text. -/
def hasInfix (t : Bytes) : Bytes → Bool
  | [] => t.isEmpty
  | b :: r => t.isPrefixOf (b :: r) || hasInfix t r

/-- Whether a text starts with one of the given texts. -/
def startsWithAny (starts : List Bytes) (s : Bytes) : Bool := starts.any (·.isPrefixOf s)

/-- What follows `t` in a text that starts with it. -/
def after? (t s : Bytes) : Option Bytes := if t.isPrefixOf s then some (s.drop t.length) else none

/-- A text without `t` at its front, if it is there. -/
def dropStart (t s : Bytes) : Bytes := (after? t s).getD s

/-- A text without `t` at its end, if it is there. -/
def dropFinal (t s : Bytes) : Bytes :=
  if t.isSuffixOf s then s.take (s.length - t.length) else s

/-- The parts before and after the first occurrence of `sep`. -/
def cut? (sep : Bytes) : Bytes → Option (Bytes × Bytes)
  | [] => if sep.isEmpty then some ([], []) else none
  | b :: r =>
    if sep.isPrefixOf (b :: r) then some ([], (b :: r).drop sep.length)
    else (cut? sep r).map fun (x, y) => (b :: x, y)

/-- The part before the first byte `b`, or everything. -/
def before (b : UInt8) (s : Bytes) : Bytes := s.takeWhile (· != b)

/-- The parts of a text that end in a newline, the newline included, and the unfinished rest. -/
def terminatedLines (s : Bytes) : List Bytes :=
  match s.splitOn 0x0A with
  | [] => []
  | parts =>
    let whole := parts.dropLast.map (· ++ [0x0A])
    match parts.getLast? with
    | some (b :: r) => whole ++ [b :: r]
    | _ => whole

/-- Texts put one after the other with `sep` between them. -/
def join (sep : Bytes) (parts : List Bytes) : Bytes := sep.intercalate parts

/-- The same byte a number of times. -/
def fill (n : Nat) (b : UInt8) : Bytes := List.replicate n b

/-- A byte in lower case if it is an ASCII letter. -/
def asciiLower (b : UInt8) : UInt8 := if 0x41 ≤ b ∧ b ≤ 0x5A then b + 0x20 else b

/-- A text with every CR LF replaced by LF. -/
def plainEnds : Bytes → Bytes
  | 0x0D :: 0x0A :: r => 0x0A :: plainEnds r
  | b :: r => b :: plainEnds r
  | [] => []

/-! ### Order -/

/-- Puts an element in front of the first one that it is not above. -/
def insertBy {α : Type} (le : α → α → Bool) (a : α) : List α → List α
  | [] => [a]
  | b :: r => if le a b then a :: b :: r else b :: insertBy le a r

/-- A list in the order `le`; elements that are equal in it keep their places. -/
def sortBy {α : Type} (le : α → α → Bool) : List α → List α
  | [] => []
  | a :: r => insertBy le a (sortBy le r)

/-- Texts in the order of their bytes. -/
def sort (l : List Bytes) : List Bytes := sortBy (fun a b => decide (a ≤ b)) l

end Bytes

end PatchAudit
