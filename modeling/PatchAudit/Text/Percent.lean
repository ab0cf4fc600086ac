import PatchAudit.Text.Bytes

/-!
# Percent escapes

In an address a byte may be written as a percent sign and two hexadecimal digits.
-/

namespace PatchAudit

namespace Percent

/-- The mark of an escape. -/
def mark : UInt8 := 0x25

/-- A text with its escapes resolved, if each percent sign begins one. -/
def decode? : Bytes → Option Bytes
  | [] => some []
  | b :: r =>
    if b = mark then
      match r with
      | x :: y :: r => do
        let high ← Bytes.hexValue? x
        let low ← Bytes.hexValue? y
        let rest ← decode? r
        return (16 * high + low).toUInt8 :: rest
      | _ => none
    else (decode? r).map (b :: ·)

/-- A text with its escapes resolved, or as it is if a percent sign begins none. -/
def decode (s : Bytes) : Bytes := (decode? s).getD s

/-- Whether every percent sign of a text begins an escape. -/
def isWellFormed (s : Bytes) : Bool := (decode? s).isSome

/-- Whether a byte is an ASCII letter. -/
def isLetter (b : UInt8) : Bool := 0x61 ≤ Bytes.asciiLower b && Bytes.asciiLower b ≤ 0x7A

/-- Whether a byte never needs an escape. -/
def isPlain (b : UInt8) : Bool :=
  isLetter b || Bytes.isDigit b || (Bytes.ofString "-_.~").contains b

/-- Whether a byte is left as it is when a path is written. -/
def isPathByte (b : UInt8) : Bool := isPlain b || (Bytes.ofString "$&+,/:;=@").contains b

/-- Whether a byte is accepted in a path that is given with its escapes. -/
def isGivenPathByte (b : UInt8) : Bool :=
  isPathByte b || (Bytes.ofString "!'()*[]%").contains b

/-- The digit of a value below sixteen, in upper case. -/
def upperDigit (n : Nat) : UInt8 := (if n < 10 then 48 + n else 55 + n).toUInt8

/-- The escape of a byte. -/
def escape (b : UInt8) : Bytes := [mark, upperDigit (b.toNat / 16), upperDigit (b.toNat % 16)]

/-- A path with every other byte written as an escape. -/
def encodePath (s : Bytes) : Bytes := s.flatMap fun b => if isPathByte b then [b] else escape b

end Percent

end PatchAudit
