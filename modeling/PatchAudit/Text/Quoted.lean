import PatchAudit.Text.Utf8
import PatchAudit.Text.Printable

/-!
# Quoted texts

A quoted text stands between double quotes; what is not printable is escaped, a stray byte as its
two hexadecimal digits.  Reading accepts every escape that writing uses, and octal ones besides.
-/

namespace PatchAudit

namespace Quoted

/-- An escape for a character that is not printable. -/
def escape (c : Char) : Bytes :=
  let v := c.toNat
  if v = 0x07 then "\\a" else if v = 0x08 then "\\b" else if v = 0x0C then "\\f"
  else if v = 0x0A then "\\n" else if v = 0x0D then "\\r" else if v = 0x09 then "\\t"
  else if v = 0x0B then "\\v"
  else if v < 0x20 ∨ v = 0x7F then "\\x" ++ Bytes.hexPadded 2 v
  else if v < 0x10000 then "\\u" ++ Bytes.hexPadded 4 v
  else "\\U" ++ Bytes.hexPadded 8 v

/-- A character inside the quotes `mark`. -/
def char (mark c : Char) : Bytes :=
  if c = mark ∨ c = '\\' then 0x5C :: String.utf8EncodeChar c
  else if isPrintable c then String.utf8EncodeChar c
  else escape c

/-- A piece of a text inside double quotes. -/
def piece : Piece → Bytes
  | .char c => char '"' c
  | .stray b => "\\x" ++ Bytes.hexPadded 2 b.toNat

/-- A text in double quotes. -/
def encode (s : Bytes) : Bytes := 0x22 :: (Bytes.pieces s).flatMap piece ++ [0x22]

/-- A character in single quotes. -/
def encodeChar (c : Char) : Bytes := 0x27 :: char '\'' c ++ [0x27]

/-- The character that a one-letter escape stands for. -/
def letterEscape? (b : UInt8) : Option UInt8 :=
  if b = 0x61 then some 0x07 else if b = 0x62 then some 0x08 else if b = 0x66 then some 0x0C
  else if b = 0x6E then some 0x0A else if b = 0x72 then some 0x0D else if b = 0x74 then some 0x09
  else if b = 0x76 then some 0x0B else if b = 0x5C then some 0x5C else if b = 0x22 then some 0x22
  else none

/-- The value of hexadecimal digits. -/
def hexValue? (ds : Bytes) : Option Nat :=
  ds.foldlM (fun acc b => (Bytes.hexValue? b).map (acc * 16 + ·)) 0

/-- The spelling of the character with a given value. -/
def scalar? (v : Nat) : Option Bytes :=
  if v.isValidChar then some (String.utf8EncodeChar (Char.ofNat v)) else none

/-- The bytes that the escape after a backslash stands for, and how many bytes it takes. -/
def escaped? (r : Bytes) : Option (Bytes × Nat) :=
  match r with
  | [] => none
  | b :: r' =>
    let wide (n : Nat) : Option Nat := if r'.length < n then none else hexValue? (r'.take n)
    if b = 0x78 then (wide 2).map fun v => ([v.toUInt8], 3)
    else if b = 0x75 then ((wide 4).bind scalar?).map (·, 5)
    else if b = 0x55 then ((wide 8).bind scalar?).map (·, 9)
    else if 0x30 ≤ b ∧ b ≤ 0x37 then
      match r' with
      | x :: y :: _ =>
        let v := (b.toNat - 0x30) * 64 + (x.toNat - 0x30) * 8 + (y.toNat - 0x30)
        if 0x30 ≤ x ∧ x ≤ 0x37 ∧ 0x30 ≤ y ∧ y ≤ 0x37 ∧ v ≤ 255 then some ([v.toUInt8], 3)
        else none
      | _ => none
    else (letterEscape? b).map fun v => ([v], 1)

/-- Reads a quoted text after its opening quote, having still to pass over a number of bytes.  The
closing quote has to be the last byte. -/
def body? : Nat → Bytes → Option Bytes
  | _, [] => none
  | n + 1, _ :: r => body? n r
  | 0, b :: r =>
    if b = 0x22 then if r.isEmpty then some [] else none
    else if b = 0x0A then none
    else if b = 0x5C then do
      let (out, n) ← escaped? r
      return out ++ (← body? n r)
    else
      match Bytes.front? b r with
      | some (c, n) => (body? n r).map (String.utf8EncodeChar c ++ ·)
      | none => (body? 0 r).map (String.utf8EncodeChar (Char.ofNat 0xFFFD) ++ ·)

/-- Reads a text in double quotes. -/
def decode? : Bytes → Option Bytes
  | 0x22 :: r => body? 0 r
  | _ => none

end Quoted

end PatchAudit
