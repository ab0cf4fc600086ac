import PatchAudit.Text.Utf8

/-!
# Blanks

The characters with the Unicode property White_Space, and trimming by them.
-/

namespace PatchAudit

/-- Whether a character is white space. -/
def Piece.isBlank : Piece → Bool
  | .stray _ => false
  | .char c =>
    let v := c.toNat
    (0x09 ≤ v && v ≤ 0x0D) || v == 0x20 || v == 0x85 || v == 0xA0 || v == 0x1680
      || (0x2000 ≤ v && v ≤ 0x200A) || v == 0x2028 || v == 0x2029 || v == 0x202F
      || v == 0x205F || v == 0x3000

namespace Bytes

/-- A text without the blanks at either end. -/
def trim (s : Bytes) : Bytes :=
  let front := (pieces s).dropWhile Piece.isBlank
  ((front.reverse.dropWhile Piece.isBlank).reverse).flatMap Piece.bytes

end Bytes

end PatchAudit
