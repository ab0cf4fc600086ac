import PatchAudit.Text.Utf8

/-!
# Cutting texts to a number of characters

A text that is too long loses characters at one end, and an ellipsis stands for them.
-/

namespace PatchAudit

namespace Bytes

/-- What stands for the characters cut off. -/
def ellipsis : Char := '…'

/-- At most `most` characters from the front of a text; nothing if that is not positive. -/
def truncate (most : Int) (s : Bytes) : Bytes :=
  let n := most.toNat
  if n = 0 then []
  else
    let cs := chars s
    if n < cs.length then ofChars (cs.take (n - 1) ++ [ellipsis]) else s

/-- At most `most` characters from the end of a text; the whole text if that is not positive. -/
def truncateLeft (most : Int) (s : Bytes) : Bytes :=
  let n := most.toNat
  if n = 0 then s
  else
    let cs := chars s
    if n < cs.length then ofChars (ellipsis :: cs.drop (cs.length - (n - 1))) else s

end Bytes

end PatchAudit
