import PatchAudit.Text.Mark
import PatchAudit.Text.Pictograph
import PatchAudit.Text.Utf8

/-!
# Cells

How many cells of a terminal a character takes.  Ideographs and their like take two, marks that stand
on another character and control characters take none.  Characters that are shown as one form a
cluster, which takes the cells of its first character.
-/

namespace PatchAudit

namespace CellWidth

/-- Ranges of characters that take two cells. -/
def wide : List (Nat × Nat) :=
  [(0x1100, 0x115F), (0x231A, 0x231B), (0x2329, 0x232A), (0x23E9, 0x23EC), (0x23F0, 0x23F0),
   (0x23F3, 0x23F3), (0x25FD, 0x25FE), (0x2614, 0x2615), (0x2648, 0x2653), (0x267F, 0x267F),
   (0x2693, 0x2693), (0x26A1, 0x26A1), (0x26AA, 0x26AB), (0x26BD, 0x26BE), (0x26C4, 0x26C5),
   (0x26CE, 0x26CE), (0x26D4, 0x26D4), (0x26EA, 0x26EA), (0x26F2, 0x26F3), (0x26F5, 0x26F5),
   (0x26FA, 0x26FA), (0x26FD, 0x26FD), (0x2705, 0x2705), (0x270A, 0x270B), (0x2728, 0x2728),
   (0x274C, 0x274C), (0x274E, 0x274E), (0x2753, 0x2755), (0x2757, 0x2757), (0x2795, 0x2797),
   (0x27B0, 0x27B0), (0x27BF, 0x27BF), (0x2B1B, 0x2B1C), (0x2B50, 0x2B50), (0x2B55, 0x2B55),
   (0x2E80, 0x2E99), (0x2E9B, 0x2EF3), (0x2F00, 0x2FD5), (0x2FF0, 0x3029), (0x302E, 0x303E),
   (0x3041, 0x3096), (0x309B, 0x30FF), (0x3105, 0x312F), (0x3131, 0x318E), (0x3190, 0x31E3),
   (0x31EF, 0x321E), (0x3220, 0x3247), (0x3250, 0xA48C), (0xA490, 0xA4C6), (0xA960, 0xA97C),
   (0xAC00, 0xD7A3), (0xF900, 0xFAFF), (0xFE10, 0xFE19), (0xFE30, 0xFE52), (0xFE54, 0xFE66),
   (0xFE68, 0xFE6B), (0xFF01, 0xFF60), (0xFFE0, 0xFFE6), (0x16FE0, 0x16FE4), (0x17000, 0x187F7),
   (0x18800, 0x18CD5), (0x1AFF0, 0x1B2FB), (0x1F004, 0x1F004), (0x1F0CF, 0x1F0CF),
   (0x1F18E, 0x1F18E), (0x1F191, 0x1F19A), (0x1F200, 0x1F202), (0x1F210, 0x1F23B),
   (0x1F240, 0x1F248), (0x1F250, 0x1F251), (0x1F260, 0x1F265), (0x1F300, 0x1F320),
   (0x1F32D, 0x1F335), (0x1F337, 0x1F37C), (0x1F37E, 0x1F393), (0x1F3A0, 0x1F3CA),
   (0x1F3CF, 0x1F3D3), (0x1F3E0, 0x1F3F0), (0x1F3F4, 0x1F3F4), (0x1F3F8, 0x1F43E),
   (0x1F440, 0x1F440), (0x1F442, 0x1F4FC), (0x1F4FF, 0x1F53D), (0x1F54B, 0x1F54E),
   (0x1F550, 0x1F567), (0x1F57A, 0x1F57A), (0x1F595, 0x1F596), (0x1F5A4, 0x1F5A4),
   (0x1F5FB, 0x1F64F), (0x1F680, 0x1F6C5), (0x1F6CC, 0x1F6CC), (0x1F6D0, 0x1F6D2),
   (0x1F6D5, 0x1F6D7), (0x1F6DC, 0x1F6DF), (0x1F6EB, 0x1F6EC), (0x1F6F4, 0x1F6FC),
   (0x1F7E0, 0x1F7EB), (0x1F7F0, 0x1F7F0), (0x1F90C, 0x1F93A), (0x1F93C, 0x1F945),
   (0x1F947, 0x1F9FF), (0x1FA70, 0x1FAFF), (0x20000, 0x2FFFD), (0x30000, 0x3FFFD)]

/-- Ranges of control characters and of characters that only say how others are to be shown. -/
def unseen : List (Nat × Nat) :=
  [(0x00, 0x1F), (0x7F, 0x9F), (0x61C, 0x61C), (0x180E, 0x180E), (0x200B, 0x200F),
   (0x2028, 0x202E), (0x2060, 0x206F), (0xFEFF, 0xFEFF), (0xFFF9, 0xFFFB), (0x1BCA0, 0x1BCA3),
   (0x1D173, 0x1D17A), (0xE0001, 0xE0001), (0xE0020, 0xE007F)]

/-- Whether a value lies in one of the ranges. -/
def isIn (ranges : List (Nat × Nat)) (v : Nat) : Bool :=
  ranges.any fun (low, high) => low ≤ v && v ≤ high

/-- The cells of a character. -/
def ofChar (c : Char) : Nat :=
  let v := c.toNat
  if 0x20 ≤ v ∧ v < 0x7F then 1
  else if isIn unseen v || isIn Mark.nonspacing v then 0
  else if v < 0x1100 then 1
  else if isIn wide v then 2
  else 1

end CellWidth

/-! ### Clusters -/

namespace Cluster

/-- The character that joins pictographs. -/
def joiner : Nat := 0x200D

/-- The character that asks for the picture of the one before. -/
def pictureMark : Nat := 0xFE0F

/-- The value of a piece; a stray byte counts as U+FFFD. -/
def value (p : Piece) : Nat := p.toChar.toNat

/-- Whether a character belongs to the one before it. -/
def continues (v : Nat) : Bool :=
  v == 0x200C || v == joiner || (0x1F3FB ≤ v && v ≤ 0x1F3FF) || (0xE0020 ≤ v && v ≤ 0xE007F)
    || CellWidth.isIn Mark.nonspacing v || CellWidth.isIn Mark.spacing v

/-- Whether a character is a letter of a flag, two of which make one. -/
def isFlagLetter (v : Nat) : Bool := 0x1F1E6 ≤ v && v ≤ 0x1F1FF

/-- Whether a character is a part of a Hangul syllable that stands behind another one. -/
def isSyllablePart (v : Nat) : Bool := (0x1160 ≤ v && v ≤ 0x11FF) || (0xD7B0 ≤ v && v ≤ 0xD7FB)

/-- Whether a character begins a Hangul syllable. -/
def isSyllable (v : Nat) : Bool :=
  (0x1100 ≤ v && v ≤ 0x11FF) || (0xA960 ≤ v && v ≤ 0xA97C) || (0xAC00 ≤ v && v ≤ 0xD7FB)

/-- How many of the pieces belong to the cluster before them, which is begun by a pictograph if
`picture` is set and ends in a joiner if `joined` is. -/
def extent (picture joined : Bool) : List Piece → Nat
  | [] => 0
  | p :: rest =>
    if value p = joiner then 1 + extent picture true rest
    else if continues (value p) then 1 + extent picture false rest
    else if picture && joined && CellWidth.isIn Pictograph.ranges (value p) then
      1 + extent true false rest
    else 0

/-- How many of the pieces after a first one belong to its cluster. -/
def length (first : Piece) (rest : List Piece) : Nat :=
  let v := value first
  if CellWidth.isIn CellWidth.unseen v && v != joiner then 0
  else if isFlagLetter v && (rest.head?.map value).any isFlagLetter then
    1 + extent false false (rest.drop 1)
  else
    let parts := if isSyllable v then (rest.takeWhile (isSyllablePart ∘ value)).length else 0
    parts + extent (CellWidth.isIn Pictograph.ranges v) false (rest.drop parts)

/-- The cells of a cluster, given its first piece and what follows it; a stray byte takes one. -/
def cells (first : Piece) (rest : List Piece) : Nat :=
  match first with
  | .stray _ => 1
  | .char c =>
    let next := rest.head?.map value
    let isFlag := isFlagLetter c.toNat && next.any isFlagLetter
    let own := CellWidth.ofChar c
    if own = 1 && (next == some pictureMark || isFlag) then 2 else own

end Cluster

end PatchAudit
