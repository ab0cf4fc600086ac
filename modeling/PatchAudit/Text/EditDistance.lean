import PatchAudit.Text.Bytes

/-!
# How far texts are apart

The least number of bytes to insert, drop or replace to turn one text into another.  It is computed
row by row: a row holds the distances of one beginning of the first text from all beginnings of the
second.
-/

namespace PatchAudit

namespace EditDistance

/-- The cells of the next row after its first one; `left` is the cell before, `corner` the one above
it. -/
def nextCells (b : UInt8) (left corner : Nat) : Bytes → List Nat → List Nat
  | t :: ts, up :: ups =>
    let cell := if b = t then corner else min (min left up) corner + 1
    cell :: nextCells b cell up ts ups
  | _, _ => []

/-- The row after one more byte of the first text. -/
def nextRow (t : Bytes) (row : List Nat) (b : UInt8) : List Nat :=
  match row with
  | [] => []
  | first :: rest => (first + 1) :: nextCells b (first + 1) first t rest

/-- The distance of two texts. -/
def between (s t : Bytes) : Nat := (s.foldl (nextRow t) (List.range (t.length + 1))).getLastD 0

end EditDistance

end PatchAudit
