import PatchAudit.Diff.Header

/-!
# Binary data

A binary change is a marker line alone, or a marker with one or two blocks of compressed data in
base 85, each ended by an empty line.
-/

namespace PatchAudit

namespace Diff

/-- The number of bytes that a data line says it has. -/
def lineLength? (b : UInt8) : Option Nat :=
  if 0x41 ≤ b ∧ b ≤ 0x5A then some (b.toNat - 0x41 + 1)
  else if 0x61 ≤ b ∧ b ≤ 0x7A then some (b.toNat - 0x61 + 27)
  else none

/-- The bytes of one data line, its line end included. -/
def dataLine (line : Bytes) : Except BinaryFault Bytes :=
  if line.length < 7 ∨ (line.length - 2) % 5 ≠ 0 then .error .corruptLine
  else
    let digits := (line.drop 1).dropLast
    let most := digits.length / 5 * 4
    match lineLength? (line.headD 0) with
    | none => .error .badLength
    | some count =>
      if most < count ∨ count + 3 < most then .error .badCount
      else (Base85.decode count digits).mapError BinaryFault.badDigit

/-- Reads data lines up to an empty line, where the cursor then stands. -/
def dataLines (number : Nat) : List Bytes → Except Error (Bytes × Cursor)
  | [] => .error ⟨number, .binary .corruptLine⟩
  | line :: rest =>
    if line = [0x0A] then .ok ([], ⟨number, line :: rest⟩)
    else
      match dataLine line with
      | .error e => .error ⟨number, .binary e⟩
      | .ok data =>
        if rest.isEmpty then .error ⟨number + 1, .binary .truncated⟩
        else do
          let (more, c) ← dataLines (number + 1) rest
          return (data ++ more, c)

/-- Reads the header of a data block, if the line is one: the size of the inflated data. -/
def dataHeader? (line : Bytes) : Except BinaryFault (Option Int) :=
  match Bytes.cut? " " (Bytes.dropFinal "\n" line) with
  | none => .ok none
  | some (method, size) =>
    if method = Bytes.ofString "delta" ∨ method = Bytes.ofString "literal" then
      match Numeral.read 10 64 size with
      | .ok n => .ok (some n)
      | .error e => .error (.badSize e)
    else .ok none

/-- Reads a data block, if one starts here. -/
def dataBlock? (c : Cursor) : Except Error (Option Cursor) :=
  match dataHeader? (c.line 0) with
  | .error e => c.fail 0 (.binary e)
  | .ok none => .ok none
  | .ok (some size) => do
    let (data, c) ← dataLines c.next.number c.next.rest
    match Inflate.decode data with
    | .error e => c.fail 0 (.binary (.notInflated e))
    | .ok out =>
      if (out.length : Int) ≠ size then c.fail 0 (.binary (.wrongSize size out.length))
      else return some c.next

/-- Whether a line says that binary files differ and gives no data. -/
def isBinaryNote (line : Bytes) : Bool :=
  Bytes.hasEnd " differ\n" line
    && (Bytes.hasStart "Binary files " line || Bytes.hasStart "Files " line)

/-- Reads the binary part of a file, if there is one. -/
def binaryPart (f : FileChange) (c : Cursor) : Except Error (FileChange × Cursor) :=
  if c.line 0 = Bytes.ofString "GIT binary patch\n" then do
    match ← dataBlock? c.next with
    | none => c.next.fail 0 .noBinaryData
    | some c =>
      let after ← dataBlock? c
      return ({ f with isBinary := true }, after.getD c)
  else if isBinaryNote (c.line 0) then .ok ({ f with isBinary := true }, c.next)
  else .ok (f, c)

end Diff

end PatchAudit
