import PatchAudit.Diff.BinaryData
import PatchAudit.Diff.Fragment
import PatchAudit.Report.Issue

/-!
# Reading a diff

A diff is any text with file sections in it.  Lines between the sections are passed over, but a
fragment outside a section is an error, and an error anywhere leaves no files at all.
-/

namespace PatchAudit

namespace Diff

/-- Looks for the next file header, passing over other lines. -/
def nextHeader (number : Nat) : List Bytes → Except Error (Option (FileChange × Cursor))
  | [] => .ok none
  | line :: rest =>
    let c : Cursor := ⟨number, line :: rest⟩
    match fragmentHeader? line with
    | .error _ => nextHeader (number + 1) rest
    | .ok (some h) => c.fail 0 (.strayFragment h)
    | .ok none =>
      match gitHeader? c with
      | .error e => .error e
      | .ok (some found) => .ok (some found)
      | .ok none =>
        match plainHeader? c with
        | .error e => .error e
        | .ok (some found) => .ok (some found)
        | .ok none => nextHeader (number + 1) rest

/-- Reads the content of a file after its header. -/
def fileBody (f : FileChange) (c : Cursor) : Except Error (FileChange × Cursor) := do
  let (f, c, found) ← fragments (c.rest.length + 1) f c false
  if found then return (f, c) else binaryPart f c

/-- Reads files from a place on, of which at most `fuel` are left. -/
def filesFrom : Nat → Cursor → Except Error (List FileChange)
  | 0, _ => .ok []
  | fuel + 1, c => do
    match ← nextHeader c.number c.rest with
    | none => return []
    | some (f, c) =>
      let (f, c) ← fileBody f c
      return f :: (← filesFrom fuel c)

/-- The files that a diff changes. -/
def files (text : Bytes) : Except Error (List FileChange) :=
  let c := Cursor.ofText text
  filesFrom (c.rest.length + 1) c

/-- A count of lines, over all changes. -/
def total (count : FileChange → Nat) (changes : List FileChange) : Nat :=
  (changes.map count).foldr (· + ·) 0

/-- The totals of changes. -/
def stats (changes : List FileChange) : DiffStats where
  files := changes.length
  added := total FileChange.added changes
  deleted := total FileChange.deleted changes

end Diff

end PatchAudit
