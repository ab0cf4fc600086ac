import PatchAudit.Diff.Cursor
import PatchAudit.Diff.Epoch
import PatchAudit.Text.Blank

/-!
# File headers

A file section of a diff starts with a git header, a line `diff --git` with the lines after it that
tell names and modes, or with a plain header of two name lines above a fragment.
-/

namespace PatchAudit

namespace Diff

/-- What a diff says about one file. -/
structure FileChange where
  oldName : Bytes := []
  newName : Bytes := []
  isNew : Bool := false
  isDeleted : Bool := false
  isRenamed : Bool := false
  isBinary : Bool := false
  added : Nat := 0
  deleted : Nat := 0
  deriving DecidableEq, Repr

namespace FileChange

/-- The name that a change is shown under. -/
def name (f : FileChange) : Bytes :=
  if f.isRenamed then f.oldName ++ " → " ++ f.newName
  else if f.isDeleted then f.oldName
  else if !f.newName.isEmpty then f.newName
  else f.oldName

end FileChange

/-! ### The git header -/

/-- Whether a byte separates the two names of a header line. -/
def isSeparator (b : UInt8) : Bool := b == 0x20 || b == 0x09 || b == 0x0A

/-- The first split of a text at a separator into two names that agree once the second one has lost
its first component; `before` is the part already passed, the last byte first. -/
def equalHalves (before : Bytes) : Bytes → Bytes
  | [] => []
  | [_] => []
  | b :: r =>
    if isSeparator b ∧ before.reverse = dropComponent r then before.reverse
    else equalHalves (b :: before) r

/-- The name that both sides share, read from the two names of a header line. -/
def sharedName (first second : Bytes) : Bytes :=
  let first := dropComponent first
  if second.isEmpty then equalHalves [] first
  else if first = dropComponent second then first
  else []

/-- The name that both sides share according to a header line; empty if there is none. -/
def defaultName (header : Bytes) : Except HeaderFault Bytes :=
  let header := Bytes.dropFinal "\n" header
  let quoted (s : Bytes) := (quotedName s).mapError HeaderFault.name
  match header.idxOf? 0x22 with
  | none => if header.isEmpty then .ok [] else .ok (sharedName header [])
  | some 0 => do
    let (first, n) ← quoted header
    match (header.drop n).dropWhile isSeparator with
    | [] => return []
    | 0x22 :: r =>
      let (second, _) ← quoted (0x22 :: r)
      return sharedName first second
    | second => return sharedName first second
  | some q => do
    if !isSeparator (header.getD (q - 1) 0) then throw .missingSeparator
    let (second, _) ← quoted (header.drop q)
    return sharedName (header.take (q - 1)) second

/-- Checks a name against the one that is set for a side, which may be a missing side. -/
def verifyName (parsed existing : Bytes) (isMissing : Bool) (side : Bytes) :
    Except HeaderFault Unit := do
  if !existing.isEmpty then
    if isMissing then throw (.nameAlreadySet existing)
    if existing ≠ parsed then throw (.inconsistent side)
  if isMissing ∧ parsed ≠ Path.nowhere then throw .nameOnMissingSide

/-- Reads a file mode. -/
def checkMode (s : Bytes) : Except HeaderFault Unit :=
  match Numeral.read 8 32 s.trim with
  | .ok _ => .ok ()
  | .error e => .error (.badMode e)

/-- The kinds of lines in a git header. -/
inductive HeaderLine where
  | oldFile
  | newFile
  | mode
  | deletedMode
  | newMode
  | copyFrom
  | copyTo
  | renameFrom
  | renameTo
  | score
  | index
  deriving DecidableEq, Repr

/-- How the lines of a git header start. -/
def headerStarts : List (Bytes × HeaderLine) :=
  [("--- ", .oldFile), ("+++ ", .newFile), ("old mode ", .mode), ("new mode ", .mode),
   ("deleted file mode ", .deletedMode), ("new file mode ", .newMode),
   ("copy from ", .copyFrom), ("copy to ", .copyTo),
   ("rename old ", .renameFrom), ("rename new ", .renameTo),
   ("rename from ", .renameFrom), ("rename to ", .renameTo),
   ("similarity index ", .score), ("dissimilarity index ", .score), ("index ", .index)]

/-- The kind of a header line and what follows its start; nothing for a line that ends a header. -/
def headerLine? (line : Bytes) : Option (HeaderLine × Bytes) :=
  headerStarts.findSome? fun (start, kind) => (Bytes.after? start line).map (kind, ·)

/-- What a header line changes. -/
def applyHeaderLine (shared : Bytes) (f : FileChange) (kind : HeaderLine) (rest : Bytes) :
    Except HeaderFault FileChange := do
  let side := (readName rest (some 0x09) 1).mapError HeaderFault.name
  let whole := (readName rest none 0).mapError HeaderFault.name
  match kind with
  | .oldFile =>
    let name ← side
    if f.oldName.isEmpty ∧ !f.isNew then return { f with oldName := name }
    verifyName name f.oldName f.isNew "old"
    return f
  | .newFile =>
    let name ← side
    if f.newName.isEmpty ∧ !f.isDeleted then return { f with newName := name }
    verifyName name f.newName f.isDeleted "new"
    return f
  | .mode =>
    checkMode rest
    return f
  | .deletedMode =>
    checkMode rest
    return { f with isDeleted := true, oldName := shared }
  | .newMode =>
    checkMode rest
    return { f with isNew := true, newName := shared }
  | .copyFrom => return { f with oldName := ← whole }
  | .copyTo => return { f with newName := ← whole }
  | .renameFrom => return { f with isRenamed := true, oldName := ← whole }
  | .renameTo => return { f with isRenamed := true, newName := ← whole }
  | .score =>
    match Numeral.read 10 32 (Bytes.dropFinal "%" rest) with
    | .ok _ => return f
    | .error e => throw (.badScore e)
  | .index =>
    if !Bytes.hasInfix ".." (rest.before 0x20) then throw .missingDots
    match Bytes.cut? " " rest with
    | some (_, mode) =>
      checkMode mode
      return f
    | none => return f

/-- Reads the lines of a git header after its first one.  `number` is that of the first line given;
the result is the change with the cursor at the line that ends the header. -/
def headerLines (shared : Bytes) (f : FileChange) (number : Nat) :
    List Bytes → Except Error (FileChange × Cursor)
  | [] => .ok (f, ⟨number, []⟩)
  | line :: rest =>
    let text := Bytes.dropFinal "\n" line
    match headerLine? text with
    | none => .ok (f, ⟨number, line :: rest⟩)
    | some (kind, body) =>
      match applyHeaderLine shared f kind body with
      | .error e => .error ⟨number, .header e⟩
      | .ok f => headerLines shared f (number + 1) rest

/-- Completes the names of a change after its header. -/
def settleNames (shared : Bytes) (f : FileChange) : Except HeaderFault FileChange := do
  let f ←
    if f.oldName.isEmpty ∧ f.newName.isEmpty then
      if shared.isEmpty then throw .noFileName
      else pure { f with oldName := shared, newName := shared }
    else pure f
  if (f.newName.isEmpty ∧ !f.isDeleted) ∨ (f.oldName.isEmpty ∧ !f.isNew) then throw .noFileName
  return f

/-- How a git header starts. -/
def gitMark : Bytes := "diff --git "

/-- Reads a git header, if one starts here. -/
def gitHeader? (c : Cursor) : Except Error (Option (FileChange × Cursor)) :=
  match Bytes.after? gitMark (c.line 0) with
  | none => .ok none
  | some header =>
    match defaultName header with
    | .error e => c.fail 0 (.header e)
    | .ok shared => do
      let (f, after) ← headerLines shared {} (c.number + 1) (c.rest.drop 1)
      match settleNames shared f with
      | .error e => after.fail 0 (.header e)
      | .ok f => return some (f, after)

/-! ### The plain header -/

/-- The change that two name lines describe. -/
def plainChange (oldLine newLine oldName newName : Bytes) : FileChange :=
  if oldName = Path.nowhere ∨ hasEpochTime oldLine then { isNew := true, newName := newName }
  else if newName = Path.nowhere ∨ hasEpochTime newLine then { isDeleted := true, oldName := oldName }
  else
    let name := if oldName.isPrefixOf newName then oldName else newName
    { oldName := name, newName := name }

/-- How a fragment starts. -/
def fragmentMark : Bytes := "@@ -"

/-- Reads a plain header, if one starts here. -/
def plainHeader? (c : Cursor) : Except Error (Option (FileChange × Cursor)) :=
  match Bytes.after? "--- " (c.line 0), Bytes.after? "+++ " (c.line 1) with
  | some oldRest, some newRest =>
    if (c.line 2).length < 12 ∨ !fragmentMark.isPrefixOf (c.line 2) then .ok none
    else
      let after := c.next.next
      match readName oldRest (some 0x09) 0, readName newRest (some 0x09) 0 with
      | .error e, _ => after.fail 0 (.plainHeader e)
      | _, .error e => after.fail 1 (.plainHeader e)
      | .ok oldName, .ok newName =>
        .ok (some (plainChange (c.line 0) (c.line 1) oldName newName, after))
  | _, _ => .ok none

end Diff

end PatchAudit
