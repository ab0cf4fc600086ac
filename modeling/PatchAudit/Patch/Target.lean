import PatchAudit.Patch.Line
import PatchAudit.Text.Blank

/-!
# Target files

The target of a line is the file that the markers above it name: the new side, or the old side if
there is no new one.
-/

namespace PatchAudit

namespace Target

/-- The file that a marker names; nothing if it names no file. -/
def ofMarker (raw : Bytes) : Bytes :=
  let name := (Bytes.trim (raw.drop 3)).before 0x09
  if name = Path.nowhere then [] else Bytes.dropStart "b/" (Bytes.dropStart "a/" name)

/-- The target after a line, given the one before it. -/
def after (current : Bytes) (l : PatchLine) : Bytes :=
  if l.kind = .fileMarker then
    let name := ofMarker l.raw
    if name.isEmpty then current
    else if Bytes.hasStart "+++" l.raw || current.isEmpty then name
    else current
  else current

/-- The target of each line, starting from a given one. -/
def scan (current : Bytes) : List PatchLine → List Bytes
  | [] => []
  | l :: rest =>
    let now := after current l
    now :: scan now rest

/-- The target of each line of a patch; lines above the first marker have none. -/
def ofLines (lines : List PatchLine) : List Bytes := scan [] lines

end Target

end PatchAudit
