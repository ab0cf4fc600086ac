import PatchAudit.Patch.Document

/-!
# Lines of a patch

Every line of a patch has a kind.  File markers, header lines and hunk markers are known by how
they start; any other line is content if a hunk marker stands somewhere above it.
-/

namespace PatchAudit

/-- What a line of a patch is. -/
inductive LineKind where
  | other
  | header
  | fileMarker
  | hunkMarker
  | added
  | removed
  | context
  deriving DecidableEq, Repr

/-- The word for a kind. -/
def LineKind.word : LineKind → Bytes
  | other => "other"
  | header => "header"
  | fileMarker => "file"
  | hunkMarker => "hunk"
  | added => "added"
  | removed => "removed"
  | context => "context"

/-- A line of a patch together with its kind. -/
structure PatchLine where
  /-- The place of the line, counted from 1. -/
  number : Nat
  raw : Bytes
  kind : LineKind
  /-- The line without its sign for added, removed and context lines, nothing for others. -/
  payload : Bytes
  deriving DecidableEq, Repr

namespace PatchLine

/-- Whether a line is content of a hunk. -/
def isContent (l : PatchLine) : Bool :=
  l.kind == .added || l.kind == .removed || l.kind == .context

/-- Starts of the lines that name a file. -/
def fileMarks : List Bytes := ["---", "+++"]

/-- Starts of mail and version-control lines, which are no content even below a hunk marker. -/
def headerMarks : List Bytes := ["From ", "Date:", "Subject:", "index ", "diff --git"]

/-- The start of a hunk marker. -/
def hunkMark : Bytes := "@@"

/-- The kind and the payload of a line; `inside` tells whether a hunk marker stands above it. -/
def sortOut (inside : Bool) (raw : Bytes) : LineKind × Bytes :=
  if Bytes.startsWithAny fileMarks raw then (.fileMarker, [])
  else if Bytes.startsWithAny headerMarks raw then (.header, [])
  else if hunkMark.isPrefixOf raw then (.hunkMarker, [])
  else if !inside then (.other, [])
  else
    match raw with
    | 0x2B :: payload => (.added, payload)
    | 0x2D :: payload => (.removed, payload)
    | 0x20 :: payload => (.context, payload)
    | payload => (.context, payload)

/-- Classifies lines of which the first has the given number. -/
def classifyFrom (inside : Bool) (number : Nat) : List Bytes → List PatchLine
  | [] => []
  | raw :: rest =>
    let (kind, payload) := sortOut inside raw
    ⟨number, raw, kind, payload⟩ :: classifyFrom (inside || kind == .hunkMarker) (number + 1) rest

/-- Classifies the lines of a patch. -/
def classify (lines : List Bytes) : List PatchLine := classifyFrom false 1 lines

end PatchLine

/-- The classified lines of a document. -/
def Document.classified (d : Document) : List PatchLine := PatchLine.classify d.lines

end PatchAudit
