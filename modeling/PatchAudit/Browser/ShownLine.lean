import PatchAudit.Browser.Layout
import PatchAudit.Patch.Highlight
import PatchAudit.Report.Issue
import PatchAudit.Text.Truncate

/-!
# Lines of a patch on the screen

A line of a patch is shown behind its number.  A line with issues is followed by their messages.
-/

namespace PatchAudit

/-- A line of a patch as it is shown. -/
structure ShownLine where
  number : Nat
  kind : LineKind
  raw : Bytes
  /-- The tokens of a content line; none for other lines. -/
  code : HighlightedLine := ⟨[]⟩
  /-- The messages of the issues on the line. -/
  issues : List Bytes := []
  deriving DecidableEq, Repr

namespace ShownLine

/-- Whether an issue is reported on the line. -/
def hasIssue (l : ShownLine) : Bool := !l.issues.isEmpty

/-- Whether the line begins a hunk. -/
def isHunk (l : ShownLine) : Bool := l.kind == .hunkMarker

/-- A classified line together with its tokens and what a report says about it. -/
def ofLine (r : FileReport) (l : PatchLine) (code : HighlightedLine) : ShownLine where
  number := l.number
  kind := l.kind
  raw := l.raw
  code := if l.isContent then code else ⟨[]⟩
  issues := (r.issuesAt l.number).map Issue.message

/-- The lines of a document as they are shown with a report. -/
def ofDocument (lexers : Lexers) (doc : Document) (r : FileReport) : List ShownLine :=
  let lines := doc.classified
  List.zipWith (ofLine r) lines (Highlight.patchLines lexers lines)

/-- A token on the screen; tabs of a coloured one are set. -/
def tokenText (t : Token) : Bytes := if t.colour.isSome then ({} : Box).render t.text else t.text

/-- A context line behind its blank. -/
def contextText (l : ShownLine) : Bytes :=
  if l.code.tokens.isEmpty then " " ++ Bytes.dropStart " " l.raw
  else " " ++ l.code.tokens.flatMap tokenText

/-- The text of a line without issues, in at most `room` characters. -/
def content (l : ShownLine) (room : Int) : Bytes :=
  if l.kind = .context then
    if room < Bytes.widest (l.contextText.splitOn 0x0A) then
      " " ++ Bytes.truncate (room - 1) l.code.plain
    else l.contextText
  else ({} : Box).render (Bytes.truncate room l.raw)

/-- The box of a line number. -/
def numberBox : Box := { width := 5, alignRight := true }

/-- The text of a line in a given width. -/
def render (l : ShownLine) (width : Int) : Bytes :=
  let room := max (width - 8) 1
  let number := numberBox.render (Bytes.ofNat l.number)
  if l.hasIssue then
    number ++ " " ++ ({} : Box).render (Bytes.truncate room l.raw)
      ++ ({} : Box).render ("  ← " ++ Bytes.join "; " l.issues)
  else number ++ " " ++ l.content room

end ShownLine

end PatchAudit
