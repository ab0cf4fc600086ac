import PatchAudit.Report.Html
import PatchAudit.Report.Markdown
import PatchAudit.Report.Plain
import PatchAudit.Report.Record
import PatchAudit.Report.Sarif
import PatchAudit.Text.Quoted

/-!
# Output formats
-/

namespace PatchAudit

/-- The formats of a report. -/
inductive Format where
  | plain
  | json
  | markdown
  | html
  | sarif
  deriving DecidableEq, Repr

namespace Format

/-- The name of a format. -/
def name : Format → Bytes
  | plain => "text"
  | json => "json"
  | markdown => "markdown"
  | html => "html"
  | sarif => "sarif"

/-- All formats, in the order in which they are offered. -/
def all : List Format := [plain, json, markdown, html, sarif]

/-- A name that no format has. -/
structure Unknown where
  name : Bytes
  deriving DecidableEq, Repr

/-- The wording of an unknown format. -/
def Unknown.message (e : Unknown) : Bytes :=
  "unknown format " ++ Quoted.encode e.name ++ " (want one of "
    ++ Bytes.join ", " (all.map Format.name) ++ ")"

/-- The format of a name; the empty name means the plain one. -/
def ofName (name : Bytes) : Except Unknown Format :=
  if name.isEmpty then .ok plain
  else
    match all.find? (·.name == name) with
    | some f => .ok f
    | none => .error ⟨name⟩

/-- How reports are written. -/
structure Style where
  coloured : Bool := false
  /-- The version of the program, for formats that tell it. -/
  toolVersion : Bytes := "dev"
  /-- How stray bytes are written where the format is JSON. -/
  strayBytes : StraySpelling := .escape

/-- A summary in a format. -/
def render (style : Style) (s : Summary) : Format → Bytes
  | plain => PlainReport.render style.coloured s
  | json => s.record.toJson.page style.strayBytes
  | markdown => MarkdownReport.render s
  | html => HtmlReport.render s
  | sarif => (SarifLog.ofSummary style.toolVersion s).toJson.page style.strayBytes

/-- What is written of a summary under each name of a format. -/
def writers (style : Style) (s : Summary) : List (Bytes × Bytes) :=
  [("", PlainReport.render style.coloured s), ("text", PlainReport.render style.coloured s),
   ("json", s.record.toJson.page style.strayBytes), ("markdown", MarkdownReport.render s),
   ("html", HtmlReport.render s),
   ("sarif", (SarifLog.ofSummary style.toolVersion s).toJson.page style.strayBytes)]

/-- Writes a summary in the format of a name. -/
def write (style : Style) (s : Summary) (name : Bytes) : Except Unknown Bytes :=
  match (writers style s).lookup name with
  | some text => .ok text
  | none => .error ⟨name⟩

end Format

end PatchAudit
