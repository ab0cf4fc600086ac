import PatchAudit.Report.Issue

/-!
# The Markdown report

A table with one row for each issue, for a comment on a change.
-/

namespace PatchAudit

namespace MarkdownReport

/-- One row of the table. -/
structure Row where
  check : Bytes
  patch : Bytes
  line : Bytes
  message : Bytes
  deriving DecidableEq, Repr

/-- The row of an issue in the patch of the given name. -/
def Row.ofIssue (patch : Bytes) (i : Issue) : Row where
  check := i.checkName
  patch := patch
  line := i.lineColumn
  message := i.message

/-- The rows of a summary. -/
def rows (s : Summary) : List Row :=
  s.reports.flatMap fun r => r.issues.map (Row.ofIssue r.name)

/-- A row as a line. -/
def Row.render (r : Row) : Bytes :=
  "| " ++ r.check ++ " | `" ++ r.patch ++ "` | " ++ r.line ++ " | " ++ r.message ++ " |\n"

/-- The lines above the rows. -/
def tableHead : Bytes :=
  "| Check | Patch | Line | Message |\n|-------|-------|------|---------|\n"

/-- The whole report. -/
def render (s : Summary) : Bytes :=
  let body : Bytes :=
    if s.issueCount = 0 then "No issues found.\n" else tableHead ++ (rows s).flatMap Row.render
  "## Patch Lint Report\n\n**" ++ Bytes.ofNat s.validCount ++ "/" ++ Bytes.ofNat s.totalCount
    ++ "** patches valid, **" ++ Bytes.ofNat s.issueCount ++ "** issues\n\n" ++ body

end MarkdownReport

end PatchAudit
