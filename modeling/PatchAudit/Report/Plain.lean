import PatchAudit.Report.Issue
import PatchAudit.Report.Paint
import PatchAudit.Text.Utf8

/-!
# The plain report

One block for each patch, and the result line at the end.
-/

namespace PatchAudit

namespace PlainReport

/-- One issue of a patch. -/
def issueLine (coloured : Bool) (i : Issue) : Bytes :=
  let place : Bytes :=
    if i.isFileLevel then []
    else Ink.cyan.paint coloured ("line " ++ Bytes.ofInt i.line ++ ": ")
  "   • " ++ place ++ i.message ++ "\n"

/-- The block of one patch. -/
def block (coloured : Bool) (r : FileReport) : Bytes :=
  "\nValidating: " ++ Ink.bold.paint coloured r.name ++ "\n" ++
    (if r.isValid then Ink.boldGreen.paint coloured "No issues found" ++ "\n"
    else Bytes.ofString "Found " ++ Bytes.ofNat r.issues.length ++ " issues:\n"
      ++ r.issues.flatMap (issueLine coloured))

/-- The whole report. -/
def render (coloured : Bool) (s : Summary) : Bytes :=
  let verdict : Bytes :=
    if s.isOk then Ink.boldGreen.paint coloured "All patches are valid!"
    else Ink.boldRed.paint coloured "Some patches need attention"
  s.reports.flatMap (block coloured) ++ "\n" ++ Bytes.fill 40 0x3D ++ "\n" ++ s.resultLine ++ "\n"
    ++ verdict ++ "\n"

end PlainReport

/-! ### The table of changes -/

namespace StatTable

/-- The row of one patch. -/
def row (r : FileReport) : Bytes :=
  let status : Bytes :=
    if r.isValid then "ok" else Bytes.ofNat r.issues.length ++ " issue(s)"
  let padTo (n : Nat) (s : Bytes) : Bytes := s ++ Bytes.fill (n - s.length) 0x20
  let files := Bytes.ofInt r.stats.files
  "  " ++ Bytes.padRight 50 r.name ++ " " ++ Bytes.fill (3 - files.length) 0x20 ++ files
    ++ " file(s) +" ++ padTo 4 (Bytes.ofInt r.stats.added)
    ++ " -" ++ padTo 4 (Bytes.ofInt r.stats.deleted) ++ " " ++ status ++ "\n"

/-- The table with the result line below it. -/
def render (s : Summary) : Bytes := s.reports.flatMap row ++ "\n" ++ s.resultLine ++ "\n"

end StatTable

end PatchAudit
