import PatchAudit.Text.Bytes

/-!
# Issues and reports

An issue is one problem of a patch file, on one of its lines or on the file as a whole.  A report
collects the issues of one file, a summary the reports of a directory.
-/

namespace PatchAudit

/-- How grave an issue is.  Stored reports may carry codes without a word. -/
structure Severity where
  code : Int
  deriving DecidableEq, Repr

namespace Severity

def info : Severity := ⟨0⟩
def warning : Severity := ⟨1⟩
def error : Severity := ⟨2⟩

/-- The word for a severity. -/
def word (s : Severity) : Bytes :=
  if s = info then "info" else if s = warning then "warning" else if s = error then "error"
  else "unknown"

end Severity

/-- What went wrong with a patch file.  Stored reports may carry codes without a word. -/
structure IssueKind where
  code : Int
  deriving DecidableEq, Repr

namespace IssueKind

def unreadable : IssueKind := ⟨0⟩
def shape : IssueKind := ⟨1⟩
def braces : IssueKind := ⟨2⟩
def branding : IssueKind := ⟨3⟩

/-- The word for a kind. -/
def word (k : IssueKind) : Bytes :=
  if k = unreadable then "io" else if k = shape then "structure" else if k = braces then "braces"
  else if k = branding then "branding" else "unknown"

end IssueKind

/-- A single problem of a patch file. -/
structure Issue where
  /-- The name of the check that found it; empty if no check did. -/
  check : Bytes
  kind : IssueKind
  /-- The line of the patch, counted from 1; not positive for the file as a whole. -/
  line : Int
  message : Bytes
  severity : Severity
  deriving DecidableEq, Repr

namespace Issue

/-- Whether the issue is one of the file as a whole. -/
def isFileLevel (i : Issue) : Bool := i.line ≤ 0

/-- The issue as one line of text. -/
def describe (i : Issue) : Bytes :=
  if i.isFileLevel then i.message else "line " ++ Bytes.ofInt i.line ++ ": " ++ i.message

/-- The name of the check, or of the kind if no check is named. -/
def checkName (i : Issue) : Bytes := if i.check.isEmpty then i.kind.word else i.check

/-- The line number, or a dash for the file as a whole. -/
def lineColumn (i : Issue) : Bytes := if i.isFileLevel then "-" else Bytes.ofInt i.line

end Issue

/-- How much a patch changes. -/
structure DiffStats where
  files : Int := 0
  added : Int := 0
  deleted : Int := 0
  deriving DecidableEq, Repr

/-- All issues of one patch file. -/
structure FileReport where
  path : Bytes
  name : Bytes
  issues : List Issue := []
  stats : DiffStats := {}
  deriving DecidableEq, Repr

namespace FileReport

/-- Whether the patch has no issue. -/
def isValid (r : FileReport) : Bool := r.issues.isEmpty

/-- The issues on a given line, in order. -/
def issuesAt (r : FileReport) (line : Int) : List Issue := r.issues.filter (·.line == line)

end FileReport

/-- The reports of a directory of patches. -/
structure Summary where
  dir : Bytes
  reports : List FileReport
  deriving DecidableEq, Repr

/-- How many issues one check found. -/
structure CheckCount where
  check : Bytes
  count : Nat
  deriving DecidableEq, Repr

namespace Summary

/-- The number of reports without issues. -/
def validCount (s : Summary) : Nat := s.reports.countP FileReport.isValid

/-- The number of reports. -/
def totalCount (s : Summary) : Nat := s.reports.length

/-- All issues, in the order of the reports. -/
def issues (s : Summary) : List Issue := s.reports.flatMap FileReport.issues

/-- The number of issues of all reports. -/
def issueCount (s : Summary) : Nat := s.issues.length

/-- Whether at least one patch was looked at and none has an issue. -/
def isOk (s : Summary) : Bool := decide (0 < s.totalCount) && s.validCount == s.totalCount

/-- The last line of a run's report. -/
def resultLine (s : Summary) : Bytes :=
  "Results: " ++ Bytes.ofNat s.validCount ++ "/" ++ Bytes.ofNat s.totalCount ++ " patches valid"

/-- Counts one more issue under a check name in a tally ordered by name. -/
def tally (name : Bytes) : List CheckCount → List CheckCount
  | [] => [⟨name, 1⟩]
  | c :: rest =>
    if name = c.check then ⟨name, c.count + 1⟩ :: rest
    else if name < c.check then ⟨name, 1⟩ :: c :: rest
    else c :: tally name rest

/-- The number of issues per check name, in the byte order of the names. -/
def byCheck (s : Summary) : List CheckCount :=
  s.issues.foldl (fun acc i => tally i.checkName acc) []

end Summary

end PatchAudit
