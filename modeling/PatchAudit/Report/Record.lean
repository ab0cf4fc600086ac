import PatchAudit.Json.Value
import PatchAudit.Report.Issue

/-!
# Reports as records

The form in which reports leave the program for other programs: plain records, in which every code
has become a word, and the JSON value of each.
-/

namespace PatchAudit

/-- An issue as a record. -/
structure IssueRecord where
  check : Bytes
  kind : Bytes
  /-- The line of the issue; left out when it is 0. -/
  line : Int
  message : Bytes
  severity : Bytes
  deriving DecidableEq, Repr

/-- A file report as a record. -/
structure FileRecord where
  name : Bytes
  path : Bytes
  valid : Bool
  filesTouched : Int
  added : Int
  deleted : Int
  issues : List IssueRecord
  deriving DecidableEq, Repr

/-- A summary as a record. -/
structure SummaryRecord where
  dir : Bytes
  valid : Nat
  total : Nat
  ok : Bool
  result : Bytes
  byCheck : List CheckCount
  files : List FileRecord
  deriving DecidableEq, Repr

/-! ### Records of reports -/

/-- The record of an issue. -/
def Issue.record (i : Issue) : IssueRecord where
  check := i.checkName
  kind := i.kind.word
  line := i.line
  message := i.message
  severity := i.severity.word

/-- The record of a file report. -/
def FileReport.record (r : FileReport) : FileRecord where
  name := r.name
  path := r.path
  valid := r.isValid
  filesTouched := r.stats.files
  added := r.stats.added
  deleted := r.stats.deleted
  issues := r.issues.map Issue.record

/-- The record of a summary. -/
def Summary.record (s : Summary) : SummaryRecord where
  dir := s.dir
  valid := s.validCount
  total := s.totalCount
  ok := s.isOk
  result := s.resultLine
  byCheck := s.byCheck
  files := s.reports.map FileReport.record

/-! ### Values of records -/

/-- The value of an issue. -/
def IssueRecord.toJson (i : IssueRecord) : JsonValue :=
  let line : List (Bytes × JsonValue) := if i.line = 0 then [] else [("line", .int i.line)]
  .object ([(Bytes.ofString "check", .string i.check), (Bytes.ofString "kind", .string i.kind)] ++ line
    ++ [(Bytes.ofString "message", .string i.message), (Bytes.ofString "severity", .string i.severity)])

/-- The value of a count. -/
def CheckCount.toJson (c : CheckCount) : JsonValue :=
  .object [("check", .string c.check), ("count", .int c.count)]

/-- The value of a file record. -/
def FileRecord.toJson (r : FileRecord) : JsonValue :=
  .object [("name", .string r.name), ("path", .string r.path), ("valid", .bool r.valid),
    ("files_touched", .int r.filesTouched), ("added", .int r.added), ("deleted", .int r.deleted),
    ("issues", .array (r.issues.map IssueRecord.toJson))]

/-- The value of a summary record. -/
def SummaryRecord.toJson (s : SummaryRecord) : JsonValue :=
  .object [("dir", .string s.dir), ("valid", .int s.valid), ("total", .int s.total),
    ("ok", .bool s.ok), ("result", .string s.result),
    ("by_check", .array (s.byCheck.map CheckCount.toJson)),
    ("files", .array (s.files.map FileRecord.toJson))]

end PatchAudit
