import PatchAudit.Codec.MessagePack
import PatchAudit.Report.Issue
import PatchAudit.Store.Key

/-!
# The stored form of a report

A report is stored without its path and name, as a map from field names to values.
-/

namespace PatchAudit

/-- An issue as it is stored: the codes are single bytes. -/
structure StoredIssue where
  check : Bytes := []
  kind : Nat := 0
  line : Int := 0
  message : Bytes := []
  severity : Nat := 0
  deriving DecidableEq, Repr

/-- A report as it is stored. -/
structure StoredReport where
  version : Nat := 0
  issues : List StoredIssue := []
  files : Int := 0
  added : Int := 0
  deleted : Int := 0
  deriving DecidableEq, Repr

/-! ### From reports and back -/

/-- The stored form of an issue. -/
def StoredIssue.ofIssue (i : Issue) : StoredIssue where
  check := i.check
  kind := (i.kind.code % 256).toNat
  line := i.line
  message := i.message
  severity := (i.severity.code % 256).toNat

/-- The issue of a stored form. -/
def StoredIssue.toIssue (i : StoredIssue) : Issue where
  check := i.check
  kind := ⟨i.kind⟩
  line := i.line
  message := i.message
  severity := ⟨i.severity⟩

/-- The stored form of a report. -/
def StoredReport.ofReport (r : FileReport) : StoredReport where
  version := storeVersion
  issues := r.issues.map StoredIssue.ofIssue
  files := r.stats.files
  added := r.stats.added
  deleted := r.stats.deleted

/-- A report with the issues and totals of a stored form; the path and the name stay. -/
def StoredReport.into (s : StoredReport) (r : FileReport) : FileReport :=
  { r with
    issues := s.issues.map StoredIssue.toIssue
    stats := ⟨s.files, s.added, s.deleted⟩ }

/-! ### Writing -/

open MessagePack in
/-- The bytes of an issue. -/
def StoredIssue.encode (i : StoredIssue) : Bytes :=
  mapHead 5 ++ text "Check" ++ text i.check ++ text "Kind" ++ word 0 i.kind
    ++ text "Line" ++ int i.line ++ text "Message" ++ text i.message
    ++ text "Severity" ++ word 0 i.severity

open MessagePack in
/-- The bytes of the issues; nil if there are none. -/
def StoredIssue.encodeAll (is : List StoredIssue) : Bytes :=
  if is.isEmpty then nil else arrayHead is.length ++ is.flatMap StoredIssue.encode

open MessagePack in
/-- The bytes of a report. -/
def StoredReport.encode (s : StoredReport) : Bytes :=
  mapHead 5 ++ text "Schema" ++ word 1 s.version ++ text "Issues" ++ StoredIssue.encodeAll s.issues
    ++ text "Files" ++ int s.files ++ text "Added" ++ int s.added ++ text "Deleted" ++ int s.deleted

/-! ### Reading

A record is read from a map, whose fields may come in any order and may be missing, or from an
array of all its fields in order.  Fields that are not known are passed over. -/

namespace StoredIssue

open MessagePack

/-- The fields of a stored issue. -/
inductive Field where
  | check
  | kind
  | line
  | message
  | severity
  deriving DecidableEq, Repr

/-- The fields in order, with their names. -/
def fields : List (Bytes × Field) :=
  [("Check", .check), ("Kind", .kind), ("Line", .line), ("Message", .message),
   ("Severity", .severity)]

/-- Reads the value of one field. -/
def readField (i : StoredIssue) : Field → Reader StoredIssue
  | .check => do return { i with check := ← readText }
  | .kind => do return { i with kind := ← readWord 8 }
  | .line => do return { i with line := ← readInt64 }
  | .message => do return { i with message := ← readText }
  | .severity => do return { i with severity := ← readWord 8 }

/-- Reads the entries of a map. -/
def readEntries : Nat → StoredIssue → Reader StoredIssue
  | 0, i => return i
  | n + 1, i => do
    let key ← readText
    let i ← match fields.lookup key with
      | some f => readField i f
      | none => do
        skip
        pure i
    readEntries n i

/-- Reads the values of all fields in order. -/
def readAll (i : StoredIssue) : Reader StoredIssue :=
  fields.foldlM (fun i f => readField i f.2) i

/-- Reads an issue over the one that was there. -/
def read (i : StoredIssue) : Reader StoredIssue := do
  match ← readShape with
  | .absent => return {}
  | .map n => readEntries n i
  | .array 0 => return {}
  | .array n => if n = fields.length then readAll i else refuse

/-- Reads a number of issues over those that were there. -/
def readMany : Nat → List StoredIssue → Reader (List StoredIssue)
  | 0, _ => return []
  | n + 1, before => do
    let i ← read (before.headD {})
    return i :: (← readMany n before.tail)

end StoredIssue

namespace StoredReport

open MessagePack

/-- The fields of a stored report. -/
inductive Field where
  | version
  | issues
  | files
  | added
  | deleted
  deriving DecidableEq, Repr

/-- The fields in order, with their names. -/
def fields : List (Bytes × Field) :=
  [("Schema", .version), ("Issues", .issues), ("Files", .files), ("Added", .added),
   ("Deleted", .deleted)]

/-- A report half read.  A list of issues may be given more than once; each is read over the one
before, and issues that a shorter list left over wait for a longer one. -/
structure Draft where
  report : StoredReport := {}
  spare : List StoredIssue := []
  deriving DecidableEq, Repr

/-- Reads a list of issues. -/
def readIssues (d : Draft) : Reader Draft := do
  match ← readShape with
  | .absent => return ⟨{ d.report with issues := [] }, []⟩
  | .array n =>
    let before := d.report.issues ++ d.spare
    let issues ← StoredIssue.readMany n before
    return ⟨{ d.report with issues := issues }, before.drop n⟩
  | .map _ => refuse

/-- Reads the value of one field. -/
def readField (d : Draft) : Field → Reader Draft
  | .version => do return { d with report.version := ← readWord 16 }
  | .issues => readIssues d
  | .files => do return { d with report.files := ← readInt64 }
  | .added => do return { d with report.added := ← readInt64 }
  | .deleted => do return { d with report.deleted := ← readInt64 }

/-- Reads the entries of a map. -/
def readEntries : Nat → Draft → Reader Draft
  | 0, d => return d
  | n + 1, d => do
    let key ← readText
    let d ← match fields.lookup key with
      | some f => readField d f
      | none => do
        skip
        pure d
    readEntries n d

/-- Reads the values of all fields in order. -/
def readAll (d : Draft) : Reader Draft := fields.foldlM (fun d f => readField d f.2) d

/-- Reads a report. -/
def read : Reader StoredReport := do
  match ← readShape with
  | .absent => return {}
  | .map n => return (← readEntries n {}).report
  | .array 0 => return {}
  | .array n => if n = fields.length then return (← readAll {}).report else refuse

/-- The report that bytes start with; bytes after it are ignored. -/
def decode? (data : Bytes) : Option StoredReport := (read data).map (·.1)

end StoredReport

end PatchAudit
