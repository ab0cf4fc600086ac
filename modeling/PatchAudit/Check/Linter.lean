import PatchAudit.Check.Braces
import PatchAudit.Check.Branding
import PatchAudit.Check.Shape
import PatchAudit.Diff.Reader

/-!
# The linter

A linter runs the checks that are not skipped over a document.  No check stops another one, and the
report lists their issues in the order of the checks.
-/

namespace PatchAudit

/-- Options of which every name to skip is that of a check. -/
structure Linter where
  options : LintOptions
  skip_known : options.unknownSkip? = none

namespace Linter

/-- A linter with the given options. -/
def ofOptions (o : LintOptions) : Except UnknownCheck Linter :=
  match h : o.unknownSkip? with
  | none => .ok ⟨o, h⟩
  | some e => .error e

end Linter

namespace Check

/-- The issues that one check finds in a document. -/
def issues (o : LintOptions) (d : Document) : Check → List Issue
  | shape => ShapeCheck.issues d.text
  | braces => (BraceScan.scan o.commentMarks d.classified).1
  | branding => o.branding.issues d.name d.classified

end Check

/-- The totals of a patch; none if it cannot be read as a diff. -/
def Document.stats (d : Document) : DiffStats :=
  match Diff.files d.text with
  | .ok changes => Diff.stats changes
  | .error _ => {}

namespace LintOptions

/-- The checks that are not skipped, in reporting order. -/
def enabled (o : LintOptions) : List Check := Check.all.filter fun c => !o.skip.contains c.name

/-- The report of a document under options. -/
def report (o : LintOptions) (d : Document) : FileReport where
  path := d.path
  name := d.name
  issues := o.enabled.flatMap (Check.issues o d)
  stats := d.stats

end LintOptions

/-- The report of a document. -/
def Linter.lint (l : Linter) (d : Document) : FileReport := l.options.report d

/-- The report of a file that could not be read. -/
def FileReport.unreadable (path name why : Bytes) : FileReport where
  path := path
  name := name
  issues := [{
    check := []
    kind := .unreadable
    line := 0
    message := "error reading file: " ++ why
    severity := .warning }]

end PatchAudit
