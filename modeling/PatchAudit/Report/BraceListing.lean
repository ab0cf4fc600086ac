import PatchAudit.Check.Braces
import PatchAudit.Diff.Reader
import PatchAudit.Report.Paint

/-!
# The brace listing

Every added line that has a brace, with the balance after it, and a verdict at the end.
-/

namespace PatchAudit

namespace BraceListing

/-- What is special about a file, in brackets. -/
def tags (f : Diff.FileChange) : Bytes :=
  let named : List (Bool × Bytes) :=
    [(f.isNew, "new"), (f.isDeleted, "deleted"), (f.isBinary, "binary, not scanned")]
  match (named.filter (·.1)).map (·.2) with
  | [] => []
  | ts => " [" ++ Bytes.join "; " ts ++ "]"

/-- The line of a file that the patch changes. -/
def fileLine (f : Diff.FileChange) : Bytes :=
  "  " ++ f.name ++ " (+" ++ Bytes.ofNat f.added ++ " -" ++ Bytes.ofNat f.deleted ++ ")" ++ tags f
    ++ "\n"

/-- The line of a step. -/
def stepLine (coloured : Bool) (s : BraceStep) : Bytes :=
  let marker : Bytes :=
    if s.isUnmatched then Ink.red.paint coloured "  <- unmatched closing brace" else []
  "Line " ++ Bytes.ofNat s.line ++ ": '" ++ s.text ++ "' -> " ++ Bytes.ofNat s.count.opened
    ++ " open, " ++ Bytes.ofNat s.count.closed ++ " close (balance "
    ++ Bytes.ofNat s.balance.toNat ++ ")" ++ marker ++ "\n"

/-- The verdict on the issues found. -/
def verdict (coloured : Bool) (issues : List Issue) : Bytes :=
  if issues.isEmpty then Ink.green.paint coloured "✓ Braces are balanced!" ++ "\n"
  else issues.flatMap fun i => Ink.red.paint coloured ("✗ " ++ i.describe) ++ "\n"

/-- The listing of a document, and whether its braces balance without a line that closes more than
is open. -/
def render (coloured : Bool) (marks : List Bytes) (d : Document) : Bool × Bytes :=
  let lines := d.classified
  let steps := BraceStep.trace marks lines
  let changes := (Diff.files d.text).toOption.getD []
  let rule : Bytes := Bytes.fill 50 0x2D ++ "\n"
  let (issues, last) := BraceScan.scan marks lines
  let total (count : BraceStep → Nat) : Nat := (steps.map count).foldr (· + ·) 0
  (issues.isEmpty,
    "Analyzing braces in added lines of " ++ d.name ++ ":\n" ++ changes.flatMap fileLine ++ rule
      ++ steps.flatMap (stepLine coloured) ++ rule
      ++ "Total open braces: " ++ Bytes.ofNat (total (·.count.opened)) ++ "\n"
      ++ "Total close braces: " ++ Bytes.ofNat (total (·.count.closed)) ++ "\n"
      ++ "Balance: " ++ Bytes.ofNat last.balance ++ "\n" ++ verdict coloured issues)

end BraceListing

end PatchAudit
