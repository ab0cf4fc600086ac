import PatchAudit.Report.Issue
import PatchAudit.Text.Quoted

/-!
# Checks and their options
-/

namespace PatchAudit

/-- The checks, in the order in which they report. -/
inductive Check where
  | shape
  | braces
  | branding
  deriving DecidableEq, Repr

namespace Check

/-- The name by which a check is skipped and reported. -/
def name : Check → Bytes
  | shape => "structure"
  | braces => "braces"
  | branding => "branding"

/-- All checks in reporting order. -/
def all : List Check := [shape, braces, branding]

/-- The names of all checks in alphabetical order. -/
def names : List Bytes := Bytes.sort (all.map name)

end Check

/-- Which terms added lines must not use alone. -/
structure BrandingRule where
  /-- The terms that give a line away. -/
  oldTerms : List Bytes
  /-- The term that excuses a line. -/
  replacement : Bytes
  /-- The rule holds for patches whose name contains this, in any case. -/
  fileFilter : Bytes
  deriving DecidableEq, Repr

/-- The rule used when none is given. -/
def BrandingRule.standard : BrandingRule where
  oldTerms := ["Chromium", "BrowserOS", "Chrome"]
  replacement := "PrivacyAgent"
  fileFilter := "branding"

/-- Starts of added lines that the brace scan passes over. -/
def standardCommentMarks : List Bytes := ["//", "/*", "*"]

/-- What the checks depend on besides the patch. -/
structure LintOptions where
  branding : BrandingRule := .standard
  /-- Starts of lines that the brace scan passes over. -/
  commentMarks : List Bytes := standardCommentMarks
  /-- Names of checks that are left out. -/
  skip : List Bytes := []
  deriving DecidableEq, Repr

/-- A name to skip that no check has. -/
structure UnknownCheck where
  name : Bytes
  deriving DecidableEq, Repr

/-- The wording of an unknown check. -/
def UnknownCheck.message (e : UnknownCheck) : Bytes :=
  "unknown check " ++ Quoted.encode e.name ++ " (known: [" ++ Bytes.join " " Check.names ++ "])"

namespace LintOptions

/-- The first name to skip that no check has. -/
def unknownSkip? (o : LintOptions) : Option UnknownCheck :=
  (o.skip.find? fun s => !Check.names.contains s).map UnknownCheck.mk

end LintOptions

end PatchAudit
