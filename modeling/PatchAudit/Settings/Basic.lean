import PatchAudit.Check.Options
import PatchAudit.Path.Pattern
import PatchAudit.Text.Blank

/-!
# Settings

What a run depends on: where the patches are, which files are patches, how many are looked at in
parallel, and the options of the checks.
-/

namespace PatchAudit

/-- The settings of a run. -/
structure Settings where
  /-- The directory of the patches. -/
  dir : Bytes := "patches"
  /-- The pattern of the names of patch files. -/
  pattern : Bytes := "*.patch"
  /-- How many files are looked at in parallel; 0 means one for each processor. -/
  jobs : Int := 0
  lint : LintOptions := {}
  /-- The file that the settings were read from; empty if there was none. -/
  path : Bytes := []
  deriving DecidableEq, Repr

/-- Why settings cannot be used. -/
inductive SettingsFault where
  | emptyPattern
  | badPattern (pattern : Bytes)
  | negativeJobs (jobs : Int)
  | noReplacement
  | unknownCheck (why : UnknownCheck)
  deriving DecidableEq, Repr

/-- The wording of a fault. -/
def SettingsFault.message : SettingsFault → Bytes
  | emptyPattern => "pattern must not be empty"
  | badPattern p =>
    "invalid pattern " ++ Quoted.encode p ++ ": " ++ Pattern.Fault.message .malformed
  | negativeJobs n => "jobs must be >= 0, got " ++ Bytes.ofInt n
  | noReplacement => "[branding].replacement is required when old_terms is set"
  | unknownCheck why => why.message

namespace Settings

/-- The first thing that makes settings unusable. -/
def fault? (s : Settings) : Option SettingsFault :=
  if s.pattern.trim.isEmpty then some .emptyPattern
  else if !(Pattern.matchName s.pattern []).isOk then some (.badPattern s.pattern)
  else if s.jobs < 0 then some (.negativeJobs s.jobs)
  else if !s.lint.branding.oldTerms.isEmpty && s.lint.branding.replacement.trim.isEmpty then
    some .noReplacement
  else s.lint.unknownSkip?.map .unknownCheck

/-- The settings themselves, if they can be used. -/
def validate (s : Settings) : Except SettingsFault Settings :=
  match s.fault? with
  | some e => .error e
  | none => .ok s

end Settings

/-- What a command line may put in place of settings; empty values and zero put nothing. -/
structure Overrides where
  dir : Bytes := []
  pattern : Bytes := []
  skip : List Bytes := []
  jobs : Int := 0
  deriving DecidableEq, Repr

namespace Settings

/-- Settings with other values put in place. -/
def withOverrides (s : Settings) (o : Overrides) : Settings :=
  { s with
    dir := if o.dir.isEmpty then s.dir else o.dir
    pattern := if o.pattern.isEmpty then s.pattern else o.pattern
    jobs := if o.jobs = 0 then s.jobs else o.jobs
    lint := { s.lint with skip := if o.skip.isEmpty then s.lint.skip else o.skip } }

/-- Settings with other values put in place, if the result can be used. -/
def overridden (s : Settings) (o : Overrides) : Except SettingsFault Settings :=
  (s.withOverrides o).validate

end Settings

end PatchAudit
