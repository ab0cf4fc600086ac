import PatchAudit.Json.Value
import PatchAudit.Report.Issue

/-!
# SARIF logs

The Static Analysis Results Interchange Format, version 2.1.0: one run of one tool with a result for
each issue.
-/

namespace PatchAudit

/-- One result of a log. -/
structure SarifResult where
  ruleId : Bytes
  level : Bytes
  message : Bytes
  uri : Bytes
  /-- The line of the result; none for the file as a whole. -/
  startLine : Option Int
  deriving DecidableEq, Repr

/-- A rule that the tool declares. -/
structure SarifRule where
  id : Bytes
  description : Bytes
  deriving DecidableEq, Repr

/-- A log of one run. -/
structure SarifLog where
  toolVersion : Bytes
  rules : List SarifRule
  results : List SarifResult
  deriving DecidableEq, Repr

namespace SarifLog

/-- The rules behind the kinds of issues. -/
def standardRules : List SarifRule :=
  [⟨"io", "Patch file could not be read"⟩,
   ⟨"structure", "Patch header, file markers and hunks"⟩,
   ⟨"braces", "Braces introduced by added lines are balanced"⟩,
   ⟨"branding", "Added lines use the required branding"⟩]

/-- The level of a severity. -/
def levelOf (s : Severity) : Bytes :=
  if s = .error then "error" else if s = .warning then "warning" else "note"

/-- The result of an issue in the file with the given address. -/
def resultOf (uri : Bytes) (i : Issue) : SarifResult where
  ruleId := i.kind.word
  level := levelOf i.severity
  message := i.message
  uri := uri
  startLine := if i.isFileLevel then none else some i.line

/-- The address of a report's file. -/
def uriOf (r : FileReport) : Bytes := if r.path.isEmpty then r.name else r.path

/-- The log of a summary. -/
def ofSummary (toolVersion : Bytes) (s : Summary) : SarifLog where
  toolVersion := toolVersion
  rules := standardRules
  results := s.reports.flatMap fun r => r.issues.map (resultOf (uriOf r))

end SarifLog

/-- A message object. -/
def SarifLog.messageJson (text : Bytes) : JsonValue := .object [("text", .string text)]

/-- The value of a rule. -/
def SarifRule.toJson (r : SarifRule) : JsonValue :=
  .object [("id", .string r.id), ("shortDescription", SarifLog.messageJson r.description)]

/-- The value of a result. -/
def SarifResult.toJson (r : SarifResult) : JsonValue :=
  let region : List (Bytes × JsonValue) := match r.startLine with
    | none => []
    | some n => [("region", .object [("startLine", .int n)])]
  let location : JsonValue := .object [("physicalLocation",
    .object ((Bytes.ofString "artifactLocation", .object [("uri", .string r.uri)]) :: region))]
  .object [("ruleId", .string r.ruleId), ("level", .string r.level),
    ("message", SarifLog.messageJson r.message), ("locations", .array [location])]

/-- The value of a log; a list of rules that is empty is left out. -/
def SarifLog.toJson (l : SarifLog) : JsonValue :=
  let rules : List (Bytes × JsonValue) :=
    if l.rules.isEmpty then [] else [("rules", .array (l.rules.map SarifRule.toJson))]
  let driver : JsonValue := .object
    ([(Bytes.ofString "name", .string "patchlint"),
      (Bytes.ofString "version", .string l.toolVersion)] ++ rules)
  .object [("version", .string "2.1.0"),
    ("$schema",
      .string "https://schemastore.azurewebsites.net/schemas/json/sarif-2.1.0-rtm.5.json"),
    ("runs", .array [.object [("tool", .object [("driver", driver)]),
      ("results", .array (l.results.map SarifResult.toJson))]])]

end PatchAudit
