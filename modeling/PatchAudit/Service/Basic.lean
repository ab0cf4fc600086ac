import PatchAudit.Run.Basic
import PatchAudit.Service.Request

/-!
# The service

Looks at patches and directories on behalf of clients, with the linter, the pattern and the store
that it was started with.
-/

namespace PatchAudit

/-- What the service works with. -/
structure Service where
  linter : Linter
  /-- The pattern for requests that give none. -/
  pattern : Bytes
  jobs : Int := 0
  store : Option Store := none
  /-- How stray bytes are written in answers. -/
  strayBytes : StraySpelling := .escape

/-- Why a request has no answer. -/
inductive ServiceError where
  /-- The request is not what the client has to send. -/
  | malformed
  | noPatch
  | noFolder
  | run (why : RunError)
  deriving DecidableEq, Repr

/-- The wording of an error. -/
def ServiceError.message : ServiceError → Bytes
  | malformed => "invalid request: not a value of the expected form"
  | noPatch => "patch is required"
  | noFolder => "dir is required"
  | run why => why.message

/-- The name of a patch that is given without one. -/
def standardPatchName : Bytes := "patch.patch"

namespace Service

/-- The report of a patch that a client sends. -/
def lint (s : Service) (r : LintRequest) : Except ServiceError FileReport :=
  if r.patch.isEmpty then .error .noPatch
  else
    let name := if r.name.isEmpty then standardPatchName else r.name
    .ok (s.linter.lint (Document.ofText name r.patch))

/-- The summary of a directory that a client names. -/
def run (s : Service) (d : Disk) (cancelled : Bool) (r : FolderRequest) :
    Disk × Except ServiceError Summary :=
  if r.dir.isEmpty then (d, .error .noFolder)
  else
    let pattern := if r.pattern.isEmpty then s.pattern else r.pattern
    let (d, outcome) := d.run cancelled
      { dir := r.dir, pattern := pattern, jobs := s.jobs, lint := s.linter.options,
        store := s.store }
    (d, outcome.mapError .run)

end Service

end PatchAudit
