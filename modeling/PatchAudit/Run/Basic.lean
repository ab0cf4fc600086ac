import PatchAudit.Check.Linter
import PatchAudit.Run.Discover
import PatchAudit.Store.Basic

/-!
# Running over a directory

A run looks at every patch of a directory.  A patch that cannot be read gets a report of its own;
only a wrong request and a cancelled run have no summary.
-/

namespace PatchAudit

/-- What a run is asked to do. -/
structure RunRequest where
  dir : Bytes
  pattern : Bytes
  jobs : Int := 0
  lint : LintOptions := {}
  /-- Where reports of unchanged patches are kept. -/
  store : Option Store := none
  deriving DecidableEq, Repr

/-- Why a run has no summary. -/
inductive RunError where
  | discover (why : DiscoverError)
  | unknownCheck (why : UnknownCheck)
  | cancelled
  deriving DecidableEq, Repr

/-- The wording of an error. -/
def RunError.message : RunError → Bytes
  | discover why => why.message
  | unknownCheck why => why.message
  | cancelled => "context canceled"

/-- A patch file that cannot be read. -/
structure LoadError where
  why : DiskError
  deriving DecidableEq, Repr

/-- The wording of an error. -/
def LoadError.message (e : LoadError) : Bytes := "reading " ++ e.why.path ++ ": " ++ e.why.message

/-- The patch at a path. -/
def Disk.loadPatch (d : Disk) (path : Bytes) : Except LoadError Document :=
  match d.fileData path with
  | .ok data => .ok (Document.ofText path data)
  | .error why => .error ⟨why⟩

namespace Linter

/-- The report of a document, taken from a store if it is there and kept in it if it is not.  A
store that fails is passed over. -/
def lintWith (l : Linter) (store : Option Store) (d : Disk) (doc : Document) : Disk × FileReport :=
  match store with
  | none => (d, l.lint doc)
  | some s =>
    let key := StoreKey.of doc.name doc.text l.options
    match s.get d key { path := doc.path, name := doc.name } with
    | .ok (some stored) => (d, stored)
    | _ =>
      let report := l.lint doc
      ((s.put d key report).1, report)

/-- The report of the patch at a path. -/
def lintFile (l : Linter) (store : Option Store) (d : Disk) (path : Bytes) : Disk × FileReport :=
  match d.loadPatch path with
  | .error why => (d, .unreadable path (Path.base path) why.message)
  | .ok doc => l.lintWith store d doc

/-- The reports of patches one after the other. -/
def lintFiles (l : Linter) (store : Option Store) (d : Disk) : List Bytes → Disk × List FileReport
  | [] => (d, [])
  | path :: rest =>
    let (d, report) := l.lintFile store d path
    let (d, reports) := lintFiles l store d rest
    (d, report :: reports)

end Linter

/-- Runs over a directory.  A run that is cancelled beforehand changes nothing. -/
def Disk.run (d : Disk) (cancelled : Bool) (r : RunRequest) : Disk × Except RunError Summary :=
  match d.patches r.dir r.pattern with
  | .error why => (d, .error (.discover why))
  | .ok files =>
    match Linter.ofOptions r.lint with
    | .error why => (d, .error (.unknownCheck why))
    | .ok linter =>
      if cancelled then (d, .error .cancelled)
      else
        let (d, reports) := linter.lintFiles r.store d files
        (d, .ok ⟨r.dir, reports⟩)

end PatchAudit
