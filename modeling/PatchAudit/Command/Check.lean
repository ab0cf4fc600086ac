import PatchAudit.Report.Format
import PatchAudit.Run.Basic
import PatchAudit.Settings.Basic

/-!
# Checking a directory

The command that looks at all patches of a directory and prints a report.
-/

namespace PatchAudit

/-- What the program finds around it. -/
structure Environment where
  /-- Where the user keeps files; empty if not set. -/
  home : Bytes := []
  /-- Where the user keeps what can be made again; empty if not set. -/
  cacheHome : Bytes := []
  /-- How the encoder at hand writes stray bytes. -/
  strayBytes : StraySpelling := .escape
  deriving DecidableEq, Repr

namespace Environment

/-- The directory of the store of reports, if the user has one. -/
def storeDir? (e : Environment) : Option Bytes :=
  if !e.cacheHome.isEmpty then some (Path.join [e.cacheHome, "patchlint"])
  else if !e.home.isEmpty then some (Path.join [Path.join [e.home, ".cache"], "patchlint"])
  else none

/-- Opens the store of reports.  A store that cannot be opened is done without. -/
def openStore (e : Environment) (d : Disk) : Option Store × Disk :=
  match e.storeDir?.map (Store.openAt d) with
  | some (d, opened) => (opened.toOption, d)
  | none => (none, d)

end Environment

/-- What a check is asked for besides the settings. -/
structure CheckRequest where
  overrides : Overrides := {}
  /-- The name of the format; the empty name means the plain one. -/
  format : Bytes := []
  /-- Whether reports of unchanged patches are used again. -/
  useStore : Bool := false
  /-- Whether the store is emptied first, which means that it is used. -/
  clearStore : Bool := false
  /-- Whether a table of changes is printed in place of the report. -/
  table : Bool := false
  deriving DecidableEq, Repr

/-- Why a check fails. -/
inductive CheckError where
  | unknownFormat (why : Format.Unknown)
  | settings (why : SettingsFault)
  | run (why : RunError)
  /-- The report is printed, and some patch has an issue. -/
  | patchesInvalid
  deriving DecidableEq, Repr

/-- The wording of an error. -/
def CheckError.message : CheckError → Bytes
  | unknownFormat why => why.message
  | settings why => why.message
  | run why => why.message
  | patchesInvalid => "some patches need attention"

/-- What is left after a command: the disk, what was printed, and the error. -/
structure Outcome (ε : Type) where
  disk : Disk
  output : Bytes := []
  error : Option ε := none

namespace CheckRequest

/-- Opens the store if the request asks for it, and empties it if it asks for that. -/
def prepareStore (r : CheckRequest) (e : Environment) (d : Disk) : Option Store × Disk :=
  if r.useStore || r.clearStore then
    let (store, d) := e.openStore d
    match store, r.clearStore with
    | some s, true => (store, (s.clear d).1)
    | _, _ => (store, d)
  else (none, d)

/-- What is printed for a summary. -/
def print (r : CheckRequest) (e : Environment) (f : Format) (s : Summary) : Bytes :=
  if r.table then StatTable.render s else f.render { strayBytes := e.strayBytes } s

/-- What is settled before the run: the format, the disk with the store made ready, and what the run
is asked to do. -/
def plan (r : CheckRequest) (e : Environment) (d : Disk) (s : Settings) :
    Except CheckError (Format × Disk × RunRequest) :=
  match Format.ofName r.format with
  | .error why => .error (.unknownFormat why)
  | .ok format =>
    match s.overridden r.overrides with
    | .error why => .error (.settings why)
    | .ok s =>
      let (store, d) := r.prepareStore e d
      .ok (format, d,
        { dir := s.dir, pattern := s.pattern, jobs := s.jobs, lint := s.lint, store := store })

/-- What a check ends with after its run. -/
def conclude (r : CheckRequest) (e : Environment) (format : Format) :
    Disk × Except RunError Summary → Outcome CheckError
  | (d, .error why) => { disk := d, error := some (.run why) }
  | (d, .ok summary) =>
    { disk := d
      output := r.print e format summary
      error := if summary.isOk then none else some .patchesInvalid }

/-- Carries out a check. -/
def execute (r : CheckRequest) (e : Environment) (d : Disk) (cancelled : Bool) (s : Settings) :
    Outcome CheckError :=
  match r.plan e d s with
  | .error why => { disk := d, error := some why }
  | .ok (format, d, request) => r.conclude e format (d.run cancelled request)

end CheckRequest

end PatchAudit
