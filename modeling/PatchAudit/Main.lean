import PatchAudit.Browser.View
import PatchAudit.Command.Basic
import PatchAudit.Service.Exchange
import PatchAudit.Service.Origin
import PatchAudit.Service.Session

/-!
# The program

The outer layer: it reads the part of the disk that a command line can see, carries the command line
out on that value, writes back what changed, and prints.  There are no sockets and no raw terminal
here, so a service answers session messages from standard input, one a line, and the browser takes
the names of keys the same way.
-/

namespace PatchAudit

namespace Program

/-- The place of a path from the root. -/
def placeOf (path : String) : Place := Path.components (Bytes.ofString path)

/-- The path of a place. -/
def pathOf (p : Place) : String := Bytes.toString (Path.ofComponents p)

/-- The entries at and below a path; a path that cannot be read has none. -/
partial def readTree (path : String) : IO (List (Place × Entry)) := do
  let here := (← IO.currentDir) / path
  try
    if ← here.isDir then
      let below ← (← here.readDir).toList.mapM fun e => readTree e.path.toString
      return (placeOf here.toString, .folder) :: below.flatten
    else if ← here.pathExists then
      return [(placeOf here.toString, .file (← IO.FS.readBinFile here).toList)]
    else return []
  catch _ => return []

/-- The folders on the way to a place, itself left out. -/
def foldersAbove (p : Place) : List (Place × Entry) :=
  (List.range p.length).map fun n => (p.take n, Entry.folder)

/-- The disk that a command line can see: the working directory, the settings above it, what the
arguments name, and the store. -/
def readDisk (args : List String) (e : Environment) : IO Disk := do
  let work := (← IO.currentDir).toString
  let settings := (Path.ancestors (Bytes.ofString work)).map fun dir =>
    Bytes.toString (Path.join [dir, SettingsFile.fileName])
  let store := (e.storeDir?.map Bytes.toString).toList
  let values := args.filterMap fun a => (a.splitOn "=").getLast?
  let trees ← (work :: settings ++ store ++ values).mapM readTree
  let found := trees.flatten
  let entries := found ++ found.flatMap fun x => foldersAbove x.1
  return ⟨entries.eraseDupsBy fun a b => a.1 == b.1, placeOf work⟩

/-- Writes back the files that changed, and removes those that are gone. -/
def writeBack (before after : Disk) : IO Unit := do
  let here ← IO.currentDir
  for (p, e) in after.entries do
    if before.entries.lookup p != some e then
      match e with
      | .folder => IO.FS.createDirAll (here / pathOf p)
      | .file data =>
        IO.FS.createDirAll (here / pathOf p.dropLast)
        IO.FS.writeBinFile (here / pathOf p) ⟨data.toArray⟩
      | .link _ => pure ()
  for (p, e) in before.entries do
    if (after.entries.lookup p).isNone then
      match e with
      | .file _ => IO.FS.removeFile (here / pathOf p)
      | _ => pure ()

/-- Prints a text as it is. -/
def print (s : Bytes) : IO Unit := do
  let out ← IO.getStdout
  out.write ⟨s.toArray⟩
  out.flush

/-- A line of standard input without its end; none at the end of the input. -/
def readLine : IO (Option Bytes) := do
  let line ← (← IO.getStdin).getLine
  return if line.isEmpty then none else some (Bytes.dropFinal "\n" (Bytes.ofString line))

/-- Shows the browser after each key, until it is closed. -/
partial def browse (load : Loader) (b : Browser) : IO Unit := do
  print (b.view ++ "\n")
  match ← readLine with
  | none => return
  | some key =>
    let (b, closed) := b.update Highlight.standard load (.press key)
    if closed then return else browse load b

/-- Answers the messages of a session. -/
partial def answer (s : Service) (d : Disk) (session : Session) : IO Unit := do
  match ← readLine with
  | none => return
  | some message =>
    let (after, session, reply) := s.reply d session message
    writeBack d after
    print (reply.text s.strayBytes)
    answer s after session

/-- The value of a variable; empty if it is not set. -/
def fromEnvironment (name : String) : IO Bytes := do
  return Bytes.ofString ((← IO.getEnv name).getD "")

/-- Carries out a command line; the result is the exit code. -/
def run (args : List String) : IO UInt32 := do
  let e : Environment :=
    { home := ← fromEnvironment "HOME", cacheHome := ← fromEnvironment "XDG_CACHE_HOME" }
  let disk ← readDisk args e
  let result := CommandLine.run e (← (← IO.getStdout).isTty) disk (args.map Bytes.ofString)
  let after := result.outcome.disk
  writeBack disk after
  print result.outcome.output
  match result.outcome.error with
  | some (.check .patchesInvalid) => return 1
  | some why =>
    IO.eprintln ("Error: " ++ Bytes.toString why.message)
    return 1
  | none =>
    match result.next with
    | .nothing => pure ()
    | .showUsage =>
      let names := Subcommand.all.map fun c => Bytes.toString c.name
      IO.println ("Usage: patchlint [" ++ "|".intercalate names ++ "]")
    | .openBrowser summary =>
      let load : Loader := fun path => (after.loadPatch path).mapError LoadError.message
      let opened := Browser.start Highlight.standard load (some summary)
      browse load (opened.update Highlight.standard load (.resize 80 24)).1
    | .startService service _ => answer service after {}
    return 0

end Program

end PatchAudit

def main (args : List String) : IO UInt32 := PatchAudit.Program.run args
