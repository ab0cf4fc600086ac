import PatchAudit.Command.Line
import PatchAudit.Report.Format

/-!
# How a command line may go on

A shell asks what the last argument of an unfinished command line may become.  The answer lists the
commands or the flags that it begins, and tells whether names of files fit as well.
-/

namespace PatchAudit

/-! ### What is said about commands and flags -/

namespace Subcommand

/-- What a command does. -/
def title : Subcommand → Bytes
  | check => "Lint every patch in a directory and print a report"
  | braces => "Trace the brace balance of a single patch"
  | browse => "Browse lint results in an interactive terminal UI"
  | serve => "Start the HTTP API server"
  | version => "Print version information"
  | help => "Help about any command"
  | completion => "Generate the autocompletion script for the specified shell"
  | completionFor shell => "Generate the autocompletion script for " ++ shell.name
  | suggest _ => []

/-- The last word of the name of a command. -/
def word : Subcommand → Bytes
  | completionFor shell => shell.name
  | c => c.name

/-- The commands that may follow a command, or stand first, in the order of their names. -/
def following : Option Subcommand → List Subcommand
  | none => [braces, browse, check, completion, help, serve, version]
  | some completion =>
    [completionFor .bash, completionFor .fish, completionFor .powershell, completionFor .zsh]
  | some _ => []

/-- The flags that a command has from the program, and after them its own, each in the order of their
names. -/
def listedFlags (c : Option Subcommand) : List Flag :=
  match c with
  | none => [.config, .debug, .help]
  | some (suggest _) => [.config, .debug]
  | some c =>
    [.config, .debug] ++ Bytes.sortBy (fun f g => decide (f.name ≤ g.name)) (.help :: c.ownFlags)

end Subcommand

namespace Flag

/-- What a flag of a command does. -/
def title (c : Option Subcommand) : Flag → Bytes
  | config => "path to .patchlint.toml (default: search upwards)"
  | debug => "enable debug logging on stderr"
  | help => "help for " ++ (c.map Subcommand.word).getD "patchlint"
  | format => "output format: " ++ Bytes.join ", " (Format.all.map Format.name)
  | pattern =>
    "glob selecting patch files" ++ if c = some .check then " (default \"*.patch\")" else ""
  | skip => "checks to skip: structure, braces, branding"
  | jobs => "files linted in parallel (0 = one per CPU)"
  | cache =>
    "reuse reports for unchanged patches" ++ if c = some .serve then " in /api/run" else ""
  | clearCache => "drop cached reports before linting (implies --cache)"
  | stat => "print per-patch diff stats instead of the report"
  | addr => "address to listen on"
  | port => "port to listen on"
  | noDescriptions => "disable completion descriptions"

/-- Whether a flag may be given more than once. -/
def isRepeatable (f : Flag) : Bool := f == skip

/-- The ways to write a flag. -/
def spellings (f : Flag) : List Bytes :=
  ("--" ++ f.name) :: f.letter?.toList.map fun l => [0x2D, l]

end Flag

/-! ### Suggestions -/

/-- Something that the last argument may become, and what is said about it. -/
structure Suggestion where
  text : Bytes
  title : Bytes
  deriving DecidableEq, Repr

/-- All that the last argument may become. -/
structure Suggestions where
  items : List Suggestion := []
  /-- Whether names of files fit as well. -/
  files : Bool := true
  deriving DecidableEq, Repr

namespace Suggestions

/-- What a shell is told: a line for each suggestion, and one with a code that asks for names of
files or for nothing more. -/
def render (described : Bool) (s : Suggestions) : Bytes :=
  let line (i : Suggestion) : Bytes :=
    if described then i.text ++ "\t" ++ i.title ++ "\n" else i.text ++ "\n"
  s.items.flatMap line ++ if s.files then ":0\n" else ":4\n"

/-- The commands that may follow a command and that an argument begins. -/
def commandsAfter (c : Option Subcommand) (typed : Bytes) : List Suggestion :=
  ((Subcommand.following c).filter fun c => Bytes.hasStart typed c.word).map fun c =>
    ⟨c.word, c.title⟩

/-- The flags of a command that an argument begins, without those given before. -/
def flagsOf (c : Option Subcommand) (given : List Flag) (typed : Bytes) : List Suggestion :=
  let fresh := (Subcommand.listedFlags c).filter fun f => f.isRepeatable || !given.contains f
  fresh.flatMap fun f =>
    (f.spellings.filter (Bytes.hasStart typed)).map fun spelling => ⟨spelling, f.title c⟩

/-- Whether an argument begins a flag. -/
def beginsFlag (typed : Bytes) : Bool := CommandLine.isDashed typed && !typed.contains 0x3D

/-! ### The end of a command line -/

/-- The end of an unfinished command line: the arguments before it, what is typed, and the flag that
this is the value of. -/
structure Ending where
  before : List Bytes
  typed : Bytes
  flag : Option Flag := none
  /-- Whether a flag was named that there is not. -/
  unknown : Bool := false
  deriving DecidableEq, Repr

namespace Ending

/-- The flag with a name, or with a letter if that is all. -/
def flagOf? (scope : List Flag) : Bytes → Option Flag
  | [l] => Flag.lettered? scope l
  | name => Flag.named? scope name

/-- The name, or the last letter, that an argument gives to flags. -/
def flagName (arg : Bytes) : Bytes :=
  match arg with
  | 0x2D :: 0x2D :: name => name
  | _ => arg.getLast?.toList

/-- Whether an argument names flags and gives them no value. -/
def namesFlag (arg : Bytes) : Bool :=
  !arg.contains 0x3D &&
    match arg with
    | 0x2D :: 0x2D :: name => !name.isEmpty
    | 0x2D :: _ :: _ => true
    | _ => false

/-- The end of a command line whose last argument may be the value of the flag before it. -/
def afterFlag (scope : List Flag) (args : List Bytes) (last typed : Bytes) : Ending :=
  match args.getLast? with
  | none => { before := args, typed := typed }
  | some arg =>
    if namesFlag arg then
      match flagOf? scope (flagName arg) with
      | none => { before := args, typed := last, unknown := true }
      | some f =>
        if f.isSwitch then { before := args, typed := typed }
        else { before := args.dropLast, typed := typed, flag := some f }
    else { before := args, typed := typed }

/-- The end of a command line with the given last argument. -/
def make (scope : List Flag) (args : List Bytes) (last : Bytes) : Ending :=
  if !CommandLine.isDashed last then afterFlag scope args last last
  else if !last.contains 0x3D then { before := args, typed := last }
  else
    let front := Bytes.before 0x3D last
    let value := last.drop (front.length + 1)
    if flagName front = [] then afterFlag scope args last value
    else
      match flagOf? scope (flagName front) with
      | none => { before := args, typed := last, unknown := true }
      | some f => { before := args, typed := value, flag := some f }

end Ending

/-! ### What fits -/

/-- What fits behind the words of a command; `mayFollow` tells whether commands may follow. -/
def wordsAfter (c : Option Subcommand) (words : List Bytes) (typed : Bytes) (mayFollow : Bool) :
    Suggestions :=
  let next := if mayFollow then commandsAfter c typed else []
  match c with
  | some .help =>
    match CommandLine.command words with
    | .ok (about, _) => ⟨commandsAfter about typed, false⟩
    | .error _ => ⟨[], false⟩
  | some .completion => ⟨next, false⟩
  | some (.completionFor _) => ⟨next, false⟩
  | _ => ⟨next, !mayFollow || (Subcommand.following c).isEmpty⟩

/-- What fits at the end of the arguments of a command. -/
def ofCommand (c : Option Subcommand) (args : List Bytes) (last : Bytes) : Suggestions :=
  let ending := Ending.make (Subcommand.flags c) args last
  match CommandLine.parse (Subcommand.flags c) ending.before with
  | .error _ => {}
  | .ok state =>
    if ending.unknown && !state.ended then {}
    else if state.given.contains .help then ⟨[], false⟩
    else if ending.flag.isSome && !state.ended then {}
    else if ending.flag.isNone && beginsFlag ending.typed && !state.ended then
      ⟨flagsOf c state.given ending.typed, false⟩
    else wordsAfter c state.words ending.typed (ending.flag.isNone && state.words.isEmpty)

/-- What fits at the end of a command line, whose last argument is unfinished. -/
def ofLine (args : List Bytes) : Suggestions :=
  let typed := args.getLastD []
  match CommandLine.command args.dropLast with
  | .error _ => {}
  | .ok (some (.suggest b), _) =>
    if beginsFlag typed then ⟨flagsOf (some (.suggest b)) [] typed, false⟩ else {}
  | .ok (c, rest) => ofCommand c rest typed

end Suggestions

end PatchAudit
