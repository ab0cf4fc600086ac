import PatchAudit.Command.Check
import PatchAudit.Command.Suggestion
import PatchAudit.Report.BraceListing
import PatchAudit.Service.Basic
import PatchAudit.Service.Listen
import PatchAudit.Settings.File

/-!
# The commands

What each command line does, from the arguments to what is printed.  A service that is to be started
and a browser that is to be opened are handed out.
-/

namespace PatchAudit

/-- Why a command fails. -/
inductive CommandError where
  | usage (why : UsageError)
  | settings (why : SettingsError)
  | check (why : CheckError)
  | load (why : LoadError)
  | noTerminal
  | unknownCheck (why : UnknownCheck)
  | listen (why : ListenError)
  deriving DecidableEq, Repr

/-- The wording of an error. -/
def CommandError.message : CommandError → Bytes
  | usage why => why.message
  | settings why => why.message
  | check why => why.message
  | load why => why.message
  | noTerminal => "browse needs an interactive terminal; use \"patchlint check\" instead"
  | unknownCheck why => why.message
  | listen why => why.message

/-- What is to be done after a command that did not fail. -/
inductive NextStep where
  | nothing
  /-- The usage is to be shown. -/
  | showUsage
  | openBrowser (s : Summary)
  | startService (s : Service) (address : Bytes)

/-- What is left after a command line, and what is to be done next. -/
structure CommandResult where
  outcome : Outcome CommandError
  next : NextStep := .nothing

namespace CommandResult

/-- A command that fails and prints nothing. -/
def failed (d : Disk) (why : CommandError) : CommandResult :=
  ⟨{ disk := d, error := some why }, .nothing⟩

/-- A command that prints something. -/
def printed (d : Disk) (output : Bytes) : CommandResult :=
  ⟨{ disk := d, output := output }, .nothing⟩

end CommandResult

namespace Subcommand

/-- The settings: those of the file that is given, or else the nearest ones. -/
def settings (d : Disk) (v : FlagValues) : Except SettingsError Settings :=
  if v.config.isEmpty then d.nearestSettings d.workPath else d.loadSettings v.config

/-- What the flags put in place of the settings. -/
def overrides (v : FlagValues) (words : List Bytes) : Overrides :=
  { dir := match words with
      | [dir] => dir
      | _ => []
    pattern := v.pattern
    skip := v.skip
    jobs := v.jobs }

/-- What is wrong with the number of words for a command. -/
def wordFault? (c : Subcommand) (words : List Bytes) : Option UsageError :=
  match c with
  | check | browse => if 1 < words.length then some (.tooManyWords 1 words.length) else none
  | braces => if words.length = 1 then none else some (.wrongWordCount 1 words.length)
  | completionFor _ => words.head?.map fun word => .unknownPart word c
  | suggest _ => if words.isEmpty then some (.tooFewWords 1 0) else none
  | _ => none

/-- Looks at all patches of a directory. -/
def runCheck (e : Environment) (d : Disk) (v : FlagValues) (words : List Bytes) : CommandResult :=
  match settings d v with
  | .error why => .failed d (.settings why)
  | .ok s =>
    let request : CheckRequest :=
      { overrides := overrides v words, format := v.format, useStore := v.cache,
        clearStore := v.clearCache, table := v.stat }
    let out := request.execute e d false s
    ⟨{ disk := out.disk, output := out.output, error := out.error.map .check }, .nothing⟩

/-- Lists the braces of one patch. -/
def runBraces (d : Disk) (v : FlagValues) (words : List Bytes) : CommandResult :=
  match settings d v with
  | .error why => .failed d (.settings why)
  | .ok s =>
    match d.loadPatch (words.headD []) with
    | .error why => .failed d (.load why)
    | .ok doc =>
      let (balanced, listing) := BraceListing.render false s.lint.commentMarks doc
      ⟨{ disk := d, output := listing,
         error := if balanced then none else some (.check .patchesInvalid) }, .nothing⟩

/-- Runs over a directory and opens the browser. -/
def runBrowse (terminal : Bool) (d : Disk) (v : FlagValues) (words : List Bytes) : CommandResult :=
  if !terminal then .failed d .noTerminal
  else
    match settings d v with
    | .error why => .failed d (.settings why)
    | .ok s =>
      match s.overridden { overrides v words with jobs := 0 } with
      | .error why => .failed d (.check (.settings why))
      | .ok s =>
        match d.run false { dir := s.dir, pattern := s.pattern, jobs := s.jobs, lint := s.lint } with
        | (d, .error why) => .failed d (.check (.run why))
        | (d, .ok summary) => ⟨{ disk := d }, .openBrowser summary⟩

/-- Starts the service. -/
def runServe (e : Environment) (d : Disk) (v : FlagValues) : CommandResult :=
  match settings d v with
  | .error why => .failed d (.settings why)
  | .ok s =>
    let (store, d) := if v.cache then e.openStore d else (none, d)
    match Linter.ofOptions s.lint with
    | .error why => .failed d (.unknownCheck why)
    | .ok linter =>
      match ListenAddress.make v.addr v.port with
      | .error why => .failed d (.listen why)
      | .ok address =>
        ⟨{ disk := d }, .startService
          { linter := linter, pattern := s.pattern, jobs := s.jobs, store := store,
            strayBytes := e.strayBytes } address⟩

/-- The line that tells the version. -/
def versionLine : Bytes := "patchlint dev (commit none, built unknown)\n"

/-- Carries out a command with its flags and words. -/
def run (c : Subcommand) (e : Environment) (terminal : Bool) (d : Disk) (v : FlagValues)
    (words : List Bytes) : CommandResult :=
  match c with
  | check => runCheck e d v words
  | braces => runBraces d v words
  | browse => runBrowse terminal d v words
  | serve => runServe e d v
  | version => .printed d versionLine
  | help => ⟨{ disk := d }, .showUsage⟩
  | completion => ⟨{ disk := d }, .showUsage⟩
  | completionFor _ => ⟨{ disk := d }, .showUsage⟩
  | suggest described => .printed d ((Suggestions.ofLine words).render described)

/-- The flags and the words of the arguments of a command, or of the program itself.  A command line
to go on with is kept as it is. -/
def read (c : Option Subcommand) (args : List Bytes) : Except UsageError CommandLine.State :=
  match c with
  | some (suggest _) => .ok { words := args }
  | c => CommandLine.parse (flags c) args

end Subcommand

namespace CommandLine

/-- Carries out a command line.  Without a command, and where help is asked for, the usage is to be
shown. -/
def run (e : Environment) (terminal : Bool) (d : Disk) (args : List Bytes) : CommandResult :=
  match command args with
  | .error why => .failed d (.usage why)
  | .ok (found, args) =>
    match Subcommand.read found args with
    | .error why => .failed d (.usage why)
    | .ok state =>
      match found with
      | none => ⟨{ disk := d }, .showUsage⟩
      | some c =>
        if state.values.help then ⟨{ disk := d }, .showUsage⟩
        else
          match c.wordFault? state.words with
          | some why => .failed d (.usage why)
          | none => c.run e terminal d state.values state.words

end CommandLine

end PatchAudit
