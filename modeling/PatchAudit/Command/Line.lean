import PatchAudit.Command.Flag
import PatchAudit.Text.EditDistance
import PatchAudit.Text.LowerCase

/-!
# Reading the command line

The first word that is no flag, nor the value of one, names the command.  Which words are values is
judged by the flags that every command has, so a flag of a command alone is taken to have one.
-/

namespace PatchAudit

/-- The shells that can complete command lines. -/
inductive Shell where
  | bash
  | zsh
  | fish
  | powershell
  deriving DecidableEq, Repr

namespace Shell

/-- The name of a shell. -/
def name : Shell → Bytes
  | bash => "bash"
  | zsh => "zsh"
  | fish => "fish"
  | powershell => "powershell"

/-- The shell with a name. -/
def named? (name : Bytes) : Option Shell := [bash, zsh, fish, powershell].find? (·.name == name)

end Shell

/-- The commands. -/
inductive Subcommand where
  | check
  | braces
  | browse
  | serve
  | version
  | help
  | completion
  | completionFor (shell : Shell)
  /-- Suggests how a command line may go on, for a shell that asks. -/
  | suggest (described : Bool)
  deriving DecidableEq, Repr

namespace Subcommand

/-- The name of a command, after those of the commands that it belongs to. -/
def name : Subcommand → Bytes
  | check => "check"
  | braces => "braces"
  | browse => "browse"
  | serve => "serve"
  | version => "version"
  | help => "help"
  | completion => "completion"
  | completionFor shell => "completion " ++ shell.name
  | suggest true => "__complete"
  | suggest false => "__completeNoDesc"

/-- The commands that users know of and that belong to no other. -/
def all : List Subcommand := [check, braces, browse, serve, version, help, completion]

/-- The command with a name. -/
def named? (name : Bytes) : Option Subcommand :=
  (all ++ [suggest true, suggest false]).find? (·.name == name)

/-- The flags that every command has, apart from the one for help. -/
def commonFlags : List Flag := [.config, .debug]

/-- The flags of a command alone. -/
def ownFlags : Subcommand → List Flag
  | check => [.format, .pattern, .skip, .jobs, .cache, .clearCache, .stat]
  | browse => [.pattern, .skip]
  | serve => [.addr, .port, .cache]
  | completionFor _ => [.noDescriptions]
  | _ => []

/-- The flags of a command, or of the program itself. -/
def flags : Option Subcommand → List Flag
  | none => commonFlags ++ [.help]
  | some c => c.ownFlags ++ commonFlags ++ [.help]

/-- The commands that are offered in place of an unknown one: those with a similar name, and those
whose name it begins. -/
def similar (name : Bytes) : List Subcommand :=
  [check, braces, browse, serve, version, completion].filter fun c =>
    EditDistance.between name.lower c.name ≤ 2 || name.lower.isPrefixOf c.name

end Subcommand

/-- Why a command line cannot be carried out. -/
inductive UsageError where
  | unknownCommand (name : Bytes)
  | unknownPart (name : Bytes) (c : Subcommand)
  | badSyntax (arg : Bytes)
  | unknownFlag (name : Bytes)
  | unknownLetter (letter : UInt8) (letters : Bytes)
  | valueMissing (f : Flag)
  | letterValueMissing (letter : UInt8)
  | badValue (f : Flag) (value : Bytes) (why : ValueFault)
  | tooManyWords (most given : Nat)
  | tooFewWords (least given : Nat)
  | wrongWordCount (expected given : Nat)
  deriving DecidableEq, Repr

namespace UsageError

/-- A letter in single quotes.  Of a letter outside ASCII only the byte that begins its UTF-8
spelling is shown. -/
def quotedLetter (l : UInt8) : Bytes :=
  let first := (String.utf8EncodeChar (Char.ofNat l.toNat)).headD l
  Quoted.encodeChar (Char.ofNat first.toNat)

/-- What is offered in place of an unknown command. -/
def offer (name : Bytes) : Bytes :=
  match Subcommand.similar name with
  | [] => []
  | cs =>
    let names : Bytes := cs.flatMap fun c => 0x09 :: c.name ++ [0x0A]
    "\n\nDid you mean this?\n" ++ names

/-- The wording of an error. -/
def message : UsageError → Bytes
  | unknownCommand name =>
    "unknown command " ++ Quoted.encode name ++ " for \"patchlint\"" ++ offer name
  | unknownPart name c =>
    "unknown command " ++ Quoted.encode name ++ " for " ++ Quoted.encode ("patchlint " ++ c.name)
  | badSyntax arg => "bad flag syntax: " ++ arg
  | unknownFlag name => "unknown flag: --" ++ name
  | unknownLetter l letters => "unknown shorthand flag: " ++ quotedLetter l ++ " in -" ++ letters
  | valueMissing f => "flag needs an argument: --" ++ f.name
  | letterValueMissing l => "flag needs an argument: " ++ quotedLetter l ++ " in -" ++ [l]
  | badValue f value why =>
    "invalid argument " ++ Quoted.encode value ++ " for " ++ Quoted.encode f.label ++ " flag: "
      ++ why.message
  | tooManyWords most given =>
    "accepts at most " ++ Bytes.ofNat most ++ " arg(s), received " ++ Bytes.ofNat given
  | tooFewWords least given =>
    "requires at least " ++ Bytes.ofNat least ++ " arg(s), only received " ++ Bytes.ofNat given
  | wrongWordCount expected given =>
    "accepts " ++ Bytes.ofNat expected ++ " arg(s), received " ++ Bytes.ofNat given

end UsageError

namespace CommandLine

/-- The argument after which everything is a word. -/
def endMark : Bytes := "--"

/-- Whether an argument begins like a flag. -/
def isDashed (arg : Bytes) : Bool := Bytes.hasStart "-" arg

/-! ### Finding the command -/

/-- Whether the argument after this one is taken for its value. -/
def takesNext (scope : List Flag) (arg : Bytes) : Bool :=
  if arg.contains 0x3D then false
  else
    match arg with
    | 0x2D :: 0x2D :: name => !(Flag.named? scope name).any Flag.isSwitch
    | [0x2D, l] => !(Flag.lettered? scope l).any Flag.isSwitch
    | _ => false

/-- The words among arguments.  A value is passed over only if something follows it. -/
def words (scope : List Flag) : List Bytes → List Bytes
  | [] => []
  | arg :: rest =>
    if arg = endMark then []
    else if takesNext scope arg then
      match rest with
      | [] => []
      | _ :: more => if more.isEmpty then [] else words scope more
    else if arg.isEmpty || isDashed arg then words scope rest
    else arg :: words scope rest

/-- Arguments without the first one that is the word `x`. -/
def dropWord (scope : List Flag) (x : Bytes) : List Bytes → List Bytes
  | [] => []
  | arg :: rest =>
    if arg = endMark then arg :: rest
    else if takesNext scope arg then
      match rest with
      | [] => [arg]
      | value :: more => arg :: value :: dropWord scope x more
    else if arg = x && !isDashed arg then rest
    else arg :: dropWord scope x rest

/-- The command that the words after a command lead on to, and the other arguments. -/
def descend (c : Subcommand) (args : List Bytes) : Subcommand × List Bytes :=
  match c, words Subcommand.commonFlags args with
  | .completion, name :: _ =>
    match Shell.named? name with
    | some shell => (.completionFor shell, dropWord Subcommand.commonFlags name args)
    | none => (c, args)
  | _, _ => (c, args)

/-- The command of a command line and the other arguments; no command if no word is given. -/
def command (args : List Bytes) : Except UsageError (Option Subcommand × List Bytes) :=
  match words Subcommand.commonFlags args with
  | [] => .ok (none, args)
  | name :: _ =>
    match Subcommand.named? name with
    | some c =>
      let (c, args) := descend c (dropWord Subcommand.commonFlags name args)
      .ok (some c, args)
    | none => .error (.unknownCommand name)

/-! ### Reading flags -/

/-- A flag that waits for its value, and the error if it gets none. -/
structure Waiting where
  flag : Flag
  otherwise : UsageError
  deriving DecidableEq, Repr

/-- What was read of a command line. -/
structure State where
  values : FlagValues := {}
  /-- The flags that were given a value. -/
  given : List Flag := []
  words : List Bytes := []
  waiting : Option Waiting := none
  /-- Whether the end mark was read. -/
  ended : Bool := false
  deriving DecidableEq, Repr

namespace State

/-- Gives a flag a value. -/
def give (s : State) (f : Flag) (value : Bytes) : Except UsageError State :=
  match f.set s.values value with
  | .ok v => .ok { s with values := v, given := f :: s.given, waiting := none }
  | .error why => .error (.badValue f value why)

/-- Reads a flag by its name. -/
def readName (scope : List Flag) (s : State) (arg body : Bytes) : Except UsageError State :=
  if body.isEmpty || Bytes.hasStart "-" body || Bytes.hasStart "=" body then .error (.badSyntax arg)
  else
    let name := Bytes.before 0x3D body
    match Flag.named? scope name with
    | none => .error (.unknownFlag name)
    | some f =>
      if body.contains 0x3D then s.give f (body.drop (name.length + 1))
      else if f.isSwitch then s.give f "true"
      else .ok { s with waiting := some ⟨f, .valueMissing f⟩ }

/-- Reads flags by their letters.  The first flag that is no switch takes the rest as its value.
What begins like a flag of a test run is passed over. -/
def readLetters (scope : List Flag) (s : State) : Bytes → Except UsageError State
  | [] => .ok s
  | l :: rest =>
    if Bytes.hasStart "test." (l :: rest) then .ok s
    else
      match Flag.lettered? scope l with
      | none => .error (.unknownLetter l (l :: rest))
      | some f =>
        if Bytes.hasStart "=" rest && 1 < rest.length then s.give f (rest.drop 1)
        else if f.isSwitch then do
          let s ← s.give f "true"
          readLetters scope s rest
        else if rest.isEmpty then .ok { s with waiting := some ⟨f, .letterValueMissing l⟩ }
        else s.give f rest

/-- Reads one argument. -/
def read (scope : List Flag) (s : State) (arg : Bytes) : Except UsageError State :=
  match s.waiting with
  | some w => s.give w.flag arg
  | none =>
    if s.ended then .ok { s with words := s.words ++ [arg] }
    else
      match arg with
      | [0x2D, 0x2D] => .ok { s with ended := true }
      | 0x2D :: 0x2D :: body => s.readName scope arg body
      | 0x2D :: l :: letters => s.readLetters scope (l :: letters)
      | _ => .ok { s with words := s.words ++ [arg] }

end State

/-- The flags and the words of arguments. -/
def parse (scope : List Flag) (args : List Bytes) : Except UsageError State := do
  let s ← args.foldlM (State.read scope) {}
  match s.waiting with
  | some w => throw w.otherwise
  | none => return s

end CommandLine

end PatchAudit
