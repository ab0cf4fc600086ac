import PatchAudit.Patch.Target
import PatchAudit.Path.Pattern

/-!
# Highlighted lines

A lexer turns the text of a file into tokens.  The content lines of one target are joined, given to
the lexer of that target, and the tokens are cut at the newlines again, so that every line of the
patch gets its own tokens.
-/

namespace PatchAudit

/-- A stretch of text in one colour. -/
structure Token where
  text : Bytes
  /-- The colour, if it is not the standard one. -/
  colour : Option Bytes := none
  deriving DecidableEq, Repr

/-- A line as tokens. -/
structure HighlightedLine where
  tokens : List Token
  deriving DecidableEq, Repr

namespace HighlightedLine

/-- The text of a line. -/
def plain (l : HighlightedLine) : Bytes := l.tokens.flatMap Token.text

/-- A text as a line of one token in the standard colour. -/
def ofText (s : Bytes) : HighlightedLine := ⟨[{ text := s }]⟩

end HighlightedLine

/-- What a kind of file is cut into: the tokens of a text. -/
abbrev Lexer := Bytes → List Token

/-- The lexer of each file name; a name may have none. -/
abbrev Lexers := Bytes → Option Lexer

namespace Highlight

/-- The parts of a token between newlines, of which the empty ones are no tokens. -/
def tokenParts (t : Token) : List (List Token) :=
  (t.text.splitOn 0x0A).map fun part => if part.isEmpty then [] else [{ t with text := part }]

/-- Cuts tokens at the newlines in them; `current` holds the tokens of the line so far. -/
def splitTokens (current : List Token) : List Token → List HighlightedLine
  | [] => [⟨current⟩]
  | t :: rest =>
    match tokenParts t with
    | [] => splitTokens current rest
    | first :: more =>
      let whole := (current ++ first) :: more
      (whole.dropLast.map HighlightedLine.mk) ++ splitTokens (whole.getLastD []) rest

/-- Exactly `n` lines from the given ones: cut if there are more, filled up if there are fewer. -/
def exactly (n : Nat) (lines : List HighlightedLine) : List HighlightedLine :=
  (lines ++ List.replicate (n - lines.length) (HighlightedLine.ofText [])).take n

/-- Lines highlighted by a lexer. -/
def withLexer (lexer : Lexer) (lines : List Bytes) : List HighlightedLine :=
  exactly lines.length (splitTokens [] (lexer (Bytes.join "\n" lines)))

/-- Lines of the file with the given name. -/
def fileLines (lexers : Lexers) (name : Bytes) (lines : List Bytes) : List HighlightedLine :=
  match lexers name with
  | some lexer => withLexer lexer lines
  | none => lines.map .ofText

/-- The payloads of the content lines with the given target. -/
def payloadsOf (target : Bytes) (lines : List (PatchLine × Bytes)) : List Bytes :=
  (lines.filter fun (l, t) => l.isContent && t == target).map fun (l, _) => l.payload

/-- Deals out highlighted lines: each line of a patch takes the next one of its target from the
queues, and a line that is no content stands for itself. -/
def deal (queues : Bytes → List HighlightedLine) :
    List (PatchLine × Bytes) → List HighlightedLine
  | [] => []
  | (l, t) :: rest =>
    if l.isContent then
      match queues t with
      | [] => .ofText l.payload :: deal queues rest
      | h :: more => h :: deal (fun u => if u = t then more else queues u) rest
    else .ofText l.raw :: deal queues rest

/-- The targets of content lines, each once, in order of their first line. -/
def contentTargets (lines : List (PatchLine × Bytes)) : List Bytes :=
  ((lines.filter fun (l, _) => l.isContent).map (·.2)).eraseDups

/-- The lines of a patch, each content line highlighted as part of its target. -/
def patchLines (lexers : Lexers) (lines : List PatchLine) : List HighlightedLine :=
  let aimed := lines.zip (Target.ofLines lines)
  let table := (contentTargets aimed).map fun t => (t, fileLines lexers t (payloadsOf t aimed))
  deal (fun t => (table.lookup t).getD []) aimed

/-! ### Lexers to run with

Which lexers there are, and what they make of a text, is the matter of a library of its own: all
that is said above holds of any.  Those below cut nothing apart and have a single colour; the program
is run with them.
-/

/-- A text with each CR LF, and each CR left after that, turned into LF. -/
def plainNewlines : Bytes → Bytes
  | 0x0D :: 0x0A :: r => 0x0A :: plainNewlines r
  | b :: r => (if b = 0x0D then 0x0A else b) :: plainNewlines r
  | [] => []

/-- The colour of text that is nothing in particular. -/
def textColour : Bytes := "#f8f8f2"

/-- The lexer that makes one token of a whole text. -/
def plainLexer : Lexer := fun s => [{ text := plainNewlines s, colour := some textColour }]

/-- Patterns of file names that have a lexer. -/
def knownNames : List Bytes :=
  ["*.go", "*.cc", "*.c", "*.h", "*.py", "*.js", "*.rs", "*.java", "*.sh", "*.json", "*.rb",
   "*.txt", "Makefile"]

/-- What may follow a known name. -/
def backupMarks : List Bytes := ["", "~", ".bak", ".old", ".orig", ".in"]

/-- Whether a file name is known. -/
def isKnown (name : Bytes) : Bool :=
  knownNames.any fun p => backupMarks.any fun m =>
    match Pattern.matchName (p ++ m) (Path.base name) with
    | .ok hit => hit
    | .error _ => false

/-- Lexers to run the program with: the plain one for every known name, and for a name with a known
extension. -/
def standard : Lexers := fun name =>
  let ext := Path.extension name
  if name.isEmpty then none
  else if isKnown name || (!ext.isEmpty && isKnown ("file" ++ ext)) then some plainLexer
  else none

end Highlight

end PatchAudit
