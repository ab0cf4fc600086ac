import PatchAudit.Check.Options
import PatchAudit.Patch.Line
import PatchAudit.Text.Blank

/-!
# The brace check

The braces on added lines have to balance.  One balance runs through the whole file, so an opening
brace in one hunk may be closed in a later one.  A line that closes more than is open is an issue,
and the balance starts again from zero.
-/

namespace PatchAudit

/-- The braces on one line. -/
structure BraceCount where
  opened : Nat
  closed : Nat
  deriving DecidableEq, Repr

namespace BraceCount

/-- The braces of a payload. -/
def ofPayload (payload : Bytes) : BraceCount := ⟨payload.count 0x7B, payload.count 0x7D⟩

/-- Whether a payload is a comment: without its blanks it starts with a non-empty mark. -/
def isComment (marks : List Bytes) (payload : Bytes) : Bool :=
  let text := payload.trim
  marks.any fun m => !m.isEmpty && m.isPrefixOf text

/-- The braces of a line that counts; a line counts if it is added and no comment. -/
def ofLine? (marks : List Bytes) (l : PatchLine) : Option BraceCount :=
  if l.kind = .added ∧ !isComment marks l.payload then some (ofPayload l.payload) else none

/-- How a line moves the balance. -/
def delta (c : BraceCount) : Int := c.opened - c.closed

end BraceCount

/-- The state of a brace scan between two lines. -/
structure BraceScan where
  /-- Whether a hunk marker has been seen. -/
  insideHunk : Bool := false
  /-- The number of braces that are open. -/
  balance : Nat := 0
  deriving DecidableEq, Repr

namespace BraceScan

/-- An issue of the brace check. -/
def issue (line : Nat) (message : Bytes) : Issue where
  check := Check.braces.name
  kind := .braces
  line := line
  message := message
  severity := .warning

/-- Takes in one line; the issue is that of a line which closes more than is open. -/
def step (marks : List Bytes) (s : BraceScan) (l : PatchLine) : BraceScan × Option Issue :=
  if l.kind = .hunkMarker then ({ s with insideHunk := true }, none)
  else
    match BraceCount.ofLine? marks l with
    | none => (s, none)
    | some c =>
      let moved := (s.balance : Int) + c.delta
      ({ s with balance := moved.toNat },
        if moved < 0 then some (issue l.number "unmatched closing brace") else none)

/-- The issue of a file that ends with open braces. -/
def final? (s : BraceScan) : Option Issue :=
  if 0 < s.balance ∧ s.insideHunk then
    some (issue 0 (Bytes.ofNat s.balance ++ " unclosed braces"))
  else none

/-- Takes in lines one by one, with the issues of the single lines. -/
def run (marks : List Bytes) (s : BraceScan) : List PatchLine → List Issue × BraceScan
  | [] => ([], s)
  | l :: rest =>
    let (next, found) := step marks s l
    let (issues, last) := run marks next rest
    (found.toList ++ issues, last)

/-- The issues of a file and the state at its end. -/
def scan (marks : List Bytes) (lines : List PatchLine) : List Issue × BraceScan :=
  let (issues, last) := run marks {} lines
  (issues ++ last.final?.toList, last)

end BraceScan

/-- How one added line moved the brace balance. -/
structure BraceStep where
  line : Nat
  /-- The payload without the blanks around it. -/
  text : Bytes
  count : BraceCount
  /-- The balance after the line, negative if the line closes more than is open. -/
  balance : Int
  deriving DecidableEq, Repr

namespace BraceStep

/-- Whether the line closes more than is open. -/
def isUnmatched (s : BraceStep) : Bool := s.balance < 0

/-- The step of a line that counts and has a brace, from a given balance. -/
def ofLine? (marks : List Bytes) (balance : Nat) (l : PatchLine) : Option BraceStep :=
  match BraceCount.ofLine? marks l with
  | none => none
  | some c =>
    if c.opened + c.closed = 0 then none
    else some ⟨l.number, l.payload.trim, c, balance + c.delta⟩

/-- The steps of lines, from a given balance. -/
def traceFrom (marks : List Bytes) (balance : Nat) : List PatchLine → List BraceStep
  | [] => []
  | l :: rest =>
    match ofLine? marks balance l with
    | none => traceFrom marks balance rest
    | some s => s :: traceFrom marks s.balance.toNat rest

/-- The steps of a file: one for each line that counts and has a brace. -/
def trace (marks : List Bytes) (lines : List PatchLine) : List BraceStep := traceFrom marks 0 lines

end BraceStep

end PatchAudit
