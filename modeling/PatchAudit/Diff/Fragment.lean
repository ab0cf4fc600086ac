import PatchAudit.Diff.Header

/-!
# Text fragments

A fragment is a header line with two ranges and the lines that it counts.
-/

namespace PatchAudit

namespace Diff

/-- Reads one side of a fragment header, `start` or `start,count`. -/
def readRange (s : Bytes) : Except RangeFault LineRange := do
  let (startText, countText) := match Bytes.cut? "," s with
    | some (a, b) => (a, some b)
    | none => (s, none)
  let start ← (Numeral.read 10 64 startText).mapError (RangeFault.badStart startText)
  match countText with
  | none => return ⟨start, 1⟩
  | some text =>
    let count ← (Numeral.read 10 64 text).mapError (RangeFault.badCount text)
    return ⟨start, count⟩

/-- Reads a fragment header, if the line is one. -/
def fragmentHeader? (line : Bytes) : Except Fault (Option FragmentHeader) :=
  match Bytes.after? fragmentMark line with
  | none => .ok none
  | some body =>
    match Bytes.cut? " @@" body with
    | none => .error .badFragmentHeader
    | some (ranges, comment) =>
      match Bytes.cut? " +" ranges with
      | none => .error .badFragmentHeader
      | some (old, new) =>
        if Bytes.hasInfix " +" new then .error .badFragmentHeader
        else do
          let old ← (readRange old).mapError Fault.badRange
          let new ← (readRange new).mapError Fault.badRange
          return some ⟨old, new, comment.trim⟩

/-- A number as a signed word of 64 bits, in which lines are counted. -/
def word64 (n : Int) : Int := n.bmod 0x10000000000000000

/-- How many lines of each side a fragment still expects, and how many it has changed. -/
structure Tally where
  old : Int
  new : Int
  added : Nat := 0
  deleted : Nat := 0
  deriving DecidableEq, Repr

/-- Whether a line says that the line above has no newline at its end. -/
def isNoNewlineNote (line : Bytes) : Bool := Bytes.hasStart "\\ " line && 12 ≤ line.length

/-- Counts one line of a fragment by its first byte. -/
def countLine (t : Tally) (line : Bytes) : Except Fault Tally :=
  match line with
  | [] => .error (.badOperation 0)
  | b :: _ =>
    if b = 0x0A ∨ b = 0x20 then
      .ok { t with old := word64 (t.old - 1), new := word64 (t.new - 1) }
    else if b = 0x2D then .ok { t with old := word64 (t.old - 1), deleted := t.deleted + 1 }
    else if b = 0x2B then .ok { t with new := word64 (t.new - 1), added := t.added + 1 }
    else if isNoNewlineNote line then .ok t
    else .error (.badOperation b)

/-- Counts lines while the fragment expects some. -/
def countLines (t : Tally) (number : Nat) : List Bytes → Except Error (Tally × Cursor)
  | [] => .ok (t, ⟨number, []⟩)
  | line :: rest =>
    if 0 < t.old ∨ 0 < t.new then
      match countLine t line with
      | .error e => .error ⟨number, e⟩
      | .ok t => countLines t (number + 1) rest
    else .ok (t, ⟨number, line :: rest⟩)

/-- How far above the current line the header of a fragment stands that was left with a tally. -/
def headerDistance (h : FragmentHeader) (t : Tally) : Int :=
  word64 (max (word64 (h.old.count - t.old)) (word64 (h.new.count - t.new)) + 1)

/-- Reads the lines of a fragment after its header. -/
def fragmentBody (h : FragmentHeader) (c : Cursor) : Except Error (Tally × Cursor) := do
  if c.atEnd then c.fail 0 .noContent
  let (t, c) ← countLines { old := h.old.count, new := h.new.count } c.number c.rest
  if t.old ≠ 0 ∨ t.new ≠ 0 then
    c.fail (word64 (-headerDistance h t)) (.miscount (word64 (-t.old)) (word64 (-t.new)))
  else if t.added = 0 ∧ t.deleted = 0 then c.fail 0 .noChanges
  else if isNoNewlineNote (c.line 0) then return (t, c.next)
  else return (t, c)

/-- Reads the fragments of a file, of which at most `fuel` are left; the flag tells whether there
was one. -/
def fragments : Nat → FileChange → Cursor → Bool → Except Error (FileChange × Cursor × Bool)
  | 0, f, c, found => .ok (f, c, found)
  | fuel + 1, f, c, found =>
    match fragmentHeader? (c.line 0) with
    | .error e => c.fail 0 e
    | .ok none => .ok (f, c, found)
    | .ok (some h) => do
      let c := c.next
      if f.isNew ∧ 0 < h.old.count then c.fail (-1) .newFileHasOldLines
      else if f.isDeleted ∧ 0 < h.new.count then c.fail (-1) .deletedFileHasNewLines
      else
        let (t, c) ← fragmentBody h c
        fragments fuel { f with added := f.added + t.added, deleted := f.deleted + t.deleted } c true

end Diff

end PatchAudit
