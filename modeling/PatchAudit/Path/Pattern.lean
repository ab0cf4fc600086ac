import PatchAudit.Path.Basic
import PatchAudit.Text.Utf8

/-!
# Shell patterns

A pattern is laid against one path: a star stands for any bytes but slashes, a question mark for
one character that is no slash, a bracket for one character of a set, and a backslash takes the
next byte as it is.  A pattern is cut at its stars into segments.  A segment is read when the match
comes to it, so a malformed segment is an error only if everything before it fits.
-/

namespace PatchAudit

namespace Pattern

/-- What is wrong with a segment: an open bracket, an empty set or a lone backslash at the end. -/
inductive Fault where
  | malformed
  deriving DecidableEq, Repr

/-- The wording of a pattern's fault. -/
def Fault.message : Fault → Bytes
  | .malformed => "syntax error in pattern"

/-- Whether a text has a byte that is special in a pattern. -/
def hasMeta (p : Bytes) : Bool := p.any fun b => b == 0x2A || b == 0x3F || b == 0x5B || b == 0x5C

/-! ### Segments -/

/-- A stretch of a pattern between stars, and whether a star stands in front of it. -/
structure Segment where
  starred : Bool
  body : Bytes
  deriving DecidableEq, Repr

/-- Cuts a pattern at its stars outside brackets; `acc` holds the segment so far, last byte first. -/
def cutAtStars (starred inBracket : Bool) (acc : Bytes) : Bytes → List Segment
  | [] => if starred || !acc.isEmpty then [⟨starred, acc.reverse⟩] else []
  | 0x5C :: c :: r => cutAtStars starred inBracket (c :: 0x5C :: acc) r
  | b :: r =>
    if b = 0x2A ∧ !inBracket then
      if acc.isEmpty then cutAtStars true false [] r
      else ⟨starred, acc.reverse⟩ :: cutAtStars true false [] r
    else if b = 0x5B then cutAtStars starred true (b :: acc) r
    else if b = 0x5D then cutAtStars starred false (b :: acc) r
    else cutAtStars starred inBracket (b :: acc) r

/-- The segments of a pattern. -/
def segments (p : Bytes) : List Segment := cutAtStars false false [] p

/-! ### The items of a segment -/

/-- What stands for one character, or for one byte. -/
inductive Item where
  | any
  | byte (b : UInt8)
  | oneOf (negated : Bool) (ranges : List (Char × Char))
  deriving DecidableEq, Repr

/-- The first character of a text and what follows it, a stray byte read as U+FFFD. -/
def firstChar? : Bytes → Option (Char × Bytes)
  | [] => none
  | b :: r =>
    match Bytes.front? b r with
    | some (c, n) => some (c, r.drop n)
    | none => some (Char.ofNat 0xFFFD, r)

/-- A character of a set and what follows it.  Something has to follow, or the bracket is open. -/
def setChar (s : Bytes) : Except Fault (Char × Bytes) :=
  let taken (s : Bytes) : Except Fault (Char × Bytes) :=
    match s with
    | [] => .error .malformed
    | b :: r =>
      match Bytes.front? b r with
      | none => .error .malformed
      | some (c, n) => if (r.drop n).isEmpty then .error .malformed else .ok (c, r.drop n)
  match s with
  | [] => .error .malformed
  | b :: r =>
    if b = 0x2D ∨ b = 0x5D then .error .malformed
    else if b = 0x5C then taken r
    else taken (b :: r)

/-- A range of a set, a lone character being a range of one. -/
def setRange (s : Bytes) : Except Fault ((Char × Char) × Bytes) := do
  let (lo, rest) ← setChar s
  match rest with
  | 0x2D :: r => do
    let (hi, rest) ← setChar r
    return ((lo, hi), rest)
  | _ => return ((lo, lo), rest)

/-- The ranges of a set after its first one, up to the closing bracket. -/
def moreRanges : Nat → Bytes → Except Fault (List (Char × Char) × Bytes)
  | _, 0x5D :: r => .ok ([], r)
  | 0, _ => .error .malformed
  | fuel + 1, s => do
    let (range, rest) ← setRange s
    let (ranges, rest) ← moreRanges fuel rest
    return (range :: ranges, rest)

/-- A set after its opening bracket. -/
def setItem (s : Bytes) : Except Fault (Item × Bytes) := do
  let (negated, s) := match s with
    | 0x5E :: r => (true, r)
    | _ => (false, s)
  let (range, rest) ← setRange s
  let (ranges, rest) ← moreRanges s.length rest
  return (.oneOf negated (range :: ranges), rest)

/-- The items of a segment of at most the given length. -/
def readItems : Nat → Bytes → Except Fault (List Item)
  | _, [] => .ok []
  | 0, _ => .error .malformed
  | fuel + 1, b :: r =>
    if b = 0x5B then do
      let (item, rest) ← setItem r
      return item :: (← readItems fuel rest)
    else if b = 0x3F then return .any :: (← readItems fuel r)
    else if b = 0x5C then
      match r with
      | [] => .error .malformed
      | c :: r => return .byte c :: (← readItems fuel r)
    else return .byte b :: (← readItems fuel r)

/-- The items of a segment's body. -/
def items (body : Bytes) : Except Fault (List Item) := readItems body.length body

/-! ### Laying a pattern against a name -/

/-- What is left of a name after one item. -/
def Item.eat? : Item → Bytes → Option Bytes
  | _, [] => none
  | .byte b, x :: r => if x = b then some r else none
  | .any, x :: r => if x = Path.slash then none else (firstChar? (x :: r)).map (·.2)
  | .oneOf negated ranges, x :: r =>
    match firstChar? (x :: r) with
    | some (c, rest) =>
      let hit := ranges.any fun (lo, hi) => lo ≤ c && c ≤ hi
      if hit != negated then some rest else none
    | none => none

/-- What is left of a name after all items of a segment. -/
def eatAll? (is : List Item) (name : Bytes) : Option Bytes :=
  is.foldlM (fun rest i => i.eat? rest) name

/-- The places of a name where a segment may start: the front, and behind a star every place that
is reached without passing a slash. -/
def starts (starred : Bool) (name : Bytes) : List Bytes :=
  if starred then name :: skip name else [name]
where
  /-- The proper tails of a name up to the one after its first slash. -/
  skip : Bytes → List Bytes
  | [] => []
  | b :: r => if b = Path.slash then [] else r :: skip r

/-- Lays segments against a name.  A segment takes the first place where it fits, and the last one
has to reach the end of the name. -/
def layAgainst : List Segment → Bytes → Except Fault Bool
  | [], name => .ok name.isEmpty
  | seg :: more, name =>
    if seg.starred && seg.body.isEmpty then .ok (!name.contains Path.slash)
    else do
      let is ← items seg.body
      let fit (rest : Bytes) : Option Bytes :=
        (eatAll? is rest).filter fun t => t.isEmpty || !more.isEmpty
      match (starts seg.starred name).findSome? fit with
      | some rest => layAgainst more rest
      | none => .ok false

/-- Whether a pattern matches a whole name. -/
def matchName (pattern name : Bytes) : Except Fault Bool := layAgainst (segments pattern) name

end Pattern

end PatchAudit
