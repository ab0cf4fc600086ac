import PatchAudit.Text.Bytes

/-!
# File paths

Paths are texts whose components are separated by slashes.
-/

namespace PatchAudit

namespace Path

/-- The separator of path components. -/
def slash : UInt8 := 0x2F

/-- The path named on a missing side of a change. -/
def nowhere : Bytes := "/dev/null"

/-- Whether a path starts at the root. -/
def isAbsolute (p : Bytes) : Bool := p.head? == some slash

/-- The components of a path that name something: neither empty nor a lone dot. -/
def components (p : Bytes) : List Bytes :=
  (p.splitOn slash).filter fun c => !(c.isEmpty || c == [0x2E])

/-- The component that leads to the parent. -/
def parentMark : Bytes := [0x2E, 0x2E]

/-- Puts a component on the components before it, the last one first; a parent mark takes one away
unless only parent marks are left. -/
def pushComponent (rooted : Bool) (stack : List Bytes) (c : Bytes) : List Bytes :=
  if c = parentMark then
    match stack with
    | [] => if rooted then [] else [c]
    | top :: below => if top = parentMark then c :: stack else below
  else c :: stack

/-- The shortest path that lexically means the same. -/
def clean (p : Bytes) : Bytes :=
  let rooted := isAbsolute p
  let parts := ((components p).foldl (pushComponent rooted) []).reverse
  let body := Bytes.join [slash] parts
  if rooted then slash :: body else if parts.isEmpty then [0x2E] else body

/-- Paths put one below the other and cleaned, empty ones at the front left out. -/
def join (parts : List Bytes) : Bytes :=
  match parts.dropWhile List.isEmpty with
  | [] => []
  | rest => clean (Bytes.join [slash] rest)

/-- A path without the slashes at its end. -/
def dropTrailing (p : Bytes) : Bytes := (p.reverse.dropWhile (· == slash)).reverse

/-- The part after the last slash. -/
def afterLast (p : Bytes) : Bytes := (p.reverse.takeWhile (· != slash)).reverse

/-- The part up to the last slash, the slash included. -/
def upToLast (p : Bytes) : Bytes := (p.reverse.dropWhile (· != slash)).reverse

/-- The last component of a path; a dot for the empty path and a slash for the root. -/
def base (p : Bytes) : Bytes :=
  if p.isEmpty then [0x2E]
  else
    let name := afterLast (dropTrailing p)
    if name.isEmpty then [slash] else name

/-- The path of the directory that holds a path. -/
def parent (p : Bytes) : Bytes := clean (upToLast p)

/-- The path from the root through components. -/
def ofComponents (parts : List Bytes) : Bytes := slash :: Bytes.join [slash] parts

/-- A clean path from the root and the paths of the directories above it, the nearest first. -/
def ancestors (p : Bytes) : List Bytes :=
  let parts := components p
  (List.range (parts.length + 1)).reverse.map fun n => ofComponents (parts.take n)

/-- The part of the last component from its last dot on, or nothing. -/
def extension (p : Bytes) : Bytes :=
  let name := (afterLast p).reverse
  if name.contains 0x2E then ((name.takeWhile (· != 0x2E)) ++ [0x2E]).reverse else []

end Path

end PatchAudit
