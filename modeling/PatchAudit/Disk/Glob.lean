import PatchAudit.Disk.Basic
import PatchAudit.Path.Pattern

/-!
# Paths that match a pattern

A pattern with slashes is matched name by name: the part before the last slash gives the folders,
and the part after it is laid against the names in each of them.
-/

namespace PatchAudit

namespace Disk

/-- The folder part of a pattern, without the slash that ends it. -/
def globFolder (pattern : Bytes) : Bytes :=
  let folder := Path.upToLast pattern
  if folder.isEmpty then [0x2E] else if folder = [Path.slash] then folder else folder.dropLast

/-- The names of a list that match a pattern. -/
def matching (pattern : Bytes) : List Bytes → Except Pattern.Fault (List Bytes)
  | [] => .ok []
  | name :: rest => do
    let hit ← Pattern.matchName pattern name
    let more ← matching pattern rest
    return if hit then name :: more else more

/-- The paths in a folder whose names match a pattern. -/
def globIn (d : Disk) (folder pattern : Bytes) : Except Pattern.Fault (List Bytes) :=
  if d.isFolder folder then do
    return (← matching pattern (d.namesAt folder)).map fun name => Path.join [folder, name]
  else .ok []

/-- The paths in several folders whose names match a pattern. -/
def globInAll (d : Disk) (pattern : Bytes) : List Bytes → Except Pattern.Fault (List Bytes)
  | [] => .ok []
  | folder :: rest => do
    let here ← d.globIn folder pattern
    return here ++ (← globInAll d pattern rest)

/-- The paths that match a pattern of at most `fuel` slashes. -/
def globWith (d : Disk) : Nat → Bytes → Except Pattern.Fault (List Bytes)
  | 0, _ => .error .malformed
  | fuel + 1, pattern => do
    let _ ← Pattern.matchName pattern []
    if !Pattern.hasMeta pattern then return if d.exists? pattern then [pattern] else []
    let folder := globFolder pattern
    let name := Path.afterLast pattern
    if !Pattern.hasMeta folder then d.globIn folder name
    else if folder = pattern then throw .malformed
    else d.globInAll name (← globWith d fuel folder)

/-- The paths that match a pattern. -/
def glob (d : Disk) (pattern : Bytes) : Except Pattern.Fault (List Bytes) :=
  d.globWith (min (pattern.length + 1) 10000) pattern

end Disk

end PatchAudit
