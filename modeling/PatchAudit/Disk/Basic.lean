import PatchAudit.Path.Basic

/-!
# The file tree

What the program sees of a disk, as a value: the entries at their places, and the directory that
relative paths start from.  Links are followed as the path is walked, and a walk that meets too
many of them fails.
-/

namespace PatchAudit

/-- A place of the tree: the names that lead to it from the root. -/
abbrev Place := List Bytes

/-- What stands at a place. -/
inductive Entry where
  | file (data : Bytes)
  | folder
  | link (target : Bytes)
  deriving DecidableEq, Repr

/-- A file tree and the directory that relative paths start from. -/
structure Disk where
  entries : List (Place × Entry)
  workDir : Place
  deriving DecidableEq, Repr

/-- Why a path leads nowhere, or an operation on it is refused. -/
inductive DiskFault where
  | missing
  | notFolder
  | isFolder
  | alreadyThere
  | tooManyLinks
  /-- The path holds a zero byte. -/
  | notAPath
  /-- The path, or a name in it, is too long. -/
  | tooLong
  deriving DecidableEq, Repr

/-- The wording of a fault. -/
def DiskFault.message : DiskFault → Bytes
  | missing => "no such file or directory"
  | notFolder => "not a directory"
  | isFolder => "is a directory"
  | alreadyThere => "file exists"
  | tooManyLinks => "too many levels of symbolic links"
  | notAPath => "invalid argument"
  | tooLong => "file name too long"

/-- An operation that failed, with the path that it was given. -/
structure DiskError where
  operation : Bytes
  path : Bytes
  fault : DiskFault
  deriving DecidableEq, Repr

/-- The wording of an error. -/
def DiskError.message (e : DiskError) : Bytes :=
  e.operation ++ " " ++ e.path ++ ": " ++ e.fault.message

namespace Disk

/-- The entry at a place; the root is always a folder. -/
def entry? (d : Disk) (p : Place) : Option Entry :=
  if p.isEmpty then some .folder else d.entries.lookup p

/-- The disk with an entry put at a place, where it replaces the one before. -/
def put (d : Disk) (p : Place) (e : Entry) : Disk :=
  { d with entries := (p, e) :: d.entries.filter fun x => x.1 != p }

/-- The disk without the entry at a place and those below it. -/
def prune (d : Disk) (p : Place) : Disk :=
  { d with entries := d.entries.filter fun x => !p.isPrefixOf x.1 }

/-- The names in a folder, in byte order. -/
def names (d : Disk) (p : Place) : List Bytes :=
  Bytes.sort (d.entries.filterMap fun (q, _) => if q.dropLast = p then q.getLast? else none)

/-! ### Walking paths -/

/-- The name that stays in a folder. -/
def stayMark : Bytes := [0x2E]

/-- The names that a path walks through.  A slash at the end asks for a folder, which a last step
that stays makes sure of. -/
def steps (path : Bytes) : List Bytes :=
  (path.splitOn Path.slash).filter (!·.isEmpty)
    ++ if path.getLast? = some Path.slash then [stayMark] else []

/-- The number of bytes that a name may have. -/
def longestName : Nat := 255

/-- The number of bytes that a path may have. -/
def longestPath : Nat := 4095

/-- How far a walk gets without following a link. -/
inductive Walk where
  /-- The walk ends at an entry. -/
  | arrived (p : Place)
  /-- The last name is not there. -/
  | vacant (p : Place)
  /-- A link stands in the way: where it is, where it leads, and the names still to walk. -/
  | atLink (folder : Place) (target : Bytes) (rest : List Bytes)
  | stuck (why : DiskFault)
  deriving DecidableEq, Repr

/-- Walks from a place until a link has to be followed.  A link at the very end is followed only if
`follow` is set. -/
def advance (d : Disk) (follow : Bool) (here : Place) : List Bytes → Walk
  | [] => .arrived here
  | name :: rest =>
    if d.entry? here = some .folder then
      if name = stayMark then advance d follow here rest
      else if name = Path.parentMark then advance d follow here.dropLast rest
      else if longestName < name.length then .stuck .tooLong
      else
        match d.entry? (here ++ [name]) with
        | none => if rest.isEmpty then .vacant (here ++ [name]) else .stuck .missing
        | some (.link target) =>
          if rest.isEmpty && !follow then .arrived (here ++ [name])
          else .atLink here target rest
        | some _ => advance d follow (here ++ [name]) rest
    else .stuck .notFolder

/-- Where a path starts. -/
def origin (here : Place) (path : Bytes) : Place := if Path.isAbsolute path then [] else here

/-- Walks from a place, following at most `links` links. -/
def walkFrom (d : Disk) (follow : Bool) : Nat → Place → List Bytes → Walk
  | 0, here, names =>
    match advance d follow here names with
    | .atLink _ _ _ => .stuck .tooManyLinks
    | w => w
  | links + 1, here, names =>
    match advance d follow here names with
    | .atLink folder target rest =>
      walkFrom d follow links (origin folder target) (steps target ++ rest)
    | w => w

/-- The number of links that a walk may follow. -/
def mostLinks : Nat := 40

/-- Walks a path from the working directory. -/
def walk (d : Disk) (follow : Bool) (path : Bytes) : Walk :=
  if path.contains 0 then .stuck .notAPath
  else if path.isEmpty then .stuck .missing
  else if longestPath < path.length then .stuck .tooLong
  else walkFrom d follow mostLinks (origin d.workDir path) (steps path)

/-- The place that a path leads to. -/
def locate (d : Disk) (follow : Bool) (path : Bytes) : Except DiskFault Place :=
  match d.walk follow path with
  | .arrived p => .ok p
  | .stuck why => .error why
  | _ => .error .missing

/-- The entry that a path leads to, links followed. -/
def stat (d : Disk) (path : Bytes) : Except DiskFault Entry := do
  let p ← d.locate true path
  return (d.entry? p).getD .folder

/-- Whether there is an entry, which may be a link, at a path. -/
def exists? (d : Disk) (path : Bytes) : Bool := (d.locate false path).isOk

/-- Whether a path leads to a folder. -/
def isFolder (d : Disk) (path : Bytes) : Bool :=
  match d.stat path with
  | .ok .folder => true
  | _ => false

/-- The content of the file that a path leads to. -/
def fileData (d : Disk) (path : Bytes) : Except DiskError Bytes :=
  match d.stat path with
  | .error why => .error ⟨"open", path, why⟩
  | .ok (.file data) => .ok data
  | .ok _ => .error ⟨"read", path, .isFolder⟩

/-- The names in the folder that a path leads to. -/
def namesAt (d : Disk) (path : Bytes) : List Bytes :=
  match d.locate true path with
  | .ok p => d.names p
  | .error _ => []

/-- The working directory as a path. -/
def workPath (d : Disk) : Bytes := Path.ofComponents d.workDir

/-- A path as a clean path from the root. -/
def absolute (d : Disk) (path : Bytes) : Bytes :=
  if Path.isAbsolute path then Path.clean path else Path.join [d.workPath, path]

/-- The files below a folder, as paths from it in byte order; a path that is itself a file gives a
dot. -/
def listing (d : Disk) (path : Bytes) : List Bytes :=
  match d.locate false path with
  | .error _ => []
  | .ok p =>
    if d.entry? p = some .folder then
      let files := d.entries.filter fun (q, e) => p.isPrefixOf q && q != p && e != .folder
      Bytes.sort (files.map fun (q, _) => Bytes.join [Path.slash] (q.drop p.length))
    else [stayMark]

end Disk

end PatchAudit
