import PatchAudit.Disk.Basic

/-!
# Changing the file tree
-/

namespace PatchAudit

namespace Disk

/-- The path of the folder above a path, with the slash at its end; empty if there is none. -/
def abovePath (path : Bytes) : Bytes := Path.upToLast (Path.dropTrailing path)

/-- Makes one folder. -/
def makeFolder (d : Disk) (path : Bytes) : Except DiskError Disk :=
  match d.walk false (Path.dropTrailing path) with
  | .vacant p => .ok (d.put p .folder)
  | .stuck why => .error ⟨"mkdir", path, why⟩
  | _ => if d.isFolder path then .ok d else .error ⟨"mkdir", path, .alreadyThere⟩

/-- Makes a folder and the folders above it, of which at most `fuel` are missing.  The disk is the
one afterwards: folders that were made stay if one below them cannot be made. -/
def makeFoldersWith : Nat → Disk → Bytes → Disk × Except DiskError Unit
  | 0, d, path => (d, .error ⟨"mkdir", path, .missing⟩)
  | fuel + 1, d, path =>
    match d.stat path with
    | .ok .folder => (d, .ok ())
    | .ok _ => (d, .error ⟨"mkdir", path, .notFolder⟩)
    | .error _ =>
      match if (abovePath path).isEmpty then (d, .ok ())
          else makeFoldersWith fuel d (abovePath path) with
      | (d, .error why) => (d, .error why)
      | (d, .ok ()) =>
        match d.makeFolder path with
        | .error why => (d, .error why)
        | .ok d => (d, .ok ())

/-- Makes a folder and the missing folders above it. -/
def makeFolders (d : Disk) (path : Bytes) : Disk × Except DiskError Unit :=
  makeFoldersWith (path.length + 1) d path

/-- Writes a file, in place of the one that is there. -/
def writeFile (d : Disk) (path data : Bytes) : Except DiskError Disk :=
  match d.walk true path with
  | .vacant p => .ok (d.put p (.file data))
  | .arrived p =>
    if d.entry? p = some .folder then .error ⟨"open", path, .isFolder⟩
    else .ok (d.put p (.file data))
  | .stuck why => .error ⟨"open", path, why⟩
  | .atLink _ _ _ => .error ⟨"open", path, .tooManyLinks⟩

/-- Makes a link, which must not replace anything. -/
def makeLink (d : Disk) (path target : Bytes) : Except DiskError Disk :=
  match d.walk false path with
  | .vacant p => .ok (d.put p (.link target))
  | .stuck why => .error ⟨"symlink", path, why⟩
  | _ => .error ⟨"symlink", path, .alreadyThere⟩

/-- Moves a file to a path, in place of the file that is there.  A folder is not replaced. -/
def rename (d : Disk) (source target : Bytes) : Except DiskError Disk :=
  match d.locate false source with
  | .error why => .error ⟨"rename", source, why⟩
  | .ok p =>
    let moved (q : Place) : Disk := (d.prune p).put q ((d.entry? p).getD (.file []))
    match d.walk false target with
    | .vacant q => .ok (moved q)
    | .arrived q =>
      if d.entry? q = some .folder then .error ⟨"rename", source ++ " " ++ target, .alreadyThere⟩
      else .ok (moved q)
    | .stuck why => .error ⟨"rename", source ++ " " ++ target, why⟩
    | .atLink _ _ _ => .error ⟨"rename", source ++ " " ++ target, .tooManyLinks⟩

/-- Removes the entry at a path with everything below it; nothing happens if there is none. -/
def removeAll (d : Disk) (path : Bytes) : Except DiskError Disk :=
  match d.locate false path with
  | .ok p => .ok (d.prune p)
  | .error .missing => .ok d
  | .error why => .error ⟨"unlinkat", path, why⟩

end Disk

end PatchAudit
