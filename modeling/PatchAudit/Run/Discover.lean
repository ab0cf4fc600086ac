import PatchAudit.Disk.Glob
import PatchAudit.Sorting.Quicksort
import PatchAudit.Text.Quoted

/-!
# Finding patches

The patches of a directory are the entries whose names match a pattern and that are no folders, in
the order of their names.  A pattern with slashes may find equal names in several folders; the
quicksort decides in which order these come.
-/

namespace PatchAudit

/-- Why no patches are found. -/
inductive DiscoverError where
  | folderMissing (dir : Bytes)
  | notFolder (dir : Bytes)
  | noAccess (dir : Bytes) (why : DiskFault)
  | badPattern (pattern : Bytes)
  | noPatches (dir pattern : Bytes)
  deriving DecidableEq, Repr

/-- The wording of an error. -/
def DiscoverError.message : DiscoverError → Bytes
  | folderMissing dir => "patches directory not found: " ++ dir
  | notFolder dir => "patches directory not found: " ++ dir ++ " is not a directory"
  | noAccess dir why => "stat " ++ dir ++ ": " ++ DiskError.message ⟨"stat", dir, why⟩
  | badPattern p => "invalid pattern " ++ Quoted.encode p ++ ": " ++ Pattern.Fault.message .malformed
  | noPatches dir p => "no patch files found in " ++ dir ++ " matching " ++ Quoted.encode p

/-- Paths in the order of the names that they end with.  Equal names keep the order in which a
quicksort leaves them, since the sort after it moves no two of them past each other. -/
def Path.sortByBase (paths : List Bytes) : List Bytes :=
  let arranged := Quicksort.sort (fun a b => decide (Path.base a < Path.base b)) paths.toArray
  Bytes.sortBy (fun a b => decide (Path.base a ≤ Path.base b)) arranged.toList

namespace Disk

/-- The paths of the patches in a directory. -/
def patches (d : Disk) (dir pattern : Bytes) : Except DiscoverError (List Bytes) :=
  match d.stat dir with
  | .error .missing => .error (.folderMissing dir)
  | .error why => .error (.noAccess dir why)
  | .ok .folder =>
    match d.glob (Path.join [dir, pattern]) with
    | .error .malformed => .error (.badPattern pattern)
    | .ok found =>
      match found.filter fun p => !d.isFolder p with
      | [] => .error (.noPatches dir pattern)
      | files => .ok (Path.sortByBase files)
  | .ok _ => .error (.notFolder dir)

end Disk

end PatchAudit
