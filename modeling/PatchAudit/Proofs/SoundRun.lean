import PatchAudit.Proofs.SoundStore

/-!
# Runs with a sound store

Without a store, each report of a run depends on nothing but the path of its patch and what is read
there (`Linter.reportOf`).  A run with a sound store gives the same reports and leaves the store
sound (`Visit.stored_sound`).
-/

namespace PatchAudit

namespace Linter

/-- The report of a patch, from what is read at its path. -/
def reportOf (l : Linter) (path : Bytes) : Except LoadError Document → FileReport
  | .error why => .unreadable path (Path.base path) why.message
  | .ok doc => l.lint doc

theorem options_of_ofOptions {o : LintOptions} {l : Linter} (h : ofOptions o = .ok l) :
    l.options = o := by
  unfold ofOptions at h
  split at h
  · cases h
    rfl
  · cases h

theorem lintFile_none (l : Linter) (d : Disk) (path : Bytes) :
    l.lintFile none d path = (d, l.reportOf path (d.loadPatch path)) := by
  unfold lintFile
  cases d.loadPatch path <;> rfl

theorem lintFiles_cons (l : Linter) (store : Option Store) (d : Disk) (path : Bytes)
    (rest : List Bytes) :
    l.lintFiles store d (path :: rest) =
      ((l.lintFiles store (l.lintFile store d path).1 rest).1,
        (l.lintFile store d path).2 :: (l.lintFiles store (l.lintFile store d path).1 rest).2) := rfl

/-- Without a store nothing is written, and each patch is checked by itself. -/
theorem lintFiles_none (l : Linter) (d : Disk) (paths : List Bytes) :
    l.lintFiles none d paths = (d, paths.map fun path => l.reportOf path (d.loadPatch path)) := by
  induction paths with
  | nil => rfl
  | cons path rest ih => rw [lintFiles_cons, lintFile_none, ih, List.map_cons]

section Sound

variable {s : Store} {P : Occasions} (hP : P.Separated) (l : Linter)

include hP

/-- One patch: the report is that of checking it, and the store stays sound. -/
theorem lintWith_sound {d : Disk} (h : s.Sound P d) {doc : Document} (hdoc : P l.options doc) :
    (l.lintWith (some s) d doc).2 = l.lint doc ∧ s.Sound P (l.lintWith (some s) d doc).1 ∧
      s.Writes d (l.lintWith (some s) d doc).1 := by
  unfold lintWith
  simp only
  split
  · rename_i found hget
    exact ⟨h.get hP hdoc hget, h, .refl⟩
  · exact ⟨rfl, h.put hP hdoc _, Store.Writes.refl.put _ _ _⟩

theorem lintFile_sound {d : Disk} (h : s.Sound P d) {path : Bytes}
    (hpath : ∀ doc, d.loadPatch path = .ok doc → P l.options doc) :
    (l.lintFile (some s) d path).2 = l.reportOf path (d.loadPatch path) ∧
      s.Sound P (l.lintFile (some s) d path).1 ∧ s.Writes d (l.lintFile (some s) d path).1 := by
  unfold lintFile
  cases hload : d.loadPatch path with
  | error why => exact ⟨rfl, h, .refl⟩
  | ok doc => exact lintWith_sound hP l h (hpath doc hload)

/-- All patches of a run that started from the disk `start`. -/
theorem lintFiles_sound {start : Disk} {paths : List Bytes}
    (hpaths : ∀ path ∈ paths, s.Spares start path ∧
      ∀ doc, start.loadPatch path = .ok doc → P l.options doc)
    {d : Disk} (h : s.Sound P d) (hwrites : s.Writes start d) :
    (l.lintFiles (some s) d paths).2 = (paths.map fun path => l.reportOf path (start.loadPatch path)) ∧
      s.Sound P (l.lintFiles (some s) d paths).1 := by
  induction paths generalizing d with
  | nil => exact ⟨rfl, h⟩
  | cons path rest ih =>
    obtain ⟨hspares, hdocs⟩ := hpaths path List.mem_cons_self
    have hload := hspares d hwrites
    have hdocs' : ∀ doc, d.loadPatch path = .ok doc → P l.options doc := fun doc hdoc =>
      hdocs doc (hload ▸ hdoc)
    obtain ⟨hreport, hsound, hwrites'⟩ := lintFile_sound hP l h hdocs'
    obtain ⟨hreports, hsound'⟩ := ih (fun p hp => hpaths p (List.mem_cons_of_mem _ hp)) hsound
      (hwrites.trans hwrites')
    rw [lintFiles_cons]
    refine ⟨?_, hsound'⟩
    simp only [List.map_cons]
    rw [hreport, hreports, hload]

end Sound

end Linter

/-! ### Runs -/

/-- A run: the disk that it starts from and what it is asked to do. -/
structure Visit where
  disk : Disk
  request : RunRequest
  cancelled : Bool := false
  deriving DecidableEq, Repr

namespace Visit

/-- The run with a store. -/
def stored (v : Visit) (s : Store) : Disk × Except RunError Summary :=
  v.disk.run v.cancelled { v.request with store := some s }

/-- The same run without a store. -/
def plain (v : Visit) : Disk × Except RunError Summary :=
  v.disk.run v.cancelled { v.request with store := none }

/-- A path that the run looks at. -/
def Finds (v : Visit) (path : Bytes) : Prop :=
  ∃ files, v.disk.patches v.request.dir v.request.pattern = .ok files ∧ path ∈ files

/-- A patch that the run reads. -/
def Reads (v : Visit) (doc : Document) : Prop := ∃ path, v.Finds path ∧ v.disk.loadPatch path = .ok doc

end Visit

/-- Only a path without zero bytes can be read, so the name of a patch has none. -/
theorem Visit.Reads.zero_not_mem_name {v : Visit} {doc : Document} (h : v.Reads doc) :
    0 ∉ doc.name := by
  obtain ⟨path, -, hload⟩ := h
  unfold Disk.loadPatch at hload
  cases hdata : v.disk.fileData path with
  | error why =>
    rw [hdata] at hload
    cases hload
  | ok data =>
    rw [hdata] at hload
    cases hload
    have hpath : 0 ∉ path := by
      unfold Disk.fileData at hdata
      cases hstat : v.disk.stat path with
      | error why =>
        rw [hstat] at hdata
        cases hdata
      | ok e =>
        obtain ⟨p, hwalk, -⟩ := Disk.stat_eq_ok hstat
        exact (Disk.walkable_of_arrived hwalk).noZero
    intro hzero
    rcases Path.mem_base hzero with hzero | hzero | hzero
    · exact hpath hzero
    · cases hzero
    · cases hzero

/-- A run with a sound store gives the answer of the run without it, and leaves a sound store. -/
theorem Visit.stored_sound {s : Store} {P : Occasions} (hP : P.Separated) {v : Visit}
    (h : s.Sound P v.disk) (hspares : ∀ path, v.Finds path → s.Spares v.disk path)
    (hreads : ∀ doc, v.Reads doc → P v.request.lint doc) :
    (v.stored s).2 = v.plain.2 ∧ s.Sound P (v.stored s).1 := by
  unfold stored plain Disk.run
  simp only
  cases hfiles : v.disk.patches v.request.dir v.request.pattern with
  | error why => exact ⟨rfl, h⟩
  | ok files =>
    simp only
    cases hlinter : Linter.ofOptions v.request.lint with
    | error why => exact ⟨rfl, h⟩
    | ok linter =>
      simp only
      cases v.cancelled with
      | true => exact ⟨rfl, h⟩
      | false =>
        have hoptions : linter.options = v.request.lint := Linter.options_of_ofOptions hlinter
        have hpaths : ∀ path ∈ files, s.Spares v.disk path ∧
            ∀ doc, v.disk.loadPatch path = .ok doc → P linter.options doc := by
          intro path hpath
          refine ⟨hspares path ⟨files, hfiles, hpath⟩, fun doc hdoc => ?_⟩
          rw [hoptions]
          exact hreads doc ⟨path, ⟨files, hfiles, hpath⟩, hdoc⟩
        obtain ⟨hreports, hsound⟩ := Linter.lintFiles_sound hP linter hpaths h .refl
        simp only [Bool.false_eq_true, if_false]
        refine ⟨?_, hsound⟩
        rw [hreports, Linter.lintFiles_none]

end PatchAudit
