import Mathlib.Data.List.Basic
import PatchAudit.Command.Check
import PatchAudit.Proofs.ScheduledRun

/-!
# The verdict of a check

What a check without a store can end with is said once, by `CheckRequest.Verdict`: one case for each
thing that can stop it, and two for the patches that it looked at.  From its cases follows when
each verdict is given, and that it depends neither on the number of jobs and the schedule of the
workers nor on the way of printing (`check_verdict`).
-/

namespace PatchAudit

/-! ### What a verdict depends on -/

/-- A name that stands for a format: the empty one, or that of a format. -/
def Format.Known (name : Bytes) : Prop := name = [] ∨ ∃ f ∈ Format.all, f.name = name

theorem Format.ofName_of_known {name : Bytes} (h : Known name) : ∃ f, ofName name = .ok f := by
  unfold ofName
  by_cases hempty : name = []
  · exact ⟨plain, by simp [hempty]⟩
  · obtain ⟨f, hf, hname⟩ := h.resolve_left hempty
    have hfound : (all.find? (·.name == name)).isSome := by
      rw [List.find?_isSome]
      exact ⟨f, hf, by simp [hname]⟩
    obtain ⟨g, hg⟩ := Option.isSome_iff_exists.mp hfound
    exact ⟨g, by simp [hempty, hg]⟩

theorem Format.ofName_of_not_known {name : Bytes} (h : ¬ Known name) :
    ofName name = .error ⟨name⟩ := by
  unfold Known at h
  push Not at h
  have hnone : all.find? (·.name == name) = none := by
    rw [List.find?_eq_none]
    intro f hf
    simpa using h.2 f hf
  simp [ofName, h.1, hnone]

/-- The patch at a path can be read, and no check that is not skipped finds an issue in it. -/
def Disk.CleanAt (d : Disk) (o : LintOptions) (path : Bytes) : Prop :=
  ∃ doc, d.loadPatch path = .ok doc ∧ ∀ c ∈ Check.all, c.name ∉ o.skip → c.issues o doc = []

theorem Linter.isValid_reportOf {l : Linter} {d : Disk} {path : Bytes} :
    (l.reportOf path (d.loadPatch path)).isValid = true ↔ d.CleanAt l.options path := by
  unfold Disk.CleanAt
  cases d.loadPatch path with
  | error why => simp [reportOf, FileReport.unreadable, FileReport.isValid]
  | ok doc => simp [reportOf, lint, LintOptions.report, LintOptions.enabled, FileReport.isValid]

theorem Summary.isOk_iff (s : Summary) :
    s.isOk = true ↔ s.reports ≠ [] ∧ ∀ r ∈ s.reports, r.isValid = true := by
  rw [isOk, Bool.and_eq_true, decide_eq_true_iff, beq_iff_eq, totalCount, validCount,
    List.countP_eq_length, List.length_pos_iff]

/-- Settings that can be used skip no unknown check. -/
theorem Settings.unknownSkip?_eq_none {s : Settings} (h : s.fault? = none) :
    s.lint.unknownSkip? = none := by
  unfold fault? at h
  split_ifs at h
  exact Option.map_eq_none_iff.mp h

/-- Whether settings can be used does not depend on the number of jobs, unless it is negative. -/
theorem Settings.fault?_jobs (s : Settings) {jobs : Int} (hold : 0 ≤ s.jobs) (hnew : 0 ≤ jobs) :
    ({ s with jobs := jobs } : Settings).fault? = s.fault? := by
  simp [fault?, not_lt.mpr hold, not_lt.mpr hnew]

theorem Linter.ofOptions_of_known {o : LintOptions} (h : o.unknownSkip? = none) :
    ofOptions o = .ok ⟨o, h⟩ := by
  unfold ofOptions
  split
  · rfl
  · rename_i why hwhy
    rw [h] at hwhy
    cases hwhy

namespace CheckRequest

/-! ### Checks under a schedule -/

/-- Carries out a check whose workers take turns as a schedule says. -/
def executeUnder (r : CheckRequest) (e : Environment) (d : Disk) (cpus : Nat) (ms : List Move)
    (s : Settings) : Option (Outcome CheckError) :=
  match r.plan e d s with
  | .error why => some { disk := d, error := some why }
  | .ok (format, d, request) => (d.runUnder cpus request ms).map (r.conclude e format)

theorem conclude_error {r : CheckRequest} {e : Environment} {format : Format}
    {a b : Disk × Except RunError Summary} (h : a.2 = b.2) : (r.conclude e format a).error = (r.conclude e format b).error := by
  obtain ⟨d, answer⟩ := a
  obtain ⟨d', answer'⟩ := b
  obtain rfl : answer = answer' := h
  cases answer <;> rfl

/-! ### Checks without a store -/

/-- A request that neither uses nor empties the store. -/
structure Storeless (r : CheckRequest) : Prop where
  useStore : r.useStore = false
  clearStore : r.clearStore = false

theorem Storeless.prepareStore {r : CheckRequest} (h : r.Storeless) (e : Environment) (d : Disk) :
    r.prepareStore e d = (none, d) := by
  simp [CheckRequest.prepareStore, h.useStore, h.clearStore]

theorem Storeless.store_of_plan {r : CheckRequest} (h : r.Storeless) {e : Environment} {d d' : Disk}
    {s : Settings} {format : Format} {request : RunRequest}
    (hplan : r.plan e d s = .ok (format, d', request)) : request.store = none := by
  unfold plan at hplan
  rw [h.prepareStore] at hplan
  split at hplan
  · cases hplan
  · split at hplan
    · cases hplan
    · cases hplan
      rfl

/-- **No schedule changes the error**, unless it cancels the run. -/
theorem Storeless.executeUnder_error {r : CheckRequest} (h : r.Storeless) {e : Environment}
    {d : Disk} {cpus : Nat} {ms : List Move} {s : Settings} {out : Outcome CheckError}
    (hms : Move.cancel ∉ ms) (hout : r.executeUnder e d cpus ms s = some out) :
    out.error = (r.execute e d false s).error := by
  unfold execute
  unfold executeUnder at hout
  cases hplan : r.plan e d s with
  | error why =>
    rw [hplan] at hout
    cases hout
    rfl
  | ok prepared =>
    obtain ⟨format, d', request⟩ := prepared
    rw [hplan] at hout
    obtain ⟨answer, hrun, rfl⟩ := Option.map_eq_some_iff.mp hout
    have hnone := h.store_of_plan hplan
    rcases Disk.runUnder_answer (by simp [hnone]) (by simp [hnone]) hrun with ⟨-, hcancel⟩ | hsame
    · exact absurd hcancel hms
    · exact conclude_error hsame

/-- Some schedule brings a check to its end without cancelling it. -/
theorem Storeless.exists_executeUnder {r : CheckRequest} (h : r.Storeless) (e : Environment)
    (d : Disk) {cpus : Nat} (hcpus : 1 ≤ cpus) (s : Settings) :
    ∃ ms out, Move.cancel ∉ ms ∧ r.executeUnder e d cpus ms s = some out := by
  unfold executeUnder
  cases hplan : r.plan e d s with
  | error why => exact ⟨[], _, by simp, rfl⟩
  | ok prepared =>
    obtain ⟨format, d', request⟩ := prepared
    have hnone := h.store_of_plan hplan
    simp only [Disk.runUnder]
    cases hprepare : d'.prepare cpus request with
    | error why => exact ⟨[], _, by simp, rfl⟩
    | ok begun =>
      obtain ⟨b, start⟩ := begun
      obtain ⟨-, -, hfollow⟩ :=
        Disk.prepare_follow (by simp [hnone]) (by simp [hnone]) hcpus hprepare
      obtain ⟨-, -, ⟨ms, p, hms, hend, hended⟩, -⟩ := hfollow [] start rfl
      exact ⟨ms, r.conclude e format (p.disk, p.answer request.dir), hms, by simp [hend, hended]⟩

/-! ### Verdicts -/

/-- How a check without a store can end, for a name of a format and for settings with all overrides
put in place. -/
inductive Verdict (format : Bytes) (d : Disk) (s : Settings) : Option CheckError → Prop where
  | unknownFormat (hformat : ¬ Format.Known format) :
      Verdict format d s (some (.unknownFormat ⟨format⟩))
  | settings (hformat : Format.Known format) {why : SettingsFault} (hfault : s.fault? = some why) :
      Verdict format d s (some (.settings why))
  | discover (hformat : Format.Known format) (hfault : s.fault? = none) {why : DiscoverError}
      (hfiles : d.patches s.dir s.pattern = .error why) :
      Verdict format d s (some (.run (.discover why)))
  | invalid (hformat : Format.Known format) (hfault : s.fault? = none) {files : List Bytes}
      (hfiles : d.patches s.dir s.pattern = .ok files) {path : Bytes} (hpath : path ∈ files)
      (hclean : ¬ d.CleanAt s.lint path) : Verdict format d s (some .patchesInvalid)
  | valid (hformat : Format.Known format) (hfault : s.fault? = none) {files : List Bytes}
      (hfiles : d.patches s.dir s.pattern = .ok files) (hclean : ∀ path ∈ files, d.CleanAt s.lint path) :
      Verdict format d s none

/-- The verdict on patches that were looked at. -/
theorem verdict_of_files {r : CheckRequest} {format : Format} {name : Bytes} {d : Disk}
    {s : Settings} {files : List Bytes} (hformat : Format.Known name) (hfault : s.fault? = none)
    (hfiles : d.patches s.dir s.pattern = .ok files) :
    Verdict name d s (r.conclude e format (d.run false
      { dir := s.dir, pattern := s.pattern, jobs := s.jobs, lint := s.lint })).error := by
  have hlinter := Linter.ofOptions_of_known (Settings.unknownSkip?_eq_none hfault)
  have hok : (⟨s.dir, files.map fun path =>
      Linter.reportOf ⟨s.lint, Settings.unknownSkip?_eq_none hfault⟩ path (d.loadPatch path)⟩ :
        Summary).isOk = true ↔ ∀ path ∈ files, d.CleanAt s.lint path := by
    rw [Summary.isOk_iff]
    simp [Disk.patches_ne_nil hfiles, Linter.isValid_reportOf]
  unfold Disk.run
  rw [hfiles]
  simp only [hlinter, Linter.lintFiles_none, Bool.false_eq_true, if_false, conclude]
  split_ifs with hvalid
  · exact .valid hformat hfault hfiles (hok.mp hvalid)
  · rw [hok] at hvalid
    push Not at hvalid
    obtain ⟨path, hpath, hclean⟩ := hvalid
    exact .invalid hformat hfault hfiles hpath hclean

/-- **Every check ends with one of the verdicts.** -/
theorem Storeless.verdict {r : CheckRequest} (h : r.Storeless) (e : Environment) (d : Disk)
    (s : Settings) :
    Verdict r.format d (s.withOverrides r.overrides) (r.execute e d false s).error := by
  unfold execute
  unfold plan
  by_cases hformat : Format.Known r.format
  · obtain ⟨format, hname⟩ := Format.ofName_of_known hformat
    rw [hname]
    cases hfault : (s.withOverrides r.overrides).fault? with
    | some why =>
      simp only [Settings.overridden, Settings.validate, hfault]
      exact .settings hformat hfault
    | none =>
      simp only [Settings.overridden, Settings.validate, hfault, h.prepareStore]
      cases hfiles : d.patches (s.withOverrides r.overrides).dir
          (s.withOverrides r.overrides).pattern with
      | error why =>
        simp only [Disk.run, hfiles, conclude]
        exact .discover hformat hfault hfiles
      | ok files => exact verdict_of_files hformat hfault hfiles
  · rw [Format.ofName_of_not_known hformat]
    exact .unknownFormat hformat

namespace Verdict

variable {format : Bytes} {d : Disk} {s : Settings} {a b : Option CheckError}

/-- There is only one verdict. -/
theorem unique (ha : Verdict format d s a) (hb : Verdict format d s b) : a = b := by
  cases ha <;> cases hb <;> simp_all

theorem eq_none_iff (h : Verdict format d s a) :
    a = none ↔ Format.Known format ∧ s.fault? = none ∧
      ∃ files, d.patches s.dir s.pattern = .ok files ∧ ∀ path ∈ files, d.CleanAt s.lint path := by
  constructor
  · rintro rfl
    cases h with
    | valid hformat hfault hfiles hclean => exact ⟨hformat, hfault, _, hfiles, hclean⟩
  · rintro ⟨hformat, hfault, files, hfiles, hclean⟩
    exact h.unique (.valid hformat hfault hfiles hclean)

theorem eq_patchesInvalid_iff (h : Verdict format d s a) :
    a = some .patchesInvalid ↔ Format.Known format ∧ s.fault? = none ∧
      ∃ files, d.patches s.dir s.pattern = .ok files ∧ ∃ path ∈ files, ¬ d.CleanAt s.lint path := by
  constructor
  · rintro rfl
    cases h with
    | invalid hformat hfault hfiles hpath hclean =>
      exact ⟨hformat, hfault, _, hfiles, _, hpath, hclean⟩
  · rintro ⟨hformat, hfault, files, hfiles, path, hpath, hclean⟩
    exact h.unique (.invalid hformat hfault hfiles hpath hclean)

theorem eq_unknownFormat_iff (h : Verdict format d s a) {why : Format.Unknown} :
    a = some (.unknownFormat why) ↔ ¬ Format.Known format ∧ why = ⟨format⟩ := by
  constructor
  · rintro rfl
    cases h with
    | unknownFormat hformat => exact ⟨hformat, rfl⟩
  · rintro ⟨hformat, rfl⟩
    exact h.unique (.unknownFormat hformat)

theorem eq_settings_iff (h : Verdict format d s a) {why : SettingsFault} :
    a = some (.settings why) ↔ Format.Known format ∧ s.fault? = some why := by
  constructor
  · rintro rfl
    cases h with
    | settings hformat hfault => exact ⟨hformat, hfault⟩
  · rintro ⟨hformat, hfault⟩
    exact h.unique (.settings hformat hfault)

theorem eq_run_iff (h : Verdict format d s a) {why : RunError} :
    a = some (.run why) ↔ Format.Known format ∧ s.fault? = none ∧
      ∃ missing, d.patches s.dir s.pattern = .error missing ∧ why = .discover missing := by
  constructor
  · rintro rfl
    cases h with
    | discover hformat hfault hfiles => exact ⟨hformat, hfault, _, hfiles, rfl⟩
  · rintro ⟨hformat, hfault, missing, hfiles, rfl⟩
    exact h.unique (.discover hformat hfault hfiles)

/-- Another number of jobs and another format do not change it. -/
theorem congr {format' : Bytes} {jobs : Int} (h : Verdict format d s a)
    (hformat : Format.Known format) (hformat' : Format.Known format') (hold : 0 ≤ s.jobs)
    (hnew : 0 ≤ jobs) : Verdict format' d { s with jobs := jobs } a := by
  have hsame := s.fault?_jobs hold hnew
  cases h with
  | unknownFormat hunknown => exact absurd hformat hunknown
  | settings _ hfault => exact .settings hformat' (hsame.trans hfault)
  | discover _ hfault hfiles => exact .discover hformat' (hsame.trans hfault) hfiles
  | invalid _ hfault hfiles hpath hclean =>
    exact .invalid hformat' (hsame.trans hfault) hfiles hpath hclean
  | valid _ hfault hfiles hclean => exact .valid hformat' (hsame.trans hfault) hfiles hclean

end Verdict

end CheckRequest

/-- **The verdict of a check.**  For every disk, settings and request that does without the store, and
a run that is not cancelled: a check succeeds if and only if its format is known, the settings with
the overrides in place can be used, patches are found, and each of them can be read and has no issue
from a check that is not skipped; it ends in invalid patches if and only if the first three hold and
the last does not; and else it ends in the error of the first one that does not hold.  Every schedule
of the workers that comes to its end gives this verdict, and there is one; and so does a check with
another number of jobs, another known format or the table of changes. -/
theorem check_verdict (r : CheckRequest) (e : Environment) (d : Disk) (s : Settings)
    (hstore : r.Storeless) :
    let merged := s.withOverrides r.overrides
    let error := (r.execute e d false s).error
    (error = none ↔ Format.Known r.format ∧ merged.fault? = none ∧
      ∃ files, d.patches merged.dir merged.pattern = .ok files ∧
        ∀ path ∈ files, d.CleanAt merged.lint path) ∧
    (error = some .patchesInvalid ↔ Format.Known r.format ∧ merged.fault? = none ∧
      ∃ files, d.patches merged.dir merged.pattern = .ok files ∧
        ∃ path ∈ files, ¬ d.CleanAt merged.lint path) ∧
    (∀ why, error = some (.unknownFormat why) ↔ ¬ Format.Known r.format ∧ why = ⟨r.format⟩) ∧
    (∀ why, error = some (.settings why) ↔
      Format.Known r.format ∧ merged.fault? = some why) ∧
    (∀ why, error = some (.run why) ↔ Format.Known r.format ∧ merged.fault? = none ∧
      ∃ missing, d.patches merged.dir merged.pattern = .error missing ∧ why = .discover missing) ∧
    (∀ cpus ms out, Move.cancel ∉ ms → r.executeUnder e d cpus ms s = some out →
      out.error = error) ∧
    (∀ cpus, 1 ≤ cpus → ∃ ms out, Move.cancel ∉ ms ∧ r.executeUnder e d cpus ms s = some out) ∧
    ∀ (jobs : Int) (format : Bytes) (table : Bool),
      let other : CheckRequest :=
        { r with overrides := { r.overrides with jobs := jobs }, format := format, table := table }
      Format.Known r.format → Format.Known format → 0 ≤ merged.jobs →
      0 ≤ (s.withOverrides other.overrides).jobs →
      (other.execute e d false s).error = error ∧
      ∀ cpus ms out, Move.cancel ∉ ms → other.executeUnder e d cpus ms s = some out →
        out.error = error := by
  intro merged error
  have hverdict : CheckRequest.Verdict r.format d merged error := hstore.verdict e d s
  refine ⟨hverdict.eq_none_iff, hverdict.eq_patchesInvalid_iff,
    fun why => hverdict.eq_unknownFormat_iff, fun why => hverdict.eq_settings_iff,
    fun why => hverdict.eq_run_iff, fun cpus ms out => hstore.executeUnder_error,
    fun cpus hcpus => hstore.exists_executeUnder e d hcpus s, ?_⟩
  intro jobs format table other hformat hformat' hold hnew
  have hother : other.Storeless := ⟨hstore.useStore, hstore.clearStore⟩
  have hsame : (other.execute e d false s).error = error :=
    (hother.verdict e d s).unique (hverdict.congr hformat hformat' hold hnew)
  refine ⟨hsame, fun cpus ms out hms hout => ?_⟩
  exact (hother.executeUnder_error hms hout).trans hsame

/-- A patch without issues, if its shape is not looked at, and one with a brace too many. -/
def bracedDisk : Disk :=
  ⟨[(["p"], .folder), (["p", "a.patch"], .file "x"), (["p", "b.patch"], .file "@@\n+\x7d")], []⟩

theorem bracedDisk_not_clean :
    ¬ bracedDisk.CleanAt { skip := ["structure"] } "p/b.patch" := by
  rintro ⟨doc, hload, hclean⟩
  have hdoc : bracedDisk.loadPatch "p/b.patch" = .ok ⟨"p/b.patch", "@@\n+\x7d"⟩ := by decide +kernel
  obtain rfl := Except.ok.inj (hdoc.symm.trans hload)
  exact absurd (hclean .braces (by decide) (by decide)) (by decide +kernel)

/-- The second patch is found invalid, and is so with eight jobs and a table of changes as well. -/
theorem check_verdict_braced :
    let r : CheckRequest :=
      { overrides := { dir := "p", skip := ["structure"], jobs := 2 }, format := "json" }
    let other : CheckRequest :=
      { overrides := { dir := "p", skip := ["structure"], jobs := 8 }, format := "sarif", table := true }
    (r.execute {} bracedDisk false {}).error = some .patchesInvalid ∧
      (other.execute {} bracedDisk false {}).error = some .patchesInvalid ∧
      ∃ ms out, r.executeUnder {} bracedDisk 1 ms {} = some out ∧
        out.error = some .patchesInvalid := by
  intro r other
  have hfiles : bracedDisk.patches "p" "*.patch" = .ok ["p/a.patch", "p/b.patch"] := by
    decide +kernel
  obtain ⟨-, hinvalid, -, -, -, hschedule, hends, hother⟩ :=
    check_verdict r {} bracedDisk {} ⟨rfl, rfl⟩
  have hverdict : (r.execute {} bracedDisk false {}).error = some .patchesInvalid := by
    refine hinvalid.mpr ⟨.inr ⟨.json, by decide, by decide⟩, by decide +kernel, _, hfiles, ?_⟩
    exact ⟨"p/b.patch", by decide, bracedDisk_not_clean⟩
  have hsame := (hother 8 "sarif" true (.inr ⟨.json, by decide, by decide⟩)
    (.inr ⟨.sarif, by decide, by decide⟩) (by decide) (by decide)).1
  obtain ⟨ms, out, hms, hout⟩ := hends 1 (Nat.le_refl 1)
  exact ⟨hverdict, hsame.trans hverdict, ms, out, hout, (hschedule 1 ms out hms hout).trans hverdict⟩

end PatchAudit
