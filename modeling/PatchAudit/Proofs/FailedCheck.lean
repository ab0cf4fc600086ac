import Mathlib.Data.List.Basic
import PatchAudit.Proofs.CheckVerdict
import PatchAudit.Proofs.Folders

/-!
# What a failed check leaves behind

A check settles its format and its settings before it opens the store, opens the store before it
looks for patches, and prints only after the run.  `CheckRequest.Course` says once how it can go, in
turn or under any schedule; from its three cases follows what a check that fails has printed, and
what it has done to the disk (`failed_check_leaves_nothing`).
-/

namespace PatchAudit

/-! ### Formats that can be written -/

namespace Format

theorem known_of_mem_writers {style : Style} {s : Summary} :
    ∀ writer ∈ writers style s, Known writer.1 := by
  simp only [writers, List.forall_mem_cons, List.not_mem_nil, false_imp_iff, implies_true, and_true]
  exact ⟨.inl rfl, .inr ⟨plain, by decide, rfl⟩, .inr ⟨json, by decide, rfl⟩,
    .inr ⟨markdown, by decide, rfl⟩, .inr ⟨html, by decide, rfl⟩, .inr ⟨sarif, by decide, rfl⟩⟩

/-- **The names that are accepted are those that can be written**, and each is written in the format
that it was accepted for. -/
theorem write_eq (style : Style) (s : Summary) (name : Bytes) :
    write style s name = (ofName name).map (render style s) := by
  by_cases hknown : Known name
  · obtain rfl | ⟨f, -, rfl⟩ := hknown
    · rfl
    · cases f <;> rfl
  · have hnone : (writers style s).lookup name = none := by
      rw [List.lookup_eq_none_iff]
      intro writer hmem
      rw [bne_iff_ne]
      rintro rfl
      exact hknown (known_of_mem_writers writer hmem)
    rw [ofName_of_not_known hknown, write, hnone]
    rfl

end Format

/-! ### Opening the store -/

theorem Store.openAt_disk (d : Disk) (dir : Bytes) :
    (Store.openAt d dir).1 = (d.makeFolders dir).1 := by
  unfold openAt
  split <;> simp [*]

/-- Opening the store adds at most folders, also if it fails. -/
theorem Environment.openStore_addsFolders (e : Environment) (d : Disk) :
    d.AddsFolders (e.openStore d).2 := by
  unfold openStore
  cases e.storeDir? with
  | none => exact .refl d
  | some dir =>
    show d.AddsFolders (Store.openAt d dir).1
    rw [Store.openAt_disk]
    exact d.makeFolders_adds dir

namespace CheckRequest

/-- Making the store ready adds at most folders, unless it is emptied. -/
theorem prepareStore_addsFolders {r : CheckRequest} (h : r.clearStore = false) (e : Environment)
    (d : Disk) : d.AddsFolders (r.prepareStore e d).2 := by
  unfold prepareStore
  split_ifs
  · have hopened := e.openStore_addsFolders d
    rw [h]
    generalize e.openStore d = opened at hopened ⊢
    obtain ⟨store, ready⟩ := opened
    cases store <;> exact hopened
  · exact .refl d

end CheckRequest

/-! ### The course of a check -/

/-- What a run can end with: in turn, cancelled beforehand or not, or under a schedule. -/
def Disk.Gives (d : Disk) (request : RunRequest) (answer : Disk × Except RunError Summary) : Prop :=
  (∃ cancelled, answer = d.run cancelled request) ∨
    ∃ cpus ms, d.runUnder cpus request ms = some answer

/-- A run that finds no patches changes nothing. -/
theorem Disk.Gives.eq_of_discover {d : Disk} {request : RunRequest}
    {answer : Disk × Except RunError Summary} (h : d.Gives request answer) {why : DiscoverError}
    (hwhy : answer.2 = .error (.discover why)) : answer.1 = d := by
  rcases h with ⟨cancelled, rfl⟩ | ⟨cpus, ms, hanswer⟩
  · unfold Disk.run at hwhy ⊢
    split
    · rfl
    · rename_i files hfiles
      rw [hfiles] at hwhy
      simp only at hwhy ⊢
      split
      · rfl
      · rename_i linter hlinter
        rw [hlinter] at hwhy
        split_ifs at hwhy
        cases hwhy
  · cases hprepare : d.prepare cpus request with
    | error why =>
      unfold Disk.runUnder at hanswer
      rw [hprepare] at hanswer
      cases hanswer
      rfl
    | ok prepared =>
      obtain ⟨b, start⟩ := prepared
      obtain ⟨p, -, -, rfl⟩ := Disk.runUnder_eq_some hprepare hanswer
      unfold Progress.answer at hwhy
      split_ifs at hwhy
      cases hwhy

namespace CheckRequest

/-- The run that a check asks for. -/
def runRequest (r : CheckRequest) (e : Environment) (d : Disk) (used : Settings) : RunRequest :=
  { dir := used.dir, pattern := used.pattern, jobs := used.jobs, lint := used.lint,
    store := (r.prepareStore e d).1 }

/-- What is printed for a summary: the table, or what is written in the format asked for. -/
def Prints (r : CheckRequest) (e : Environment) (summary : Summary) (text : Bytes) : Prop :=
  if r.table then text = StatTable.render summary
  else Format.write { strayBytes := e.strayBytes } summary r.format = .ok text

/-- How a check can go. -/
inductive Course (r : CheckRequest) (e : Environment) (d : Disk) (s : Settings) :
    Outcome CheckError → Prop where
  | badFormat {why : Format.Unknown} (hformat : Format.ofName r.format = .error why) :
      Course r e d s { disk := d, error := some (.unknownFormat why) }
  | badSettings {f : Format} {why : SettingsFault} (hformat : Format.ofName r.format = .ok f)
      (hsettings : s.overridden r.overrides = .error why) :
      Course r e d s { disk := d, error := some (.settings why) }
  | failed {f : Format} {used : Settings} {after : Disk} {why : RunError}
      (hformat : Format.ofName r.format = .ok f) (hsettings : s.overridden r.overrides = .ok used)
      (hrun : (r.prepareStore e d).2.Gives (r.runRequest e d used) (after, .error why)) :
      Course r e d s { disk := after, error := some (.run why) }
  | printed {f : Format} {used : Settings} {after : Disk} {summary : Summary} {text : Bytes}
      (hformat : Format.ofName r.format = .ok f) (hsettings : s.overridden r.overrides = .ok used)
      (hrun : (r.prepareStore e d).2.Gives (r.runRequest e d used) (after, .ok summary))
      (hprint : r.Prints e summary text) :
      Course r e d s
        { disk := after, output := text, error := if summary.isOk then none else some .patchesInvalid }

theorem prints_print {r : CheckRequest} {e : Environment} {f : Format}
    (hformat : Format.ofName r.format = .ok f)
    (summary : Summary) : r.Prints e summary (r.print e f summary) := by
  unfold Prints print
  split_ifs
  · rfl
  · rw [Format.write_eq, hformat]
    rfl

theorem Course.of_run {r : CheckRequest} {e : Environment} {d : Disk} {s used : Settings} {f : Format}
    {answer : Disk × Except RunError Summary} (hformat : Format.ofName r.format = .ok f)
    (hsettings : s.overridden r.overrides = .ok used)
    (hrun : (r.prepareStore e d).2.Gives (r.runRequest e d used) answer) :
    r.Course e d s (r.conclude e f answer) := by
  obtain ⟨after, result⟩ := answer
  cases result with
  | error why => exact .failed hformat hsettings hrun
  | ok summary => exact .printed hformat hsettings hrun (prints_print hformat summary)

/-- **Every check takes one of the courses**, in turn or under a schedule. -/
theorem course_of_ends {r : CheckRequest} {e : Environment} {d : Disk} {s : Settings}
    {out : Outcome CheckError} (h : (∃ cancelled, out = r.execute e d cancelled s) ∨
      ∃ cpus ms, r.executeUnder e d cpus ms s = some out) : r.Course e d s out := by
  cases hformat : Format.ofName r.format with
  | error why =>
    rcases h with ⟨cancelled, rfl⟩ | ⟨cpus, ms, hout⟩
    · simp only [execute, plan, hformat]
      exact .badFormat hformat
    · simp only [executeUnder, plan, hformat, Option.some.injEq] at hout
      rw [← hout]
      exact .badFormat hformat
  | ok f =>
    cases hsettings : s.overridden r.overrides with
    | error why =>
      rcases h with ⟨cancelled, rfl⟩ | ⟨cpus, ms, hout⟩
      · simp only [execute, plan, hformat, hsettings]
        exact .badSettings hformat hsettings
      · simp only [executeUnder, plan, hformat, hsettings, Option.some.injEq] at hout
        rw [← hout]
        exact .badSettings hformat hsettings
    | ok used =>
      rcases h with ⟨cancelled, rfl⟩ | ⟨cpus, ms, hout⟩
      · simp only [execute, plan, hformat, hsettings]
        exact .of_run hformat hsettings (.inl ⟨cancelled, rfl⟩)
      · simp only [executeUnder, plan, hformat, hsettings] at hout
        obtain ⟨answer, hrun, rfl⟩ := Option.map_eq_some_iff.mp hout
        exact .of_run hformat hsettings (.inr ⟨cpus, ms, hrun⟩)

namespace Course

variable {r : CheckRequest} {e : Environment} {d : Disk} {s : Settings} {out : Outcome CheckError}

/-- Only a report is printed. -/
theorem output_eq_nil (h : r.Course e d s out) {why : CheckError} (herror : out.error = some why)
    (hwhy : why ≠ .patchesInvalid) : out.output = [] := by
  cases h with
  | badFormat | badSettings | failed => rfl
  | printed =>
    simp only at herror
    split_ifs at herror
    exact absurd (Option.some.inj herror).symm hwhy

theorem unknownFormat_iff (h : r.Course e d s out) {why : Format.Unknown} :
    out.error = some (.unknownFormat why) ↔ Format.ofName r.format = .error why := by
  cases h with
  | badFormat hformat => simp [hformat]
  | badSettings hformat | failed hformat => simp [hformat]
  | printed hformat => simp [hformat, ite_eq_iff]

theorem settings_iff (h : r.Course e d s out) {why : SettingsFault} :
    out.error = some (.settings why) ↔
      (∃ f, Format.ofName r.format = .ok f) ∧ s.overridden r.overrides = .error why := by
  cases h with
  | badFormat hformat => simp [hformat]
  | badSettings hformat hsettings => simp [hformat, hsettings]
  | failed hformat hsettings => simp [hsettings]
  | printed hformat hsettings => simp [hsettings, ite_eq_iff]

/-- What is refused beforehand changes nothing. -/
theorem disk_of_refused (h : r.Course e d s out)
    (hrefused : (∃ why, out.error = some (.unknownFormat why)) ∨
      ∃ why, out.error = some (.settings why)) : out.disk = d := by
  cases h with
  | badFormat | badSettings => rfl
  | failed => simp at hrefused
  | printed => simp [ite_eq_iff] at hrefused

/-- Where no patches are found, all that was done is making the store ready. -/
theorem disk_of_discover (h : r.Course e d s out) {why : DiscoverError}
    (herror : out.error = some (.run (.discover why))) : out.disk = (r.prepareStore e d).2 := by
  cases h with
  | badFormat | badSettings => cases herror
  | failed _ _ hrun => exact hrun.eq_of_discover (congrArg Except.error (by simpa using herror))
  | printed => simp [ite_eq_iff] at herror

/-- A check that is not refused ends as its run does, and prints the summary if there is one. -/
theorem ends_as_run (h : r.Course e d s out) {f : Format} {used : Settings}
    (hformat : Format.ofName r.format = .ok f) (hsettings : s.overridden r.overrides = .ok used) :
    ∃ result, (r.prepareStore e d).2.Gives (r.runRequest e d used) (out.disk, result) ∧
      match result with
      | .error why => out.error = some (.run why)
      | .ok summary => out.error = (if summary.isOk then none else some .patchesInvalid) ∧
          r.Prints e summary out.output := by
  cases h with
  | badFormat hother => rw [hformat] at hother; cases hother
  | badSettings _ hother => rw [hsettings] at hother; cases hother
  | failed _ hsame hrun =>
    obtain rfl := Except.ok.inj (hsettings.symm.trans hsame)
    exact ⟨_, hrun, rfl⟩
  | printed _ hsame hrun hprint =>
    obtain rfl := Except.ok.inj (hsettings.symm.trans hsame)
    exact ⟨_, hrun, rfl, hprint⟩

end Course

end CheckRequest

/-- **What a failed check leaves behind**, in turn or under any schedule.  It prints nothing, unless it
failed because of the patches it found.  A format or settings that cannot be used are refused before
anything is done.  Where no patches are found, the store has been made ready and no more, so if it is
not to be emptied, then no file or link has come, gone or changed.  All other checks end as their run
does, and the summary of a run is always printed, since the names of formats that are accepted are
those that can be written. -/
theorem failed_check_leaves_nothing {r : CheckRequest} {e : Environment} {d : Disk} {s : Settings}
    {out : Outcome CheckError} (h : (∃ cancelled, out = r.execute e d cancelled s) ∨
      ∃ cpus ms, r.executeUnder e d cpus ms s = some out) :
    (∀ why, out.error = some why → why ≠ .patchesInvalid → out.output = []) ∧
      (∀ why, out.error = some (.unknownFormat why) ↔ Format.ofName r.format = .error why) ∧
      (∀ why, out.error = some (.settings why) ↔
        (∃ f, Format.ofName r.format = .ok f) ∧ s.overridden r.overrides = .error why) ∧
      ((∃ why, out.error = some (.unknownFormat why)) ∨ (∃ why, out.error = some (.settings why)) →
        out.disk = d) ∧
      (∀ why, out.error = some (.run (.discover why)) → out.disk = (r.prepareStore e d).2 ∧
        (r.clearStore = false → d.AddsFolders out.disk)) ∧
      (∀ f used, Format.ofName r.format = .ok f → s.overridden r.overrides = .ok used →
        ∃ result, (r.prepareStore e d).2.Gives (r.runRequest e d used) (out.disk, result) ∧
          match result with
          | .error why => out.error = some (.run why)
          | .ok summary => out.error = (if summary.isOk then none else some .patchesInvalid) ∧
              r.Prints e summary out.output) ∧
      ∀ style summary name,
        Format.write style summary name = (Format.ofName name).map (Format.render style summary) := by
  have hcourse := CheckRequest.course_of_ends h
  refine ⟨fun why => hcourse.output_eq_nil, fun why => hcourse.unknownFormat_iff,
    fun why => hcourse.settings_iff, hcourse.disk_of_refused, fun why hwhy => ?_,
    fun f used => hcourse.ends_as_run, Format.write_eq⟩
  have hdisk := hcourse.disk_of_discover hwhy
  exact ⟨hdisk, fun hclear => hdisk ▸ CheckRequest.prepareStore_addsFolders hclear e d⟩

/-- A disk with a report in the store and no folder of patches. -/
def patchlessDisk : Disk :=
  ⟨[(["c"], .folder), (["c", "patchlint"], .folder), (["c", "patchlint", "reports"], .folder),
    (["c", "patchlint", "reports", "01.mp"], .file "x")], []⟩

theorem failed_check_leaves_nothing_patchless :
    let e : Environment := { cacheHome := "c" }
    let odd : CheckRequest := { format := "xml", clearStore := true }
    let negative : CheckRequest := { overrides := { jobs := -1 }, clearStore := true }
    let patchless : CheckRequest := { format := "json", useStore := true }
    (odd.execute e patchlessDisk false {}).disk = patchlessDisk ∧
      (negative.execute e patchlessDisk false {}).disk = patchlessDisk ∧
      (patchless.execute e patchlessDisk false {}).output = [] ∧
      (patchless.execute e patchlessDisk false {}).disk.entry?
        ["c", "patchlint", "reports", "01.mp"] = some (.file "x") := by
  intro e odd negative patchless
  obtain ⟨-, hformat, -, hodd, -⟩ := failed_check_leaves_nothing
    (r := odd) (e := e) (d := patchlessDisk) (s := {}) (.inl ⟨false, rfl⟩)
  obtain ⟨-, -, hsettings, hnegative, -⟩ := failed_check_leaves_nothing
    (r := negative) (e := e) (d := patchlessDisk) (s := {}) (.inl ⟨false, rfl⟩)
  obtain ⟨hsilent, -, -, -, hdiscover, -⟩ := failed_check_leaves_nothing
    (r := patchless) (e := e) (d := patchlessDisk) (s := {}) (.inl ⟨false, rfl⟩)
  have herror : (patchless.execute e patchlessDisk false {}).error =
      some (.run (.discover (.folderMissing "patches"))) := by decide +kernel
  exact ⟨hodd (.inl ⟨⟨"xml"⟩, (hformat _).mpr (by decide)⟩),
    hnegative (.inr ⟨.negativeJobs (-1), (hsettings _).mpr ⟨⟨.plain, by decide⟩, by decide +kernel⟩⟩),
    hsilent _ herror (by simp), ((hdiscover _ herror).2 rfl).some_entry (by decide)⟩

end PatchAudit
