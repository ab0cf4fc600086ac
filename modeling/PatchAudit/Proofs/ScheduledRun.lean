import PatchAudit.Proofs.PatchOrder
import PatchAudit.Proofs.RunHistory
import PatchAudit.Proofs.Schedule

/-!
# Runs under a schedule

A run in which the workers of the patches take turns in any order answers as the run that checks one
patch after the other, or is cancelled as a whole (`scheduled_run_answers_as_sequential_run`).  The
workers may share a store whose reports are right for the patches of the run, as long as storing
reports does not change what is read at the paths of the patches.

What the workers need of the disk is stated once (`Batch.Guarded`): it holds without a store, where
the disk stays as it is, and with a sound store.  From it follows what each worker has got hold of at
each of its stages (`Worker.Right`), after every move of every schedule.
-/

namespace PatchAudit

/-- The number of workers that may be busy at a time in a run over `n` patches; as many as there are
processors if the request does not say. -/
def RunRequest.limit (r : RunRequest) (cpus n : Nat) : Nat :=
  min (if r.jobs ≤ 0 then cpus else r.jobs.toNat) n

namespace Disk

/-- What a run starts with: one waiting worker for each patch. -/
def prepare (d : Disk) (cpus : Nat) (r : RunRequest) : Except RunError (Batch × Progress) :=
  match d.patches r.dir r.pattern with
  | .error why => .error (.discover why)
  | .ok files =>
    match Linter.ofOptions r.lint with
    | .error why => .error (.unknownCheck why)
    | .ok linter =>
      .ok (⟨linter, r.store, r.limit cpus files.length⟩, ⟨d, files.map fun path => { path }, false⟩)

/-- Runs over a directory under a schedule.  There is no result if a move of the schedule cannot be
made or if workers have not ended after it. -/
def runUnder (d : Disk) (cpus : Nat) (r : RunRequest) (ms : List Move) :
    Option (Disk × Except RunError Summary) :=
  match d.prepare cpus r with
  | .error why => some (d, .error why)
  | .ok (b, start) =>
    match b.follow start ms with
    | none => none
    | some p => if p.ended then some (p.disk, p.answer r.dir) else none

end Disk

/-! ### What the workers know -/

/-- What a worker has got hold of at its stage, in a run that started from the disk `start`. -/
def Worker.Right (l : Linter) (start : Disk) (cancelled : Bool) (w : Worker) : Prop :=
  match w.stage with
  | .looking doc => start.loadPatch w.path = .ok doc
  | .checking doc => start.loadPatch w.path = .ok doc
  | .storing doc report => start.loadPatch w.path = .ok doc ∧ report = l.lint doc
  | .writing report => report = l.reportOf w.path (start.loadPatch w.path)
  | .finished => w.slot = some (l.reportOf w.path (start.loadPatch w.path))
  | .stopped => cancelled = true
  | _ => True

namespace Batch

/-- Disks on which the workers of a run that started from `start` find what they should: patches are
as they were, reports in the store are right, and storing another right report leads to such a disk
again. -/
structure Guarded (b : Batch) (start : Disk) (files : List Bytes) (ok : Disk → Prop) : Prop where
  before : ok start
  load : ∀ {d path}, ok d → path ∈ files → d.loadPatch path = start.loadPatch path
  find : ∀ {d path doc t found}, ok d → path ∈ files → start.loadPatch path = .ok doc →
    b.find? t d doc = some found → found = b.linter.lint doc
  keep : ∀ {d path doc}, ok d → path ∈ files → start.loadPatch path = .ok doc →
    ∀ t, ok (b.keep t d doc (b.linter.lint doc))

/-- What holds between any two moves of a run. -/
structure Right (b : Batch) (start : Disk) (files : List Bytes) (ok : Disk → Prop) (p : Progress) :
    Prop where
  disk : ok p.disk
  paths : p.workers.map Worker.path = files
  workers : ∀ w ∈ p.workers, w.Right b.linter start p.cancelled

variable {b : Batch} {start d d' : Disk} {files : List Bytes} {ok : Disk → Prop}

/-- One step of a worker. -/
theorem Guarded.steps (hguard : b.Guarded start files ok) {t : Trouble} {halted cancelled : Bool}
    {w w' : Worker} (hd : ok d) (hpath : w.path ∈ files) (hw : w.Right b.linter start cancelled)
    (hhalted : halted = true → cancelled = true) (h : b.Steps t halted d w d' w') :
    ok d' ∧ w'.Right b.linter start cancelled := by
  have hload := hguard.load hd hpath
  unfold Worker.Right at hw
  cases h with
  | check hstage =>
    refine ⟨hd, ?_⟩
    cases halted with
    | true => exact hhalted rfl
    | false => trivial
  | refuse hstage hload' =>
    refine ⟨hd, ?_⟩
    rw [hload] at hload'
    simp only [Worker.Right, hload']
    rfl
  | load hstage hload' => exact ⟨hd, hload.symm.trans hload'⟩
  | find hstage hfind =>
    rw [hstage] at hw
    refine ⟨hd, ?_⟩
    simp only [Worker.Right, hw]
    exact hguard.find hd hpath hw hfind
  | miss hstage hfind =>
    rw [hstage] at hw
    exact ⟨hd, hw⟩
  | lint hstage =>
    rw [hstage] at hw
    exact ⟨hd, hw, rfl⟩
  | keep hstage =>
    rw [hstage] at hw
    obtain ⟨hdoc, rfl⟩ := hw
    refine ⟨hguard.keep hd hpath hdoc t, ?_⟩
    simp only [Worker.Right, hdoc]
    rfl
  | write hstage =>
    rw [hstage] at hw
    exact ⟨hd, congrArg some hw⟩

/-- A worker that stopped found the run cancelled. -/
theorem Right.cancelled_of_failed {p : Progress} (hp : b.Right start files ok p)
    (h : p.failed = true) : p.cancelled = true := by
  obtain ⟨w, hw, hstopped⟩ := List.any_eq_true.mp h
  have hright := hp.workers w hw
  unfold Worker.Right at hright
  rw [WorkStage.eq_stopped hstopped] at hright
  exact hright

theorem Right.cancelled_of_halted {p : Progress} (hp : b.Right start files ok p)
    (h : p.halted = true) : p.cancelled = true := by
  rcases (Bool.or_eq_true _ _).mp h with hcancelled | hfailed
  · exact hcancelled
  · exact hp.cancelled_of_failed hfailed

theorem Right.mem_files {p : Progress} (hp : b.Right start files ok p) {w : Worker}
    (hw : w ∈ p.workers) : w.path ∈ files := by
  rw [← hp.paths]
  exact List.mem_map_of_mem hw

/-- One move of a run. -/
theorem Guarded.move (hguard : b.Guarded start files ok) {p p' : Progress} {m : Move}
    (hp : b.Right start files ok p) (h : b.move? p m = some p') : b.Right start files ok p' := by
  obtain ⟨-, -, rfl⟩ | ⟨-, i, w, hw, -, -, rfl⟩ | ⟨i, t, w, d', w', -, hw, hsteps, rfl⟩ :=
    move_cases h
  · refine ⟨hp.disk, hp.paths, fun w hw => ?_⟩
    have hright := hp.workers w hw
    unfold Worker.Right at hright ⊢
    cases hstage : w.stage <;> simp_all
  · refine ⟨hp.disk, (paths_set hw (by rfl)).trans hp.paths, fun x hx => ?_⟩
    rcases List.mem_or_eq_of_mem_set hx with hx | rfl
    · exact hp.workers x hx
    · trivial
  · have hmem := List.mem_of_getElem? hw
    obtain ⟨hdisk, hright⟩ := hguard.steps hp.disk (hp.mem_files hmem) (hp.workers w hmem)
      hp.cancelled_of_halted hsteps
    refine ⟨hdisk, (paths_set hw hsteps.path).trans hp.paths, fun x hx => ?_⟩
    rcases List.mem_or_eq_of_mem_set hx with hx | rfl
    · exact hp.workers x hx
    · exact hright

theorem Guarded.follow (hguard : b.Guarded start files ok) {p p' : Progress} {ms : List Move}
    (hp : b.Right start files ok p) (h : b.follow p ms = some p') : b.Right start files ok p' :=
  follow_invariant (fun hp hmove => hguard.move hp hmove) hp h

/-! ### How a run ends -/

/-- Once all workers have ended and none has failed, every slot holds the report of its patch. -/
theorem Right.slots {p : Progress} (hp : b.Right start files ok p) (hended : p.ended = true)
    (hfailed : p.failed = false) {w : Worker} (hw : w ∈ p.workers) :
    w.slot = some (b.linter.reportOf w.path (start.loadPatch w.path)) := by
  have hright := hp.workers w hw
  have hend := List.all_eq_true.mp hended w hw
  have hgoes : ¬ w.stage.isStopped = true := List.any_eq_false.mp hfailed w hw
  unfold Worker.Right at hright
  cases hstage : w.stage with
  | finished =>
    rw [hstage] at hright
    exact hright
  | stopped =>
    rw [hstage] at hgoes
    exact absurd rfl hgoes
  | _ =>
    rw [hstage] at hend
    cases hend

/-- The answer of a run is the summary of all reports, or that the run was cancelled. -/
theorem Right.answer {p : Progress} (hp : b.Right start files ok p) (hended : p.ended = true)
    (dir : Bytes) :
    p.failed = true ∧ p.answer dir = .error .cancelled ∨
      p.failed = false ∧ p.answer dir =
        .ok ⟨dir, files.map fun path => b.linter.reportOf path (start.loadPatch path)⟩ := by
  unfold Progress.answer
  cases hfailed : p.failed with
  | true => exact .inl ⟨rfl, rfl⟩
  | false =>
    refine .inr ⟨rfl, ?_⟩
    have hreports : (p.workers.map fun w => w.slot.getD { path := [], name := [] }) =
        files.map fun path => b.linter.reportOf path (start.loadPatch path) := by
      rw [← hp.paths, List.map_map]
      refine List.map_congr_left fun w hw => ?_
      rw [hp.slots hended hfailed hw]
      rfl
    rw [hreports]
    rfl

/-- A run that is cancelled and of which no worker has got further than its start. -/
structure Idle (d : Disk) (p : Progress) : Prop where
  disk : p.disk = d
  cancelled : p.cancelled = true
  workers : ∀ w ∈ p.workers, w.stage = .waiting ∨ w.stage = .started ∨ w.stage = .stopped

theorem Idle.move {p p' : Progress} {m : Move} (hp : Idle d p) (h : b.move? p m = some p') :
    Idle d p' := by
  obtain ⟨-, -, rfl⟩ | ⟨-, i, w, hw, -, -, rfl⟩ | ⟨i, t, w, d', w', -, hw, hsteps, rfl⟩ :=
    move_cases h
  · exact ⟨hp.disk, rfl, hp.workers⟩
  · refine ⟨hp.disk, hp.cancelled, fun x hx => ?_⟩
    rcases List.mem_or_eq_of_mem_set hx with hx | rfl
    · exact hp.workers x hx
    · exact .inr (.inl rfl)
  · have hhalted : p.halted = true := by simp [Progress.halted, hp.cancelled]
    have hstage := hp.workers w (List.mem_of_getElem? hw)
    cases hsteps with
    | check =>
      refine ⟨hp.disk, hp.cancelled, fun x hx => ?_⟩
      rcases List.mem_or_eq_of_mem_set hx with hx | rfl
      · exact hp.workers x hx
      · rw [if_pos hhalted]
        exact .inr (.inr rfl)
    | refuse hother | load hother | find hother | miss hother | lint hother | keep hother
    | write hother =>
      rw [hother] at hstage
      simp at hstage

/-- A run that is cancelled before its workers look changes nothing and fails. -/
theorem Idle.answer {p p' : Progress} {ms : List Move} (hp : Idle d p) (hsome : p.workers ≠ [])
    (h : b.follow p ms = some p') (hended : p'.ended = true) (dir : Bytes) :
    p'.disk = d ∧ p'.answer dir = .error .cancelled := by
  have hp' : Idle d p' := follow_invariant (fun hq hmove => hq.move hmove) hp h
  have hfailed : p'.failed = true := by
    have hlength : p'.workers ≠ [] := by
      have hpaths := follow_paths h
      intro hnil
      rw [hnil] at hpaths
      exact hsome (List.map_eq_nil_iff.mp hpaths.symm)
    obtain ⟨w, hw⟩ := List.exists_mem_of_ne_nil _ hlength
    refine List.any_eq_true.mpr ⟨w, hw, ?_⟩
    have hend := List.all_eq_true.mp hended w hw
    rcases hp'.workers w hw with hstage | hstage | hstage
    · rw [hstage] at hend
      cases hend
    · rw [hstage] at hend
      cases hend
    · rw [hstage]
      rfl
  refine ⟨hp'.disk, ?_⟩
  unfold Progress.answer
  rw [if_pos hfailed]

/-! ### Disks that suit the workers -/

/-- Without a store the disk stays as it is. -/
theorem guarded_of_no_store (hstore : b.store = none) (d : Disk) (files : List Bytes) :
    b.Guarded d files (· = d) where
  before := rfl
  load := by
    rintro _ path rfl -
    rfl
  find := by
    rintro d' path doc t found - - - hfind
    rw [find?, hstore] at hfind
    cases hfind
  keep := by
    rintro _ path doc rfl - - t
    rw [Batch.keep, hstore]

/-- A sound store stays sound, whichever workers race for a key. -/
theorem guarded_of_sound {s : Store} (hstore : b.store = some s) {P : Occasions} (hP : P.Separated)
    (hsound : s.Sound P start) (hspares : ∀ path ∈ files, s.Spares start path)
    (hdocs : ∀ path ∈ files, ∀ doc, start.loadPatch path = .ok doc → P b.linter.options doc) :
    b.Guarded start files fun d => s.Sound P d ∧ s.Writes start d where
  before := ⟨hsound, .refl⟩
  load := by
    rintro d path ⟨-, hwrites⟩ hpath
    exact hspares path hpath d hwrites
  find := by
    rintro d path doc t found ⟨hsound, -⟩ hpath hload hfind
    rw [find?, hstore] at hfind
    simp only at hfind
    split_ifs at hfind
    split at hfind
    · rename_i hget
      exact hsound.get hP (hdocs path hpath doc hload) (hfind ▸ hget)
    · cases hfind
  keep := by
    rintro d path doc ⟨hsound, hwrites⟩ hpath hload t
    rw [Batch.keep, hstore]
    exact ⟨hsound.put hP (hdocs path hpath doc hload) t.put, hwrites.put _ _ _⟩

end Batch

/-! ### Consistent stores -/

/-- A store that is consistent for a run: what can be read under the key of a patch of the run is
the report of this patch, on a disk that is a tree and has no links among the entries of the store;
the digest does not collide on the keys of the run, and its reports are not too large to be
stored. -/
structure Visit.Consistent (v : Visit) (s : Store) : Prop where
  tree : v.disk.IsTree
  noLinks : s.NoLinks v.disk
  holds : ∀ {doc stored}, v.Reads doc →
    s.Holds v.disk (StoreKey.of doc.name doc.text v.request.lint) stored →
    stored = StoredReport.ofReport (v.request.lint.report doc)
  digest : ∀ {doc doc'}, v.Reads doc → v.Reads doc' →
    Sha256.digest (StoreKey.preimage doc.name doc.text v.request.lint) =
      Sha256.digest (StoreKey.preimage doc'.name doc'.text v.request.lint) →
    StoreKey.preimage doc.name doc.text v.request.lint =
      StoreKey.preimage doc'.name doc'.text v.request.lint
  storable : ∀ {doc}, v.Reads doc → v.request.lint.Storable doc

namespace Visit.Consistent

variable {v : Visit} {s : Store}

/-- The patches of a run are told apart by their keys. -/
theorem separated (h : v.Consistent s) :
    Occasions.Separated fun o doc => o = v.request.lint ∧ v.Reads doc where
  storable := by
    rintro o doc ⟨rfl, hdoc⟩
    exact h.storable hdoc
  report := by
    rintro o doc o' doc' ⟨rfl, hdoc⟩ ⟨rfl, hdoc'⟩ hkey
    have hpreimage := h.digest hdoc hdoc' (StoreKey.mk.inj hkey)
    obtain ⟨hname, htext⟩ := StoreKey.preimage_injective_of_options hdoc.zero_not_mem_name
      hdoc'.zero_not_mem_name hpreimage
    exact LintOptions.ofReport_congr hname htext rfl rfl rfl

theorem sound (h : v.Consistent s) :
    s.Sound (fun o doc => o = v.request.lint ∧ v.Reads doc) v.disk := by
  refine ⟨h.tree, h.noLinks, ?_⟩
  rintro o doc stored ⟨rfl, hdoc⟩ hholds
  exact h.holds hdoc hholds

end Visit.Consistent

/-! ### Runs -/

/-- **At least one worker may be busy**, whatever number of jobs is asked for. -/
theorem RunRequest.one_le_limit (r : RunRequest) {cpus n : Nat} (hcpus : 1 ≤ cpus) (hn : 1 ≤ n) :
    1 ≤ r.limit cpus n := by
  unfold limit
  split_ifs with hjobs
  · omega
  · omega

namespace Disk

variable {d : Disk} {cpus : Nat} {r : RunRequest} {b : Batch} {start : Progress}

theorem prepare_eq_ok (h : d.prepare cpus r = .ok (b, start)) :
    ∃ files linter, d.patches r.dir r.pattern = .ok files ∧ Linter.ofOptions r.lint = .ok linter ∧
      b = ⟨linter, r.store, r.limit cpus files.length⟩ ∧
      start = ⟨d, files.map fun path => { path }, false⟩ := by
  unfold prepare at h
  split at h
  · cases h
  · rename_i files hfiles
    split at h
    · cases h
    · rename_i linter hlinter
      cases h
      exact ⟨files, linter, hfiles, hlinter, rfl, rfl⟩

/-- A run that cannot be prepared fails with the same error without a schedule. -/
theorem run_of_prepare_error {why : RunError} (h : d.prepare cpus r = .error why) (cancelled : Bool) :
    d.run cancelled r = (d, .error why) := by
  unfold prepare at h
  unfold run
  cases hfiles : d.patches r.dir r.pattern with
  | error why =>
    rw [hfiles] at h
    cases h
    rfl
  | ok files =>
    rw [hfiles] at h
    cases hlinter : Linter.ofOptions r.lint with
    | error why =>
      rw [hlinter] at h
      cases h
      rfl
    | ok linter =>
      rw [hlinter] at h
      cases h

/-- What a schedule gives in a run that could be prepared. -/
theorem runUnder_eq_some {ms : List Move} {out : Disk × Except RunError Summary}
    (hprepare : d.prepare cpus r = .ok (b, start)) (h : d.runUnder cpus r ms = some out) :
    ∃ p, b.follow start ms = some p ∧ p.ended = true ∧ out = (p.disk, p.answer r.dir) := by
  unfold runUnder at h
  rw [hprepare] at h
  simp only at h
  split at h
  · cases h
  · rename_i p hfollow
    split_ifs at h with hended
    exact ⟨p, hfollow, hended, (Option.some.inj h).symm⟩

/-- A run whose patches cannot be found does nothing. -/
theorem runUnder_of_discover_error {why : DiscoverError} (h : d.patches r.dir r.pattern = .error why)
    (ms : List Move) : d.runUnder cpus r ms = some (d, .error (.discover why)) := by
  unfold runUnder prepare
  rw [h]

/-- A run with an unknown check does nothing. -/
theorem runUnder_of_unknown_check {files : List Bytes} {why : UnknownCheck}
    (hfiles : d.patches r.dir r.pattern = .ok files) (h : Linter.ofOptions r.lint = .error why)
    (ms : List Move) : d.runUnder cpus r ms = some (d, .error (.unknownCheck why)) := by
  unfold runUnder prepare
  rw [hfiles]
  simp only [h]

/-- A run that is cancelled beforehand does nothing. -/
theorem runUnder_cancelled {ms : List Move} {out : Disk × Except RunError Summary}
    (h : d.runUnder cpus r (.cancel :: ms) = some out) : out.1 = d ∧ out = d.run true r := by
  cases hprepare : d.prepare cpus r with
  | error why =>
    rw [run_of_prepare_error hprepare]
    unfold runUnder at h
    rw [hprepare] at h
    cases h
    exact ⟨rfl, rfl⟩
  | ok prepared =>
    obtain ⟨b, start⟩ := prepared
    obtain ⟨p, hfollow, hended, rfl⟩ := runUnder_eq_some hprepare h
    obtain ⟨files, linter, hfiles, hlinter, rfl, rfl⟩ := prepare_eq_ok hprepare
    have hidle : Batch.Idle d ⟨d, files.map fun path => { path }, true⟩ := by
      refine ⟨rfl, rfl, fun w hw => ?_⟩
      obtain ⟨path, -, rfl⟩ := List.mem_map.mp hw
      exact .inl rfl
    have hsome : (files.map fun path => ({ path } : Worker)) ≠ [] := by
      simpa using patches_ne_nil hfiles
    obtain ⟨hdisk, hanswer⟩ := hidle.answer hsome hfollow hended r.dir
    refine ⟨hdisk, ?_⟩
    unfold run
    rw [hfiles]
    simp only [hlinter, if_true]
    rw [hdisk, hanswer]

/-- A run has a summary only if it finds patches and knows all checks. -/
theorem exists_of_run_eq_ok {summary : Summary} (h : (d.run false r).2 = .ok summary) :
    ∃ files linter, d.patches r.dir r.pattern = .ok files ∧ Linter.ofOptions r.lint = .ok linter := by
  unfold run at h
  split at h
  · cases h
  · rename_i files hfiles
    split at h
    · cases h
    · rename_i linter hlinter
      exact ⟨files, linter, hfiles, hlinter⟩

section Stored

variable (hstore : ∀ s, r.store = some s → Visit.Consistent ⟨d, r, false⟩ s)
  (hspares : ∀ s, r.store = some s → ∀ path, Visit.Finds ⟨d, r, false⟩ path → s.Spares d path)

include hstore hspares

section Prepared

variable {files : List Bytes} {linter : Linter} (hfiles : d.patches r.dir r.pattern = .ok files)
  (hlinter : Linter.ofOptions r.lint = .ok linter)

include hfiles hlinter

/-- The workers of a run find what they should on all its disks. -/
theorem exists_guarded :
    ∃ ok, Batch.Guarded ⟨linter, r.store, r.limit cpus files.length⟩ d files ok := by
  cases hs : r.store with
  | none => exact ⟨_, Batch.guarded_of_no_store rfl d files⟩
  | some s =>
    have hconsistent := hstore s hs
    refine ⟨_, Batch.guarded_of_sound rfl hconsistent.separated hconsistent.sound ?_ ?_⟩
    · exact fun path hpath => hspares s hs path ⟨files, hfiles, hpath⟩
    · intro path hpath doc hload
      exact ⟨Linter.options_of_ofOptions hlinter, path, ⟨files, hfiles, hpath⟩, hload⟩

/-- What the workers know holds after every schedule. -/
theorem exists_right {ms : List Move} {p : Progress}
    (hfollow : Batch.follow ⟨linter, r.store, r.limit cpus files.length⟩
      ⟨d, files.map fun path => { path }, false⟩ ms = some p) :
    ∃ ok, Batch.Right ⟨linter, r.store, r.limit cpus files.length⟩ d files ok p := by
  obtain ⟨ok, hguard⟩ := exists_guarded hstore hspares hfiles hlinter
  refine ⟨ok, hguard.follow ⟨hguard.before, ?_, ?_⟩ hfollow⟩
  · rw [List.map_map]
    exact List.map_id files
  · intro w hw
    obtain ⟨path, -, rfl⟩ := List.mem_map.mp hw
    trivial

/-- The reports of the run that checks one patch after the other. -/
theorem run_reports :
    (d.run false r).2 = .ok ⟨r.dir, files.map fun path => linter.reportOf path (d.loadPatch path)⟩ := by
  have hreports : (linter.lintFiles r.store d files).2 =
      files.map fun path => linter.reportOf path (d.loadPatch path) := by
    cases hs : r.store with
    | none => rw [Linter.lintFiles_none]
    | some s =>
      have hconsistent := hstore s hs
      refine (Linter.lintFiles_sound hconsistent.separated linter ?_ hconsistent.sound .refl).1
      intro path hpath
      refine ⟨hspares s hs path ⟨files, hfiles, hpath⟩, fun doc hload => ?_⟩
      exact ⟨Linter.options_of_ofOptions hlinter, path, ⟨files, hfiles, hpath⟩, hload⟩
  unfold run
  rw [hfiles]
  simp only [hlinter, Bool.false_eq_true, if_false]
  rw [hreports]

end Prepared

/-- Every answer of a run under a schedule. -/
theorem runUnder_answer {ms : List Move} {out : Disk × Except RunError Summary}
    (h : d.runUnder cpus r ms = some out) :
    out.2 = .error .cancelled ∧ Move.cancel ∈ ms ∨ out.2 = (d.run false r).2 := by
  cases hprepare : d.prepare cpus r with
  | error why =>
    rw [run_of_prepare_error hprepare]
    unfold runUnder at h
    rw [hprepare] at h
    exact .inr (congrArg Prod.snd (Option.some.inj h).symm)
  | ok prepared =>
    obtain ⟨b, start⟩ := prepared
    obtain ⟨p, hfollow, hended, rfl⟩ := runUnder_eq_some hprepare h
    obtain ⟨files, linter, hfiles, hlinter, rfl, rfl⟩ := prepare_eq_ok hprepare
    obtain ⟨ok, hright⟩ := exists_right hstore hspares hfiles hlinter hfollow
    rcases hright.answer hended r.dir with ⟨hfailed, hanswer⟩ | ⟨-, hanswer⟩
    · refine .inl ⟨hanswer, ?_⟩
      by_contra hms
      have hcancelled := Batch.follow_cancelled hms hfollow
      rw [hright.cancelled_of_failed hfailed] at hcancelled
      cases hcancelled
    · exact .inr (hanswer.trans (run_reports hstore hspares hfiles hlinter).symm)

/-- The summary of a run under a schedule has the report of each patch at its place. -/
theorem runUnder_summary {ms : List Move} {out : Disk × Except RunError Summary} {summary : Summary}
    (h : d.runUnder cpus r ms = some out) (hsummary : out.2 = .ok summary) :
    ∃ files linter, d.patches r.dir r.pattern = .ok files ∧ Linter.ofOptions r.lint = .ok linter ∧
      summary = ⟨r.dir, files.map fun path => linter.reportOf path (d.loadPatch path)⟩ := by
  rcases runUnder_answer hstore hspares h with ⟨hcancelled, -⟩ | hanswer
  · rw [hsummary] at hcancelled
    cases hcancelled
  · rw [hsummary] at hanswer
    obtain ⟨files, linter, hfiles, hlinter⟩ := exists_of_run_eq_ok hanswer.symm
    rw [run_reports hstore hspares hfiles hlinter] at hanswer
    exact ⟨files, linter, hfiles, hlinter, Except.ok.inj hanswer⟩

/-- Every run goes on until all its workers have ended, with room for one of them at least, and has
then failed or filled all slots. -/
theorem prepare_follow (hcpus : 1 ≤ cpus) (hprepare : d.prepare cpus r = .ok (b, start)) :
    1 ≤ b.limit ∧ b.limit = r.limit cpus start.workers.length ∧
      ∀ ms p, b.follow start ms = some p →
        p.active ≤ b.limit ∧ ms.length ≤ 7 * start.workers.length + 1 ∧
        (∃ more p', Move.cancel ∉ more ∧ b.follow p more = some p' ∧ p'.ended = true) ∧
        (p.ended = true → p.failed = false →
          ∀ w ∈ p.workers, w.slot = some (b.linter.reportOf w.path (d.loadPatch w.path))) := by
  obtain ⟨files, linter, hfiles, hlinter, rfl, rfl⟩ := prepare_eq_ok hprepare
  have hlength : 1 ≤ files.length := List.length_pos_iff.mpr (patches_ne_nil hfiles)
  have hlimit : 1 ≤ r.limit cpus files.length := r.one_le_limit hcpus hlength
  refine ⟨hlimit, by simp, fun ms p hfollow => ⟨?_, ?_, ?_, ?_⟩⟩
  · refine Batch.follow_active ?_ hfollow
    have hnone : Progress.active ⟨d, files.map fun path => { path }, false⟩ = 0 := by
      rw [Progress.active, List.countP_eq_zero]
      intro w hw
      obtain ⟨path, -, rfl⟩ := List.mem_map.mp hw
      exact Bool.false_ne_true
    omega
  · have hleft := Batch.follow_length hfollow
    have hfirst : Progress.left ⟨d, files.map fun path => { path }, false⟩ = 7 * files.length + 1 := by
      rw [Progress.left, Batch.allLeft_waiting]
      rfl
    simp only [List.length_map]
    omega
  · exact Batch.exists_ended hlimit p
  · intro hended hfailed w hw
    obtain ⟨ok, hright⟩ := exists_right hstore hspares hfiles hlinter hfollow
    exact hright.slots hended hfailed hw

end Stored

end Disk

/-- **Every schedule gives the answer of the run that checks one patch after the other, or cancels the
run as a whole.**  Without a store, or with one that is consistent for the run and whose reports do
not change what is read at the paths of the patches:

* at least one worker may be busy, never more than the limit are; no schedule goes on for ever and
  each can be brought to its end, where no slot is left unfilled unless a worker failed;
* the answer is that of the sequential run, or that the run was cancelled, if it was;
* a summary has, for each patch, the report that depends on nothing but what is read at its path,
  with a single issue if it cannot be read;
* a run that finds no patches, has an unknown check or is cancelled beforehand leaves the disk as it
  is. -/
theorem scheduled_run_answers_as_sequential_run (d : Disk) (cpus : Nat) (r : RunRequest)
    (hcpus : 1 ≤ cpus) (hstore : ∀ s, r.store = some s → Visit.Consistent ⟨d, r, false⟩ s)
    (hspares : ∀ s, r.store = some s → ∀ path, Visit.Finds ⟨d, r, false⟩ path → s.Spares d path) :
    (∀ b start, d.prepare cpus r = .ok (b, start) →
      1 ≤ b.limit ∧ b.limit = r.limit cpus start.workers.length ∧
      ∀ ms p, b.follow start ms = some p →
        p.active ≤ b.limit ∧ ms.length ≤ 7 * start.workers.length + 1 ∧
        (∃ more p', Move.cancel ∉ more ∧ b.follow p more = some p' ∧ p'.ended = true) ∧
        (p.ended = true → p.failed = false →
          ∀ w ∈ p.workers, w.slot = some (b.linter.reportOf w.path (d.loadPatch w.path)))) ∧
    (∀ ms out, d.runUnder cpus r ms = some out →
      out.2 = .error .cancelled ∧ Move.cancel ∈ ms ∨ out.2 = (d.run false r).2) ∧
    (∀ ms out summary, d.runUnder cpus r ms = some out → out.2 = .ok summary →
      ∃ files linter, d.patches r.dir r.pattern = .ok files ∧
        Linter.ofOptions r.lint = .ok linter ∧ summary.reports.length = files.length ∧
        ∀ (i : Nat) path, files[i]? = some path →
          ∃ report, summary.reports[i]? = some report ∧
            report = linter.reportOf path (d.loadPatch path) ∧
            ∀ why, d.loadPatch path = .error why →
              ∃ issue, report.issues = [issue] ∧ issue.kind = .unreadable) ∧
    (∀ why, d.patches r.dir r.pattern = .error why →
      ∀ ms, d.runUnder cpus r ms = some (d, .error (.discover why))) ∧
    (∀ files why, d.patches r.dir r.pattern = .ok files → Linter.ofOptions r.lint = .error why →
      ∀ ms, d.runUnder cpus r ms = some (d, .error (.unknownCheck why))) ∧
    ∀ ms out, d.runUnder cpus r (.cancel :: ms) = some out → out.1 = d ∧ out = d.run true r := by
  refine ⟨fun b start => Disk.prepare_follow hstore hspares hcpus,
    fun ms out => Disk.runUnder_answer hstore hspares, ?_,
    fun why => Disk.runUnder_of_discover_error, fun files why => Disk.runUnder_of_unknown_check,
    fun ms out => Disk.runUnder_cancelled⟩
  intro ms out summary h hsummary
  obtain ⟨files, linter, hfiles, hlinter, rfl⟩ := Disk.runUnder_summary hstore hspares h hsummary
  refine ⟨files, linter, hfiles, hlinter, by simp, fun i path hpath => ?_⟩
  refine ⟨linter.reportOf path (d.loadPatch path), by simp [hpath], rfl, fun why hload => ?_⟩
  rw [hload]
  exact ⟨_, rfl, rfl⟩

/-! ### Two workers that race for a key -/

/-- A run over two patches with the same name and text, and so with the same key. -/
def racingVisit : Visit where
  disk := ⟨[(["p"], .folder), (["p", "q"], .folder), (["p", "q", "a.patch"], .file "x"),
    (["p", "r"], .folder), (["p", "r", "a.patch"], .file "x")], []⟩
  request := { dir := "p", pattern := "*/a.patch", jobs := 2, store := some smallStore }

/-- Both workers look for the report before one of them stores it. -/
def racingSchedule : List Move :=
  [.launch, .launch] ++ [0, 1, 0, 1, 0, 1, 0, 1, 0, 1, 1, 0].map fun i => .advance i {}

theorem racingVisit_patches :
    racingVisit.disk.patches "p" "*/a.patch" = .ok ["p/q/a.patch", "p/r/a.patch"] := by
  decide +kernel

theorem racingVisit_noFolder : smallStore.NoFolder racingVisit.disk := by
  have hstuck : racingVisit.disk.walk true smallStore.reportsPath = .stuck .missing := by decide
  exact .of_stuck hstuck

theorem racingVisit_finds {path : Bytes} (h : racingVisit.Finds path) :
    path = "p/q/a.patch" ∨ path = "p/r/a.patch" := by
  obtain ⟨files, hfiles, hpath⟩ := h
  obtain rfl := Except.ok.inj (racingVisit_patches.symm.trans hfiles)
  simpa using hpath

theorem racingVisit_reads {doc : Document} (h : racingVisit.Reads doc) :
    doc.name = Bytes.ofString "a.patch" ∧ doc.text = Bytes.ofString "x" := by
  obtain ⟨path, hfinds, hload⟩ := h
  rcases racingVisit_finds hfinds with rfl | rfl
  · have hfirst : racingVisit.disk.loadPatch "p/q/a.patch" = .ok ⟨"p/q/a.patch", "x"⟩ := by
      decide +kernel
    obtain rfl := Except.ok.inj (hfirst.symm.trans hload)
    exact ⟨by decide, rfl⟩
  · have hsecond : racingVisit.disk.loadPatch "p/r/a.patch" = .ok ⟨"p/r/a.patch", "x"⟩ := by
      decide +kernel
    obtain rfl := Except.ok.inj (hsecond.symm.trans hload)
    exact ⟨by decide, rfl⟩

theorem racingVisit_tree : racingVisit.disk.IsTree := Disk.isTree_of_entries (by decide)

theorem racingVisit_consistent : racingVisit.Consistent smallStore := by
  refine ⟨racingVisit_tree, racingVisit_noFolder.noLinks, ?_, ?_, ?_⟩
  · intro doc stored _ hholds
    exact absurd hholds (racingVisit_noFolder.holds _ stored)
  · rintro doc doc' hdoc hdoc' -
    obtain ⟨hname, htext⟩ := racingVisit_reads hdoc
    obtain ⟨hname', htext'⟩ := racingVisit_reads hdoc'
    rw [hname, htext, hname', htext']
  · intro doc hdoc
    obtain ⟨-, htext⟩ := racingVisit_reads hdoc
    refine ⟨?_, by decide⟩
    rw [htext]
    decide

theorem racingVisit_spares {path : Bytes} (h : racingVisit.Finds path) :
    smallStore.Spares racingVisit.disk path := by
  have hfile : ∃ p : Place, racingVisit.disk.walk true path = .arrived p ∧
      racingVisit.disk.entry? p = some (.file "x") := by
    rcases racingVisit_finds h with rfl | rfl
    · exact ⟨["p", "q", "a.patch"], by decide, by decide⟩
    · exact ⟨["p", "r", "a.patch"], by decide, by decide⟩
  obtain ⟨p, hwalk, hentry⟩ := hfile
  exact racingVisit_noFolder.spares racingVisit_tree hwalk hentry

/-- The schedule can be followed to its end, and gives the answer of the sequential run. -/
theorem scheduled_run_answers_as_sequential_run_racing :
    ∃ out, racingVisit.disk.runUnder 1 racingVisit.request racingSchedule = some out ∧
      out.2 = (racingVisit.disk.run false racingVisit.request).2 := by
  obtain ⟨-, hanswer, -⟩ := scheduled_run_answers_as_sequential_run racingVisit.disk 1
    racingVisit.request (by decide)
    (fun s hs => by
      obtain rfl := Option.some.inj hs
      exact racingVisit_consistent)
    (fun s hs path hpath => by
      obtain rfl := Option.some.inj hs
      exact racingVisit_spares hpath)
  have hends : (racingVisit.disk.runUnder 1 racingVisit.request racingSchedule).isSome = true := by
    decide +kernel
  obtain ⟨out, hout⟩ := Option.isSome_iff_exists.mp hends
  refine ⟨out, hout, ?_⟩
  rcases hanswer racingSchedule out hout with ⟨-, hcancel⟩ | hsame
  · simp [racingSchedule] at hcancel
  · exact hsame

/-! ### A patch that leads into the shared store -/

/-- The second worker reads its patch before the first one stores a report. -/
def earlySchedule : List Move :=
  [.launch, .launch] ++ [1, 1, 0, 0, 0, 0, 0, 0, 1].map fun i => .advance i {}

/-- The request of a run over a directory with a link to the folder that the store will make. -/
def linkedRequest : RunRequest := { linkedVisit.request with jobs := 2, store := some smallStore }

/-- It is not enough that the store is consistent: with a link to its folder the order of the workers
decides what is read through the link. -/
theorem scheduled_run_differs_through_link :
    Visit.Consistent ⟨linkedVisit.disk, linkedRequest, false⟩ smallStore ∧
      ∃ early sequential,
        (linkedVisit.disk.runUnder 1 linkedRequest earlySchedule).map Prod.snd = some (.ok early) ∧
        (linkedVisit.disk.run false linkedRequest).2 = .ok sequential ∧ early ≠ sequential := by
  refine ⟨⟨Disk.isTree_of_entries (by decide), linkedVisit_noFolder.noLinks, ?_, ?_, ?_⟩, ?_⟩
  · intro doc stored _ hholds
    exact absurd hholds (linkedVisit_noFolder.holds _ stored)
  · rintro doc doc' hdoc hdoc' -
    obtain rfl := linkedVisit_reads hdoc
    obtain rfl := linkedVisit_reads hdoc'
    rfl
  · intro doc hdoc
    obtain rfl := linkedVisit_reads hdoc
    exact smallDocument_storable
  · exact ⟨⟨"p", [({} : LintOptions).report smallDocument, .unreadable "p/b.patch" "b.patch"
        "reading p/b.patch: open p/b.patch: no such file or directory"]⟩,
      ⟨"p", [({} : LintOptions).report smallDocument, .unreadable "p/b.patch" "b.patch"
        "reading p/b.patch: read p/b.patch: is a directory"]⟩,
      by decide +kernel, by decide +kernel, by decide +kernel⟩

end PatchAudit
