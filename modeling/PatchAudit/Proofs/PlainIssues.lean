import PatchAudit.Proofs.ScheduledRun
import PatchAudit.Proofs.SessionReplies

/-!
# Issues that name their kind

An issue is plain if it has one of the four known kinds, names no other check than its kind, and has
a line that is not negative.  The checks and the report of a file that cannot be read give plain
issues only.  What comes out of a store is plain if the store was filled by storing reports
(`Store.Filled`), which is all that a run or a session ever does to it.  So every summary is plain,
and the store is left as one that was filled that way (`Use.plain`).
-/

namespace PatchAudit

/-! ### Where issues come from -/

structure Issue.Plain (i : Issue) : Prop where
  kind : i.kind ∈ [IssueKind.unreadable, .shape, .braces, .branding]
  check : i.check = [] ∨ i.check = i.kind.word
  line : 0 ≤ i.line

/-- The kind of the issues that a check finds. -/
def Check.kind : Check → IssueKind
  | shape => .shape
  | braces => .braces
  | branding => .branding

theorem Check.plain_issue (c : Check) (line : Nat) (message : Bytes) (severity : Severity) :
    Issue.Plain ⟨c.name, c.kind, line, message, severity⟩ := by
  have hkind : c.kind ∈ [IssueKind.unreadable, .shape, .braces, .branding] := by cases c <;> decide
  have hname : c.name = c.kind.word := by cases c <;> decide
  exact ⟨hkind, .inr hname, Int.natCast_nonneg line⟩

def FileReport.Plain (r : FileReport) : Prop := ∀ i ∈ r.issues, i.Plain

theorem LintOptions.plain_report (o : LintOptions) (d : Document) : (o.report d).Plain := by
  intro i hi
  obtain ⟨c, hfound⟩ := finds_of_mem_report hi
  cases hfound with
  | unmet => exact Check.shape.plain_issue 0 _ .warning
  | @unmatched l => exact Check.braces.plain_issue l.number _ .warning
  | unclosed => exact Check.braces.plain_issue 0 _ .warning
  | @offending l => exact Check.branding.plain_issue l.number _ .warning

theorem FileReport.plain_unreadable (path name why : Bytes) : (unreadable path name why).Plain := by
  intro i hi
  obtain rfl := List.mem_singleton.mp hi
  exact ⟨List.mem_cons_self, .inl rfl, Int.le_refl 0⟩

/-! ### Stores that reports were put into -/

namespace Store

/-- The disks on which all that a store holds was put there as the report of a patch.  It was empty
at first, and between two reports everything may happen that leaves its entries alone, loses them or
spoils them. -/
inductive Filled (s : Store) : Disk → Prop where
  | fresh {d : Disk} (htree : d.IsTree) (hlinks : s.NoLinks d) (hempty : s.IsEmpty d) : Filled s d
  | put {d : Disk} (h : Filled s d) {o : LintOptions} {doc : Document} (hsize : o.Storable doc)
      (fails : PutStep → Bool) :
      Filled s (s.putWith fails d (StoreKey.of doc.name doc.text o) (o.report doc)).1
  | edit {d d' : Disk} (h : Filled s d) (hedit : s.Edited d d') : Filled s d'

/-- Whatever can be read from such a store is the stored form of some patch's report. -/
theorem Filled.contents {s : Store} {d : Disk} (h : s.Filled d) :
    d.IsTree ∧ s.NoLinks d ∧ ∀ {key stored}, s.Holds d key stored →
      ∃ (o : LintOptions) (doc : Document), o.Storable doc ∧
        stored = StoredReport.ofReport (o.report doc) := by
  induction h with
  | fresh htree hlinks hempty =>
    refine ⟨htree, hlinks, ?_⟩
    rintro key stored ⟨data, hdata, -⟩
    exact absurd hdata (hempty key data)
  | @put d _ o doc hsize fails ih =>
    obtain ⟨htree, hlinks, hholds⟩ := ih
    have heffect := putWith_effect fails htree hlinks (StoreKey.of doc.name doc.text o) (o.report doc)
    refine ⟨heffect.tree, heffect.noLinks, ?_⟩
    rintro key stored ⟨data, hdata, hdecode, hversion⟩
    rcases heffect.reads hdata with hbefore | ⟨-, rfl⟩
    · exact hholds ⟨data, hbefore, hdecode, hversion⟩
    · refine ⟨o, doc, hsize, ?_⟩
      rcases (LintOptions.report_storable hsize).decode with hback | hnone
      · exact Option.some.inj (hdecode.symm.trans hback)
      · rw [hnone] at hdecode
        cases hdecode
  | edit _ hedit ih =>
    obtain ⟨-, -, hholds⟩ := ih
    exact ⟨hedit.tree, hedit.noLinks, fun h => hholds (hedit.holds h)⟩

theorem Filled.get_plain {s : Store} {d : Disk} (h : s.Filled d) {key : StoreKey} {path name : Bytes}
    {found : FileReport} (hget : s.get d key { path, name } = .ok (some found)) : found.Plain := by
  obtain ⟨-, -, hholds⟩ := h.contents
  obtain ⟨stored, hstored, rfl⟩ := get_eq_some hget
  obtain ⟨o, doc, hsize, rfl⟩ := hholds hstored
  intro i hi
  have hissues : ((StoredReport.ofReport (o.report doc)).issues.map StoredIssue.toIssue) =
      (o.report doc).issues :=
    congrArg FileReport.issues (LintOptions.report_storable hsize).into
  exact o.plain_report doc i (hissues ▸ hi)

end Store

/-- A disk on which the store of a run, if it has one, was filled with reports. -/
def Disk.Ready (d : Disk) (store : Option Store) : Prop := ∀ s, store = some s → s.Filled d

/-! ### Runs that check one patch after the other -/

namespace Linter

/-- The patches that are read at paths, each when its turn comes. -/
def documents (l : Linter) (store : Option Store) (d : Disk) : List Bytes → List Document
  | [] => []
  | path :: rest =>
    (d.loadPatch path).toOption.toList ++ documents l store (l.lintFile store d path).1 rest

variable (l : Linter) {store : Option Store} {d : Disk}

theorem lintWith_plain (h : d.Ready store) {doc : Document}
    (hsize : ∀ s, store = some s → l.options.Storable doc) :
    (l.lintWith store d doc).2.Plain ∧ (l.lintWith store d doc).1.Ready store := by
  cases store with
  | none => exact ⟨l.options.plain_report doc, h⟩
  | some s =>
    unfold lintWith
    simp only
    split
    · rename_i found hget
      exact ⟨(h s rfl).get_plain hget, h⟩
    · refine ⟨l.options.plain_report doc, ?_⟩
      intro s' hs'
      obtain rfl := Option.some.inj hs'
      exact (h s rfl).put (hsize s rfl) _

theorem lintFile_plain (h : d.Ready store) (path : Bytes)
    (hsize : ∀ s, store = some s → ∀ doc, d.loadPatch path = .ok doc → l.options.Storable doc) :
    (l.lintFile store d path).2.Plain ∧ (l.lintFile store d path).1.Ready store := by
  unfold lintFile
  cases hload : d.loadPatch path with
  | error why => exact ⟨FileReport.plain_unreadable _ _ _, h⟩
  | ok doc => exact l.lintWith_plain h fun s hs => hsize s hs doc hload

theorem lintFiles_plain {paths : List Bytes} (h : d.Ready store)
    (hsize : ∀ s, store = some s → ∀ doc ∈ l.documents store d paths, l.options.Storable doc) :
    (∀ r ∈ (l.lintFiles store d paths).2, r.Plain) ∧ (l.lintFiles store d paths).1.Ready store := by
  induction paths generalizing d with
  | nil => exact ⟨fun r hr => absurd hr List.not_mem_nil, h⟩
  | cons path rest ih =>
    obtain ⟨hreport, hready⟩ := l.lintFile_plain h path fun s hs doc hload =>
      hsize s hs doc (List.mem_append_left _ (by simp [hload, Except.toOption]))
    obtain ⟨hreports, hready'⟩ := ih hready fun s hs doc hdoc =>
      hsize s hs doc (List.mem_append_right _ hdoc)
    rw [lintFiles_cons]
    refine ⟨?_, hready'⟩
    intro r hr
    rcases List.mem_cons.mp hr with rfl | hr
    · exact hreport
    · exact hreports r hr

end Linter

namespace Disk

variable {d : Disk} {r : RunRequest}

/-- The patches that a run reads. -/
def documents (d : Disk) (cancelled : Bool) (r : RunRequest) : List Document :=
  match d.patches r.dir r.pattern, Linter.ofOptions r.lint with
  | .ok files, .ok linter => if cancelled then [] else linter.documents r.store d files
  | _, _ => []

theorem run_plain {cancelled : Bool} (h : d.Ready r.store)
    (hsize : ∀ s, r.store = some s → ∀ doc ∈ d.documents cancelled r, r.lint.Storable doc) :
    (∀ summary, (d.run cancelled r).2 = .ok summary → ∀ report ∈ summary.reports, report.Plain) ∧
      (d.run cancelled r).1.Ready r.store := by
  unfold run
  unfold documents at hsize
  cases hfiles : d.patches r.dir r.pattern with
  | error why => exact ⟨fun _ => nofun, h⟩
  | ok files =>
    rw [hfiles] at hsize
    cases hlinter : Linter.ofOptions r.lint with
    | error why => exact ⟨fun _ => nofun, h⟩
    | ok linter =>
      rw [hlinter, ← Linter.options_of_ofOptions hlinter] at hsize
      cases cancelled with
      | true => exact ⟨fun _ => nofun, h⟩
      | false =>
        obtain ⟨hreports, hready⟩ := linter.lintFiles_plain h hsize
        refine ⟨?_, hready⟩
        rintro _ ⟨⟩
        exact hreports

end Disk

/-! ### Runs under a schedule -/

/-- The patch that a worker has read and has no report of yet. -/
def WorkStage.document? : WorkStage → Option Document
  | looking doc => some doc
  | checking doc => some doc
  | storing doc _ => some doc
  | _ => none

/-- A worker that has plain reports only. -/
def Worker.Plain (l : Linter) (w : Worker) : Prop :=
  match w.stage with
  | .storing doc report => report = l.lint doc
  | .writing report => report.Plain
  | .finished => ∀ report, w.slot = some report → report.Plain
  | _ => True

namespace Batch

/-- The patches that workers read on a schedule. -/
def documents (b : Batch) (p : Progress) : List Move → List Document
  | [] => []
  | m :: rest =>
    match b.move? p m with
    | none => []
    | some q => (q.workers.filterMap fun w => w.stage.document?) ++ documents b q rest

/-- What holds between any two moves: the store was filled with reports, each worker has plain
reports only, and the patches that were read can be stored. -/
structure Plain (b : Batch) (p : Progress) : Prop where
  disk : p.disk.Ready b.store
  workers : ∀ w ∈ p.workers, w.Plain b.linter
  sizes : ∀ s, b.store = some s → ∀ w ∈ p.workers, ∀ doc, w.stage.document? = some doc →
    b.linter.options.Storable doc

variable {b : Batch} {d d' : Disk}

theorem find?_plain {t : Trouble} {doc : Document} {found : FileReport} (hd : d.Ready b.store)
    (h : b.find? t d doc = some found) : found.Plain := by
  unfold find? at h
  split at h
  · cases h
  · rename_i s hs
    split_ifs at h
    split at h
    · rename_i hget
      exact (hd s hs).get_plain (h ▸ hget)
    · cases h

/-- One step of a worker. -/
theorem Steps.plain {t : Trouble} {halted : Bool} {w w' : Worker} (hd : d.Ready b.store)
    (hw : w.Plain b.linter)
    (hsize : ∀ s, b.store = some s → ∀ doc, w.stage.document? = some doc →
      b.linter.options.Storable doc)
    (h : b.Steps t halted d w d' w') : d'.Ready b.store ∧ w'.Plain b.linter := by
  unfold Worker.Plain at hw
  cases h with
  | check hstage =>
    refine ⟨hd, ?_⟩
    cases halted <;> trivial
  | refuse hstage hload => exact ⟨hd, FileReport.plain_unreadable _ _ _⟩
  | load hstage hload => exact ⟨hd, trivial⟩
  | find hstage hfind => exact ⟨hd, find?_plain hd hfind⟩
  | miss hstage hfind => exact ⟨hd, trivial⟩
  | lint hstage => exact ⟨hd, rfl⟩
  | @keep doc report hstage =>
    rw [hstage] at hw hsize
    obtain rfl := hw
    refine ⟨?_, b.linter.options.plain_report doc⟩
    intro s hs
    rw [Batch.keep, hs]
    exact (hd s hs).put (hsize s hs doc rfl) t.put
  | write hstage =>
    rw [hstage] at hw
    refine ⟨hd, ?_⟩
    rintro _ ⟨⟩
    exact hw

/-- One move of a run. -/
theorem Plain.move {p p' : Progress} {m : Move} (hp : b.Plain p) (h : b.move? p m = some p')
    (hsize : ∀ s, b.store = some s → ∀ w ∈ p'.workers, ∀ doc, w.stage.document? = some doc →
      b.linter.options.Storable doc) : b.Plain p' := by
  obtain ⟨-, -, rfl⟩ | ⟨-, i, w, hw, -, -, rfl⟩ | ⟨i, t, w, d', w', -, hw, hsteps, rfl⟩ :=
    move_cases h
  · exact ⟨hp.disk, hp.workers, hsize⟩
  · refine ⟨hp.disk, fun x hx => ?_, hsize⟩
    rcases List.mem_or_eq_of_mem_set hx with hx | rfl
    · exact hp.workers x hx
    · trivial
  · have hmem := List.mem_of_getElem? hw
    obtain ⟨hdisk, hplain⟩ := hsteps.plain hp.disk (hp.workers w hmem) fun s hs =>
      hp.sizes s hs w hmem
    refine ⟨hdisk, fun x hx => ?_, hsize⟩
    rcases List.mem_or_eq_of_mem_set hx with hx | rfl
    · exact hp.workers x hx
    · exact hplain

/-- All moves of a schedule. -/
theorem Plain.follow {p p' : Progress} {ms : List Move} (hp : b.Plain p)
    (h : b.follow p ms = some p')
    (hsize : ∀ s, b.store = some s → ∀ doc ∈ b.documents p ms, b.linter.options.Storable doc) :
    b.Plain p' := by
  induction ms generalizing p with
  | nil =>
    cases h
    exact hp
  | cons m rest ih =>
    obtain ⟨q, hfirst, hrest⟩ := follow_cons.mp h
    rw [documents, hfirst] at hsize
    refine ih (hp.move hfirst ?_) hrest fun s hs doc hdoc =>
      hsize s hs doc (List.mem_append_right _ hdoc)
    intro s hs w hw doc hdoc
    exact hsize s hs doc (List.mem_append_left _ (List.mem_filterMap.mpr ⟨w, hw, hdoc⟩))

/-- The reports of a run that has ended. -/
theorem Plain.answer {p : Progress} (hp : b.Plain p) (hended : p.ended = true) {dir : Bytes}
    {summary : Summary} (h : p.answer dir = .ok summary) : ∀ report ∈ summary.reports, report.Plain := by
  unfold Progress.answer at h
  split_ifs at h with hfailed
  cases h
  intro report hreport
  obtain ⟨w, hw, rfl⟩ := List.mem_map.mp hreport
  have hplain := hp.workers w hw
  have hend := List.all_eq_true.mp hended w hw
  have hgoes : ¬ w.stage.isStopped = true := fun hstopped =>
    hfailed (List.any_eq_true.mpr ⟨w, hw, hstopped⟩)
  unfold Worker.Plain at hplain
  cases hstage : w.stage with
  | finished =>
    rw [hstage] at hplain
    cases hslot : w.slot with
    | none => exact fun i hi => absurd hi List.not_mem_nil
    | some report => exact hplain report hslot
  | stopped => exact absurd (hstage ▸ rfl) hgoes
  | _ =>
    rw [hstage] at hend
    cases hend

end Batch

namespace Disk

variable {d : Disk} {r : RunRequest}

/-- The patches that a run under a schedule reads. -/
def documentsUnder (d : Disk) (cpus : Nat) (r : RunRequest) (ms : List Move) : List Document :=
  match d.prepare cpus r with
  | .error _ => []
  | .ok (b, start) => b.documents start ms

theorem runUnder_plain {cpus : Nat} {ms : List Move} {out : Disk × Except RunError Summary}
    (h : d.Ready r.store)
    (hsize : ∀ s, r.store = some s → ∀ doc ∈ d.documentsUnder cpus r ms, r.lint.Storable doc)
    (hout : d.runUnder cpus r ms = some out) :
    (∀ summary, out.2 = .ok summary → ∀ report ∈ summary.reports, report.Plain) ∧
      out.1.Ready r.store := by
  unfold runUnder at hout
  unfold documentsUnder at hsize
  cases hprepare : d.prepare cpus r with
  | error why =>
    rw [hprepare] at hout
    cases hout
    exact ⟨fun _ => nofun, h⟩
  | ok ready =>
    obtain ⟨b, start⟩ := ready
    obtain ⟨files, linter, -, hlinter, rfl, rfl⟩ := prepare_eq_ok hprepare
    rw [hprepare] at hout hsize
    simp only at hout hsize
    rw [← Linter.options_of_ofOptions hlinter] at hsize
    split at hout
    · cases hout
    · rename_i p hfollow
      split_ifs at hout with hended
      cases hout
      have hstart : ∀ w ∈ files.map fun path => ({ path } : Worker), w.stage = .waiting := by
        intro w hw
        obtain ⟨path, -, rfl⟩ := List.mem_map.mp hw
        rfl
      have hfirst : Batch.Plain ⟨linter, r.store, r.limit cpus files.length⟩
          ⟨d, files.map fun path => { path }, false⟩ := by
        refine ⟨h, fun w hw => ?_, fun s hs w hw doc hdoc => ?_⟩
        · rw [Worker.Plain, hstart w hw]
          trivial
        · rw [hstart w hw] at hdoc
          cases hdoc
      have hlast := hfirst.follow hfollow hsize
      exact ⟨fun summary hsummary => hlast.answer hended hsummary, hlast.disk⟩

end Disk

/-! ### Sessions -/

namespace Service

/-- What a run on behalf of a client is asked to do. -/
def runRequest (s : Service) (q : FolderRequest) : RunRequest where
  dir := q.dir
  pattern := if q.pattern.isEmpty then s.pattern else q.pattern
  jobs := s.jobs
  lint := s.linter.options
  store := s.store

theorem run_of_dir (s : Service) (d : Disk) (cancelled : Bool) {q : FolderRequest}
    (h : q.dir.isEmpty = false) :
    s.run d cancelled q = ((d.run cancelled (s.runRequest q)).1,
      (d.run cancelled (s.runRequest q)).2.mapError .run) := by
  unfold run
  rw [if_neg (by simp [h])]
  rfl

/-- The patches that are read from the disk to answer messages. -/
def documents (s : Service) (d : Disk) (session : Session) : List Bytes → List Document
  | [] => []
  | message :: rest =>
    let here := match ClientMessage.ofText message with
      | .ok (.run q) => if q.dir.isEmpty then [] else d.documents false (s.runRequest q)
      | _ => []
    here ++ documents s (s.reply d session message).1 (s.reply d session message).2.1 rest

end Service

/-- The summary that an answer brings. -/
def Reply.summary? : Reply → Option Summary
  | summary s => some s
  | _ => none

namespace Service

variable (s : Service) {d : Disk} {session : Session}

theorem lint_plain {q : LintRequest} {report : FileReport} (h : s.lint q = .ok report) :
    report.Plain := by
  unfold lint at h
  by_cases hpatch : q.patch.isEmpty = true
  · rw [if_pos hpatch] at h
    cases h
  · rw [if_neg hpatch] at h
    cases h
    exact s.linter.options.plain_report _

/-- One message: the reports of the session stay plain, and so is a summary that is sent out. -/
theorem reply_plain {message : Bytes} {rest : List Bytes} (h : d.Ready s.store)
    (hsession : ∀ report ∈ session.reports, report.Plain)
    (hsize : ∀ store, s.store = some store → ∀ doc ∈ s.documents d session (message :: rest),
      s.linter.options.Storable doc) :
    (s.reply d session message).1.Ready s.store ∧
      (∀ report ∈ (s.reply d session message).2.1.reports, report.Plain) ∧
      ∀ summary, (s.reply d session message).2.2.summary? = some summary →
        ∀ report ∈ summary.reports, report.Plain := by
  rw [documents] at hsize
  unfold reply
  cases hm : ClientMessage.ofText message with
  | error why => exact ⟨h, hsession, fun _ hnone => by cases hnone⟩
  | ok command =>
    cases command with
    | finish =>
      refine ⟨h, (fun _ hnone => by cases hnone), ?_⟩
      rintro _ ⟨⟩
      exact hsession
    | lint q =>
      simp only [perform]
      cases hq : s.lint q with
      | error why => exact ⟨h, hsession, fun _ hnone => by cases hnone⟩
      | ok report =>
        refine ⟨h, ?_, fun _ hnone => by cases hnone⟩
        intro r hr
        rcases List.mem_append.mp hr with hr | hr
        · exact hsession r hr
        · obtain rfl := List.mem_singleton.mp hr
          exact s.lint_plain hq
    | run q =>
      simp only [perform]
      by_cases hdir : q.dir.isEmpty = true
      · rw [Service.run, if_pos hdir]
        exact ⟨h, hsession, fun _ hnone => by cases hnone⟩
      · rw [hm] at hsize
        simp only [hdir] at hsize
        obtain ⟨hplain, hready⟩ := Disk.run_plain (d := d) (r := s.runRequest q) h
          fun store hstore doc hdoc => hsize store hstore doc (List.mem_append_left _ hdoc)
        rw [s.run_of_dir d false (by simpa using hdir)]
        cases hrun : (d.run false (s.runRequest q)).2 with
        | error why => exact ⟨hready, hsession, fun _ hnone => by cases hnone⟩
        | ok summary =>
          refine ⟨hready, hsession, ?_⟩
          rintro _ ⟨⟩
          exact hplain summary hrun

/-- All messages of a session. -/
theorem replies_plain {messages : List Bytes} (h : d.Ready s.store)
    (hsession : ∀ report ∈ session.reports, report.Plain)
    (hsize : ∀ store, s.store = some store → ∀ doc ∈ s.documents d session messages,
      s.linter.options.Storable doc) :
    (∀ summary ∈ (s.replies d session messages).2.filterMap Reply.summary?,
      ∀ report ∈ summary.reports, report.Plain) ∧
      (s.replies d session messages).1.Ready s.store := by
  induction messages generalizing d session with
  | nil => exact ⟨fun _ => nofun, h⟩
  | cons message rest ih =>
    obtain ⟨hready, hreports, hsummary⟩ := s.reply_plain h hsession hsize
    obtain ⟨hsummaries, hready'⟩ := ih hready hreports fun store hstore doc hdoc =>
      hsize store hstore doc (List.mem_append_right _ hdoc)
    refine ⟨?_, hready'⟩
    intro summary hmem
    obtain ⟨answer, hanswer, hsome⟩ := List.mem_filterMap.mp hmem
    rw [replies_cons] at hanswer
    rcases List.mem_cons.mp hanswer with rfl | hanswer
    · exact hsummary summary hsome
    · exact hsummaries summary (List.mem_filterMap.mpr ⟨answer, hanswer, hsome⟩)

end Service

/-! ### All that gives summaries -/

/-- A run, one patch after the other or under a schedule, or a session. -/
inductive Use where
  | run (request : RunRequest) (cancelled : Bool)
  | schedule (request : RunRequest) (cpus : Nat) (moves : List Move)
  | session (service : Service) (messages : List Bytes)

namespace Use

def store : Use → Option Store
  | run request _ => request.store
  | schedule request _ _ => request.store
  | session service _ => service.store

def options : Use → LintOptions
  | run request _ => request.lint
  | schedule request _ _ => request.lint
  | session service _ => service.linter.options

/-- The patches that are read from the disk, each when its turn comes. -/
def documents (d : Disk) : Use → List Document
  | run request cancelled => d.documents cancelled request
  | schedule request cpus moves => d.documentsUnder cpus request moves
  | session service messages => service.documents d {} messages

/-- The disk afterwards and the summaries that come out.  A schedule that cannot be followed to the
end of the run gives none. -/
def perform (d : Disk) : Use → Disk × List Summary
  | run request cancelled =>
    let (d', answer) := d.run cancelled request
    (d', answer.toOption.toList)
  | schedule request cpus moves =>
    match d.runUnder cpus request moves with
    | none => (d, [])
    | some (d', answer) => (d', answer.toOption.toList)
  | session service messages =>
    let (d', answers) := service.replies d {} messages
    (d', answers.filterMap Reply.summary?)

/-- A use of a disk on which its store, if it has one, was filled with reports, and all patches that
are read can be stored. -/
structure Sound (u : Use) (d : Disk) : Prop where
  ready : d.Ready u.store
  sizes : ∀ s, u.store = some s → ∀ doc ∈ u.documents d, u.options.Storable doc

theorem mem_toList_toOption {α ε : Type} {x : Except ε α} {a : α} (h : a ∈ x.toOption.toList) :
    x = .ok a := by
  cases x <;> simp_all [Except.toOption]

/-- **Every summary is plain**, and the store can be used again. -/
theorem plain {u : Use} {d : Disk} (h : u.Sound d) :
    (∀ summary ∈ (u.perform d).2, ∀ report ∈ summary.reports, report.Plain) ∧
      (u.perform d).1.Ready u.store := by
  cases u with
  | run request cancelled =>
    obtain ⟨hplain, hready⟩ := Disk.run_plain h.ready h.sizes
    exact ⟨fun summary hsummary => hplain summary (mem_toList_toOption hsummary), hready⟩
  | schedule request cpus moves =>
    cases hout : d.runUnder cpus request moves with
    | none =>
      simp only [perform, hout]
      exact ⟨fun _ => nofun, h.ready⟩
    | some out =>
      obtain ⟨hplain, hready⟩ := Disk.runUnder_plain h.ready h.sizes hout
      simp only [perform, hout]
      exact ⟨fun summary hsummary => hplain summary (mem_toList_toOption hsummary), hready⟩
  | session service messages => exact service.replies_plain h.ready (fun _ => nofun) h.sizes

end Use

end PatchAudit
