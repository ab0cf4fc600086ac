import PatchAudit.Proofs.SoundRun

/-!
# Runs that share a store

A history is a sequence of runs with one store, where everything outside the store may change
between two runs and entries of the store may be lost or spoiled.  The store makes no difference to
what the runs answer (`stored_runs_answer_as_plain_runs`), as long as no patch is read through the
store's own folder.
-/

namespace PatchAudit

/-! ### Histories -/

/-- What may happen to a disk between two runs: everything, but that the entries of the store are
kept, lost or replaced by bytes that are no report of the present version, and are no links. -/
structure Store.Edited (s : Store) (d d' : Disk) : Prop where
  tree : d'.IsTree
  noLinks : s.NoLinks d'
  entries : ∀ {key data}, d'.fileData (s.entryPath key) = .ok data →
    d.fileData (s.entryPath key) = .ok data ∨
      ∀ stored, StoredReport.decode? data = some stored → stored.version ≠ storeVersion

theorem Store.Edited.holds {s : Store} {d d' : Disk} (h : s.Edited d d') {key : StoreKey}
    {stored : StoredReport} (hholds : s.Holds d' key stored) : s.Holds d key stored := by
  obtain ⟨data, hdata, hdecode, hversion⟩ := hholds
  rcases h.entries hdata with hbefore | hspoiled
  · exact ⟨data, hbefore, hdecode, hversion⟩
  · exact absurd hversion (hspoiled stored hdecode)

/-- Runs one after the other that share a store, from a disk on. -/
inductive History (s : Store) : Disk → List Visit → Prop where
  | nil (d : Disk) : History s d []
  | cons {d : Disk} {v : Visit} {rest : List Visit} (hedit : s.Edited d v.disk)
      (hrest : History s (v.stored s).1 rest) : History s d (v :: rest)

/-- The patches that the runs of a history read, under the options of these runs. -/
def occasionsOf (vs : List Visit) : Occasions := fun o doc => ∃ v ∈ vs, v.Reads doc ∧ v.request.lint = o

theorem History.sound {s : Store} {P : Occasions} (hP : P.Separated) {d : Disk} {vs : List Visit}
    (h : History s d vs)
    (hholds : ∀ {o doc stored}, P o doc → s.Holds d (StoreKey.of doc.name doc.text o) stored →
      stored = StoredReport.ofReport (o.report doc))
    (hspares : ∀ v ∈ vs, ∀ path, v.Finds path → s.Spares v.disk path)
    (hreads : ∀ v ∈ vs, ∀ doc, v.Reads doc → P v.request.lint doc) :
    ∀ v ∈ vs, (v.stored s).2 = v.plain.2 := by
  induction h with
  | nil d => intro v hv; cases hv
  | @cons d v rest hedit hrest ih =>
    have hsound : s.Sound P v.disk :=
      ⟨hedit.tree, hedit.noLinks, fun hdoc h => hholds hdoc (hedit.holds h)⟩
    obtain ⟨hanswer, hsound'⟩ := Visit.stored_sound hP hsound
      (hspares v List.mem_cons_self) (hreads v List.mem_cons_self)
    intro w hw
    rcases List.mem_cons.mp hw with rfl | hw
    · exact hanswer
    · exact ih hsound'.holds (fun v hv => hspares v (List.mem_cons_of_mem _ hv))
        (fun v hv => hreads v (List.mem_cons_of_mem _ hv)) w hw

/-- No entry of a store can be read. -/
def Store.IsEmpty (s : Store) (d : Disk) : Prop := ∀ key data, d.fileData (s.entryPath key) ≠ .ok data

/-- **The store makes no difference.**  Every run of a history that starts with an empty store
answers as the same run without a store: for all edits between the runs and all options, if no part
of a key holds a zero byte, the digest does not collide on the keys that occur, reports are not too
large to be stored, and storing does not change what a path that a run looks at leads to. -/
theorem stored_runs_answer_as_plain_runs (s : Store) (d : Disk) (vs : List Visit)
    (hempty : s.IsEmpty d) (hhistory : History s d vs)
    (hclear : ∀ o doc, occasionsOf vs o doc → o.Clear ∧ doc.Clear)
    (hdigest : ∀ o doc o' doc', occasionsOf vs o doc → occasionsOf vs o' doc' →
      Sha256.digest (StoreKey.preimage doc.name doc.text o) =
        Sha256.digest (StoreKey.preimage doc'.name doc'.text o') →
      StoreKey.preimage doc.name doc.text o = StoreKey.preimage doc'.name doc'.text o')
    (hsize : ∀ o doc, occasionsOf vs o doc → o.Storable doc)
    (hspares : ∀ v ∈ vs, ∀ path, v.Finds path → s.Spares v.disk path) :
    ∀ v ∈ vs, (v.stored s).2 = v.plain.2 := by
  have hseparated := Occasions.separated_of_clear hsize hclear hdigest
  refine hhistory.sound hseparated ?_ hspares ?_
  · rintro o doc stored - ⟨data, hdata, -⟩
    exact absurd hdata (hempty _ data)
  · intro v hv doc hdoc
    exact ⟨v, hv, hdoc, rfl⟩

/-! ### A history of two runs -/

/-- A run that finds one patch. -/
structure Visit.Single (v : Visit) (path : Bytes) (doc : Document) : Prop where
  files : v.disk.patches v.request.dir v.request.pattern = .ok [path]
  load : v.disk.loadPatch path = .ok doc

theorem Visit.Single.finds {v : Visit} {path path' : Bytes} {doc : Document} (h : v.Single path doc)
    (hfinds : v.Finds path') : path' = path := by
  obtain ⟨files, hfiles, hpath⟩ := hfinds
  obtain rfl : [path] = files := Except.ok.inj (h.files.symm.trans hfiles)
  exact List.mem_singleton.mp hpath

theorem Visit.Single.reads {v : Visit} {path : Bytes} {doc doc' : Document} (h : v.Single path doc)
    (hreads : v.Reads doc') : doc' = doc := by
  obtain ⟨path', hfinds, hload⟩ := hreads
  rw [h.finds hfinds] at hload
  exact Except.ok.inj (hload.symm.trans h.load)

/-- A store below the directory `c`. -/
def smallStore : Store := ⟨"c"⟩

/-- A run over a directory with one patch. -/
def firstVisit : Visit where
  disk := ⟨[(["p"], .folder), (["p", "a.patch"], .file "x")], []⟩
  request := { dir := "p", pattern := "*.patch" }

/-- The same run once more, with what the first one stored. -/
def secondVisit : Visit where
  disk := (firstVisit.stored smallStore).1
  request := firstVisit.request

/-- The patch that both runs read. -/
def smallDocument : Document := ⟨"p/a.patch", "x"⟩

theorem firstVisit_single : firstVisit.Single "p/a.patch" smallDocument :=
  ⟨by decide +kernel, by decide +kernel⟩

/-- What the first run leaves on the disk, in one statement so that the run is evaluated once. -/
theorem secondVisit_places :
    secondVisit.disk.patches secondVisit.request.dir secondVisit.request.pattern =
        .ok ["p/a.patch"] ∧
      secondVisit.disk.loadPatch "p/a.patch" = .ok smallDocument ∧
      secondVisit.disk.walk true smallStore.reportsPath = .arrived ["c", "reports"] ∧
      secondVisit.disk.walk true "p/a.patch" = .arrived ["p", "a.patch"] ∧
      secondVisit.disk.entry? ["p", "a.patch"] = some (.file "x") := by
  decide +kernel

theorem secondVisit_single : secondVisit.Single "p/a.patch" smallDocument :=
  ⟨secondVisit_places.1, secondVisit_places.2.1⟩

theorem smallDocument_clear : ({} : LintOptions).Clear ∧ smallDocument.Clear :=
  ⟨⟨by decide, by decide, by decide, by decide, by decide⟩, ⟨by decide, by decide⟩⟩

theorem smallDocument_storable : ({} : LintOptions).Storable smallDocument :=
  ⟨by decide, by decide⟩

theorem firstVisit_noFolder : smallStore.NoFolder firstVisit.disk := by
  have hstuck : firstVisit.disk.walk true smallStore.reportsPath = .stuck .missing := by decide
  exact .of_stuck hstuck

theorem firstVisit_edited : smallStore.Edited firstVisit.disk firstVisit.disk :=
  ⟨Disk.isTree_of_entries (by decide), firstVisit_noFolder.noLinks, .inl⟩

theorem firstVisit_spares {path : Bytes} (h : firstVisit.Finds path) :
    smallStore.Spares firstVisit.disk path := by
  obtain rfl := firstVisit_single.finds h
  have hwalk : firstVisit.disk.walk true "p/a.patch" = .arrived ["p", "a.patch"] := by decide
  have hfile : firstVisit.disk.entry? ["p", "a.patch"] = some (.file "x") := by decide
  exact firstVisit_noFolder.spares firstVisit_edited.tree hwalk hfile

/-- What the first run leaves is still a tree, with no links among the entries of the store. -/
theorem secondVisit_edited : smallStore.Edited (firstVisit.stored smallStore).1 secondVisit.disk := by
  have hseparated : Occasions.Separated fun o doc => o = {} ∧ doc = smallDocument := by
    refine ⟨?_, ?_⟩
    · rintro o doc ⟨rfl, rfl⟩
      exact smallDocument_storable
    · rintro o doc o' doc' ⟨rfl, rfl⟩ ⟨rfl, rfl⟩ -
      rfl
  have hempty : smallStore.Sound (fun o doc => o = {} ∧ doc = smallDocument) firstVisit.disk := by
    refine ⟨firstVisit_edited.tree, firstVisit_edited.noLinks, ?_⟩
    intro o doc stored _ hholds
    exact absurd hholds (firstVisit_noFolder.holds _ stored)
  obtain ⟨-, hsound⟩ := Visit.stored_sound hseparated hempty (fun _ => firstVisit_spares)
    fun doc hdoc => ⟨rfl, firstVisit_single.reads hdoc⟩
  have hdisk : secondVisit.disk = (firstVisit.stored smallStore).1 := by rw [secondVisit]
  rw [hdisk]
  exact ⟨hsound.tree, hsound.noLinks, .inl⟩

theorem secondVisit_spares {path : Bytes} (h : secondVisit.Finds path) :
    smallStore.Spares secondVisit.disk path := by
  obtain rfl := secondVisit_single.finds h
  obtain ⟨-, -, hfolder, hwalk, hfile⟩ := secondVisit_places
  refine Store.spares_of_file secondVisit_edited.tree secondVisit_edited.noLinks hwalk hfile ?_
  intro r hr
  obtain rfl := Disk.Walk.arrived.inj (hfolder.symm.trans hr)
  decide

/-- The two runs, of which the second one finds its report in the store. -/
theorem stored_runs_answer_as_plain_runs_twice :
    (secondVisit.stored smallStore).2 = secondVisit.plain.2 ∧
      smallStore.get secondVisit.disk (StoreKey.of "a.patch" "x" {})
        { path := "p/a.patch", name := "a.patch" } =
          .ok (some (({} : LintOptions).report smallDocument)) := by
  have honly : ∀ {o doc}, occasionsOf [firstVisit, secondVisit] o doc →
      o = {} ∧ doc = smallDocument := by
    rintro o doc ⟨v, hv, hreads, rfl⟩
    simp only [List.mem_cons, List.not_mem_nil, or_false] at hv
    rcases hv with rfl | rfl
    · exact ⟨rfl, firstVisit_single.reads hreads⟩
    · exact ⟨rfl, secondVisit_single.reads hreads⟩
  have hanswers := stored_runs_answer_as_plain_runs smallStore firstVisit.disk
    [firstVisit, secondVisit] firstVisit_noFolder.fileData
    (.cons firstVisit_edited (.cons secondVisit_edited (.nil _)))
    (fun o doc h => by obtain ⟨rfl, rfl⟩ := honly h; exact smallDocument_clear)
    (fun o doc o' doc' h h' _ => by
      obtain ⟨rfl, rfl⟩ := honly h
      obtain ⟨rfl, rfl⟩ := honly h'
      rfl)
    (fun o doc h => by obtain ⟨rfl, rfl⟩ := honly h; exact smallDocument_storable)
    (fun v hv path h => by
      simp only [List.mem_cons, List.not_mem_nil, or_false] at hv
      rcases hv with rfl | rfl
      · exact firstVisit_spares h
      · exact secondVisit_spares h)
  exact ⟨hanswers secondVisit (by simp), by decide +kernel⟩

/-! ### A patch that leads into the store -/

/-- A run over a directory with a patch and a link to the folder that the store will make. -/
def linkedVisit : Visit where
  disk := ⟨[(["p"], .folder), (["p", "a.patch"], .file "x"),
    (["p", "b.patch"], .link "../c/reports")], []⟩
  request := { dir := "p", pattern := "*.patch" }

theorem linkedVisit_noFolder : smallStore.NoFolder linkedVisit.disk := by
  have hstuck : linkedVisit.disk.walk true smallStore.reportsPath = .stuck .missing := by decide
  exact .of_stuck hstuck

theorem linkedVisit_reads {doc : Document} (h : linkedVisit.Reads doc) : doc = smallDocument := by
  obtain ⟨path, ⟨files, hfiles, hpath⟩, hload⟩ := h
  have hboth : linkedVisit.disk.patches linkedVisit.request.dir linkedVisit.request.pattern =
      .ok ["p/a.patch", "p/b.patch"] := by decide +kernel
  obtain rfl := Except.ok.inj (hboth.symm.trans hfiles)
  simp only [List.mem_cons, List.not_mem_nil, or_false] at hpath
  rcases hpath with rfl | rfl
  · have hfirst : linkedVisit.disk.loadPatch "p/a.patch" = .ok smallDocument := by decide +kernel
    exact Except.ok.inj (hload.symm.trans hfirst)
  · have hsecond : linkedVisit.disk.loadPatch "p/b.patch" =
        .error ⟨⟨"open", "p/b.patch", .missing⟩⟩ := by decide +kernel
    rw [hsecond] at hload
    cases hload

/-- All other conditions hold of this run, but the link leads nowhere without the store and to a
folder once the first report is stored. -/
theorem stored_run_differs_through_link :
    smallStore.IsEmpty linkedVisit.disk ∧ History smallStore linkedVisit.disk [linkedVisit] ∧
      (∀ o doc, occasionsOf [linkedVisit] o doc → (o.Clear ∧ doc.Clear) ∧ o.Storable doc) ∧
      (∀ o doc o' doc', occasionsOf [linkedVisit] o doc → occasionsOf [linkedVisit] o' doc' →
        StoreKey.preimage doc.name doc.text o = StoreKey.preimage doc'.name doc'.text o') ∧
      (linkedVisit.stored smallStore).2 ≠ linkedVisit.plain.2 := by
  have honly : ∀ {o doc}, occasionsOf [linkedVisit] o doc → o = {} ∧ doc = smallDocument := by
    rintro o doc ⟨v, hv, hreads, rfl⟩
    obtain rfl := List.mem_singleton.mp hv
    exact ⟨rfl, linkedVisit_reads hreads⟩
  refine ⟨linkedVisit_noFolder.fileData, ?_, ?_, ?_, by decide +kernel⟩
  · exact .cons ⟨Disk.isTree_of_entries (by decide), linkedVisit_noFolder.noLinks, .inl⟩ (.nil _)
  · intro o doc h
    obtain ⟨rfl, rfl⟩ := honly h
    exact ⟨smallDocument_clear, smallDocument_storable⟩
  · intro o doc o' doc' h h'
    obtain ⟨rfl, rfl⟩ := honly h
    obtain ⟨rfl, rfl⟩ := honly h'
    rfl

end PatchAudit
