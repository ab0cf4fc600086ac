import PatchAudit.Proofs.ReportKey
import PatchAudit.Proofs.ReportSize
import PatchAudit.Proofs.StorePut
import PatchAudit.Run.Basic

/-!
# Stores that hold the right reports

A store is sound for a set of occasions, each a patch that is checked under some options, if all
that it can give back for one of them is the report of checking it.  Storing the report of an
occasion keeps a store sound, whatever became of the entries before (`Sound.put`), and a sound store
only ever gives the report that checking would give (`Sound.get`).
-/

namespace PatchAudit

/-- The patches that are checked, each with the options that it is checked under. -/
abbrev Occasions := LintOptions → Document → Prop

/-- The occasions that a store can tell apart: their reports can be stored, and two of them with the
same key have the same stored report. -/
structure Occasions.Separated (P : Occasions) : Prop where
  storable : ∀ {o d}, P o d → o.Storable d
  report : ∀ {o d o' d'}, P o d → P o' d' →
    StoreKey.of d.name d.text o = StoreKey.of d'.name d'.text o' →
    StoredReport.ofReport (o.report d) = StoredReport.ofReport (o'.report d')

/-- Occasions without zero bytes are told apart if the digest does not collide on them. -/
theorem Occasions.separated_of_clear {P : Occasions} (hstorable : ∀ o d, P o d → o.Storable d)
    (hclear : ∀ o d, P o d → o.Clear ∧ d.Clear)
    (hdigest : ∀ o d o' d', P o d → P o' d' →
      Sha256.digest (StoreKey.preimage d.name d.text o) =
        Sha256.digest (StoreKey.preimage d'.name d'.text o') →
      StoreKey.preimage d.name d.text o = StoreKey.preimage d'.name d'.text o') :
    P.Separated := by
  refine ⟨hstorable _ _, fun {o d o' d'} h h' hkey => ?_⟩
  have hpreimage := hdigest o d o' d' h h' (StoreKey.mk.inj hkey)
  obtain ⟨ho, hd⟩ := hclear o d h
  obtain ⟨ho', hd'⟩ := hclear o' d' h'
  obtain ⟨hname, htext, hbranding, hmarks, henabled⟩ :=
    StoreKey.preimage_injective hd hd' ho ho' hpreimage
  exact LintOptions.ofReport_congr hname htext hbranding hmarks henabled

namespace Store

/-- A report of the present version can be read under a key. -/
def Holds (s : Store) (d : Disk) (key : StoreKey) (stored : StoredReport) : Prop :=
  ∃ data, d.fileData (s.entryPath key) = .ok data ∧ StoredReport.decode? data = some stored ∧
    stored.version = storeVersion

theorem NoFolder.holds {s : Store} {d : Disk} (h : s.NoFolder d) (key : StoreKey)
    (stored : StoredReport) : ¬ s.Holds d key stored := by
  rintro ⟨data, hdata, -⟩
  exact h.fileData key data hdata

/-- A disk on which all reports that can be read for the occasions are right. -/
structure Sound (s : Store) (P : Occasions) (d : Disk) : Prop where
  tree : d.IsTree
  noLinks : s.NoLinks d
  holds : ∀ {o doc stored}, P o doc → s.Holds d (StoreKey.of doc.name doc.text o) stored →
    stored = StoredReport.ofReport (o.report doc)

/-- A store gives back what it holds. -/
theorem get_eq_some {s : Store} {d : Disk} {key : StoreKey} {r found : FileReport}
    (h : s.get d key r = .ok (some found)) :
    ∃ stored, s.Holds d key stored ∧ found = stored.into r := by
  unfold get at h
  cases hdata : d.fileData (s.entryPath key) with
  | error why =>
    rw [hdata] at h
    simp only at h
    split_ifs at h
    cases h
  | ok data =>
    rw [hdata] at h
    simp only at h
    cases hdecode : StoredReport.decode? data with
    | none => rw [hdecode] at h; cases h
    | some stored =>
      rw [hdecode] at h
      simp only at h
      split_ifs at h with hversion
      · cases h
        exact ⟨stored, ⟨data, hdata, hdecode, hversion⟩, rfl⟩
      · cases h

/-- **A sound store gives the report that checking gives.** -/
theorem Sound.get {s : Store} {P : Occasions} {d : Disk} (h : s.Sound P d) (hP : P.Separated)
    {o : LintOptions} {doc : Document} (hdoc : P o doc) {found : FileReport}
    (hget : s.get d (StoreKey.of doc.name doc.text o) { path := doc.path, name := doc.name } =
      .ok (some found)) : found = o.report doc := by
  obtain ⟨stored, hholds, rfl⟩ := get_eq_some hget
  rw [h.holds hdoc hholds]
  exact (LintOptions.report_storable (hP.storable hdoc)).into

/-- **Storing a right report keeps a store sound**, also if storing fails. -/
theorem Sound.put {s : Store} {P : Occasions} {d : Disk} (h : s.Sound P d) (hP : P.Separated)
    {o : LintOptions} {doc : Document} (hdoc : P o doc) (fails : PutStep → Bool) :
    s.Sound P (s.putWith fails d (StoreKey.of doc.name doc.text o) (o.report doc)).1 := by
  have heffect := putWith_effect fails h.tree h.noLinks
    (StoreKey.of doc.name doc.text o) (o.report doc)
  refine ⟨heffect.tree, heffect.noLinks, ?_⟩
  rintro o' doc' stored hdoc' ⟨data, hdata, hdecode, hversion⟩
  rcases heffect.reads hdata with hbefore | ⟨hkey, rfl⟩
  · exact h.holds hdoc' ⟨data, hbefore, hdecode, hversion⟩
  · rw [hP.report hdoc' hdoc hkey]
    rcases (LintOptions.report_storable (hP.storable hdoc)).decode with hback | hnone
    · rw [hback] at hdecode
      exact (Option.some.inj hdecode).symm
    · rw [hnone] at hdecode
      cases hdecode

/-! ### Patches that storing leaves alone -/

/-- The disks that storing reports, or failing to store them, can lead to. -/
inductive Writes (s : Store) (d : Disk) : Disk → Prop where
  | refl : Writes s d d
  | put {d' : Disk} (h : Writes s d d') (fails : PutStep → Bool) (key : StoreKey) (r : FileReport) :
      Writes s d (s.putWith fails d' key r).1

theorem Writes.trans {s : Store} {a b c : Disk} (hab : s.Writes a b) (hbc : s.Writes b c) :
    s.Writes a c := by
  induction hbc with
  | refl => exact hab
  | put _ fails key r ih => exact ih.put fails key r

/-- Storing reports does not change what is read from a path. -/
def Spares (s : Store) (d : Disk) (path : Bytes) : Prop :=
  ∀ d', s.Writes d d' → d'.loadPatch path = d.loadPatch path

/-- A file that is not in the folder of the reports is left alone. -/
theorem spares_of_file {s : Store} {d : Disk} (htree : d.IsTree) (hlinks : s.NoLinks d)
    {path data : Bytes} {p : Place} (hwalk : d.walk true path = .arrived p)
    (hfile : d.entry? p = some (.file data))
    (hout : ∀ r, d.walk true s.reportsPath = .arrived r → p.dropLast ≠ r) : s.Spares d path := by
  have hload : ∀ d' : Disk, d'.walk true path = .arrived p → d'.entry? p = some (.file data) →
      d'.loadPatch path = .ok (Document.ofText path data) := by
    intro d' hwalk hfile
    unfold Disk.loadPatch Disk.fileData
    rw [Disk.stat_of_arrived hwalk hfile]
  -- the file stays where it is, outside the folder of the reports, after each report
  have hstays : ∀ d', s.Writes d d' → d'.IsTree ∧ s.NoLinks d' ∧ d'.walk true path = .arrived p ∧
      d'.entry? p = some (.file data) ∧
      ∀ r, d'.walk true s.reportsPath = .arrived r → p.dropLast ≠ r := by
    intro d' hwrites
    induction hwrites with
    | refl => exact ⟨htree, hlinks, hwalk, hfile, hout⟩
    | put hbefore fails key r ih =>
      obtain ⟨htree, hlinks, hwalk, hfile, hout⟩ := ih
      have heffect := putWith_effect fails htree hlinks key r
      refine ⟨heffect.tree, heffect.noLinks, heffect.keeps.walk_arrived hwalk, ?_, ?_⟩
      · rcases heffect.files hfile with hsame | ⟨q, hq, rfl⟩
        · exact hsame
        · exact absurd List.dropLast_concat (hout q hq)
      · intro q hq
        rcases heffect.folder hq with hq | hempty
        · exact hout q hq
        · rintro rfl
          have hp : p ≠ [] := by
            rintro rfl
            cases hfile
          have hnone := hempty (p.getLast hp) []
          rw [List.dropLast_append_getLast hp, hfile] at hnone
          cases hnone
  intro d' hwrites
  obtain ⟨-, -, hwalk', hfile', -⟩ := hstays d' hwrites
  rw [hload d' hwalk' hfile', hload d hwalk hfile]

theorem NoFolder.spares {s : Store} {d : Disk} (h : s.NoFolder d) (htree : d.IsTree)
    {path data : Bytes} {p : Place} (hwalk : d.walk true path = .arrived p)
    (hfile : d.entry? p = some (.file data)) : s.Spares d path :=
  spares_of_file htree h.noLinks hwalk hfile fun r hr => absurd hr (h r)

end Store

end PatchAudit
