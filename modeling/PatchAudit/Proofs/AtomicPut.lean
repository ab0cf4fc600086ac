import Mathlib.Data.List.Basic
import PatchAudit.Proofs.SoundStore

/-!
# Storing is all or nothing

On any file tree, with links anywhere in it, and whichever steps of storing fail: the file of the key
then holds the whole report, or it is what it was, and nothing else in the folder of the reports
changes or is left there (`put_is_atomic`).  Links make the difference between what stands in that
folder and what a path leads to, so the two are told apart here: what can be read under a key
afterwards could be read before, or is the whole report.
-/

namespace PatchAudit

namespace Disk

/-- Where one place differs and holds a file, that file is all that can be read besides what could be
read before. -/
theorem AgreesOff.fileData_cases {d d' : Disk} {q : Place} {new path data : Bytes}
    (hoff : AgreesOff d d' q) (hfile : d'.entry? q = some (.file new))
    (h : d'.fileData path = .ok data) : d.fileData path = .ok data ∨ data = new := by
  obtain ⟨x, hwalk, hentry⟩ := fileData_eq_ok_iff.mp h
  by_cases hx : x = q
  · rw [hx, hfile] at hentry
    exact .inr (by simpa using hentry.symm)
  · rcases hoff.walk_cases hfile true path with hsame | hthere | ⟨why, hstuck⟩
    · exact .inl (fileData_eq_ok_iff.mpr ⟨x, hsame ▸ hwalk, (hoff.entry x hx) ▸ hentry⟩)
    · exact absurd (Walk.arrived.inj (hwalk.symm.trans hthere)) hx
    · rw [hstuck] at hwalk
      cases hwalk

/-- Where folders were added, all that could be read still can. -/
theorem AddsFolders.fileData {d d' : Disk} (h : AddsFolders d d') {path data : Bytes}
    (hdata : d.fileData path = .ok data) : d'.fileData path = .ok data := by
  obtain ⟨x, hwalk, hentry⟩ := fileData_eq_ok_iff.mp hdata
  exact fileData_eq_ok_iff.mpr ⟨x, h.keeps.walk_arrived hwalk, h.some_entry hentry⟩

end Disk

namespace Store

/-! ### The folder of the reports -/

/-- If the path of the reports leads to a folder, then that one is used. -/
theorem makeFolders_of_folderAt {s : Store} {d : Disk} {p : Place}
    (hat : d.FolderAt s.reportsPath p) : d.makeFolders s.reportsPath = (d, .ok ()) := by
  rw [Disk.makeFolders, Disk.makeFoldersWith, Disk.stat_of_arrived hat.arrives hat.folder]

namespace Readied

variable {s : Store} {d ready : Disk} {p : Place} (h : s.Readied d ready p)

include h

/-- Nothing was where nothing is below the folder. -/
theorem nothingBelow (hempty : ready.NothingBelow p) : d.NothingBelow p :=
  fun name rest => h.adds.none_entry (hempty name rest)

/-- Making the folder ready changes nothing below it. -/
theorem entry_below (name : Bytes) (rest : List Bytes) :
    ready.entry? (p ++ name :: rest) = d.entry? (p ++ name :: rest) := by
  rcases h.old with rfl | hempty
  · rfl
  · rw [hempty name rest, h.nothingBelow hempty name rest]

theorem folder_cases (hmake : d.makeFolders s.reportsPath = (ready, .ok ())) :
    d.FolderAt s.reportsPath p ∨
      (∀ q, ¬ d.FolderAt s.reportsPath q) ∧ d.NothingBelow p := by
  rcases h.old with rfl | hempty
  · exact .inl h.folderAt
  · by_cases hthere : ∃ q, d.FolderAt s.reportsPath q
    · obtain ⟨q, hat⟩ := hthere
      obtain rfl : d = ready :=
        (Prod.mk.inj ((makeFolders_of_folderAt hat).symm.trans hmake)).1
      exact .inl h.folderAt
    · exact .inr ⟨fun q hat => hthere ⟨q, hat⟩, h.nothingBelow hempty⟩

end Readied

/-- Nothing can be read from a folder without entries. -/
theorem fileData_of_nothingBelow {s : Store} {d : Disk} {p : Place} {key : StoreKey} {data : Bytes}
    (hat : d.FolderAt s.reportsPath p) (hempty : d.NothingBelow p) :
    d.fileData (s.entryPath key) ≠ .ok data := by
  rw [entryPath_eq, ne_eq, Disk.fileData_eq_ok_iff]
  rintro ⟨x, hwalk, -⟩
  have hnone := hempty key.fileName []
  by_cases hfits : s.Fits key.fileName
  · rw [walk_name hat key.fileName_isName hfits true (by simp [hnone]), if_pos hnone] at hwalk
    cases hwalk
  · obtain ⟨why, hstuck⟩ := walk_name_stuck hat key.fileName_isName hfits true
    rw [hstuck] at hwalk
    cases hwalk

/-- What can be read in the folder made ready could be read before. -/
theorem Readied.fileData {s : Store} {d ready : Disk} {p : Place} (h : s.Readied d ready p)
    {key : StoreKey} {data : Bytes} (hdata : ready.fileData (s.entryPath key) = .ok data) :
    d.fileData (s.entryPath key) = .ok data := by
  rcases h.old with rfl | hempty
  · exact hdata
  · exact absurd hdata (fileData_of_nothingBelow h.folderAt hempty)

/-! ### All or nothing -/

/-- What storing did with the folder of the reports at `p`. -/
structure PutsAt (fails : PutStep → Bool) (s : Store) (d : Disk) (p : Place) (key : StoreKey)
    (r : FileReport) (out : Disk × Except StoreError Unit) : Prop where
  workDir : out.1.workDir = d.workDir
  /-- The path of the reports leads to that folder, or the folder is new and nothing was there. -/
  folder : d.FolderAt s.reportsPath p ∨ (∀ q, ¬ d.FolderAt s.reportsPath q) ∧ d.NothingBelow p
  /-- The file of the key holds the whole report, or it is as before. -/
  entry : (out.2 = .ok () ∧
      Disk.entry? out.1 (p ++ [key.fileName]) = some (.file (StoredReport.ofReport r).encode)) ∨
    ((∃ why, out.2 = .error why) ∧
      Disk.entry? out.1 (p ++ [key.fileName]) = d.entry? (p ++ [key.fileName]))
  /-- All else in the folder is as before: other files, and no temporary file is left. -/
  inside : ∀ name rest, name :: rest ≠ [key.fileName] →
    Disk.entry? out.1 (p ++ name :: rest) = d.entry? (p ++ name :: rest)
  /-- Elsewhere at most folders are new. -/
  outside : ∀ x, x ≠ p ++ [key.fileName] → Disk.entry? out.1 x = d.entry? x ∨
    d.entry? x = none ∧ Disk.entry? out.1 x = some .folder
  /-- Storing succeeds exactly if no step fails, the names fit and no folder is in the way. -/
  ok_iff : ∃ n, d.entry? (p ++ [tempName n]) = none ∧
    (out.2 = .ok () ↔ s.Unhindered fails d p n key)
  /-- What was stored is found again, if it did not take the place of a link. -/
  found : out.2 = .ok () → (∀ target, d.entry? (p ++ [key.fileName]) ≠ some (.link target)) →
    out.1.fileData (s.entryPath key) = .ok (StoredReport.ofReport r).encode

/-- The folder is the one that the path of the reports leads to, if there is one. -/
theorem PutsAt.place_eq {fails : PutStep → Bool} {s : Store} {d : Disk} {p q : Place}
    {key : StoreKey} {r : FileReport} {out : Disk × Except StoreError Unit}
    (h : s.PutsAt fails d p key r out) (hat : d.FolderAt s.reportsPath q) : p = q := by
  rcases h.folder with hthere | ⟨hnone, -⟩
  · exact Disk.Walk.arrived.inj (hthere.arrives.symm.trans hat.arrives)
  · exact absurd hat (hnone q)

theorem Unhindered.congr {fails : PutStep → Bool} {s : Store} {d d' : Disk} {p : Place} {n : Nat}
    {key : StoreKey} (h : d'.entry? (p ++ [key.fileName]) = d.entry? (p ++ [key.fileName])) :
    s.Unhindered fails d' p n key ↔ s.Unhindered fails d p n key := by
  constructor
  · rintro ⟨hsteps, htemp, hname, hplace⟩
    exact ⟨hsteps, htemp, hname, h ▸ hplace⟩
  · rintro ⟨hsteps, htemp, hname, hplace⟩
    exact ⟨hsteps, htemp, hname, h ▸ hplace⟩

theorem Settles.found {s : Store} {d : Disk} {p : Place} {key : StoreKey} {r : FileReport}
    {out : Disk × Except StoreError Unit} (h : s.Settles d p key r out)
    (hat : d.FolderAt s.reportsPath p) (hfits : s.Fits key.fileName) (hok : out.2 = .ok ())
    (hlink : ∀ target, d.entry? (p ++ [key.fileName]) ≠ some (.link target)) :
    out.1.fileData (s.entryPath key) = .ok (StoredReport.ofReport r).encode := by
  rcases h.done with ⟨-, -, hnew⟩ | ⟨⟨why, hwhy⟩, -⟩
  · have hat' := hat.of_keeps (h.keeps hlink)
    rw [entryPath_eq, Disk.fileData_eq_ok_iff]
    refine ⟨p ++ [key.fileName], ?_, hnew⟩
    rw [walk_name hat' key.fileName_isName hfits true (by simp [hnew]), if_neg (by simp [hnew])]
  · rw [hok] at hwhy
    cases hwhy

theorem Ends.putsAt {fails : PutStep → Bool} {s : Store} {d ready : Disk} {p : Place} {n : Nat}
    {key : StoreKey} {r : FileReport} {out : Disk × Except StoreError Unit}
    (hmake : d.makeFolders s.reportsPath = (ready, .ok ())) (hready : s.Readied d ready p)
    (hfree : ready.entry? (p ++ [tempName n]) = none)
    (h : s.Ends ready p key r (s.Unhindered fails ready p n key) out) :
    s.PutsAt fails d p key r out where
  workDir := h.off.workDir.trans hready.adds.workDir
  folder := hready.folder_cases hmake
  entry := by
    rw [← hready.entry_below key.fileName []]
    exact h.done.imp_left fun ⟨hok, _, hnew⟩ => ⟨hok, hnew⟩
  inside := fun name rest hne => by
    rw [h.off.entry _ (by simpa using hne), hready.entry_below]
  outside := fun x hx => by
    rw [h.off.entry x hx]
    exact hready.adds.entry x
  ok_iff := ⟨n, (hready.entry_below _ []).symm.trans hfree,
    h.ok_iff.trans (Unhindered.congr (hready.entry_below _ []))⟩
  found := fun hok hlink => by
    rw [← hready.entry_below key.fileName []] at hlink
    exact h.toSettles.found hready.folderAt (h.ok_iff.mp hok).name hok hlink

/-! ### What can be read afterwards -/

/-- What can be read under a key could be read before, or is the whole report. -/
theorem putWith_reads (fails : PutStep → Bool) {s : Store} {d : Disk} (htree : d.IsTree)
    (key : StoreKey) (r : FileReport) {other : StoreKey} {data : Bytes}
    (hdata : (s.putWith fails d key r).1.fileData (s.entryPath other) = .ok data) :
    d.fileData (s.entryPath other) = .ok data ∨
      (s.putWith fails d key r).2 = .ok () ∧ data = (StoredReport.ofReport r).encode := by
  rcases putWith_spec fails s htree key r with ⟨-, why, hput⟩ | ⟨unready, why, -, hunready, hput⟩ |
    ⟨ready, p, n, -, hready, -, hends⟩
  · rw [hput] at hdata
    exact .inl hdata
  · rw [hput] at hdata
    obtain ⟨p, hat⟩ := folderAt_of_fileData hdata
    exact absurd hat (hunready.noFolder p)
  · rcases hends.done with ⟨hok, -, hnew⟩ | ⟨-, hsame⟩
    · rcases hends.off.fileData_cases hnew hdata with hold | hwhole
      · exact .inl (hready.fileData hold)
      · exact .inr ⟨hok, hwhole⟩
    · obtain ⟨hwork, hentry⟩ := hends.alike hsame
      have hback := Disk.AddsFolders.of_alike ⟨hwork.symm, fun x => (hentry x).symm⟩
      exact .inl (hready.fileData (hback.fileData hdata))

/-- If storing fails, then all that could be read still can. -/
theorem fileData_of_failed {fails : PutStep → Bool} {s : Store} {d : Disk} (htree : d.IsTree)
    {key : StoreKey} {r : FileReport} {why : StoreError}
    (hwhy : (s.putWith fails d key r).2 = .error why) {path data : Bytes}
    (hdata : d.fileData path = .ok data) :
    (s.putWith fails d key r).1.fileData path = .ok data := by
  rcases putWith_spec fails s htree key r with ⟨-, _, hput⟩ | ⟨unready, _, -, hunready, hput⟩ |
    ⟨ready, p, n, -, hready, -, hends⟩
  · rw [hput]
    exact hdata
  · rw [hput]
    exact hunready.adds.fileData hdata
  · rcases hends.done with ⟨hok, -⟩ | ⟨-, hsame⟩
    · rw [hok] at hwhy
      cases hwhy
    · exact (hready.adds.trans (.of_alike (hends.alike hsame))).fileData hdata

theorem get_of_holds {s : Store} {d : Disk} {key : StoreKey} {stored : StoredReport}
    (h : s.Holds d key stored) (target : FileReport) :
    s.get d key target = .ok (some (stored.into target)) := by
  obtain ⟨data, hdata, hdecode, hversion⟩ := h
  unfold get
  rw [hdata]
  simp only [hdecode, hversion, if_true]

end Store

open Store in
/-- **Storing is all or nothing**, on any file tree and whichever steps fail.  If the folder of the
reports cannot be made, then the disk is as before, but for folders that were made above it, and
there is no entry for any key; else storing puts the whole report in its place or fails, and all
else stays.  So the file that is read for a key could be read before or is the whole report that was
stored, and so is what is found under the key; and if storing fails, then all that could be read
still can. -/
theorem put_is_atomic (fails : PutStep → Bool) (s : Store) {d : Disk} (htree : d.IsTree)
    (key : StoreKey) (r : FileReport) :
    let out := s.putWith fails d key r
    let whole := (StoredReport.ofReport r).encode
    (fails .makeFolder = true ∧ (∃ why, out = (d, .error why)) ∨
        (∃ d' why, d.makeFolders s.reportsPath = (d', .error why) ∧ s.Unready d d' ∧
          out = (d', .error (.disk why))) ∨
        ∃ p, s.PutsAt fails d p key r out) ∧
      (∀ other data, out.1.fileData (s.entryPath other) = .ok data →
        d.fileData (s.entryPath other) = .ok data ∨ out.2 = .ok () ∧ data = whole) ∧
      (∀ other target found, s.get out.1 other target = .ok (some found) →
        s.get d other target = .ok (some found) ∨ out.2 = .ok () ∧
          ∃ stored, StoredReport.decode? whole = some stored ∧ found = stored.into target) ∧
      ∀ why, out.2 = .error why → ∀ path data, d.fileData path = .ok data →
        out.1.fileData path = .ok data := by
  intro out whole
  refine ⟨?_, fun other data => putWith_reads fails htree key r, fun other target found hfound => ?_,
    fun why hwhy path data => fileData_of_failed htree hwhy⟩
  · rcases putWith_spec fails s htree key r with
      hnone | hunready | ⟨ready, p, n, hmake, hready, hfree, hends⟩
    · exact .inl hnone
    · exact .inr (.inl hunready)
    · exact .inr (.inr ⟨p, hends.putsAt hmake hready hfree⟩)
  · obtain ⟨stored, ⟨data, hdata, hdecode, hversion⟩, rfl⟩ := get_eq_some hfound
    rcases putWith_reads fails htree key r hdata with hold | ⟨hok, rfl⟩
    · exact .inl (get_of_holds ⟨data, hold, hdecode, hversion⟩ target)
    · exact .inr ⟨hok, stored, hdecode, rfl⟩

/-- A store with the report of one key, and a folder where that of another should be. -/
def filledDisk : Disk :=
  ⟨[(["c"], .folder), (["c", "reports"], .folder), (["c", "reports", "01.mp"], .folder),
    (["c", "reports", "02.mp"], .file "x")], []⟩

theorem put_is_atomic_in_way :
    let s : Store := ⟨"c"⟩
    let r : FileReport := { path := "p/a", name := "a" }
    let blocked := s.putWith (fun _ => false) filledDisk ⟨[1]⟩ r
    let unclosed := s.putWith (· == .close) filledDisk ⟨[2]⟩ r
    (∃ why, blocked.2 = .error why) ∧
      Disk.entry? blocked.1 ["c", "reports", "01.mp"] = some .folder ∧
      (∃ why, unclosed.2 = .error why) ∧
      unclosed.1.fileData (s.entryPath ⟨[2]⟩) = .ok "x" ∧
      Disk.entry? unclosed.1 ["c", "reports", Store.tempName 0] = none := by
  intro s r blocked unclosed
  have htree : filledDisk.IsTree := Disk.isTree_of_entries (by decide)
  have hat : filledDisk.FolderAt s.reportsPath ["c", "reports"] := ⟨by decide +kernel, by decide⟩
  have hmake := Store.makeFolders_of_folderAt hat
  obtain ⟨hblocked, -, -⟩ := put_is_atomic (fun _ => false) s htree ⟨[1]⟩ r
  obtain ⟨hunclosed, -, -, hreads⟩ := put_is_atomic (· == .close) s htree ⟨[2]⟩ r
  rw [hmake] at hblocked hunclosed
  rcases hblocked with ⟨hno, -⟩ | ⟨_, _, hno, -⟩ | ⟨p, hblocked⟩
  · cases hno
  · cases hno
  rcases hunclosed with ⟨hno, -⟩ | ⟨_, _, hno, -⟩ | ⟨q, hunclosed⟩
  · cases hno
  · cases hno
  obtain rfl := hblocked.place_eq hat
  obtain rfl := hunclosed.place_eq hat
  obtain ⟨n, -, hok⟩ := hblocked.ok_iff
  obtain ⟨m, -, hok'⟩ := hunclosed.ok_iff
  have hfailed := hblocked.entry.resolve_left fun h => (hok.mp h.1).place (by decide)
  have hfailed' := hunclosed.entry.resolve_left fun h =>
    absurd ((hok'.mp h.1).steps .close) (by decide)
  have hgone := hunclosed.inside (Store.tempName 0) [] (by decide)
  obtain ⟨why, hwhy⟩ := hfailed'.1
  exact ⟨hfailed.1, hfailed.2.trans (by decide), ⟨why, hwhy⟩,
    hreads why hwhy _ _ (by decide +kernel), hgone.trans (by decide)⟩

end PatchAudit
