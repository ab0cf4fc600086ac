import Mathlib.Data.List.Basic
import PatchAudit.Proofs.StorePaths

/-!
# Storing one report

Storing makes the folder of the reports ready and then changes at most one place in it, that of the
key's file, whichever steps fail on the way (`putWith_spec`).  So what can be read afterwards could
be read before or is the report that was stored (`putWith_effect`).
-/

namespace PatchAudit

namespace Disk

/-- A file may be put where nothing was or a file was. -/
theorem Keeps.of_put_file {d : Disk} {p : Place} (hp : p ≠ []) (data : Bytes)
    (hold : d.entry? p = none ∨ ∃ before, d.entry? p = some (.file before)) :
    Keeps d (d.put p (.file data)) := by
  exact Keeps.of_file rfl hold (entry_put_self d hp _) (AgreesOff.of_put hp _).entry

theorem AddsFolders.of_alike {d d' : Disk}
    (h : d'.workDir = d.workDir ∧ ∀ x, d'.entry? x = d.entry? x) : AddsFolders d d' :=
  ⟨h.1, fun x => .inl (h.2 x)⟩

/-! ### Walks past a file that was put

A file may take the place of a link, and then walks through that link end.  They are only cut short:
where a walk still arrives, it arrives at that file or where it arrived before. -/

section PutFile

variable {d d' : Disk} {q : Place} {data : Bytes} (hoff : AgreesOff d d' q)
  (hfile : d'.entry? q = some (.file data))

include hoff hfile

/-- What is not that file was there before. -/
theorem AgreesOff.entry_before {x : Place} {e : Option Entry} (h : d'.entry? x = e)
    (hother : e ≠ some (.file data)) : d.entry? x = e := by
  rw [← h, hoff.entry x]
  rintro rfl
  exact hother (h.symm.trans hfile)

theorem AgreesOff.enters {here : Place} {name : Bytes} (h : d'.Enters here name) :
    d.Enters here name :=
  ⟨hoff.entry_before hfile h.folder (by simp), h.notStay, h.notParent, h.short⟩

theorem AgreesOff.advance_cases (follow : Bool) (here : Place) (names : List Bytes) :
    d'.advance follow here names = d.advance follow here names ∨
      d'.advance follow here names = .arrived q ∨
      ∃ why, d'.advance follow here names = .stuck why := by
  induction names generalizing here with
  | nil => exact .inl rfl
  | cons name rest ih =>
    cases d'.step here name with
    | blocked h => exact .inr (.inr ⟨_, advance_blocked _ _ h⟩)
    | stays h hname =>
      rw [hname, advance_stay _ _ h, advance_stay _ _ (hoff.entry_before hfile h (by simp))]
      exact ih here
    | rises h hname =>
      rw [hname, advance_parent _ _ h, advance_parent _ _ (hoff.entry_before hfile h (by simp))]
      exact ih _
    | tooLong h => exact .inr (.inr ⟨_, h _ _⟩)
    | nothing h hentry =>
      rw [advance_nothing _ _ h hentry,
        advance_nothing _ _ (hoff.enters hfile h) (hoff.entry_before hfile hentry (by simp))]
      exact .inl rfl
    | link h target hentry =>
      rw [advance_link _ _ h hentry,
        advance_link _ _ (hoff.enters hfile h) (hoff.entry_before hfile hentry (by simp))]
      exact .inl rfl
    | entry h e hentry hlink =>
      rw [advance_entry _ _ h hentry hlink]
      by_cases hself : here ++ [name] = q
      · -- the walk is at the file, where it ends or cannot go on
        rw [hself]
        cases rest with
        | nil => exact .inr (.inl rfl)
        | cons next more => exact .inr (.inr ⟨_, advance_blocked _ _ (by simp [hfile])⟩)
      · rw [advance_entry _ _ (hoff.enters hfile h) ((hoff.entry _ hself).symm.trans hentry) hlink]
        exact ih _

theorem AgreesOff.walkFrom_cases (follow : Bool) (links : Nat) (here : Place) (names : List Bytes) :
    d'.walkFrom follow links here names = d.walkFrom follow links here names ∨
      d'.walkFrom follow links here names = .arrived q ∨
      ∃ why, d'.walkFrom follow links here names = .stuck why := by
  induction links generalizing here names with
  | zero =>
    rcases hoff.advance_cases hfile follow here names with hsame | harrived | ⟨why, hstuck⟩
    · rw [walkFrom_eq, hsame, walkFrom_eq]
      exact .inl rfl
    · exact .inr (.inl (walkFrom_of_advance harrived (by simp)))
    · exact .inr (.inr ⟨why, walkFrom_of_advance hstuck (by simp)⟩)
  | succ links ih =>
    rcases hoff.advance_cases hfile follow here names with hsame | harrived | ⟨why, hstuck⟩
    · rw [walkFrom_eq, hsame, walkFrom_eq d]
      cases d.advance follow here names with
      | atLink folder target rest => exact ih _ _
      | _ => exact .inl rfl
    · exact .inr (.inl (walkFrom_of_advance harrived (by simp)))
    · exact .inr (.inr ⟨why, walkFrom_of_advance hstuck (by simp)⟩)

theorem AgreesOff.walk_cases (follow : Bool) (path : Bytes) :
    d'.walk follow path = d.walk follow path ∨ d'.walk follow path = .arrived q ∨
      ∃ why, d'.walk follow path = .stuck why := by
  by_cases hwalkable : Walkable path
  · rw [walk_eq hwalkable, walk_eq hwalkable, hoff.workDir]
    exact hoff.walkFrom_cases hfile ..
  · obtain ⟨why, hstuck⟩ := walk_of_not_walkable hwalkable
    exact .inr (.inr ⟨why, hstuck d' follow⟩)

end PutFile

theorem FolderAt.of_keeps {d d' : Disk} {path : Bytes} {p : Place} (h : d.FolderAt path p)
    (hkeeps : Keeps d d') : d'.FolderAt path p :=
  ⟨hkeeps.walk_arrived h.arrives, hkeeps.folder h.folder⟩

end Disk

namespace Store

open PatchAudit.Path (slash)

/-- No file of the store is a link. -/
def NoLinks (s : Store) (d : Disk) : Prop :=
  ∀ p key target, d.walk true s.reportsPath = .arrived p →
    d.entry? (p ++ [StoreKey.fileName key]) ≠ some (.link target)

/-- The folder of the reports made ready: it was there, or it is new and empty. -/
structure Readied (s : Store) (d d' : Disk) (p : Place) : Prop where
  folderAt : d'.FolderAt s.reportsPath p
  tree : d'.IsTree
  adds : Disk.AddsFolders d d'
  old : d' = d ∨ d'.NothingBelow p

theorem readied_of_makeFolders {s : Store} {d d' : Disk} (htree : d.IsTree)
    (h : d.makeFolders s.reportsPath = (d', .ok ())) : ∃ p, s.Readied d d' p := by
  obtain ⟨p, hat, hold⟩ := Disk.makeFolders_spec htree (walkable_of_makeFolders h)
    s.goesDown_reportsPath h
  obtain ⟨hadds, htree'⟩ := Disk.makeFoldersWith_adds h
  exact ⟨p, hat, htree' htree, hadds, hold⟩

/-- What is left if the folder of the reports cannot be made: some of those above it may be new. -/
structure Unready (s : Store) (d d' : Disk) : Prop where
  tree : d'.IsTree
  adds : Disk.AddsFolders d d'
  noFolder : ∀ p, ¬ d'.FolderAt s.reportsPath p

theorem unready_of_makeFolders {s : Store} {d d' : Disk} {why : DiskError} (htree : d.IsTree)
    (h : d.makeFolders s.reportsPath = (d', .error why)) : s.Unready d d' := by
  obtain ⟨hadds, htree'⟩ := Disk.makeFoldersWith_adds h
  exact ⟨htree' htree, hadds, Disk.makeFolders_failed h⟩

theorem Readied.noLink {s : Store} {d d' : Disk} {p : Place} (h : s.Readied d d' p)
    (hlinks : s.NoLinks d) (key : StoreKey) (target : Bytes) :
    d'.entry? (p ++ [key.fileName]) ≠ some (.link target) := by
  rcases h.old with rfl | hempty
  · exact hlinks p key target h.folderAt.arrives
  · simp [hempty key.fileName []]

/-! ### The temporary file -/

section Temp

variable {s : Store} {d w : Disk} {p : Place} {n : Nat} (hat : w.FolderAt s.reportsPath p)

include hat

theorem locate_temp (hfits : s.Fits (tempName n)) {data : Bytes}
    (hfile : w.entry? (p ++ [tempName n]) = some (.file data)) :
    w.locate false (s.reportsPath ++ slash :: tempName n) = .ok (p ++ [tempName n]) := by
  unfold Disk.locate
  rw [walk_name hat (tempName_isName n) hfits false (by simp), hfile, if_neg (by simp)]

/-- Dropping the temporary file leaves what was there before it. -/
theorem dropTemp_spec (htree : d.IsTree) (hfree : d.entry? (p ++ [tempName n]) = none)
    (hfits : s.Fits (tempName n)) (hoff : Disk.AgreesOff d w (p ++ [tempName n])) {data : Bytes}
    (hfile : w.entry? (p ++ [tempName n]) = some (.file data)) :
    (dropTemp w (s.reportsPath ++ slash :: tempName n)).workDir = d.workDir ∧
      ∀ x, Disk.entry? (dropTemp w (s.reportsPath ++ slash :: tempName n)) x = d.entry? x := by
  have hdrop : dropTemp w (s.reportsPath ++ slash :: tempName n) = w.prune (p ++ [tempName n]) := by
    unfold dropTemp Disk.removeAll
    rw [locate_temp hat hfits hfile]
    rfl
  refine ⟨by rw [hdrop]; exact hoff.workDir, fun y => ?_⟩
  rw [hdrop, Disk.entry_prune (by simp)]
  by_cases hy : p ++ [tempName n] <+: y
  · rw [if_pos hy]
    by_cases hself : y = p ++ [tempName n]
    · rw [hself, hfree]
    · exact (htree.none_below (by simp [hfree]) hy hself).symm
  · rw [if_neg hy]
    exact hoff.entry y (by rintro rfl; exact hy (List.prefix_refl _))

/-- Writing the temporary file changes nothing else. -/
theorem writeFile_temp (hfits : s.Fits (tempName n)) (data : Bytes)
    (hold : w.entry? (p ++ [tempName n]) = none ∨
      ∃ before, w.entry? (p ++ [tempName n]) = some (.file before)) :
    w.writeFile (s.reportsPath ++ slash :: tempName n) data =
      .ok (w.put (p ++ [tempName n]) (.file data)) := by
  unfold Disk.writeFile
  rcases hold with hold | ⟨before, hold⟩
  · rw [walk_name hat (tempName_isName n) hfits true (by simp [hold]), hold, if_pos rfl]
  · rw [walk_name hat (tempName_isName n) hfits true (by simp [hold]), hold, if_neg (by simp)]
    simp [hold]

end Temp

/-! ### Moving it to its place -/

/-- What storing leaves of a disk whose folder is ready: the report in its place, or everything as it
was. -/
structure Settles (s : Store) (d : Disk) (p : Place) (key : StoreKey) (r : FileReport)
    (out : Disk × Except StoreError Unit) : Prop where
  off : Disk.AgreesOff d out.1 (p ++ [key.fileName])
  done : (out.2 = .ok () ∧ d.entry? (p ++ [key.fileName]) ≠ some .folder ∧
      Disk.entry? out.1 (p ++ [key.fileName]) = some (.file (StoredReport.ofReport r).encode)) ∨
    ((∃ why, out.2 = .error why) ∧
      Disk.entry? out.1 (p ++ [key.fileName]) = d.entry? (p ++ [key.fileName]))

theorem settles_of_alike {s : Store} {d d' : Disk} {p : Place} {key : StoreKey} {r : FileReport}
    (why : StoreError) (h : d'.workDir = d.workDir ∧ ∀ x, d'.entry? x = d.entry? x) :
    s.Settles d p key r (d', .error why) :=
  ⟨⟨h.1, fun x _ => h.2 x⟩, .inr ⟨⟨why, rfl⟩, h.2 _⟩⟩

/-- A temporary file that has been moved away is not dropped again, even if the path of the folder
led through a link whose place the file has taken. -/
theorem dropTemp_of_moved {s : Store} {d w : Disk} {p : Place} {name data : Bytes} {n : Nat}
    (hat : d.FolderAt s.reportsPath p) (hfits : s.Fits (tempName n))
    (hoff : Disk.AgreesOff d w (p ++ [name])) (hfile : w.entry? (p ++ [name]) = some (.file data))
    (hgone : w.entry? (p ++ [tempName n]) = none) :
    dropTemp w (s.reportsPath ++ slash :: tempName n) = w := by
  have hfolder : w.entry? p = some .folder := by
    rw [hoff.entry p (by simp), hat.folder]
  have hnowhere : ∀ x, w.walk false (s.reportsPath ++ slash :: tempName n) ≠ .arrived x := by
    intro x
    have happ := Disk.walkFrom_append w false Disk.mostLinks (Disk.origin w.workDir s.reportsPath)
      (Path.walked s.reportsPath) [tempName n] (by simp)
    have hcases := hoff.walk_cases hfile true s.reportsPath
    rw [hat.arrives, Disk.walk_eq (hfits.walkable.of_append s.reportsPath_ne_nil),
      Disk.steps_plain s.getLast?_reportsPath] at hcases
    rw [walk_below_reportsPath s w (tempName_isName n) hfits.walkable]
    rcases hcases with hsame | hthere | ⟨why, hstuck⟩
    · rw [hsame] at happ
      obtain ⟨left, happ⟩ := happ
      rw [happ, Disk.walkFrom_name hfolder (tempName_isName n) hfits.short (by simp), if_pos hgone]
      simp
    · rw [hthere] at happ
      obtain ⟨left, happ⟩ := happ
      rw [happ, Disk.walkFrom_of_advance (Disk.advance_blocked _ _ (by simp [hfile])) (by simp)]
      simp
    · rw [hstuck] at happ
      rw [happ]
      simp
  unfold dropTemp Disk.removeAll Disk.locate
  cases hwalk : w.walk false (s.reportsPath ++ slash :: tempName n) with
  | arrived x => exact absurd hwalk (hnowhere x)
  | stuck why => cases why <;> rfl
  | vacant x => rfl
  | atLink folder target rest => rfl

theorem settles_moved {s : Store} {d w : Disk} {p : Place} {n : Nat} {key : StoreKey}
    {r : FileReport} (htree : d.IsTree) (hat : d.FolderAt s.reportsPath p)
    (hold : d.entry? (p ++ [key.fileName]) ≠ some .folder)
    (hfree : d.entry? (p ++ [tempName n]) = none) (hfits : s.Fits (tempName n))
    (hoff : Disk.AgreesOff d w (p ++ [tempName n])) :
    s.Settles d p key r
      (dropTemp ((w.prune (p ++ [tempName n])).put (p ++ [key.fileName])
        (.file (StoredReport.ofReport r).encode)) (s.reportsPath ++ slash :: tempName n), .ok ()) := by
  set moved := (w.prune (p ++ [tempName n])).put (p ++ [key.fileName])
    (.file (StoredReport.ofReport r).encode) with hput
  have hentry : ∀ x, x ≠ p ++ [key.fileName] → moved.entry? x = d.entry? x := by
    intro x hx
    rw [hput, Disk.entry_put (by simp), if_neg hx, Disk.entry_prune (by simp)]
    by_cases hbelow : p ++ [tempName n] <+: x
    · rw [if_pos hbelow]
      by_cases hself : x = p ++ [tempName n]
      · rw [hself, hfree]
      · exact (htree.none_below (by simp [hfree]) hbelow hself).symm
    · rw [if_neg hbelow]
      exact hoff.entry x (by rintro rfl; exact hbelow (List.prefix_refl _))
  have hplace : moved.entry? (p ++ [key.fileName]) =
      some (.file (StoredReport.ofReport r).encode) := by
    rw [hput, Disk.entry_put (by simp), if_pos rfl]
  have hgone : moved.entry? (p ++ [tempName n]) = none := by
    rw [hentry _ (by simpa using tempName_ne_fileName n key), hfree]
  have hmoved : Disk.AgreesOff d moved (p ++ [key.fileName]) := ⟨hoff.workDir, hentry⟩
  rw [dropTemp_of_moved hat hfits hmoved hplace hgone]
  exact ⟨hmoved, .inl ⟨rfl, hold, hplace⟩⟩

/-- Nothing stands in the way of storing in the folder at `p` by way of the temporary file with the
number `n`. -/
structure Unhindered (fails : PutStep → Bool) (s : Store) (d : Disk) (p : Place) (n : Nat)
    (key : StoreKey) : Prop where
  steps : ∀ step, fails step = false
  temp : s.Fits (tempName n)
  name : s.Fits key.fileName
  place : d.entry? (p ++ [key.fileName]) ≠ some .folder

/-- How storing ends: with the report in its place exactly if all is clear. -/
structure Ends (s : Store) (d : Disk) (p : Place) (key : StoreKey) (r : FileReport) (clear : Prop)
    (out : Disk × Except StoreError Unit) : Prop extends Settles s d p key r out where
  ok_iff : out.2 = .ok () ↔ clear

theorem ends_of_alike {s : Store} {d d' : Disk} {p : Place} {key : StoreKey} {r : FileReport}
    {clear : Prop} (why : StoreError) (h : d'.workDir = d.workDir ∧ ∀ x, d'.entry? x = d.entry? x)
    (hclear : ¬ clear) : s.Ends d p key r clear (d', .error why) :=
  ⟨settles_of_alike why h, ⟨nofun, fun hc => absurd hc hclear⟩⟩

/-- The last step: the temporary file is moved to its place, or it cannot be and is dropped. -/
theorem ends_rename {s : Store} {d w : Disk} {p : Place} {n : Nat} {key : StoreKey}
    {r : FileReport} (htree : d.IsTree) (hat : d.FolderAt s.reportsPath p)
    (hfree : d.entry? (p ++ [tempName n]) = none) (hfits : s.Fits (tempName n))
    (hoff : Disk.AgreesOff d w (p ++ [tempName n])) (hkeeps : Disk.Keeps d w)
    (hfile : w.entry? (p ++ [tempName n]) = some (.file (StoredReport.ofReport r).encode)) :
    s.Ends d p key r (s.Fits key.fileName ∧ d.entry? (p ++ [key.fileName]) ≠ some .folder)
      (match w.rename (s.reportsPath ++ slash :: tempName n) (s.entryPath key) with
      | .error why => (dropTemp w (s.reportsPath ++ slash :: tempName n), .error (.disk why))
      | .ok moved => (dropTemp moved (s.reportsPath ++ slash :: tempName n), .ok ())) := by
  have hatw := hat.of_keeps hkeeps
  have hne : p ++ [key.fileName] ≠ p ++ [tempName n] := by
    intro h
    exact tempName_ne_fileName n key (by simpa using h.symm)
  have hdropped := dropTemp_spec hatw htree hfree hfits hoff hfile
  have hplace : w.entry? (p ++ [key.fileName]) = d.entry? (p ++ [key.fileName]) := hoff.entry _ hne
  rw [entryPath_eq, Disk.rename, locate_temp hatw hfits hfile]
  by_cases hkey : s.Fits key.fileName
  · have hwalk := walk_name hatw key.fileName_isName hkey false (by simp)
    rw [hplace] at hwalk
    by_cases hfolder : d.entry? (p ++ [key.fileName]) = some .folder
    · rw [hfolder, if_neg (by simp)] at hwalk
      simp only [hwalk, hplace, hfolder, if_true]
      exact ends_of_alike _ hdropped fun hclear => hclear.2 rfl
    · have hmoved : s.Ends d p key r
          (s.Fits key.fileName ∧ d.entry? (p ++ [key.fileName]) ≠ some .folder) _ :=
        ⟨settles_moved htree hat hfolder hfree hfits hoff, ⟨fun _ => ⟨hkey, hfolder⟩, fun _ => rfl⟩⟩
      by_cases hnone : d.entry? (p ++ [key.fileName]) = none
      · rw [if_pos hnone] at hwalk
        simp only [hwalk, hfile, Option.getD_some]
        exact hmoved
      · rw [if_neg hnone] at hwalk
        simp only [hwalk, hplace, if_neg hfolder, hfile, Option.getD_some]
        exact hmoved
  · obtain ⟨why, hstuck⟩ := walk_name_stuck hatw key.fileName_isName hkey false
    simp only [hstuck]
    exact ends_of_alike _ hdropped fun hclear => hkey hclear.1

/-- **Storing a report**, whichever steps fail: if the folder of the reports cannot be made, then
at most folders above it are new; else the folder is made ready, and at most the file of the key
changes in it. -/
theorem putWith_spec (fails : PutStep → Bool) (s : Store) {d : Disk} (htree : d.IsTree)
    (key : StoreKey) (r : FileReport) :
    (fails .makeFolder = true ∧ ∃ why, s.putWith fails d key r = (d, .error why)) ∨
      (∃ d' why, d.makeFolders s.reportsPath = (d', .error why) ∧ s.Unready d d' ∧
        s.putWith fails d key r = (d', .error (.disk why))) ∨
      ∃ d' p n, d.makeFolders s.reportsPath = (d', .ok ()) ∧ s.Readied d d' p ∧
        d'.entry? (p ++ [tempName n]) = none ∧
        s.Ends d' p key r (s.Unhindered fails d' p n key) (s.putWith fails d key r) := by
  unfold putWith
  by_cases hmake : fails .makeFolder = true
  · exact .inl ⟨hmake, _, if_pos hmake⟩
  rw [if_neg hmake]
  rcases hfolders : d.makeFolders s.reportsPath with ⟨ready, made⟩
  cases made with
  | error why => exact .inr (.inl ⟨ready, why, rfl, unready_of_makeFolders htree hfolders, rfl⟩)
  | ok =>
    obtain ⟨p, hready⟩ := readied_of_makeFolders htree hfolders
    obtain ⟨n, htemp, hfree⟩ := tempPath_eq hready.folderAt
    refine .inr (.inr ⟨ready, p, n, rfl, hready, hfree, ?_⟩)
    have hsame : ready.workDir = ready.workDir ∧ ∀ x, ready.entry? x = ready.entry? x :=
      ⟨rfl, fun _ => rfl⟩
    have hfailed : ∀ step, fails step = true → ¬ s.Unhindered fails ready p n key :=
      fun step hstep hclear => by simp [hclear.steps step] at hstep
    simp only [htemp]
    by_cases hcreate : fails .createTemp = true
    · rw [if_pos hcreate]
      exact ends_of_alike _ hsame (hfailed _ hcreate)
    rw [if_neg hcreate]
    by_cases hfits : s.Fits (tempName n)
    · set begun := ready.put (p ++ [tempName n]) (.file []) with hbegun
      have hfile := Disk.entry_put_self ready (p := p ++ [tempName n]) (by simp) (.file [])
      have hkeeps : Disk.Keeps ready begun := Disk.Keeps.of_put_file (by simp) [] (.inl hfree)
      have hoff : Disk.AgreesOff ready begun (p ++ [tempName n]) := Disk.AgreesOff.of_put (by simp) _
      have hat := hready.folderAt.of_keeps hkeeps
      rw [writeFile_temp hready.folderAt hfits [] (.inl hfree)]
      simp only
      by_cases hencode : fails .encode = true
      · rw [if_pos hencode]
        exact ends_of_alike _ (dropTemp_spec hat hready.tree hfree hfits hoff hfile)
          (hfailed _ hencode)
      rw [if_neg hencode, writeFile_temp hat hfits _ (.inr ⟨_, hfile⟩)]
      simp only
      set written := begun.put (p ++ [tempName n]) (.file (StoredReport.ofReport r).encode)
      have hfile' := Disk.entry_put_self begun (p := p ++ [tempName n]) (by simp)
        (.file (StoredReport.ofReport r).encode)
      have hkeeps' : Disk.Keeps ready written :=
        hkeeps.trans (Disk.Keeps.of_put_file (by simp) _ (.inr ⟨_, hfile⟩))
      have hoff' : Disk.AgreesOff ready written (p ++ [tempName n]) :=
        hoff.trans (Disk.AgreesOff.of_put (by simp) _)
      have hdropped := dropTemp_spec (hready.folderAt.of_keeps hkeeps') hready.tree hfree hfits
        hoff' hfile'
      by_cases hclose : fails .close = true
      · rw [if_pos hclose]
        exact ends_of_alike _ hdropped (hfailed _ hclose)
      rw [if_neg hclose]
      by_cases hrename : fails .rename = true
      · rw [if_pos hrename]
        exact ends_of_alike _ hdropped (hfailed _ hrename)
      rw [if_neg hrename]
      have hend : s.Ends ready p key r _ _ := ends_rename hready.tree hready.folderAt hfree hfits
        hoff' hkeeps' hfile'
      refine ⟨hend.toSettles, hend.ok_iff.trans ⟨fun ⟨hname, hplace⟩ => ⟨?_, hfits, hname, hplace⟩,
        fun hclear => ⟨hclear.name, hclear.place⟩⟩⟩
      intro step
      cases step <;> exact Bool.eq_false_iff.mpr (by assumption)
    · obtain ⟨why, hstuck⟩ := walk_name_stuck hready.folderAt (tempName_isName n) hfits true
      simp only [Disk.writeFile, hstuck]
      exact ends_of_alike _ hsame fun hclear => hfits hclear.temp

/-! ### What can be read afterwards -/

/-- A file of the store is read in the folder of the reports. -/
theorem fileData_eq_ok {s : Store} {d : Disk} {p : Place} {key : StoreKey} {data : Bytes}
    (hat : d.FolderAt s.reportsPath p) (hlinks : s.NoLinks d) :
    d.fileData (s.entryPath key) = .ok data ↔
      s.Fits key.fileName ∧ d.entry? (p ++ [key.fileName]) = some (.file data) := by
  rw [entryPath_eq]
  by_cases hfits : s.Fits key.fileName
  · have hwalk := walk_name hat key.fileName_isName hfits true fun _ target =>
      hlinks p key target hat.arrives
    unfold Disk.fileData Disk.stat Disk.locate
    rw [hwalk]
    cases hentry : d.entry? (p ++ [key.fileName]) with
    | none =>
      rw [if_pos rfl]
      simp [Bind.bind, Except.bind]
    | some e =>
      rw [if_neg (by simp)]
      cases e <;> simp [Bind.bind, Except.bind, hentry, hfits, Pure.pure, Except.pure]
  · obtain ⟨why, hstuck⟩ := walk_name_stuck hat key.fileName_isName hfits true
    unfold Disk.fileData Disk.stat Disk.locate
    rw [hstuck]
    simp [Bind.bind, Except.bind, hfits]

/-- The folder of the reports is not there. -/
def NoFolder (s : Store) (d : Disk) : Prop := ∀ p, d.walk true s.reportsPath ≠ .arrived p

theorem NoFolder.of_stuck {s : Store} {d : Disk} {why : DiskFault}
    (h : d.walk true s.reportsPath = .stuck why) : s.NoFolder d := by
  intro p harrived
  rw [h] at harrived
  cases harrived

theorem NoFolder.noLinks {s : Store} {d : Disk} (h : s.NoFolder d) : s.NoLinks d :=
  fun p _ _ harrived => absurd harrived (h p)

/-- What is read for a key is read in the folder of the reports. -/
theorem folderAt_of_fileData {s : Store} {d : Disk} {key : StoreKey} {data : Bytes}
    (h : d.fileData (s.entryPath key) = .ok data) : ∃ p, d.FolderAt s.reportsPath p := by
  obtain ⟨x, hwalk, -⟩ := Disk.fileData_eq_ok_iff.mp h
  have hname := key.fileName_isName
  obtain ⟨p, -, -, hat, -⟩ := Disk.walk_through (n := 0) hname.ne_nil hname.noSlash
    (by simpa [entryPath_eq] using hwalk)
  have hdrop : Path.dropTrailing (s.reportsPath ++ [slash]) = s.reportsPath := by
    rw [Path.dropTrailing, List.reverse_concat, List.dropWhile_cons_of_pos (by simp)]
    exact s.dropTrailing_reportsPath
  have harrives := Disk.walk_dropTrailing hat.arrives (by simp [hdrop, s.reportsPath_ne_nil])
  rw [hdrop] at harrives
  exact ⟨p, harrives, hat.folder⟩

/-- Nothing can be read from a store whose folder is not there. -/
theorem NoFolder.fileData {s : Store} {d : Disk} (h : s.NoFolder d) (key : StoreKey) (data : Bytes) :
    d.fileData (s.entryPath key) ≠ .ok data := fun hdata =>
  let ⟨p, hat⟩ := folderAt_of_fileData hdata
  h p hat.arrives

/-- The effect of storing on a disk, as far as later reading goes. -/
structure Effect (s : Store) (d d' : Disk) (key : StoreKey) (r : FileReport) : Prop where
  tree : d'.IsTree
  noLinks : s.NoLinks d'
  keeps : Disk.Keeps d d'
  /-- What can be read was there or is the report that was stored. -/
  reads : ∀ {key' data}, d'.fileData (s.entryPath key') = .ok data →
    d.fileData (s.entryPath key') = .ok data ∨
      key' = key ∧ data = (StoredReport.ofReport r).encode
  /-- No file changes but the one of the key. -/
  files : ∀ {x data}, d.entry? x = some (.file data) →
    d'.entry? x = some (.file data) ∨
      ∃ p, d.walk true s.reportsPath = .arrived p ∧ x = p ++ [key.fileName]
  /-- The folder of the reports was there or has nothing from before in it. -/
  folder : ∀ {p}, d'.walk true s.reportsPath = .arrived p →
    d.walk true s.reportsPath = .arrived p ∨ d.NothingBelow p

theorem Effect.refl {s : Store} {d : Disk} (htree : d.IsTree) (hlinks : s.NoLinks d)
    (key : StoreKey) (r : FileReport) : s.Effect d d key r :=
  ⟨htree, hlinks, .refl d, .inl, .inl, .inl⟩

theorem Unready.effect {s : Store} {d d' : Disk} (h : s.Unready d d') (key : StoreKey)
    (r : FileReport) : s.Effect d d' key r where
  tree := h.tree
  noLinks := fun p key' target harrives hlink =>
    h.noFolder p ⟨harrives, h.tree p key'.fileName (by simp [hlink])⟩
  keeps := h.adds.keeps
  reads := fun hdata =>
    let ⟨p, hat⟩ := folderAt_of_fileData hdata
    absurd hat (h.noFolder p)
  files := fun hx => .inl (h.adds.some_entry hx)
  folder := fun {p} harrives => .inr fun name rest => h.adds.none_entry <|
    h.tree.none_below (fun hfolder => h.noFolder p ⟨harrives, hfolder⟩) (List.prefix_append _ _)
      (by simp)

/-- If the file of the key is as before, then so is everything. -/
theorem Settles.alike {s : Store} {d : Disk} {p : Place} {key : StoreKey} {r : FileReport}
    {out : Disk × Except StoreError Unit} (h : s.Settles d p key r out)
    (hsame : Disk.entry? out.1 (p ++ [key.fileName]) = d.entry? (p ++ [key.fileName])) :
    out.1.workDir = d.workDir ∧ ∀ x, Disk.entry? out.1 x = d.entry? x := by
  refine ⟨h.off.workDir, fun x => ?_⟩
  by_cases hx : x = p ++ [key.fileName]
  · rw [hx, hsame]
  · exact h.off.entry x hx

theorem Settles.tree {s : Store} {d : Disk} {p : Place} {key : StoreKey} {r : FileReport}
    {out : Disk × Except StoreError Unit} (h : s.Settles d p key r out) (htree : d.IsTree)
    (hat : d.FolderAt s.reportsPath p) : out.1.IsTree := by
  rcases h.done with ⟨-, hold, -⟩ | ⟨-, hsame⟩
  · exact htree.of_agreesOff h.off hat.folder hold
  · intro q n hq
    rw [(h.alike hsame).2] at hq ⊢
    exact htree q n hq

theorem Settles.keeps {s : Store} {d : Disk} {p : Place} {key : StoreKey} {r : FileReport}
    {out : Disk × Except StoreError Unit} (h : s.Settles d p key r out)
    (hlink : ∀ target, d.entry? (p ++ [key.fileName]) ≠ some (.link target)) :
    Disk.Keeps d out.1 := by
  rcases h.done with ⟨-, hold, hnew⟩ | ⟨-, hsame⟩
  · refine Disk.Keeps.of_file h.off.workDir ?_ hnew h.off.entry
    cases hentry : d.entry? (p ++ [key.fileName]) with
    | none => exact .inl rfl
    | some e =>
      cases e with
      | file data => exact .inr ⟨data, rfl⟩
      | folder => exact absurd hentry hold
      | link target => exact absurd hentry (hlink target)
  · exact (Disk.AddsFolders.of_alike (h.alike hsame)).keeps

/-- Each file in the folder is as before, or it is the key's and holds the report. -/
theorem Settles.file {s : Store} {d : Disk} {p : Place} {key : StoreKey} {r : FileReport}
    {out : Disk × Except StoreError Unit} (h : s.Settles d p key r out) (key' : StoreKey) :
    Disk.entry? out.1 (p ++ [key'.fileName]) = d.entry? (p ++ [key'.fileName]) ∨
      key' = key ∧
        Disk.entry? out.1 (p ++ [key'.fileName]) = some (.file (StoredReport.ofReport r).encode) := by
  by_cases hkey : key' = key
  · subst hkey
    rcases h.done with ⟨-, -, hnew⟩ | ⟨-, hsame⟩
    · exact .inr ⟨rfl, hnew⟩
    · exact .inl hsame
  · refine .inl (h.off.entry _ fun heq => hkey ?_)
    exact StoreKey.fileName_injective (by simpa using heq)

/-- **The effect of storing**, whichever steps fail. -/
theorem putWith_effect (fails : PutStep → Bool) {s : Store} {d : Disk} (htree : d.IsTree)
    (hlinks : s.NoLinks d) (key : StoreKey) (r : FileReport) :
    s.Effect d (s.putWith fails d key r).1 key r := by
  rcases putWith_spec fails s htree key r with ⟨-, why, hput⟩ | ⟨unready, why, -, hunready, hput⟩ |
    ⟨ready, p, n, -, hready, -, hends⟩
  · rw [hput]
    exact Effect.refl htree hlinks key r
  · rw [hput]
    exact hunready.effect key r
  · have hsettles := hends.toSettles
    have hkeeps := hsettles.keeps (hready.noLink hlinks key)
    have hat := hready.folderAt.of_keeps hkeeps
    have hnoLinks : s.NoLinks (s.putWith fails d key r).1 := by
      intro q key' target hq
      obtain rfl : p = q := Disk.Walk.arrived.inj (hat.arrives.symm.trans hq)
      rcases hsettles.file key' with hsame | ⟨-, hnew⟩
      · rw [hsame]
        exact hready.noLink hlinks key' target
      · simp [hnew]
    refine ⟨hsettles.tree hready.tree hready.folderAt, hnoLinks, hready.adds.keeps.trans hkeeps,
      ?_, ?_, ?_⟩
    · intro key' data hdata
      obtain ⟨hfits, hentry⟩ := (fileData_eq_ok hat hnoLinks).mp hdata
      rcases hsettles.file key' with hsame | ⟨hkey, hnew⟩
      · rw [hsame] at hentry
        rcases hready.old with rfl | hempty
        · exact .inl ((fileData_eq_ok hready.folderAt hlinks).mpr ⟨hfits, hentry⟩)
        · rw [hempty key'.fileName []] at hentry
          cases hentry
      · rw [hnew] at hentry
        exact .inr ⟨hkey, by simpa using hentry.symm⟩
    · intro x data hx
      by_cases hplace : x = p ++ [key.fileName]
      · rcases hready.old with rfl | hempty
        · exact .inr ⟨p, hready.folderAt.arrives, hplace⟩
        · have hfile := hready.adds.some_entry hx
          rw [hplace, hempty key.fileName []] at hfile
          cases hfile
      · exact .inl ((hsettles.off.entry x hplace).trans (hready.adds.some_entry hx))
    · intro q hq
      obtain rfl : p = q := Disk.Walk.arrived.inj (hat.arrives.symm.trans hq)
      rcases hready.old with rfl | hempty
      · exact .inl hready.folderAt.arrives
      · exact .inr fun name rest => hready.adds.none_entry (hempty name rest)

end Store

end PatchAudit
