import Mathlib.Data.List.Basic
import Mathlib.Data.List.Infix
import PatchAudit.Proofs.StorePut

/-!
# The folder of the reports on a healthy disk

On a healthy disk the directory of a store can be reached whatever becomes of its reports, and the
path of the reports leads to a folder if anything stands there.  Then no call of the store fails:
storing makes the folder if it is missing and changes the file of the key (`Healthy.put_eq`), clearing
takes away what stands at the place of the reports (`Healthy.clear_eq`), and both leave a healthy
disk.
-/

namespace PatchAudit

namespace Disk

/-! ### Pruned disks -/

theorem Keeps.prune {d d' : Disk} (h : Keeps d d') {p : Place} (hp : p ≠ []) :
    Keeps (d.prune p) (d'.prune p) := by
  refine ⟨h.workDir, fun {x} hx => ?_, fun {x target} hx => ?_, fun {x data} hx => ?_⟩
  all_goals
    rw [entry_prune hp] at hx ⊢
    split_ifs at hx with hbelow
    rw [if_neg hbelow]
  · exact h.folder hx
  · exact h.link hx
  · exact h.file hx

/-- What is left of a pruned disk was there before. -/
theorem Keeps.of_prune (d : Disk) {p : Place} (hp : p ≠ []) : Keeps (d.prune p) d := by
  have hsome : ∀ {x e}, entry? (d.prune p) x = some e → d.entry? x = some e := by
    intro x e hx
    rw [entry_prune hp] at hx
    split_ifs at hx
    exact hx
  exact ⟨rfl, hsome, hsome, fun hx => ⟨_, hsome hx⟩⟩

/-- What is left of a pruned disk is left when it is pruned again. -/
theorem Keeps.of_prune_twice (d : Disk) {p : Place} (hp : p ≠ []) :
    Keeps (d.prune p) ((d.prune p).prune p) := by
  have hsame : ∀ x, entry? ((d.prune p).prune p) x = entry? (d.prune p) x := by
    intro x
    rw [entry_prune hp, entry_prune hp]
    split_ifs <;> rfl
  exact ⟨rfl, fun hx => (hsame _).trans hx, fun hx => (hsame _).trans hx,
    fun hx => ⟨_, (hsame _).trans hx⟩⟩

theorem IsTree.prune {d : Disk} (h : d.IsTree) {p : Place} (hp : p ≠ []) : (d.prune p).IsTree := by
  intro q name hq
  rw [entry_prune hp] at hq
  split_ifs at hq with hbelow
  · exact absurd rfl hq
  · have habove : ¬ p <+: q := fun hpq => hbelow (hpq.trans (List.prefix_append q [name]))
    rw [entry_prune hp, if_neg habove]
    exact h q name hq

end Disk

namespace Store

open PatchAudit.Path (slash)

/-! ### The path of the folder -/

theorem walked_reportsPath (s : Store) :
    Path.walked s.reportsPath = Path.parts s.dir ++ [("reports" : Bytes)] := by
  rw [reportsPath_eq, Path.walked_clean s.parts_rawReportsPath_ne_nil, rawReportsPath]
  by_cases h : s.dir = []
  · rw [if_pos h, h]
    decide
  · rw [if_neg h, Path.parts_below h reports_isName]

theorem isAbsolute_reportsPath (s : Store) : Path.isAbsolute s.reportsPath = Path.isAbsolute s.dir := by
  rw [reportsPath_eq, Path.isAbsolute_clean, rawReportsPath]
  by_cases h : s.dir = []
  · rw [if_pos h, h]
    decide
  · rw [if_neg h, Path.isAbsolute_append h]

/-- The path holds nothing that is not in the cleaned directory or in the name of the folder. -/
theorem mem_reportsPath {s : Store} {b : UInt8} (h : b ∈ s.reportsPath) :
    b ∈ Path.clean s.dir ∨ b ∈ slash :: ("reports" : Bytes) := by
  rw [reportsPath_eq, rawReportsPath] at h
  by_cases hdir : s.dir = []
  · rw [if_pos hdir] at h
    exact .inr (List.mem_cons_of_mem _ h)
  rw [if_neg hdir] at h
  by_cases hparts : Path.parts s.dir = []
  · rw [Path.clean_eq, Path.parts_below hdir reports_isName, hparts] at h
    have hlone : Bytes.join [slash] ([] ++ [("reports" : Bytes)]) = "reports" := by decide
    rw [hlone] at h
    split_ifs at h
    · exact .inr h
    · simp_all
    · exact .inr (List.mem_cons_of_mem _ h)
  · rw [Path.clean_below hdir reports_isName hparts] at h
    exact List.mem_append.mp h

/-- The names of the directory lead where its cleaned path leads. -/
theorem walkFrom_dir {s : Store} {d : Disk} {home : Place}
    (h : d.FolderAt (Path.clean s.dir) home) :
    d.walkFrom true Disk.mostLinks (Disk.origin d.workDir s.reportsPath) (Path.parts s.dir) =
      .arrived home := by
  have horigin : Disk.origin d.workDir s.reportsPath =
      Disk.origin d.workDir (Path.clean s.dir) := by
    unfold Disk.origin
    rw [isAbsolute_reportsPath, Path.isAbsolute_clean]
  rw [horigin]
  exact (Disk.walk_clean_iff (Disk.walkable_of_arrived h.arrives) h.folder).mp h.arrives

/-! ### Healthy disks -/

/-- The place of the reports in a directory. -/
def reportsPlace (home : Place) : Place := home ++ [("reports" : Bytes)]

theorem reportsPlace_ne_nil (home : Place) : reportsPlace home ≠ [] := by simp [reportsPlace]

/-- A disk on which a store can work: its directory is the folder `home`, which is reached without
passing through the place of the reports; what stands at that place is or leads to a folder, if
anything does; and no path of a file is too long. -/
structure Healthy (s : Store) (d : Disk) (home : Place) : Prop where
  tree : d.IsTree
  reached : (d.prune (reportsPlace home)).FolderAt (Path.clean s.dir) home
  place : d.entry? (reportsPlace home) = none ∨ ∃ p, d.FolderAt s.reportsPath p
  short : s.reportsPath.length + 68 ≤ Disk.longestPath

namespace Healthy

variable {s : Store} {d : Disk} {home : Place}

theorem folderAt_dir (h : s.Healthy d home) : d.FolderAt (Path.clean s.dir) home :=
  h.reached.of_keeps (.of_prune d (reportsPlace_ne_nil home))

/-- Names of at most 67 bytes without a zero byte fit below the folder of the reports. -/
theorem fits (h : s.Healthy d home) {c : Bytes} (hlength : c.length ≤ 67) (hzero : 0 ∉ c) :
    s.Fits c := by
  have hdir := (Disk.walkable_of_arrived h.reached.arrives).noZero
  have hshort := h.short
  refine ⟨⟨?_, by simp, ?_⟩, ?_⟩
  · intro hmem
    rcases List.mem_append.mp hmem with hmem | hmem
    · rcases mem_reportsPath hmem with hmem | hmem
      · exact hdir hmem
      · revert hmem
        decide
    · rcases List.mem_cons.mp hmem with hmem | hmem
      · revert hmem
        decide
      · exact hzero hmem
  · rw [List.length_append, List.length_cons]
    omega
  · unfold Disk.longestName
    omega

theorem walkable_reportsPath (h : s.Healthy d home) : Disk.Walkable s.reportsPath :=
  (h.fits (c := []) (by simp) (by simp)).walkable.of_append s.reportsPath_ne_nil

/-- The path of the reports leads to their place, if a link there is not to be followed. -/
theorem walk_reportsPath (h : s.Healthy d home) {follow : Bool}
    (hlink : follow = true → ∀ target, d.entry? (reportsPlace home) ≠ some (.link target)) :
    d.walk follow s.reportsPath =
      if d.entry? (reportsPlace home) = none then .vacant (reportsPlace home)
      else .arrived (reportsPlace home) := by
  obtain ⟨left, happ⟩ := Disk.walkFrom_append_of_arrived (walkFrom_dir h.folderAt_dir)
    ["reports"] (by simp) follow
  rw [Disk.walk_eq h.walkable_reportsPath, Disk.steps_plain s.getLast?_reportsPath,
    walked_reportsPath, happ]
  exact Disk.walkFrom_name h.folderAt_dir.folder reports_isName (by decide) hlink

theorem walk_reportsPath_vacant (h : s.Healthy d home)
    (hplace : d.entry? (reportsPlace home) = none) (follow : Bool) :
    d.walk follow s.reportsPath = .vacant (reportsPlace home) := by
  rw [h.walk_reportsPath (by simp [hplace]), if_pos hplace]

/-- If the path of the reports leads to a folder, then something stands at their place. -/
theorem entry_ne_none (h : s.Healthy d home) {p : Place} (hat : d.FolderAt s.reportsPath p) :
    d.entry? (reportsPlace home) ≠ none := by
  intro hplace
  have hvacant := h.walk_reportsPath_vacant hplace true
  rw [hat.arrives] at hvacant
  cases hvacant

/-- Nothing is found below the folder of the reports while nothing is at its place. -/
theorem walk_missing (h : s.Healthy d home) (hplace : d.entry? (reportsPlace home) = none)
    {c : Bytes} (hc : Path.IsName c) (hfits : s.Fits c) (follow : Bool) :
    d.walk follow (s.reportsPath ++ slash :: c) = .stuck .missing := by
  have hvacant := h.walk_reportsPath_vacant hplace true
  rw [Disk.walk_eq h.walkable_reportsPath, Disk.steps_plain s.getLast?_reportsPath] at hvacant
  have happ := Disk.walkFrom_append d follow Disk.mostLinks
    (Disk.origin d.workDir s.reportsPath) (Path.walked s.reportsPath) [c] (by simp)
  rw [hvacant] at happ
  rw [walk_below_reportsPath s d hc hfits.walkable]
  exact happ

/-! ### Making and removing the folder -/

/-- The folder above the folder of the reports is there, so it is not made. -/
theorem makeFoldersWith_above (h : s.Healthy d home) (fuel : Nat)
    (habove : Disk.abovePath s.reportsPath ≠ []) :
    Disk.makeFoldersWith (fuel + 1) d (Disk.abovePath s.reportsPath) = (d, .ok ()) := by
  rcases Disk.abovePath_cases h.walkable_reportsPath with
    hnil | ⟨q, c, n, hpath, hq, -, -, hwalked, hup⟩
  · exact absurd hnil habove
  have hnames : Path.walked q = Path.parts s.dir := by
    rw [walked_reportsPath] at hwalked
    exact (List.append_inj' hwalked rfl).1.symm
  have horigin : Disk.origin d.workDir (q ++ [slash]) = Disk.origin d.workDir s.reportsPath := by
    have hsplit : s.reportsPath = (q ++ [slash]) ++ (c ++ List.replicate n slash) := by
      rw [hpath]
      simp
    unfold Disk.origin
    rw [hsplit, Path.isAbsolute_append (p := q ++ [slash]) (by simp)]
  have hwalk : d.walk true (q ++ [slash]) = .arrived home := by
    rw [Disk.walk_slash_iff hup, hnames, horigin]
    exact ⟨walkFrom_dir h.folderAt_dir, h.folderAt_dir.folder⟩
  rw [hq, Disk.makeFoldersWith, Disk.stat_of_arrived hwalk h.folderAt_dir.folder]

/-- The folder of the reports can be made where nothing is. -/
theorem makeFolders_vacant (h : s.Healthy d home) (hplace : d.entry? (reportsPlace home) = none) :
    d.makeFolders s.reportsPath = (d.put (reportsPlace home) .folder, .ok ()) := by
  have hstat : d.stat s.reportsPath = .error .missing := by
    unfold Disk.stat Disk.locate
    rw [h.walk_reportsPath_vacant hplace]
    rfl
  have hmake : d.makeFolder s.reportsPath = .ok (d.put (reportsPlace home) .folder) := by
    unfold Disk.makeFolder
    rw [s.dropTrailing_reportsPath, h.walk_reportsPath_vacant hplace]
  obtain ⟨fuel, hfuel⟩ := Nat.exists_eq_succ_of_ne_zero
    (Nat.ne_of_gt (List.length_pos_iff.mpr s.reportsPath_ne_nil))
  rw [Disk.makeFolders, Disk.makeFoldersWith, hstat, hfuel]
  by_cases habove : Disk.abovePath s.reportsPath = []
  · simp [habove, hmake]
  · simp [habove, h.makeFoldersWith_above fuel habove, hmake]

/-- The folder of the reports can be made ready.  If it is new, then nothing is in it. -/
theorem ready (h : s.Healthy d home) :
    ∃ d' p, d.makeFolders s.reportsPath = (d', .ok ()) ∧ s.Readied d d' p ∧
      (d' = d ∨ d.entry? (reportsPlace home) = none ∧ d'.NothingBelow p) := by
  rcases h.place with hplace | ⟨p, hat⟩
  · have hmake := h.makeFolders_vacant hplace
    obtain ⟨p, hready⟩ := readied_of_makeFolders h.tree hmake
    exact ⟨_, p, hmake, hready, hready.old.imp_right fun hempty => ⟨hplace, hempty⟩⟩
  · refine ⟨d, p, ?_, ⟨hat, h.tree, .refl d, .inl rfl⟩, .inl rfl⟩
    rw [Disk.makeFolders, Disk.makeFoldersWith, Disk.stat_of_arrived hat.arrives hat.folder]

/-- **Clearing** leaves nothing at the place of the reports. -/
theorem clear_eq (h : s.Healthy d home) :
    ∃ d', s.clear d = (d', .ok ()) ∧ s.Healthy d' home ∧ d'.entry? (reportsPlace home) = none := by
  unfold Store.clear Disk.removeAll Disk.locate
  rw [h.walk_reportsPath (by simp)]
  have hne := reportsPlace_ne_nil home
  by_cases hplace : d.entry? (reportsPlace home) = none
  · rw [if_pos hplace]
    exact ⟨d, rfl, h, hplace⟩
  · rw [if_neg hplace]
    have hgone : Disk.entry? (d.prune (reportsPlace home)) (reportsPlace home) = none := by
      rw [Disk.entry_prune hne, if_pos (List.prefix_refl _)]
    exact ⟨_, rfl, ⟨h.tree.prune hne, h.reached.of_keeps (.of_prune_twice d hne), .inl hgone,
      h.short⟩, hgone⟩

/-! ### Storing -/

/-- The first temporary file, if its name is not taken. -/
theorem tempPath_first {p : Place} (hat : d.FolderAt s.reportsPath p)
    (hfree : d.entry? (p ++ [tempName 0]) = none) :
    s.tempPath d = s.reportsPath ++ slash :: tempName 0 := by
  have htaken : d.namesAt s.reportsPath = d.names p := by
    unfold Disk.namesAt Disk.locate
    rw [hat.arrives]
  have hnot : tempName 0 ∉ d.names p := fun hmem => Disk.entry_of_mem_names hmem hfree
  have hfirst : (List.range ((d.names p).length + 1)).find?
      (fun n => !(d.names p).contains (tempName n)) = some 0 := by
    rw [List.range_succ_eq_map, List.find?_cons_of_pos (by simpa using hnot)]
  unfold tempPath
  simp only [htaken, hfirst, Option.getD_some]
  exact s.join_reportsPath (tempName_isName 0)

/-- In a folder that is ready, the temporary file is begun, written and moved to its place. -/
theorem put_of_ready {ready : Disk} {p : Place} {key : StoreKey}
    (hmake : d.makeFolders s.reportsPath = (ready, .ok ())) (htree : ready.IsTree)
    (hat : ready.FolderAt s.reportsPath p) (htemp : s.Fits (tempName 0))
    (hkey : s.Fits key.fileName) (hfree : ready.entry? (p ++ [tempName 0]) = none)
    (hold : ready.entry? (p ++ [key.fileName]) = none ∨
      ∃ data, ready.entry? (p ++ [key.fileName]) = some (.file data)) (r : FileReport) :
    (s.put d key r).2 = .ok () ∧ s.Settles ready p key r (s.put d key r) := by
  set begun := ready.put (p ++ [tempName 0]) (.file []) with hbegun
  set written := begun.put (p ++ [tempName 0]) (.file (StoredReport.ofReport r).encode)
    with hwritten
  have hfile : begun.entry? (p ++ [tempName 0]) = some (.file []) :=
    Disk.entry_put_self ready (by simp) _
  have hfile' : written.entry? (p ++ [tempName 0]) =
      some (.file (StoredReport.ofReport r).encode) := Disk.entry_put_self begun (by simp) _
  have hkeeps : Disk.Keeps ready begun := .of_put_file (by simp) [] (.inl hfree)
  have hkeeps' : Disk.Keeps ready written :=
    hkeeps.trans (.of_put_file (by simp) _ (.inr ⟨_, hfile⟩))
  have hoff : Disk.AgreesOff ready written (p ++ [tempName 0]) :=
    (Disk.AgreesOff.of_put (by simp) _).trans (.of_put (by simp) _)
  have hsame : written.entry? (p ++ [key.fileName]) = ready.entry? (p ++ [key.fileName]) :=
    hoff.entry _ (by simpa using (tempName_ne_fileName 0 key).symm)
  have hrename : written.rename (s.reportsPath ++ slash :: tempName 0) (s.entryPath key) =
      .ok ((written.prune (p ++ [tempName 0])).put (p ++ [key.fileName])
        (.file (StoredReport.ofReport r).encode)) := by
    rw [entryPath_eq, Disk.rename, locate_temp (hat.of_keeps hkeeps') htemp hfile']
    have hwalk := walk_name (hat.of_keeps hkeeps') key.fileName_isName hkey false (by simp)
    rw [hsame] at hwalk
    rcases hold with hold | ⟨before, hold⟩
    · rw [hold, if_pos rfl] at hwalk
      simp only [hwalk, hfile', Option.getD_some]
    · rw [hold, if_neg (by simp)] at hwalk
      simp [hwalk, hfile', hsame, hold]
  have hput : s.put d key r = (dropTemp ((written.prune (p ++ [tempName 0])).put
      (p ++ [key.fileName]) (.file (StoredReport.ofReport r).encode))
      (s.reportsPath ++ slash :: tempName 0), .ok ()) := by
    simp only [Store.put, putWith, hmake, Bool.false_eq_true, if_false, tempPath_first hat hfree,
      writeFile_temp hat htemp [] (.inl hfree), ← hbegun,
      writeFile_temp (hat.of_keeps hkeeps) htemp _ (.inr ⟨_, hfile⟩), ← hwritten, hrename]
  rw [hput]
  have hplace : ready.entry? (p ++ [key.fileName]) ≠ some .folder := by
    rcases hold with hold | ⟨data, hold⟩ <;> simp [hold]
  exact ⟨rfl, settles_moved htree hat hplace hfree htemp hoff⟩

/-- **Storing** succeeds where the first temporary file is free and the file of the key may be
replaced: then that file holds the report, and all others in the folder are as they were, or it is
a new folder without others. -/
theorem put_eq (h : s.Healthy d home) {key : StoreKey} (hkey : s.Fits key.fileName)
    (hfree : ∀ p, d.FolderAt s.reportsPath p → d.entry? (p ++ [tempName 0]) = none)
    (hold : ∀ p, d.FolderAt s.reportsPath p → d.entry? (p ++ [key.fileName]) = none ∨
      ∃ data, d.entry? (p ++ [key.fileName]) = some (.file data)) (r : FileReport) :
    (s.put d key r).2 = .ok () ∧ s.Healthy (s.put d key r).1 home ∧
      ∃ p, (s.put d key r).1.FolderAt s.reportsPath p ∧
        Disk.entry? (s.put d key r).1 (p ++ [key.fileName]) =
          some (.file (StoredReport.ofReport r).encode) ∧
        (d.FolderAt s.reportsPath p ∧ (∀ name, name ≠ key.fileName →
            Disk.entry? (s.put d key r).1 (p ++ [name]) = d.entry? (p ++ [name])) ∨
          d.entry? (reportsPlace home) = none ∧ ∀ name, name ≠ key.fileName →
            Disk.entry? (s.put d key r).1 (p ++ [name]) = none) := by
  obtain ⟨ready, p, hmake, hready, hcases⟩ := h.ready
  have htemp : s.Fits (tempName 0) := h.fits (by decide) (by decide)
  have hfree' : ready.entry? (p ++ [tempName 0]) = none := by
    rcases hcases with rfl | ⟨-, hempty⟩
    · exact hfree p hready.folderAt
    · exact hempty _ []
  have hold' : ready.entry? (p ++ [key.fileName]) = none ∨
      ∃ data, ready.entry? (p ++ [key.fileName]) = some (.file data) := by
    rcases hcases with rfl | ⟨-, hempty⟩
    · exact hold p hready.folderAt
    · exact .inl (hempty _ [])
  obtain ⟨hok, hsettles⟩ :=
    put_of_ready hmake hready.tree hready.folderAt htemp hkey hfree' hold' r
  have hkeeps : Disk.Keeps ready (s.put d key r).1 := hsettles.keeps fun target hlink => by
    rcases hold' with hold' | ⟨data, hold'⟩ <;> simp [hold'] at hlink
  have hat := hready.folderAt.of_keeps hkeeps
  have hothers : ∀ name, name ≠ key.fileName →
      Disk.entry? (s.put d key r).1 (p ++ [name]) = ready.entry? (p ++ [name]) := fun name hname =>
    hsettles.off.entry _ (by simpa using hname)
  refine ⟨hok, ⟨hsettles.tree hready.tree hready.folderAt, ?_, .inr ⟨p, hat⟩, h.short⟩, p, hat, ?_, ?_⟩
  · exact h.reached.of_keeps ((hready.adds.keeps.trans hkeeps).prune (reportsPlace_ne_nil home))
  · rcases hsettles.done with ⟨-, -, hnew⟩ | ⟨⟨why, hwhy⟩, -⟩
    · exact hnew
    · rw [hok] at hwhy
      cases hwhy
  · rcases hcases with rfl | ⟨hplace, hempty⟩
    · exact .inl ⟨hready.folderAt, hothers⟩
    · exact .inr ⟨hplace, fun name hname => (hothers name hname).trans (hempty name [])⟩

end Healthy

end Store

end PatchAudit
