import Mathlib.Data.List.Nodup
import Mathlib.Data.List.Perm.Subperm
import PatchAudit.Proofs.Folders
import PatchAudit.Proofs.Text
import PatchAudit.Store.Basic

/-!
# Where a store keeps its files

All files of a store stand in one folder: a path of the store is the path of that folder and a plain
name.  The name of a temporary file is always a free one.
-/

namespace PatchAudit

/-- The name of a key's file. -/
def StoreKey.fileName (k : StoreKey) : Bytes := k.hex ++ ".mp"

theorem StoreKey.fileName_isName (k : StoreKey) : Path.IsName k.fileName := by
  have hlength : 3 ≤ k.fileName.length := by
    rw [fileName, List.length_append]
    exact Nat.le_add_left 3 _
  refine ⟨?_, ?_, ?_, ?_⟩
  · intro h
    rw [h] at hlength
    simp at hlength
  · intro h
    rcases List.mem_append.mp h with h | h
    · have := Bytes.mem_toHex h
      simp [Path.slash] at this
    · revert h
      decide
  · intro h
    rw [h] at hlength
    simp at hlength
  · intro h
    rw [h] at hlength
    simp [Path.parentMark] at hlength

theorem StoreKey.fileName_injective : Function.Injective StoreKey.fileName := by
  rintro ⟨a⟩ ⟨b⟩ h
  have hhex := List.append_cancel_right h
  rw [show a = b from Bytes.toHex_injective hhex]

namespace Store

open PatchAudit.Path (slash)

/-! ### Names of temporary files -/

theorem tempName_isName (n : Nat) : Path.IsName (tempName n) := by
  have hlength : 4 ≤ (tempName n).length := by
    rw [tempName, List.length_append]
    exact Nat.le_add_right 4 _
  refine ⟨?_, ?_, ?_, ?_⟩
  · intro h
    rw [h] at hlength
    simp at hlength
  · intro h
    rcases List.mem_append.mp h with h | h
    · revert h
      decide
    · have := Bytes.mem_ofNat h
      simp [Path.slash] at this
  · intro h
    rw [h] at hlength
    simp at hlength
  · intro h
    rw [h] at hlength
    simp [Path.parentMark] at hlength

theorem tempName_injective : Function.Injective tempName := fun _ _ h =>
  Bytes.ofNat_injective (List.append_cancel_left h)

/-- A temporary file never takes the name of a key's file. -/
theorem tempName_ne_fileName (n : Nat) (k : StoreKey) : tempName n ≠ k.fileName := by
  intro h
  have hhead : (116 : UInt8) ∈ k.fileName := by
    rw [← h]
    exact List.mem_append_left _ (by decide)
  rcases List.mem_append.mp hhead with hhead | hhead
  · have := (Bytes.mem_toHex hhead).2
    simp at this
  · revert hhead
    decide

/-- One of the first numbers gives a name that is not taken, since no two give the same one. -/
theorem exists_free_tempName (taken : List Bytes) :
    ∃ n ∈ List.range (taken.length + 1), tempName n ∉ taken := by
  by_contra hall
  push Not at hall
  have hnodup : ((List.range (taken.length + 1)).map tempName).Nodup :=
    List.Nodup.map tempName_injective List.nodup_range
  have hsubset : (List.range (taken.length + 1)).map tempName ⊆ taken := by
    intro name hname
    obtain ⟨n, hn, rfl⟩ := List.mem_map.mp hname
    exact hall n hn
  have hlength := (List.subperm_of_subset hnodup hsubset).length_le
  rw [List.length_map, List.length_range] at hlength
  omega

/-! ### Paths of a store -/

/-- The folder of the reports as it is written before it is cleaned. -/
def rawReportsPath (s : Store) : Bytes :=
  if s.dir = [] then "reports" else s.dir ++ slash :: ("reports" : Bytes)

theorem rawReportsPath_ne_nil (s : Store) : s.rawReportsPath ≠ [] := by
  unfold rawReportsPath
  split_ifs <;> simp [Bytes.ofString]

theorem reports_isName : Path.IsName "reports" :=
  ⟨by decide, by decide, by decide, by decide⟩

theorem parts_rawReportsPath (s : Store) :
    ∃ above, Path.parts s.rawReportsPath = above ++ [("reports" : Bytes)] := by
  unfold rawReportsPath
  by_cases h : s.dir = []
  · rw [if_pos h]
    exact ⟨[], by decide⟩
  · rw [if_neg h, Path.parts_below h reports_isName]
    exact ⟨_, rfl⟩

theorem parts_rawReportsPath_ne_nil (s : Store) : Path.parts s.rawReportsPath ≠ [] := by
  obtain ⟨above, h⟩ := s.parts_rawReportsPath
  simp [h]

theorem reportsPath_eq (s : Store) : s.reportsPath = Path.clean s.rawReportsPath := by
  unfold reportsPath rawReportsPath
  by_cases h : s.dir = []
  · rw [if_pos h, h, Path.join_nil_cons, Path.join_cons (by decide)]
    rfl
  · rw [if_neg h, Path.join_cons h]
    simp [Bytes.join]

theorem reportsPath_ne_nil (s : Store) : s.reportsPath ≠ [] := by
  rw [reportsPath_eq]
  exact Path.clean_ne_nil _

theorem parts_reportsPath_ne_nil (s : Store) : Path.parts s.reportsPath ≠ [] := by
  rw [reportsPath_eq, Path.parts_clean]
  exact s.parts_rawReportsPath_ne_nil

theorem entryPath_eq (s : Store) (key : StoreKey) :
    s.entryPath key = s.reportsPath ++ slash :: key.fileName := by
  rw [reportsPath_eq, ← Path.clean_below s.rawReportsPath_ne_nil key.fileName_isName
    s.parts_rawReportsPath_ne_nil]
  unfold entryPath rawReportsPath
  by_cases h : s.dir = []
  · rw [if_pos h, h, Path.join_nil_cons, Path.join_cons (by decide)]
    simp [Bytes.join, StoreKey.fileName]
  · rw [if_neg h, Path.join_cons h]
    simp [Bytes.join, StoreKey.fileName]

/-- A plain name below the folder of the reports. -/
theorem join_reportsPath (s : Store) {c : Bytes} (hc : Path.IsName c) :
    Path.join [s.reportsPath, c] = s.reportsPath ++ slash :: c := by
  have hclean : Path.clean s.reportsPath = s.reportsPath := by
    rw [reportsPath_eq, Path.clean_clean]
  have hjoin : Bytes.join [slash] [s.reportsPath, c] = s.reportsPath ++ slash :: c := by
    simp [Bytes.join]
  rw [Path.join_cons s.reportsPath_ne_nil, hjoin,
    Path.clean_below s.reportsPath_ne_nil hc s.parts_reportsPath_ne_nil, hclean]

theorem getLast?_reportsPath (s : Store) : s.reportsPath.getLast? ≠ some slash := by
  obtain ⟨above, hparts⟩ := s.parts_rawReportsPath
  have hends : ∃ front, s.reportsPath = front ++ ("reports" : Bytes) := by
    rw [reportsPath_eq, Path.clean_eq, hparts]
    by_cases habove : above = []
    · subst habove
      split_ifs with h1 h2
      · exact ⟨[slash], by simp [Bytes.join]⟩
      · simp at h2
      · exact ⟨[], by simp [Bytes.join]⟩
    · rw [Path.join_concat habove]
      split_ifs with h1 h2
      · exact ⟨slash :: Bytes.join [slash] above ++ [slash], by simp⟩
      · simp at h2
      · exact ⟨Bytes.join [slash] above ++ [slash], by simp⟩
  obtain ⟨front, hends⟩ := hends
  rw [hends, List.getLast?_append_of_ne_nil _ (by decide)]
  decide

/-- The folder of the reports is reached by going up and then down. -/
theorem goesDown_reportsPath (s : Store) : Disk.GoesDown (Path.walked s.reportsPath) := by
  have hsettled := Path.settled_parts s.rawReportsPath
  have hparts : ∀ c ∈ (Path.parts s.rawReportsPath).reverse, c ≠ Disk.stayMark := fun c hc =>
    (Path.mem_parts (List.mem_reverse.mp hc)).2.2
  rw [reportsPath_eq, Path.walked_clean s.parts_rawReportsPath_ne_nil,
    ← List.reverse_reverse (Path.parts s.rawReportsPath)]
  generalize (Path.parts s.rawReportsPath).reverse = stack at hsettled hparts
  induction stack with
  | nil => exact ⟨[], [], rfl, by simp, by simp⟩
  | cons c below ih =>
    rw [List.reverse_cons]
    by_cases hc : c = Path.parentMark
    · refine ⟨below.reverse ++ [c], [], by simp, fun x hx => ?_, by simp⟩
      rcases List.mem_append.mp hx with hx | hx
      · exact (hsettled.2 hc).2 x (List.mem_reverse.mp hx)
      · rw [List.mem_singleton.mp hx, hc]
    · obtain ⟨ups, downs, heq, hups, hdowns⟩ :=
        ih hsettled.1 fun x hx => hparts x (List.mem_cons_of_mem _ hx)
      refine ⟨ups, downs ++ [c], by rw [heq, List.append_assoc], hups, fun x hx => ?_⟩
      rcases List.mem_append.mp hx with hx | hx
      · exact hdowns x hx
      · rw [List.mem_singleton.mp hx]
        exact ⟨hparts c List.mem_cons_self, hc⟩

/-! ### The folder of the reports -/

theorem dropTrailing_reportsPath (s : Store) : Path.dropTrailing s.reportsPath = s.reportsPath :=
  Path.dropTrailing_of_getLast? s.getLast?_reportsPath

/-- The folder of the reports can only be made if its path can be walked. -/
theorem walkable_of_makeFolders {s : Store} {d d' : Disk}
    (h : d.makeFolders s.reportsPath = (d', .ok ())) : Disk.Walkable s.reportsPath := by
  by_contra hnot
  obtain ⟨why, hstuck⟩ := Disk.walk_of_not_walkable hnot
  obtain ⟨hstat, -⟩ | ⟨-, between, hmake, -⟩ := Disk.makeFoldersWith_ok h
  · obtain ⟨p, hw, -⟩ := Disk.stat_eq_ok hstat
    rw [hstuck] at hw
    cases hw
  · unfold Disk.makeFolder at hmake
    rw [dropTrailing_reportsPath, hstuck] at hmake
    cases hmake

/-- A name below the folder of the reports is walked to through the names of that folder. -/
theorem walk_below_reportsPath (s : Store) (d : Disk) {c : Bytes} (hc : Path.IsName c)
    (hw : Disk.Walkable (s.reportsPath ++ slash :: c)) (follow : Bool) :
    d.walk follow (s.reportsPath ++ slash :: c) =
      d.walkFrom follow Disk.mostLinks (Disk.origin d.workDir s.reportsPath)
        (Path.walked s.reportsPath ++ [c]) := by
  have horigin : Disk.origin d.workDir (s.reportsPath ++ slash :: c) =
      Disk.origin d.workDir s.reportsPath := by
    unfold Disk.origin
    rw [Path.isAbsolute_append s.reportsPath_ne_nil]
  rw [Disk.walk_eq hw, Disk.steps_plain (Path.getLast?_below hc.ne_nil hc.noSlash),
    Path.walked_below hc, horigin]

/-- A name that fits below the folder of the reports. -/
structure Fits (s : Store) (c : Bytes) : Prop where
  walkable : Disk.Walkable (s.reportsPath ++ slash :: c)
  short : c.length ≤ Disk.longestName

section Walks

variable {s : Store} {d : Disk} {p : Place} (hat : d.FolderAt s.reportsPath p)

include hat

theorem walkFrom_reportsPath (c : Bytes) :
    d.walkFrom true Disk.mostLinks (Disk.origin d.workDir (s.reportsPath ++ slash :: c))
      (Path.walked s.reportsPath) = .arrived p := by
  have hwalk := hat.arrives
  rw [Disk.walk_eq (Disk.walkable_of_arrived hwalk), Disk.steps_plain s.getLast?_reportsPath] at hwalk
  unfold Disk.origin at hwalk ⊢
  rw [Path.isAbsolute_append s.reportsPath_ne_nil]
  exact hwalk

/-- A name that fits is looked up in the folder of the reports. -/
theorem walk_name {c : Bytes} (hc : Path.IsName c) (hfits : s.Fits c) (follow : Bool)
    (hlink : follow = true → ∀ target, d.entry? (p ++ [c]) ≠ some (.link target)) :
    d.walk follow (s.reportsPath ++ slash :: c) =
      if d.entry? (p ++ [c]) = none then .vacant (p ++ [c]) else .arrived (p ++ [c]) := by
  obtain ⟨left, hwalk⟩ := Disk.walk_below follow hc.ne_nil hc.noSlash hfits.walkable
    (walkFrom_reportsPath hat c)
  rw [hwalk]
  exact Disk.walkFrom_name hat.folder hc hfits.short hlink

/-- A name that does not fit gets stuck in every way. -/
theorem walk_name_stuck {c : Bytes} (hc : Path.IsName c) (hfits : ¬ s.Fits c) (follow : Bool) :
    ∃ why, d.walk follow (s.reportsPath ++ slash :: c) = .stuck why := by
  by_cases hw : Disk.Walkable (s.reportsPath ++ slash :: c)
  · have hlong : Disk.longestName < c.length := by
      by_contra hshort
      exact hfits ⟨hw, by omega⟩
    obtain ⟨left, hwalk⟩ := Disk.walk_below follow hc.ne_nil hc.noSlash hw
      (walkFrom_reportsPath hat c)
    refine ⟨.tooLong, hwalk.trans ?_⟩
    cases d.step p c with
    | tooLong hstuck => exact Disk.walkFrom_of_advance (hstuck follow []) (by simp)
    | blocked h => exact absurd hat.folder h
    | stays _ h => exact absurd h hc.notStay
    | rises _ h => exact absurd h hc.notParent
    | nothing h _ => exact absurd h.short (by omega)
    | link h _ _ => exact absurd h.short (by omega)
    | entry h _ _ _ => exact absurd h.short (by omega)
  · obtain ⟨why, hstuck⟩ := Disk.walk_of_not_walkable hw
    exact ⟨why, hstuck d follow⟩

/-- The path of a temporary file is that of a free name. -/
theorem tempPath_eq : ∃ n, s.tempPath d = s.reportsPath ++ slash :: tempName n ∧
    d.entry? (p ++ [tempName n]) = none := by
  have htaken : d.namesAt s.reportsPath = d.names p := by
    unfold Disk.namesAt Disk.locate
    rw [hat.arrives]
  obtain ⟨m, hm, hfree⟩ := exists_free_tempName (d.names p)
  have hfind : ((List.range ((d.names p).length + 1)).find? fun n =>
      !(d.names p).contains (tempName n)).isSome := by
    rw [List.find?_isSome]
    exact ⟨m, hm, by simpa using hfree⟩
  obtain ⟨n, hn⟩ := Option.isSome_iff_exists.mp hfind
  have hnot : tempName n ∉ d.names p := by simpa using List.find?_some hn
  refine ⟨n, ?_, ?_⟩
  · unfold tempPath
    simp only [htaken, hn, Option.getD_some]
    exact s.join_reportsPath (tempName_isName n)
  · exact Disk.entry_of_not_mem_names hnot

end Walks

end Store

end PatchAudit
