import Mathlib.Data.List.Basic
import PatchAudit.Proofs.DiskWalk

/-!
# Making folders

Making a folder with the folders above it adds folders and nothing else, and leaves a tree, also if
it fails (`makeFolders_adds`); then the path leads to no folder (`makeFolders_failed`).  If it
succeeds and the path goes up before it goes down, then either nothing was added or the folder at
its end is new and empty (`makeFolders_spec`).
-/

namespace PatchAudit

namespace Disk

open PatchAudit.Path (slash walked)

/-! ### Walks along a path -/

theorem walkFrom_stay {d : Disk} {follow : Bool} {links : Nat} {here p : Place} :
    d.walkFrom follow links here [stayMark] = .arrived p ↔
      here = p ∧ d.entry? here = some .folder := by
  by_cases hhere : d.entry? here = some .folder
  · rw [walkFrom_of_advance (advance_stay follow [] hhere) (by simp [advance])]
    simp [advance, hhere]
  · rw [walkFrom_of_advance (advance_blocked follow [] hhere) (by simp)]
    simp [hhere]

/-- A clean path leads to a folder exactly if its parts do. -/
theorem walk_clean_iff {d : Disk} {dir : Bytes} {p : Place} (hclean : Walkable (Path.clean dir))
    (hp : d.entry? p = some .folder) :
    d.walk true (Path.clean dir) = .arrived p ↔
      d.walkFrom true mostLinks (origin d.workDir (Path.clean dir)) (Path.parts dir) =
        .arrived p := by
  rw [walk_eq hclean]
  by_cases hparts : Path.parts dir = []
  · -- the path is a dot or a slash, and the walk stays where it starts
    have hsteps : steps (Path.clean dir) = [stayMark] := by
      rw [Path.clean_eq, hparts]
      cases Path.isAbsolute dir <;> decide
    have hnil : d.advance true (origin d.workDir (Path.clean dir)) [] =
        .arrived (origin d.workDir (Path.clean dir)) := rfl
    rw [hsteps, hparts, walkFrom_stay, walkFrom_of_advance hnil (by simp), Walk.arrived.injEq]
    constructor
    · exact And.left
    · rintro rfl
      exact ⟨rfl, hp⟩
  · rw [steps_plain (Path.getLast?_clean hparts), Path.walked_clean hparts]

/-- A path with a slash at its end leads where its names lead, to a folder. -/
theorem walk_slash_iff {d : Disk} {q : Bytes} {p : Place} (hpath : Walkable (q ++ [slash])) :
    d.walk true (q ++ [slash]) = .arrived p ↔
      d.walkFrom true mostLinks (origin d.workDir (q ++ [slash])) (walked q) = .arrived p ∧
        d.entry? p = some .folder := by
  rw [walk_eq hpath, steps_slash]
  constructor
  · intro h
    obtain ⟨r, left, hr, hstay⟩ := arrived_of_append (by simp) h
    obtain ⟨rfl, hfolder⟩ := walkFrom_stay.mp hstay
    exact ⟨hr, hfolder⟩
  · rintro ⟨hp, hfolder⟩
    obtain ⟨left, happ⟩ := walkFrom_append_of_arrived hp [stayMark] (by simp) true
    rw [happ, walkFrom_stay]
    exact ⟨rfl, hfolder⟩

/-- Slashes at the end of a path that leads to a folder change nothing. -/
theorem walk_trailing {d : Disk} {q : Bytes} {n : Nat} {p : Place}
    (hlast : q.getLast? ≠ some slash) (hwalk : d.walk true q = .arrived p)
    (hp : d.entry? p = some .folder) (hlong : Walkable (q ++ List.replicate n slash)) :
    d.walk true (q ++ List.replicate n slash) = .arrived p := by
  cases n with
  | zero => simpa using hwalk
  | succ n =>
    have hq := walkable_of_arrived hwalk
    have horigin : origin d.workDir (q ++ List.replicate n slash ++ [slash]) =
        origin d.workDir q := by
      unfold origin
      rw [List.append_assoc, Path.isAbsolute_append hq.ne_nil]
    rw [walk_eq hq, steps_plain hlast] at hwalk
    rw [List.replicate_succ', ← List.append_assoc] at hlong ⊢
    rw [walk_slash_iff hlong, horigin, Path.walked_trailing]
    exact ⟨hwalk, hp⟩

/-- A path leads through the path without the slashes at its end. -/
theorem walk_dropTrailing {d : Disk} {path : Bytes} {p : Place} (h : d.walk true path = .arrived p)
    (hne : Path.dropTrailing path ≠ []) : d.walk true (Path.dropTrailing path) = .arrived p := by
  have hlast := Path.getLast?_dropTrailing path
  obtain ⟨n, hn⟩ := Path.eq_dropTrailing_append path
  generalize Path.dropTrailing path = q at hn hlast hne
  subst hn
  cases n with
  | zero => simpa using h
  | succ n =>
    have hwalkable := (walkable_of_arrived h).of_append hne
    rw [List.replicate_succ', ← List.append_assoc] at h
    have hnames := ((walk_slash_iff (walkable_of_arrived h)).mp h).1
    have horigin : origin d.workDir (q ++ List.replicate n slash ++ [slash]) =
        origin d.workDir q := by
      unfold origin
      rw [List.append_assoc, Path.isAbsolute_append hne]
    rwa [Path.walked_trailing, horigin, ← steps_plain hlast, ← walk_eq hwalkable] at hnames

/-- A name below a path is looked up where the path leads. -/
theorem walk_below {d : Disk} {q c : Bytes} {p : Place} (follow : Bool) (hne : c ≠ [])
    (hslash : slash ∉ c) (hwalkable : Walkable (q ++ slash :: c))
    (hwalk : d.walkFrom true mostLinks (origin d.workDir (q ++ slash :: c)) (walked q) =
      .arrived p) :
    ∃ left, d.walk follow (q ++ slash :: c) = d.walkFrom follow left p [c] := by
  have hlast : (q ++ slash :: c).getLast? ≠ some slash := Path.getLast?_below hne hslash
  rw [walk_eq hwalkable, steps_plain hlast, Path.walked_append, Path.walked_singleton hne hslash]
  exact walkFrom_append_of_arrived hwalk [c] (by simp) follow

/-- A plain name in a folder: it is there or it is not.  A link of that name must not be followed. -/
theorem walkFrom_name {d : Disk} {follow : Bool} {links : Nat} {p : Place} {c : Bytes}
    (hp : d.entry? p = some .folder) (hc : Path.IsName c) (hshort : c.length ≤ longestName)
    (hlink : follow = true → ∀ target, d.entry? (p ++ [c]) ≠ some (.link target)) :
    d.walkFrom follow links p [c] =
      if d.entry? (p ++ [c]) = none then .vacant (p ++ [c]) else .arrived (p ++ [c]) := by
  have henters : d.Enters p c := ⟨hp, hc.notStay, hc.notParent, hshort⟩
  cases hentry : d.entry? (p ++ [c]) with
  | none =>
    rw [walkFrom_of_advance (advance_nothing follow [] henters hentry) (by simp)]
    rfl
  | some e =>
    cases e with
    | link target =>
      cases follow with
      | true => exact absurd hentry (hlink rfl target)
      | false =>
        rw [walkFrom_of_advance (advance_link false [] henters hentry) (by simp)]
        rfl
    | _ =>
      have hadv := advance_entry follow [] henters hentry (by simp)
      rw [walkFrom_of_advance hadv (by simp [advance])]
      rfl

/-! ### Adding folders -/

/-- A change that adds folders where nothing was. -/
structure AddsFolders (d d' : Disk) : Prop where
  workDir : d'.workDir = d.workDir
  entry : ∀ x, d'.entry? x = d.entry? x ∨ d.entry? x = none ∧ d'.entry? x = some .folder

namespace AddsFolders

theorem refl (d : Disk) : AddsFolders d d := ⟨rfl, fun _ => .inl rfl⟩

theorem trans {a b c : Disk} (hab : AddsFolders a b) (hbc : AddsFolders b c) : AddsFolders a c := by
  refine ⟨hbc.workDir.trans hab.workDir, fun x => ?_⟩
  rcases hbc.entry x with hc | ⟨hb, hc⟩
  · rcases hab.entry x with hb | ⟨ha, hb⟩
    · exact .inl (hc.trans hb)
    · exact .inr ⟨ha, hc.trans hb⟩
  · rcases hab.entry x with ha | ⟨-, hb'⟩
    · exact .inr ⟨ha.symm.trans hb, hc⟩
    · rw [hb'] at hb
      cases hb

/-- What was there is there still. -/
theorem some_entry {d d' : Disk} (h : AddsFolders d d') {x : Place} {e : Entry}
    (hx : d.entry? x = some e) : d'.entry? x = some e := by
  rcases h.entry x with h | ⟨hnone, -⟩
  · rw [h, hx]
  · rw [hnone] at hx
    cases hx

theorem none_entry {d d' : Disk} (h : AddsFolders d d') {x : Place} (hx : d'.entry? x = none) :
    d.entry? x = none := by
  rcases h.entry x with hsame | ⟨hnone, -⟩
  · exact hsame.symm.trans hx
  · exact hnone

theorem keeps {d d' : Disk} (h : AddsFolders d d') : Keeps d d' :=
  ⟨h.workDir, h.some_entry, h.some_entry, fun hx => ⟨_, h.some_entry hx⟩⟩

theorem of_put {d : Disk} {p : Place} (hp : d.entry? p = none) : AddsFolders d (d.put p .folder) := by
  have hnil : p ≠ [] := by
    rintro rfl
    cases hp
  refine ⟨rfl, fun x => ?_⟩
  rw [entry_put hnil]
  by_cases hx : x = p
  · exact .inr ⟨hx ▸ hp, if_pos hx⟩
  · exact .inl (if_neg hx)

end AddsFolders

/-- Nothing is below a place. -/
def NothingBelow (d : Disk) (p : Place) : Prop := ∀ name rest, d.entry? (p ++ name :: rest) = none

/-- A path leads to a folder. -/
structure FolderAt (d : Disk) (path : Bytes) (p : Place) : Prop where
  arrives : d.walk true path = .arrived p
  folder : d.entry? p = some .folder

theorem stat_eq_ok {d : Disk} {path : Bytes} {e : Entry} (h : d.stat path = .ok e) :
    ∃ p, d.walk true path = .arrived p ∧ (d.entry? p).getD .folder = e := by
  unfold stat locate at h
  cases hw : d.walk true path with
  | arrived p => rw [hw] at h; exact ⟨p, rfl, Except.ok.inj h⟩
  | vacant p => rw [hw] at h; cases h
  | atLink folder target rest => rw [hw] at h; cases h
  | stuck why => rw [hw] at h; cases h

theorem stat_of_arrived {d : Disk} {path : Bytes} {p : Place} {e : Entry}
    (hw : d.walk true path = .arrived p) (hp : d.entry? p = some e) : d.stat path = .ok e := by
  unfold stat locate
  rw [hw]
  show Except.ok ((d.entry? p).getD .folder) = .ok e
  rw [hp, Option.getD_some]

theorem folderAt_of_stat {d : Disk} (htree : d.IsTree) {path : Bytes}
    (h : d.stat path = .ok .folder) : ∃ p, d.FolderAt path p := by
  obtain ⟨p, hw, hp⟩ := stat_eq_ok h
  cases hentry : d.entry? p with
  | none => exact absurd hentry (entry_of_arrived htree hw)
  | some e =>
    rw [hentry] at hp
    obtain rfl : e = .folder := hp
    exact ⟨p, hw, hentry⟩

theorem fileData_eq_ok_iff {d : Disk} {path data : Bytes} :
    d.fileData path = .ok data ↔
      ∃ x, d.walk true path = .arrived x ∧ d.entry? x = some (.file data) := by
  constructor
  · intro h
    unfold fileData at h
    split at h
    · cases h
    · rename_i found hstat
      obtain rfl := Except.ok.inj h
      obtain ⟨x, hwalk, hentry⟩ := stat_eq_ok hstat
      refine ⟨x, hwalk, ?_⟩
      cases hx : d.entry? x with
      | none => simp [hx] at hentry
      | some e => simpa [hx] using hentry
    · cases h
  · rintro ⟨x, hwalk, hentry⟩
    unfold fileData
    rw [stat_of_arrived hwalk hentry]

theorem stat_of_isFolder {d : Disk} {path : Bytes} (h : d.isFolder path = true) :
    d.stat path = .ok .folder := by
  unfold isFolder at h
  split at h
  · assumption
  · cases h

theorem isFolder_of_stat {d : Disk} {path : Bytes} (h : d.stat path = .ok .folder) :
    d.isFolder path = true := by
  unfold isFolder
  rw [h]

/-! ### Making one folder -/

/-- What making one folder does: it is there, or it is put where nothing was, or this fails. -/
theorem makeFolder_cases (d : Disk) (path : Bytes) :
    d.stat path = .ok .folder ∧ d.makeFolder path = .ok d ∨
      (∃ p, d.walk false (Path.dropTrailing path) = .vacant p ∧
        d.makeFolder path = .ok (d.put p .folder)) ∨
      ∃ why, d.makeFolder path = .error why ∧ (d.stat path = .ok .folder →
        ∃ fault, d.walk false (Path.dropTrailing path) = .stuck fault) := by
  unfold makeFolder
  cases hw : d.walk false (Path.dropTrailing path) with
  | vacant p => exact .inr (.inl ⟨p, rfl, rfl⟩)
  | stuck fault => exact .inr (.inr ⟨_, rfl, fun _ => ⟨fault, rfl⟩⟩)
  | _ =>
    by_cases hfolder : d.isFolder path = true
    · exact .inl ⟨stat_of_isFolder hfolder, if_pos hfolder⟩
    · exact .inr (.inr ⟨_, if_neg hfolder, fun hstat => absurd (isFolder_of_stat hstat) hfolder⟩)

/-- Making one folder adds at most that folder, and leaves a tree. -/
theorem makeFolder_adds {d d' : Disk} {path : Bytes} (h : d.makeFolder path = .ok d') :
    AddsFolders d d' ∧ (d.IsTree → d'.IsTree) := by
  rcases d.makeFolder_cases path with ⟨-, hsame⟩ | ⟨p, hw, hnew⟩ | ⟨why, hwhy, -⟩
  · obtain rfl : d = d' := Except.ok.inj (hsame.symm.trans h)
    exact ⟨.refl d, id⟩
  · obtain rfl : d.put p .folder = d' := Except.ok.inj (hnew.symm.trans h)
    obtain ⟨hp, folder, name, rfl, hfolder⟩ := place_of_vacant hw
    exact ⟨.of_put hp, fun htree => htree.of_agreesOff (.of_put (by simp) _) hfolder (by simp [hp])⟩
  · rw [hwhy] at h
    cases h

/-- Making one folder: it was there, or it is new and empty. -/
theorem makeFolder_spec {d d' : Disk} (htree : d.IsTree) {path : Bytes} (hpath : Walkable path)
    (h : d.makeFolder path = .ok d') :
    (d' = d ∧ d.stat path = .ok .folder) ∨
      ∃ p, d.walk false (Path.dropTrailing path) = .vacant p ∧
        d'.FolderAt path p ∧ d'.NothingBelow p := by
  rcases d.makeFolder_cases path with ⟨hthere, hsame⟩ | ⟨p, hw, hnew⟩ | ⟨why, hwhy, -⟩
  · exact .inl ⟨Except.ok.inj (h.symm.trans hsame), hthere⟩
  · obtain rfl : d.put p .folder = d' := Except.ok.inj (hnew.symm.trans h)
    refine .inr ⟨p, hw, ?_⟩
    obtain ⟨n, hn⟩ := Path.eq_dropTrailing_append path
    have hq : Walkable (Path.dropTrailing path) := by
      by_contra hnot
      obtain ⟨why, hstuck⟩ := walk_of_not_walkable hnot
      rw [hstuck] at hw
      cases hw
    obtain ⟨hp, folder, name, rfl, -⟩ := place_of_vacant hw
    rw [walk_eq hq] at hw
    have hentry := entry_put_self d (p := folder ++ [name]) (by simp) .folder
    have harrives : (d.put (folder ++ [name]) .folder).walk true (Path.dropTrailing path) =
        .arrived (folder ++ [name]) := by
      rw [walk_eq hq]
      exact (walkFrom_vacant hw).2 _ (AddsFolders.of_put hp).keeps hentry
    refine ⟨⟨?_, hentry⟩, fun n rest => ?_⟩
    · rw [hn] at hpath ⊢
      exact walk_trailing (Path.getLast?_dropTrailing path) harrives hentry hpath
    · rw [entry_put (by simp), if_neg (by simp)]
      exact htree.none_below (by simp [hp]) (List.prefix_append _ _) (by simp)
  · rw [hwhy] at h
    cases h

/-- If one folder cannot be made, then its path leads to none, unless it is all slashes. -/
theorem makeFolder_failed {d : Disk} {path : Bytes} {why : DiskError}
    (h : d.makeFolder path = .error why) (hne : Path.dropTrailing path ≠ []) (p : Place) :
    ¬ d.FolderAt path p := by
  intro hat
  have hstat := stat_of_arrived hat.arrives hat.folder
  rcases d.makeFolder_cases path with ⟨-, hsame⟩ | ⟨q, -, hnew⟩ | ⟨_, -, hstuck⟩
  · rw [hsame] at h
    cases h
  · rw [hnew] at h
    cases h
  · -- the path without its slashes cannot be stuck where the path itself leads to a folder
    obtain ⟨fault, hstuck⟩ := hstuck hstat
    have hq := walk_dropTrailing hat.arrives hne
    have hwalkable := walkable_of_arrived hq
    rw [walk_eq hwalkable] at hq hstuck
    rcases d.walkFrom_no_follow mostLinks (origin d.workDir (Path.dropTrailing path))
      (steps (Path.dropTrailing path)) with hsame | ⟨r, hr⟩
    · rw [hsame, hq] at hstuck
      cases hstuck
    · rw [hr] at hstuck
      cases hstuck

/-! ### Folders above folders -/

/-- A path of parent marks never ends in nothing. -/
theorem walk_parents {d : Disk} {path : Bytes} {p : Place}
    (h : ∀ c ∈ walked path, c = Path.parentMark) :
    d.walk false (Path.dropTrailing path) ≠ .vacant p := by
  intro hw
  obtain ⟨n, hn⟩ := Path.eq_dropTrailing_append path
  rw [hn, Path.walked_trailing] at h
  by_cases hq : Walkable (Path.dropTrailing path)
  · rw [walk_eq hq, steps_plain (Path.getLast?_dropTrailing path)] at hw
    rcases advance_parents h (origin d.workDir (Path.dropTrailing path)) with ⟨q, hq⟩ | ⟨why, hq⟩
    · rw [walkFrom_of_advance hq (by simp)] at hw
      cases hw
    · rw [walkFrom_of_advance hq (by simp)] at hw
      cases hw
  · obtain ⟨why, hstuck⟩ := walk_of_not_walkable hq
    rw [hstuck] at hw
    cases hw

/-- A plain name that is not in a folder leads nowhere. -/
theorem walkFrom_missing {d : Disk} {follow : Bool} {links : Nat} {here p : Place} {name : Bytes}
    {rest : List Bytes} (hstay : name ≠ stayMark) (hparent : name ≠ Path.parentMark)
    (hentry : d.entry? (here ++ [name]) = none) :
    d.walkFrom follow links here (name :: rest) ≠ .arrived p := by
  cases d.step here name with
  | blocked hhere => simp [walkFrom_of_advance (advance_blocked follow rest hhere)]
  | stays hhere hname => exact absurd hname hstay
  | rises hhere hname => exact absurd hname hparent
  | tooLong hlong => simp [walkFrom_of_advance (hlong follow rest)]
  | nothing henters hnone =>
    have hadv := advance_nothing follow rest henters hnone
    split_ifs at hadv <;> simp [walkFrom_of_advance hadv]
  | link henters target hsome => simp [hentry] at hsome
  | entry henters e hsome hlink => simp [hentry] at hsome

/-- A path to a name below another path leads through a folder there. -/
theorem walk_through {d : Disk} {q c : Bytes} {n : Nat} {p : Place} (hne : c ≠ [])
    (hslash : slash ∉ c)
    (hw : d.walk true (q ++ slash :: c ++ List.replicate n slash) = .arrived p) :
    ∃ r left rest, d.FolderAt (q ++ [slash]) r ∧
      d.walkFrom true left r (c :: rest) = .arrived p := by
  have hsteps : ∃ rest, steps (q ++ slash :: c ++ List.replicate n slash) =
      walked q ++ c :: rest := by
    have hwalked : walked (q ++ slash :: c) = walked q ++ [c] := by
      rw [Path.walked_append, Path.walked_singleton hne hslash]
    cases n with
    | zero =>
      refine ⟨[], ?_⟩
      rw [List.replicate_zero, List.append_nil, steps_plain (Path.getLast?_below hne hslash),
        hwalked]
    | succ n =>
      refine ⟨[stayMark], ?_⟩
      rw [List.replicate_succ', ← List.append_assoc, steps_slash, Path.walked_trailing, hwalked]
      simp
  obtain ⟨rest, hsteps⟩ := hsteps
  have hsplit : q ++ slash :: c ++ List.replicate n slash =
      q ++ [slash] ++ (c ++ List.replicate n slash) := by simp
  have horigin : origin d.workDir (q ++ slash :: c ++ List.replicate n slash) =
      origin d.workDir (q ++ [slash]) := by
    unfold origin
    rw [hsplit, Path.isAbsolute_append (p := q ++ [slash]) (by simp)]
  have hup : Walkable (q ++ [slash]) := (hsplit ▸ walkable_of_arrived hw).of_append (by simp)
  rw [walk_eq (walkable_of_arrived hw), hsteps, horigin] at hw
  obtain ⟨r, left, hr, hrest⟩ := arrived_of_append (by simp) hw
  have hfolder := folder_of_arrived hrest
  exact ⟨r, left, rest, ⟨(walk_slash_iff hup).mpr ⟨hr, hfolder⟩, hfolder⟩, hrest⟩

/-- A plain name below a path to an empty folder leads nowhere. -/
theorem walk_below_empty {d : Disk} {q c : Bytes} {n : Nat} {p r : Place}
    (habove : d.FolderAt (q ++ [slash]) p) (hempty : d.NothingBelow p) (hne : c ≠ [])
    (hslash : slash ∉ c) (hplain : c ≠ stayMark ∧ c ≠ Path.parentMark) :
    d.walk true (q ++ slash :: c ++ List.replicate n slash) ≠ .arrived r := by
  intro hw
  obtain ⟨p', left, rest, hat, hleads⟩ := walk_through hne hslash hw
  obtain rfl : p = p' := Walk.arrived.inj (habove.arrives.symm.trans hat.arrives)
  exact walkFrom_missing hplain.1 hplain.2 (hempty c []) hleads

/-- Names that go up before they go down. -/
def GoesDown (names : List Bytes) : Prop :=
  ∃ ups downs, names = ups ++ downs ∧ (∀ c ∈ ups, c = Path.parentMark) ∧
    ∀ c ∈ downs, c ≠ stayMark ∧ c ≠ Path.parentMark

/-- Without the last name they still do. -/
theorem goesDown_above {ups downs names : List Bytes} {c : Bytes}
    (hups : ∀ c ∈ ups, c = Path.parentMark)
    (hdowns : ∀ c ∈ downs, c ≠ stayMark ∧ c ≠ Path.parentMark) (h : ups ++ downs = names ++ [c]) :
    ∃ ups' downs', names = ups' ++ downs' ∧ (∀ c ∈ ups', c = Path.parentMark) ∧
      (∀ c ∈ downs', c ≠ stayMark ∧ c ≠ Path.parentMark) ∧ (downs' ≠ [] → c ∈ downs) := by
  rcases List.eq_nil_or_concat downs with rfl | ⟨init, last, rfl⟩
  · rw [List.append_nil] at h
    exact ⟨names, [], by simp, fun c hc => hups c (by simp [h, hc]), by simp, by simp⟩
  · rw [List.concat_eq_append, ← List.append_assoc] at h
    obtain ⟨hinit, hlast⟩ := List.append_inj' h rfl
    obtain rfl : last = c := by simpa using hlast
    exact ⟨ups, init, hinit.symm, hups, fun c hc => hdowns c (by simp [hc]), by simp⟩

/-- A path has nothing above it, or is a name below another path. -/
theorem abovePath_cases {path : Bytes} (hpath : Walkable path) :
    abovePath path = [] ∨ ∃ q c n, path = q ++ slash :: c ++ List.replicate n slash ∧
      abovePath path = q ++ [slash] ∧ c ≠ [] ∧ slash ∉ c ∧ walked path = walked q ++ [c] ∧
      Walkable (q ++ [slash]) := by
  have hlast := Path.getLast?_dropTrailing path
  obtain ⟨n, hn⟩ := Path.eq_dropTrailing_append path
  rcases Path.upToLast_cases (Path.dropTrailing path) with ⟨habove, -⟩ | ⟨q, c, hq, hslash, habove⟩
  · exact .inl habove
  · have hc : c ≠ [] := by
      rintro rfl
      rw [hq] at hlast
      simp at hlast
    have hwhole : path = q ++ slash :: c ++ List.replicate n slash := by rwa [hq] at hn
    refine .inr ⟨q, c, n, hwhole, habove, hc, hslash, ?_, ?_⟩
    · rw [hwhole, Path.walked_trailing, Path.walked_append, Path.walked_singleton hc hslash]
    · refine Walkable.of_append (q := c ++ List.replicate n slash) ?_ (by simp)
      have hsplit : path = q ++ [slash] ++ (c ++ List.replicate n slash) := by
        rw [hwhole]
        simp
      exact hsplit ▸ hpath

/-! ### Making folders -/

/-- What it takes to make a folder with those above it: it was there, or those above it are made if
there are any, and then the folder itself. -/
theorem makeFoldersWith_ok {fuel : Nat} {d d' : Disk} {path : Bytes}
    (h : makeFoldersWith (fuel + 1) d path = (d', .ok ())) :
    d.stat path = .ok .folder ∧ d' = d ∨
      d.stat path ≠ .ok .folder ∧ ∃ between, between.makeFolder path = .ok d' ∧
        (abovePath path = [] ∧ between = d ∨ abovePath path ≠ [] ∧
          makeFoldersWith fuel d (abovePath path) = (between, .ok ())) := by
  rw [makeFoldersWith] at h
  split at h
  · exact .inl ⟨‹_›, (Prod.mk.inj h).1.symm⟩
  · simp at h
  · rename_i why hstat
    refine .inr ⟨by simp [hstat], ?_⟩
    split at h
    · simp at h
    · rename_i between habove
      split at h
      · simp at h
      · rename_i made hmake
        obtain rfl : made = d' := (Prod.mk.inj h).1
        refine ⟨between, hmake, ?_⟩
        by_cases hnil : abovePath path = []
        · exact .inl ⟨hnil, by simpa [hnil, eq_comm] using habove⟩
        · exact .inr ⟨hnil, by simpa [hnil] using habove⟩

/-- How making a folder with those above it fails: nothing is changed, or one above it cannot be
made, or they all are and the folder itself cannot be made. -/
theorem makeFoldersWith_error {fuel : Nat} {d d' : Disk} {path : Bytes} {why : DiskError}
    (h : makeFoldersWith (fuel + 1) d path = (d', .error why)) :
    d.stat path ≠ .ok .folder ∧ (d' = d ∨ abovePath path ≠ [] ∧
      (makeFoldersWith fuel d (abovePath path) = (d', .error why) ∨
        makeFoldersWith fuel d (abovePath path) = (d', .ok ()) ∧
          d'.makeFolder path = .error why)) := by
  rw [makeFoldersWith] at h
  split at h
  · simp at h
  · rename_i e hne hstat
    exact ⟨by simpa [hstat] using hne, .inl (Prod.mk.inj h).1.symm⟩
  · rename_i _ hstat
    refine ⟨by simp [hstat], ?_⟩
    by_cases hnil : abovePath path = []
    · simp only [hnil, List.isEmpty_nil, if_true] at h
      split at h
      · exact .inl (Prod.mk.inj h).1.symm
      · simp at h
    · refine .inr ⟨hnil, ?_⟩
      simp only [List.isEmpty_eq_false_iff.mpr hnil, Bool.false_eq_true, if_false] at h
      split at h
      · rename_i habove
        exact .inl (habove.trans h)
      · rename_i between habove
        split at h
        · rename_i hmake
          simp only [Prod.mk.injEq, Except.error.injEq] at h
          obtain ⟨rfl, rfl⟩ := h
          exact .inr ⟨habove, hmake⟩
        · simp at h

/-- Making folders adds at most folders and leaves a tree, also if it fails. -/
theorem makeFoldersWith_adds {fuel : Nat} {d d' : Disk} {path : Bytes}
    {result : Except DiskError Unit} (h : makeFoldersWith fuel d path = (d', result)) :
    AddsFolders d d' ∧ (d.IsTree → d'.IsTree) := by
  induction fuel generalizing path d' result with
  | zero =>
    obtain rfl : d = d' := (Prod.mk.inj h).1
    exact ⟨.refl d, id⟩
  | succ fuel ih =>
    cases result with
    | error why =>
      obtain ⟨-, rfl | ⟨-, habove | ⟨habove, -⟩⟩⟩ := makeFoldersWith_error h
      · exact ⟨.refl d', id⟩
      · exact ih habove
      · exact ih habove
    | ok =>
      obtain ⟨-, rfl⟩ | ⟨-, between, hmake, ⟨-, rfl⟩ | ⟨-, habove⟩⟩ := makeFoldersWith_ok h
      · exact ⟨.refl d', id⟩
      · exact makeFolder_adds hmake
      · obtain ⟨hadds, htree⟩ := ih habove
        obtain ⟨hadds', htree'⟩ := makeFolder_adds hmake
        exact ⟨hadds.trans hadds', htree' ∘ htree⟩

theorem makeFolders_adds (d : Disk) (path : Bytes) : AddsFolders d (d.makeFolders path).1 :=
  (makeFoldersWith_adds rfl).1

/-- If a folder cannot be made with those above it, then its path leads to none afterwards. -/
theorem makeFoldersWith_failed {fuel : Nat} {d d' : Disk} {path : Bytes} {why : DiskError}
    (hfuel : path.length < fuel) (h : makeFoldersWith fuel d path = (d', .error why)) (p : Place) :
    ¬ d'.FolderAt path p := by
  induction fuel generalizing path why p with
  | zero => omega
  | succ fuel ih =>
    intro hat
    obtain ⟨hstat, rfl | ⟨hne, habove⟩⟩ := makeFoldersWith_error h
    · exact hstat (stat_of_arrived hat.arrives hat.folder)
    · rcases habove with habove | ⟨-, hmake⟩
      · rcases abovePath_cases (walkable_of_arrived hat.arrives) with
          hnil | ⟨q, c, n, hwhole, heq, hc, hslash, -, -⟩
        · exact hne hnil
        · obtain ⟨r, -, -, hr, -⟩ := walk_through hc hslash (hwhole ▸ hat.arrives)
          have hshorter : (q ++ [slash]).length < fuel := by
            have := List.length_pos_iff.mpr hc
            rw [hwhole] at hfuel
            simp only [List.length_append, List.length_cons, List.length_replicate,
              List.length_nil] at hfuel ⊢
            omega
          rw [heq] at habove
          exact ih hshorter habove r hr
      · refine makeFolder_failed hmake (fun hnil => hne ?_) p hat
        rw [abovePath, hnil]
        rfl

theorem makeFolders_failed {d d' : Disk} {path : Bytes} {why : DiskError}
    (h : d.makeFolders path = (d', .error why)) (p : Place) : ¬ d'.FolderAt path p :=
  makeFoldersWith_failed (Nat.lt_succ_self _) h p

/-- The folder above one whose name is too long is made and stays. -/
example :
    let path : Bytes := 0x61 :: slash :: List.replicate 256 0x62
    makeFolders ⟨[], []⟩ path =
      (⟨[([[0x61]], .folder)], []⟩, .error ⟨"mkdir", path, .tooLong⟩) := by
  decide +kernel

/-- Making a folder with the folders above it, for a path that goes up before it goes down: it was
there, or it is new and empty. -/
theorem makeFoldersWith_spec {d : Disk} (htree : d.IsTree) {fuel : Nat} {path : Bytes} {d' : Disk}
    {ups downs : List Bytes} (hpath : Walkable path) (hnames : walked path = ups ++ downs)
    (hups : ∀ c ∈ ups, c = Path.parentMark)
    (hdowns : ∀ c ∈ downs, c ≠ stayMark ∧ c ≠ Path.parentMark)
    (h : makeFoldersWith fuel d path = (d', .ok ())) :
    ∃ p, d'.FolderAt path p ∧ (d' = d ∨ downs ≠ [] ∧ d'.NothingBelow p) := by
  induction fuel generalizing path d' ups downs with
  | zero => cases h
  | succ fuel ih =>
    obtain ⟨hstat, rfl⟩ | ⟨hstat, between, hmake, habove⟩ := makeFoldersWith_ok h
    · obtain ⟨p, hp⟩ := folderAt_of_stat htree hstat
      exact ⟨p, hp, .inl rfl⟩
    have hne : ∀ {d : Disk} {p : Place}, d.walk false (Path.dropTrailing path) = .vacant p →
        downs ≠ [] := by
      rintro d p hw rfl
      rw [List.append_nil] at hnames
      exact walk_parents (hnames ▸ hups) hw
    rcases habove with ⟨-, rfl⟩ | ⟨habove, hup⟩
    · rcases makeFolder_spec htree hpath hmake with ⟨-, hfolder⟩ | ⟨p, hw, hat, hempty⟩
      · exact absurd hfolder hstat
      · exact ⟨p, hat, .inr ⟨hne hw, hempty⟩⟩
    · rcases abovePath_cases hpath with hnil | ⟨q, c, n, hwhole, heq, hc, hslash, hwalked, hwalkable⟩
      · exact absurd hnil habove
      rw [heq] at hup
      obtain ⟨ups', downs', hnames', hups', hdowns', hlastName⟩ :=
        goesDown_above hups hdowns (hnames.symm.trans hwalked)
      obtain ⟨r, hat, hold⟩ :=
        ih hwalkable ((Path.walked_trailing q 1).trans hnames') hups' hdowns' hup
      rcases makeFolder_spec ((makeFoldersWith_adds hup).2 htree) hpath hmake with
        ⟨rfl, hfolder⟩ | ⟨p, hw, hat', hempty⟩
      · rcases hold with rfl | ⟨hdeep, hempty⟩
        · exact absurd hfolder hstat
        · -- the folder above is new, so the path cannot have been there
          obtain ⟨p, hw, -⟩ := stat_eq_ok hfolder
          rw [hwhole] at hw
          exact absurd hw (walk_below_empty hat hempty hc hslash (hdowns c (hlastName hdeep)))
      · exact ⟨p, hat', .inr ⟨hne hw, hempty⟩⟩

/-- Making a folder that a clean path names: it was there, or it is new and empty. -/
theorem makeFolders_spec {d d' : Disk} (htree : d.IsTree) {path : Bytes} (hpath : Walkable path)
    (hnames : GoesDown (walked path)) (h : d.makeFolders path = (d', .ok ())) :
    ∃ p, d'.FolderAt path p ∧ (d' = d ∨ d'.NothingBelow p) := by
  obtain ⟨ups, downs, heq, hups, hdowns⟩ := hnames
  obtain ⟨p, hat, hold⟩ := makeFoldersWith_spec htree hpath heq hups hdowns h
  exact ⟨p, hat, hold.imp_right And.right⟩

end Disk

end PatchAudit
