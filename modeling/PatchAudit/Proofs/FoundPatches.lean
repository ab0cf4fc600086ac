import Mathlib.Data.List.Basic
import Mathlib.Data.List.Nodup
import PatchAudit.Proofs.PlainFolder

/-!
# The patches that are found

In a folder with a plain path a pattern for names finds the names that match it, each once and in
order (`PlainPath.glob_names`), whatever the pattern is: the patterns that could be no names find
nothing but folders (`PlainPath.isFolder_of_glob`).  So the patches of a folder are the entries that
match and are no folders (`patches_are_matching_files`).  The path of the folder is read as a part of
the pattern, which is why it has to be plain (`patches_of_another_folder`).
-/

namespace PatchAudit

namespace Pattern

/-! ### Well-formed patterns -/

/-- A pattern that can be laid against every name. -/
def WellFormed (p : Bytes) : Prop := ∀ name, ∃ hit, matchName p name = .ok hit

theorem exists_layAgainst {segs : List Segment} (h : ∀ seg ∈ segs, (items seg.body).isOk = true)
    (name : Bytes) : ∃ hit, layAgainst segs name = .ok hit := by
  induction segs generalizing name with
  | nil => exact ⟨_, rfl⟩
  | cons seg more ih =>
    obtain ⟨hseg, hmore⟩ := List.forall_mem_cons.mp h
    rw [layAgainst]
    split_ifs
    · exact ⟨_, rfl⟩
    · cases hitems : items seg.body with
      | error why =>
        rw [hitems] at hseg
        cases hseg
      | ok is =>
        simp only [bind, Except.bind]
        split
        · exact ih hmore _
        · exact ⟨false, rfl⟩

/-- It is enough that all segments of a pattern can be read. -/
theorem wellFormed_of_items {p : Bytes} (h : ∀ seg ∈ segments p, (items seg.body).isOk = true) :
    WellFormed p := exists_layAgainst h

/-- The names of a list that a pattern matches. -/
def hits (p : Bytes) (names : List Bytes) : List Bytes :=
  names.filter fun name => matchName p name = .ok true

theorem WellFormed.matching_eq {p : Bytes} (h : WellFormed p) (names : List Bytes) :
    Disk.matching p names = .ok (hits p names) := by
  induction names with
  | nil => rfl
  | cons name rest ih =>
    obtain ⟨hit, hhit⟩ := h name
    have hhits : hits p (name :: rest) = if hit then name :: hits p rest else hits p rest := by
      rw [hits, List.filter_cons, hhit]
      cases hit <;> rfl
    rw [Disk.matching, hhit, ih, hhits]
    rfl

/-- A pattern without special bytes hits at most one name. -/
theorem hits_plain {p : Bytes} (hp : hasMeta p = false) {names : List Bytes} (hnames : names.Nodup) :
    hits p names = if p ∈ names then [p] else [] := by
  have hfilter : hits p names = names.filter (· == p) := by
    refine List.filter_congr fun name _ => ?_
    rw [Bool.eq_iff_iff]
    simp [matchName_plain_iff hp]
  rw [hfilter]
  split_ifs with hmem
  · rw [List.filter_beq, List.count_eq_one_of_mem hnames hmem]
    rfl
  · rw [List.filter_beq, List.count_eq_zero.mpr hmem]
    rfl

end Pattern

namespace Path

/-! ### Paths in a folder -/

/-- What names nothing changes nothing behind a path. -/
theorem clean_stays {p q : Bytes} (hp : p ≠ []) (hq : components q = []) :
    clean (p ++ slash :: q) = clean p := by
  unfold clean
  rw [isAbsolute_append hp, components_append, hq, List.append_nil]

theorem clean_lead (dir : Bytes) : clean (lead dir) = clean dir := by
  unfold lead
  by_cases hparts : parts dir = []
  · rw [if_pos hparts, clean_eq dir, hparts]
    cases isAbsolute dir <;> decide
  · rw [if_neg hparts, clean_stays (clean_ne_nil dir) rfl, clean_clean]

/-- The paths of names in a folder do not leave it. -/
theorem parent_lead (dir : Bytes) {c : Bytes} (hc : slash ∉ c) :
    parent (lead dir ++ c) = clean dir := by
  rw [parent, upToLast_lead dir hc, clean_lead]

theorem walked_lead (dir : Bytes) {c : Bytes} (hne : c ≠ []) (hc : slash ∉ c) :
    walked (lead dir ++ c) = parts dir ++ [c] := by
  unfold lead
  by_cases hparts : parts dir = []
  · rw [if_pos hparts, hparts, List.nil_append]
    split_ifs
    · rw [List.singleton_append, walked_rooted, walked_singleton hne hc]
    · exact walked_singleton hne hc
  · rw [if_neg hparts, List.append_assoc, List.singleton_append, walked_append,
      walked_singleton hne hc, walked_clean hparts]

theorem isAbsolute_lead (dir : Bytes) {c : Bytes} (hc : slash ∉ c) :
    isAbsolute (lead dir ++ c) = isAbsolute dir := by
  unfold lead
  by_cases hparts : parts dir = []
  · rw [if_pos hparts]
    cases hdir : isAbsolute dir with
    | true => rfl
    | false =>
      cases c with
      | nil => rfl
      | cons b c =>
        have hb : b ≠ slash := fun hb => hc (by simp [hb])
        simp [isAbsolute, hb]
  · rw [if_neg hparts, List.append_assoc, isAbsolute_append (clean_ne_nil dir), isAbsolute_clean]

/-- The path above a directory goes on from the clean path, is this path, or leaves out its last
part. -/
theorem join_parentMark {dir : Bytes} (hdir : dir ≠ []) :
    join [dir, parentMark] = lead dir ++ parentMark ∨ join [dir, parentMark] = clean dir ∨
      ∃ above c, c ≠ [] ∧ slash ∉ c ∧ join [dir, parentMark] = clean above ∧
        clean dir = lead above ++ c := by
  rw [join_pair hdir]
  have habsolute : isAbsolute (dir ++ slash :: parentMark) = isAbsolute dir := isAbsolute_append hdir
  have hparts : parts (dir ++ slash :: parentMark) =
      (pushComponent (isAbsolute dir) (parts dir).reverse parentMark).reverse := by
    have hmark : components parentMark = [parentMark] := by decide
    rw [parts, parts, components_append, hmark, habsolute, List.foldl_append, List.reverse_reverse]
    rfl
  cases hstack : (parts dir).reverse with
  | nil =>
    have hnil : parts dir = [] := List.reverse_eq_nil_iff.mp hstack
    cases hroot : isAbsolute dir with
    | true =>
      refine .inr (.inl ?_)
      rw [clean_eq, clean_eq, habsolute, hparts, hstack, hroot, hnil]
      rfl
    | false =>
      refine .inl (clean_eq_lead habsolute ?_)
      rw [hparts, hstack, hroot, hnil]
      rfl
  | cons c below =>
    have hdirParts : parts dir = below.reverse ++ [c] := by
      rw [← List.reverse_reverse (parts dir), hstack, List.reverse_cons]
    by_cases hc : c = parentMark
    · refine .inl (clean_eq_lead habsolute ?_)
      rw [hparts, hstack, pushComponent, if_pos rfl, if_pos hc, List.reverse_cons, ← hstack,
        List.reverse_reverse]
    · have habove : parts (dir ++ slash :: parentMark) = below.reverse := by
        rw [hparts, hstack, pushComponent, if_pos rfl, if_neg hc]
      obtain ⟨hne, hslash, -⟩ := mem_parts (p := dir) (c := c) (by simp [hdirParts])
      refine .inr (.inr ⟨dir ++ slash :: parentMark, c, hne, hslash, rfl, ?_⟩)
      exact clean_eq_lead habsolute.symm (by rw [habove, hdirParts])

/-- What is not a name stays in a directory or goes up from it. -/
theorem join_not_name {dir c : Bytes} (hdir : dir ≠ []) (hslash : slash ∉ c) (hc : ¬ IsName c) :
    join [dir, c] = lead dir ++ parentMark ∨ join [dir, c] = clean dir ∨
      ∃ above last, last ≠ [] ∧ slash ∉ last ∧ join [dir, c] = clean above ∧
        clean dir = lead above ++ last := by
  by_cases hempty : c = []
  · rw [hempty, join_pair hdir, clean_stays hdir rfl]
    exact .inr (.inl rfl)
  by_cases hstay : c = [0x2E]
  · rw [hstay, join_pair hdir, clean_stays hdir (by decide)]
    exact .inr (.inl rfl)
  by_cases hparent : c = parentMark
  · rw [hparent]
    exact join_parentMark hdir
  · exact absurd ⟨hempty, hslash, hstay, hparent⟩ hc

end Path

namespace Disk

open PatchAudit.Path (slash lead parts)

/-! ### Names of a folder -/

/-- A file tree as it can be on a disk: every entry is in a folder and there once, and its name can
stand in a path. -/
structure Genuine (d : Disk) : Prop where
  tree : d.IsTree
  once : (d.entries.map Prod.fst).Nodup
  named : ∀ e ∈ d.entries, ∀ name ∈ e.1, Path.IsName name ∧ 0 ∉ name ∧ name.length ≤ longestName

/-- A name that can stand in a path. -/
theorem Genuine.name {d : Disk} (h : d.Genuine) {p : Place} {name : Bytes}
    (hname : d.entry? (p ++ [name]) ≠ none) :
    Path.IsName name ∧ 0 ∉ name ∧ name.length ≤ longestName := by
  rw [entry_of_ne_nil (by simp)] at hname
  obtain ⟨e, he⟩ := Option.ne_none_iff_exists'.mp hname
  obtain ⟨before, after, hentries, -⟩ := List.lookup_eq_some_iff.mp he
  exact h.named (p ++ [name], e) (by simp [hentries]) name (by simp)

theorem Genuine.nodup_names {d : Disk} (h : d.Genuine) (p : Place) : (d.names p).Nodup := by
  rw [names, (Bytes.sort_perm _).nodup_iff]
  have hplaces : d.entries.filterMap (fun x => if x.1.dropLast = p then x.1.getLast? else none) =
      (d.entries.map Prod.fst).filterMap fun q => if q.dropLast = p then q.getLast? else none := by
    rw [List.filterMap_map]
    rfl
  -- two places in one folder with one name are the same
  have hinj : ∀ (q r : Place) name, name ∈ (if q.dropLast = p then q.getLast? else none) →
      name ∈ (if r.dropLast = p then r.getLast? else none) → q = r := by
    intro q r name hq hr
    split_ifs at hq hr with hqp hrp
    · rw [← List.dropLast_append_getLast? name hq, ← List.dropLast_append_getLast? name hr, hqp, hrp]
    all_goals simp_all
  exact hplaces ▸ h.once.filterMap hinj

/-- The names of a folder come in order, each once. -/
theorem Genuine.pairwise_names {d : Disk} (h : d.Genuine) (p : Place) :
    (d.names p).Pairwise (· < ·) := by
  refine (Bytes.sort_pairwise _).imp₂ ?_ (h.nodup_names p)
  intro a b hle hne
  exact (List.le_iff_lt_or_eq.mp hle).resolve_right hne

/-! ### Walks to the names of a folder -/

section Walks

variable {d : Disk} {dir : Bytes} {p : Place}

theorem PlainPath.folderAt_clean (h : d.PlainPath dir) (hat : d.FolderAt dir p) :
    d.FolderAt (Path.clean dir) p := by
  refine ⟨?_, hat.folder⟩
  have hsame := h.sameFolder
  unfold locate at hsame
  rw [hat.arrives] at hsame
  cases hw : d.walk true (Path.clean dir) <;> rw [hw] at hsame <;> cases hsame
  rfl

theorem steps_lead (dir : Bytes) {c : Bytes} (hne : c ≠ []) (hc : slash ∉ c) :
    steps (lead dir ++ c) = parts dir ++ [c] := by
  rw [steps_plain (Path.getLast?_lead dir hne hc), Path.walked_lead dir hne hc]

theorem origin_lead (here : Place) (dir : Bytes) {c : Bytes} (hc : slash ∉ c) :
    origin here (lead dir ++ c) = origin here (Path.clean dir) := by
  unfold origin
  rw [Path.isAbsolute_lead dir hc, Path.isAbsolute_clean]

/-- What is looked up below a folder is looked up in it. -/
theorem FolderAt.walk_lead (hat : d.FolderAt (Path.clean dir) p) {c : Bytes} (hne : c ≠ [])
    (hc : slash ∉ c) (hwalkable : Walkable (lead dir ++ c)) (follow : Bool) :
    ∃ left, d.walk follow (lead dir ++ c) = d.walkFrom follow left p [c] := by
  rw [walk_eq hwalkable, steps_lead dir hne hc, origin_lead _ dir hc]
  have hdir := (walk_clean_iff (walkable_of_arrived hat.arrives) hat.folder).mp hat.arrives
  exact walkFrom_append_of_arrived hdir [c] (by simp) follow

/-- What is above a path that leads somewhere is a folder. -/
theorem isFolder_of_below {c : Bytes} (hne : c ≠ []) (hc : slash ∉ c)
    (hclean : Walkable (Path.clean dir)) (h : d.walk true (lead dir ++ c) = .arrived p) :
    d.isFolder (Path.clean dir) = true := by
  rw [walk_eq (walkable_of_arrived h), steps_lead dir hne hc, origin_lead _ dir hc] at h
  obtain ⟨q, left, hw, hname⟩ := arrived_of_append (by simp) h
  have hq := folder_of_arrived hname
  exact isFolder_of_stat (stat_of_arrived ((walk_clean_iff hclean hq).mpr hw) hq)

theorem walkable_lead (hclean : Walkable (Path.clean dir)) {c : Bytes} (hne : c ≠ []) (hzero : 0 ∉ c)
    (hshort : (lead dir ++ c).length ≤ longestPath) : Walkable (lead dir ++ c) := by
  have hslash : (0 : UInt8) ≠ slash := by decide
  have hlead : 0 ∉ lead dir := by
    unfold lead
    split_ifs
    · simp [hslash]
    · simp
    · simp [hslash, hclean.noZero]
  refine ⟨?_, by simp [hne], hshort⟩
  rw [List.mem_append, not_or]
  exact ⟨hlead, hzero⟩

/-- There is something at the path of a name just when the folder has an entry of that name. -/
theorem Genuine.exists?_lead (hd : d.Genuine) (hat : d.FolderAt (Path.clean dir) p) {c : Bytes}
    (hc : Path.IsName c) (hshort : (lead dir ++ c).length ≤ longestPath) :
    d.exists? (lead dir ++ c) = true ↔ d.entry? (p ++ [c]) ≠ none := by
  constructor
  · intro hexists
    obtain ⟨q, hq⟩ := exists?_iff.mp hexists
    obtain ⟨left, hwalk⟩ := hat.walk_lead hc.ne_nil hc.noSlash (walkable_of_arrived hq) false
    rw [hq] at hwalk
    exact fun hnone => walkFrom_missing hc.notStay hc.notParent hnone hwalk.symm
  · intro hentry
    obtain ⟨-, hzero, hname⟩ := hd.name hentry
    have hwalkable := walkable_lead (walkable_of_arrived hat.arrives) hc.ne_nil hzero hshort
    obtain ⟨left, hwalk⟩ := hat.walk_lead hc.ne_nil hc.noSlash hwalkable false
    rw [walkFrom_name hat.folder hc hname (by simp), if_neg hentry] at hwalk
    exact exists?_iff.mpr ⟨_, hwalk⟩

/-- An entry that is no link stands at its path, unless the path is too long. -/
theorem Genuine.isFolder_lead (hd : d.Genuine) (hat : d.FolderAt (Path.clean dir) p) {c : Bytes}
    {e : Entry} (hentry : d.entry? (p ++ [c]) = some e) (hlink : ∀ target, e ≠ .link target)
    (hshort : (lead dir ++ c).length ≤ longestPath) :
    d.isFolder (lead dir ++ c) = true ↔ e = .folder := by
  have hsome : d.entry? (p ++ [c]) ≠ none := by simp [hentry]
  obtain ⟨hc, hzero, hname⟩ := hd.name hsome
  have hwalkable := walkable_lead (walkable_of_arrived hat.arrives) hc.ne_nil hzero hshort
  obtain ⟨left, hwalk⟩ := hat.walk_lead hc.ne_nil hc.noSlash hwalkable true
  have hplain : true = true → ∀ target, d.entry? (p ++ [c]) ≠ some (.link target) := by
    intro _ target heq
    rw [hentry] at heq
    exact hlink target (Option.some.inj heq)
  rw [walkFrom_name hat.folder hc hname hplain, if_neg hsome] at hwalk
  unfold isFolder
  rw [stat_of_arrived hwalk hentry]
  cases e with
  | file data => simp
  | folder => simp
  | link target => exact absurd rfl (hlink target)

end Walks

/-! ### What a pattern finds -/

section Glob

variable {d : Disk} {dir pattern : Bytes} {p : Place}

theorem FolderAt.isFolder (hat : d.FolderAt dir p) : d.isFolder dir = true := by
  unfold Disk.isFolder
  rw [stat_of_arrived hat.arrives hat.folder]

theorem FolderAt.namesAt_eq (hat : d.FolderAt dir p) : d.namesAt dir = d.names p := by
  unfold namesAt locate
  rw [hat.arrives]

theorem FolderAt.dir_ne_nil (hat : d.FolderAt dir p) : dir ≠ [] :=
  (walkable_of_arrived hat.arrives).ne_nil

theorem PlainPath.glob_wellFormed (h : d.PlainPath dir) (hat : d.FolderAt dir p)
    (hpattern : Path.IsName pattern) (hformed : Pattern.WellFormed pattern) :
    d.glob (Path.join [dir, pattern]) =
      if Pattern.hasMeta pattern then d.globIn (Path.clean dir) pattern
      else .ok (if d.exists? (Path.join [dir, pattern]) then [Path.join [dir, pattern]] else []) := by
  obtain ⟨hit, hhit⟩ := hformed []
  obtain ⟨hit, hread⟩ := Pattern.matchName_front (Pattern.hasMeta_lead h.noMeta) hhit
  exact h.glob_eq hat.dir_ne_nil hpattern hread

/-- **A pattern finds the names that it matches**, in their order. -/
theorem PlainPath.glob_names (h : d.PlainPath dir) (hd : d.Genuine) (hat : d.FolderAt dir p)
    (hpattern : Path.IsName pattern) (hformed : Pattern.WellFormed pattern)
    (hlong : Pattern.hasMeta pattern = true ∨ (Path.join [dir, pattern]).length ≤ longestPath) :
    d.glob (Path.join [dir, pattern]) =
      .ok ((Pattern.hits pattern (d.names p)).map fun name => Path.join [dir, name]) := by
  have hclean := h.folderAt_clean hat
  rw [h.glob_wellFormed hat hpattern hformed]
  cases hmeta : Pattern.hasMeta pattern with
  | true =>
    have hjoin : ∀ name ∈ Pattern.hits pattern (d.names p),
        Path.join [Path.clean dir, name] = Path.join [dir, name] := by
      intro name hname
      have hentry := mem_names_iff.mp (List.mem_filter.mp hname).1
      have hisName := (hd.name hentry).1
      rw [Path.join_name (Path.clean_ne_nil dir) hisName, Path.join_name hat.dir_ne_nil hisName,
        Path.lead_clean]
    rw [if_pos rfl, globIn, hclean.isFolder, if_pos rfl, hclean.namesAt_eq, hformed.matching_eq,
      ← List.map_congr_left hjoin]
    rfl
  | false =>
    have hshort := hlong.resolve_left (by simp [hmeta])
    have hexists : d.exists? (Path.join [dir, pattern]) = true ↔ pattern ∈ d.names p := by
      rw [Path.join_name hat.dir_ne_nil hpattern] at hshort ⊢
      rw [hd.exists?_lead hclean hpattern hshort, mem_names_iff]
    rw [if_neg (by simp), Pattern.hits_plain hmeta (hd.nodup_names p)]
    by_cases hmem : pattern ∈ d.names p
    · rw [if_pos (hexists.mpr hmem), if_pos hmem]
      rfl
    · rw [if_neg fun hfound => hmem (hexists.mp hfound), if_neg hmem]
      rfl

theorem glob_plain {q : Bytes} (hq : Pattern.hasMeta q = false) :
    d.glob q = .ok (if d.exists? q then [q] else []) := by
  have hempty : Pattern.matchName [] [] = .ok true := rfl
  obtain ⟨hit, hread⟩ := Pattern.matchName_front hq hempty
  rw [List.append_nil] at hread
  obtain ⟨fuel, hfuel⟩ := d.exists_fuel q
  rw [hfuel, globWith, hread, hq]
  rfl

theorem hasMeta_clean_above {above c : Bytes}
    (h : Pattern.hasMeta (lead above ++ c) = false) : Pattern.hasMeta (Path.clean above) = false := by
  rw [Pattern.hasMeta_append, Bool.or_eq_false_iff] at h
  have hlead := h.1
  unfold lead at hlead
  by_cases hparts : parts above = []
  · rw [Path.clean_eq, hparts]
    cases Path.isAbsolute above <;> decide
  · rw [if_neg hparts, Pattern.hasMeta_append, Bool.or_eq_false_iff] at hlead
    exact hlead.1

/-- What a pattern finds that could be no name is a folder: the directory or the one above it. -/
theorem PlainPath.isFolder_of_glob (h : d.PlainPath dir) (hd : d.Genuine) (hat : d.FolderAt dir p)
    (hslash : slash ∉ pattern) (hpattern : ¬ Path.IsName pattern) :
    ∃ found, d.glob (Path.join [dir, pattern]) = .ok found ∧ ∀ q ∈ found, d.isFolder q = true := by
  have hclean := h.folderAt_clean hat
  have hdir := hat.dir_ne_nil
  -- it is enough that the path has no special byte and leads to a folder if it leads anywhere
  suffices hq : Pattern.hasMeta (Path.join [dir, pattern]) = false ∧
      (d.exists? (Path.join [dir, pattern]) = true →
        d.isFolder (Path.join [dir, pattern]) = true) by
    refine ⟨_, glob_plain hq.1, fun q hmem => ?_⟩
    split_ifs at hmem with hexists
    · rw [List.mem_singleton.mp hmem]
      exact hq.2 hexists
    · cases hmem
  rcases Path.join_not_name hdir hslash hpattern with
    hbelow | hsame | ⟨above, c, hne, hc, habove, hdirPath⟩
  · -- the path goes down to the folder and up again
    rw [hbelow]
    refine ⟨by rw [Pattern.hasMeta_append, Pattern.hasMeta_lead h.noMeta]; rfl, fun hexists => ?_⟩
    obtain ⟨q, hq⟩ := exists?_iff.mp hexists
    obtain ⟨left, hwalk⟩ := hclean.walk_lead (by decide) (by decide) (walkable_of_arrived hq) true
    have hup : d.advance true p [Path.parentMark] = .arrived p.dropLast :=
      advance_parent true [] hat.folder
    rw [walkFrom_of_advance hup (by simp)] at hwalk
    have hfolder : d.entry? p.dropLast = some .folder :=
      hd.tree.folder_dropLast (by simp [hat.folder])
    exact FolderAt.isFolder ⟨hwalk, hfolder⟩
  · rw [hsame]
    exact ⟨h.noMeta, fun _ => hclean.isFolder⟩
  · rw [habove]
    have hmeta := h.noMeta
    rw [hdirPath] at hmeta
    refine ⟨hasMeta_clean_above hmeta, fun hexists => ?_⟩
    obtain ⟨q, hq⟩ := exists?_iff.mp hexists
    have hwalk := hclean.arrives
    rw [hdirPath] at hwalk
    exact isFolder_of_below hne hc (walkable_of_arrived hq) hwalk

end Glob

/-- The names in a folder, in order, that a pattern matches and whose paths lead to no folder. -/
def matchingFiles (d : Disk) (dir pattern : Bytes) (p : Place) : List Bytes :=
  (d.names p).filter fun name =>
    Pattern.matchName pattern name = .ok true ∧ d.isFolder (Path.join [dir, name]) = false

theorem mem_matchingFiles {d : Disk} {dir pattern name : Bytes} {p : Place} :
    name ∈ d.matchingFiles dir pattern p ↔ d.entry? (p ++ [name]) ≠ none ∧
      Pattern.matchName pattern name = .ok true ∧ d.isFolder (Path.join [dir, name]) = false := by
  rw [matchingFiles, List.mem_filter, mem_names_iff, decide_eq_true_eq]

/-- The pattern for a folder finds its matching files, and else nothing but folders. -/
theorem PlainPath.exists_glob {d : Disk} {dir pattern : Bytes} {p : Place} (h : d.PlainPath dir)
    (hd : d.Genuine) (hat : d.FolderAt dir p) (hslash : slash ∉ pattern)
    (hformed : Pattern.WellFormed pattern)
    (hlong : Pattern.hasMeta pattern = true ∨ (Path.join [dir, pattern]).length ≤ longestPath) :
    ∃ found, d.glob (Path.join [dir, pattern]) = .ok found ∧
      found.filter (fun q => !d.isFolder q) =
        (d.matchingFiles dir pattern p).map fun name => Path.join [dir, name] := by
  by_cases hpattern : Path.IsName pattern
  · refine ⟨_, h.glob_names hd hat hpattern hformed hlong, ?_⟩
    rw [List.filter_map, Pattern.hits, List.filter_filter, matchingFiles]
    congr 1
    refine List.filter_congr fun name _ => ?_
    rw [Bool.eq_iff_iff]
    simp [and_comm]
  · obtain ⟨found, hfound, hfolders⟩ := h.isFolder_of_glob hd hat hslash hpattern
    have hnone : d.matchingFiles dir pattern p = [] := by
      rw [List.eq_nil_iff_forall_not_mem]
      intro name hname
      obtain ⟨hentry, hmatch, -⟩ := mem_matchingFiles.mp hname
      exact hpattern (Pattern.isName_of_matchName (hd.name hentry).1 hslash hmatch)
    refine ⟨found, hfound, ?_⟩
    rw [hnone, List.map_nil, List.filter_eq_nil_iff]
    intro q hq
    simp [hfolders q hq]

theorem FolderAt.patches_eq {d : Disk} {dir pattern : Bytes} {p : Place} (hat : d.FolderAt dir p)
    {found files : List Bytes} (hglob : d.glob (Path.join [dir, pattern]) = .ok found)
    (hfiles : found.filter (fun q => !d.isFolder q) = files) :
    d.patches dir pattern =
      if files = [] then .error (.noPatches dir pattern) else .ok (Path.sortByBase files) := by
  unfold patches
  rw [stat_of_arrived hat.arrives hat.folder]
  simp only [hglob, hfiles]
  cases files <;> rfl

/-- A pattern without special bytes whose path is too long finds nothing. -/
theorem PlainPath.patches_too_long {d : Disk} {dir pattern : Bytes} {p : Place}
    (h : d.PlainPath dir) (hd : d.Genuine) (hat : d.FolderAt dir p) (hslash : slash ∉ pattern)
    (hformed : Pattern.WellFormed pattern) (hmeta : Pattern.hasMeta pattern = false)
    (hlong : longestPath < (Path.join [dir, pattern]).length) :
    d.patches dir pattern = .error (.noPatches dir pattern) := by
  by_cases hpattern : Path.IsName pattern
  · have hglob := h.glob_wellFormed hat hpattern hformed
    have hnothing : ¬ d.exists? (Path.join [dir, pattern]) = true := by
      intro hexists
      obtain ⟨q, hq⟩ := exists?_iff.mp hexists
      have hshort := (walkable_of_arrived hq).short
      omega
    rw [if_neg (by simp [hmeta]), if_neg hnothing] at hglob
    exact hat.patches_eq hglob rfl
  · obtain ⟨found, hglob, hfolders⟩ := h.isFolder_of_glob hd hat hslash hpattern
    have hnone : found.filter (fun q => !d.isFolder q) = [] := by
      rw [List.filter_eq_nil_iff]
      intro q hq
      simp [hfolders q hq]
    exact hat.patches_eq hglob hnone

end Disk

/-- **The patches of a folder are its entries that match and are no folders**, each once, in the
order of their names, with paths that do not leave the folder; if there are none, this is the error.
An entry that is no link is a folder as it stands, and any other is what its path leads to.  The path
of the folder has to be plain, and a pattern without special bytes is looked up as a path, which
finds nothing if it is too long. -/
theorem patches_are_matching_files {d : Disk} {dir pattern : Bytes} {p : Place} (hd : d.Genuine)
    (hat : d.FolderAt dir p) (hplain : d.PlainPath dir) (hslash : Path.slash ∉ pattern)
    (hformed : Pattern.WellFormed pattern) :
    d.patches dir pattern =
        (if d.matchingFiles dir pattern p = [] ∨ Pattern.hasMeta pattern = false ∧
            Disk.longestPath < (Path.join [dir, pattern]).length then
          .error (.noPatches dir pattern)
        else .ok ((d.matchingFiles dir pattern p).map fun name => Path.join [dir, name])) ∧
      (∀ name, name ∈ d.matchingFiles dir pattern p ↔ d.entry? (p ++ [name]) ≠ none ∧
        Pattern.matchName pattern name = .ok true ∧
        d.isFolder (Path.join [dir, name]) = false) ∧
      (d.matchingFiles dir pattern p).Pairwise (· < ·) ∧
      (∀ name ∈ d.matchingFiles dir pattern p, Path.base (Path.join [dir, name]) = name ∧
        Path.parent (Path.join [dir, name]) = Path.clean dir) ∧
      ∀ name e, d.entry? (p ++ [name]) = some e → (∀ target, e ≠ .link target) →
        (Path.join [dir, name]).length ≤ Disk.longestPath →
        (d.isFolder (Path.join [dir, name]) = true ↔ e = .folder) := by
  have hpath : ∀ name ∈ d.matchingFiles dir pattern p, Path.base (Path.join [dir, name]) = name ∧
      Path.parent (Path.join [dir, name]) = Path.clean dir := by
    intro name hname
    have hisName := (hd.name (Disk.mem_matchingFiles.mp hname).1).1
    rw [Path.join_name hat.dir_ne_nil hisName]
    exact ⟨Path.base_lead dir hisName.ne_nil hisName.noSlash, Path.parent_lead dir hisName.noSlash⟩
  have hsorted : (d.matchingFiles dir pattern p).Pairwise (· < ·) := (hd.pairwise_names p).filter _
  have hfolder : ∀ name e, d.entry? (p ++ [name]) = some e → (∀ target, e ≠ .link target) →
      (Path.join [dir, name]).length ≤ Disk.longestPath →
      (d.isFolder (Path.join [dir, name]) = true ↔ e = .folder) := by
    intro name e hentry hlink hshort
    have hsome : d.entry? (p ++ [name]) ≠ none := by simp [hentry]
    have hisName := (hd.name hsome).1
    rw [Path.join_name hat.dir_ne_nil hisName] at hshort ⊢
    exact hd.isFolder_lead (hplain.folderAt_clean hat) hentry hlink hshort
  refine ⟨?_, fun name => Disk.mem_matchingFiles, hsorted, hpath, hfolder⟩
  by_cases hlong : Pattern.hasMeta pattern = false ∧
      Disk.longestPath < (Path.join [dir, pattern]).length
  · rw [if_pos (.inr hlong)]
    exact hplain.patches_too_long hd hat hslash hformed hlong.1 hlong.2
  have hshort : Pattern.hasMeta pattern = true ∨
      (Path.join [dir, pattern]).length ≤ Disk.longestPath := by
    cases hmeta : Pattern.hasMeta pattern with
    | true => exact .inl rfl
    | false => exact .inr (Nat.le_of_not_lt fun hlt => hlong ⟨hmeta, hlt⟩)
  obtain ⟨found, hglob, hfiles⟩ := hplain.exists_glob hd hat hslash hformed hshort
  rw [hat.patches_eq hglob hfiles]
  have hbases : ((d.matchingFiles dir pattern p).map fun name => Path.join [dir, name]).Pairwise
      fun a b => Path.base a < Path.base b := by
    rw [List.pairwise_map]
    refine hsorted.imp_of_mem fun ha hb hlt => ?_
    rwa [(hpath _ ha).1, (hpath _ hb).1]
  rw [Path.sortByBase_of_pairwise hbases]
  by_cases hnone : d.matchingFiles dir pattern p = []
  · rw [if_pos (by simp [hnone]), if_pos (.inl hnone)]
  · rw [if_neg (by simp [hnone]), if_neg (by simp [hnone, hlong])]

/-- A folder with a patch, a link to nowhere, a folder and a note in it. -/
def mixedDisk : Disk :=
  ⟨[(["q"], .folder), (["q", "b.patch"], .file "x"), (["q", "a.patch"], .link "gone"),
    (["q", "c.patch"], .folder), (["q", "note.txt"], .file "y")], []⟩

theorem mixedDisk_genuine : mixedDisk.Genuine where
  tree := Disk.isTree_of_entries (by decide)
  once := by decide
  named := by decide

theorem patches_are_matching_files_mixed :
    mixedDisk.patches "./q" "*.patch" = .ok ["q/a.patch", "q/b.patch"] := by
  have hat : mixedDisk.FolderAt "./q" ["q"] := ⟨by decide +kernel, by decide +kernel⟩
  have hplain : mixedDisk.PlainPath "./q" := ⟨by decide, by decide +kernel⟩
  have hformed : Pattern.WellFormed "*.patch" := Pattern.wellFormed_of_items (by decide +kernel)
  have hfound := (patches_are_matching_files mixedDisk_genuine hat hplain (by decide) hformed).1
  exact hfound.trans (by decide +kernel)

/-- A folder whose name is read as a pattern, next to the one that it matches, and a folder next to
where a link leads. -/
def bracketDisk : Disk :=
  ⟨[(["p[1]"], .folder), (["p[1]", "a.patch"], .file "x"), (["p1"], .folder),
    (["p1", "b.patch"], .file "y"), (["l"], .link "x/y"), (["x"], .folder), (["x", "y"], .folder),
    (["x", "q"], .folder), (["x", "q", "a.patch"], .file "x")], []⟩

/-- Where the path of a folder has a special byte, the patches of another folder are found instead of
its own; where cleaning the path changes where it leads, none are found. -/
theorem patches_of_another_folder :
    Pattern.matchName "*.patch" "a.patch" = .ok true ∧
    (bracketDisk.FolderAt "p[1]" ["p[1]"] ∧
      bracketDisk.matchingFiles "p[1]" "*.patch" ["p[1]"] = ["a.patch"] ∧
      bracketDisk.patches "p[1]" "*.patch" = .ok ["p1/b.patch"]) ∧
    bracketDisk.FolderAt "l/../q" ["x", "q"] ∧
      bracketDisk.names ["x", "q"] = ["a.patch"] ∧
      bracketDisk.isFolder "l/../q/a.patch" = false ∧
      bracketDisk.patches "l/../q" "*.patch" = .error (.noPatches "l/../q" "*.patch") := by
  refine ⟨?_, ⟨⟨?_, ?_⟩, ?_, ?_⟩, ⟨?_, ?_⟩, ?_, ?_, ?_⟩ <;> decide +kernel

end PatchAudit
