import PatchAudit.Proofs.CleanPaths
import PatchAudit.Proofs.FoundPatches
import PatchAudit.Proofs.PatternItems
import PatchAudit.Settings.Basic

/-!
# Patterns that can be used

The search for patches goes down from a folder part by part, so a pattern that settings are accepted
with is tried on other texts than the empty name it was accepted for.  `Disk.Reached` says which paths
the search comes to, and `Disk.Refuses` where it fails: at a text that cannot be read or at a name that
a part comes to a malformed segment with (`glob_error_iff`).  So a pattern is refused exactly then
(`refused_patterns`), and a pattern that settings accept can be refused, as one that they do not accept
need not be (`accepted_patterns_differ`).
-/

namespace PatchAudit

namespace Pattern

theorem hasMeta_join (cs : List Bytes) :
    hasMeta (Bytes.join [Path.slash] cs) = cs.any hasMeta := by
  unfold Bytes.join
  induction cs with
  | nil => rfl
  | cons c cs ih =>
    cases cs with
    | nil => simp
    | cons d cs =>
      have hslash : hasMeta [Path.slash] = false := by decide
      rw [List.intercalate_cons_cons, hasMeta_append, hasMeta_append, ih, hslash, Bool.or_false]
      rfl

theorem hasMeta_ofParts (rooted : Bool) (cs : List Bytes) :
    hasMeta (Path.ofParts rooted cs) = cs.any hasMeta := by
  have hslash : ∀ p, hasMeta (Path.slash :: p) = hasMeta p := fun _ => rfl
  unfold Path.ofParts
  split_ifs with hrooted hempty
  · rw [hslash, hasMeta_join]
  · rw [List.isEmpty_iff.mp hempty]
    decide
  · exact hasMeta_join cs

/-- A first segment that cannot be read is come to at every name. -/
theorem matchName_error {p : Bytes} (h : ¬ Opens p) (name : Bytes) :
    matchName p name = .error .malformed := by
  cases hmatch : matchName p name with
  | error why => cases why; rfl
  | ok hit => exact absurd (matchName_nil hmatch) h

end Pattern

namespace Path

/-- The parts of a path in front of the first one with a special byte. -/
def plainParts (p : Bytes) : List Bytes := (parts p).takeWhile fun c => !Pattern.hasMeta c

/-- The parts of a path from the first one with a special byte on. -/
def specialParts (p : Bytes) : List Bytes := (parts p).dropWhile fun c => !Pattern.hasMeta c

theorem plainParts_append (p : Bytes) : plainParts p ++ specialParts p = parts p :=
  List.takeWhile_append_dropWhile

theorem plain_plainParts (p : Bytes) : (plainParts p).any Pattern.hasMeta = false := by
  rw [List.any_eq_false]
  intro c hc
  simpa using List.mem_takeWhile_imp hc

theorem specialParts_cases (p : Bytes) :
    specialParts p = [] ∨ ∃ c rest, specialParts p = c :: rest ∧ Pattern.hasMeta c = true := by
  cases hspecial : specialParts p with
  | nil => exact .inl rfl
  | cons c rest =>
    have hnot := List.head?_dropWhile_not (fun c => !Pattern.hasMeta c) (parts p)
    rw [← specialParts, hspecial] at hnot
    exact .inr ⟨c, rest, rfl, by simpa using hnot⟩

/-- A path is at least as long as it has parts. -/
theorem length_le_join {cs : List Bytes} (h : ∀ c ∈ cs, c ≠ []) :
    cs.length ≤ (Bytes.join [slash] cs).length := by
  unfold Bytes.join
  induction cs with
  | nil => simp
  | cons c cs ih =>
    obtain ⟨hc, hcs⟩ := List.forall_mem_cons.mp h
    have hpos : 0 < c.length := List.length_pos_iff.mpr hc
    have hrest := ih hcs
    cases cs with
    | nil => simpa using Nat.succ_le_of_lt hpos
    | cons x cs =>
      rw [List.intercalate_cons_cons, List.length_append, List.length_append, List.length_cons]
      simp only [List.length_singleton]
      omega

theorem length_parts_le (p : Bytes) : (parts p).length ≤ (clean p).length := by
  have hjoin := length_le_join fun c hc => (mem_parts (p := p) hc).1
  rw [clean_eq]
  split_ifs with hrooted hempty
  · simp only [List.length_cons]
    omega
  · simp [List.isEmpty_iff.mp hempty]
  · exact hjoin

end Path

namespace Disk

open PatchAudit.Path (slash lead ofParts Tidy plainParts specialParts)
open Pattern (hasMeta matchName Opens)

variable {d : Disk}

/-! ### One folder -/

theorem matching_error_iff {p : Bytes} {names : List Bytes} :
    matching p names = .error .malformed ↔ ∃ name ∈ names, matchName p name = .error .malformed := by
  induction names with
  | nil => simp [matching]
  | cons name rest ih =>
    rw [matching, List.exists_mem_cons_iff, ← ih]
    cases matchName p name with
    | error why =>
      cases why
      simp [bind, Except.bind]
    | ok hit => cases matching p rest <;> simp [bind, Except.bind, pure, Except.pure]

theorem mem_of_matching {p q : Bytes} {names found : List Bytes} (h : matching p names = .ok found) :
    q ∈ found ↔ q ∈ names ∧ matchName p q = .ok true := by
  induction names generalizing found with
  | nil =>
    cases h
    simp
  | cons name rest ih =>
    obtain ⟨hit, hhit, hmore⟩ := Diff.ok_of_bind h
    obtain ⟨more, hrest, hdone⟩ := Diff.ok_of_bind hmore
    cases hdone
    rw [List.mem_cons, or_and_right, ← ih hrest]
    have hname : q = name ∧ matchName p q = .ok true ↔ q = name ∧ hit = true := by
      refine and_congr_right fun heq => ?_
      rw [heq, hhit, Except.ok.injEq]
    rw [hname]
    cases hit <;> simp

theorem globIn_error_iff {folder p : Bytes} :
    d.globIn folder p = .error .malformed ↔
      d.isFolder folder = true ∧ ∃ name ∈ d.namesAt folder, matchName p name = .error .malformed := by
  rw [← matching_error_iff, globIn]
  split_ifs with hfolder
  · cases matching p (d.namesAt folder) <;> simp [hfolder, bind, Except.bind, pure, Except.pure]
  · simp [hfolder]

theorem mem_of_globIn {folder p q : Bytes} {found : List Bytes} (h : d.globIn folder p = .ok found) :
    q ∈ found ↔ d.isFolder folder = true ∧ ∃ name ∈ d.namesAt folder,
      matchName p name = .ok true ∧ q = Path.join [folder, name] := by
  unfold globIn at h
  split_ifs at h with hfolder
  · obtain ⟨names, hnames, hdone⟩ := Diff.ok_of_bind h
    cases hdone
    simp only [List.mem_map, mem_of_matching hnames, hfolder, true_and, and_assoc, eq_comm]
  · cases h
    simp [hfolder]

theorem globInAll_error_iff {p : Bytes} {folders : List Bytes} :
    d.globInAll p folders = .error .malformed ↔
      ∃ folder ∈ folders, d.globIn folder p = .error .malformed := by
  induction folders with
  | nil => simp [globInAll]
  | cons folder rest ih =>
    rw [globInAll, List.exists_mem_cons_iff, ← ih]
    cases d.globIn folder p with
    | error why =>
      cases why
      simp [bind, Except.bind]
    | ok here => cases d.globInAll p rest <;> simp [bind, Except.bind, pure, Except.pure]

theorem mem_of_globInAll {p q : Bytes} {folders found : List Bytes}
    (h : d.globInAll p folders = .ok found) :
    q ∈ found ↔ ∃ folder ∈ folders, d.isFolder folder = true ∧ ∃ name ∈ d.namesAt folder,
      matchName p name = .ok true ∧ q = Path.join [folder, name] := by
  induction folders generalizing found with
  | nil =>
    cases h
    simp
  | cons folder rest ih =>
    obtain ⟨here, hhere, hmore⟩ := Diff.ok_of_bind h
    obtain ⟨more, hrest, hdone⟩ := Diff.ok_of_bind hmore
    cases hdone
    rw [List.mem_append, List.exists_mem_cons_iff, mem_of_globIn hhere, ih hrest]

theorem globInAll_singleton (folder p : Bytes) : d.globInAll p [folder] = d.globIn folder p := by
  rw [globInAll]
  cases d.globIn folder p <;> simp [globInAll, bind, Except.bind, pure, Except.pure]

/-! ### From folder to folder -/

/-- The paths that are reached from a folder when parts are laid against names, one part for each
step down. -/
inductive Reached (d : Disk) (base : Bytes) : List Bytes → Bytes → Prop
  | start : Reached d base [] base
  | down {cs : List Bytes} {folder c name : Bytes} (above : Reached d base cs folder)
      (isFolder : d.isFolder folder = true) (there : name ∈ d.namesAt folder)
      (fits : matchName c name = .ok true) :
      Reached d base (cs ++ [c]) (Path.join [folder, name])

theorem reached_nil_iff {base q : Bytes} : d.Reached base [] q ↔ q = base := by
  constructor
  · intro h
    generalize hcs : ([] : List Bytes) = cs at h
    cases h with
    | start => rfl
    | down => simp at hcs
  · rintro rfl
    exact .start

theorem reached_concat_iff {base c q : Bytes} {cs : List Bytes} :
    d.Reached base (cs ++ [c]) q ↔ ∃ folder, d.Reached base cs folder ∧ d.isFolder folder = true ∧
      ∃ name ∈ d.namesAt folder, matchName c name = .ok true ∧ q = Path.join [folder, name] := by
  constructor
  · intro h
    generalize hall : cs ++ [c] = all at h
    cases h with
    | start => simp at hall
    | down above isFolder there fits =>
      obtain ⟨rfl, hlast⟩ := List.append_inj' hall rfl
      cases hlast
      exact ⟨_, above, isFolder, _, there, fits, rfl⟩
  · rintro ⟨folder, above, isFolder, name, there, fits, rfl⟩
    exact above.down isFolder there fits

/-- A part fails below others: the text up to it cannot be read, or it comes to a malformed segment at
a name of a folder that the others lead to. -/
def FailsAt (d : Disk) (rooted : Bool) (front cs : List Bytes) (c : Bytes) : Prop :=
  ¬ Opens (ofParts rooted (front ++ (cs ++ [c]))) ∨
    ∃ folder, d.Reached (ofParts rooted front) cs folder ∧ d.isFolder folder = true ∧
      ∃ name ∈ d.namesAt folder, matchName c name = .error .malformed

/-- Some part of a row fails below those in front of it. -/
def FailsIn (d : Disk) (rooted : Bool) (front cs : List Bytes) : Prop :=
  ∃ above c, above ++ [c] <+: cs ∧ d.FailsAt rooted front above c

theorem not_failsIn_nil {rooted : Bool} {front : List Bytes} : ¬ d.FailsIn rooted front [] := by
  rintro ⟨above, c, hbegins, -⟩
  simpa using List.prefix_nil.mp hbegins

theorem failsIn_concat_iff {rooted : Bool} {front cs : List Bytes} {c : Bytes} :
    d.FailsIn rooted front (cs ++ [c]) ↔ d.FailsIn rooted front cs ∨ d.FailsAt rooted front cs c := by
  constructor
  · rintro ⟨above, x, hbegins, hfails⟩
    rcases List.prefix_concat_iff.mp hbegins with heq | hbegins
    · obtain ⟨rfl, hlast⟩ := List.append_inj' heq rfl
      cases hlast
      exact .inr hfails
    · exact .inl ⟨above, x, hbegins, hfails⟩
  · rintro (⟨above, x, hbegins, hfails⟩ | hfails)
    · exact ⟨above, x, hbegins.trans (List.prefix_append _ _), hfails⟩
    · exact ⟨cs, c, List.prefix_rfl, hfails⟩

/-- What a search for parts is known to give. -/
structure Searches (d : Disk) (base : Bytes) (cs : List Bytes) (fails : Prop)
    (result : Except Pattern.Fault (List Bytes)) : Prop where
  error_iff : result = .error .malformed ↔ fails
  mem_iff : ∀ found, result = .ok found → ∀ q, q ∈ found ↔ d.Reached base cs q

/-- A step of the search, from the paths above to the names in them. -/
theorem Searches.step {base : Bytes} {cs : List Bytes} {fails : Prop}
    {above : Except Pattern.Fault (List Bytes)} (h : d.Searches base cs fails above) (c : Bytes) :
    d.Searches base (cs ++ [c])
      (fails ∨ ∃ folder, d.Reached base cs folder ∧ d.isFolder folder = true ∧
        ∃ name ∈ d.namesAt folder, matchName c name = .error .malformed)
      (above >>= d.globInAll c) where
  error_iff := by
    cases above with
    | error why =>
      cases why
      simp [h.error_iff.mp rfl, bind, Except.bind]
    | ok folders =>
      have hfine : ¬ fails := fun hfails => by
        cases h.error_iff.mpr hfails
      simp only [bind, Except.bind, globInAll_error_iff, globIn_error_iff, h.mem_iff folders rfl, hfine,
        false_or]
  mem_iff found hfound q := by
    obtain ⟨folders, hfolders, hbelow⟩ := Diff.ok_of_bind hfound
    simp only [mem_of_globInAll hbelow, h.mem_iff folders hfolders, reached_concat_iff]

/-- Trying the text first adds a way to fail. -/
theorem Searches.after {base : Bytes} {cs : List Bytes} {fails : Prop}
    {result : Except Pattern.Fault (List Bytes)} (h : d.Searches base cs fails result) (text : Bytes) :
    d.Searches base cs (¬ Opens text ∨ fails) (do
      let _ ← matchName text []
      result) := by
  have hopens := @Pattern.opens_iff_isOk text
  cases hread : matchName text [] with
  | error why =>
    cases why
    rw [hread] at hopens
    exact ⟨by simp [hopens, bind, Except.bind, Except.isOk, Except.toBool],
      fun found hfound => by cases hfound⟩
  | ok hit =>
    rw [hread] at hopens
    have hopen : Opens text := hopens.mpr rfl
    exact ⟨by simp [hopen, bind, Except.bind, h.error_iff], h.mem_iff⟩

theorem searches_start (base : Bytes) : d.Searches base [] False (.ok [base]) where
  error_iff := by simp
  mem_iff found hfound q := by
    cases hfound
    rw [List.mem_singleton, reached_nil_iff]

section Levels

variable {rooted : Bool} {front cs : List Bytes} {c : Bytes}

/-- A pattern is taken apart at its last part. -/
theorem globWith_concat (htidy : Tidy rooted (front ++ (cs ++ [c])))
    (hmeta : (cs ++ [c]).any hasMeta = true) (fuel : Nat) :
    d.globWith (fuel + 1) (ofParts rooted (front ++ (cs ++ [c]))) = (do
      let _ ← matchName (ofParts rooted (front ++ (cs ++ [c]))) []
      (if (front ++ cs).any hasMeta then d.globWith fuel (ofParts rooted (front ++ cs))
        else .ok [ofParts rooted (front ++ cs)]) >>= d.globInAll c) := by
  rw [← List.append_assoc] at htidy ⊢
  have hslash : slash ∉ c := (htidy.part c (by simp)).2.1
  have hfolder : globFolder (ofParts rooted ((front ++ cs) ++ [c])) = ofParts rooted (front ++ cs) := by
    rw [htidy.ofParts_concat, globFolder_lead _ hslash, htidy.front.clean_eq]
  have hname : Path.afterLast (ofParts rooted ((front ++ cs) ++ [c])) = c := by
    rw [htidy.ofParts_concat, Path.afterLast_lead _ hslash]
  have hshorter : ofParts rooted (front ++ cs) ≠ ofParts rooted ((front ++ cs) ++ [c]) := by
    intro heq
    have hparts := congrArg Path.parts heq
    rw [htidy.parts_eq, htidy.front.parts_eq] at hparts
    simp at hparts
  have hspecial : hasMeta (ofParts rooted ((front ++ cs) ++ [c])) = true := by
    rw [Pattern.hasMeta_ofParts, List.append_assoc, List.any_append, hmeta, Bool.or_true]
  have habove := Pattern.hasMeta_ofParts rooted (front ++ cs)
  rw [globWith, hspecial, hfolder, hname]
  simp only [habove]
  congr 1
  funext _
  cases (front ++ cs).any hasMeta with
  | true =>
    simp only [Bool.not_true, Bool.false_eq_true, if_false, if_true, if_neg hshorter]
  | false => simp [bind, Except.bind, globInAll_singleton]

/-- **What a search gives**: it fails if its fuel does not last for all parts or one of them fails, and
else it finds the paths that are reached. -/
theorem searches_parts (htidy : Tidy rooted (front ++ cs)) (hfront : front.any hasMeta = false)
    (hcs : ∃ c rest, cs = c :: rest ∧ hasMeta c = true) (fuel : Nat) :
    d.Searches (ofParts rooted front) cs (fuel < cs.length ∨ d.FailsIn rooted front cs)
      (d.globWith fuel (ofParts rooted (front ++ cs))) := by
  induction cs using List.reverseRecOn generalizing fuel with
  | nil => simp at hcs
  | append_singleton cs c ih =>
    have hmeta : (cs ++ [c]).any hasMeta = true := by
      obtain ⟨b, rest, heq, hb⟩ := hcs
      rw [heq, List.any_cons, hb, Bool.true_or]
    cases fuel with
    | zero => exact ⟨by simp [globWith], fun found hfound => by cases hfound⟩
    | succ fuel =>
      rw [globWith_concat htidy hmeta]
      -- the paths that the parts in front of the last one lead to
      have habove : d.Searches (ofParts rooted front) cs
          (fuel + 1 < (cs ++ [c]).length ∨ d.FailsIn rooted front cs)
          (if (front ++ cs).any hasMeta then d.globWith fuel (ofParts rooted (front ++ cs))
            else .ok [ofParts rooted (front ++ cs)]) := by
        cases cs with
        | nil => simpa [hfront, not_failsIn_nil] using d.searches_start (ofParts rooted front)
        | cons b rest =>
          obtain ⟨b', rest', heq, hb⟩ := hcs
          obtain ⟨rfl, -⟩ := List.cons.inj heq
          have hany : (front ++ b :: rest).any hasMeta = true := by simp [hb]
          rw [← List.append_assoc] at htidy
          simpa [hany] using ih htidy.front ⟨b, rest, rfl, hb⟩ fuel
      have hall := (habove.step c).after (ofParts rooted (front ++ (cs ++ [c])))
      refine ⟨hall.error_iff.trans ?_, hall.mem_iff⟩
      rw [failsIn_concat_iff, FailsAt]
      tauto

end Levels

/-- The number of parts that a search for a pattern can go down. -/
def mostLevels : Nat := 10000

/-- The search for a pattern fails: it goes down too far, or one of its parts fails. -/
def Refuses (d : Disk) (path : Bytes) : Prop :=
  mostLevels < (specialParts path).length ∨
    d.FailsIn (Path.isAbsolute path) (plainParts path) (specialParts path)

/-- **Where the search for a clean pattern fails.** -/
theorem glob_error_iff {path : Bytes} (hclean : Path.clean path = path) :
    d.glob path = .error .malformed ↔ d.Refuses path := by
  have hparts := Path.plainParts_append path
  have hpath : ofParts (Path.isAbsolute path) (plainParts path ++ specialParts path) = path := by
    rw [hparts, ← Path.clean_eq_ofParts, hclean]
  rcases Path.specialParts_cases path with hspecial | hspecial
  · have hplain : hasMeta path = false := by
      rw [← hpath, hspecial, List.append_nil, Pattern.hasMeta_ofParts, Path.plain_plainParts]
    rw [glob_plain hplain, Refuses, hspecial]
    simp [not_failsIn_nil]
  · have htidy : Tidy (Path.isAbsolute path) (plainParts path ++ specialParts path) := by
      rw [hparts]
      exact Path.tidy_parts path
    have hsearch := d.searches_parts htidy (Path.plain_plainParts path) hspecial
      (min (path.length + 1) 10000)
    have hlength := Path.length_parts_le path
    rw [hclean, ← hparts, List.length_append] at hlength
    rw [hpath] at hsearch
    rw [glob, hsearch.error_iff, Refuses, mostLevels]
    exact or_congr_left (by omega)

/-- The search for patches fails with the pattern just if its part below the directory is refused. -/
theorem patches_badPattern_iff {dir pattern : Bytes} (hfolder : d.stat dir = .ok .folder) :
    d.patches dir pattern = .error (.badPattern pattern) ↔ d.Refuses (Path.join [dir, pattern]) := by
  have hdir : dir ≠ [] := by
    rintro rfl
    cases hfolder
  have hclean : Path.clean (Path.join [dir, pattern]) = Path.join [dir, pattern] := by
    rw [Path.join_pair hdir, Path.clean_clean]
  rw [← glob_error_iff hclean, patches, hfolder]
  cases d.glob (Path.join [dir, pattern]) with
  | error why =>
    cases why
    simp
  | ok found =>
    simp only [reduceCtorEq, iff_false]
    split <;> simp

/-! ### Patterns below a plain directory -/

section Below

variable {dir pattern : Bytes}

theorem hasMeta_of_infix {p q : Bytes} (h : p <:+: q) (hq : hasMeta q = false) : hasMeta p = false := by
  simp only [hasMeta, List.any_eq_false] at hq ⊢
  exact fun b hb => hq b (h.subset hb)

theorem hasMeta_of_mem_components {p c : Bytes} (hp : hasMeta p = false) (hc : c ∈ Path.components p) :
    hasMeta c = false :=
  hasMeta_of_infix (Bytes.infix_of_mem_splitOn (List.mem_of_mem_filter hc)) hp

/-- The parts of a path below a directory are components of one of both. -/
theorem mem_parts_join (hdir : dir ≠ []) {c : Bytes} (hc : c ∈ Path.parts (Path.join [dir, pattern])) :
    c ∈ Path.components dir ∨ c ∈ Path.components pattern := by
  rw [Path.join_pair hdir, Path.parts_clean, Path.parts, List.mem_reverse] at hc
  rcases Path.mem_of_mem_foldl _ hc with hc | hc
  · rwa [Path.components_append, List.mem_append] at hc
  · exact absurd hc List.not_mem_nil

theorem wellFormed_plain {p : Bytes} (hp : hasMeta p = false) : Pattern.WellFormed p := by
  intro name
  by_cases hne : p = []
  · exact ⟨name.isEmpty, by rw [hne]; rfl⟩
  · exact ⟨_, Pattern.matchName_plain hp hne name⟩

theorem opens_join {cs : List Bytes} (h : ∀ c ∈ cs, Opens c) : Opens (Bytes.join [slash] cs) := by
  unfold Bytes.join
  induction cs with
  | nil => exact ⟨true, rfl⟩
  | cons c cs ih =>
    obtain ⟨hc, hcs⟩ := List.forall_mem_cons.mp h
    cases cs with
    | nil => simpa using hc
    | cons x cs =>
      rw [List.intercalate_cons_cons, List.append_assoc]
      exact Pattern.opens_below hc (ih hcs)

theorem opens_ofParts {cs : List Bytes} (h : ∀ c ∈ cs, Opens c) (rooted : Bool) :
    Opens (ofParts rooted cs) := by
  have hnil : Opens [] := ⟨true, rfl⟩
  unfold ofParts
  split_ifs
  · exact Pattern.opens_below hnil (opens_join h)
  · exact ⟨false, rfl⟩
  · exact opens_join h

/-- Parts that can be laid against every name do not fail. -/
theorem not_failsIn_of_wellFormed {rooted : Bool} {front cs : List Bytes}
    (h : ∀ c ∈ front ++ cs, Pattern.WellFormed c) : ¬ d.FailsIn rooted front cs := by
  rintro ⟨above, c, hbegins, hfails⟩
  have hsub : ∀ x ∈ front ++ (above ++ [c]), Pattern.WellFormed x := by
    intro x hx
    refine h x ?_
    rcases List.mem_append.mp hx with hx | hx
    · exact List.mem_append_left _ hx
    · exact List.mem_append_right _ (hbegins.subset hx)
  rcases hfails with htext | ⟨folder, -, -, name, -, herror⟩
  · exact htext (opens_ofParts (fun x hx => hsub x hx []) rooted)
  · obtain ⟨hit, hhit⟩ := hsub c (by simp) name
    rw [hhit] at herror
    cases herror

theorem refuses_iff_of_wellFormed (hdir : dir ≠ []) (hplain : hasMeta dir = false)
    (h : ∀ c ∈ Path.components pattern, Pattern.WellFormed c) :
    d.Refuses (Path.join [dir, pattern]) ↔
      mostLevels < (specialParts (Path.join [dir, pattern])).length := by
  refine or_iff_left (not_failsIn_of_wellFormed fun c hc => ?_)
  rw [Path.plainParts_append] at hc
  rcases mem_parts_join hdir hc with hc | hc
  · exact wellFormed_plain (hasMeta_of_mem_components hplain hc)
  · exact h c hc

/-- A path without special bytes is not refused. -/
theorem not_refuses_plain (hdir : dir ≠ []) (hplain : hasMeta dir = false)
    (hpattern : hasMeta pattern = false) : ¬ d.Refuses (Path.join [dir, pattern]) := by
  rw [refuses_iff_of_wellFormed hdir hplain fun c hc =>
    wellFormed_plain (hasMeta_of_mem_components hpattern hc)]
  have hnone : specialParts (Path.join [dir, pattern]) = [] := by
    refine (Path.specialParts_cases _).resolve_right ?_
    rintro ⟨c, rest, heq, hc⟩
    have hmem : c ∈ Path.parts (Path.join [dir, pattern]) := by
      rw [← Path.plainParts_append, heq]
      simp
    rcases mem_parts_join hdir hmem with hmem | hmem
    · simp [hasMeta_of_mem_components hplain hmem] at hc
    · simp [hasMeta_of_mem_components hpattern hmem] at hc
  simp [hnone]

theorem hasMeta_clean (hplain : hasMeta dir = false) : hasMeta (Path.clean dir) = false := by
  rw [Path.clean_eq_ofParts, Pattern.hasMeta_ofParts, List.any_eq_false]
  intro c hc
  have hcomponent : c ∈ Path.components dir := by
    rcases Path.mem_of_mem_foldl _ (List.mem_reverse.mp hc) with hc | hc
    · exact hc
    · exact absurd hc List.not_mem_nil
  simp [hasMeta_of_mem_components hplain hcomponent]

theorem isName_of_hasMeta (hslash : slash ∉ pattern) (hmeta : hasMeta pattern = true) :
    Path.IsName pattern where
  ne_nil := by
    rintro rfl
    cases hmeta
  noSlash := hslash
  notStay := by
    rintro rfl
    cases hmeta
  notParent := by
    rintro rfl
    cases hmeta

/-- A pattern for the names of a folder is refused for its text, or for a name in the folder. -/
theorem refuses_name_iff (hdir : dir ≠ []) (hplain : hasMeta dir = false) (hslash : slash ∉ pattern)
    (hmeta : hasMeta pattern = true) :
    d.Refuses (Path.join [dir, pattern]) ↔ ¬ Opens (lead dir ++ pattern) ∨
      d.isFolder (Path.clean dir) = true ∧
        ∃ name ∈ d.namesAt (Path.clean dir), matchName pattern name = .error .malformed := by
  have hname := isName_of_hasMeta hslash hmeta
  have habsolute : Path.isAbsolute (Path.join [dir, pattern]) = Path.isAbsolute dir := by
    rw [Path.join_pair hdir, Path.isAbsolute_clean, Path.isAbsolute_append hdir]
  have hparts : Path.parts (Path.join [dir, pattern]) = Path.parts dir ++ [pattern] := by
    rw [Path.join_pair hdir, Path.parts_clean, Path.parts_below hdir hname]
  have hfront : ∀ c ∈ Path.parts dir, (!hasMeta c) = true := by
    have hclean := hasMeta_clean hplain
    rw [Path.clean_eq_ofParts, Pattern.hasMeta_ofParts, List.any_eq_false] at hclean
    intro c hc
    simpa using hclean c hc
  have hplainParts : plainParts (Path.join [dir, pattern]) = Path.parts dir := by
    rw [plainParts, hparts, List.takeWhile_append_of_pos hfront]
    simp [hmeta]
  have hspecial : specialParts (Path.join [dir, pattern]) = [pattern] := by
    rw [specialParts, hparts, List.dropWhile_append_of_pos hfront]
    simp [hmeta]
  have htext : ofParts (Path.isAbsolute dir) (Path.parts dir ++ [pattern]) = lead dir ++ pattern := by
    rw [← habsolute, ← hparts, ← Path.clean_eq_ofParts, ← Path.join_name hdir hname,
      Path.join_pair hdir, Path.clean_clean]
  have hlast := @failsIn_concat_iff d (Path.isAbsolute dir) (Path.parts dir) [] pattern
  rw [List.nil_append, FailsAt, List.nil_append, htext, ← Path.clean_eq_ofParts] at hlast
  have hlevels : ¬ mostLevels < [pattern].length := by simp [mostLevels]
  rw [Refuses, habsolute, hplainParts, hspecial, hlast, or_iff_right hlevels]
  simp only [not_failsIn_nil, false_or, reached_nil_iff, exists_eq_left]

theorem lead_eq_nil_iff : lead dir = [] ↔ Path.clean dir = stayMark := by
  unfold lead
  by_cases hparts : Path.parts dir = []
  · rw [if_pos hparts, Path.clean_eq_ofParts, hparts]
    cases Path.isAbsolute dir <;> decide
  · rw [if_neg hparts]
    refine iff_of_false (by simp) fun hclean => hparts ?_
    rw [← Path.components_clean, hclean]
    decide

end Below

end Disk

/-! ### Patterns of settings -/

namespace Settings

variable {s : Settings}

theorem opens_of_usable (h : s.fault? = none) : Pattern.Opens s.pattern := by
  rw [Pattern.opens_iff_isOk]
  unfold fault? at h
  split_ifs at h with _ hread
  all_goals simpa using hread

theorem not_opens_of_badPattern (h : s.fault? = some (.badPattern s.pattern)) :
    ¬ Pattern.Opens s.pattern := by
  rw [Pattern.opens_iff_isOk]
  intro hread
  unfold fault? at h
  rw [hread] at h
  split_ifs at h <;> simp_all

end Settings

/-- **When a pattern is refused.**  In a directory whose path has no special byte, the search fails
with the pattern exactly if it goes down too far or one of its parts fails; so a pattern whose
components can be laid against every name is refused only for its depth.  A pattern without a slash that
settings accept is refused just if it cannot be laid against a name in the folder, and one that they do
not accept is refused unless it begins with a star and there is no name to lay it against; only in the
working directory it is refused in any case. -/
theorem refused_patterns {d : Disk} {dir : Bytes} {s : Settings} (hfolder : d.stat dir = .ok .folder)
    (hplain : Pattern.hasMeta dir = false) :
    (d.patches dir s.pattern = .error (.badPattern s.pattern) ↔
      Disk.mostLevels < (Path.specialParts (Path.join [dir, s.pattern])).length ∨
        d.FailsIn (Path.isAbsolute (Path.join [dir, s.pattern]))
          (Path.plainParts (Path.join [dir, s.pattern]))
          (Path.specialParts (Path.join [dir, s.pattern]))) ∧
      ((∀ c ∈ Path.components s.pattern, Pattern.WellFormed c) →
        (d.patches dir s.pattern = .error (.badPattern s.pattern) ↔
          Disk.mostLevels < (Path.specialParts (Path.join [dir, s.pattern])).length)) ∧
      (s.fault? = none → Path.slash ∉ s.pattern →
        (d.patches dir s.pattern = .error (.badPattern s.pattern) ↔
          d.isFolder (Path.clean dir) = true ∧ ∃ name ∈ d.namesAt (Path.clean dir),
            Pattern.matchName s.pattern name = .error .malformed)) ∧
      (s.fault? = some (.badPattern s.pattern) → Path.slash ∉ s.pattern →
        (d.patches dir s.pattern = .error (.badPattern s.pattern) ↔
          s.pattern.head? ≠ some 0x2A ∨ Path.clean dir = Disk.stayMark ∨
            d.isFolder (Path.clean dir) = true ∧ d.namesAt (Path.clean dir) ≠ [])) := by
  have hdir : dir ≠ [] := by
    rintro rfl
    cases hfolder
  have hlead : Pattern.hasMeta (Path.lead dir) = false :=
    Pattern.hasMeta_lead (Disk.hasMeta_clean hplain)
  rw [Disk.patches_badPattern_iff hfolder]
  refine ⟨Iff.rfl, Disk.refuses_iff_of_wellFormed hdir hplain, fun husable hslash => ?_,
    fun hbad hslash => ?_⟩
  · have hopens := Settings.opens_of_usable husable
    cases hmeta : Pattern.hasMeta s.pattern with
    | false =>
      refine iff_of_false (Disk.not_refuses_plain hdir hplain hmeta) ?_
      rintro ⟨-, name, -, herror⟩
      obtain ⟨hit, hhit⟩ := Disk.wellFormed_plain hmeta name
      rw [hhit] at herror
      cases herror
    | true =>
      have htext : Pattern.Opens (Path.lead dir ++ s.pattern) := by
        obtain ⟨hit, hhit⟩ := hopens
        exact Pattern.matchName_front hlead hhit
      rw [Disk.refuses_name_iff hdir hplain hslash hmeta]
      exact or_iff_right (not_not_intro htext)
  · have hclosed := Settings.not_opens_of_badPattern hbad
    have hmeta : Pattern.hasMeta s.pattern = true := by
      by_contra hplainPattern
      exact hclosed (Disk.wellFormed_plain (Bool.eq_false_iff.mpr hplainPattern) [])
    have hevery := Pattern.matchName_error hclosed
    have htext : ¬ Pattern.Opens (Path.lead dir ++ s.pattern) ↔
        s.pattern.head? ≠ some 0x2A ∨ Path.clean dir = Disk.stayMark := by
      rw [← Disk.lead_eq_nil_iff]
      by_cases hempty : Path.lead dir = []
      · simp [hempty, hclosed]
      · simp [Pattern.opens_behind_iff hlead hempty, hclosed, hempty]
    rw [Disk.refuses_name_iff hdir hplain hslash hmeta, htext, or_assoc]
    have hnames : (∃ name ∈ d.namesAt (Path.clean dir),
        Pattern.matchName s.pattern name = .error .malformed) ↔ d.namesAt (Path.clean dir) ≠ [] := by
      simp only [hevery, and_true]
      exact ⟨fun ⟨name, hname⟩ => List.ne_nil_of_mem hname, List.exists_mem_of_ne_nil _⟩
    rw [hnames]

/-- Two folders, one with a file in it. -/
def twoFolders : Disk :=
  ⟨[(["p"], .folder), (["p", "a.patch"], .file "x"), (["q"], .folder)], []⟩

/-- The bracket that is never closed is read as soon as a name begins with the letter before the star. -/
theorem refused_patterns_open_bracket :
    twoFolders.stat "p" = .ok .folder ∧ Pattern.hasMeta "p" = false ∧
      Settings.fault? { pattern := "a*[b" } = none ∧
      twoFolders.patches "p" "a*[b" = .error (.badPattern "a*[b") := by
  have hfolder : twoFolders.stat "p" = .ok .folder := by decide +kernel
  have hplain : Pattern.hasMeta "p" = false := by decide
  have husable : Settings.fault? { pattern := "a*[b" } = none := by decide +kernel
  have hrefused := (@refused_patterns twoFolders "p" { pattern := "a*[b" } hfolder hplain).2.2.1
  refine ⟨hfolder, hplain, husable, (hrefused husable (by decide)).mpr ?_⟩
  decide +kernel

/-- Patterns that settings accept and the search refuses, and patterns that settings do not accept and
the search finds a patch with, or just none. -/
theorem accepted_patterns_differ :
    (twoFolders.stat "p" = .ok .folder ∧ twoFolders.stat "q" = .ok .folder ∧
      Pattern.hasMeta "p" = false ∧ Pattern.hasMeta "q" = false) ∧
    Settings.fault? { pattern := "[^/]*.patch" } = none ∧
    twoFolders.patches "p" "[^/]*.patch" = .error (.badPattern "[^/]*.patch") ∧
    Settings.fault? { pattern := "[/../*.patch" } = some (.badPattern "[/../*.patch") ∧
    twoFolders.patches "p" "[/../*.patch" = .ok ["p/a.patch"] ∧
    Settings.fault? { pattern := "*[" } = some (.badPattern "*[") ∧
    twoFolders.patches "q" "*[" = .error (.noPatches "q" "*[") := by
  refine ⟨⟨?_, ?_, ?_, ?_⟩, ?_, ?_, ?_, ?_, ?_, ?_⟩ <;> decide +kernel

end PatchAudit
