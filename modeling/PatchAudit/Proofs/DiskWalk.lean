import Mathlib.Data.List.Basic
import Mathlib.Data.List.Induction
import Mathlib.Data.List.Infix
import PatchAudit.Proofs.PathNames
import PatchAudit.Proofs.Text

/-!
# Walking a changed tree

What a walk finds depends only on the entries that it meets.  Two facts carry all that follows:

* a walk through names and more names is a walk from where the first ones lead (`walkFrom_append`);
* a change that keeps folders and links, and keeps files as files, keeps every walk that arrives
  (`Keeps.walk_arrived`).
-/

namespace PatchAudit

namespace Disk

/-! ### Entries -/

theorem entry_nil (d : Disk) : d.entry? [] = some .folder := rfl

theorem entry_of_ne_nil {d : Disk} {p : Place} (h : p ≠ []) : d.entry? p = d.entries.lookup p := by
  unfold entry?
  rw [if_neg (by simp [h])]

theorem lookup_filter (keep : Place → Bool) (x : Place) (l : List (Place × Entry)) :
    (l.filter fun e => keep e.1).lookup x = if keep x then l.lookup x else none := by
  induction l with
  | nil => simp
  | cons e l ih =>
    obtain ⟨q, e⟩ := e
    by_cases hxq : x = q
    · subst hxq
      cases hx : keep x <;> simp [hx, ih]
    · have hne : (x == q) = false := beq_eq_false_iff_ne.mpr hxq
      cases hq : keep q <;> simp [hq, hne, ih, List.lookup_cons]

/-- An entry that was put somewhere is there, and all others are where they were. -/
theorem entry_put {d : Disk} {p : Place} (hp : p ≠ []) (e : Entry) (x : Place) :
    entry? (d.put p e) x = if x = p then some e else d.entry? x := by
  by_cases hx : x = []
  · subst hx
    rw [entry_nil, entry_nil, if_neg (Ne.symm hp)]
  · rw [entry_of_ne_nil hx, entry_of_ne_nil hx]
    unfold put
    rw [List.lookup_cons]
    by_cases hxp : x = p
    · simp [hxp]
    · rw [beq_eq_false_iff_ne.mpr hxp, if_neg hxp]
      have hkeep := lookup_filter (fun q => q != p) x d.entries
      rwa [if_pos (by simp [hxp])] at hkeep

/-- What is at or below a pruned place is gone, and all else stays. -/
theorem entry_prune {d : Disk} {p : Place} (hp : p ≠ []) (x : Place) :
    entry? (d.prune p) x = if p <+: x then none else d.entry? x := by
  by_cases hx : x = []
  · subst hx
    rw [entry_nil, entry_nil, if_neg (by simp [hp])]
  · rw [entry_of_ne_nil hx, entry_of_ne_nil hx]
    unfold prune
    have hkeep := lookup_filter (fun q => !p.isPrefixOf q) x d.entries
    by_cases hpx : p <+: x
    · have hpre := List.isPrefixOf_iff_prefix.mpr hpx
      rw [hpre, if_neg (by simp)] at hkeep
      rw [if_pos hpx]
      exact hkeep
    · have hpre : p.isPrefixOf x = false := by
        rw [Bool.eq_false_iff, ne_eq, List.isPrefixOf_iff_prefix]
        exact hpx
      rw [hpre, if_pos (by simp)] at hkeep
      rw [if_neg hpx]
      exact hkeep

/-- A disk that differs at one place at most. -/
structure AgreesOff (d d' : Disk) (p : Place) : Prop where
  workDir : d'.workDir = d.workDir
  entry : ∀ x, x ≠ p → d'.entry? x = d.entry? x

theorem AgreesOff.trans {a b c : Disk} {p : Place} (hab : AgreesOff a b p) (hbc : AgreesOff b c p) :
    AgreesOff a c p :=
  ⟨hbc.workDir.trans hab.workDir, fun x hx => (hbc.entry x hx).trans (hab.entry x hx)⟩

theorem AgreesOff.of_put {d : Disk} {p : Place} (hp : p ≠ []) (e : Entry) :
    AgreesOff d (d.put p e) p := by
  refine ⟨rfl, fun x hx => ?_⟩
  rw [entry_put hp, if_neg hx]

theorem entry_put_self (d : Disk) {p : Place} (hp : p ≠ []) (e : Entry) :
    entry? (d.put p e) p = some e := by
  rw [entry_put hp, if_pos rfl]

/-- The names in a folder are all that is there. -/
theorem entry_of_not_mem_names {d : Disk} {p : Place} {name : Bytes} (h : name ∉ d.names p) :
    d.entry? (p ++ [name]) = none := by
  rw [entry_of_ne_nil (by simp)]
  by_contra hsome
  obtain ⟨e, he⟩ := Option.ne_none_iff_exists'.mp hsome
  obtain ⟨before, after, hentries, -⟩ := List.lookup_eq_some_iff.mp he
  apply h
  unfold names
  rw [(Bytes.sort_perm _).mem_iff, List.mem_filterMap]
  exact ⟨(p ++ [name], e), by simp [hentries], by simp⟩

theorem entry_of_mem_names {d : Disk} {p : Place} {name : Bytes} (h : name ∈ d.names p) :
    d.entry? (p ++ [name]) ≠ none := by
  rw [names, (Bytes.sort_perm _).mem_iff, List.mem_filterMap] at h
  obtain ⟨⟨q, e⟩, hmem, hq⟩ := h
  simp only at hq
  split_ifs at hq with hdrop
  obtain rfl : q = p ++ [name] := by
    rw [← hdrop, List.dropLast_append_getLast? name hq]
  rw [entry_of_ne_nil (by simp)]
  intro hnone
  rw [List.lookup_eq_none_iff] at hnone
  have hself := hnone (p ++ [name], e) hmem
  simp at hself

theorem mem_names_iff {d : Disk} {p : Place} {name : Bytes} :
    name ∈ d.names p ↔ d.entry? (p ++ [name]) ≠ none :=
  ⟨entry_of_mem_names, fun h => by_contra fun hnot => h (entry_of_not_mem_names hnot)⟩

/-- Every entry is in a folder. -/
def IsTree (d : Disk) : Prop :=
  ∀ (p : Place) (name : Bytes), d.entry? (p ++ [name]) ≠ none → d.entry? p = some .folder

/-- A disk is a tree if each of its entries is in a folder. -/
theorem isTree_of_entries {d : Disk}
    (h : ∀ e ∈ d.entries, d.entry? e.1.dropLast = some .folder) : d.IsTree := by
  intro p name hsome
  rw [entry_of_ne_nil (by simp)] at hsome
  obtain ⟨e, he⟩ := Option.ne_none_iff_exists'.mp hsome
  obtain ⟨before, after, hentries, -⟩ := List.lookup_eq_some_iff.mp he
  have hfolder := h (p ++ [name], e) (by simp [hentries])
  rwa [List.dropLast_concat] at hfolder

theorem IsTree.folder_dropLast {d : Disk} (h : d.IsTree) {p : Place} (hp : d.entry? p ≠ none) :
    d.entry? p.dropLast = some .folder := by
  by_cases hnil : p = []
  · subst hnil
    rfl
  · rw [← List.dropLast_append_getLast hnil] at hp
    exact h _ _ hp

/-- Nothing is below a place that is no folder. -/
theorem IsTree.none_below {d : Disk} (h : d.IsTree) {p x : Place} (hp : d.entry? p ≠ some .folder)
    (hx : p <+: x) (hne : x ≠ p) : d.entry? x = none := by
  obtain ⟨t, rfl⟩ := hx
  induction t using List.reverseRecOn with
  | nil => simp at hne
  | append_singleton t name ih =>
    by_contra hsome
    rw [← List.append_assoc] at hsome
    have hfolder := h _ _ hsome
    by_cases ht : t = []
    · subst ht
      rw [List.append_nil] at hfolder
      exact hp hfolder
    · have := ih (by simpa using ht)
      rw [this] at hfolder
      cases hfolder

/-- A tree stays one if only a place in a folder changes that holds no folder itself. -/
theorem IsTree.of_agreesOff {d d' : Disk} (h : d.IsTree) {p : Place} {name : Bytes}
    (hoff : AgreesOff d d' (p ++ [name])) (hp : d.entry? p = some .folder)
    (hold : d.entry? (p ++ [name]) ≠ some .folder) : d'.IsTree := by
  intro q n hq
  by_cases hself : q = p ++ [name]
  · -- nothing was below the entry that is replaced
    subst hself
    rw [hoff.entry _ (by simp)] at hq
    exact absurd (h _ _ hq) hold
  · rw [hoff.entry q hself]
    by_cases hchild : q ++ [n] = p ++ [name]
    · rw [(List.append_inj' hchild rfl).1]
      exact hp
    · rw [hoff.entry _ hchild] at hq
      exact h _ _ hq

/-! ### One step

A walk takes the names one by one.  What a name can do is said once, by `Step`; every fact about
walks goes through its cases. -/

/-- A step into a folder by a plain name. -/
structure Enters (d : Disk) (here : Place) (name : Bytes) : Prop where
  folder : d.entry? here = some .folder
  notStay : name ≠ stayMark
  notParent : name ≠ Path.parentMark
  short : name.length ≤ longestName

/-- What a step from a place by a name can meet. -/
inductive Step (d : Disk) (here : Place) (name : Bytes) : Prop where
  | blocked (h : d.entry? here ≠ some .folder)
  | stays (h : d.entry? here = some .folder) (hname : name = stayMark)
  | rises (h : d.entry? here = some .folder) (hname : name = Path.parentMark)
  | tooLong (h : ∀ follow rest, d.advance follow here (name :: rest) = .stuck .tooLong)
  | nothing (h : d.Enters here name) (hentry : d.entry? (here ++ [name]) = none)
  | link (h : d.Enters here name) (target : Bytes)
      (hentry : d.entry? (here ++ [name]) = some (.link target))
  | entry (h : d.Enters here name) (e : Entry) (hentry : d.entry? (here ++ [name]) = some e)
      (hlink : ∀ target, e ≠ .link target)

section Advance

variable {d : Disk} {here : Place} {name : Bytes} (follow : Bool) (rest : List Bytes)

theorem advance_blocked (h : d.entry? here ≠ some .folder) :
    d.advance follow here (name :: rest) = .stuck .notFolder := by
  rw [advance, if_neg h]

theorem advance_stay (h : d.entry? here = some .folder) :
    d.advance follow here (stayMark :: rest) = d.advance follow here rest := by
  rw [advance, if_pos h, if_pos rfl]

theorem advance_parent (h : d.entry? here = some .folder) :
    d.advance follow here (Path.parentMark :: rest) = d.advance follow here.dropLast rest := by
  rw [advance, if_pos h, if_neg (by decide), if_pos rfl]

theorem advance_enters (h : d.Enters here name) :
    d.advance follow here (name :: rest) =
      match d.entry? (here ++ [name]) with
      | none => if rest.isEmpty then .vacant (here ++ [name]) else .stuck .missing
      | some (.link target) =>
        if rest.isEmpty && !follow then .arrived (here ++ [name]) else .atLink here target rest
      | some _ => d.advance follow (here ++ [name]) rest := by
  have hshort := h.short
  rewrite [advance, if_pos h.folder, if_neg h.notStay, if_neg h.notParent, if_neg (by omega)]
  rfl

theorem advance_nothing (h : d.Enters here name) (hentry : d.entry? (here ++ [name]) = none) :
    d.advance follow here (name :: rest) =
      if rest.isEmpty then .vacant (here ++ [name]) else .stuck .missing := by
  rw [advance_enters follow rest h, hentry]

theorem advance_link (h : d.Enters here name) {target : Bytes}
    (hentry : d.entry? (here ++ [name]) = some (.link target)) :
    d.advance follow here (name :: rest) =
      if rest.isEmpty && !follow then .arrived (here ++ [name]) else .atLink here target rest := by
  rw [advance_enters follow rest h, hentry]

theorem advance_entry (h : d.Enters here name) {e : Entry}
    (hentry : d.entry? (here ++ [name]) = some e) (hlink : ∀ target, e ≠ .link target) :
    d.advance follow here (name :: rest) = d.advance follow (here ++ [name]) rest := by
  rw [advance_enters follow rest h, hentry]
  cases e with
  | link target => exact absurd rfl (hlink target)
  | _ => rfl

end Advance

theorem step (d : Disk) (here : Place) (name : Bytes) : d.Step here name := by
  by_cases hhere : d.entry? here = some .folder
  · by_cases hstay : name = stayMark
    · exact .stays hhere hstay
    by_cases hparent : name = Path.parentMark
    · exact .rises hhere hparent
    by_cases hlong : longestName < name.length
    · refine .tooLong fun follow rest => ?_
      rw [advance, if_pos hhere, if_neg hstay, if_neg hparent, if_pos hlong]
    · have henters : d.Enters here name := ⟨hhere, hstay, hparent, by omega⟩
      cases hentry : d.entry? (here ++ [name]) with
      | none => exact .nothing henters hentry
      | some e =>
        cases e with
        | link target => exact .link henters target hentry
        | file data => exact .entry henters _ hentry (by simp)
        | folder => exact .entry henters _ hentry (by simp)
  · exact .blocked hhere

/-! ### Walks in parts -/

theorem walkFrom_eq (d : Disk) (follow : Bool) (links : Nat) (here : Place) (names : List Bytes) :
    d.walkFrom follow links here names =
      match d.advance follow here names with
      | .atLink folder target rest =>
        match links with
        | 0 => .stuck .tooManyLinks
        | left + 1 => d.walkFrom follow left (origin folder target) (steps target ++ rest)
      | w => w := by
  cases links <;> rfl

theorem walkFrom_of_advance {d : Disk} {follow : Bool} {links : Nat} {here : Place}
    {names : List Bytes} {w : Walk} (h : d.advance follow here names = w)
    (hw : ∀ a b c, w ≠ .atLink a b c) : d.walkFrom follow links here names = w := by
  rw [walkFrom_eq, h]
  cases w with
  | atLink a b c => exact absurd rfl (hw a b c)
  | _ => rfl

theorem walkFrom_congr {d : Disk} {follow : Bool} {here here' : Place} {xs ys : List Bytes}
    (h : d.advance follow here xs = d.advance follow here' ys) (links : Nat) :
    d.walkFrom follow links here xs = d.walkFrom follow links here' ys := by
  rw [walkFrom_eq d follow links here, walkFrom_eq d follow links here', h]

/-- Names and more names: the last of the first ones is passed through, so a link there is
followed. -/
theorem advance_append (d : Disk) (follow : Bool) (here : Place) (xs ys : List Bytes)
    (hys : ys ≠ []) :
    d.advance follow here (xs ++ ys) =
      match d.advance true here xs with
      | .arrived p => d.advance follow p ys
      | .vacant _ => .stuck .missing
      | .atLink folder target rest => .atLink folder target (rest ++ ys)
      | .stuck why => .stuck why := by
  induction xs generalizing here with
  | nil => rfl
  | cons name xs ih =>
    rw [List.cons_append]
    cases d.step here name with
    | blocked h => rw [advance_blocked _ _ h, advance_blocked _ _ h]
    | stays h hname =>
      rw [hname, advance_stay _ _ h, advance_stay _ _ h]
      exact ih here
    | rises h hname =>
      rw [hname, advance_parent _ _ h, advance_parent _ _ h]
      exact ih _
    | tooLong h => rw [h, h]
    | nothing h hentry =>
      rw [advance_nothing _ _ h hentry, advance_nothing _ _ h hentry]
      cases xs <;> simp [hys]
    | link h target hentry =>
      rw [advance_link _ _ h hentry, advance_link _ _ h hentry]
      simp [hys]
    | entry h e hentry hlink =>
      rw [advance_entry _ _ h hentry hlink, advance_entry _ _ h hentry hlink]
      exact ih _

/-- Not following a link at the end matters only where there is one, and then the walk arrives. -/
theorem advance_no_follow (d : Disk) (here : Place) (names : List Bytes) :
    d.advance false here names = d.advance true here names ∨
      ∃ q, d.advance false here names = .arrived q := by
  induction names generalizing here with
  | nil => exact .inl rfl
  | cons name rest ih =>
    cases d.step here name with
    | blocked h => exact .inl ((advance_blocked _ _ h).trans (advance_blocked _ _ h).symm)
    | stays h hname =>
      rw [hname, advance_stay _ _ h, advance_stay _ _ h]
      exact ih here
    | rises h hname =>
      rw [hname, advance_parent _ _ h, advance_parent _ _ h]
      exact ih _
    | tooLong h => exact .inl ((h _ _).trans (h _ _).symm)
    | nothing h hentry =>
      exact .inl ((advance_nothing _ _ h hentry).trans (advance_nothing _ _ h hentry).symm)
    | link h target hentry =>
      rw [advance_link _ _ h hentry, advance_link _ _ h hentry]
      cases rest <;> simp
    | entry h e hentry hlink =>
      rw [advance_entry _ _ h hentry hlink, advance_entry _ _ h hentry hlink]
      exact ih _

theorem walkFrom_no_follow (d : Disk) (links : Nat) (here : Place) (names : List Bytes) :
    d.walkFrom false links here names = d.walkFrom true links here names ∨
      ∃ q, d.walkFrom false links here names = .arrived q := by
  induction links generalizing here names with
  | zero =>
    rcases d.advance_no_follow here names with hsame | ⟨q, hq⟩
    · exact .inl (by rw [walkFrom_eq, walkFrom_eq, hsame])
    · exact .inr ⟨q, walkFrom_of_advance hq (by simp)⟩
  | succ links ih =>
    rcases d.advance_no_follow here names with hsame | ⟨q, hq⟩
    · rw [walkFrom_eq, walkFrom_eq d true, hsame]
      cases d.advance true here names with
      | atLink folder target rest => exact ih _ _
      | _ => exact .inl rfl
    · exact .inr ⟨q, walkFrom_of_advance hq (by simp)⟩

/-- A walk through names and more names goes on from where the first ones lead. -/
theorem walkFrom_append (d : Disk) (follow : Bool) (links : Nat) (here : Place) (xs ys : List Bytes)
    (hys : ys ≠ []) :
    match d.walkFrom true links here xs with
    | .arrived p => ∃ left, d.walkFrom follow links here (xs ++ ys) = d.walkFrom follow left p ys
    | .vacant _ => d.walkFrom follow links here (xs ++ ys) = .stuck .missing
    | .atLink _ _ _ => False
    | .stuck why => d.walkFrom follow links here (xs ++ ys) = .stuck why := by
  induction links generalizing here xs with
  | zero =>
    have happ := advance_append d follow here xs ys hys
    rw [walkFrom_eq d true]
    cases h : d.advance true here xs with
    | arrived p =>
      rw [h] at happ
      exact ⟨0, walkFrom_congr happ 0⟩
    | vacant p => rw [h] at happ; exact walkFrom_of_advance happ (by simp)
    | atLink folder target rest => rw [h] at happ; rw [walkFrom_eq, happ]
    | stuck why => rw [h] at happ; exact walkFrom_of_advance happ (by simp)
  | succ links ih =>
    have happ := advance_append d follow here xs ys hys
    rw [walkFrom_eq d true]
    cases h : d.advance true here xs with
    | arrived p =>
      rw [h] at happ
      exact ⟨links + 1, walkFrom_congr happ _⟩
    | vacant p => rw [h] at happ; exact walkFrom_of_advance happ (by simp)
    | atLink folder target rest =>
      -- the link is followed in both walks, with the same number of links left
      rw [h] at happ
      have hlink : d.walkFrom follow (links + 1) here (xs ++ ys) =
          d.walkFrom follow links (origin folder target) (steps target ++ rest ++ ys) := by
        rw [walkFrom_eq, happ, List.append_assoc]
      rw [hlink]
      exact ih (origin folder target) (steps target ++ rest)
    | stuck why => rw [h] at happ; exact walkFrom_of_advance happ (by simp)

theorem walkFrom_append_of_arrived {d : Disk} {links : Nat} {here p : Place} {xs : List Bytes}
    (h : d.walkFrom true links here xs = .arrived p) (ys : List Bytes) (hys : ys ≠ [])
    (follow : Bool) :
    ∃ left, d.walkFrom follow links here (xs ++ ys) = d.walkFrom follow left p ys := by
  have happ := walkFrom_append d follow links here xs ys hys
  rw [h] at happ
  exact happ

/-- A walk through names and more names that arrives comes by where the first ones lead. -/
theorem arrived_of_append {d : Disk} {follow : Bool} {links : Nat} {here p : Place}
    {xs ys : List Bytes} (hys : ys ≠ []) (h : d.walkFrom follow links here (xs ++ ys) = .arrived p) :
    ∃ r left, d.walkFrom true links here xs = .arrived r ∧
      d.walkFrom follow left r ys = .arrived p := by
  have happ := walkFrom_append d follow links here xs ys hys
  cases hw : d.walkFrom true links here xs with
  | arrived r =>
    rw [hw] at happ
    obtain ⟨left, happ⟩ := happ
    exact ⟨r, left, rfl, happ.symm.trans h⟩
  | vacant r => rw [hw] at happ; rw [happ] at h; cases h
  | atLink folder target rest => rw [hw] at happ; exact happ.elim
  | stuck why => rw [hw] at happ; rw [happ] at h; cases h

/-- A name is only walked through in a folder. -/
theorem folder_of_arrived {d : Disk} {follow : Bool} {links : Nat} {here p : Place} {name : Bytes}
    {rest : List Bytes} (h : d.walkFrom follow links here (name :: rest) = .arrived p) :
    d.entry? here = some .folder := by
  by_contra hblocked
  rw [walkFrom_of_advance (advance_blocked follow rest hblocked) (by simp)] at h
  cases h

/-! ### Changes that keep walks -/

/-- A change that keeps folders and links, and keeps files as files. -/
structure Keeps (d d' : Disk) : Prop where
  workDir : d'.workDir = d.workDir
  folder : ∀ {p}, d.entry? p = some .folder → d'.entry? p = some .folder
  link : ∀ {p target}, d.entry? p = some (.link target) → d'.entry? p = some (.link target)
  file : ∀ {p data}, d.entry? p = some (.file data) → ∃ data', d'.entry? p = some (.file data')

theorem Keeps.refl (d : Disk) : Keeps d d := ⟨rfl, id, id, fun h => ⟨_, h⟩⟩

theorem Keeps.trans {a b c : Disk} (hab : Keeps a b) (hbc : Keeps b c) : Keeps a c where
  workDir := hbc.workDir.trans hab.workDir
  folder h := hbc.folder (hab.folder h)
  link h := hbc.link (hab.link h)
  file h := by
    obtain ⟨data, hb⟩ := hab.file h
    exact hbc.file hb

/-- Where nothing was or a file was, a file may be put. -/
theorem Keeps.of_file {d d' : Disk} {p : Place} {data : Bytes} (hwork : d'.workDir = d.workDir)
    (hp : d.entry? p = none ∨ ∃ data, d.entry? p = some (.file data))
    (hfile : d'.entry? p = some (.file data)) (hrest : ∀ x, x ≠ p → d'.entry? x = d.entry? x) :
    Keeps d d' := by
  have hne : ∀ {x e}, d.entry? x = some e → (∀ data, e ≠ .file data) → x ≠ p := by
    rintro x e hx he rfl
    rcases hp with hp | ⟨data, hp⟩
    · rw [hp] at hx
      cases hx
    · rw [hp] at hx
      exact he data (Option.some.inj hx).symm
  refine ⟨hwork, fun {x} hx => ?_, fun {x target} hx => ?_, fun {x before} hx => ?_⟩
  · rw [hrest x (hne hx (by simp)), hx]
  · rw [hrest x (hne hx (by simp)), hx]
  · by_cases hxp : x = p
    · exact ⟨data, hxp ▸ hfile⟩
    · exact ⟨before, by rw [hrest x hxp, hx]⟩

theorem Keeps.enters {d d' : Disk} (h : Keeps d d') {here : Place} {name : Bytes}
    (he : d.Enters here name) : d'.Enters here name :=
  ⟨h.folder he.folder, he.notStay, he.notParent, he.short⟩

theorem Keeps.entry {d d' : Disk} (h : Keeps d d') {p : Place} {e : Entry}
    (hp : d.entry? p = some e) (hlink : ∀ target, e ≠ .link target) :
    ∃ e', d'.entry? p = some e' ∧ ∀ target, e' ≠ .link target := by
  cases e with
  | link target => exact absurd rfl (hlink target)
  | folder => exact ⟨_, h.folder hp, by simp⟩
  | file data =>
    obtain ⟨data', hp'⟩ := h.file hp
    exact ⟨_, hp', by simp⟩

/-- A step to an entry is the same step after a change that keeps it. -/
theorem Keeps.advance {d d' : Disk} (h : Keeps d d') {follow : Bool} {here : Place}
    {names : List Bytes} {w : Walk} (hw : d.advance follow here names = w)
    (hvacant : ∀ p, w ≠ .vacant p) (hstuck : ∀ why, w ≠ .stuck why) :
    d'.advance follow here names = w := by
  induction names generalizing here with
  | nil => exact hw
  | cons name rest ih =>
    cases d.step here name with
    | blocked hhere =>
      rw [advance_blocked _ _ hhere] at hw
      exact absurd hw.symm (hstuck _)
    | stays hhere hname =>
      rw [hname, advance_stay _ _ hhere] at hw
      rw [hname, advance_stay _ _ (h.folder hhere)]
      exact ih hw
    | rises hhere hname =>
      rw [hname, advance_parent _ _ hhere] at hw
      rw [hname, advance_parent _ _ (h.folder hhere)]
      exact ih hw
    | tooLong hlong =>
      rw [hlong] at hw
      exact absurd hw.symm (hstuck _)
    | nothing henters hentry =>
      rw [advance_nothing _ _ henters hentry] at hw
      split_ifs at hw
      · exact absurd hw.symm (hvacant _)
      · exact absurd hw.symm (hstuck _)
    | link henters target hentry =>
      rw [advance_link _ _ henters hentry] at hw
      rw [advance_link _ _ (h.enters henters) (h.link hentry)]
      exact hw
    | entry henters e hentry hlink =>
      rw [advance_entry _ _ henters hentry hlink] at hw
      obtain ⟨e', hentry', hlink'⟩ := h.entry hentry hlink
      rw [advance_entry _ _ (h.enters henters) hentry' hlink']
      exact ih hw

theorem Keeps.walkFrom_arrived {d d' : Disk} (h : Keeps d d') {follow : Bool} {links : Nat}
    {here p : Place} {names : List Bytes} (hw : d.walkFrom follow links here names = .arrived p) :
    d'.walkFrom follow links here names = .arrived p := by
  induction links generalizing here names with
  | zero =>
    rw [walkFrom_eq] at hw
    cases hadv : d.advance follow here names with
    | arrived q =>
      rw [hadv] at hw
      rw [walkFrom_of_advance (h.advance hadv (by simp) (by simp)) (by simp)]
      exact hw
    | vacant q => rw [hadv] at hw; cases hw
    | atLink folder target rest => rw [hadv] at hw; cases hw
    | stuck why => rw [hadv] at hw; cases hw
  | succ links ih =>
    rw [walkFrom_eq] at hw
    cases hadv : d.advance follow here names with
    | arrived q =>
      rw [hadv] at hw
      rw [walkFrom_of_advance (h.advance hadv (by simp) (by simp)) (by simp)]
      exact hw
    | vacant q => rw [hadv] at hw; cases hw
    | atLink folder target rest =>
      rw [hadv] at hw
      rw [walkFrom_eq, h.advance hadv (by simp) (by simp)]
      exact ih hw
    | stuck why => rw [hadv] at hw; cases hw

/-- A path that leads somewhere leads there after a change that keeps walks. -/
theorem Keeps.walk_arrived {d d' : Disk} (h : Keeps d d') {follow : Bool} {path : Bytes} {p : Place}
    (hw : d.walk follow path = .arrived p) : d'.walk follow path = .arrived p := by
  unfold walk at hw ⊢
  rw [h.workDir]
  split_ifs at hw ⊢
  exact h.walkFrom_arrived hw

/-! ### Walks that arrive -/

theorem advance_arrived {d : Disk} (htree : d.IsTree) {follow : Bool} {here p : Place}
    {names : List Bytes} (hw : d.advance follow here names = .arrived p)
    (hstart : d.entry? here ≠ none ∨ names ≠ []) : d.entry? p ≠ none := by
  induction names generalizing here with
  | nil =>
    obtain rfl : here = p := Walk.arrived.inj hw
    simpa using hstart
  | cons name rest ih =>
    cases d.step here name with
    | blocked hhere => rw [advance_blocked _ _ hhere] at hw; cases hw
    | stays hhere hname =>
      rw [hname, advance_stay _ _ hhere] at hw
      exact ih hw (.inl (by simp [hhere]))
    | rises hhere hname =>
      rw [hname, advance_parent _ _ hhere] at hw
      have habove := htree.folder_dropLast (p := here) (by simp [hhere])
      exact ih hw (.inl (by simp [habove]))
    | tooLong hlong => rw [hlong] at hw; cases hw
    | nothing henters hentry =>
      rw [advance_nothing _ _ henters hentry] at hw
      split_ifs at hw
    | link henters target hentry =>
      rw [advance_link _ _ henters hentry] at hw
      split_ifs at hw
      obtain rfl : here ++ [name] = p := Walk.arrived.inj hw
      simp [hentry]
    | entry henters e hentry hlink =>
      rw [advance_entry _ _ henters hentry hlink] at hw
      exact ih hw (.inl (by simp [hentry]))

/-- A link is met in a folder. -/
theorem folder_of_atLink {d : Disk} {follow : Bool} {here folder : Place} {target : Bytes}
    {names rest : List Bytes} (hw : d.advance follow here names = .atLink folder target rest) :
    d.entry? folder = some .folder := by
  induction names generalizing here with
  | nil => cases hw
  | cons name more ih =>
    cases d.step here name with
    | blocked hhere => rw [advance_blocked _ _ hhere] at hw; cases hw
    | stays hhere hname => rw [hname, advance_stay _ _ hhere] at hw; exact ih hw
    | rises hhere hname => rw [hname, advance_parent _ _ hhere] at hw; exact ih hw
    | tooLong hlong => rw [hlong] at hw; cases hw
    | nothing henters hentry =>
      rw [advance_nothing _ _ henters hentry] at hw
      split_ifs at hw
    | link henters target' hentry =>
      rw [advance_link _ _ henters hentry] at hw
      split_ifs at hw
      obtain ⟨rfl, -, -⟩ := Walk.atLink.inj hw
      exact henters.folder
    | entry henters e hentry hlink =>
      rw [advance_entry _ _ henters hentry hlink] at hw
      exact ih hw

theorem walkFrom_arrived {d : Disk} (htree : d.IsTree) {follow : Bool} {links : Nat}
    {here p : Place} {names : List Bytes} (hw : d.walkFrom follow links here names = .arrived p)
    (hstart : d.entry? here ≠ none ∨ names ≠ []) : d.entry? p ≠ none := by
  induction links generalizing here names with
  | zero =>
    rw [walkFrom_eq] at hw
    cases hadv : d.advance follow here names with
    | arrived q => rw [hadv] at hw; exact advance_arrived htree (hadv.trans hw) hstart
    | vacant q => rw [hadv] at hw; cases hw
    | atLink folder target rest => rw [hadv] at hw; cases hw
    | stuck why => rw [hadv] at hw; cases hw
  | succ links ih =>
    rw [walkFrom_eq] at hw
    cases hadv : d.advance follow here names with
    | arrived q => rw [hadv] at hw; exact advance_arrived htree (hadv.trans hw) hstart
    | vacant q => rw [hadv] at hw; cases hw
    | atLink folder target rest =>
      rw [hadv] at hw
      refine ih hw (.inl ?_)
      unfold origin
      split_ifs
      · simp [entry_nil]
      · simp [folder_of_atLink hadv]
    | stuck why => rw [hadv] at hw; cases hw

/-! ### Walks that end in nothing -/

/-- Only the last name of a walk may be missing, and it is missing in a folder. -/
theorem advance_vacant {d : Disk} {follow : Bool} {here p : Place} {names : List Bytes}
    (hw : d.advance follow here names = .vacant p) :
    d.entry? p = none ∧ ∃ folder name, p = folder ++ [name] ∧ d.entry? folder = some .folder := by
  induction names generalizing here with
  | nil => cases hw
  | cons name rest ih =>
    cases d.step here name with
    | blocked hhere => rw [advance_blocked _ _ hhere] at hw; cases hw
    | stays hhere hname => rw [hname, advance_stay _ _ hhere] at hw; exact ih hw
    | rises hhere hname => rw [hname, advance_parent _ _ hhere] at hw; exact ih hw
    | tooLong hlong => rw [hlong] at hw; cases hw
    | nothing henters hentry =>
      rw [advance_nothing _ _ henters hentry] at hw
      split_ifs at hw
      obtain rfl : here ++ [name] = p := Walk.vacant.inj hw
      exact ⟨hentry, here, name, rfl, henters.folder⟩
    | link henters target hentry =>
      rw [advance_link _ _ henters hentry] at hw
      split_ifs at hw
    | entry henters e hentry hlink =>
      rw [advance_entry _ _ henters hentry hlink] at hw
      exact ih hw

/-- Once something stands where a walk ended in nothing, the walk arrives there. -/
theorem Keeps.advance_filled {d d' : Disk} (h : Keeps d d') {follow : Bool} {here p : Place}
    {names : List Bytes} (hw : d.advance follow here names = .vacant p)
    (hp : d'.entry? p = some .folder) : d'.advance true here names = .arrived p := by
  induction names generalizing here with
  | nil => cases hw
  | cons name rest ih =>
    cases d.step here name with
    | blocked hhere => rw [advance_blocked _ _ hhere] at hw; cases hw
    | stays hhere hname =>
      rw [hname, advance_stay _ _ hhere] at hw
      rw [hname, advance_stay _ _ (h.folder hhere)]
      exact ih hw
    | rises hhere hname =>
      rw [hname, advance_parent _ _ hhere] at hw
      rw [hname, advance_parent _ _ (h.folder hhere)]
      exact ih hw
    | tooLong hlong => rw [hlong] at hw; cases hw
    | nothing henters hentry =>
      rw [advance_nothing _ _ henters hentry] at hw
      split_ifs at hw with hrest
      obtain rfl : here ++ [name] = p := Walk.vacant.inj hw
      rw [advance_entry _ _ (h.enters henters) hp (by simp), List.isEmpty_iff.mp hrest]
      rfl
    | link henters target hentry =>
      rw [advance_link _ _ henters hentry] at hw
      split_ifs at hw
    | entry henters e hentry hlink =>
      rw [advance_entry _ _ henters hentry hlink] at hw
      obtain ⟨e', hentry', hlink'⟩ := h.entry hentry hlink
      rw [advance_entry _ _ (h.enters henters) hentry' hlink']
      exact ih hw

/-- A link in the way of a walk is in its way also when a link at the end is followed. -/
theorem advance_atLink {d : Disk} {follow : Bool} {here folder : Place} {target : Bytes}
    {names rest : List Bytes} (hw : d.advance follow here names = .atLink folder target rest) :
    d.advance true here names = .atLink folder target rest := by
  induction names generalizing here with
  | nil => cases hw
  | cons name more ih =>
    cases d.step here name with
    | blocked hhere => rw [advance_blocked _ _ hhere] at hw; cases hw
    | stays hhere hname =>
      rw [hname, advance_stay _ _ hhere] at hw ⊢
      exact ih hw
    | rises hhere hname =>
      rw [hname, advance_parent _ _ hhere] at hw ⊢
      exact ih hw
    | tooLong hlong => rw [hlong] at hw; cases hw
    | nothing henters hentry =>
      rw [advance_nothing _ _ henters hentry] at hw
      split_ifs at hw
    | link henters target hentry =>
      rw [advance_link _ _ henters hentry] at hw ⊢
      split_ifs at hw
      simpa using hw
    | entry henters e hentry hlink =>
      rw [advance_entry _ _ henters hentry hlink] at hw ⊢
      exact ih hw

/-- A walk that ends in nothing, in the disk as it is and once a folder stands there. -/
theorem walkFrom_vacant {d : Disk} {follow : Bool} {links : Nat} {here p : Place}
    {names : List Bytes} (hw : d.walkFrom follow links here names = .vacant p) :
    (d.entry? p = none ∧ ∃ folder name, p = folder ++ [name] ∧ d.entry? folder = some .folder) ∧
      ∀ d', Keeps d d' → d'.entry? p = some .folder →
        d'.walkFrom true links here names = .arrived p := by
  induction links generalizing here names with
  | zero =>
    rw [walkFrom_eq] at hw
    cases hadv : d.advance follow here names with
    | arrived q => rw [hadv] at hw; cases hw
    | vacant q =>
      rw [hadv] at hw
      obtain rfl : q = p := Walk.vacant.inj hw
      refine ⟨advance_vacant hadv, fun d' hkeeps hp => ?_⟩
      exact walkFrom_of_advance (hkeeps.advance_filled hadv hp) (by simp)
    | atLink folder target rest => rw [hadv] at hw; cases hw
    | stuck why => rw [hadv] at hw; cases hw
  | succ links ih =>
    rw [walkFrom_eq] at hw
    cases hadv : d.advance follow here names with
    | arrived q => rw [hadv] at hw; cases hw
    | vacant q =>
      rw [hadv] at hw
      obtain rfl : q = p := Walk.vacant.inj hw
      refine ⟨advance_vacant hadv, fun d' hkeeps hp => ?_⟩
      exact walkFrom_of_advance (hkeeps.advance_filled hadv hp) (by simp)
    | atLink folder target rest =>
      rw [hadv] at hw
      obtain ⟨hplace, hfilled⟩ := ih hw
      refine ⟨hplace, fun d' hkeeps hp => ?_⟩
      rw [walkFrom_eq, hkeeps.advance (advance_atLink hadv) (by simp) (by simp)]
      exact hfilled d' hkeeps hp
    | stuck why => rw [hadv] at hw; cases hw

/-- Parent marks alone lead somewhere or get stuck: they meet no link and miss no name. -/
theorem advance_parents {d : Disk} {follow : Bool} {names : List Bytes}
    (h : ∀ c ∈ names, c = Path.parentMark) (here : Place) :
    (∃ p, d.advance follow here names = .arrived p) ∨
      ∃ why, d.advance follow here names = .stuck why := by
  induction names generalizing here with
  | nil => exact .inl ⟨here, rfl⟩
  | cons name rest ih =>
    obtain rfl := h name List.mem_cons_self
    by_cases hhere : d.entry? here = some .folder
    · rw [advance_parent _ _ hhere]
      exact ih (fun c hc => h c (List.mem_cons_of_mem _ hc)) _
    · exact .inr ⟨_, advance_blocked _ _ hhere⟩

/-! ### Walkable paths -/

/-- A path that can be walked at all. -/
structure Walkable (path : Bytes) : Prop where
  noZero : 0 ∉ path
  ne_nil : path ≠ []
  short : path.length ≤ longestPath

theorem Walkable.of_append {p q : Bytes} (h : Walkable (p ++ q)) (hp : p ≠ []) : Walkable p := by
  refine ⟨fun h0 => h.noZero (List.mem_append_left _ h0), hp, ?_⟩
  have hshort := h.short
  rw [List.length_append] at hshort
  omega

theorem walk_eq {path : Bytes} (h : Walkable path) (d : Disk) (follow : Bool) :
    d.walk follow path = d.walkFrom follow mostLinks (origin d.workDir path) (steps path) := by
  have hzero : path.contains 0 = false := by simpa using h.noZero
  have hempty : path.isEmpty = false := by simpa using h.ne_nil
  unfold walk
  rw [hzero, hempty, if_neg (by simp), if_neg (by simp), if_neg (by have := h.short; omega)]

/-- A path that cannot be walked is stuck on every disk in the same way. -/
theorem walk_of_not_walkable {path : Bytes} (h : ¬ Walkable path) :
    ∃ why, ∀ (d : Disk) (follow : Bool), d.walk follow path = .stuck why := by
  by_cases hzero : path.contains 0 = true
  · exact ⟨.notAPath, fun d follow => by unfold walk; rw [if_pos hzero]⟩
  by_cases hempty : path.isEmpty = true
  · exact ⟨.missing, fun d follow => by unfold walk; rw [if_neg hzero, if_pos hempty]⟩
  have hlong : longestPath < path.length := by
    by_contra hshort
    exact h ⟨by simpa using hzero, by simpa using hempty, by omega⟩
  exact ⟨.tooLong, fun d follow => by unfold walk; rw [if_neg hzero, if_neg hempty, if_pos hlong]⟩

/-- A name that a path misses at its end is missing in a folder. -/
theorem place_of_vacant {d : Disk} {follow : Bool} {path : Bytes} {p : Place}
    (h : d.walk follow path = .vacant p) :
    d.entry? p = none ∧ ∃ folder name, p = folder ++ [name] ∧ d.entry? folder = some .folder := by
  by_cases hpath : Walkable path
  · rw [walk_eq hpath] at h
    exact (walkFrom_vacant h).1
  · obtain ⟨why, hstuck⟩ := walk_of_not_walkable hpath
    rw [hstuck] at h
    cases h

theorem walkable_of_arrived {d : Disk} {follow : Bool} {path : Bytes} {p : Place}
    (h : d.walk follow path = .arrived p) : Walkable path := by
  by_contra hnot
  obtain ⟨why, hstuck⟩ := walk_of_not_walkable hnot
  rw [hstuck] at h
  cases h

theorem steps_plain {path : Bytes} (h : path.getLast? ≠ some Path.slash) : steps path = Path.walked path := by
  unfold steps
  rw [if_neg h, List.append_nil]
  rfl

theorem steps_slash (p : Bytes) : steps (p ++ [Path.slash]) = Path.walked p ++ [stayMark] := by
  unfold steps
  rw [List.getLast?_concat, if_pos rfl]
  congr 1
  exact (Path.walked_append p []).trans (by simp [Path.walked])

theorem steps_ne_nil {path : Bytes} (h : path ≠ []) : steps path ≠ [] := by
  by_cases hlast : path.getLast? = some Path.slash
  · unfold steps
    simp [hlast]
  rw [steps_plain hlast]
  rcases Path.upToLast_cases path with ⟨-, hslash⟩ | ⟨q, c, rfl, hslash, -⟩
  · simp [Path.walked_singleton h hslash]
  · have hc : c ≠ [] := by
      rintro rfl
      simp at hlast
    simp [Path.walked_append, Path.walked_singleton hc hslash]

/-- There is an entry where a path leads. -/
theorem entry_of_arrived {d : Disk} (htree : d.IsTree) {follow : Bool} {path : Bytes} {p : Place}
    (h : d.walk follow path = .arrived p) : d.entry? p ≠ none := by
  have hwalkable := walkable_of_arrived h
  rw [walk_eq hwalkable] at h
  exact walkFrom_arrived htree h (.inr (steps_ne_nil hwalkable.ne_nil))

end Disk

end PatchAudit
