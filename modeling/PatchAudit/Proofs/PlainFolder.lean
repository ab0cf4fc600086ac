import Mathlib.Data.List.TakeWhile
import PatchAudit.Proofs.DiffTotals
import PatchAudit.Proofs.Folders
import PatchAudit.Proofs.PatchOrder
import PatchAudit.Proofs.PathNames
import PatchAudit.Run.Discover

/-!
# Patches of a folder with a plain path

The patches of a directory are found by one pattern, the path of the directory with the pattern for
names put below it.  If the clean path has no byte that is special in patterns, and the pattern for
names has no slash, the folder is read as it stands and its names are laid against the pattern
(`PlainPath.glob_eq`).  So a folder that holds just one file, of a name that matches, has just this patch
(`HoldsJust.patches_eq`).
-/

namespace PatchAudit

namespace Path

/-! ### The paths of the names in a folder -/

/-- What stands before a name in the path of an entry of a folder. -/
def lead (dir : Bytes) : Bytes :=
  if parts dir = [] then if isAbsolute dir then [slash] else [] else clean dir ++ [slash]

/-- A path with one part more than another one is a name in it. -/
theorem clean_eq_lead {path dir c : Bytes} (habsolute : isAbsolute path = isAbsolute dir)
    (hparts : parts path = parts dir ++ [c]) : clean path = lead dir ++ c := by
  have hne : (parts dir ++ [c]).isEmpty = false := by simp
  unfold lead
  rw [clean_eq path, habsolute, hparts, hne]
  by_cases hdir : parts dir = []
  · rw [if_pos hdir, hdir]
    cases isAbsolute dir <;> simp [Bytes.join]
  · rw [if_neg hdir, join_concat hdir, clean_eq dir]
    cases isAbsolute dir <;> simp [hdir]

theorem join_name {dir c : Bytes} (hdir : dir ≠ []) (hc : IsName c) :
    join [dir, c] = lead dir ++ c := by
  rw [join_pair hdir]
  exact clean_eq_lead (isAbsolute_append hdir) (parts_below hdir hc)

theorem lead_clean (dir : Bytes) : lead (clean dir) = lead dir := by
  rw [lead, lead, parts_clean, isAbsolute_clean, clean_clean]

theorem lead_cases (dir : Bytes) : lead dir = [] ∨ ∃ q, lead dir = q ++ [slash] := by
  unfold lead
  split_ifs
  · exact .inr ⟨[], rfl⟩
  · exact .inl rfl
  · exact .inr ⟨_, rfl⟩

theorem bne_slash_of_mem_reverse {c : Bytes} (hc : slash ∉ c) :
    ∀ b ∈ c.reverse, (b != slash) = true := by
  intro b hb
  rw [bne_iff_ne]
  rintro rfl
  exact hc (List.mem_reverse.mp hb)

theorem upToLast_lead (dir : Bytes) {c : Bytes} (hc : slash ∉ c) :
    upToLast (lead dir ++ c) = lead dir := by
  unfold upToLast
  rw [List.reverse_append, List.dropWhile_append_of_pos (bne_slash_of_mem_reverse hc)]
  obtain h | ⟨q, h⟩ := lead_cases dir <;> simp [h]

theorem afterLast_lead (dir : Bytes) {c : Bytes} (hc : slash ∉ c) :
    afterLast (lead dir ++ c) = c := by
  unfold afterLast
  rw [List.reverse_append, List.takeWhile_append_of_pos (bne_slash_of_mem_reverse hc)]
  obtain h | ⟨q, h⟩ := lead_cases dir <;> simp [h]

theorem getLast?_lead (dir : Bytes) {c : Bytes} (hne : c ≠ []) (hc : slash ∉ c) :
    (lead dir ++ c).getLast? ≠ some slash := by
  rw [List.getLast?_append_of_ne_nil _ hne]
  exact fun h => hc (List.mem_of_getLast? h)

theorem base_lead (dir : Bytes) {c : Bytes} (hne : c ≠ []) (hc : slash ∉ c) :
    base (lead dir ++ c) = c := by
  unfold base
  rw [dropTrailing_of_getLast? (getLast?_lead dir hne hc), afterLast_lead dir hc]
  simp [hne]

theorem base_plain {c : Bytes} (hne : c ≠ []) (hc : slash ∉ c) : base c = c := by
  have hlead : lead [0x2E] = [] := by decide
  simpa [hlead] using base_lead [0x2E] hne hc

end Path

/-- The folder part of a pattern for the names in a folder is the clean path of the folder. -/
theorem Disk.globFolder_lead (dir : Bytes) {c : Bytes} (hc : Path.slash ∉ c) :
    globFolder (Path.lead dir ++ c) = Path.clean dir := by
  unfold globFolder
  rw [Path.upToLast_lead dir hc, Path.lead]
  by_cases hparts : Path.parts dir = []
  · rw [Path.clean_eq, hparts]
    cases Path.isAbsolute dir <;> simp [Bytes.join]
  · have hne : Path.clean dir ≠ [] := Path.clean_ne_nil dir
    rw [if_neg hparts]
    simp [hne]

namespace Pattern

/-! ### Patterns without special bytes -/

theorem hasMeta_append (p q : Bytes) : hasMeta (p ++ q) = (hasMeta p || hasMeta q) :=
  List.any_append

theorem hasMeta_cons {b : UInt8} {p : Bytes} (h : hasMeta (b :: p) = false) :
    (b ≠ 0x2A ∧ b ≠ 0x3F ∧ b ≠ 0x5B ∧ b ≠ 0x5C) ∧ hasMeta p = false := by
  simpa [hasMeta, and_assoc] using h

theorem hasMeta_lead {dir : Bytes} (h : hasMeta (Path.clean dir) = false) :
    hasMeta (Path.lead dir) = false := by
  unfold Path.lead
  split_ifs
  · rfl
  · rfl
  · rw [hasMeta_append, h]
    rfl

/-- Bytes that are not special go to the segment in front of a pattern. -/
theorem cutAtStars_plain {p : Bytes} (hp : hasMeta p = false) (starred : Bool) (acc q : Bytes) :
    cutAtStars starred false acc (p ++ q) = cutAtStars starred false (p.reverse ++ acc) q := by
  induction p generalizing acc with
  | nil => rfl
  | cons b p ih =>
    obtain ⟨⟨hstar, -, hopen, hescape⟩, hrest⟩ := hasMeta_cons hp
    have hnext : cutAtStars starred false acc (b :: (p ++ q)) =
        cutAtStars starred false (b :: acc) (p ++ q) := by
      rw [cutAtStars]
      · simp [hstar, hopen]
      · rintro c r rfl -
        exact hescape rfl
    rw [List.cons_append, hnext, ih hrest]
    simp

/-- The first segment of a pattern takes up what is before it, unless there is nothing in both. -/
def HasFirst (inBracket : Bool) (p : Bytes) : Prop :=
  ∃ body more, ∀ starred acc, acc.reverse ++ body ≠ [] →
    cutAtStars starred inBracket acc p = ⟨starred, acc.reverse ++ body⟩ :: more

theorem HasFirst.step {inBracket after : Bool} {p r : Bytes} (h : HasFirst after r) (front : Bytes)
    (hstep : ∀ starred acc,
      cutAtStars starred inBracket acc p = cutAtStars starred after (front.reverse ++ acc) r) :
    HasFirst inBracket p := by
  obtain ⟨body, more, hfirst⟩ := h
  refine ⟨front ++ body, more, fun starred acc hne => ?_⟩
  have hbody : (front.reverse ++ acc).reverse ++ body = acc.reverse ++ (front ++ body) := by simp
  rw [hstep, hfirst starred _ (by rwa [hbody]), hbody]

theorem hasFirst_nil (inBracket : Bool) : HasFirst inBracket [] := by
  refine ⟨[], [], fun starred acc hne => ?_⟩
  rw [List.append_nil] at hne ⊢
  have hacc : acc.isEmpty = false := by simpa using hne
  rw [cutAtStars, hacc]
  simp

theorem hasFirst_star {inBracket : Bool} {b : UInt8} (h : b = 0x2A ∧ (!inBracket) = true)
    (r : Bytes) : HasFirst inBracket (b :: r) := by
  refine ⟨[], cutAtStars true false [] r, fun starred acc hne => ?_⟩
  rw [List.append_nil] at hne ⊢
  have hacc : acc.isEmpty = false := by simpa using hne
  rw [cutAtStars, if_pos h, hacc]
  · rfl
  · rintro c t rfl
    exact absurd h.1 (by decide)

theorem hasFirst (inBracket : Bool) (p : Bytes) : HasFirst inBracket p := by
  fun_induction cutAtStars false inBracket [] p with
  | case1 _ inBracket => exact hasFirst_nil inBracket
  | case2 _ inBracket => exact hasFirst_nil inBracket
  | case3 _ inBracket _ c r ih =>
    exact ih.step [0x5C, c] fun starred acc => by rw [cutAtStars]; rfl
  | case4 _ inBracket _ b r _ hstar _ _ => exact hasFirst_star hstar r
  | case5 _ inBracket _ b r _ hstar _ _ => exact hasFirst_star hstar r
  | case6 _ inBracket _ r hplain hstar ih =>
    refine ih.step [0x5B] fun starred acc => ?_
    rw [cutAtStars, if_neg hstar, if_pos rfl]
    · rfl
    · exact hplain
  | case7 _ inBracket _ r hplain hstar hopen ih =>
    refine ih.step [0x5D] fun starred acc => ?_
    rw [cutAtStars, if_neg hstar, if_neg hopen, if_pos rfl]
    · rfl
    · exact hplain
  | case8 _ inBracket _ b r hplain hstar hopen hclose ih =>
    refine ih.step [b] fun starred acc => ?_
    rw [cutAtStars, if_neg hstar, if_neg hopen, if_neg hclose]
    · rfl
    · exact hplain

theorem readItems_plain {b : UInt8} (hopen : b ≠ 0x5B) (hany : b ≠ 0x3F) (hescape : b ≠ 0x5C)
    (fuel : Nat) (r : Bytes) :
    readItems (fuel + 1) (b :: r) = (readItems fuel r).map (Item.byte b :: ·) := by
  cases r <;> simp only [readItems, hopen, hany, hescape, if_false] <;> rfl

theorem items_plain {p : Bytes} (hp : hasMeta p = false) {body : Bytes} {is : List Item}
    (h : items body = .ok is) : items (p ++ body) = .ok (p.map .byte ++ is) := by
  induction p with
  | nil => exact h
  | cons b p ih =>
    obtain ⟨⟨-, hany, hopen, hescape⟩, hrest⟩ := hasMeta_cons hp
    have hnext := ih hrest
    unfold items at hnext ⊢
    rw [List.cons_append, List.length_cons, readItems_plain hopen hany hescape, hnext]
    rfl

theorem ne_nil_of_cons {x : Except Fault (List Item)} {i : Item} {is : List Item}
    (h : (do let more ← x; pure (i :: more)) = .ok is) : is ≠ [] := by
  obtain ⟨more, -, hcons⟩ := Diff.ok_of_bind h
  cases hcons
  simp

theorem items_ne_nil {body : Bytes} (hbody : body ≠ []) {is : List Item}
    (h : items body = .ok is) : is ≠ [] := by
  unfold items at h
  revert h
  fun_cases readItems body.length body with
  | case1 => exact absurd rfl hbody
  | case2 => exact fun h => nomatch h
  | case3 =>
    intro h
    obtain ⟨⟨item, rest⟩, -, hmore⟩ := Diff.ok_of_bind h
    exact ne_nil_of_cons hmore
  | case4 => exact ne_nil_of_cons
  | case5 => exact fun h => nomatch h
  | case6 => exact ne_nil_of_cons
  | case7 => exact ne_nil_of_cons

theorem eatAll?_nil {is : List Item} (h : is ≠ []) : eatAll? is [] = none := by
  cases is with
  | nil => exact absurd rfl h
  | cons i is => cases i <;> rfl

/-- A segment that can be read and has something in it does not fit the empty name. -/
theorem layAgainst_nil {seg : Segment} (hbody : seg.body ≠ []) {is : List Item}
    (h : items seg.body = .ok is) (more : List Segment) :
    layAgainst (seg :: more) [] = .ok false := by
  have hne : seg.body.isEmpty = false := by simp [hbody]
  have hstarts : starts seg.starred [] = [[]] := by
    cases hstarred : seg.starred <;> simp [starts, starts.skip]
  rw [layAgainst, hne, Bool.and_false, if_neg (by simp), h]
  simp [bind, Except.bind, hstarts, eatAll?_nil (items_ne_nil hbody h)]

/-- A segment is read when a name is laid against it. -/
theorem items_of_layAgainst {seg : Segment} {more : List Segment} {name : Bytes} {hit : Bool}
    (hbody : seg.body ≠ []) (h : layAgainst (seg :: more) name = .ok hit) :
    ∃ is, items seg.body = .ok is := by
  have hne : seg.body.isEmpty = false := by simp [hbody]
  rw [layAgainst, hne, Bool.and_false, if_neg (by simp)] at h
  obtain ⟨is, his, -⟩ := Diff.ok_of_bind h
  exact ⟨is, his⟩

theorem mem_cutAtStars {starred inBracket : Bool} {acc p : Bytes} {seg : Segment}
    (h : seg ∈ cutAtStars starred inBracket acc p) : seg.starred = true ∨ seg.body ≠ [] := by
  fun_induction cutAtStars starred inBracket acc p with
  | case1 starred _ acc hsome =>
    rw [List.mem_singleton.mp h]
    simpa using hsome
  | case2 => exact absurd h List.not_mem_nil
  | case3 _ _ _ _ _ ih => exact ih h
  | case4 _ _ _ _ _ _ _ _ ih => exact ih h
  | case5 starred _ acc _ _ _ _ hacc ih =>
    rcases List.mem_cons.mp h with rfl | h
    · exact .inr (by simpa using hacc)
    · exact ih h
  | case6 _ _ _ _ _ _ ih => exact ih h
  | case7 _ _ _ _ _ _ _ ih => exact ih h
  | case8 _ _ _ _ _ _ _ _ _ ih => exact ih h

/-- A pattern that can be laid against some name can be laid against the empty one. -/
theorem matchName_nil {p name : Bytes} {hit : Bool} (h : matchName p name = .ok hit) :
    ∃ hit, matchName p [] = .ok hit := by
  unfold matchName at h ⊢
  cases hsegs : segments p with
  | nil => exact ⟨true, rfl⟩
  | cons seg more =>
    rw [hsegs] at h
    by_cases hbody : seg.body = []
    · have hstarred : seg.starred = true :=
        (mem_cutAtStars (hsegs ▸ List.mem_cons_self)).resolve_right (absurd hbody)
      exact ⟨true, by simp [layAgainst, hstarred, hbody]⟩
    · obtain ⟨is, his⟩ := items_of_layAgainst hbody h
      exact ⟨false, layAgainst_nil hbody his more⟩

/-- Bytes that are not special do no harm in front of a pattern. -/
theorem matchName_front {front p name : Bytes} {hit : Bool} (hfront : hasMeta front = false)
    (h : matchName p name = .ok hit) : ∃ hit, matchName (front ++ p) [] = .ok hit := by
  by_cases hne : front = []
  · rw [hne]
    exact matchName_nil h
  obtain ⟨body, more, hfirst⟩ := hasFirst false p
  have hsegs : segments (front ++ p) = ⟨false, front ++ body⟩ :: more := by
    rw [segments, cutAtStars_plain hfront, hfirst false _ (by simp [hne])]
    simp
  have hread : ∃ is, items body = .ok is := by
    by_cases hbody : body = []
    · exact ⟨[], by rw [hbody]; rfl⟩
    · have hseg : segments p = ⟨false, body⟩ :: more := hfirst false [] hbody
      rw [matchName, hseg] at h
      exact items_of_layAgainst hbody h
  obtain ⟨is, his⟩ := hread
  refine ⟨false, ?_⟩
  rw [matchName, hsegs]
  exact layAgainst_nil (by simp [hne]) (items_plain hfront his) more

theorem eatAll?_bytes {p name rest : Bytes} (h : eatAll? (p.map .byte) name = some rest) :
    name = p ++ rest := by
  induction p generalizing name with
  | nil =>
    cases h
    rfl
  | cons b p ih =>
    cases name with
    | nil => cases h
    | cons x name =>
      simp only [eatAll?, List.map_cons, List.foldlM_cons, Item.eat?] at h
      split_ifs at h with hx
      · rw [hx, List.cons_append, ← ih h]
      · cases h

theorem eatAll?_self (p : Bytes) : eatAll? (p.map .byte) p = some [] := by
  induction p with
  | nil => rfl
  | cons b p ih =>
    simp only [eatAll?, List.map_cons, List.foldlM_cons, Item.eat?, if_true] at ih ⊢
    exact ih

/-- A name is laid byte by byte against a pattern without special bytes. -/
theorem matchName_plain {p : Bytes} (hp : hasMeta p = false) (hne : p ≠ []) (name : Bytes) :
    matchName p name = .ok ((eatAll? (p.map .byte) name).any List.isEmpty) := by
  have hitems : items p = .ok (p.map .byte) := by
    have hnil : items [] = .ok [] := rfl
    simpa using items_plain hp hnil
  have hsegs : segments p = [⟨false, p⟩] := by
    have hcut := cutAtStars_plain hp false [] []
    rw [List.append_nil] at hcut
    rw [segments, hcut]
    simp [cutAtStars, hne]
  rw [matchName, hsegs, layAgainst, Bool.false_and, if_neg (by simp), hitems]
  simp only [bind, Except.bind, starts, Bool.false_eq_true, if_false, List.findSome?_cons]
  cases eatAll? (p.map .byte) name with
  | none => rfl
  | some rest => cases rest <;> rfl

/-- A pattern without special bytes matches itself and nothing else. -/
theorem matchName_plain_iff {p name : Bytes} (hp : hasMeta p = false) :
    matchName p name = .ok true ↔ name = p := by
  by_cases hne : p = []
  · subst hne
    simp [matchName, segments, cutAtStars, layAgainst]
  rw [matchName_plain hp hne, Except.ok.injEq, Option.any_eq_true]
  constructor
  · rintro ⟨rest, hleft, hrest⟩
    rw [eatAll?_bytes hleft, List.isEmpty_iff.mp hrest, List.append_nil]
  · rintro rfl
    exact ⟨[], eatAll?_self name, rfl⟩

theorem eq_of_matchName {p name : Bytes} (hp : hasMeta p = false)
    (h : matchName p name = .ok true) : name = p :=
  (matchName_plain_iff hp).mp h

/-- A pattern that a name matches, and that has no slash, could be a name itself. -/
theorem isName_of_matchName {p name : Bytes} (hname : Path.IsName name) (hslash : Path.slash ∉ p)
    (h : matchName p name = .ok true) : Path.IsName p where
  ne_nil := by
    rintro rfl
    exact hname.ne_nil (eq_of_matchName rfl h)
  noSlash := hslash
  notStay := by
    rintro rfl
    exact hname.notStay (eq_of_matchName rfl h)
  notParent := by
    rintro rfl
    exact hname.notParent (eq_of_matchName rfl h)

end Pattern

namespace Disk

/-! ### Entries and what they lead to -/

/-- A walk that arrives when it follows a link at the end arrives also when it does not. -/
theorem advance_unfollowed (d : Disk) (here : Place) (names : List Bytes) :
    (∃ p, d.advance false here names = .arrived p) ∨
      d.advance false here names = d.advance true here names := by
  induction names generalizing here with
  | nil => exact .inr rfl
  | cons name rest ih =>
    cases d.step here name with
    | blocked h => exact .inr (by rw [advance_blocked _ _ h, advance_blocked _ _ h])
    | stays h hname =>
      rw [hname, advance_stay _ _ h, advance_stay _ _ h]
      exact ih here
    | rises h hname =>
      rw [hname, advance_parent _ _ h, advance_parent _ _ h]
      exact ih _
    | tooLong h => exact .inr (by rw [h, h])
    | nothing h hentry =>
      exact .inr (by rw [advance_nothing _ _ h hentry, advance_nothing _ _ h hentry])
    | link h target hentry =>
      rw [advance_link _ _ h hentry, advance_link _ _ h hentry]
      by_cases hrest : rest.isEmpty
      · exact .inl ⟨here ++ [name], by simp [hrest]⟩
      · exact .inr (by simp [hrest])
    | entry h e hentry hlink =>
      rw [advance_entry _ _ h hentry hlink, advance_entry _ _ h hentry hlink]
      exact ih _

theorem walkFrom_unfollowed {d : Disk} {links : Nat} {here p : Place} {names : List Bytes}
    (h : d.walkFrom true links here names = .arrived p) :
    ∃ q, d.walkFrom false links here names = .arrived q := by
  induction links generalizing here names with
  | zero =>
    obtain ⟨q, hq⟩ | hsame := d.advance_unfollowed here names
    · exact ⟨q, walkFrom_of_advance hq (by simp)⟩
    · rw [walkFrom_eq] at h ⊢
      exact ⟨p, by rw [hsame]; exact h⟩
  | succ links ih =>
    obtain ⟨q, hq⟩ | hsame := d.advance_unfollowed here names
    · exact ⟨q, walkFrom_of_advance hq (by simp)⟩
    · rw [walkFrom_eq] at h ⊢
      rw [hsame]
      cases hadv : d.advance true here names with
      | atLink folder target rest =>
        rw [hadv] at h
        exact ih h
      | arrived q => exact ⟨q, rfl⟩
      | vacant q =>
        rw [hadv] at h
        cases h
      | stuck why =>
        rw [hadv] at h
        cases h

/-- There is an entry where a walk arrives that does not follow a link at the end. -/
theorem exists?_iff {d : Disk} {path : Bytes} :
    d.exists? path = true ↔ ∃ q, d.walk false path = .arrived q := by
  unfold exists? locate
  cases d.walk false path <;> simp [Except.isOk, Except.toBool]

/-- There is an entry where a file can be found. -/
theorem exists?_of_stat {d : Disk} {path : Bytes} {e : Entry} (h : d.stat path = .ok e) :
    d.exists? path = true := by
  obtain ⟨p, hw, -⟩ := stat_eq_ok h
  have hpath := walkable_of_arrived hw
  rw [walk_eq hpath] at hw
  rw [exists?_iff, walk_eq hpath]
  exact walkFrom_unfollowed hw

/-! ### Looking for patches -/

/-- A path that can stand in front of a pattern: cleaning it does not change where it leads, and then
no byte of it is special in patterns. -/
structure PlainPath (d : Disk) (dir : Bytes) : Prop where
  noMeta : Pattern.hasMeta (Path.clean dir) = false
  sameFolder : d.locate true (Path.clean dir) = d.locate true dir

/-- A pattern is always taken apart at least once. -/
theorem exists_fuel (d : Disk) (pattern : Bytes) :
    ∃ fuel, d.glob pattern = d.globWith (fuel + 1) pattern := by
  refine ⟨min (pattern.length + 1) 10000 - 1, ?_⟩
  have hfuel : min (pattern.length + 1) 10000 - 1 + 1 = min (pattern.length + 1) 10000 := by omega
  rw [hfuel, glob]

namespace PlainPath

variable {d : Disk} {dir : Bytes}

theorem isFolder_clean (h : d.PlainPath dir) : d.isFolder (Path.clean dir) = d.isFolder dir := by
  unfold isFolder stat
  rw [h.sameFolder]

theorem namesAt_clean (h : d.PlainPath dir) : d.namesAt (Path.clean dir) = d.namesAt dir := by
  unfold namesAt
  rw [h.sameFolder]

/-- **A pattern for names is laid against the names of the folder**; without special bytes it is the
name of an entry, which has to be there. -/
theorem glob_eq (h : d.PlainPath dir) (hdir : dir ≠ []) {pattern : Bytes}
    (hpattern : Path.IsName pattern) {hit : Bool}
    (hread : Pattern.matchName (Path.lead dir ++ pattern) [] = .ok hit) :
    d.glob (Path.join [dir, pattern]) =
      if Pattern.hasMeta pattern then d.globIn (Path.clean dir) pattern
      else .ok (if d.exists? (Path.join [dir, pattern]) then [Path.join [dir, pattern]] else []) := by
  have hmeta : Pattern.hasMeta (Path.lead dir ++ pattern) = Pattern.hasMeta pattern := by
    rw [Pattern.hasMeta_append, Pattern.hasMeta_lead h.noMeta, Bool.false_or]
  rw [Path.join_name hdir hpattern]
  obtain ⟨fuel, hfuel⟩ := d.exists_fuel (Path.lead dir ++ pattern)
  rw [hfuel, globWith, hread, hmeta, globFolder_lead dir hpattern.noSlash,
    Path.afterLast_lead dir hpattern.noSlash]
  simp only [h.noMeta]
  cases Pattern.hasMeta pattern <;> rfl

end PlainPath

/-- A folder holds just one file, of a given name and content. -/
structure HoldsJust (d : Disk) (dir name data : Bytes) : Prop where
  folder : d.isFolder dir = true
  names : d.namesAt dir = [name]
  content : d.stat (dir ++ Path.slash :: name) = .ok (.file data)

namespace HoldsJust

variable {d : Disk} {dir name data pattern : Bytes}

theorem stat_dir (h : d.HoldsJust dir name data) : d.stat dir = .ok .folder :=
  stat_of_isFolder h.folder

theorem dir_ne_nil (h : d.HoldsJust dir name data) : dir ≠ [] := by
  rintro rfl
  have hstat := h.stat_dir
  cases hstat

theorem glob_eq (h : d.HoldsJust dir name data) (hdir : d.PlainPath dir)
    (hfile : d.stat (Path.join [dir, name]) = .ok (.file data)) (hname : Path.IsName name)
    (hslash : Path.slash ∉ pattern) (hmatch : Pattern.matchName pattern name = .ok true) :
    d.glob (Path.join [dir, pattern]) = .ok [Path.join [dir, name]] := by
  have hpattern := Pattern.isName_of_matchName hname hslash hmatch
  obtain ⟨hit, hread⟩ := Pattern.matchName_front (Pattern.hasMeta_lead hdir.noMeta) hmatch
  rw [hdir.glob_eq h.dir_ne_nil hpattern hread]
  cases hmeta : Pattern.hasMeta pattern with
  | false =>
    obtain rfl : name = pattern := Pattern.eq_of_matchName hmeta hmatch
    simp [exists?_of_stat hfile]
  | true =>
    have hfound : matching pattern [name] = .ok [name] := by
      rw [matching, hmatch]
      rfl
    have hjoin : Path.join [Path.clean dir, name] = Path.join [dir, name] := by
      rw [Path.join_name (Path.clean_ne_nil dir) hname, Path.join_name h.dir_ne_nil hname,
        Path.lead_clean]
    unfold globIn
    rw [hdir.isFolder_clean, h.folder, hdir.namesAt_clean, h.names, hfound, ← hjoin]
    rfl

/-- **The only file of a folder is its only patch**, if its name matches the pattern. -/
theorem patches_eq (h : d.HoldsJust dir name data) (hdir : d.PlainPath dir)
    (hfile : d.stat (Path.join [dir, name]) = .ok (.file data)) (hname : Path.IsName name)
    (hslash : Path.slash ∉ pattern) (hmatch : Pattern.matchName pattern name = .ok true) :
    d.patches dir pattern = .ok [Path.join [dir, name]] := by
  have hfolder : d.isFolder (Path.join [dir, name]) = false := by
    unfold isFolder
    rw [hfile]
  have hsort : Path.sortByBase [Path.join [dir, name]] = [Path.join [dir, name]] :=
    List.perm_singleton.mp (Path.sortByBase_perm _)
  unfold patches
  rw [h.stat_dir, h.glob_eq hdir hfile hname hslash hmatch]
  simp [hfolder, hsort]

end HoldsJust

end Disk

end PatchAudit
