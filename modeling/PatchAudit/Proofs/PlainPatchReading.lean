import Mathlib.Data.List.TakeWhile
import PatchAudit.Diff.Reader
import PatchAudit.Proofs.PlainPatch

/-!
# Reading plain patches

A plain patch is read as a diff without an error, and each of its sections becomes one file with the
changes of the section (`files_shown`).  Every step is stated for lines as they may be shown and for
whatever lines follow.
-/

namespace PatchAudit

open Bytes

/-! ### Cutting texts -/

namespace Bytes

theorem after?_append (t s : Bytes) : after? t (t ++ s) = some s := by
  unfold after?
  rw [if_pos (List.isPrefixOf_iff_prefix.mpr (List.prefix_append t s)), List.drop_left]

theorem after?_of_not_start {t s : Bytes} (h : t.isPrefixOf s = false) : after? t s = none := by
  unfold after?
  rw [h, if_neg Bool.false_ne_true]

theorem isPrefixOf_of_head_ne {t : Bytes} {b c : UInt8} (hb : t.head? = some b) (hc : c ≠ b)
    (s : Bytes) : t.isPrefixOf (c :: s) = false := by
  cases t with
  | nil => cases hb
  | cons d t =>
    cases hb
    have hdiffer : (b == c) = false := beq_eq_false_iff_ne.mpr (Ne.symm hc)
    show (b == c && t.isPrefixOf s) = false
    rw [hdiffer, Bool.false_and]

/-- A separator is looked for behind bytes that cannot start it. -/
theorem cut?_skip {sep x : Bytes} {b : UInt8} (hb : sep.head? = some b) (h : b ∉ x) (y : Bytes) :
    cut? sep (x ++ y) = (cut? sep y).map fun p => (x ++ p.1, p.2) := by
  induction x with
  | nil => simp
  | cons c x ih =>
    have hc : c ≠ b := fun hbc => h (by simp [hbc])
    rw [List.cons_append, cut?, ih fun hx => h (List.mem_cons_of_mem _ hx),
      isPrefixOf_of_head_ne hb hc, if_neg Bool.false_ne_true, Option.map_map]
    rfl

theorem cut?_here {sep : Bytes} (h : sep ≠ []) (y : Bytes) : cut? sep (sep ++ y) = some ([], y) := by
  cases sep with
  | nil => exact absurd rfl h
  | cons b sep =>
    have hstart : (b :: sep).isPrefixOf (b :: (sep ++ y)) = true :=
      List.isPrefixOf_iff_prefix.mpr (List.prefix_append _ _)
    rw [List.cons_append, cut?, if_pos hstart]
    simp

theorem hasInfix_of_not_mem {t s : Bytes} {b : UInt8} (hb : t.head? = some b) (h : b ∉ s) :
    hasInfix t s = false := by
  rw [← Bool.not_eq_true, hasInfix_iff]
  exact fun hfound => h (List.IsInfix.subset hfound (List.mem_of_head? hb))

theorem dropFinal_newline {l t : Bytes} (h : 0x0A ∉ l) (ht : t = l ∨ t = l ++ [0x0A]) :
    dropFinal "\n" t = l := by
  unfold dropFinal
  rcases ht with rfl | rfl
  · have hend : (Bytes.ofString "\n").isSuffixOf t = false := by
      rw [← Bool.not_eq_true, List.isSuffixOf_iff_suffix]
      exact fun hsuffix => h (hsuffix.subset (by decide))
    rw [hend, if_neg Bool.false_ne_true]
  · have hend : (Bytes.ofString "\n").isSuffixOf (l ++ [0x0A]) = true := by
      rw [List.isSuffixOf_iff_suffix]
      exact List.suffix_append _ _
    rw [if_pos hend]
    simp [show (Bytes.ofString "\n").length = 1 from rfl]

end Bytes

namespace Diff

/-- Each part of a patch has a line at least, so that the lines bound the number of the parts. -/
theorem length_le_flatMap {α : Type} {f : α → List Bytes} (h : ∀ x, f x ≠ []) (xs : List α) :
    xs.length ≤ (xs.flatMap f).length := by
  induction xs with
  | nil => simp
  | cons x xs ih =>
    have hx := List.length_pos_of_ne_nil (h x)
    rw [List.flatMap_cons, List.length_append, List.length_cons]
    omega

theorem ok_bind {ε α β : Type} (a : α) (f : α → Except ε β) : (Except.ok a >>= f) = f a := rfl

/-! ### Fragments -/

theorem word64_eq {n : Int} (h : -2 ^ 63 ≤ n ∧ n < 2 ^ 63) : word64 n = n := by
  unfold word64
  exact Int.bmod_eq_of_le (by omega) (by omega)

theorem readRange_eq {start count : Bytes} (hs : Numeral.IsDecimal start)
    (hc : Numeral.IsDecimal count) (hstart : Numeral.value start < 2 ^ 63)
    (hcount : Numeral.value count < 2 ^ 63) :
    readRange (start ++ "," ++ count) = .ok ⟨Numeral.value start, Numeral.value count⟩ := by
  have hcut : cut? "," (start ++ "," ++ count) = some (start, count) := by
    rw [List.append_assoc, cut?_skip (b := 0x2C) rfl (hs.not_mem (by decide)), cut?_here (by decide)]
    simp
  unfold readRange
  simp only [hcut, Numeral.read_of_digits hs hstart, Numeral.read_of_digits hc hcount]
  rfl

/-- The first line of a hunk is read as its ranges, whatever the heading has become. -/
theorem fragmentHeader?_ranges {h : Hunk} (hrange : h.InRange) (x : Bytes) :
    fragmentHeader? ("@@ -" ++ h.ranges ++ " @@" ++ x) =
      .ok (some ⟨⟨Numeral.value h.oldStart, Numeral.value h.oldCount⟩,
        ⟨Numeral.value h.newStart, Numeral.value h.newCount⟩, x.trim⟩) := by
  have hspace : ∀ {s t : Bytes}, Numeral.IsDecimal s → Numeral.IsDecimal t →
      0x20 ∉ s ++ Bytes.ofString "," ++ t := by
    intro s t hs ht
    simp only [List.mem_append, not_or]
    exact ⟨⟨hs.not_mem (by decide), by decide⟩, ht.not_mem (by decide)⟩
  have hold := hspace h.oldStart_decimal h.oldCount_decimal
  have hnew := hspace h.newStart_decimal h.newCount_decimal
  have hbody : after? fragmentMark ("@@ -" ++ h.ranges ++ " @@" ++ x) =
      some (h.ranges ++ (" @@" ++ x)) := by
    rw [List.append_assoc, List.append_assoc]
    exact after?_append _ _
  have hranges : cut? " @@" (h.ranges ++ (" @@" ++ x)) = some (h.ranges, x) := by
    -- the blank before the plus sign is passed over, since no at sign follows it
    have hplus : ∀ y : Bytes, cut? " @@" (" +" ++ y) =
        (cut? " @@" y).map fun p => (Bytes.ofString " +" ++ p.1, p.2) := by
      intro y
      have hblank : (Bytes.ofString " @@").isPrefixOf (0x20 :: 0x2B :: y) = false := rfl
      have hsign : (Bytes.ofString " @@").isPrefixOf (0x2B :: y) = false := rfl
      show cut? " @@" (0x20 :: 0x2B :: y) = _
      rw [cut?, hblank, if_neg Bool.false_ne_true, cut?, hsign, if_neg Bool.false_ne_true,
        Option.map_map]
      rfl
    unfold Hunk.ranges
    rw [List.append_assoc, List.append_assoc, cut?_skip (b := 0x20) rfl hold, hplus,
      cut?_skip (b := 0x20) rfl hnew, cut?_here (by decide)]
    simp
  have hsides : cut? " +" h.ranges = some (h.oldStart ++ Bytes.ofString "," ++ h.oldCount,
      h.newStart ++ Bytes.ofString "," ++ h.newCount) := by
    unfold Hunk.ranges
    rw [List.append_assoc (h.oldStart ++ Bytes.ofString "," ++ h.oldCount),
      cut?_skip (b := 0x20) rfl hold, cut?_here (by decide)]
    simp
  have hinfix : hasInfix " +" (h.newStart ++ "," ++ h.newCount) = false :=
    hasInfix_of_not_mem rfl hnew
  unfold fragmentHeader?
  simp only [hbody, hranges, hsides, hinfix, Bool.false_eq_true, if_false,
    readRange_eq h.oldStart_decimal h.oldCount_decimal hrange.oldStart hrange.oldCount,
    readRange_eq h.newStart_decimal h.newCount_decimal hrange.newStart hrange.newCount]
  rfl

/-- A line of a hunk keeps its sign. -/
theorem sign_of_shown {l : ContentLine} {t : Bytes} (h : Shown l.text t) :
    ∃ x, t = l.sign.byte :: x := by
  have hstart : Shown ([l.sign.byte] ++ l.payload) t := h
  obtain ⟨x, rfl⟩ := hstart.start (by cases l.sign <;> decide)
  exact ⟨x, rfl⟩

/-- What a tally becomes by a line of a sign. -/
def Tally.after (t : Tally) : Sign → Tally
  | .context => { t with old := word64 (t.old - 1), new := word64 (t.new - 1) }
  | .added => { t with new := word64 (t.new - 1), added := t.added + 1 }
  | .removed => { t with old := word64 (t.old - 1), deleted := t.deleted + 1 }

theorem countLine_sign (t : Tally) (s : Sign) (x : Bytes) :
    countLine t (s.byte :: x) = .ok (t.after s) := by
  cases s <;> rfl

/-- A tally that expects just the given lines, in words of 64 bits. -/
structure Tally.Expects (t : Tally) (lines : List ContentLine) : Prop where
  old : t.old = lines.countP fun l => l.sign.isOld
  new : t.new = lines.countP fun l => l.sign.isNew
  oldWord : t.old < 2 ^ 63
  newWord : t.new < 2 ^ 63

/-- A line counts on one side at least, and the tally then expects the lines after it. -/
theorem Tally.Expects.after {t : Tally} {l : ContentLine} {lines : List ContentLine}
    (h : t.Expects (l :: lines)) : (0 < t.old ∨ 0 < t.new) ∧ (t.after l.sign).Expects lines := by
  obtain ⟨old, new, oldWord, newWord⟩ := h
  rw [List.countP_cons] at old new
  have hold : 0 < t.old → word64 (t.old - 1) = t.old - 1 := fun hpos => word64_eq (by omega)
  have hnew : 0 < t.new → word64 (t.new - 1) = t.new - 1 := fun hpos => word64_eq (by omega)
  cases hsign : l.sign with
  | context =>
    simp only [hsign, Sign.isOld_context, Sign.isNew_context, if_true] at old new
    have ho := hold (by omega)
    have hn := hnew (by omega)
    refine ⟨by omega, ?_, ?_, ?_, ?_⟩ <;> simp only [Tally.after, ho, hn] <;> omega
  | added =>
    simp only [hsign, Sign.isOld_added, Sign.isNew_added, if_true, Bool.false_eq_true, if_false]
      at old new
    have hn := hnew (by omega)
    refine ⟨by omega, ?_, ?_, ?_, ?_⟩ <;> simp only [Tally.after, hn] <;> omega
  | removed =>
    simp only [hsign, Sign.isOld_removed, Sign.isNew_removed, if_true, Bool.false_eq_true, if_false]
      at old new
    have ho := hold (by omega)
    refine ⟨by omega, ?_, ?_, ?_, ?_⟩ <;> simp only [Tally.after, ho] <;> omega

/-- The lines of a hunk are counted to the last one, and no further. -/
theorem countLines_shown {lines : List ContentLine} {shown : List Bytes}
    (h : List.Forall₂ Shown (lines.map ContentLine.text) shown) (number : Nat) (rest : List Bytes)
    {t : Tally} (ht : t.Expects lines) :
    countLines t number (shown ++ rest) =
      .ok (⟨0, 0, t.added + lines.countP fun l => l.sign == .added,
        t.deleted + lines.countP fun l => l.sign == .removed⟩, ⟨number + lines.length, rest⟩) := by
  induction lines generalizing shown number t with
  | nil =>
    cases h
    obtain ⟨old, new, added, deleted⟩ := t
    obtain rfl : old = 0 := ht.old
    obtain rfl : new = 0 := ht.new
    cases rest with
    | nil => rfl
    | cons line rest => rfl
  | cons l lines ih =>
    cases h with
    | cons hl hrest =>
      obtain ⟨x, rfl⟩ := sign_of_shown hl
      obtain ⟨hmore, hafter⟩ := ht.after
      rw [List.cons_append, countLines, if_pos hmore, countLine_sign]
      simp only
      rw [ih hrest (number + 1) hafter, List.countP_cons, List.countP_cons, List.length_cons]
      cases l.sign <;> simp only [Tally.after] <;> simp <;> omega

/-- What may follow a fragment: no note about its last line. -/
def Follows (rest : List Bytes) : Prop := isNoNewlineNote (rest.getD 0 []) = false

/-- **The lines of a hunk** are read as a fragment. -/
theorem fragmentBody_shown {h : Hunk} (hrange : h.InRange) {shown : List Bytes}
    (hshown : List.Forall₂ Shown (h.lines.map ContentLine.text) shown) (comment : Bytes)
    (number : Nat) {rest : List Bytes} (hrest : Follows rest) :
    fragmentBody ⟨⟨Numeral.value h.oldStart, Numeral.value h.oldCount⟩,
        ⟨Numeral.value h.newStart, Numeral.value h.newCount⟩, comment⟩ ⟨number, shown ++ rest⟩ =
      .ok (⟨0, 0, h.count .added, h.count .removed⟩, ⟨number + h.lines.length, rest⟩) := by
  have hsome : ((⟨number, shown ++ rest⟩ : Cursor).atEnd) = false := by
    have hlength := hshown.length_eq
    obtain ⟨l, hl, -⟩ := h.changes
    have hpos := List.length_pos_of_mem hl
    rw [List.length_map] at hlength
    cases shown with
    | nil => rw [List.length_nil] at hlength; omega
    | cons t shown => rfl
  have hexpects : Tally.Expects { old := Numeral.value h.oldCount, new := Numeral.value h.newCount }
      h.lines := by
    have hold := hrange.oldCount
    have hnew := hrange.newCount
    exact ⟨congrArg _ h.old_matches, congrArg _ h.new_matches, by simp only; omega,
      by simp only; omega⟩
  have hcount := countLines_shown hshown number rest hexpects
  have hchanged : ¬ (h.count .added = 0 ∧ h.count .removed = 0) := by
    rintro ⟨hadded, hremoved⟩
    obtain ⟨l, hl, hsign⟩ := h.changes
    have ha := List.countP_eq_zero.mp hadded l hl
    have hr := List.countP_eq_zero.mp hremoved l hl
    cases hs : l.sign <;> simp_all
  simp only [Nat.zero_add] at hcount
  unfold fragmentBody
  rw [hsome, if_neg Bool.false_ne_true]
  simp only [hcount, ok_bind, ne_eq, not_true_eq_false, or_self, if_false]
  have hnote : isNoNewlineNote ((⟨number + h.lines.length, rest⟩ : Cursor).line 0) = false := hrest
  rw [hnote]
  exact (if_neg hchanged).trans rfl

/-- The first line of a hunk. -/
theorem shown_header {h : Hunk} {t : Bytes} (ht : Shown ("@@ -" ++ h.ranges ++ " @@" ++ h.heading) t) :
    ∃ x, t = "@@ -" ++ h.ranges ++ " @@" ++ x := by
  refine ht.start ?_
  rw [List.getLast?_append_of_ne_nil _ (by decide)]
  decide

/-- Lines that start with a hunk may follow a fragment. -/
theorem follows_hunk {h : Hunk} {shown : List Bytes} (hshown : List.Forall₂ Shown h.text shown)
    (rest : List Bytes) : Follows (shown ++ rest) := by
  cases hshown with
  | cons hheader _ =>
    obtain ⟨x, rfl⟩ := shown_header hheader
    rfl

/-- **The hunks of a section** are read as the fragments of a file. -/
theorem fragments_shown {hunks : List Hunk} (hrange : ∀ h ∈ hunks, h.InRange) {shown : List Bytes}
    (hshown : List.Forall₂ Shown (hunks.flatMap Hunk.text) shown) {fuel : Nat}
    (hfuel : hunks.length < fuel) {f : FileChange} (hnew : f.isNew = false)
    (hdeleted : f.isDeleted = false) (number : Nat) {rest : List Bytes} (hrest : Follows rest)
    (hend : fragmentHeader? (rest.getD 0 []) = .ok none) (found : Bool) :
    ∃ after, fragments fuel f ⟨number, shown ++ rest⟩ found =
      .ok ({ f with
          added := f.added + (hunks.map (Hunk.count .added)).sum
          deleted := f.deleted + (hunks.map (Hunk.count .removed)).sum },
        ⟨after, rest⟩, found || !hunks.isEmpty) := by
  induction hunks generalizing shown fuel f number found with
  | nil =>
    cases hshown
    cases fuel with
    | zero => simp at hfuel
    | succ fuel =>
      refine ⟨number, ?_⟩
      have hline : (⟨number, [] ++ rest⟩ : Cursor).line 0 = rest.getD 0 [] := rfl
      rw [fragments, hline, hend]
      simp
  | cons h hunks ih =>
    cases fuel with
    | zero => simp at hfuel
    | succ fuel =>
      rw [List.flatMap_cons] at hshown
      obtain ⟨first, others, rfl, hfirst, hothers⟩ := forall₂_append_left hshown
      have hfollows : Follows (others ++ rest) := by
        cases hunks with
        | nil =>
          cases hothers
          exact hrest
        | cons g hunks =>
          rw [List.flatMap_cons] at hothers
          obtain ⟨next, more, rfl, hnext, -⟩ := forall₂_append_left hothers
          rw [List.append_assoc]
          exact follows_hunk hnext _
      cases hfirst with
      | @cons _ header _ lines hheader hlines =>
        obtain ⟨x, rfl⟩ := shown_header hheader
        obtain ⟨oldName, newName, isNew, isDeleted, isRenamed, isBinary, added, deleted⟩ := f
        obtain rfl : isNew = false := hnew
        obtain rfl : isDeleted = false := hdeleted
        have hh := hrange h List.mem_cons_self
        have hbody := fragmentBody_shown hh hlines x.trim (number + 1) hfollows
        obtain ⟨after, hrec⟩ := ih (fun g hg => hrange g (List.mem_cons_of_mem _ hg)) hothers
          (Nat.lt_of_succ_lt_succ hfuel)
          (f := ⟨oldName, newName, false, false, isRenamed, isBinary, added + h.count .added,
            deleted + h.count .removed⟩) rfl rfl (number + 1 + h.lines.length) true
        refine ⟨after, ?_⟩
        rw [List.append_assoc, List.cons_append, fragments]
        have hline : ∀ t ts, (⟨number, t :: ts⟩ : Cursor).line 0 = t := fun _ _ => rfl
        rw [hline, fragmentHeader?_ranges hh]
        simp only [Bool.false_eq_true, false_and, if_false, Cursor.next, hbody, ok_bind, hrec]
        simp [Nat.add_assoc]

/-! ### Names -/

/-- A component without its slash is taken over as it is. -/
theorem cleanName_append {x : Bytes} (h : 0x2F ∉ x) (drop : Nat) (acc y : Bytes) :
    cleanName drop acc (x ++ y) = cleanName drop (x.reverse ++ acc) y := by
  induction x generalizing acc with
  | nil => rfl
  | cons b x ih =>
    have hb : b ≠ 0x2F := fun hb => h (by simp [hb])
    rw [List.cons_append, cleanName, ih fun hx => h (List.mem_cons_of_mem _ hx)]
    · simp
    · exact fun _ hslash _ => hb hslash
    · exact hb

/-- A lone slash is kept, or ends a component that is dropped. -/
theorem cleanName_slash {y : Bytes} (h : y.head? ≠ some 0x2F) (drop : Nat) (acc : Bytes) :
    cleanName drop acc (0x2F :: y) =
      match drop with
      | 0 => cleanName 0 (0x2F :: acc) y
      | n + 1 => cleanName n [] y := by
  rw [cleanName.eq_def]
  split
  · simp_all
  · rename_i heq
    simp only [List.cons.injEq, true_and] at heq
    rw [heq] at h
    simp at h
  · rename_i heq
    cases heq
    rfl
  · rename_i hnot heq
    cases heq
    exact absurd rfl hnot

theorem head?_join {s : Bytes} (h : s ≠ []) (rest : List Bytes) :
    (Bytes.join "/" (s :: rest)).head? = s.head? := by
  cases rest with
  | nil => simp [Bytes.join]
  | cons t rest =>
    rw [Bytes.join, List.intercalate_cons_cons, List.append_assoc, List.head?_append_of_ne_nil _ h]

theorem cleanName_join {segments : List Bytes} (hslash : ∀ s ∈ segments, 0x2F ∉ s)
    (hne : ∀ s ∈ segments, s ≠ []) (acc : Bytes) :
    cleanName 0 acc (Bytes.join "/" segments) = acc.reverse ++ Bytes.join "/" segments := by
  induction segments generalizing acc with
  | nil => simp [Bytes.join, cleanName]
  | cons s rest ih =>
    have hs := hslash s List.mem_cons_self
    cases rest with
    | nil =>
      have hclean := cleanName_append hs 0 acc []
      simp only [List.append_nil] at hclean
      simp [Bytes.join, hclean, cleanName]
    | cons t rest =>
      have ht : (Bytes.join "/" (t :: rest)).head? ≠ some 0x2F := by
        rw [head?_join (hne t (by simp))]
        exact fun hmem => hslash t (by simp) (List.mem_of_mem_head? hmem)
      have hjoin : Bytes.join "/" (s :: t :: rest) = s ++ 0x2F :: Bytes.join "/" (t :: rest) := by
        rw [Bytes.join, List.intercalate_cons_cons, List.append_assoc]
        rfl
      have hrest := ih (fun x hx => hslash x (List.mem_cons_of_mem _ hx))
        (fun x hx => hne x (List.mem_cons_of_mem _ hx)) (0x2F :: (s.reverse ++ acc))
      rw [hjoin, cleanName_append hs, cleanName_slash ht]
      simp only
      rw [hrest]
      simp

theorem slash_not_mem (n : PlainName) {s : Bytes} (hs : s ∈ n.segments) : 0x2F ∉ s := by
  intro hmem
  have hplain := n.plain s hs 0x2F hmem
  simp at hplain

theorem cleanName_text (n : PlainName) : cleanName 0 [] n.text = n.text :=
  cleanName_join (fun _ hs => slash_not_mem n hs) n.segment_ne_nil []

theorem head?_text (n : PlainName) : n.text.head? ≠ some 0x2F := by
  unfold PlainName.text
  cases hsegments : n.segments with
  | nil => exact absurd hsegments n.ne_nil
  | cons s rest =>
    have hs : s ∈ n.segments := by
      rw [hsegments]
      exact List.mem_cons_self
    rw [head?_join (n.segment_ne_nil s hs)]
    exact fun hmem => slash_not_mem n hs (List.mem_of_mem_head? hmem)

/-- A name is read without the letter of its side. -/
theorem readName_text (n : PlainName) {side : UInt8} (hside : side = 0x61 ∨ side = 0x62) :
    readName (side :: 0x2F :: n.text) (some 0x09) 1 = .ok n.text := by
  have hbyte : ∀ b ∈ side :: 0x2F :: n.text, (b != 0x0A && some b != some 0x09) = true := by
    intro b hb
    have hplain : b ≠ 0x0A ∧ b ≠ 0x09 := by
      rcases List.mem_cons.mp hb with rfl | hb
      · rcases hside with rfl | rfl <;> decide
      rcases List.mem_cons.mp hb with rfl | hb
      · decide
      · have hname := n.isByte_of_mem hb
        constructor <;> rintro rfl <;> exact absurd hname (by unfold PlainName.IsByte; decide)
    simp [hplain]
  have hclean : cleanName 1 [] (side :: 0x2F :: n.text) = n.text := by
    have hslash : 0x2F ∉ [side] := by rcases hside with rfl | rfl <;> decide
    refine (cleanName_append hslash 1 [] (0x2F :: n.text)).trans ?_
    rw [cleanName_slash (head?_text n)]
    exact cleanName_text n
  have hquote : (side :: 0x2F :: n.text).head? ≠ some 0x22 := by
    rcases hside with rfl | rfl <;> simp
  have hsomewhere : side :: 0x2F :: n.text ≠ Path.nowhere := by
    rcases hside with rfl | rfl <;> exact fun h => absurd (List.cons.inj h).1 (by decide)
  have hplain := List.takeWhile_eq_self_iff.mpr hbyte
  unfold readName
  rw [if_neg hquote]
  simp only [hplain, List.isEmpty_cons, Bool.false_eq_true, if_false, ok_bind, hsomewhere, hclean]
  rfl

/-! ### Sections -/

/-- The names of a section as they are read. -/
def namedChange (n : PlainName) : FileChange := { oldName := n.text, newName := n.text }

theorem headerLine?_old (x : Bytes) : headerLine? ("--- " ++ x) = some (.oldFile, x) := rfl

theorem headerLine?_new (x : Bytes) : headerLine? ("+++ " ++ x) = some (.newFile, x) := rfl

/-- A line that starts with an at sign ends a header. -/
theorem headerLine?_hunk (x : Bytes) : headerLine? (dropFinal "\n" (0x40 :: x)) = none := by
  have hat : ∃ y, dropFinal "\n" (0x40 :: x) = 0x40 :: y := by
    cases x with
    | nil => exact ⟨[], rfl⟩
    | cons b x =>
      unfold dropFinal
      split_ifs
      · exact ⟨(b :: x).take x.length, rfl⟩
      · exact ⟨b :: x, rfl⟩
  obtain ⟨y, hy⟩ := hat
  rw [hy]
  rfl

/-- The name that both sides of a section share. -/
theorem exists_defaultName (n : PlainName) {y : Bytes} (hy : y = n.pair ∨ y = n.pair ++ [0x0A]) :
    ∃ shared, defaultName y = .ok shared := by
  have hnewline : ¬ PlainName.IsByte 0x0A := by unfold PlainName.IsByte; decide
  have hmark : ¬ PlainName.IsByte 0x22 := by unfold PlainName.IsByte; decide
  have hdrop := dropFinal_newline (n.not_mem_pair hnewline (by decide) (by decide)) hy
  have hquote : n.pair.idxOf? 0x22 = none :=
    List.idxOf?_eq_none_iff.mpr (n.not_mem_pair hmark (by decide) (by decide))
  refine ⟨sharedName n.pair [], ?_⟩
  unfold defaultName
  simp only [hdrop, hquote]
  rfl

/-- **The first lines of a section** are read as the header of a file. -/
theorem gitHeader?_shown {n : PlainName} {t₁ t₂ t₃ : Bytes} (h₁ : Shown ("diff --git " ++ n.pair) t₁)
    (h₂ : Shown ("--- " ++ ("a/" ++ n.text)) t₂) (h₃ : Shown ("+++ " ++ ("b/" ++ n.text)) t₃)
    (x : Bytes) (number : Nat) (rest : List Bytes) :
    gitHeader? ⟨number, t₁ :: t₂ :: t₃ :: (0x40 :: x) :: rest⟩ =
      .ok (some (namedChange n, ⟨number + 3, (0x40 :: x) :: rest⟩)) := by
  have hbyte : ¬ PlainName.IsByte 0x0A := by unfold PlainName.IsByte; decide
  have hn := n.not_mem_text hbyte
  have hfirst : ∃ y, t₁ = gitMark ++ y ∧ (y = n.pair ∨ y = n.pair ++ [0x0A]) := by
    have hlast : (Bytes.ofString "diff --git " ++ n.pair).getLast? ≠ some 0x0D := by
      rw [PlainName.pair, ← List.append_assoc]
      exact n.getLast?_append _
    rcases h₁.whole hlast with rfl | rfl
    · exact ⟨n.pair, rfl, .inl rfl⟩
    · exact ⟨n.pair ++ [0x0A], List.append_assoc _ _ _, .inr rfl⟩
  have hsecond : dropFinal "\n" t₂ = "--- " ++ ("a/" ++ n.text) := by
    refine dropFinal_newline ?_ (h₂.whole ?_)
    · simp only [List.mem_append, not_or]
      exact ⟨by decide, by decide, hn⟩
    · rw [← List.append_assoc]
      exact n.getLast?_append _
  have hthird : dropFinal "\n" t₃ = "+++ " ++ ("b/" ++ n.text) := by
    refine dropFinal_newline ?_ (h₃.whole ?_)
    · simp only [List.mem_append, not_or]
      exact ⟨by decide, by decide, hn⟩
    · rw [← List.append_assoc]
      exact n.getLast?_append _
  obtain ⟨y, rfl, hy⟩ := hfirst
  obtain ⟨shared, hshared⟩ := exists_defaultName n hy
  have hold : applyHeaderLine shared {} .oldFile ("a/" ++ n.text) = .ok { oldName := n.text } := by
    have hread : readName (Bytes.ofString "a/" ++ n.text) (some 0x09) 1 = .ok n.text :=
      readName_text n (.inl rfl)
    unfold applyHeaderLine
    simp only [hread]
    rfl
  have hnew : applyHeaderLine shared { oldName := n.text } .newFile ("b/" ++ n.text) =
      .ok (namedChange n) := by
    have hread : readName (Bytes.ofString "b/" ++ n.text) (some 0x09) 1 = .ok n.text :=
      readName_text n (.inr rfl)
    unfold applyHeaderLine
    simp only [hread]
    rfl
  have hlines : headerLines shared {} (number + 1) (t₂ :: t₃ :: (0x40 :: x) :: rest) =
      .ok (namedChange n, ⟨number + 3, (0x40 :: x) :: rest⟩) := by
    simp only [headerLines, hsecond, hthird, headerLine?_old, headerLine?_new, headerLine?_hunk, hold,
      hnew]
  have hsettle : settleNames shared (namedChange n) = .ok (namedChange n) := by
    simp only [settleNames, namedChange, List.isEmpty_iff, n.text_ne_nil, false_and, if_false, or_self,
      pure_bind]
    rfl
  unfold gitHeader?
  have hline : ∀ t ts, (⟨number, t :: ts⟩ : Cursor).line 0 = t := fun _ _ => rfl
  rw [hline, after?_append]
  simp only [hshared, List.drop_one, List.tail_cons, hlines, ok_bind, hsettle]
  rfl

/-- The change of a section. -/
def sectionChange (s : FileSection) : FileChange :=
  { namedChange s.name with added := s.count .added, deleted := s.count .removed }

/-- What may follow a section: another section, or nothing. -/
structure Between (rest : List Bytes) : Prop where
  follows : Follows rest
  no_hunk : fragmentHeader? (rest.getD 0 []) = .ok none

theorem between_sections {sections : List FileSection} {shown : List Bytes}
    (hshown : List.Forall₂ Shown (sections.flatMap FileSection.text) shown) : Between shown := by
  cases sections with
  | nil =>
    cases hshown
    exact ⟨rfl, rfl⟩
  | cons s sections =>
    rw [List.flatMap_cons, FileSection.text, List.cons_append] at hshown
    cases hshown with
    | cons hfirst _ =>
      obtain ⟨y, rfl⟩ := hfirst.start (by decide)
      exact ⟨rfl, rfl⟩

/-- **A section** is found where it starts and is read to its end. -/
theorem section_shown {s : FileSection} (hrange : ∀ h ∈ s.hunks, h.InRange) {shown : List Bytes}
    (hshown : List.Forall₂ Shown s.text shown) (number : Nat) {rest : List Bytes}
    (hrest : Between rest) :
    ∃ c after, nextHeader number (shown ++ rest) = .ok (some (namedChange s.name, c)) ∧
      fileBody (namedChange s.name) c = .ok (sectionChange s, ⟨after, rest⟩) := by
  rw [FileSection.text] at hshown
  obtain ⟨t₁, ts₁, h₁, hnames, rfl⟩ := List.forall₂_cons_left_iff.mp hshown
  obtain ⟨t₂, ts₂, h₂, hnew, rfl⟩ := List.forall₂_cons_left_iff.mp hnames
  obtain ⟨t₃, ts₃, h₃, hhunks, rfl⟩ := List.forall₂_cons_left_iff.mp hnew
  have hcount : s.hunks.length < (ts₃ ++ rest).length + 1 := by
    have hlength := hhunks.length_eq
    have hle := length_le_flatMap (f := Hunk.text) (fun _ => List.cons_ne_nil _ _) s.hunks
    rw [List.length_append]
    omega
  obtain ⟨after, hfragments⟩ := fragments_shown hrange hhunks hcount (f := namedChange s.name) rfl rfl
    (number + 3) hrest.follows hrest.no_hunk false
  -- the first hunk ends the header
  obtain ⟨x, lines, hfirst⟩ : ∃ x lines, ts₃ = (0x40 :: x) :: lines := by
    cases hunks : s.hunks with
    | nil => exact absurd hunks s.hunks_ne_nil
    | cons h hs =>
      rw [hunks, List.flatMap_cons, Hunk.text, List.cons_append] at hhunks
      obtain ⟨t, ts, ht, -, rfl⟩ := List.forall₂_cons_left_iff.mp hhunks
      obtain ⟨x, rfl⟩ := shown_header ht
      exact ⟨_, ts, rfl⟩
  refine ⟨⟨number + 3, ts₃ ++ rest⟩, after, ?_, ?_⟩
  · obtain ⟨y, hy⟩ := h₁.start (by decide)
    have hnone : fragmentHeader? t₁ = .ok none := by
      rw [hy]
      rfl
    have hgit := gitHeader?_shown h₁ h₂ h₃ x number (lines ++ rest)
    rw [hfirst]
    simp only [List.cons_append, nextHeader, hnone, hgit]
  · unfold fileBody
    have hfound : (false || !s.hunks.isEmpty) = true := by simp [s.hunks_ne_nil]
    rw [hfragments, hfound]
    simp only [ok_bind, if_true, namedChange, Nat.zero_add]
    rfl

/-- **The sections of a patch** are read one after the other, each as one file. -/
theorem filesFrom_shown {sections : List FileSection}
    (hrange : ∀ s ∈ sections, ∀ h ∈ s.hunks, h.InRange) {shown : List Bytes}
    (hshown : List.Forall₂ Shown (sections.flatMap FileSection.text) shown) {fuel : Nat}
    (hfuel : sections.length < fuel) (number : Nat) :
    filesFrom fuel ⟨number, shown⟩ = .ok (sections.map sectionChange) := by
  induction sections generalizing shown fuel number with
  | nil =>
    cases hshown
    cases fuel with
    | zero => simp at hfuel
    | succ fuel => rfl
  | cons s sections ih =>
    cases fuel with
    | zero => simp at hfuel
    | succ fuel =>
      rw [List.flatMap_cons] at hshown
      obtain ⟨first, others, rfl, hfirst, hothers⟩ := forall₂_append_left hshown
      obtain ⟨c, after, hheader, hbody⟩ := section_shown (hrange s List.mem_cons_self) hfirst number
        (between_sections hothers)
      have hrest := ih (fun t ht => hrange t (List.mem_cons_of_mem _ ht)) hothers
        (Nat.lt_of_succ_lt_succ hfuel) after
      rw [filesFrom]
      simp only [hheader, ok_bind, hbody, hrest]
      rfl

/-- Lines that start nothing are passed over. -/
theorem nextHeader_preamble {preamble shown : List Bytes}
    (hstart : ∀ l ∈ preamble, startsWithAny ["@@", "diff --git ", "--- "] l = false)
    (hshown : List.Forall₂ Shown preamble shown) (number : Nat) (rest : List Bytes) :
    nextHeader number (shown ++ rest) = nextHeader (number + preamble.length) rest := by
  induction hshown generalizing number with
  | nil => rfl
  | @cons l t preamble shown hl _ ih =>
    have hno := hstart l List.mem_cons_self
    simp only [startsWithAny, List.any_cons, List.any_nil, Bool.or_false, Bool.or_eq_false_iff] at hno
    have hhunk : after? fragmentMark t = none := by
      refine after?_of_not_start (hl.no_start ?_ (by decide))
      rw [← Bool.not_eq_true, List.isPrefixOf_iff_prefix]
      intro hprefix
      have hat : Bytes.ofString "@@" <+: l := List.IsPrefix.trans (by decide) hprefix
      rw [List.isPrefixOf_iff_prefix.mpr hat] at hno
      cases hno.1
    have hgit : after? gitMark t = none := after?_of_not_start (hl.no_start hno.2.1 (by decide))
    have hplain : after? "--- " t = none := after?_of_not_start (hl.no_start hno.2.2 (by decide))
    have hline : ∀ ts, (⟨number, t :: ts⟩ : Cursor).line 0 = t := fun _ => rfl
    rw [List.cons_append, nextHeader]
    simp only [fragmentHeader?, hhunk, gitHeader?, plainHeader?, hline, hgit, hplain]
    rw [ih (fun m hm => hstart m (List.mem_cons_of_mem _ hm)), List.length_cons]
    congr 1
    omega

/-- **A plain patch is read without an error**, and each section is one file of the diff. -/
theorem files_shown {p : PlainPatch} (hrange : p.InRange) {text : Bytes}
    (hshown : List.Forall₂ Shown p.lines text.terminatedLines) :
    files text = .ok (p.sections.map sectionChange) := by
  obtain ⟨before, others, hlines, hbefore, hothers⟩ := forall₂_append_left hshown
  have hcount : p.sections.length < text.terminatedLines.length + 1 := by
    have hlength := hothers.length_eq
    have hle := length_le_flatMap (f := FileSection.text) (fun _ => List.cons_ne_nil _ _) p.sections
    rw [hlines, List.length_append]
    omega
  have hskip := nextHeader_preamble p.no_start hbefore 1 others
  have hread := filesFrom_shown hrange hothers hcount (1 + p.preamble.length)
  unfold files Cursor.ofText
  simp only
  rw [filesFrom] at hread ⊢
  simp only at hread ⊢
  rw [← hread, hlines, hskip]

end Diff

end PatchAudit
