import PatchAudit.Proofs.BraceWalk
import PatchAudit.Proofs.ClassifiedLines
import PatchAudit.Proofs.SkippedChecks

/-!
# Where issues stand

A check marks some of the added lines, in the order of the file, and then says what is left of the file
as a whole (`Check.exists_issues_eq`).  So the lines in the issues of a check increase, and those
without a line come last (`issues_stand_on_added_lines`).  A text without a hunk marker adds nothing,
which leaves no line to mark and no brace open (`Check.issues_eq_nil_of_no_hunk`).
-/

namespace PatchAudit

/-! ### Added lines -/

namespace Document

/-- The added lines of a document. -/
def added (d : Document) : List PatchLine := d.classified.filter (·.kind == .added)

variable {d : Document} {l : PatchLine}

theorem mem_added_iff : l ∈ d.added ↔ l ∈ d.classified ∧ l.kind = .added := by
  rw [added, List.mem_filter, beq_iff_eq]

theorem added_pairwise (d : Document) : d.added.Pairwise fun a b => a.number < b.number :=
  (PatchLine.classifyFrom_pairwise false 1 d.lines).sublist List.filter_sublist

/-- An added line stands where its number says, below the first line. -/
theorem place_of_mem_added (h : l ∈ d.added) :
    2 ≤ l.number ∧ l.number ≤ d.lines.length ∧ d.classified[l.number - 1]? = some l := by
  obtain ⟨hl, hadded⟩ := mem_added_iff.mp h
  obtain ⟨-, hlast, hplace⟩ := PatchLine.place_of_mem_classify hl
  exact ⟨PatchLine.one_lt_number_of_added hl hadded, hlast, hplace⟩

/-- A text without a hunk marker adds no line. -/
theorem added_eq_nil (h : Bytes.hasInfix "@@" d.text = false) : d.added = [] := by
  refine List.filter_eq_nil_iff.mpr fun l hl hadded => ?_
  obtain ⟨k, rest, hplace, -⟩ := PatchLine.mem_classify_added_iff.mp ⟨hl, beq_iff_eq.mp hadded⟩
  obtain ⟨above, habove, hstart⟩ := hplace.below
  have hinfix : Bytes.ofString "@@" <:+: d.text :=
    hstart.isInfix.trans (Bytes.infix_of_mem_splitOn (List.mem_of_mem_take habove))
  rw [← Bytes.hasInfix_iff, h] at hinfix
  cases hinfix

end Document

/-! ### Marked lines -/

/-- The lines on which the braces fall below everything before are among those that count. -/
theorem BraceScan.lows_sublist (marks : List Bytes) (lines : List PatchLine) :
    (lows marks lines).Sublist (counted marks lines) := by
  have hplaces := (List.filter_sublist (l := (counted marks lines).zipIdx)
    (p := fun p => height (rises marks lines) (p.2 + 1) < lowest (rises marks lines) p.2)).map Prod.fst
  rwa [List.zipIdx_map_fst] at hplaces

theorem BraceScan.counted_sublist (marks : List Bytes) (lines : List PatchLine) :
    (counted marks lines).Sublist (lines.filter (·.kind == .added)) := by
  refine List.monotone_filter_right lines fun l hl => ?_
  rw [beq_iff_eq]
  exact (of_decide_eq_true hl).1

namespace Check

/-- The lines of a document that a check marks. -/
def marked (o : LintOptions) (d : Document) : Check → List PatchLine
  | shape => []
  | braces => BraceScan.lows o.commentMarks d.classified
  | branding =>
    if o.branding.appliesTo d.name then
      d.classified.filter fun l => l.kind == .added && o.branding.offends l.payload
    else []

/-- What a check says of a document as a whole. -/
def ofWhole (o : LintOptions) (d : Document) : Check → List Issue
  | shape => ShapeCheck.issues d.text
  | braces => (BraceScan.scan o.commentMarks d.classified).2.final?.toList
  | branding => []

variable (o : LintOptions) (d : Document)

/-- **A check marks lines**, and then says what is left of the file as a whole. -/
theorem exists_issues_eq (c : Check) :
    ∃ mark : Nat → Issue, (∀ n : Nat, (mark n).line = n) ∧
      c.issues o d = (c.marked o d).map (fun l => mark l.number) ++ c.ofWhole o d := by
  cases c with
  | shape => exact ⟨fun n => { ShapeCheck.issue [] with line := n }, fun n => rfl, rfl⟩
  | braces =>
    refine ⟨(BraceScan.issue · "unmatched closing brace"), fun n => rfl, ?_⟩
    rw [marked, ← BraceScan.run_issues_eq]
    rfl
  | branding =>
    refine ⟨o.branding.issue, fun n => rfl, ?_⟩
    rw [issues, BrandingRule.issues, marked, ofWhole, List.append_nil]
    split_ifs <;> rfl

/-- Only added lines are marked, in the order of the file. -/
theorem marked_sublist (c : Check) : (c.marked o d).Sublist d.added := by
  cases c with
  | shape => exact List.nil_sublist _
  | braces => exact (BraceScan.lows_sublist _ _).trans (BraceScan.counted_sublist _ _)
  | branding =>
    rw [marked]
    split_ifs
    · exact List.monotone_filter_right _ fun l hl => (Bool.and_eq_true _ _ ▸ hl).1
    · exact List.nil_sublist _

theorem line_of_mem_ofWhole {c : Check} {i : Issue} (h : i ∈ c.ofWhole o d) : i.line = 0 := by
  cases c with
  | shape =>
    obtain ⟨r, -, rfl⟩ := List.mem_map.mp h
    rfl
  | braces =>
    obtain rfl := BraceScan.eq_of_mem_final? h
    rfl
  | branding => cases h

theorem length_ofWhole_braces : (braces.ofWhole o d).length ≤ 1 :=
  Option.length_toList_le

/-- The issues of a check on lines, in the order of these lines, stand before those without one. -/
theorem exists_numbered (c : Check) :
    ∃ numbered : List Issue, c.issues o d = numbered ++ c.ofWhole o d ∧
      (∀ i ∈ numbered, ∃ l ∈ d.added, i.line = l.number) ∧
      numbered.Pairwise fun i j => i.line < j.line := by
  obtain ⟨mark, hmark, hissues⟩ := exists_issues_eq o d c
  refine ⟨_, hissues, fun i hi => ?_, ?_⟩
  · obtain ⟨l, hl, rfl⟩ := List.mem_map.mp hi
    exact ⟨l, (marked_sublist o d c).subset hl, hmark _⟩
  · refine List.Pairwise.map _ (fun a b hab => ?_) (d.added_pairwise.sublist (marked_sublist o d c))
    rw [hmark, hmark]
    exact_mod_cast hab

/-- **Without a hunk there is nothing to report** but the shape of the text. -/
theorem issues_eq_nil_of_no_hunk {c : Check} (h : Bytes.hasInfix "@@" d.text = false)
    (hc : c ≠ .shape) : c.issues o d = [] := by
  have hadded : d.added = [] := Document.added_eq_nil h
  obtain ⟨mark, -, hissues⟩ := exists_issues_eq o d c
  have hmarked := marked_sublist o d c
  rw [hadded, List.sublist_nil] at hmarked
  rw [hissues, hmarked, List.map_nil, List.nil_append]
  cases c with
  | shape => exact absurd rfl hc
  | braces =>
    -- no line counts, so the braces stay where they were
    have hcounted := BraceScan.counted_sublist o.commentMarks d.classified
    rw [show d.classified.filter _ = _ from hadded, List.sublist_nil] at hcounted
    have hbalance : ((BraceScan.scan o.commentMarks d.classified).2.balance : Int) = 0 := by
      have hheight := BraceScan.run_balance_eq o.commentMarks d.classified
      rwa [BraceScan.rises, hcounted] at hheight
    rw [ofWhole, BraceScan.final?, if_neg fun hopen => by omega]
    rfl
  | branding => rfl

end Check

theorem ShapeCheck.no_hunk_of_mem_issues {text : Bytes} {i : Issue} (h : i ∈ issues text)
    (hmessage : i.message = Bytes.ofString "missing diff sections") :
    Bytes.hasInfix "@@" text = false := by
  obtain ⟨r, hr, rfl⟩ := List.mem_map.mp h
  obtain ⟨hr, hfails⟩ := List.mem_filter.mp hr
  simp only [requirements, List.mem_cons, List.not_mem_nil, or_false] at hr
  rcases hr with rfl | rfl | rfl
  · exact absurd hmessage
      (show ¬ Bytes.ofString "missing proper patch header" = "missing diff sections" by decide)
  · exact absurd hmessage
      (show ¬ Bytes.ofString "missing file diff markers" = "missing diff sections" by decide)
  · simpa using hfails

/-- **Issues stand on added lines.**  Every issue of a report is one of the file as a whole or names an
added line, which is never the first one.  The lines in the issues of the brace check increase, and at
most one issue without a line comes behind them; those of the branding check increase; the structure
check names no line.  A text that has no diff section for the structure check has nothing to report for
the others, under any options. -/
theorem issues_stand_on_added_lines (linter : Linter) (d : Document) :
    let r := linter.lint d
    (∀ i ∈ r.issues, i.line = 0 ∨ ∃ (n : Nat) (l : PatchLine), i.line = n ∧ 2 ≤ n ∧
      n ≤ d.lines.length ∧ d.classified[n - 1]? = some l ∧ l.number = n ∧ l.kind = .added) ∧
    (∀ i ∈ r.issuesOf .shape, i.line = 0) ∧
    (∃ numbered whole : List Issue, r.issuesOf .braces = numbered ++ whole ∧
      (∀ i ∈ numbered, 0 < i.line) ∧ (numbered.Pairwise fun i j => i.line < j.line) ∧
      (∀ i ∈ whole, i.line = 0) ∧ whole.length ≤ 1) ∧
    ((∀ i ∈ r.issuesOf .branding, 0 < i.line) ∧
      (r.issuesOf .branding).Pairwise fun i j => i.line < j.line) ∧
    ((∃ i ∈ ShapeCheck.issues d.text, i.message = Bytes.ofString "missing diff sections") →
      ∀ (o : LintOptions) (c : Check), c ≠ .shape → c.issues o d = []) := by
  intro r
  have hfound : ∀ c : Check, r.issuesOf c = [] ∨ r.issuesOf c = c.issues linter.options d := by
    intro c
    have hreport := linter.options.issuesOf_report d c
    split_ifs at hreport
    · exact .inl hreport
    · exact .inr hreport
  have hpositive : ∀ (numbered : List Issue),
      (∀ i ∈ numbered, ∃ l ∈ d.added, i.line = l.number) → ∀ i ∈ numbered, 0 < i.line := by
    intro numbered hlines i hi
    obtain ⟨l, hl, hline⟩ := hlines i hi
    have hplace := (Document.place_of_mem_added hl).1
    omega
  refine ⟨fun i hi => ?_, fun i hi => ?_, ?_, ?_, fun ⟨i, hi, hmessage⟩ o c hc => ?_⟩
  · rcases LintOptions.added_of_mem_issues hi with hzero | ⟨l, hl, hadded, hline⟩
    · exact .inl hzero
    · have hmem := Document.mem_added_iff.mpr ⟨hl, hadded⟩
      obtain ⟨hfirst, hlast, hplace⟩ := Document.place_of_mem_added hmem
      exact .inr ⟨l.number, l, hline, hfirst, hlast, hplace, rfl, hadded⟩
  · rcases hfound .shape with hnone | hsome
    · rw [hnone] at hi
      cases hi
    · rw [hsome] at hi
      exact Check.line_of_mem_ofWhole linter.options d (c := .shape) hi
  · rcases hfound .braces with hnone | hsome
    · exact ⟨[], [], hnone, by simp⟩
    · obtain ⟨numbered, hissues, hlines, hincreasing⟩ := Check.exists_numbered linter.options d .braces
      exact ⟨numbered, _, hsome.trans hissues, hpositive numbered hlines, hincreasing,
        fun i hi => Check.line_of_mem_ofWhole linter.options d hi,
        Check.length_ofWhole_braces linter.options d⟩
  · rcases hfound .branding with hnone | hsome
    · rw [hnone]
      simp
    · obtain ⟨numbered, hissues, hlines, hincreasing⟩ :=
        Check.exists_numbered linter.options d .branding
      rw [Check.ofWhole, List.append_nil] at hissues
      rw [hsome, hissues]
      exact ⟨hpositive numbered hlines, hincreasing⟩
  · exact Check.issues_eq_nil_of_no_hunk o d (ShapeCheck.no_hunk_of_mem_issues hi hmessage) hc

/-- A brace that nothing opened above one that stays open, both beside an old term; and a text without
a diff section. -/
theorem issues_stand_on_added_lines_reopened :
    let d := Document.ofText "branding.patch" "@@ -1 +1,2 @@\n+Chrome\x7d\n+\x7bChrome"
    let plain := Document.ofText "branding.patch" "+Chrome\x7d"
    let linter : Linter := ⟨{}, rfl⟩
    (BraceScan.issue 2 "unmatched closing brace" ∈ (linter.lint d).issues ∧
      ∃ l, d.classified[1]? = some l ∧ l.kind = .added) ∧
    (∃ numbered whole : List Issue,
      [BraceScan.issue 2 "unmatched closing brace", BraceScan.issue 0 "1 unclosed braces"] =
        numbered ++ whole ∧ (∀ i ∈ numbered, 0 < i.line) ∧ (∀ i ∈ whole, i.line = 0) ∧
        whole.length ≤ 1) ∧
    ((linter.lint d).issuesOf .branding).map Issue.line = [2, 3] ∧
    (∀ i ∈ (linter.lint d).issuesOf .branding, 0 < i.line) ∧
    (∃ i ∈ ShapeCheck.issues plain.text, i.message = Bytes.ofString "missing diff sections") ∧
    ∀ o : LintOptions, Check.braces.issues o plain = [] ∧ Check.branding.issues o plain = [] := by
  intro d plain linter
  have hmem : BraceScan.issue 2 "unmatched closing brace" ∈ (linter.lint d).issues := by
    decide +kernel
  have hbraces : (linter.lint d).issuesOf .braces =
      [BraceScan.issue 2 "unmatched closing brace", BraceScan.issue 0 "1 unclosed braces"] := by
    decide +kernel
  have hshape : ∃ i ∈ ShapeCheck.issues plain.text,
      i.message = Bytes.ofString "missing diff sections" := by decide +kernel
  obtain ⟨hplaces, -, ⟨numbered, whole, hsplit, hpositive, -, hzero, hone⟩, ⟨hbranding, -⟩, -⟩ :=
    issues_stand_on_added_lines linter d
  obtain ⟨-, -, -, -, hnothing⟩ := issues_stand_on_added_lines linter plain
  refine ⟨⟨hmem, ?_⟩, ⟨numbered, whole, hbraces ▸ hsplit, hpositive, hzero, hone⟩, by decide +kernel,
    hbranding, hshape, fun o => ⟨hnothing hshape o .braces (by decide),
      hnothing hshape o .branding (by decide)⟩⟩
  rcases hplaces _ hmem with hwhole | ⟨n, l, hline, -, -, hplace, -, hadded⟩
  · exact absurd hwhole (by decide)
  · obtain rfl : 2 = n := Int.ofNat_inj.mp hline
    exact ⟨l, hplace, hadded⟩

end PatchAudit
