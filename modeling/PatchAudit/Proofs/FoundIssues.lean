import Mathlib.Data.List.Basic
import PatchAudit.Proofs.BraceTrace

/-!
# What checks find

Each check finds issues of a few forms (`Check.Finds`), and whatever holds of all issues is shown form by
form.  Every issue carries the name of the check that found it, so the issues of a report under the name
of a check are all that this check finds, or none if it is skipped (`LintOptions.issuesOf_report`).
-/

namespace PatchAudit

namespace BraceScan

/-- An issue of a single line is that of an added line which closes more than is open. -/
theorem eq_of_step {marks : List Bytes} {s : BraceScan} {l : PatchLine} {i : Issue}
    (h : (step marks s l).2 = some i) :
    l.kind = .added ∧ i = issue l.number "unmatched closing brace" := by
  unfold step BraceCount.ofLine? at h
  split_ifs at h with hmarker hcounts
  simp only [Option.ite_none_right_eq_some, Option.some.injEq] at h
  exact ⟨hcounts.1, h.2.symm⟩

theorem eq_of_mem_run {marks : List Bytes} {s : BraceScan} {lines : List PatchLine} {i : Issue}
    (h : i ∈ (run marks s lines).1) :
    ∃ l ∈ lines, l.kind = .added ∧ i = issue l.number "unmatched closing brace" := by
  induction lines generalizing s with
  | nil => cases h
  | cons l rest ih =>
    rw [run_cons] at h
    rcases List.mem_append.mp h with h | h
    · exact ⟨l, List.mem_cons_self, eq_of_step (Option.mem_toList.mp h)⟩
    · obtain ⟨l', hl', hfound⟩ := ih h
      exact ⟨l', List.mem_cons_of_mem _ hl', hfound⟩

end BraceScan

namespace Check

/-! ### The forms of issues -/

/-- The issues that a check can find in a document. -/
inductive Finds (o : LintOptions) (d : Document) : Check → Issue → Prop where
  /-- A requirement on the text is not met. -/
  | unmet {r : Bool × Bytes} (hr : r ∈ ShapeCheck.requirements d.text) (hfails : r.1 = false) :
      Finds o d shape (ShapeCheck.issue r.2)
  /-- A line closes more braces than are open. -/
  | unmatched {l : PatchLine} (hl : l ∈ d.classified) (hadded : l.kind = .added) :
      Finds o d braces (BraceScan.issue l.number "unmatched closing brace")
  /-- Braces are open at the end. -/
  | unclosed : Finds o d braces (BraceScan.issue 0
      (Bytes.ofNat (BraceScan.scan o.commentMarks d.classified).2.balance ++ " unclosed braces"))
  /-- A line breaks the branding rule. -/
  | offending {l : PatchLine} (hl : l ∈ d.classified) (hadded : l.kind = .added) :
      Finds o d branding (o.branding.issue l.number)

/-- **All that a check finds** has one of these forms. -/
theorem finds_of_mem_issues {o : LintOptions} {d : Document} {c : Check} {i : Issue}
    (h : i ∈ c.issues o d) : c.Finds o d i := by
  cases c with
  | shape =>
    obtain ⟨r, hr, rfl⟩ := List.mem_map.mp h
    obtain ⟨hr, hfails⟩ := List.mem_filter.mp hr
    exact .unmet hr (by simpa using hfails)
  | braces =>
    rcases List.mem_append.mp h with h | h
    · obtain ⟨l, hl, hadded, rfl⟩ := BraceScan.eq_of_mem_run h
      exact .unmatched hl hadded
    · obtain rfl := BraceScan.eq_of_mem_final? h
      exact .unclosed
  | branding =>
    simp only [issues, BrandingRule.issues] at h
    split_ifs at h
    · obtain ⟨l, hl, rfl⟩ := List.mem_map.mp h
      obtain ⟨hl, htest⟩ := List.mem_filter.mp hl
      exact .offending hl (beq_iff_eq.mp (Bool.and_eq_true_iff.mp htest).1)
    · cases h

theorem Finds.check_eq {o : LintOptions} {d : Document} {c : Check} {i : Issue}
    (h : c.Finds o d i) : i.check = c.name := by
  cases h <;> rfl

/-! ### Issues by the names on them -/

theorem filter_all_name (c : Check) : all.filter (·.name == c.name) = [c] := by
  cases c <;> rfl

/-- A test on names keeps all issues of a check or none. -/
theorem filter_issues (o : LintOptions) (d : Document) (c : Check) (q : Bytes → Bool) :
    ((c.issues o d).filter fun i => q i.check) = if q c.name then c.issues o d else [] := by
  split_ifs with hq
  · refine List.filter_eq_self.mpr fun i hi => ?_
    rw [(finds_of_mem_issues hi).check_eq, hq]
  · refine List.filter_eq_nil_iff.mpr fun i hi => ?_
    rwa [(finds_of_mem_issues hi).check_eq]

/-- Choosing checks by their names and choosing their issues is the same. -/
theorem filter_flatMap_issues (o : LintOptions) (d : Document) (q : Bytes → Bool)
    (cs : List Check) :
    ((cs.flatMap (issues o d)).filter fun i => q i.check) =
      (cs.filter fun c => q c.name).flatMap (issues o d) := by
  induction cs with
  | nil => rfl
  | cons c cs ih =>
    rw [List.flatMap_cons, List.filter_append, filter_issues, ih, List.filter_cons]
    split_ifs <;> rfl

end Check

/-- The issues of a report under the name of a check. -/
def FileReport.issuesOf (r : FileReport) (c : Check) : List Issue :=
  r.issues.filter (·.check == c.name)

namespace LintOptions

/-- Every issue of a report was found by a check. -/
theorem finds_of_mem_report {o : LintOptions} {d : Document} {i : Issue}
    (h : i ∈ (o.report d).issues) : ∃ c : Check, c.Finds o d i := by
  obtain ⟨c, -, hi⟩ := List.mem_flatMap.mp h
  exact ⟨c, Check.finds_of_mem_issues hi⟩

/-- **What stands in a report under the name of a check** is what the check finds, or nothing if it is
skipped. -/
theorem issuesOf_report (o : LintOptions) (d : Document) (c : Check) :
    (o.report d).issuesOf c = if o.skip.contains c.name then [] else c.issues o d := by
  have hnamed : o.enabled.filter (·.name == c.name) =
      if o.skip.contains c.name then [] else [c] := by
    rw [enabled, List.filter_comm, Check.filter_all_name, List.filter_singleton]
    cases o.skip.contains c.name <;> rfl
  rw [FileReport.issuesOf, report, Check.filter_flatMap_issues o d (· == c.name), hnamed]
  split_ifs
  · rfl
  · exact List.flatMap_singleton ..

/-- A report lists the issues of one check after those of the other. -/
theorem issues_eq_flatMap_issuesOf (o : LintOptions) (d : Document) :
    (o.report d).issues = Check.all.flatMap (o.report d).issuesOf := by
  have hfound : (o.report d).issuesOf =
      fun c => if o.skip.contains c.name then [] else c.issues o d :=
    funext (issuesOf_report o d)
  rw [hfound, report, enabled]
  induction Check.all with
  | nil => rfl
  | cons c cs ih =>
    rw [List.filter_cons, List.flatMap_cons]
    cases o.skip.contains c.name with
    | true => simpa using ih
    | false => simpa using ih

end LintOptions

end PatchAudit
