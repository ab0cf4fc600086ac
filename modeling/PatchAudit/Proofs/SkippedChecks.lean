import Mathlib.Data.List.Basic
import PatchAudit.Proofs.CheckVerdict
import PatchAudit.Proofs.FoundIssues
import PatchAudit.Proofs.ReportKey

/-!
# Checks that are left out

No check looks at the names to skip, and every issue carries the name of the check that found it.  So
leaving checks out of a run gives what filtering the whole report by these names gives
(`skipping_is_filtering`).
-/

namespace PatchAudit

theorem Check.mem_names_iff {n : Bytes} : n ∈ Check.names ↔ ∃ c : Check, c.name = n := by
  have hall : ∀ c : Check, c ∈ Check.all := by
    intro c
    cases c <;> decide
  rw [Check.names, (Bytes.sort_perm _).mem_iff, List.mem_map]
  exact ⟨fun ⟨c, _, hc⟩ => ⟨c, hc⟩, fun ⟨c, hc⟩ => ⟨c, hall c, hc⟩⟩

namespace LintOptions

theorem unknownSkip?_eq_none_iff {o : LintOptions} :
    o.unknownSkip? = none ↔ ∀ n ∈ o.skip, ∃ c : Check, c.name = n := by
  constructor
  · exact fun h n hn => Check.mem_names_iff.mp (mem_names_of_mem_skip h hn)
  · intro h
    rw [unknownSkip?, Option.map_eq_none_iff, List.find?_eq_none]
    intro n hn
    simpa using Check.mem_names_iff.mpr (h n hn)

/-- Leaving checks out is the same as taking their issues out of the report. -/
theorem report_skip (o : LintOptions) (names : List Bytes) (d : Document) :
    ({ o with skip := names } : LintOptions).report d =
      { ({ o with skip := [] } : LintOptions).report d with
        issues := (({ o with skip := [] } : LintOptions).report d).issues.filter
          fun i => !names.contains i.check } := by
  have hall : ({ o with skip := [] } : LintOptions).enabled = Check.all := rfl
  simp only [report, hall, Check.filter_flatMap_issues _ _ fun n => !names.contains n]
  rfl

end LintOptions

/-- **Skipping is filtering.**  For all options, documents and lists of names of checks, in any order
and with repetitions, the linter with these names to skip gives the report of the linter that skips
nothing, less the issues that carry one of the names.  Both list the issues of the checks one after
the other; a check that is not skipped reports the same in both; and only the set of the names
counts. -/
theorem skipping_is_filtering (o : LintOptions) (names : List Bytes) (d : Document)
    (hknown : ∀ n ∈ names, ∃ c : Check, c.name = n) :
    ∃ whole part : Linter,
      Linter.ofOptions { o with skip := [] } = .ok whole ∧
      Linter.ofOptions { o with skip := names } = .ok part ∧
      part.lint d =
        { whole.lint d with
          issues := (whole.lint d).issues.filter fun i => !names.contains i.check } ∧
      (whole.lint d).issues = (whole.lint d).issuesOf .shape ++ (whole.lint d).issuesOf .braces ++
        (whole.lint d).issuesOf .branding ∧
      (∀ c : Check, (part.lint d).issuesOf c =
        if c.name ∈ names then [] else (whole.lint d).issuesOf c) ∧
      ∀ names' : List Bytes, (∀ n, n ∈ names' ↔ n ∈ names) →
        ∃ other : Linter, Linter.ofOptions { o with skip := names' } = .ok other ∧
          other.lint d = part.lint d := by
  have hwhole : ({ o with skip := [] } : LintOptions).unknownSkip? = none := rfl
  have hpart : ({ o with skip := names } : LintOptions).unknownSkip? = none :=
    LintOptions.unknownSkip?_eq_none_iff.mpr hknown
  refine ⟨⟨_, hwhole⟩, ⟨_, hpart⟩, Linter.ofOptions_of_known hwhole, Linter.ofOptions_of_known hpart,
    LintOptions.report_skip o names d, ?_, fun c => ?_, fun names' hsame => ?_⟩
  · have hlisted := LintOptions.issues_eq_flatMap_issuesOf { o with skip := [] } d
    simpa [Check.all, Linter.lint] using hlisted
  · simp only [Linter.lint, LintOptions.issuesOf_report, List.contains_iff_mem, List.contains_nil,
      Bool.false_eq_true, if_false]
    rfl
  · have hother : ({ o with skip := names' } : LintOptions).unknownSkip? = none :=
      LintOptions.unknownSkip?_eq_none_iff.mpr fun n hn => hknown n ((hsame n).mp hn)
    refine ⟨⟨_, hother⟩, Linter.ofOptions_of_known hother, ?_⟩
    have hfilter : (fun i : Issue => !names'.contains i.check) = fun i => !names.contains i.check := by
      funext i
      simp only [List.contains_eq_mem, hsame]
    show ({ o with skip := names' } : LintOptions).report d =
      ({ o with skip := names } : LintOptions).report d
    rw [LintOptions.report_skip o names', LintOptions.report_skip o names, hfilter]

/-- Two checks left out, one of them named twice, in a patch in which each check finds something. -/
theorem skipping_is_filtering_twice :
    let names : List Bytes := ["branding", "structure", "branding"]
    let d := Document.ofText "branding.patch" "@@\n+Chrome\x7d"
    (∀ n ∈ names, ∃ c : Check, c.name = n) ∧
      ∃ whole part other : Linter,
        (whole.lint d).issues.map Issue.check = ["structure", "structure", "braces", "branding"] ∧
        (part.lint d).issues = [BraceScan.issue 2 "unmatched closing brace"] ∧
        Linter.ofOptions { skip := ["structure", "branding"] } = .ok other ∧
        other.lint d = part.lint d := by
  intro names d
  have hknown : ∀ n ∈ names, ∃ c : Check, c.name = n := by
    intro n hn
    simp only [names, List.mem_cons, List.not_mem_nil, or_false] at hn
    rcases hn with rfl | rfl | rfl
    · exact ⟨.branding, rfl⟩
    · exact ⟨.shape, rfl⟩
    · exact ⟨.branding, rfl⟩
  obtain ⟨whole, part, hwhole, -, hpart, -, -, hsame⟩ := skipping_is_filtering {} names d hknown
  obtain ⟨other, hother, hequal⟩ := hsame ["structure", "branding"] (by simp [names, or_comm])
  refine ⟨hknown, whole, part, other, ?_, ?_, hother, hequal⟩
  all_goals
    obtain rfl : (⟨{}, rfl⟩ : Linter) = whole :=
      Except.ok.inj ((Linter.ofOptions_of_known rfl).symm.trans hwhole)
  · decide +kernel
  · rw [hpart]
    decide +kernel

end PatchAudit
