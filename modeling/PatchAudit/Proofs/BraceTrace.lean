import Mathlib.Data.List.Basic
import PatchAudit.Check.Linter
import PatchAudit.Report.BraceListing

/-!
# The brace trace and the brace check

The check keeps a balance that never falls below zero and looks at every line; the trace keeps the
balance before it is cut and leaves out lines without braces.  One simulation step relates the two
(`step_eq`), and the rest is induction over the lines:

* `run_issues`: the issues of single lines are those of the unmatched steps, in order;
* `run_balance`: the balance of the check is that of the last step, cut at zero;
* `traceFrom_split`: every step belongs to one line, and the steps before it to the lines above.
-/

namespace PatchAudit

namespace BraceScan

/-! ### One line -/

/-- The issue of a step that closes more than is open. -/
def issueOfStep? (t : BraceStep) : Option Issue :=
  if t.isUnmatched then some (issue t.line "unmatched closing brace") else none

theorem ofLine?_eq_none_of_hunkMarker {marks : List Bytes} {l : PatchLine}
    (h : l.kind = .hunkMarker) : BraceCount.ofLine? marks l = none := by
  simp [BraceCount.ofLine?, h]

theorem delta_eq_zero {c : BraceCount} (h : c.opened + c.closed = 0) : c.delta = 0 := by
  simp only [BraceCount.delta]
  omega

/-- **One simulation step.**  From equal balances, the check of a line gives the balance and the
issue of the step of this line, and nothing happens on a line without a step. -/
theorem step_eq (marks : List Bytes) (s : BraceScan) (l : PatchLine) :
    ((step marks s l).1.balance, (step marks s l).2) =
      match BraceStep.ofLine? marks s.balance l with
      | none => (s.balance, none)
      | some t => (t.balance.toNat, issueOfStep? t) := by
  by_cases hk : l.kind = .hunkMarker
  · simp [step, hk, BraceStep.ofLine?, ofLine?_eq_none_of_hunkMarker hk]
  · cases hc : BraceCount.ofLine? marks l with
    | none => simp [step, hk, hc, BraceStep.ofLine?]
    | some c =>
      by_cases h0 : c.opened + c.closed = 0
      · -- the trace drops the line, and the check moves the balance by nothing
        have hd := delta_eq_zero h0
        simp [step, hk, hc, BraceStep.ofLine?, h0, hd]
      · simp only [step, hk, hc, BraceStep.ofLine?, h0, issueOfStep?, BraceStep.isUnmatched,
          if_false, decide_eq_true_eq]

theorem step_of_none {marks : List Bytes} {s : BraceScan} {l : PatchLine}
    (h : BraceStep.ofLine? marks s.balance l = none) :
    (step marks s l).1.balance = s.balance ∧ (step marks s l).2 = none := by
  have he := step_eq marks s l
  rw [h] at he
  exact ⟨congrArg Prod.fst he, congrArg Prod.snd he⟩

theorem step_of_some {marks : List Bytes} {s : BraceScan} {l : PatchLine} {t : BraceStep}
    (h : BraceStep.ofLine? marks s.balance l = some t) :
    (step marks s l).1.balance = t.balance.toNat ∧ (step marks s l).2 = issueOfStep? t := by
  have he := step_eq marks s l
  rw [h] at he
  exact ⟨congrArg Prod.fst he, congrArg Prod.snd he⟩

/-! ### All lines -/

theorem run_cons (marks : List Bytes) (s : BraceScan) (l : PatchLine) (rest : List PatchLine) :
    run marks s (l :: rest) = ((step marks s l).2.toList ++ (run marks (step marks s l).1 rest).1,
      (run marks (step marks s l).1 rest).2) := rfl

theorem run_append (marks : List Bytes) (s : BraceScan) (xs ys : List PatchLine) :
    (run marks s (xs ++ ys)).2 = (run marks (run marks s xs).2 ys).2 := by
  induction xs generalizing s with
  | nil => rfl
  | cons l xs ih =>
    rw [List.cons_append, run_cons, run_cons]
    exact ih _

/-- The issues of single lines are the issues of the steps. -/
theorem run_issues (marks : List Bytes) (s : BraceScan) (lines : List PatchLine) :
    (run marks s lines).1 =
      (BraceStep.traceFrom marks s.balance lines).filterMap issueOfStep? := by
  induction lines generalizing s with
  | nil => rfl
  | cons l rest ih =>
    rw [run_cons, BraceStep.traceFrom]
    cases ht : BraceStep.ofLine? marks s.balance l with
    | none =>
      obtain ⟨hb, hi⟩ := step_of_none ht
      rw [hi, ih, hb]
      rfl
    | some t =>
      obtain ⟨hb, hi⟩ := step_of_some ht
      simp only [hi, ih, hb, List.filterMap_cons]
      cases issueOfStep? t <;> rfl

/-- The balance at the end is that of the last step, cut at zero. -/
theorem run_balance (marks : List Bytes) (s : BraceScan) (lines : List PatchLine) :
    (run marks s lines).2.balance =
      ((BraceStep.traceFrom marks s.balance lines).getLast?.map (·.balance.toNat)).getD s.balance := by
  induction lines generalizing s with
  | nil => rfl
  | cons l rest ih =>
    rw [run_cons, BraceStep.traceFrom]
    cases ht : BraceStep.ofLine? marks s.balance l with
    | none =>
      obtain ⟨hb, -⟩ := step_of_none ht
      simp only [ih, hb]
    | some t =>
      obtain ⟨hb, -⟩ := step_of_some ht
      simp only [ih, hb, List.getLast?_cons, Option.map_some, Option.getD_some]
      cases (BraceStep.traceFrom marks t.balance.toNat rest).getLast? <;> rfl

end BraceScan

namespace BraceStep

open BraceScan

/-- The steps of lines put together: those of the first lines, then those of the others from the
balance of the check between them. -/
theorem traceFrom_append (marks : List Bytes) (s : BraceScan) (xs ys : List PatchLine) :
    traceFrom marks s.balance (xs ++ ys) =
      traceFrom marks s.balance xs ++ traceFrom marks (run marks s xs).2.balance ys := by
  induction xs generalizing s with
  | nil => rfl
  | cons l xs ih =>
    rw [List.cons_append, traceFrom, traceFrom, run_cons]
    cases ht : ofLine? marks s.balance l with
    | none =>
      obtain ⟨hb, -⟩ := step_of_none ht
      rw [← hb]
      exact ih _
    | some t =>
      obtain ⟨hb, -⟩ := step_of_some ht
      simp only [List.cons_append, ← hb]
      rw [ih]

/-- Every step of a trace is that of one line, and the steps before it are those of the lines above
this one. -/
theorem traceFrom_split {marks : List Bytes} {s : BraceScan} {lines : List PatchLine}
    {pre post : List BraceStep} {t : BraceStep}
    (h : traceFrom marks s.balance lines = pre ++ t :: post) :
    ∃ above l below, lines = above ++ l :: below ∧ traceFrom marks s.balance above = pre ∧
      ofLine? marks (run marks s above).2.balance l = some t := by
  induction lines generalizing s pre with
  | nil => simp [traceFrom] at h
  | cons l rest ih =>
    rw [traceFrom] at h
    cases ht : ofLine? marks s.balance l with
    | none =>
      obtain ⟨hb, -⟩ := step_of_none ht
      simp only [ht] at h
      rw [← hb] at h
      obtain ⟨above, l', below, rfl, hpre, hl'⟩ := ih h
      refine ⟨l :: above, l', below, rfl, ?_, ?_⟩
      · rw [traceFrom, ht, ← hpre, hb]
      · rw [run_cons]
        exact hl'
    | some t' =>
      obtain ⟨hb, -⟩ := step_of_some ht
      simp only [ht] at h
      rw [← hb] at h
      cases pre with
      | nil =>
        -- the step is that of the first line
        obtain ⟨rfl, -⟩ := List.cons_eq_cons.mp h
        exact ⟨[], l, rest, rfl, rfl, ht⟩
      | cons p pre =>
        obtain ⟨rfl, h'⟩ := List.cons_eq_cons.mp h
        obtain ⟨above, l', below, rfl, hpre, hl'⟩ := ih h'
        refine ⟨l :: above, l', below, rfl, ?_, ?_⟩
        · rw [traceFrom, ht, ← hpre, hb]
        · rw [run_cons]
          exact hl'

theorem line_of_ofLine? {marks : List Bytes} {b : Nat} {l : PatchLine} {t : BraceStep}
    (h : ofLine? marks b l = some t) : t.line = l.number := by
  unfold ofLine? at h
  cases hc : BraceCount.ofLine? marks l with
  | none => simp [hc] at h
  | some c =>
    simp only [hc] at h
    split_ifs at h
    simp only [Option.some.injEq] at h
    rw [← h]

/-- The line of a step, given by its place in the trace: the steps up to it are those of the lines
up to this one, and the check has the step's balance, cut at zero, right after it. -/
theorem trace_split {marks : List Bytes} {lines : List PatchLine} {pre post : List BraceStep}
    {t : BraceStep} (h : trace marks lines = pre ++ t :: post) :
    ∃ above l below, lines = above ++ l :: below ∧ trace marks above = pre ∧
      trace marks (above ++ [l]) = pre ++ [t] ∧ t.line = l.number ∧
      max t.balance 0 = (run marks {} (above ++ [l])).2.balance := by
  obtain ⟨above, l, below, hlines, hpre, hl⟩ := traceFrom_split (s := {}) h
  have htrace : trace marks (above ++ [l]) = pre ++ [t] := by
    have happ := traceFrom_append marks {} above [l]
    rw [hpre] at happ
    rw [trace, happ, traceFrom, hl]
    rfl
  refine ⟨above, l, below, hlines, hpre, htrace, line_of_ofLine? hl, ?_⟩
  rw [run_append, run_cons]
  have hb := (step_of_some hl).1
  simp only [run, hb]
  omega

end BraceStep

/-! ### The trace against the check -/

namespace BraceScan

theorem filterMap_issueOfStep? (steps : List BraceStep) :
    steps.filterMap issueOfStep? = (steps.filter BraceStep.isUnmatched).map
      (fun t => issue t.line "unmatched closing brace") := by
  induction steps with
  | nil => rfl
  | cons t steps ih =>
    by_cases ht : t.isUnmatched = true <;> simp [issueOfStep?, ht, ih]

/-- The issues of a file: one for each unmatched step, then the one of the file as a whole. -/
theorem scan_issues (marks : List Bytes) (lines : List PatchLine) :
    (scan marks lines).1 = ((BraceStep.trace marks lines).filter BraceStep.isUnmatched).map
        (fun t => issue t.line "unmatched closing brace") ++ (scan marks lines).2.final?.toList := by
  have h := run_issues marks {} lines
  rw [filterMap_issueOfStep?] at h
  simp only [scan, h]
  rfl

theorem scan_balance (marks : List Bytes) (lines : List PatchLine) :
    ((scan marks lines).2.balance : Int) =
      max (((BraceStep.trace marks lines).getLast?.map BraceStep.balance).getD 0) 0 := by
  have h := run_balance marks {} lines
  simp only [scan, h, BraceStep.trace]
  cases (BraceStep.traceFrom marks 0 lines).getLast? <;> simp

/-- The issue of the file as a whole is that of the braces left open. -/
theorem eq_of_mem_final? {s : BraceScan} {i : Issue} (h : i ∈ s.final?.toList) :
    i = issue 0 (Bytes.ofNat s.balance ++ " unclosed braces") := by
  unfold final? at h
  split_ifs at h
  · exact List.mem_singleton.mp h
  · cases h

theorem isFileLevel_of_final? {s : BraceScan} {i : Issue} (h : i ∈ s.final?.toList) :
    i.isFileLevel = true := by
  rw [eq_of_mem_final? h]
  rfl

theorem mem_line_of_mem_trace {marks : List Bytes} {lines : List PatchLine} {t : BraceStep}
    (h : t ∈ BraceStep.trace marks lines) : ∃ l ∈ lines, t.line = l.number := by
  obtain ⟨pre, post, hsplit⟩ := List.append_of_mem h
  obtain ⟨above, l, below, hlines, -, -, hl, -⟩ := BraceStep.trace_split hsplit
  exact ⟨l, by simp [hlines], hl⟩

/-- The issues of the check that name a line are those of the unmatched steps. -/
theorem scan_lineIssues {marks : List Bytes} {lines : List PatchLine}
    (hpos : ∀ l ∈ lines, 0 < l.number) :
    ((scan marks lines).1.filter fun i => !i.isFileLevel).map Issue.line =
      ((BraceStep.trace marks lines).filter BraceStep.isUnmatched).map fun t => (t.line : Int) := by
  rw [scan_issues, List.filter_append]
  have hfinal : (scan marks lines).2.final?.toList.filter (fun i => !i.isFileLevel) = [] := by
    rw [List.filter_eq_nil_iff]
    intro i hi
    simp [isFileLevel_of_final? hi]
  have hline : ∀ t ∈ (BraceStep.trace marks lines).filter BraceStep.isUnmatched, 0 < t.line := by
    intro t ht
    obtain ⟨l, hl, ht'⟩ := mem_line_of_mem_trace (List.mem_of_mem_filter ht)
    rw [ht']
    exact hpos l hl
  rw [hfinal, List.append_nil, List.filter_map, List.map_map]
  rw [List.filter_eq_self.mpr]
  · rfl
  · intro t ht
    have := hline t ht
    simp [Issue.isFileLevel, issue]
    omega

end BraceScan

/-- Options that leave only the brace check. -/
def LintOptions.bracesOnly (branding : BrandingRule) (marks : List Bytes) : LintOptions where
  branding := branding
  commentMarks := marks
  skip := [Check.shape.name, Check.branding.name]

theorem bracesOnly_lint (branding : BrandingRule) (marks : List Bytes) :
    ∃ linter, Linter.ofOptions (.bracesOnly branding marks) = .ok linter ∧
      ∀ d : Document, (linter.lint d).issues = (BraceScan.scan marks d.classified).1 := by
  have hskip : (LintOptions.bracesOnly branding marks).unknownSkip? = none := by
    simp only [LintOptions.unknownSkip?, LintOptions.bracesOnly]
    decide
  have henabled : (LintOptions.bracesOnly branding marks).enabled = [Check.braces] := by
    simp only [LintOptions.enabled, LintOptions.bracesOnly]
    decide
  refine ⟨⟨_, hskip⟩, ?_, fun d => ?_⟩
  · unfold Linter.ofOptions
    split
    · rfl
    · simp_all
  · simp only [Linter.lint, LintOptions.report, henabled, List.flatMap_cons, List.flatMap_nil,
      List.append_nil]
    rfl

/-- **The trace and the check never disagree.**  For every list of lines the unmatched steps are the
issues of single lines, in order; right after the line of a step the check has the step's balance,
cut at zero; and so it is at the end.  The listing of a document finds its braces in order exactly
if the linter with nothing but the brace check finds no issue. -/
theorem braceTrace_agrees_with_check (marks : List Bytes) :
    (∀ lines : List PatchLine,
      (BraceScan.scan marks lines).1 =
        ((BraceStep.trace marks lines).filter BraceStep.isUnmatched).map
          (fun t => BraceScan.issue t.line "unmatched closing brace")
          ++ (BraceScan.scan marks lines).2.final?.toList ∧
      ((∀ l ∈ lines, 0 < l.number) →
        ((BraceStep.trace marks lines).filter BraceStep.isUnmatched).map (fun t => (t.line : Int)) =
          ((BraceScan.scan marks lines).1.filter fun i => !i.isFileLevel).map Issue.line) ∧
      (∀ (pre : List BraceStep) (t : BraceStep) (post : List BraceStep),
        BraceStep.trace marks lines = pre ++ t :: post →
        ∃ above l below, lines = above ++ l :: below ∧ BraceStep.trace marks above = pre ∧
          BraceStep.trace marks (above ++ [l]) = pre ++ [t] ∧ t.line = l.number ∧
          max t.balance 0 = (BraceScan.run marks {} (above ++ [l])).2.balance) ∧
      max (((BraceStep.trace marks lines).getLast?.map BraceStep.balance).getD 0) 0 =
        (BraceScan.scan marks lines).2.balance) ∧
    ∀ (d : Document) (branding : BrandingRule) (coloured : Bool),
      ∃ linter, Linter.ofOptions (.bracesOnly branding marks) = .ok linter ∧
        ((BraceListing.render coloured marks d).1 = true ↔ (linter.lint d).issues = []) := by
  refine ⟨fun lines => ⟨BraceScan.scan_issues marks lines, ?_, ?_, ?_⟩, fun d branding coloured => ?_⟩
  · intro hpos
    exact (BraceScan.scan_lineIssues hpos).symm
  · intro pre t post h
    exact BraceStep.trace_split h
  · exact (BraceScan.scan_balance marks lines).symm
  · obtain ⟨linter, hok, hissues⟩ := bracesOnly_lint branding marks
    refine ⟨linter, hok, ?_⟩
    rw [hissues]
    simp [BraceListing.render]

/-- A brace that nothing opened, a line without braces, and two braces that stay open. -/
def reopenedLines : List PatchLine :=
  PatchLine.classify ["@@ -1 +1,4 @@", "+\x7d", "+f() \x7b", "+x();", "+\x7d \x7b\x7b"]

theorem braceTrace_agrees_with_check_reopened :
    (∀ l ∈ reopenedLines, 0 < l.number) ∧
      [2] = ((BraceScan.scan ["//"] reopenedLines).1.filter fun i => !i.isFileLevel).map Issue.line ∧
      ∃ above l below, reopenedLines = above ++ l :: below ∧ l.number = 3 ∧
        1 = (BraceScan.run ["//"] {} (above ++ [l])).2.balance := by
  have hpos : ∀ l ∈ reopenedLines, 0 < l.number := by decide
  have htrace : BraceStep.trace ["//"] reopenedLines =
      [⟨2, "\x7d", ⟨0, 1⟩, -1⟩] ++
        ⟨3, "f() \x7b", ⟨1, 0⟩, 1⟩ :: [⟨5, "\x7d \x7b\x7b", ⟨2, 1⟩, 2⟩] := by decide
  obtain ⟨-, hlines, hsplit, -⟩ := (braceTrace_agrees_with_check ["//"]).1 reopenedLines
  obtain ⟨above, l, below, h, -, -, hl, hb⟩ := hsplit _ _ _ htrace
  refine ⟨hpos, ?_, above, l, below, h, hl.symm, ?_⟩
  · rw [← hlines hpos]
    decide
  · have hb' : (1 : Int) = (BraceScan.run ["//"] {} (above ++ [l])).2.balance := hb
    exact_mod_cast hb'

end PatchAudit
