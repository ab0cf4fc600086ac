import Mathlib.Data.List.Basic
import Mathlib.Data.List.Pairwise
import Mathlib.Logic.Function.Iterate
import PatchAudit.Proofs.BrowserState
import PatchAudit.Proofs.FoundIssues
import PatchAudit.Proofs.HighlightedText
import PatchAudit.Proofs.ReportSize

/-!
# Going from issue to issue

An issue of a report is one of the file as a whole or stands on an added line.  No patch begins with
an added line, so no issue stands on the first line (`LintOptions.line_of_mem_issues`), and the jump
to the next issue, which starts below the first line on the screen, misses none: the places of the
lines with issues are visited one after the other (`issue_navigation_is_complete`).
-/

namespace PatchAudit

/-! ### Where issues stand -/

namespace LintOptions

/-- An issue is one of the file as a whole, or it stands on an added line. -/
theorem added_of_mem_issues {o : LintOptions} {d : Document} {i : Issue}
    (h : i ∈ (o.report d).issues) :
    i.line = 0 ∨ ∃ l ∈ d.classified, l.kind = .added ∧ i.line = l.number := by
  obtain ⟨c, hfound⟩ := finds_of_mem_report h
  cases hfound with
  | unmet => exact .inl rfl
  | unmatched hl hadded => exact .inr ⟨_, hl, hadded, rfl⟩
  | unclosed => exact .inl rfl
  | offending hl hadded => exact .inr ⟨_, hl, hadded, rfl⟩

/-- **No issue stands on the first line**, nor on one that is not there. -/
theorem line_of_mem_issues {o : LintOptions} {d : Document} {i : Issue}
    (h : i ∈ (o.report d).issues) (hline : i.isFileLevel = false) :
    ∃ n : Nat, 1 ≤ n ∧ n < d.lines.length ∧ i.line = n + 1 := by
  simp only [Issue.isFileLevel, decide_eq_false_iff_not] at hline
  rcases added_of_mem_issues h with hzero | ⟨l, hl, hadded, hnumber⟩
  · omega
  · obtain ⟨-, hlast, -⟩ := PatchLine.place_of_mem_classify hl
    have hfirst := PatchLine.one_lt_number_of_added hl hadded
    exact ⟨l.number - 1, by omega, by omega, by omega⟩

end LintOptions

/-! ### Lines with their issues -/

namespace ShownLine

variable {lexers : Lexers}

theorem length_ofDocument (doc : Document) (r : FileReport) :
    (ofDocument lexers doc r).length = doc.lines.length := by
  simp only [ofDocument, List.length_zipWith, Highlight.length_patchLines, Nat.min_self]
  exact PatchLine.length_classifyFrom _ _ _

/-- A line on the screen has its number, and the messages of the issues on it in their order. -/
theorem issues_of_getElem? {doc : Document} {r : FileReport} {n : Nat} {l : ShownLine}
    (h : (ofDocument lexers doc r)[n]? = some l) :
    l.number = n + 1 ∧
      l.issues = (r.issues.filter fun i => i.line == (n : Int) + 1).map Issue.message := by
  rw [ofDocument, List.getElem?_zipWith_eq_some] at h
  obtain ⟨line, code, hline, -, rfl⟩ := h
  have hnumber : line.number = 1 + n := PatchLine.number_of_getElem? hline
  refine ⟨hnumber.trans (Nat.add_comm 1 n), ?_⟩
  simp only [ofLine, FileReport.issuesAt, hnumber, Nat.cast_add, Nat.cast_one, Int.add_comm]

/-- The places of the lines with issues are those of the issues of single lines. -/
theorem holdsAt_hasIssue {doc : Document} {r : FileReport} {n : Nat} :
    Browser.holdsAt (ofDocument lexers doc r) hasIssue n = true ↔
      n < doc.lines.length ∧ ∃ i ∈ r.issues, i.line = n + 1 := by
  by_cases hn : n < doc.lines.length
  · have hlt : n < (ofDocument lexers doc r).length := by rwa [length_ofDocument]
    obtain ⟨-, hissues⟩ := issues_of_getElem? (List.getElem?_eq_getElem hlt)
    simp [Browser.holdsAt, List.getElem?_eq_getElem hlt, hasIssue, hissues, hn]
  · have hnone : (ofDocument lexers doc r)[n]? = none := by
      rw [List.getElem?_eq_none_iff, length_ofDocument]
      omega
    simp [Browser.holdsAt, hnone, hn]

end ShownLine

/-! ### Jumps from place to place -/

/-- In an ordered list, the first element behind a given one is the next. -/
theorem find?_getElem_of_pairwise {α : Type} {r : α → α → Prop} [DecidableRel r]
    (hasymm : ∀ {a b}, r a b → ¬ r b a) {l : List α} (h : l.Pairwise r) {i : Nat} {a : α}
    (ha : l[i]? = some a) : l.find? (fun x => r a x) = l[i + 1]? := by
  induction l generalizing i with
  | nil => cases ha
  | cons x l ih =>
    obtain ⟨hx, hl⟩ := List.pairwise_cons.mp h
    cases i with
    | zero =>
      obtain rfl : x = a := by simpa using ha
      have hself : ¬ r x x := fun hxx => hasymm hxx hxx
      rw [List.find?_cons_of_neg (by simpa using hself)]
      cases l with
      | nil => rfl
      | cons y l => simp [hx y List.mem_cons_self]
    | succ i =>
      have hmem : a ∈ l := List.mem_of_getElem? ha
      rw [List.find?_cons_of_neg (by simpa using hasymm (hx a hmem))]
      exact ih hl ha

namespace Browser

variable (lexers : Lexers)

/-- The places of the lines for which a test holds. -/
def marked (lines : List ShownLine) (p : ShownLine → Bool) : List Nat :=
  (List.range lines.length).filter (holdsAt lines p)

theorem marked_pairwise (lines : List ShownLine) (p : ShownLine → Bool) :
    (marked lines p).Pairwise (· < ·) := List.pairwise_lt_range.filter _

theorem mem_marked {lines : List ShownLine} {p : ShownLine → Bool} {n : Nat} :
    n ∈ marked lines p ↔ ∃ l, lines[n]? = some l ∧ p l = true := by
  rw [marked, List.mem_filter, List.mem_range, holdsAt, Option.any_eq_true]
  constructor
  · rintro ⟨-, l, hl, hp⟩
    exact ⟨l, hl, hp⟩
  · rintro ⟨l, hl, hp⟩
    exact ⟨(List.getElem?_eq_some_iff.mp hl).1, l, hl, hp⟩

theorem filter_range_gt (n k : Nat) :
    (List.range n).filter (k < ·) = List.range' (k + 1) (n - (k + 1)) := by
  induction n with
  | zero => simp
  | succ n ih =>
    rw [List.range_succ, List.filter_append, ih]
    by_cases hk : k < n
    · have hlength : n + 1 - (k + 1) = n - (k + 1) + 1 := by omega
      have hlast : k + 1 + (n - (k + 1)) = n := by omega
      rw [hlength, List.range'_concat, Nat.one_mul, hlast, List.filter_singleton]
      simp [hk]
    · have hnone : n - (k + 1) = 0 ∧ n + 1 - (k + 1) = 0 := by omega
      rw [hnone.1, hnone.2, List.filter_singleton]
      simp [hk]

theorem filter_range_lt {n k : Nat} (h : k ≤ n) :
    (List.range n).filter (· < k) = List.range k := by
  obtain ⟨m, rfl⟩ := Nat.exists_eq_add_of_le h
  rw [List.range_add, List.filter_append, List.filter_eq_self.mpr (by simp),
    List.filter_eq_nil_iff.mpr (by simp), List.append_nil]

/-- A jump downwards ends at the next place of a line for which the test holds. -/
theorem jumpForward_offset (b : Browser) (p : ShownLine → Bool) :
    (b.jumpForward p).offset = ((marked b.lines p).find? (b.offset < ·)).getD b.offset := by
  rw [jumpForward_eq, placesBelow, ← filter_range_gt, marked, List.find?_filter, List.find?_filter]
  simp only [and_comm]

/-- A jump upwards ends at the place before. -/
theorem jumpBack_offset {b : Browser} (h : b.offset ≤ b.lines.length) (p : ShownLine → Bool) :
    (b.jumpBack p).offset = ((marked b.lines p).reverse.find? (b.offset > ·)).getD b.offset := by
  rw [jumpBack_eq h, placesAbove, ← filter_range_lt h, marked, ← List.filter_reverse,
    ← List.filter_reverse, List.find?_filter, List.find?_filter]
  simp only [and_comm, gt_iff_lt]

/-- The browser after a key. -/
def press (lexers : Lexers) (load : Loader) (key : Bytes) (b : Browser) : Browser :=
  (b.update lexers load (.press key)).1

theorem press_nextIssue (load : Loader) (b : Browser) :
    b.press lexers load "]" = b.jumpForward ShownLine.hasIssue := rfl

theorem press_previousIssue (load : Loader) (b : Browser) :
    b.press lexers load "[" = b.jumpBack ShownLine.hasIssue := rfl

theorem jumpForward_lines (b : Browser) (p : ShownLine → Bool) :
    (b.jumpForward p).lines = b.lines := by rw [jumpForward_eq]

/-- **Going on from issue to issue.**  From the top of a patch without an issue on its first line, the
key for the next issue visits the lines with issues one after the other and stays on the last. -/
theorem iterate_nextIssue (load : Loader) {b : Browser} (hoffset : b.offset = 0)
    (hfirst : ∀ n ∈ marked b.lines ShownLine.hasIssue, 1 ≤ n) (j : Nat) :
    ((press lexers load "]")^[j] b).lines = b.lines ∧
      (0 :: marked b.lines ShownLine.hasIssue)[min j (marked b.lines ShownLine.hasIssue).length]? =
        some ((press lexers load "]")^[j] b).offset := by
  induction j with
  | zero => simp [hoffset]
  | succ j ih =>
    obtain ⟨hlines, hplace⟩ := ih
    rw [Function.iterate_succ_apply', press_nextIssue]
    refine ⟨(jumpForward_lines _ _).trans hlines, ?_⟩
    set c := (press lexers load "]")^[j] b
    set places := marked b.lines ShownLine.hasIssue with hplaces
    have hsorted : (0 :: places).Pairwise (· < ·) :=
      List.pairwise_cons.mpr ⟨fun n hn => hfirst n hn, marked_pairwise _ _⟩
    -- the place on the screen is 0 or that of an issue, and the jump goes to the one behind it
    have hnext : places.find? (c.offset < ·) = places[min j places.length]? := by
      have hfind := find?_getElem_of_pairwise (fun h => Nat.lt_asymm h) hsorted hplace
      rwa [List.find?_cons_of_neg (by simp), List.getElem?_cons_succ] at hfind
    rw [jumpForward_offset, hlines, ← hplaces, hnext]
    by_cases hj : j < places.length
    · rw [Nat.min_eq_left (by omega), Nat.min_eq_left (by omega), List.getElem?_cons_succ,
        List.getElem?_eq_getElem hj]
      rfl
    · have hend : min (j + 1) places.length = min j places.length := by omega
      rw [hend, hplace, Nat.min_eq_right (by omega), List.getElem?_eq_none (Nat.le_refl _)]
      rfl

/-- **Going back from issue to issue.** -/
theorem press_previousIssue_offset (load : Loader) {b : Browser} {j : Nat}
    (hplace : (marked b.lines ShownLine.hasIssue)[j]? = some b.offset) :
    (b.press lexers load "[").offset =
      if j = 0 then b.offset else (marked b.lines ShownLine.hasIssue).getD (j - 1) 0 := by
  set places := marked b.lines ShownLine.hasIssue with hplaces
  have hj : j < places.length := (List.getElem?_eq_some_iff.mp hplace).1
  have hoffset : b.offset ≤ b.lines.length := by
    obtain ⟨l, hl, -⟩ := mem_marked.mp (List.mem_of_getElem? hplace)
    exact Nat.le_of_lt (List.getElem?_eq_some_iff.mp hl).1
  have hsorted : places.reverse.Pairwise (· > ·) :=
    List.pairwise_reverse.mpr (marked_pairwise b.lines ShownLine.hasIssue)
  have hback : places.reverse[places.length - 1 - j]? = some b.offset := by
    rw [List.getElem?_reverse (by omega)]
    convert hplace using 2
    omega
  rw [press_previousIssue, jumpBack_offset hoffset, ← hplaces,
    find?_getElem_of_pairwise (fun h => Nat.lt_asymm h) hsorted hback]
  by_cases hzero : j = 0
  · rw [if_pos hzero, List.getElem?_eq_none (by rw [List.length_reverse]; omega)]
    rfl
  · rw [if_neg hzero, List.getElem?_reverse (by omega), List.getD_eq_getElem?_getD]
    have hprevious : places.length - 1 - (places.length - 1 - j + 1) = j - 1 := by omega
    rw [hprevious, List.getElem?_eq_getElem (by omega)]
    rfl

theorem start_eq_select (load : Loader) (summary : Option Summary) :
    start lexers load summary = ({ summary := summary } : Browser).select lexers load 0 := rfl

theorem select_shown {load : Loader} {b : Browser} {place : Nat} {doc : Document} {r : FileReport}
    (hreport : b.reports[place]? = some r) (hload : load r.path = .ok doc) :
    (b.select lexers load place).lines = ShownLine.ofDocument lexers doc r ∧
      (b.select lexers load place).offset = 0 := by
  have hcurrent : ({ b with index := place, offset := 0 } : Browser).current? = some r := hreport
  simp only [select, reload, hcurrent, hload, and_self]

end Browser

/-- **Every issue can be reached.**  For all lexers, every linter and document, once its patch is
selected and shown from the top: each line on the screen carries its number and the messages of the
issues on it, in their order; each issue of a single line stands on exactly one of them; no line with
an issue is the first one; the key for the next issue visits the lines with issues one after the
other and then stays; and from each of them the key for the previous issue goes to the one before, if
there is one. -/
theorem issue_navigation_is_complete (lexers : Lexers) (linter : Linter) (doc : Document)
    (load : Loader) (b : Browser) (place : Nat) (hreport : b.reports[place]? = some (linter.lint doc))
    (hload : load doc.path = .ok doc) :
    let report := linter.lint doc
    let opened := b.select lexers load place
    let places := Browser.marked opened.lines ShownLine.hasIssue
    opened.offset = 0 ∧ opened.lines.length = doc.lines.length ∧
    (∀ (n : Nat) (line : ShownLine), opened.lines[n]? = some line →
      line.number = n + 1 ∧
      line.issues = (report.issues.filter fun i => i.line == (n : Int) + 1).map Issue.message) ∧
    (∀ i ∈ report.issues, i.isFileLevel = false →
      ∃! n : Nat, n < opened.lines.length ∧ i.line = n + 1) ∧
    places.Pairwise (· < ·) ∧
    (∀ n, n ∈ places ↔ ∃ line, opened.lines[n]? = some line ∧ line.issues ≠ []) ∧
    (∀ n ∈ places, 1 ≤ n) ∧
    (∀ load' j, (0 :: places)[min j places.length]? =
      some ((Browser.press lexers load' "]")^[j] opened).offset) ∧
    ∀ load' (c : Browser) j, c.lines = opened.lines → places[j]? = some c.offset →
      (c.press lexers load' "[").offset = if j = 0 then c.offset else places.getD (j - 1) 0 := by
  intro report opened places
  obtain ⟨hlines, hoffset⟩ : opened.lines = ShownLine.ofDocument lexers doc report ∧ opened.offset = 0 :=
    Browser.select_shown lexers hreport hload
  have hlength : opened.lines.length = doc.lines.length := by
    rw [hlines, ShownLine.length_ofDocument]
  have hfirst : ∀ n ∈ places, 1 ≤ n := by
    intro n hn
    have hholds :
        Browser.holdsAt (ShownLine.ofDocument lexers doc report) ShownLine.hasIssue n = true := by
      rw [← hlines]
      exact (List.mem_filter.mp hn).2
    obtain ⟨-, i, hi, hline⟩ := ShownLine.holdsAt_hasIssue.mp hholds
    have hlevel : i.isFileLevel = false := by
      simp only [Issue.isFileLevel, decide_eq_false_iff_not]
      omega
    obtain ⟨m, hm, -, hplace⟩ := LintOptions.line_of_mem_issues hi hlevel
    omega
  refine ⟨hoffset, hlength, ?_, ?_, Browser.marked_pairwise _ _, ?_, hfirst, ?_, ?_⟩
  · intro n line h
    rw [hlines] at h
    exact ShownLine.issues_of_getElem? h
  · intro i hi hlevel
    obtain ⟨n, -, hlt, hline⟩ := LintOptions.line_of_mem_issues hi hlevel
    refine ⟨n, ⟨by omega, hline⟩, ?_⟩
    rintro m ⟨-, hm⟩
    omega
  · intro n
    rw [Browser.mem_marked]
    simp [ShownLine.hasIssue]
  · intro load' j
    exact (Browser.iterate_nextIssue lexers load' hoffset hfirst j).2
  · intro load' c j hsame hplace
    have hback := Browser.press_previousIssue_offset lexers (b := c) load' (j := j) (by rwa [hsame])
    rwa [hsame] at hback

/-- Two lines with issues, one of them with two, below a first line without any. -/
theorem issue_navigation_is_complete_twice :
    let doc := Document.ofText "branding.patch" "@@ -1 +1,3 @@\n+Chrome\x7d\n+x\n+\x7d"
    let linter : Linter := ⟨{}, rfl⟩
    let load : Loader := fun _ => .ok doc
    let opened := Browser.start Highlight.standard load (some { dir := [], reports := [linter.lint doc] })
    Browser.marked opened.lines ShownLine.hasIssue = [1, 3] ∧
      (∀ j, [0, 1, 3][min j 2]? = some ((Browser.press Highlight.standard load "]")^[j] opened).offset) ∧
      ((({ opened with offset := 3 } : Browser).press Highlight.standard load "[").offset = 1) := by
  intro doc linter load opened
  have hplaces : Browser.marked opened.lines ShownLine.hasIssue = [1, 3] := by decide +kernel
  obtain ⟨-, -, -, -, -, -, -, hnext, hprevious⟩ :=
    issue_navigation_is_complete Highlight.standard linter doc load
      { summary := some { dir := [], reports := [linter.lint doc] } } 0 rfl rfl
  rw [← Browser.start_eq_select, hplaces] at hnext hprevious
  exact ⟨hplaces, fun j => hnext load j, hprevious load { opened with offset := 3 } 1 rfl rfl⟩

end PatchAudit
