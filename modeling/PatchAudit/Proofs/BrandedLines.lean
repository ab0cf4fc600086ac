import PatchAudit.Proofs.IssuePlaces

/-!
# The branding check on the bare text

A line of a text breaks a branding rule if it adds a text with an old term and without the replacement
(`BrandingRule.BrokenAt`); this takes no classes, kinds or payloads.  In a patch that the rule is for,
the branding check reports these lines, each of them once (`branding_reports_broken_lines`).
-/

namespace PatchAudit

namespace BrandingRule

/-- A line of a file breaks the rule: it adds a text that has an old term, but not the replacement. -/
def BrokenAt (b : BrandingRule) (lines : List Bytes) (k : Nat) : Prop :=
  ∃ rest, AddedAt lines k rest ∧ (∃ term ∈ b.oldTerms, term ≠ [] ∧ term <:+: rest) ∧
    ¬ b.replacement <:+: rest

variable {b : BrandingRule}

theorem offends_iff {payload : Bytes} :
    b.offends payload = true ↔
      (∃ term ∈ b.oldTerms, term ≠ [] ∧ term <:+: payload) ∧ ¬ b.replacement <:+: payload := by
  simp only [offends, Bool.and_eq_true, List.any_eq_true, Bool.not_eq_true', ← Bool.not_eq_true,
    List.isEmpty_iff, Bytes.hasInfix_iff, ne_eq]

theorem appliesTo_iff {name : Bytes} :
    b.appliesTo name = true ↔ b.oldTerms ≠ [] ∧ b.fileFilter.lower <:+: name.lower := by
  rw [appliesTo, Bool.and_eq_true, Bool.not_eq_true', List.isEmpty_eq_false_iff, Bytes.hasInfix_iff]

/-- More old terms take in more lines. -/
theorem BrokenAt.mono {c : BrandingRule} {lines : List Bytes} {k : Nat}
    (hreplacement : c.replacement = b.replacement) (hterms : b.oldTerms ⊆ c.oldTerms)
    (h : b.BrokenAt lines k) : c.BrokenAt lines k := by
  obtain ⟨rest, hadded, ⟨term, hterm, hne, hinfix⟩, hplain⟩ := h
  exact ⟨rest, hadded, ⟨term, hterms hterm, hne, hinfix⟩, hreplacement ▸ hplain⟩

/-- **The lines that the check reports** are those that break the rule. -/
theorem mem_lines_issues_iff {name : Bytes} {lines : List Bytes} {n : Int} :
    n ∈ (b.issues name (PatchLine.classify lines)).map Issue.line ↔
      b.fileFilter.lower <:+: name.lower ∧ ∃ k : Nat, n = k + 1 ∧ b.BrokenAt lines k := by
  unfold issues
  constructor
  · intro h
    split_ifs at h with happlies
    · rw [List.map_map, List.mem_map] at h
      obtain ⟨l, hl, rfl⟩ := h
      obtain ⟨hmem, htest⟩ := List.mem_filter.mp hl
      obtain ⟨hkind, hoffends⟩ := Bool.and_eq_true_iff.mp htest
      obtain ⟨k, rest, hadded, rfl⟩ :=
        PatchLine.mem_classify_added_iff.mp ⟨hmem, beq_iff_eq.mp hkind⟩
      exact ⟨(appliesTo_iff.mp happlies).2, k, by simp [issue], rest, hadded, offends_iff.mp hoffends⟩
    · cases h
  · rintro ⟨hname, k, rfl, rest, hadded, hterm, hplain⟩
    have happlies : b.appliesTo name = true := by
      obtain ⟨term, hmem, -⟩ := hterm
      exact appliesTo_iff.mpr ⟨List.ne_nil_of_mem hmem, hname⟩
    obtain ⟨hmem, hkind⟩ := PatchLine.mem_classify_added_iff.mpr ⟨k, rest, hadded, rfl⟩
    rw [if_pos happlies, List.map_map, List.mem_map]
    refine ⟨_, List.mem_filter.mpr ⟨hmem, ?_⟩, by simp [issue]⟩
    exact Bool.and_eq_true_iff.mpr ⟨beq_iff_eq.mpr hkind, offends_iff.mpr ⟨hterm, hplain⟩⟩

end BrandingRule

/-- **The branding check reports the lines that break its rule.**  For every path, text and linter that
does not skip the check, a line is reported exactly if the rule is for the base name of the path, in any
case of the letters, and the line breaks it; no line is reported twice.  With more old terms no line is
lost, and nothing depends on options other than the rule. -/
theorem branding_reports_broken_lines (linter : Linter) (path text : Bytes)
    (hskip : Check.branding.name ∉ linter.options.skip) :
    let rule := linter.options.branding
    let lines := text.plainEnds.splitOn 0x0A
    let found := fun l : Linter => (l.lint (.ofText path text)).issuesOf .branding
    (∀ n : Int, n ∈ (found linter).map Issue.line ↔
      rule.fileFilter.lower <:+: (Path.base path).lower ∧
        ∃ k : Nat, n = k + 1 ∧ rule.BrokenAt lines k) ∧
    ((found linter).map Issue.line).Nodup ∧
    (∀ more : Linter, Check.branding.name ∉ more.options.skip →
      more.options.branding.fileFilter = rule.fileFilter →
      more.options.branding.replacement = rule.replacement →
      rule.oldTerms ⊆ more.options.branding.oldTerms →
      (found linter).map Issue.line ⊆ (found more).map Issue.line) ∧
    ∀ other : Linter, Check.branding.name ∉ other.options.skip → other.options.branding = rule →
      found other = found linter := by
  intro rule lines found
  have hfound : ∀ l : Linter, Check.branding.name ∉ l.options.skip →
      found l = l.options.branding.issues (Path.base path) (PatchLine.classify lines) := by
    intro l hl
    have hreport := l.options.issuesOf_report (.ofText path text) .branding
    rwa [if_neg (by rwa [List.contains_iff_mem])] at hreport
  have hlines : ∀ l : Linter, Check.branding.name ∉ l.options.skip → ∀ n : Int,
      n ∈ (found l).map Issue.line ↔ l.options.branding.fileFilter.lower <:+: (Path.base path).lower ∧
        ∃ k : Nat, n = k + 1 ∧ l.options.branding.BrokenAt lines k := by
    intro l hl n
    rw [hfound l hl]
    exact BrandingRule.mem_lines_issues_iff
  refine ⟨hlines linter hskip, ?_, ?_, ?_⟩
  · obtain ⟨numbered, hissues, -, hincreasing⟩ :=
      Check.exists_numbered linter.options (.ofText path text) .branding
    rw [Check.ofWhole, List.append_nil] at hissues
    have hsame : found linter = numbered := (hfound linter hskip).trans hissues
    rw [hsame, List.Nodup, List.pairwise_map]
    exact hincreasing.imp fun h => ne_of_lt h
  · intro more hmore hfilter hreplacement hterms n hn
    obtain ⟨hname, k, hk, hbroken⟩ := (hlines linter hskip n).mp hn
    exact (hlines more hmore n).mpr ⟨hfilter ▸ hname, k, hk, hbroken.mono hreplacement hterms⟩
  · intro other hother hsame
    rw [hfound other hother, hfound linter hskip, hsame]

/-- A line with two old terms below a file marker and above a line that has the replacement as well;
a further term takes in the last line. -/
theorem branding_reports_broken_lines_once :
    let path : Bytes := "p/My-BRANDING.patch"
    let text : Bytes :=
      "+Chrome\r\n@@ -1 +1 @@\r\n+++ Chrome\r\n+Chrome Chromium\r\n+Chrome PrivacyAgent\n+y"
    let linter : Linter := ⟨{}, rfl⟩
    let more : Linter := ⟨{ branding := { BrandingRule.standard with
      oldTerms := "y" :: BrandingRule.standard.oldTerms } }, rfl⟩
    let other : Linter := ⟨{ commentMarks := [], skip := ["structure"] }, rfl⟩
    Check.branding.name ∉ linter.options.skip ∧ Check.branding.name ∉ more.options.skip ∧
      Check.branding.name ∉ other.options.skip ∧
      linter.options.branding.oldTerms ⊆ more.options.branding.oldTerms ∧
      ((linter.lint (.ofText path text)).issuesOf .branding).map Issue.line = [4] ∧
      linter.options.branding.BrokenAt (text.plainEnds.splitOn 0x0A) 3 ∧
      4 ∈ ((more.lint (.ofText path text)).issuesOf .branding).map Issue.line ∧
      (other.lint (.ofText path text)).issuesOf .branding =
        (linter.lint (.ofText path text)).issuesOf .branding := by
  intro path text linter more other
  have hlinter : Check.branding.name ∉ linter.options.skip := by decide
  have hmore : Check.branding.name ∉ more.options.skip := by decide
  have hother : Check.branding.name ∉ other.options.skip := by decide
  have hterms : linter.options.branding.oldTerms ⊆ more.options.branding.oldTerms :=
    List.subset_cons_self _ _
  have hfound : ((linter.lint (.ofText path text)).issuesOf .branding).map Issue.line = [4] := by
    decide +kernel
  obtain ⟨hexact, -, hgrows, hsame⟩ := branding_reports_broken_lines linter path text hlinter
  have hmem : (4 : Int) ∈ ((linter.lint (.ofText path text)).issuesOf .branding).map Issue.line := by
    rw [hfound]
    exact List.mem_singleton_self 4
  obtain ⟨-, k, hk, hbroken⟩ := (hexact 4).mp hmem
  obtain rfl : k = 3 := by omega
  exact ⟨hlinter, hmore, hother, hterms, hfound, hbroken, hgrows more hmore rfl rfl hterms hmem,
    hsame other hother rfl⟩

end PatchAudit
