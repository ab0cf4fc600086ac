import Mathlib.Data.List.Basic
import PatchAudit.Proofs.ClassifiedLines
import PatchAudit.Proofs.DiffTotals
import PatchAudit.Proofs.FoundIssues
import PatchAudit.Proofs.StoredForm
import PatchAudit.Proofs.Text

/-!
# Every report has a stored form

The numbers in a report are bounded by the size of the patch, and its messages by that of the
replacement term.  So the report of a patch comes back from its stored form unchanged, unless it has
more issues than can be counted there, and then nothing comes back (`report_storable`,
`FileReport.Storable.decode`).
-/

namespace PatchAudit

/-- A patch and options whose report has only numbers of 64 bits and messages of at most 32 bits of
length. -/
structure LintOptions.Storable (o : LintOptions) (d : Document) : Prop where
  text : d.text.length + 1 < 2 ^ 63
  replacement : o.branding.replacement.length + 64 < 2 ^ 32

/-! ### Lines -/

theorem Document.length_classified (d : Document) : d.classified.length ≤ d.text.length + 1 := by
  rw [classified, PatchLine.classify, PatchLine.length_classifyFrom]
  exact Bytes.length_splitOn_le _ _

theorem Document.mem_classified {d : Document} {l : PatchLine} (h : l ∈ d.classified) :
    0 < l.number ∧ l.number ≤ d.text.length + 1 ∧ l.payload.length ≤ d.text.length := by
  have hlines : d.lines.length ≤ d.text.length + 1 := Bytes.length_splitOn_le 0x0A d.text
  obtain ⟨hfirst, hlast, -⟩ := PatchLine.place_of_mem_classify h
  obtain ⟨raw, hraw, inside, hpayload⟩ := PatchLine.exists_sortOut_of_mem h
  have hshort : raw.length ≤ d.text.length := (Bytes.infix_of_mem_splitOn hraw).length_le
  rw [hpayload]
  exact ⟨hfirst, hlast.trans hlines, (PatchLine.length_sortOut inside raw).trans hshort⟩

/-! ### Braces -/

namespace BraceScan

theorem step_balance_le (marks : List Bytes) (s : BraceScan) (l : PatchLine) :
    (step marks s l).1.balance ≤ s.balance + l.payload.length := by
  unfold step
  split_ifs
  · simp
  · cases hc : BraceCount.ofLine? marks l with
    | none => simp
    | some c =>
      have hopened : c.opened ≤ l.payload.length := by
        unfold BraceCount.ofLine? at hc
        split_ifs at hc
        rw [← Option.some.inj hc]
        exact List.count_le_length
      simp only [BraceCount.delta]
      omega

/-- No more braces are open at the end than there are bytes on the lines. -/
theorem run_balance_le {marks : List Bytes} {s : BraceScan} {lines : List PatchLine} {most : Nat}
    (hmost : ∀ l ∈ lines, l.payload.length ≤ most) :
    (run marks s lines).2.balance ≤ s.balance + lines.length * most := by
  induction lines generalizing s with
  | nil => simp [run]
  | cons l rest ih =>
    show (run marks (step marks s l).1 rest).2.balance ≤ _
    have hstep := step_balance_le marks s l
    have hpayload := hmost l List.mem_cons_self
    have hrest := ih (s := (step marks s l).1) fun l hl => hmost l (List.mem_cons_of_mem _ hl)
    rw [List.length_cons, Nat.add_mul]
    omega

end BraceScan

/-! ### Issues and reports that can be stored -/

/-- An issue that comes back from its stored form. -/
structure Issue.Storable (i : Issue) : Prop where
  check : i.check.length < 2 ^ 32
  kind : 0 ≤ i.kind.code ∧ i.kind.code < 256
  line : -2 ^ 63 ≤ i.line ∧ i.line < 2 ^ 63
  message : i.message.length < 2 ^ 32
  severity : 0 ≤ i.severity.code ∧ i.severity.code < 256

theorem Issue.Storable.fits {i : Issue} (h : i.Storable) : (StoredIssue.ofIssue i).Fits := by
  refine ⟨h.check, ?_, h.line, h.message, ?_⟩
  · show (i.kind.code % 256).toNat < 256
    omega
  · show (i.severity.code % 256).toNat < 256
    omega

theorem Issue.Storable.toIssue {i : Issue} (h : i.Storable) : (StoredIssue.ofIssue i).toIssue = i := by
  obtain ⟨-, hkind, -, -, hseverity⟩ := h
  obtain ⟨check, ⟨kind⟩, line, message, ⟨severity⟩⟩ := i
  simp only at hkind hseverity
  have hk : (((kind % 256).toNat : Nat) : Int) = kind := by omega
  have hs : (((severity % 256).toNat : Nat) : Int) = severity := by omega
  simp only [StoredIssue.ofIssue, StoredIssue.toIssue, hk, hs]

/-- A report that comes back from its stored form, but for the number of its issues. -/
structure FileReport.Storable (r : FileReport) : Prop where
  issues : ∀ i ∈ r.issues, i.Storable
  files : -2 ^ 63 ≤ r.stats.files ∧ r.stats.files < 2 ^ 63
  added : -2 ^ 63 ≤ r.stats.added ∧ r.stats.added < 2 ^ 63
  deleted : -2 ^ 63 ≤ r.stats.deleted ∧ r.stats.deleted < 2 ^ 63

namespace FileReport.Storable

theorem fits {r : FileReport} (h : r.Storable) : (StoredReport.ofReport r).Fits := by
  have hversion : storeVersion < 65536 := by decide
  refine ⟨hversion, ?_, h.files, h.added, h.deleted⟩
  intro i hi
  obtain ⟨issue, hissue, rfl⟩ := List.mem_map.mp hi
  exact (h.issues issue hissue).fits

theorem into {r : FileReport} (h : r.Storable) :
    (StoredReport.ofReport r).into { path := r.path, name := r.name } = r := by
  have hissues : (r.issues.map StoredIssue.ofIssue).map StoredIssue.toIssue = r.issues := by
    rw [List.map_map]
    refine (List.map_congr_left fun i hi => ?_).trans (List.map_id _)
    exact (h.issues i hi).toIssue
  obtain ⟨path, name, issues, ⟨files, added, deleted⟩⟩ := r
  simp only [StoredReport.ofReport, StoredReport.into] at hissues ⊢
  rw [hissues]

/-- The stored form of a report comes back, or nothing does. -/
theorem decode {r : FileReport} (h : r.Storable) :
    StoredReport.decode? (StoredReport.ofReport r).encode = some (StoredReport.ofReport r) ∨
      StoredReport.decode? (StoredReport.ofReport r).encode = none := by
  by_cases hcount : (StoredReport.ofReport r).issues.length < 2 ^ 32
  · exact .inl (StoredReport.decode_encode h.fits hcount)
  · exact .inr (StoredReport.decode_encode_long h.fits (by omega))

end FileReport.Storable

/-! ### The checks -/

/-- The issues of all checks have the same form. -/
theorem Check.storable_issue (c : Check) {kind : IssueKind} {line : Int} {message : Bytes}
    (hkind : kind ∈ [IssueKind.shape, .braces, .branding]) (hline : 0 ≤ line ∧ line < 2 ^ 63)
    (hmessage : message.length < 2 ^ 32) :
    Issue.Storable ⟨c.name, kind, line, message, .warning⟩ := by
  have hcheck : c.name.length < 2 ^ 32 := by cases c <;> decide
  have hcode : 0 ≤ kind.code ∧ kind.code < 256 := by
    simp only [List.mem_cons, List.not_mem_nil, or_false] at hkind
    rcases hkind with rfl | rfl | rfl <;> decide
  have hseverity : 0 ≤ Severity.warning.code ∧ Severity.warning.code < 256 := by decide
  have hlow : -2 ^ 63 ≤ line := by omega
  exact ⟨hcheck, hcode, ⟨hlow, hline.2⟩, hmessage, hseverity⟩

theorem ShapeCheck.length_requirement {text : Bytes} {r : Bool × Bytes} (h : r ∈ requirements text) :
    r.2.length < 2 ^ 32 := by
  simp only [requirements, List.mem_cons, List.not_mem_nil, or_false] at h
  rcases h with rfl | rfl | rfl <;> simp only <;> decide

theorem Bytes.length_ofNat_le {n : Nat} (h : n < 10 ^ 40) : (Bytes.ofNat n).length ≤ 40 := by
  rw [Bytes.ofNat, List.length_map]
  exact (Nat.length_toDigits_le_iff (by decide) (by decide)).mpr h

theorem BraceScan.balance_lt (marks : List Bytes) {d : Document}
    (hd : d.text.length + 1 < 2 ^ 63) : (scan marks d.classified).2.balance < 10 ^ 40 := by
  have hbalance : (run marks {} d.classified).2.balance ≤ 0 + d.classified.length * d.text.length :=
    run_balance_le fun l hl => (Document.mem_classified hl).2.2
  have hproduct := Nat.mul_le_mul d.length_classified (Nat.le_refl d.text.length)
  have hbound : (d.text.length + 1) * d.text.length ≤ 2 ^ 63 * 2 ^ 63 :=
    Nat.mul_le_mul (by omega) (by omega)
  have hscan : (scan marks d.classified).2 = (run marks {} d.classified).2 := rfl
  rw [hscan]
  omega

theorem Check.Finds.storable {o : LintOptions} {d : Document} {c : Check} {i : Issue}
    (hd : o.Storable d) (h : c.Finds o d i) : i.Storable := by
  have htext := hd.text
  cases h with
  | unmet hr =>
    exact Check.shape.storable_issue (by decide) (by decide) (ShapeCheck.length_requirement hr)
  | unmatched hl =>
    obtain ⟨-, hnumber, -⟩ := Document.mem_classified hl
    exact Check.braces.storable_issue (by decide) (by omega) (by decide)
  | unclosed =>
    have hdigits := Bytes.length_ofNat_le (BraceScan.balance_lt o.commentMarks htext)
    have hwords : (Bytes.ofString " unclosed braces").length = 16 := by decide
    refine Check.braces.storable_issue (by decide) (by decide) ?_
    rw [List.length_append, hwords]
    omega
  | offending hl =>
    obtain ⟨-, hnumber, -⟩ := Document.mem_classified hl
    have hreplacement := hd.replacement
    have hstart : (Bytes.ofString "inconsistent branding — should use '").length ≤ 60 := by decide
    have hend : (Bytes.ofString "'").length = 1 := by decide
    refine Check.branding.storable_issue (by decide) (by omega) ?_
    rw [List.length_append, List.length_append, hend]
    omega

/-! ### Reports -/

namespace LintOptions

theorem stats_storable {d : Document} (hd : d.text.length + 1 < 2 ^ 63) :
    (-2 ^ 63 ≤ d.stats.files ∧ d.stats.files < 2 ^ 63) ∧
      (-2 ^ 63 ≤ d.stats.added ∧ d.stats.added < 2 ^ 63) ∧
      (-2 ^ 63 ≤ d.stats.deleted ∧ d.stats.deleted < 2 ^ 63) := by
  unfold Document.stats
  cases hfiles : Diff.files d.text with
  | error e =>
    simp only
    decide
  | ok changes =>
    obtain ⟨files, added, deleted, hstats, hle⟩ := Diff.stats_le hfiles
    simp only [hstats]
    omega

/-- **Every report can be stored.** -/
theorem report_storable {o : LintOptions} {d : Document} (h : o.Storable d) :
    (o.report d).Storable := by
  obtain ⟨hfiles, hadded, hdeleted⟩ := stats_storable h.text
  refine ⟨?_, hfiles, hadded, hdeleted⟩
  intro i hi
  obtain ⟨c, hfound⟩ := finds_of_mem_report hi
  exact hfound.storable h

end LintOptions

end PatchAudit
