import PatchAudit.Check.Linter
import PatchAudit.Proofs.PlainPatch
import PatchAudit.Proofs.Text
import PatchAudit.Store.Key

/-!
# Line ends make no difference

A text is the lines of its document with LF or CR LF at each join (`joined_lines`), and whichever of
the two stands there, the document is the same: a line that neither holds LF nor ends with CR comes
out of making the line ends plain as it went in (`plainEnds_append_cons`).  So all texts with the
same lines have the same report and the same key (`line_ends_make_no_difference`).
-/

namespace PatchAudit

/-- What may stand between two lines of a text. -/
inductive LineEnd where
  | lf
  | crlf
  deriving DecidableEq, Repr

def LineEnd.bytes : LineEnd → Bytes
  | lf => [0x0A]
  | crlf => [0x0D, 0x0A]

/-- The texts in which lines stand one after the other, with some line end at each join. -/
inductive Joined : List Bytes → Bytes → Prop where
  | none : Joined [] []
  | last (l : Bytes) : Joined [l] l
  | cons (l : Bytes) (e : LineEnd) {next : Bytes} {rest : List Bytes} {s : Bytes}
      (h : Joined (next :: rest) s) : Joined (l :: next :: rest) (l ++ e.bytes ++ s)

/-- A line that can be told from its line end. -/
def Bytes.IsLine (l : Bytes) : Prop := 0x0A ∉ l ∧ l.getLast? ≠ some 0x0D

instance (l : Bytes) : Decidable l.IsLine := inferInstanceAs (Decidable (_ ∧ _))

namespace Bytes

/-- A line comes out as it is, unless its last byte and the one behind it are a CR LF. -/
theorem plainEnds_append_cons {l : Bytes} (h : 0x0A ∉ l) {b : UInt8}
    (hlast : b = 0x0A → l.getLast? ≠ some 0x0D) (s : Bytes) :
    plainEnds (l ++ b :: s) = l ++ plainEnds (b :: s) := by
  induction l with
  | nil => rfl
  | cons c l ih =>
    have hl : 0x0A ∉ l := fun hmem => h (List.mem_cons_of_mem _ hmem)
    have hnot : ∀ r, c = 0x0D → l ++ b :: s ≠ 0x0A :: r := by
      rintro r rfl heq
      cases l with
      | nil => exact hlast (List.cons.inj heq).1 rfl
      | cons d l =>
        obtain ⟨rfl, -⟩ := List.cons.inj heq
        exact hl List.mem_cons_self
    have hrest : b = 0x0A → l.getLast? ≠ some 0x0D := by
      intro hb hcr
      refine hlast hb ?_
      rw [List.getLast?_cons, hcr]
      rfl
    rw [List.cons_append, plainEnds, ih hl hrest, List.cons_append]
    exact fun r hc => hnot r hc

theorem IsLine.plainEnds_append {l : Bytes} (h : l.IsLine) (e : LineEnd) (s : Bytes) :
    plainEnds (l ++ e.bytes ++ s) = l ++ 0x0A :: plainEnds s := by
  obtain ⟨hnewline, hlast⟩ := h
  rw [List.append_assoc]
  cases e with
  | lf =>
    show plainEnds (l ++ 0x0A :: s) = _
    rw [plainEnds_append_cons hnewline (fun _ => hlast), plainEnds]
    exact fun r hcr => absurd hcr (by decide)
  | crlf =>
    show plainEnds (l ++ 0x0D :: 0x0A :: s) = _
    rw [plainEnds_append_cons hnewline (fun hcr => absurd hcr (by decide)), plainEnds]

theorem plainEnds_of_joined {lines : List Bytes} (hlines : ∀ l ∈ lines, l.IsLine) {s : Bytes}
    (h : Joined lines s) : s.plainEnds = join "\n" lines := by
  induction h with
  | none => rfl
  | last l =>
    rw [plainEnds_of_not_mem (hlines l List.mem_cons_self).1]
    simp [join]
  | @cons l e next rest s h ih =>
    have hjoin : join "\n" (l :: next :: rest) = l ++ 0x0A :: join "\n" (next :: rest) := by
      rw [join, List.intercalate_cons_cons, List.append_assoc]
      rfl
    rw [(hlines l List.mem_cons_self).plainEnds_append, hjoin,
      ih fun x hx => hlines x (List.mem_cons_of_mem _ hx)]

/-- Nothing but the choice of line ends is lost. -/
theorem joined_splitOn_plainEnds (s : Bytes) : Joined (s.plainEnds.splitOn 0x0A) s := by
  by_cases hmem : 0x0A ∈ s
  · obtain ⟨l, r, rfl, hl⟩ := List.eq_append_cons_of_mem hmem
    obtain ⟨m, hm, hnewline, hplain⟩ := plainEnds_append hl r
    have ih := joined_splitOn_plainEnds r
    rw [hplain, List.splitOn_append_cons_self_of_not_mem hnewline]
    cases hparts : (plainEnds r).splitOn 0x0A with
    | nil => exact absurd hparts (List.splitOn_ne_nil _ _)
    | cons next rest =>
      rw [hparts] at ih
      rcases hm with rfl | rfl
      · have hjoined := Joined.cons l .lf ih
        rwa [List.append_assoc] at hjoined
      · have hjoined := Joined.cons m .crlf ih
        rw [List.append_assoc] at hjoined
        rwa [List.append_assoc]
  · rw [plainEnds_of_not_mem hmem, List.splitOn_eq_singleton hmem]
    exact .last s
termination_by s.length

end Bytes

namespace Document

variable (path : Bytes)

theorem joined_lines (text : Bytes) : Joined (ofText path text).lines text :=
  Bytes.joined_splitOn_plainEnds text

/-- The document of a text is told by its lines. -/
theorem ofText_of_joined {lines : List Bytes} (hlines : ∀ l ∈ lines, l.IsLine) {s : Bytes}
    (h : Joined lines s) : ofText path s = ⟨path, Bytes.join "\n" lines⟩ := by
  rw [ofText, Bytes.plainEnds_of_joined hlines h]

theorem lines_of_joined {lines : List Bytes} (hlines : ∀ l ∈ lines, l.IsLine) (hne : lines ≠ [])
    {s : Bytes} (h : Joined lines s) : (ofText path s).lines = lines := by
  rw [ofText_of_joined path hlines h]
  exact List.splitOn_intercalate 0x0A (fun l hl => (hlines l hl).1) hne

end Document

/-- **Line ends make no difference, and no text is lost.**  The lines of a document hold no LF, give
its text back when they are joined with LF, and give the text that was read when the right line end
is put at each join.  Texts that have the same lines, each without LF and without CR at its end, give
the same document whatever line ends they have, and so the same report under any options and the
same key. -/
theorem line_ends_make_no_difference (path : Bytes) :
    (∀ text, (∀ l ∈ (Document.ofText path text).lines, 0x0A ∉ l) ∧
      Bytes.join "\n" (Document.ofText path text).lines = (Document.ofText path text).text ∧
      Joined (Document.ofText path text).lines text) ∧
    ∀ lines : List Bytes, (∀ l ∈ lines, l.IsLine) → ∀ s t, Joined lines s → Joined lines t →
      (Document.ofText path s).text = Bytes.join "\n" lines ∧
      (lines ≠ [] → (Document.ofText path s).lines = lines) ∧
      (Document.ofText path s).text = (Document.ofText path t).text ∧
      (Document.ofText path s).lines = (Document.ofText path t).lines ∧
      (∀ linter : Linter,
        linter.lint (Document.ofText path s) = linter.lint (Document.ofText path t)) ∧
      ∀ (name : Bytes) (o : LintOptions), StoreKey.of name (Document.ofText path s).text o =
        StoreKey.of name (Document.ofText path t).text o := by
  refine ⟨fun text => ⟨?_, List.intercalate_splitOn 0x0A, Document.joined_lines path text⟩, ?_⟩
  · intro l hl
    exact Bytes.not_mem_of_mem_splitOn hl
  · intro lines hlines s t hs ht
    have hdoc := Document.ofText_of_joined path hlines hs
    have hsame : Document.ofText path s = Document.ofText path t :=
      hdoc.trans (Document.ofText_of_joined path hlines ht).symm
    refine ⟨congrArg Document.text hdoc, fun hne => Document.lines_of_joined path hlines hne hs, ?_⟩
    rw [hsame]
    exact ⟨rfl, rfl, fun _ => rfl, fun _ _ => rfl⟩

/-- A line with a CR inside it, an empty line and a last line without an end, joined in two ways. -/
theorem line_ends_make_no_difference_mixed :
    (∀ l ∈ ([("+a\rb" : Bytes), "", "@@"] : List Bytes), l.IsLine) ∧
      Joined ["+a\rb", "", "@@"] "+a\rb\r\n\n@@" ∧ Joined ["+a\rb", "", "@@"] "+a\rb\n\r\n@@" ∧
      (Document.ofText "a.patch" "+a\rb\r\n\n@@").lines = ["+a\rb", "", "@@"] ∧
      StoreKey.of "a.patch" (Document.ofText "a.patch" "+a\rb\r\n\n@@").text {} =
        StoreKey.of "a.patch" (Document.ofText "a.patch" "+a\rb\n\r\n@@").text {} := by
  have hlines : ∀ l ∈ ([("+a\rb" : Bytes), "", "@@"] : List Bytes), l.IsLine := by decide
  have hfirst : Joined ["+a\rb", "", "@@"] "+a\rb\r\n\n@@" :=
    .cons "+a\rb" .crlf (.cons "" .lf (.last "@@"))
  have hsecond : Joined ["+a\rb", "", "@@"] "+a\rb\n\r\n@@" :=
    .cons "+a\rb" .lf (.cons "" .crlf (.last "@@"))
  obtain ⟨-, hkept, -, -, -, hkey⟩ :=
    (line_ends_make_no_difference "a.patch").2 _ hlines _ _ hfirst hsecond
  exact ⟨hlines, hfirst, hsecond, hkept (by simp), hkey "a.patch" {}⟩

end PatchAudit
