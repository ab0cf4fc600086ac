import PatchAudit.Check.Linter
import PatchAudit.Proofs.ClassifiedLines
import PatchAudit.Proofs.PlainPatchReading
import PatchAudit.Proofs.ReportSize

/-!
# Two readings of a patch

A patch is read twice: line by line for the checks, with a flag that is never taken back, and as a
diff for the totals of its report, with counts.  On plain patches both tell the same changes, file by
file and in total (`readers_agree_on_plain_patches`).
-/

namespace PatchAudit

open Bytes

/-! ### The kinds of lines -/

/-- The kinds of the lines of a hunk. -/
def Hunk.kinds (h : Hunk) : List LineKind := .hunkMarker :: h.lines.map fun l => l.sign.kind

/-- The kinds of the lines of a section. -/
def FileSection.kinds (s : FileSection) : List LineKind :=
  .header :: .fileMarker :: .fileMarker :: s.hunks.flatMap Hunk.kinds

theorem Hunk.length_kinds (h : Hunk) : h.kinds.length = h.text.length := by
  simp [kinds, text]

theorem FileSection.length_kinds (s : FileSection) : s.kinds.length = s.text.length := by
  have hhunks : (s.hunks.flatMap Hunk.kinds).length = (s.hunks.flatMap Hunk.text).length := by
    rw [List.length_flatMap, List.length_flatMap]
    exact congrArg List.sum (List.map_congr_left fun h _ => h.length_kinds)
  simp [kinds, text, hhunks]

theorem Sign.kind_beq (s : Sign) (sign : Sign) : (s.kind == sign.kind) = (s == sign) := by
  cases s <;> cases sign <;> rfl

theorem Hunk.countP_kinds (h : Hunk) {sign : Sign} :
    h.kinds.countP (· == sign.kind) = h.count sign := by
  have hmarker : (LineKind.hunkMarker == sign.kind) = false := by cases sign <;> rfl
  rw [kinds, List.countP_cons_of_neg (by simp [hmarker]), List.countP_map]
  exact List.countP_congr fun l _ => by simp [Sign.kind_beq]

/-- The kinds of a section tell its changes. -/
theorem FileSection.countP_kinds (s : FileSection) {sign : Sign} :
    s.kinds.countP (· == sign.kind) = s.count sign := by
  have hheader : (LineKind.header == sign.kind) = false := by cases sign <;> rfl
  have hmarker : (LineKind.fileMarker == sign.kind) = false := by cases sign <;> rfl
  rw [kinds, List.countP_cons_of_neg (by simp [hheader]), List.countP_cons_of_neg (by simp [hmarker]),
    List.countP_cons_of_neg (by simp [hmarker]), List.countP_flatMap, count]
  exact congrArg List.sum (List.map_congr_left fun h _ => h.countP_kinds)

namespace PatchLine

theorem kind_of_content {l : ContentLine} {t : Bytes} (h : Shown l.text t) :
    (sortOut true t).1 = l.sign.kind := by
  obtain ⟨x, rfl⟩ := Diff.sign_of_shown h
  have hno := l.no_marker
  simp only [startsWithAny, fileMarks, List.any_cons, List.any_nil, Bool.or_false,
    Bool.or_eq_false_iff] at hno
  have hmarker : startsWithAny fileMarks (l.sign.byte :: x) = false := by
    simp only [startsWithAny, fileMarks, List.any_cons, List.any_nil, Bool.or_false,
      Bool.or_eq_false_iff]
    exact ⟨h.no_start hno.1 (by decide), h.no_start hno.2 (by decide)⟩
  have hheader : startsWithAny headerMarks (l.sign.byte :: x) = false := by cases l.sign <;> rfl
  have hhunk : hunkMark.isPrefixOf (l.sign.byte :: x) = false := by cases l.sign <;> rfl
  unfold sortOut
  rw [hmarker, hheader, hhunk]
  cases l.sign <;> rfl

theorem kinds_of_content {lines : List ContentLine} {shown : List Bytes}
    (h : List.Forall₂ Shown (lines.map ContentLine.text) shown) (number : Nat) :
    (classifyFrom true number shown).map PatchLine.kind = lines.map fun l => l.sign.kind := by
  induction lines generalizing shown number with
  | nil =>
    cases h
    rfl
  | cons l lines ih =>
    cases h with
    | cons hl hrest =>
      rw [classifyFrom_cons, List.map_cons, List.map_cons, Bool.true_or, ih hrest, kind_of_content hl]

theorem kinds_of_hunk {h : Hunk} {shown : List Bytes} (hshown : List.Forall₂ Shown h.text shown)
    (inside : Bool) (number : Nat) :
    (classifyFrom inside number shown).map PatchLine.kind = h.kinds := by
  obtain ⟨t, lines, ht, hlines, rfl⟩ := List.forall₂_cons_left_iff.mp hshown
  obtain ⟨x, rfl⟩ := Diff.shown_header ht
  have hkind : (sortOut inside ("@@ -" ++ h.ranges ++ " @@" ++ x)).1 = .hunkMarker := rfl
  rw [classifyFrom_cons, List.map_cons, hkind, beq_self_eq_true, Bool.or_true, kinds_of_content hlines]
  rfl

theorem kinds_of_hunks {hunks : List Hunk} {shown : List Bytes}
    (hshown : List.Forall₂ Shown (hunks.flatMap Hunk.text) shown) (inside : Bool) (number : Nat) :
    (classifyFrom inside number shown).map PatchLine.kind = hunks.flatMap Hunk.kinds := by
  induction hunks generalizing shown inside number with
  | nil =>
    cases hshown
    rfl
  | cons h hunks ih =>
    obtain ⟨first, others, rfl, hfirst, hothers⟩ := forall₂_append_left hshown
    rw [classifyFrom_append, List.map_append, kinds_of_hunk hfirst, ih hothers, List.flatMap_cons]

theorem kinds_of_section {s : FileSection} {shown : List Bytes}
    (hshown : List.Forall₂ Shown s.text shown) (inside : Bool) (number : Nat) :
    (classifyFrom inside number shown).map PatchLine.kind = s.kinds := by
  obtain ⟨t₁, ts₁, h₁, hnames, rfl⟩ := List.forall₂_cons_left_iff.mp hshown
  obtain ⟨t₂, ts₂, h₂, hnew, rfl⟩ := List.forall₂_cons_left_iff.mp hnames
  obtain ⟨t₃, ts₃, h₃, hhunks, rfl⟩ := List.forall₂_cons_left_iff.mp hnew
  obtain ⟨x₁, rfl⟩ := h₁.start (by decide)
  obtain ⟨x₂, rfl⟩ := h₂.start (by decide)
  obtain ⟨x₃, rfl⟩ := h₃.start (by decide)
  simp only [classifyFrom_cons, List.map_cons]
  rw [kinds_of_hunks hhunks]
  rfl

/-- The lines above the sections are no changes, and they leave the flag as it is. -/
theorem kinds_of_preamble {preamble shown : List Bytes}
    (hstart : ∀ l ∈ preamble, startsWithAny ["@@", "diff --git ", "--- "] l = false)
    (hshown : List.Forall₂ Shown preamble shown) (number : Nat) :
    ∀ l ∈ classifyFrom false number shown,
      l.kind ≠ .added ∧ l.kind ≠ .removed ∧ l.kind ≠ .hunkMarker := by
  induction hshown generalizing number with
  | nil => simp [classifyFrom]
  | @cons l t preamble shown hl _ ih =>
    have hno := hstart l List.mem_cons_self
    simp only [startsWithAny, List.any_cons, List.any_nil, Bool.or_false, Bool.or_eq_false_iff] at hno
    have hhunk : hunkMark.isPrefixOf t = false := hl.no_start hno.1 (by decide)
    have hkind : (sortOut false t).1 ≠ .added ∧ (sortOut false t).1 ≠ .removed ∧
        (sortOut false t).1 ≠ .hunkMarker := by
      unfold sortOut
      rw [hhunk]
      split_ifs <;> simp_all
    have hflag : (false || (sortOut false t).1 == .hunkMarker) = false := by simp [hkind.2.2]
    rw [classifyFrom_cons, hflag]
    exact List.forall_mem_cons.mpr ⟨hkind, ih (fun m hm => hstart m (List.mem_cons_of_mem _ hm)) _⟩

/-- The sections of a patch, each with its classified lines. -/
theorem exists_blocks {sections : List FileSection} {shown : List Bytes}
    (hshown : List.Forall₂ Shown (sections.flatMap FileSection.text) shown) (inside : Bool)
    (number : Nat) :
    ∃ blocks, classifyFrom inside number shown = List.flatten blocks ∧
      blocks.map (List.map PatchLine.kind) = sections.map FileSection.kinds := by
  induction sections generalizing shown inside number with
  | nil =>
    cases hshown
    exact ⟨[], rfl, rfl⟩
  | cons s sections ih =>
    obtain ⟨first, others, rfl, hfirst, hothers⟩ := forall₂_append_left hshown
    rw [classifyFrom_append]
    obtain ⟨blocks, hblocks, hkinds⟩ := ih hothers _ (number + first.length)
    refine ⟨classifyFrom inside number first :: blocks, ?_, ?_⟩
    · rw [hblocks, List.flatten_cons]
    · rw [List.map_cons, kinds_of_section hfirst, hkinds, List.map_cons]

/-- The number of lines of a kind. -/
def countKind (kind : LineKind) (lines : List PatchLine) : Nat := lines.countP (·.kind == kind)

theorem countKind_eq (kind : LineKind) (lines : List PatchLine) :
    countKind kind lines = (lines.map PatchLine.kind).countP (· == kind) := by
  rw [countKind, List.countP_map]
  rfl

end PatchLine

theorem Diff.name_sectionChange (s : FileSection) : (sectionChange s).name = s.name.text := by
  simp [sectionChange, namedChange, FileChange.name, s.name.text_ne_nil]

/-- The totals over blocks of lines that are followed by no change. -/
theorem countKind_blocks {kind : LineKind} {before after : List PatchLine}
    {blocks : List (List PatchLine)} (hbefore : ∀ l ∈ before, l.kind ≠ kind)
    (hafter : ∀ l ∈ after, l.kind ≠ kind) :
    PatchLine.countKind kind (before ++ blocks.flatten ++ after) =
      (blocks.map (PatchLine.countKind kind)).sum := by
  have hnone : ∀ {lines : List PatchLine}, (∀ l ∈ lines, l.kind ≠ kind) →
      PatchLine.countKind kind lines = 0 := by
    intro lines hlines
    exact List.countP_eq_zero.mpr fun l hl => by simp [hlines l hl]
  have hb := hnone hbefore
  have ha := hnone hafter
  simp only [PatchLine.countKind] at hb ha ⊢
  rw [List.countP_append, List.countP_append, hb, ha, List.countP_flatten, Nat.zero_add, Nat.add_zero]
  rfl

/-- The classified lines of a plain patch: those above the sections, those of each section, and an
empty last one if the text ends with a newline. -/
theorem PlainPatch.exists_classified (p : PlainPatch) (path : Bytes) :
    ∃ before blocks after,
      (Document.ofText path p.text).classified = before ++ List.flatten blocks ++ after ∧
      before.length = p.preamble.length ∧
      blocks.map (List.map PatchLine.kind) = p.sections.map FileSection.kinds ∧
      (∀ l ∈ before, l.kind ≠ .added ∧ l.kind ≠ .removed) ∧
      ∀ l ∈ after, l.kind ≠ .added ∧ l.kind ≠ .removed := by
  obtain ⟨-, parts, hparts, hshown⟩ := p.shown_plainEnds
  obtain ⟨first, others, rfl, hfirst, hothers⟩ := forall₂_append_left hshown
  have hlines : (Document.ofText path p.text).lines =
      first ++ others ++ if p.ended then [[]] else [] := hparts
  have hpreamble := PatchLine.kinds_of_preamble p.no_start hfirst 1
  have hempty : ∀ inside, (PatchLine.sortOut inside []).1 ≠ .added ∧
      (PatchLine.sortOut inside []).1 ≠ .removed := by decide
  have hlast : ∀ (inside : Bool) (number : Nat),
      ∀ l ∈ PatchLine.classifyFrom inside number (if p.ended then [[]] else []),
        l.kind ≠ .added ∧ l.kind ≠ .removed := by
    intro inside number l hl
    split_ifs at hl
    · rw [PatchLine.classifyFrom_cons, List.mem_cons] at hl
      rcases hl with rfl | hl
      · exact hempty inside
      · cases hl
    · cases hl
  rw [Document.classified, hlines, PatchLine.classify, PatchLine.classifyFrom_append,
    PatchLine.classifyFrom_append]
  obtain ⟨blocks, hblocks, hkinds⟩ := PatchLine.exists_blocks hothers
    (false || (PatchLine.classifyFrom false 1 first).any (·.kind == .hunkMarker)) (1 + first.length)
  refine ⟨_, blocks, _, by rw [hblocks], ?_, hkinds, ?_, hlast _ _⟩
  · rw [PatchLine.length_classifyFrom]
    exact hfirst.length_eq.symm
  · exact fun l hl => ⟨(hpreamble l hl).1, (hpreamble l hl).2.1⟩

/-- **The two readings of a plain patch agree.**  The diff is read without an error, with one file
for each section; the file has as many added and deleted lines as are classified so among the lines
of the section, and the totals of a report are those of all classified lines. -/
theorem readers_agree_on_plain_patches (path : Bytes) (p : PlainPatch) (h : p.InRange) :
    ∃ changes before blocks after,
      Diff.files p.text = .ok changes ∧
      Diff.files (Document.ofText path p.text).text = .ok changes ∧
      (Document.ofText path p.text).classified = before ++ List.flatten blocks ++ after ∧
      before.length = p.preamble.length ∧
      blocks.map List.length = p.sections.map (fun s => s.text.length) ∧
      changes.map Diff.FileChange.name = p.sections.map (fun s => s.name.text) ∧
      changes.map (fun f => (f.added, f.deleted)) =
        blocks.map (fun b => (PatchLine.countKind .added b, PatchLine.countKind .removed b)) ∧
      ∀ linter : Linter, (linter.lint (Document.ofText path p.text)).stats =
        ⟨p.sections.length, PatchLine.countKind .added (Document.ofText path p.text).classified,
          PatchLine.countKind .removed (Document.ofText path p.text).classified⟩ := by
  obtain ⟨before, blocks, after, hclassified, hlength, hkinds, hbefore, hafter⟩ :=
    p.exists_classified path
  have hfiles := Diff.files_shown h p.shown_text
  have hplain : Diff.files (Document.ofText path p.text).text = .ok (p.sections.map _) :=
    Diff.files_shown h p.shown_plainEnds.1
  -- whatever is read off the kinds of a block is read off the kinds of its section
  have hread : ∀ {γ : Type} (g : List LineKind → γ),
      blocks.map (fun b => g (b.map PatchLine.kind)) = p.sections.map fun s => g s.kinds := by
    intro γ g
    simpa [List.map_map, Function.comp_def] using congrArg (List.map g) hkinds
  have hcounts : blocks.map (fun b => (PatchLine.countKind .added b, PatchLine.countKind .removed b)) =
      p.sections.map fun s => (s.count .added, s.count .removed) := by
    simp only [PatchLine.countKind_eq, ← FileSection.countP_kinds]
    exact hread fun ks => (ks.countP (· == .added), ks.countP (· == .removed))
  have htotal : ∀ sign : Sign, (blocks.map (PatchLine.countKind sign.kind)).sum =
      (p.sections.map (FileSection.count sign)).sum := by
    intro sign
    have hblocks := hread (List.countP (· == sign.kind))
    simp only [← PatchLine.countKind_eq, FileSection.countP_kinds] at hblocks
    exact congrArg List.sum hblocks
  refine ⟨_, before, blocks, after, hfiles, hplain, hclassified, hlength, ?_, ?_, ?_, ?_⟩
  · have hlengths := hread List.length
    simpa only [List.length_map, FileSection.length_kinds] using hlengths
  · rw [List.map_map]
    exact List.map_congr_left fun s _ => Diff.name_sectionChange s
  · rw [List.map_map, hcounts]
    rfl
  · intro linter
    have hadded := (countKind_blocks (fun l hl => (hbefore l hl).1)
      (fun l hl => (hafter l hl).1)).trans (htotal .added)
    have hremoved := (countKind_blocks (fun l hl => (hbefore l hl).2)
      (fun l hl => (hafter l hl).2)).trans (htotal .removed)
    show Document.stats _ = _
    rw [Document.stats, hplain, hclassified, hadded, hremoved]
    simp only [Diff.stats, Diff.total, List.map_map, List.length_map]
    rfl

/-- A patch of one hunk that starts at a given line.  Two lines end with a CR, one of them the last
of the text. -/
def onePatch (start : Bytes) (hstart : Numeral.IsDecimal start) : PlainPatch where
  preamble := ["From x\r", "+++ y"]
  sections :=
    [{ name := ⟨["src", "a-1.c"], by decide, by decide, by decide +kernel⟩
       hunks :=
        [{ oldStart := start
           oldCount := "2"
           newStart := "7"
           newCount := "2"
           heading := []
           lines := [⟨.context, "\x7b", by decide, by decide⟩, ⟨.removed, "-", by decide, by decide⟩,
             ⟨.added, "x\r", by decide, by decide⟩]
           oldStart_decimal := hstart
           oldCount_decimal := by decide
           newStart_decimal := by decide
           newCount_decimal := by decide
           old_matches := rfl
           new_matches := rfl
           changes := ⟨⟨.removed, "-", by decide, by decide⟩, by simp, by decide⟩
           one_line := by decide }]
       hunks_ne_nil := by simp }]
  ended := false
  sections_ne_nil := by simp
  one_line := by decide
  no_start := by decide

/-- A start that a word of 64 bits can hold. -/
theorem nearStart : Numeral.IsDecimal "9223372036854775807" := by decide

/-- The first start that it cannot. -/
theorem farStart : Numeral.IsDecimal "9223372036854775808" := by decide

theorem onePatch_inRange : (onePatch _ nearStart).InRange := by
  intro s hs h hh
  rw [List.mem_singleton.mp hs, List.mem_singleton] at hh
  rw [hh]
  exact ⟨by decide, by decide, by decide, by decide⟩

theorem readers_agree_on_plain_patches_near :
    (onePatch _ nearStart).InRange ∧
      (∃ changes, Diff.files (onePatch _ nearStart).text = .ok changes ∧
        changes.map Diff.FileChange.name = [Bytes.ofString "src/a-1.c"]) ∧
      ∀ linter : Linter,
        (linter.lint (Document.ofText "a.patch" (onePatch _ nearStart).text)).stats = ⟨1, 1, 1⟩ := by
  obtain ⟨changes, before, blocks, after, hfiles, -, -, -, -, hnames, -, hstats⟩ :=
    readers_agree_on_plain_patches "a.patch" (onePatch _ nearStart) onePatch_inRange
  refine ⟨onePatch_inRange, ⟨changes, hfiles, hnames.trans ?_⟩, fun linter => (hstats linter).trans ?_⟩
  · rfl
  · rfl

/-- A hunk that starts at line 2 ^ 63 keeps the whole patch from being read as a diff. -/
theorem diff_reader_refuses_far_start :
    (onePatch _ farStart).sections.length = 1 ∧
      PatchLine.countKind .added (Document.ofText "a.patch" (onePatch _ farStart).text).classified = 1 ∧
      Diff.files (onePatch _ farStart).text =
        .error ⟨6, .badRange (.badStart "9223372036854775808" .outOfRange)⟩ ∧
      (Document.ofText "a.patch" (onePatch _ farStart).text).stats = ⟨0, 0, 0⟩ := by
  refine ⟨rfl, ?_, ?_, ?_⟩
  · rfl
  · rfl
  · rfl

end PatchAudit
