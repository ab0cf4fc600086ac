import PatchAudit.Proofs.BraceWalk
import PatchAudit.Proofs.ClassifiedLines

/-!
# A line put in between

A line that adds nothing and opens no hunk leaves the kinds of all others as they are and moves the
numbers of those below it (`PatchLine.classify_insert`).  The brace check keeps its state on such a line
(`BraceScan.step_idle`), and otherwise a check sees the number of a line only to put it on an issue
(`BraceScan.run_lowered`).  So neither check of added code takes notice of the line
(`added_code_alone_counts`).
-/

namespace PatchAudit

/-- A line one place further down. -/
def PatchLine.lowered (l : PatchLine) : PatchLine := { l with number := l.number + 1 }

/-- An issue one place further down if it stands below line `n`, and else as it is. -/
def Issue.lowered (n : Nat) (i : Issue) : Issue :=
  if (n : Int) < i.line then { i with line := i.line + 1 } else i

theorem Issue.lowered_of_le {n : Nat} {i : Issue} (h : i.line ≤ n) : i.lowered n = i :=
  if_neg (by omega)

/-! ### Classes -/

namespace PatchLine

theorem classifyFrom_succ (inside : Bool) (number : Nat) (lines : List Bytes) :
    classifyFrom inside (number + 1) lines = (classifyFrom inside number lines).map lowered :=
  classifyFrom_add inside number 1 lines

/-- **A line put in between** that opens no hunk, unless one is open, moves the lines below it down and
changes nothing else. -/
theorem classify_insert {above below : List Bytes} {x : Bytes} {l : PatchLine}
    (hl : (classify (above ++ [x] ++ below))[above.length]? = some l)
    (hhunk : l.kind = .hunkMarker → ∃ m ∈ classify above, m.kind = .hunkMarker) :
    ∃ rest : List PatchLine, (∀ m ∈ rest, above.length < m.number) ∧
      classify (above ++ below) = classify above ++ rest ∧
      classify (above ++ [x] ++ below) = classify above ++ l :: rest.map lowered := by
  set inside := (classify above).any (·.kind == .hunkMarker) with hinside
  have hsplit : ∀ lines, classify (above ++ lines) =
      classify above ++ classifyFrom inside (1 + above.length) lines := fun lines => by
    rw [classify, classifyFrom_append, Bool.false_or]
    rfl
  have hafter : classify (above ++ [x] ++ below) =
      classify above ++ ⟨1 + above.length, x, (sortOut inside x).1, (sortOut inside x).2⟩ ::
        classifyFrom (inside || (sortOut inside x).1 == .hunkMarker) (1 + above.length + 1) below := by
    rw [List.append_assoc, hsplit]
    rfl
  have hlength : (classify above).length = above.length := length_classifyFrom false 1 above
  rw [hafter, List.getElem?_append_right (by omega), hlength, Nat.sub_self, List.getElem?_cons_zero,
    Option.some.injEq] at hl
  have hflag : (inside || (sortOut inside x).1 == .hunkMarker) = inside := by
    rw [Bool.or_eq_left_iff_imp, beq_iff_eq, hinside, List.any_eq_true]
    intro hmarker
    obtain ⟨m, hm, hkind⟩ := hhunk (by rw [← hl]; exact hmarker)
    exact ⟨m, hm, beq_iff_eq.mpr hkind⟩
  refine ⟨classifyFrom inside (1 + above.length) below, fun m hm => ?_, hsplit below, ?_⟩
  · obtain ⟨i, hi⟩ := List.getElem?_of_mem hm
    have hnumber := number_of_getElem? hi
    omega
  · rw [hafter, hl, hflag, classifyFrom_succ]

end PatchLine

/-! ### The brace check -/

namespace BraceScan

variable {marks : List Bytes} {n : Nat}

/-- A line that adds nothing and opens no hunk leaves the check where it is. -/
theorem step_idle {s : BraceScan} {l : PatchLine} (hadded : l.kind ≠ .added)
    (hhunk : l.kind = .hunkMarker → s.insideHunk = true) : step marks s l = (s, none) := by
  unfold step
  split_ifs with hmarker
  · rw [← hhunk hmarker]
  · rw [BraceCount.ofLine?, if_neg fun hcounts => hadded hcounts.1]

theorem run_insideHunk (marks : List Bytes) (s : BraceScan) (lines : List PatchLine) :
    (run marks s lines).2.insideHunk = (s.insideHunk || lines.any (·.kind == .hunkMarker)) := by
  induction lines generalizing s with
  | nil => exact (Bool.or_false _).symm
  | cons l rest ih => rw [run_cons, ih, step_insideHunk, List.any_cons, Bool.or_assoc]

/-- One step on a line that has moved down. -/
theorem step_lowered {l : PatchLine} (h : n < l.number) (s : BraceScan) :
    step marks s l.lowered = ((step marks s l).1, (step marks s l).2.map (Issue.lowered n)) := by
  have hcount : BraceCount.ofLine? marks l.lowered = BraceCount.ofLine? marks l := rfl
  have hissue : issue l.lowered.number "unmatched closing brace" =
      (issue l.number "unmatched closing brace").lowered n :=
    (if_pos (Int.ofNat_lt.mpr h)).symm
  rw [step, step, hcount, hissue]
  show (if l.kind = .hunkMarker then _ else _) = _
  split_ifs with hmarker
  · rfl
  · cases BraceCount.ofLine? marks l with
    | none => rfl
    | some c =>
      simp only
      split_ifs <;> rfl

/-- All steps on lines that have moved down. -/
theorem run_lowered {lines : List PatchLine} (h : ∀ l ∈ lines, n < l.number) (s : BraceScan) :
    run marks s (lines.map PatchLine.lowered) =
      ((run marks s lines).1.map (Issue.lowered n), (run marks s lines).2) := by
  induction lines generalizing s with
  | nil => rfl
  | cons l rest ih =>
    obtain ⟨hl, hrest⟩ := List.forall_mem_cons.mp h
    rw [List.map_cons, run_cons, run_cons, step_lowered hl, ih hrest, List.map_append]
    cases (step marks s l).2 <;> rfl

/-- The issues on lines that stay where they are. -/
theorem map_lowered_run {lines : List PatchLine} (h : ∀ l ∈ lines, l.number ≤ n) (s : BraceScan) :
    (run marks s lines).1.map (Issue.lowered n) = (run marks s lines).1 := by
  refine (List.map_congr_left fun i hi => ?_).trans (List.map_id _)
  obtain ⟨l, hl, -, rfl⟩ := eq_of_mem_run hi
  exact Issue.lowered_of_le (Int.ofNat_le.mpr (h l hl))

theorem map_lowered_final? (n : Nat) (s : BraceScan) :
    s.final?.toList.map (Issue.lowered n) = s.final?.toList := by
  refine (List.map_congr_left fun i hi => ?_).trans (List.map_id _)
  have hwhole := isFileLevel_of_final? hi
  rw [Issue.isFileLevel, decide_eq_true_eq] at hwhole
  exact Issue.lowered_of_le (by omega)

/-- **The brace check takes no notice** of a line that adds nothing and opens no hunk. -/
theorem scan_insert {above rest : List PatchLine} {l : PatchLine} (habove : ∀ m ∈ above, m.number ≤ n)
    (hrest : ∀ m ∈ rest, n < m.number) (hadded : l.kind ≠ .added)
    (hhunk : l.kind = .hunkMarker → ∃ m ∈ above, m.kind = .hunkMarker) :
    scan marks (above ++ l :: rest.map PatchLine.lowered) =
      ((scan marks (above ++ rest)).1.map (Issue.lowered n), (scan marks (above ++ rest)).2) := by
  have hstep : step marks (run marks {} above).2 l = ((run marks {} above).2, none) := by
    refine step_idle hadded fun hmarker => ?_
    obtain ⟨m, hm, hkind⟩ := hhunk hmarker
    rw [run_insideHunk, Bool.false_or, List.any_eq_true]
    exact ⟨m, hm, beq_iff_eq.mpr hkind⟩
  have hlast : (run marks {} (above ++ l :: rest.map PatchLine.lowered)).2 =
      (run marks {} (above ++ rest)).2 := by
    rw [run_append, run_append, run_cons, hstep, run_lowered hrest]
  have hissues : (run marks {} (above ++ l :: rest.map PatchLine.lowered)).1 =
      (run marks {} (above ++ rest)).1.map (Issue.lowered n) := by
    rw [run_append_issues, run_append_issues, run_cons, hstep, run_lowered hrest, List.map_append,
      map_lowered_run habove]
    rfl
  simp only [scan, hissues, hlast, List.map_append, map_lowered_final?]

end BraceScan

/-! ### The branding check -/

theorem BrandingRule.issues_insert {b : BrandingRule} {name : Bytes} {n : Nat}
    {above rest : List PatchLine} {l : PatchLine} (habove : ∀ m ∈ above, m.number ≤ n)
    (hrest : ∀ m ∈ rest, n < m.number) (hadded : l.kind ≠ .added) :
    b.issues name (above ++ l :: rest.map PatchLine.lowered) =
      (b.issues name (above ++ rest)).map (Issue.lowered n) := by
  unfold issues
  split_ifs
  · have hidle : ¬ (l.kind == .added && b.offends l.payload) = true := by
      rw [Bool.and_eq_true, beq_iff_eq]
      exact fun h => hadded h.1
    have hstay : ∀ m ∈ above, (b.issue m.number).lowered n = b.issue m.number :=
      fun m hm => Issue.lowered_of_le (Int.ofNat_le.mpr (habove m hm))
    have hmove : ∀ m ∈ rest, (b.issue m.number).lowered n = b.issue m.lowered.number :=
      fun m hm => if_pos (Int.ofNat_lt.mpr (hrest m hm))
    rw [List.filter_append, List.filter_append, List.filter_cons, if_neg hidle, List.filter_map,
      List.map_append, List.map_append, List.map_append, List.map_map, List.map_map, List.map_map]
    congr 1
    · exact List.map_congr_left fun m hm => (hstay m (List.mem_of_mem_filter hm)).symm
    · exact List.map_congr_left fun m hm => (hmove m (List.mem_of_mem_filter hm)).symm
  · rfl

/-! ### Both checks -/

/-- After a line has been put in below the first `n`, both checks of added code report what they did
before, the lines below it one place further down. -/
structure LowersIssues (n : Nat) (before after : List PatchLine) : Prop where
  braces : ∀ marks : List Bytes, (BraceScan.scan marks after).1 =
    (BraceScan.scan marks before).1.map (Issue.lowered n)
  branding : ∀ (b : BrandingRule) (name : Bytes),
    b.issues name after = (b.issues name before).map (Issue.lowered n)

theorem LowersIssues.of_idle {above below : List Bytes} {x : Bytes} {l : PatchLine}
    (hl : (PatchLine.classify (above ++ [x] ++ below))[above.length]? = some l)
    (hadded : l.kind ≠ .added)
    (hhunk : l.kind = .hunkMarker → ∃ m ∈ PatchLine.classify above, m.kind = .hunkMarker) :
    LowersIssues above.length (PatchLine.classify (above ++ below))
      (PatchLine.classify (above ++ [x] ++ below)) := by
  obtain ⟨rest, hrest, hbefore, hafter⟩ := PatchLine.classify_insert hl hhunk
  have habove : ∀ m ∈ PatchLine.classify above, m.number ≤ above.length := by
    intro m hm
    exact (PatchLine.place_of_mem_classify hm).2.1
  rw [hbefore, hafter]
  refine ⟨fun marks => ?_, fun b name => BrandingRule.issues_insert habove hrest hadded⟩
  rw [BraceScan.scan_insert habove hrest hadded hhunk]

/-- **Only added code counts.**  A line is put in between two lists of lines, anywhere in a file.  If it
does not begin with a plus sign, unless with that of a file marker, and does not begin as a hunk marker,
unless there is one above it, then for every file name and all options the issues of the brace check and
of the branding check stay the same, but that those below the line move down by one.  So it is for all
removed lines, context lines, header lines, file markers and further hunk markers. -/
theorem added_code_alone_counts (above below : List Bytes) (x : Bytes) :
    ((("+" : Bytes) <+: x → ("+++" : Bytes) <+: x) →
      (("@@" : Bytes) <+: x → ∃ m ∈ PatchLine.classify above, m.kind = .hunkMarker) →
      LowersIssues above.length (PatchLine.classify (above ++ below))
        (PatchLine.classify (above ++ [x] ++ below))) ∧
    ∀ l, (PatchLine.classify (above ++ [x] ++ below))[above.length]? = some l → l.kind ≠ .added →
      (l.kind = .hunkMarker → ∃ m ∈ PatchLine.classify above, m.kind = .hunkMarker) →
      LowersIssues above.length (PatchLine.classify (above ++ below))
        (PatchLine.classify (above ++ [x] ++ below)) := by
  refine ⟨fun hplus hat => ?_, fun l hl hadded hhunk => .of_idle hl hadded hhunk⟩
  have hx : (above ++ [x] ++ below)[above.length]? = some x := by simp
  have hl := PatchLine.getElem?_classifyFrom false 1 (above ++ [x] ++ below) above.length
  rw [hx, Option.map_some] at hl
  refine .of_idle hl (fun hadded => ?_) fun hmarker => ?_
  · obtain ⟨-, hsign, hplain⟩ := PatchLine.sortOut_added_iff.mp (Prod.ext hadded rfl)
    exact hplain (hplus ⟨_, hsign.symm⟩)
  · exact hat (PatchLine.sortOut_hunkMarker_iff.mp hmarker)

/-- A further hunk marker, and then a removed line with a brace, between an opened brace and two that
are closed. -/
theorem added_code_alone_counts_between :
    let above : List Bytes := ["@@ -1 +1,3 @@", "+f() \x7b"]
    let below : List Bytes := ["+Chrome", "+\x7d\x7d"]
    let marker : Bytes := "@@ -9 +9 @@"
    let removed : PatchLine := ⟨3, "-\x7d", .removed, "\x7d"⟩
    (("+" : Bytes) <+: marker → ("+++" : Bytes) <+: marker) ∧
      (("@@" : Bytes) <+: marker → ∃ m ∈ PatchLine.classify above, m.kind = .hunkMarker) ∧
      (PatchLine.classify (above ++ [removed.raw] ++ below))[above.length]? = some removed ∧
      ∀ x ∈ [marker, removed.raw],
        (BraceScan.scan [] (PatchLine.classify (above ++ [x] ++ below))).1 =
          [BraceScan.issue 5 "unmatched closing brace"] ∧
        BrandingRule.standard.issues "branding.patch" (PatchLine.classify (above ++ [x] ++ below)) =
          [BrandingRule.standard.issue 4] := by
  intro above below marker removed
  have hplus : ("+" : Bytes) <+: marker → ("+++" : Bytes) <+: marker := by decide
  have hat : ("@@" : Bytes) <+: marker → ∃ m ∈ PatchLine.classify above, m.kind = .hunkMarker :=
    fun _ => by decide
  have hremoved : (PatchLine.classify (above ++ [removed.raw] ++ below))[above.length]? = some removed := by
    decide
  have hbraces : (BraceScan.scan [] (PatchLine.classify (above ++ below))).1 =
      [BraceScan.issue 4 "unmatched closing brace"] := by decide
  have hbranding : BrandingRule.standard.issues "branding.patch"
      (PatchLine.classify (above ++ below)) = [BrandingRule.standard.issue 3] := by decide +kernel
  refine ⟨hplus, hat, hremoved, fun x hx => ?_⟩
  have hlowers : LowersIssues above.length (PatchLine.classify (above ++ below))
      (PatchLine.classify (above ++ [x] ++ below)) := by
    simp only [List.mem_cons, List.not_mem_nil, or_false] at hx
    rcases hx with rfl | rfl
    · exact (added_code_alone_counts above below marker).1 hplus hat
    · exact (added_code_alone_counts above below removed.raw).2 removed hremoved (by decide) (by decide)
  refine ⟨?_, ?_⟩
  · rw [hlowers.braces, hbraces]
    rfl
  · rw [hlowers.branding, hbranding]
    rfl

end PatchAudit
