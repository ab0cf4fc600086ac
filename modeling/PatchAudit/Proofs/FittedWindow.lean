import PatchAudit.Proofs.BrowserState
import PatchAudit.Proofs.FittingText
import PatchAudit.Proofs.WindowLines

/-!
# When the browser fits its window

The list has a row for each patch, and the panel of the selected patch has one for its heading, a blank
one, one for each issue of the patch as a whole, and those of the lines that are shown, whose number
takes the others into account.  If no text is broken (`Browser.Fits`), the screen is no higher than the
window just when the list and the issues leave enough of it (`Browser.length_screenLines_le_iff`).
-/

namespace PatchAudit

/-! ### Texts without a box -/

namespace Box

variable {s : Bytes}

/-- A text for one line is set as it stands where no width is given. -/
theorem brokenLines_free {b : Box} (hwidth : b.width = 0) (h : s.OneLine) : b.brokenLines s = [s] := by
  have hnot : ∀ x : UInt8, x.toNat < 0x20 → x ∉ s := fun x hx hmem => by
    have hshown := h.noControl x hmem
    omega
  unfold brokenLines
  rw [expandTabs_of_not_mem (hnot 0x09 (by decide)), hwidth,
    Bytes.plainEnds_of_no_return (hnot 0x0D (by decide))]
  simp [List.splitOn_eq_singleton (hnot 0x0A (by decide))]

theorem render_plain (h : s.OneLine) : ({} : Box).render s = s := by
  have hinner : ({} : Box).innerLines s = [s] := by
    unfold innerLines
    rw [brokenLines_free rfl h]
    simp [Bytes.fill]
  have hlines : ({} : Box).lines s = [s] := hinner
  rw [render, hlines]
  simp [Bytes.join]

end Box

namespace Bytes

theorem oneLine_nil : OneLine [] := ⟨rfl, fun _ hb => absurd hb List.not_mem_nil⟩

theorem oneLine_fill (n : Nat) : OneLine (fill n 0x20) where
  utf8 := by
    induction n with
    | zero => rfl
    | succ n ih =>
      rw [fill, List.replicate_succ, isUtf8_cons_ascii (by decide)]
      exact ih
  noControl b hb := by
    rw [List.eq_of_mem_replicate hb]
    decide

theorem cells_fill (n : Nat) : cells (fill n 0x20) = n := by
  induction n with
  | zero => rfl
  | succ n ih =>
    have hstep := @ControlSequence.cellsFrom_ascii (Char.ofNat 0x20) (by decide) (by decide)
      (pieces (fill n 0x20))
    rw [cells, fill, List.replicate_succ, pieces_cons_ascii (by decide)]
    refine hstep.trans ?_
    rw [← cells, ih]
    have hshown : ControlSequence.isShown (Char.ofNat 0x20).toNat.toUInt8 = true := by decide
    rw [if_pos hshown, Nat.add_comm]

end Bytes

namespace Browser

theorem render_heading {name : Bytes} (h : name.OneLine) :
    headingBox.render name = name ++ 0x0A :: Bytes.fill name.cells 0x20 := by
  have hcells : Bytes.cells [] = 0 := rfl
  have hinner : headingBox.innerLines name = [name, Bytes.fill name.cells 0x20] := by
    unfold Box.innerLines
    rw [Box.brokenLines_free rfl h]
    simp [headingBox, Bytes.fill, Box.fillLine, Bytes.widest, hcells]
  have hlines : headingBox.lines name = [name, Bytes.fill name.cells 0x20] := hinner
  rw [Box.render, hlines, Bytes.join, List.intercalate_cons_cons, List.intercalate_singleton,
    List.append_assoc]
  rfl

/-! ### The texts of the screen, line by line -/

variable {b : Browser} {r : FileReport}

/-- What is said about an issue of the patch as a whole. -/
def issueText (i : Issue) : Bytes := "✗ " ++ i.message

/-- The lines below the head of the selected patch: why it cannot be shown, or its lines. -/
def patchBody (b : Browser) (r : FileReport) : List Bytes :=
  match b.loadError with
  | some why => ["cannot show patch: " ++ why]
  | none =>
    if b.shownLines r = [] then [[]] else (b.shownLines r).map fun l => l.render (b.patchWidth - 4)

/-- Every text of the screen fits the line that it gets. -/
structure Fits (b : Browser) : Prop where
  entries : ∀ r ∈ b.reports, Box.FitsIn b.listPanel.room (listEntry b.listWidth r)
  name : ∀ r, b.current? = some r → Box.FitsIn b.patchPanel.room r.name
  issues : ∀ r, b.current? = some r → ∀ i ∈ r.issuesAt 0, Box.FitsIn b.patchPanel.room (issueText i)
  body : ∀ r, b.current? = some r → ∀ l ∈ b.patchBody r, Box.FitsIn b.patchPanel.room l
  status : Box.FitsIn b.statusBox.room b.statusText

/-- The rows of the selected patch if nothing is broken. -/
def patchLinesOf (b : Browser) (r : FileReport) : List Bytes :=
  r.name :: Bytes.fill r.name.cells 0x20 :: ((r.issuesAt 0).map issueText ++ b.patchBody r)

/-- Texts that each end in a line end, in front of others. -/
theorem ended_append_join (ended : List Bytes) {rest : List Bytes} (h : rest ≠ []) :
    (ended.map (· ++ [0x0A])).flatten ++ Bytes.join [0x0A] rest = Bytes.join [0x0A] (ended ++ rest) := by
  induction ended with
  | nil => rfl
  | cons first ended ih =>
    obtain ⟨next, more, hnext⟩ := List.exists_cons_of_ne_nil (List.append_ne_nil_of_right_ne_nil ended h)
    rw [List.map_cons, List.flatten_cons, List.append_assoc, ih, List.cons_append, hnext, Bytes.join,
      Bytes.join, List.intercalate_cons_cons]

theorem patchBody_ne_nil (b : Browser) (r : FileReport) : b.patchBody r ≠ [] := by
  unfold patchBody
  split
  · simp
  · split_ifs with hnone
    · simp
    · simpa using hnone

theorem patchText_eq (h : b.Fits) (hr : b.current? = some r) :
    b.patchText = Bytes.join [0x0A] (b.patchLinesOf r) := by
  have hissues : (fileIssues r).flatten = (((r.issuesAt 0).map issueText).map (· ++ [0x0A])).flatten := by
    rw [fileIssues, List.map_map]
    refine congrArg List.flatten (List.map_congr_left fun i hi => ?_)
    have hplain := Box.render_plain (h.issues r hr i hi).1
    rw [issueText] at hplain
    rw [hplain]
    rfl
  have hhead : patchHead r = ([r.name, Bytes.fill r.name.cells 0x20].map (· ++ [0x0A])).flatten ++
      (((r.issuesAt 0).map issueText).map (· ++ [0x0A])).flatten := by
    rw [patchHead, render_heading (h.name r hr).1, hissues]
    simp
    rfl
  have hbody : b.patchText = patchHead r ++ Bytes.join [0x0A] (b.patchBody r) := by
    have hfits := h.body r hr
    unfold patchText patchBody
    unfold patchBody at hfits
    rw [hr]
    simp only
    cases hload : b.loadError with
    | some why =>
      rw [hload] at hfits
      have hplain := Box.render_plain (hfits _ (List.mem_singleton_self _)).1
      simp only [hplain]
      simp [Bytes.join]
    | none =>
      simp only
      split_ifs with hnone
      · rw [hnone]
        rfl
      · rfl
  rw [hbody, hhead, List.append_assoc, ended_append_join _ (b.patchBody_ne_nil r),
    ended_append_join _ (List.append_ne_nil_of_right_ne_nil _ (b.patchBody_ne_nil r))]
  rfl

/-! ### The rows of the panels -/

theorem listWidth_bounds (b : Browser) : 20 ≤ b.listWidth ∧ b.listWidth ≤ max (b.width.tdiv 3) 20 := by
  unfold listWidth
  extract_lets longest
  omega

theorem patchWidth_ge (hwidth : 80 ≤ b.width) : 53 ≤ b.patchWidth := by
  have hlist := b.listWidth_bounds.2
  rw [Int.tdiv_eq_ediv_of_nonneg (by omega)] at hlist
  unfold patchWidth
  omega

/-- **The rows of the list are its entries**, if nothing is broken. -/
theorem listRows_eq (h : b.Fits) :
    b.listRows = if b.reports = [] then [[]] else b.reports.map (listEntry b.listWidth) := by
  have hwide := b.listWidth_bounds.1
  have hwidth : 0 < b.listPanel.width := by
    have heq : b.listPanel.width = b.listWidth := rfl
    omega
  have hroom : 0 < b.listPanel.room := by
    have heq : b.listPanel.room = (b.listWidth - 2).toNat := rfl
    omega
  by_cases hnone : b.reports = []
  · have hempty : ∀ l ∈ ([[]] : List Bytes), Box.FitsIn b.listPanel.room l := by
      intro l hl
      rw [List.mem_singleton.mp hl]
      exact ⟨Bytes.oneLine_nil, Nat.zero_le _⟩
    rw [if_pos hnone, listRows, listText, hnone]
    exact Box.brokenLines_join hwidth hroom (by simp) hempty
  · have hentries : ∀ l ∈ b.reports.map (listEntry b.listWidth), Box.FitsIn b.listPanel.room l := by
      intro l hl
      obtain ⟨r, hr, rfl⟩ := List.mem_map.mp hl
      exact h.entries r hr
    rw [if_neg hnone, listRows, listText]
    exact Box.brokenLines_join hwidth hroom (by simpa using hnone) hentries

theorem patchPanel_room (hwidth : 80 ≤ b.width) : 0 < b.patchPanel.width ∧ 51 ≤ b.patchPanel.room := by
  have hwide := patchWidth_ge hwidth
  have hpanel : b.patchPanel.width = b.patchWidth := rfl
  have hroom : b.patchPanel.room = (b.patchWidth - 2).toNat := rfl
  omega

/-- **The rows of the selected patch are its texts**, if nothing is broken. -/
theorem patchRows_eq (h : b.Fits) (hwidth : 80 ≤ b.width) (hr : b.current? = some r) :
    b.patchRows = b.patchLinesOf r := by
  obtain ⟨hpanel, hroom⟩ := patchPanel_room hwidth
  rw [patchRows, patchText_eq h hr]
  refine Box.brokenLines_join hpanel (by omega) (by simp [patchLinesOf]) ?_
  intro l hl
  rcases List.mem_cons.mp hl with rfl | hl
  · exact h.name r hr
  rcases List.mem_cons.mp hl with rfl | hl
  · refine ⟨Bytes.oneLine_fill _, ?_⟩
    rw [Bytes.cells_fill]
    exact (h.name r hr).2
  rcases List.mem_append.mp hl with hl | hl
  · obtain ⟨i, hi, rfl⟩ := List.mem_map.mp hl
    exact h.issues r hr i hi
  · exact h.body r hr l hl

theorem length_patchRows_none (hwidth : 80 ≤ b.width) (hr : b.current? = none) :
    b.patchRows.length = 1 := by
  obtain ⟨hpanel, hroom⟩ := patchPanel_room hwidth
  have htext : b.patchText = Bytes.join [0x0A] [Bytes.ofString "No patches"] := by
    rw [patchText, hr]
    simp [Bytes.join]
  have hfits : ∀ l ∈ [Bytes.ofString "No patches"], Box.FitsIn b.patchPanel.room l := by
    intro l hl
    rw [List.mem_singleton.mp hl]
    have hcells : Bytes.cells "No patches" = 10 := by decide +kernel
    exact ⟨by decide +kernel, by omega⟩
  rw [patchRows, htext, Box.brokenLines_join hpanel (by omega) (by simp) hfits]
  rfl

theorem length_statusRows (h : b.Fits) (hwidth : 80 ≤ b.width) : b.statusRows.length = 1 := by
  have hbox : 0 < b.statusBox.width := by
    have heq : b.statusBox.width = b.width := rfl
    omega
  have hroom : 0 < b.statusBox.room := by
    have heq : b.statusBox.room = (b.width - 2).toNat := rfl
    omega
  have hjoin : Bytes.join [0x0A] [b.statusText] = b.statusText := by simp [Bytes.join]
  have hrows := Box.brokenLines_join hbox hroom (List.cons_ne_nil _ _)
    (List.forall_mem_singleton.mpr h.status)
  rw [hjoin] at hrows
  rw [statusRows, hrows]
  rfl

/-- How many lines the body of the selected patch takes: at least one, and else no more than there is
room for below the head. -/
theorem length_patchBody (b : Browser) (r : FileReport) :
    1 ≤ (b.patchBody r).length ∧ ((b.patchBody r).length = 1 ∨
      ((b.patchBody r).length : Int) ≤ b.panelHeight - (2 + (fileIssues r).length)) := by
  refine ⟨List.length_pos_iff.mpr (b.patchBody_ne_nil r), ?_⟩
  unfold patchBody
  split
  · exact .inl rfl
  · split_ifs with hnone
    · exact .inl rfl
    · have hpos : 0 < (b.shownLines r).length := List.length_pos_iff.mpr hnone
      rw [shownLines, visible, List.length_take] at hpos
      rw [List.length_map, shownLines, visible, List.length_take]
      omega

/-! ### Where the texts stand -/

/-- The entry of the selected patch is the row of its place. -/
theorem selected_listRow (h : b.Fits) (hr : b.current? = some r) :
    b.listRows[b.index]? = some (listEntry b.listWidth r) := by
  have hreport : b.reports[b.index]? = some r := hr
  have hsome : b.reports ≠ [] := by
    intro hnone
    rw [hnone] at hreport
    cases hreport
  rw [listRows_eq h, if_neg hsome, List.getElem?_map, hreport]
  rfl

/-- The first line that is shown is the row below the head. -/
theorem first_patchRow (h : b.Fits) (hwidth : 80 ≤ b.width) (hr : b.current? = some r)
    (hload : b.loadError = none) {l : ShownLine} (hl : b.lines[b.offset]? = some l) :
    b.patchRows[(r.issuesAt 0).length + 2]? = some (l.render (b.patchWidth - 4)) := by
  obtain ⟨hlt, hget⟩ := List.getElem?_eq_some_iff.mp hl
  have hdrop : b.lines.drop b.offset = l :: b.lines.drop (b.offset + 1) := by
    rw [List.drop_eq_getElem_cons hlt, hget]
  obtain ⟨n, hn⟩ : ∃ n, (max (b.panelHeight - (2 + ((fileIssues r).length : Int))) 1).toNat = n + 1 :=
    ⟨_, (Nat.succ_pred_eq_of_pos (by omega)).symm⟩
  have hshown : b.shownLines r = l :: (b.lines.drop (b.offset + 1)).take n := by
    rw [shownLines, visible, hdrop, hn, List.take_succ_cons]
  have hbody : b.patchBody r = l.render (b.patchWidth - 4) ::
      ((b.lines.drop (b.offset + 1)).take n).map fun l => l.render (b.patchWidth - 4) := by
    rw [patchBody, hload]
    simp only
    rw [if_neg (by rw [hshown]; simp), hshown, List.map_cons]
  rw [patchRows_eq h hwidth hr, patchLinesOf, List.getElem?_cons_succ, List.getElem?_cons_succ,
    List.getElem?_append_right (by simp), List.length_map, Nat.sub_self, hbody]
  rfl

/-- Whatever has happened to a browser, it is between two events. -/
theorem exists_steady (lexers : Lexers) (summary : Option Summary) (load : Loader)
    (events : List (Loader × BrowserEvent)) :
    ∃ last, ((start lexers load summary).after lexers events).Steady lexers last :=
  ⟨_, (steady_reload load (b := { summary := summary }) (.inl rfl) rfl).after events⟩

/-- **When the screen is no higher than the window**, if nothing is broken: there are at least three
lines more than patches, and at least six more than issues of the selected patch as a whole. -/
theorem length_screenLines_le_iff (h : b.Fits) (hwidth : 80 ≤ b.width) (hheight : 12 ≤ b.height) :
    (b.screenLines.length : Int) ≤ b.height ↔ (b.reports.length : Int) ≤ b.height - 3 ∧
      ∀ r, b.current? = some r → ((r.issuesAt 0).length : Int) ≤ b.height - 6 := by
  have hlength := b.length_screenLines
  rw [length_statusRows h hwidth] at hlength
  have hpanel : b.panelHeight = b.height - 4 := rfl
  have hlist : b.listRows.length = max 1 b.reports.length := by
    rw [listRows_eq h]
    split_ifs with hnone
    · simp [hnone]
    · have hpos := List.length_pos_iff.mpr hnone
      rw [List.length_map]
      omega
  cases hr : b.current? with
  | none =>
    rw [length_patchRows_none hwidth hr] at hlength
    simp only [reduceCtorEq, false_implies, implies_true, and_true]
    omega
  | some r =>
    have hpatch : b.patchRows.length = 2 + (r.issuesAt 0).length + (b.patchBody r).length := by
      rw [patchRows_eq h hwidth hr, patchLinesOf]
      simp only [List.length_cons, List.length_append, List.length_map]
      omega
    have hbody := b.length_patchBody r
    have hissues : (fileIssues r).length = (r.issuesAt 0).length := List.length_map _
    rw [hissues] at hbody
    simp only [Option.some.injEq, forall_eq']
    omega

/-- Where lines are shown, the patch could be loaded. -/
theorem Steady.loadError_eq_none {lexers : Lexers} {last : Option LoadCall}
    (h : b.Steady lexers last) (hlines : b.lines ≠ []) : b.loadError = none := by
  have hshown := h.shown
  unfold Shows at hshown
  cases last with
  | none => exact absurd hshown.2.1 hlines
  | some call =>
    obtain ⟨r, -, -, hanswer⟩ := hshown
    cases hcall : call.answer with
    | error why =>
      rw [hcall] at hanswer
      exact absurd hanswer.1 hlines
    | ok doc =>
      rw [hcall] at hanswer
      exact hanswer.2

end Browser

end PatchAudit
