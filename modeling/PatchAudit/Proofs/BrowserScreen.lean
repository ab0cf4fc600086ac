import PatchAudit.Proofs.NarrowText

/-!
# How high the screen of the browser is

The rows of the list and of the selected patch all get a line, so with many patches or issues the screen
is higher than its window (`high_screen`).  How high it is follows from the rows (`browser_lines`), and
their number from the texts where none of them is broken, as none is where all are narrow
(`Browser.IsNarrow.fits`).
-/

namespace PatchAudit

namespace Browser

open Bytes (Spans)

variable {lexers : Lexers} {b : Browser} {last : Option LoadCall}

/-- The texts on the screen are of narrow characters, and those of them that are not cut are short
enough. -/
structure IsNarrow (b : Browser) : Prop where
  few : b.reports.length < 1000
  names : ∀ r ∈ b.reports, ∃ n, Spans n r.name
  counts : ∀ r ∈ b.reports, r.issues.length < 1000
  heading : ∀ r, b.current? = some r → r.name.charCount ≤ b.patchPanel.room
  issues : ∀ r, b.current? = some r → ∀ i ∈ r.issuesAt 0,
    ∃ n, Spans n i.message ∧ n + 2 ≤ b.patchPanel.room
  error : ∀ why, b.loadError = some why → ∃ n, Spans n why ∧ n + 19 ≤ b.patchPanel.room
  length : b.lines.length < 100000
  lines : ∀ l ∈ b.lines, l.IsNarrow (b.patchWidth - 4)

instance (b : Browser) : Decidable b.IsNarrow :=
  decidable_of_iff (b.reports.length < 1000 ∧ (∀ r ∈ b.reports, ∃ n, Spans n r.name) ∧
      (∀ r ∈ b.reports, r.issues.length < 1000) ∧
      (∀ r ∈ b.current?, r.name.charCount ≤ b.patchPanel.room) ∧
      (∀ r ∈ b.current?, ∀ i ∈ r.issuesAt 0, ∃ n, Spans n i.message ∧ n + 2 ≤ b.patchPanel.room) ∧
      (∀ why ∈ b.loadError, ∃ n, Spans n why ∧ n + 19 ≤ b.patchPanel.room) ∧
      b.lines.length < 100000 ∧ ∀ l ∈ b.lines, l.IsNarrow (b.patchWidth - 4))
    ⟨fun ⟨h1, h2, h3, h4, h5, h6, h7, h8⟩ => ⟨h1, h2, h3, h4, h5, h6, h7, h8⟩,
      fun h => ⟨h.few, h.names, h.counts, h.heading, h.issues, h.error, h.length, h.lines⟩⟩

/-- Two texts at the ends of a line. -/
theorem spans_apart {m n : Nat} {left right : Bytes} {width : Int} (hleft : Spans m left)
    (hright : Spans n right) (hfits : (m : Int) + n ≤ width) :
    Spans width.toNat
      (left ++ Bytes.fill (width - Bytes.cells left - Bytes.cells right).toNat 0x20 ++ right) := by
  have hline := (hleft.append (Bytes.spans_fill (width - m - n).toNat)).append hright
  have hlength : m + (width - m - n).toNat + n = width.toNat := by omega
  rw [hleft.cells, hright.cells, ← hlength]
  exact hline

/-- The status takes one row. -/
theorem IsNarrow.spans_statusText (h : b.IsNarrow) (hsteady : b.Steady lexers last)
    (hwidth : 80 ≤ b.width) :
    Spans (b.width - 2).toNat b.statusText := by
  have hlength : b.lines.length < 10 ^ 5 := h.length
  have hindex : b.index + 1 < 10 ^ 3 := by
    have hfew := h.few
    rcases hsteady.index with hzero | hlt <;> omega
  have hoffset : b.offset + 1 < 10 ^ 5 := by
    have hlast := hsteady.offset
    omega
  obtain ⟨i, hi, hselected⟩ := Bytes.spans_ofNat hindex (by decide)
  obtain ⟨place, hplace, hline⟩ : ∃ n ≤ 18, Spans n (if b.lines.isEmpty then []
      else "  Line " ++ Bytes.ofNat (b.offset + 1) ++ "/" ++ Bytes.ofNat b.lines.length) := by
    split_ifs
    · exact ⟨0, by decide, Bytes.spans_fill 0⟩
    · obtain ⟨m, hm, hfirst⟩ := Bytes.spans_ofNat hoffset (by decide)
      obtain ⟨n, hn, hall⟩ := Bytes.spans_ofNat hlength (by decide)
      refine ⟨_, ?_, (((Bytes.spans_ascii "  Line " (by decide +kernel)).append hfirst).append
        (Bytes.spans_ascii "/" (by decide +kernel))).append hall⟩
      simp
      omega
  unfold statusText
  cases hsummary : b.summary with
  | none =>
    exact spans_apart (Bytes.spans_fill 0) (Bytes.spans_ascii "? help " (by decide +kernel))
      (by simp; omega)
  | some s =>
    have hreports : b.reports = s.reports := by rw [reports, hsummary]
    have htotal : s.totalCount < 10 ^ 3 := by
      rw [Summary.totalCount, ← hreports]
      exact h.few
    have hvalid : s.validCount < 10 ^ 3 := List.countP_le_length.trans_lt htotal
    obtain ⟨t, ht, htotal⟩ := Bytes.spans_ofNat htotal (by decide)
    obtain ⟨v, hv, hvalid⟩ := Bytes.spans_ofNat hvalid (by decide)
    have hleft := ((((Bytes.spans_ascii " Patch " (by decide +kernel)).append hselected).append
      (Bytes.spans_ascii "/" (by decide +kernel))).append htotal).append hline
    have hresult := ((((Bytes.spans_ascii "Results: " (by decide +kernel)).append hvalid).append
      (Bytes.spans_ascii "/" (by decide +kernel))).append htotal).append
      (Bytes.spans_ascii " patches valid" (by decide +kernel))
    have hright := hresult.append (Bytes.spans_ascii "  ? help " (by decide +kernel))
    exact spans_apart hleft hright (by simp; omega)

/-- **Nothing is broken where the texts are narrow.** -/
theorem IsNarrow.fits (h : b.IsNarrow) (hsteady : b.Steady lexers last) (hwidth : 80 ≤ b.width) :
    b.Fits where
  entries r hr := by
    have hwide := b.listWidth_bounds.1
    obtain ⟨n, hname⟩ := h.names r hr
    have hroom : b.listPanel.room = (b.listWidth - 2).toNat := rfl
    exact (spans_listEntry hname (h.counts r hr) hwide).fitsIn (by omega)
  name r hr := by
    obtain ⟨n, hname⟩ := h.names r (List.mem_of_getElem? hr)
    have hshort := h.heading r hr
    rw [hname.charCount] at hshort
    exact hname.fitsIn hshort
  issues r hr i hi := by
    obtain ⟨n, hmessage, hshort⟩ := h.issues r hr i hi
    exact ((Bytes.spans_ofString "✗ " (by decide +kernel)).append hmessage).fitsIn (by simp; omega)
  body r hr l hl := by
    unfold patchBody at hl
    have hwide := patchWidth_ge hwidth
    have hroom : b.patchPanel.room = (b.patchWidth - 2).toNat := rfl
    split at hl
    · rename_i why hwhy
      obtain ⟨n, htext, hshort⟩ := h.error why hwhy
      rw [List.mem_singleton.mp hl]
      exact ((Bytes.spans_ascii "cannot show patch: " (by decide +kernel)).append htext).fitsIn
        (by simp; omega)
    · split_ifs at hl
      · rw [List.mem_singleton.mp hl]
        exact (Bytes.spans_fill 0).fitsIn (Nat.zero_le _)
      · obtain ⟨line, hline, rfl⟩ := List.mem_map.mp hl
        have hmem := List.mem_of_mem_drop (List.mem_of_mem_take hline)
        obtain ⟨n, hn, hspans⟩ := ShownLine.spans_render (h.lines line hmem) (by omega)
        exact hspans.fitsIn (by omega)
  status := (h.spans_statusText hsteady hwidth).fitsIn (Nat.le_refl _)

end Browser

/-- **The lines of the screen.**  Whatever the lexers and whatever has happened to the browser, in a
window of at least 80 by 12 without the help the screen has as many lines as the higher panel has
rows, or as the window leaves room for if these are more, with the border and the status; and every
row of the list and of the selected patch stands on the line of its place, so nothing is cut off.  If
no text is broken, the screen is no higher than the window exactly if there are at least three lines
more than patches and six more than issues of the selected patch as a whole; the entry of the
selected patch stands on the line of its place, and the first line that is shown on the one below the
head.  And no text is broken if all of them are narrow. -/
theorem browser_lines (lexers : Lexers) (summary : Option Summary) (load : Loader)
    (events : List (Loader × BrowserEvent)) :
    let b := (Browser.start lexers load summary).after lexers events
    let screen := b.view.splitOn 0x0A
    80 ≤ b.width → 12 ≤ b.height → b.help = false →
      (screen.length : Int) =
          max (max (b.listRows.length : Int) b.patchRows.length) (b.height - 4) + 2 +
            b.statusRows.length ∧
      (∀ i row, b.listRows[i]? = some row →
        ∃ line, screen[i + 1]? = some line ∧ Browser.margin ++ row <+: line) ∧
      (∀ i row, b.patchRows[i]? = some row →
        ∃ line, screen[i + 1]? = some line ∧ Browser.margin ++ row <:+: line) ∧
      (b.Fits →
        ((screen.length : Int) ≤ b.height ↔ (b.reports.length : Int) ≤ b.height - 3 ∧
          ∀ r, b.current? = some r → ((r.issuesAt 0).length : Int) ≤ b.height - 6) ∧
        ∀ r, b.current? = some r →
          (∃ line, screen[b.index + 1]? = some line ∧
            Browser.margin ++ Browser.listEntry b.listWidth r <+: line) ∧
          ∀ l, b.lines[b.offset]? = some l →
            ∃ line, screen[(r.issuesAt 0).length + 3]? = some line ∧
              Browser.margin ++ l.render (b.patchWidth - 4) <:+: line) ∧
      (b.IsNarrow → b.Fits) := by
  intro b screen hwidth hheight hhelp
  obtain ⟨last, hsteady⟩ := Browser.exists_steady lexers summary load events
  have hscreen : screen = b.screenLines := Browser.splitOn_view (by omega) (by omega) hhelp
  have hlength := b.length_screenLines
  have hpanel : b.panelHeight = b.height - 4 := rfl
  rw [hscreen]
  refine ⟨by omega, fun i row => Browser.listRow_placed, fun i row => Browser.patchRow_placed,
    fun hfits => ⟨Browser.length_screenLines_le_iff hfits hwidth hheight, fun r hr => ⟨?_, ?_⟩⟩,
    fun hnarrow => hnarrow.fits hsteady hwidth⟩
  · exact Browser.listRow_placed (Browser.selected_listRow hfits hr)
  · intro l hl
    have hlines : b.lines ≠ [] := by
      intro hnone
      rw [hnone] at hl
      cases hl
    have hload := hsteady.loadError_eq_none hlines
    exact Browser.patchRow_placed (Browser.first_patchRow hfits hwidth hr hload hl)

/-- A number of patches of one name. -/
def manyPatches (n : Nat) : Summary := ⟨"p", List.replicate n { path := "p/a.patch", name := "a.patch" }⟩

/-- Finds the same line wherever it looks. -/
def lineLoader : Loader := fun path => .ok (Document.ofText path "x")

/-- Finds the same change of a source file wherever it looks. -/
def changeLoader : Loader := fun path =>
  .ok (Document.ofText path "+++ b/a.go\n@@ -1 +1,2 @@\n x := 1\n+y := 2")

/-- Two patches of narrow texts in the smallest window. -/
theorem browser_lines_two_patches :
    let b := (Browser.start Highlight.standard changeLoader (some (manyPatches 2))).after
      Highlight.standard [(changeLoader, .resize 80 12)]
    (80 ≤ b.width ∧ 12 ≤ b.height ∧ b.help = false) ∧ b.IsNarrow ∧ b.Fits ∧
      ((b.view.splitOn 0x0A).length : Int) ≤ b.height := by
  intro b
  have hsize : 80 ≤ b.width ∧ 12 ≤ b.height ∧ b.help = false := by decide +kernel
  have hnarrow : b.IsNarrow := by decide +kernel
  obtain ⟨-, -, -, hlines, hfits⟩ := browser_lines Highlight.standard (some (manyPatches 2))
    changeLoader [(changeLoader, .resize 80 12)] hsize.1 hsize.2.1 hsize.2.2
  have hleft : (b.reports.length : Int) ≤ b.height - 3 ∧
      ∀ r ∈ b.current?, ((r.issuesAt 0).length : Int) ≤ b.height - 6 := by decide +kernel
  exact ⟨hsize, hnarrow, hfits hnarrow, (hlines (hfits hnarrow)).1.mpr hleft⟩

/-- Ten patches are listed in a window of twelve lines, and the screen has thirteen. -/
theorem high_screen :
    let b := (Browser.start Highlight.standard lineLoader (some (manyPatches 10))).after
      Highlight.standard [(lineLoader, .resize 80 12)]
    80 ≤ b.width ∧ 12 ≤ b.height ∧ b.help = false ∧ b.height < ((b.view.splitOn 0x0A).length : Int) := by
  decide +kernel

end PatchAudit
