import Mathlib.Data.List.Basic
import PatchAudit.Browser.View
import PatchAudit.Proofs.Text

/-!
# The lines of the window

The screen of the browser is put together line by line: two panels side by side, each as high as its
text with a border around it, and the status below them.  So the number of its lines is known once the
texts are broken into rows (`length_screenLines`), and every row of a panel stands on the line of its
place (`listRow_placed`, `patchRow_placed`): a window that is too low cuts nothing off, the screen only
gets higher.
-/

namespace PatchAudit

/-! ### Lines without line ends -/

/-- No text of a list goes over more than one line. -/
def NoBreaks (lines : List Bytes) : Prop := ∀ l ∈ lines, 0x0A ∉ l

namespace NoBreaks

theorem nil : NoBreaks [] := fun _ hl => absurd hl List.not_mem_nil

theorem append {a b : List Bytes} (ha : NoBreaks a) (hb : NoBreaks b) : NoBreaks (a ++ b) := by
  intro l hl
  rcases List.mem_append.mp hl with hl | hl
  · exact ha l hl
  · exact hb l hl

theorem map {lines : List Bytes} {f : Bytes → Bytes} (h : NoBreaks lines)
    (hf : ∀ l, 0x0A ∉ l → 0x0A ∉ f l) : NoBreaks (lines.map f) := by
  intro l hl
  obtain ⟨x, hx, rfl⟩ := List.mem_map.mp hl
  exact hf x (h x hx)

theorem replicate (n : Nat) : NoBreaks (List.replicate n []) := by
  intro l hl
  rw [List.eq_of_mem_replicate hl]
  exact List.not_mem_nil

theorem zipWith {a b : List Bytes} (ha : NoBreaks a) (hb : NoBreaks b) :
    NoBreaks (List.zipWith (· ++ ·) a b) := by
  induction a generalizing b with
  | nil => exact nil
  | cons x a ih =>
    cases b with
    | nil => exact nil
    | cons y b =>
      obtain ⟨hx, ha⟩ := List.forall_mem_cons.mp ha
      obtain ⟨hy, hb⟩ := List.forall_mem_cons.mp hb
      refine List.forall_mem_cons.mpr ⟨?_, ih ha hb⟩
      rw [List.mem_append, not_or]
      exact ⟨hx, hy⟩

end NoBreaks

theorem Bytes.newline_not_mem_fill (n : Nat) : 0x0A ∉ Bytes.fill n 0x20 := by
  intro h
  cases List.eq_of_mem_replicate h

theorem Bytes.newline_not_mem_append {s t : Bytes} (hs : 0x0A ∉ s) (ht : 0x0A ∉ t) : 0x0A ∉ s ++ t := by
  rw [List.mem_append, not_or]
  exact ⟨hs, ht⟩

/-! ### Boxes -/

namespace Box

variable {b : Box} {s row : Bytes} {i : Nat}

theorem noBreaks_brokenLines (b : Box) (s : Bytes) : NoBreaks (b.brokenLines s) := by
  intro l hl
  obtain ⟨part, -, hl⟩ := List.mem_flatMap.mp hl
  exact Bytes.not_mem_of_mem_splitOn hl

theorem length_innerLines (b : Box) (s : Bytes) :
    (b.innerLines s).length = max ((b.brokenLines s).length + b.bottomPadding) b.height.toNat := by
  unfold innerLines
  extract_lets side padded full
  have hpadded : padded.length = (b.brokenLines s).length + b.bottomPadding := by simp [padded]
  have hfull : full.length = max ((b.brokenLines s).length + b.bottomPadding) b.height.toNat := by
    rw [List.length_append, List.length_replicate, hpadded]
    omega
  split_ifs
  · exact hfull
  · rw [List.length_map, hfull]

theorem fillLine_left (hleft : b.alignRight = false) (width : Nat) (line : Bytes) :
    ∃ gap, b.fillLine width line = line ++ Bytes.fill gap 0x20 :=
  ⟨width - line.cells, by simp [fillLine, hleft]⟩

/-- A row stands in a box between blanks. -/
theorem getElem?_innerLines (hleft : b.alignRight = false) (hrow : (b.brokenLines s)[i]? = some row) :
    ∃ gap, (b.innerLines s)[i]? =
      some (Bytes.fill b.sidePadding 0x20 ++ row ++ Bytes.fill gap 0x20) := by
  unfold innerLines
  extract_lets side padded full
  have hlt : i < (b.brokenLines s).length := (List.getElem?_eq_some_iff.mp hrow).1
  have hfull : full[i]? = some (side ++ row ++ side) := by
    rw [List.getElem?_append_left (by simp [padded]; omega),
      List.getElem?_append_left (by simpa using hlt), List.getElem?_map, hrow]
    rfl
  split_ifs
  · exact ⟨b.sidePadding, hfull⟩
  · obtain ⟨gap, hgap⟩ := fillLine_left hleft (max (Bytes.widest full) b.width.toNat) (side ++ row ++ side)
    have hblanks : side ++ Bytes.fill gap 0x20 = Bytes.fill (b.sidePadding + gap) 0x20 :=
      List.replicate_append_replicate
    refine ⟨b.sidePadding + gap, ?_⟩
    rw [List.getElem?_map, hfull, Option.map_some, hgap, List.append_assoc, hblanks]

theorem newline_not_mem_fillLine {width : Nat} {line : Bytes} (h : 0x0A ∉ line) :
    0x0A ∉ b.fillLine width line := by
  unfold fillLine
  extract_lets gap
  have hgap : 0x0A ∉ gap := Bytes.newline_not_mem_fill _
  split_ifs
  · exact Bytes.newline_not_mem_append hgap h
  · exact Bytes.newline_not_mem_append h hgap

theorem noBreaks_innerLines (b : Box) (s : Bytes) : NoBreaks (b.innerLines s) := by
  unfold innerLines
  extract_lets side padded full
  have hside : 0x0A ∉ side := Bytes.newline_not_mem_fill _
  have hpadded : NoBreaks padded := by
    refine NoBreaks.append ((noBreaks_brokenLines b s).map fun l hl => ?_) (NoBreaks.replicate _)
    exact Bytes.newline_not_mem_append (Bytes.newline_not_mem_append hside hl) hside
  have hfull : NoBreaks full := hpadded.append (NoBreaks.replicate _)
  split_ifs
  · exact hfull
  · exact hfull.map fun l => newline_not_mem_fillLine

theorem length_border (lines : List Bytes) : (border lines).length = lines.length + 2 := by
  simp [border]

/-- The byte sequence that stands on both sides of a line with a border. -/
def edge : Bytes := "│"

theorem getElem?_border (lines : List Bytes) (hi : i < lines.length) :
    (border lines)[i + 1]? = lines[i]?.map fun l => edge ++ l ++ edge := by
  unfold border
  extract_lets width
  rw [List.append_assoc, List.singleton_append, List.getElem?_cons_succ,
    List.getElem?_append_left (by simpa using hi), List.getElem?_map]
  rfl

theorem newline_not_mem_rule (n : Nat) : 0x0A ∉ rule n '─' := by
  unfold rule Bytes.ofChars
  intro h
  obtain ⟨c, hc, hmem⟩ := List.mem_flatMap.mp h
  rw [List.eq_of_mem_replicate hc] at hmem
  exact absurd hmem (by decide)

theorem noBreaks_border {lines : List Bytes} (h : NoBreaks lines) : NoBreaks (border lines) := by
  unfold border
  extract_lets width
  have hrule := newline_not_mem_rule width
  have hcorner : ∀ left right : Bytes, 0x0A ∉ left → 0x0A ∉ right →
      NoBreaks [left ++ rule width '─' ++ right] := by
    intro left right hl hr l hmem
    rw [List.mem_singleton.mp hmem]
    exact Bytes.newline_not_mem_append (Bytes.newline_not_mem_append hl hrule) hr
  refine ((hcorner _ _ (by decide) (by decide)).append (h.map fun l hl => ?_)).append
    (hcorner _ _ (by decide) (by decide))
  exact Bytes.newline_not_mem_append (Bytes.newline_not_mem_append (by decide) hl) (by decide)

theorem noBreaks_lines (b : Box) (s : Bytes) : NoBreaks (b.lines s) := by
  unfold lines
  split_ifs
  · exact noBreaks_border (noBreaks_innerLines b s)
  · exact noBreaks_innerLines b s

end Box

/-! ### Blocks -/

namespace Layout

theorem length_level (height : Nat) (block : List Bytes) :
    (level height block).length = max height block.length := by
  unfold level
  extract_lets width
  rw [List.length_map, List.length_append, List.length_replicate]
  omega

theorem getElem?_level {height i : Nat} {block : List Bytes} {l : Bytes} (h : block[i]? = some l) :
    ∃ gap, (level height block)[i]? = some (l ++ Bytes.fill gap 0x20) := by
  unfold level
  extract_lets width
  have hlt : i < block.length := (List.getElem?_eq_some_iff.mp h).1
  refine ⟨width - Bytes.cells l, ?_⟩
  rw [List.getElem?_map, List.getElem?_append_left hlt, h]
  rfl

theorem noBreaks_level {height : Nat} {block : List Bytes} (h : NoBreaks block) :
    NoBreaks (level height block) := by
  unfold level
  extract_lets width
  refine (h.append (NoBreaks.replicate _)).map fun l hl => ?_
  exact Bytes.newline_not_mem_append hl (Bytes.newline_not_mem_fill _)

theorem length_zipRows {n : Nat} {blocks : List (List Bytes)} (h : ∀ block ∈ blocks, block.length = n) :
    (blocks.foldr (List.zipWith (· ++ ·)) (List.replicate n [])).length = n := by
  induction blocks with
  | nil => simp
  | cons block blocks ih =>
    obtain ⟨hblock, hrest⟩ := List.forall_mem_cons.mp h
    rw [List.foldr_cons, List.length_zipWith, hblock, ih hrest, Nat.min_self]

theorem getElem?_zipRows {n i : Nat} {blocks : List (List Bytes)}
    (h : ∀ block ∈ blocks, block.length = n) (hi : i < n) :
    (blocks.foldr (List.zipWith (· ++ ·)) (List.replicate n []))[i]? =
      some (blocks.flatMap fun block => block.getD i []) := by
  induction blocks with
  | nil => simp [hi]
  | cons block blocks ih =>
    obtain ⟨hblock, hrest⟩ := List.forall_mem_cons.mp h
    have hline : block[i]? = some (block.getD i []) := by
      rw [List.getD_eq_getElem?_getD, List.getElem?_eq_getElem (by omega)]
      rfl
    rw [List.foldr_cons, List.getElem?_zipWith, hline, ih hrest]
    rfl

theorem noBreaks_zipRows {n : Nat} {blocks : List (List Bytes)} (h : ∀ block ∈ blocks, NoBreaks block) :
    NoBreaks (blocks.foldr (List.zipWith (· ++ ·)) (List.replicate n [])) := by
  induction blocks with
  | nil => exact NoBreaks.replicate n
  | cons block blocks ih =>
    obtain ⟨hblock, hrest⟩ := List.forall_mem_cons.mp h
    exact hblock.zipWith (ih hrest)

/-- The height of blocks side by side. -/
def tallest (blocks : List (List Bytes)) : Nat := (blocks.map List.length).foldl max 0

theorem le_foldl_max (l : List Nat) (m : Nat) : m ≤ l.foldl max m ∧ ∀ n ∈ l, n ≤ l.foldl max m := by
  induction l generalizing m with
  | nil => simp
  | cons x l ih =>
    obtain ⟨hstart, hmem⟩ := ih (max m x)
    rw [List.foldl_cons]
    refine ⟨by omega, List.forall_mem_cons.mpr ⟨by omega, hmem⟩⟩

theorem length_le_tallest {blocks : List (List Bytes)} {block : List Bytes} (h : block ∈ blocks) :
    block.length ≤ tallest blocks :=
  (le_foldl_max _ 0).2 _ (List.mem_map_of_mem h)

theorem length_of_mem_leveled {blocks : List (List Bytes)} :
    ∀ block ∈ blocks.map (level (tallest blocks)), block.length = tallest blocks := by
  intro block hblock
  obtain ⟨x, hx, rfl⟩ := List.mem_map.mp hblock
  rw [length_level, Nat.max_eq_left (length_le_tallest hx)]

theorem length_beside (blocks : List (List Bytes)) : (beside blocks).length = tallest blocks :=
  length_zipRows length_of_mem_leveled

/-- A line of blocks side by side is made of the lines of all of them. -/
theorem getElem?_beside {blocks : List (List Bytes)} {i : Nat} (hi : i < tallest blocks) :
    (beside blocks)[i]? =
      some ((blocks.map (level (tallest blocks))).flatMap fun block => block.getD i []) :=
  getElem?_zipRows length_of_mem_leveled hi

theorem noBreaks_beside {blocks : List (List Bytes)} (h : ∀ block ∈ blocks, NoBreaks block) :
    NoBreaks (beside blocks) := by
  refine noBreaks_zipRows fun block hblock => ?_
  obtain ⟨x, hx, rfl⟩ := List.mem_map.mp hblock
  exact noBreaks_level (h x hx)

theorem length_above (blocks : List (List Bytes)) : (above blocks).length = blocks.flatten.length := by
  unfold above
  extract_lets lines width
  rw [List.length_map]

theorem getElem?_above {blocks : List (List Bytes)} {i : Nat} {l : Bytes}
    (h : blocks.flatten[i]? = some l) : ∃ gap, (above blocks)[i]? = some (l ++ Bytes.fill gap 0x20) := by
  unfold above
  extract_lets lines width
  refine ⟨width - l.cells, ?_⟩
  rw [List.getElem?_map, h]
  rfl

theorem noBreaks_above {blocks : List (List Bytes)} (h : ∀ block ∈ blocks, NoBreaks block) :
    NoBreaks (above blocks) := by
  unfold above
  extract_lets lines width
  have hlines : NoBreaks lines := by
    intro l hl
    obtain ⟨block, hblock, hl⟩ := List.mem_flatten.mp hl
    exact h block hblock l hl
  exact hlines.map fun l hl => Bytes.newline_not_mem_append hl (Bytes.newline_not_mem_fill _)

end Layout

/-! ### The screen -/

namespace Browser

open Box (edge)

variable {b : Browser} {row : Bytes} {i : Nat}

/-- The rows of the list, of the selected patch and of the status. -/
def listRows (b : Browser) : List Bytes := b.listPanel.brokenLines b.listText

def patchRows (b : Browser) : List Bytes := b.patchPanel.brokenLines b.patchText

def statusRows (b : Browser) : List Bytes := b.statusBox.brokenLines b.statusText

theorem length_panel_lines (width height : Int) (s : Bytes) :
    ((panel width height).lines s).length =
      max ((panel width height).brokenLines s).length height.toNat + 2 := by
  have hlines : (panel width height).lines s = Box.border ((panel width height).innerLines s) := rfl
  rw [hlines, Box.length_border, Box.length_innerLines]
  rfl

theorem length_status_lines (b : Browser) :
    (b.statusBox.lines b.statusText).length = b.statusRows.length := by
  have hlines : b.statusBox.lines b.statusText = b.statusBox.innerLines b.statusText := rfl
  rw [hlines, Box.length_innerLines]
  simp [statusRows, statusBox]

/-- The lines of the panels. -/
theorem tallest_panels (b : Browser) :
    Layout.tallest b.panels =
      max (max b.listRows.length b.patchRows.length) b.panelHeight.toNat + 2 := by
  have hlist := length_panel_lines b.listWidth b.panelHeight b.listText
  have hpatch := length_panel_lines b.patchWidth b.panelHeight b.patchText
  rw [← listPanel, ← listRows] at hlist
  rw [← patchPanel, ← patchRows] at hpatch
  simp only [Layout.tallest, panels, List.map_cons, List.map_nil, List.foldl_cons, List.foldl_nil,
    hlist, hpatch, List.length_singleton]
  omega

/-- **How many lines the screen has**: a panel is as high as its rows or as the window leaves room for,
with a border above and below it, and the status comes after the higher one. -/
theorem length_screenLines (b : Browser) : b.screenLines.length =
    max (max b.listRows.length b.patchRows.length) b.panelHeight.toNat + 2 + b.statusRows.length := by
  rw [screenLines, Layout.length_above, List.flatten_cons, List.flatten_cons, List.flatten_nil,
    List.append_nil, List.length_append, Layout.length_beside, tallest_panels, length_status_lines]

/-- What stands in front of a row: the edge of its panel and a blank. -/
def margin : Bytes := "│ "

/-- A row of a panel stands between its edges, a blank away from the left one. -/
theorem getElem?_panel_lines {width height : Int} {s : Bytes}
    (hrow : ((panel width height).brokenLines s)[i]? = some row) :
    ∃ rest, ((panel width height).lines s)[i + 1]? = some (margin ++ row ++ rest) := by
  have hlt : i < ((panel width height).brokenLines s).length := (List.getElem?_eq_some_iff.mp hrow).1
  have hinner : i < ((panel width height).innerLines s).length := by
    rw [Box.length_innerLines]
    omega
  obtain ⟨gap, hgap⟩ := Box.getElem?_innerLines rfl hrow
  have hlines : (panel width height).lines s = Box.border ((panel width height).innerLines s) := rfl
  refine ⟨Bytes.fill gap 0x20 ++ edge, ?_⟩
  rw [hlines, Box.getElem?_border _ hinner, hgap]
  have hmargin : edge ++ Bytes.fill 1 0x20 = margin := by decide
  rw [← hmargin]
  simp only [Option.map_some, panel, List.append_assoc]

/-- A line of a block at the height of the panels. -/
def leveled (b : Browser) (block : List Bytes) (i : Nat) : Bytes :=
  (Layout.level (Layout.tallest b.panels) block).getD i []

theorem leveled_eq {block : List Bytes} {l : Bytes} (h : block[i]? = some l) :
    ∃ gap, b.leveled block i = l ++ Bytes.fill gap 0x20 := by
  obtain ⟨gap, hgap⟩ := Layout.getElem?_level h
  exact ⟨gap, by rw [leveled, List.getD_eq_getElem?_getD, hgap]; rfl⟩

/-- A line of the panels is a line of the screen. -/
theorem getElem?_screenLines (hi : i < Layout.tallest b.panels) :
    ∃ gap, b.screenLines[i]? = some (b.leveled (b.listPanel.lines b.listText) i ++ (b.leveled [" "] i ++
      (b.leveled (b.patchPanel.lines b.patchText) i ++ Bytes.fill gap 0x20))) := by
  have hbeside := Layout.getElem?_beside hi
  have hline : (Layout.beside b.panels)[i]? = some (b.leveled (b.listPanel.lines b.listText) i ++
      (b.leveled [" "] i ++ (b.leveled (b.patchPanel.lines b.patchText) i ++ []))) := hbeside
  obtain ⟨gap, hgap⟩ := @Layout.getElem?_above [Layout.beside b.panels, b.statusBox.lines b.statusText]
    i _ (by
      rw [List.flatten_cons, List.getElem?_append_left (by rwa [Layout.length_beside])]
      exact hline)
  refine ⟨gap, ?_⟩
  rw [screenLines, hgap]
  simp only [List.append_nil, List.append_assoc]

/-- **Every row of the list is on the screen**, at the left edge of the line of its place. -/
theorem listRow_placed (hrow : b.listRows[i]? = some row) :
    ∃ line, b.screenLines[i + 1]? = some line ∧ margin ++ row <+: line := by
  obtain ⟨rest, hline⟩ := getElem?_panel_lines hrow
  have hlt : i < b.listRows.length := (List.getElem?_eq_some_iff.mp hrow).1
  have htall := b.tallest_panels
  obtain ⟨gap, hscreen⟩ := @getElem?_screenLines b (i + 1) (by omega)
  obtain ⟨more, hlevel⟩ := leveled_eq (b := b) hline
  refine ⟨_, hscreen, ?_⟩
  rw [listPanel, hlevel, List.append_assoc, List.append_assoc]
  exact List.prefix_append _ _

/-- **Every row of the selected patch is on the screen**, at the left edge of its panel. -/
theorem patchRow_placed (hrow : b.patchRows[i]? = some row) :
    ∃ line, b.screenLines[i + 1]? = some line ∧ margin ++ row <:+: line := by
  obtain ⟨rest, hline⟩ := getElem?_panel_lines hrow
  have hlt : i < b.patchRows.length := (List.getElem?_eq_some_iff.mp hrow).1
  have htall := b.tallest_panels
  obtain ⟨gap, hscreen⟩ := @getElem?_screenLines b (i + 1) (by omega)
  obtain ⟨more, hlevel⟩ := leveled_eq (b := b) hline
  refine ⟨_, hscreen, ?_⟩
  rw [patchPanel, hlevel, ← List.append_assoc, List.append_assoc _ rest, List.append_assoc _ (rest ++ _)]
  exact List.infix_append' _ _ _

/-! ### The view -/

theorem noBreaks_panels (b : Browser) : ∀ block ∈ b.panels, NoBreaks block := by
  have hblank : NoBreaks [Bytes.ofString " "] :=
    List.forall_mem_singleton.mpr (by decide)
  exact List.forall_mem_cons.mpr ⟨Box.noBreaks_lines _ _,
    List.forall_mem_cons.mpr ⟨hblank, List.forall_mem_singleton.mpr (Box.noBreaks_lines _ _)⟩⟩

theorem noBreaks_screenLines (b : Browser) : NoBreaks b.screenLines := by
  rw [screenLines]
  refine Layout.noBreaks_above (List.forall_mem_cons.mpr ⟨Layout.noBreaks_beside b.noBreaks_panels, ?_⟩)
  exact List.forall_mem_singleton.mpr (Box.noBreaks_lines _ _)

/-- The view is split into the lines of the screen again. -/
theorem splitOn_view (hwidth : b.width ≠ 0) (hheight : b.height ≠ 0) (hhelp : b.help = false) :
    b.view.splitOn 0x0A = b.screenLines := by
  have hlines : b.screenLines ≠ [] := by
    intro hnil
    have hlength := b.length_screenLines
    rw [hnil, List.length_nil] at hlength
    omega
  have hview : b.view = Bytes.join "\n" b.screenLines := by simp [view, hwidth, hheight, hhelp]
  rw [hview]
  exact List.splitOn_intercalate 0x0A b.noBreaks_screenLines hlines

end Browser

end PatchAudit
