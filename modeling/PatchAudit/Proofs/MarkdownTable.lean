import PatchAudit.Proofs.OneStory

/-!
# Rows of a Markdown table

A row is a line whose cells stand between bars, and a bar directly behind a backslash is part of a cell.
Names and messages are written as they are, so a line break in one of them breaks its row
(`tableLines_render`), and each bar in one of them gives its row one more cell (`length_cells_text`).
Otherwise the four columns can be read back (`read?_text`).  The tables of all runs and sessions are
judged by that (`markdown_table_reads_back`), and of the messages of the checks only those with a
replacement term in them can fail (`fits_message_iff`).
-/

namespace PatchAudit

namespace MarkdownReport

/-! ### Cutting at bars -/

/-- The parts of a text between its bars, but for those directly behind a backslash.  The reader stands
behind a backslash or not. -/
def cutBars (escaped : Bool) : Bytes → List Bytes
  | [] => [[]]
  | b :: r =>
    if b = 0x7C ∧ escaped = false then [] :: cutBars false r
    else (cutBars (b == 0x5C) r).modifyHead (b :: ·)

/-- The number of the bars at which a text is cut. -/
def bars (escaped : Bool) : Bytes → Nat
  | [] => 0
  | b :: r => if b = 0x7C ∧ escaped = false then bars false r + 1 else bars (b == 0x5C) r

/-- The texts between the first bar of a line and the last one. -/
def cells (line : Bytes) : List Bytes := ((cutBars false line).drop 1).dropLast

theorem length_cutBars (escaped : Bool) (s : Bytes) :
    (cutBars escaped s).length = bars escaped s + 1 := by
  induction s generalizing escaped with
  | nil => rfl
  | cons b s ih =>
    rw [cutBars, bars]
    split_ifs
    · rw [List.length_cons, ih]
    · rw [List.length_modifyHead, ih]

theorem bars_cons_of_ne {b : UInt8} (h : b ≠ 0x7C) (escaped : Bool) (r : Bytes) :
    bars escaped (b :: r) = bars (b == 0x5C) r := if_neg fun hbar => h hbar.1

theorem cutBars_cons_of_ne {b : UInt8} (h : b ≠ 0x7C) (escaped : Bool) (r : Bytes) :
    cutBars escaped (b :: r) = (cutBars (b == 0x5C) r).modifyHead (b :: ·) :=
  if_neg fun hbar => h hbar.1

theorem bars_append_singleton (escaped : Bool) (s : Bytes) {b : UInt8} (h : b ≠ 0x7C) :
    bars escaped (s ++ [b]) = bars escaped s := by
  induction s generalizing escaped with
  | nil => exact bars_cons_of_ne h escaped []
  | cons c s ih => rw [List.cons_append, bars, bars, ih, ih]

/-- What stands in front of a space and a bar, and what stands behind them, are cut by themselves. -/
theorem bars_append (escaped : Bool) (s r : Bytes) :
    bars escaped (s ++ 0x20 :: 0x7C :: r) = bars escaped s + bars false r + 1 := by
  induction s generalizing escaped with
  | nil =>
    rw [List.nil_append, bars_cons_of_ne (by decide), bars, Nat.zero_add]
    rfl
  | cons b s ih =>
    rw [List.cons_append, bars, bars, ih, ih]
    split_ifs <;> omega

theorem cutBars_append {escaped : Bool} {s : Bytes} (h : bars escaped s = 0) (r : Bytes) :
    cutBars escaped (s ++ 0x20 :: 0x7C :: r) = (s ++ [0x20]) :: cutBars false r := by
  induction s generalizing escaped with
  | nil =>
    rw [List.nil_append, cutBars_cons_of_ne (by decide)]
    rfl
  | cons b s ih =>
    rw [bars] at h
    split_ifs at h with hbar
    rw [List.cons_append, cutBars, if_neg hbar, ih h, List.modifyHead_cons]
    rfl

/-- Texts with a space and a bar behind each. -/
def barred (texts : List Bytes) : Bytes := texts.flatMap (· ++ [0x20, 0x7C])

theorem barred_cons (x : Bytes) (texts : List Bytes) :
    barred (x :: texts) = x ++ 0x20 :: 0x7C :: barred texts := by
  rw [barred, List.flatMap_cons, List.append_assoc]
  rfl

theorem bars_barred (texts : List Bytes) :
    bars false (barred texts) = (texts.map (bars false)).sum + texts.length := by
  induction texts with
  | nil => rfl
  | cons x texts ih =>
    rw [barred_cons, bars_append, ih, List.map_cons, List.sum_cons, List.length_cons]
    omega

theorem cutBars_barred {texts : List Bytes} (h : ∀ x ∈ texts, bars false x = 0) :
    cutBars false (barred texts) = texts.map (· ++ [0x20]) ++ [[]] := by
  induction texts with
  | nil => rfl
  | cons x texts ih =>
    obtain ⟨hx, htexts⟩ := List.forall_mem_cons.mp h
    rw [barred_cons, cutBars_append hx, ih htexts]
    rfl

/-! ### Rows -/

/-- A text that stays in its row and in its cell. -/
structure Fits (s : Bytes) : Prop where
  noBreak : 0x0A ∉ s
  noBar : bars false s = 0

instance (s : Bytes) : Decidable (Fits s) :=
  decidable_of_iff (0x0A ∉ s ∧ bars false s = 0)
    ⟨fun ⟨hbreak, hbar⟩ => ⟨hbreak, hbar⟩, fun h => ⟨h.noBreak, h.noBar⟩⟩

theorem fits_congr {x y : Bytes} (hbreak : 0x0A ∈ y ↔ 0x0A ∈ x) (hbars : bars false y = bars false x) :
    Fits y ↔ Fits x := by
  constructor
  · rintro ⟨hnone, hzero⟩
    exact ⟨fun hmem => hnone (hbreak.mpr hmem), hbars ▸ hzero⟩
  · rintro ⟨hnone, hzero⟩
    exact ⟨fun hmem => hnone (hbreak.mp hmem), hbars.trans hzero⟩

namespace Row

variable (r : Row)

/-- What stands in the cells of a row, but for the space at their ends. -/
def columns : List Bytes :=
  [" " ++ r.check, " `" ++ r.patch ++ "`", " " ++ r.line, " " ++ r.message]

/-- A row without its line end. -/
def text : Bytes := 0x7C :: barred r.columns

theorem render_eq : r.render = r.text ++ [0x0A] := by
  rw [text, columns, barred_cons, barred_cons, barred_cons, barred_cons, render]
  simp only [List.append_assoc, List.cons_append]
  rfl

/-- The columns of a row fit exactly if the fields do: what surrounds them has neither bars nor
backslashes. -/
theorem fits_columns_iff : (∀ x ∈ r.columns, Fits x) ↔
    Fits r.check ∧ Fits r.patch ∧ Fits r.line ∧ Fits r.message := by
  have hnone : (0x0A : UInt8) ∉ Bytes.ofString " " ∧ 0x0A ∉ Bytes.ofString " `" ∧
      0x0A ∉ Bytes.ofString "`" := by decide
  have hspace : ∀ x, Fits (Bytes.ofString " " ++ x) ↔ Fits x := fun x =>
    fits_congr (by simp [hnone]) rfl
  have hticks : ∀ x, Fits (Bytes.ofString " `" ++ x ++ Bytes.ofString "`") ↔ Fits x := fun x =>
    fits_congr (by simp [hnone]) (bars_append_singleton false _ (by decide))
  simp only [columns, List.forall_mem_cons, hspace, hticks, List.not_mem_nil, false_imp_iff,
    implies_true, and_true]

theorem length_cells_text : (cells r.text).length = (r.columns.map (bars false)).sum + 4 := by
  have hbars : bars false r.text = (r.columns.map (bars false)).sum + 4 + 1 :=
    congrArg (· + 1) (bars_barred r.columns)
  rw [cells, List.length_dropLast, List.length_drop, length_cutBars, hbars]
  omega

theorem cells_text (h : ∀ x ∈ r.columns, bars false x = 0) :
    cells r.text = r.columns.map (· ++ [0x20]) := by
  have hcut : cutBars false r.text = [] :: cutBars false (barred r.columns) := rfl
  rw [cells, hcut, cutBars_barred h, List.drop_succ_cons, List.drop_zero, List.dropLast_concat]

end Row

/-- A cell without a number of bytes at each end. -/
def strip (n : Nat) (cell : Bytes) : Bytes := (cell.drop n).take (cell.length - 2 * n)

theorem strip_append (front x back : Bytes) (h : back.length = front.length) :
    strip front.length (front ++ x ++ back) = x := by
  have hlength : (front ++ x ++ back).length - 2 * front.length = x.length := by
    rw [List.length_append, List.length_append]
    omega
  rw [strip, hlength, List.append_assoc, List.drop_left, List.take_left]

/-- The row that a line with four cells is. -/
def Row.read? (line : Bytes) : Option Row :=
  match cells line with
  | [check, patch, number, message] =>
    some ⟨strip 1 check, strip 2 patch, strip 1 number, strip 1 message⟩
  | _ => none

theorem Row.read?_text (r : Row) (h : ∀ x ∈ r.columns, bars false x = 0) : read? r.text = some r := by
  have hspace : ∀ x, strip 1 (Bytes.ofString " " ++ x ++ [0x20]) = x := fun x =>
    strip_append (Bytes.ofString " ") x [0x20] rfl
  have hticks : ∀ x, strip 2 (Bytes.ofString " `" ++ x ++ Bytes.ofString "`" ++ [0x20]) = x := by
    intro x
    rw [List.append_assoc]
    exact strip_append (Bytes.ofString " `") x _ rfl
  rw [read?, cells_text r h]
  simp only [columns, List.map_cons, List.map_nil, hspace, hticks]

/-! ### The lines of a table -/

/-- The line with the names of the columns. -/
def columnNames : Bytes := "| Check | Patch | Line | Message |"

/-- The line below the names of the columns. -/
def ruler : Bytes := "|-------|-------|------|---------|"

/-- The lines below the head of the table. -/
def tableLines (page : Bytes) : List Bytes :=
  (((page.splitOn 0x0A).dropWhile (· != ruler)).drop 1).dropLast

theorem splitOn_ended (lines : List Bytes) : (lines.flatMap (· ++ [0x0A])).splitOn 0x0A =
    lines.flatMap (·.splitOn 0x0A) ++ [[]] := by
  induction lines with
  | nil => rfl
  | cons l lines ih =>
    rw [List.flatMap_cons, List.append_assoc, List.singleton_append, List.splitOn_append_cons_self, ih,
      List.flatMap_cons, List.append_assoc]

theorem issueCount_eq (s : Summary) : s.issueCount = (rows s).length := by
  rw [Summary.issueCount, Summary.issues, rows, List.length_flatMap, List.length_flatMap]
  simp

theorem bar_not_mem_ofNat (n : Nat) : 0x7C ∉ Bytes.ofNat n := fun hmem =>
  absurd (Bytes.mem_ofNat hmem) (by decide)

/-- The report of a summary with issues: an introduction without bars, the head and the rows. -/
theorem render_eq_of_issues {s : Summary} (h : s.issueCount ≠ 0) : ∃ intro : Bytes, 0x7C ∉ intro ∧
    render s = intro ++ 0x0A :: (columnNames ++ 0x0A ::
      (ruler ++ 0x0A :: ((rows s).map Row.text).flatMap (· ++ [0x0A]))) := by
  have hwords : (0x7C : UInt8) ∉ Bytes.ofString "## Patch Lint Report\n\n**" ∧
      0x7C ∉ Bytes.ofString "/" ∧ 0x7C ∉ Bytes.ofString "** patches valid, **" ∧
      0x7C ∉ Bytes.ofString "** issues\n" := by
    decide
  have hrows : (rows s).flatMap Row.render = ((rows s).map Row.text).flatMap (· ++ [0x0A]) := by
    rw [List.flatMap_map]
    exact congrArg (List.flatMap · (rows s)) (funext Row.render_eq)
  have hhead : tableHead = columnNames ++ 0x0A :: (ruler ++ [0x0A]) := by
    decide
  have hend : Bytes.ofString "** issues\n\n" = Bytes.ofString "** issues\n" ++ [0x0A] := by decide
  refine ⟨"## Patch Lint Report\n\n**" ++ Bytes.ofNat s.validCount ++ "/" ++ Bytes.ofNat s.totalCount
    ++ "** patches valid, **" ++ Bytes.ofNat s.issueCount ++ "** issues\n", ?_, ?_⟩
  · simp [bar_not_mem_ofNat, hwords]
  · rw [render, if_neg h, hrows, hhead, hend]
    simp only [List.append_assoc, List.cons_append, List.nil_append]

/-- The lines below the head are the rows, cut at the line breaks in them. -/
theorem tableLines_render {s : Summary} (h : s.issueCount ≠ 0) :
    tableLines (render s) = ((rows s).map Row.text).flatMap (·.splitOn 0x0A) := by
  obtain ⟨intro, hintro, hrender⟩ := render_eq_of_issues h
  have hnames : (0x0A : UInt8) ∉ columnNames ∧ columnNames ≠ ruler := by decide
  have hruler : (0x0A : UInt8) ∉ ruler ∧ 0x7C ∈ ruler := by decide
  have habove : ∀ l ∈ intro.splitOn 0x0A ++ [columnNames], (l != ruler) = true := by
    intro l hl
    refine bne_iff_ne.mpr ?_
    rcases List.mem_append.mp hl with hl | hl
    · rintro rfl
      exact hintro ((Bytes.infix_of_mem_splitOn hl).subset hruler.2)
    · rw [List.mem_singleton.mp hl]
      exact hnames.2
  have hsplit : (render s).splitOn 0x0A = intro.splitOn 0x0A ++ [columnNames] ++
      ruler :: (((rows s).map Row.text).flatMap (·.splitOn 0x0A) ++ [[]]) := by
    rw [hrender, List.splitOn_append_cons_self, List.splitOn_append_cons_self_of_not_mem hnames.1,
      List.splitOn_append_cons_self_of_not_mem hruler.1, splitOn_ended, List.append_assoc]
    rfl
  rw [tableLines, hsplit, List.dropWhile_append_of_pos habove,
    List.dropWhile_cons_of_neg (by simp), List.drop_succ_cons, List.drop_zero, List.dropLast_concat]

theorem length_splitOn_eq_one_iff {l : Bytes} : (l.splitOn 0x0A).length = 1 ↔ 0x0A ∉ l := by
  constructor
  · intro hlength
    obtain ⟨part, hpart⟩ := List.length_eq_one_iff.mp hlength
    have hjoin : [0x0A].intercalate (l.splitOn 0x0A) = l := List.intercalate_splitOn _
    rw [hpart, List.intercalate_singleton] at hjoin
    exact hjoin ▸ Bytes.not_mem_of_mem_splitOn (hpart ▸ List.mem_singleton_self part)
  · intro hnone
    rw [List.splitOn_eq_singleton hnone]
    rfl

theorem length_le_length_flatMap_splitOn (lines : List Bytes) :
    lines.length ≤ (lines.flatMap (·.splitOn 0x0A)).length := by
  induction lines with
  | nil => exact Nat.le_refl 0
  | cons l lines ih =>
    have hpos := List.length_pos_of_ne_nil (List.splitOn_ne_nil 0x0A l)
    rw [List.flatMap_cons, List.length_append, List.length_cons]
    omega

/-- Texts give as many lines as they are exactly if none of them has a line break. -/
theorem length_flatMap_splitOn_eq_iff {lines : List Bytes} :
    (lines.flatMap (·.splitOn 0x0A)).length = lines.length ↔ ∀ l ∈ lines, 0x0A ∉ l := by
  induction lines with
  | nil => simp
  | cons l lines ih =>
    have hpos := List.length_pos_of_ne_nil (List.splitOn_ne_nil 0x0A l)
    have hle := length_le_length_flatMap_splitOn lines
    rw [List.forall_mem_cons, ← ih, ← length_splitOn_eq_one_iff, List.flatMap_cons,
      List.length_append, List.length_cons]
    omega

theorem flatMap_splitOn_eq_self {lines : List Bytes} (h : ∀ l ∈ lines, 0x0A ∉ l) :
    lines.flatMap (·.splitOn 0x0A) = lines := by
  induction lines with
  | nil => rfl
  | cons l lines ih =>
    obtain ⟨hl, hlines⟩ := List.forall_mem_cons.mp h
    rw [List.flatMap_cons, List.splitOn_eq_singleton hl, ih hlines]
    rfl

theorem Row.noBreak_text_iff (r : Row) : 0x0A ∉ r.text ↔ ∀ x ∈ r.columns, 0x0A ∉ x := by
  have hbarred : (0x0A : UInt8) ∈ r.text ↔ ∃ x ∈ r.columns, 0x0A ∈ x ++ [0x20, 0x7C] := by
    rw [text, List.mem_cons, barred, List.mem_flatMap]
    exact or_iff_right (by decide)
  rw [hbarred]
  simp

/-- **A table has one line for each issue and four cells in each line** exactly if all its columns
fit. -/
theorem table_iff_fits {s : Summary} (h : s.issueCount ≠ 0) :
    ((tableLines (render s)).length = s.issueCount ∧
      ∀ l ∈ tableLines (render s), (cells l).length = 4) ↔ ∀ r ∈ rows s, ∀ x ∈ r.columns, Fits x := by
  have hlines : (tableLines (render s)).length = s.issueCount ↔
      ∀ l ∈ (rows s).map Row.text, 0x0A ∉ l := by
    rw [tableLines_render h, issueCount_eq, ← length_flatMap_splitOn_eq_iff, List.length_map]
  have hbreaks : (∀ l ∈ (rows s).map Row.text, 0x0A ∉ l) ↔
      ∀ r ∈ rows s, ∀ x ∈ r.columns, 0x0A ∉ x := by
    simp only [List.forall_mem_map, Row.noBreak_text_iff]
  have hbars : ∀ r : Row, (cells r.text).length = 4 ↔ ∀ x ∈ r.columns, bars false x = 0 := by
    intro r
    rw [r.length_cells_text, Nat.add_eq_right, List.sum_eq_zero_iff_forall_eq_nat,
      List.forall_mem_map]
  constructor
  · rintro ⟨hcount, hcells⟩ r hr x hx
    have hnone := hlines.mp hcount
    rw [tableLines_render h, flatMap_splitOn_eq_self hnone] at hcells
    exact ⟨hbreaks.mp hnone r hr x hx,
      (hbars r).mp (hcells r.text (List.mem_map_of_mem hr)) x hx⟩
  · intro hfits
    have hnone := hbreaks.mpr fun r hr x hx => (hfits r hr x hx).noBreak
    refine ⟨hlines.mpr hnone, ?_⟩
    rw [tableLines_render h, flatMap_splitOn_eq_self hnone, List.forall_mem_map]
    exact fun r hr => (hbars r).mpr fun x hx => (hfits r hr x hx).noBar

theorem read?_tableLines {s : Summary} (h : s.issueCount ≠ 0)
    (hfits : ∀ r ∈ rows s, ∀ x ∈ r.columns, Fits x) :
    (tableLines (render s)).map Row.read? = (rows s).map some := by
  have hnone : ∀ l ∈ (rows s).map Row.text, 0x0A ∉ l := by
    rw [List.forall_mem_map]
    exact fun r hr => r.noBreak_text_iff.mpr fun x hx => (hfits r hr x hx).noBreak
  rw [tableLines_render h, flatMap_splitOn_eq_self hnone, List.map_map]
  exact List.map_congr_left fun r hr => r.read?_text fun x hx => (hfits r hr x hx).noBar

/-! ### Tables of runs -/

theorem bars_of_not_mem {s : Bytes} (h : 0x7C ∉ s) (escaped : Bool) : bars escaped s = 0 := by
  induction s generalizing escaped with
  | nil => rfl
  | cons b s ih =>
    obtain ⟨hb, hs⟩ := not_or.mp (mt List.mem_cons.mpr h)
    rw [bars_cons_of_ne (Ne.symm hb), ih hs]

theorem fits_of_not_mem {s : Bytes} (hbreak : 0x0A ∉ s) (hbar : 0x7C ∉ s) : Fits s :=
  ⟨hbreak, bars_of_not_mem hbar false⟩

theorem fits_ofNat (n : Nat) : Fits (Bytes.ofNat n) :=
  fits_of_not_mem (fun hmem => absurd (Bytes.mem_ofNat hmem) (by decide)) (bar_not_mem_ofNat n)

theorem bars_append_of_not_mem {front : Bytes} (hbar : 0x7C ∉ front)
    (hlast : front.getLast? ≠ some 0x5C) (x : Bytes) : bars false (front ++ x) = bars false x := by
  induction front with
  | nil => rfl
  | cons b front ih =>
    obtain ⟨hb, hfront⟩ := not_or.mp (mt List.mem_cons.mpr hbar)
    rw [List.cons_append, bars_cons_of_ne (Ne.symm hb)]
    cases front with
    | nil =>
      have hplain : (b == 0x5C) = false := beq_eq_false_iff_ne.mpr fun heq => hlast (heq ▸ rfl)
      rw [hplain, List.nil_append]
    | cons c front =>
      -- behind a byte that is no bar it does not matter whether that byte was escaped
      have hc : c ≠ 0x7C := fun heq => hfront (heq ▸ List.mem_cons_self)
      rw [← ih hfront (by rwa [List.getLast?_cons_cons] at hlast), List.cons_append,
        bars_cons_of_ne hc, bars_cons_of_ne hc]

/-- The messages of the checks fit, but for those with a replacement that does not. -/
theorem fits_message_iff {o : LintOptions} {d : Document} {i : Issue} (h : i ∈ (o.report d).issues) :
    Fits i.message ↔ (i.check = Check.branding.name → Fits o.branding.replacement) := by
  have hnames : Check.shape.name ≠ Check.branding.name ∧ Check.braces.name ≠ Check.branding.name := by
    decide
  obtain ⟨c, hfound⟩ := LintOptions.finds_of_mem_report h
  cases hfound with
  | @unmet r hr =>
    have hmessages : ∀ text, ∀ r ∈ ShapeCheck.requirements text, 0x0A ∉ r.2 ∧ 0x7C ∉ r.2 := by
      intro text
      simp only [ShapeCheck.requirements, List.forall_mem_cons]
      exact ⟨by decide, by decide, by decide, List.forall_mem_nil _⟩
    obtain ⟨hbreak, hbar⟩ := hmessages _ r hr
    exact iff_of_true (fits_of_not_mem hbreak hbar) fun hname => absurd hname hnames.1
  | unmatched =>
    have hmessage : Fits "unmatched closing brace" := fits_of_not_mem (by decide) (by decide)
    exact iff_of_true hmessage fun hname => absurd hname hnames.2
  | unclosed =>
    have hwords : (0x0A : UInt8) ∉ Bytes.ofString " unclosed braces" ∧
        0x7C ∉ Bytes.ofString " unclosed braces" := by decide
    have hmessage : ∀ n, Fits (Bytes.ofNat n ++ Bytes.ofString " unclosed braces") := fun n =>
      fits_of_not_mem (by simp [(fits_ofNat n).noBreak, hwords.1])
        (by simp [bar_not_mem_ofNat, hwords.2])
    exact iff_of_true (hmessage _) fun hname => absurd hname hnames.2
  | offending =>
    have hfront : 0x0A ∉ Bytes.ofString "inconsistent branding — should use '" ∧
        0x7C ∉ Bytes.ofString "inconsistent branding — should use '" ∧
        (Bytes.ofString "inconsistent branding — should use '").getLast? ≠ some 0x5C := by
      decide
    have hquote : (0x0A : UInt8) ∉ Bytes.ofString "'" := by decide
    have hmessage : ∀ x, Fits (Bytes.ofString "inconsistent branding — should use '" ++ x ++
        Bytes.ofString "'") ↔ Fits x := by
      intro x
      refine fits_congr (by simp [hfront.1, hquote]) ?_
      exact (bars_append_singleton false _ (by decide)).trans
        (bars_append_of_not_mem hfront.2.1 hfront.2.2 x)
    exact (hmessage _).trans ⟨fun hfits _ => hfits, fun hfits => hfits rfl⟩

/-- The check and the line of a plain issue always fit. -/
theorem fits_check_and_line {i : Issue} (h : i.Plain) : Fits i.checkName ∧ Fits i.lineColumn := by
  constructor
  · have hwords : ∀ k ∈ [IssueKind.unreadable, .shape, .braces, .branding],
        0x0A ∉ k.word ∧ 0x7C ∉ k.word := by decide
    obtain ⟨hbreak, hbar⟩ := hwords i.kind h.kind
    rw [h.checkName]
    exact fits_of_not_mem hbreak hbar
  · unfold Issue.lineColumn
    split_ifs
    · exact fits_of_not_mem (by decide) (by decide)
    · obtain ⟨n, hn⟩ := Int.eq_ofNat_of_zero_le h.line
      rw [hn]
      exact fits_ofNat n

theorem fits_rows_iff {s : Summary} (h : ∀ r ∈ s.reports, r.Plain) :
    (∀ row ∈ rows s, ∀ x ∈ row.columns, Fits x) ↔
      ∀ r ∈ s.reports, ∀ i ∈ r.issues, Fits r.name ∧ Fits i.message := by
  have hrow : ∀ r ∈ s.reports, ∀ i ∈ r.issues,
      (∀ x ∈ (Row.ofIssue r.name i).columns, Fits x) ↔ Fits r.name ∧ Fits i.message := by
    intro r hr i hi
    obtain ⟨hcheck, hline⟩ := fits_check_and_line (h r hr i hi)
    rw [Row.fits_columns_iff]
    exact ⟨fun ⟨_, hname, _, hmessage⟩ => ⟨hname, hmessage⟩,
      fun ⟨hname, hmessage⟩ => ⟨hcheck, hname, hline, hmessage⟩⟩
  rw [rows, List.forall_mem_flatMap]
  refine forall₂_congr fun r hr => ?_
  rw [List.forall_mem_map]
  exact forall₂_congr fun i hi => hrow r hr i hi

end MarkdownReport

open MarkdownReport

/-- **The Markdown report of a run is a table with a row of four cells for each issue exactly if no name
and no message on it has a line break or a bar without a backslash in front.**  The check, the name, the
line and the message can then be read back from each row. -/
theorem markdown_table_reads_back (u : Use) (d : Disk) (h : u.Sound d) {s : Summary}
    (hs : s ∈ (u.perform d).2) (hissues : s.issueCount ≠ 0) :
    (((tableLines (render s)).length = s.issueCount ∧
        ∀ l ∈ tableLines (render s), (cells l).length = 4) ↔
      ∀ r ∈ s.reports, ∀ i ∈ r.issues, Fits r.name ∧ Fits i.message) ∧
    ((∀ r ∈ s.reports, ∀ i ∈ r.issues, Fits r.name ∧ Fits i.message) →
      (tableLines (render s)).map Row.read? = (rows s).map some) := by
  have hrows := fits_rows_iff ((Use.plain h).1 s hs)
  exact ⟨(table_iff_fits hissues).trans hrows, fun hfits => read?_tableLines hissues (hrows.mpr hfits)⟩

/-! ### Names with bars -/

/-- A disk with one patch of a given name, which has three issues. -/
def namedDisk (name : Bytes) : Disk := ⟨[(["p"], .folder), (["p", name], .file "x")], []⟩

def namedRun : Use := .run { dir := "p", pattern := "*.patch" } false

theorem namedRun_sound (name : Bytes) : namedRun.Sound (namedDisk name) :=
  ⟨fun _ => nofun, fun _ => nofun⟩

/-- A bar behind a backslash stays in its cell. -/
theorem markdown_table_reads_back_escaped :
    ∃ s ∈ (namedRun.perform (namedDisk "a\\|b.patch")).2, s.issueCount = 3 ∧
      (tableLines (render s)).map Row.read? =
        [some ⟨"structure", "a\\|b.patch", "-", "missing proper patch header"⟩,
          some ⟨"structure", "a\\|b.patch", "-", "missing file diff markers"⟩,
          some ⟨"structure", "a\\|b.patch", "-", "missing diff sections"⟩] := by
  have hrun : (namedRun.perform (namedDisk "a\\|b.patch")).2 =
      [⟨"p", [LintOptions.report {} (.ofText "p/a\\|b.patch" "x")]⟩] := by
    decide +kernel
  refine ⟨_, hrun ▸ List.mem_singleton_self _, by decide +kernel, ?_⟩
  have hread := (markdown_table_reads_back namedRun _ (namedRun_sound "a\\|b.patch")
    (hrun ▸ List.mem_singleton_self _) (by decide +kernel)).2 (by decide +kernel)
  exact hread.trans (by decide +kernel)

/-- Any other bar cuts it, and the issue has five cells. -/
theorem markdown_row_has_five_cells : namedRun.Sound (namedDisk "a|b.patch") ∧
    ∃ s ∈ (namedRun.perform (namedDisk "a|b.patch")).2, s.issueCount = 3 ∧
      (tableLines (render s)).map (fun l => (cells l).length) = [5, 5, 5] := by
  have hrun : (namedRun.perform (namedDisk "a|b.patch")).2 =
      [⟨"p", [LintOptions.report {} (.ofText "p/a|b.patch" "x")]⟩] := by
    decide +kernel
  exact ⟨namedRun_sound _, _, hrun ▸ List.mem_singleton_self _, by decide +kernel, by decide +kernel⟩

end PatchAudit
