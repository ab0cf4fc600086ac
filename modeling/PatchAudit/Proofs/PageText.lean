import PatchAudit.Proofs.FoundIssues
import PatchAudit.Proofs.TaggedText

/-!
# Names and messages on a page

The tags of a page depend on the numbers of issues alone: what stands in front of the sections has the
same tags for all summaries of one verdict, and the sections are put together from tags and texts that
are no markup.  So names and messages are read byte by byte, and they come back from the headings and
the last cells of the rows (`page_text_is_inert`).
-/

namespace PatchAudit

namespace HtmlReport

open Markup
open TaggedText (bytes)

/-! ### The tags of a page -/

/-- The tags in front of the box with the counts. -/
def headTags : List Bytes :=
  ["<!DOCTYPE html>", "<html lang=\"en\">", "<head>", "<meta charset=\"utf-8\">", "<title>", "</title>",
    "<style>", "</style>", "</head>", "<body>", "<h1>", "</h1>"]

/-- The tags of the box with the counts. -/
def boxTags (good : Bool) : List Bytes :=
  ["<div class=\"summary\">", "<span>", "<strong>", "</strong>", "</span>", "<span>", "<strong>",
    "</strong>", "</span>", "<span>",
    if good then "<span class=\"valid\">" else "<span class=\"invalid\">",
    "</span>", "</span>", "</div>"]

/-- The tags of a row. -/
def rowTags : List Bytes :=
  ["<tr>", "<td class=\"check\">", "</td>", "<td>", "</td>", "<td>", "</td>", "</tr>"]

/-- The tags of a heading. -/
def headingTags (good : Bool) : List Bytes :=
  [if good then "<h2 class=\"valid\">" else "<h2 class=\"invalid\">", "<code>", "</code>", "</h2>"]

/-- The tags above the rows. -/
def tableHeadTags : List Bytes :=
  ["<table>", "<thead>", "<tr>", "<th>", "</th>", "<th>", "</th>", "<th>", "</th>", "</tr>", "</thead>",
    "<tbody>"]

/-- The tags below the heading of a report with a number of issues. -/
def bodyTags (issues : Nat) : List Bytes :=
  if issues = 0 then ["<p class=\"valid\">", "</p>"]
  else tableHeadTags ++ (List.replicate issues rowTags).flatten ++
    (["</tbody>", "</table>"] : List Bytes)

/-- The tags of the section of a report with a number of issues. -/
def sectionTags (issues : Nat) : List Bytes := headingTags (issues == 0) ++ bodyTags issues

/-- The tags behind the sections. -/
def footTags : List Bytes := ["<footer>", "<strong>", "</strong>", "</footer>", "</body>", "</html>"]

/-- Whether there are reports and none has issues, by the numbers of issues. -/
def allGood (counts : List Nat) : Bool := !counts.isEmpty && counts.all (· == 0)

/-- The tags of the page of reports with these numbers of issues. -/
def pageTags (counts : List Nat) : List Bytes :=
  headTags ++ boxTags (allGood counts) ++ counts.flatMap sectionTags ++ footTags

theorem isValid_eq (r : FileReport) : r.isValid = (r.issues.length == 0) := by
  rw [FileReport.isValid]
  cases r.issues <;> rfl

theorem isOk_eq (s : Summary) : s.isOk = allGood (s.reports.map fun r => r.issues.length) := by
  have hvalid : (s.validCount == s.totalCount) = s.reports.all FileReport.isValid := by
    rw [Bool.eq_iff_iff, beq_iff_eq, List.all_eq_true]
    exact List.countP_eq_length
  have hsome : decide (0 < s.totalCount) = !(s.reports.map fun r => r.issues.length).isEmpty := by
    unfold Summary.totalCount
    cases s.reports <;> simp
  rw [Summary.isOk, allGood, hvalid, hsome, List.all_map]
  congr 2
  exact funext isValid_eq

/-! ### Names of checks -/

/-- The check of an issue is a known one, if it names one. -/
def KnownCheck (i : Issue) : Prop := i.check = [] ∨ i.check ∈ Check.all.map Check.name

theorem knownCheck_report {o : LintOptions} {d : Document} {i : Issue}
    (h : i ∈ (o.report d).issues) : KnownCheck i := by
  obtain ⟨c, hfound⟩ := LintOptions.finds_of_mem_report h
  rw [KnownCheck, hfound.check_eq]
  exact .inr (List.mem_map_of_mem (by cases c <;> decide))

theorem knownCheck_unreadable {path name why : Bytes} {i : Issue}
    (h : i ∈ (FileReport.unreadable path name why).issues) : KnownCheck i := by
  obtain rfl := List.mem_singleton.mp h
  exact .inl rfl

theorem plain_checkName {i : Issue} (h : KnownCheck i) : ∀ b ∈ i.checkName, IsPlain b := by
  rw [← List.all_iff_forall_prop]
  rcases h with hnone | hnamed
  · rw [Issue.checkName, hnone, IssueKind.word]
    split_ifs <;> decide
  · have hplain : ∀ name ∈ Check.all.map Check.name, (name.all fun b => IsPlain b) = true := by decide
    have hnames : [] ∉ Check.all.map Check.name := by decide
    rw [Issue.checkName, if_neg]
    · exact hplain _ hnamed
    · intro hempty
      exact hnames (List.isEmpty_iff.mp hempty ▸ hnamed)

theorem plain_ofNat (n : Nat) : ∀ b ∈ Bytes.ofNat n, IsPlain b := by
  intro b hb
  have hdigit := Bytes.mem_ofNat hb
  constructor <;> rintro rfl <;> revert hdigit <;> decide

theorem plain_lineColumn (i : Issue) : ∀ b ∈ i.lineColumn, IsPlain b := by
  rw [Issue.lineColumn]
  split_ifs
  · exact List.forall_mem_singleton.mpr (by decide)
  · cases i.line with
    | ofNat n => exact plain_ofNat n
    | negSucc n =>
      have hsign : IsPlain 0x2D := by decide
      exact List.forall_mem_cons.mpr ⟨hsign, plain_ofNat (n + 1)⟩

/-! ### What stands in front of the sections -/

set_option maxRecDepth 2000 in
theorem reads_head : Reads head headTags := by
  apply Reads.of_eq
  · unfold head
    simp only [Bytes.ofString_append]
    -- line by line, so that no long literal is taken apart
    repeat' with_reducible apply Reads.append
    all_goals
      refine Reads.literal rfl ?_
      decide
  · decide

theorem reads_summaryBox (s : Summary) : Reads (summaryBox s) (boxTags s.isOk) := by
  have hstatus : Reads (if s.isOk then Bytes.ofString "<span class=\"valid\">all valid</span>"
      else Bytes.ofString "<span class=\"invalid\">needs attention</span>")
      [if s.isOk then "<span class=\"valid\">" else "<span class=\"invalid\">", "</span>"] := by
    split_ifs <;> decide
  apply Reads.of_eq
  · unfold summaryBox
    repeat' with_reducible apply Reads.append
    all_goals first
      | exact Reads.of_plain (plain_ofNat _)
      | exact hstatus
      | refine Reads.literal rfl ?_
        decide
  · cases s.isOk <;> decide

/-! ### Sections -/

/-- The tags and texts of a heading. -/
def headingTexts (r : FileReport) : List TaggedText :=
  [⟨if r.isValid then "<h2 class=\"valid\">" else "<h2 class=\"invalid\">", []⟩,
    ⟨"<code>", escape r.name⟩, ⟨"</code>", []⟩, ⟨"</h2>", "\n"⟩]

/-- The tags and texts above the rows. -/
def tableHeadTexts : List TaggedText :=
  [⟨"<table>", "\n"⟩, ⟨"<thead>", []⟩, ⟨"<tr>", []⟩, ⟨"<th>", "Check"⟩, ⟨"</th>", []⟩, ⟨"<th>", "Line"⟩,
    ⟨"</th>", []⟩, ⟨"<th>", "Message"⟩, ⟨"</th>", []⟩, ⟨"</tr>", []⟩, ⟨"</thead>", "\n"⟩,
    ⟨"<tbody>", "\n"⟩]

/-- The tags and texts of a row. -/
def rowTexts (i : Issue) : List TaggedText :=
  [⟨"<tr>", []⟩, ⟨"<td class=\"check\">", i.checkName⟩, ⟨"</td>", []⟩, ⟨"<td>", i.lineColumn⟩,
    ⟨"</td>", []⟩, ⟨"<td>", escape i.message⟩, ⟨"</td>", []⟩, ⟨"</tr>", "\n"⟩]

/-- The tags and texts below a heading. -/
def bodyTexts (r : FileReport) : List TaggedText :=
  if r.isValid then [⟨"<p class=\"valid\">", "No issues found."⟩, ⟨"</p>", "\n"⟩]
  else tableHeadTexts ++ r.issues.flatMap rowTexts ++ [⟨"</tbody>", []⟩, ⟨"</table>", "\n"⟩]

/-- The tags and texts of a section. -/
def sectionTexts (r : FileReport) : List TaggedText := headingTexts r ++ bodyTexts r

/-- The tags and texts behind the result line. -/
def endTexts : List TaggedText :=
  [⟨"<strong>", "patchlint"⟩, ⟨"</strong>", []⟩, ⟨"</footer>", "\n"⟩, ⟨"</body>", "\n"⟩,
    ⟨"</html>", "\n"⟩]

/-- The tags and texts behind the sections. -/
def footTexts (s : Summary) : List TaggedText :=
  ⟨"<footer>", escape s.resultLine ++ Bytes.ofString " &middot; generated by "⟩ :: endTexts

theorem heading_bytes (r : FileReport) :
    (heading r).flatMap Markup.render = (headingTexts r).flatMap bytes := by
  unfold heading headingTexts
  cases r.isValid <;>
  · simp only [List.flatMap_cons, List.flatMap_nil, Markup.render, bytes, List.append_assoc]
    rfl

theorem row_bytes (i : Issue) : (row i).flatMap Markup.render = (rowTexts i).flatMap bytes := by
  unfold row rowTexts
  simp only [List.flatMap_cons, List.flatMap_nil, Markup.render, bytes, List.append_assoc]
  rfl

theorem tableHead_bytes : tableHead = tableHeadTexts.flatMap bytes := by
  rw [tableHead, Bytes.ofString_eq rfl]
  decide

theorem section_bytes (r : FileReport) :
    (reportSection r).flatMap Markup.render = (sectionTexts r).flatMap bytes := by
  have hrows : (r.issues.flatMap row).flatMap Markup.render =
      (r.issues.flatMap rowTexts).flatMap bytes := by
    rw [List.flatMap_assoc, List.flatMap_assoc]
    exact congrArg (List.flatMap · r.issues) (funext row_bytes)
  unfold reportSection sectionTexts bodyTexts
  rw [List.flatMap_append, List.flatMap_append, heading_bytes]
  congr 1
  split_ifs
  · decide
  · simp only [List.flatMap_append, hrows, List.flatMap_cons, List.flatMap_nil, Markup.render,
      List.append_nil, tableHead_bytes]
    congr 1

theorem foot_bytes (s : Summary) :
    (foot s).flatMap Markup.render = (footTexts s).flatMap bytes := by
  have hend : Bytes.ofString
      " &middot; generated by <strong>patchlint</strong></footer>\n</body>\n</html>\n" =
      Bytes.ofString " &middot; generated by " ++ endTexts.flatMap bytes := by
    rw [Bytes.ofString_eq rfl]
    decide
  unfold foot footTexts
  simp only [List.flatMap_cons, List.flatMap_nil, Markup.render, bytes, hend, List.append_assoc,
    List.append_nil]

/-! ### What is read from a page -/

theorem map_tag_headingTexts (r : FileReport) :
    (headingTexts r).map TaggedText.tag = headingTags r.isValid := rfl

theorem map_tag_rowTexts (issues : List Issue) : (issues.flatMap rowTexts).map TaggedText.tag =
    (List.replicate issues.length rowTags).flatten := by
  induction issues with
  | nil => rfl
  | cons i rest ih =>
    rw [List.flatMap_cons, List.map_append, ih]
    rfl

theorem map_tag_bodyTexts (r : FileReport) :
    (bodyTexts r).map TaggedText.tag = bodyTags r.issues.length := by
  unfold bodyTexts bodyTags
  rw [isValid_eq]
  by_cases hnone : r.issues.length = 0
  · rw [if_pos (beq_iff_eq.mpr hnone), if_pos hnone]
    rfl
  · rw [if_neg (mt beq_iff_eq.mp hnone), if_neg hnone, List.map_append, List.map_append,
      map_tag_rowTexts]
    rfl

theorem map_tag_sectionTexts (r : FileReport) :
    (sectionTexts r).map TaggedText.tag = sectionTags r.issues.length := by
  rw [sectionTexts, sectionTags, List.map_append, map_tag_headingTexts, map_tag_bodyTexts, isValid_eq]

theorem inert_nil_and_newline : Inert [] ∧ Inert "\n" := by decide

theorem sound_headingTexts (r : FileReport) : ∀ t ∈ headingTexts r, t.Sound := by
  have htags : ∀ good, ∀ tag ∈ headingTags good, IsWholeTag tag := by decide
  refine TaggedText.forall_sound (map_tag_headingTexts r ▸ htags _) ?_
  simp [headingTexts, inert_escape, inert_nil_and_newline]

theorem sound_rowTexts {i : Issue} (h : KnownCheck i) : ∀ t ∈ rowTexts i, t.Sound := by
  have htags : ∀ tag ∈ rowTags, IsWholeTag tag := by decide
  refine TaggedText.forall_sound htags ?_
  simp [rowTexts, inert_escape, inert_of_plain (plain_checkName h),
    inert_of_plain (plain_lineColumn i), inert_nil_and_newline]

theorem sound_sectionTexts {r : FileReport} (h : ∀ i ∈ r.issues, KnownCheck i) :
    ∀ t ∈ sectionTexts r, t.Sound := by
  refine List.forall_mem_append.mpr ⟨sound_headingTexts r, ?_⟩
  unfold bodyTexts
  split_ifs
  · exact TaggedText.forall_sound (by decide) (by decide)
  · refine List.forall_mem_append.mpr ⟨List.forall_mem_append.mpr ⟨?_, ?_⟩, ?_⟩
    · exact TaggedText.forall_sound (by decide) (by decide)
    · exact List.forall_mem_flatMap.mpr fun i hi => sound_rowTexts (h i hi)
    · exact TaggedText.forall_sound (by decide) (by decide)

theorem sound_footTexts (s : Summary) : ∀ t ∈ footTexts s, t.Sound := by
  have htag : IsWholeTag "<footer>" := by decide
  refine List.forall_mem_cons.mpr ⟨⟨htag, (inert_escape _).append (by decide)⟩, ?_⟩
  exact TaggedText.forall_sound (by decide) (by decide)

/-- What is read from a page: the tags and texts in front of the sections, and those that the rest is
put together from. -/
theorem read_render {s : Summary} (h : ∀ i ∈ s.issues, KnownCheck i) :
    read (render s) = read (head ++ summaryBox s) ++
      (s.reports.flatMap sectionTexts ++ footTexts s) := by
  have hfront : Closed (head ++ summaryBox s) := reads_head.closed.append (reads_summaryBox s).closed
  have hsections : ∀ r ∈ s.reports, ∀ t ∈ sectionTexts r, t.Sound := fun r hr =>
    sound_sectionTexts fun i hi => h i (List.mem_flatMap.mpr ⟨r, hr, hi⟩)
  have hrender : render s =
      head ++ summaryBox s ++ (s.reports.flatMap sectionTexts ++ footTexts s).flatMap bytes := by
    have hreports : (s.reports.flatMap reportSection).flatMap Markup.render =
        (s.reports.flatMap sectionTexts).flatMap bytes := by
      rw [List.flatMap_assoc, List.flatMap_assoc]
      exact congrArg (List.flatMap · s.reports) (funext section_bytes)
    rw [render, parts, List.flatMap_append, List.flatMap_append, List.flatMap_append, hreports,
      foot_bytes, List.append_assoc]
    simp only [List.flatMap_cons, List.flatMap_nil, Markup.render, List.append_nil]
  rw [hrender]
  exact read_append_flatMap hfront (List.forall_mem_append.mpr
    ⟨List.forall_mem_flatMap.mpr hsections, sound_footTexts s⟩)

theorem tags_render {s : Summary} (h : ∀ i ∈ s.issues, KnownCheck i) :
    tags (render s) = pageTags (s.reports.map fun r => r.issues.length) := by
  have hfront := (reads_head.append (reads_summaryBox s)).tags
  have hsections : (s.reports.flatMap sectionTexts).map TaggedText.tag =
      (s.reports.map fun r => r.issues.length).flatMap sectionTags := by
    rw [List.map_flatMap, List.flatMap_map]
    exact congrArg (List.flatMap · s.reports) (funext map_tag_sectionTexts)
  rw [← map_tag_read, read_render h, List.map_append, List.map_append, map_tag_read, hfront,
    hsections, pageTags, ← isOk_eq, List.append_assoc]
  rfl

/-- The texts of the headings. -/
def headings (page : Bytes) : List Bytes :=
  ((read page).filter fun t => t.tag == Bytes.ofString "<code>").map TaggedText.text

theorem filter_tag_eq_nil {tag : Bytes} {ts : List TaggedText} (h : tag ∉ ts.map TaggedText.tag) :
    (ts.filter fun t => t.tag == tag) = [] := by
  refine List.filter_eq_nil_iff.mpr fun t ht htag => h ?_
  exact beq_iff_eq.mp htag ▸ List.mem_map_of_mem ht

theorem code_not_mem_bodyTags (issues : Nat) : Bytes.ofString "<code>" ∉ bodyTags issues := by
  unfold bodyTags
  split_ifs
  · decide
  · have hrow : Bytes.ofString "<code>" ∉ rowTags := by decide
    have hhead : Bytes.ofString "<code>" ∉ tableHeadTags := by decide
    have hend : Bytes.ofString "<code>" ∉ (["</tbody>", "</table>"] : List Bytes) := by decide
    intro hmem
    rcases List.mem_append.mp hmem with hmem | hmem
    · rcases List.mem_append.mp hmem with hmem | hmem
      · exact hhead hmem
      · obtain ⟨tags, htags, hmem⟩ := List.mem_flatten.mp hmem
        exact hrow (List.eq_of_mem_replicate htags ▸ hmem)
    · exact hend hmem

theorem filter_sectionTexts (r : FileReport) :
    ((sectionTexts r).filter fun t => t.tag == Bytes.ofString "<code>") =
      [⟨"<code>", escape r.name⟩] := by
  have hbody : Bytes.ofString "<code>" ∉ (bodyTexts r).map TaggedText.tag :=
    map_tag_bodyTexts r ▸ code_not_mem_bodyTags _
  rw [sectionTexts, List.filter_append, filter_tag_eq_nil hbody, headingTexts]
  cases r.isValid <;> rfl

/-- The texts of the cells that are the last of their rows. -/
def lastCells : List TaggedText → List Bytes
  | [] => []
  | t :: rest =>
    if t.tag = "<td>" ∧ (rest.take 2).map TaggedText.tag = ["</td>", "</tr>"] then
      t.text :: lastCells rest
    else lastCells rest

theorem lastCells_append {xs : List TaggedText} (h : Bytes.ofString "<td>" ∉ xs.map TaggedText.tag)
    (ys : List TaggedText) : lastCells (xs ++ ys) = lastCells ys := by
  induction xs with
  | nil => rfl
  | cons t xs ih =>
    obtain ⟨ht, hxs⟩ := not_or.mp (mt List.mem_cons.mpr h)
    rw [List.cons_append, lastCells, if_neg fun hcell => ht hcell.1.symm, ih hxs]

theorem lastCells_row (i : Issue) (ys : List TaggedText) :
    lastCells (rowTexts i ++ ys) = escape i.message :: lastCells ys := rfl

theorem lastCells_rows (issues : List Issue) (ys : List TaggedText) :
    lastCells (issues.flatMap rowTexts ++ ys) =
      (issues.map fun i => escape i.message) ++ lastCells ys := by
  induction issues with
  | nil => rfl
  | cons i rest ih => rw [List.flatMap_cons, List.append_assoc, lastCells_row, ih, List.map_cons,
      List.cons_append]

theorem lastCells_section (r : FileReport) (ys : List TaggedText) :
    lastCells (sectionTexts r ++ ys) = (r.issues.map fun i => escape i.message) ++ lastCells ys := by
  have hheading : ∀ good, Bytes.ofString "<td>" ∉ headingTags good := by decide
  have htable : Bytes.ofString "<td>" ∉ tableHeadTexts.map TaggedText.tag :=
    (by decide : Bytes.ofString "<td>" ∉ tableHeadTags)
  rw [sectionTexts, List.append_assoc,
    lastCells_append (map_tag_headingTexts r ▸ hheading r.isValid), bodyTexts]
  by_cases hvalid : r.isValid = true
  · rw [if_pos hvalid, List.isEmpty_iff.mp hvalid, lastCells_append (by decide)]
    rfl
  · rw [if_neg hvalid, List.append_assoc, List.append_assoc, lastCells_append htable, lastCells_rows,
      lastCells_append (by decide)]

/-- **The names stand in the headings, the messages in the last cells of the rows.** -/
theorem headings_and_lastCells {s : Summary} (h : ∀ i ∈ s.issues, KnownCheck i) :
    headings (render s) = s.reports.map (fun r => escape r.name) ∧
      lastCells (read (render s)) = s.issues.map fun i => escape i.message := by
  have hfront : (read (head ++ summaryBox s)).map TaggedText.tag = headTags ++ boxTags s.isOk := by
    rw [map_tag_read, (reads_head.append (reads_summaryBox s)).tags]
  have hnone : ∀ good, Bytes.ofString "<code>" ∉ headTags ++ boxTags good ∧
      Bytes.ofString "<td>" ∉ headTags ++ boxTags good := by decide
  obtain ⟨hcode, hcell⟩ := hfront ▸ hnone s.isOk
  have hfoot : Bytes.ofString "<code>" ∉ (footTexts s).map TaggedText.tag ∧
      Bytes.ofString "<td>" ∉ (footTexts s).map TaggedText.tag :=
    (by decide : Bytes.ofString "<code>" ∉ footTags ∧ Bytes.ofString "<td>" ∉ footTags)
  constructor
  · have hsections : ((s.reports.flatMap sectionTexts).filter fun t =>
        t.tag == Bytes.ofString "<code>") = s.reports.map fun r => ⟨"<code>", escape r.name⟩ := by
      rw [List.filter_flatMap, List.map_eq_flatMap]
      exact congrArg (List.flatMap · s.reports) (funext filter_sectionTexts)
    rw [headings, read_render h, List.filter_append, List.filter_append, filter_tag_eq_nil hcode,
      filter_tag_eq_nil hfoot.1, hsections, List.nil_append, List.append_nil, List.map_map]
    rfl
  · have hsections : ∀ (reports : List FileReport) (ys : List TaggedText),
        lastCells (reports.flatMap sectionTexts ++ ys) =
          ((reports.flatMap FileReport.issues).map fun i => escape i.message) ++ lastCells ys := by
      intro reports ys
      induction reports with
      | nil => rfl
      | cons r rest ih =>
        rw [List.flatMap_cons, List.append_assoc, lastCells_section, ih, List.flatMap_cons,
          List.map_append, List.append_assoc]
    have hend : lastCells (footTexts s) = [] := by
      have happend := lastCells_append hfoot.2 []
      rwa [List.append_nil] at happend
    rw [read_render h, lastCells_append hcell, hsections, hend, List.append_nil, Summary.issues]

/-! ### The bytes of names and messages -/

/-- The texts among parts. -/
def texts (parts : List Markup) : List Bytes :=
  parts.filterMap fun
    | .text x => some x
    | .raw _ => none

theorem texts_append (ps qs : List Markup) : texts (ps ++ qs) = texts ps ++ texts qs :=
  List.filterMap_append

theorem texts_flatMap {α : Type} (f : α → List Markup) (l : List α) :
    texts (l.flatMap f) = l.flatMap fun a => texts (f a) := List.filterMap_flatMap

/-- Names and messages are the texts of a page, in order, with the result line behind them. -/
theorem texts_parts (s : Summary) : texts (parts s) =
    (s.reports.flatMap fun r => r.name :: r.issues.map Issue.message) ++ [s.resultLine] := by
  have hrows : ∀ l : List Issue, texts (l.flatMap row) = l.map Issue.message := by
    intro l
    rw [texts_flatMap, List.map_eq_flatMap]
    rfl
  have hsection : ∀ r, texts (reportSection r) = r.name :: r.issues.map Issue.message := by
    intro r
    rw [reportSection, texts_append]
    split_ifs with hvalid
    · rw [List.isEmpty_iff.mp hvalid]
      rfl
    · rw [texts_append, texts_append, hrows]
      exact congrArg (r.name :: ·) (List.append_nil _)
  rw [parts, texts_append, texts_append, texts_flatMap, funext hsection]
  rfl

/-- Every part of a page begins and ends in text. -/
theorem closed_parts {s : Summary} (h : ∀ i ∈ s.issues, KnownCheck i) :
    ∀ p ∈ parts s, Closed p.render := by
  have hrow : ∀ i ∈ s.issues, ∀ p ∈ row i, Closed p.render := by
    intro i hi
    have hcheck := (inert_of_plain (plain_checkName (h i hi))).closed
    have hline := (inert_of_plain (plain_lineColumn i)).closed
    have hfront : Closed (Bytes.ofString "<tr><td class=\"check\">" ++ i.checkName ++
        Bytes.ofString "</td><td>" ++ i.lineColumn ++ Bytes.ofString "</td><td>") :=
      ((((by decide : Closed "<tr><td class=\"check\">").append hcheck).append (by decide)).append
        hline).append (by decide)
    simp only [row, List.forall_mem_cons]
    exact ⟨hfront, closed_escape _, by decide, fun _ => nofun⟩
  have hsection : ∀ r ∈ s.reports, ∀ p ∈ reportSection r, Closed p.render := by
    intro r hr
    have hissues : ∀ i ∈ r.issues, i ∈ s.issues := fun i hi => List.mem_flatMap.mpr ⟨r, hr, hi⟩
    refine List.forall_mem_append.mpr ⟨?_, ?_⟩
    · simp only [heading, List.forall_mem_cons]
      refine ⟨?_, closed_escape _, by decide, fun _ => nofun⟩
      cases r.isValid <;> decide
    · split_ifs
      · decide
      · refine List.forall_mem_append.mpr ⟨List.forall_mem_append.mpr ⟨?_, ?_⟩, ?_⟩
        · exact List.forall_mem_singleton.mpr (Reads.literal rfl (by decide)).closed
        · exact List.forall_mem_flatMap.mpr fun i hi => hrow i (hissues i hi)
        · decide
  refine List.forall_mem_append.mpr ⟨List.forall_mem_append.mpr ⟨?_, ?_⟩, ?_⟩
  · simp only [List.forall_mem_cons]
    exact ⟨reads_head.closed, (reads_summaryBox s).closed, fun _ => nofun⟩
  · exact List.forall_mem_flatMap.mpr hsection
  · simp only [foot, List.forall_mem_cons]
    refine ⟨by decide, closed_escape _, ?_, fun _ => nofun⟩
    exact (Reads.literal rfl (by decide)).closed

/-- A text of a page is read byte by byte, each byte as text, and what stands in front of it and behind
it is read as if it were not there. -/
theorem lexemes_render {s : Summary} (h : ∀ i ∈ s.issues, KnownCheck i) {front back : List Markup}
    {x : Bytes} (hparts : parts s = front ++ .text x :: back) :
    lexemes (render s) = lexemes (front.flatMap Markup.render) ++ x.map escapeByte ++
      lexemes (back.flatMap Markup.render) := by
  have hfront : Closed (front.flatMap Markup.render) :=
    (Reads.flatMap (g := fun p => tags p.render) fun p hp =>
      ⟨closed_parts h p (hparts ▸ List.mem_append_left _ hp), rfl⟩).closed
  rw [render, hparts, List.flatMap_append, List.flatMap_cons, lexemes_append hfront, Markup.render,
    lexemes_append (closed_escape x), lexemes_escape, List.append_assoc]

/-- **Names and messages are no markup.**  The tags of a page depend on the number of issues of each
report alone.  Every byte of a name and of a message is read as text, by itself or as a reference that
is whole, and the page around it does not change.  With their references resolved, the headings are the
names and the last cells of the rows are the messages. -/
theorem page_text_is_inert (s : Summary) (h : ∀ i ∈ s.issues, KnownCheck i) :
    tags (render s) = pageTags (s.reports.map fun r => r.issues.length) ∧
    texts (parts s) =
      (s.reports.flatMap fun r => r.name :: r.issues.map Issue.message) ++ [s.resultLine] ∧
    (∀ front x back, parts s = front ++ .text x :: back →
      lexemes (render s) = lexemes (front.flatMap Markup.render) ++ x.map escapeByte ++
        lexemes (back.flatMap Markup.render) ∧
      ∀ l ∈ x.map escapeByte, IsTextLexeme l) ∧
    ∀ refs : References,
      (headings (render s)).map (unescape refs) = s.reports.map FileReport.name ∧
      (lastCells (read (render s))).map (unescape refs) = s.issues.map Issue.message := by
  refine ⟨tags_render h, texts_parts s, ?_, ?_⟩
  · intro front x back hparts
    refine ⟨lexemes_render h hparts, ?_⟩
    intro l hl
    obtain ⟨b, -, rfl⟩ := List.mem_map.mp hl
    exact isTextLexeme_escapeByte b
  · intro refs
    obtain ⟨hheadings, hcells⟩ := headings_and_lastCells h
    rw [hheadings, hcells, List.map_map, List.map_map]
    exact ⟨List.map_congr_left fun r _ => unescape_escape refs r.name,
      List.map_congr_left fun i _ => unescape_escape refs i.message⟩

/-- A patch and a file that cannot be read, with markup in their names and in the reason. -/
def markedSummary : Summary where
  dir := "p"
  reports :=
    [LintOptions.report {} (.ofText "p/<b>&amp;.patch" "x"),
      .unreadable "p/\"a\".patch" "\"a\".patch" "</td><td>'1' & '2'"]

theorem page_text_is_inert_marked :
    tags (render markedSummary) = pageTags [3, 1] ∧
      (headings (render markedSummary)).map (unescape .basic) = ["<b>&amp;.patch", "\"a\".patch"] ∧
      (lastCells (read (render markedSummary))).map (unescape .basic) =
        ["missing proper patch header", "missing file diff markers", "missing diff sections",
          "error reading file: </td><td>'1' & '2'"] := by
  have hknown : ∀ i ∈ markedSummary.issues, KnownCheck i := by
    intro i hi
    obtain ⟨r, hr, hi⟩ := List.mem_flatMap.mp hi
    rcases List.mem_pair.mp hr with rfl | rfl
    · exact knownCheck_report hi
    · exact knownCheck_unreadable hi
  obtain ⟨htags, -, -, hback⟩ := page_text_is_inert markedSummary hknown
  have hcounts : (markedSummary.reports.map fun r => r.issues.length) = [3, 1] := by decide
  refine ⟨hcounts ▸ htags, (hback .basic).1.trans ?_, (hback .basic).2.trans ?_⟩
  · decide
  · decide

end HtmlReport

end PatchAudit
