import Mathlib.Data.List.TakeWhile
import PatchAudit.Patch.Target
import PatchAudit.Proofs.Characters
import PatchAudit.Proofs.ClassifiedLines

/-!
# The file that a section names

A patch is a row of sections, each with a marker for the old and one for the new side of its file,
and then its hunks.  The target of the lines of a section depends on the target that stands when the
section begins: a marker of the new side puts its name in place, one of the old side does so only
while there is no target (`Change.targetAfter`).  So the lines go to the file that the section is
about, except for a deleted file below a section of another file and for one whose path looks like
that of a new side (`section_lines_target`).
-/

namespace PatchAudit

/-! ### Patches in sections -/

/-- A path that may stand behind the `a/` or `b/` of a marker. -/
structure SidePath where
  text : Bytes
  ne_nil : text ≠ []
  noBlank : ∀ c ∈ Bytes.pieces text, c.isBlank = false

/-- What happens to a file: the paths of its sides, of which at most one is missing. -/
inductive Change where
  | created (new : SidePath)
  | deleted (old : SidePath)
  | modified (old new : SidePath)

namespace Change

/-- The marker of the old side. -/
def oldMarker : Change → Bytes
  | created _ => "--- " ++ Path.nowhere
  | deleted old | modified old _ => "--- " ++ ("a/" ++ old.text)

/-- The marker of the new side. -/
def newMarker : Change → Bytes
  | created new | modified _ new => "+++ " ++ ("b/" ++ new.text)
  | deleted _ => "+++ " ++ Path.nowhere

/-- The file that a change is about: the new side, or the old one if there is no new one. -/
def file : Change → Bytes
  | created new | modified _ new => new.text
  | deleted old => old.text

end Change

/-- A hunk: its marker, and lines of which none is the marker of a side. -/
structure LooseHunk where
  marker : Bytes
  content : List Bytes
  isMarker : PatchLine.hunkMark.isPrefixOf marker = true
  noSide : ∀ l ∈ content, Bytes.startsWithAny PatchLine.fileMarks l = false

/-- The lines of a hunk. -/
def LooseHunk.lines (h : LooseHunk) : List Bytes := h.marker :: h.content

/-- The section of a file: lines of a header, the two markers and the hunks. -/
structure ChangeSection where
  header : List Bytes := []
  change : Change
  hunks : List LooseHunk
  noSide : ∀ l ∈ header, Bytes.startsWithAny PatchLine.fileMarks l = false := by simp

namespace ChangeSection

/-- The lines of the hunks. -/
def body (s : ChangeSection) : List Bytes := s.hunks.flatMap LooseHunk.lines

/-- The lines above the hunks. -/
def front (s : ChangeSection) : List Bytes := s.header ++ [s.change.oldMarker, s.change.newMarker]

/-- The lines of a section. -/
def lines (s : ChangeSection) : List Bytes := s.front ++ s.body

end ChangeSection

/-! ### Names of markers -/

namespace Bytes

theorem pieces_spaced {s : Bytes} : pieces (0x20 :: s) = .char ' ' :: pieces s :=
  pieces_cons_ascii (by decide) s

/-- Trimming takes the blank in front away, and no more if there is no other. -/
theorem trim_spaced {s : Bytes} (h : ∀ c ∈ pieces s, c.isBlank = false) : trim (0x20 :: s) = s := by
  have hkeep : ∀ cs : List Piece, (∀ c ∈ cs, c.isBlank = false) → cs.dropWhile Piece.isBlank = cs :=
    fun cs hcs => List.dropWhile_eq_self_iff.mpr fun hne => by simp [hcs _ (List.getElem_mem hne)]
  have hback : ∀ c ∈ (pieces s).reverse, c.isBlank = false := fun c hc => h c (List.mem_reverse.mp hc)
  rw [trim, pieces_spaced, List.dropWhile_cons_of_pos (by decide), hkeep _ h, hkeep _ hback,
    List.reverse_reverse, flatMap_bytes_pieces]

/-- A text without blanks has no tab in it. -/
theorem tab_not_mem {s : Bytes} (h : ∀ c ∈ pieces s, c.isBlank = false) : 0x09 ∉ s := by
  intro hmem
  obtain ⟨x, y, rfl⟩ := List.mem_iff_append.mp hmem
  have hpiece : Piece.char '\t' ∈ pieces (x ++ 0x09 :: y) := by
    rw [pieces, piecesFrom_append_ascii (by decide) x y (Nat.zero_le _),
      pieces_cons_ascii (by decide)]
    exact List.mem_append_right _ List.mem_cons_self
  have := h _ hpiece
  revert this
  decide

theorem before_of_not_mem {b : UInt8} {s : Bytes} (h : b ∉ s) : before b s = s := by
  rw [before, List.takeWhile_eq_self_iff]
  intro c hc
  simpa using fun heq : c = b => h (heq ▸ hc)

end Bytes

namespace Target

/-- The name behind a marker that has a blank after its three signs. -/
theorem ofMarker_spaced (mark : Bytes) {name : Bytes} (hmark : mark.length = 3)
    (hname : ∀ c ∈ Bytes.pieces name, c.isBlank = false) :
    ofMarker (mark ++ 0x20 :: name) =
      if name = Path.nowhere then [] else Bytes.dropStart "b/" (Bytes.dropStart "a/" name) := by
  have hdrop : (mark ++ 0x20 :: name).drop 3 = 0x20 :: name := by
    rw [← hmark, List.drop_left]
  rw [ofMarker, hdrop, Bytes.trim_spaced hname, Bytes.before_of_not_mem (Bytes.tab_not_mem hname)]

theorem noBlank_side {side : UInt8} (hside : side = 0x61 ∨ side = 0x62) (p : SidePath) :
    ∀ c ∈ Bytes.pieces (side :: 0x2F :: p.text), c.isBlank = false := by
  intro c hc
  rw [Bytes.pieces_cons_ascii (by rcases hside with rfl | rfl <;> decide),
    Bytes.pieces_cons_ascii (by decide), List.mem_cons, List.mem_cons] at hc
  rcases hc with rfl | rfl | hc
  · rcases hside with rfl | rfl <;> decide
  · decide
  · exact p.noBlank c hc

/-- A marker of the new side names the path behind its `b/`. -/
theorem ofMarker_new (p : SidePath) : ofMarker ("+++ " ++ ("b/" ++ p.text)) = p.text :=
  ofMarker_spaced "+++" rfl (noBlank_side (.inr rfl) p)

/-- One of the old side names the path behind its `a/`, of which a `b/` in front is lost. -/
theorem ofMarker_old (p : SidePath) :
    ofMarker ("--- " ++ ("a/" ++ p.text)) = Bytes.dropStart "b/" p.text :=
  ofMarker_spaced "---" rfl (noBlank_side (.inl rfl) p)

/-- A path keeps its front exactly if it does not begin with `b/`. -/
theorem dropStart_eq_self_iff (p : Bytes) :
    Bytes.dropStart "b/" p = p ↔ Bytes.hasStart "b/" p = false := by
  unfold Bytes.dropStart Bytes.after? Bytes.hasStart
  cases hstart : ("b/" : Bytes).isPrefixOf p with
  | false => simp
  | true =>
    have hlength := (List.isPrefixOf_iff_prefix.mp hstart).length_le
    simp only [if_true, Option.getD_some, Bool.true_eq_false, iff_false]
    intro heq
    have := congrArg List.length heq
    rw [List.length_drop] at this
    have htwo : ("b/" : Bytes).length = 2 := rfl
    omega

/-! ### Lines one after the other -/

/-- The target after a line, by the text of the line alone. -/
def turn (current raw : Bytes) : Bytes :=
  if Bytes.startsWithAny PatchLine.fileMarks raw then
    if (ofMarker raw).isEmpty then current
    else if Bytes.hasStart "+++" raw || current.isEmpty then ofMarker raw
    else current
  else current

/-- The targets of lines, by their texts alone. -/
def trail (current : Bytes) : List Bytes → List Bytes
  | [] => []
  | raw :: rest => turn current raw :: trail (turn current raw) rest

/-- Of a classified line only the text counts. -/
theorem scan_classifyFrom (inside : Bool) (number : Nat) (current : Bytes) (raws : List Bytes) :
    scan current (PatchLine.classifyFrom inside number raws) = trail current raws := by
  induction raws generalizing inside number current with
  | nil => rfl
  | cons raw rest ih =>
    have hafter : after current ⟨number, raw, (PatchLine.sortOut inside raw).1,
        (PatchLine.sortOut inside raw).2⟩ = turn current raw := by
      simp only [after, turn, PatchLine.sortOut_fileMarker_iff]
    simp only [PatchLine.classifyFrom, scan, trail, ih, hafter]

theorem ofLines_classified (d : Document) : ofLines d.classified = trail [] d.lines :=
  scan_classifyFrom false 1 [] d.lines

theorem length_trail (current : Bytes) (raws : List Bytes) :
    (trail current raws).length = raws.length := by
  induction raws generalizing current with
  | nil => rfl
  | cons raw rest ih => simp [trail, ih]

theorem trail_append (current : Bytes) (xs ys : List Bytes) :
    trail current (xs ++ ys) = trail current xs ++ trail (xs.foldl turn current) ys := by
  induction xs generalizing current with
  | nil => rfl
  | cons x xs ih => simp [trail, ih]

theorem turn_plain {raw : Bytes} (h : Bytes.startsWithAny PatchLine.fileMarks raw = false)
    (current : Bytes) : turn current raw = current := by
  simp [turn, h]

/-- Lines without a marker leave the target as it is. -/
theorem foldl_turn_plain {raws : List Bytes}
    (h : ∀ l ∈ raws, Bytes.startsWithAny PatchLine.fileMarks l = false) (current : Bytes) :
    raws.foldl turn current = current := by
  induction raws with
  | nil => rfl
  | cons raw rest ih =>
    rw [List.foldl_cons, turn_plain (h raw List.mem_cons_self)]
    exact ih fun l hl => h l (List.mem_cons_of_mem _ hl)

/-- All lines without a marker have the target that stands above them. -/
theorem trail_plain {raws : List Bytes}
    (h : ∀ l ∈ raws, Bytes.startsWithAny PatchLine.fileMarks l = false) (current : Bytes) :
    trail current raws = List.replicate raws.length current := by
  induction raws with
  | nil => rfl
  | cons raw rest ih =>
    rw [trail, turn_plain (h raw List.mem_cons_self), ih fun l hl => h l (List.mem_cons_of_mem _ hl)]
    rfl

end Target

/-! ### Sections one after the other -/

/-- The target below the markers of a section: that of the new side; without one the target that
stands, and only if there is none that of the old side. -/
def Change.targetAfter (standing : Bytes) : Change → Bytes
  | created new | modified _ new => new.text
  | deleted old => if standing = [] then Bytes.dropStart "b/" old.text else standing

/-- The target that stands below sections. -/
def Target.standing (sections : List ChangeSection) : Bytes :=
  sections.foldl (fun current s => s.change.targetAfter current) []

/-- What a section needs so that its lines go to the file that it is about: a new side; or else that
no target stands and that its path does not begin like a new side, or that its own path stands. -/
def Change.Attributed (standing : Bytes) : Change → Prop
  | created _ | modified _ _ => True
  | deleted old =>
    if standing = [] then Bytes.hasStart "b/" old.text = false else standing = old.text

namespace Change

theorem targetAfter_eq_file_iff (standing : Bytes) (c : Change) :
    c.targetAfter standing = c.file ↔ c.Attributed standing := by
  cases c with
  | created new => simp [targetAfter, file, Attributed]
  | modified old new => simp [targetAfter, file, Attributed]
  | deleted old =>
    simp only [targetAfter, file, Attributed]
    split_ifs
    · exact Target.dropStart_eq_self_iff old.text
    · exact Iff.rfl

/-- A marker of the new side puts its path in place of any target. -/
theorem turn_new (current : Bytes) (p : SidePath) :
    Target.turn current ("+++ " ++ ("b/" ++ p.text)) = p.text := by
  have hmarker : Bytes.startsWithAny PatchLine.fileMarks
      (("+++ " : Bytes) ++ ("b/" ++ p.text)) = true := rfl
  have hnew : Bytes.hasStart "+++" (("+++ " : Bytes) ++ ("b/" ++ p.text)) = true := rfl
  rw [Target.turn, if_pos hmarker, Target.ofMarker_new p, if_neg (by simp [p.ne_nil]), hnew]
  rfl

/-- A marker of the old side names a file only while there is no target. -/
theorem turn_old (current : Bytes) (p : SidePath) :
    Target.turn current ("--- " ++ ("a/" ++ p.text)) =
      if current = [] then Bytes.dropStart "b/" p.text else current := by
  have hmarker : Bytes.startsWithAny PatchLine.fileMarks
      (("--- " : Bytes) ++ ("a/" ++ p.text)) = true := rfl
  have hold : Bytes.hasStart "+++" (("--- " : Bytes) ++ ("a/" ++ p.text)) = false := rfl
  rw [Target.turn, if_pos hmarker, Target.ofMarker_old p, hold, Bool.false_or]
  by_cases hcurrent : current = []
  · subst hcurrent
    by_cases hdropped : Bytes.dropStart "b/" p.text = [] <;> simp [hdropped]
  · simp [hcurrent]

/-- **The two markers of a section** turn the target that stands into that of the section. -/
theorem turn_markers (standing : Bytes) (c : Change) :
    Target.turn (Target.turn standing c.oldMarker) c.newMarker = c.targetAfter standing := by
  have hnowhere : ∀ current, Target.turn current ("+++ " ++ Path.nowhere) = current :=
    fun current => rfl
  cases c with
  | created new => exact turn_new _ new
  | modified old new => exact turn_new _ new
  | deleted old => exact (hnowhere _).trans (turn_old standing old)

end Change

namespace ChangeSection

theorem noSide_body (s : ChangeSection) :
    ∀ l ∈ s.body, Bytes.startsWithAny PatchLine.fileMarks l = false := by
  intro l hl
  obtain ⟨h, -, hmem⟩ := List.mem_flatMap.mp hl
  rcases List.mem_cons.mp hmem with rfl | hcontent
  · -- a line that begins with an at sign is no marker of a side
    obtain ⟨rest, hrest⟩ := List.isPrefixOf_iff_prefix.mp h.isMarker
    rw [← hrest]
    rfl
  · exact h.noSide l hcontent

theorem foldl_turn_front (s : ChangeSection) (standing : Bytes) :
    s.front.foldl Target.turn standing = s.change.targetAfter standing := by
  rw [front, List.foldl_append, Target.foldl_turn_plain s.noSide]
  exact s.change.turn_markers standing

theorem foldl_turn_lines (s : ChangeSection) (standing : Bytes) :
    s.lines.foldl Target.turn standing = s.change.targetAfter standing := by
  rw [lines, List.foldl_append, foldl_turn_front, Target.foldl_turn_plain s.noSide_body]

/-- The target that stands below the lines of sections. -/
theorem foldl_turn_sections (sections : List ChangeSection) :
    (sections.flatMap lines).foldl Target.turn [] = Target.standing sections := by
  unfold Target.standing
  generalize ([] : Bytes) = current
  induction sections generalizing current with
  | nil => rfl
  | cons s rest ih => rw [List.flatMap_cons, List.foldl_append, foldl_turn_lines, ih, List.foldl_cons]

/-- The targets of a patch, cut at the hunks of one of its sections. -/
theorem trail_sections (before after : List ChangeSection) (s : ChangeSection) :
    ∃ above below, above.length = (before.flatMap lines ++ s.front).length ∧
      Target.trail [] ((before ++ s :: after).flatMap lines) =
        above ++ (List.replicate s.body.length (s.change.targetAfter (Target.standing before)) ++
          below) := by
  have hsplit : (before ++ s :: after).flatMap lines =
      (before.flatMap lines ++ s.front) ++ (s.body ++ after.flatMap lines) := by
    simp [lines]
  have hstanding : (before.flatMap lines ++ s.front).foldl Target.turn [] =
      s.change.targetAfter (Target.standing before) := by
    rw [List.foldl_append, foldl_turn_sections, foldl_turn_front]
  refine ⟨Target.trail [] (before.flatMap lines ++ s.front), Target.trail
    (s.body.foldl Target.turn (s.change.targetAfter (Target.standing before)))
    (after.flatMap lines), Target.length_trail [] _, ?_⟩
  rw [hsplit, Target.trail_append, hstanding, Target.trail_append _ s.body,
    Target.trail_plain s.noSide_body]

end ChangeSection

/-- **The targets of sections.**  In a patch that is a row of sections, whatever stands before and
after a section: each line of its hunks has the same target, which is the path of the new side if
there is one.  If there is none, then it is the target that stands when the section begins, and the
path of the old side, a `b/` in front left out, only if none stands.  So the lines of a section go
to the file that it is about exactly if it has a new side, or no target stands and the path does not
begin with `b/`, or the target that stands is its own path. -/
theorem section_lines_target {d : Document} {before after : List ChangeSection} {s : ChangeSection}
    (h : d.lines = (before ++ s :: after).flatMap ChangeSection.lines) :
    let first := (before.flatMap ChangeSection.lines ++ s.front).length
    let target := s.change.targetAfter (Target.standing before)
    (Target.ofLines d.classified).length = d.lines.length ∧
      (∀ i, i < s.body.length → d.lines[first + i]? = s.body[i]? ∧
        (Target.ofLines d.classified)[first + i]? = some target) ∧
      (target = s.change.file ↔ s.change.Attributed (Target.standing before)) := by
  intro first target
  obtain ⟨above, below, habove, htrail⟩ := ChangeSection.trail_sections before after s
  have htargets : Target.ofLines d.classified =
      above ++ (List.replicate s.body.length target ++ below) := by
    rw [Target.ofLines_classified, h]
    exact htrail
  have hlines : d.lines = (before.flatMap ChangeSection.lines ++ s.front) ++
      (s.body ++ after.flatMap ChangeSection.lines) := by
    rw [h]
    simp [ChangeSection.lines]
  refine ⟨by rw [Target.ofLines_classified, Target.length_trail], fun i hi => ⟨?_, ?_⟩,
    Change.targetAfter_eq_file_iff _ _⟩
  · rw [hlines, List.getElem?_append_right (Nat.le_add_right _ _), Nat.add_sub_cancel_left,
      List.getElem?_append_left hi]
  · rw [htargets, show first = above.length from habove.symm,
      List.getElem?_append_right (Nat.le_add_right _ _), Nat.add_sub_cancel_left,
      List.getElem?_append_left (by simpa using hi), List.getElem?_replicate, if_pos hi]

/-- The first section deletes a file, and the second creates one whose path begins with `b/`. -/
theorem section_lines_target_created :
    let d := Document.ofText "a.patch"
      "diff --git a/a/x b/a/x\n--- a/a/x\n+++ /dev/null\n@@ -1 +0,0 @@\n-x\r\n--- /dev/null\n+++ b/b/y\n@@\n+y\n"
    let gone : ChangeSection :=
      { header := ["diff --git a/a/x b/a/x"], change := .deleted ⟨"a/x", by decide, by decide⟩
        hunks := [⟨"@@ -1 +0,0 @@", ["-x"], by decide, by decide⟩], noSide := by decide }
    let new : ChangeSection :=
      { change := .created ⟨"b/y", by decide, by decide⟩
        hunks := [⟨"@@", ["+y", ""], by decide, by decide⟩] }
    d.lines = ([] ++ gone :: [new]).flatMap ChangeSection.lines ∧
      d.lines = ([gone] ++ new :: []).flatMap ChangeSection.lines ∧
      (Target.ofLines d.classified)[4]? = some (Bytes.ofString "a/x") ∧
      (Target.ofLines d.classified)[8]? = some (Bytes.ofString "b/y") := by
  intro d gone new
  have hfirst : d.lines = ([] ++ gone :: [new]).flatMap ChangeSection.lines := by decide
  have hsecond : d.lines = ([gone] ++ new :: []).flatMap ChangeSection.lines := hfirst
  exact ⟨hfirst, hsecond, ((section_lines_target hfirst).2.1 1 (by decide)).2,
    ((section_lines_target hsecond).2.1 1 (by decide)).2⟩

/-- The lines of a deleted file go to the file of the section above it; and with no section above it,
the `b/` at the front of its path is lost. -/
theorem deleted_file_loses_lines :
    let x : SidePath := ⟨"x", by decide, by decide⟩
    let y : SidePath := ⟨"y", by decide, by decide⟩
    let bx : SidePath := ⟨"b/x", by decide, by decide⟩
    let changed (c : Change) (line : Bytes)
        (hline : ∀ l ∈ [line], Bytes.startsWithAny PatchLine.fileMarks l = false) : ChangeSection :=
      { change := c, hunks := [⟨"@@", [line], by decide, hline⟩] }
    let two := Document.ofText "a.patch"
      "--- a/x\n+++ b/x\n@@\n+1\n--- a/y\n+++ /dev/null\n@@\n-2"
    let one := Document.ofText "a.patch" "--- a/b/x\n+++ /dev/null\n@@\n-1"
    two.lines = [changed (.modified x x) "+1" (by decide),
        changed (.deleted y) "-2" (by decide)].flatMap ChangeSection.lines ∧
      (Change.deleted y).file = "y" ∧
      (Target.ofLines two.classified)[7]? = some (Bytes.ofString "x") ∧
      one.lines = [changed (.deleted bx) "-1" (by decide)].flatMap ChangeSection.lines ∧
      (Change.deleted bx).file = "b/x" ∧
      (Target.ofLines one.classified)[3]? = some (Bytes.ofString "x") := by
  decide

end PatchAudit
