import Mathlib.Data.List.Forall2
import PatchAudit.Patch.Line
import PatchAudit.Proofs.Numerals

/-!
# Plain patches

The patches that every tool writes: some lines of any kind, then a section for each file with its
two names and its hunks, each of which counts its lines.  The types carry what makes such a patch
well formed.  A line of a patch may be met with its newline or without, and without a CR at its end
(`Shown`); that is all that reading a text does to it (`shown_terminatedLines`).
-/

namespace PatchAudit

/-! ### The grammar -/

/-- A file name of letters, digits, dots, underscores and dashes, in segments between slashes. -/
structure PlainName where
  segments : List Bytes
  ne_nil : segments ≠ []
  segment_ne_nil : ∀ s ∈ segments, s ≠ []
  plain : ∀ s ∈ segments, ∀ b ∈ s, (65 ≤ b.toNat ∧ b.toNat ≤ 90) ∨ (97 ≤ b.toNat ∧ b.toNat ≤ 122) ∨
    (48 ≤ b.toNat ∧ b.toNat ≤ 57) ∨ b.toNat = 46 ∨ b.toNat = 95 ∨ b.toNat = 45

/-- The name as it is written. -/
def PlainName.text (n : PlainName) : Bytes := Bytes.join "/" n.segments

/-- The name on both sides of a change. -/
def PlainName.pair (n : PlainName) : Bytes := "a/" ++ n.text ++ " b/" ++ n.text

/-- What a line of a hunk does. -/
inductive Sign where
  | context
  | added
  | removed
  deriving DecidableEq, Repr

namespace Sign

/-- The first byte of a line. -/
def byte : Sign → UInt8
  | context => 0x20
  | added => 0x2B
  | removed => 0x2D

/-- The kind of such a line. -/
def kind : Sign → LineKind
  | context => .context
  | added => .added
  | removed => .removed

/-- Whether the line is one of the old file. -/
def isOld (s : Sign) : Bool := s != added

/-- Whether the line is one of the new file. -/
def isNew (s : Sign) : Bool := s != removed

@[simp] theorem isOld_context : isOld context = true := rfl
@[simp] theorem isOld_added : isOld added = false := rfl
@[simp] theorem isOld_removed : isOld removed = true := rfl
@[simp] theorem isNew_context : isNew context = true := rfl
@[simp] theorem isNew_added : isNew added = true := rfl
@[simp] theorem isNew_removed : isNew removed = false := rfl

end Sign

/-- A line of a hunk, which cannot be taken for the name of a file. -/
structure ContentLine where
  sign : Sign
  payload : Bytes
  one_line : 0x0A ∉ payload
  no_marker : Bytes.startsWithAny PatchLine.fileMarks (sign.byte :: payload) = false

/-- The line as it is written. -/
def ContentLine.text (l : ContentLine) : Bytes := l.sign.byte :: l.payload

/-- A hunk: where it starts and how many lines it has on either side, as numerals, then the lines,
of which at least one is a change. -/
structure Hunk where
  oldStart : Bytes
  oldCount : Bytes
  newStart : Bytes
  newCount : Bytes
  /-- What follows the second pair of at signs. -/
  heading : Bytes
  lines : List ContentLine
  oldStart_decimal : Numeral.IsDecimal oldStart
  oldCount_decimal : Numeral.IsDecimal oldCount
  newStart_decimal : Numeral.IsDecimal newStart
  newCount_decimal : Numeral.IsDecimal newCount
  old_matches : Numeral.value oldCount = lines.countP fun l => l.sign.isOld
  new_matches : Numeral.value newCount = lines.countP fun l => l.sign.isNew
  changes : ∃ l ∈ lines, l.sign ≠ .context
  one_line : 0x0A ∉ heading

namespace Hunk

/-- The ranges of a hunk between their marks. -/
def ranges (h : Hunk) : Bytes :=
  h.oldStart ++ "," ++ h.oldCount ++ " +" ++ (h.newStart ++ "," ++ h.newCount)

/-- The lines of a hunk as they are written. -/
def text (h : Hunk) : List Bytes :=
  ("@@ -" ++ h.ranges ++ " @@" ++ h.heading) :: h.lines.map ContentLine.text

/-- The number of lines of a sign. -/
def count (s : Sign) (h : Hunk) : Nat := h.lines.countP fun l => l.sign == s

/-- A hunk whose numbers are words of 64 bits. -/
structure InRange (h : Hunk) : Prop where
  oldStart : Numeral.value h.oldStart < 2 ^ 63
  oldCount : Numeral.value h.oldCount < 2 ^ 63
  newStart : Numeral.value h.newStart < 2 ^ 63
  newCount : Numeral.value h.newCount < 2 ^ 63

end Hunk

/-- The section of a file. -/
structure FileSection where
  name : PlainName
  hunks : List Hunk
  hunks_ne_nil : hunks ≠ []

namespace FileSection

/-- The lines of a section as they are written. -/
def text (s : FileSection) : List Bytes :=
  ("diff --git " ++ s.name.pair) :: ("--- " ++ ("a/" ++ s.name.text)) ::
    ("+++ " ++ ("b/" ++ s.name.text)) :: s.hunks.flatMap Hunk.text

/-- The number of lines of a sign. -/
def count (sign : Sign) (s : FileSection) : Nat := (s.hunks.map (Hunk.count sign)).sum

end FileSection

/-- A patch: lines that start no section, and then at least one section. -/
structure PlainPatch where
  preamble : List Bytes
  sections : List FileSection
  /-- Whether the last line has a newline at its end. -/
  ended : Bool
  sections_ne_nil : sections ≠ []
  one_line : ∀ l ∈ preamble, 0x0A ∉ l
  no_start : ∀ l ∈ preamble, Bytes.startsWithAny ["@@", "diff --git ", "--- "] l = false

/-- A text of lines, with a newline at its end or without. -/
def Bytes.ofLines (ended : Bool) (lines : List Bytes) : Bytes :=
  Bytes.join [0x0A] lines ++ if ended then [0x0A] else []

namespace PlainPatch

/-- The lines of a patch. -/
def lines (p : PlainPatch) : List Bytes := p.preamble ++ p.sections.flatMap FileSection.text

/-- The text of a patch. -/
def text (p : PlainPatch) : Bytes := Bytes.ofLines p.ended p.lines

/-- A patch whose numbers are words of 64 bits. -/
def InRange (p : PlainPatch) : Prop := ∀ s ∈ p.sections, ∀ h ∈ s.hunks, h.InRange

end PlainPatch

/-! ### Lines and texts -/

namespace Bytes

theorem ofLines_singleton (ended : Bool) (l : Bytes) :
    ofLines ended [l] = l ++ if ended then [0x0A] else [] := by
  simp [ofLines, join]

theorem ofLines_cons_cons (ended : Bool) (l m : Bytes) (r : List Bytes) :
    ofLines ended (l :: m :: r) = l ++ 0x0A :: ofLines ended (m :: r) := by
  simp [ofLines, join, List.intercalate_cons_cons]

/-- A line of a text, as the text shows it once its line ends are plain: a CR at its end may be
gone, and a newline may follow. -/
def Shown (l t : Bytes) : Prop := ∃ s, (l = s ∨ l = s ++ [0x0D]) ∧ (t = s ∨ t = s ++ [0x0A])

theorem terminatedLines_cons {l : Bytes} (h : 0x0A ∉ l) (s : Bytes) :
    terminatedLines (l ++ 0x0A :: s) = (l ++ [0x0A]) :: terminatedLines s := by
  unfold terminatedLines
  rw [List.splitOn_append_cons_self_of_not_mem h]
  cases hparts : s.splitOn 0x0A with
  | nil => exact absurd hparts (List.splitOn_ne_nil _ _)
  | cons part parts =>
    simp only [List.dropLast_cons_cons, List.map_cons, List.getLast?_cons_cons]
    split <;> rfl

theorem terminatedLines_last {l : Bytes} (h : 0x0A ∉ l) (hne : l ≠ []) : terminatedLines l = [l] := by
  unfold terminatedLines
  rw [List.splitOn_eq_singleton h]
  cases l with
  | nil => exact absurd rfl hne
  | cons b l => rfl

theorem terminatedLines_nil : terminatedLines [] = [] := rfl

/-- The lines of a text with their newlines. -/
theorem shown_terminatedLines {ended : Bool} {lines : List Bytes} (hlines : ∀ l ∈ lines, 0x0A ∉ l)
    (hlast : ∀ l, lines.getLast? = some l → ended = false → l ≠ []) :
    lines ≠ [] → List.Forall₂ (fun l t => t = l ∨ t = l ++ [0x0A]) lines
      (terminatedLines (ofLines ended lines)) := by
  induction lines with
  | nil => exact fun h => absurd rfl h
  | cons l rest ih =>
    intro _
    have hl := hlines l List.mem_cons_self
    cases rest with
    | nil =>
      rw [ofLines_singleton]
      cases ended with
      | true =>
        rw [if_pos rfl, terminatedLines_cons hl, terminatedLines_nil]
        exact .cons (.inr rfl) .nil
      | false =>
        rw [if_neg Bool.false_ne_true, List.append_nil, terminatedLines_last hl (hlast l rfl rfl)]
        exact .cons (.inl rfl) .nil
    | cons m rest =>
      rw [ofLines_cons_cons, terminatedLines_cons hl]
      refine .cons (.inr rfl) (ih (fun x hx => hlines x (List.mem_cons_of_mem _ hx)) ?_ (by simp))
      intro x hx
      exact hlast x (by rwa [List.getLast?_cons_cons])

/-- The parts of a text between its newlines; the part after a last newline is empty. -/
theorem splitOn_ofLines {ended : Bool} {lines : List Bytes} (hlines : ∀ l ∈ lines, 0x0A ∉ l)
    (hne : lines ≠ []) :
    (ofLines ended lines).splitOn 0x0A = lines ++ if ended then [[]] else [] := by
  induction lines with
  | nil => exact absurd rfl hne
  | cons l rest ih =>
    have hl := hlines l List.mem_cons_self
    cases rest with
    | nil =>
      rw [ofLines_singleton]
      cases ended with
      | true =>
        rw [if_pos rfl, List.splitOn_append_cons_self_of_not_mem hl, List.splitOn_nil]
        rfl
      | false =>
        rw [if_neg Bool.false_ne_true, List.append_nil, List.splitOn_eq_singleton hl]
        rfl
    | cons m rest =>
      rw [ofLines_cons_cons, List.splitOn_append_cons_self_of_not_mem hl,
        ih (fun x hx => hlines x (List.mem_cons_of_mem _ hx)) (by simp)]
      rfl

/-! ### Plain line ends -/

theorem plainEnds_of_not_mem {l : Bytes} (h : 0x0A ∉ l) : plainEnds l = l := by
  fun_induction plainEnds l with
  | case1 r ih => simp at h
  | case2 b r hnot ih =>
    rw [ih fun hr => h (List.mem_cons_of_mem _ hr)]
  | case3 => rfl

/-- A line loses a CR at its end when a newline follows. -/
theorem plainEnds_append {l : Bytes} (h : 0x0A ∉ l) (s : Bytes) :
    ∃ m, (l = m ∨ l = m ++ [0x0D]) ∧ 0x0A ∉ m ∧
      plainEnds (l ++ 0x0A :: s) = m ++ 0x0A :: plainEnds s := by
  induction l with
  | nil => exact ⟨[], .inl rfl, h, by simp [plainEnds]⟩
  | cons b l ih =>
    obtain ⟨m, hm, hnewline, hplain⟩ := ih fun hl => h (List.mem_cons_of_mem _ hl)
    by_cases hcr : b = 0x0D ∧ l = []
    · obtain ⟨rfl, rfl⟩ := hcr
      exact ⟨[], .inr rfl, by simp, by simp [plainEnds]⟩
    · refine ⟨b :: m, ?_, ?_, ?_⟩
      · rcases hm with rfl | rfl
        · exact .inl rfl
        · exact .inr rfl
      · rw [List.mem_cons, not_or]
        exact ⟨fun hb => h (by simp [hb]), hnewline⟩
      · rw [List.cons_append, plainEnds, hplain, List.cons_append]
        rintro r rfl heq
        -- a newline right after the CR is the one that follows the line
        cases l with
        | nil => exact hcr ⟨rfl, rfl⟩
        | cons c l =>
          obtain ⟨rfl, -⟩ := List.cons.inj heq
          exact h (by simp)

/-- A text with plain line ends consists of the same lines, some without the CR at their end. -/
theorem exists_plainEnds_ofLines (ended : Bool) {lines : List Bytes}
    (hlines : ∀ l ∈ lines, 0x0A ∉ l) (hne : lines ≠ []) :
    ∃ plain, List.Forall₂ (fun l m => l = m ∨ l = m ++ [0x0D]) lines plain ∧
      (∀ m ∈ plain, 0x0A ∉ m) ∧ plainEnds (ofLines ended lines) = ofLines ended plain ∧
      (ended = false → plain.getLast? = lines.getLast?) := by
  induction lines with
  | nil => exact absurd rfl hne
  | cons l rest ih =>
    have hl := hlines l List.mem_cons_self
    cases rest with
    | nil =>
      cases ended with
      | true =>
        obtain ⟨m, hm, hnewline, hplain⟩ := plainEnds_append hl []
        refine ⟨[m], .cons hm .nil, by simpa using hnewline, ?_, fun h => by cases h⟩
        rw [ofLines_singleton, ofLines_singleton]
        exact hplain
      | false =>
        refine ⟨[l], .cons (.inl rfl) .nil, hlines, ?_, fun _ => rfl⟩
        rw [ofLines_singleton, if_neg Bool.false_ne_true, List.append_nil, plainEnds_of_not_mem hl]
    | cons x rest =>
      obtain ⟨plain, hplain, hrest, htext, hlast⟩ :=
        ih (fun y hy => hlines y (List.mem_cons_of_mem _ hy)) (by simp)
      obtain ⟨m, hm, hnewline, hfirst⟩ := plainEnds_append hl (ofLines ended (x :: rest))
      cases plain with
      | nil => cases hplain
      | cons y plain =>
        refine ⟨m :: y :: plain, .cons hm hplain, ?_, ?_, fun hended => ?_⟩
        · exact List.forall_mem_cons.mpr ⟨hnewline, hrest⟩
        · rw [ofLines_cons_cons, hfirst, htext, ofLines_cons_cons]
        · rw [List.getLast?_cons_cons, List.getLast?_cons_cons, hlast hended]

/-! ### Lines as they are shown -/

/-- What a line starts with is still there, unless a CR at its end belongs to it. -/
theorem Shown.start {m x t : Bytes} (h : Shown (m ++ x) t)
    (hlast : m.getLast? ≠ some 0x0D) : ∃ y, t = m ++ y := by
  obtain ⟨s, hs, ht⟩ := h
  obtain ⟨y, rfl⟩ : ∃ y, s = m ++ y := by
    rcases hs with rfl | hs
    · exact ⟨x, rfl⟩
    · rcases List.eq_nil_or_concat x with rfl | ⟨y, b, rfl⟩
      · rw [List.append_nil] at hs
        rw [hs] at hlast
        simp at hlast
      · rw [List.concat_eq_append, ← List.append_assoc] at hs
        exact ⟨y, (List.append_inj_left' hs rfl).symm⟩
  rcases ht with rfl | rfl
  · exact ⟨y, rfl⟩
  · exact ⟨y ++ [0x0A], List.append_assoc _ _ _⟩

/-- A line that has no CR at its end is shown as it is. -/
theorem Shown.whole {l t : Bytes} (h : Shown l t) (hlast : l.getLast? ≠ some 0x0D) :
    t = l ∨ t = l ++ [0x0A] := by
  obtain ⟨s, rfl | rfl, ht⟩ := h
  · exact ht
  · simp at hlast

/-- What a line does not start with, it is not shown to start with. -/
theorem Shown.no_start {m l t : Bytes} (h : Shown l t) (hm : m.isPrefixOf l = false)
    (hnewline : 0x0A ∉ m) : m.isPrefixOf t = false := by
  obtain ⟨s, hs, ht⟩ := h
  have hprefix : ¬ m <+: s := by
    intro hms
    have hml : m <+: l := by
      rcases hs with rfl | rfl
      · exact hms
      · exact hms.trans (List.prefix_append _ _)
    rw [List.isPrefixOf_iff_prefix.mpr hml] at hm
    cases hm
  rw [← Bool.not_eq_true, List.isPrefixOf_iff_prefix]
  rcases ht with rfl | rfl
  · exact hprefix
  · rw [List.prefix_concat_iff]
    rintro (rfl | hms)
    · simp at hnewline
    · exact hprefix hms

theorem forall₂_append_left {α β : Type} {R : α → β → Prop} {xs ys : List α} {zs : List β}
    (h : List.Forall₂ R (xs ++ ys) zs) :
    ∃ us vs, zs = us ++ vs ∧ List.Forall₂ R xs us ∧ List.Forall₂ R ys vs := by
  induction xs generalizing zs with
  | nil => exact ⟨[], zs, rfl, .nil, h⟩
  | cons x xs ih =>
    cases h with
    | cons hx hrest =>
      obtain ⟨us, vs, rfl, hus, hvs⟩ := ih hrest
      exact ⟨_ :: us, vs, rfl, .cons hx hus, hvs⟩

theorem forall₂_comp {α β γ : Type} {R : α → β → Prop} {S : β → γ → Prop} {T : α → γ → Prop}
    {xs : List α} {ys : List β} {zs : List γ} (hxy : List.Forall₂ R xs ys)
    (hyz : List.Forall₂ S ys zs) (h : ∀ x y z, R x y → S y z → T x z) : List.Forall₂ T xs zs := by
  induction hxy generalizing zs with
  | nil => cases hyz; exact .nil
  | cons hx _ ih =>
    cases hyz with
    | cons hy hrest => exact .cons (h _ _ _ hx hy) (ih hrest)

end Bytes

/-! ### The lines of a patch -/

open Bytes

/-- The bytes of a name. -/
def PlainName.IsByte (b : UInt8) : Prop :=
  (45 ≤ b.toNat ∧ b.toNat ≤ 57) ∨ (65 ≤ b.toNat ∧ b.toNat ≤ 122)

theorem PlainName.isByte_of_mem {n : PlainName} {b : UInt8} (h : b ∈ n.text) : IsByte b := by
  rcases mem_join h with hslash | ⟨s, hs, hb⟩
  · obtain rfl := List.mem_singleton.mp hslash
    exact .inl (by decide)
  · have hplain := n.plain s hs b hb
    unfold IsByte
    omega

theorem PlainName.text_ne_nil (n : PlainName) : n.text ≠ [] := by
  unfold text
  cases hsegments : n.segments with
  | nil => exact absurd hsegments n.ne_nil
  | cons s rest =>
    have hs : s ≠ [] := n.segment_ne_nil s (by rw [hsegments]; exact List.mem_cons_self)
    cases rest with
    | nil => simpa [Bytes.join] using hs
    | cons t rest => simp [Bytes.join, List.intercalate_cons_cons, hs]

/-- A line that ends with a name does not end with a CR. -/
theorem PlainName.getLast?_append (n : PlainName) (s : Bytes) : (s ++ n.text).getLast? ≠ some 0x0D := by
  intro hlast
  rw [List.getLast?_append_of_ne_nil _ n.text_ne_nil] at hlast
  have hbyte := n.isByte_of_mem (List.mem_of_getLast? hlast)
  exact absurd hbyte (by unfold IsByte; decide)

theorem PlainName.not_mem_text {n : PlainName} {b : UInt8} (h : ¬ IsByte b) : b ∉ n.text :=
  fun hb => h (n.isByte_of_mem hb)

theorem PlainName.not_mem_pair {n : PlainName} {b : UInt8} (h : ¬ IsByte b)
    (hold : b ∉ Bytes.ofString "a/") (hnew : b ∉ Bytes.ofString " b/") : b ∉ n.pair := by
  have hn := n.not_mem_text h
  simp only [pair, List.mem_append, not_or]
  exact ⟨⟨⟨hold, hn⟩, hnew⟩, hn⟩

theorem Numeral.IsDecimal.not_mem {s : Bytes} (h : Numeral.IsDecimal s) {b : UInt8}
    (hb : Bytes.isDigit b = false) : b ∉ s := by
  intro hmem
  rw [h.digits b hmem] at hb
  cases hb

theorem ContentLine.not_mem_text (l : ContentLine) : 0x0A ∉ l.text := by
  unfold text
  rw [List.mem_cons, not_or]
  refine ⟨?_, l.one_line⟩
  cases l.sign <;> decide

theorem Hunk.not_mem_text {h : Hunk} {l : Bytes} (hl : l ∈ h.text) : 0x0A ∉ l := by
  rcases List.mem_cons.mp hl with rfl | hl
  · have hdigit : Bytes.isDigit 0x0A = false := by decide
    simp only [ranges, List.mem_append, not_or]
    refine ⟨⟨⟨by decide, ⟨⟨⟨?_, by decide⟩, ?_⟩, by decide⟩, ⟨?_, by decide⟩, ?_⟩, by decide⟩,
      h.one_line⟩
    · exact h.oldStart_decimal.not_mem hdigit
    · exact h.oldCount_decimal.not_mem hdigit
    · exact h.newStart_decimal.not_mem hdigit
    · exact h.newCount_decimal.not_mem hdigit
  · obtain ⟨c, -, rfl⟩ := List.mem_map.mp hl
    exact c.not_mem_text

theorem FileSection.not_mem_text {s : FileSection} {l : Bytes} (hl : l ∈ s.text) : 0x0A ∉ l := by
  have hbyte : ¬ PlainName.IsByte 0x0A := by unfold PlainName.IsByte; decide
  have hname := s.name.not_mem_text hbyte
  rcases List.mem_cons.mp hl with rfl | hl
  · simp only [List.mem_append, not_or]
    exact ⟨by decide, s.name.not_mem_pair hbyte (by decide) (by decide)⟩
  rcases List.mem_cons.mp hl with rfl | hl
  · simp only [List.mem_append, not_or]
    exact ⟨by decide, by decide, hname⟩
  rcases List.mem_cons.mp hl with rfl | hl
  · simp only [List.mem_append, not_or]
    exact ⟨by decide, by decide, hname⟩
  · obtain ⟨h, -, hl⟩ := List.mem_flatMap.mp hl
    exact Hunk.not_mem_text hl

theorem Hunk.text_getLast? (h : Hunk) : ∃ c : ContentLine, h.text.getLast? = some c.text := by
  have hne : h.lines ≠ [] := by
    obtain ⟨l, hl, -⟩ := h.changes
    exact List.ne_nil_of_mem hl
  refine ⟨h.lines.getLast hne, ?_⟩
  rw [text, List.getLast?_cons, List.getLast?_map, List.getLast?_eq_getLast_of_ne_nil hne]
  rfl

theorem getLast?_flatMap {α β : Type} {f : α → List β} {P : β → Prop} {xs : List α} (hne : xs ≠ [])
    (h : ∀ x ∈ xs, ∃ b, (f x).getLast? = some b ∧ P b) :
    ∃ b, (xs.flatMap f).getLast? = some b ∧ P b := by
  obtain ⟨init, last, rfl⟩ := List.eq_nil_or_concat xs |>.resolve_left hne
  obtain ⟨b, hb, hP⟩ := h last (by simp)
  refine ⟨b, ?_, hP⟩
  rw [List.concat_eq_append, List.flatMap_append, List.flatMap_singleton, List.getLast?_append, hb]
  rfl

namespace PlainPatch

theorem not_mem_lines {p : PlainPatch} : ∀ l ∈ p.lines, 0x0A ∉ l := by
  intro l hl
  rcases List.mem_append.mp hl with hl | hl
  · exact p.one_line l hl
  · obtain ⟨s, -, hl⟩ := List.mem_flatMap.mp hl
    exact FileSection.not_mem_text hl

/-- The last line of a patch is a line of a hunk. -/
theorem getLast?_lines (p : PlainPatch) : ∃ l, p.lines.getLast? = some l ∧ l ≠ [] := by
  have hsections := getLast?_flatMap (f := FileSection.text) (P := (· ≠ [])) p.sections_ne_nil ?_
  · obtain ⟨l, hl, hne⟩ := hsections
    refine ⟨l, ?_, hne⟩
    rw [lines, List.getLast?_append, hl]
    rfl
  · intro s _
    have hhunks := getLast?_flatMap (f := Hunk.text) (P := (· ≠ [])) s.hunks_ne_nil ?_
    · obtain ⟨l, hl, hne⟩ := hhunks
      refine ⟨l, ?_, hne⟩
      rw [FileSection.text, List.getLast?_cons, List.getLast?_cons, List.getLast?_cons, hl]
      rfl
    · intro h _
      obtain ⟨c, hc⟩ := h.text_getLast?
      exact ⟨c.text, hc, by simp [ContentLine.text]⟩

theorem lines_ne_nil (p : PlainPatch) : p.lines ≠ [] := by
  obtain ⟨l, hl, -⟩ := p.getLast?_lines
  intro hnil
  rw [hnil] at hl
  cases hl

theorem ne_nil_of_getLast? (p : PlainPatch) {l : Bytes} (h : p.lines.getLast? = some l) :
    l ≠ [] := by
  obtain ⟨m, hm, hne⟩ := p.getLast?_lines
  rw [h] at hm
  cases hm
  exact hne

/-- The lines that are read from the text of a patch. -/
theorem shown_text (p : PlainPatch) : List.Forall₂ Shown p.lines p.text.terminatedLines := by
  have hshown := shown_terminatedLines p.not_mem_lines
    (fun l hl (_ : p.ended = false) => p.ne_nil_of_getLast? hl) p.lines_ne_nil
  exact hshown.imp fun l t ht => ⟨l, .inl rfl, ht⟩

/-- The lines of the text of a patch whose line ends have been made plain: as they are read one by
one, and as the text is split at its newlines. -/
theorem shown_plainEnds (p : PlainPatch) :
    List.Forall₂ Shown p.lines p.text.plainEnds.terminatedLines ∧
      ∃ parts, p.text.plainEnds.splitOn 0x0A = parts ++ (if p.ended then [[]] else []) ∧
        List.Forall₂ Shown p.lines parts := by
  obtain ⟨plain, hplain, hnewline, htext, hlast⟩ :=
    exists_plainEnds_ofLines p.ended p.not_mem_lines p.lines_ne_nil
  have hne : plain ≠ [] := by
    rintro rfl
    exact p.lines_ne_nil (List.forall₂_nil_right_iff.mp hplain)
  have hterminated := shown_terminatedLines hnewline
    (fun l hl hended => p.ne_nil_of_getLast? ((hlast hended).symm.trans hl)) hne
  rw [text, htext]
  refine ⟨?_, plain, splitOn_ofLines hnewline hne, ?_⟩
  · exact forall₂_comp hplain hterminated fun l m t hl ht => ⟨m, hl, ht⟩
  · exact hplain.imp fun l m hl => ⟨m, hl, .inl rfl⟩

end PlainPatch

end PatchAudit
