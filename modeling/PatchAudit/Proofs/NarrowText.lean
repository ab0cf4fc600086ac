import PatchAudit.Proofs.FittedWindow
import PatchAudit.Proofs.ShortenedText

/-!
# Narrow texts on the screen

A narrow character takes one cell whatever stands beside it, as those of ASCII do.  A text of narrow
characters takes as many cells as it has characters (`Spans.cells`), so what cuts and pads texts by
their characters keeps them in their lines: an entry of the list takes one row however long the name of
its patch is (`spans_listEntry`), and so does a line of a patch (`ShownLine.spans_render`).
-/

namespace PatchAudit

/-- A character that takes one cell, whatever stands beside it. -/
structure Narrow (c : Char) : Prop where
  shown : 0x20 ≤ c.toNat
  cell : CellWidth.ofChar c = 1
  alone : Cluster.continues c.toNat = false
  noFlag : Cluster.isFlagLetter c.toNat = false
  noSyllable : Cluster.isSyllable c.toNat = false

theorem CellWidth.isIn_below {ranges : List (Nat × Nat)} (least : Nat) {v : Nat}
    (hranges : ranges.all (fun range => Nat.ble least range.1) = true) (hv : v < least) :
    isIn ranges v = false := by
  rw [isIn, List.any_eq_false]
  intro range hrange
  have hlow := Nat.le_of_ble_eq_true (List.all_eq_true.mp hranges range hrange)
  simp
  omega

/-- The characters of ASCII that are shown are narrow. -/
theorem narrow_ascii {c : Char} (hlow : 0x20 ≤ c.toNat) (hhigh : c.toNat < 0x7F) : Narrow c where
  shown := hlow
  cell := if_pos ⟨hlow, hhigh⟩
  alone := by
    have hnonspacing : CellWidth.isIn Mark.nonspacing c.toNat = false :=
      CellWidth.isIn_below 0x7F (by decide +kernel) hhigh
    have hspacing : CellWidth.isIn Mark.spacing c.toNat = false :=
      CellWidth.isIn_below 0x7F (by decide +kernel) hhigh
    simp [Cluster.continues, Cluster.joiner, hnonspacing, hspacing]
    omega
  noFlag := by
    simp [Cluster.isFlagLetter]
    omega
  noSyllable := by
    simp [Cluster.isSyllable]
    omega

instance (c : Char) : Decidable (Narrow c) :=
  if hascii : 0x20 ≤ c.toNat ∧ c.toNat < 0x7F then isTrue (narrow_ascii hascii.1 hascii.2)
  else decidable_of_iff (0x20 ≤ c.toNat ∧ CellWidth.ofChar c = 1 ∧
      Cluster.continues c.toNat = false ∧ Cluster.isFlagLetter c.toNat = false ∧
      Cluster.isSyllable c.toNat = false)
    ⟨fun ⟨h1, h2, h3, h4, h5⟩ => ⟨h1, h2, h3, h4, h5⟩, fun h => ⟨h.1, h.2, h.3, h.4, h.5⟩⟩

example : Narrow 'é' ∧ ¬ Narrow '漢' := by decide +kernel

theorem toNat_lt_delete {c : Char} (h : Narrow c) (hascii : c.toNat < 0x80) : c.toNat < 0x7F := by
  have hdelete : c.toNat ≠ 0x7F := by
    intro heq
    have hcell := h.cell
    rw [← Char.ofNat_toNat c, heq] at hcell
    revert hcell
    decide +kernel
  omega

namespace Cluster

variable {c : Char} {cs : List Char}

theorem ne_mark_of_narrow {mark : Nat} (h : Narrow c) (hmark : continues mark = true) : c.toNat ≠ mark := by
  rintro rfl
  have halone := h.alone
  rw [hmark] at halone
  cases halone

/-- A cluster does not go on with narrow characters. -/
theorem extent_narrow (picture : Bool) (h : ∀ c ∈ cs, Narrow c) :
    extent picture false (cs.map Piece.char) = 0 := by
  cases cs with
  | nil => rfl
  | cons c cs =>
    have hc := h c List.mem_cons_self
    have hvalue : value (.char c) = c.toNat := rfl
    have hjoiner : c.toNat ≠ joiner := ne_mark_of_narrow hc (by decide +kernel)
    rw [List.map_cons, extent, hvalue, if_neg hjoiner, hc.alone]
    simp

theorem length_narrow (hc : Narrow c) (h : ∀ c ∈ cs, Narrow c) :
    length (.char c) (cs.map Piece.char) = 0 := by
  have hvalue : value (.char c) = c.toNat := rfl
  simp [length, hvalue, hc.noFlag, hc.noSyllable, extent_narrow _ h]

theorem cells_narrow (hc : Narrow c) (h : ∀ c ∈ cs, Narrow c) :
    cells (.char c) (cs.map Piece.char) = 1 := by
  have hnext : ((cs.map Piece.char).head?.map value == some pictureMark) = false := by
    cases cs with
    | nil => rfl
    | cons d ds =>
      have hmark : d.toNat ≠ pictureMark := ne_mark_of_narrow (h d List.mem_cons_self) (by decide +kernel)
      simpa [value, Piece.toChar] using hmark
  simp only [cells, hnext, hc.noFlag]
  simp [hc.cell]

end Cluster

namespace ControlSequence

theorem isShown_ascii : ∀ n < 0x7F, 0x20 ≤ n → isShown n.toUInt8 = true := by decide +kernel

/-- Narrow characters take a cell each. -/
theorem cellsFrom_narrow {cs : List Char} (h : ∀ c ∈ cs, Narrow c) :
    cellsFrom 0 .text (cs.map Piece.char) = cs.length := by
  induction cs with
  | nil => rfl
  | cons c cs ih =>
    obtain ⟨hc, hcs⟩ := List.forall_mem_cons.mp h
    rw [List.map_cons, List.length_cons]
    by_cases hwide : 0x80 ≤ c.toNat
    · rw [cellsFrom_wide hwide, Cluster.length_narrow hc hcs, Cluster.cells_narrow hc hcs, ih hcs,
        Nat.add_comm]
    · have hlow := hc.shown
      have hshown := isShown_ascii c.toNat (toNat_lt_delete hc (by omega)) hlow
      rw [cellsFrom_ascii (by omega) (by omega), ih hcs, if_pos hshown, Nat.add_comm]

end ControlSequence

namespace Bytes

/-- A text of a number of narrow characters. -/
def Spans (n : Nat) (s : Bytes) : Prop := ∃ cs, s = ofChars cs ∧ (∀ c ∈ cs, Narrow c) ∧ cs.length = n

variable {m n : Nat} {s t : Bytes}

/-- A byte of ASCII in a text is a character of it. -/
theorem mem_chars_of_mem_ascii {b : UInt8} (hb : b.toNat < 0x80) (h : b ∈ s) :
    Char.ofNat b.toNat ∈ chars s := by
  obtain ⟨before, after, rfl⟩ := List.append_of_mem h
  rw [chars_append_ascii hb]
  refine List.mem_append_right _ ?_
  rw [chars, pieces_cons_ascii hb]
  exact List.mem_cons_self

theorem narrow_ellipsis : Narrow ellipsis := by decide +kernel

theorem narrow_front {cs : List Char} (h : ∀ c ∈ cs, Narrow c) : ∀ c ∈ front n cs, Narrow c := by
  intro c hc
  rcases List.mem_append.mp hc with hc | hc
  · exact h c (List.mem_of_mem_take hc)
  · rw [List.mem_singleton.mp hc]
    exact narrow_ellipsis

theorem narrow_back {cs : List Char} (h : ∀ c ∈ cs, Narrow c) : ∀ c ∈ back n cs, Narrow c :=
  List.forall_mem_cons.mpr ⟨narrow_ellipsis, fun c hc => h c (List.mem_of_mem_drop hc)⟩

theorem spans_fill (n : Nat) : Spans n (fill n 0x20) := by
  refine ⟨List.replicate n ' ', ?_, fun c hc => ?_, List.length_replicate⟩
  · induction n with
    | zero => rfl
    | succ n ih =>
      rw [fill, List.replicate_succ, List.replicate_succ, ofChars_cons]
      exact congrArg (0x20 :: ·) ih
  · rw [List.eq_of_mem_replicate hc]
    decide +kernel

theorem spans_ofString (s : String) (h : s.toList.all (fun c => decide (Narrow c)) = true) :
    Spans s.toList.length (ofString s) :=
  ⟨s.toList, rfl, fun c hc => of_decide_eq_true (List.all_eq_true.mp h c hc), rfl⟩

theorem spans_ascii (s : String)
    (h : s.toList.all (fun c => Nat.ble 0x20 c.toNat && Nat.blt c.toNat 0x7F) = true) :
    Spans s.toList.length (ofString s) := by
  refine ⟨s.toList, rfl, fun c hc => ?_, rfl⟩
  have hascii := List.all_eq_true.mp h c hc
  rw [Bool.and_eq_true] at hascii
  exact narrow_ascii (Nat.le_of_ble_eq_true hascii.1) (Nat.le_of_ble_eq_true hascii.2)

theorem spans_ofNat {most : Nat} (h : n < 10 ^ most) (hmost : 0 < most) :
    ∃ digits ≤ most, Spans digits (ofNat n) := by
  have hshort := (Nat.length_toDigits_le_iff (by decide) hmost).mpr h
  refine ⟨_, hshort, Nat.toDigits 10 n, JsonValue.ofNat_eq n, fun c hc => ?_, rfl⟩
  have hdigit := Nat.isDigit_of_mem_toDigits (by decide) (by decide) hc
  obtain ⟨-, hlow, hhigh⟩ := toNat_toUInt8_of_isDigit hdigit
  exact narrow_ascii (by omega) (by omega)

namespace Spans

/-- **A text of narrow characters takes a cell for each.** -/
theorem cells (h : Spans n s) : s.cells = n := by
  obtain ⟨cs, rfl, hcs, rfl⟩ := h
  rw [Bytes.cells, pieces_ofChars, ControlSequence.cellsFrom_narrow hcs]

theorem charCount (h : Spans n s) : s.charCount = n := by
  obtain ⟨cs, rfl, -, rfl⟩ := h
  rw [Bytes.charCount, chars_ofChars]

/-- Whether a text is narrow, as a test of the characters in it. -/
theorem iff_chars : Spans n s ↔
    s.isUtf8 = true ∧ (s.chars.all fun c => decide (Narrow c)) = true ∧ s.charCount = n := by
  constructor
  · rintro ⟨cs, rfl, hcs, rfl⟩
    rw [Bytes.charCount, chars_ofChars]
    exact ⟨isUtf8_ofChars cs, List.all_eq_true.mpr fun c hc => decide_eq_true (hcs c hc), rfl⟩
  · rintro ⟨hutf8, hchars, rfl⟩
    refine ⟨s.chars, (scrub_of_isUtf8 hutf8).symm, fun c hc => ?_, rfl⟩
    exact of_decide_eq_true (List.all_eq_true.mp hchars c hc)

instance : Decidable (Spans n s) := decidable_of_iff _ iff_chars.symm

/-- A text can only span the characters that it has. -/
theorem exists_iff {p : Nat → Prop} :
    (∃ n, Spans n s ∧ p n) ↔ Spans s.charCount s ∧ p s.charCount := by
  constructor
  · rintro ⟨n, hspans, hp⟩
    obtain rfl := hspans.charCount
    exact ⟨hspans, hp⟩
  · exact fun h => ⟨_, h⟩

instance {p : Nat → Prop} [DecidablePred p] : Decidable (∃ n, Spans n s ∧ p n) :=
  decidable_of_iff _ exists_iff.symm

instance : Decidable (∃ n, Spans n s) := decidable_of_iff (∃ n, Spans n s ∧ True) (by simp)

theorem oneLine (h : Spans n s) : s.OneLine := by
  obtain ⟨cs, rfl, hcs, -⟩ := h
  refine ⟨isUtf8_ofChars cs, fun b hb => ?_⟩
  by_contra hlow
  have hmem := mem_chars_of_mem_ascii (by omega) hb
  rw [chars_ofChars] at hmem
  have hshown := (hcs _ hmem).shown
  rw [toNat_ofNat (.inl (by omega))] at hshown
  omega

theorem fitsIn (h : Spans m s) (hle : m ≤ n) : Box.FitsIn n s := ⟨h.oneLine, h.cells.le.trans hle⟩

theorem append (hs : Spans m s) (ht : Spans n t) : Spans (m + n) (s ++ t) := by
  obtain ⟨cs, rfl, hcs, rfl⟩ := hs
  obtain ⟨ds, rfl, hds, rfl⟩ := ht
  refine ⟨cs ++ ds, (ofChars_append cs ds).symm, fun c hc => ?_, List.length_append⟩
  rcases List.mem_append.mp hc with hc | hc
  · exact hcs c hc
  · exact hds c hc

theorem shortenTo (h : Spans n s) {shown : List Char → List Char}
    (hlength : ∀ cs, m < cs.length → (shown cs).length = m)
    (hnarrow : ∀ cs, (∀ c ∈ cs, Narrow c) → ∀ c ∈ shown cs, Narrow c) :
    Spans (min n m) (s.shortenTo m shown) := by
  obtain ⟨cs, rfl, hcs, rfl⟩ := h
  rw [Bytes.shortenTo, Bytes.charCount, chars_ofChars]
  split_ifs with hlong
  · exact ⟨shown cs, rfl, hnarrow cs hcs, by rw [hlength cs hlong]; omega⟩
  · exact ⟨cs, rfl, hcs, by omega⟩

theorem truncate (h : Spans n s) (most : Int) : Spans (min n most.toNat) (s.truncate most) := by
  by_cases hmost : 1 ≤ most
  · rw [truncate_eq_shortenTo hmost]
    exact h.shortenTo (fun _ => length_front (by omega)) fun _ => narrow_front
  · have hnone : s.truncate most = [] := if_pos (by omega)
    rw [hnone, show most.toNat = 0 by omega, Nat.min_zero]
    exact spans_fill 0

theorem truncateLeft (h : Spans n s) {most : Int} (hmost : 0 < most) :
    Spans (min n most.toNat) (s.truncateLeft most) := by
  rw [truncateLeft_eq_shortenTo hmost]
  exact h.shortenTo (fun _ => length_back (by omega)) fun _ => narrow_back

theorem padRight (h : Spans n s) (width : Nat) : Spans (max n width) (s.padRight width) := by
  have hpadded := h.append (spans_fill (width - s.charCount))
  rw [h.charCount] at hpadded
  have hwidth : max n width = n + (width - n) := by omega
  rwa [hwidth, Bytes.padRight, h.charCount]

/-- A text stays narrow without the blank that it begins with. -/
theorem dropBlank (h : Spans n s) : ∃ m, Spans m (dropStart " " s) := by
  unfold dropStart after?
  split_ifs with hblank
  · obtain ⟨r, rfl⟩ := List.isPrefixOf_iff_prefix.mp hblank
    obtain ⟨cs, hspell, hcs, -⟩ := h
    have hpieces := congrArg pieces hspell
    rw [pieces_ofChars] at hpieces
    cases cs with
    | nil => cases hspell
    | cons c cs =>
      obtain ⟨hc, -⟩ := List.cons.inj ((pieces_cons_ascii (b := 0x20) (by decide) r).symm.trans hpieces)
      obtain rfl : c = ' ' := (Piece.char.inj hc).symm
      refine ⟨cs.length, cs, ?_, fun c hc => hcs c (List.mem_cons_of_mem _ hc), rfl⟩
      exact List.append_cancel_left hspell
  · exact ⟨n, h⟩

end Spans

theorem spans_flatMap {α : Type} {f : α → Bytes} {xs : List α} (h : ∀ x ∈ xs, ∃ n, Spans n (f x)) :
    ∃ n, Spans n (xs.flatMap f) := by
  induction xs with
  | nil => exact ⟨0, spans_fill 0⟩
  | cons x xs ih =>
    obtain ⟨hx, hxs⟩ := List.forall_mem_cons.mp h
    obtain ⟨m, hm⟩ := hx
    obtain ⟨n, hn⟩ := ih hxs
    exact ⟨m + n, hm.append hn⟩

end Bytes

namespace Box

open Bytes (Spans)

variable {b : Box} {m n : Nat} {s : Bytes}

theorem spans_fillLine (b : Box) (h : Spans m s) (hle : m ≤ n) : Spans n (b.fillLine n s) := by
  have hgap := Bytes.spans_fill (n - m)
  unfold fillLine
  rw [h.cells]
  split_ifs
  · have hline := hgap.append h
    rwa [Nat.sub_add_cancel hle] at hline
  · have hline := h.append hgap
    rwa [Nat.add_sub_cancel' hle] at hline

/-- A text that fits a box with nothing but a width is one line that fills it. -/
theorem spans_render (hplain : b = { width := b.width, alignRight := b.alignRight }) (hwidth : 0 < b.width)
    (h : Spans n s) (hfits : n ≤ b.width.toNat) : Spans b.width.toNat (b.render s) := by
  have hroom : b.room = b.width.toNat := by
    rw [room, hplain]
    simp
  have hbroken : b.brokenLines s = [s] := by
    have hlines : ∀ l ∈ [s], FitsIn b.room l := List.forall_mem_singleton.mpr (h.fitsIn (by omega))
    have hjoin := brokenLines_join hwidth (by omega) (List.cons_ne_nil _ _) hlines
    simpa [Bytes.join] using hjoin
  have hlines : b.lines s = [b.fillLine b.width.toNat s] := by
    have hinner : b.lines s = b.innerLines s := by
      rw [hplain]
      rfl
    have hside : b.sidePadding = 0 ∧ b.bottomPadding = 0 ∧ b.height = 0 := by
      rw [hplain]
      simp
    have hcells := h.cells
    have hmost : max n b.width.toNat = b.width.toNat := by omega
    rw [hinner]
    unfold innerLines
    rw [hbroken, hside.1, hside.2.1, hside.2.2]
    simp [Bytes.fill, Bytes.widest, hcells, hmost]
    omega
  rw [render, hlines, Bytes.join, List.intercalate_singleton]
  exact b.spans_fillLine h hfits

end Box

namespace Browser

open Bytes (Spans)

/-- **An entry of the list takes one row, however long the name of its patch is**, if there are fewer
than a thousand issues. -/
theorem spans_listEntry {n : Nat} {r : FileReport} {width : Int} (hname : Spans n r.name)
    (hissues : r.issues.length < 1000) (hwidth : 20 ≤ width) :
    Spans (width - 4).toNat (listEntry width r) := by
  have hmark : Spans 2 (if r.isValid then ("✓ " : Bytes) else "✗ ") := by
    split_ifs
    · exact Bytes.spans_ofString _ (by decide +kernel)
    · exact Bytes.spans_ofString _ (by decide +kernel)
  have hroom : 0 < width - 10 := by omega
  have hshort : Spans (width - 10).toNat
      (Bytes.padRight (width - 10).toNat (Bytes.truncateLeft (width - 10) r.name)) := by
    have hpadded := (hname.truncateLeft hroom).padRight (width - 10).toNat
    rwa [max_eq_right (Nat.min_le_right _ _)] at hpadded
  have hblank : Spans 1 (" " : Bytes) := Bytes.spans_ascii " " (by decide +kernel)
  obtain ⟨digits, hdigits, hcount⟩ : ∃ digits ≤ 3,
      Spans digits (if r.isValid then [] else Bytes.ofNat r.issues.length) := by
    split_ifs
    · exact ⟨0, by decide, Bytes.spans_fill 0⟩
    · exact Bytes.spans_ofNat hissues (by decide)
  have htext := ((hmark.append hshort).append hblank).append hcount
  have hbox : 0 < ({ width := width - 4 } : Box).width := by
    simp only
    omega
  exact Box.spans_render rfl hbox htext (by simp only; omega)

end Browser

namespace ShownLine

open Bytes (Spans spans_flatMap)

variable {l : ShownLine} {width : Int}

/-- The texts of a line are of narrow characters, and what is said about its issues is short enough for
a width. -/
structure IsNarrow (width : Int) (l : ShownLine) : Prop where
  number : l.number < 100000
  raw : ∃ n, Spans n l.raw
  tokens : ∀ t ∈ l.code.tokens, ∃ n, Spans n t.text
  notes : l.hasIssue = true →
    ∃ n, Spans n (Bytes.join "; " l.issues) ∧ ((l.raw.charCount + n : Nat) : Int) + 8 ≤ width

instance (l : ShownLine) : Decidable (l.IsNarrow width) :=
  decidable_of_iff (l.number < 100000 ∧ (∃ n, Spans n l.raw) ∧
      (∀ t ∈ l.code.tokens, ∃ n, Spans n t.text) ∧ (l.hasIssue = true →
        ∃ n, Spans n (Bytes.join "; " l.issues) ∧ ((l.raw.charCount + n : Nat) : Int) + 8 ≤ width))
    ⟨fun ⟨h1, h2, h3, h4⟩ => ⟨h1, h2, h3, h4⟩, fun h => ⟨h.number, h.raw, h.tokens, h.notes⟩⟩

theorem spans_contextText (h : l.IsNarrow width) : ∃ n, Spans n l.contextText := by
  have hblank := Bytes.spans_ascii " " (by decide +kernel)
  unfold contextText
  split_ifs
  · obtain ⟨n, hraw⟩ := h.raw
    obtain ⟨m, hrest⟩ := hraw.dropBlank
    exact ⟨_, hblank.append hrest⟩
  · have htexts : ∀ t ∈ l.code.tokens, ∃ n, Spans n (tokenText t) := by
      intro t ht
      obtain ⟨n, htext⟩ := h.tokens t ht
      refine ⟨n, ?_⟩
      unfold tokenText
      split_ifs
      · rwa [Box.render_plain htext.oneLine]
      · exact htext
    obtain ⟨n, htokens⟩ := spans_flatMap htexts
    exact ⟨_, hblank.append htokens⟩

theorem spans_content (h : l.IsNarrow width) {room : Int} (hroom : 0 < room) :
    ∃ n ≤ room.toNat, Spans n (l.content room) := by
  unfold content
  split_ifs with hcontext hlong
  · obtain ⟨n, hplain⟩ := spans_flatMap h.tokens
    have hshort := (Bytes.spans_ascii " " (by decide +kernel)).append (hplain.truncate (room - 1))
    exact ⟨_, by simp; omega, hshort⟩
  · obtain ⟨n, htext⟩ := spans_contextText h
    have hlines : l.contextText.splitOn 0x0A = [l.contextText] :=
      List.splitOn_eq_singleton fun hmem => absurd (htext.oneLine.noControl _ hmem) (by decide)
    rw [hlines, Bytes.widest, List.map_singleton, htext.cells] at hlong
    simp only [List.foldl_cons, List.foldl_nil] at hlong
    exact ⟨n, by omega, htext⟩
  · obtain ⟨n, hraw⟩ := h.raw
    have hshort := hraw.truncate room
    rw [Box.render_plain hshort.oneLine]
    exact ⟨_, Nat.min_le_right _ _, hshort⟩

/-- **A line takes one row**: what is too long of it is cut off, and its issues are said behind it if
there is enough room. -/
theorem spans_render (h : l.IsNarrow width) (hwidth : 8 < width) :
    ∃ n ≤ (width + 2).toNat, Spans n (l.render width) := by
  have hnumber : Spans 5 (numberBox.render (Bytes.ofNat l.number)) := by
    have hsmall : l.number < 10 ^ 5 := h.number
    obtain ⟨digits, hdigits, hspans⟩ := Bytes.spans_ofNat hsmall (by decide)
    exact Box.spans_render rfl (by decide) hspans hdigits
  have hhead := hnumber.append (Bytes.spans_ascii " " (by decide +kernel))
  have hroom : max (width - 8) 1 = width - 8 := by omega
  unfold render
  simp only [hroom]
  split_ifs with hissue
  · obtain ⟨n, hraw⟩ := h.raw
    obtain ⟨k, hnotes, hshort⟩ := h.notes hissue
    rw [hraw.charCount] at hshort
    have htext := hraw.truncate (width - 8)
    have hnote := (Bytes.spans_ofString "  ← " (by decide +kernel)).append hnotes
    rw [Box.render_plain htext.oneLine, Box.render_plain hnote.oneLine]
    refine ⟨_, ?_, (hhead.append htext).append hnote⟩
    simp
    omega
  · have hpos : 0 < width - 8 := by omega
    obtain ⟨n, hn, hcontent⟩ := spans_content h hpos
    refine ⟨_, ?_, hhead.append hcontent⟩
    simp
    omega

end ShownLine

end PatchAudit
