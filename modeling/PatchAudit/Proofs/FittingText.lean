import Mathlib.Data.List.Basic
import Mathlib.Algebra.BigOperators.Group.List.Basic
import PatchAudit.Browser.Layout
import PatchAudit.Proofs.Characters
import PatchAudit.Proofs.JsonText
import PatchAudit.Proofs.Text

/-!
# Texts that fit their lines

A text of well-formed characters without control bytes is all glyphs that say nothing about what comes
after them, and together they take the cells of the text (`glyphs_spec`).  While such a text fits, the
lines are not broken in it (`Held.step`), so a text whose lines fit a box is set line by line as it
stands (`Box.brokenLines_join`).
-/

namespace PatchAudit

/-- A text for one line: well-formed characters and no control bytes. -/
structure Bytes.OneLine (s : Bytes) : Prop where
  utf8 : Bytes.isUtf8 s = true
  noControl : ∀ b ∈ s, 0x20 ≤ b.toNat

theorem Bytes.oneLine_iff {s : Bytes} :
    (s.isUtf8 && s.all fun b => Nat.ble 0x20 b.toNat) = true ↔ s.OneLine := by
  simp only [Bool.and_eq_true, List.all_eq_true, Nat.ble_eq]
  exact ⟨fun ⟨hutf8, hshown⟩ => ⟨hutf8, hshown⟩, fun h => ⟨h.utf8, h.noControl⟩⟩

instance (s : Bytes) : Decidable s.OneLine := decidable_of_iff _ Bytes.oneLine_iff

/-- A piece of a text for one line. -/
def Piece.Shown (p : Piece) : Prop := ∃ c : Char, p = .char c ∧ 0x20 ≤ c.toNat

namespace Bytes

/-- The first byte of a character outside ASCII. -/
theorem head_utf8EncodeChar {c : Char} (hc : 0x80 ≤ c.toNat) :
    ∃ b tails, String.utf8EncodeChar c = b :: tails ∧ 0xC2 ≤ b.toNat ∧ b.toNat ≤ 0xF4 := by
  have hvalid : c.toNat.isValidChar := c.valid
  have hval : c.val.toNat = c.toNat := rfl
  have hbyte : ∀ n : Nat, n < 256 → (UInt8.ofNat n).toNat = n := fun n hn => toNat_byte hn
  unfold String.utf8EncodeChar
  simp only [hval]
  rw [if_neg (by omega)]
  split_ifs with h2 h3
  · refine ⟨_, _, rfl, ?_⟩
    rw [hbyte _ (by omega)]
    omega
  · refine ⟨_, _, rfl, ?_⟩
    rw [hbyte _ (by omega)]
    omega
  · refine ⟨_, _, rfl, ?_⟩
    have hmost : c.toNat < 0x110000 := by
      rcases hvalid with h | h <;> omega
    rw [hbyte _ (by omega)]
    omega

theorem OneLine.pieces {s : Bytes} (h : OneLine s) : ∀ p ∈ pieces s, p.Shown := by
  intro p hp
  have hchar := List.all_eq_true.mp h.utf8 p hp
  cases p with
  | stray b => cases hchar
  | char c =>
    refine ⟨c, rfl, ?_⟩
    by_contra hlow
    have hmem : c.toNat.toUInt8 ∈ s := by
      rw [← flatMap_bytes_pieces s]
      refine List.mem_flatMap.mpr ⟨.char c, hp, ?_⟩
      rw [Piece.bytes, JsonValue.utf8EncodeChar_ascii (by omega)]
      exact List.mem_singleton_self _
    have hshown := h.noControl _ hmem
    rw [Nat.toUInt8_eq, toNat_byte (by omega)] at hshown
    omega

end Bytes

/-! ### Clusters in front of a line end -/

/-- The piece of a line end. -/
def Piece.lineEnd : Piece := .char (Char.ofNat 0x0A)

namespace Cluster

theorem extent_le (picture joined : Bool) (ps : List Piece) : extent picture joined ps ≤ ps.length := by
  fun_induction extent picture joined ps with
  | case1 => exact Nat.le_refl _
  | case2 _ _ p rest _ ih => rw [List.length_cons]; omega
  | case3 _ _ p rest _ _ ih => rw [List.length_cons]; omega
  | case4 _ _ p rest _ _ _ ih => rw [List.length_cons]; omega
  | case5 => exact Nat.zero_le _

/-- No cluster goes over a line end. -/
theorem extent_lineEnd (picture joined : Bool) (ps rest : List Piece) :
    extent picture joined (ps ++ Piece.lineEnd :: rest) = extent picture joined ps := by
  have hend : ∀ picture joined, extent picture joined (Piece.lineEnd :: rest) = 0 := by
    intro picture joined
    have hvalue : value Piece.lineEnd = 10 := by decide
    have hcontinues : continues 10 = false := by decide +kernel
    have hpicture : CellWidth.isIn Pictograph.ranges 10 = false := by decide +kernel
    rw [extent, hvalue, hcontinues, hpicture]
    simp [joiner]
  fun_induction extent picture joined ps with
  | case1 => exact hend _ _
  | case2 _ _ p ps hjoiner ih => rw [List.cons_append, extent, if_pos hjoiner, ih]
  | case3 _ _ p ps hjoiner hmark ih =>
    rw [List.cons_append, extent, if_neg hjoiner, if_pos hmark, ih]
  | case4 _ _ p ps hjoiner hmark hpicture ih =>
    rw [List.cons_append, extent, if_neg hjoiner, if_neg hmark, if_pos hpicture, ih]
  | case5 _ _ p ps hjoiner hmark hpicture =>
    rw [List.cons_append, extent, if_neg hjoiner, if_neg hmark, if_neg hpicture]

theorem length_le (p : Piece) (ps : List Piece) : length p ps ≤ ps.length := by
  unfold length
  extract_lets v parts
  have hparts : parts ≤ ps.length := by
    unfold parts
    split_ifs
    · exact (List.takeWhile_sublist _).length_le
    · exact Nat.zero_le _
  split_ifs with hunseen hflag
  · exact Nat.zero_le _
  · have hrest := extent_le false false (ps.drop 1)
    rw [List.length_drop] at hrest
    cases ps with
    | nil => simp at hflag
    | cons q ps => simp only [List.length_cons] at hrest ⊢; omega
  · have hrest := extent_le (CellWidth.isIn Pictograph.ranges v) false (ps.drop parts)
    rw [List.length_drop] at hrest
    omega

theorem takeWhile_lineEnd {q : Piece → Bool} (hq : q Piece.lineEnd = false) (ps rest : List Piece) :
    (ps ++ Piece.lineEnd :: rest).takeWhile q = ps.takeWhile q := by
  induction ps with
  | nil => simp [hq]
  | cons p ps ih => simp [List.takeWhile_cons, ih]

theorem length_lineEnd (p : Piece) (ps rest : List Piece) :
    length p (ps ++ Piece.lineEnd :: rest) = length p ps := by
  have hvalue : value Piece.lineEnd = 10 := by decide
  have hpart : (isSyllablePart ∘ value) Piece.lineEnd = false := by
    rw [Function.comp_apply, hvalue]
    decide
  have hflag : ((ps ++ Piece.lineEnd :: rest).head?.map value).any isFlagLetter =
      (ps.head?.map value).any isFlagLetter := by
    cases ps with
    | nil => simp [hvalue, isFlagLetter]
    | cons q ps => rfl
  unfold length
  rw [hflag, takeWhile_lineEnd hpart]
  extract_lets v parts
  have hparts : parts ≤ ps.length := by
    unfold parts
    split_ifs
    · exact (List.takeWhile_sublist _).length_le
    · exact Nat.zero_le _
  rw [List.drop_append_of_le_length hparts, extent_lineEnd]
  split_ifs with hunseen hletters
  · rfl
  · cases ps with
    | nil => simp at hletters
    | cons q ps => rw [List.cons_append, List.drop_one, List.drop_one, List.tail_cons, List.tail_cons,
        extent_lineEnd]
  · rfl

theorem cells_lineEnd (p : Piece) (ps rest : List Piece) :
    cells p (ps ++ Piece.lineEnd :: rest) = cells p ps := by
  cases ps with
  | cons q ps => rfl
  | nil =>
    cases p with
    | stray b => rfl
    | char c =>
      have hvalue : value Piece.lineEnd = 10 := by decide
      have hflag : isFlagLetter 10 = false := by decide
      simp [cells, hvalue, hflag, pictureMark]

end Cluster

/-! ### Glyphs of a line -/

namespace ControlSequence

/-- A glyph that tells nothing about the text after it and ends no line, where a blank and a hyphen
take one cell. -/
structure Glyph.Calm (g : Glyph) : Prop where
  effect : g.effect = .nothing
  ne_nil : g.bytes ≠ []
  notEnd : g.bytes ≠ [0x0A]
  narrow : g.bytes = [0x20] ∨ g.bytes = [0x2D] → g.cells = 1

/-- The glyph of a character of ASCII. -/
def asciiGlyph (n : Nat) : Glyph :=
  { bytes := [n.toUInt8], cells := if isShown n.toUInt8 then 1 else 0 }

theorem start_ascii : ∀ n < 128, n ≠ 0x1B → Begun.start n.toUInt8 = ([asciiGlyph n], .nothing) := by
  decide +kernel

theorem fromAnywhere_ascii : ∀ n < 128, n ≠ 0x1B → Place.fromAnywhere n.toUInt8 = .text := by
  decide +kernel

theorem not_begins_ascii : ∀ n < 128, (0xC0 : UInt8) ≤ n.toUInt8 → False := by decide +kernel

theorem not_within_ascii : ∀ n < 128, within 0xC2 0xF4 n.toUInt8 = false := by decide +kernel

section Pieces

variable {c : Char}

/-- A character outside ASCII is a glyph with all of its cluster. -/
theorem glyphsFrom_wide (hc : 0x80 ≤ c.toNat) (rest : List Piece) :
    glyphsFrom 0 .nothing (.char c :: rest) =
      { bytes := String.utf8EncodeChar c ++ (rest.take (Cluster.length (.char c) rest)).flatMap Piece.bytes,
        cells := Cluster.cells (.char c) rest } ::
        glyphsFrom (Cluster.length (.char c) rest) .nothing rest := by
  obtain ⟨b, tails, hspell, hlow, -⟩ := Bytes.head_utf8EncodeChar hc
  have hhead : ((Piece.char c).bytes.head?.any (0xC0 ≤ ·) && !Begun.isQuoting .nothing) = true := by
    have hb : (0xC0 : UInt8) ≤ b := UInt8.le_iff_toNat_le.mpr (le_trans (by decide) hlow)
    simp [Piece.bytes, hspell, hb, Begun.isQuoting]
  rw [glyphsFrom, if_pos hhead]
  rfl

/-- A character of ASCII that begins no sequence is a glyph by itself. -/
theorem glyphsFrom_ascii (hc : c.toNat < 0x80) (hescape : c.toNat ≠ 0x1B) (rest : List Piece) :
    glyphsFrom 0 .nothing (.char c :: rest) = asciiGlyph c.toNat :: glyphsFrom 0 .nothing rest := by
  have hspell : (Piece.char c).bytes = [c.toNat.toUInt8] := JsonValue.utf8EncodeChar_ascii hc
  have hhead : ((Piece.char c).bytes.head?.any (0xC0 ≤ ·) && !Begun.isQuoting .nothing) = false := by
    have hb : ¬ (0xC0 : UInt8) ≤ c.toNat.toUInt8 := not_begins_ascii _ hc
    rw [hspell]
    simp [hb]
  have hfeed : Begun.feedAll .nothing (Piece.char c).bytes = ([asciiGlyph c.toNat], .nothing) := by
    rw [hspell, Begun.feedAll, Begun.feed, start_ascii _ hc hescape]
    rfl
  rw [glyphsFrom, if_neg (by rw [hhead]; decide), hfeed]
  rfl

theorem cellsFrom_wide (hc : 0x80 ≤ c.toNat) (rest : List Piece) :
    cellsFrom 0 .text (.char c :: rest) =
      Cluster.cells (.char c) rest + cellsFrom (Cluster.length (.char c) rest) .text rest := by
  obtain ⟨b, tails, hspell, hlow, hhigh⟩ := Bytes.head_utf8EncodeChar hc
  have hbegins : (beginsCluster (.char c) && !Place.isQuoting .text) = true := by
    have hb1 : (0xC2 : UInt8) ≤ b := UInt8.le_iff_toNat_le.mpr hlow
    have hb2 : b ≤ (0xF4 : UInt8) := UInt8.le_iff_toNat_le.mpr hhigh
    simp [beginsCluster, Piece.bytes, hspell, within, hb1, hb2, Place.isQuoting]
  rw [cellsFrom, if_pos hbegins]

theorem cellsFrom_ascii (hc : c.toNat < 0x80) (hescape : c.toNat ≠ 0x1B) (rest : List Piece) :
    cellsFrom 0 .text (.char c :: rest) =
      (if isShown c.toNat.toUInt8 then 1 else 0) + cellsFrom 0 .text rest := by
  have hspell : (Piece.char c).bytes = [c.toNat.toUInt8] := JsonValue.utf8EncodeChar_ascii hc
  have hbegins : (beginsCluster (.char c) && !Place.isQuoting .text) = false := by
    rw [beginsCluster, hspell]
    simp [not_within_ascii _ hc]
  have hplace : (Piece.char c).bytes.foldl Place.next .text = .text := by
    rw [hspell]
    exact fromAnywhere_ascii _ hc hescape
  rw [cellsFrom, if_neg (by rw [hbegins]; decide), hplace, hspell]
  simp

end Pieces

/-- A character that is shown is one outside ASCII, or one of it that begins no sequence. -/
theorem shown_cases {p : Piece} (h : p.Shown) :
    ∃ c : Char, p = .char c ∧ (0x80 ≤ c.toNat ∨ 0x20 ≤ c.toNat ∧ c.toNat < 0x80 ∧ c.toNat ≠ 0x1B) := by
  obtain ⟨c, rfl, hc⟩ := h
  exact ⟨c, rfl, by omega⟩

theorem toNat_toUInt8 {n : Nat} (h : n < 0x80) : n.toUInt8.toNat = n := by
  rw [Nat.toUInt8_eq, Bytes.toNat_byte (by omega)]

theorem calm_wide {c : Char} (hc : 0x80 ≤ c.toNat) (more : Bytes) (cells : Nat) :
    Glyph.Calm { bytes := String.utf8EncodeChar c ++ more, cells := cells } := by
  obtain ⟨b, tails, hspell, hlow, -⟩ := Bytes.head_utf8EncodeChar hc
  have hne : ∀ x : UInt8, x.toNat < 0x80 → String.utf8EncodeChar c ++ more ≠ [x] := by
    intro x hx heq
    rw [hspell] at heq
    obtain ⟨rfl, -⟩ := List.cons.inj heq
    omega
  refine ⟨rfl, by simp [hspell], hne _ (by decide), fun hnarrow => ?_⟩
  rcases hnarrow with h | h
  · exact absurd h (hne _ (by decide))
  · exact absurd h (hne _ (by decide))

theorem calm_ascii {n : Nat} (hlow : 0x20 ≤ n) (hhigh : n < 0x80) : (asciiGlyph n).Calm := by
  refine ⟨rfl, by simp [asciiGlyph], fun hend => ?_, fun hnarrow => ?_⟩
  · have hbyte := congrArg UInt8.toNat (List.cons.inj hend).1
    rw [toNat_toUInt8 hhigh] at hbyte
    have hnewline : (0x0A : UInt8).toNat = 10 := rfl
    omega
  · have hbyte : n.toUInt8 = 0x20 ∨ n.toUInt8 = 0x2D := by simpa [asciiGlyph] using hnarrow
    unfold asciiGlyph
    rcases hbyte with h | h <;> rw [h] <;> decide

/-- What a text that is shown is made of: calm glyphs, which spell it and take its cells. -/
structure Spells (ps : List Piece) (cells : Nat) (gs : List Glyph) : Prop where
  calm : ∀ g ∈ gs, g.Calm
  bytes : gs.flatMap Glyph.bytes = ps.flatMap Piece.bytes
  cells : (gs.map Glyph.cells).sum = cells

theorem spells_glyphsFrom {ps : List Piece} (h : ∀ p ∈ ps, p.Shown) {n : Nat} (hn : n ≤ ps.length) :
    Spells (ps.drop n) (cellsFrom n .text ps) (glyphsFrom n .nothing ps) := by
  induction ps generalizing n with
  | nil =>
    obtain rfl : n = 0 := by simpa using hn
    exact ⟨fun g hg => absurd hg List.not_mem_nil, rfl, rfl⟩
  | cons p ps ih =>
    obtain ⟨hp, hps⟩ := List.forall_mem_cons.mp h
    cases n with
    | succ n => exact ih hps (by simpa using hn)
    | zero =>
      obtain ⟨c, rfl, hwide | ⟨hlow, hhigh, hescape⟩⟩ := shown_cases hp
      · have hrest := ih hps (Cluster.length_le (.char c) ps)
        rw [glyphsFrom_wide hwide, cellsFrom_wide hwide]
        refine ⟨List.forall_mem_cons.mpr ⟨calm_wide hwide _ _, hrest.calm⟩, ?_, ?_⟩
        · rw [List.flatMap_cons, hrest.bytes, List.append_assoc, ← List.flatMap_append,
            List.take_append_drop]
          rfl
        · rw [List.map_cons, List.sum_cons, hrest.cells]
      · have hrest := ih hps (Nat.zero_le _)
        rw [glyphsFrom_ascii hhigh hescape, cellsFrom_ascii hhigh hescape]
        refine ⟨List.forall_mem_cons.mpr ⟨calm_ascii hlow hhigh, hrest.calm⟩, ?_, ?_⟩
        · rw [List.flatMap_cons, hrest.bytes, List.drop_zero, List.drop_zero, List.flatMap_cons,
            Piece.bytes, JsonValue.utf8EncodeChar_ascii hhigh]
          rfl
        · rw [List.map_cons, List.sum_cons, hrest.cells]
          rfl

/-- **A text for one line is made of calm glyphs**, which spell it and take its cells. -/
theorem glyphs_spec {s : Bytes} (h : s.OneLine) :
    (∀ g ∈ glyphs s, g.Calm) ∧ (glyphs s).flatMap Glyph.bytes = s ∧
      ((glyphs s).map Glyph.cells).sum = s.cells := by
  have hspells := spells_glyphsFrom h.pieces (Nat.zero_le _)
  refine ⟨hspells.calm, hspells.bytes.trans ?_, hspells.cells⟩
  rw [List.drop_zero, Bytes.flatMap_bytes_pieces]

/-- The glyph of a line end. -/
def lineEnd : Glyph := { bytes := [0x0A] }

theorem glyphsFrom_lineEnd {ps : List Piece} (h : ∀ p ∈ ps, p.Shown) (rest : List Piece) {n : Nat}
    (hn : n ≤ ps.length) :
    glyphsFrom n .nothing (ps ++ Piece.lineEnd :: rest) =
      glyphsFrom n .nothing ps ++ lineEnd :: glyphsFrom 0 .nothing rest := by
  induction ps generalizing n with
  | nil =>
    obtain rfl : n = 0 := by simpa using hn
    exact glyphsFrom_ascii (by decide) (by decide) rest
  | cons p ps ih =>
    obtain ⟨hp, hps⟩ := List.forall_mem_cons.mp h
    cases n with
    | succ n => exact ih hps (by simpa using hn)
    | zero =>
      have hle := Cluster.length_le p ps
      obtain ⟨c, rfl, hwide | ⟨hlow, hhigh, hescape⟩⟩ := shown_cases hp
      · rw [List.cons_append, glyphsFrom_wide hwide, glyphsFrom_wide hwide, Cluster.length_lineEnd,
          Cluster.cells_lineEnd, List.take_append_of_le_length hle, ih hps hle]
        rfl
      · rw [List.cons_append, glyphsFrom_ascii hhigh hescape, glyphsFrom_ascii hhigh hescape,
          ih hps (Nat.zero_le _)]
        rfl

/-- The glyphs of a text that goes on after a line end. -/
theorem glyphs_append {s : Bytes} (h : s.OneLine) (t : Bytes) :
    glyphs (s ++ 0x0A :: t) = glyphs s ++ lineEnd :: glyphs t := by
  have hpieces : Bytes.pieces (s ++ 0x0A :: t) = Bytes.pieces s ++ Piece.lineEnd :: Bytes.pieces t := by
    rw [Bytes.pieces, Bytes.piecesFrom_append_ascii (by decide) s t (Nat.zero_le _),
      Bytes.pieces_cons_ascii (by decide)]
    rfl
  rw [glyphs, hpieces, glyphsFrom_lineEnd h.pieces _ (Nat.zero_le _)]
  rfl

end ControlSequence

/-! ### Lines that are not broken -/

namespace Wrap

open ControlSequence (Glyph lineEnd glyphs)

/-- A line in progress that fits so far: nothing in it is broken or dropped, and it has no style. -/
structure Held (done : List Bytes) (text : Bytes) (total : Nat) (w : Wrap) : Prop where
  done : w.done = done
  text : w.line ++ Bytes.fill w.blanks 0x20 ++ w.word = text
  cells : w.cells + w.blanks + w.wordCells = total
  noWord : w.word = [] → w.wordCells = 0
  style : w.style = {}
  link : w.link = {}
  lineStyle : w.lineStyle = {}
  lineLink : w.lineLink = {}

variable {done : List Bytes} {text : Bytes} {total limit : Nat} {w : Wrap}

theorem held_start : Held [] [] 0 {} := ⟨rfl, rfl, rfl, fun _ => rfl, rfl, rfl, rfl, rfl⟩

theorem fill_zero : Bytes.fill 0 0x20 = [] := rfl

theorem Held.flushBlanks (h : Held done text total w) : Held done text total w.flushBlanks where
  done := h.done
  text := by
    rw [← h.text]
    simp [Wrap.flushBlanks, fill_zero]
  cells := h.cells
  noWord := h.noWord
  style := h.style
  link := h.link
  lineStyle := h.lineStyle
  lineLink := h.lineLink

theorem Held.flushWord (h : Held done text total w) : Held done text total w.flushWord := by
  unfold Wrap.flushWord
  split_ifs with hword
  · exact h
  · have hblanks := h.flushBlanks
    refine ⟨hblanks.done, ?_, ?_, fun _ => rfl, hblanks.style, hblanks.link, hblanks.style, hblanks.link⟩
    · rw [← hblanks.text]
      simp [Wrap.flushBlanks, fill_zero]
    · rw [← hblanks.cells]
      simp [Wrap.flushBlanks]

theorem word_flushWord (w : Wrap) : w.flushWord.word = [] := by
  unfold flushWord
  split_ifs with hword
  · exact List.isEmpty_iff.mp hword
  · rfl

theorem blanks_flushWord {w : Wrap} (h : w.word ≠ []) : w.flushWord.blanks = 0 := by
  rw [flushWord, if_neg (by simpa using h)]
  rfl

theorem blanks_flushed (w : Wrap) : w.flushBlanks.flushWord.blanks = 0 := by
  by_cases hword : w.flushBlanks.word = []
  · rw [flushWord, if_pos (List.isEmpty_iff.mpr hword)]
    rfl
  · exact blanks_flushWord hword

theorem Held.extend (h : Held done text total w) {bytes : Bytes} (hne : bytes ≠ []) {cells : Nat}
    (hfits : total + cells ≤ limit) :
    Held done (text ++ bytes) (total + cells) (w.extend limit bytes cells) := by
  have hcells := h.cells
  have hshort : ¬ limit < w.wordCells + cells := by omega
  have hlong : ¬ limit < w.cells + (w.wordCells + cells) + w.blanks := by omega
  unfold Wrap.extend
  simp only [if_neg hshort, if_neg hlong]
  refine ⟨h.done, ?_, ?_, fun hword => ?_, h.style, h.link, h.lineStyle, h.lineLink⟩
  · rw [← h.text]
    simp only [List.append_assoc]
  · rw [← hcells]
    simp only
    omega
  · exact absurd (List.append_eq_nil_iff.mp hword).2 hne

theorem Held.hyphen (h : Held done text total w) (hfits : total + 1 ≤ limit) :
    Held done (text ++ [0x2D]) (total + 1) (w.hyphen limit) := by
  have hblanks := h.flushBlanks
  have hcells := hblanks.cells
  have hroom : w.flushBlanks.cells + w.flushBlanks.wordCells + 1 ≤ limit := by
    have hzero : w.flushBlanks.blanks = 0 := rfl
    omega
  have hword := hblanks.flushWord
  have hempty := word_flushWord w.flushBlanks
  have hnone := blanks_flushed w
  unfold Wrap.hyphen
  simp only [if_pos hroom]
  have htext := hword.text
  have htotal := hword.cells
  rw [hempty, hnone, fill_zero] at htext
  refine ⟨hword.done, ?_, ?_, hword.noWord, hword.style, hword.link, hword.lineStyle, hword.lineLink⟩
  · simp only [hempty, hnone, fill_zero, List.append_nil] at htext ⊢
    rw [htext]
  · simp only
    omega

/-- **A glyph is added to a line that it fits on.** -/
theorem Held.step (h : Held done text total w) {g : Glyph} (hg : g.Calm)
    (hfits : total + g.cells ≤ limit) :
    Held done (text ++ g.bytes) (total + g.cells) (w.step limit g) := by
  unfold Wrap.step
  rw [if_neg hg.notEnd]
  split_ifs with hzero hblank hhyphen
  · rw [hg.effect, hzero]
    refine ⟨h.done, ?_, h.cells, fun hword => ?_, h.style, h.link, h.lineStyle, h.lineLink⟩
    · rw [← h.text]
      simp only [Wrap.heed, List.append_assoc]
    · exact absurd (List.append_eq_nil_iff.mp hword).2 hg.ne_nil
  · have hword := h.flushWord
    have hempty := word_flushWord w
    have hcells := hword.cells
    rw [hg.narrow (.inl hblank.1), hblank.1]
    refine ⟨hword.done, ?_, ?_, hword.noWord, hword.style, hword.link, hword.lineStyle, hword.lineLink⟩
    · rw [← hword.text]
      simp only [hempty, List.append_nil, List.append_assoc, Bytes.fill]
      rw [List.replicate_succ']
    · simp only
      omega
  · have hone := hg.narrow (.inr hhyphen)
    rw [hone, hhyphen]
    exact h.hyphen (by omega)
  · exact h.extend hg.ne_nil hfits

theorem Held.foldl {gs : List Glyph} (h : Held done text total w) (hgs : ∀ g ∈ gs, g.Calm)
    (hfits : total + (gs.map Glyph.cells).sum ≤ limit) :
    Held done (text ++ gs.flatMap Glyph.bytes) (total + (gs.map Glyph.cells).sum)
      (gs.foldl (Wrap.step limit) w) := by
  induction gs generalizing w text total with
  | nil => simpa using h
  | cons g gs ih =>
    obtain ⟨hg, hrest⟩ := List.forall_mem_cons.mp hgs
    rw [List.map_cons, List.sum_cons] at hfits
    have hstep := ih (h.step hg (by omega : total + g.cells ≤ limit)) hrest (by omega)
    simpa [List.append_assoc, Nat.add_assoc] using hstep

/-- Where the text ends a line, all of it is on the line. -/
theorem Held.settle (h : Held done text total w) (hfits : total ≤ limit) :
    Held done text total (w.settle limit) ∧ (w.settle limit).blanks = 0 ∧
      (w.settle limit).word = [] := by
  have hcells := h.cells
  unfold Wrap.settle
  by_cases hzero : w.wordCells = 0
  · have hroom : ¬ limit < w.cells + w.blanks := by omega
    simp only [if_pos hzero, if_neg hroom]
    exact ⟨h.flushBlanks.flushWord, blanks_flushed w, word_flushWord _⟩
  · simp only [if_neg hzero]
    exact ⟨h.flushWord, blanks_flushWord fun hword => hzero (h.noWord hword), word_flushWord w⟩

theorem Held.line_settle (h : Held done text total w) (hfits : total ≤ limit) :
    (w.settle limit).line = text := by
  obtain ⟨hheld, hblanks, hword⟩ := h.settle hfits
  have htext := hheld.text
  rw [hblanks, hword, fill_zero, List.append_nil, List.append_nil] at htext
  exact htext

theorem Held.ends (h : Held done text total w) : w.styleEnd = [] ∧ w.linkEnd = [] := by
  unfold styleEnd linkEnd
  rw [h.lineStyle, h.lineLink]
  decide

/-- A line end finishes the line and begins an empty one. -/
theorem Held.lineEnd (h : Held done text total w) (hfits : total ≤ limit) :
    Held (text :: done) [] 0 (w.step limit ControlSequence.lineEnd) := by
  obtain ⟨hheld, hblanks, hword⟩ := h.settle hfits
  obtain ⟨hstyle, hlink⟩ := hheld.ends
  have hstep : w.step limit ControlSequence.lineEnd = (w.settle limit).breakLine := if_pos rfl
  have hnothing : ControlSequence.Link.isEmpty {} = true := rfl
  rw [hstep]
  refine ⟨?_, ?_, ?_, hheld.noWord, hheld.style, hheld.link, hheld.lineStyle, hheld.lineLink⟩
  · simp only [breakLine, hstyle, hlink, List.append_nil, h.line_settle hfits, hheld.done]
  · simp [breakLine, hheld.lineStyle, hheld.lineLink, hnothing, hword, fill_zero]
  · simp only [breakLine, hheld.noWord hword]

/-- The lines, when the text has come to its end. -/
def finish (limit : Nat) (w : Wrap) : List Bytes :=
  let w := w.settle limit
  ((w.line ++ w.linkEnd ++ w.styleEnd) :: w.done).reverse

theorem Held.finish (h : Held done text total w) (hfits : total ≤ limit) :
    w.finish limit = done.reverse ++ [text] := by
  obtain ⟨hheld, -⟩ := h.settle hfits
  obtain ⟨hstyle, hlink⟩ := hheld.ends
  simp only [Wrap.finish, hstyle, hlink, List.append_nil, h.line_settle hfits, hheld.done,
    List.reverse_cons]

/-- A text that fits is put on an empty line as a whole. -/
theorem Held.fill_line (h : Held done [] 0 w) {line : Bytes} (hline : line.OneLine)
    (hfits : line.cells ≤ limit) :
    Held done line line.cells ((glyphs line).foldl (Wrap.step limit) w) := by
  obtain ⟨hcalm, hbytes, hcells⟩ := ControlSequence.glyphs_spec hline
  have hheld := @Held.foldl done [] 0 limit w _ h hcalm (by rw [hcells]; omega)
  rwa [hbytes, hcells, List.nil_append, Nat.zero_add] at hheld

/-- A text whose lines all fit is set as it stands. -/
theorem Held.finish_foldl (h : Held done [] 0 w) (line : Bytes) (more : List Bytes)
    (hlines : ∀ l ∈ line :: more, l.OneLine ∧ l.cells ≤ limit) :
    ((glyphs (Bytes.join [0x0A] (line :: more))).foldl (Wrap.step limit) w).finish limit =
      done.reverse ++ line :: more := by
  induction more generalizing w done line with
  | nil =>
    obtain ⟨hline, hfits⟩ := hlines line List.mem_cons_self
    have hjoin : Bytes.join [0x0A] [line] = line := by simp [Bytes.join]
    rw [hjoin, (h.fill_line hline hfits).finish hfits]
  | cons next more ih =>
    obtain ⟨⟨hline, hfits⟩, hmore⟩ := List.forall_mem_cons.mp hlines
    have hjoin : Bytes.join [0x0A] (line :: next :: more) =
        line ++ 0x0A :: Bytes.join [0x0A] (next :: more) := by
      rw [Bytes.join, List.intercalate_cons_cons, List.append_assoc]
      rfl
    rw [hjoin, ControlSequence.glyphs_append hline, List.foldl_append, List.foldl_cons,
      ih ((h.fill_line hline hfits).lineEnd hfits) next hmore, List.reverse_cons, List.append_assoc]
    rfl

/-- **A text whose lines fit is broken into just these lines.** -/
theorem lines_join (line : Bytes) (more : List Bytes)
    (hlines : ∀ l ∈ line :: more, l.OneLine ∧ l.cells ≤ limit) :
    lines limit (Bytes.join [0x0A] (line :: more)) = line :: more :=
  held_start.finish_foldl line more hlines

end Wrap

namespace Box

theorem expandTabs_of_not_mem {s : Bytes} (h : 0x09 ∉ s) : expandTabs s = s := by
  unfold expandTabs
  have hbyte : ∀ b ∈ s, (if b = 0x09 then Bytes.fill 4 0x20 else [b]) = [b] := by
    intro b hb
    refine if_neg ?_
    rintro rfl
    exact h hb
  rw [List.flatMap_congr hbyte]
  exact List.flatMap_singleton' s

end Box

theorem Bytes.plainEnds_of_no_return {s : Bytes} (h : 0x0D ∉ s) : plainEnds s = s := by
  induction s with
  | nil => rfl
  | cons b s ih =>
    rw [List.mem_cons, not_or] at h
    rw [plainEnds, ih h.2]
    rintro r rfl
    exact absurd rfl h.1

namespace Box

variable {b : Box}

/-- A text fits a number of cells as one line. -/
def FitsIn (n : Nat) (s : Bytes) : Prop := s.OneLine ∧ s.cells ≤ n

instance (n : Nat) (s : Bytes) : Decidable (FitsIn n s) := inferInstanceAs (Decidable (_ ∧ _))

/-- The cells of a line of a box. -/
def room (b : Box) : Nat := (b.width - 2 * b.sidePadding).toNat

/-- **A text whose lines fit a box is set in it line by line as it stands.** -/
theorem brokenLines_join (hwidth : 0 < b.width) (hroom : 0 < b.room) {lines : List Bytes}
    (hne : lines ≠ []) (hlines : ∀ l ∈ lines, FitsIn b.room l) :
    b.brokenLines (Bytes.join [0x0A] lines) = lines := by
  have hclean : ∀ x : UInt8, x.toNat < 0x20 → x ≠ 0x0A → x ∉ Bytes.join [0x0A] lines := by
    intro x hlow hx hmem
    rcases Bytes.mem_join hmem with hsep | ⟨l, hl, hmem⟩
    · exact hx (List.mem_singleton.mp hsep)
    · have hshown := (hlines l hl).1.noControl x hmem
      omega
  obtain ⟨line, more, rfl⟩ := List.exists_cons_of_ne_nil hne
  have hplain : Bytes.plainEnds (expandTabs (Bytes.join [0x0A] (line :: more))) =
      Bytes.join [0x0A] (line :: more) := by
    rw [expandTabs_of_not_mem (hclean 0x09 (by decide) (by decide)),
      Bytes.plainEnds_of_no_return (hclean 0x0D (by decide) (by decide))]
  have hwrapped : Wrap.lines b.room (Bytes.join [0x0A] (line :: more)) = line :: more :=
    Wrap.lines_join line more hlines
  have hsplit : ∀ l ∈ line :: more, l.splitOn 0x0A = [l] := fun l hl =>
    List.splitOn_eq_singleton fun hmem => absurd ((hlines l hl).1.noControl _ hmem) (by decide)
  unfold brokenLines
  simp only [hplain]
  rw [← room, if_pos ⟨hwidth, hroom⟩, hwrapped, List.flatMap_congr hsplit]
  exact List.flatMap_singleton' _

end Box

end PatchAudit
