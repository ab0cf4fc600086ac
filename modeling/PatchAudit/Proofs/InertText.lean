import Mathlib.Data.Bool.AllAny
import Mathlib.Data.List.Basic
import PatchAudit.Proofs.Text
import PatchAudit.Report.Html

/-!
# Escaped text is no markup

A reader of a page takes it apart into lexemes: tags, references and single bytes of text.  What begins
and ends in text is read by itself, whatever stands behind it (`lexemes_append`).  An escaped text is
read byte by byte, each byte as itself or as one whole reference (`lexemes_escape`), and resolving the
references gives the text back (`unescape_escape`).
-/

namespace PatchAudit

namespace Markup

/-! ### Reading a page -/

/-- Where a reader of a page stands. -/
inductive Mode where
  | text
  | tag
  | quoted (mark : UInt8)
  | reference
  deriving DecidableEq, Repr

/-- Where a reader stands behind the next byte.  An angle bracket and an ampersand in a text always
open something, and what they open ends with the other bracket, outside quotes, or a semicolon. -/
def Mode.next : Mode → UInt8 → Mode
  | text, b => if b = 0x3C then tag else if b = 0x26 then reference else text
  | tag, b => if b = 0x3E then text else if b = 0x22 ∨ b = 0x27 then quoted b else tag
  | quoted mark, b => if b = mark then tag else quoted mark
  | reference, b => if b = 0x3B then text else reference

/-- Lexemes from a place on: `read` is what has been read of the one that the reader stands in. -/
def lexemesFrom (m : Mode) (read : Bytes) : Bytes → List Bytes
  | [] => if read.isEmpty then [] else [read]
  | b :: r =>
    match m.next b with
    | .text => (read ++ [b]) :: lexemesFrom .text [] r
    | m => lexemesFrom m (read ++ [b]) r

/-- The lexemes of a text: a tag, a reference or a single byte each. -/
def lexemes (s : Bytes) : List Bytes := lexemesFrom .text [] s

/-- Whether a lexeme is a tag. -/
def isTag (l : Bytes) : Bool := l.head? == some 0x3C

/-- The tags of a page. -/
def tags (page : Bytes) : List Bytes := (lexemes page).filter isTag

/-- A text that begins and ends in text. -/
def Closed (s : Bytes) : Prop := s.foldl Mode.next .text = .text

instance (s : Bytes) : Decidable (Closed s) := inferInstanceAs (Decidable (_ = _))

theorem flatten_lexemesFrom (m : Mode) (read s : Bytes) :
    (lexemesFrom m read s).flatten = read ++ s := by
  induction s generalizing m read with
  | nil =>
    unfold lexemesFrom
    by_cases hread : read.isEmpty = true
    · simp [List.isEmpty_iff.mp hread]
    · simp [hread]
  | cons b r ih =>
    unfold lexemesFrom
    split
    · rw [List.flatten_cons, ih, List.nil_append, List.append_assoc]
      rfl
    · rw [ih, List.append_assoc]
      rfl

/-- Lexemes spell the text that they were read from. -/
theorem flatten_lexemes (s : Bytes) : (lexemes s).flatten = s := flatten_lexemesFrom .text [] s

theorem lexemesFrom_append {m : Mode} {read s : Bytes} (h : s.foldl Mode.next m = .text)
    (hread : m = .text → read = []) (r : Bytes) :
    lexemesFrom m read (s ++ r) = lexemesFrom m read s ++ lexemes r := by
  induction s generalizing m read with
  | nil =>
    obtain rfl : m = .text := h
    obtain rfl := hread rfl
    rfl
  | cons b s ih =>
    rw [List.foldl_cons] at h
    rw [List.cons_append, lexemesFrom, lexemesFrom]
    cases hnext : m.next b with
    | text =>
      rw [hnext] at h
      simp only
      rw [ih h fun _ => rfl, List.cons_append]
    | tag =>
      rw [hnext] at h
      exact ih h nofun
    | quoted mark =>
      rw [hnext] at h
      exact ih h nofun
    | reference =>
      rw [hnext] at h
      exact ih h nofun

/-- What begins and ends in text is read by itself. -/
theorem lexemes_append {s : Bytes} (h : Closed s) (r : Bytes) :
    lexemes (s ++ r) = lexemes s ++ lexemes r := lexemesFrom_append h (fun _ => rfl) r

theorem Closed.append {s r : Bytes} (hs : Closed s) (hr : Closed r) : Closed (s ++ r) := by
  unfold Closed at *
  rw [List.foldl_append, hs, hr]

/-! ### Text -/

/-- A byte that opens nothing in a text. -/
def IsPlain (b : UInt8) : Prop := b ≠ 0x3C ∧ b ≠ 0x26

instance (b : UInt8) : Decidable (IsPlain b) := inferInstanceAs (Decidable (_ ∧ _))

/-- A text that is no markup: it begins and ends in text and has no tags. -/
structure Inert (s : Bytes) : Prop where
  closed : Closed s
  noTag : ∀ l ∈ lexemes s, isTag l = false

instance (s : Bytes) : Decidable (Inert s) :=
  decidable_of_iff (Closed s ∧ ∀ l ∈ lexemes s, isTag l = false)
    ⟨fun ⟨hclosed, hnone⟩ => ⟨hclosed, hnone⟩, fun h => ⟨h.closed, h.noTag⟩⟩

theorem Inert.append {s r : Bytes} (hs : Inert s) (hr : Inert r) : Inert (s ++ r) := by
  refine ⟨hs.closed.append hr.closed, ?_⟩
  intro l hl
  rw [lexemes_append hs.closed] at hl
  rcases List.mem_append.mp hl with hl | hl
  · exact hs.noTag l hl
  · exact hr.noTag l hl

theorem lexemes_singleton {b : UInt8} (h : IsPlain b) :
    Closed [b] ∧ lexemes [b] = [[b]] ∧ isTag [b] = false := by
  obtain ⟨hopen, hreference⟩ := h
  have hnext : Mode.text.next b = .text := by rw [Mode.next, if_neg hopen, if_neg hreference]
  refine ⟨hnext, ?_, by simpa [isTag] using hopen⟩
  rw [lexemes, lexemesFrom, hnext]
  rfl

theorem inert_of_plain {s : Bytes} (h : ∀ b ∈ s, IsPlain b) : Inert s := by
  induction s with
  | nil => decide
  | cons b s ih =>
    obtain ⟨hclosed, hread, hnoTag⟩ := lexemes_singleton (h b List.mem_cons_self)
    have hb : Inert [b] := by
      refine ⟨hclosed, ?_⟩
      rw [hread]
      exact List.forall_mem_singleton.mpr hnoTag
    exact hb.append (ih fun c hc => h c (List.mem_cons_of_mem _ hc))

/-! ### References -/

/-- What references stand for. -/
structure References where
  /-- The text that a reference stands for, by what it has between the ampersand and the semicolon. -/
  text? : Bytes → Option Bytes
  amp : text? "amp" = some "&"
  lt : text? "lt" = some "<"
  gt : text? "gt" = some ">"
  /-- A numeral stands for the character of that number. -/
  numeral : ∀ n : Nat, 0 < n → n < 128 → text? ("#" ++ Bytes.ofNat n) = some [n.toUInt8]

/-- The references by name and number that every page may use. -/
def References.basic : References where
  text? body :=
    if body = "amp" then some "&" else if body = "lt" then some "<" else if body = "gt" then some ">"
    else ((List.range 128).find? fun n => 0 < n ∧ body = "#" ++ Bytes.ofNat n).map fun n => [n.toUInt8]
  amp := rfl
  lt := rfl
  gt := rfl
  numeral n hpos hsmall := by
    have hfind : ((List.range 128).find? fun m => 0 < m ∧
        Bytes.ofString "#" ++ Bytes.ofNat n = Bytes.ofString "#" ++ Bytes.ofNat m) = some n := by
      refine List.find?_range_eq_some.mpr ⟨decide_eq_true ⟨hpos, rfl⟩, List.mem_range.mpr hsmall, ?_⟩
      intro m hm
      have hne : Bytes.ofNat n ≠ Bytes.ofNat m := fun heq => Nat.ne_of_gt hm (Bytes.ofNat_injective heq)
      simp [hne]
    have hname : ∀ name ∈ [Bytes.ofString "amp", Bytes.ofString "lt", Bytes.ofString "gt"],
        Bytes.ofString "#" ++ Bytes.ofNat n ≠ name := by
      intro name hmem heq
      have hhead : ∀ name ∈ [Bytes.ofString "amp", Bytes.ofString "lt", Bytes.ofString "gt"],
          name.head? ≠ some 0x23 := by decide
      exact hhead name hmem (heq ▸ rfl)
    rw [if_neg (hname _ (by simp)), if_neg (hname _ (by simp)), if_neg (hname _ (by simp)), hfind]
    rfl

/-- A text with its references resolved after passing over a number of bytes.  An ampersand that
begins no known reference stays. -/
def unescapeFrom (refs : References) : Nat → Bytes → Bytes
  | _, [] => []
  | n + 1, _ :: r => unescapeFrom refs n r
  | 0, b :: r =>
    match if b = 0x26 ∧ 0x3B ∈ r then refs.text? (r.takeWhile (· != 0x3B)) else none with
    | some t => t ++ unescapeFrom refs ((r.takeWhile (· != 0x3B)).length + 1) r
    | none => b :: unescapeFrom refs 0 r

/-- A text with its references resolved. -/
def unescape (refs : References) (s : Bytes) : Bytes := unescapeFrom refs 0 s

theorem unescapeFrom_append (refs : References) (x r : Bytes) :
    unescapeFrom refs x.length (x ++ r) = unescape refs r := by
  induction x with
  | nil => rfl
  | cons b x ih => rw [List.cons_append, List.length_cons, unescapeFrom, ih]

theorem unescape_reference {refs : References} {body t : Bytes} (hbody : 0x3B ∉ body)
    (h : refs.text? body = some t) (r : Bytes) :
    unescape refs (0x26 :: body ++ [0x3B] ++ r) = t ++ unescape refs r := by
  have hall : ∀ c ∈ body, (c != 0x3B) = true := fun c hc =>
    bne_iff_ne.mpr (ne_of_mem_of_not_mem hc hbody)
  have htake : (body ++ 0x3B :: r).takeWhile (· != 0x3B) = body := by
    rw [List.takeWhile_append_of_pos hall, List.takeWhile_cons_of_neg (by simp), List.append_nil]
  have hskip : unescapeFrom refs (body.length + 1) (body ++ 0x3B :: r) = unescape refs r := by
    have hpast := unescapeFrom_append refs (body ++ [0x3B]) r
    rwa [List.length_append, List.append_assoc] at hpast
  have hmem : (0x3B : UInt8) ∈ body ++ 0x3B :: r := by simp
  rw [List.cons_append, List.cons_append, List.append_assoc, unescape, List.singleton_append,
    unescapeFrom, htake, if_pos ⟨rfl, hmem⟩, h]
  simp only
  rw [hskip]

theorem unescape_plain {refs : References} {b : UInt8} (h : b ≠ 0x26) (r : Bytes) :
    unescape refs (b :: r) = b :: unescape refs r := by
  rw [unescape, unescapeFrom, if_neg fun hb => h hb.1]
  rfl

/-! ### Escaped text -/

/-- The bytes that have a meaning in markup. -/
def markupBytes : Bytes := "<>&\"'"

/-- What the references that are written have between the ampersand and the semicolon. -/
def writtenReferences : List Bytes := ["amp", "#39", "lt", "gt", "#34"]

/-- A byte has no meaning and is written as it is, or it is written as the reference that stands for
it. -/
theorem escapeByte_cases (b : UInt8) : (escapeByte b = [b] ∧ b ∉ markupBytes) ∨
    ∃ body ∈ writtenReferences, escapeByte b = 0x26 :: body ++ [0x3B] ∧
      ∀ refs : References, refs.text? body = some [b] := by
  by_cases hamp : b = 0x26
  · subst hamp
    exact .inr ⟨"amp", by decide, rfl, fun refs => refs.amp⟩
  by_cases hsingle : b = 0x27
  · subst hsingle
    exact .inr ⟨"#39", by decide, rfl, fun refs => refs.numeral 39 (by decide) (by decide)⟩
  by_cases hlt : b = 0x3C
  · subst hlt
    exact .inr ⟨"lt", by decide, rfl, fun refs => refs.lt⟩
  by_cases hgt : b = 0x3E
  · subst hgt
    exact .inr ⟨"gt", by decide, rfl, fun refs => refs.gt⟩
  by_cases hdouble : b = 0x22
  · subst hdouble
    exact .inr ⟨"#34", by decide, rfl, fun refs => refs.numeral 34 (by decide) (by decide)⟩
  · have hmarks : markupBytes = [0x3C, 0x3E, 0x26, 0x22, 0x27] := by decide
    refine .inl ⟨?_, by simp [hmarks, hamp, hsingle, hlt, hgt, hdouble]⟩
    rw [escapeByte, if_neg hamp, if_neg hsingle, if_neg hlt, if_neg hgt, if_neg hdouble]

theorem isPlain_of_not_mem {b : UInt8} (h : b ∉ markupBytes) : IsPlain b := by
  refine ⟨?_, ?_⟩
  · rintro rfl
    exact h (by decide)
  · rintro rfl
    exact h (by decide)

/-- A lexeme of text: a byte without a meaning, or a reference that is whole and in which nothing else
begins or ends. -/
def IsTextLexeme (l : Bytes) : Prop :=
  (∃ b, l = [b] ∧ b ∉ markupBytes) ∨
    ∃ body, l = 0x26 :: body ++ [0x3B] ∧ ∀ b ∈ body, b ∉ markupBytes ∧ b ≠ 0x3B

theorem isTextLexeme_escapeByte (b : UInt8) : IsTextLexeme (escapeByte b) := by
  rcases escapeByte_cases b with ⟨hsame, hplain⟩ | ⟨body, hbody, hescape, -⟩
  · exact .inl ⟨b, hsame, hplain⟩
  · have hbodies : ∀ body ∈ writtenReferences,
        (body.all fun b => b ∉ markupBytes ∧ b ≠ 0x3B) = true := by decide
    exact .inr ⟨body, hescape, List.all_iff_forall_prop.mp (hbodies body hbody)⟩

theorem lexemes_escapeByte (b : UInt8) :
    Closed (escapeByte b) ∧ lexemes (escapeByte b) = [escapeByte b] ∧ isTag (escapeByte b) = false := by
  rcases escapeByte_cases b with ⟨hsame, hplain⟩ | ⟨body, hbody, hescape, -⟩
  · rw [hsame]
    exact lexemes_singleton (isPlain_of_not_mem hplain)
  · rw [hescape]
    have hbodies : ∀ body ∈ writtenReferences, Closed (0x26 :: body ++ [0x3B]) ∧
        lexemes (0x26 :: body ++ [0x3B]) = [0x26 :: body ++ [0x3B]] ∧
        isTag (0x26 :: body ++ [0x3B]) = false := by decide
    exact hbodies body hbody

theorem escape_cons (b : UInt8) (s : Bytes) : escape (b :: s) = escapeByte b ++ escape s :=
  List.flatMap_cons

theorem closed_escape (s : Bytes) : Closed (escape s) := by
  induction s with
  | nil => rfl
  | cons b s ih =>
    rw [escape_cons]
    exact (lexemes_escapeByte b).1.append ih

/-- An escaped text is read byte by byte. -/
theorem lexemes_escape (s : Bytes) : lexemes (escape s) = s.map escapeByte := by
  induction s with
  | nil => rfl
  | cons b s ih =>
    obtain ⟨hclosed, hread, -⟩ := lexemes_escapeByte b
    rw [escape_cons, lexemes_append hclosed, hread, ih]
    rfl

theorem inert_escape (s : Bytes) : Inert (escape s) := by
  refine ⟨closed_escape s, ?_⟩
  intro l hl
  rw [lexemes_escape] at hl
  obtain ⟨b, -, rfl⟩ := List.mem_map.mp hl
  exact (lexemes_escapeByte b).2.2

/-- **Resolving the references of an escaped text gives the text back.** -/
theorem unescape_escape (refs : References) (s : Bytes) : unescape refs (escape s) = s := by
  induction s with
  | nil => rfl
  | cons b s ih =>
    rw [escape_cons]
    rcases escapeByte_cases b with ⟨hsame, hplain⟩ | ⟨body, hbody, hescape, htext⟩
    · rw [hsame, List.singleton_append, unescape_plain (isPlain_of_not_mem hplain).2, ih]
    · have hbodies : ∀ body ∈ writtenReferences, 0x3B ∉ body := by decide
      rw [hescape, unescape_reference (hbodies body hbody) (htext refs), ih]
      rfl

end Markup

end PatchAudit
