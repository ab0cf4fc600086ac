import Mathlib.Data.List.TakeDrop
import PatchAudit.Json.Reader
import PatchAudit.Proofs.Characters
import PatchAudit.Proofs.Numerals

/-!
# Reading JSON that was written

A value that is written and read again comes back, except that each stray byte of its strings has
become U+FFFD (`whole?_document`).  The reader works on characters, so every part of the writing is
first given as the spelling of characters, and what is read from these characters is stated with
anything that may follow them.
-/

namespace PatchAudit

namespace JsonValue

/-- A value whose numbers are whole and whose brackets nest at most to a given depth. -/
inductive Fits : Nat → JsonValue → Prop where
  | null (limit : Nat) : Fits limit null
  | bool (limit : Nat) (b : Bool) : Fits limit (bool b)
  | int (limit : Nat) (i : Int) : Fits limit (int i)
  | string (limit : Nat) (s : Bytes) : Fits limit (string s)
  | array {limit : Nat} {items : List JsonValue} (h : ∀ x ∈ items, Fits limit x) :
      Fits (limit + 1) (array items)
  | object {limit : Nat} {fields : List (Bytes × JsonValue)} (h : ∀ f ∈ fields, Fits limit f.2) :
      Fits (limit + 1) (object fields)

mutual

/-- A value with each stray byte of its strings replaced by U+FFFD. -/
def scrubbed : JsonValue → JsonValue
  | string s => string s.scrub
  | array items => array (scrubbedItems items)
  | object fields => object (scrubbedFields fields)
  | null => null
  | bool b => bool b
  | number literal => number literal

/-- The items of an array with their stray bytes replaced. -/
def scrubbedItems : List JsonValue → List JsonValue
  | [] => []
  | x :: xs => scrubbed x :: scrubbedItems xs

/-- The fields of an object with their stray bytes replaced. -/
def scrubbedFields : List (Bytes × JsonValue) → List (Bytes × JsonValue)
  | [] => []
  | (k, x) :: xs => (k.scrub, scrubbed x) :: scrubbedFields xs

end

/-! ### Strings -/

/-- A unit that stands for one character by itself. -/
inductive StringUnit.Stands : StringUnit → Char → Prop where
  | char (c : Char) : Stands (.char c) c
  | code (c : Char) : Stands (.code c.toNat) c

theorem loneChar_toNat (c : Char) : loneChar c.toNat = c := by
  have hvalid : c.toNat.isValidChar := c.valid
  rw [loneChar, if_pos hvalid, Char.ofNat_toNat]

theorem joinUnits_cons {u : StringUnit} {c : Char} (h : u.Stands c) (units : List StringUnit) :
    joinUnits (u :: units) = c :: joinUnits units := by
  cases h with
  | char => rw [joinUnits]
  | code =>
    -- no character is half of a pair
    have hhigh : isHighHalf c.toNat = false := by
      have hvalid : c.toNat.isValidChar := c.valid
      simp only [isHighHalf, Bool.and_eq_false_iff, decide_eq_false_iff_not]
      rcases hvalid with hlow | ⟨habove, -⟩ <;> omega
    cases units with
    | nil =>
      rw [joinUnits, loneChar_toNat]
      simp
    | cons v units =>
      cases v with
      | char d =>
        rw [joinUnits, loneChar_toNat]
        simp
      | code v => rw [joinUnits, hhigh, Bool.false_and, if_neg Bool.false_ne_true, loneChar_toNat]

/-- A character of a string, other than those that a backslash has to precede. -/
theorem stringUnits_plain {c : Char} (hquote : c ≠ '"') (hslash : c ≠ '\\') (hlow : 0x20 ≤ c.toNat)
    (r : List Char) :
    stringUnits (c :: r) = (stringUnits r).map fun p => (.char c :: p.1, p.2) := by
  rw [stringUnits.eq_def]
  split
  · simp_all
  · simp_all
  · simp_all
  · rename_i heq
    cases heq
    rw [if_neg (by simp only [hslash, false_or]; omega)]
    cases stringUnits r <;> rfl
  · simp_all

theorem stringUnits_escaped {e c : Char} (hu : e ≠ 'u') (he : escaped? e = some c) (r : List Char) :
    stringUnits ('\\' :: e :: r) = (stringUnits r).map fun p => (.char c :: p.1, p.2) := by
  rw [stringUnits.eq_def]
  split
  · simp_all
  · simp_all
  · rename_i heq
    cases heq
    rw [he]
    cases stringUnits r <;> rfl
  · rename_i hnot heq
    cases heq
    exact absurd rfl (hnot e r rfl)
  · simp_all

theorem hexChar?_ofNat {b : UInt8} (h : b.toNat < 0x80) :
    hexChar? (Char.ofNat b.toNat) = Bytes.hexValue? b := by
  have hn : (Char.ofNat b.toNat).toNat = b.toNat := Bytes.toNat_ofNat (Or.inl (by omega))
  rw [hexChar?, hn, if_pos h, Nat.toUInt8_eq, UInt8.ofNat_toNat]

theorem hexValue?_hexDigit : ∀ n < 16, Bytes.hexValue? (Bytes.hexDigit n) = some n := by decide

theorem hexDigit_lt : ∀ n < 16, (Bytes.hexDigit n).toNat < 0x80 := by decide

/-- The character of a hexadecimal digit. -/
def hexLetter (n : Nat) : Char := Char.ofNat (Bytes.hexDigit n).toNat

theorem hexChar?_hexLetter {n : Nat} (h : n < 16) : hexChar? (hexLetter n) = some n := by
  rw [hexLetter, hexChar?_ofNat (hexDigit_lt n h), hexValue?_hexDigit n h]

theorem utf8EncodeChar_ascii {c : Char} (h : c.toNat < 0x80) :
    String.utf8EncodeChar c = [c.toNat.toUInt8] := by
  have hval : c.val.toNat = c.toNat := rfl
  simp only [String.utf8EncodeChar, hval]
  rw [if_pos (by omega)]

theorem utf8EncodeChar_hexLetter {n : Nat} (h : n < 16) :
    String.utf8EncodeChar (hexLetter n) = [Bytes.hexDigit n] := by
  have hlt := hexDigit_lt n h
  have hn : (hexLetter n).toNat = (Bytes.hexDigit n).toNat := Bytes.toNat_ofNat (Or.inl (by omega))
  rw [utf8EncodeChar_ascii (by omega), hn, Nat.toUInt8_eq, UInt8.ofNat_toNat]

/-- The characters of an escape by code. -/
def codeLetters (v : Nat) : List Char :=
  ['\\', 'u', hexLetter (v / 16 / 16 / 16 % 16), hexLetter (v / 16 / 16 % 16),
    hexLetter (v / 16 % 16), hexLetter (v % 16)]

theorem unicodeEscape_eq (v : Nat) : unicodeEscape v = Bytes.ofChars (codeLetters v) := by
  have hdigit : ∀ n, n % 16 < 16 := fun n => Nat.mod_lt n (by decide)
  simp only [unicodeEscape, codeLetters, Bytes.ofChars_cons, utf8EncodeChar_hexLetter (hdigit _)]
  rfl

theorem stringUnits_code {v : Nat} (h : v < 0x10000) (r : List Char) :
    stringUnits (codeLetters v ++ r) = (stringUnits r).map fun p => (.code v :: p.1, p.2) := by
  have hdigit : ∀ n, n % 16 < 16 := fun n => Nat.mod_lt n (by decide)
  have hvalue : (((v / 16 / 16 / 16 % 16 * 16 + v / 16 / 16 % 16) * 16 + v / 16 % 16) * 16 + v % 16)
      = v := by omega
  simp only [codeLetters, List.cons_append, List.nil_append, stringUnits, hexCode?,
    hexChar?_hexLetter (hdigit _), Option.pure_def, Option.bind_eq_bind, Option.bind_some, hvalue]
  cases stringUnits r <;> rfl

/-- **One character of a string** is read back as a unit that stands for it. -/
theorem escapeChar_spec (c : Char) :
    ∃ letters u, escapeChar c = Bytes.ofChars letters ∧ u.Stands c ∧
      ∀ r, stringUnits (letters ++ r) = (stringUnits r).map fun p => (u :: p.1, p.2) := by
  have hshort : ∀ {v : Nat} {e d : Char}, c.toNat = v → d.toNat = v → e ≠ 'u' → escaped? e = some d →
      ∃ letters u, Bytes.ofChars ['\\', e] = Bytes.ofChars letters ∧ StringUnit.Stands u c ∧
        ∀ r, stringUnits (letters ++ r) = (stringUnits r).map fun p => (u :: p.1, p.2) := by
    intro v e d hc hd hu he
    obtain rfl : d = c := Char.ext (UInt32.toNat_inj.mp (hd.trans hc.symm))
    exact ⟨['\\', e], .char d, rfl, .char d, fun r => stringUnits_escaped hu he r⟩
  unfold escapeChar
  simp only
  split_ifs with h1 h2 h3 h4 h5 h6 h7 h8
  · exact hshort (congrArg Char.toNat h1) (d := '"') rfl (by decide) (by decide)
  · exact hshort (congrArg Char.toNat h2) (d := '\\') rfl (by decide) (by decide)
  · exact hshort h3 (d := '\x08') rfl (by decide) (by decide)
  · exact hshort h4 (d := '\x0C') rfl (by decide) (by decide)
  · exact hshort h5 (d := '\n') rfl (by decide) (by decide)
  · exact hshort h6 (d := '\r') rfl (by decide) (by decide)
  · exact hshort h7 (d := '\t') rfl (by decide) (by decide)
  · have hlow : c.toNat < 0x10000 := by
      rcases h8 with h | rfl | rfl | rfl | h | h
      · omega
      · decide
      · decide
      · decide
      · omega
      · omega
    exact ⟨codeLetters c.toNat, .code c.toNat, unicodeEscape_eq _, .code c,
      stringUnits_code hlow⟩
  · refine ⟨[c], .char c, by simp [Bytes.ofChars], .char c, ?_⟩
    exact stringUnits_plain h1 h2 (by omega)

/-- **A stray byte** is read back as U+FFFD, whether this is written as a character or as an escape. -/
theorem strayText_spec (stray : StraySpelling) :
    ∃ letters u, strayText stray = Bytes.ofChars letters ∧ u.Stands (Char.ofNat 0xFFFD) ∧
      ∀ r, stringUnits (letters ++ r) = (stringUnits r).map fun p => (u :: p.1, p.2) := by
  cases stray with
  | escape =>
    exact ⟨codeLetters 0xFFFD, .code 0xFFFD, unicodeEscape_eq _, .code (Char.ofNat 0xFFFD),
      stringUnits_code (by decide)⟩
  | character =>
    refine ⟨[Char.ofNat 0xFFFD], .char _, by simp [Bytes.ofChars, strayText], .char _, ?_⟩
    exact stringUnits_plain (by decide) (by decide) (by decide)

theorem escapePiece_spec (stray : StraySpelling) (p : Piece) :
    ∃ letters u, escapePiece stray p = Bytes.ofChars letters ∧ u.Stands p.toChar ∧
      ∀ r, stringUnits (letters ++ r) = (stringUnits r).map fun p => (u :: p.1, p.2) := by
  cases p with
  | char c => exact escapeChar_spec c
  | stray b => exact strayText_spec stray

/-- The pieces of a string are read back one after the other. -/
theorem escapePieces_spec (stray : StraySpelling) (ps : List Piece) :
    ∃ letters, ps.flatMap (escapePiece stray) = Bytes.ofChars letters ∧
      ∀ r, ∃ units, stringUnits (letters ++ '"' :: r) = some (units, r) ∧
        joinUnits units = ps.map Piece.toChar := by
  induction ps with
  | nil => exact ⟨[], rfl, fun r => ⟨[], by simp [stringUnits], by simp [joinUnits]⟩⟩
  | cons p ps ih =>
    obtain ⟨first, u, hfirst, hstands, hread⟩ := escapePiece_spec stray p
    obtain ⟨letters, hletters, hrest⟩ := ih
    refine ⟨first ++ letters, ?_, fun r => ?_⟩
    · rw [List.flatMap_cons, hfirst, hletters, Bytes.ofChars_append]
    · obtain ⟨units, hunits, hjoin⟩ := hrest r
      refine ⟨u :: units, ?_, ?_⟩
      · rw [List.append_assoc, hread, hunits]
        rfl
      · rw [joinUnits_cons hstands, hjoin, List.map_cons]

/-- **A string is read back** with its stray bytes replaced. -/
theorem quote_spec (stray : StraySpelling) (s : Bytes) :
    ∃ letters, quote stray s = Bytes.ofChars ('"' :: letters ++ ['"']) ∧
      ∀ r, readString (letters ++ '"' :: r) = some (s.scrub, r) := by
  obtain ⟨letters, hletters, hread⟩ := escapePieces_spec stray (Bytes.pieces s)
  refine ⟨letters, ?_, fun r => ?_⟩
  · rw [quote, hletters, Bytes.ofChars_append, Bytes.ofChars_cons]
    rfl
  · obtain ⟨units, hunits, hjoin⟩ := hread r
    rw [readString, hunits, Option.map_some]
    show some (Bytes.ofChars (joinUnits units), r) = _
    rw [hjoin]
    rfl

/-! ### Numbers -/

/-- What may follow a number: nothing that could be a part of it. -/
def Ends : List Char → Prop
  | [] => True
  | c :: _ => c.isDigit = false ∧ c ≠ '.' ∧ c ≠ 'e' ∧ c ≠ 'E'

theorem digits_append {ds r : List Char} (hds : ∀ c ∈ ds, c.isDigit = true) (hr : Ends r) :
    digits (ds ++ r) = (ds, r) := by
  have hstop : r.takeWhile Char.isDigit = [] ∧ r.dropWhile Char.isDigit = r := by
    cases r with
    | nil => exact ⟨rfl, rfl⟩
    | cons c r => simp [hr.1]
  rw [digits, List.span_eq_takeWhile_dropWhile, List.takeWhile_append_of_pos hds,
    List.dropWhile_append_of_pos hds, hstop.1, hstop.2, List.append_nil]

theorem isDigit_of_mem_toDigits {n : Nat} {c : Char} (h : c ∈ Nat.toDigits 10 n) :
    c.isDigit = true := Nat.isDigit_of_mem_toDigits (by decide) (by decide) h

/-- Only zero is written with a leading zero. -/
theorem head?_toDigits {n : Nat} (h : n ≠ 0) : (Nat.toDigits 10 n).head? ≠ some '0' := by
  induction n using Nat.strongRecOn with
  | _ n ih =>
    rw [Nat.toDigits_eq_if (by decide)]
    split_ifs with hsmall
    · have hdigit : ∀ m < 10, m ≠ 0 → m.digitChar ≠ '0' := by decide
      simpa using hdigit n hsmall h
    · rw [List.head?_append_of_ne_nil _ Nat.toDigits_ne_nil]
      exact ih (n / 10) (by omega) (by omega)

theorem readWhole_toDigits (n : Nat) {r : List Char} (hr : Ends r) :
    readWhole (Nat.toDigits 10 n ++ r) = some (Nat.toDigits 10 n, r) := by
  by_cases hn : n = 0
  · subst hn
    rfl
  · have hhead := head?_toDigits hn
    have hspan := digits_append (fun c hc => isDigit_of_mem_toDigits (n := n) hc) hr
    have hne : Nat.toDigits 10 n ≠ [] := Nat.toDigits_ne_nil
    generalize Nat.toDigits 10 n = ds at hhead hspan hne ⊢
    cases ds with
    | nil => exact absurd rfl hne
    | cons d ds =>
      rw [List.cons_append] at hspan ⊢
      rw [readWhole, hspan]
      rintro r' heq
      cases heq
      exact hhead rfl

theorem readFraction_of_ends {r : List Char} (hr : Ends r) : readFraction r = some ([], r) := by
  cases r with
  | nil => rfl
  | cons c r =>
    rw [readFraction]
    rintro r' heq
    cases heq
    exact hr.2.1 rfl

theorem readExponent_of_ends {r : List Char} (hr : Ends r) : readExponent r = some ([], r) := by
  cases r with
  | nil => rfl
  | cons c r =>
    have hmark : ¬ (c = 'e' ∨ c = 'E') := by simp [hr.2.2.1, hr.2.2.2]
    unfold readExponent
    simp only [hmark, if_false]

/-- The characters of an integer. -/
def intLetters : Int → List Char
  | .ofNat n => Nat.toDigits 10 n
  | .negSucc n => '-' :: Nat.toDigits 10 (n + 1)

theorem ofNat_eq (n : Nat) : Bytes.ofNat n = Bytes.ofChars (Nat.toDigits 10 n) := by
  have hdigits : ∀ ds : List Char, (∀ c ∈ ds, c.isDigit = true) →
      ds.map (fun c => c.toNat.toUInt8) = Bytes.ofChars ds := by
    intro ds hds
    induction ds with
    | nil => rfl
    | cons c ds ih =>
      have hc := Bytes.toNat_toUInt8_of_isDigit (hds c List.mem_cons_self)
      rw [List.map_cons, ih fun d hd => hds d (List.mem_cons_of_mem _ hd), Bytes.ofChars_cons,
        utf8EncodeChar_ascii (by omega)]
      rfl
  exact hdigits _ fun c hc => isDigit_of_mem_toDigits hc

theorem ofInt_eq (i : Int) : Bytes.ofInt i = Bytes.ofChars (intLetters i) := by
  cases i with
  | ofNat n => exact ofNat_eq n
  | negSucc n =>
    rw [Bytes.ofInt, ofNat_eq, intLetters, Bytes.ofChars_cons]
    rfl

/-- **An integer is read back as it is written.** -/
theorem readNumber_intLetters (i : Int) {r : List Char} (hr : Ends r) :
    readNumber (intLetters i ++ r) = some (Bytes.ofInt i, r) := by
  cases i with
  | ofNat n =>
    have hsign : ∀ r', Nat.toDigits 10 n ++ r ≠ '-' :: r' := by
      intro r' heq
      have hne : Nat.toDigits 10 n ≠ [] := Nat.toDigits_ne_nil
      have hdigit := fun c hc => isDigit_of_mem_toDigits (n := n) (c := c) hc
      cases hds : Nat.toDigits 10 n with
      | nil => exact hne hds
      | cons d ds =>
        rw [hds] at heq hdigit
        cases heq
        exact absurd (hdigit '-' List.mem_cons_self) (by decide)
    unfold readNumber
    simp only [intLetters, readWhole_toDigits n hr, readFraction_of_ends hr, readExponent_of_ends hr,
      Option.pure_def, Option.bind_eq_bind, Option.bind_some, List.nil_append, List.append_nil]
    rw [← ofNat_eq]
    rfl
  | negSucc n =>
    unfold readNumber
    simp only [intLetters, List.cons_append, readWhole_toDigits (n + 1) hr, readFraction_of_ends hr,
      readExponent_of_ends hr, Option.pure_def, Option.bind_eq_bind, Option.bind_some,
      List.nil_append, List.append_nil]
    rw [Bytes.ofInt, Bytes.ofChars_cons, ← ofNat_eq]
    rfl

/-! ### Values -/

theorem skipBlanks_append {blanks : List Char} (h : ∀ c ∈ blanks, isBlank c = true) (s : List Char) :
    skipBlanks (blanks ++ s) = skipBlanks s := by
  unfold skipBlanks
  exact List.dropWhile_append_of_pos h

theorem skipBlanks_cons {c : Char} (h : isBlank c = false) (s : List Char) :
    skipBlanks (c :: s) = c :: s := by
  simp [skipBlanks, h]

theorem readValue_blanks {blanks : List Char} (h : ∀ c ∈ blanks, isBlank c = true) (fuel limit : Nat)
    (s : List Char) : readValue fuel limit (blanks ++ s) = readValue fuel limit s := by
  cases fuel with
  | zero => simp only [readValue]
  | succ fuel => simp only [readValue, skipBlanks_append h]

namespace Layout

/-- The characters in front of a part at a level. -/
def gapLetters : Layout → Nat → List Char
  | indented, depth => '\n' :: List.replicate (2 * depth) ' '
  | compact, _ => []

/-- The characters between a colon and a value. -/
def spaceLetters : Layout → List Char
  | indented => [' ']
  | compact => []

variable (layout : Layout)

theorem gap_eq (depth : Nat) : layout.gap depth = Bytes.ofChars (layout.gapLetters depth) := by
  have hfill : ∀ n, Bytes.fill n 0x20 = Bytes.ofChars (List.replicate n ' ') := by
    intro n
    induction n with
    | zero => rfl
    | succ n ih =>
      rw [List.replicate_succ, Bytes.ofChars_cons, ← ih]
      rfl
  cases layout with
  | indented =>
    rw [gap, hfill, gapLetters, Bytes.ofChars_cons]
    rfl
  | compact => rfl

theorem space_eq : layout.space = Bytes.ofChars layout.spaceLetters := by cases layout <;> rfl

theorem isBlank_gapLetters (depth : Nat) : ∀ c ∈ layout.gapLetters depth, isBlank c = true := by
  cases layout with
  | indented =>
    intro c hc
    rcases List.mem_cons.mp hc with rfl | hc
    · rfl
    · rw [List.eq_of_mem_replicate hc]
      rfl
  | compact => simp [gapLetters]

theorem isBlank_spaceLetters : ∀ c ∈ layout.spaceLetters, isBlank c = true := by
  cases layout <;> simp [spaceLetters, isBlank]

end Layout

/-- Characters that are read as a value, whatever follows them, with enough fuel for each of them. -/
structure ReadsAs (limit : Nat) (letters : List Char) (v : JsonValue) : Prop where
  front : ∃ c cs, letters = c :: cs ∧ isBlank c = false ∧ c ≠ ']' ∧ c ≠ '\x7d'
  read : ∀ (fuel : Nat) (r : List Char), letters.length ≤ fuel → Ends r →
    readValue fuel limit (letters ++ r) = some (v, r)

theorem ReadsAs.skipBlanks {limit : Nat} {letters : List Char} {v : JsonValue}
    (h : ReadsAs limit letters v) (s : List Char) :
    JsonValue.skipBlanks (letters ++ s) = letters ++ s := by
  obtain ⟨c, cs, rfl, hblank, -⟩ := h.front
  exact skipBlanks_cons hblank _

theorem ReadsAs.int (limit : Nat) (i : Int) : ReadsAs limit (intLetters i) (int i) := by
  have hfront : ∃ c cs, intLetters i = c :: cs ∧ (c.isDigit = true ∨ c = '-') := by
    cases i with
    | ofNat n =>
      cases hds : Nat.toDigits 10 n with
      | nil => exact absurd hds Nat.toDigits_ne_nil
      | cons d ds =>
        refine ⟨d, ds, hds, .inl (isDigit_of_mem_toDigits (n := n) ?_)⟩
        rw [hds]
        exact List.mem_cons_self
    | negSucc n => exact ⟨'-', _, rfl, .inr rfl⟩
  obtain ⟨c, cs, hletters, hc⟩ := hfront
  have hother : ∀ d : Char, d.isDigit = false → d ≠ '-' → c ≠ d := by
    rintro d hd hsign rfl
    rcases hc with hc | hc
    · rw [hc] at hd
      cases hd
    · exact hsign hc
  have hblank : isBlank c = false := by
    simp only [isBlank, Bool.or_eq_false_iff, decide_eq_false_iff_not]
    exact ⟨⟨⟨hother _ (by decide) (by decide), hother _ (by decide) (by decide)⟩,
      hother _ (by decide) (by decide)⟩, hother _ (by decide) (by decide)⟩
  refine ⟨⟨c, cs, hletters, hblank, hother _ (by decide) (by decide),
    hother _ (by decide) (by decide)⟩, ?_⟩
  intro fuel r hfuel hr
  have hread := readNumber_intLetters i hr
  rw [hletters] at hfuel hread ⊢
  cases fuel with
  | zero => simp at hfuel
  | succ fuel =>
    rw [List.cons_append] at hread ⊢
    rw [readValue, skipBlanks_cons hblank]
    split
    · exact absurd (List.cons.inj ‹_›).1 (hother _ (by decide) (by decide))
    · exact absurd (List.cons.inj ‹_›).1 (hother _ (by decide) (by decide))
    · exact absurd (List.cons.inj ‹_›).1 (hother _ (by decide) (by decide))
    · exact absurd (List.cons.inj ‹_›).1 (hother _ (by decide) (by decide))
    · exact absurd (List.cons.inj ‹_›).1 (hother _ (by decide) (by decide))
    · exact absurd (List.cons.inj ‹_›).1 (hother _ (by decide) (by decide))
    · rw [hread]
      rfl

theorem ReadsAs.string (stray : StraySpelling) (limit : Nat) (s : Bytes) :
    ∃ letters, quote stray s = Bytes.ofChars letters ∧ ReadsAs limit letters (string s.scrub) := by
  obtain ⟨letters, hquote, hread⟩ := quote_spec stray s
  refine ⟨'"' :: letters ++ ['"'], hquote, ⟨'"', _, rfl, by decide, by decide, by decide⟩, ?_⟩
  intro fuel r hfuel _
  cases fuel with
  | zero => simp at hfuel
  | succ fuel =>
    simp only [List.cons_append, List.append_assoc, List.nil_append, readValue,
      skipBlanks_cons (c := '"') (by decide), hread, Option.map_some]

/-! ### Arrays -/

theorem readItems_blanks {blanks : List Char} (h : ∀ c ∈ blanks, isBlank c = true) (fuel limit : Nat)
    (s : List Char) : readItems fuel limit (blanks ++ s) = readItems fuel limit s := by
  cases fuel with
  | zero => simp only [readItems]
  | succ fuel => simp only [readItems, readValue_blanks h]

theorem ends_comma (s : List Char) : Ends (',' :: s) := ⟨by decide, by decide, by decide, by decide⟩

/-- Blanks end a number, and so does what may follow it anyway. -/
theorem ends_blanks {blanks s : List Char} (h : ∀ c ∈ blanks, isBlank c = true) (hs : Ends s) :
    Ends (blanks ++ s) := by
  cases blanks with
  | nil => exact hs
  | cons c blanks =>
    have hc := h c List.mem_cons_self
    simp only [isBlank, Bool.or_eq_true, decide_eq_true_eq] at hc
    rcases hc with ((rfl | rfl) | rfl) | rfl <;> exact ⟨by decide, by decide, by decide, by decide⟩

/-- Characters after the first item of an array that are read as the other items. -/
def MoreItems (limit : Nat) (letters : List Char) (items : List JsonValue) : Prop :=
  ∀ (first : List Char) (x : JsonValue) (fuel : Nat) (last r : List Char),
    (∀ c ∈ last, isBlank c = true) → ReadsAs limit first x →
    first.length + letters.length < fuel →
    readItems fuel limit (first ++ (letters ++ (last ++ ']' :: r))) = some (x :: items, r)

theorem MoreItems.nil (limit : Nat) : MoreItems limit [] [] := by
  intro first x fuel last r hlast hx hfuel
  have hends : Ends (']' :: r) := ⟨by decide, by decide, by decide, by decide⟩
  cases fuel with
  | zero => simp at hfuel
  | succ fuel =>
    have hread := hx.read fuel (last ++ ']' :: r) (by simp at hfuel; omega) (ends_blanks hlast hends)
    rw [List.nil_append, readItems, hread]
    simp only [Option.bind_eq_bind, Option.bind_some, skipBlanks_append hlast,
      skipBlanks_cons (c := ']') (by decide), Option.pure_def]

theorem MoreItems.cons {limit : Nat} {gap next letters : List Char} {y : JsonValue}
    {items : List JsonValue} (hgap : ∀ c ∈ gap, isBlank c = true) (hy : ReadsAs limit next y)
    (h : MoreItems limit letters items) :
    MoreItems limit (',' :: gap ++ next ++ letters) (y :: items) := by
  intro first x fuel last r hlast hx hfuel
  cases fuel with
  | zero => simp at hfuel
  | succ fuel =>
    simp only [List.length_append, List.length_cons] at hfuel
    have hread := hx.read fuel (',' :: (gap ++ (next ++ (letters ++ (last ++ ']' :: r)))))
      (by omega) (ends_comma _)
    have hmore := h next y fuel last r hlast hy (by omega)
    simp only [List.cons_append, List.append_assoc]
    rw [readItems, hread]
    simp only [Option.bind_eq_bind, Option.bind_some, skipBlanks_cons (c := ',') (by decide),
      readItems_blanks hgap, hmore, Option.pure_def]

/-- An array of at least one item. -/
theorem ReadsAs.array {limit : Nat} {gap first letters last : List Char} {x : JsonValue}
    {items : List JsonValue} (hgap : ∀ c ∈ gap, isBlank c = true)
    (hlast : ∀ c ∈ last, isBlank c = true) (hx : ReadsAs limit first x)
    (h : MoreItems limit letters items) :
    ReadsAs (limit + 1) ('[' :: gap ++ first ++ letters ++ last ++ [']']) (array (x :: items)) := by
  refine ⟨⟨'[', _, rfl, by decide, by decide, by decide⟩, ?_⟩
  intro fuel r hfuel _
  cases fuel with
  | zero => simp at hfuel
  | succ fuel =>
    simp only [List.length_append, List.length_cons] at hfuel
    have hitems := h first x fuel last r hlast hx (by omega)
    simp only [List.cons_append, List.append_assoc, List.nil_append]
    rw [readValue, skipBlanks_cons (by decide)]
    simp only [Nat.add_eq_zero_iff, Nat.one_ne_zero, and_false, if_false, Nat.add_sub_cancel,
      skipBlanks_append hgap, hx.skipBlanks, readItems_blanks hgap, hitems, Option.map_some]
    obtain ⟨c, cs, rfl, -, hclose, -⟩ := hx.front
    split
    · exact absurd (List.cons.inj ‹_›).1 hclose
    · rfl

/-! ### Objects -/

theorem readFields_blanks {blanks : List Char} (h : ∀ c ∈ blanks, isBlank c = true)
    (fuel limit : Nat) (s : List Char) :
    readFields fuel limit (blanks ++ s) = readFields fuel limit s := by
  cases fuel with
  | zero => simp only [readFields]
  | succ fuel => simp only [readFields, skipBlanks_append h]

/-- Characters that are read as the key and the value of a field. -/
structure FieldReadsAs (limit : Nat) (letters : List Char) (field : Bytes × JsonValue) : Prop where
  split : ∃ key space value, letters = '"' :: key ++ '"' :: ':' :: (space ++ value) ∧
    (∀ c ∈ space, isBlank c = true) ∧ ReadsAs limit value field.2 ∧
    ∀ r, readString (key ++ '"' :: r) = some (field.1, r)

/-- A field that a comma follows. -/
theorem FieldReadsAs.next {limit fuel : Nat} {letters : List Char} {f : Bytes × JsonValue}
    (h : FieldReadsAs limit letters f) (hfuel : letters.length ≤ fuel) (r : List Char) :
    readFields (fuel + 1) limit (letters ++ ',' :: r) =
      (readFields fuel limit r).map fun p => (f :: p.1, p.2) := by
  obtain ⟨key, space, value, rfl, hspace, hvalue, hkey⟩ := h.split
  simp only [List.length_append, List.length_cons] at hfuel
  have hread := hvalue.read fuel (',' :: r) (by omega) (ends_comma r)
  simp only [List.cons_append, List.append_assoc]
  rw [readFields, skipBlanks_cons (by decide)]
  simp only [hkey, Option.bind_eq_bind, Option.bind_some, skipBlanks_cons (c := ':') (by decide),
    readValue_blanks hspace, hread, skipBlanks_cons (c := ',') (by decide), Option.pure_def]
  cases readFields fuel limit r <;> rfl

/-- A field that the closing bracket follows. -/
theorem FieldReadsAs.last {limit fuel : Nat} {letters last : List Char} {f : Bytes × JsonValue}
    (h : FieldReadsAs limit letters f) (hlast : ∀ c ∈ last, isBlank c = true)
    (hfuel : letters.length ≤ fuel) (r : List Char) :
    readFields (fuel + 1) limit (letters ++ (last ++ '\x7d' :: r)) = some ([f], r) := by
  have hends : Ends ('\x7d' :: r) := ⟨by decide, by decide, by decide, by decide⟩
  obtain ⟨key, space, value, rfl, hspace, hvalue, hkey⟩ := h.split
  simp only [List.length_append, List.length_cons] at hfuel
  have hread := hvalue.read fuel (last ++ '\x7d' :: r) (by omega) (ends_blanks hlast hends)
  simp only [List.cons_append, List.append_assoc]
  rw [readFields, skipBlanks_cons (by decide)]
  simp only [hkey, Option.bind_eq_bind, Option.bind_some, skipBlanks_cons (c := ':') (by decide),
    readValue_blanks hspace, hread, skipBlanks_append hlast,
    skipBlanks_cons (c := '\x7d') (by decide), Option.pure_def]

/-- Characters after the first field of an object that are read as the other fields. -/
def MoreFields (limit : Nat) (letters : List Char) (fields : List (Bytes × JsonValue)) : Prop :=
  ∀ (first : List Char) (f : Bytes × JsonValue) (fuel : Nat) (last r : List Char),
    (∀ c ∈ last, isBlank c = true) → FieldReadsAs limit first f →
    first.length + letters.length < fuel →
    readFields fuel limit (first ++ (letters ++ (last ++ '\x7d' :: r))) = some (f :: fields, r)

theorem MoreFields.nil (limit : Nat) : MoreFields limit [] [] := by
  intro first f fuel last r hlast hf hfuel
  cases fuel with
  | zero => simp at hfuel
  | succ fuel => exact hf.last hlast (by simp at hfuel; omega) r

theorem MoreFields.cons {limit : Nat} {gap next letters : List Char} {g : Bytes × JsonValue}
    {fields : List (Bytes × JsonValue)} (hgap : ∀ c ∈ gap, isBlank c = true)
    (hg : FieldReadsAs limit next g) (h : MoreFields limit letters fields) :
    MoreFields limit (',' :: gap ++ next ++ letters) (g :: fields) := by
  intro first f fuel last r hlast hf hfuel
  cases fuel with
  | zero => simp at hfuel
  | succ fuel =>
    simp only [List.length_append, List.length_cons] at hfuel
    have hmore := h next g fuel last r hlast hg (by omega)
    simp only [List.cons_append, List.append_assoc]
    rw [hf.next (by omega), readFields_blanks hgap, hmore, Option.map_some]

/-- An object of at least one field. -/
theorem ReadsAs.object {limit : Nat} {gap first letters last : List Char}
    {f : Bytes × JsonValue} {fields : List (Bytes × JsonValue)}
    (hgap : ∀ c ∈ gap, isBlank c = true) (hlast : ∀ c ∈ last, isBlank c = true)
    (hf : FieldReadsAs limit first f) (h : MoreFields limit letters fields) :
    ReadsAs (limit + 1) ('\x7b' :: gap ++ first ++ letters ++ last ++ ['\x7d'])
      (object (f :: fields)) := by
  refine ⟨⟨'\x7b', _, rfl, by decide, by decide, by decide⟩, ?_⟩
  intro fuel r hfuel _
  cases fuel with
  | zero => simp at hfuel
  | succ fuel =>
    simp only [List.length_append, List.length_cons] at hfuel
    have hfields := h first f fuel last r hlast hf (by omega)
    obtain ⟨key, space, value, rfl, -⟩ := hf.split
    simp only [List.cons_append, List.append_assoc, List.nil_append] at hfields ⊢
    rw [readValue, skipBlanks_cons (by decide)]
    simp only [Nat.add_eq_zero_iff, Nat.one_ne_zero, and_false, if_false, Nat.add_sub_cancel,
      skipBlanks_append hgap, skipBlanks_cons (c := '"') (by decide), readFields_blanks hgap, hfields,
      Option.map_some]
    rfl

/-! ### Documents -/

variable {stray : StraySpelling} {layout : Layout}

/-- The items of an array after its first one. -/
theorem moreItems_writtenItems {limit : Nat} {items : List JsonValue} (depth : Nat)
    (h : ∀ x ∈ items, ∃ letters, written stray layout depth x = Bytes.ofChars letters ∧
      ReadsAs limit letters x.scrubbed) :
    ∃ letters, writtenItems stray layout depth items = Bytes.ofChars letters ∧
      MoreItems limit letters (scrubbedItems items) := by
  induction items with
  | nil => exact ⟨[], rfl, .nil limit⟩
  | cons x items ih =>
    obtain ⟨next, hnext, hx⟩ := h x List.mem_cons_self
    obtain ⟨letters, hletters, hmore⟩ := ih fun y hy => h y (List.mem_cons_of_mem _ hy)
    refine ⟨',' :: layout.gapLetters depth ++ next ++ letters, ?_,
      .cons (layout.isBlank_gapLetters depth) hx hmore⟩
    rw [writtenItems, hnext, hletters, layout.gap_eq]
    simp only [Bytes.ofChars_append, Bytes.ofChars_cons, List.cons_append]
    rfl

/-- A key and a value make a field. -/
theorem fieldReadsAs (stray : StraySpelling) (layout : Layout) {limit : Nat} {value : List Char}
    {x : JsonValue} (k : Bytes) (hx : ReadsAs limit value x) :
    ∃ letters, quote stray k ++ ":" ++ layout.space ++ Bytes.ofChars value = Bytes.ofChars letters ∧
      FieldReadsAs limit letters (k.scrub, x) := by
  obtain ⟨key, hkey, hread⟩ := quote_spec stray k
  refine ⟨'"' :: key ++ '"' :: ':' :: (layout.spaceLetters ++ value), ?_,
    ⟨key, _, value, rfl, layout.isBlank_spaceLetters, hx, hread⟩⟩
  rw [hkey, layout.space_eq]
  simp only [Bytes.ofChars_append, Bytes.ofChars_cons, List.cons_append, List.append_assoc]
  rfl

/-- The fields of an object after its first one. -/
theorem moreFields_writtenFields {limit : Nat} {fields : List (Bytes × JsonValue)} (depth : Nat)
    (h : ∀ f ∈ fields, ∃ letters, written stray layout depth f.2 = Bytes.ofChars letters ∧
      ReadsAs limit letters f.2.scrubbed) :
    ∃ letters, writtenFields stray layout depth fields = Bytes.ofChars letters ∧
      MoreFields limit letters (scrubbedFields fields) := by
  induction fields with
  | nil => exact ⟨[], rfl, .nil limit⟩
  | cons f fields ih =>
    obtain ⟨value, hvalue, hx⟩ := h f List.mem_cons_self
    obtain ⟨letters, hletters, hmore⟩ := ih fun g hg => h g (List.mem_cons_of_mem _ hg)
    obtain ⟨next, hnext, hfield⟩ := fieldReadsAs stray layout f.1 hx
    refine ⟨',' :: layout.gapLetters depth ++ next ++ letters, ?_,
      .cons (layout.isBlank_gapLetters depth) hfield hmore⟩
    rw [writtenFields, hvalue, hletters, layout.gap_eq]
    simp only [Bytes.ofChars_append, Bytes.ofChars_cons, List.cons_append, ← hnext,
      List.append_assoc]
    rfl

/-- **What is written is read**: the text of a value at any level is read as the value with its
stray bytes replaced. -/
theorem readsAs_written (stray : StraySpelling) (layout : Layout) {limit : Nat} {v : JsonValue}
    (h : Fits limit v) :
    ∀ depth, ∃ letters, written stray layout depth v = Bytes.ofChars letters ∧
      ReadsAs limit letters v.scrubbed := by
  induction h with
  | null limit =>
    intro depth
    refine ⟨['n', 'u', 'l', 'l'], rfl, ⟨'n', _, rfl, by decide, by decide, by decide⟩, ?_⟩
    rintro (_ | fuel) r hfuel -
    · simp at hfuel
    · rfl
  | bool limit b =>
    intro depth
    cases b with
    | true =>
      refine ⟨['t', 'r', 'u', 'e'], rfl, ⟨'t', _, rfl, by decide, by decide, by decide⟩, ?_⟩
      rintro (_ | fuel) r hfuel -
      · simp at hfuel
      · rfl
    | false =>
      refine ⟨['f', 'a', 'l', 's', 'e'], rfl, ⟨'f', _, rfl, by decide, by decide, by decide⟩, ?_⟩
      rintro (_ | fuel) r hfuel -
      · simp at hfuel
      · rfl
  | int limit i => exact fun depth => ⟨intLetters i, ofInt_eq i, .int limit i⟩
  | string limit s => exact fun depth => ReadsAs.string stray limit s
  | @array limit items _ ih =>
    intro depth
    cases items with
    | nil =>
      refine ⟨['[', ']'], rfl, ⟨'[', _, rfl, by decide, by decide, by decide⟩, ?_⟩
      rintro (_ | fuel) r hfuel -
      · simp at hfuel
      · rfl
    | cons x items =>
      obtain ⟨first, hfirst, hx⟩ := ih x List.mem_cons_self (depth + 1)
      obtain ⟨letters, hletters, hmore⟩ :=
        moreItems_writtenItems (depth + 1) fun y hy => ih y (List.mem_cons_of_mem _ hy) (depth + 1)
      refine ⟨_, ?_, .array (layout.isBlank_gapLetters (depth + 1)) (layout.isBlank_gapLetters depth)
        hx hmore⟩
      rw [written, hfirst, hletters, layout.gap_eq, layout.gap_eq]
      simp only [Bytes.ofChars_append, Bytes.ofChars_cons, List.cons_append]
      rfl
  | @object limit fields _ ih =>
    intro depth
    cases fields with
    | nil =>
      refine ⟨['\x7b', '\x7d'], rfl, ⟨'\x7b', _, rfl, by decide, by decide, by decide⟩, ?_⟩
      rintro (_ | fuel) r hfuel -
      · simp at hfuel
      · rfl
    | cons f fields =>
      obtain ⟨value, hvalue, hx⟩ := ih f List.mem_cons_self (depth + 1)
      obtain ⟨first, hfirst, hfield⟩ := fieldReadsAs stray layout f.1 hx
      obtain ⟨letters, hletters, hmore⟩ :=
        moreFields_writtenFields (depth + 1) fun g hg => ih g (List.mem_cons_of_mem _ hg) (depth + 1)
      refine ⟨_, ?_, .object (layout.isBlank_gapLetters (depth + 1))
        (layout.isBlank_gapLetters depth) hfield hmore⟩
      rw [written, hvalue, hletters, layout.gap_eq, layout.gap_eq]
      simp only [Bytes.ofChars_append, Bytes.ofChars_cons, List.cons_append, ← hfirst,
        List.append_assoc]
      rfl

/-- A document is one value and the line end after it. -/
theorem first?_document (stray : StraySpelling) (layout : Layout) {v : JsonValue}
    (h : Fits mostNested v) : first? (document stray layout v) = some (v.scrubbed, ['\n']) := by
  obtain ⟨letters, hletters, hread⟩ := readsAs_written stray layout h 0
  have hchars : Bytes.chars (document stray layout v) = letters ++ ['\n'] := by
    have hdocument : document stray layout v = Bytes.ofChars (letters ++ ['\n']) := by
      rw [document, hletters, Bytes.ofChars_append]
      rfl
    rw [hdocument, Bytes.chars_ofChars]
  have hends : Ends ['\n'] := ⟨by decide, by decide, by decide, by decide⟩
  rw [first?, hchars]
  exact hread.read _ _ (by simp only [List.length_append]; omega) hends

/-- **Reading gives back what was written**, with stray bytes replaced. -/
theorem whole?_document (stray : StraySpelling) (layout : Layout) {v : JsonValue}
    (h : Fits mostNested v) : whole? (document stray layout v) = some v.scrubbed := by
  rw [whole?, first?_document stray layout h]
  rfl

end JsonValue

end PatchAudit
