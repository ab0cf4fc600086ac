import Mathlib.Data.List.TakeWhile
import PatchAudit.Proofs.JsonText

/-!
# A value inside a longer text

What is read at the front of a text depends neither on what follows, as long as no number goes on
there, nor on the fuel and the depth that are left, as long as they suffice (`read_persists`).  So a
text that is put into an object as the value of a field keeps its value (`whole?_taggedText`).
-/

namespace PatchAudit

namespace JsonValue

/-! ### Strings and numbers -/

theorem stringUnits_longer {s rest : List Char} {units : List StringUnit}
    (h : stringUnits s = some (units, rest)) (x : List Char) :
    stringUnits (s ++ x) = some (units, rest ++ x) := by
  fun_induction stringUnits s generalizing units rest with
  | case1 r =>
    cases h
    rfl
  | case2 a b c d r ih =>
    simp only [Option.bind_eq_bind, Option.bind_eq_some_iff] at h
    obtain ⟨u, hu, ⟨units', rest'⟩, hr, hpair⟩ := h
    cases hpair
    simp [stringUnits, hu, ih hr]
  | case3 e r hcode ih =>
    simp only [Option.bind_eq_bind, Option.bind_eq_some_iff] at h
    obtain ⟨c, hc, ⟨units', rest'⟩, hr, hpair⟩ := h
    cases hpair
    have hu : e ≠ 'u' := by
      rintro rfl
      cases hc
    rw [List.cons_append, List.cons_append, stringUnits_escaped hu hc, ih hr]
    rfl
  | case4 => cases h
  | case5 c r hquote _ _ hplain ih =>
    simp only [Option.bind_eq_bind, Option.bind_eq_some_iff] at h
    obtain ⟨⟨units', rest'⟩, hr, hpair⟩ := h
    cases hpair
    rw [not_or] at hplain
    rw [List.cons_append, stringUnits_plain hquote hplain.1 (by omega), ih hr]
    rfl
  | case6 => cases h

theorem readString_longer {s rest : List Char} {text : Bytes} (h : readString s = some (text, rest))
    (x : List Char) : readString (s ++ x) = some (text, rest ++ x) := by
  unfold readString at h ⊢
  obtain ⟨⟨units, rest'⟩, hunits, hpair⟩ := Option.map_eq_some_iff.mp h
  cases hpair
  rw [stringUnits_longer hunits]
  rfl

theorem digits_cons_of_digit {c : Char} (hc : c.isDigit = true) (s : List Char) :
    digits (c :: s) = (c :: (digits s).1, (digits s).2) := by
  simp [digits, List.span_eq_takeWhile_dropWhile, hc]

theorem digits_cons_of_other {c : Char} (hc : c.isDigit = false) (s : List Char) :
    digits (c :: s) = ([], c :: s) := by
  simp [digits, List.span_eq_takeWhile_dropWhile, hc]

theorem digits_longer {s ds rest x : List Char} (hx : Ends x) (h : digits s = (ds, rest)) :
    digits (s ++ x) = (ds, rest ++ x) := by
  induction s generalizing ds with
  | nil =>
    cases h
    exact digits_append (fun c hc => absurd hc List.not_mem_nil) hx
  | cons c s ih =>
    cases hc : c.isDigit with
    | true =>
      rw [digits_cons_of_digit hc] at h
      obtain ⟨rfl, hrest⟩ := Prod.mk.inj h
      have hs : digits s = ((digits s).1, rest) := by rw [← hrest]
      rw [List.cons_append, digits_cons_of_digit hc, ih hs]
    | false =>
      rw [digits_cons_of_other hc] at h
      cases h
      rw [List.cons_append, digits_cons_of_other hc]

theorem readDigitsAfter_longer {mark s ds rest x : List Char} (hx : Ends x)
    (h : readDigitsAfter mark s = some (ds, rest)) :
    readDigitsAfter mark (s ++ x) = some (ds, rest ++ x) := by
  unfold readDigitsAfter at h ⊢
  cases hs : digits s with
  | mk found left =>
    rw [hs] at h
    rw [digits_longer hx hs]
    cases found with
    | nil => cases h
    | cons d found =>
      cases h
      rfl

theorem readWhole_longer {s ds rest x : List Char} (hx : Ends x) (h : readWhole s = some (ds, rest)) :
    readWhole (s ++ x) = some (ds, rest ++ x) := by
  cases s with
  | nil => cases h
  | cons c s =>
    by_cases hzero : c = '0'
    · subst hzero
      cases h
      rfl
    · have hother : ∀ t : List Char, readWhole (c :: t) = readDigitsAfter [] (c :: t) := by
        intro t
        rw [readWhole]
        · rfl
        · rintro r ⟨⟩
          exact hzero rfl
      rw [hother] at h
      rw [List.cons_append, hother]
      exact readDigitsAfter_longer hx h

theorem readFraction_longer {s ds rest x : List Char} (hx : Ends x)
    (h : readFraction s = some (ds, rest)) : readFraction (s ++ x) = some (ds, rest ++ x) := by
  cases s with
  | nil =>
    cases h
    exact readFraction_of_ends hx
  | cons c s =>
    by_cases hpoint : c = '.'
    · subst hpoint
      exact readDigitsAfter_longer hx h
    · have hother : ∀ t : List Char, readFraction (c :: t) = some ([], c :: t) := by
        intro t
        rw [readFraction]
        rintro r ⟨⟩
        exact hpoint rfl
      rw [hother] at h
      cases h
      rw [List.cons_append, hother]

theorem readExponent_longer {s ds rest x : List Char} (hx : Ends x)
    (h : readExponent s = some (ds, rest)) : readExponent (s ++ x) = some (ds, rest ++ x) := by
  cases s with
  | nil =>
    cases h
    exact readExponent_of_ends hx
  | cons c s =>
    rw [List.cons_append]
    unfold readExponent at h ⊢
    by_cases hmark : c = 'e' ∨ c = 'E'
    · simp only [hmark, if_true] at h ⊢
      cases s with
      | nil => cases h
      | cons d s =>
        by_cases hplus : d = '+'
        · subst hplus
          exact readDigitsAfter_longer hx h
        · by_cases hminus : d = '-'
          · subst hminus
            exact readDigitsAfter_longer hx h
          · rw [List.cons_append]
            split at h
            · cases ‹d :: s = _›
              exact absurd rfl hplus
            · cases ‹d :: s = _›
              exact absurd rfl hminus
            · split
              · cases ‹d :: (s ++ x) = _›
                exact absurd rfl hplus
              · cases ‹d :: (s ++ x) = _›
                exact absurd rfl hminus
              · exact readDigitsAfter_longer hx h
    · simp only [hmark, if_false] at h ⊢
      cases h
      rfl

/-- Reads a number after its sign. -/
def readUnsigned (sign s : List Char) : Option (Bytes × List Char) := do
  let (whole, s) ← readWhole s
  let (fraction, s) ← readFraction s
  let (exponent, s) ← readExponent s
  return (Bytes.ofChars (sign ++ whole ++ fraction ++ exponent), s)

theorem readUnsigned_longer {sign s rest x : List Char} {literal : Bytes} (hx : Ends x)
    (h : readUnsigned sign s = some (literal, rest)) :
    readUnsigned sign (s ++ x) = some (literal, rest ++ x) := by
  unfold readUnsigned at h ⊢
  simp only [Option.bind_eq_bind, Option.bind_eq_some_iff] at h
  obtain ⟨⟨whole, s₁⟩, hwhole, ⟨fraction, s₂⟩, hfraction, ⟨exponent, s₃⟩, hexponent, hpair⟩ := h
  cases hpair
  simp only [readWhole_longer hx hwhole, readFraction_longer hx hfraction,
    readExponent_longer hx hexponent, Option.bind_eq_bind, Option.bind_some]
  rfl

theorem readNumber_longer {s rest x : List Char} {literal : Bytes} (hx : Ends x)
    (h : readNumber s = some (literal, rest)) : readNumber (s ++ x) = some (literal, rest ++ x) := by
  cases s with
  | nil => cases h
  | cons c s =>
    by_cases hminus : c = '-'
    · subst hminus
      have hunsigned : readUnsigned ['-'] s = some (literal, rest) := h
      exact readUnsigned_longer hx hunsigned
    · have hother : ∀ t : List Char, readNumber (c :: t) = readUnsigned [] (c :: t) := by
        intro t
        have hsign : ∀ r, c :: t ≠ '-' :: r := fun r heq => hminus (List.cons.inj heq).1
        unfold readNumber
        simp only
        rfl
      rw [hother] at h
      rw [List.cons_append, hother]
      exact readUnsigned_longer hx h

/-! ### Values -/

mutual

/-- How deep the brackets of a value nest. -/
def nesting : JsonValue → Nat
  | array items => nestingItems items + 1
  | object fields => nestingFields fields + 1
  | null => 0
  | bool _ => 0
  | number _ => 0
  | string _ => 0

/-- How deep the brackets of items nest. -/
def nestingItems : List JsonValue → Nat
  | [] => 0
  | x :: xs => max (nesting x) (nestingItems xs)

/-- How deep the brackets in fields nest. -/
def nestingFields : List (Bytes × JsonValue) → Nat
  | [] => 0
  | (_, x) :: xs => max (nesting x) (nestingFields xs)

end

theorem skipBlanks_longer {s r : List Char} {c : Char} (h : skipBlanks s = c :: r) (x : List Char) :
    skipBlanks (s ++ x) = c :: (r ++ x) := by
  induction s with
  | nil => cases h
  | cons b s ih =>
    cases hb : isBlank b with
    | true =>
      have hdrop : ∀ t : List Char, skipBlanks (b :: t) = skipBlanks t := fun t => by
        simp [skipBlanks, hb]
      rw [hdrop] at h
      rw [List.cons_append, hdrop, ih h]
    | false =>
      rw [skipBlanks_cons hb] at h
      cases h
      rw [List.cons_append, skipBlanks_cons hb]

theorem readWord_longer {word : String} {v w : JsonValue} {s rest : List Char}
    (h : readWord word v s = some (w, rest)) (x : List Char) :
    readWord word v (s ++ x) = some (w, rest ++ x) := by
  unfold readWord at h ⊢
  split_ifs at h with hstart
  cases h
  obtain ⟨t, rfl⟩ := List.isPrefixOf_iff_prefix.mp hstart
  have hlength : word.length = word.toList.length := String.length_toList.symm
  have hlonger : word.toList.isPrefixOf (word.toList ++ t ++ x) = true := by
    rw [List.isPrefixOf_iff_prefix, List.append_assoc]
    exact List.prefix_append _ _
  rw [if_pos hlonger, hlength, List.append_assoc, List.drop_left, List.drop_left]

/-- What the first of two readers finds in a text, the second one finds in a longer text, with the
addition left over, as long as it is in a given set. -/
structure Persists {α : Type} (fits : α → Prop) (read read' : List Char → Option (α × List Char)) :
    Prop where
  found : ∀ {s rest x : List Char} {v : α}, Ends x → read s = some (v, rest) → fits v →
    read' (s ++ x) = some (v, rest ++ x)

theorem map_longer {α β : Type} {read read' : List Char → Option (α × List Char)} {make : α → β}
    {s rest x : List Char} {b : β}
    (hread : ∀ {a rest}, b = make a → read s = some (a, rest) → read' (s ++ x) = some (a, rest ++ x))
    (h : ((read s).map fun (a, rest) => (make a, rest)) = some (b, rest)) :
    ((read' (s ++ x)).map fun (a, rest) => (make a, rest)) = some (b, rest ++ x) := by
  obtain ⟨⟨a, s₁⟩, ha, hpair⟩ := Option.map_eq_some_iff.mp h
  cases hpair
  rw [hread rfl ha]
  rfl

/-- Reads a part, and after a comma more of them, up to a closing character. -/
def readParts {α : Type} (close : Char) (one : List Char → Option (α × List Char))
    (more : List Char → Option (List α × List Char)) (s : List Char) :
    Option (List α × List Char) := do
  let (a, rest) ← one s
  match skipBlanks rest with
  | c :: r =>
    if c = ',' then
      let (parts, rest) ← more r
      return (a :: parts, rest)
    else if c = close then return ([a], r)
    else none
  | [] => none

/-- Reads the name and the value of a field. -/
def readField (read : List Char → Option (JsonValue × List Char)) (s : List Char) :
    Option ((Bytes × JsonValue) × List Char) :=
  match skipBlanks s with
  | c :: r =>
    if c = '"' then do
      let (key, rest) ← readString r
      match skipBlanks rest with
      | d :: r =>
        if d = ':' then do
          let (v, rest) ← read r
          return ((key, v), rest)
        else none
      | [] => none
    else none
  | [] => none

theorem readItems_eq (fuel depth : Nat) (s : List Char) :
    readItems (fuel + 1) depth s = readParts ']' (readValue fuel depth) (readItems fuel depth) s := by
  rw [readItems, readParts]
  refine congrArg _ (funext fun p => ?_)
  cases hskip : skipBlanks p.2 with
  | nil => simp [hskip]
  | cons c r =>
    by_cases hcomma : c = ','
    · simp [hskip, hcomma]
    · by_cases hclose : c = ']' <;> simp [hskip, hcomma, hclose]

theorem readFields_eq (fuel depth : Nat) (s : List Char) :
    readFields (fuel + 1) depth s =
      readParts '\x7d' (readField (readValue fuel depth)) (readFields fuel depth) s := by
  rw [readFields, readParts, readField]
  cases hskip : skipBlanks s with
  | nil => rfl
  | cons c r =>
    by_cases hquote : c = '"'
    · subst hquote
      cases hkey : readString r with
      | none => simp [hkey]
      | some p =>
        obtain ⟨key, s₁⟩ := p
        cases hskip₁ : skipBlanks s₁ with
        | nil => simp [hkey, hskip₁]
        | cons d r₁ =>
          by_cases hcolon : d = ':'
          · subst hcolon
            cases hvalue : readValue fuel depth r₁ with
            | none => simp [hkey, hskip₁, hvalue]
            | some q =>
              obtain ⟨v, s₂⟩ := q
              simp only [hkey, hskip₁, hvalue, Option.bind_eq_bind, Option.bind_some, if_true,
                Option.pure_def]
              cases hskip₂ : skipBlanks s₂ with
              | nil => rfl
              | cons e r₂ =>
                by_cases hcomma : e = ','
                · simp [hcomma]
                · by_cases hclose : e = '\x7d' <;> simp [hcomma, hclose]
          · simp [hkey, hskip₁, hcolon]
    · simp [hquote]

theorem readParts_persists {α : Type} {fits : α → Prop} {fitAll : List α → Prop}
    {one one' : List Char → Option (α × List Char)}
    {more more' : List Char → Option (List α × List Char)}
    (hcons : ∀ a l, fitAll (a :: l) → fits a ∧ fitAll l) (hone : Persists fits one one')
    (hmore : Persists fitAll more more') (close : Char) :
    Persists fitAll (readParts close one more) (readParts close one' more') := by
  refine ⟨fun {s rest x v} hx h hv => ?_⟩
  simp only [readParts, Option.bind_eq_bind, Option.bind_eq_some_iff] at h ⊢
  obtain ⟨⟨first, s₁⟩, hfirst, h⟩ := h
  cases hskip : skipBlanks s₁ with
  | nil =>
    simp only [hskip] at h
    cases h
  | cons c r =>
    simp only [hskip] at h
    split_ifs at h with hcomma hclose
    · obtain ⟨⟨parts, s₂⟩, hparts, hpair⟩ := Option.bind_eq_some_iff.mp h
      cases hpair
      obtain ⟨hfits, hall⟩ := hcons first parts hv
      refine ⟨_, hone.found hx hfirst hfits, ?_⟩
      simp only [skipBlanks_longer hskip, hcomma, if_true, hmore.found hx hparts hall]
      rfl
    · cases h
      obtain ⟨hfits, -⟩ := hcons first [] hv
      refine ⟨_, hone.found hx hfirst hfits, ?_⟩
      simp only [skipBlanks_longer hskip, if_neg hcomma, if_pos hclose]
      rfl

theorem readField_persists {fits : JsonValue → Prop}
    {read read' : List Char → Option (JsonValue × List Char)} (hread : Persists fits read read') :
    Persists (fun f => fits f.2) (readField read) (readField read') := by
  refine ⟨fun {s rest x v} hx h hv => ?_⟩
  unfold readField at h ⊢
  cases hskip : skipBlanks s with
  | nil =>
    rw [hskip] at h
    cases h
  | cons c r =>
    rw [hskip] at h
    rw [skipBlanks_longer hskip]
    simp only at h ⊢
    split_ifs at h ⊢ with hquote
    simp only [Option.bind_eq_bind, Option.bind_eq_some_iff] at h ⊢
    obtain ⟨⟨key, s₁⟩, hkey, h⟩ := h
    refine ⟨_, readString_longer hkey x, ?_⟩
    simp only at h ⊢
    cases hskip₁ : skipBlanks s₁ with
    | nil =>
      rw [hskip₁] at h
      cases h
    | cons d r₁ =>
      rw [hskip₁] at h
      rw [skipBlanks_longer hskip₁]
      simp only at h ⊢
      split_ifs at h ⊢ with hcolon
      obtain ⟨⟨value, s₂⟩, hvalue, hpair⟩ := Option.bind_eq_some_iff.mp h
      cases hpair
      simp only [hread.found hx hvalue hv]
      rfl

/-- Reads the parts between two brackets after the opening one, if there are any. -/
def readBetween {α : Type} (close : Char) (make : List α → JsonValue)
    (parts : List Char → Option (List α × List Char)) (s : List Char) :
    Option (JsonValue × List Char) :=
  match skipBlanks s with
  | c :: rest =>
    if c = close then some (make [], rest)
    else (parts s).map fun (found, rest) => (make found, rest)
  | [] => none

theorem exists_make_of_readBetween {α : Type} {close : Char} {make : List α → JsonValue}
    {parts : List Char → Option (List α × List Char)} {s rest : List Char} {v : JsonValue}
    (h : readBetween close make parts s = some (v, rest)) : ∃ l, v = make l := by
  unfold readBetween at h
  split at h
  · split_ifs at h
    · cases h
      exact ⟨[], rfl⟩
    · obtain ⟨⟨l, s₁⟩, -, hpair⟩ := Option.map_eq_some_iff.mp h
      cases hpair
      exact ⟨l, rfl⟩
  · cases h

theorem readBetween_longer {α : Type} {fits : List α → Prop} {close : Char}
    {make : List α → JsonValue} {parts parts' : List Char → Option (List α × List Char)}
    (hparts : Persists fits parts parts') {s rest x : List Char} {v : JsonValue} (hx : Ends x)
    (hv : ∀ l, v = make l → fits l) (h : readBetween close make parts s = some (v, rest)) :
    readBetween close make parts' (s ++ x) = some (v, rest ++ x) := by
  unfold readBetween at h ⊢
  cases hskip : skipBlanks s with
  | nil =>
    rw [hskip] at h
    cases h
  | cons c r =>
    rw [hskip] at h
    rw [skipBlanks_longer hskip]
    simp only at h ⊢
    split_ifs at h ⊢ with hclose
    · cases h
      rfl
    · exact map_longer (fun hmake hread => hparts.found hx hread (hv _ hmake)) h

theorem readValue_blank {s : List Char} (h : skipBlanks s = []) (fuel depth : Nat) :
    readValue fuel depth s = none := by
  cases fuel with
  | zero => simp [readValue]
  | succ fuel =>
    simp only [readValue, h]
    rfl

theorem readItems_blank {s : List Char} (h : skipBlanks s = []) (fuel depth : Nat) :
    readItems fuel depth s = none := by
  cases fuel with
  | zero => simp [readItems]
  | succ fuel =>
    rw [readItems_eq, readParts, readValue_blank h]
    rfl

theorem readFields_blank {s : List Char} (h : skipBlanks s = []) (fuel depth : Nat) :
    readFields fuel depth s = none := by
  cases fuel with
  | zero => simp [readFields]
  | succ fuel =>
    rw [readFields_eq, readParts, readField, h]
    rfl

theorem readItems_between (fuel depth : Nat) (r : List Char) :
    (match skipBlanks r with
      | ']' :: rest => some (array [], rest)
      | _ => (readItems fuel depth r).map fun (items, rest) => (array items, rest)) =
        readBetween ']' array (readItems fuel depth) r := by
  unfold readBetween
  cases hskip : skipBlanks r with
  | nil => simp [readItems_blank hskip]
  | cons d t => by_cases hclose : d = ']' <;> simp [hclose]

theorem readFields_between (fuel depth : Nat) (r : List Char) :
    (match skipBlanks r with
      | '\x7d' :: rest => some (object [], rest)
      | _ => (readFields fuel depth r).map fun (fields, rest) => (object fields, rest)) =
        readBetween '\x7d' object (readFields fuel depth) r := by
  unfold readBetween
  cases hskip : skipBlanks r with
  | nil => simp [readFields_blank hskip]
  | cons d t => by_cases hclose : d = '\x7d' <;> simp [hclose]

/-- What is read depends on the first character that is no blank. -/
theorem readValue_eq (fuel depth : Nat) {s r : List Char} {c : Char} (h : skipBlanks s = c :: r) :
    readValue (fuel + 1) depth s =
      if c = '"' then (readString r).map fun (x, rest) => (string x, rest)
      else if c = '[' then
        if depth = 0 then none else readBetween ']' array (readItems fuel (depth - 1)) r
      else if c = '\x7b' then
        if depth = 0 then none else readBetween '\x7d' object (readFields fuel (depth - 1)) r
      else if c = 'n' then readWord "ull" null r
      else if c = 't' then readWord "rue" (bool true) r
      else if c = 'f' then readWord "alse" (bool false) r
      else (readNumber (c :: r)).map fun (literal, rest) => (number literal, rest) := by
  rw [readValue, h]
  split
  · cases ‹c :: r = _›
    rfl
  · cases ‹c :: r = _›
    by_cases hdepth : depth = 0
    · simp [hdepth]
    · simp only [hdepth, if_false, if_true, Char.reduceEq]
      exact readItems_between fuel (depth - 1) r
  · cases ‹c :: r = _›
    by_cases hdepth : depth = 0
    · simp [hdepth]
    · simp only [hdepth, if_false, if_true, Char.reduceEq]
      exact readFields_between fuel (depth - 1) r
  · cases ‹c :: r = _›
    rfl
  · cases ‹c :: r = _›
    rfl
  · cases ‹c :: r = _›
    rfl
  · simp_all

/-- **What is read does not depend on what follows**, nor on fuel and depth as long as they suffice. -/
theorem read_persists (fuel : Nat) :
    (∀ depth fuel' depth', fuel ≤ fuel' →
      Persists (·.nesting ≤ depth') (readValue fuel depth) (readValue fuel' depth')) ∧
    (∀ depth fuel' depth', fuel ≤ fuel' →
      Persists (nestingItems · ≤ depth') (readItems fuel depth) (readItems fuel' depth')) ∧
    ∀ depth fuel' depth', fuel ≤ fuel' →
      Persists (nestingFields · ≤ depth') (readFields fuel depth) (readFields fuel' depth') := by
  induction fuel with
  | zero =>
    refine ⟨fun depth _ _ _ => ⟨fun _ h _ => ?_⟩, fun depth _ _ _ => ⟨fun _ h _ => ?_⟩,
      fun depth _ _ _ => ⟨fun _ h _ => ?_⟩⟩
    · simp [readValue] at h
    · simp [readItems] at h
    · simp [readFields] at h
  | succ fuel ih =>
    obtain ⟨hvalue, hitems, hfields⟩ := ih
    refine ⟨fun depth fuel' depth' hfuel => ⟨fun {s rest x v} hx h hv => ?_⟩,
      fun depth fuel' depth' hfuel => ⟨fun {s rest x v} hx h hv => ?_⟩,
      fun depth fuel' depth' hfuel => ⟨fun {s rest x v} hx h hv => ?_⟩⟩
    all_goals
      obtain ⟨fuel', rfl⟩ : ∃ n, fuel' = n + 1 := ⟨fuel' - 1, by omega⟩
      have hless : fuel ≤ fuel' := by omega
    · cases hskip : skipBlanks s with
      | nil =>
        rw [readValue_blank hskip] at h
        cases h
      | cons c r =>
        rw [readValue_eq fuel depth hskip] at h
        rw [readValue_eq fuel' depth' (skipBlanks_longer hskip x)]
        split_ifs at h ⊢
        · exact map_longer (fun _ h' => readString_longer h' x) h
        · obtain ⟨l, rfl⟩ := exists_make_of_readBetween h
          simp [nesting, *] at hv
        · refine readBetween_longer (hitems _ fuel' (depth' - 1) hless) hx ?_ h
          rintro l rfl
          exact Nat.le_sub_one_of_lt hv
        · obtain ⟨l, rfl⟩ := exists_make_of_readBetween h
          simp [nesting, *] at hv
        · refine readBetween_longer (hfields _ fuel' (depth' - 1) hless) hx ?_ h
          rintro l rfl
          exact Nat.le_sub_one_of_lt hv
        · exact readWord_longer h x
        · exact readWord_longer h x
        · exact readWord_longer h x
        · exact map_longer (fun _ h' => readNumber_longer hx h') h
    · rw [readItems_eq] at h ⊢
      exact (readParts_persists (fun _ _ => Nat.max_le.mp) (hvalue depth fuel' depth' hless)
        (hitems depth fuel' depth' hless) ']').found hx h hv
    · rw [readFields_eq] at h ⊢
      exact (readParts_persists (fun _ _ => Nat.max_le.mp)
        (readField_persists (hvalue depth fuel' depth' hless))
        (hfields depth fuel' depth' hless) _).found hx h hv

/-! ### A text as the value of a field -/

theorem read_of_whole? {text : Bytes} {v : JsonValue} (h : whole? text = some v) :
    ∃ rest, readValue (2 * (Bytes.chars text).length + 2) mostNested (Bytes.chars text) =
      some (v, rest) ∧ ∀ c ∈ rest, isBlank c = true := by
  unfold whole? at h
  cases hfirst : first? text with
  | none =>
    rw [hfirst] at h
    cases h
  | some found =>
    obtain ⟨w, rest⟩ := found
    rw [hfirst] at h
    simp only at h
    split_ifs at h with hblank
    cases h
    exact ⟨rest, hfirst, List.dropWhile_eq_nil_iff.mp (List.isEmpty_iff.mp hblank)⟩

/-- The last field of an object, where the value is a text in front of the closing bracket. -/
theorem readFields_text {fuel depth fuel' depth' : Nat} {s rest key : List Char} {k : Bytes}
    {v : JsonValue} (hkey : ∀ r, readString (key ++ '"' :: r) = some (k, r))
    (hread : readValue fuel depth s = some (v, rest)) (hblank : ∀ c ∈ rest, isBlank c = true)
    (hfuel : fuel ≤ fuel') (hdepth : v.nesting ≤ depth') :
    readFields (fuel' + 1) depth' ('"' :: key ++ '"' :: ':' :: (s ++ ['\x7d'])) =
      some ([(k, v)], []) := by
  have hends : Ends ['\x7d'] := ⟨by decide, by decide, by decide, by decide⟩
  have hquote : skipBlanks ('"' :: key ++ '"' :: ':' :: (s ++ ['\x7d'])) =
      '"' :: (key ++ '"' :: ':' :: (s ++ ['\x7d'])) := skipBlanks_cons (by decide) _
  have hcolon : skipBlanks (':' :: (s ++ ['\x7d'])) = ':' :: (s ++ ['\x7d']) :=
    skipBlanks_cons (by decide) _
  have hvalue : readValue fuel' depth' (s ++ ['\x7d']) = some (v, rest ++ ['\x7d']) :=
    ((read_persists fuel).1 depth fuel' depth' hfuel).found hends hread hdepth
  have hclose : skipBlanks (rest ++ ['\x7d']) = ['\x7d'] := skipBlanks_append hblank _
  rw [readFields_eq, readParts, readField, hquote]
  simp only [if_true, hkey, hcolon, hvalue, hclose, Option.bind_eq_bind, Option.bind_some,
    Option.pure_def, Char.reduceEq, if_false]

/-- An object of two fields, of which the first one is a string and the second one is given by a
text. -/
def taggedText (stray : StraySpelling) (name tag key text : Bytes) : Bytes :=
  "\x7b" ++ (quote stray name ++ ":" ++ quote stray tag) ++ ","
    ++ (quote stray key ++ ":" ++ (text ++ "\x7d"))

/-- **A text keeps its value inside an object**, unless its brackets nest as deep as they may. -/
theorem whole?_taggedText {stray : StraySpelling} {name tag key text : Bytes} {v : JsonValue}
    (h : whole? text = some v) (hv : v.nesting < mostNested) :
    whole? (taggedText stray name tag key text) =
      some (object [(name.scrub, string tag.scrub), (key.scrub, v)]) := by
  obtain ⟨rest, hread, hblank⟩ := read_of_whole? h
  obtain ⟨value, hvalue, htag⟩ := ReadsAs.string stray (mostNested - 1) tag
  obtain ⟨first, hfirst, hfield⟩ := fieldReadsAs stray .compact name htag
  obtain ⟨letters, hletters, hkey⟩ := quote_spec stray key
  have hchars : Bytes.chars (taggedText stray name tag key text) =
      '\x7b' :: (first ++ ',' :: ('"' :: letters ++ '"' :: ':' :: (Bytes.chars text ++ ['\x7d']))) := by
    have hlast : Bytes.chars (text ++ Bytes.ofString "\x7d") = Bytes.chars text ++ ['\x7d'] :=
      Bytes.chars_append_ascii (by decide) text []
    have hfront : taggedText stray name tag key text =
        Bytes.ofChars ('\x7b' :: (first ++ ',' :: ('"' :: letters ++ '"' :: [':']))) ++
          (text ++ "\x7d") := by
      rw [Layout.space, List.append_nil] at hfirst
      rw [taggedText, hvalue, hfirst, hletters]
      simp only [Bytes.ofChars_cons, Bytes.ofChars_append, List.append_assoc, List.cons_append]
      rfl
    rw [hfront, Bytes.chars_ofChars_append, hlast]
    simp
  obtain ⟨more, hopen⟩ : ∃ more, ∀ r, skipBlanks (first ++ r) = '"' :: (more ++ r) := by
    obtain ⟨key', space', value', rfl, -⟩ := hfield.split
    exact ⟨_, fun r => skipBlanks_cons (by decide) _⟩
  have hdepth : mostNested ≠ 0 := by decide
  have hnest : v.nesting ≤ mostNested - 1 := Nat.le_sub_one_of_lt hv
  have hone : first? (taggedText stray name tag key text) =
      some (object [(name.scrub, string tag.scrub), (key.scrub, v)], []) := by
    unfold first?
    simp only [hchars]
    -- the fuel is more than the number of characters, and one unit is used for each level
    generalize hfuel : 2 * _ + 2 = fuel
    simp only [List.length_cons, List.length_append] at hfuel
    obtain ⟨k, rfl⟩ : ∃ k, fuel = k + 3 := ⟨fuel - 3, by omega⟩
    have hlast := readFields_text hkey hread hblank (show _ ≤ k by omega) hnest
    rw [readValue_eq (k + 2) mostNested (skipBlanks_cons (by decide) _)]
    simp only [Char.reduceEq, if_false, if_true, hdepth, readBetween, hopen]
    rw [hfield.next (by omega), hlast]
    rfl
  unfold whole?
  rw [hone]
  rfl

end JsonValue

end PatchAudit
