import PatchAudit.Text.ControlSequence

/-!
# Styles of text

How a terminal shows text is set by codes with numbers.  A number switches an attribute on or off or
picks a colour, which may take the numbers after it.  A style has a code of its own, which sets it
where none was set before.
-/

namespace PatchAudit

open ControlSequence (Parameter)

/-- A colour of a text. -/
inductive Colour where
  /-- One of sixteen, which have numbers of their own. -/
  | basic (n : Nat)
  /-- One of a table. -/
  | indexed (n : Nat)
  /-- A mixture of light. -/
  | mixed (red green blue : Nat)
  deriving DecidableEq, Repr

namespace Colour

/-- The light that an amount of an ink leaves, black ink included. -/
def light (ink black : Nat) : Nat :=
  let v := (0xFFFF - ink % 256 * 0x101) * (0xFFFF - black % 256 * 0x101) / 0xFFFF
  if 0xFF < v then v / 256 else v

/-- A mixture of inks. -/
def ofInks (cyan magenta yellow black : Nat) : Colour :=
  mixed (light cyan black) (light magenta black) (light yellow black)

/-- A mixture of light, of which each amount is taken modulo 256. -/
def ofLight (red green blue : Nat) : Colour := mixed (red % 256) (green % 256) (blue % 256)

/-- The numbers that pick a colour, given the number that begins a basic one, that of the eight
brighter ones and that which announces any other. -/
def codes (dark bright other : Nat) : Colour → List Nat
  | basic n => [if n < 8 then dark + n else bright + (n - 8)]
  | indexed n => [other, 5, n]
  | mixed r g b => [other, 2, r, g, b]

/-- The parts of a colour and how many numbers they take, the first of which announces it.  If all of
them are joined, a number that names a space of colours may stand before the parts. -/
def parts? (kind : Nat) (ps : List Parameter) : Option (List Nat × Nat) :=
  let values := ps.map (·.value.getD 0)
  let joined := (ps.takeWhile (·.joined)).length
  if 5 ≤ joined then
    some ((values.drop 3).take (if joined = 5 then 3 else 4), min (joined + 1) 9)
  else if kind = 2 ∧ (joined = 4 ∨ (ps.take 5).all (!·.joined)) then some ((values.drop 2).take 3, 5)
  else none

/-- What the numbers from one that announces a colour say: the colour, none if it is taken back, and
how many numbers were read. -/
def read? (ps : List Parameter) : Option (Option Colour × Nat) :=
  match ps with
  | first :: kind :: rest =>
    match kind.value.getD 0, rest with
    | 0, _ => some (none, 2)
    | 1, _ => some (some (mixed 0 0 0), 2)
    | 2, _ :: _ :: _ :: _ =>
      match parts? 2 ps with
      | some (r :: g :: b :: _, n) => some (some (ofLight r g b), n)
      | _ => none
    | 3, _ :: _ :: _ :: _ =>
      match parts? 3 ps with
      | some (c :: m :: y :: _, n) => some (some (ofInks c m y 0), n)
      | _ => none
    | 4, _ :: _ :: _ :: _ =>
      match parts? 4 ps with
      | some ([c, m, y, k], n) => some (some (ofInks c m y k), n)
      | _ => none
    | 5, index :: _ =>
      if first.joined = kind.joined ∧ !index.joined then
        some (some (indexed (index.value.getD 0 % 256)), 3)
      else none
    | _, _ => none
  | _ => none

end Colour

/-- The line under a text. -/
inductive Underline where
  | absent
  | single
  | double
  | curly
  | dotted
  | dashed
  deriving DecidableEq, Repr

namespace Underline

/-- The line of a number. -/
def ofNat? : Nat → Option Underline
  | 0 => some absent
  | 1 => some single
  | 2 => some double
  | 3 => some curly
  | 4 => some dotted
  | 5 => some dashed
  | _ => none

/-- The code of a line; no line has none. -/
def code? : Underline → Option Bytes
  | absent => none
  | single => some "4"
  | double => some "4:2"
  | curly => some "4:3"
  | dotted => some "4:4"
  | dashed => some "4:5"

end Underline

/-- How a text is shown. -/
structure TextStyle where
  bold : Bool := false
  faint : Bool := false
  italic : Bool := false
  slowBlink : Bool := false
  rapidBlink : Bool := false
  reverse : Bool := false
  conceal : Bool := false
  strike : Bool := false
  underline : Underline := .absent
  fore : Option Colour := none
  back : Option Colour := none
  under : Option Colour := none
  deriving DecidableEq, Repr

namespace TextStyle

/-- Whether a blank is seen: if not, a line may be broken there. -/
def showsBlanks (s : TextStyle) : Bool :=
  s.reverse || s.back.isSome || s.underline != .absent

/-- A style after a number that stands for itself. -/
def set (s : TextStyle) (n : Nat) : TextStyle :=
  match n with
  | 0 => {}
  | 1 => { s with bold := true }
  | 2 => { s with faint := true }
  | 3 => { s with italic := true }
  | 4 => { s with underline := .single }
  | 5 => { s with slowBlink := true }
  | 6 => { s with rapidBlink := true }
  | 7 => { s with reverse := true }
  | 8 => { s with conceal := true }
  | 9 => { s with strike := true }
  | 22 => { s with bold := false, faint := false }
  | 23 => { s with italic := false }
  | 24 => { s with underline := .absent }
  | 25 => { s with slowBlink := false, rapidBlink := false }
  | 27 => { s with reverse := false }
  | 28 => { s with conceal := false }
  | 29 => { s with strike := false }
  | 39 => { s with fore := none }
  | 49 => { s with back := none }
  | 59 => { s with under := none }
  | n =>
    if 30 ≤ n ∧ n ≤ 37 then { s with fore := some (.basic (n - 30)) }
    else if 40 ≤ n ∧ n ≤ 47 then { s with back := some (.basic (n - 40)) }
    else if 90 ≤ n ∧ n ≤ 97 then { s with fore := some (.basic (n - 90 + 8)) }
    else if 100 ≤ n ∧ n ≤ 107 then { s with back := some (.basic (n - 100 + 8)) }
    else s

/-- A style after the first of some numbers, and how many of them belong to it. -/
def apply (s : TextStyle) (p : Parameter) (rest : List Parameter) : TextStyle × Nat :=
  match p.value.getD 0 with
  | 4 =>
    match p.joined, rest with
    | true, next :: _ =>
      match Underline.ofNat? (next.value.getD 0) with
      | some u => ({ s with underline := u }, 2)
      | none => (s, 1)
    | _, _ => (s.set 4, 1)
  | 38 =>
    match Colour.read? (p :: rest) with
    | some (c, n) => ({ s with fore := c }, n)
    | none => (s, 1)
  | 48 =>
    match Colour.read? (p :: rest) with
    | some (c, n) => ({ s with back := c }, n)
    | none => (s, 1)
  | 58 =>
    match Colour.read? (p :: rest) with
    | some (c, n) => ({ s with under := c }, n)
    | none => (s, 1)
  | n => (s.set n, 1)

/-- A style after numbers, of which some belong to the number before them. -/
def applyFrom : Nat → TextStyle → List Parameter → TextStyle
  | _, s, [] => s
  | n + 1, s, _ :: rest => applyFrom n s rest
  | 0, s, p :: rest =>
    let (s, n) := s.apply p rest
    applyFrom (n - 1) s rest

/-- A style after the numbers of a code; a code without numbers takes all back. -/
def applyAll (s : TextStyle) (ps : List Parameter) : TextStyle :=
  if ps.isEmpty then {} else applyFrom 0 s ps

/-- The codes of the attributes of a style. -/
def attributeCodes (s : TextStyle) : List Nat :=
  [(s.bold, 1), (s.faint, 2), (s.italic, 3), (s.slowBlink, 5), (s.rapidBlink, 6), (s.reverse, 7),
    (s.conceal, 8), (s.strike, 9)].filterMap fun (isSet, n) => if isSet then some n else none

/-- The sequence that takes a style back. -/
def resetSequence : Bytes := "\x1b[m"

/-- The sequence that sets a style. -/
def sequence (s : TextStyle) : Bytes :=
  let colour (c : Option Colour) (dark bright other : Nat) : List Bytes :=
    ((c.map (Colour.codes dark bright other)).getD []).map Bytes.ofNat
  "\x1b[" ++ Bytes.join ";" (s.attributeCodes.map Bytes.ofNat ++ s.underline.code?.toList
    ++ colour s.fore 30 90 38 ++ colour s.back 40 100 48 ++ colour s.under 58 58 58) ++ "m"

end TextStyle

end PatchAudit
