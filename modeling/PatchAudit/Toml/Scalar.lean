import PatchAudit.Diff.Epoch
import PatchAudit.Text.Numeral
import PatchAudit.Toml.Value

/-!
# Numbers, dates and times in TOML

A scalar that is no string is read as a whole word.
-/

namespace PatchAudit

namespace TomlScalar

/-- The digits of a number without the underscores, each of which has to stand between two digits.
The flag tells whether the byte before was a digit. -/
def group? (isDigit : UInt8 → Bool) : Bool → Bytes → Option Bytes
  | before, [] => if before then some [] else none
  | before, b :: r =>
    if isDigit b then (group? isDigit true r).map (b :: ·)
    else if b = 0x5F ∧ before then group? isDigit false r
    else none

/-- The digits of a decimal number without a sign, which may not start with a zero unless it is
zero. -/
def wholePart? (s : Bytes) : Option Bytes :=
  if 1 < s.length ∧ s.head? = some 0x30 then none else group? Bytes.isDigit false s

/-- An integer of 64 bits from its digits. -/
def integer? (base : Nat) (negative : Bool) (digits : Bytes) : Option Int :=
  match (Numeral.magnitude base 64 digits).bind (Numeral.signed 64 negative) with
  | .ok i => some i
  | .error _ => none

/-- Reads an integer: decimal with an optional sign, or with the mark of a base. -/
def readInteger? (s : Bytes) : Option Int :=
  let based (base : Nat) (isDigit : UInt8 → Bool) (r : Bytes) : Option Int :=
    (group? isDigit false r).bind (integer? base false)
  match s with
  | 0x30 :: 0x78 :: r => based 16 (fun b => (Bytes.hexValue? b).isSome) r
  | 0x30 :: 0x6F :: r => based 8 (fun b => 0x30 ≤ b && b ≤ 0x37) r
  | 0x30 :: 0x62 :: r => based 2 (fun b => 0x30 ≤ b && b ≤ 0x31) r
  | _ =>
    let (negative, body) := Numeral.splitSign s
    (wholePart? body).bind (integer? 10 negative)

/-- The value of decimal digits. -/
def natOf (digits : Bytes) : Nat := digits.foldl (fun acc b => acc * 10 + (b.toNat - 48)) 0

/-- Whether a decimal number, given by its digits and the power of ten that they count, is too large
for a floating-point number of 64 bits. -/
def isTooLarge (digits : Bytes) (power : Int) : Bool :=
  let m := natOf digits
  let size := ((digits.dropWhile (· == 0x30)).length : Int) + power
  let limit := (1 <<< 1024) - (1 <<< 970)
  if m = 0 ∨ size < 300 then false
  else if 320 < size then true
  else if 0 ≤ power then limit ≤ m * Nat.pow 10 power.toNat
  else limit * Nat.pow 10 (-power).toNat ≤ m

/-- Whether a word is a floating-point number: a whole part with a fraction, an exponent or both. -/
def isFloat (s : Bytes) : Bool :=
  let (_, body) := Numeral.splitSign s
  if body = Bytes.ofString "inf" ∨ body = Bytes.ofString "nan" then true
  else
    let mantissa := body.takeWhile fun b => b != 0x65 && b != 0x45
    let exponent := body.drop (mantissa.length + 1)
    let hasExponent := mantissa.length < body.length
    let whole := Bytes.before 0x2E mantissa
    let fraction := mantissa.drop (whole.length + 1)
    let hasFraction := whole.length < mantissa.length
    let (negative, power) := Numeral.splitSign exponent
    let part (present : Bool) (s : Bytes) : Option Bytes :=
      if present then group? Bytes.isDigit false s else some []
    match wholePart? whole, part hasFraction fraction, part hasExponent power with
    | some w, some f, some e =>
      let shift : Int := if negative then -(natOf e : Int) else natOf e
      (hasFraction || hasExponent) && !isTooLarge (w ++ f) (shift - f.length)
    | _, _, _ => false

/-! ### Dates and times -/

/-- The value of exactly two digits, and the rest. -/
def twoDigits? (s : Bytes) : Option (Nat × Bytes) := Diff.shortNumber? false s

/-- Passes a date. -/
def date? (s : Bytes) : Option Bytes := do
  let year := s.take 4
  if year.length < 4 ∨ !year.all Bytes.isDigit then none
  let r ← Diff.pass? 0x2D (s.drop 4)
  let (month, r) ← twoDigits? r
  let r ← Diff.pass? 0x2D r
  let (day, r) ← twoDigits? r
  if 1 ≤ month ∧ month ≤ 12 ∧ 1 ≤ day ∧ day ≤ Diff.daysIn (natOf year) month then some r else none

/-- Passes a time of day with an optional fraction of a second.  The hour may be a single digit. -/
def time? (s : Bytes) : Option Bytes := do
  let (hour, r) ← Diff.shortNumber? true s
  let r ← Diff.pass? 0x3A r
  let (minute, r) ← twoDigits? r
  let r ← Diff.pass? 0x3A r
  let (second, r) ← twoDigits? r
  if 24 ≤ hour ∨ 60 ≤ minute ∨ 60 ≤ second then none
  match r with
  | 0x2E :: f =>
    let digits := f.takeWhile Bytes.isDigit
    if digits.isEmpty then none else some (f.drop digits.length)
  | _ => some r

/-- Whether a text is a time zone. -/
def isZone (s : Bytes) : Bool :=
  match s with
  | [0x5A] => true
  | [0x7A] => true
  | sign :: r =>
    (sign == 0x2B || sign == 0x2D) &&
      match (do
        let (h, r) ← twoDigits? r
        let r ← Diff.pass? 0x3A r
        let (m, r) ← twoDigits? r
        return (h, m, r)) with
      | some (h, m, []) => h ≤ 24 && m ≤ 60
      | _ => false
  | [] => false

/-- Whether a word is a date, a time, or both with an optional time zone.  A word that begins with a
single zero is no time. -/
def isMoment (s : Bytes) : Bool :=
  match date? s with
  | some [] => true
  | some (mark :: r) =>
    (mark == 0x54 || mark == 0x74 || mark == 0x20) &&
      match time? r with
      | some rest => rest.isEmpty || isZone rest
      | none => false
  | none => !Bytes.hasStart [0x30, 0x3A] s && time? s == some []

/-- Reads a word that is no string. -/
def read? (s : Bytes) : Option TomlValue :=
  if s = Bytes.ofString "true" then some (.boolean true)
  else if s = Bytes.ofString "false" then some (.boolean false)
  else if isMoment s then some .moment
  else
    match readInteger? s with
    | some i => some (.integer i)
    | none => if isFloat s then some .float else none

end TomlScalar

end PatchAudit
