import PatchAudit.Text.Bytes

/-!
# Reading numerals

Signed numerals of a fixed number of bits in a given base.  A numeral is read from left to right,
and the first fault met is the one reported.
-/

namespace PatchAudit

/-- Why a text is no numeral. -/
inductive NumeralFault where
  | malformed
  | outOfRange
  deriving DecidableEq, Repr

/-- The wording of a numeral's fault. -/
def NumeralFault.message : NumeralFault → Bytes
  | malformed => "invalid syntax"
  | outOfRange => "value out of range"

namespace Numeral

/-- The value of a digit in any base up to 36, letters in either case. -/
def digit? (b : UInt8) : Option Nat :=
  let c := Bytes.asciiLower b
  if Bytes.isDigit b then some (b.toNat - 0x30)
  else if 0x61 ≤ c ∧ c ≤ 0x7A then some (c.toNat - 0x57)
  else none

/-- Reads digits onto a value, which has to stay below `bound`. -/
def digits (base bound : Nat) : Nat → Bytes → Except NumeralFault Nat
  | acc, [] => .ok acc
  | acc, b :: r =>
    match digit? b with
    | none => .error .malformed
    | some d =>
      if base ≤ d then .error .malformed
      else if bound ≤ acc * base + d then .error .outOfRange
      else digits base bound (acc * base + d) r

/-- An unsigned magnitude of at least one digit. -/
def magnitude (base bits : Nat) (s : Bytes) : Except NumeralFault Nat :=
  if s.isEmpty then .error .malformed else digits base (1 <<< bits) 0 s

/-- Puts the sign to a magnitude and checks the range of a signed word. -/
def signed (bits : Nat) (negative : Bool) (m : Nat) : Except NumeralFault Int :=
  if negative then
    if m ≤ 1 <<< (bits - 1) then .ok (-(m : Int)) else .error .outOfRange
  else if m < 1 <<< (bits - 1) then .ok (m : Int) else .error .outOfRange

/-- Splits an optional sign from a text; the flag is set for a minus. -/
def splitSign : Bytes → Bool × Bytes
  | 0x2B :: r => (false, r)
  | 0x2D :: r => (true, r)
  | s => (false, s)

/-- Reads a signed numeral in the given base, with digits only. -/
def read (base bits : Nat) (s : Bytes) : Except NumeralFault Int := do
  let (negative, body) := splitSign s
  signed bits negative (← magnitude base bits body)

/-- Whether underscores in a numeral with a base mark stand between digits only; the flags tell
whether the byte before was a digit (or the mark) and whether it was an underscore. -/
def underscoresFit : Bool → Bool → Bytes → Bool
  | _, score, [] => !score
  | digitBefore, score, b :: r =>
    if b = 0x5F then if digitBefore then underscoresFit false true r else false
    else if (digit? b).isSome then underscoresFit true false r
    else if score then false
    else underscoresFit false false r

/-- Splits the mark of a base from a magnitude: `0x`, `0o`, `0b` or a lone leading `0`. -/
def splitBase : Bytes → Nat × Bytes
  | 0x30 :: b :: r =>
    let c := Bytes.asciiLower b
    if c = 0x78 ∧ !r.isEmpty then (16, r)
    else if c = 0x6F ∧ !r.isEmpty then (8, r)
    else if c = 0x62 ∧ !r.isEmpty then (2, r)
    else (8, b :: r)
  | s => (10, s)

/-- Reads a signed numeral whose base is given by its own mark; underscores may stand between
digits and after the mark. -/
def readMarked (bits : Nat) (s : Bytes) : Except NumeralFault Int := do
  let (negative, body) := splitSign s
  if body.isEmpty then throw .malformed
  let (base, ds) := splitBase body
  let m ← digits base (1 <<< bits) 0 (ds.filter (· != 0x5F))
  let lettered := ds.length + 2 = body.length
  let fits := if lettered then underscoresFit true false ds else underscoresFit false false body
  if ds.contains 0x5F ∧ !fits then throw .malformed
  signed bits negative m

end Numeral

end PatchAudit
