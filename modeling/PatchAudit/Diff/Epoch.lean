import PatchAudit.Text.Bytes

/-!
# The epoch timestamp

A name line of a plain header may carry a timestamp after a tab.  The start of 1970, in any time
zone, marks a side that does not exist.
-/

namespace PatchAudit

namespace Diff

/-- A number of two digits, or of one digit where that is allowed, and the rest. -/
def shortNumber? (loose : Bool) : Bytes → Option (Nat × Bytes)
  | a :: r =>
    if Bytes.isDigit a then
      match r with
      | b :: r' =>
        if Bytes.isDigit b then some ((a.toNat - 48) * 10 + (b.toNat - 48), r')
        else if loose then some (a.toNat - 48, r) else none
      | [] => if loose then some (a.toNat - 48, []) else none
    else none
  | [] => none

/-- What follows one given byte. -/
def pass? (b : UInt8) : Bytes → Option Bytes
  | x :: r => if x = b then some r else none
  | [] => none

/-- What follows one or more blanks. -/
def passBlanks? (s : Bytes) : Option Bytes := (pass? 0x20 s).map (·.dropWhile (· == 0x20))

/-- The number of days in a month. -/
def daysIn (year month : Nat) : Nat :=
  if month = 2 then
    if year % 4 = 0 ∧ (year % 100 ≠ 0 ∨ year % 400 = 0) then 29 else 28
  else if month = 4 ∨ month = 6 ∨ month = 9 ∨ month = 11 then 30 else 31

/-- The number of days from the start of 1970 to a date. -/
def dayNumber (year month day : Nat) : Int :=
  let y : Int := if month ≤ 2 then (year : Int) - 1 else year
  let m : Int := if month ≤ 2 then (month : Int) + 9 else (month : Int) - 3
  365 * y + y.fdiv 4 - y.fdiv 100 + y.fdiv 400 + (153 * m + 2).fdiv 5 + ((day : Int) - 1) - 719468

/-- A fraction of a second: whether it is zero in the first nine digits, and the rest. -/
def fraction (s : Bytes) : Bool × Bytes :=
  match s with
  | p :: d :: _ =>
    if (p = 0x2E ∨ p = 0x2C) ∧ Bytes.isDigit d then
      let ds := (s.drop 1).takeWhile Bytes.isDigit
      ((ds.take 9).all (· == 0x30), s.drop (1 + ds.length))
    else (true, s)
  | _ => (true, s)

/-- The offset of a time zone in seconds, which has to end the text. -/
def zone? (s : Bytes) : Option Int := do
  let (sign, r) ← match s with
    | 0x2B :: r => some ((1 : Int), r)
    | 0x2D :: r => some (-1, r)
    | _ => none
  let (h, r) ← shortNumber? false r
  let (m, r) ← shortNumber? false r
  if r.isEmpty ∧ h ≤ 24 ∧ m ≤ 60 then some (sign * ((h * 60 + m) * 60 : Nat)) else none

/-- The seconds from the start of 1970 to a time, if it is a whole second. -/
def timestamp? (s : Bytes) : Option Int := do
  let digits := s.take 4
  if digits.length < 4 ∨ !digits.all Bytes.isDigit then none
  let year := digits.foldl (fun acc b => acc * 10 + (b.toNat - 48)) 0
  let r ← pass? 0x2D (s.drop 4)
  let (month, r) ← shortNumber? false r
  let r ← pass? 0x2D r
  let (day, r) ← shortNumber? false r
  let r ← passBlanks? r
  let (hour, r) ← shortNumber? true r
  let r ← pass? 0x3A r
  let (minute, r) ← shortNumber? false r
  let r ← pass? 0x3A r
  let (second, r) ← shortNumber? false r
  let (whole, r) := fraction r
  let r ← passBlanks? r
  let offset ← zone? r
  if 1 ≤ month ∧ month ≤ 12 ∧ 1 ≤ day ∧ day ≤ daysIn year month ∧ hour < 24 ∧ minute < 60
      ∧ second < 60 ∧ whole then
    some (dayNumber year month day * 86400 + (hour * 3600 + minute * 60 + second : Nat) - offset)
  else none

/-- Whether a name line carries the epoch timestamp after its first tab.  A colon inside the time
zone is left out. -/
def hasEpochTime (line : Bytes) : Bool :=
  match Bytes.cut? [0x09] line with
  | none => false
  | some (_, rest) =>
    let time := Bytes.dropFinal "\n" rest
    let n := time.length
    let time :=
      if 3 ≤ n ∧ time.getD (n - 3) 0 = 0x3A then time.take (n - 3) ++ time.drop (n - 2) else time
    timestamp? time == some 0

end Diff

end PatchAudit
