import PatchAudit.Text.Bytes

/-!
# Lists separated by commas

The items of a list are separated by commas.  An item with a comma, a quote or a line end in it
stands between double quotes, and quotes inside it are written twice.  Only the first line that is
not empty is read.
-/

namespace PatchAudit

namespace Csv

/-- Where something stands in a text, both counted from 1. -/
structure Position where
  line : Nat
  column : Nat
  deriving DecidableEq, Repr

/-- Why a text is no list. -/
inductive Fault where
  /-- The text has no line with an item. -/
  | blank
  /-- A quote inside an item that does not begin with one. -/
  | bareQuote (start : Nat) (place : Position)
  /-- A quote inside a quoted item that is not written twice, or is missing at its end. -/
  | badQuote (start : Nat) (place : Position)
  deriving DecidableEq, Repr

/-- The wording of where a fault is, in a list that begins on line `start`. -/
def Position.message (start : Nat) (p : Position) : Bytes :=
  let begun : Bytes := if start = p.line then [] else "record on line " ++ Bytes.ofNat start ++ "; "
  begun ++ "parse error on line " ++ Bytes.ofNat p.line ++ ", column " ++ Bytes.ofNat p.column ++ ": "

/-- The wording of a fault. -/
def Fault.message : Fault → Bytes
  | blank => "EOF"
  | bareQuote start p => p.message start ++ "bare \" in non-quoted-field"
  | badQuote start p => p.message start ++ "extraneous or missing \" in quoted-field"

/-- What the reader stands in. -/
inductive Mode where
  /-- At the start of an item. -/
  | start
  | plain
  | quoted
  /-- Behind a quote inside a quoted item. -/
  | afterQuote
  deriving DecidableEq, Repr

/-- The position after a byte of a quoted item. -/
def Position.pass (p : Position) (b : UInt8) (rest : Bytes) : Position :=
  if b = 0x0A ∧ !rest.isEmpty then ⟨p.line + 1, 1⟩ else ⟨p.line, p.column + 1⟩

/-- Reads the items from `item` on, which holds what was read of the current one. -/
def readItems (start : Nat) (mode : Mode) (p : Position) (item : Bytes) :
    Bytes → Except Fault (List Bytes)
  | [] =>
    match mode with
    | .quoted => .error (.badQuote start p)
    | _ => .ok [item]
  | b :: rest =>
    let next : Position := ⟨p.line, p.column + 1⟩
    match mode with
    | .quoted =>
      if b = 0x22 then readItems start .afterQuote next item rest
      else readItems start .quoted (p.pass b rest) (item ++ [b]) rest
    | _ =>
      if b = 0x0A then .ok [item]
      else if b = 0x2C then do return item :: (← readItems start .start next [] rest)
      else if b = 0x22 then
        match mode with
        | .start => readItems start .quoted next [] rest
        | .plain => .error (.bareQuote start p)
        | _ => readItems start .quoted next (item ++ [b]) rest
      else if mode = .afterQuote then .error (.badQuote start ⟨p.line, p.column - 1⟩)
      else readItems start .plain next (item ++ [b]) rest

/-- The items of the first line that is not empty. -/
def read (s : Bytes) : Except Fault (List Bytes) :=
  let s := Bytes.plainEnds (Bytes.dropFinal [0x0D] s)
  let body := s.dropWhile (· == 0x0A)
  let line := s.length - body.length + 1
  if body.isEmpty then .error .blank else readItems line .start ⟨line, 1⟩ [] body

/-- Whether an item has to be quoted. -/
def needsQuotes (item : Bytes) : Bool :=
  item.any fun b => b == 0x22 || b == 0x2C || b == 0x0A || b == 0x0D

/-- An item as it is written. -/
def writeItem (item : Bytes) : Bytes :=
  if needsQuotes item then
    0x22 :: item.flatMap (fun b => if b = 0x22 then [b, b] else [b]) ++ [0x22]
  else item

/-- A list as it is written. -/
def write (items : List Bytes) : Bytes := Bytes.join "," (items.map writeItem)

end Csv

end PatchAudit
