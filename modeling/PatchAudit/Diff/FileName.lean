import PatchAudit.Path.Basic
import PatchAudit.Text.Quoted

/-!
# File names in diff headers

A name is quoted, or runs up to a terminator or the end of its line.
-/

namespace PatchAudit

namespace Diff

/-- Why a name cannot be read. -/
inductive NameFault where
  | missing
  | badQuoting
  deriving DecidableEq, Repr

/-- The wording of a name's fault. -/
def NameFault.message : NameFault → Bytes
  | missing => "missing name"
  | badQuoting => "invalid syntax"

/-- The number of bytes up to the first quote after the first byte that no backslash precedes, the
quote included, or up to the end of the text. -/
def quotedExtent (before : UInt8) : Bytes → Nat
  | [] => 0
  | b :: r => if b = 0x22 ∧ before ≠ 0x5C then 1 else quotedExtent b r + 1

/-- Reads the quoted name at the front of a text that starts with a quote, with its extent. -/
def quotedName (s : Bytes) : Except NameFault (Bytes × Nat) :=
  let n := 1 + quotedExtent 0x22 (s.drop 1)
  if n = 2 then .error .missing
  else
    match Quoted.decode? (s.take n) with
    | some name => .ok (name, n)
    | none => .error .badQuoting

/-- A text without its first component, which takes its slash along; nothing is left of a text
without a slash. -/
def dropComponent (s : Bytes) : Bytes := (s.dropWhile (· != 0x2F)).drop 1

/-- A name with runs of slashes made one slash, after dropping a number of leading components.  The
component so far is kept in `acc`, the last byte first. -/
def cleanName (drop : Nat) (acc : Bytes) : Bytes → Bytes
  | [] => acc.reverse
  | 0x2F :: 0x2F :: r => cleanName drop acc (0x2F :: r)
  | 0x2F :: r =>
    match drop with
    | 0 => cleanName 0 (0x2F :: acc) r
    | n + 1 => cleanName n [] r
  | b :: r => cleanName drop (b :: acc) r

/-- Reads a name up to a newline or `stop`, and drops a number of leading components from it. -/
def readName (s : Bytes) (stop : Option UInt8) (drop : Nat) : Except NameFault Bytes := do
  let name ←
    if s.head? = some 0x22 then (quotedName s).map (·.1)
    else
      let plain := s.takeWhile fun b => b != 0x0A && some b != stop
      if plain.isEmpty then .error .missing else .ok plain
  return if name = Path.nowhere then name else cleanName drop [] name

end Diff

end PatchAudit
