import PatchAudit.Text.Bytes

/-!
# Coloured texts

On a terminal a text may be printed with attributes, which are switched on in front of it and off
behind it.
-/

namespace PatchAudit

/-- Attributes of a printed text: the codes that switch them on and off. -/
structure Ink where
  start : Bytes
  stop : Bytes
  deriving DecidableEq, Repr

namespace Ink

def boldGreen : Ink := ⟨"32;1", "0;22"⟩
def boldRed : Ink := ⟨"31;1", "0;22"⟩
def cyan : Ink := ⟨"36", "0"⟩
def bold : Ink := ⟨"1", "22"⟩
def red : Ink := ⟨"31", "0"⟩
def green : Ink := ⟨"32", "0"⟩

/-- A text with attributes if `coloured` is set, else the text alone. -/
def paint (coloured : Bool) (ink : Ink) (s : Bytes) : Bytes :=
  if coloured then "\x1b[" ++ ink.start ++ "m" ++ s ++ "\x1b[" ++ ink.stop ++ "m" else s

end Ink

end PatchAudit
