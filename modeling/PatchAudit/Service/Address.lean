import PatchAudit.Text.Percent

/-!
# Addresses

An address is written `scheme://user@host:port/path?query#part`.  The scheme, and with it the part
up to the path, may be missing.
-/

namespace PatchAudit

namespace Address

/-- Splits a text at the first byte `b`, which is left out. -/
def cutAt (b : UInt8) (s : Bytes) : Bytes × Bytes :=
  (s.takeWhile (· != b), (s.dropWhile (· != b)).drop 1)

/-- Splits a text at the last byte `b`, which is left out; without one, nothing is in front. -/
def cutAtLast (b : UInt8) (s : Bytes) : Option Bytes × Bytes :=
  if s.contains b then
    (some (s.reverse.dropWhile (· != b)).tail.reverse, (s.reverse.takeWhile (· != b)).reverse)
  else (none, s)

/-- Whether a byte may stand in a scheme after its first letter. -/
def isSchemeByte (b : UInt8) : Bool :=
  Percent.isLetter b || Bytes.isDigit b || (Bytes.ofString "+-.").contains b

/-- Splits the scheme from an address.  There is none if the first byte that cannot stand in a
scheme is no colon; a colon with nothing in front of it is refused. -/
def splitScheme (s : Bytes) : Option (Bytes × Bytes) :=
  let (front, rest) := s.span isSchemeByte
  match front, rest with
  | [], 0x3A :: _ => none
  | b :: r, 0x3A :: rest => if Percent.isLetter b then some (b :: r, rest) else some ([], s)
  | _, _ => some ([], s)

/-- The path of an address without a part at its end, with its escapes, and the query.  Without a
scheme two slashes begin the path; with one, what does not begin with a slash has no path. -/
def target? (s : Bytes) : Option (Bytes × Bytes) := do
  let (scheme, rest) ← splitScheme s
  let (place, query) := cutAt 0x3F rest
  match scheme, place with
  | [], _ => return (place, query)
  | _, 0x2F :: 0x2F :: r => return (r.dropWhile (· != 0x2F), query)
  | _, 0x2F :: _ => return (place, query)
  | _, _ => return ([], query)

end Address

end PatchAudit
