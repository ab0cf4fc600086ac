import PatchAudit.Text.Bytes

/-!
# Base 85

Five digits of base 85 spell four bytes, the first digit being the most significant one.  Values
are kept to 32 bits.
-/

namespace PatchAudit

namespace Base85

/-- The digits in the order of their values. -/
def alphabet : Bytes :=
  "0123456789ABCDEFGHIJKLMNOPQRSTUVWXYZabcdefghijklmnopqrstuvwxyz!#$%&()*+-;<=>?@^_`\x7b|\x7d~"

/-- A byte that is no digit, and its place. -/
structure Fault where
  index : Nat
  byte : UInt8
  deriving DecidableEq, Repr

/-- The value of a digit. -/
def digit? (b : UInt8) : Option Nat := alphabet.idxOf? b

/-- The four bytes of a value. -/
def fourBytes (v : Nat) : Bytes :=
  [(v / 0x1000000).toUInt8, (v / 0x10000).toUInt8, (v / 0x100).toUInt8, v.toUInt8]

/-- Reads digits from the given place on; `n` digits of the current group have the value `v`. -/
def decodeFrom (index n v : Nat) : Bytes → Except Fault Bytes
  | [] => .ok []
  | b :: r =>
    match digit? b with
    | none => .error ⟨index, b⟩
    | some d =>
      let v := (v * 85 + d) % 0x100000000
      if n = 4 then do
        let rest ← decodeFrom (index + 1) 0 0 r
        return fourBytes v ++ rest
      else decodeFrom (index + 1) (n + 1) v r

/-- The first `count` bytes that digits spell. -/
def decode (count : Nat) (digits : Bytes) : Except Fault Bytes :=
  (decodeFrom 0 0 0 digits).map (·.take count)

end Base85

end PatchAudit
