import PatchAudit.Text.Bytes

/-!
# MessagePack

Writing takes the shortest form of a length or an integer.  Reading accepts every form of the same
value, and a nil for zero, for the empty text and for no elements at all.
-/

namespace PatchAudit

namespace MessagePack

open Bytes (bigEndian)

/-! ### Writing -/

/-- The value nil. -/
def nil : Bytes := [0xC0]

/-- A word of `2 ^ k` bytes, in the form that names its width. -/
def word (k v : Nat) : Bytes := (0xCC + k).toUInt8 :: bigEndian (1 <<< k) v

/-- A natural number of at most 64 bits. -/
def nat (v : Nat) : Bytes :=
  if v < 0x80 then [v.toUInt8]
  else if v < 0x100 then word 0 v
  else if v < 0x10000 then word 1 v
  else if v < 0x100000000 then word 2 v
  else word 3 v

/-- An integer of at most 64 bits; a negative one is written in two's complement. -/
def int (i : Int) : Bytes :=
  let complement (width : Nat) : Bytes := bigEndian width (i + Nat.pow 256 width).toNat
  if 0 ≤ i then nat i.toNat
  else if -32 ≤ i then complement 1
  else if -0x80 ≤ i then 0xD0 :: complement 1
  else if -0x8000 ≤ i then 0xD1 :: complement 2
  else if -0x80000000 ≤ i then 0xD2 :: complement 4
  else 0xD3 :: complement 8

/-- The head of a text. -/
def textHead (n : Nat) : Bytes :=
  if n < 32 then [(0xA0 + n).toUInt8]
  else if n < 0x100 then 0xD9 :: bigEndian 1 n
  else if n < 0x10000 then 0xDA :: bigEndian 2 n
  else 0xDB :: bigEndian 4 n

/-- A text. -/
def text (s : Bytes) : Bytes := textHead s.length ++ s

/-- The head of an array. -/
def arrayHead (n : Nat) : Bytes :=
  if n < 16 then [(0x90 + n).toUInt8]
  else if n < 0x10000 then 0xDC :: bigEndian 2 n
  else 0xDD :: bigEndian 4 n

/-- The head of a map. -/
def mapHead (n : Nat) : Bytes :=
  if n < 16 then [(0x80 + n).toUInt8]
  else if n < 0x10000 then 0xDE :: bigEndian 2 n
  else 0xDF :: bigEndian 4 n

/-! ### Reading -/

/-- A step that reads from the front of bytes and may fail. -/
abbrev Reader := StateT Bytes Option

/-- Fails. -/
def refuse {α : Type} : Reader α := fun _ => none

/-- The next byte. -/
def byte : Reader UInt8 := fun s =>
  match s with
  | [] => none
  | b :: r => some (b, r)

/-- The next `n` bytes. -/
def take (n : Nat) : Reader Bytes := fun s =>
  if s.length < n then none else some (s.take n, s.drop n)

/-- A number from the next `n` bytes, the highest first. -/
def number (n : Nat) : Reader Nat := do return (← take n).bigEndianValue

/-- A number in two's complement from the next `n` bytes. -/
def signedNumber (n : Nat) : Reader Int := do
  let v ← number n
  return if v < Nat.pow 256 n / 2 then (v : Int) else (v : Int) - Nat.pow 256 n

/-- An integer of any form. -/
def readInt : Reader Int := do
  let c ← byte
  if c = 0xC0 then return 0
  else if c < 0x80 then return c.toNat
  else if 0xE0 ≤ c then return (c.toNat : Int) - 256
  else if c = 0xCC then return (← number 1 : Nat)
  else if c = 0xCD then return (← number 2 : Nat)
  else if c = 0xCE then return (← number 4 : Nat)
  else if c = 0xCF then return (← number 8 : Nat)
  else if c = 0xD0 then signedNumber 1
  else if c = 0xD1 then signedNumber 2
  else if c = 0xD2 then signedNumber 4
  else if c = 0xD3 then signedNumber 8
  else refuse

/-- An integer cut to a signed word of 64 bits. -/
def readInt64 : Reader Int := do return (← readInt).bmod 0x10000000000000000

/-- An integer cut to an unsigned word of a number of bits. -/
def readWord (bits : Nat) : Reader Nat := do return ((← readInt) % (1 <<< bits : Nat)).toNat

/-- A text, or binary data. -/
def readText : Reader Bytes := do
  let c ← byte
  if c = 0xC0 then return []
  else if 0xA0 ≤ c ∧ c ≤ 0xBF then take (c.toNat - 0xA0)
  else if c = 0xD9 ∨ c = 0xC4 then take (← number 1)
  else if c = 0xDA ∨ c = 0xC5 then take (← number 2)
  else if c = 0xDB ∨ c = 0xC6 then take (← number 4)
  else refuse

/-- What a value with parts is: its head tells the number of parts. -/
inductive Shape where
  | absent
  | array (n : Nat)
  | map (n : Nat)
  deriving DecidableEq, Repr

/-- The head of a value with parts. -/
def readShape : Reader Shape := do
  let c ← byte
  if c = 0xC0 then return .absent
  else if 0x80 ≤ c ∧ c ≤ 0x8F then return .map (c.toNat - 0x80)
  else if 0x90 ≤ c ∧ c ≤ 0x9F then return .array (c.toNat - 0x90)
  else if c = 0xDC then return .array (← number 2)
  else if c = 0xDD then return .array (← number 4)
  else if c = 0xDE then return .map (← number 2)
  else if c = 0xDF then return .map (← number 4)
  else refuse

/-- Passes over the head of a value of any kind and what it holds itself; the result is the number
of values that belong to it. -/
def skipHead : Reader Nat := do
  let c ← byte
  let pass (n : Nat) : Reader Nat := do
    let _ ← take n
    return 0
  if c < 0x80 ∨ 0xE0 ≤ c then return 0
  else if c ≤ 0x8F then return 2 * (c.toNat - 0x80)
  else if c ≤ 0x9F then return c.toNat - 0x90
  else if c ≤ 0xBF then pass (c.toNat - 0xA0)
  else if c = 0xC0 ∨ c = 0xC2 ∨ c = 0xC3 then return 0
  else if c = 0xCC ∨ c = 0xD0 then pass 1
  else if c = 0xCD ∨ c = 0xD1 then pass 2
  else if c = 0xCE ∨ c = 0xD2 ∨ c = 0xCA then pass 4
  else if c = 0xCF ∨ c = 0xD3 ∨ c = 0xCB then pass 8
  else if c = 0xC4 ∨ c = 0xD9 then pass (← number 1)
  else if c = 0xC5 ∨ c = 0xDA then pass (← number 2)
  else if c = 0xC6 ∨ c = 0xDB then pass (← number 4)
  else if c = 0xDC then number 2
  else if c = 0xDD then number 4
  else if c = 0xDE then return 2 * (← number 2)
  else if c = 0xDF then return 2 * (← number 4)
  else if c = 0xD4 then pass 2
  else if c = 0xD5 then pass 3
  else if c = 0xD6 then pass 5
  else if c = 0xD7 then pass 9
  else if c = 0xD8 then pass 17
  else if c = 0xC7 then pass ((← number 1) + 1)
  else if c = 0xC8 then pass ((← number 2) + 1)
  else if c = 0xC9 then pass ((← number 4) + 1)
  else refuse

/-- Passes over a number of values, of which all heads together are at most `fuel`. -/
def skipValues : Nat → Nat → Reader Unit
  | _, 0 => return ()
  | 0, _ + 1 => refuse
  | fuel + 1, n + 1 => do
    let parts ← skipHead
    skipValues fuel (n + parts)

/-- Passes over one value. -/
def skip : Reader Unit := do
  let s ← get
  skipValues s.length 1

end MessagePack

end PatchAudit
