import PatchAudit.Text.Bytes

/-!
# Inflating compressed data

The DEFLATE format inside a ZLIB envelope.  Bits are taken from the low end of each byte.  A code
is a list of groups of symbols, the symbols of the first group having codes of one bit, and so on;
the codes of each length follow on from those of the length before.
-/

namespace PatchAudit

namespace Inflate

/-- Why data cannot be inflated. -/
inductive Fault where
  | badHeader
  | badDictionary
  | badChecksum
  | truncated
  /-- The data contradict the format before this many bytes. -/
  | corrupt (offset : Nat)
  deriving DecidableEq, Repr

/-- The wording of a fault. -/
def Fault.message : Fault → Bytes
  | badHeader => "zlib: invalid header"
  | badDictionary => "zlib: invalid dictionary"
  | badChecksum => "zlib: invalid checksum"
  | truncated => "unexpected EOF"
  | corrupt n => "flate: corrupt input before offset " ++ Bytes.ofNat n

/-- Data that are read bit by bit. -/
structure Source where
  /-- The bytes not yet taken. -/
  rest : Bytes
  /-- The number of bytes taken. -/
  offset : Nat := 0
  /-- The bits taken and not yet used, the next one lowest. -/
  held : Nat := 0
  /-- The number of bits held. -/
  count : Nat := 0

/-- A step that reads from a source. -/
abbrev Reader := StateT Source (Except Fault)

/-- Fails because the data contradict the format here. -/
def failHere {α : Type} : Reader α := do throw (.corrupt (← get).offset)

/-- Takes one byte more into the bits held. -/
def takeByte : Reader Unit := do
  let s ← get
  match s.rest with
  | [] => throw .truncated
  | b :: r =>
    set { rest := r, offset := s.offset + 1, held := s.held + (b.toNat <<< s.count),
          count := s.count + 8 : Source }

/-- Makes sure that `n` bits are held, where at most `fuel` bytes are needed. -/
def ensure : Nat → Nat → Reader Unit
  | 0, _ => pure ()
  | fuel + 1, n => do
    if (← get).count < n then
      takeByte
      ensure fuel n

/-- The next `n` bits as a number, the first one lowest. -/
def bits (n : Nat) : Reader Nat := do
  ensure 3 n
  let s ← get
  set { s with held := s.held >>> n, count := s.count - n }
  return s.held % (1 <<< n)

/-- The next `n` whole bytes, the bits held being dropped. -/
def bytes (n : Nat) : Reader Bytes := do
  let s ← get
  if s.rest.length < n then throw .truncated
  set { rest := s.rest.drop n, offset := s.offset + n : Source }
  return s.rest.take n

/-! ### Codes -/

/-- A code: the symbols with codes of each length, and the number of bits to hold before one is
read. -/
structure Code where
  groups : List (List Nat)
  least : Nat

namespace Code

/-- The symbols whose code has the given length. -/
def group (lengths : List Nat) (n : Nat) : List Nat :=
  (List.range lengths.length).filter fun s => lengths.getD s 0 == n

/-- The code with the given length for each symbol, zero for a symbol without a code.  The lengths
have to use up all codes, unless there is a single code of one bit, or none. -/
def ofLengths? (lengths : List Nat) : Option Code :=
  let longest : Nat := lengths.foldl max 0
  let groups := (List.range longest).map fun n => group lengths (n + 1)
  let used : Nat := groups.foldl (fun acc g => acc * 2 + g.length) 0
  let least := (groups.takeWhile List.isEmpty).length + 1
  if longest = 0 then some ⟨[], 0⟩
  else if used = 1 <<< longest ∨ (used = 1 ∧ longest = 1) then some ⟨groups, least⟩
  else none

/-- Reads a symbol bit by bit: `code` is what has been read, `first` the first code of the group. -/
def symbolFrom : List (List Nat) → Nat → Nat → Reader Nat
  | [], _, _ => failHere
  | g :: gs, code, first => do
    let code := code + (← bits 1)
    if code < first + g.length then return g.getD (code - first) 0
    else symbolFrom gs (code * 2) ((first + g.length) * 2)

/-- Reads a symbol. -/
def symbol (c : Code) : Reader Nat := do
  ensure 2 c.least
  symbolFrom c.groups 0 0

end Code

/-- The code for literals and lengths where a block brings none. -/
def fixedCode : Code :=
  (Code.ofLengths? (List.replicate 144 8 ++ List.replicate 112 9 ++ List.replicate 24 7
    ++ List.replicate 8 8)).getD ⟨[], 0⟩

/-! ### Blocks -/

/-- The smallest length and the number of extra bits for a length symbol. -/
def lengthOf? (v : Nat) : Option (Nat × Nat) :=
  if v < 265 then some (v - 254, 0)
  else if v < 269 then some (v * 2 - 519, 1)
  else if v < 273 then some (v * 4 - 1057, 2)
  else if v < 277 then some (v * 8 - 2149, 3)
  else if v < 281 then some (v * 16 - 4365, 4)
  else if v < 285 then some (v * 32 - 8861, 5)
  else if v < 286 then some (258, 0)
  else none

/-- The distance of a distance symbol, with its extra bits. -/
def distance (d : Nat) : Reader Nat := do
  if d < 4 then return d + 1
  else if d < 30 then
    let n := (d - 2) / 2
    let extra ← bits n
    return (1 <<< (n + 1)) + 1 + ((d % 2) <<< n) + extra
  else failHere

/-- A value of five bits read with its first bit highest. -/
def reversed5 (v : Nat) : Nat :=
  (v % 2) * 16 + (v / 2 % 2) * 8 + (v / 4 % 2) * 4 + (v / 8 % 2) * 2 + v / 16 % 2

/-- Reads a distance symbol, of five bits where a block brings no code. -/
def distanceSymbol : Option Code → Reader Nat
  | none => reversed5 <$> bits 5
  | some c => c.symbol

/-- Appends bytes from a distance back, one by one. -/
def copyBack (distance : Nat) : Nat → Array UInt8 → Array UInt8
  | 0, out => out
  | n + 1, out => copyBack distance n (out.push (out.getD (out.size - distance) 0))

/-- Reads symbols of a block up to its end. -/
def symbols (literals : Code) (distances : Option Code) :
    Nat → Array UInt8 → Reader (Array UInt8)
  | 0, _ => throw .truncated
  | fuel + 1, out => do
    let v ← literals.symbol
    if v < 256 then symbols literals distances fuel (out.push v.toUInt8)
    else if v = 256 then return out
    else
      match lengthOf? v with
      | none => failHere
      | some (least, extra) =>
        let length := least + (← bits extra)
        let d ← distanceSymbol distances
        let back ← distance d
        if min out.size 32768 < back then failHere
        else symbols literals distances fuel (copyBack back length out)

/-- The order in which the lengths of the code for code lengths are given. -/
def lengthOrder : List Nat := [16, 17, 18, 0, 8, 7, 9, 6, 10, 5, 11, 4, 12, 3, 13, 2, 14, 1, 15]

/-- Reads `total` code lengths; `done` holds those read, the last one first. -/
def codeLengths (code : Code) (total : Nat) : Nat → List Nat → Reader (List Nat)
  | 0, done => return done.reverse
  | fuel + 1, done => do
    if total ≤ done.length then return done.reverse
    let v ← code.symbol
    if v < 16 then codeLengths code total fuel (v :: done)
    else
      if v = 16 ∧ done.isEmpty then failHere
      let (least, extra, value) :=
        if v = 16 then (3, 2, done.headD 0) else if v = 17 then (3, 3, 0) else (11, 7, 0)
      let times := least + (← bits extra)
      if total < done.length + times then failHere
      codeLengths code total fuel (List.replicate times value ++ done)

/-- Reads the lengths of the code for code lengths. -/
def orderedLengths : List Nat → Reader (List (Nat × Nat))
  | [] => return []
  | place :: places => do
    let n ← bits 3
    return (place, n) :: (← orderedLengths places)

/-- Reads the two codes at the head of a block. -/
def blockCodes : Reader (Code × Code) := do
  let head ← do
    ensure 3 14
    pure (← get).held
  if 286 < head % 32 + 257 ∨ 30 < head / 32 % 32 + 1 then failHere
  let literalCount := (← bits 5) + 257
  let distanceCount := (← bits 5) + 1
  let orderCount := (← bits 4) + 4
  let given ← orderedLengths (lengthOrder.take orderCount)
  let lengths := (List.range 19).map fun s => (given.lookup s).getD 0
  match Code.ofLengths? lengths with
  | none => failHere
  | some code =>
    let total := literalCount + distanceCount
    let all ← codeLengths code total total []
    match Code.ofLengths? (all.take literalCount), Code.ofLengths? (all.drop literalCount) with
    | some literals, some distances =>
      return ({ literals with least := max literals.least (all.getD 256 0) }, distances)
    | _, _ => failHere

/-- Reads a block that is not compressed. -/
def storedBlock (out : Array UInt8) : Reader (Array UInt8) := do
  let head ← bytes 4
  let word (i : Nat) : Nat := (head.getD i 0).toNat + 256 * (head.getD (i + 1) 0).toNat
  if word 0 + word 2 ≠ 65535 then failHere
  let data ← bytes (word 0)
  return data.foldl Array.push out

/-- Reads blocks up to the one marked as the last. -/
def blocks : Nat → Array UInt8 → Reader (Array UInt8)
  | 0, _ => throw .truncated
  | fuel + 1, out => do
    let head ← bits 3
    let size := (← get).rest.length
    let out ←
      if head / 2 = 0 then storedBlock out
      else if head / 2 = 1 then symbols fixedCode none (8 * size + 16) out
      else if head / 2 = 2 then do
        let (literals, distances) ← blockCodes
        symbols literals (some distances) (8 * size + 16) out
      else failHere
    if head % 2 = 1 then return out else blocks fuel out

/-! ### The envelope -/

/-- The Adler-32 checksum of data. -/
def adler32 (data : List UInt8) : Nat :=
  let (a, b) := data.foldl (fun (a, b) x =>
    let a := (a + x.toNat) % 65521
    (a, (b + a) % 65521)) (1, 0)
  b * 65536 + a

/-- Inflates data in their envelope; what follows the checksum is ignored. -/
def decode (data : Bytes) : Except Fault Bytes := do
  match data with
  | a :: b :: body =>
    if a.toNat % 16 ≠ 8 ∨ 7 < a.toNat / 16 ∨ (a.toNat * 256 + b.toNat) % 31 ≠ 0 then
      throw .badHeader
    let body ←
      if b.toNat / 32 % 2 = 1 then
        if body.length < 4 then throw .truncated
        else if Bytes.bigEndianValue (body.take 4) ≠ 1 then throw .badDictionary
        else pure (body.drop 4)
      else pure body
    let (out, after) ← (blocks (8 * body.length + 1) #[]).run { rest := body }
    let out := out.toList
    if after.rest.length < 4 then throw .truncated
    if Bytes.bigEndianValue (after.rest.take 4) ≠ adler32 out then throw .badChecksum
    return out
  | _ => throw .truncated

end Inflate

end PatchAudit
