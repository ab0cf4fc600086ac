import PatchAudit.Text.CellWidth

/-!
# Control sequences

A terminal is told about colours, links and the like by sequences of bytes inside a text, which take
no cells.  A sequence is begun by an escape byte, or by one of a few bytes that are no characters.
There are codes, which end in a letter, and quoted texts, which end in a bell or a terminator.
-/

namespace PatchAudit

namespace ControlSequence

/-- The byte that begins a sequence. -/
def escapeByte : UInt8 := 0x1B

/-- The byte that ends a quoted text. -/
def endByte : UInt8 := 0x9C

/-- Whether a byte breaks a sequence off. -/
def isAbort (b : UInt8) : Bool := b == 0x18 || b == 0x1A

/-- Whether a byte lies in a range. -/
def within (low high b : UInt8) : Bool := low ≤ b && b ≤ high

/-- Whether a byte is shown as it is. -/
def isShown (b : UInt8) : Bool := within 0x20 0x7E b

/-! ### Cells

The cells of a text are counted while its sequences are passed over byte by byte. -/

/-- Where a text stands between two bytes. -/
inductive Place where
  | text
  | escape
  | escapeMiddle
  | codeStart
  | codeNumbers
  | codeMiddle
  | deviceStart
  | deviceNumbers
  | deviceMiddle
  | deviceText
  | command
  | message
  deriving DecidableEq, Repr

namespace Place

/-- Where a byte leads from anywhere. -/
def fromAnywhere (b : UInt8) : Place :=
  if b = escapeByte then .escape
  else if b = 0x90 then .deviceStart
  else if b = 0x9B then .codeStart
  else if b = 0x9D then .command
  else if b = 0x98 ∨ b = 0x9E ∨ b = 0x9F then .message
  else .text

/-- Where a byte leads inside a text that is quoted. -/
def insideQuote (here : Place) (b : UInt8) : Place :=
  if b = escapeByte then .escape else if b = endByte || isAbort b then .text else here

/-- Where a byte leads inside a sequence: most control bytes are passed over, and the other bytes of
ASCII lead on by their range. -/
def insideSequence (here middle numbers final : Place) (b : UInt8) : Place :=
  if 0x80 ≤ b || b == escapeByte || isAbort b then fromAnywhere b
  else if b < 0x20 || b == 0x7F then here
  else if b ≤ 0x2F then middle
  else if b ≤ 0x3F then numbers
  else final

/-- Where a byte leads. -/
def next : Place → UInt8 → Place
  | text, b => fromAnywhere b
  | escape, b =>
    if b = 0x5B then codeStart
    else if b = 0x50 then deviceStart
    else if b = 0x5D then command
    else if b = 0x58 ∨ b = 0x5E ∨ b = 0x5F then message
    else insideSequence escape escapeMiddle text text b
  | escapeMiddle, b => insideSequence escapeMiddle escapeMiddle text text b
  | codeStart, b => insideSequence codeStart codeMiddle codeNumbers text b
  | codeNumbers, b => insideSequence codeNumbers codeMiddle codeNumbers text b
  | codeMiddle, b => insideSequence codeMiddle codeMiddle text text b
  | deviceStart, b =>
    if within 0x08 0x0D b || b == escapeByte then deviceText
    else insideSequence deviceStart deviceMiddle deviceNumbers deviceText b
  | deviceNumbers, b => insideSequence deviceNumbers deviceMiddle deviceNumbers deviceText b
  | deviceMiddle, b => insideSequence deviceMiddle deviceMiddle deviceText deviceText b
  | deviceText, b => insideQuote deviceText b
  | command, b => if b = 0x07 then text else insideQuote command b
  | message, b =>
    if 0x80 ≤ b ∧ b ≠ endByte then fromAnywhere b else insideQuote message b

/-- Whether characters outside ASCII belong to the sequence. -/
def isQuoting (here : Place) : Bool := here == deviceText || here == command

end Place

/-- Whether a piece is read as a character outside ASCII: it is one, or a byte that could begin
one. -/
def beginsCluster (p : Piece) : Bool := p.bytes.head?.any (within 0xC2 0xF4)

/-- The cells of pieces, of which a number are passed over. -/
def cellsFrom : Nat → Place → List Piece → Nat
  | _, _, [] => 0
  | n + 1, here, _ :: rest => cellsFrom n here rest
  | 0, here, p :: rest =>
    if beginsCluster p && !here.isQuoting then
      Cluster.cells p rest + cellsFrom (Cluster.length p rest) .text rest
    else
      let shown := here == .text && p.bytes.all isShown
      (if shown then 1 else 0) + cellsFrom 0 (p.bytes.foldl Place.next here) rest

/-! ### Glyphs

To break a text into lines, its sequences are read whole. -/

/-- A number of a code; none if it is left out. -/
structure Parameter where
  value : Option Nat
  /-- Whether a colon follows, which makes one of this number and the next. -/
  joined : Bool
  deriving DecidableEq, Repr

/-- The numbers of a code, the first of which has been read up to here. -/
def parametersFrom : Option Nat → Bytes → List Parameter
  | v, [] => [⟨v, false⟩]
  | v, b :: r =>
    if b = 0x3B then ⟨v, false⟩ :: parametersFrom none r
    else if b = 0x3A then ⟨v, true⟩ :: parametersFrom none r
    else parametersFrom (some (v.getD 0 * 10 + (b.toNat - 0x30))) r

/-- The numbers of a code. -/
def parameters (s : Bytes) : List Parameter := if s.isEmpty then [] else parametersFrom none s

/-- A link that the text after it belongs to. -/
structure Link where
  traits : Bytes := []
  url : Bytes := []
  deriving DecidableEq, Repr

namespace Link

/-- Whether the text after it belongs to no link. -/
def isEmpty (l : Link) : Bool := l.traits.isEmpty && l.url.isEmpty

/-- The sequence that begins a link; that of an empty one ends a link. -/
def sequence (l : Link) : Bytes := "\x1b]8;" ++ l.traits ++ ";" ++ l.url ++ "\x07"

end Link

/-- What a sequence tells about the text after it. -/
inductive Effect where
  | nothing
  | style (ps : List Parameter)
  | link (l : Link)
  deriving DecidableEq, Repr

/-- A part of a text that is not divided: a cluster, a control character or a sequence. -/
structure Glyph where
  bytes : Bytes
  cells : Nat := 0
  effect : Effect := .nothing
  deriving DecidableEq, Repr

/-- What a quoted command tells: a link if it is number eight and has two more parts. -/
def commandEffect (data : Bytes) : Effect :=
  match data.splitOn 0x3B with
  | [number, traits, url] =>
    let digits := number.takeWhile Bytes.isDigit
    if digits.foldl (fun n b => n * 10 + (b.toNat - 0x30)) 0 = 8 then .link ⟨traits, url⟩ else .nothing
  | _ => .nothing

/-- How far a code has been read. -/
inductive Stage where
  | start
  | numbers
  | middle
  deriving DecidableEq, Repr

/-- A sequence that is not finished, with its bytes so far. -/
inductive Begun where
  | nothing
  | escape (seen : Bytes)
  /-- A code, whether it is for a device, and its numbers; `plain` is unset by other bytes. -/
  | code (seen : Bytes) (device : Bool) (stage : Stage) (numbers : Bytes) (plain : Bool)
  /-- A quoted text, the part of it that is data, and whether it is a command. -/
  | quote (seen data : Bytes) (isCommand : Bool)
  /-- A quoted text after an escape byte that may end it. -/
  | closing (seen data : Bytes) (isCommand : Bool)
  deriving DecidableEq, Repr

namespace Begun

/-- The bytes of a sequence that is given up, or cut off by the end of the text. -/
def glyphs : Begun → List Glyph
  | nothing => []
  | escape seen => [{ bytes := seen }]
  | code seen _ _ _ _ => [{ bytes := seen }]
  | quote seen _ _ => [{ bytes := seen }]
  | closing seen _ _ => [{ bytes := seen }, { bytes := [escapeByte] }]

/-- A quoted text that is finished. -/
def finished (bytes data : Bytes) (isCommand : Bool) : Glyph :=
  { bytes := bytes, effect := if isCommand then commandEffect data else .nothing }

/-- Takes in a byte outside of any sequence. -/
def start (b : UInt8) : List Glyph × Begun :=
  if b = escapeByte then ([], escape [b])
  else if b = 0x9B ∨ b = 0x90 then ([], code [b] (b == 0x90) .start [] true)
  else if b = 0x9D then ([], quote [b] [] true)
  else if b = 0x98 ∨ b = 0x9E ∨ b = 0x9F then ([], quote [b] [] false)
  else ([{ bytes := [b], cells := if isShown b then 1 else 0 }], nothing)

/-- Takes in a byte after an escape byte. -/
def afterEscape (seen : Bytes) (b : UInt8) : List Glyph × Begun :=
  if b = 0x5B ∨ b = 0x50 then ([], code (seen ++ [b]) (b == 0x50) .start [] true)
  else if b = 0x5D then ([], quote (seen ++ [b]) [] true)
  else if b = 0x58 ∨ b = 0x5E ∨ b = 0x5F then ([], quote (seen ++ [b]) [] false)
  else if within 0x20 0x2F b then ([], escape (seen ++ [b]))
  else if within 0x30 0x7E b then ([{ bytes := seen ++ [b] }], nothing)
  else
    let (more, s) := start b
    ({ bytes := seen } :: more, s)

/-- Takes in a byte of a code. -/
def insideCode (seen : Bytes) (device : Bool) (stage : Stage) (numbers : Bytes) (plain : Bool)
    (b : UInt8) : List Glyph × Begun :=
  let read := seen ++ [b]
  if stage = .start ∧ within 0x3C 0x3F b then ([], code read device .start numbers false)
  else if stage ≠ .middle ∧ within 0x30 0x3B b then
    ([], code read device .numbers (numbers ++ [b]) plain)
  else if within 0x20 0x2F b then ([], code read device .middle numbers false)
  else if within 0x40 0x7E b then
    if device then ([], quote read [] false)
    else
      let isStyle := plain && b == 0x6D
      ([{ bytes := read, effect := if isStyle then .style (parameters numbers) else .nothing }],
        nothing)
  else
    let (more, s) := start b
    ({ bytes := seen } :: more, s)

/-- Takes in a byte of a quoted text. -/
def insideQuote (seen data : Bytes) (isCommand : Bool) (b : UInt8) : List Glyph × Begun :=
  if b = endByte ∨ (b = 0x07 ∧ isCommand) then
    ([finished (seen ++ [b]) data isCommand], nothing)
  else if isAbort b then ([finished seen data isCommand, { bytes := [b] }], nothing)
  else if b = escapeByte then ([], closing seen data isCommand)
  else ([], quote (seen ++ [b]) (data ++ [b]) isCommand)

/-- Takes in a byte. -/
def feed : Begun → UInt8 → List Glyph × Begun
  | nothing, b => start b
  | escape seen, b => afterEscape seen b
  | code seen device stage numbers plain, b => insideCode seen device stage numbers plain b
  | quote seen data isCommand, b => insideQuote seen data isCommand b
  | closing seen data isCommand, b =>
    if b = 0x5C then ([finished (seen ++ [escapeByte, b]) data isCommand], nothing)
    else
      let (more, s) := afterEscape [escapeByte] b
      ({ bytes := seen } :: more, s)

/-- Takes in bytes. -/
def feedAll (s : Begun) : Bytes → List Glyph × Begun
  | [] => ([], s)
  | b :: r =>
    let (first, s) := s.feed b
    let (more, s) := feedAll s r
    (first ++ more, s)

/-- Whether a quoted text is being read. -/
def isQuoting : Begun → Bool
  | quote _ _ _ => true
  | _ => false

end Begun

/-- The glyphs of pieces, of which a number belong to the cluster before them. -/
def glyphsFrom : Nat → Begun → List Piece → List Glyph
  | _, s, [] => s.glyphs
  | n + 1, s, _ :: rest => glyphsFrom n s rest
  | 0, s, p :: rest =>
    if p.bytes.head?.any (0xC0 ≤ ·) && !s.isQuoting then
      let n := Cluster.length p rest
      let bytes := p.bytes ++ (rest.take n).flatMap Piece.bytes
      s.glyphs ++ { bytes := bytes, cells := Cluster.cells p rest } :: glyphsFrom n .nothing rest
    else
      let (found, s) := s.feedAll p.bytes
      found ++ glyphsFrom 0 s rest

/-- The glyphs of a text. -/
def glyphs (s : Bytes) : List Glyph := glyphsFrom 0 .nothing (Bytes.pieces s)

end ControlSequence

namespace Bytes

/-- The cells of a line. -/
def cells (s : Bytes) : Nat := ControlSequence.cellsFrom 0 .text (pieces s)

/-- The cells of the widest of some lines. -/
def widest (lines : List Bytes) : Nat := (lines.map cells).foldl max 0

end Bytes

end PatchAudit
