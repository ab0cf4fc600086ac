import PatchAudit.Diff.FileName
import PatchAudit.Codec.Base85
import PatchAudit.Codec.Inflate
import PatchAudit.Text.Numeral

/-!
# Reading a diff line by line

A cursor holds the lines that are left, with their line ends, and the number of the first of them.
It also fixes what can go wrong in a diff, and at which line.
-/

namespace PatchAudit

namespace Diff

/-- A place in a diff. -/
structure Cursor where
  /-- The number of the current line; one past the last line at the end. -/
  number : Nat
  /-- The lines from the current one on. -/
  rest : List Bytes
  deriving DecidableEq, Repr

namespace Cursor

/-- The start of a text. -/
def ofText (text : Bytes) : Cursor := ⟨1, text.terminatedLines⟩

/-- The line a number of places ahead, empty past the end. -/
def line (c : Cursor) (ahead : Nat) : Bytes := c.rest.getD ahead []

/-- The place after the current line. -/
def next (c : Cursor) : Cursor :=
  match c.rest with
  | [] => c
  | _ :: r => ⟨c.number + 1, r⟩

/-- Whether no line is left. -/
def atEnd (c : Cursor) : Bool := c.rest.isEmpty

end Cursor

/-- One side of a change: where it starts and how many lines it has. -/
structure LineRange where
  start : Int
  count : Int
  deriving DecidableEq, Repr

/-- The first line of a fragment. -/
structure FragmentHeader where
  old : LineRange
  new : LineRange
  comment : Bytes
  deriving DecidableEq, Repr

/-- The header written out, with both counts. -/
def FragmentHeader.render (h : FragmentHeader) : Bytes :=
  let side (r : LineRange) : Bytes := Bytes.ofInt r.start ++ "," ++ Bytes.ofInt r.count
  let tail : Bytes := if h.comment.isEmpty then [] else 0x20 :: h.comment
  "@@ -" ++ side h.old ++ " +" ++ side h.new ++ " @@" ++ tail

/-- What is wrong with one side of a fragment header. -/
inductive RangeFault where
  | badStart (text : Bytes) (why : NumeralFault)
  | badCount (text : Bytes) (why : NumeralFault)
  deriving DecidableEq, Repr

/-- The wording of a range's fault. -/
def RangeFault.message : RangeFault → Bytes
  | badStart text why => "bad start of range: " ++ text ++ ": " ++ why.message
  | badCount text why => "bad end of range: " ++ text ++ ": " ++ why.message

/-- What is wrong with the header of a file. -/
inductive HeaderFault where
  | name (why : NameFault)
  | missingSeparator
  | nameAlreadySet (name : Bytes)
  | inconsistent (side : Bytes)
  | nameOnMissingSide
  | badMode (why : NumeralFault)
  | badScore (why : NumeralFault)
  | missingDots
  | noFileName
  deriving DecidableEq, Repr

/-- The wording of a header's fault. -/
def HeaderFault.message : HeaderFault → Bytes
  | name why => why.message
  | missingSeparator => "missing separator"
  | nameAlreadySet n => "expected " ++ Path.nowhere ++ ", but filename is set to " ++ n
  | inconsistent side => "inconsistent " ++ side ++ " filename"
  | nameOnMissingSide => "expected " ++ Path.nowhere
  | badMode why => "invalid mode line: " ++ why.message
  | badScore why => "invalid score line: " ++ why.message
  | missingDots => "invalid index line: missing \"..\""
  | noFileName => "missing filename information"

/-- What is wrong with binary data. -/
inductive BinaryFault where
  | badSize (why : NumeralFault)
  | corruptLine
  | badLength
  | badCount
  | badDigit (why : Base85.Fault)
  | truncated
  | notInflated (why : Inflate.Fault)
  | wrongSize (expected : Int) (actual : Nat)
  deriving DecidableEq, Repr

/-- A byte in hexadecimal, in capitals and without a leading zero. -/
def shortHex (b : UInt8) : Bytes :=
  let upper (n : Nat) : UInt8 := (if n < 10 then 48 + n else 55 + n).toUInt8
  if b < 16 then [upper b.toNat] else [upper (b.toNat / 16), upper (b.toNat % 16)]

/-- The wording of a binary fault. -/
def BinaryFault.message : BinaryFault → Bytes
  | badSize why => "invalid size: " ++ why.message
  | corruptLine => "corrupt data line"
  | badLength => "invalid length byte"
  | badCount => "incorrect byte count"
  | badDigit why =>
    "invalid base85 byte at index " ++ Bytes.ofNat why.index ++ ": 0x" ++ shortHex why.byte
  | truncated => "unexpected EOF"
  | notInflated why => why.message
  | wrongSize expected actual =>
    Bytes.ofInt expected ++ " byte fragment inflated to " ++ Bytes.ofNat actual

/-- What is wrong with a diff. -/
inductive Fault where
  | strayFragment (header : FragmentHeader)
  | header (why : HeaderFault)
  | plainHeader (why : NameFault)
  | badFragmentHeader
  | badRange (why : RangeFault)
  | newFileHasOldLines
  | deletedFileHasNewLines
  | noContent
  | badOperation (byte : UInt8)
  | miscount (old new : Int)
  | noChanges
  | noBinaryData
  | binary (why : BinaryFault)
  deriving DecidableEq, Repr

/-- The wording of a fault. -/
def Fault.message : Fault → Bytes
  | strayFragment h => "patch fragment without file header: " ++ h.render
  | header why => "git file header: " ++ why.message
  | plainHeader why => "file header: " ++ why.message
  | badFragmentHeader => "invalid fragment header"
  | badRange why => "invalid fragment header: " ++ why.message
  | newFileHasOldLines => "new file depends on old contents"
  | deletedFileHasNewLines => "deleted file still has contents"
  | noContent => "no content following fragment header"
  | badOperation b => "invalid line operation: " ++ Quoted.encodeChar (Char.ofNat b.toNat)
  | miscount old new =>
    "fragment header miscounts lines: " ++ Bytes.ofSigned old ++ " old, " ++ Bytes.ofSigned new
      ++ " new"
  | noChanges => "fragment contains no changes"
  | noBinaryData => "missing data for binary patch"
  | binary why => "binary patch: " ++ why.message

/-- A fault and the line that it is reported at. -/
structure Error where
  line : Int
  fault : Fault
  deriving DecidableEq, Repr

/-- The wording of an error. -/
def Error.message (e : Error) : Bytes :=
  "parsing diff: gitdiff: line " ++ Bytes.ofInt e.line ++ ": " ++ e.fault.message

/-- Fails at a distance from the current line. -/
def Cursor.fail {α : Type} (c : Cursor) (delta : Int) (fault : Fault) : Except Error α :=
  .error ⟨c.number + delta, fault⟩

end Diff

end PatchAudit
