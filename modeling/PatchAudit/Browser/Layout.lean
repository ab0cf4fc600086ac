import PatchAudit.Browser.TextStyle

/-!
# Boxes of text

A screen is put together from boxes.  A box breaks its text into lines that fit its width, fills
them up to a rectangle and may draw a border around it.  A box is never lower than its text: a
height fills up, but cuts nothing off.
-/

namespace PatchAudit

/-! ### Breaking lines -/

/-- The state of breaking a text into lines: the lines that are finished, the last one first, the
line in progress with its cells, and the word and the blanks that wait behind it.  The style and the
link of the text that was read last are kept, and those of the line in progress. -/
structure Wrap where
  done : List Bytes := []
  line : Bytes := []
  cells : Nat := 0
  word : Bytes := []
  wordCells : Nat := 0
  blanks : Nat := 0
  style : TextStyle := {}
  link : ControlSequence.Link := {}
  lineStyle : TextStyle := {}
  lineLink : ControlSequence.Link := {}
  deriving DecidableEq, Repr

namespace Wrap

/-- Puts the waiting blanks on the line. -/
def flushBlanks (w : Wrap) : Wrap :=
  { w with
    line := w.line ++ Bytes.fill w.blanks 0x20
    cells := w.cells + w.blanks
    blanks := 0 }

/-- Puts the waiting word on the line, after the waiting blanks. -/
def flushWord (w : Wrap) : Wrap :=
  if w.word.isEmpty then w
  else
    let w := w.flushBlanks
    { w with
      line := w.line ++ w.word
      cells := w.cells + w.wordCells
      word := []
      wordCells := 0
      lineStyle := w.style
      lineLink := w.link }

/-- The sequence that takes the style of the line back, if it has one. -/
def styleEnd (w : Wrap) : Bytes := if w.lineStyle = {} then [] else TextStyle.resetSequence

/-- The sequence that ends the link of the line, if it has one. -/
def linkEnd (w : Wrap) : Bytes := if w.lineLink.isEmpty then [] else ControlSequence.Link.sequence {}

/-- Finishes the line.  Waiting blanks are dropped, a waiting word goes to the next line, and so do
the style and the link. -/
def breakLine (w : Wrap) : Wrap :=
  let link := if w.lineLink.isEmpty then [] else w.lineLink.sequence
  let style := if w.lineStyle = {} then [] else w.lineStyle.sequence
  { w with
    done := (w.line ++ w.styleEnd ++ w.linkEnd) :: w.done
    line := link ++ style
    cells := 0
    blanks := 0 }

/-- Puts what waits on the line where the text itself ends it; blanks after the last word stay if
they fit. -/
def settle (limit : Nat) (w : Wrap) : Wrap :=
  let w :=
    if w.wordCells = 0 then
      if limit < w.cells + w.blanks then { w with blanks := 0 } else w.flushBlanks
    else w
  w.flushWord

/-- Adds a character to the waiting word, and begins a new line if the word no longer fits. -/
def extend (limit : Nat) (w : Wrap) (bytes : Bytes) (cells : Nat) : Wrap :=
  let w := if limit < w.wordCells + cells then w.flushWord else w
  let w := { w with word := w.word ++ bytes, wordCells := w.wordCells + cells }
  if limit < w.cells + w.wordCells + w.blanks then w.breakLine else w

/-- Takes in a hyphen, after which a line may be broken. -/
def hyphen (limit : Nat) (w : Wrap) : Wrap :=
  let w := w.flushBlanks
  if w.cells + w.wordCells + 1 ≤ limit then
    let w := w.flushWord
    { w with line := w.line ++ [0x2D], cells := w.cells + 1 }
  else w.extend limit [0x2D] 1

/-- Takes in what a sequence tells about the text after it. -/
def heed (w : Wrap) : ControlSequence.Effect → Wrap
  | .nothing => w
  | .style ps => { w with style := w.style.applyAll ps }
  | .link l => { w with link := l }

/-- Takes in one glyph of the text. -/
def step (limit : Nat) (w : Wrap) (g : ControlSequence.Glyph) : Wrap :=
  if g.bytes = [0x0A] then (w.settle limit).breakLine
  else if g.cells = 0 then
    let w := w.heed g.effect
    { w with word := w.word ++ g.bytes }
  else if g.bytes = [0x20] ∧ !w.style.showsBlanks then
    let w := w.flushWord
    { w with blanks := w.blanks + 1 }
  else if g.bytes = [0x2D] then w.hyphen limit
  else w.extend limit g.bytes g.cells

/-- The lines of a text, of at most `limit` cells each unless a single character is wider. -/
def lines (limit : Nat) (s : Bytes) : List Bytes :=
  let w := ((ControlSequence.glyphs s).foldl (step limit) {}).settle limit
  ((w.line ++ w.linkEnd ++ w.styleEnd) :: w.done).reverse

end Wrap

/-! ### Boxes -/

/-- How a text is set.  A width or height that is not positive is not set. -/
structure Box where
  width : Int := 0
  height : Int := 0
  /-- Whether lines are filled up on the left. -/
  alignRight : Bool := false
  /-- Blanks on both sides of each line. -/
  sidePadding : Nat := 0
  /-- Empty lines below the text. -/
  bottomPadding : Nat := 0
  bordered : Bool := false
  deriving DecidableEq, Repr

namespace Box

/-- A text with each tab written as four blanks. -/
def expandTabs (s : Bytes) : Bytes := s.flatMap fun b => if b = 0x09 then Bytes.fill 4 0x20 else [b]

/-- The lines of a text, broken to fit into a box. -/
def brokenLines (b : Box) (s : Bytes) : List Bytes :=
  let s := Bytes.plainEnds (expandTabs s)
  let limit := (b.width - 2 * b.sidePadding).toNat
  let wrapped := if 0 < b.width ∧ 0 < limit then Wrap.lines limit s else [s]
  -- a sequence may hold line ends of its own
  wrapped.flatMap (·.splitOn 0x0A)

/-- A line filled up to a number of cells. -/
def fillLine (b : Box) (width : Nat) (line : Bytes) : Bytes :=
  let gap := Bytes.fill (width - line.cells) 0x20
  if b.alignRight then gap ++ line else line ++ gap

/-- The lines inside the border. -/
def innerLines (b : Box) (s : Bytes) : List Bytes :=
  let side := Bytes.fill b.sidePadding 0x20
  let padded := (b.brokenLines s).map (fun l => side ++ l ++ side)
    ++ List.replicate b.bottomPadding []
  let full := padded ++ List.replicate (b.height.toNat - padded.length) []
  if full.length ≤ 1 ∧ b.width ≤ 0 then full
  else full.map (b.fillLine (max (Bytes.widest full) b.width.toNat))

/-- A character a number of times. -/
def rule (n : Nat) (c : Char) : Bytes := Bytes.ofChars (List.replicate n c)

/-- Lines with a border around them. -/
def border (lines : List Bytes) : List Bytes :=
  let width := Bytes.widest lines
  [Bytes.ofString "╭" ++ rule width '─' ++ "╮"]
    ++ lines.map (fun l => Bytes.ofString "│" ++ l ++ "│")
    ++ [Bytes.ofString "╰" ++ rule width '─' ++ "╯"]

/-- The lines of a box with a text in it. -/
def lines (b : Box) (s : Bytes) : List Bytes :=
  if b.bordered then border (b.innerLines s) else b.innerLines s

/-- A box with a text in it, as a text. -/
def render (b : Box) (s : Bytes) : Bytes := Bytes.join "\n" (b.lines s)

end Box

/-! ### Boxes together -/

namespace Layout

/-- A block filled up to a rectangle of the given height, or of its own if that is greater. -/
def level (height : Nat) (block : List Bytes) : List Bytes :=
  let width := Bytes.widest block
  (block ++ List.replicate (height - block.length) []).map fun l =>
    l ++ Bytes.fill (width - Bytes.cells l) 0x20

/-- Blocks side by side, their first lines level. -/
def beside (blocks : List (List Bytes)) : List Bytes :=
  let height := (blocks.map List.length).foldl max 0
  (blocks.map (level height)).foldr (List.zipWith (· ++ ·)) (List.replicate height [])

/-- Blocks one below the other, all lines filled up to the widest one. -/
def above (blocks : List (List Bytes)) : List Bytes :=
  let lines := blocks.flatten
  let width := Bytes.widest lines
  lines.map fun l => l ++ Bytes.fill (width - l.cells) 0x20

end Layout

end PatchAudit
