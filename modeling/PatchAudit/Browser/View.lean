import PatchAudit.Browser.Basic

/-!
# The screen of the browser

The list of the patches stands on the left, the selected patch on the right, and a status line
below.  The help takes the whole screen.
-/

namespace PatchAudit

namespace Browser

/-- The box of a heading: an empty line stands below it. -/
def headingBox : Box := { bottomPadding := 1 }

/-- A box with a border, for a part of the screen. -/
def panel (width height : Int) : Box :=
  { width := width, height := height, sidePadding := 1, bordered := true }

/-! ### The list of patches -/

/-- The width of the list: enough for the longest name, but no more than a third of the screen
unless that is too little. -/
def listWidth (b : Browser) : Int :=
  let longest := (b.reports.map fun r => r.name.charCount).foldl max 20
  max (min ((longest : Int) + 8) (b.width.tdiv 3)) 20

/-- The lines that the window has for the text of a panel, beside its border and the status. -/
def panelHeight (b : Browser) : Int := b.height - 4

/-- The entry of a patch in a list of a given width. -/
def listEntry (width : Int) (r : FileReport) : Bytes :=
  let room := width - 10
  let name := Bytes.padRight room.toNat (Bytes.truncateLeft room r.name)
  let mark : Bytes := if r.isValid then "✓ " else "✗ "
  let count : Bytes := if r.isValid then [] else Bytes.ofNat r.issues.length
  ({ width := width - 4 } : Box).render (mark ++ name ++ " " ++ count)

/-- The text of the list of patches. -/
def listText (b : Browser) : Bytes := Bytes.join "\n" (b.reports.map (listEntry b.listWidth))

/-- The panel of the list of patches. -/
def listPanel (b : Browser) : Box := panel b.listWidth b.panelHeight

/-! ### The selected patch -/

/-- The width of the panel for the selected patch. -/
def patchWidth (b : Browser) : Int := b.width - b.listWidth - 1

/-- The issues of the patch as a whole, each on a line of its own. -/
def fileIssues (r : FileReport) : List Bytes :=
  (r.issuesAt 0).map fun i => ({} : Box).render ("✗ " ++ i.message) ++ "\n"

/-- What stands above the lines of the selected patch. -/
def patchHead (r : FileReport) : Bytes := headingBox.render r.name ++ "\n" ++ (fileIssues r).flatten

/-- The lines of the selected patch that have a place on the screen, at least one. -/
def visible (b : Browser) (room : Int) : List ShownLine :=
  (b.lines.drop b.offset).take (max room 1).toNat

/-- The lines of the selected patch that are shown below its heading and its issues. -/
def shownLines (b : Browser) (r : FileReport) : List ShownLine :=
  b.visible (b.panelHeight - (2 + (fileIssues r).length))

/-- The text of the panel for the selected patch. -/
def patchText (b : Browser) : Bytes :=
  match b.current? with
  | none => "No patches"
  | some r =>
    match b.loadError with
    | some why => patchHead r ++ ({} : Box).render ("cannot show patch: " ++ why)
    | none =>
      patchHead r ++ Bytes.join "\n" ((b.shownLines r).map fun l => l.render (b.patchWidth - 4))

/-- The panel of the selected patch. -/
def patchPanel (b : Browser) : Box := panel b.patchWidth b.panelHeight

/-! ### The status line and the help -/

/-- What the status says. -/
def statusText (b : Browser) : Bytes :=
  let place : Bytes :=
    if b.lines.isEmpty then []
    else "  Line " ++ Bytes.ofNat (b.offset + 1) ++ "/" ++ Bytes.ofNat b.lines.length
  let (left, right) := match b.summary with
    | none => (([] : Bytes), Bytes.ofString "? help ")
    | some s =>
      (Bytes.ofString " Patch " ++ Bytes.ofNat (b.index + 1) ++ "/" ++ Bytes.ofNat s.totalCount
        ++ place, s.resultLine ++ "  ? help ")
  let gap := (b.width - 2 - Bytes.cells left - Bytes.cells right).toNat
  left ++ Bytes.fill gap 0x20 ++ right

/-- The box of the status. -/
def statusBox (b : Browser) : Box := { width := b.width, sidePadding := 1 }

/-- One line of the help. -/
def helpLine (a : Action) : Bytes :=
  "  " ++ ({ width := 12 } : Box).render a.keyLabel ++ "  " ++ a.title ++ "\n"

/-- The help. -/
def helpText : Bytes :=
  headingBox.render "patchlint — Keyboard Shortcuts" ++ "\n\n"
    ++ Action.all.flatMap helpLine ++ "\n" ++ "Press ? to close help"

/-! ### The screen -/

/-- The blocks above the status: the list, a blank and the selected patch. -/
def panels (b : Browser) : List (List Bytes) :=
  [b.listPanel.lines b.listText, [" "], b.patchPanel.lines b.patchText]

/-- The lines of the screen without the help. -/
def screenLines (b : Browser) : List Bytes :=
  Layout.above [Layout.beside b.panels, b.statusBox.lines b.statusText]

/-- What is on the screen. -/
def view (b : Browser) : Bytes :=
  if b.width = 0 ∨ b.height = 0 then "Loading..."
  else if b.help then helpText
  else Bytes.join "\n" b.screenLines

end Browser

end PatchAudit
