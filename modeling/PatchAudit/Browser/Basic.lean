import PatchAudit.Browser.ShownLine

/-!
# The browser

Shows the patches of a run one at a time.  Keys select a patch and scroll in it, and a patch is
loaded when it is selected.
-/

namespace PatchAudit

/-- What a key does. -/
inductive Action where
  | up
  | down
  | pageUp
  | pageDown
  | nextPatch
  | previousPatch
  | nextIssue
  | previousIssue
  | nextHunk
  | previousHunk
  | help
  | quit
  deriving DecidableEq, Repr

namespace Action

/-- All actions, in the order in which the help lists them. -/
def all : List Action :=
  [up, down, pageUp, pageDown, nextPatch, previousPatch, nextIssue, previousIssue, nextHunk,
   previousHunk, help, quit]

/-- The names of the keys of an action. -/
def keys : Action → List Bytes
  | up => ["up", "k"]
  | down => ["down", "j"]
  | pageUp => ["pgup", "ctrl+u"]
  | pageDown => ["pgdown", "ctrl+d"]
  | nextPatch => ["n", "tab"]
  | previousPatch => ["N", "shift+tab"]
  | nextIssue => ["]"]
  | previousIssue => ["["]
  | nextHunk => ["\x7d"]
  | previousHunk => ["\x7b"]
  | help => ["?"]
  | quit => ["q", "ctrl+c"]

/-- How the help names the keys of an action. -/
def keyLabel : Action → Bytes
  | up => "↑/k"
  | down => "↓/j"
  | pageUp => "pgup"
  | pageDown => "pgdn"
  | nextPatch => "n/tab"
  | previousPatch => "N/S-tab"
  | nextIssue => "]"
  | previousIssue => "["
  | nextHunk => "\x7d"
  | previousHunk => "\x7b"
  | help => "?"
  | quit => "q"

/-- How the help names an action. -/
def title : Action → Bytes
  | up => "up"
  | down => "down"
  | pageUp => "page up"
  | pageDown => "page down"
  | nextPatch => "next patch"
  | previousPatch => "prev patch"
  | nextIssue => "next issue"
  | previousIssue => "prev issue"
  | nextHunk => "next hunk"
  | previousHunk => "prev hunk"
  | help => "help"
  | quit => "quit"

/-- The action of a key. -/
def ofKey? (key : Bytes) : Option Action := all.find? fun a => a.keys.contains key

end Action

/-- What happens to the browser. -/
inductive BrowserEvent where
  | resize (width height : Int)
  | press (key : Bytes)
  deriving DecidableEq, Repr

/-- Finds the patch at a path, or says why it cannot be shown. -/
abbrev Loader := Bytes → Except Bytes Document

/-- The state of the browser. -/
structure Browser where
  /-- The run whose patches are shown, if there is one. -/
  summary : Option Summary
  width : Int := 0
  height : Int := 0
  /-- The place of the selected patch. -/
  index : Nat := 0
  /-- The first line on the screen, counted from 0. -/
  offset : Nat := 0
  viewHeight : Int := 0
  lines : List ShownLine := []
  /-- Why the selected patch could not be loaded. -/
  loadError : Option Bytes := none
  help : Bool := false
  deriving DecidableEq, Repr

namespace Browser

/-- The reports that are listed. -/
def reports (b : Browser) : List FileReport :=
  match b.summary with
  | some s => s.reports
  | none => []

/-- The report of the selected patch. -/
def current? (b : Browser) : Option FileReport := b.reports[b.index]?

/-- Loads the selected patch and sets its lines in colour. -/
def reload (lexers : Lexers) (load : Loader) (b : Browser) : Browser :=
  match b.current? with
  | none => { b with lines := [], loadError := none }
  | some r =>
    match load r.path with
    | .ok doc => { b with lines := ShownLine.ofDocument lexers doc r, loadError := none }
    | .error why => { b with lines := [], loadError := some why }

/-- The browser when it is opened. -/
def start (lexers : Lexers) (load : Loader) (summary : Option Summary) : Browser :=
  ({ summary := summary } : Browser).reload lexers load

/-- Scrolls to a line, or to the nearest one that there is. -/
def scrollTo (b : Browser) (offset : Int) : Browser :=
  { b with offset := (min offset ((b.lines.length : Int) - 1)).toNat }

/-- The lines that a page key moves by. -/
def pageStep (b : Browser) : Int := max (b.viewHeight.tdiv 2) 1

/-- Selects a patch and shows it from its first line. -/
def select (lexers : Lexers) (load : Loader) (b : Browser) (index : Nat) : Browser :=
  ({ b with index := index, offset := 0 } : Browser).reload lexers load

/-- Scrolls to the next line below the first one on the screen for which `p` holds. -/
def jumpForward (b : Browser) (p : ShownLine → Bool) : Browser :=
  match (b.lines.drop (b.offset + 1)).findIdx? p with
  | some n => { b with offset := b.offset + 1 + n }
  | none => b

/-- Scrolls to the next line above the first one on the screen for which `p` holds. -/
def jumpBack (b : Browser) (p : ShownLine → Bool) : Browser :=
  match (b.lines.take b.offset).reverse.findIdx? p with
  | some n => { b with offset := b.offset - 1 - n }
  | none => b

/-- Carries out an action other than quitting. -/
def act (lexers : Lexers) (load : Loader) (b : Browser) : Action → Browser
  | .up => b.scrollTo ((b.offset : Int) - 1)
  | .down => b.scrollTo ((b.offset : Int) + 1)
  | .pageUp => b.scrollTo (b.offset - b.pageStep)
  | .pageDown => b.scrollTo (b.offset + b.pageStep)
  | .nextPatch => if b.index + 1 < b.reports.length then b.select lexers load (b.index + 1) else b
  | .previousPatch => if 0 < b.index then b.select lexers load (b.index - 1) else b
  | .nextIssue => b.jumpForward ShownLine.hasIssue
  | .previousIssue => b.jumpBack ShownLine.hasIssue
  | .nextHunk => b.jumpForward ShownLine.isHunk
  | .previousHunk => b.jumpBack ShownLine.isHunk
  | .help => { b with help := !b.help }
  | .quit => b

/-- The lines of a window that are left for a patch; the count is kept in a word of 64 bits. -/
def heightForPatch (height : Int) : Int := (height - 4).bmod 0x10000000000000000

/-- The browser after an event, and whether it is to be closed. -/
def update (lexers : Lexers) (load : Loader) (b : Browser) : BrowserEvent → Browser × Bool
  | .resize width height =>
    ({ b with width := width, height := height, viewHeight := heightForPatch height }, false)
  | .press key =>
    match Action.ofKey? key with
    | some a => (b.act lexers load a, a == .quit)
    | none => (b, false)

end Browser

end PatchAudit
