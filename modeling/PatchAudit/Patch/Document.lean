import PatchAudit.Path.Basic

/-!
# Patch documents

A document is the text of one patch file with CR LF line ends turned into LF.  Its lines are the
parts between the LF bytes, so that joining them gives the text back.
-/

namespace PatchAudit

/-- One patch file. -/
structure Document where
  /-- The path that the patch was read from. -/
  path : Bytes
  /-- The whole text, its line ends made plain. -/
  text : Bytes
  deriving DecidableEq, Repr

namespace Document

/-- The document of a text read from `path`. -/
def ofText (path text : Bytes) : Document := ⟨path, text.plainEnds⟩

/-- The last component of the path, by which checks choose their files. -/
def name (d : Document) : Bytes := Path.base d.path

/-- The lines of the text, without their line ends. -/
def lines (d : Document) : List Bytes := d.text.splitOn 0x0A

end Document

end PatchAudit
