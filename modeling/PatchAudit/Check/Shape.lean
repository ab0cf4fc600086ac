import PatchAudit.Check.Options

/-!
# The structure check

A patch starts with a mail header and has file markers and a hunk.  The check looks at the whole
text; each requirement that is not met gives an issue of its own.
-/

namespace PatchAudit

namespace ShapeCheck

/-- The issue of a requirement that is not met. -/
def issue (message : Bytes) : Issue where
  check := Check.shape.name
  kind := .shape
  line := 0
  message := message
  severity := .warning

/-- The requirements on a text, each with the message for a text that fails it. -/
def requirements (text : Bytes) : List (Bool × Bytes) :=
  [(Bytes.hasStart "From " text, "missing proper patch header"),
   (Bytes.hasInfix "---" text && Bytes.hasInfix "+++" text, "missing file diff markers"),
   (Bytes.hasInfix "@@" text, "missing diff sections")]

/-- The issues of a text. -/
def issues (text : Bytes) : List Issue :=
  ((requirements text).filter (!·.1)).map fun r => issue r.2

end ShapeCheck

end PatchAudit
