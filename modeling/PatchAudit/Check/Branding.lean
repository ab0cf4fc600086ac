import PatchAudit.Check.Options
import PatchAudit.Patch.Line
import PatchAudit.Text.LowerCase

/-!
# The branding check

In patches whose name matches the rule's filter, an added line that uses an old term has to use the
replacement as well.
-/

namespace PatchAudit

namespace BrandingRule

/-- Whether the rule holds for a patch of the given name. -/
def appliesTo (b : BrandingRule) (name : Bytes) : Bool :=
  !b.oldTerms.isEmpty && Bytes.hasInfix b.fileFilter.lower name.lower

/-- Whether a payload uses an old term and not the replacement. -/
def offends (b : BrandingRule) (payload : Bytes) : Bool :=
  (b.oldTerms.any fun t => !t.isEmpty && Bytes.hasInfix t payload)
    && !Bytes.hasInfix b.replacement payload

/-- The issue of a line that offends. -/
def issue (b : BrandingRule) (line : Nat) : Issue where
  check := Check.branding.name
  kind := .branding
  line := line
  message := "inconsistent branding — should use '" ++ b.replacement ++ "'"
  severity := .warning

/-- The issues of a patch of the given name. -/
def issues (b : BrandingRule) (name : Bytes) (lines : List PatchLine) : List Issue :=
  if b.appliesTo name then
    (lines.filter fun l => l.kind == .added && b.offends l.payload).map fun l => b.issue l.number
  else []

end BrandingRule

end PatchAudit
