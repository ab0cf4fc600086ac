import PatchAudit.Check.Options
import PatchAudit.Codec.Sha256

/-!
# Keys of stored reports

A report depends on the name and the text of a patch and on the options.  The key is the digest of
all of these, each part ended by a zero byte and each list preceded by its length, so that parts
cannot move from one field to another.
-/

namespace PatchAudit

/-- The version of the stored form, which changes with the form and with the checks. -/
def storeVersion : Nat := 1

/-- The key of a stored report. -/
structure StoreKey where
  bytes : Bytes
  deriving DecidableEq, Repr

namespace StoreKey

/-- A part and the zero byte that ends it. -/
def part (s : Bytes) : Bytes := s ++ [0]

/-- A list: the number of its parts, then the parts. -/
def listParts (l : List Bytes) : Bytes := part (Bytes.ofNat l.length) ++ l.flatMap part

/-- The bytes that a key is the digest of.  The order of the skipped checks does not matter. -/
def preimage (name text : Bytes) (o : LintOptions) : Bytes :=
  part ("v" ++ Bytes.ofNat storeVersion) ++ part name ++ part text
    ++ listParts o.branding.oldTerms ++ part o.branding.replacement ++ part o.branding.fileFilter
    ++ listParts o.commentMarks ++ part (Bytes.join "," (Bytes.sort o.skip))

/-- The key of a patch under options. -/
def of (name text : Bytes) (o : LintOptions) : StoreKey := ⟨Sha256.digest (preimage name text o)⟩

/-- The key in hexadecimal. -/
def hex (k : StoreKey) : Bytes := k.bytes.toHex

end StoreKey

end PatchAudit
