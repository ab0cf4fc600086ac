import PatchAudit.Text.Utf8

/-!
# Names of fields

Records that are read from outside name their fields exactly, or else without regard to case.
-/

namespace PatchAudit

namespace FieldName

/-- A character without regard to case, as far as the letters of ASCII names go. -/
def foldChar (c : Char) : Char :=
  if c = 'ſ' then 's' else if c.toNat = 0x212A then 'k' else c.toLower

/-- Whether a key is a name without regard to case. -/
def same (name key : Bytes) : Bool :=
  (Bytes.chars key).map foldChar == (Bytes.chars name).map foldChar

/-- The field of a key: the one with that name, or else with that name in another case. -/
def find? {α : Type} (names : List (Bytes × α)) (key : Bytes) : Option α :=
  match names.lookup key with
  | some f => some f
  | none => (names.find? fun (name, _) => same name key).map (·.2)

end FieldName

end PatchAudit
