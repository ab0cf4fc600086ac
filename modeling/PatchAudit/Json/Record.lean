import PatchAudit.Json.Reader
import PatchAudit.Text.FieldName

/-!
# Records given as JSON

A record is read from an object field by field: a later field replaces an earlier one of the same
name, `null` leaves the field as it is, and fields that the record does not have are passed over.
-/

namespace PatchAudit

namespace JsonValue

/-- The text of a field, where `null` leaves what was there before. -/
def textOver (before : Bytes) : JsonValue → Option Bytes
  | null => some before
  | string s => some s
  | _ => none

/-- A record filled from a value, which has to be an object or `null`. -/
def record? {α : Type} (fill : α → Bytes × JsonValue → Option α) (empty : α) :
    JsonValue → Option α
  | null => some empty
  | object fields => fields.foldlM fill empty
  | _ => none

end JsonValue

end PatchAudit
