import PatchAudit.Json.Record

/-!
# What clients ask for

The requests of the service, as records read from JSON.
-/

namespace PatchAudit

/-- A patch to look at.  An empty name asks for the standard one. -/
structure LintRequest where
  name : Bytes := []
  patch : Bytes := []
  deriving DecidableEq, Repr

namespace LintRequest

/-- The fields of the request. -/
inductive Field where
  | name
  | patch
  deriving DecidableEq, Repr

/-- The names of the fields. -/
def fields : List (Bytes × Field) := [("name", .name), ("patch", .patch)]

/-- Puts a value into the field that it is given for. -/
def fill (r : LintRequest) (field : Bytes × JsonValue) : Option LintRequest :=
  match FieldName.find? fields field.1 with
  | none => some r
  | some .name => (field.2.textOver r.name).map fun s => { r with name := s }
  | some .patch => (field.2.textOver r.patch).map fun s => { r with patch := s }

/-- The request that a value describes. -/
def ofJson? (v : JsonValue) : Option LintRequest := v.record? fill {}

end LintRequest

/-- A directory to run over.  An empty pattern asks for the one of the service. -/
structure FolderRequest where
  dir : Bytes := []
  pattern : Bytes := []
  deriving DecidableEq, Repr

namespace FolderRequest

/-- The fields of the request. -/
inductive Field where
  | dir
  | pattern
  deriving DecidableEq, Repr

/-- The names of the fields. -/
def fields : List (Bytes × Field) := [("dir", .dir), ("pattern", .pattern)]

/-- Puts a value into the field that it is given for. -/
def fill (r : FolderRequest) (field : Bytes × JsonValue) : Option FolderRequest :=
  match FieldName.find? fields field.1 with
  | none => some r
  | some .dir => (field.2.textOver r.dir).map fun s => { r with dir := s }
  | some .pattern => (field.2.textOver r.pattern).map fun s => { r with pattern := s }

/-- The request that a value describes. -/
def ofJson? (v : JsonValue) : Option FolderRequest := v.record? fill {}

end FolderRequest

/-- A message of a session: its type, and its data if there is any. -/
structure Envelope where
  type : Bytes := []
  data : Option JsonValue := none

namespace Envelope

/-- The fields of a message. -/
inductive Field where
  | type
  | data
  deriving DecidableEq, Repr

/-- The names of the fields. -/
def fields : List (Bytes × Field) := [("type", .type), ("data", .data)]

/-- Puts a value into the field that it is given for; data may be anything, `null` included. -/
def fill (e : Envelope) (field : Bytes × JsonValue) : Option Envelope :=
  match FieldName.find? fields field.1 with
  | none => some e
  | some .type => (field.2.textOver e.type).map fun s => { e with type := s }
  | some .data => some { e with data := some field.2 }

/-- The message that a value describes. -/
def ofJson? (v : JsonValue) : Option Envelope := v.record? fill {}

end Envelope

end PatchAudit
