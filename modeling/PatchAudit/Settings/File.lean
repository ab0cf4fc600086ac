import PatchAudit.Disk.Basic
import PatchAudit.Settings.Basic
import PatchAudit.Text.FieldName
import PatchAudit.Toml.Reader

/-!
# The settings file

Settings are read from a TOML file, in which every field may be missing.  Field names are matched
exactly, or else without regard to case.  The file that counts is the nearest one on the way up from
a directory.
-/

namespace PatchAudit

/-- Why settings cannot be read from a file. -/
inductive SettingsError where
  | unreadable (path : Bytes) (why : DiskError)
  | malformed (path : Bytes)
  | unknownKeys (path : Bytes) (keys : List TomlKey)
  | invalid (path : Bytes) (why : SettingsFault)
  /-- Looking for a file failed at this path. -/
  | noAccess (path : Bytes) (why : DiskFault)
  deriving DecidableEq, Repr

/-- The wording of an error. -/
def SettingsError.message : SettingsError → Bytes
  | unreadable path why => path ++ ": failed to parse TOML: " ++ why.message
  | malformed path => path ++ ": failed to parse TOML"
  | unknownKeys path keys =>
    path ++ ": unknown keys: " ++ Bytes.join ", " (keys.map TomlKey.render)
  | invalid path why => path ++ ": " ++ why.message
  | noAccess path why =>
    "failed to stat " ++ Quoted.encode path ++ ": " ++ DiskError.message ⟨"stat", path, why⟩

/-! ### Fields -/

/-- The fields at the top of a settings file. -/
inductive SettingsField where
  | dir
  | pattern
  | jobs
  | skip
  | branding
  | braces
  deriving DecidableEq, Repr

/-- The fields of the branding table. -/
inductive BrandingField where
  | oldTerms
  | replacement
  | fileFilter
  deriving DecidableEq, Repr

/-- The fields of the braces table. -/
inductive BracesField where
  | commentMarks
  deriving DecidableEq, Repr

namespace SettingsFile

/-- The names of the fields at the top. -/
def topNames : List (Bytes × SettingsField) :=
  [("dir", .dir), ("pattern", .pattern), ("jobs", .jobs), ("skip", .skip),
   ("branding", .branding), ("braces", .braces)]

/-- The names of the fields of the branding table. -/
def brandingNames : List (Bytes × BrandingField) :=
  [("old_terms", .oldTerms), ("replacement", .replacement), ("file_filter", .fileFilter)]

/-- The names of the fields of the braces table. -/
def bracesNames : List (Bytes × BracesField) := [("comment_prefixes", .commentMarks)]

/-- Whether a key of a document is that of a field. -/
def isKnown : TomlKey → Bool
  | [k] => (FieldName.find? topNames k).isSome
  | [k, l] =>
    match FieldName.find? topNames k with
    | some .branding => (FieldName.find? brandingNames l).isSome
    | some .braces => (FieldName.find? bracesNames l).isSome
    | _ => false
  | _ => false

/-! ### Values -/

/-- The text of a value. -/
def text? : TomlValue → Option Bytes
  | .string s => some s
  | _ => none

/-- The texts of a value. -/
def texts? : TomlValue → Option (List Bytes)
  | .array items => items.mapM text?
  | _ => none

/-- Fills a field of the branding table. -/
def fillBranding (b : BrandingRule) (field : Bytes × TomlValue) : Option BrandingRule :=
  match FieldName.find? brandingNames field.1 with
  | none => some b
  | some .oldTerms => do return { b with oldTerms := ← texts? field.2 }
  | some .replacement => do return { b with replacement := ← text? field.2 }
  | some .fileFilter => do return { b with fileFilter := ← text? field.2 }

/-- Fills a field of the braces table. -/
def fillBraces (marks : List Bytes) (field : Bytes × TomlValue) : Option (List Bytes) :=
  match FieldName.find? bracesNames field.1 with
  | none => some marks
  | some .commentMarks => texts? field.2

/-- Fills a field at the top. -/
def fill (s : Settings) (field : Bytes × TomlValue) : Option Settings :=
  match FieldName.find? topNames field.1, field.2 with
  | none, _ => some s
  | some .dir, v => do return { s with dir := ← text? v }
  | some .pattern, v => do return { s with pattern := ← text? v }
  | some .jobs, .integer i => some { s with jobs := i }
  | some .skip, v => do return { s with lint := { s.lint with skip := ← texts? v } }
  | some .branding, .table fields => do
    return { s with lint := { s.lint with branding := ← fields.foldlM fillBranding s.lint.branding } }
  | some .braces, .table fields => do
    let marks ← fields.foldlM fillBraces s.lint.commentMarks
    return { s with lint := { s.lint with commentMarks := marks } }
  | some _, _ => none

/-- The settings of a document; fields that are missing keep their standard values. -/
def ofDocument? (doc : TomlDocument) : Option Settings := doc.root.foldlM fill {}

/-- Whether a document has the key `dir` in exactly this spelling. -/
def definesDir (doc : TomlDocument) : Bool := (doc.root.lookup (Bytes.ofString "dir")).isSome

/-- Settings with a relative directory taken from the directory of the settings file. -/
def placeDir (path : Bytes) (doc : TomlDocument) (s : Settings) : Settings :=
  if definesDir doc && !Path.isAbsolute s.dir then
    { s with dir := Path.join [Path.parent path, s.dir] }
  else s

/-- The settings that a document in the file at a path means. -/
def settle (path : Bytes) (doc : TomlDocument) : Except SettingsError Settings :=
  match ofDocument? doc with
  | none => .error (.malformed path)
  | some s =>
    match doc.keys.filter fun k => !isKnown k with
    | [] =>
      match ({ placeDir path doc s with path := path } : Settings).validate with
      | .ok s => .ok s
      | .error why => .error (.invalid path why)
    | unknown => .error (.unknownKeys path unknown)

/-- The settings that a file with the given text means. -/
def parse (path text : Bytes) : Except SettingsError Settings :=
  match TomlDocument.read? text with
  | none => .error (.malformed path)
  | some doc => settle path doc

/-- The name of settings files. -/
def fileName : Bytes := ".patchlint.toml"

/-- Looks for a settings file in the given directories, in order. -/
def findIn (d : Disk) : List Bytes → Except SettingsError (Option Bytes)
  | [] => .ok none
  | dir :: rest =>
    let candidate := Path.join [dir, fileName]
    match d.stat candidate with
    | .ok _ => .ok (some candidate)
    | .error .missing => findIn d rest
    | .error why => .error (.noAccess candidate why)

end SettingsFile

namespace Disk

/-- Reads settings from the file at a path. -/
def loadSettings (d : Disk) (path : Bytes) : Except SettingsError Settings :=
  match d.fileData path with
  | .error why => .error (.unreadable path why)
  | .ok text => SettingsFile.parse path text

/-- The path of the settings file nearest to a directory, on the way up to the root. -/
def findSettings (d : Disk) (start : Bytes) : Except SettingsError (Option Bytes) :=
  SettingsFile.findIn d (Path.ancestors (d.absolute (if start.isEmpty then [0x2E] else start)))

/-- The settings nearest to a directory, or the standard ones if there is no file. -/
def nearestSettings (d : Disk) (start : Bytes) : Except SettingsError Settings := do
  match ← d.findSettings start with
  | some path => d.loadSettings path
  | none => return {}

end Disk

end PatchAudit
