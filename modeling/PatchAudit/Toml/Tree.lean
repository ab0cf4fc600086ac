import PatchAudit.Toml.Value

/-!
# Building a TOML document

Headers and dotted keys make tables as they go.  A table that was only implied may be defined once;
every other second definition is refused, except that an array gives way to a later value.
-/

namespace PatchAudit

/-- A document in the making. -/
structure TomlTree where
  root : TomlTable := []
  /-- The table that keys are put in. -/
  context : TomlKey := []
  /-- Tables that have been implied and not yet defined. -/
  implied : List TomlKey := []
  /-- Keys whose last value was an array. -/
  arrays : List TomlKey := []
  /-- The keys so far, the last one first. -/
  keys : List TomlKey := []

namespace TomlTree

/-- A table with a field put in place of the one of the same name, or at the end. -/
def setField (name : Bytes) (v : TomlValue) : TomlTable → TomlTable
  | [] => [(name, v)]
  | (n, w) :: rest => if n = name then (n, v) :: rest else (n, w) :: setField name v rest

/-- Changes the table that a key leads to.  Where tables of the same header stand in the way, the
last one is meant. -/
def changeAt (change : TomlTable → Option TomlTable) : TomlKey → TomlTable → Option TomlTable
  | [], t => change t
  | name :: rest, t =>
    match t.lookup name with
    | some (.table inner) => do
      return setField name (.table (← changeAt change rest inner)) t
    | some (.tables ts) => do
      let last ← changeAt change rest (ts.getLastD [])
      return setField name (.tables (ts.dropLast ++ [last])) t
    | _ => none

/-- Changes the table of the context. -/
def change (t : TomlTree) (f : TomlTable → Option TomlTable) : Option TomlTree :=
  (changeAt f t.context t.root).map fun root => { t with root := root }

/-- The fields of the table that a key leads to. -/
def tableAt? : TomlKey → TomlTable → Option TomlTable
  | [], t => some t
  | name :: rest, t =>
    match t.lookup name with
    | some (.table inner) => tableAt? rest inner
    | some (.tables ts) => tableAt? rest (ts.getLastD [])
    | _ => none

/-- Puts a value under a name of the context. -/
def define (t : TomlTree) (name : Bytes) (v : TomlValue) : Option TomlTree := do
  let table ← tableAt? t.context t.root
  let key := t.context ++ [name]
  if (table.lookup name).isNone then t.change fun fields => some (setField name v fields)
  else if t.arrays.contains key then
    let t := { t with implied := t.implied.filter (· != key) }
    t.change fun fields => some (setField name v fields)
  else if t.implied.contains key then some { t with implied := t.implied.filter (· != key) }
  else none

/-- Notes whether the last value of a key was an array; an empty name stands for the context. -/
def noteKind (t : TomlTree) (name : Bytes) (isArray : Bool) : TomlTree :=
  let key := t.context ++ if name.isEmpty then [] else [name]
  let key : TomlKey := if key.isEmpty then [[]] else key
  let others := t.arrays.filter (· != key)
  { t with arrays := if isArray then key :: others else others }

/-- Notes that a table is implied. -/
def imply (t : TomlTree) (key : TomlKey) : TomlTree :=
  { t with implied := key :: t.implied.filter (· != key) }

/-- Makes one table that a key leads through, if it is new; it is then implied. -/
def passThrough (t : TomlTree) (outer : TomlKey) (name : Bytes) : Option TomlTree := do
  let table ← tableAt? outer t.root
  match table.lookup name with
  | none =>
    let t := { t.imply (outer ++ [name]) with context := outer }
    t.change fun fields => some (setField name (.table []) fields)
  | some (.table _) => some t
  | some (.tables _) => some t
  | some _ => none

/-- Makes the tables that lead to a key, of which `done` have been made. -/
def makeWay (t : TomlTree) (done : TomlKey) : List Bytes → Option TomlTree
  | [] => some t
  | name :: rest => do makeWay (← t.passThrough done name) (done ++ [name]) rest

/-- Opens the table of a key and makes it the context; `repeated` adds one more table to those of
the same header. -/
def openTable (t : TomlTree) (key : TomlKey) (repeated : Bool) : Option TomlTree := do
  let outer := key.dropLast
  let name := key.getLastD []
  let t ← t.makeWay [] outer
  let t := { t with context := outer }
  let t ←
    if repeated then
      t.change fun fields =>
        match fields.lookup name with
        | none => some (setField name (.tables [[]]) fields)
        | some (.tables ts) => some (setField name (.tables (ts ++ [[]])) fields)
        | some _ => none
    else t.define name (.table [])
  return { t with context := key }

/-- Opens the tables before the last name of a dotted key, one inside the other. -/
def openDotted (t : TomlTree) : List Bytes → Option TomlTree
  | [] => some t
  | name :: rest => do
    let key := t.context ++ [name]
    openDotted (← (t.imply key).openTable key false) rest

/-- Lists a key of the document. -/
def list (t : TomlTree) (key : TomlKey) : TomlTree := { t with keys := key :: t.keys }

/-- The finished document. -/
def finish (t : TomlTree) : TomlDocument := ⟨t.root, t.keys.reverse⟩

end TomlTree

end PatchAudit
