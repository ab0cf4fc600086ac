import PatchAudit.Disk.Change
import PatchAudit.Store.Entry

/-!
# The store of reports

Reports are kept in files below a directory, one for each key.  A report is first written to a file
of its own and then moved to its place, so that its place never holds a part of it.
-/

namespace PatchAudit

/-- A store that keeps its reports below a directory. -/
structure Store where
  dir : Bytes
  deriving DecidableEq, Repr

/-- The steps of storing a report. -/
inductive PutStep where
  | makeFolder
  | createTemp
  | encode
  | close
  | rename
  deriving DecidableEq, Repr

/-- What can go wrong with a store. -/
inductive StoreError where
  /-- The directory of the store cannot be made. -/
  | notOpened (why : DiskError)
  | disk (why : DiskError)
  /-- A step of storing failed for a reason outside the file tree. -/
  | failedAt (step : PutStep)
  /-- The entry of a key is no stored report. -/
  | undecodable (key : StoreKey)
  deriving DecidableEq, Repr

/-- The wording of an error. -/
def StoreError.message : StoreError → Bytes
  | notOpened why => "creating cache dir: " ++ why.message
  | disk why => why.message
  | failedAt .makeFolder => "cannot create the report directory"
  | failedAt .createTemp => "cannot create a temporary file"
  | failedAt .encode => "cannot write the report"
  | failedAt .close => "cannot close the report"
  | failedAt .rename => "cannot move the report to its place"
  | undecodable key => "decoding cache entry " ++ key.hex

namespace Store

/-- Opens the store below a directory, which is made if it is missing.  The disk is the one
afterwards, also if the directory cannot be made. -/
def openAt (d : Disk) (dir : Bytes) : Disk × Except StoreError Store :=
  match d.makeFolders dir with
  | (d, .ok ()) => (d, .ok ⟨dir⟩)
  | (d, .error why) => (d, .error (.notOpened why))

/-- The folder of the reports. -/
def reportsPath (s : Store) : Bytes := Path.join [s.dir, "reports"]

/-- The file of a key. -/
def entryPath (s : Store) (key : StoreKey) : Bytes :=
  Path.join [s.dir, "reports", key.hex ++ ".mp"]

/-- A name for a temporary file. -/
def tempName (n : Nat) : Bytes := "tmp-" ++ Bytes.ofNat n

/-- The path of a temporary file that is not there yet. -/
def tempPath (s : Store) (d : Disk) : Bytes :=
  let taken := d.namesAt s.reportsPath
  let n := ((List.range (taken.length + 1)).find? fun n => !taken.contains (tempName n)).getD 0
  Path.join [s.reportsPath, tempName n]

/-- Removes a temporary file, if it is still there. -/
def dropTemp (d : Disk) (path : Bytes) : Disk := (d.removeAll path).toOption.getD d

/-- Stores a report under a key, where the steps for which `fails` holds go wrong.  The disk is the
one afterwards, also if storing failed. -/
def putWith (fails : PutStep → Bool) (s : Store) (d : Disk) (key : StoreKey) (r : FileReport) :
    Disk × Except StoreError Unit :=
  if fails .makeFolder then (d, .error (.failedAt .makeFolder))
  else
    match d.makeFolders s.reportsPath with
    | (d, .error why) => (d, .error (.disk why))
    | (d, .ok ()) =>
      let temp := s.tempPath d
      if fails .createTemp then (d, .error (.failedAt .createTemp))
      else
        match d.writeFile temp [] with
        | .error why => (d, .error (.disk why))
        | .ok begun =>
          if fails .encode then (dropTemp begun temp, .error (.failedAt .encode))
          else
            match begun.writeFile temp (StoredReport.ofReport r).encode with
            | .error why => (dropTemp begun temp, .error (.disk why))
            | .ok written =>
              if fails .close then (dropTemp written temp, .error (.failedAt .close))
              else if fails .rename then (dropTemp written temp, .error (.failedAt .rename))
              else
                match written.rename temp (s.entryPath key) with
                | .error why => (dropTemp written temp, .error (.disk why))
                | .ok moved => (dropTemp moved temp, .ok ())

/-- Stores a report under a key. -/
def put (s : Store) (d : Disk) (key : StoreKey) (r : FileReport) : Disk × Except StoreError Unit :=
  s.putWith (fun _ => false) d key r

/-- Fills a report with what is stored under a key.  The result is none if nothing is stored, or if
it was stored by another version. -/
def get (s : Store) (d : Disk) (key : StoreKey) (r : FileReport) :
    Except StoreError (Option FileReport) :=
  match d.fileData (s.entryPath key) with
  | .error why =>
    if why.fault = .missing then .ok none
    else if why.fault = .isFolder then .error (.undecodable key)
    else .error (.disk why)
  | .ok data =>
    match StoredReport.decode? data with
    | none => .error (.undecodable key)
    | some stored => .ok (if stored.version = storeVersion then some (stored.into r) else none)

/-- Removes all reports. -/
def clear (s : Store) (d : Disk) : Disk × Except StoreError Unit :=
  match d.removeAll s.reportsPath with
  | .ok d => (d, .ok ())
  | .error why => (d, .error (.disk why))

end Store

end PatchAudit
