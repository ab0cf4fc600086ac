import Mathlib.Algebra.Order.BigOperators.Group.List
import Mathlib.Algebra.Order.Ring.Nat
import PatchAudit.Json.Record
import PatchAudit.Proofs.JsonText
import PatchAudit.Report.Format

/-!
# Reading reports that were written

Reports leave the program as records in JSON.  This module reads them again, by the rules under
which the program reads records: a field is found by its name, a later field replaces an earlier
one, and `null` changes nothing.  What is read is the record that was written, each stray byte of
its texts having become U+FFFD (`written_reports_read_back`).
-/

namespace PatchAudit

namespace JsonValue

variable {α : Type}

/-- The truth value of a field, where `null` leaves what was there before. -/
def flagOver (before : Bool) : JsonValue → Option Bool
  | null => some before
  | bool b => some b
  | _ => none

/-- The number of a field, a word of 64 bits, where `null` leaves what was there before. -/
def wordOver (before : Int) : JsonValue → Option Int
  | null => some before
  | number literal => (Numeral.read 10 64 literal).toOption
  | _ => none

/-- The count of a field, which is a number that is not negative. -/
def countOver (before : Nat) (v : JsonValue) : Option Nat :=
  (wordOver before v).bind Int.toNat?

/-- The list of a field; `null` is the empty one. -/
def listOf (item : JsonValue → Option α) : JsonValue → Option (List α)
  | null => some []
  | array items => items.mapM item
  | _ => none

/-- A field of a record: its name, and what a value given for it makes of the record. -/
abbrev Slot (α : Type) : Type := Bytes × (α → JsonValue → Option α)

/-- Puts a value into the field that it is given for; other fields are passed over. -/
def fillSlot (slots : List (Slot α)) (r : α) (field : Bytes × JsonValue) : Option α :=
  match FieldName.find? slots field.1 with
  | none => some r
  | some put => put r field.2

/-- A record filled from a value over what it held before.  A record inside a record is read over
its place in the outer one. -/
def recordOver (slots : List (Slot α)) (before : α) (v : JsonValue) : Option α :=
  v.record? (fillSlot slots) before

theorem recordOver_cons {slots : List (Slot α)} {r r' : α} {k : Bytes}
    {put : α → JsonValue → Option α} {x : JsonValue} {fields : List (Bytes × JsonValue)}
    (hslot : FieldName.find? slots k = some put) (hput : put r x = some r') :
    recordOver slots r (object ((k, x) :: fields)) = recordOver slots r' (object fields) := by
  show List.foldlM (fillSlot slots) r ((k, x) :: fields) = _
  have hfill : fillSlot slots r (k, x) = some r' := by
    unfold fillSlot
    rw [hslot]
    exact hput
  rw [List.foldlM_cons, hfill]
  rfl

theorem recordOver_nil (slots : List (Slot α)) (r : α) : recordOver slots r (object []) = some r :=
  rfl

theorem wordOver_int {i : Int} (h : -2 ^ 63 ≤ i ∧ i < 2 ^ 63) (before : Int) :
    wordOver before (int i) = some i := by
  show (Numeral.read 10 64 (Bytes.ofInt i)).toOption = some i
  rw [Numeral.read_ofInt h]
  rfl

theorem countOver_int {n : Nat} (h : n < 2 ^ 63) (before : Nat) :
    countOver before (int n) = some n := by
  rw [countOver, wordOver_int ⟨by omega, by omega⟩]
  rfl

theorem listOf_singleton {item : JsonValue → Option α} {x : JsonValue} {a : α}
    (h : item x = some a) : listOf item (array [x]) = some [a] := by
  rw [listOf, List.mapM_cons, h]
  rfl

/-- Items whose values are clean if they are clean themselves. -/
theorem scrubbedItems_map {toJson : α → JsonValue} {clean : α → α} {xs : List α}
    (h : ∀ x ∈ xs, (toJson x).scrubbed = toJson (clean x)) :
    scrubbedItems (xs.map toJson) = (xs.map clean).map toJson := by
  induction xs with
  | nil => rfl
  | cons x xs ih =>
    simp only [List.map_cons, scrubbedItems]
    rw [h x List.mem_cons_self, ih fun y hy => h y (List.mem_cons_of_mem _ hy)]

/-- A list that is written item by item is read item by item. -/
theorem listOf_scrubbed {β : Type} {item : JsonValue → Option α} {toJson : β → JsonValue}
    {clean : β → α} {xs : List β} (h : ∀ x ∈ xs, item (toJson x).scrubbed = some (clean x)) :
    listOf item (array (scrubbedItems (xs.map toJson))) = some (xs.map clean) := by
  show (scrubbedItems (xs.map toJson)).mapM item = _
  induction xs with
  | nil => rfl
  | cons x xs ih =>
    rw [List.map_cons, scrubbedItems, List.mapM_cons, h x List.mem_cons_self,
      ih fun y hy => h y (List.mem_cons_of_mem _ hy)]
    rfl

end JsonValue

open JsonValue

/-! ### Records of reports -/

namespace IssueRecord

/-- The record with stray bytes replaced. -/
def scrubbed (i : IssueRecord) : IssueRecord where
  check := i.check.scrub
  kind := i.kind.scrub
  line := i.line
  message := i.message.scrub
  severity := i.severity.scrub

theorem toJson_scrubbed (i : IssueRecord) : i.toJson.scrubbed = i.scrubbed.toJson := by
  by_cases hline : i.line = 0 <;>
    simp [toJson, scrubbed, hline, JsonValue.scrubbed, scrubbedFields, Bytes.scrub_ofString,
      JsonValue.int]

/-- The fields of an issue. -/
def slots : List (Slot IssueRecord) :=
  [("check", fun r v => (v.textOver r.check).map fun x => { r with check := x }),
   ("kind", fun r v => (v.textOver r.kind).map fun x => { r with kind := x }),
   ("line", fun r v => (v.wordOver r.line).map fun x => { r with line := x }),
   ("message", fun r v => (v.textOver r.message).map fun x => { r with message := x }),
   ("severity", fun r v => (v.textOver r.severity).map fun x => { r with severity := x })]

/-- The issue that a value describes; fields that are left out are empty. -/
def ofJson? (v : JsonValue) : Option IssueRecord := v.recordOver slots ⟨[], [], 0, [], []⟩

theorem fits_toJson (limit : Nat) (i : IssueRecord) : Fits (limit + 1) i.toJson := by
  refine .object ?_
  by_cases hline : i.line = 0
  · simp only [hline, if_true, List.append_nil, List.cons_append, List.nil_append,
      List.forall_mem_cons]
    exact ⟨.string _ _, .string _ _, .string _ _, .string _ _, by simp⟩
  · simp only [hline, if_false, List.cons_append, List.nil_append, List.forall_mem_cons]
    exact ⟨.string _ _, .string _ _, .int _ _, .string _ _, .string _ _, by simp⟩

theorem ofJson?_toJson {i : IssueRecord} (h : -2 ^ 63 ≤ i.line ∧ i.line < 2 ^ 63) :
    ofJson? i.toJson.scrubbed = some i.scrubbed := by
  unfold ofJson? toJson
  by_cases hline : i.line = 0
  · simp only [hline, if_true, List.append_nil, List.cons_append, List.nil_append,
      JsonValue.scrubbed, scrubbedFields, Bytes.scrub_ofString]
    rw [recordOver_cons rfl rfl, recordOver_cons rfl rfl, recordOver_cons rfl rfl,
      recordOver_cons rfl rfl, recordOver_nil, scrubbed, hline]
  · have hread : (JsonValue.int i.line).scrubbed = JsonValue.int i.line := rfl
    simp only [hline, if_false, List.cons_append, List.nil_append,
      JsonValue.scrubbed, scrubbedFields, Bytes.scrub_ofString, hread]
    rw [recordOver_cons rfl rfl, recordOver_cons rfl rfl,
      recordOver_cons rfl (congrArg _ (wordOver_int h _)), recordOver_cons rfl rfl,
      recordOver_cons rfl rfl, recordOver_nil, scrubbed]

end IssueRecord

namespace CheckCount

/-- The count with stray bytes of the check's name replaced. -/
def scrubbed (c : CheckCount) : CheckCount where
  check := c.check.scrub
  count := c.count

theorem toJson_scrubbed (c : CheckCount) : c.toJson.scrubbed = c.scrubbed.toJson := by
  simp only [toJson, scrubbed, JsonValue.scrubbed, scrubbedFields, Bytes.scrub_ofString,
    JsonValue.int]

/-- The fields of a count. -/
def slots : List (Slot CheckCount) :=
  [("check", fun r v => (v.textOver r.check).map fun x => { r with check := x }),
   ("count", fun r v => (v.countOver r.count).map fun x => { r with count := x })]

/-- The count that a value describes. -/
def ofJson? (v : JsonValue) : Option CheckCount := v.recordOver slots ⟨[], 0⟩

theorem fits_toJson (limit : Nat) (c : CheckCount) : Fits (limit + 1) c.toJson := by
  refine .object ?_
  simp only [List.forall_mem_cons]
  exact ⟨.string _ _, .int _ _, by simp⟩

theorem ofJson?_toJson {c : CheckCount} (h : c.count < 2 ^ 63) :
    ofJson? c.toJson.scrubbed = some c.scrubbed := by
  have hint : (JsonValue.int c.count).scrubbed = JsonValue.int c.count := rfl
  simp only [ofJson?, toJson, JsonValue.scrubbed, scrubbedFields, Bytes.scrub_ofString, hint]
  rw [recordOver_cons rfl rfl, recordOver_cons rfl (congrArg _ (countOver_int h _)),
    recordOver_nil, scrubbed]

end CheckCount

namespace FileRecord

/-- The record with stray bytes replaced. -/
def scrubbed (r : FileRecord) : FileRecord where
  name := r.name.scrub
  path := r.path.scrub
  valid := r.valid
  filesTouched := r.filesTouched
  added := r.added
  deleted := r.deleted
  issues := r.issues.map IssueRecord.scrubbed

theorem toJson_scrubbed (r : FileRecord) : r.toJson.scrubbed = r.scrubbed.toJson := by
  have hissues := scrubbedItems_map fun i (_ : i ∈ r.issues) => i.toJson_scrubbed
  simp only [toJson, scrubbed, JsonValue.scrubbed, scrubbedFields, Bytes.scrub_ofString, hissues,
    JsonValue.int]

/-- The fields of a file. -/
def slots : List (Slot FileRecord) :=
  [("name", fun r v => (v.textOver r.name).map fun x => { r with name := x }),
   ("path", fun r v => (v.textOver r.path).map fun x => { r with path := x }),
   ("valid", fun r v => (v.flagOver r.valid).map fun x => { r with valid := x }),
   ("files_touched",
      fun r v => (v.wordOver r.filesTouched).map fun x => { r with filesTouched := x }),
   ("added", fun r v => (v.wordOver r.added).map fun x => { r with added := x }),
   ("deleted", fun r v => (v.wordOver r.deleted).map fun x => { r with deleted := x }),
   ("issues", fun r v => (v.listOf IssueRecord.ofJson?).map fun x => { r with issues := x })]

/-- The file that a value describes. -/
def ofJson? (v : JsonValue) : Option FileRecord := v.recordOver slots ⟨[], [], false, 0, 0, 0, []⟩

/-- A file whose numbers are words of 64 bits. -/
structure InWords (r : FileRecord) : Prop where
  filesTouched : -2 ^ 63 ≤ r.filesTouched ∧ r.filesTouched < 2 ^ 63
  added : -2 ^ 63 ≤ r.added ∧ r.added < 2 ^ 63
  deleted : -2 ^ 63 ≤ r.deleted ∧ r.deleted < 2 ^ 63
  lines : ∀ i ∈ r.issues, -2 ^ 63 ≤ i.line ∧ i.line < 2 ^ 63

theorem fits_toJson (limit : Nat) (r : FileRecord) : Fits (limit + 3) r.toJson := by
  have hissues : ∀ x ∈ r.issues.map IssueRecord.toJson, Fits (limit + 1) x := by
    intro x hx
    obtain ⟨i, -, rfl⟩ := List.mem_map.mp hx
    exact i.fits_toJson limit
  refine .object ?_
  simp only [List.forall_mem_cons]
  exact ⟨.string _ _, .string _ _, .bool _ _, .int _ _, .int _ _, .int _ _, .array hissues, by simp⟩

theorem ofJson?_toJson {r : FileRecord} (h : r.InWords) :
    ofJson? r.toJson.scrubbed = some r.scrubbed := by
  have hint : ∀ i : Int, (JsonValue.int i).scrubbed = JsonValue.int i := fun _ => rfl
  have hissues := listOf_scrubbed fun i hi => IssueRecord.ofJson?_toJson (h.lines i hi)
  simp only [ofJson?, toJson, JsonValue.scrubbed, scrubbedFields, Bytes.scrub_ofString, hint]
  rw [recordOver_cons rfl rfl, recordOver_cons rfl rfl, recordOver_cons rfl rfl,
    recordOver_cons rfl (congrArg _ (wordOver_int h.filesTouched _)),
    recordOver_cons rfl (congrArg _ (wordOver_int h.added _)),
    recordOver_cons rfl (congrArg _ (wordOver_int h.deleted _)),
    recordOver_cons rfl (congrArg _ hissues), recordOver_nil, scrubbed]

end FileRecord

namespace SummaryRecord

/-- The record with stray bytes replaced. -/
def scrubbed (s : SummaryRecord) : SummaryRecord where
  dir := s.dir.scrub
  valid := s.valid
  total := s.total
  ok := s.ok
  result := s.result.scrub
  byCheck := s.byCheck.map CheckCount.scrubbed
  files := s.files.map FileRecord.scrubbed

theorem toJson_scrubbed (s : SummaryRecord) : s.toJson.scrubbed = s.scrubbed.toJson := by
  have hcounts := scrubbedItems_map fun c (_ : c ∈ s.byCheck) => c.toJson_scrubbed
  have hfiles := scrubbedItems_map fun r (_ : r ∈ s.files) => r.toJson_scrubbed
  simp only [toJson, scrubbed, JsonValue.scrubbed, scrubbedFields, Bytes.scrub_ofString, hcounts,
    hfiles, JsonValue.int]

/-- The fields of a summary. -/
def slots : List (Slot SummaryRecord) :=
  [("dir", fun r v => (v.textOver r.dir).map fun x => { r with dir := x }),
   ("valid", fun r v => (v.countOver r.valid).map fun x => { r with valid := x }),
   ("total", fun r v => (v.countOver r.total).map fun x => { r with total := x }),
   ("ok", fun r v => (v.flagOver r.ok).map fun x => { r with ok := x }),
   ("result", fun r v => (v.textOver r.result).map fun x => { r with result := x }),
   ("by_check", fun r v => (v.listOf CheckCount.ofJson?).map fun x => { r with byCheck := x }),
   ("files", fun r v => (v.listOf FileRecord.ofJson?).map fun x => { r with files := x })]

/-- The summary that a value describes. -/
def ofJson? (v : JsonValue) : Option SummaryRecord :=
  v.recordOver slots ⟨[], 0, 0, false, [], [], []⟩

/-- A summary whose numbers are words of 64 bits. -/
structure InWords (s : SummaryRecord) : Prop where
  valid : s.valid < 2 ^ 63
  total : s.total < 2 ^ 63
  counts : ∀ c ∈ s.byCheck, c.count < 2 ^ 63
  files : ∀ r ∈ s.files, r.InWords

theorem fits_toJson (limit : Nat) (s : SummaryRecord) : Fits (limit + 5) s.toJson := by
  have hcounts : ∀ x ∈ s.byCheck.map CheckCount.toJson, Fits (limit + 3) x := by
    intro x hx
    obtain ⟨c, -, rfl⟩ := List.mem_map.mp hx
    exact c.fits_toJson (limit + 2)
  have hfiles : ∀ x ∈ s.files.map FileRecord.toJson, Fits (limit + 3) x := by
    intro x hx
    obtain ⟨r, -, rfl⟩ := List.mem_map.mp hx
    exact r.fits_toJson limit
  refine .object ?_
  simp only [List.forall_mem_cons]
  exact ⟨.string _ _, .int _ _, .int _ _, .bool _ _, .string _ _, .array hcounts, .array hfiles,
    by simp⟩

theorem ofJson?_toJson {s : SummaryRecord} (h : s.InWords) :
    ofJson? s.toJson.scrubbed = some s.scrubbed := by
  have hint : ∀ i : Int, (JsonValue.int i).scrubbed = JsonValue.int i := fun _ => rfl
  have hcounts := listOf_scrubbed fun c hc => CheckCount.ofJson?_toJson (h.counts c hc)
  have hfiles := listOf_scrubbed fun r hr => FileRecord.ofJson?_toJson (h.files r hr)
  simp only [ofJson?, toJson, JsonValue.scrubbed, scrubbedFields, Bytes.scrub_ofString, hint]
  rw [recordOver_cons rfl rfl, recordOver_cons rfl (congrArg _ (countOver_int h.valid _)),
    recordOver_cons rfl (congrArg _ (countOver_int h.total _)), recordOver_cons rfl rfl,
    recordOver_cons rfl rfl, recordOver_cons rfl (congrArg _ hcounts),
    recordOver_cons rfl (congrArg _ hfiles), recordOver_nil, scrubbed]

end SummaryRecord

/-! ### Logs -/

/-- A place in a file. -/
structure SarifPlace where
  uri : Bytes
  startLine : Option Int
  deriving DecidableEq, Repr

/-- A result of a log with all its places. -/
structure SarifEntry where
  ruleId : Bytes
  level : Bytes
  message : Bytes
  places : List SarifPlace
  deriving DecidableEq, Repr

/-- One run of a tool. -/
structure SarifRun where
  toolName : Bytes
  toolVersion : Bytes
  rules : List SarifRule
  results : List SarifEntry
  deriving DecidableEq, Repr

/-- A log with everything that is written of it. -/
structure SarifDocument where
  version : Bytes
  schema : Bytes
  runs : List SarifRun
  deriving DecidableEq, Repr

namespace SarifPlace

/-- The place with stray bytes replaced. -/
def scrubbed (p : SarifPlace) : SarifPlace where
  uri := p.uri.scrub
  startLine := p.startLine

/-- The region of a place, which `null` takes away. -/
def regionOver (before : Option Int) : JsonValue → Option (Option Int)
  | .null => some none
  | v => (v.recordOver [("startLine", fun i v => v.wordOver i)] (before.getD 0)).map some

/-- The fields of a place. -/
def slots : List (Slot SarifPlace) :=
  [("physicalLocation", fun r v => v.recordOver
      [("artifactLocation", fun r v => v.recordOver
          [("uri", fun r v => (v.textOver r.uri).map fun x => { r with uri := x })] r),
       ("region", fun r v => (regionOver r.startLine v).map fun x => { r with startLine := x })] r)]

/-- The place that a value describes. -/
def ofJson? (v : JsonValue) : Option SarifPlace := v.recordOver slots ⟨[], none⟩

end SarifPlace

namespace SarifEntry

/-- The result with stray bytes replaced. -/
def scrubbed (e : SarifEntry) : SarifEntry where
  ruleId := e.ruleId.scrub
  level := e.level.scrub
  message := e.message.scrub
  places := e.places.map SarifPlace.scrubbed

/-- The fields of a result. -/
def slots : List (Slot SarifEntry) :=
  [("ruleId", fun r v => (v.textOver r.ruleId).map fun x => { r with ruleId := x }),
   ("level", fun r v => (v.textOver r.level).map fun x => { r with level := x }),
   ("message", fun r v => v.recordOver
      [("text", fun r v => (v.textOver r.message).map fun x => { r with message := x })] r),
   ("locations", fun r v => (v.listOf SarifPlace.ofJson?).map fun x => { r with places := x })]

/-- The result that a value describes. -/
def ofJson? (v : JsonValue) : Option SarifEntry := v.recordOver slots ⟨[], [], [], []⟩

end SarifEntry

namespace SarifRule

/-- The rule with stray bytes replaced. -/
def scrubbed (r : SarifRule) : SarifRule where
  id := r.id.scrub
  description := r.description.scrub

/-- The fields of a rule. -/
def slots : List (Slot SarifRule) :=
  [("id", fun r v => (v.textOver r.id).map fun x => { r with id := x }),
   ("shortDescription", fun r v => v.recordOver
      [("text", fun r v => (v.textOver r.description).map fun x => { r with description := x })] r)]

/-- The rule that a value describes. -/
def ofJson? (v : JsonValue) : Option SarifRule := v.recordOver slots ⟨[], []⟩

theorem fits_toJson (limit : Nat) (r : SarifRule) : Fits (limit + 2) r.toJson := by
  have htext : Fits (limit + 1) (SarifLog.messageJson r.description) := by
    refine .object ?_
    simp only [List.forall_mem_cons]
    exact ⟨.string _ _, by simp⟩
  refine .object ?_
  simp only [List.forall_mem_cons]
  exact ⟨.string _ _, htext, by simp⟩

theorem ofJson?_toJson (r : SarifRule) : ofJson? r.toJson.scrubbed = some r.scrubbed := by
  simp only [ofJson?, toJson, SarifLog.messageJson, JsonValue.scrubbed, scrubbedFields,
    Bytes.scrub_ofString]
  rw [recordOver_cons rfl rfl, recordOver_cons rfl rfl, recordOver_nil, scrubbed]

end SarifRule

namespace SarifResult

/-- The result with its only place. -/
def entry (r : SarifResult) : SarifEntry where
  ruleId := r.ruleId
  level := r.level
  message := r.message
  places := [⟨r.uri, r.startLine⟩]

theorem fits_toJson (limit : Nat) (r : SarifResult) : Fits (limit + 5) r.toJson := by
  have htext : Fits (limit + 4) (SarifLog.messageJson r.message) := by
    refine .object ?_
    simp only [List.forall_mem_cons]
    exact ⟨.string _ _, by simp⟩
  have huri : Fits (limit + 1) (.object [("uri", .string r.uri)]) := by
    refine .object ?_
    simp only [List.forall_mem_cons]
    exact ⟨.string _ _, by simp⟩
  unfold toJson
  refine .object ?_
  simp only [List.forall_mem_cons]
  refine ⟨.string _ _, .string _ _, htext, .array ?_, by simp⟩
  simp only [List.forall_mem_cons]
  refine ⟨.object ?_, by simp⟩
  simp only [List.forall_mem_cons]
  refine ⟨.object ?_, by simp⟩
  cases r.startLine with
  | none => simpa using huri
  | some line =>
    simp only [List.forall_mem_cons]
    refine ⟨huri, .object ?_, by simp⟩
    simp only [List.forall_mem_cons]
    exact ⟨.int _ _, by simp⟩

theorem ofJson?_toJson {r : SarifResult}
    (h : ∀ line, r.startLine = some line → -2 ^ 63 ≤ line ∧ line < 2 ^ 63) :
    SarifEntry.ofJson? r.toJson.scrubbed = some r.entry.scrubbed := by
  obtain ⟨ruleId, level, message, uri, startLine⟩ := r
  have hint : ∀ i : Int, (JsonValue.int i).scrubbed = JsonValue.int i := fun _ => rfl
  cases startLine with
  | none =>
    simp only [SarifEntry.ofJson?, toJson, SarifLog.messageJson, JsonValue.scrubbed, scrubbedFields,
      scrubbedItems, Bytes.scrub_ofString]
    rw [recordOver_cons rfl rfl, recordOver_cons rfl rfl, recordOver_cons rfl rfl,
      recordOver_cons rfl rfl, recordOver_nil]
    rfl
  | some line =>
    -- the region is the one number, so it is read by itself first
    have hregion : SarifPlace.regionOver none (.object [("startLine", .int line)]) =
        some (some line) := by
      show Option.map some (recordOver _ _ _) = _
      rw [recordOver_cons rfl (wordOver_int (h line rfl) _), recordOver_nil]
      rfl
    have hplace : SarifPlace.ofJson? (.object [("physicalLocation",
        .object [("artifactLocation", .object [("uri", .string uri.scrub)]),
          ("region", .object [("startLine", .int line)])])]) = some ⟨uri.scrub, some line⟩ := by
      unfold SarifPlace.ofJson?
      refine (recordOver_cons rfl ?_).trans (recordOver_nil _ _)
      rw [recordOver_cons rfl rfl, recordOver_cons rfl (congrArg _ hregion), recordOver_nil]
    simp only [SarifEntry.ofJson?, toJson, SarifLog.messageJson, JsonValue.scrubbed, scrubbedFields,
      scrubbedItems, Bytes.scrub_ofString, hint]
    rw [recordOver_cons rfl rfl, recordOver_cons rfl rfl, recordOver_cons rfl rfl,
      recordOver_cons rfl (congrArg _ (listOf_singleton hplace)), recordOver_nil]
    rfl

end SarifResult

namespace SarifRun

/-- The run with stray bytes replaced. -/
def scrubbed (r : SarifRun) : SarifRun where
  toolName := r.toolName.scrub
  toolVersion := r.toolVersion.scrub
  rules := r.rules.map SarifRule.scrubbed
  results := r.results.map SarifEntry.scrubbed

/-- The fields of a tool's description. -/
def driverSlots : List (Slot SarifRun) :=
  [("name", fun r v => (v.textOver r.toolName).map fun x => { r with toolName := x }),
   ("version", fun r v => (v.textOver r.toolVersion).map fun x => { r with toolVersion := x }),
   ("rules", fun r v => (v.listOf SarifRule.ofJson?).map fun x => { r with rules := x })]

/-- The fields of a run. -/
def slots : List (Slot SarifRun) :=
  [("tool", fun r v => v.recordOver [("driver", fun r v => v.recordOver driverSlots r)] r),
   ("results", fun r v => (v.listOf SarifEntry.ofJson?).map fun x => { r with results := x })]

/-- The run that a value describes. -/
def ofJson? (v : JsonValue) : Option SarifRun := v.recordOver slots ⟨[], [], [], []⟩

theorem ofJson?_of_parts {driver results : JsonValue} {r : SarifRun} {entries : List SarifEntry}
    (hdriver : recordOver driverSlots ⟨[], [], [], []⟩ driver = some r)
    (hresults : listOf SarifEntry.ofJson? results = some entries) :
    ofJson? (.object [("tool", .object [("driver", driver)]), ("results", results)]) =
      some { r with results := entries } := by
  have htool : recordOver [("driver", fun r v => v.recordOver driverSlots r)]
      (⟨[], [], [], []⟩ : SarifRun) (.object [("driver", driver)]) = some r := by
    rw [recordOver_cons rfl hdriver, recordOver_nil]
  rw [ofJson?, recordOver_cons rfl htool, recordOver_cons rfl (congrArg _ hresults), recordOver_nil]

end SarifRun

namespace SarifDocument

/-- The log with stray bytes replaced. -/
def scrubbed (d : SarifDocument) : SarifDocument where
  version := d.version.scrub
  schema := d.schema.scrub
  runs := d.runs.map SarifRun.scrubbed

/-- The fields of a log. -/
def slots : List (Slot SarifDocument) :=
  [("version", fun r v => (v.textOver r.version).map fun x => { r with version := x }),
   ("$schema", fun r v => (v.textOver r.schema).map fun x => { r with schema := x }),
   ("runs", fun r v => (v.listOf SarifRun.ofJson?).map fun x => { r with runs := x })]

/-- The log that a value describes. -/
def ofJson? (v : JsonValue) : Option SarifDocument := v.recordOver slots ⟨[], [], []⟩

end SarifDocument

namespace SarifLog

/-- The log of one run of the program, with its fixed parts. -/
def document (l : SarifLog) : SarifDocument where
  version := "2.1.0"
  schema := "https://schemastore.azurewebsites.net/schemas/json/sarif-2.1.0-rtm.5.json"
  runs := [⟨"patchlint", l.toolVersion, l.rules, l.results.map SarifResult.entry⟩]

theorem fits_toJson (limit : Nat) (l : SarifLog) : Fits (limit + 9) l.toJson := by
  have hrules : ∀ x ∈ l.rules.map SarifRule.toJson, Fits (limit + 3) x := by
    intro x hx
    obtain ⟨r, -, rfl⟩ := List.mem_map.mp hx
    exact r.fits_toJson (limit + 1)
  have hresults : ∀ x ∈ l.results.map SarifResult.toJson, Fits (limit + 5) x := by
    intro x hx
    obtain ⟨r, -, rfl⟩ := List.mem_map.mp hx
    exact r.fits_toJson limit
  unfold toJson
  refine .object ?_
  simp only [List.forall_mem_cons]
  refine ⟨.string _ _, .string _ _, .array ?_, by simp⟩
  simp only [List.forall_mem_cons]
  refine ⟨.object ?_, by simp⟩
  simp only [List.forall_mem_cons]
  refine ⟨.object ?_, .array hresults, by simp⟩
  simp only [List.forall_mem_cons]
  refine ⟨.object ?_, by simp⟩
  split_ifs
  · simp only [List.append_nil, List.forall_mem_cons]
    exact ⟨.string _ _, .string _ _, by simp⟩
  · simp only [List.cons_append, List.nil_append, List.forall_mem_cons]
    exact ⟨.string _ _, .string _ _, .array hrules, by simp⟩

/-- The description of the tool, with its rules or, if there are none, without. -/
theorem recordOver_driver (l : SarifLog) :
    recordOver SarifRun.driverSlots ⟨[], [], [], []⟩
      (JsonValue.scrubbed (.object ([(Bytes.ofString "name", .string "patchlint"),
        (Bytes.ofString "version", .string l.toolVersion)] ++
        if l.rules.isEmpty then []
        else [(Bytes.ofString "rules", .array (l.rules.map SarifRule.toJson))]))) =
      some ⟨"patchlint", l.toolVersion.scrub, l.rules.map SarifRule.scrubbed, []⟩ := by
  have hrules := listOf_scrubbed fun r (_ : r ∈ l.rules) => r.ofJson?_toJson
  cases hempty : l.rules with
  | nil =>
    simp only [List.isEmpty_nil, if_true, List.append_nil, JsonValue.scrubbed, scrubbedFields,
      Bytes.scrub_ofString]
    rw [recordOver_cons rfl rfl, recordOver_cons rfl rfl, recordOver_nil]
    rfl
  | cons r rules =>
    rw [hempty] at hrules
    simp only [List.isEmpty_cons, Bool.false_eq_true, if_false, List.cons_append, List.nil_append,
      JsonValue.scrubbed, scrubbedFields, Bytes.scrub_ofString]
    rw [recordOver_cons rfl rfl, recordOver_cons rfl rfl, recordOver_cons rfl (congrArg _ hrules),
      recordOver_nil]

theorem ofJson?_toJson {l : SarifLog}
    (h : ∀ r ∈ l.results, ∀ line, r.startLine = some line → -2 ^ 63 ≤ line ∧ line < 2 ^ 63) :
    SarifDocument.ofJson? l.toJson.scrubbed = some l.document.scrubbed := by
  have hdriver := l.recordOver_driver
  have hresults := listOf_scrubbed fun r hr => SarifResult.ofJson?_toJson (h r hr)
  simp only [SarifDocument.ofJson?, toJson, JsonValue.scrubbed, scrubbedFields, scrubbedItems,
    Bytes.scrub_ofString] at hdriver ⊢
  have hruns := listOf_singleton (SarifRun.ofJson?_of_parts hdriver hresults)
  rw [recordOver_cons rfl rfl, recordOver_cons rfl rfl, recordOver_cons rfl (congrArg _ hruns),
    recordOver_nil]
  simp only [document, SarifDocument.scrubbed, SarifRun.scrubbed, List.map_cons, List.map_nil,
    List.map_map, Bytes.scrub_ofString]
  rfl

end SarifLog

/-! ### Summaries -/

namespace Summary

/-- A summary whose numbers are words of 64 bits. -/
structure InWords (s : Summary) : Prop where
  lines : ∀ i ∈ s.issues, -2 ^ 63 ≤ i.line ∧ i.line < 2 ^ 63
  files : ∀ r ∈ s.reports, -2 ^ 63 ≤ r.stats.files ∧ r.stats.files < 2 ^ 63
  added : ∀ r ∈ s.reports, -2 ^ 63 ≤ r.stats.added ∧ r.stats.added < 2 ^ 63
  deleted : ∀ r ∈ s.reports, -2 ^ 63 ≤ r.stats.deleted ∧ r.stats.deleted < 2 ^ 63
  reports : s.totalCount < 2 ^ 63
  issues : s.issueCount < 2 ^ 63

theorem sum_tally (name : Bytes) (counts : List CheckCount) :
    ((tally name counts).map CheckCount.count).sum = (counts.map CheckCount.count).sum + 1 := by
  induction counts with
  | nil => rfl
  | cons c counts ih =>
    rw [tally]
    split_ifs
    · simp only [List.map_cons, List.sum_cons]
      omega
    · simp only [List.map_cons, List.sum_cons]
      omega
    · simp only [List.map_cons, List.sum_cons, ih]
      omega

/-- The counts per check add up to the number of issues. -/
theorem sum_byCheck (s : Summary) : (s.byCheck.map CheckCount.count).sum = s.issueCount := by
  have hfold : ∀ (issues : List Issue) (counts : List CheckCount),
      ((issues.foldl (fun acc i => tally i.checkName acc) counts).map CheckCount.count).sum =
        (counts.map CheckCount.count).sum + issues.length := by
    intro issues
    induction issues with
    | nil => exact fun counts => rfl
    | cons i issues ih =>
      intro counts
      rw [List.foldl_cons, ih, sum_tally, List.length_cons]
      omega
  exact (hfold s.issues []).trans (Nat.zero_add _)

theorem InWords.record {s : Summary} (h : s.InWords) : s.record.InWords where
  valid := lt_of_le_of_lt List.countP_le_length h.reports
  total := h.reports
  counts := by
    intro c hc
    have hle := List.le_sum_of_mem (List.mem_map_of_mem (f := CheckCount.count) hc)
    have hsum := s.sum_byCheck
    have hissues := h.issues
    simp only [Summary.record] at hle
    omega
  files := by
    intro file hfile
    obtain ⟨r, hr, rfl⟩ := List.mem_map.mp hfile
    refine ⟨h.files r hr, h.added r hr, h.deleted r hr, fun x hx => ?_⟩
    obtain ⟨i, hi, rfl⟩ := List.mem_map.mp hx
    exact h.lines i (List.mem_flatMap.mpr ⟨r, hr, hi⟩)

theorem InWords.startLine {s : Summary} (h : s.InWords) (toolVersion : Bytes) :
    ∀ r ∈ (SarifLog.ofSummary toolVersion s).results, ∀ line, r.startLine = some line →
      -2 ^ 63 ≤ line ∧ line < 2 ^ 63 := by
  intro result hresult line hline
  obtain ⟨r, hr, hmem⟩ := List.mem_flatMap.mp hresult
  obtain ⟨i, hi, rfl⟩ := List.mem_map.mp hmem
  have hi := h.lines i (List.mem_flatMap.mpr ⟨r, hr, hi⟩)
  simp only [SarifLog.resultOf] at hline
  split_ifs at hline
  cases hline
  exact hi

end Summary

/-- The results of a log that is read back: one for each issue, in the order of the issues. -/
theorem SarifLog.results_document (toolVersion : Bytes) (s : Summary) :
    ((SarifLog.ofSummary toolVersion s).document.scrubbed.runs.flatMap SarifRun.results).map
        (fun e => (e.ruleId, e.message)) =
      s.issues.map fun i => (i.kind.word, i.message.scrub) := by
  have hword : ∀ k : IssueKind, k.word.scrub = k.word := by
    intro k
    unfold IssueKind.word
    split_ifs <;> exact Bytes.scrub_ofString _
  simp only [SarifLog.ofSummary, SarifLog.document, SarifDocument.scrubbed, SarifRun.scrubbed,
    List.map_cons, List.map_nil, List.flatMap_cons, List.flatMap_nil, List.append_nil, List.map_map,
    List.map_flatMap, Summary.issues]
  refine List.flatMap_congr fun r _ => List.map_congr_left fun i _ => ?_
  show (i.kind.word.scrub, i.message.scrub) = _
  rw [hword]

/-- **Reports that are written as JSON or as a log are read back**: the text is one value and a line
end, and the record read from it is the one that was written, with stray bytes replaced, in whichever
of the two ways they are spelled.  A log has one result for each issue, in order. -/
theorem written_reports_read_back (style : Format.Style) (s : Summary) (h : s.InWords) :
    (∃ v, first? (Format.render style s .json) = some (v, ['\n']) ∧
        whole? (Format.render style s .json) = some v ∧
        SummaryRecord.ofJson? v = some s.record.scrubbed) ∧
      ∃ v log, first? (Format.render style s .sarif) = some (v, ['\n']) ∧
        whole? (Format.render style s .sarif) = some v ∧
        SarifDocument.ofJson? v = some log ∧
        log = (SarifLog.ofSummary style.toolVersion s).document.scrubbed ∧
        (log.runs.flatMap SarifRun.results).map (fun e => (e.ruleId, e.message)) =
          s.issues.map fun i => (i.kind.word, i.message.scrub) := by
  have hsummary : Fits mostNested s.record.toJson := s.record.fits_toJson 9995
  have hlog : Fits mostNested (SarifLog.ofSummary style.toolVersion s).toJson :=
    (SarifLog.ofSummary style.toolVersion s).fits_toJson 9991
  refine ⟨⟨_, first?_document _ _ hsummary, whole?_document _ _ hsummary,
      SummaryRecord.ofJson?_toJson h.record⟩,
    ⟨_, _, first?_document _ _ hlog, whole?_document _ _ hlog,
      SarifLog.ofJson?_toJson (h.startLine style.toolVersion), rfl, ?_⟩⟩
  exact SarifLog.results_document style.toolVersion s

/-- A summary with stray bytes in three places. -/
def straySummary : Summary where
  dir := [0x64, 0xFF]
  reports :=
    [{ path := "p/a.patch"
       name := [0x61, 0xC3]
       issues := [⟨[], .shape, 7, Bytes.ofString "<b> \"" ++ [0x80], .error⟩,
         ⟨"braces", .braces, 0, "& \\", .warning⟩]
       stats := { files := 1, added := -3 } }]

theorem straySummary_inWords : straySummary.InWords where
  lines := by
    intro i hi
    rcases List.mem_cons.mp hi with rfl | hi
    · decide
    · rw [List.mem_singleton.mp hi]
      decide
  files := by
    intro r hr
    rw [List.mem_singleton.mp hr]
    decide
  added := by
    intro r hr
    rw [List.mem_singleton.mp hr]
    decide
  deleted := by
    intro r hr
    rw [List.mem_singleton.mp hr]
    decide
  reports := by decide
  issues := by decide

theorem written_reports_read_back_stray : straySummary.InWords ∧
    (∃ v, whole? (Format.render {} straySummary .json) = some v ∧
      SummaryRecord.ofJson? v = some straySummary.record.scrubbed) ∧
    ∃ v log, whole? (Format.render {} straySummary .sarif) = some v ∧
      SarifDocument.ofJson? v = some log ∧
      (log.runs.flatMap SarifRun.results).map (fun e => (e.ruleId, e.message)) =
        [(Bytes.ofString "structure", Bytes.ofString "<b> \"\uFFFD"),
          (Bytes.ofString "braces", Bytes.ofString "& \\")] := by
  obtain ⟨⟨v, -, hjson, hsummary⟩, ⟨w, log, -, hsarif, hlog, -, hresults⟩⟩ :=
    written_reports_read_back {} straySummary straySummary_inWords
  refine ⟨straySummary_inWords, ⟨v, hjson, hsummary⟩, ⟨w, log, hsarif, hlog, hresults.trans ?_⟩⟩
  decide +kernel

end PatchAudit
