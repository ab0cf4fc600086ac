import Mathlib.Data.List.Basic
import Mathlib.Data.List.Induction
import Mathlib.Logic.Function.Basic
import PatchAudit.Proofs.SoundStore
import PatchAudit.Proofs.StoreFolder

/-!
# A store is a map

Over calls of a store, in any order: what is found under a key is what was stored there last, if
nothing was cleared since (`store_answers_as_map`).  The files of the store mirror a map from keys to
reports, and each call does to the files what it does to the map (`Mirrors.call`).
-/

namespace PatchAudit

/-- A call of a store. -/
inductive StoreCall where
  | put (key : StoreKey) (r : FileReport)
  | get (key : StoreKey) (target : FileReport)
  | clear
  deriving DecidableEq, Repr

/-! ### Sizes -/

/-- An issue with texts of less than 2 ^ 32 bytes and a line of 64 bits.  Its codes may be any
numbers. -/
structure Issue.Sized (i : Issue) : Prop where
  check : i.check.length < 2 ^ 32
  line : -2 ^ 63 ≤ i.line ∧ i.line < 2 ^ 63
  message : i.message.length < 2 ^ 32

/-- A report with less than 2 ^ 32 such issues and totals of 64 bits. -/
structure FileReport.Sized (r : FileReport) : Prop where
  issues : ∀ i ∈ r.issues, i.Sized
  count : r.issues.length < 2 ^ 32
  files : -2 ^ 63 ≤ r.stats.files ∧ r.stats.files < 2 ^ 63
  added : -2 ^ 63 ≤ r.stats.added ∧ r.stats.added < 2 ^ 63
  deleted : -2 ^ 63 ≤ r.stats.deleted ∧ r.stats.deleted < 2 ^ 63

/-- The length of a digest. -/
def StoreKey.IsDigest (key : StoreKey) : Prop := key.bytes.length = 32

/-- A call with a key of the right length and with a report of such a size, if it has any. -/
def StoreCall.Sized : StoreCall → Prop
  | .put key r => key.IsDigest ∧ r.Sized
  | .get key _ => key.IsDigest
  | .clear => True

/-- An issue with its codes reduced to bytes. -/
def Issue.narrowed (i : Issue) : Issue :=
  { i with kind := ⟨i.kind.code % 256⟩, severity := ⟨i.severity.code % 256⟩ }

theorem Issue.narrowed_eq_self {i : Issue} (hkind : 0 ≤ i.kind.code ∧ i.kind.code < 256)
    (hseverity : 0 ≤ i.severity.code ∧ i.severity.code < 256) : i.narrowed = i := by
  rw [narrowed, Int.emod_eq_of_lt hkind.1 hkind.2, Int.emod_eq_of_lt hseverity.1 hseverity.2]

theorem StoredIssue.toIssue_ofIssue (i : Issue) : (ofIssue i).toIssue = i.narrowed := by
  have hbyte : ∀ code : Int, ((code % 256).toNat : Int) = code % 256 := fun code => by omega
  rw [toIssue, ofIssue, Issue.narrowed, hbyte, hbyte]

/-- What comes back from the stored form of a report. -/
theorem StoredReport.into_ofReport (r target : FileReport) :
    (ofReport r).into target =
      { target with issues := r.issues.map Issue.narrowed, stats := r.stats } := by
  simp only [into, ofReport, List.map_map]
  congr 1
  exact List.map_congr_left fun i _ => StoredIssue.toIssue_ofIssue i

theorem FileReport.Sized.fits {r : FileReport} (h : r.Sized) : (StoredReport.ofReport r).Fits := by
  have hversion : storeVersion < 65536 := by decide
  refine ⟨hversion, fun i hi => ?_, h.files, h.added, h.deleted⟩
  obtain ⟨issue, hissue, rfl⟩ := List.mem_map.mp hi
  have hsized := h.issues issue hissue
  have hkind : (issue.kind.code % 256).toNat < 256 := by omega
  have hseverity : (issue.severity.code % 256).toNat < 256 := by omega
  exact ⟨hsized.check, hkind, hsized.line, hsized.message, hseverity⟩

theorem FileReport.Sized.decode {r : FileReport} (h : r.Sized) :
    StoredReport.decode? (StoredReport.ofReport r).encode = some (StoredReport.ofReport r) :=
  StoredReport.decode_encode h.fits (by simpa [StoredReport.ofReport] using h.count)

/-! ### Calls and the map -/

namespace StoreCall

/-- A report was stored under a key, and only calls with a property came after that. -/
def Since (p : StoreCall → Prop) (key : StoreKey) (r : FileReport) (calls : List StoreCall) : Prop :=
  ∃ before after, calls = before ++ .put key r :: after ∧ ∀ c ∈ after, p c

/-- The report that was stored under a key last, with nothing cleared since. -/
def Latest (key : StoreKey) (r : FileReport) (calls : List StoreCall) : Prop :=
  Since (fun c => c ≠ .clear ∧ ∀ r', c ≠ .put key r') key r calls

theorem since_concat {p : StoreCall → Prop} {key : StoreKey} {r : FileReport}
    {calls : List StoreCall} {c : StoreCall} :
    Since p key r (calls ++ [c]) ↔ c = .put key r ∨ p c ∧ Since p key r calls := by
  constructor
  · rintro ⟨before, after, heq, hafter⟩
    rcases List.eq_nil_or_concat after with rfl | ⟨init, last, rfl⟩
    · have hlast := (List.append_inj' heq rfl).2
      exact .inl (by simpa using hlast)
    · rw [List.concat_eq_append, ← List.cons_append, ← List.append_assoc] at heq
      obtain ⟨hinit, hlast⟩ := List.append_inj' heq rfl
      obtain rfl : c = last := by simpa using hlast
      refine .inr ⟨hafter c (by simp), before, init, hinit, fun x hx => hafter x ?_⟩
      rw [List.concat_eq_append]
      exact List.mem_append_left _ hx
  · rintro (rfl | ⟨hc, before, after, rfl, hafter⟩)
    · exact ⟨calls, [], rfl, by simp⟩
    · refine ⟨before, after ++ [c], by simp, fun x hx => ?_⟩
      rcases List.mem_append.mp hx with hx | hx
      · exact hafter x hx
      · rwa [List.mem_singleton.mp hx]

/-- What a call does to a map from keys to reports. -/
def applyTo (held : StoreKey → Option FileReport) : StoreCall → StoreKey → Option FileReport
  | .put key r => Function.update held key (some r)
  | .get _ _ => held
  | .clear => fun _ => none

/-- The map holds the report that was stored last. -/
theorem foldl_applyTo {calls : List StoreCall} {key : StoreKey} {r : FileReport} :
    calls.foldl applyTo (fun _ => none) key = some r ↔ Latest key r calls := by
  induction calls using List.reverseRecOn with
  | nil => simp [Latest, Since]
  | append_singleton calls c ih =>
    rw [List.foldl_append, List.foldl_cons, List.foldl_nil, Latest, since_concat, ← Latest, ← ih]
    cases c with
    | put key' r' =>
      by_cases hkey : key = key'
      · subst hkey
        simp [applyTo]
      · simp [applyTo, Function.update_of_ne hkey, Ne.symm hkey]
    | get key' target => simp [applyTo]
    | clear => simp [applyTo]

/-- Something is stored last if anything is stored after the last clearing. -/
theorem exists_latest_iff {calls : List StoreCall} {key : StoreKey} :
    (∃ r, Latest key r calls) ↔ ∃ r, Since (· ≠ .clear) key r calls := by
  constructor
  · rintro ⟨r, before, after, heq, hafter⟩
    exact ⟨r, before, after, heq, fun c hc => (hafter c hc).1⟩
  · induction calls using List.reverseRecOn with
    | nil => simp [Since]
    | append_singleton calls c ih =>
      rintro ⟨r, hsince⟩
      rcases since_concat.mp hsince with rfl | ⟨hc, hsince⟩
      · exact ⟨r, since_concat.mpr (.inl rfl)⟩
      · by_cases hput : ∃ r', c = .put key r'
        · obtain ⟨r', rfl⟩ := hput
          exact ⟨r', since_concat.mpr (.inl rfl)⟩
        · obtain ⟨r', hlatest⟩ := ih ⟨r, hsince⟩
          exact ⟨r', since_concat.mpr (.inr ⟨⟨hc, not_exists.mp hput⟩, hlatest⟩)⟩

end StoreCall

namespace Store

/-- The disk after a call. -/
def call (s : Store) (d : Disk) : StoreCall → Disk
  | .put key r => (s.put d key r).1
  | .get _ _ => d
  | .clear => (s.clear d).1

/-- The disk after calls. -/
def after (s : Store) (d : Disk) (calls : List StoreCall) : Disk := calls.foldl s.call d

/-- What is left in the place of a report that was to be filled. -/
def fill (s : Store) (d : Disk) (key : StoreKey) (target : FileReport) : FileReport :=
  match s.get d key target with
  | .ok (some found) => found
  | _ => target

/-! ### Files that mirror a map -/

/-- The files of the store are those of a map from keys to reports, and the first temporary file is
free. -/
structure Mirrors (s : Store) (d : Disk) (home : Place) (held : StoreKey → Option FileReport) : Prop
    extends s.Healthy d home where
  files : ∀ p, d.FolderAt s.reportsPath p → ∀ key, StoreKey.IsDigest key →
    d.entry? (p ++ [key.fileName]) = (held key).map fun r => .file (StoredReport.ofReport r).encode
  free : ∀ p, d.FolderAt s.reportsPath p → d.entry? (p ++ [tempName 0]) = none
  missing : d.entry? (reportsPlace home) = none → ∀ key, held key = none

namespace Mirrors

variable {s : Store} {d : Disk} {home : Place} {held : StoreKey → Option FileReport}

theorem fits_fileName (h : s.Mirrors d home held) {key : StoreKey} (hkey : key.IsDigest) :
    s.Fits key.fileName := by
  refine h.fits ?_ ?_
  · have hend : (".mp" : Bytes).length = 3 := by decide
    rw [StoreKey.fileName, List.length_append, hend, StoreKey.hex, Bytes.length_toHex, hkey]
  · intro hzero
    rcases List.mem_append.mp hzero with hzero | hzero
    · exact absurd (Bytes.mem_toHex hzero) (by decide)
    · revert hzero
      decide

theorem put (h : s.Mirrors d home held) {key : StoreKey} (hkey : key.IsDigest) (r : FileReport) :
    (s.put d key r).2 = .ok () ∧
      s.Mirrors (s.put d key r).1 home (Function.update held key (some r)) := by
  have hold : ∀ p, d.FolderAt s.reportsPath p → d.entry? (p ++ [key.fileName]) = none ∨
      ∃ data, d.entry? (p ++ [key.fileName]) = some (.file data) := by
    intro p hat
    rw [h.files p hat key hkey]
    cases held key <;> simp
  obtain ⟨hok, hhealthy, p, hat, hfile, hothers⟩ :=
    h.put_eq (h.fits_fileName hkey) h.free hold r
  have hsame : ∀ q, (s.put d key r).1.FolderAt s.reportsPath q → q = p := fun q hq =>
    Disk.Walk.arrived.inj (hq.arrives.symm.trans hat.arrives)
  refine ⟨hok, hhealthy, fun q hq key' hkey' => ?_, fun q hq => ?_, fun hplace => ?_⟩
  · rw [hsame q hq]
    by_cases heq : key' = key
    · rw [heq, hfile, Function.update_self]
      rfl
    · have hname : key'.fileName ≠ key.fileName := fun hname =>
        heq (StoreKey.fileName_injective hname)
      rw [Function.update_of_ne heq]
      rcases hothers with ⟨hbefore, hothers⟩ | ⟨hplace, hothers⟩
      · rw [hothers _ hname, h.files p hbefore key' hkey']
      · rw [hothers _ hname, h.missing hplace]
        rfl
  · rw [hsame q hq]
    rcases hothers with ⟨hbefore, hothers⟩ | ⟨-, hothers⟩
    · rw [hothers _ (tempName_ne_fileName 0 key), h.free p hbefore]
    · exact hothers _ (tempName_ne_fileName 0 key)
  · exact absurd hplace (hhealthy.entry_ne_none hat)

theorem clear (h : s.Mirrors d home held) :
    (s.clear d).2 = .ok () ∧ s.Mirrors (s.clear d).1 home (fun _ => none) := by
  obtain ⟨d', hclear, hhealthy, hgone⟩ := h.clear_eq
  rw [hclear]
  exact ⟨rfl, hhealthy, fun p hat => absurd hgone (hhealthy.entry_ne_none hat),
    fun p hat => absurd hgone (hhealthy.entry_ne_none hat), fun _ _ => rfl⟩

/-- **One call** does to the files what it does to the map. -/
theorem call (h : s.Mirrors d home held) {c : StoreCall} (hc : c.Sized) :
    s.Mirrors (s.call d c) home (c.applyTo held) := by
  cases c with
  | put key r => exact (h.put hc.1 r).2
  | get key target => exact h
  | clear => exact h.clear.2

/-- All calls. -/
theorem after (h : s.Mirrors d home held) {calls : List StoreCall} (hcalls : ∀ c ∈ calls, c.Sized) :
    s.Mirrors (s.after d calls) home (calls.foldl StoreCall.applyTo held) := by
  induction calls generalizing d held with
  | nil => exact h
  | cons c rest ih =>
    exact ih (h.call (hcalls c List.mem_cons_self)) fun x hx => hcalls x (List.mem_cons_of_mem _ hx)

/-- The file of a key holds the report of the map, or there is no such file. -/
theorem fileData_eq (h : s.Mirrors d home held) {key : StoreKey} (hkey : key.IsDigest) :
    d.fileData (s.entryPath key) =
      match held key with
      | some r => .ok (StoredReport.ofReport r).encode
      | none => .error ⟨"open", s.entryPath key, .missing⟩ := by
  have hname := key.fileName_isName
  have hfits := h.fits_fileName hkey
  unfold Disk.fileData Disk.stat Disk.locate
  rw [entryPath_eq]
  rcases h.place with hplace | ⟨p, hat⟩
  · rw [h.walk_missing hplace hname hfits, h.missing hplace]
    rfl
  · have hfile := h.files p hat key hkey
    have hlink : ∀ target, d.entry? (p ++ [key.fileName]) ≠ some (.link target) := by
      intro target
      rw [hfile]
      cases held key <;> simp
    rw [walk_name hat hname hfits true fun _ => hlink]
    cases hheld : held key with
    | none =>
      rw [hheld, Option.map_none] at hfile
      rw [if_pos hfile]
      rfl
    | some r =>
      rw [hheld, Option.map_some] at hfile
      rw [if_neg (by simp [hfile])]
      simp [Bind.bind, Except.bind, Pure.pure, Except.pure, hfile]

/-- The report of the map is found. -/
theorem get_eq (h : s.Mirrors d home held) {key : StoreKey} (hkey : key.IsDigest)
    (hsized : ∀ r, held key = some r → r.Sized) (target : FileReport) :
    s.get d key target = .ok ((held key).map fun r =>
      { target with issues := r.issues.map Issue.narrowed, stats := r.stats }) := by
  rw [Store.get, h.fileData_eq hkey]
  cases hheld : held key with
  | none => rfl
  | some r =>
    have hversion : (StoredReport.ofReport r).version = storeVersion := rfl
    simp only [(hsized r hheld).decode, hversion, if_true, StoredReport.into_ofReport,
      Option.map_some]

end Mirrors

/-- A healthy disk without reports, on which the first temporary file is free. -/
structure Ready (s : Store) (d : Disk) (home : Place) : Prop extends s.Healthy d home where
  empty : ∀ p, d.FolderAt s.reportsPath p → ∀ key, StoreKey.IsDigest key →
    d.entry? (p ++ [key.fileName]) = none
  free : ∀ p, d.FolderAt s.reportsPath p → d.entry? (p ++ [tempName 0]) = none

theorem Ready.mirrors {s : Store} {d : Disk} {home : Place} (h : s.Ready d home) :
    s.Mirrors d home fun _ => none :=
  ⟨h.toHealthy, h.empty, h.free, fun _ _ => rfl⟩

/-! ### What is left of a report that was to be filled -/

/-- The path and the name stay. -/
theorem fill_same (s : Store) (d : Disk) (key : StoreKey) (target : FileReport) :
    (s.fill d key target).path = target.path ∧ (s.fill d key target).name = target.name := by
  unfold fill
  cases hget : s.get d key target with
  | error why => exact ⟨rfl, rfl⟩
  | ok found =>
    cases found with
    | none => exact ⟨rfl, rfl⟩
    | some found =>
      obtain ⟨stored, -, rfl⟩ := get_eq_some hget
      exact ⟨rfl, rfl⟩

/-- If nothing was found, then all of it stays. -/
theorem fill_of_not_found {s : Store} {d : Disk} {key : StoreKey} {target : FileReport}
    (h : ∀ found, s.get d key target ≠ .ok (some found)) : s.fill d key target = target := by
  unfold fill
  split
  · rename_i found hget
    exact absurd hget (h found)
  · rfl

theorem get_of_undecodable {s : Store} {d : Disk} {key : StoreKey} {data : Bytes}
    (hdata : d.fileData (s.entryPath key) = .ok data) (hdecode : StoredReport.decode? data = none)
    (target : FileReport) : s.get d key target = .error (.undecodable key) := by
  rw [get, hdata]
  simp only [hdecode]

end Store

/-- **A store is a map.**  On a healthy disk without reports, after any calls: storing and clearing
succeed; something is found under a key if and only if a report was stored there after the last
clearing; then the stored form of the latest such report stands in the file of the key, and its
issues, with their codes reduced to bytes, and its totals are found; and else nothing is found.
Codes from 0 to 255 stay as they are.  On every disk the report that is to be filled keeps its path
and its name, and all of it stays if nothing is found or if the file of the key cannot be decoded. -/
theorem store_answers_as_map {s : Store} {d : Disk} {home : Place} (hready : s.Ready d home)
    (calls : List StoreCall) (hcalls : ∀ c ∈ calls, c.Sized) :
    let now := s.after d calls
    (∀ key r, StoreKey.IsDigest key → (s.put now key r).2 = .ok ()) ∧
    (s.clear now).2 = .ok () ∧
    (∀ key target, StoreKey.IsDigest key →
      ((∃ found, s.get now key target = .ok (some found)) ↔
        ∃ r, StoreCall.Since (· ≠ .clear) key r calls) ∧
      (∀ r, StoreCall.Latest key r calls →
        now.fileData (s.entryPath key) = .ok (StoredReport.ofReport r).encode ∧
        s.get now key target =
          .ok (some { target with issues := r.issues.map Issue.narrowed, stats := r.stats })) ∧
      ((¬ ∃ r, StoreCall.Since (· ≠ .clear) key r calls) → s.get now key target = .ok none)) ∧
    (∀ i : Issue, 0 ≤ i.kind.code ∧ i.kind.code < 256 →
      0 ≤ i.severity.code ∧ i.severity.code < 256 → i.narrowed = i) ∧
    ∀ (disk : Disk) (key : StoreKey) (target : FileReport),
      ((s.fill disk key target).path = target.path ∧ (s.fill disk key target).name = target.name) ∧
      ((∀ found, s.get disk key target ≠ .ok (some found)) → s.fill disk key target = target) ∧
      ∀ data, disk.fileData (s.entryPath key) = .ok data → StoredReport.decode? data = none →
        s.get disk key target = .error (.undecodable key) := by
  intro now
  have hnow : s.Mirrors now home (calls.foldl StoreCall.applyTo fun _ => none) :=
    hready.mirrors.after hcalls
  refine ⟨fun key r hkey => (hnow.put hkey r).1, hnow.clear.1, fun key target hkey => ?_,
    fun i hkind hseverity => Issue.narrowed_eq_self hkind hseverity, fun disk key target =>
      ⟨s.fill_same disk key target, Store.fill_of_not_found, fun data hdata hdecode =>
        Store.get_of_undecodable hdata hdecode target⟩⟩
  have hget := hnow.get_eq hkey (fun r hheld => ?_) target
  · rw [← StoreCall.exists_latest_iff]
    refine ⟨?_, fun r hlatest => ⟨?_, ?_⟩, fun hnone => ?_⟩
    · simp only [hget, Except.ok.injEq, Option.map_eq_some_iff, StoreCall.foldl_applyTo]
      exact ⟨fun ⟨_, r, hr, _⟩ => ⟨r, hr⟩, fun ⟨r, hr⟩ => ⟨_, r, hr, rfl⟩⟩
    · rw [hnow.fileData_eq hkey, StoreCall.foldl_applyTo.mpr hlatest]
    · rw [hget, StoreCall.foldl_applyTo.mpr hlatest]
      rfl
    · rw [hget, Option.eq_none_iff_forall_ne_some.mpr fun r hr =>
        hnone ⟨r, StoreCall.foldl_applyTo.mp hr⟩]
      rfl
  · obtain ⟨before, later, rfl, -⟩ := StoreCall.foldl_applyTo.mp hheld
    have hput : StoreCall.Sized (.put key r) := hcalls _ (by simp)
    exact hput.2

/-- What opening a store leaves of a disk without entries. -/
def openedDisk : Disk := ⟨[([("c" : Bytes)], .folder)], []⟩

theorem openedDisk_ready : Store.Ready ⟨"c"⟩ openedDisk [("c" : Bytes)] := by
  have hhealthy : Store.Healthy ⟨"c"⟩ openedDisk [("c" : Bytes)] :=
    ⟨Disk.isTree_of_entries (by decide), ⟨by decide, by decide⟩, .inl (by decide), by decide⟩
  have hnone : openedDisk.entry? (Store.reportsPlace [("c" : Bytes)]) = none := by decide
  exact ⟨hhealthy, fun p hat => absurd hnone (hhealthy.entry_ne_none hat),
    fun p hat => absurd hnone (hhealthy.entry_ne_none hat)⟩

/-- After two reports, a clearing and two reports under the first key, the last one is found there,
its codes reduced, and nothing under the second. -/
theorem store_answers_as_map_after_clear :
    let s : Store := ⟨"c"⟩
    let key : StoreKey := ⟨List.replicate 32 7⟩
    let other : StoreKey := ⟨List.replicate 32 8⟩
    let old : FileReport := { path := "p/a", name := "a", stats := ⟨1, 200, 70000⟩ }
    let new : FileReport :=
      { path := "p/b", name := "b", issues := [⟨"braces", ⟨300⟩, -129, [0xFF], ⟨-1⟩⟩],
        stats := ⟨1, 0x100000000, -0x8000000000000000⟩ }
    let calls : List StoreCall := [.put key old, .put other old, .clear, .put key old, .put key new]
    let now := s.after openedDisk calls
    Store.openAt ⟨[], []⟩ "c" = (openedDisk, .ok s) ∧
      s.get now key old =
        .ok (some { old with
          issues := [⟨"braces", ⟨44⟩, -129, [0xFF], ⟨255⟩⟩]
          stats := ⟨1, 0x100000000, -0x8000000000000000⟩ }) ∧
      s.get now other old = .ok none := by
  intro s key other old new calls now
  have hold : old.Sized := ⟨by simp [old], by decide, by decide, by decide, by decide⟩
  have hnew : new.Sized := by
    refine ⟨fun i hi => ?_, by decide, by decide, by decide, by decide⟩
    obtain rfl := List.mem_singleton.mp hi
    exact ⟨by decide, by decide, by decide⟩
  have hcalls : ∀ c ∈ calls, c.Sized := by
    simp only [calls, List.forall_mem_cons, List.not_mem_nil, false_imp_iff, implies_true, and_true]
    exact ⟨⟨rfl, hold⟩, ⟨rfl, hold⟩, trivial, ⟨rfl, hold⟩, rfl, hnew⟩
  obtain ⟨-, -, hget, -⟩ := store_answers_as_map openedDisk_ready calls hcalls
  have hlatest : StoreCall.Latest key new calls :=
    ⟨[.put key old, .put other old, .clear, .put key old], [], rfl, by simp⟩
  have hnone : ¬ ∃ r, StoreCall.Since (· ≠ .clear) other r calls := by
    rw [← StoreCall.exists_latest_iff]
    rintro ⟨r, hr⟩
    rw [← StoreCall.foldl_applyTo] at hr
    cases hr
  exact ⟨by decide, ((hget key old rfl).2.1 new hlatest).2, (hget other old rfl).2.2 hnone⟩

end PatchAudit
