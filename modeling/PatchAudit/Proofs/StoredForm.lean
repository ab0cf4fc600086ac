import Mathlib.Data.List.Basic
import Mathlib.Tactic.IntervalCases
import Mathlib.Tactic.NormNum
import PatchAudit.Store.Entry

/-!
# Reading the stored form back

Reading undoes writing, at every width of a length and of an integer: `Reads r s a` says that the
step `r` takes the bytes `s` off the front, whatever follows them, and gives `a`.  Steps one after
the other read bytes one after the other (`Reads.bind`), so the round trip of a report
(`decode_encode`) follows the grammar of its stored form.
-/

namespace PatchAudit

namespace Bytes

theorem length_bigEndian (n v : Nat) : (bigEndian n v).length = n := by
  induction n generalizing v with
  | zero => rfl
  | succ n ih => rw [bigEndian, List.length_append, ih, List.length_singleton]

theorem bigEndianValue_snoc (s : Bytes) (b : UInt8) :
    bigEndianValue (s ++ [b]) = bigEndianValue s * 256 + b.toNat := List.foldl_concat ..

theorem bigEndianValue_bigEndian (n v : Nat) : (bigEndian n v).bigEndianValue = v % 256 ^ n := by
  induction n generalizing v with
  | zero => exact (Nat.mod_one v).symm
  | succ n ih =>
    have hlow : v.toUInt8.toNat = v % 256 := by
      rw [Nat.toUInt8_eq, UInt8.toNat_ofNat']
    have hsplit : v % 256 ^ (n + 1) = v / 256 % 256 ^ n * 256 + v % 256 := by
      rw [Nat.pow_succ, Nat.mul_comm (256 ^ n) 256, Nat.mod_mul]
      omega
    rw [bigEndian, bigEndianValue_snoc, ih, hlow, hsplit]

end Bytes

namespace MessagePack

open Bytes (bigEndian)

/-- A step takes bytes off the front, whatever follows them. -/
def Reads {α : Type} (r : Reader α) (s : Bytes) (a : α) : Prop :=
  ∀ rest, r (s ++ rest) = some (a, rest)

theorem Reads.pure {α : Type} (a : α) : Reads (Pure.pure a) [] a := fun _ => rfl

theorem Reads.bind {α β : Type} {r : Reader α} {f : α → Reader β} {s t : Bytes} {a : α} {b : β}
    (hr : Reads r s a) (hf : Reads (f a) t b) : Reads (r >>= f) (s ++ t) b := by
  intro rest
  show (r (s ++ t ++ rest)).bind (fun x => f x.1 x.2) = some (b, rest)
  rw [List.append_assoc, hr (t ++ rest)]
  exact hf rest

/-- If the step after it fails, then both fail. -/
theorem Reads.bind_none {α β : Type} {r : Reader α} {f : α → Reader β} {s t : Bytes} {a : α}
    (hr : Reads r s a) (hf : f a t = none) : (r >>= f) (s ++ t) = none := by
  show (r (s ++ t)).bind (fun x => f x.1 x.2) = none
  rw [hr t]
  exact hf

theorem Reads.map {α β : Type} {r : Reader α} {s : Bytes} {a : α} (hr : Reads r s a) (f : α → β) :
    Reads (r >>= fun x => Pure.pure (f x)) s (f a) := by
  have h := hr.bind (f := fun x => Pure.pure (f x)) (Reads.pure (f a))
  rwa [List.append_nil] at h

/-- A step that goes on as another one after its first byte. -/
theorem Reads.cons {α : Type} {q r : Reader α} {c : UInt8} {s : Bytes} {a : α} (hr : Reads r s a)
    (hc : ∀ rest, q (c :: rest) = r rest) : Reads q (c :: s) a := by
  intro rest
  rw [List.cons_append, hc]
  exact hr rest

/-! ### Numbers of a fixed width -/

theorem reads_take (s : Bytes) : Reads (take s.length) s s := by
  intro rest
  unfold take
  rw [if_neg (by simp), List.take_left, List.drop_left]

theorem reads_number (n v : Nat) : Reads (number n) (bigEndian n v) (v % 256 ^ n) := by
  have htake : Reads (take n) (bigEndian n v) (bigEndian n v) := by
    have h := reads_take (bigEndian n v)
    rwa [Bytes.length_bigEndian] at h
  have hnumber := htake.map Bytes.bigEndianValue
  rwa [Bytes.bigEndianValue_bigEndian] at hnumber

theorem reads_number_of_lt {n v : Nat} (h : v < 256 ^ n) : Reads (number n) (bigEndian n v) v := by
  have hnumber := reads_number n v
  rwa [Nat.mod_eq_of_lt h] at hnumber

/-- A negative number comes back from its complement. -/
theorem reads_signedNumber {n : Nat} {i : Int} (hn : 0 < n) (hneg : i < 0)
    (hlow : -(256 ^ n / 2 : Nat) ≤ i) :
    Reads (signedNumber n) (bigEndian n (i + 256 ^ n).toNat) i := by
  have hpow : 0 < 256 ^ n := Nat.pow_pos (by decide)
  have hpowInt : ((256 ^ n : Nat) : Int) = 256 ^ n := by push_cast; rfl
  have heven : 256 ^ n / 2 * 2 = 256 ^ n := by
    apply Nat.div_mul_cancel
    exact dvd_pow (by decide) (by omega)
  have hvalue : (((i + 256 ^ n).toNat : Nat) : Int) = i + 256 ^ n := by
    apply Int.toNat_of_nonneg
    omega
  have hlt : (i + 256 ^ n).toNat < 256 ^ n := by omega
  have h := (reads_number_of_lt hlt).map fun v =>
    if v < 256 ^ n / 2 then (v : Int) else (v : Int) - 256 ^ n
  rw [if_neg (by omega), hvalue, Int.add_sub_cancel] at h
  exact h

/-! ### Integers -/

/-- A word comes back at each of the four widths. -/
theorem reads_word {k v : Nat} (hk : k < 4) (h : v < 256 ^ 2 ^ k) : Reads readInt (word k v) v := by
  have hcast := (reads_number_of_lt h).map fun v => (v : Int)
  have hform : ∀ rest, readInt ((0xCC + k).toUInt8 :: rest) =
      (number (2 ^ k) >>= fun v => Pure.pure (v : Int)) rest := by
    intro rest
    interval_cases k <;> rfl
  rw [word, Nat.one_shiftLeft]
  exact Reads.cons hcast hform

/-- An integer that fits in a word of some bits comes back when it is cut to them. -/
theorem Reads.cut {bits v : Nat} {s : Bytes} (hread : Reads readInt s v) (h : v < 2 ^ bits) :
    Reads (readWord bits) s v := by
  have hword := hread.map fun i => (i % (1 <<< bits : Nat)).toNat
  have hv : ((v : Int) % ((1 <<< bits : Nat) : Int)).toNat = v := by
    rw [Nat.one_shiftLeft, ← Int.natCast_mod, Nat.mod_eq_of_lt h, Int.toNat_natCast]
  rwa [hv] at hword

theorem reads_nat {v : Nat} (h : v < 2 ^ 64) : Reads readInt (nat v) v := by
  unfold nat
  split_ifs with h1 h2 h3 h4
  · have hv : v.toUInt8.toNat = v := by
      rw [Nat.toUInt8_eq, UInt8.toNat_ofNat']
      omega
    have hne : v.toUInt8 ≠ 0xC0 := fun heq => by
      have := congrArg UInt8.toNat heq
      rw [hv] at this
      simp at this
      omega
    have hlt : v.toUInt8 < 0x80 := by
      rw [UInt8.lt_iff_toNat_lt, hv]
      exact h1
    refine Reads.cons (r := Pure.pure (v.toUInt8.toNat : Int)) ?_ fun rest => ?_
    · rw [hv]
      exact Reads.pure _
    · show (if v.toUInt8 = 0xC0 then Pure.pure 0 else _ : Reader Int) rest = _
      rw [if_neg hne, if_pos hlt]
  · exact reads_word (by decide) (by omega)
  · exact reads_word (by decide) (by omega)
  · exact reads_word (by decide) (by omega)
  · exact reads_word (by decide) (by omega)

/-- A negative number that fits in the first byte. -/
theorem reads_smallNegative {i : Int} (hneg : i < 0) (hlow : -32 ≤ i) :
    Reads readInt (bigEndian 1 (i + 256 ^ 1).toNat) i := by
  set c := (i + 256 ^ 1).toNat.toUInt8 with hdef
  have hc : c.toNat = (i + 256 ^ 1).toNat := by
    rw [hdef, Nat.toUInt8_eq, UInt8.toNat_ofNat']
    omega
  have hlarge : 224 ≤ c.toNat := by omega
  have hnil : c ≠ 0xC0 := fun heq => by
    rw [heq] at hlarge
    simp at hlarge
  have hnat : ¬ c < 0x80 := by
    rw [UInt8.lt_iff_toNat_lt]
    simp
    omega
  have hfit : (0xE0 : UInt8) ≤ c := by
    rw [UInt8.le_iff_toNat_le]
    exact hlarge
  show Reads readInt [c] i
  refine Reads.cons (r := Pure.pure ((c.toNat : Int) - 256)) ?_ fun rest => ?_
  · have hvalue : (c.toNat : Int) - 256 = i := by omega
    rw [hvalue]
    exact Reads.pure _
  · show (if c = 0xC0 then Pure.pure 0 else _ : Reader Int) rest = _
    rw [if_neg hnil, if_neg hnat, if_pos hfit]

/-- Every integer of 64 bits comes back. -/
theorem reads_int {i : Int} (hlow : -2 ^ 63 ≤ i) (hhigh : i < 2 ^ 64) : Reads readInt (int i) i := by
  unfold int
  split_ifs with h0 h1 h2 h3 h4
  · have h := reads_nat (v := i.toNat) (by omega)
    rwa [Int.toNat_of_nonneg h0] at h
  · exact reads_smallNegative (by omega) h1
  · exact Reads.cons (reads_signedNumber (n := 1) (by decide) (by omega) (by omega)) fun _ => rfl
  · exact Reads.cons (reads_signedNumber (n := 2) (by decide) (by omega) (by omega)) fun _ => rfl
  · exact Reads.cons (reads_signedNumber (n := 4) (by decide) (by omega) (by omega)) fun _ => rfl
  · exact Reads.cons (reads_signedNumber (n := 8) (by decide) (by omega) (by omega)) fun _ => rfl

theorem reads_int64 {i : Int} (hlow : -2 ^ 63 ≤ i) (hhigh : i < 2 ^ 63) :
    Reads readInt64 (int i) i := by
  have h := (reads_int hlow (by omega)).map fun v => v.bmod (2 ^ 64)
  rwa [Int.bmod_eq_of_le (by omega) (by omega)] at h

/-! ### Texts and heads -/

theorem reads_text {s : Bytes} (h : s.length < 2 ^ 32) : Reads readText (text s) s := by
  have hlong : ∀ {n : Nat}, s.length < 256 ^ n →
      Reads (number n >>= take) (bigEndian n s.length ++ s) s := fun hn =>
    (reads_number_of_lt hn).bind (reads_take s)
  unfold text textHead
  split_ifs with h1 h2 h3
  · set c := (0xA0 + s.length).toUInt8 with hdef
    have hc : c.toNat = 0xA0 + s.length := by
      rw [hdef, Nat.toUInt8_eq, UInt8.toNat_ofNat']
      omega
    have hnil : c ≠ 0xC0 := fun heq => by
      rw [heq] at hc
      simp at hc
      omega
    have hshort : 0xA0 ≤ c ∧ c ≤ 0xBF := by
      rw [UInt8.le_iff_toNat_le, UInt8.le_iff_toNat_le]
      simp
      omega
    refine Reads.cons (r := take (c.toNat - 0xA0)) ?_ fun rest => ?_
    · rw [hc, Nat.add_sub_cancel_left]
      exact reads_take s
    · show (if c = 0xC0 then Pure.pure [] else _ : Reader Bytes) rest = _
      rw [if_neg hnil, if_pos hshort]
  · exact Reads.cons (hlong (n := 1) (by omega)) fun _ => rfl
  · exact Reads.cons (hlong (n := 2) (by omega)) fun _ => rfl
  · exact Reads.cons (hlong (n := 4) (by omega)) fun _ => rfl

/-- The head of an array gives its length, cut to a word of 32 bits. -/
theorem reads_arrayHead (n : Nat) : Reads readShape (arrayHead n) (.array (n % 2 ^ 32)) := by
  unfold arrayHead
  split_ifs with h1 h2
  · set c := (0x90 + n).toUInt8 with hdef
    have hc : c.toNat = 0x90 + n := by
      rw [hdef, Nat.toUInt8_eq, UInt8.toNat_ofNat']
      omega
    have hnil : c ≠ 0xC0 := fun heq => by
      rw [heq] at hc
      simp at hc
      omega
    have hmap : ¬ (0x80 ≤ c ∧ c ≤ 0x8F) := by
      rw [UInt8.le_iff_toNat_le, UInt8.le_iff_toNat_le]
      simp
      omega
    have harray : 0x90 ≤ c ∧ c ≤ 0x9F := by
      rw [UInt8.le_iff_toNat_le, UInt8.le_iff_toNat_le]
      simp
      omega
    refine Reads.cons (r := Pure.pure (.array (c.toNat - 0x90))) ?_ fun rest => ?_
    · rw [hc, Nat.add_sub_cancel_left, Nat.mod_eq_of_lt (by omega)]
      exact Reads.pure _
    · show (if c = 0xC0 then Pure.pure .absent else _ : Reader Shape) rest = _
      rw [if_neg hnil, if_neg hmap, if_pos harray]
  · rw [Nat.mod_eq_of_lt (by omega)]
    exact Reads.cons ((reads_number_of_lt (n := 2) (by omega)).map Shape.array) fun _ => rfl
  · exact Reads.cons ((reads_number 4 n).map Shape.array) fun _ => rfl

/-- The head of a record of five fields. -/
theorem reads_mapHead : Reads readShape (mapHead 5) (.map 5) := fun _ => rfl

end MessagePack

open MessagePack

/-! ### Issues -/

/-- An issue whose stored form can be read back. -/
structure StoredIssue.Fits (i : StoredIssue) : Prop where
  check : i.check.length < 2 ^ 32
  kind : i.kind < 256
  line : -2 ^ 63 ≤ i.line ∧ i.line < 2 ^ 63
  message : i.message.length < 2 ^ 32
  severity : i.severity < 256

namespace StoredIssue

/-- One entry of a map and the entries after it. -/
theorem reads_entries {n : Nat} {i i' j : StoredIssue} {name value rest : Bytes} {f : Field}
    (hname : name.length < 2 ^ 32) (hfield : fields.lookup name = some f)
    (hvalue : Reads (readField i f) value i') (hrest : Reads (readEntries n i') rest j) :
    Reads (readEntries (n + 1) i) (text name ++ (value ++ rest)) j := by
  refine (reads_text hname).bind ?_
  simp only [hfield]
  exact hvalue.bind hrest

/-- An issue comes back, whatever it is read over. -/
theorem reads_encode {i : StoredIssue} (h : i.Fits) (before : StoredIssue) :
    Reads (read before) i.encode i := by
  have hentries : Reads (readEntries 5 before)
      (text "Check" ++ (text i.check ++ (text "Kind" ++ (word 0 i.kind ++ (text "Line" ++
        (int i.line ++ (text "Message" ++ (text i.message ++ (text "Severity" ++
          (word 0 i.severity ++ [])))))))))) i := by
    refine reads_entries (f := .check) (by decide) (by decide) ((reads_text h.check).map _) ?_
    refine reads_entries (f := .kind) (by decide) (by decide)
      (((reads_word (by decide) h.kind).cut h.kind).map _) ?_
    refine reads_entries (f := .line) (by decide) (by decide)
      ((reads_int64 h.line.1 h.line.2).map _) ?_
    refine reads_entries (f := .message) (by decide) (by decide) ((reads_text h.message).map _) ?_
    refine reads_entries (f := .severity) (by decide) (by decide)
      (((reads_word (by decide) h.severity).cut h.severity).map _) ?_
    exact Reads.pure _
  have hread : Reads (read before) (mapHead 5 ++ _) i := reads_mapHead.bind hentries
  have hencode : i.encode = mapHead 5 ++ (text "Check" ++ (text i.check ++ (text "Kind" ++
      (word 0 i.kind ++ (text "Line" ++ (int i.line ++ (text "Message" ++ (text i.message ++
        (text "Severity" ++ (word 0 i.severity ++ [])))))))))) := by
    simp only [encode, List.append_assoc, List.append_nil]
  rw [hencode]
  exact hread

/-- Issues come back one after the other. -/
theorem reads_many {is : List StoredIssue} (h : ∀ i ∈ is, i.Fits) (before : List StoredIssue) :
    Reads (readMany is.length before) (is.flatMap encode) is := by
  induction is generalizing before with
  | nil => exact Reads.pure []
  | cons i is ih =>
    rw [List.flatMap_cons]
    refine (reads_encode (h i List.mem_cons_self) (before.headD {})).bind ?_
    exact (ih (fun j hj => h j (List.mem_cons_of_mem _ hj)) before.tail).map _

end StoredIssue

/-! ### Reports -/

/-- A report whose stored form can be read back, but for the number of its issues. -/
structure StoredReport.Fits (r : StoredReport) : Prop where
  version : r.version < 65536
  issues : ∀ i ∈ r.issues, i.Fits
  files : -2 ^ 63 ≤ r.files ∧ r.files < 2 ^ 63
  added : -2 ^ 63 ≤ r.added ∧ r.added < 2 ^ 63
  deleted : -2 ^ 63 ≤ r.deleted ∧ r.deleted < 2 ^ 63

namespace StoredReport

theorem reads_entries {n : Nat} {d d' e : Draft} {name value rest : Bytes} {f : Field}
    (hname : name.length < 2 ^ 32) (hfield : fields.lookup name = some f)
    (hvalue : Reads (readField d f) value d') (hrest : Reads (readEntries n d') rest e) :
    Reads (readEntries (n + 1) d) (text name ++ (value ++ rest)) e := by
  refine (reads_text hname).bind ?_
  simp only [hfield]
  exact hvalue.bind hrest

/-- As many issues are read as the head of their list says. -/
theorem reads_issues_take {is : List StoredIssue} (h : ∀ i ∈ is, i.Fits) {d : Draft}
    (hnew : d.report.issues = [] ∧ d.spare = []) :
    Reads (readIssues d)
      (arrayHead is.length ++ (is.take (is.length % 2 ^ 32)).flatMap StoredIssue.encode)
      ⟨{ d.report with issues := is.take (is.length % 2 ^ 32) }, []⟩ := by
  refine (reads_arrayHead is.length).bind ?_
  have hlength : (is.take (is.length % 2 ^ 32)).length = is.length % 2 ^ 32 := by
    rw [List.length_take]
    exact Nat.min_eq_left (Nat.mod_le _ _)
  have hfits : ∀ i ∈ is.take (is.length % 2 ^ 32), i.Fits := fun i hi =>
    h i (List.mem_of_mem_take hi)
  have hmany := StoredIssue.reads_many hfits []
  rw [hlength] at hmany
  have hdraft := hmany.map fun issues => (⟨{ d.report with issues := issues }, []⟩ : Draft)
  simpa [hnew.1, hnew.2] using hdraft

/-- The issues come back if their number can be written. -/
theorem reads_issues {is : List StoredIssue} (h : ∀ i ∈ is, i.Fits) (hcount : is.length < 2 ^ 32)
    {d : Draft} (hnew : d.report.issues = [] ∧ d.spare = []) :
    Reads (readIssues d) (StoredIssue.encodeAll is) ⟨{ d.report with issues := is }, []⟩ := by
  unfold StoredIssue.encodeAll
  cases is with
  | nil => exact Reads.cons (Reads.pure _) fun _ => rfl
  | cons i is =>
    have htake := reads_issues_take h hnew
    rwa [Nat.mod_eq_of_lt hcount, List.take_length] at htake

/-- **The stored form comes back** if the number of the issues can be written. -/
theorem decode_encode {r : StoredReport} (h : r.Fits) (hcount : r.issues.length < 2 ^ 32) :
    decode? r.encode = some r := by
  have hissues := reads_issues (d := ⟨{ version := r.version }, []⟩) h.issues hcount ⟨rfl, rfl⟩
  have hentries : Reads (readEntries 5 {})
      (text "Schema" ++ (word 1 r.version ++ (text "Issues" ++ (StoredIssue.encodeAll r.issues ++
        (text "Files" ++ (int r.files ++ (text "Added" ++ (int r.added ++ (text "Deleted" ++
          (int r.deleted ++ [])))))))))) ⟨r, []⟩ := by
    refine reads_entries (f := .version) (by decide) (by decide)
      (((reads_word (by decide) h.version).cut h.version).map _) ?_
    refine reads_entries (f := .issues) (by decide) (by decide) hissues ?_
    refine reads_entries (f := .files) (by decide) (by decide)
      ((reads_int64 h.files.1 h.files.2).map _) ?_
    refine reads_entries (f := .added) (by decide) (by decide)
      ((reads_int64 h.added.1 h.added.2).map _) ?_
    refine reads_entries (f := .deleted) (by decide) (by decide)
      ((reads_int64 h.deleted.1 h.deleted.2).map _) ?_
    exact Reads.pure _
  have hread : Reads read (mapHead 5 ++ _) r := reads_mapHead.bind (hentries.map Draft.report)
  have hencode : r.encode = mapHead 5 ++ (text "Schema" ++ (word 1 r.version ++ (text "Issues" ++
      (StoredIssue.encodeAll r.issues ++ (text "Files" ++ (int r.files ++ (text "Added" ++
        (int r.added ++ (text "Deleted" ++ (int r.deleted ++ [])))))))))) := by
    simp only [encode, List.append_assoc, List.append_nil]
  have hwhole := hread []
  rw [List.append_nil, ← hencode] at hwhole
  rw [decode?, hwhole]
  rfl

theorem readEntries_none {n : Nat} {d d' : Draft} {name value rest : Bytes} {f : Field}
    (hname : name.length < 2 ^ 32) (hfield : fields.lookup name = some f)
    (hvalue : Reads (readField d f) value d') (hrest : readEntries n d' rest = none) :
    readEntries (n + 1) d (text name ++ (value ++ rest)) = none := by
  refine (reads_text hname).bind_none ?_
  simp only [hfield]
  exact hvalue.bind_none hrest

/-- Issues whose number cannot be written are not read back as fewer: the first one too many is met
where the name of a field has to be. -/
theorem decode_encode_long {r : StoredReport} (h : r.Fits) (hcount : 2 ^ 32 ≤ r.issues.length) :
    decode? r.encode = none := by
  set m := r.issues.length % 2 ^ 32 with hm
  have hlt : m < r.issues.length := by
    have := Nat.mod_lt r.issues.length (Nat.two_pow_pos 32)
    omega
  have hsplit : r.issues.flatMap StoredIssue.encode =
      (r.issues.take m).flatMap StoredIssue.encode ++
        (r.issues.drop m).flatMap StoredIssue.encode := by
    rw [← List.flatMap_append, List.take_append_drop]
  obtain ⟨j, more, hdrop⟩ : ∃ j more, r.issues.drop m = j :: more := by
    cases hdrop : r.issues.drop m with
    | nil => exact absurd (List.drop_eq_nil_iff.mp hdrop) (by omega)
    | cons j more => exact ⟨j, more, rfl⟩
  have hnonempty : r.issues.isEmpty = false := by
    rw [List.isEmpty_eq_false_iff_exists_mem]
    exact ⟨j, List.mem_of_mem_drop (hdrop ▸ List.mem_cons_self)⟩
  set tail := text "Files" ++ int r.files ++ text "Added" ++ int r.added ++ text "Deleted" ++
    int r.deleted with htail
  have hencode : r.encode = mapHead 5 ++ (text "Schema" ++ (word 1 r.version ++ (text "Issues" ++
      ((arrayHead r.issues.length ++ (r.issues.take m).flatMap StoredIssue.encode) ++
        (j.encode ++ (more.flatMap StoredIssue.encode ++ tail)))))) := by
    simp only [encode, StoredIssue.encodeAll, hnonempty, hsplit, hdrop, List.flatMap_cons, htail,
      List.append_assoc, if_false, Bool.false_eq_true]
  have hissues := reads_issues_take (d := ⟨{ version := r.version }, []⟩) h.issues ⟨rfl, rfl⟩
  have hentries : readEntries 5 {} (text "Schema" ++ (word 1 r.version ++ (text "Issues" ++
      ((arrayHead r.issues.length ++ (r.issues.take m).flatMap StoredIssue.encode) ++
        (j.encode ++ (more.flatMap StoredIssue.encode ++ tail)))))) = none := by
    refine readEntries_none (f := .version) (by decide) (by decide)
      (((reads_word (by decide) h.version).cut h.version).map _) ?_
    exact readEntries_none (f := .issues) (by decide) (by decide) hissues rfl
  have hread : read r.encode = none := by
    rw [hencode]
    refine reads_mapHead.bind_none ?_
    show (readEntries 5 {} _).bind _ = none
    rw [hentries]
    rfl
  rw [decode?, hread]
  rfl

end StoredReport

end PatchAudit
