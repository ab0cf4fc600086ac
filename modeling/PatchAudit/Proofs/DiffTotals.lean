import Mathlib.Data.List.Basic
import PatchAudit.Diff.Reader

/-!
# Totals of a diff

Reading a diff goes forward only.  Each file has a line of its own and each counted change another
one, so the totals of a diff are at most the number of its lines (`stats_le`).
-/

namespace PatchAudit

namespace Bytes

/-- A text has at most one part more than it has bytes. -/
theorem length_splitOn_le (a : UInt8) (s : Bytes) : (s.splitOn a).length ≤ s.length + 1 := by
  induction s with
  | nil => simp
  | cons b s ih =>
    rw [List.splitOn_cons_eq_if_modifyHead]
    split_ifs
    · simpa using ih
    · rw [List.length_modifyHead, List.length_cons]
      omega

theorem length_terminatedLines (s : Bytes) : s.terminatedLines.length ≤ s.length + 1 := by
  have hparts := length_splitOn_le 0x0A s
  unfold terminatedLines
  split
  · simp
  · have hpos : 0 < (s.splitOn 0x0A).length := List.length_pos_iff.mpr (List.splitOn_ne_nil _ _)
    simp only
    split
    · rw [List.length_append, List.length_map, List.length_dropLast, List.length_singleton]
      omega
    · rw [List.length_map, List.length_dropLast]
      omega

end Bytes

namespace Diff

/-- A computation that succeeds does so step by step. -/
theorem ok_of_bind {ε α β : Type} {x : Except ε α} {f : α → Except ε β} {b : β}
    (h : x >>= f = .ok b) : ∃ a, x = .ok a ∧ f a = .ok b := by
  cases x with
  | error e => cases h
  | ok a => exact ⟨a, rfl, h⟩

theorem Cursor.length_next (c : Cursor) : c.next.rest.length ≤ c.rest.length := by
  obtain ⟨number, rest⟩ := c
  cases rest <;> simp [Cursor.next]

/-- The number of changed lines that are counted for a file. -/
def FileChange.changed (f : FileChange) : Nat := f.added + f.deleted

/-! ### Fragments -/

/-- The number of changed lines that a tally has counted. -/
def Tally.changed (t : Tally) : Nat := t.added + t.deleted

theorem countLine_changed {t t' : Tally} {line : Bytes} (h : countLine t line = .ok t') :
    t'.changed ≤ t.changed + 1 := by
  unfold countLine at h
  split at h
  · cases h
  · split_ifs at h <;> cases h <;> simp [Tally.changed] <;> omega

theorem countLines_changed {t t' : Tally} {number : Nat} {lines : List Bytes} {c : Cursor}
    (h : countLines t number lines = .ok (t', c)) :
    t'.changed + c.rest.length ≤ t.changed + lines.length := by
  induction lines generalizing t number with
  | nil =>
    obtain ⟨rfl, rfl⟩ : t = t' ∧ ⟨number, []⟩ = c := by simpa [countLines] using h
    simp
  | cons line rest ih =>
    rw [countLines] at h
    split_ifs at h with hmore
    · cases hline : countLine t line with
      | error e => rw [hline] at h; cases h
      | ok next =>
        rw [hline] at h
        have hstep := countLine_changed hline
        have hrest := ih h
        rw [List.length_cons]
        omega
    · obtain ⟨rfl, rfl⟩ : t = t' ∧ ⟨number, line :: rest⟩ = c := by simpa using h
      simp

theorem fragmentBody_changed {h : FragmentHeader} {c c' : Cursor} {t : Tally}
    (hbody : fragmentBody h c = .ok (t, c')) : t.changed + c'.rest.length ≤ c.rest.length := by
  unfold fragmentBody at hbody
  by_cases hend : c.atEnd = true
  · simp only [hend, if_true] at hbody
    cases hbody
  · simp only [hend, if_false, Bool.false_eq_true] at hbody
    obtain ⟨⟨t', after⟩, hcount, hbody⟩ := ok_of_bind hbody
    have hle := countLines_changed hcount
    have hnext := after.length_next
    simp only [Tally.changed] at hle ⊢
    simp only at hbody
    split_ifs at hbody
    · cases hbody
    · cases hbody
    · cases hbody
      omega
    · cases hbody
      omega

theorem fragments_changed {fuel : Nat} {f f' : FileChange} {c c' : Cursor} {found found' : Bool}
    (h : fragments fuel f c found = .ok (f', c', found')) :
    f'.changed + c'.rest.length ≤ f.changed + c.rest.length := by
  induction fuel generalizing f c found with
  | zero =>
    cases h
    exact Nat.le_refl _
  | succ fuel ih =>
    rw [fragments] at h
    cases hheader : fragmentHeader? (c.line 0) with
    | error e => rw [hheader] at h; cases h
    | ok found =>
      cases found with
      | none =>
        rw [hheader] at h
        cases h
        exact Nat.le_refl _
      | some header =>
        rw [hheader] at h
        simp only at h
        split_ifs at h
        · cases h
        · cases h
        · obtain ⟨⟨t, after⟩, hbody, hrest⟩ := ok_of_bind h
          have hfragment := fragmentBody_changed hbody
          have hmore := ih hrest
          have hnext := c.length_next
          simp only [FileChange.changed, Tally.changed] at hfragment hmore ⊢
          omega

/-! ### Headers -/

theorem applyHeaderLine_changed {shared rest : Bytes} {f f' : FileChange} {kind : HeaderLine}
    (h : applyHeaderLine shared f kind rest = .ok f') : f'.changed = f.changed := by
  unfold applyHeaderLine at h
  cases kind with
  | oldFile =>
    obtain ⟨name, -, h⟩ := ok_of_bind h
    split_ifs at h
    · cases h
      rfl
    · obtain ⟨-, -, h⟩ := ok_of_bind h
      cases h
      rfl
  | newFile =>
    obtain ⟨name, -, h⟩ := ok_of_bind h
    split_ifs at h
    · cases h
      rfl
    · obtain ⟨-, -, h⟩ := ok_of_bind h
      cases h
      rfl
  | score =>
    simp only at h
    split at h <;> cases h
    rfl
  | index =>
    simp only at h
    split_ifs at h
    · cases h
    · split at h
      · obtain ⟨-, -, h⟩ := ok_of_bind h
        cases h
        rfl
      · cases h
        rfl
  | _ =>
    obtain ⟨_, -, h⟩ := ok_of_bind h
    cases h
    rfl

theorem headerLines_changed {shared : Bytes} {f f' : FileChange} {number : Nat} {c : Cursor}
    {lines : List Bytes} (h : headerLines shared f number lines = .ok (f', c)) :
    f'.changed = f.changed ∧ c.rest.length ≤ lines.length := by
  induction lines generalizing f number with
  | nil =>
    cases h
    exact ⟨rfl, Nat.le_refl _⟩
  | cons line rest ih =>
    rw [headerLines] at h
    cases hline : headerLine? (Bytes.dropFinal "\n" line) with
    | none =>
      rw [hline] at h
      cases h
      exact ⟨rfl, Nat.le_refl _⟩
    | some found =>
      obtain ⟨kind, body⟩ := found
      rw [hline] at h
      simp only at h
      cases happly : applyHeaderLine shared f kind body with
      | error e => rw [happly] at h; cases h
      | ok next =>
        rw [happly] at h
        obtain ⟨hsame, hrest⟩ := ih h
        exact ⟨hsame.trans (applyHeaderLine_changed happly), Nat.le_succ_of_le hrest⟩

theorem settleNames_changed {shared : Bytes} {f f' : FileChange}
    (h : settleNames shared f = .ok f') : f'.changed = f.changed := by
  unfold settleNames at h
  simp only [pure_bind] at h
  split_ifs at h <;> cases h <;> rfl

/-- A header counts no changes and takes a line at least. -/
def IsHeader (found : FileChange × Cursor) (lines : List Bytes) : Prop :=
  found.1.changed = 0 ∧ found.2.rest.length + 1 ≤ lines.length

theorem gitHeader_isHeader {number : Nat} {line : Bytes} {rest : List Bytes}
    {found : FileChange × Cursor} (h : gitHeader? ⟨number, line :: rest⟩ = .ok (some found)) :
    IsHeader found (line :: rest) := by
  unfold gitHeader? at h
  split at h
  · cases h
  · split at h
    · cases h
    · obtain ⟨⟨f, after⟩, hlines, h⟩ := ok_of_bind h
      simp only at h
      split at h
      · cases h
      · rename_i hnames
        cases h
        obtain ⟨hsame, hrest⟩ := headerLines_changed hlines
        refine ⟨(settleNames_changed hnames).trans hsame, ?_⟩
        simpa using hrest

theorem plainHeader_isHeader {number : Nat} {line : Bytes} {rest : List Bytes}
    {found : FileChange × Cursor} (h : plainHeader? ⟨number, line :: rest⟩ = .ok (some found)) :
    IsHeader found (line :: rest) := by
  unfold plainHeader? at h
  split at h
  · split_ifs at h
    · cases h
    · split at h
      · cases h
      · cases h
      · cases h
        refine ⟨?_, ?_⟩
        · unfold plainChange
          split_ifs <;> rfl
        · have hnext := Cursor.length_next ⟨number + 1, rest⟩
          simpa [Cursor.next] using hnext
  · cases h

theorem nextHeader_isHeader {number : Nat} {lines : List Bytes} {found : FileChange × Cursor}
    (h : nextHeader number lines = .ok (some found)) : IsHeader found lines := by
  induction lines generalizing number with
  | nil => cases h
  | cons line rest ih =>
    have hlater : nextHeader (number + 1) rest = .ok (some found) → IsHeader found (line :: rest) :=
      fun h => ⟨(ih h).1, Nat.le_succ_of_le (ih h).2⟩
    rw [nextHeader] at h
    split at h
    · exact hlater h
    · cases h
    · split at h
      · cases h
      · rename_i hgit
        cases h
        exact gitHeader_isHeader hgit
      · split at h
        · cases h
        · rename_i hplain
          cases h
          exact plainHeader_isHeader hplain
        · exact hlater h

/-! ### Binary data -/

theorem dataLines_length {number : Nat} {lines : List Bytes} {data : Bytes} {c : Cursor}
    (h : dataLines number lines = .ok (data, c)) : c.rest.length ≤ lines.length := by
  induction lines generalizing number data with
  | nil => cases h
  | cons line rest ih =>
    rw [dataLines] at h
    by_cases hend : line = [0x0A]
    · rw [if_pos hend] at h
      cases h
      exact Nat.le_refl _
    · rw [if_neg hend] at h
      split at h
      · cases h
      · split_ifs at h
        obtain ⟨⟨more, after⟩, hmore, h⟩ := ok_of_bind h
        cases h
        exact Nat.le_succ_of_le (ih hmore)

theorem dataBlock_length {c c' : Cursor} (h : dataBlock? c = .ok (some c')) :
    c'.rest.length ≤ c.rest.length := by
  unfold dataBlock? at h
  split at h
  · cases h
  · cases h
  · obtain ⟨⟨data, after⟩, hlines, h⟩ := ok_of_bind h
    simp only at h
    split at h
    · cases h
    · split_ifs at h
      · cases h
      · cases h
        have hdata := dataLines_length hlines
        have hnext := after.length_next
        have hstart := c.length_next
        omega

theorem binaryPart_changed {f f' : FileChange} {c c' : Cursor}
    (h : binaryPart f c = .ok (f', c')) :
    f'.changed = f.changed ∧ c'.rest.length ≤ c.rest.length := by
  have hstart := c.length_next
  unfold binaryPart at h
  split_ifs at h
  · obtain ⟨block, hblock, h⟩ := ok_of_bind h
    cases block with
    | none => cases h
    | some after =>
      have hfirst := dataBlock_length hblock
      obtain ⟨second, hsecond, h⟩ := ok_of_bind h
      cases h
      refine ⟨rfl, ?_⟩
      cases second with
      | none => exact Nat.le_trans hfirst hstart
      | some last =>
        have hlast := dataBlock_length hsecond
        exact Nat.le_trans hlast (Nat.le_trans hfirst hstart)
  · cases h
    exact ⟨rfl, hstart⟩
  · cases h
    exact ⟨rfl, Nat.le_refl _⟩

/-! ### Files -/

theorem fileBody_changed {f f' : FileChange} {c c' : Cursor} (h : fileBody f c = .ok (f', c')) :
    f'.changed + c'.rest.length ≤ f.changed + c.rest.length := by
  unfold fileBody at h
  obtain ⟨⟨g, after, found⟩, hfragments, h⟩ := ok_of_bind h
  have hle := fragments_changed hfragments
  simp only at h
  split_ifs at h
  · cases h
    exact hle
  · obtain ⟨hsame, hrest⟩ := binaryPart_changed h
    omega

theorem total_cons (count : FileChange → Nat) (f : FileChange) (fs : List FileChange) :
    total count (f :: fs) = count f + total count fs := rfl

/-- Each file takes a line for itself and one for each change. -/
theorem filesFrom_length {fuel : Nat} {c : Cursor} {fs : List FileChange}
    (h : filesFrom fuel c = .ok fs) :
    fs.length + total FileChange.changed fs ≤ c.rest.length := by
  induction fuel generalizing c fs with
  | zero =>
    cases h
    exact Nat.zero_le _
  | succ fuel ih =>
    rw [filesFrom] at h
    obtain ⟨header, hheader, h⟩ := ok_of_bind h
    cases header with
    | none =>
      cases h
      exact Nat.zero_le _
    | some found =>
      obtain ⟨f, start⟩ := found
      obtain ⟨⟨f', after⟩, hbody, h⟩ := ok_of_bind h
      obtain ⟨rest, hrest, h⟩ := ok_of_bind h
      cases h
      obtain ⟨hnone, hline⟩ := nextHeader_isHeader hheader
      have hfile := fileBody_changed hbody
      have hmore := ih hrest
      simp only [List.length_cons, total_cons] at hnone hline ⊢
      omega

theorem total_changed (fs : List FileChange) :
    total FileChange.changed fs = total FileChange.added fs + total FileChange.deleted fs := by
  induction fs with
  | nil => rfl
  | cons f fs ih =>
    simp only [total_cons, ih, FileChange.changed]
    omega

/-- **The totals of a diff** are at most the number of its lines. -/
theorem stats_le {text : Bytes} {fs : List FileChange} (h : files text = .ok fs) :
    ∃ files added deleted : Nat, stats fs = ⟨files, added, deleted⟩ ∧
      files + added + deleted ≤ text.length + 1 := by
  have hlines := filesFrom_length h
  have htext := Bytes.length_terminatedLines text
  have hsum := total_changed fs
  refine ⟨fs.length, total FileChange.added fs, total FileChange.deleted fs, rfl, ?_⟩
  simp only [Cursor.ofText] at hlines
  omega

end Diff

end PatchAudit
