import Mathlib.Data.List.Basic
import Mathlib.Data.List.Pairwise
import PatchAudit.Patch.Line

/-!
# Classified lines without the flag

A line opens a hunk by its first bytes alone (`sortOut_hunkMarker_iff`), so whether a line stands below
a hunk marker can be told from the texts of the lines above it (`getElem?_classifyFrom`).  The lines are
numbered through, and the added ones are known by the texts alone (`mem_classify_added_iff`); none of
them is the first.
-/

namespace PatchAudit

namespace PatchLine

/-! ### One line -/

theorem sortOut_fileMarker_iff {inside : Bool} {raw : Bytes} :
    (sortOut inside raw).1 = .fileMarker ↔ Bytes.startsWithAny fileMarks raw = true := by
  unfold sortOut
  split_ifs with hfile
  · simp [hfile]
  · simp [hfile]
  · simp [hfile]
  · simp [hfile]
  · split <;> simp [hfile]

/-- A line that starts as a hunk marker is one, wherever it stands. -/
theorem sortOut_hunkMarker_iff {inside : Bool} {raw : Bytes} :
    (sortOut inside raw).1 = .hunkMarker ↔ hunkMark <+: raw := by
  constructor
  · intro h
    unfold sortOut at h
    split_ifs at h with hfile hheader hhunk
    · exact List.isPrefixOf_iff_prefix.mp hhunk
    · split at h <;> cases h
  · rintro ⟨rest, rfl⟩
    rfl

theorem sortOut_added_iff {inside : Bool} {raw payload : Bytes} :
    sortOut inside raw = (.added, payload) ↔
      inside = true ∧ raw = 0x2B :: payload ∧ ¬ ("+++" : Bytes) <+: raw := by
  constructor
  · intro h
    unfold sortOut at h
    split_ifs at h with hfile hheader hhunk hinside
    · cases h
    · cases h
    · cases h
    · cases h
    · have hplain : ¬ ("+++" : Bytes) <+: raw := by
        intro hplus
        refine hfile (List.any_eq_true.mpr ⟨("+++" : Bytes), by simp [fileMarks], ?_⟩)
        exact List.isPrefixOf_iff_prefix.mpr hplus
      split at h
      · cases h
        exact ⟨by simpa using hinside, rfl, hplain⟩
      · cases h
      · cases h
      · cases h
  · rintro ⟨rfl, rfl, hplain⟩
    have hfile : Bytes.startsWithAny fileMarks (0x2B :: payload) = false := by
      have hplus : (Bytes.ofString "+++").isPrefixOf (0x2B :: payload) = false := by
        rwa [← Bool.not_eq_true, List.isPrefixOf_iff_prefix]
      simp only [Bytes.startsWithAny, fileMarks, List.any_cons, hplus]
      rfl
    have hheader : Bytes.startsWithAny headerMarks (0x2B :: payload) = false := rfl
    have hhunk : hunkMark.isPrefixOf (0x2B :: payload) = false := rfl
    simp only [sortOut, hfile, hheader, hhunk]
    rfl

/-- Above the first hunk marker nothing is added. -/
theorem sortOut_outside (raw : Bytes) : (sortOut false raw).1 ≠ .added := by
  intro hadded
  have hinside := (sortOut_added_iff.mp (Prod.ext hadded rfl)).1
  cases hinside

/-- A payload is nothing, its line, or its line without the sign in front. -/
theorem sortOut_payload (inside : Bool) (raw : Bytes) :
    (sortOut inside raw).2 = [] ∨ (sortOut inside raw).2 = raw ∨
      ∃ sign : UInt8, sign.toNat < 0x80 ∧ raw = sign :: (sortOut inside raw).2 := by
  unfold sortOut
  split_ifs
  · exact .inl rfl
  · exact .inl rfl
  · exact .inl rfl
  · exact .inl rfl
  · split
    · exact .inr (.inr ⟨_, by decide, rfl⟩)
    · exact .inr (.inr ⟨_, by decide, rfl⟩)
    · exact .inr (.inr ⟨_, by decide, rfl⟩)
    · exact .inr (.inl rfl)

theorem length_sortOut (inside : Bool) (raw : Bytes) :
    (sortOut inside raw).2.length ≤ raw.length := by
  rcases sortOut_payload inside raw with hempty | hwhole | ⟨sign, -, hrest⟩
  · rw [hempty]
    exact Nat.zero_le _
  · exact Nat.le_of_eq (congrArg List.length hwhole)
  · have hlength := congrArg List.length hrest
    rw [List.length_cons] at hlength
    omega

/-! ### All lines -/

theorem classifyFrom_cons (inside : Bool) (number : Nat) (raw : Bytes) (rest : List Bytes) :
    classifyFrom inside number (raw :: rest) =
      ⟨number, raw, (sortOut inside raw).1, (sortOut inside raw).2⟩ ::
        classifyFrom (inside || (sortOut inside raw).1 == .hunkMarker) (number + 1) rest := rfl

theorem length_classifyFrom (inside : Bool) (number : Nat) (lines : List Bytes) :
    (classifyFrom inside number lines).length = lines.length := by
  induction lines generalizing inside number with
  | nil => rfl
  | cons raw rest ih => simp [classifyFrom, ih]

/-- Lines further down are classified alike. -/
theorem classifyFrom_add (inside : Bool) (number n : Nat) (lines : List Bytes) :
    classifyFrom inside (number + n) lines =
      (classifyFrom inside number lines).map fun l => { l with number := l.number + n } := by
  induction lines generalizing inside number with
  | nil => rfl
  | cons raw rest ih =>
    rw [classifyFrom_cons, classifyFrom_cons, Nat.add_right_comm, ih, List.map_cons]

/-- Lines are classified from left to right, and only the flag is handed on. -/
theorem classifyFrom_append (inside : Bool) (number : Nat) (xs ys : List Bytes) :
    classifyFrom inside number (xs ++ ys) = classifyFrom inside number xs ++
      classifyFrom (inside || (classifyFrom inside number xs).any (·.kind == .hunkMarker))
        (number + xs.length) ys := by
  induction xs generalizing inside number with
  | nil => simp [classifyFrom]
  | cons x xs ih =>
    rw [List.cons_append, classifyFrom_cons, classifyFrom_cons, ih]
    simp [Bool.or_assoc, Nat.add_assoc, Nat.add_comm 1]

/-- **Classification place by place**: the kind of a line depends on its text, and on whether one of
the lines above it starts as a hunk marker. -/
theorem getElem?_classifyFrom (inside : Bool) (number : Nat) (lines : List Bytes) (k : Nat) :
    (classifyFrom inside number lines)[k]? = lines[k]?.map fun raw =>
      ⟨number + k, raw,
        (sortOut (inside || (lines.take k).any (hunkMark.isPrefixOf ·)) raw).1,
        (sortOut (inside || (lines.take k).any (hunkMark.isPrefixOf ·)) raw).2⟩ := by
  induction lines generalizing inside number k with
  | nil => rfl
  | cons raw rest ih =>
    rw [classifyFrom_cons]
    cases k with
    | zero => simp
    | succ k =>
      -- the flag that is handed on is that of the first line's text
      have hflag : ((sortOut inside raw).1 == .hunkMarker) = hunkMark.isPrefixOf raw := by
        rw [Bool.eq_iff_iff, beq_iff_eq, sortOut_hunkMarker_iff, List.isPrefixOf_iff_prefix]
      rw [List.getElem?_cons_succ, ih, hflag, List.getElem?_cons_succ, List.take_succ_cons,
        List.any_cons, Bool.or_assoc, Nat.add_right_comm, Nat.add_assoc]

theorem exists_sortOut_of_mem {inside : Bool} {number : Nat} {lines : List Bytes} {l : PatchLine}
    (h : l ∈ classifyFrom inside number lines) :
    ∃ raw ∈ lines, ∃ above, l.payload = (sortOut above raw).2 := by
  obtain ⟨k, hk⟩ := List.getElem?_of_mem h
  rw [getElem?_classifyFrom] at hk
  obtain ⟨raw, hraw, rfl⟩ := Option.map_eq_some_iff.mp hk
  exact ⟨raw, List.mem_of_getElem? hraw, _, rfl⟩

/-- The lines are numbered one after the other. -/
theorem number_of_getElem? {inside : Bool} {number i : Nat} {lines : List Bytes} {l : PatchLine}
    (h : (classifyFrom inside number lines)[i]? = some l) : l.number = number + i := by
  rw [getElem?_classifyFrom] at h
  obtain ⟨raw, -, rfl⟩ := Option.map_eq_some_iff.mp h
  rfl

theorem classifyFrom_pairwise (inside : Bool) (number : Nat) (lines : List Bytes) :
    (classifyFrom inside number lines).Pairwise fun a b => a.number < b.number := by
  rw [List.pairwise_iff_getElem]
  intro i j hi hj hij
  have hfirst := number_of_getElem? (List.getElem?_eq_getElem hi)
  have hsecond := number_of_getElem? (List.getElem?_eq_getElem hj)
  omega

/-- A line stands where its number says. -/
theorem place_of_mem_classify {lines : List Bytes} {l : PatchLine} (h : l ∈ classify lines) :
    1 ≤ l.number ∧ l.number ≤ lines.length ∧ (classify lines)[l.number - 1]? = some l := by
  obtain ⟨k, hk⟩ := List.getElem?_of_mem h
  have hnumber : l.number = 1 + k := number_of_getElem? hk
  have hlength : k < (classify lines).length := (List.getElem?_eq_some_iff.mp hk).1
  rw [classify, length_classifyFrom] at hlength
  refine ⟨by omega, by omega, ?_⟩
  rwa [hnumber, Nat.add_sub_cancel_left]

end PatchLine

/-! ### Added lines -/

/-- A line that adds `rest`, by the texts alone: the sign and the rest, but not the start of a file
marker, below a line that starts as a hunk marker. -/
structure AddedAt (lines : List Bytes) (k : Nat) (rest : Bytes) : Prop where
  line : lines[k]? = some (0x2B :: rest)
  plain : ¬ ("+++" : Bytes) <+: 0x2B :: rest
  below : ∃ above ∈ lines.take k, ("@@" : Bytes) <+: above

namespace PatchLine

/-- **The added lines of a patch** are known by the texts of the lines. -/
theorem mem_classify_added_iff {lines : List Bytes} {l : PatchLine} :
    l ∈ classify lines ∧ l.kind = .added ↔
      ∃ k rest, AddedAt lines k rest ∧ l = ⟨k + 1, 0x2B :: rest, .added, rest⟩ := by
  have hbelow : ∀ k, (lines.take k).any (hunkMark.isPrefixOf ·) = true ↔
      ∃ above ∈ lines.take k, hunkMark <+: above := by
    intro k
    simp only [List.any_eq_true, List.isPrefixOf_iff_prefix]
  constructor
  · rintro ⟨hl, hadded⟩
    obtain ⟨k, hk⟩ := List.getElem?_of_mem hl
    rw [classify, getElem?_classifyFrom, Bool.false_or] at hk
    obtain ⟨raw, hraw, rfl⟩ := Option.map_eq_some_iff.mp hk
    obtain ⟨hinside, hsign, hplain⟩ := sortOut_added_iff.mp (Prod.ext hadded rfl)
    rw [hsign] at hraw hplain
    refine ⟨k, _, ⟨hraw, hplain, (hbelow k).mp hinside⟩, ?_⟩
    simp only [PatchLine.mk.injEq, and_true]
    exact ⟨Nat.add_comm 1 k, hsign, hadded⟩
  · rintro ⟨k, rest, h, rfl⟩
    refine ⟨List.mem_of_getElem? (i := k) ?_, rfl⟩
    rw [classify, getElem?_classifyFrom, h.line, Option.map_some, Bool.false_or,
      sortOut_added_iff.mpr ⟨(hbelow k).mpr h.below, rfl, h.plain⟩, Nat.add_comm]

/-- An added line is never the first one. -/
theorem one_lt_number_of_added {lines : List Bytes} {l : PatchLine} (h : l ∈ classify lines)
    (hadded : l.kind = .added) : 1 < l.number := by
  obtain ⟨k, rest, hplace, rfl⟩ := mem_classify_added_iff.mp ⟨h, hadded⟩
  obtain ⟨above, habove, -⟩ := hplace.below
  cases k with
  | zero => cases habove
  | succ k => exact Nat.succ_lt_succ (Nat.succ_pos k)

end PatchLine

end PatchAudit
