import PatchAudit.Proofs.ClassifiedLines

/-!
# The kinds of lines in closed form

No mark that tells what a line is begins another one, so a line begins with one of them at most, and the
order in which they are tried makes no difference.  What is left to order is the sign of a content line,
which also begins a file marker: there the file marker wins.  So each kind has a condition on the text of
the line and on whether a hunk marker stands above it (`LineKind.Fits`), no two kinds fit the same line
(`LineKind.Fits.unique`), and a line is given the kind that fits (`fits_sortOut`).
`classify_closed_form` says this of all the lines of a patch, and that a patch that is cut in two is
classified part by part.
-/

namespace PatchAudit

/-! ### What the texts say -/

/-- Whether a line begins with one of the given texts. -/
def Bytes.Begins (starts : List Bytes) (raw : Bytes) : Prop := ∃ start ∈ starts, start <+: raw

/-- A line that begins with nothing that tells what it is wherever it stands. -/
def Bytes.IsUnmarked (raw : Bytes) : Prop :=
  ¬ Begins ["---", "+++", "From ", "Date:", "Subject:", "index ", "diff --git", "@@"] raw

namespace LineKind

open Bytes (Begins IsUnmarked)

/-- The condition for each kind on the text of a line; `below` says that a hunk marker stands above. -/
def Fits (below : Prop) (raw : Bytes) : LineKind → Prop
  | fileMarker => Begins ["---", "+++"] raw
  | header => Begins ["From ", "Date:", "Subject:", "index ", "diff --git"] raw
  | hunkMarker => Begins ["@@"] raw
  | other => IsUnmarked raw ∧ ¬ below
  | added => IsUnmarked raw ∧ below ∧ Begins ["+"] raw
  | removed => IsUnmarked raw ∧ below ∧ Begins ["-"] raw
  | context => IsUnmarked raw ∧ below ∧ ¬ Begins ["+"] raw ∧ ¬ Begins ["-"] raw

/-- What the payload of a line of each kind is: the line without its sign or its first blank for content,
and nothing for the others. -/
def Carries (raw payload : Bytes) : LineKind → Prop
  | added => raw = 0x2B :: payload
  | removed => raw = 0x2D :: payload
  | context => raw = 0x20 :: payload ∨ raw = payload ∧ ¬ Begins [" "] raw
  | _ => payload = []

end LineKind

namespace Bytes

theorem startsWithAny_iff {starts : List Bytes} {raw : Bytes} :
    startsWithAny starts raw = true ↔ Begins starts raw := by
  simp only [startsWithAny, List.any_eq_true, List.isPrefixOf_iff_prefix, Begins]

theorem begins_append {starts more : List Bytes} {raw : Bytes} :
    Begins (starts ++ more) raw ↔ Begins starts raw ∨ Begins more raw := by
  simp only [Begins, List.mem_append, or_and_right, exists_or]

theorem begins_singleton {start raw : Bytes} : Begins [start] raw ↔ start <+: raw := by
  simp only [Begins, List.mem_singleton, exists_eq_left]

theorem begins_byte {b : UInt8} {raw : Bytes} : Begins [[b]] raw ↔ ∃ rest, raw = b :: rest := by
  rw [begins_singleton]
  exact ⟨fun ⟨rest, hraw⟩ => ⟨rest, hraw.symm⟩, fun ⟨rest, hraw⟩ => ⟨rest, hraw.symm⟩⟩

/-- **A line has one beginning**: of two texts that both begin it, one begins the other. -/
theorem Begins.not_begins {starts others : List Bytes} {raw : Bytes} (h : Begins starts raw)
    (hapart : ∀ a ∈ starts, ∀ b ∈ others, ¬ a <+: b ∧ ¬ b <+: a) : ¬ Begins others raw := by
  rintro ⟨b, hb, hbr⟩
  obtain ⟨a, ha, har⟩ := h
  obtain ⟨hab, hba⟩ := hapart a ha b hb
  exact (List.prefix_or_prefix_of_prefix har hbr).elim hab hba

theorem isUnmarked_iff {raw : Bytes} :
    IsUnmarked raw ↔ ¬ Begins PatchLine.fileMarks raw ∧ ¬ Begins PatchLine.headerMarks raw ∧
      ¬ Begins [PatchLine.hunkMark] raw := by
  have hall : IsUnmarked raw ↔ ¬ Begins (PatchLine.fileMarks ++ (PatchLine.headerMarks ++
    [PatchLine.hunkMark])) raw := Iff.rfl
  rw [hall, begins_append, begins_append, not_or, not_or]

end Bytes

namespace LineKind

open Bytes (Begins IsUnmarked begins_byte)

/-- **No two kinds fit the same line.** -/
theorem Fits.unique {below : Prop} {raw : Bytes} {j k : LineKind} (hj : j.Fits below raw)
    (hk : k.Fits below raw) : j = k := by
  have hfile : Begins ["---", "+++"] raw →
      ¬ Begins ["From ", "Date:", "Subject:", "index ", "diff --git"] raw ∧ ¬ Begins ["@@"] raw :=
    fun h => ⟨h.not_begins (by decide), h.not_begins (by decide)⟩
  have hheader : Begins ["From ", "Date:", "Subject:", "index ", "diff --git"] raw →
      ¬ Begins ["@@"] raw := fun h => h.not_begins (by decide)
  have hsign : Begins ["+"] raw → ¬ Begins ["-"] raw := fun h => h.not_begins (by decide)
  have hunmarked : IsUnmarked raw → ¬ Begins ["---", "+++"] raw ∧
      ¬ Begins ["From ", "Date:", "Subject:", "index ", "diff --git"] raw ∧ ¬ Begins ["@@"] raw :=
    Bytes.isUnmarked_iff.mp
  cases j <;> cases k <;> grind [Fits]

theorem Carries.unique {raw p q : Bytes} {k : LineKind} (hp : k.Carries raw p)
    (hq : k.Carries raw q) : p = q := by
  cases k with
  | added => exact (List.cons.inj (hp.symm.trans hq)).2
  | removed => exact (List.cons.inj (hp.symm.trans hq)).2
  | context =>
    rcases hp with hp | ⟨hp, hblank⟩ <;> rcases hq with hq | ⟨hq, hblank'⟩
    · exact (List.cons.inj (hp.symm.trans hq)).2
    · exact absurd (begins_byte.mpr ⟨p, hp⟩) hblank'
    · exact absurd (begins_byte.mpr ⟨q, hq⟩) hblank
    · exact hp.symm.trans hq
  | other => exact hp.trans hq.symm
  | header => exact hp.trans hq.symm
  | fileMarker => exact hp.trans hq.symm
  | hunkMarker => exact hp.trans hq.symm

end LineKind

namespace PatchLine

open Bytes (Begins IsUnmarked startsWithAny_iff begins_byte begins_singleton)

/-! ### One line -/

/-- **A line gets the kind that fits it, and the payload of this kind.** -/
theorem fits_sortOut (inside : Bool) (raw : Bytes) :
    (sortOut inside raw).1.Fits (inside = true) raw ∧
      (sortOut inside raw).1.Carries raw (sortOut inside raw).2 := by
  unfold sortOut
  split_ifs with hfile hheader hhunk hinside
  · exact ⟨startsWithAny_iff.mp hfile, rfl⟩
  · exact ⟨startsWithAny_iff.mp hheader, rfl⟩
  · exact ⟨begins_singleton.mpr (List.isPrefixOf_iff_prefix.mp hhunk), rfl⟩
  all_goals
    rw [startsWithAny_iff] at hfile hheader
    rw [List.isPrefixOf_iff_prefix, ← begins_singleton] at hhunk
    have hunmarked : IsUnmarked raw := Bytes.isUnmarked_iff.mpr ⟨hfile, hheader, hhunk⟩
  · exact ⟨⟨hunmarked, by simpa using hinside⟩, rfl⟩
  · have hbelow : inside = true := by simpa using hinside
    split
    · exact ⟨⟨hunmarked, hbelow, begins_byte.mpr ⟨_, rfl⟩⟩, rfl⟩
    · exact ⟨⟨hunmarked, hbelow, begins_byte.mpr ⟨_, rfl⟩⟩, rfl⟩
    · rename_i rest
      have hblank : Begins [" "] (0x20 :: rest) := begins_byte.mpr ⟨rest, rfl⟩
      exact ⟨⟨hunmarked, hbelow, hblank.not_begins (by decide), hblank.not_begins (by decide)⟩,
        .inl rfl⟩
    · rename_i hadded hremoved hspaced
      refine ⟨⟨hunmarked, hbelow, fun h => ?_, fun h => ?_⟩, .inr ⟨rfl, fun h => ?_⟩⟩
      · obtain ⟨rest, hraw⟩ := begins_byte.mp h
        exact hadded rest hraw
      · obtain ⟨rest, hraw⟩ := begins_byte.mp h
        exact hremoved rest hraw
      · obtain ⟨rest, hraw⟩ := begins_byte.mp h
        exact hspaced rest hraw

/-- A line as the texts tell it: its place and its text, the kind that fits, and the payload of the
kind. -/
structure ToldBy (number : Nat) (raw : Bytes) (below : Prop) (l : PatchLine) : Prop where
  number_eq : l.number = number
  raw_eq : l.raw = raw
  kind_iff : ∀ k, l.kind = k ↔ k.Fits below raw
  carries : l.kind.Carries raw l.payload

/-- The texts tell all of a line. -/
theorem ToldBy.unique {number : Nat} {raw : Bytes} {below : Prop} {l m : PatchLine}
    (hl : l.ToldBy number raw below) (hm : m.ToldBy number raw below) : l = m := by
  have hkind : l.kind = m.kind := (hl.kind_iff _).mpr ((hm.kind_iff _).mp rfl)
  have hpayload : l.payload = m.payload := by
    refine hl.carries.unique ?_
    rw [hkind]
    exact hm.carries
  cases l
  cases m
  simp only [mk.injEq]
  exact ⟨hl.number_eq.trans hm.number_eq.symm, hl.raw_eq.trans hm.raw_eq.symm, hkind, hpayload⟩

theorem toldBy_sortOut {inside : Bool} {below : Prop} (hbelow : inside = true ↔ below) (number : Nat)
    (raw : Bytes) :
    ToldBy number raw below ⟨number, raw, (sortOut inside raw).1, (sortOut inside raw).2⟩ := by
  obtain ⟨hfits, hcarries⟩ := fits_sortOut inside raw
  rw [propext hbelow] at hfits
  refine ⟨rfl, rfl, fun k => ⟨?_, fun hk => hfits.unique hk⟩, hcarries⟩
  rintro rfl
  exact hfits

/-! ### All lines -/

/-- The lines of a patch as their texts tell them: there is one for each text, in their order, numbered
from 1. -/
structure AreTold (lines : List Bytes) (ls : List PatchLine) : Prop where
  length_eq : ls.length = lines.length
  line : ∀ i raw, lines[i]? = some raw → ∃ l : PatchLine, ls[i]? = some l ∧
    l.ToldBy (i + 1) raw (∃ above ∈ lines.take i, ("@@" : Bytes) <+: above)

theorem AreTold.unique {lines : List Bytes} {ls ms : List PatchLine} (hls : AreTold lines ls)
    (hms : AreTold lines ms) : ls = ms := by
  apply List.ext_getElem?
  intro i
  cases hraw : lines[i]? with
  | none =>
    rw [List.getElem?_eq_none_iff] at hraw
    rw [List.getElem?_eq_none (by rw [hls.length_eq]; exact hraw),
      List.getElem?_eq_none (by rw [hms.length_eq]; exact hraw)]
  | some raw =>
    obtain ⟨l, hl, htold⟩ := hls.line i raw hraw
    obtain ⟨m, hm, htold'⟩ := hms.line i raw hraw
    rw [hl, hm, htold.unique htold']

theorem any_isPrefixOf_iff {lines : List Bytes} :
    lines.any (hunkMark.isPrefixOf ·) = true ↔ ∃ above ∈ lines, hunkMark <+: above := by
  simp only [List.any_eq_true, List.isPrefixOf_iff_prefix]

theorem areTold_classify (lines : List Bytes) : AreTold lines (classify lines) := by
  refine ⟨length_classifyFrom false 1 lines, fun i raw hraw => ?_⟩
  rw [classify, getElem?_classifyFrom, hraw, Bool.false_or, Option.map_some, Nat.add_comm 1 i]
  exact ⟨_, rfl, toldBy_sortOut any_isPrefixOf_iff (i + 1) raw⟩

theorem any_hunkMarker_classify (lines : List Bytes) :
    (classify lines).any (·.kind == .hunkMarker) =
      decide (∃ above ∈ lines, ("@@" : Bytes) <+: above) := by
  rw [Bool.eq_iff_iff, decide_eq_true_iff, List.any_eq_true]
  constructor
  · rintro ⟨l, hl, hkind⟩
    obtain ⟨i, hi⟩ := List.getElem?_of_mem hl
    rw [classify, getElem?_classifyFrom] at hi
    obtain ⟨raw, hraw, rfl⟩ := Option.map_eq_some_iff.mp hi
    exact ⟨raw, List.mem_of_getElem? hraw, sortOut_hunkMarker_iff.mp (beq_iff_eq.mp hkind)⟩
  · rintro ⟨raw, hraw, hstart⟩
    obtain ⟨i, hi⟩ := List.getElem?_of_mem hraw
    obtain ⟨l, hl, htold⟩ := (areTold_classify lines).line i raw hi
    have hkind : l.kind = .hunkMarker := (htold.kind_iff _).mpr (begins_singleton.mpr hstart)
    exact ⟨l, List.mem_of_getElem? hl, beq_iff_eq.mpr hkind⟩

/-- **The kinds of lines in closed form.**  The classified lines of a patch are those that the texts tell,
one for each text: its place, the text itself, the one kind that fits the text and the lines above it, and
the payload of this kind.  So of a patch that is cut in two, the second part is classified by itself, but
for the hunk markers in the first part and for the places, which go on from there. -/
theorem classify_closed_form (lines : List Bytes) :
    (∀ ls, ls = classify lines ↔ AreTold lines ls) ∧
      ∀ more, classify (lines ++ more) = classify lines ++
        (classifyFrom (decide (∃ above ∈ lines, ("@@" : Bytes) <+: above)) 1 more).map
          fun l => { l with number := l.number + lines.length } := by
  refine ⟨fun ls => ⟨?_, fun hls => hls.unique (areTold_classify lines)⟩, fun more => ?_⟩
  · rintro rfl
    exact areTold_classify lines
  · have happend := classifyFrom_append false 1 lines more
    rw [Bool.false_or, classifyFrom_add] at happend
    rw [← any_hunkMarker_classify]
    exact happend

/-- A sign says nothing above the first hunk marker, and marks win over signs below it. -/
example : (classify ["+above", "@@ -1 +1 @@", "+++ below", "index 3", "--b", ""]).map (·.kind) =
    [.other, .hunkMarker, .fileMarker, .header, .removed, .context] := by decide

end PatchLine

end PatchAudit
