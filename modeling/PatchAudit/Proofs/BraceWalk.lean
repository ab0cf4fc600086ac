import Mathlib.Data.List.Basic
import Mathlib.Data.List.Induction
import PatchAudit.Proofs.IssueNavigation

/-!
# The brace check without its state

The lines that count move a height up and down, and nothing holds it at zero.  The balance of the
check is how far the height stands above its lowest value so far (`run_balance_eq`), so a line closes
more than is open exactly where the height falls below everything before it (`run_issues_eq`).
Braces only stay open below a hunk marker (`insideHunk_of_balance`), and `brace_scan_closed_form`
puts the three together for the lines of a patch.
-/

namespace PatchAudit

namespace BraceScan

/-! ### Heights -/

/-- The lines whose braces count: the added ones that are no comment. -/
def counted (marks : List Bytes) (lines : List PatchLine) : List PatchLine :=
  lines.filter fun l => l.kind = .added ∧ !BraceCount.isComment marks l.payload

/-- How many braces a line opens more than it closes. -/
def rise (l : PatchLine) : Int := (l.payload.count 0x7B : Int) - (l.payload.count 0x7D : Int)

/-- How the lines that count move the height, one after the other. -/
def rises (marks : List Bytes) (lines : List PatchLine) : List Int := (counted marks lines).map rise

/-- The height after some of the moves. -/
def height (ds : List Int) (k : Nat) : Int := (ds.take k).sum

/-- The lowest height up to there. -/
def lowest (ds : List Int) : Nat → Int
  | 0 => 0
  | k + 1 => min (lowest ds k) (height ds (k + 1))

@[simp] theorem height_zero (ds : List Int) : height ds 0 = 0 := rfl

theorem height_append {ds : List Int} (es : List Int) {k : Nat} (h : k ≤ ds.length) :
    height (ds ++ es) k = height ds k := by
  rw [height, List.take_append_of_le_length h, height]

theorem height_snoc (ds : List Int) (d : Int) :
    height (ds ++ [d]) (ds.length + 1) = height ds ds.length + d := by
  have hall : (ds ++ [d]).take (ds.length + 1) = ds ++ [d] := List.take_of_length_le (by simp)
  rw [height, hall, height, List.take_length, List.sum_append, List.sum_singleton]

theorem lowest_le (ds : List Int) {j k : Nat} (h : j ≤ k) : lowest ds k ≤ height ds j := by
  induction k with
  | zero =>
    obtain rfl : j = 0 := by omega
    exact Int.le_refl _
  | succ k ih =>
    rw [lowest]
    rcases Nat.lt_or_eq_of_le h with hlt | rfl
    · have hbefore := ih (by omega)
      omega
    · omega

/-- The lowest height is one of the heights. -/
theorem exists_lowest (ds : List Int) (k : Nat) : ∃ j, j ≤ k ∧ lowest ds k = height ds j := by
  induction k with
  | zero => exact ⟨0, Nat.le_refl 0, rfl⟩
  | succ k ih =>
    obtain ⟨j, hj, heq⟩ := ih
    rw [lowest]
    rcases Int.le_total (lowest ds k) (height ds (k + 1)) with hle | hle
    · exact ⟨j, by omega, by omega⟩
    · exact ⟨k + 1, Nat.le_refl _, by omega⟩

theorem lowest_append {ds : List Int} (es : List Int) {k : Nat} (h : k ≤ ds.length) :
    lowest (ds ++ es) k = lowest ds k := by
  induction k with
  | zero => rfl
  | succ k ih => rw [lowest, lowest, ih (by omega), height_append es h]

theorem lowest_snoc (ds : List Int) (d : Int) :
    lowest (ds ++ [d]) (ds.length + 1) =
      min (lowest ds ds.length) (height ds ds.length + d) := by
  rw [lowest, height_snoc, lowest_append [d] (Nat.le_refl _)]

/-! ### Lines put behind others -/

variable {marks : List Bytes} {l : PatchLine}

/-- The lines on which the height falls below everything before it. -/
def lows (marks : List Bytes) (lines : List PatchLine) : List PatchLine :=
  ((counted marks lines).zipIdx.filter fun p =>
    height (rises marks lines) (p.2 + 1) < lowest (rises marks lines) p.2).map Prod.fst

theorem counted_snoc_of_counts (h : l.kind = .added ∧ !BraceCount.isComment marks l.payload)
    (lines : List PatchLine) : counted marks (lines ++ [l]) = counted marks lines ++ [l] := by
  rw [counted, List.filter_append, List.filter_singleton, decide_eq_true h]
  rfl

theorem counted_snoc_of_not_counts
    (h : ¬ (l.kind = .added ∧ !BraceCount.isComment marks l.payload)) (lines : List PatchLine) :
    counted marks (lines ++ [l]) = counted marks lines := by
  rw [counted, List.filter_append, List.filter_singleton, decide_eq_false h]
  exact List.append_nil _

theorem rises_snoc_of_counts (h : l.kind = .added ∧ !BraceCount.isComment marks l.payload)
    (lines : List PatchLine) :
    rises marks (lines ++ [l]) = rises marks lines ++ [rise l] := by
  rw [rises, counted_snoc_of_counts h, List.map_append]
  rfl

theorem lows_snoc_of_counts (h : l.kind = .added ∧ !BraceCount.isComment marks l.payload)
    (lines : List PatchLine) :
    lows marks (lines ++ [l]) = lows marks lines ++
      if height (rises marks lines) (rises marks lines).length + rise l
          < lowest (rises marks lines) (rises marks lines).length then [l] else [] := by
  have hlength : (rises marks lines).length = (counted marks lines).length := List.length_map ..
  -- the lines before the last one keep their heights
  have hbefore : ∀ p ∈ (counted marks lines).zipIdx,
      decide (height (rises marks (lines ++ [l])) (p.2 + 1)
          < lowest (rises marks (lines ++ [l])) p.2) =
        decide (height (rises marks lines) (p.2 + 1) < lowest (rises marks lines) p.2) := by
    intro p hp
    have hlt : p.2 < (counted marks lines).length := by
      have hplace := List.snd_lt_add_of_mem_zipIdx hp
      omega
    rw [rises_snoc_of_counts h, height_append _ (by omega), lowest_append _ (by omega)]
  have hlast : decide (height (rises marks (lines ++ [l])) ((counted marks lines).length + 1)
        < lowest (rises marks (lines ++ [l])) (counted marks lines).length) =
      decide (height (rises marks lines) (rises marks lines).length + rise l
        < lowest (rises marks lines) (rises marks lines).length) := by
    rw [rises_snoc_of_counts h, ← hlength, height_snoc, lowest_append _ (Nat.le_refl _)]
  rw [lows, counted_snoc_of_counts h, List.zipIdx_append, List.filter_append, List.map_append,
    List.filter_congr hbefore, List.zipIdx_singleton, List.filter_singleton, Nat.zero_add, hlast,
    lows]
  congr 1
  split_ifs with hlow <;> simp [hlow]

/-! ### The check along the walk -/

theorem step_of_counts (h : l.kind = .added ∧ !BraceCount.isComment marks l.payload)
    (s : BraceScan) :
    step marks s l =
      ({ s with balance := ((s.balance : Int) + rise l).toNat },
        if (s.balance : Int) + rise l < 0 then
          some (issue l.number "unmatched closing brace")
        else none) := by
  have hkind : l.kind ≠ .hunkMarker := by
    rw [h.1]
    decide
  rw [step, if_neg hkind, BraceCount.ofLine?, if_pos h]
  rfl

theorem step_of_not_counts (h : ¬ (l.kind = .added ∧ !BraceCount.isComment marks l.payload))
    (s : BraceScan) : (step marks s l).1.balance = s.balance ∧ (step marks s l).2 = none := by
  rw [step, BraceCount.ofLine?, if_neg h]
  split_ifs <;> exact ⟨rfl, rfl⟩

theorem run_append_issues (marks : List Bytes) (s : BraceScan) (xs ys : List PatchLine) :
    (run marks s (xs ++ ys)).1 = (run marks s xs).1 ++ (run marks (run marks s xs).2 ys).1 := by
  induction xs generalizing s with
  | nil => rfl
  | cons l xs ih =>
    rw [List.cons_append, run_cons, run_cons, ih, List.append_assoc]

theorem run_snoc (marks : List Bytes) (lines : List PatchLine) (l : PatchLine) :
    run marks {} (lines ++ [l]) =
      ((run marks {} lines).1 ++ (step marks (run marks {} lines).2 l).2.toList,
        (step marks (run marks {} lines).2 l).1) := by
  refine Prod.ext ?_ ?_
  · rw [run_append_issues, run_cons]
    exact congrArg _ (List.append_nil _)
  · rw [run_append]
    rfl

/-- **The balance is the height above the lowest one**: what takes the height to a new low leaves
nothing open. -/
theorem run_balance_eq (marks : List Bytes) (lines : List PatchLine) :
    ((run marks {} lines).2.balance : Int) =
      height (rises marks lines) (rises marks lines).length
        - lowest (rises marks lines) (rises marks lines).length := by
  induction lines using List.reverseRecOn with
  | nil => rfl
  | append_singleton lines l ih =>
    rw [run_snoc]
    by_cases h : l.kind = .added ∧ !BraceCount.isComment marks l.payload
    · rw [step_of_counts h, rises_snoc_of_counts h, List.length_append, List.length_singleton,
        height_snoc, lowest_snoc]
      simp only
      omega
    · have hrises : rises marks (lines ++ [l]) = rises marks lines := by
        rw [rises, counted_snoc_of_not_counts h, rises]
      rw [hrises, (step_of_not_counts h _).1, ih]

/-- The issues of single lines stand where the height reaches a new low. -/
theorem run_issues_eq (marks : List Bytes) (lines : List PatchLine) :
    (run marks {} lines).1 =
      (lows marks lines).map fun l => issue l.number "unmatched closing brace" := by
  induction lines using List.reverseRecOn with
  | nil => rfl
  | append_singleton lines l ih =>
    rw [run_snoc, ih]
    by_cases h : l.kind = .added ∧ !BraceCount.isComment marks l.payload
    · -- the balance drops below zero just when the height drops below the lowest one
      have hbalance := run_balance_eq marks lines
      rw [step_of_counts h, lows_snoc_of_counts h, List.map_append]
      split_ifs with hnegative hlow hlow
      · rfl
      · omega
      · omega
      · rfl
    · have hlows : lows marks (lines ++ [l]) = lows marks lines := by
        rw [lows, rises, counted_snoc_of_not_counts h, lows, rises]
      rw [hlows, (step_of_not_counts h _).2]
      exact List.append_nil _

/-! ### Open braces and hunks -/

theorem step_insideHunk (marks : List Bytes) (s : BraceScan) (l : PatchLine) :
    (step marks s l).1.insideHunk = (s.insideHunk || l.kind == .hunkMarker) := by
  unfold step
  split_ifs with h
  · simp [h]
  · have hkind : (l.kind == LineKind.hunkMarker) = false := beq_false_of_ne h
    rw [hkind, Bool.or_false]
    cases BraceCount.ofLine? marks l <;> rfl

/-- Braces are only open where the check has seen a hunk marker, as it knows of one exactly where
the lines are taken for content. -/
theorem insideHunk_of_balance {marks : List Bytes} {s : BraceScan} {number : Nat}
    (lines : List Bytes) (h : 0 < s.balance → s.insideHunk = true)
    (hopen : 0 < (run marks s (PatchLine.classifyFrom s.insideHunk number lines)).2.balance) :
    (run marks s (PatchLine.classifyFrom s.insideHunk number lines)).2.insideHunk = true := by
  induction lines generalizing s number with
  | nil => exact h hopen
  | cons raw rest ih =>
    rw [PatchLine.classifyFrom, run_cons] at hopen ⊢
    simp only at hopen ⊢
    have hinside := step_insideHunk marks s
      ⟨number, raw, (PatchLine.sortOut s.insideHunk raw).1, (PatchLine.sortOut s.insideHunk raw).2⟩
    rw [← hinside] at hopen ⊢
    refine ih ?_ hopen
    intro hpositive
    rw [hinside]
    cases hs : s.insideHunk with
    | true => rfl
    | false =>
      -- above the first hunk marker nothing is added, so nothing can have been opened
      rw [hs] at hpositive
      have hcounts : ¬ ((PatchLine.sortOut false raw).1 = .added
          ∧ !BraceCount.isComment marks (PatchLine.sortOut false raw).2) :=
        fun hcounts => PatchLine.sortOut_outside raw hcounts.1
      rw [(step_of_not_counts hcounts s).1] at hpositive
      exact absurd (h hpositive) (by rw [hs]; decide)

/-! ### Silence -/

theorem lows_eq_nil_iff {marks : List Bytes} {lines : List PatchLine} :
    lows marks lines = [] ↔
      ∀ k, k ≤ (rises marks lines).length → 0 ≤ height (rises marks lines) k := by
  have hlength : (rises marks lines).length = (counted marks lines).length := List.length_map ..
  rw [lows, List.map_eq_nil_iff, List.filter_eq_nil_iff]
  constructor
  · intro hnone
    -- without a new low the lowest height stays that of the start
    have hlowest : ∀ k, k ≤ (rises marks lines).length → lowest (rises marks lines) k = 0 := by
      intro k
      induction k with
      | zero => exact fun _ => rfl
      | succ k ih =>
        intro hk
        have hplace : k < (counted marks lines).length := by omega
        have hmem : ((counted marks lines)[k], k) ∈ (counted marks lines).zipIdx := by
          rw [List.mem_zipIdx_iff_getElem?, List.getElem?_eq_getElem hplace]
        have hnot := hnone _ hmem
        simp only [decide_eq_true_eq] at hnot
        have hzero := ih (by omega)
        rw [lowest]
        omega
    intro k hk
    have hle := lowest_le (rises marks lines) (Nat.le_refl k)
    rw [hlowest k hk] at hle
    exact hle
  · rintro hheights ⟨l, k⟩ hmem
    have hplace : k < (counted marks lines).length := by
      have hlt := List.snd_lt_add_of_mem_zipIdx hmem
      omega
    have hlow := lowest_le (rises marks lines) (Nat.zero_le k)
    have hnext := hheights (k + 1) (by omega)
    simp only [decide_eq_true_eq]
    rw [height_zero] at hlow
    omega

end BraceScan

open BraceScan in
/-- **The brace check in closed form.**  Over the lines that count, the check reports those on which
the height of the braces falls below all heights before; the braces it has open, at the end and after
any number of lines, are the height above the lowest one; and it reports those open at the end, if
there are any, as the hunk marker has then been seen.  So it says nothing exactly if no height is
below zero and the last one is zero. -/
theorem brace_scan_closed_form (marks : List Bytes) (lines : List Bytes) :
    let file := PatchLine.classify lines
    let top := height (rises marks file) (rises marks file).length
    let low := lowest (rises marks file) (rises marks file).length
    (scan marks file).1 =
        (lows marks file).map (fun l => issue l.number "unmatched closing brace") ++
          (if 0 < top - low then
            [issue 0 (Bytes.ofNat (top - low).toNat ++ " unclosed braces")] else []) ∧
      ((scan marks file).2.balance : Int) = top - low ∧
      (∀ n, ((run marks {} (file.take n)).2.balance : Int) =
        height (rises marks (file.take n)) (rises marks (file.take n)).length
          - lowest (rises marks (file.take n)) (rises marks (file.take n)).length) ∧
      ((scan marks file).1 = [] ↔
        (∀ k, k ≤ (rises marks file).length → 0 ≤ height (rises marks file) k) ∧ top = 0) := by
  intro file top low
  have hbalance : ((run marks {} file).2.balance : Int) = top - low := run_balance_eq marks file
  have hfinal : (run marks {} file).2.final?.toList =
      if 0 < top - low then
        [issue 0 (Bytes.ofNat (top - low).toNat ++ " unclosed braces")] else [] := by
    have hnat : (run marks {} file).2.balance = (top - low).toNat := by omega
    by_cases hopen : 0 < top - low
    · have hinside : (run marks {} file).2.insideHunk = true :=
        insideHunk_of_balance lines (by decide) (by show 0 < (run marks {} file).2.balance; omega)
      rw [final?, if_pos ⟨by omega, hinside⟩, if_pos hopen, hnat]
      rfl
    · rw [final?, if_neg fun h => hopen (by omega), if_neg hopen]
      rfl
  have hissues : (scan marks file).1 =
      (lows marks file).map (fun l => issue l.number "unmatched closing brace") ++
        (if 0 < top - low then
          [issue 0 (Bytes.ofNat (top - low).toNat ++ " unclosed braces")] else []) := by
    rw [← hfinal, ← run_issues_eq]
    rfl
  refine ⟨hissues, hbalance, fun n => run_balance_eq marks (file.take n), ?_⟩
  rw [hissues, List.append_eq_nil_iff, List.map_eq_nil_iff, lows_eq_nil_iff]
  have hlow : low ≤ 0 := lowest_le _ (Nat.zero_le _)
  constructor
  · rintro ⟨hheights, hsilent⟩
    have htop : 0 ≤ top := hheights _ (Nat.le_refl _)
    split_ifs at hsilent
    exact ⟨hheights, by omega⟩
  · rintro ⟨hheights, htop⟩
    obtain ⟨j, hj, heq⟩ := exists_lowest (rises marks file) (rises marks file).length
    have hlowest : low = height (rises marks file) j := heq
    have hnonneg := hheights j hj
    exact ⟨hheights, if_neg (by omega)⟩

end PatchAudit
