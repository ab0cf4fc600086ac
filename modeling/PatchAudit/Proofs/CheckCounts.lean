import Mathlib.Data.List.Forall2
import Mathlib.Data.List.Perm.Basic
import PatchAudit.Proofs.RecordReading

/-!
# Issues counted by check

A summary counts its issues under the names of their checks, in a tally that is kept in the order of
the names.  Counted into a table without an order, listed in any order and then sorted, the issues
give the same tally (`counts_by_check`): a tally in order without empty counts is fixed by how much it
counts under each name (`InOrder.eq_of_amount`).
-/

namespace PatchAudit

namespace Bytes

theorem ne_of_lt {a b : Bytes} (h : a < b) : a ≠ b := by
  rintro rfl
  exact List.lt_irrefl a h

theorem lt_of_not_lt {a b : Bytes} (h : ¬ b < a) (hne : a ≠ b) : a < b :=
  (List.le_iff_lt_or_eq.mp (List.not_lt.mp h)).resolve_right hne

end Bytes

/-! ### Tallies in order -/

namespace CheckCount

/-- How much a list counts under a name. -/
def amount (name : Bytes) (counts : List CheckCount) : Nat :=
  (counts.map fun c => if c.check = name then c.count else 0).sum

/-- A tally in the order of the names, each of which is there once, without empty counts. -/
structure InOrder (counts : List CheckCount) : Prop where
  names : counts.Pairwise fun a b => a.check < b.check
  pos : ∀ c ∈ counts, 0 < c.count

theorem amount_cons (name : Bytes) (c : CheckCount) (counts : List CheckCount) :
    amount name (c :: counts) = (if c.check = name then c.count else 0) + amount name counts := by
  simp [amount]

theorem amount_eq_zero {name : Bytes} {counts : List CheckCount}
    (h : ∀ c ∈ counts, c.check ≠ name) : amount name counts = 0 := by
  rw [amount, List.sum_eq_zero_iff]
  intro n hn
  obtain ⟨c, hc, rfl⟩ := List.mem_map.mp hn
  exact if_neg (h c hc)

/-- A tally in order has the entries that it counts. -/
theorem InOrder.mem_iff {counts : List CheckCount} (h : InOrder counts) (c : CheckCount) :
    c ∈ counts ↔ 0 < c.count ∧ c.count = amount c.check counts := by
  induction counts with
  | nil =>
    simp only [amount, List.map_nil, List.sum_nil, List.not_mem_nil, false_iff]
    omega
  | cons first rest ih =>
    obtain ⟨hfirst, hrest⟩ := List.pairwise_cons.mp h.names
    obtain ⟨hpos, hposRest⟩ := List.forall_mem_cons.mp h.pos
    rw [List.mem_cons, ih ⟨hrest, hposRest⟩, amount_cons]
    by_cases hname : first.check = c.check
    · have hnone : amount c.check rest = 0 :=
        amount_eq_zero fun d hd heq => Bytes.ne_of_lt (hfirst d hd) (hname.trans heq.symm)
      rw [if_pos hname, hnone, Nat.add_zero]
      constructor
      · rintro (rfl | ⟨hc, hzero⟩)
        · exact ⟨hpos, rfl⟩
        · omega
      · rintro ⟨-, hcount⟩
        refine .inl ?_
        cases c
        cases first
        simp_all
    · rw [if_neg hname, Nat.zero_add]
      refine ⟨fun hc => hc.resolve_left ?_, .inr⟩
      rintro rfl
      exact hname rfl

theorem InOrder.nodup {counts : List CheckCount} (h : InOrder counts) :
    (counts.map CheckCount.check).Nodup := by
  rw [List.Nodup, List.pairwise_map]
  exact h.names.imp fun hlt => Bytes.ne_of_lt hlt

/-- Tallies with the same entries, each in order, are the same. -/
theorem eq_of_mem_iff {counts others : List CheckCount}
    (h : counts.Pairwise fun a b => a.check < b.check)
    (h' : others.Pairwise fun a b => a.check < b.check) (hsame : ∀ c, c ∈ counts ↔ c ∈ others) :
    counts = others := by
  have hnodup : ∀ {l : List CheckCount}, l.Pairwise (fun a b => a.check < b.check) → l.Nodup :=
    fun hl => hl.imp fun hlt heq => Bytes.ne_of_lt hlt (congrArg check heq)
  have hperm : counts.Perm others := (List.perm_ext_iff_of_nodup (hnodup h) (hnodup h')).mpr hsame
  exact hperm.eq_of_pairwise (fun a b _ _ hab hba => absurd hba (List.lt_asymm hab)) h h'

/-- **A tally in order is fixed by what it counts.** -/
theorem InOrder.eq_of_amount {counts others : List CheckCount} (h : InOrder counts)
    (h' : InOrder others) (hsame : ∀ name, amount name counts = amount name others) :
    counts = others :=
  eq_of_mem_iff h.names h'.names fun c => by rw [h.mem_iff, h'.mem_iff, hsame]

end CheckCount

namespace Summary

open CheckCount (amount amount_cons InOrder)

theorem amount_tally (x name : Bytes) (counts : List CheckCount) :
    amount x (tally name counts) = amount x counts + if name = x then 1 else 0 := by
  induction counts with
  | nil => simp [tally, amount]
  | cons c rest ih =>
    rw [tally]
    by_cases hsame : name = c.check
    · rw [if_pos hsame, amount_cons, amount_cons, hsame]
      dsimp only
      split_ifs <;> omega
    · rw [if_neg hsame]
      by_cases hlt : name < c.check
      · rw [if_pos hlt, amount_cons]
        dsimp only
        omega
      · rw [if_neg hlt, amount_cons, amount_cons, ih]
        omega

theorem mem_tally {name : Bytes} {counts : List CheckCount} {c : CheckCount}
    (h : c ∈ tally name counts) : c.check = name ∧ 0 < c.count ∨ c ∈ counts := by
  induction counts with
  | nil =>
    rw [tally, List.mem_singleton] at h
    exact .inl ⟨by rw [h], by rw [h]; exact Nat.one_pos⟩
  | cons d rest ih =>
    rw [tally] at h
    split_ifs at h
    · rcases List.mem_cons.mp h with rfl | h
      · exact .inl ⟨rfl, Nat.succ_pos _⟩
      · exact .inr (List.mem_cons_of_mem _ h)
    · rcases List.mem_cons.mp h with rfl | h
      · exact .inl ⟨rfl, Nat.one_pos⟩
      · exact .inr h
    · rcases List.mem_cons.mp h with rfl | h
      · exact .inr List.mem_cons_self
      · exact (ih h).imp_right (List.mem_cons_of_mem _)

/-- One more issue leaves a tally in order. -/
theorem inOrder_tally {counts : List CheckCount} (h : InOrder counts) (name : Bytes) :
    InOrder (tally name counts) where
  names := by
    have hnames := h.names
    clear h
    induction counts with
    | nil => exact List.pairwise_singleton _ _
    | cons c rest ih =>
      obtain ⟨hfirst, hrest⟩ := List.pairwise_cons.mp hnames
      rw [Summary.tally]
      split_ifs with hsame hlt
      · exact List.pairwise_cons.mpr ⟨fun d hd => hsame ▸ hfirst d hd, hrest⟩
      · refine List.pairwise_cons.mpr ⟨fun d hd => ?_, hnames⟩
        rcases List.mem_cons.mp hd with rfl | hd
        · exact hlt
        · exact List.lt_trans hlt (hfirst d hd)
      · refine List.pairwise_cons.mpr ⟨fun d hd => ?_, ih hrest⟩
        rcases mem_tally hd with ⟨hname, -⟩ | hd
        · rw [hname]
          exact Bytes.lt_of_not_lt hlt (Ne.symm hsame)
        · exact hfirst d hd
  pos := by
    intro c hc
    rcases mem_tally hc with ⟨-, hpos⟩ | hc
    · exact hpos
    · exact h.pos c hc

/-- The number of issues under a check name. -/
def countOf (s : Summary) (name : Bytes) : Nat := s.issues.countP (·.checkName = name)

theorem inOrder_byCheck (s : Summary) : InOrder s.byCheck := by
  have hfold : ∀ (issues : List Issue) (counts : List CheckCount), InOrder counts →
      InOrder (issues.foldl (fun acc i => Summary.tally i.checkName acc) counts) := by
    intro issues
    induction issues with
    | nil => exact fun counts h => h
    | cons i issues ih => exact fun counts h => ih _ (inOrder_tally h i.checkName)
  exact hfold s.issues [] ⟨.nil, by simp⟩

theorem amount_byCheck (s : Summary) (name : Bytes) : amount name s.byCheck = s.countOf name := by
  have hfold : ∀ (issues : List Issue) (counts : List CheckCount),
      amount name (issues.foldl (fun acc i => tally i.checkName acc) counts) =
        amount name counts + issues.countP (·.checkName = name) := by
    intro issues
    induction issues with
    | nil => exact fun counts => rfl
    | cons i issues ih =>
      intro counts
      rw [List.foldl_cons, ih, amount_tally, List.countP_cons]
      simp only [decide_eq_true_eq]
      omega
  exact (hfold s.issues []).trans (Nat.zero_add _)

theorem mem_byCheck_iff (s : Summary) (c : CheckCount) :
    c ∈ s.byCheck ↔ 0 < c.count ∧ c.count = s.countOf c.check := by
  rw [s.inOrder_byCheck.mem_iff, amount_byCheck]

theorem countOf_pos_iff (s : Summary) (name : Bytes) :
    0 < s.countOf name ↔ ∃ r ∈ s.reports, ∃ i ∈ r.issues, i.checkName = name := by
  rw [countOf, List.countP_pos_iff]
  simp only [issues, List.mem_flatMap, decide_eq_true_eq]
  grind

/-! ### Counting into a table -/

/-- The counts in a table without order, into which the issues are counted one after the other; a
name that is not in the table counts nothing. -/
def table (s : Summary) : Bytes → Nat :=
  s.issues.foldl (fun t i => Function.update t i.checkName (t i.checkName + 1)) fun _ => 0

theorem table_eq (s : Summary) : s.table = s.countOf := by
  have hfold : ∀ (issues : List Issue) (t : Bytes → Nat) (name : Bytes),
      issues.foldl (fun t i => Function.update t i.checkName (t i.checkName + 1)) t name =
        t name + issues.countP (·.checkName = name) := by
    intro issues
    induction issues with
    | nil => exact fun t name => rfl
    | cons i issues ih =>
      intro t name
      rw [List.foldl_cons, ih, List.countP_cons, Function.update_apply]
      simp only [decide_eq_true_eq, eq_comm (a := name)]
      split_ifs with hname
      · rw [hname]
        omega
      · omega
  funext name
  exact (hfold s.issues (fun _ => 0) name).trans (Nat.zero_add _)

/-- An order in which the names of the table may be listed. -/
structure Lists (s : Summary) (names : List Bytes) : Prop where
  once : names.Nodup
  mem_iff : ∀ name, name ∈ names ↔ 0 < s.table name

/-- A result of sorting the counts of the listed names: all of them, none in front of one that should
come before it.  Which of the counts that the order does not tell apart comes first is left open. -/
structure Sorts (s : Summary) (names : List Bytes) (sorted : List CheckCount) : Prop where
  perm : sorted.Perm (names.map fun name => ⟨name, s.table name⟩)
  order : sorted.Pairwise fun a b => ¬ b.check < a.check

theorem Sorts.names {s : Summary} {names : List Bytes} {sorted : List CheckCount}
    (h : s.Sorts names sorted) : (sorted.map CheckCount.check).Perm names := by
  simpa [Function.comp_def] using h.perm.map CheckCount.check

/-- Whatever the order of the names and the way of sorting, the result is the tally. -/
theorem Sorts.eq_byCheck {s : Summary} {names : List Bytes} {sorted : List CheckCount}
    (h : s.Sorts names sorted) (hnames : s.Lists names) : sorted = s.byCheck := by
  have hmem : ∀ c, c ∈ sorted ↔ 0 < c.count ∧ c.count = s.countOf c.check := by
    intro c
    rw [h.perm.mem_iff, List.mem_map]
    constructor
    · rintro ⟨name, hname, rfl⟩
      exact ⟨(hnames.mem_iff name).mp hname, by rw [table_eq]⟩
    · rintro ⟨hpos, hcount⟩
      rw [hcount, ← table_eq] at hpos
      exact ⟨c.check, (hnames.mem_iff c.check).mpr hpos, by rw [table_eq, ← hcount]⟩
  have hnodup : (sorted.map CheckCount.check).Nodup := h.names.nodup_iff.mpr hnames.once
  have hstrict : sorted.Pairwise fun a b => a.check < b.check := by
    rw [List.Nodup, List.pairwise_map] at hnodup
    exact (h.order.and hnodup).imp fun ⟨hle, hne⟩ => Bytes.lt_of_not_lt hle hne
  exact CheckCount.eq_of_mem_iff hstrict s.inOrder_byCheck.names
    fun c => (hmem c).trans (s.mem_byCheck_iff c).symm

/-- The names of the tally are one way to list the names of the table. -/
theorem lists_byCheck (s : Summary) : s.Lists (s.byCheck.map CheckCount.check) where
  once := s.inOrder_byCheck.nodup
  mem_iff := by
    intro name
    rw [table_eq, List.mem_map]
    constructor
    · rintro ⟨c, hc, rfl⟩
      obtain ⟨hpos, hcount⟩ := (s.mem_byCheck_iff c).mp hc
      rwa [← hcount]
    · exact fun hpos => ⟨⟨name, s.countOf name⟩, (s.mem_byCheck_iff _).mpr ⟨hpos, rfl⟩, rfl⟩

/-! ### Other orders of the issues -/

/-- The same reports in another order, each with its issues in another order. -/
def Rearranged (s t : Summary) : Prop :=
  ∃ reports, s.reports.Perm reports ∧
    List.Forall₂ (fun a b => a.issues.Perm b.issues) reports t.reports

theorem Rearranged.issues {s t : Summary} (h : s.Rearranged t) : s.issues.Perm t.issues := by
  obtain ⟨reports, hperm, hissues⟩ := h
  refine (hperm.flatMap_right FileReport.issues).trans ?_
  rw [Summary.issues]
  generalize t.reports = others at hissues
  clear hperm
  induction hissues with
  | nil => exact .nil
  | cons hab _ ih => exact hab.append ih

theorem Rearranged.byCheck {s t : Summary} (h : s.Rearranged t) : t.byCheck = s.byCheck := by
  refine t.inOrder_byCheck.eq_of_amount s.inOrder_byCheck fun name => ?_
  rw [amount_byCheck, amount_byCheck]
  exact (h.issues.countP_eq _).symm

end Summary

/-- **The counts by check are the sorted histogram of the issues.**  The names come in strict byte
order; they are those of the issues, by the check or else by the kind; each count is the number of
issues under its name; the counts add up to all issues.  Counting into a table without order, listing
its names in any order and sorting the counts in any way gives the same list, and so does any other
order of the reports and of the issues in them. -/
theorem counts_by_check (s : Summary) :
    s.byCheck.Pairwise (fun a b => a.check < b.check) ∧
    (∀ name, (∃ c ∈ s.byCheck, c.check = name) ↔ ∃ r ∈ s.reports, ∃ i ∈ r.issues,
      (if i.check = [] then i.kind.word else i.check) = name) ∧
    (∀ c ∈ s.byCheck, 0 < c.count ∧ c.count = s.issues.countP fun i =>
      (if i.check = [] then i.kind.word else i.check) = c.check) ∧
    (s.byCheck.map CheckCount.count).sum = s.issueCount ∧
    (∃ names, s.Lists names ∧ s.Sorts names s.byCheck) ∧
    (∀ names sorted, s.Lists names → s.Sorts names sorted → sorted = s.byCheck) ∧
    ∀ t, s.Rearranged t → t.byCheck = s.byCheck := by
  have hname : ∀ i : Issue, (if i.check = [] then i.kind.word else i.check) = i.checkName := by
    intro i
    simp [Issue.checkName]
  have hlists := s.lists_byCheck
  simp only [hname]
  refine ⟨s.inOrder_byCheck.names, fun name => ?_, fun c hc => (s.mem_byCheck_iff c).mp hc,
    s.sum_byCheck, ⟨_, hlists, ?_, ?_⟩, fun _ _ hnames hsorts => hsorts.eq_byCheck hnames,
    fun t ht => ht.byCheck⟩
  · rw [← Summary.countOf_pos_iff, ← Summary.table_eq, ← hlists.mem_iff, List.mem_map]
  · rw [List.map_map]
    have hsame : ∀ c ∈ s.byCheck, CheckCount.mk c.check (s.table c.check) = c := by
      intro c hc
      rw [Summary.table_eq, ← ((s.mem_byCheck_iff c).mp hc).2]
    exact .of_eq (List.map_congr_left hsame |>.trans (List.map_id' _)).symm
  · exact s.inOrder_byCheck.names.imp fun hlt => List.lt_asymm hlt

/-- A named check and a kind without one fall together, and the kinds come in another order than the
issues. -/
def mergedSummary : Summary :=
  ⟨"p", [⟨"p/a", "a", [⟨"structure", .shape, 0, "x", .warning⟩, ⟨"braces", .braces, 2, "y", .warning⟩], {}⟩,
    ⟨"p/b", "b", [⟨"", .shape, 0, "z", .warning⟩], {}⟩]⟩

theorem counts_by_check_merged :
    mergedSummary.byCheck = [⟨"braces", 1⟩, ⟨"structure", 2⟩] ∧
    mergedSummary.Lists ["structure", "braces"] ∧
    mergedSummary.Sorts ["structure", "braces"] mergedSummary.byCheck ∧
    mergedSummary.Rearranged ⟨"q", mergedSummary.reports.reverse⟩ ∧
    Summary.byCheck ⟨"q", mergedSummary.reports.reverse⟩ = mergedSummary.byCheck := by
  obtain ⟨-, -, -, -, -, hsorted, hrearranged⟩ := counts_by_check mergedSummary
  have hcounts : [⟨"braces", 1⟩, ⟨"structure", 2⟩] = mergedSummary.byCheck := by decide +kernel
  have hlists : mergedSummary.Lists ["structure", "braces"] := by
    refine ⟨by decide, fun name => ?_⟩
    rw [← mergedSummary.lists_byCheck.mem_iff name, ← hcounts]
    simp [or_comm]
  have hsorts : mergedSummary.Sorts ["structure", "braces"] [⟨"braces", 1⟩, ⟨"structure", 2⟩] :=
    ⟨by decide +kernel, by decide +kernel⟩
  have hother : mergedSummary.Rearranged ⟨"q", mergedSummary.reports.reverse⟩ :=
    ⟨_, (List.reverse_perm _).symm, List.forall₂_same.mpr fun r _ => .refl r.issues⟩
  have heq := hsorted _ _ hlists hsorts
  exact ⟨heq.symm, hlists, heq ▸ hsorts, hother, hrearranged _ hother⟩

end PatchAudit
