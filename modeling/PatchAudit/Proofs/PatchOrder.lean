import Mathlib.Data.List.Nodup
import PatchAudit.Proofs.Text
import PatchAudit.Run.Discover

/-!
# Sorting only rearranges

A quicksort does nothing but exchange elements, so what comes out of it is a rearrangement of what
went in (`Quicksort.sort_perm`).  Finding patches therefore loses none and invents none, and a run
that finds patches at all has at least one (`Disk.patches_ne_nil`).  Paths of different names that
are in order already stay as they are (`Path.sortByBase_of_pairwise`).
-/

namespace PatchAudit

namespace Quicksort

variable {α : Type}

theorem swapIfInBounds_perm (xs : Array α) (i j : Nat) : (xs.swapIfInBounds i j).Perm xs := by
  rw [Array.swapIfInBounds_def]
  split_ifs with hi hj
  · exact Array.swap_perm hi hj
  · exact .refl _
  · exact .refl _

/-- A fold of steps that rearrange is a rearrangement. -/
theorem foldl_perm {β : Type} {f : Array α → β → Array α} (hf : ∀ xs b, (f xs b).Perm xs)
    (bs : List β) (xs : Array α) : (bs.foldl f xs).Perm xs := by
  induction bs generalizing xs with
  | nil => exact .refl _
  | cons b bs ih => exact (ih (f xs b)).trans (hf xs b)

/-! ### Short ranges and heaps -/

theorem sink_perm (lt : α → α → Bool) (low i : Nat) (xs : Array α) :
    (sink lt low i xs).Perm xs := by
  induction i generalizing xs with
  | zero => exact .refl _
  | succ i ih =>
    unfold sink
    split_ifs
    · exact (ih _).trans (swapIfInBounds_perm xs _ _)
    · exact .refl _

theorem rise_perm (lt : α → α → Bool) (high fuel i : Nat) (xs : Array α) :
    (rise lt high fuel i xs).Perm xs := by
  induction fuel generalizing i xs with
  | zero => exact .refl _
  | succ fuel ih =>
    unfold rise
    split_ifs
    · exact (ih _ _).trans (swapIfInBounds_perm xs _ _)
    · exact .refl _

theorem siftDown_perm (lt : α → α → Bool) (low size fuel root : Nat) (xs : Array α) :
    (siftDown lt low size fuel root xs).Perm xs := by
  induction fuel generalizing root xs with
  | zero => exact .refl _
  | succ fuel ih =>
    unfold siftDown
    extract_lets left child
    split_ifs
    · exact .refl _
    · exact (ih _ _).trans (swapIfInBounds_perm xs _ _)
    · exact .refl _

theorem insertion_perm (lt : α → α → Bool) (xs : Array α) (low high : Nat) :
    (insertion lt xs low high).Perm xs :=
  foldl_perm (fun xs i => sink_perm lt low i xs) _ xs

theorem heap_perm (lt : α → α → Bool) (xs : Array α) (low high : Nat) :
    (heap lt xs low high).Perm xs := by
  unfold heap
  extract_lets size built
  have hbuilt : built.Perm xs := foldl_perm (fun xs i => siftDown_perm lt low size size i xs) _ xs
  refine (foldl_perm (fun xs i => ?_) _ built).trans hbuilt
  exact (siftDown_perm lt low i size 0 _).trans (swapIfInBounds_perm xs _ _)

/-! ### Patterns -/

theorem turnRound_perm (xs : Array α) (low high : Nat) : (turnRound xs low high).Perm xs :=
  foldl_perm (fun xs _ => swapIfInBounds_perm xs _ _) _ xs

theorem scatter_perm (xs : Array α) (low high : Nat) : (scatter xs low high).Perm xs := by
  unfold scatter
  extract_lets size mask swap
  have hfold : ∀ (is : List Nat) (acc : Array α × UInt64), (is.foldl swap acc).1.Perm acc.1 := by
    intro is
    induction is with
    | nil => exact fun acc => .refl _
    | cons i is ih => exact fun acc => (ih (swap acc i)).trans (swapIfInBounds_perm acc.1 _ _)
  exact hfold _ (xs, size.toUInt64)

theorem patch_perm (lt : α → α → Bool) (low high tries i : Nat) (xs : Array α) :
    (patch lt low high tries i xs).1.Perm xs := by
  induction tries generalizing i xs with
  | zero => exact .refl _
  | succ tries ih =>
    unfold patch
    extract_lets descent swapped sunk risen
    have hswapped : swapped.Perm xs := swapIfInBounds_perm xs _ _
    have hsunk : sunk.Perm swapped := by
      unfold sunk
      split_ifs
      · exact sink_perm lt _ _ _
      · exact .refl _
    have hrisen : risen.Perm sunk := by
      unfold risen
      split_ifs
      · exact rise_perm lt _ _ _ _
      · exact .refl _
    split_ifs
    · exact .refl _
    · exact .refl _
    · exact (ih _ _).trans (hrisen.trans (hsunk.trans hswapped))

/-! ### Splitting -/

theorem meet_perm (left : Array α → Nat → Bool) (fuel : Nat) (xs : Array α) (i j : Nat) :
    (meet left fuel xs i j).1.Perm xs := by
  induction fuel generalizing xs i j with
  | zero => exact .refl _
  | succ fuel ih =>
    unfold meet
    extract_lets i j
    split_ifs
    · exact .refl _
    · exact (ih _ _ _).trans (swapIfInBounds_perm xs _ _)

theorem split_perm (lt : α → α → Bool) (xs : Array α) (low high pivot : Nat) :
    (split lt xs low high pivot).1.Perm xs :=
  (swapIfInBounds_perm _ _ _).trans ((meet_perm _ _ _ _ _).trans (swapIfInBounds_perm xs _ _))

theorem splitEqual_perm (lt : α → α → Bool) (xs : Array α) (low high pivot : Nat) :
    (splitEqual lt xs low high pivot).1.Perm xs :=
  (meet_perm _ _ _ _ _).trans (swapIfInBounds_perm xs _ _)

/-! ### Sorting -/

/-- Each way to go on in a range rearranges it. -/
theorem range_perm (lt : α → α → Bool) (fuel limit : Nat) (luck : Luck) (low high : Nat)
    (xs : Array α) : (range lt fuel limit luck low high xs).Perm xs := by
  induction fuel generalizing limit luck low high xs with
  | zero => exact .refl _
  | succ fuel ih =>
    unfold range
    by_cases hshort : high - low ≤ 12
    · rw [if_pos hshort]
      exact insertion_perm lt xs low high
    rw [if_neg hshort]
    by_cases hbad : limit = 0
    · rw [if_pos hbad]
      exact heap_perm lt xs low high
    rw [if_neg hbad]
    extract_lets scattered limit'
    have hscattered : scattered.Perm xs := by
      unfold scattered
      split_ifs
      · exact .refl _
      · exact scatter_perm xs low high
    refine Array.Perm.trans ?_ hscattered
    split
    rename_i p hint _
    extract_lets turned p'
    have hturned : turned.Perm scattered := by
      unfold turned
      split_ifs
      · exact turnRound_perm scattered low high
      · exact .refl _
    refine Array.Perm.trans ?_ hturned
    split
    rename_i patched done hpatched
    have hpatched : patched.Perm turned := by
      split_ifs at hpatched
      · have hperm := patch_perm lt low high 5 (low + 1) turned
        rw [hpatched] at hperm
        exact hperm
      · cases hpatched
        exact .refl _
    refine Array.Perm.trans ?_ hpatched
    split_ifs
    · exact .refl _
    · exact (ih _ _ _ _ _).trans (splitEqual_perm lt patched low high p')
    · refine Array.Perm.trans ?_ (split_perm lt patched low high p')
      dsimp only
      split_ifs
      · exact (ih _ _ _ _ _).trans (ih _ _ _ _ _)
      · exact (ih _ _ _ _ _).trans (ih _ _ _ _ _)

/-- **Sorting an array rearranges it.** -/
theorem sort_perm (lt : α → α → Bool) (xs : Array α) : (sort lt xs).Perm xs :=
  range_perm lt _ _ _ _ _ xs

end Quicksort

/-- Ordering paths by their names loses none of them. -/
theorem Path.sortByBase_perm (paths : List Bytes) : (Path.sortByBase paths).Perm paths := by
  unfold Path.sortByBase
  exact (Bytes.sortBy_perm _ _).trans (Quicksort.sort_perm _ paths.toArray).toList

theorem Path.sortByBase_pairwise (paths : List Bytes) :
    (Path.sortByBase paths).Pairwise fun a b => Path.base a ≤ Path.base b := by
  unfold Path.sortByBase
  extract_lets arranged
  have htrans : ∀ a b c : Bytes, decide (Path.base a ≤ Path.base b) →
      decide (Path.base b ≤ Path.base c) → decide (Path.base a ≤ Path.base c) := by
    intro a b c hab hbc
    exact decide_eq_true (List.le_trans (of_decide_eq_true hab) (of_decide_eq_true hbc))
  have htotal : ∀ a b : Bytes, decide (Path.base a ≤ Path.base b) ∨
      decide (Path.base b ≤ Path.base a) := by
    intro a b
    simpa using List.le_total (Path.base a) (Path.base b)
  exact (Bytes.sortBy_pairwise htrans htotal _).imp fun h => of_decide_eq_true h

/-- Paths with different names that are in order stay as they are. -/
theorem Path.sortByBase_of_pairwise {paths : List Bytes}
    (h : paths.Pairwise fun a b => Path.base a < Path.base b) : Path.sortByBase paths = paths := by
  have hnodup : (paths.map Path.base).Nodup := by
    rw [List.Nodup, List.pairwise_map]
    refine h.imp fun {a b} hlt heq => ?_
    rw [heq] at hlt
    exact List.lt_irrefl _ hlt
  refine (Path.sortByBase_perm paths).eq_of_pairwise ?_ (Path.sortByBase_pairwise paths)
    (h.imp fun hlt => List.le_of_lt hlt)
  intro a b ha hb hab hba
  exact List.inj_on_of_nodup_map hnodup ((Path.sortByBase_perm paths).mem_iff.mp ha) hb
    (List.le_antisymm hab hba)

/-- A directory in which patches are found has one. -/
theorem Disk.patches_ne_nil {d : Disk} {dir pattern : Bytes} {files : List Bytes}
    (h : d.patches dir pattern = .ok files) : files ≠ [] := by
  unfold patches at h
  split at h
  · cases h
  · cases h
  · split at h
    · cases h
    · rename_i found _
      split at h
      · cases h
      · rename_i hsome
        cases h
        intro hnil
        have hperm := Path.sortByBase_perm (found.filter fun p => !d.isFolder p)
        rw [hnil] at hperm
        exact hsome hperm.symm.eq_nil
  · cases h

end PatchAudit
