import Mathlib.Data.List.Induction
import Mathlib.Data.List.Nodup
import PatchAudit.Proofs.HighlightedText

/-!
# Lines dealt out to their files

A first pass over the lines of a patch writes those that stand for themselves and notes the places of the
others under their targets; after any number of lines each target that was met is noted once, with all its
places (`FirstPass.holds_ofLines`).  A second pass has the files highlighted one by one and writes what comes
back at the places of the file.  The places of the files and those of the other lines part the places of the
patch, so each is written once (`map_fst_writes_perm`), and what is written is what is dealt out line by line
from the queues of the files (`gather_deal`).  Both hold for whatever highlights the lines of a file, as long
as it gives one line for each (`every_line_is_written_once`).
-/

namespace PatchAudit

namespace Highlight

/-- What highlights the lines of a file, given its name. -/
abbrev Highlighter := Bytes → List Bytes → List HighlightedLine

/-- The lines of a patch, each content line highlighted as part of its target, whatever highlights the
lines of a file. -/
def patchLinesBy (highlight : Highlighter) (lines : List PatchLine) : List HighlightedLine :=
  let aimed := lines.zip (Target.ofLines lines)
  let table := (contentTargets aimed).map fun t => (t, highlight t (payloadsOf t aimed))
  deal (fun t => (table.lookup t).getD []) aimed

/-! ### Places -/

/-- The places of the content lines with the given target. -/
def placesOf (t : Bytes) (aimed : List (PatchLine × Bytes)) : List Nat :=
  aimed.findIdxs fun (l, u) => l.isContent && u == t

/-- The places of the lines that are no content. -/
def otherPlaces (aimed : List (PatchLine × Bytes)) : List Nat :=
  aimed.findIdxs fun (l, _) => !l.isContent

theorem mem_findIdxs_iff {α : Type} {p : α → Bool} {xs : List α} {i : Nat} :
    i ∈ xs.findIdxs p ↔ ∃ x, xs[i]? = some x ∧ p x = true := by
  rw [List.mem_findIdxs_iff_exists_getElem_pos]
  constructor
  · rintro ⟨hi, hp⟩
    exact ⟨xs[i], List.getElem?_eq_getElem hi, hp⟩
  · rintro ⟨x, hx, hp⟩
    obtain ⟨hi, rfl⟩ := List.getElem?_eq_some_iff.mp hx
    exact ⟨hi, hp⟩

theorem filterMap_findIdxs {α : Type} (p : α → Bool) (xs : List α) :
    (xs.findIdxs p).filterMap (xs[·]?) = xs.filter p := by
  induction xs with
  | nil => rfl
  | cons x xs ih =>
    have hrest : (xs.findIdxs p 1).filterMap ((x :: xs)[·]?) = xs.filter p := by
      rw [List.findIdxs_start, List.filterMap_map, ← ih]
      rfl
    rw [List.findIdxs_cons, List.filter_cons]
    split_ifs
    · rw [List.filterMap_cons_some (List.getElem?_cons_zero), hrest]
    · exact hrest

variable {t : Bytes} {aimed : List (PatchLine × Bytes)} {i : Nat}

theorem mem_placesOf :
    i ∈ placesOf t aimed ↔ ∃ l, aimed[i]? = some (l, t) ∧ l.isContent = true := by
  rw [placesOf, mem_findIdxs_iff]
  constructor
  · rintro ⟨⟨l, u⟩, hi, hp⟩
    rw [Bool.and_eq_true, beq_iff_eq] at hp
    obtain ⟨hcontent, rfl⟩ := hp
    exact ⟨l, hi, hcontent⟩
  · rintro ⟨l, hi, hcontent⟩
    exact ⟨(l, t), hi, by simp [hcontent]⟩

theorem mem_otherPlaces :
    i ∈ otherPlaces aimed ↔ ∃ l u, aimed[i]? = some (l, u) ∧ l.isContent = false := by
  rw [otherPlaces, mem_findIdxs_iff]
  constructor
  · rintro ⟨⟨l, u⟩, hi, hp⟩
    exact ⟨l, u, hi, by simpa using hp⟩
  · rintro ⟨l, u, hi, hcontent⟩
    exact ⟨(l, u), hi, by simp [hcontent]⟩

theorem target_unique {u : Bytes} (ht : i ∈ placesOf t aimed) (hu : i ∈ placesOf u aimed) : t = u := by
  obtain ⟨l, hl, -⟩ := mem_placesOf.mp ht
  obtain ⟨m, hm, -⟩ := mem_placesOf.mp hu
  rw [hl] at hm
  exact congrArg Prod.snd (Option.some.inj hm)

theorem not_mem_otherPlaces (ht : i ∈ placesOf t aimed) : i ∉ otherPlaces aimed := by
  intro hother
  obtain ⟨l, hl, hcontent⟩ := mem_placesOf.mp ht
  obtain ⟨m, u, hm, hnot⟩ := mem_otherPlaces.mp hother
  rw [hl] at hm
  cases hm
  rw [hcontent] at hnot
  cases hnot

/-- The payloads of a file stand at its places. -/
theorem payloads_at_placesOf (t : Bytes) (aimed : List (PatchLine × Bytes)) :
    (placesOf t aimed).filterMap (fun i => aimed[i]?.map fun p => p.1.payload) =
      payloadsOf t aimed := by
  rw [placesOf, payloadsOf, ← filterMap_findIdxs, List.map_filterMap]

theorem length_placesOf (t : Bytes) (aimed : List (PatchLine × Bytes)) :
    (placesOf t aimed).length = (payloadsOf t aimed).length := by
  rw [placesOf, payloadsOf, List.length_findIdxs, List.length_map, List.countP_eq_length_filter]

theorem placesOf_cons (t : Bytes) (l : PatchLine) (u : Bytes) (rest : List (PatchLine × Bytes)) :
    placesOf t ((l, u) :: rest) =
      (if l.isContent = true ∧ u = t then [0] else []) ++ (placesOf t rest).map (· + 1) := by
  rw [placesOf, List.findIdxs_cons, List.findIdxs_start, placesOf]
  by_cases h : l.isContent = true ∧ u = t
  · simp [h]
  · simp only [Bool.and_eq_true, beq_iff_eq, if_neg h]
    rfl

theorem placesOf_concat (t : Bytes) (aimed : List (PatchLine × Bytes)) (l : PatchLine) (u : Bytes) :
    placesOf t (aimed ++ [(l, u)]) =
      placesOf t aimed ++ (if l.isContent = true ∧ u = t then [aimed.length] else []) := by
  rw [placesOf, List.findIdxs_append, List.findIdxs_singleton, Nat.zero_add, placesOf]
  simp only [Bool.and_eq_true, beq_iff_eq]

theorem otherPlaces_concat (aimed : List (PatchLine × Bytes)) (l : PatchLine) (u : Bytes) :
    otherPlaces (aimed ++ [(l, u)]) =
      otherPlaces aimed ++ (if l.isContent = true then [] else [aimed.length]) := by
  rw [otherPlaces, List.findIdxs_append, List.findIdxs_singleton, Nat.zero_add, otherPlaces]
  cases hcontent : l.isContent <;> simp [hcontent]

/-! ### Dealing out -/

/-- **The lines dealt out to a file are its queue**, wherever they stand. -/
theorem gather_deal {queues : Bytes → List HighlightedLine}
    (h : ∀ u, (queues u).length = (payloadsOf u aimed).length) (t : Bytes) :
    (placesOf t aimed).map (fun i => (deal queues aimed)[i]?) = (queues t).map some := by
  induction aimed generalizing queues with
  | nil =>
    have hnil : queues t = [] := List.length_eq_zero_iff.mp (h t)
    rw [hnil]
    rfl
  | cons line rest ih =>
    obtain ⟨l, u⟩ := line
    rw [placesOf_cons, List.map_append, List.map_map, deal]
    by_cases hcontent : l.isContent = true
    · have hfirst := h u
      rw [payloadsOf_own hcontent, List.length_cons] at hfirst
      rw [if_pos hcontent]
      cases hqueue : queues u with
      | nil => simp [hqueue] at hfirst
      | cons shown more =>
        -- the file of the line has its next line taken off, and the others stay as they are
        have hrest : ∀ v, (if v = u then more else queues v).length = (payloadsOf v rest).length := by
          intro v
          split_ifs with hv
          · simpa [hv, hqueue] using hfirst
          · rw [h, payloadsOf_other fun hboth => hv hboth.2.symm]
        have hgather := ih hrest
        by_cases ht : u = t
        · subst ht
          rw [if_pos rfl] at hgather
          rw [if_pos ⟨hcontent, rfl⟩, hqueue]
          exact congrArg (some shown :: ·) hgather
        · rw [if_neg (Ne.symm ht)] at hgather
          rw [if_neg (fun hboth => ht hboth.2)]
          exact hgather
    · rw [if_neg hcontent, if_neg (fun hboth => hcontent hboth.1)]
      refine ih fun v => ?_
      rw [h, payloadsOf_other fun hboth => hcontent hboth.1]

theorem getElem?_deal_other {queues : Bytes → List HighlightedLine}
    (h : ∀ u, (queues u).length = (payloadsOf u aimed).length) {l : PatchLine} {u : Bytes}
    (hi : aimed[i]? = some (l, u)) (hcontent : l.isContent = false) :
    (deal queues aimed)[i]? = some (.ofText l.raw) := by
  have hany : ∀ v, List.Forall₂ (fun _ _ => True) (payloadsOf v aimed) (queues v) := fun v =>
    List.forall₂_iff_zip.mpr ⟨(h v).symm, fun _ => trivial⟩
  obtain ⟨hlength, hzip⟩ := List.forall₂_iff_zip.mp (forall₂_deal hany)
  have hplace : i < (deal queues aimed).length := by
    rw [← hlength]
    exact (List.getElem?_eq_some_iff.mp hi).1
  have hshown := List.getElem?_eq_getElem hplace
  have hpair := hzip (List.mem_of_getElem? (List.getElem?_zip_eq_some.mpr ⟨hi, hshown⟩))
  rw [if_neg (by simp [hcontent])] at hpair
  rw [hshown, hpair]

/-! ### The two passes -/

/-- What the first pass over the lines leaves: what it has written, which are the lines that stand for
themselves, and of the content the targets in the order in which they were met, with the places of
each. -/
structure FirstPass where
  written : List (Nat × HighlightedLine) := []
  order : List Bytes := []
  places : Bytes → Option (List Nat) := fun _ => none

namespace FirstPass

/-- The pass over one line. -/
def step (s : FirstPass) (line : (PatchLine × Bytes) × Nat) : FirstPass :=
  let ((l, t), i) := line
  if l.isContent then
    { s with
      order := if (s.places t).isSome then s.order else s.order ++ [t]
      places := fun u => if u = t then some ((s.places t).getD [] ++ [i]) else s.places u }
  else { s with written := s.written ++ [(i, .ofText l.raw)] }

/-- The pass over all lines. -/
def ofLines (aimed : List (PatchLine × Bytes)) : FirstPass := aimed.zipIdx.foldl step {}

/-- What the second pass writes: file by file, each highlighted line at the place of its payload. -/
def fileWrites (highlight : Highlighter) (aimed : List (PatchLine × Bytes)) (s : FirstPass) :
    List (Nat × HighlightedLine) :=
  s.order.flatMap fun t =>
    let places := (s.places t).getD []
    places.zip (highlight t (places.filterMap fun i => aimed[i]?.map fun p => p.1.payload))

end FirstPass

/-- All that the two passes write, with its places, one after the other. -/
def writes (highlight : Highlighter) (aimed : List (PatchLine × Bytes)) :
    List (Nat × HighlightedLine) :=
  (FirstPass.ofLines aimed).written ++ (FirstPass.ofLines aimed).fileWrites highlight aimed

/-- A number of empty lines after the given writes. -/
def afterWrites (n : Nat) (ws : List (Nat × HighlightedLine)) : List HighlightedLine :=
  ws.foldl (fun shown w => shown.set w.1 w.2) (List.replicate n ⟨[]⟩)

/-- What the first pass has found after the lines `seen`. -/
structure FirstPass.Holds (s : FirstPass) (seen : List (PatchLine × Bytes)) : Prop where
  written_places : s.written.map Prod.fst = otherPlaces seen
  written_text : ∀ w ∈ s.written, ∃ l t, seen[w.1]? = some (l, t) ∧ l.isContent = false ∧
    w.2 = .ofText l.raw
  order_nodup : s.order.Nodup
  mem_order : ∀ t, t ∈ s.order ↔ placesOf t seen ≠ []
  places_eq : ∀ t, s.places t = if placesOf t seen = [] then none else some (placesOf t seen)

namespace FirstPass

theorem Holds.written_append {s : FirstPass} {seen : List (PatchLine × Bytes)} (h : s.Holds seen)
    (more : List (PatchLine × Bytes)) {w : Nat × HighlightedLine} (hw : w ∈ s.written) :
    ∃ l t, (seen ++ more)[w.1]? = some (l, t) ∧ l.isContent = false ∧ w.2 = .ofText l.raw := by
  obtain ⟨l, t, hline, htext⟩ := h.written_text w hw
  obtain ⟨hplace, -⟩ := List.getElem?_eq_some_iff.mp hline
  exact ⟨l, t, by rw [List.getElem?_append_left hplace, hline], htext⟩

theorem Holds.getD_places {s : FirstPass} {seen : List (PatchLine × Bytes)} (h : s.Holds seen)
    (t : Bytes) : (s.places t).getD [] = placesOf t seen := by
  rw [h.places_eq]
  split_ifs with hnone
  · exact hnone.symm
  · rfl

theorem Holds.isSome_places {s : FirstPass} {seen : List (PatchLine × Bytes)} (h : s.Holds seen)
    (t : Bytes) : (s.places t).isSome = true ↔ t ∈ s.order := by
  rw [h.mem_order, h.places_eq]
  split_ifs with hnone <;> simp [hnone]

/-- A line that stands for itself is written, and the content is as it was. -/
theorem Holds.other {s : FirstPass} {seen : List (PatchLine × Bytes)} (h : s.Holds seen) {l : PatchLine}
    (hcontent : l.isContent = false) (t : Bytes) :
    (s.step ((l, t), seen.length)).Holds (seen ++ [(l, t)]) := by
  have hstep : s.step ((l, t), seen.length) =
      { s with written := s.written ++ [(seen.length, .ofText l.raw)] } := by
    simp [FirstPass.step, hcontent]
  have hplaces : ∀ u, placesOf u (seen ++ [(l, t)]) = placesOf u seen := fun u => by
    rw [placesOf_concat, if_neg (by simp [hcontent]), List.append_nil]
  rw [hstep]
  constructor
  case written_places =>
    rw [otherPlaces_concat, if_neg (by simp [hcontent]), List.map_append, h.written_places]
    rfl
  case written_text =>
    intro w hw
    rcases List.mem_append.mp hw with hold | hnew
    · exact h.written_append _ hold
    · obtain rfl := List.mem_singleton.mp hnew
      exact ⟨l, t, List.getElem?_concat_length, hcontent, rfl⟩
  case order_nodup =>
    exact h.order_nodup
  case mem_order =>
    intro u
    rw [hplaces]
    exact h.mem_order u
  case places_eq =>
    intro u
    rw [hplaces]
    exact h.places_eq u

/-- A content line is put to its file, which is new if nothing was put to it before. -/
theorem Holds.content {s : FirstPass} {seen : List (PatchLine × Bytes)} (h : s.Holds seen)
    {l : PatchLine} (hcontent : l.isContent = true) (t : Bytes) :
    (s.step ((l, t), seen.length)).Holds (seen ++ [(l, t)]) := by
  have hstep : s.step ((l, t), seen.length) =
      { s with
        order := if (s.places t).isSome then s.order else s.order ++ [t]
        places := fun u =>
          if u = t then some ((s.places t).getD [] ++ [seen.length]) else s.places u } := by
    simp [FirstPass.step, hcontent]
  have hown : placesOf t (seen ++ [(l, t)]) = placesOf t seen ++ [seen.length] := by
    rw [placesOf_concat, if_pos ⟨hcontent, rfl⟩]
  have hplaces : ∀ u, u ≠ t → placesOf u (seen ++ [(l, t)]) = placesOf u seen := fun u hu => by
    rw [placesOf_concat, if_neg fun hboth => hu hboth.2.symm, List.append_nil]
  rw [hstep]
  constructor
  case written_places =>
    rw [otherPlaces_concat, if_pos hcontent, List.append_nil]
    exact h.written_places
  case written_text =>
    intro w hw
    exact h.written_append _ hw
  case order_nodup =>
    show (if (s.places t).isSome then s.order else s.order ++ [t]).Nodup
    split_ifs with hmet
    · exact h.order_nodup
    · rw [List.nodup_append_comm, List.singleton_append, List.nodup_cons, ← h.isSome_places]
      exact ⟨hmet, h.order_nodup⟩
  case mem_order =>
    intro u
    show u ∈ (if (s.places t).isSome then s.order else s.order ++ [t]) ↔ _
    by_cases hu : u = t
    · subst hu
      refine iff_of_true ?_ (by simp [hown])
      split_ifs with hmet
      · exact (h.isSome_places u).mp hmet
      · exact List.mem_append_right _ List.mem_cons_self
    · rw [hplaces u hu, ← h.mem_order]
      split_ifs
      · exact Iff.rfl
      · simp [hu]
  case places_eq =>
    intro u
    show (if u = t then some ((s.places t).getD [] ++ [seen.length]) else s.places u) = _
    by_cases hu : u = t
    · subst hu
      rw [if_pos rfl, h.getD_places, hown, if_neg (by simp)]
    · rw [if_neg hu, hplaces u hu]
      exact h.places_eq u

theorem Holds.step {s : FirstPass} {seen : List (PatchLine × Bytes)} (h : s.Holds seen) (l : PatchLine)
    (t : Bytes) : (s.step ((l, t), seen.length)).Holds (seen ++ [(l, t)]) := by
  cases hcontent : l.isContent with
  | true => exact h.content hcontent t
  | false => exact h.other hcontent t

theorem holds_ofLines (aimed : List (PatchLine × Bytes)) : (ofLines aimed).Holds aimed := by
  induction aimed using List.reverseRecOn with
  | nil =>
    exact ⟨rfl, fun w hw => absurd hw List.not_mem_nil, List.nodup_nil,
      fun t => by simp [ofLines, placesOf], fun _ => rfl⟩
  | append_singleton seen line ih =>
    have hstep : ofLines (seen ++ [line]) = (ofLines seen).step (line, seen.length) := by
      rw [ofLines, List.zipIdx_append, List.foldl_append, Nat.zero_add]
      rfl
    rw [hstep]
    exact ih.step line.1 line.2

end FirstPass

section Files

variable {highlight : Highlighter}
  (hlength : ∀ name payloads, (highlight name payloads).length = payloads.length)
include hlength

theorem patchLinesBy_eq (lines : List PatchLine) :
    patchLinesBy highlight lines =
      deal (fun t => highlight t (payloadsOf t (lines.zip (Target.ofLines lines))))
        (lines.zip (Target.ofLines lines)) := by
  have hnil : ∀ u, highlight u [] = [] := fun u => List.length_eq_zero_iff.mp (hlength u [])
  have hqueues := funext (queue_eq hnil (lines.zip (Target.ofLines lines)))
  exact congrArg (deal · _) hqueues

theorem map_fst_writes (aimed : List (PatchLine × Bytes)) :
    (writes highlight aimed).map Prod.fst =
      otherPlaces aimed ++ (FirstPass.ofLines aimed).order.flatMap fun t => placesOf t aimed := by
  have hholds := FirstPass.holds_ofLines aimed
  rw [writes, List.map_append, hholds.written_places, FirstPass.fileWrites, List.map_flatMap]
  congr 2
  funext t
  simp only [hholds.getD_places, payloads_at_placesOf]
  refine List.map_fst_zip ?_
  rw [hlength, length_placesOf]

/-- **Every place is written, and none twice.** -/
theorem map_fst_writes_perm (aimed : List (PatchLine × Bytes)) :
    ((writes highlight aimed).map Prod.fst).Perm (List.range aimed.length) := by
  have hholds := FirstPass.holds_ofLines aimed
  rw [map_fst_writes hlength]
  have hfiles : ((FirstPass.ofLines aimed).order.flatMap fun t => placesOf t aimed).Nodup := by
    rw [List.nodup_flatMap]
    refine ⟨fun t _ => List.nodup_findIdxs, hholds.order_nodup.pairwise_of_forall_ne ?_⟩
    intro t _ u _ htu i ht hu
    exact htu (target_unique ht hu)
  have hapart : (otherPlaces aimed).Disjoint
      ((FirstPass.ofLines aimed).order.flatMap fun t => placesOf t aimed) := by
    intro i hother hfile
    obtain ⟨t, -, ht⟩ := List.mem_flatMap.mp hfile
    exact not_mem_otherPlaces ht hother
  have hothers : (otherPlaces aimed).Nodup := List.nodup_findIdxs
  rw [List.perm_ext_iff_of_nodup (hothers.append hfiles hapart) List.nodup_range]
  intro i
  rw [List.mem_append, List.mem_flatMap, List.mem_range]
  constructor
  · rintro (hother | ⟨t, -, ht⟩)
    · obtain ⟨l, u, hi, -⟩ := mem_otherPlaces.mp hother
      exact (List.getElem?_eq_some_iff.mp hi).1
    · obtain ⟨l, hi, -⟩ := mem_placesOf.mp ht
      exact (List.getElem?_eq_some_iff.mp hi).1
  · intro hi
    obtain ⟨⟨l, t⟩, hline⟩ : ∃ line, aimed[i]? = some line := ⟨_, List.getElem?_eq_getElem hi⟩
    cases hcontent : l.isContent with
    | false => exact .inl (mem_otherPlaces.mpr ⟨l, t, hline, hcontent⟩)
    | true =>
      have ht : i ∈ placesOf t aimed := mem_placesOf.mpr ⟨l, hline, hcontent⟩
      exact .inr ⟨t, (hholds.mem_order t).mpr (List.ne_nil_of_mem ht), ht⟩

/-- What is written at a place is the line dealt out there. -/
theorem getElem?_of_mem_writes {w : Nat × HighlightedLine} (hw : w ∈ writes highlight aimed) :
    (deal (fun t => highlight t (payloadsOf t aimed)) aimed)[w.1]? = some w.2 := by
  have hholds := FirstPass.holds_ofLines aimed
  have hqueues : ∀ u, (highlight u (payloadsOf u aimed)).length = (payloadsOf u aimed).length :=
    fun u => hlength u _
  rcases List.mem_append.mp hw with hother | hfile
  · obtain ⟨l, t, hline, hcontent, htext⟩ := hholds.written_text w hother
    rw [htext]
    exact getElem?_deal_other hqueues hline hcontent
  · obtain ⟨t, -, hw⟩ := List.mem_flatMap.mp hfile
    simp only [hholds.getD_places, payloads_at_placesOf] at hw
    obtain ⟨j, hj⟩ := List.getElem?_of_mem hw
    obtain ⟨hplace, hshown⟩ := List.getElem?_zip_eq_some.mp hj
    have hgather := congrArg (·[j]?) (gather_deal hqueues t)
    simp only [List.getElem?_map, hplace, hshown, Option.map_some, Option.some.injEq] at hgather
    exact hgather

end Files

/-! ### Writing -/

theorem getElem?_foldl_set {shown : List HighlightedLine} {ws : List (Nat × HighlightedLine)}
    (hws : ∀ w ∈ ws, shown[w.1]? = some w.2) {start : List HighlightedLine}
    (hlength : start.length = shown.length) (i : Nat) :
    (ws.foldl (fun lines w => lines.set w.1 w.2) start)[i]? =
      if i ∈ ws.map Prod.fst then shown[i]? else start[i]? := by
  induction ws generalizing start with
  | nil => simp
  | cons w ws ih =>
    have hfirst := hws w List.mem_cons_self
    obtain ⟨hplace, -⟩ := List.getElem?_eq_some_iff.mp hfirst
    rw [List.foldl_cons, ih (fun v hv => hws v (List.mem_cons_of_mem _ hv))
      ((List.length_set ..).trans hlength), List.map_cons]
    by_cases hlater : i ∈ ws.map Prod.fst
    · rw [if_pos hlater, if_pos (List.mem_cons_of_mem _ hlater)]
    · rw [if_neg hlater, List.getElem?_set]
      by_cases hi : w.1 = i
      · subst hi
        rw [if_pos rfl, if_pos (by omega), if_pos List.mem_cons_self, hfirst]
      · rw [if_neg hi, if_neg (by simpa [Ne.symm hi] using hlater)]

/-- Writes that agree with the given lines make them, if they leave no place out. -/
theorem afterWrites_eq {shown : List HighlightedLine} {ws : List (Nat × HighlightedLine)}
    (hws : ∀ w ∈ ws, shown[w.1]? = some w.2)
    (hall : ∀ i < shown.length, i ∈ ws.map Prod.fst) : afterWrites shown.length ws = shown := by
  apply List.ext_getElem?
  intro i
  rw [afterWrites, getElem?_foldl_set hws List.length_replicate]
  split_ifs with hi
  · rfl
  · have hbeyond : shown.length ≤ i := Nat.le_of_not_lt fun hlt => hi (hall i hlt)
    rw [List.getElem?_eq_none hbeyond, List.getElem?_eq_none (by simpa using hbeyond)]

end Highlight

open Highlight in
/-- **Every line is written once, as its file has it.**  Let a file be highlighted by anything that gives one
line for each payload.  Then every line of a patch is shown: a line that is no content as one token of its
raw text in no colour, and the content of each file, read in order, as what its payloads in their order are
highlighted to, however the sections of the files take turns.  The two passes write every place once, and
what they write is what is shown; the lexers are one such way to highlight a file. -/
theorem every_line_is_written_once {highlight : Highlighter}
    (hlength : ∀ name payloads, (highlight name payloads).length = payloads.length)
    (lines : List PatchLine) :
    let aimed := lines.zip (Target.ofLines lines)
    let shown := patchLinesBy highlight lines
    shown.length = lines.length ∧
      (∀ (i : Nat) (l : PatchLine), lines[i]? = some l → l.isContent = false →
        shown[i]? = some ⟨[{ text := l.raw, colour := none }]⟩) ∧
      (∀ t, (placesOf t aimed).map (fun i => shown[i]?) =
        (highlight t (payloadsOf t aimed)).map some) ∧
      ((writes highlight aimed).map Prod.fst).Perm (List.range lines.length) ∧
      afterWrites lines.length (writes highlight aimed) = shown ∧
      ∀ lexers, patchLines lexers lines = patchLinesBy (fileLines lexers) lines ∧
        ∀ name payloads, (fileLines lexers name payloads).length = payloads.length := by
  intro aimed shown
  have haimed : aimed.length = lines.length := by
    simp only [aimed, List.length_zip, Target.ofLines, length_scan, Nat.min_self]
  have hshown : shown = deal (fun t => highlight t (payloadsOf t aimed)) aimed :=
    patchLinesBy_eq hlength lines
  have hqueues : ∀ u, (highlight u (payloadsOf u aimed)).length = (payloadsOf u aimed).length :=
    fun u => hlength u _
  have hcount : shown.length = lines.length := by rw [hshown, length_deal, haimed]
  have hplaces : ((writes highlight aimed).map Prod.fst).Perm (List.range lines.length) := by
    rw [← haimed]
    exact map_fst_writes_perm hlength aimed
  refine ⟨hcount, fun i l hl hcontent => ?_, fun t => ?_, hplaces, ?_,
    fun lexers => ⟨rfl, length_fileLines lexers⟩⟩
  · obtain ⟨⟨m, t⟩, hline⟩ : ∃ line, aimed[i]? = some line :=
      ⟨_, List.getElem?_eq_getElem (by rw [haimed]; exact (List.getElem?_eq_some_iff.mp hl).1)⟩
    obtain ⟨hm, -⟩ := List.getElem?_zip_eq_some.mp hline
    rw [hl] at hm
    cases hm
    rw [hshown]
    exact getElem?_deal_other hqueues hline hcontent
  · rw [hshown]
    exact gather_deal hqueues t
  · have hwritten : afterWrites shown.length (writes highlight aimed) = shown := by
      refine afterWrites_eq (fun w hw => ?_) fun i hi => ?_
      · rw [hshown]
        exact getElem?_of_mem_writes hlength hw
      · rw [hplaces.mem_iff, List.mem_range, ← hcount]
        exact hi
    rwa [hcount] at hwritten

/-- A highlighter that puts the name of the file and the place in it before each line. -/
def Highlight.numbered : Highlight.Highlighter := fun name payloads =>
  payloads.mapIdx fun j payload =>
    ⟨[{ text := name, colour := some (Bytes.ofNat j) }, { text := payload }]⟩

open Highlight in
/-- Two files in turn, after a line of no file. -/
theorem every_line_is_written_once_in_turn :
    let lines := PatchLine.classify
      ["@@", "+0", "+++ b/x", "+1", "+++ b/y", "-2", "+++ b/x", " 3"]
    let aimed := lines.zip (Target.ofLines lines)
    (∀ name payloads, (numbered name payloads).length = payloads.length) ∧
      placesOf "x" aimed = [3, 7] ∧ payloadsOf "x" aimed = ["1", "3"] ∧
      [(patchLinesBy numbered lines)[3]?, (patchLinesBy numbered lines)[7]?] =
        (numbered "x" ["1", "3"]).map some ∧
      (writes numbered aimed).map Prod.fst = [0, 2, 4, 6, 1, 3, 7, 5] := by
  intro lines aimed
  have hlength : ∀ name payloads, (numbered name payloads).length = payloads.length :=
    fun _ _ => List.length_mapIdx
  have hplaces : placesOf "x" aimed = [3, 7] := by decide
  have hpayloads : payloadsOf "x" aimed = ["1", "3"] := by decide
  obtain ⟨-, -, hfiles, -⟩ := every_line_is_written_once hlength lines
  have hx := hfiles "x"
  rw [hplaces, hpayloads] at hx
  exact ⟨hlength, hplaces, hpayloads, hx, by decide⟩

end PatchAudit
