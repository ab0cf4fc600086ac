import PatchAudit.Proofs.PlainFolder

/-!
# Paths from their parts

A clean path is the list of its parts and whether it starts at the root.  `Tidy` is what such a list
is like: the parts have something in them, no slash, and parent marks stand only at the front of a
relative path.  A path put together from a tidy list has just these parts (`Tidy.parts_eq`), so it is
clean, and one part more is written behind it (`Tidy.ofParts_concat`).
-/

namespace PatchAudit

namespace Path

/-- The clean path of parts. -/
def ofParts (rooted : Bool) (cs : List Bytes) : Bytes :=
  if rooted then slash :: Bytes.join [slash] cs
  else if cs.isEmpty then [0x2E] else Bytes.join [slash] cs

theorem clean_eq_ofParts (p : Bytes) : clean p = ofParts (isAbsolute p) (parts p) := rfl

/-- Parts as a clean path has them. -/
structure Tidy (rooted : Bool) (cs : List Bytes) : Prop where
  part : ∀ c ∈ cs, c ≠ [] ∧ slash ∉ c ∧ c ≠ [0x2E]
  settled : Settled rooted cs.reverse

theorem tidy_parts (p : Bytes) : Tidy (isAbsolute p) (parts p) where
  part _ hc := mem_parts hc
  settled := settled_parts p

theorem settled_of_append {rooted : Bool} {top below : List Bytes} (h : Settled rooted (top ++ below)) :
    Settled rooted below := by
  induction top with
  | nil => exact h
  | cons c top ih => exact ih h.1

namespace Tidy

variable {rooted : Bool} {cs ds : List Bytes} {c : Bytes}

theorem front (h : Tidy rooted (cs ++ ds)) : Tidy rooted cs where
  part c hc := h.part c (List.mem_append_left _ hc)
  settled := by
    have hsettled := h.settled
    rw [List.reverse_append] at hsettled
    exact settled_of_append hsettled

theorem isAbsolute_eq (h : Tidy rooted cs) : isAbsolute (ofParts rooted cs) = rooted := by
  unfold ofParts
  cases rooted with
  | true => rfl
  | false =>
    cases cs with
    | nil => rfl
    | cons c cs =>
      obtain ⟨hne, hslash, -⟩ := h.part c List.mem_cons_self
      cases c with
      | nil => exact absurd rfl hne
      | cons b c =>
        have hb : b ≠ slash := fun hb => hslash (by simp [hb])
        cases cs <;> simp [Bytes.join, isAbsolute, hb]

theorem walked_eq (h : Tidy rooted cs) (hcs : cs ≠ []) : walked (ofParts rooted cs) = cs := by
  have hjoin : walked (Bytes.join [slash] cs) = cs :=
    walked_join hcs fun c hc => ⟨(h.part c hc).1, (h.part c hc).2.1⟩
  unfold ofParts
  cases rooted with
  | true => rw [if_pos rfl, walked_rooted, hjoin]
  | false => simp [hcs, hjoin]

theorem components_eq (h : Tidy rooted cs) : components (ofParts rooted cs) = cs := by
  by_cases hcs : cs = []
  · subst hcs
    cases rooted <;> decide
  · rw [Path.components_eq, h.walked_eq hcs, List.filter_eq_self]
    intro c hc
    simpa using (h.part c hc).2.2

theorem parts_eq (h : Tidy rooted cs) : parts (ofParts rooted cs) = cs := by
  rw [parts, h.components_eq, h.isAbsolute_eq]
  have hfold := foldl_reverse_of_settled h.settled
  rw [List.reverse_reverse] at hfold
  rw [hfold, List.reverse_reverse]

theorem clean_eq (h : Tidy rooted cs) : clean (ofParts rooted cs) = ofParts rooted cs := by
  rw [clean_eq_ofParts, h.isAbsolute_eq, h.parts_eq]

/-- One part more is written behind the path. -/
theorem ofParts_concat (h : Tidy rooted (cs ++ [c])) :
    ofParts rooted (cs ++ [c]) = lead (ofParts rooted cs) ++ c := by
  rw [← h.clean_eq]
  refine clean_eq_lead ?_ ?_
  · rw [h.isAbsolute_eq, h.front.isAbsolute_eq]
  · rw [h.parts_eq, h.front.parts_eq]

end Tidy

end Path

end PatchAudit
