import Mathlib.Data.List.Basic
import Mathlib.Data.List.Infix
import Mathlib.Data.List.TakeWhile
import PatchAudit.Disk.Change
import PatchAudit.Proofs.Text

/-!
# Paths below a clean path

A clean path is the list of its parts put together again, so cleaning twice is cleaning once
(`clean_clean`), and a plain name put below a clean path is just written after it (`clean_below`).
-/

namespace PatchAudit

namespace Path

/-- A component that names an entry of a folder: not empty, no slash in it, and not one of the two
marks. -/
structure IsName (c : Bytes) : Prop where
  ne_nil : c ≠ []
  noSlash : slash ∉ c
  notStay : c ≠ [0x2E]
  notParent : c ≠ parentMark

instance (c : Bytes) : Decidable (IsName c) :=
  decidable_of_iff (c ≠ [] ∧ slash ∉ c ∧ c ≠ [0x2E] ∧ c ≠ parentMark)
    ⟨fun ⟨hne, hslash, hstay, hparent⟩ => ⟨hne, hslash, hstay, hparent⟩,
      fun h => ⟨h.ne_nil, h.noSlash, h.notStay, h.notParent⟩⟩

/-- The names that a path walks through, a slash at its end left out. -/
def walked (p : Bytes) : List Bytes := (p.splitOn slash).filter (!·.isEmpty)

/-- What is left of the components of a path once the parent marks have done their work. -/
def parts (p : Bytes) : List Bytes :=
  ((components p).foldl (pushComponent (isAbsolute p)) []).reverse

theorem clean_eq (p : Bytes) :
    clean p = if isAbsolute p then slash :: Bytes.join [slash] (parts p)
      else if (parts p).isEmpty then [0x2E] else Bytes.join [slash] (parts p) := rfl

theorem components_eq (p : Bytes) : components p = (walked p).filter (· != [0x2E]) := by
  unfold components walked
  rw [List.filter_filter]
  congr 1
  funext c
  rw [Bool.eq_iff_iff]
  simp [and_comm]

/-! ### Splitting at slashes -/

theorem walked_below {p c : Bytes} (hc : IsName c) : walked (p ++ slash :: c) = walked p ++ [c] := by
  unfold walked
  rw [List.splitOn_append_cons_self, List.splitOn_eq_singleton hc.noSlash, List.filter_append]
  have : ([c] : List Bytes).filter (!·.isEmpty) = [c] := by simp [hc.ne_nil]
  rw [this]

theorem components_below {p c : Bytes} (hc : IsName c) :
    components (p ++ slash :: c) = components p ++ [c] := by
  rw [components_eq, components_eq, walked_below hc, List.filter_append]
  simp [hc.notStay]

theorem isAbsolute_append {p q : Bytes} (hp : p ≠ []) : isAbsolute (p ++ q) = isAbsolute p := by
  cases p with
  | nil => exact absurd rfl hp
  | cons b p => rfl

theorem pushComponent_name {rooted : Bool} {stack : List Bytes} {c : Bytes} (h : c ≠ parentMark) :
    pushComponent rooted stack c = c :: stack := by
  unfold pushComponent
  rw [if_neg h]

theorem parts_below {p c : Bytes} (hp : p ≠ []) (hc : IsName c) :
    parts (p ++ slash :: c) = parts p ++ [c] := by
  unfold parts
  rw [components_below hc, isAbsolute_append hp, List.foldl_append, List.foldl_cons, List.foldl_nil,
    pushComponent_name hc.notParent, List.reverse_cons]

theorem join_concat {l : List Bytes} {c : Bytes} (hl : l ≠ []) :
    Bytes.join [slash] (l ++ [c]) = Bytes.join [slash] l ++ slash :: c := by
  unfold Bytes.join
  induction l with
  | nil => exact absurd rfl hl
  | cons a l ih =>
    cases l with
    | nil => simp
    | cons b l =>
      have hne : (b :: l : List Bytes) ≠ [] := by simp
      rw [List.cons_append, List.intercalate_cons_of_ne_nil (by simp), ih hne,
        List.intercalate_cons_of_ne_nil hne]
      simp

/-- A plain name below a path that names something is written after the clean path. -/
theorem clean_below {p c : Bytes} (hp : p ≠ []) (hc : IsName c) (hparts : parts p ≠ []) :
    clean (p ++ slash :: c) = clean p ++ slash :: c := by
  rw [clean_eq, clean_eq, isAbsolute_append hp, parts_below hp hc, join_concat hparts]
  have h1 : (parts p ++ [c]).isEmpty = false := by simp
  have h2 : (parts p).isEmpty = false := by simp [hparts]
  rw [h1, h2]
  split_ifs <;> simp_all

/-! ### Cleaning twice -/

/-- The form of the components once the parent marks have done their work, the last one first:
parent marks stand only at the front of a relative path. -/
def Settled (rooted : Bool) : List Bytes → Prop
  | [] => True
  | c :: below => Settled rooted below ∧ (c = parentMark → rooted = false ∧ ∀ x ∈ below, x = parentMark)

theorem settled_push {rooted : Bool} {stack : List Bytes} (h : Settled rooted stack) (c : Bytes) :
    Settled rooted (pushComponent rooted stack c) := by
  unfold pushComponent
  by_cases hc : c = parentMark
  · rw [if_pos hc]
    cases stack with
    | nil => cases rooted <;> simp [Settled]
    | cons top below =>
      by_cases htop : top = parentMark
      · have hbelow := h.2 htop
        simp only [htop, if_true]
        refine ⟨htop ▸ h, fun _ => ⟨hbelow.1, ?_⟩⟩
        intro x hx
        rcases List.mem_cons.mp hx with rfl | hx
        · rfl
        · exact hbelow.2 x hx
      · simp only [htop, if_false]
        exact h.1
  · rw [if_neg hc]
    exact ⟨h, fun h' => absurd h' hc⟩

theorem settled_foldl {rooted : Bool} (l : List Bytes) {stack : List Bytes}
    (h : Settled rooted stack) : Settled rooted (l.foldl (pushComponent rooted) stack) := by
  induction l generalizing stack with
  | nil => exact h
  | cons c l ih => exact ih (settled_push h c)

/-- Settled components stay as they are when they are put together once more. -/
theorem foldl_reverse_of_settled {rooted : Bool} {stack : List Bytes} (h : Settled rooted stack) :
    stack.reverse.foldl (pushComponent rooted) [] = stack := by
  induction stack with
  | nil => rfl
  | cons c below ih =>
    rw [List.reverse_cons, List.foldl_append, ih h.1, List.foldl_cons, List.foldl_nil]
    unfold pushComponent
    by_cases hc : c = parentMark
    · obtain ⟨hrooted, hbelow⟩ := h.2 hc
      rw [if_pos hc]
      cases below with
      | nil => simp [hrooted]
      | cons top below => simp [hbelow top List.mem_cons_self]
    · rw [if_neg hc]

theorem mem_pushComponent {rooted : Bool} {stack : List Bytes} {a c : Bytes}
    (h : c ∈ pushComponent rooted stack a) : c = a ∨ c ∈ stack := by
  unfold pushComponent at h
  by_cases ha : a = parentMark
  · rw [if_pos ha] at h
    cases stack with
    | nil => cases rooted <;> simp_all
    | cons top below =>
      by_cases htop : top = parentMark <;> simp_all
  · rw [if_neg ha] at h
    exact List.mem_cons.mp h

theorem mem_of_mem_foldl {rooted : Bool} {c : Bytes} (l : List Bytes) {stack : List Bytes}
    (h : c ∈ l.foldl (pushComponent rooted) stack) : c ∈ l ∨ c ∈ stack := by
  induction l generalizing stack with
  | nil => exact .inr h
  | cons a l ih =>
    rcases ih h with h | h
    · exact .inl (List.mem_cons_of_mem _ h)
    · rcases mem_pushComponent h with rfl | h
      · exact .inl List.mem_cons_self
      · exact .inr h

/-- Every part of a path has something in it, no slash, and is not a lone dot. -/
theorem mem_parts {p c : Bytes} (h : c ∈ parts p) : c ≠ [] ∧ slash ∉ c ∧ c ≠ [0x2E] := by
  have hc : c ∈ components p := by
    rcases mem_of_mem_foldl _ (List.mem_reverse.mp h) with h | h
    · exact h
    · exact absurd h List.not_mem_nil
  unfold components at hc
  rw [List.mem_filter] at hc
  refine ⟨?_, Bytes.not_mem_of_mem_splitOn hc.1, ?_⟩
  · rintro rfl
    simp at hc
  · rintro rfl
    simp at hc

theorem settled_parts (p : Bytes) : Settled (isAbsolute p) (parts p).reverse := by
  unfold parts
  rw [List.reverse_reverse]
  exact settled_foldl _ trivial

theorem isAbsolute_clean (p : Bytes) : isAbsolute (clean p) = isAbsolute p := by
  rw [clean_eq]
  cases hp : isAbsolute p with
  | true => rfl
  | false =>
    cases hparts : parts p with
    | nil => rfl
    | cons c l =>
      obtain ⟨hne, hslash, -⟩ := mem_parts (p := p) (c := c) (by rw [hparts]; exact List.mem_cons_self)
      cases c with
      | nil => exact absurd rfl hne
      | cons b c =>
        have hb : b ≠ slash := fun h => hslash (by rw [h]; exact List.mem_cons_self)
        cases l <;> simp [Bytes.join, isAbsolute, hb]

theorem walked_join {l : List Bytes} (hl : l ≠ []) (h : ∀ c ∈ l, c ≠ [] ∧ slash ∉ c) :
    walked (Bytes.join [slash] l) = l := by
  unfold walked Bytes.join
  rw [List.splitOn_intercalate slash (fun c hc => (h c hc).2) hl, List.filter_eq_self]
  intro c hc
  simp [(h c hc).1]

theorem walked_rooted (p : Bytes) : walked (slash :: p) = walked p := by
  unfold walked
  rw [List.splitOn_cons_eq_if_modifyHead]
  simp

/-- The names that a clean path walks through are its parts. -/
theorem walked_clean {p : Bytes} (h : parts p ≠ []) : walked (clean p) = parts p := by
  have hjoin := walked_join h fun c hc => ⟨(mem_parts hc).1, (mem_parts hc).2.1⟩
  have hempty : (parts p).isEmpty = false := by simp [h]
  rw [clean_eq, hempty]
  cases isAbsolute p with
  | false => simpa using hjoin
  | true => simpa [walked_rooted] using hjoin

theorem components_clean (p : Bytes) : components (clean p) = parts p := by
  by_cases hparts : parts p = []
  · rw [clean_eq, hparts]
    cases isAbsolute p <;> decide
  · rw [components_eq, walked_clean hparts, List.filter_eq_self]
    intro c hc
    simp [(mem_parts hc).2.2]

theorem parts_clean (p : Bytes) : parts (clean p) = parts p := by
  have h := foldl_reverse_of_settled (settled_parts p)
  rw [List.reverse_reverse] at h
  rw [parts, components_clean, isAbsolute_clean, h, List.reverse_reverse]

/-- Cleaning twice is cleaning once. -/
theorem clean_clean (p : Bytes) : clean (clean p) = clean p := by
  rw [clean_eq (clean p), parts_clean, isAbsolute_clean, ← clean_eq]

theorem clean_ne_nil (p : Bytes) : clean p ≠ [] := by
  rw [clean_eq]
  split_ifs with h1 h2
  · simp
  · simp
  · intro hnil
    have hc := components_clean p
    rw [clean_eq, if_neg h1, if_neg h2, hnil] at hc
    exact h2 (by rw [← hc]; rfl)

theorem getLast?_below {p c : Bytes} (hne : c ≠ []) (hslash : slash ∉ c) :
    (p ++ slash :: c).getLast? ≠ some slash := by
  rw [List.getLast?_append_of_ne_nil _ (by simp), List.getLast?_cons_of_ne_nil hne]
  exact fun h => hslash (List.mem_of_getLast? h)

/-! ### Joining paths -/

/-- A clean path that names something does not end with a slash. -/
theorem getLast?_clean {p : Bytes} (h : parts p ≠ []) : (clean p).getLast? ≠ some slash := by
  obtain ⟨above, c, hparts⟩ : ∃ above c, parts p = above ++ [c] :=
    ⟨_, _, (List.dropLast_append_getLast h).symm⟩
  obtain ⟨hne, hslash, -⟩ := mem_parts (p := p) (c := c) (by simp [hparts])
  have hclean : ∃ front, clean p = front ++ c := by
    rw [clean_eq, hparts]
    by_cases habove : above = []
    · subst habove
      cases isAbsolute p
      · exact ⟨[], by simp [Bytes.join]⟩
      · exact ⟨[slash], by simp [Bytes.join]⟩
    · rw [join_concat habove]
      cases isAbsolute p
      · exact ⟨Bytes.join [slash] above ++ [slash], by simp⟩
      · exact ⟨slash :: Bytes.join [slash] above ++ [slash], by simp⟩
  obtain ⟨front, hclean⟩ := hclean
  rw [hclean, List.getLast?_append_of_ne_nil _ hne]
  exact fun hlast => hslash (List.mem_of_getLast? hlast)

theorem join_nil_cons (rest : List Bytes) : join ([] :: rest) = join rest := rfl

theorem join_cons {p : Bytes} (hp : p ≠ []) (rest : List Bytes) :
    join (p :: rest) = clean (Bytes.join [slash] (p :: rest)) := by
  unfold join
  rw [List.dropWhile_cons_of_neg (by simp [hp])]

/-! ### Cutting a path -/

theorem join_pair {dir : Bytes} (hdir : dir ≠ []) (c : Bytes) :
    join [dir, c] = clean (dir ++ slash :: c) := by
  rw [join_cons hdir]
  simp [Bytes.join]

theorem walked_append (p q : Bytes) : walked (p ++ slash :: q) = walked p ++ walked q := by
  unfold walked
  rw [List.splitOn_append_cons_self, List.filter_append]

theorem components_append (p q : Bytes) :
    components (p ++ slash :: q) = components p ++ components q := by
  rw [components_eq, components_eq, components_eq, walked_append, List.filter_append]

theorem walked_singleton {c : Bytes} (hne : c ≠ []) (hslash : slash ∉ c) : walked c = [c] := by
  unfold walked
  rw [List.splitOn_eq_singleton hslash]
  simp [hne]

theorem walked_replicate (n : Nat) : walked (List.replicate n slash) = [] := by
  induction n with
  | zero => rfl
  | succ n ih => rw [List.replicate_succ, walked_rooted, ih]

theorem walked_trailing (p : Bytes) (n : Nat) : walked (p ++ List.replicate n slash) = walked p := by
  cases n with
  | zero => simp
  | succ n => rw [List.replicate_succ, walked_append, walked_replicate, List.append_nil]

/-- A path is what is left without the slashes at its end, and these slashes. -/
theorem eq_dropTrailing_append (p : Bytes) : ∃ n, p = dropTrailing p ++ List.replicate n slash := by
  have hsplit := List.takeWhile_append_dropWhile (p := (· == slash)) (l := p.reverse)
  refine ⟨(p.reverse.takeWhile (· == slash)).length, ?_⟩
  have hall : p.reverse.takeWhile (· == slash) =
      List.replicate (p.reverse.takeWhile (· == slash)).length slash := by
    rw [List.eq_replicate_iff]
    refine ⟨rfl, fun b hb => ?_⟩
    simpa using List.mem_takeWhile_imp hb
  calc p = (p.reverse.takeWhile (· == slash) ++ p.reverse.dropWhile (· == slash)).reverse := by
        rw [hsplit, List.reverse_reverse]
    _ = dropTrailing p ++ (p.reverse.takeWhile (· == slash)).reverse := List.reverse_append
    _ = dropTrailing p ++ List.replicate (p.reverse.takeWhile (· == slash)).length slash := by
        conv_lhs => rw [hall, List.reverse_replicate]

theorem getLast?_dropTrailing (p : Bytes) : (dropTrailing p).getLast? ≠ some slash := by
  unfold dropTrailing
  rw [List.getLast?_reverse]
  intro h
  have hnot := List.head?_dropWhile_not (· == slash) p.reverse
  rw [h] at hnot
  simp at hnot

theorem dropTrailing_of_getLast? {p : Bytes} (h : p.getLast? ≠ some slash) : dropTrailing p = p := by
  obtain ⟨n, hn⟩ := eq_dropTrailing_append p
  cases n with
  | zero => simpa using hn.symm
  | succ n =>
    rw [hn, List.replicate_succ', ← List.append_assoc, List.getLast?_concat] at h
    exact absurd rfl h

/-- The part of a path up to its last slash, and the name after it. -/
theorem upToLast_cases (p : Bytes) :
    (upToLast p = [] ∧ slash ∉ p) ∨
      ∃ q c, p = q ++ slash :: c ∧ slash ∉ c ∧ upToLast p = q ++ [slash] := by
  have hsplit := List.takeWhile_append_dropWhile (p := (· != slash)) (l := p.reverse)
  have hnone : ∀ b ∈ p.reverse.takeWhile (· != slash), b ≠ slash := fun b hb => by
    simpa using List.mem_takeWhile_imp hb
  cases hdrop : p.reverse.dropWhile (· != slash) with
  | nil =>
    refine .inl ⟨by unfold upToLast; rw [hdrop]; rfl, fun hmem => ?_⟩
    rw [hdrop, List.append_nil] at hsplit
    exact hnone slash (by rw [hsplit]; exact List.mem_reverse.mpr hmem) rfl
  | cons b rest =>
    have hb : b = slash := by
      have hnot := List.head?_dropWhile_not (· != slash) p.reverse
      rw [hdrop] at hnot
      simpa using hnot
    subst hb
    refine .inr ⟨rest.reverse, (p.reverse.takeWhile (· != slash)).reverse, ?_, ?_, ?_⟩
    · rw [hdrop] at hsplit
      calc p = p.reverse.reverse := (List.reverse_reverse p).symm
        _ = (p.reverse.takeWhile (· != slash) ++ slash :: rest).reverse := by rw [hsplit]
        _ = _ := by simp
    · intro hmem
      exact hnone slash (List.mem_reverse.mp hmem) rfl
    · unfold upToLast
      rw [hdrop, List.reverse_cons]

/-- The last component of a path holds nothing new but the dot and the slash. -/
theorem mem_base {p : Bytes} {c : UInt8} (h : c ∈ base p) : c ∈ p ∨ c = 0x2E ∨ c = slash := by
  unfold base at h
  split_ifs at h with hempty
  · exact .inr (.inl (List.mem_singleton.mp h))
  · extract_lets name at h
    split_ifs at h
    · exact .inr (.inr (List.mem_singleton.mp h))
    · have hafter : c ∈ dropTrailing p :=
        List.mem_reverse.mp ((List.takeWhile_sublist _).mem (List.mem_reverse.mp h))
      exact .inl (List.mem_reverse.mp ((List.dropWhile_sublist _).mem (List.mem_reverse.mp hafter)))

end Path

end PatchAudit
