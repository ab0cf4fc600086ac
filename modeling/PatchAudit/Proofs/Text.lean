import Mathlib.Data.List.Basic
import PatchAudit.Text.Bytes

/-!
# Numerals, hexadecimal digits, split and sorted texts

What keys and file names are made of: decimal numerals and hexadecimal spellings can be read back,
and hold none of the bytes that separate fields or path components.  The parts of a text stand in it
without the byte between them, and what follows the text changes only the last one
(`exists_splitOn_append`).  Looking for a text finds it exactly if it stands there (`hasInfix_iff`).
A sort puts a list in order and moves its elements about (`sortBy_pairwise`, `sortBy_perm`), so it
forgets the order that was there.
-/

namespace PatchAudit

namespace Bytes

/-! ### Decimal numerals -/

theorem toNat_toUInt8_of_isDigit {c : Char} (h : c.isDigit = true) :
    c.toNat.toUInt8.toNat = c.toNat ∧ 48 ≤ c.toNat ∧ c.toNat ≤ 57 := by
  have hc : 48 ≤ c.toNat ∧ c.toNat ≤ 57 := by
    simp only [Char.isDigit, Bool.and_eq_true, decide_eq_true_eq] at h
    exact ⟨h.1, h.2⟩
  refine ⟨?_, hc⟩
  rw [Nat.toUInt8_eq, UInt8.toNat_ofNat']
  omega

theorem mem_ofNat {n : Nat} {b : UInt8} (h : b ∈ ofNat n) : 48 ≤ b.toNat ∧ b.toNat ≤ 57 := by
  obtain ⟨c, hc, rfl⟩ := List.mem_map.mp h
  obtain ⟨he, hlo, hhi⟩ := toNat_toUInt8_of_isDigit
    (Nat.isDigit_of_mem_toDigits (by decide) (by decide) hc)
  omega

/-- A numeral can be read back. -/
theorem ofNat_injective : Function.Injective ofNat := by
  intro m n h
  have hback : ∀ k, (ofNat k).map (fun b => Char.ofNat b.toNat) = Nat.toDigits 10 k := by
    intro k
    rw [ofNat, List.map_map]
    refine (List.map_congr_left fun c hc => ?_).trans (List.map_id _)
    have he := (toNat_toUInt8_of_isDigit
      (Nat.isDigit_of_mem_toDigits (by decide) (by decide) hc)).1
    simp only [Function.comp_apply, he, Char.ofNat_toNat, id_eq]
  have hdigits : Nat.toDigits 10 m = Nat.toDigits 10 n := by rw [← hback m, ← hback n, h]
  have hvalue := congrArg (fun l => Nat.ofDigitChars 10 l 0) hdigits
  simpa using hvalue

/-! ### Hexadecimal digits -/

theorem toNat_hexDigit {n : Nat} (h : n < 16) :
    (hexDigit n).toNat = if n < 10 then 48 + n else 87 + n := by
  unfold hexDigit
  rw [Nat.toUInt8_eq, UInt8.toNat_ofNat']
  split_ifs <;> omega

theorem hexDigit_inj {m n : Nat} (hm : m < 16) (hn : n < 16) (h : hexDigit m = hexDigit n) :
    m = n := by
  have ht := congrArg UInt8.toNat h
  rw [toNat_hexDigit hm, toNat_hexDigit hn] at ht
  split_ifs at ht <;> omega

theorem hexPadded_two (n : Nat) : hexPadded 2 n = [hexDigit (n / 16 % 16), hexDigit (n % 16)] := rfl

theorem length_toHex (s : Bytes) : (toHex s).length = 2 * s.length := by
  induction s with
  | nil => rfl
  | cons b s ih =>
    simp only [toHex, List.flatMap_cons, hexPadded_two, List.length_append, List.length_cons,
      List.length_nil] at ih ⊢
    omega

theorem mem_toHex {s : Bytes} {b : UInt8} (h : b ∈ toHex s) : 48 ≤ b.toNat ∧ b.toNat ≤ 102 := by
  obtain ⟨c, -, hb⟩ := List.mem_flatMap.mp h
  rw [hexPadded_two] at hb
  have hdigit : ∃ n, n < 16 ∧ b = hexDigit n := by
    rcases List.mem_cons.mp hb with hb | hb
    · exact ⟨_, Nat.mod_lt _ (by decide), hb⟩
    · exact ⟨_, Nat.mod_lt _ (by decide), List.mem_singleton.mp hb⟩
  obtain ⟨n, hn, rfl⟩ := hdigit
  rw [toNat_hexDigit hn]
  split_ifs <;> omega

/-- Hexadecimal digits can be read back. -/
theorem toHex_injective : Function.Injective toHex := by
  intro s t h
  induction s generalizing t with
  | nil =>
    have hl := congrArg List.length h
    rw [length_toHex, length_toHex, List.length_nil] at hl
    have ht : t.length = 0 := by omega
    exact (List.length_eq_zero_iff.mp ht).symm
  | cons b s ih =>
    cases t with
    | nil => simp [toHex, hexPadded_two] at h
    | cons c t =>
      simp only [toHex, List.flatMap_cons, hexPadded_two, List.cons_append, List.nil_append,
        List.cons.injEq] at h
      obtain ⟨hhigh, hlow, hrest⟩ := h
      have h1 := hexDigit_inj (Nat.mod_lt _ (by decide)) (Nat.mod_lt _ (by decide)) hhigh
      have h2 := hexDigit_inj (Nat.mod_lt _ (by decide)) (Nat.mod_lt _ (by decide)) hlow
      have hbc : b = c := by
        apply UInt8.toNat_inj.mp
        have hb := b.toNat_lt
        have hc := c.toNat_lt
        omega
      rw [hbc, ih hrest]

/-! ### Searching -/

theorem hasInfix_iff {t s : Bytes} : hasInfix t s = true ↔ t <:+: s := by
  induction s with
  | nil => rw [hasInfix, List.isEmpty_iff, List.infix_nil]
  | cons b s ih => rw [hasInfix, Bool.or_eq_true, List.isPrefixOf_iff_prefix, ih, List.infix_cons_iff]

/-! ### Splitting -/

theorem not_mem_of_mem_splitOn {a : UInt8} {s part : Bytes} (h : part ∈ s.splitOn a) :
    a ∉ part := by
  induction s generalizing part with
  | nil =>
    rw [List.splitOn_nil, List.mem_singleton] at h
    simp [h]
  | cons b s ih =>
    rw [List.splitOn_cons_eq_if_modifyHead] at h
    split_ifs at h with hb
    · rcases List.mem_cons.mp h with rfl | h
      · simp
      · exact ih h
    · cases hsplit : s.splitOn a with
      | nil => exact absurd hsplit (List.splitOn_ne_nil a s)
      | cons x xs =>
        rw [hsplit, List.modifyHead_cons] at h
        rcases List.mem_cons.mp h with rfl | h
        · have hx : a ∉ x := ih (by rw [hsplit]; exact List.mem_cons_self)
          simp only [beq_iff_eq] at hb
          simp only [List.mem_cons, not_or]
          exact ⟨fun hab => hb hab.symm, hx⟩
        · exact ih (by rw [hsplit]; exact List.mem_cons_of_mem _ h)

/-- What stands in texts put together stands in one of them or between them. -/
theorem mem_join {sep : Bytes} {parts : List Bytes} {b : UInt8} (h : b ∈ join sep parts) :
    b ∈ sep ∨ ∃ part ∈ parts, b ∈ part := by
  induction parts with
  | nil => exact absurd h (by simp [join])
  | cons part rest ih =>
    cases rest with
    | nil => exact .inr ⟨part, List.mem_cons_self, by simpa [join] using h⟩
    | cons next rest =>
      rw [join, List.intercalate_cons_cons, List.mem_append, List.mem_append] at h
      rcases h with (hpart | hsep) | hrest
      · exact .inr ⟨part, List.mem_cons_self, hpart⟩
      · exact .inl hsep
      · rcases ih hrest with hsep | ⟨other, hother, hb⟩
        · exact .inl hsep
        · exact .inr ⟨other, List.mem_cons_of_mem _ hother, hb⟩

theorem infix_intercalate (sep : Bytes) {part : Bytes} {parts : List Bytes} (h : part ∈ parts) :
    part <:+: sep.intercalate parts := by
  induction parts with
  | nil => cases h
  | cons first rest ih =>
    cases rest with
    | nil =>
      obtain rfl := List.mem_singleton.mp h
      exact ⟨[], [], by simp [List.intercalate_singleton]⟩
    | cons next rest =>
      rw [List.intercalate_cons_cons]
      rcases List.mem_cons.mp h with rfl | h
      · rw [List.append_assoc]
        exact (List.prefix_append _ _).isInfix
      · exact (ih h).trans (List.suffix_append _ _).isInfix

/-- A part of a text stands somewhere in it. -/
theorem infix_of_mem_splitOn {a : UInt8} {s part : Bytes} (h : part ∈ s.splitOn a) :
    part <:+: s := by
  have hinfix := infix_intercalate [a] h
  rwa [List.intercalate_splitOn] at hinfix

theorem splitOn_append_of_not_mem {a : UInt8} {x : Bytes} (h : a ∉ x) (y : Bytes) :
    (x ++ y).splitOn a = (y.splitOn a).modifyHead (x ++ ·) := by
  induction x with
  | nil => cases hsplit : y.splitOn a <;> simp [hsplit]
  | cons b x ih =>
    rw [List.mem_cons, not_or] at h
    have hb : ¬ (b == a) = true := by simpa using Ne.symm h.1
    rw [List.cons_append, List.splitOn_cons_eq_if_modifyHead, if_neg hb, ih h.2]
    cases y.splitOn a <;> rfl

/-- All parts of a text but the last are there whatever follows, which goes on in the last one. -/
theorem exists_splitOn_append (a : UInt8) (x : Bytes) :
    ∃ parts last, a ∉ last ∧ x.splitOn a = parts ++ [last] ∧
      ∀ y, (x ++ y).splitOn a = parts ++ (last ++ y).splitOn a := by
  induction x with
  | nil => exact ⟨[], [], by simp, rfl, fun y => rfl⟩
  | cons b x ih =>
    obtain ⟨parts, last, hlast, hsplit, happend⟩ := ih
    by_cases hb : (b == a) = true
    · refine ⟨[] :: parts, last, hlast, ?_, fun y => ?_⟩
      · rw [List.splitOn_cons_eq_if_modifyHead, if_pos hb, hsplit, List.cons_append]
      · rw [List.cons_append, List.splitOn_cons_eq_if_modifyHead, if_pos hb, happend,
          List.cons_append]
    · cases parts with
      | nil =>
        have hnot : a ∉ b :: last := by
          rw [List.mem_cons, not_or]
          exact ⟨fun heq => hb (by simp [heq]), hlast⟩
        refine ⟨[], b :: last, hnot, ?_, fun y => ?_⟩
        · rw [List.splitOn_cons_eq_if_modifyHead, if_neg hb, hsplit]
          rfl
        · rw [List.cons_append, List.splitOn_cons_eq_if_modifyHead, if_neg hb, happend,
            List.nil_append, List.nil_append, List.cons_append, List.splitOn_cons_eq_if_modifyHead,
            if_neg hb]
      | cons part parts =>
        refine ⟨(b :: part) :: parts, last, hlast, ?_, fun y => ?_⟩
        · rw [List.splitOn_cons_eq_if_modifyHead, if_neg hb, hsplit]
          rfl
        · rw [List.cons_append, List.splitOn_cons_eq_if_modifyHead, if_neg hb, happend]
          rfl

/-! ### Sorting -/

theorem insertBy_perm {α : Type} (le : α → α → Bool) (a : α) (l : List α) :
    (insertBy le a l).Perm (a :: l) := by
  induction l with
  | nil => exact .refl _
  | cons b r ih =>
    simp only [insertBy]
    split
    · exact .refl _
    · exact (ih.cons b).trans (.swap a b r)

theorem sortBy_perm {α : Type} (le : α → α → Bool) (l : List α) : (sortBy le l).Perm l := by
  induction l with
  | nil => exact .refl _
  | cons a r ih => exact (insertBy_perm le a _).trans (ih.cons a)

/-- Sorting moves texts about and changes nothing else. -/
theorem sort_perm (l : List Bytes) : (sort l).Perm l := sortBy_perm _ l

section Ordered

variable {α : Type} {le : α → α → Bool}

theorem insertBy_pairwise (htrans : ∀ a b c, le a b → le b c → le a c)
    (htotal : ∀ a b, le a b ∨ le b a) (a : α) {l : List α} (h : l.Pairwise fun x y => le x y) :
    (insertBy le a l).Pairwise fun x y => le x y := by
  induction l with
  | nil => exact List.pairwise_singleton _ a
  | cons b r ih =>
    obtain ⟨hb, hr⟩ := List.pairwise_cons.mp h
    simp only [insertBy]
    split_ifs with hab
    · refine List.pairwise_cons.mpr ⟨fun c hc => ?_, h⟩
      rcases List.mem_cons.mp hc with rfl | hc
      · exact hab
      · exact htrans a b c hab (hb c hc)
    · have hba : le b a := (htotal a b).resolve_left hab
      refine List.pairwise_cons.mpr ⟨fun c hc => ?_, ih hr⟩
      rcases List.mem_cons.mp ((insertBy_perm le a r).mem_iff.mp hc) with rfl | hc
      · exact hba
      · exact hb c hc

/-- What a sort gives is in order. -/
theorem sortBy_pairwise (htrans : ∀ a b c, le a b → le b c → le a c)
    (htotal : ∀ a b, le a b ∨ le b a) (l : List α) :
    (sortBy le l).Pairwise fun x y => le x y := by
  induction l with
  | nil => exact List.Pairwise.nil
  | cons a r ih => exact insertBy_pairwise htrans htotal a ih

end Ordered

theorem sort_pairwise (l : List Bytes) : (sort l).Pairwise (· ≤ ·) := by
  have htrans : ∀ a b c : Bytes, decide (a ≤ b) → decide (b ≤ c) → decide (a ≤ c) := by
    intro a b c hab hbc
    exact decide_eq_true (List.le_trans (of_decide_eq_true hab) (of_decide_eq_true hbc))
  have htotal : ∀ a b : Bytes, decide (a ≤ b) ∨ decide (b ≤ a) := by
    intro a b
    simpa using List.le_total a b
  exact (sortBy_pairwise htrans htotal l).imp fun h => of_decide_eq_true h

/-- The order in which texts come makes no difference to a sort. -/
theorem sort_eq_of_perm {l m : List Bytes} (h : l.Perm m) : sort l = sort m := by
  have hperm : (sort l).Perm (sort m) := (sort_perm l).trans (h.trans (sort_perm m).symm)
  exact hperm.eq_of_pairwise (fun a b _ _ hab hba => List.le_antisymm hab hba) (sort_pairwise l)
    (sort_pairwise m)

end Bytes

end PatchAudit
