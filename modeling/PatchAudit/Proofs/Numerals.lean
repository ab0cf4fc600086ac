import Mathlib.Algebra.Order.Ring.Nat
import Mathlib.Data.List.Basic
import PatchAudit.Proofs.Text
import PatchAudit.Text.Numeral

/-!
# Decimal numerals

A text of digits is read as its value if that is in range (`read_of_digits`), with or without
leading zeros, so the numeral that is written for a number is read as this number (`read_ofInt`).
-/

namespace PatchAudit

namespace Numeral

/-- The value of decimal digits read onto a number. -/
def valueFrom (acc : Nat) (s : Bytes) : Nat := s.foldl (fun acc b => acc * 10 + (b.toNat - 0x30)) acc

/-- The value of decimal digits. -/
def value (s : Bytes) : Nat := valueFrom 0 s

/-- A numeral without a sign: at least one digit, and nothing else. -/
structure IsDecimal (s : Bytes) : Prop where
  ne_nil : s ≠ []
  digits : ∀ b ∈ s, Bytes.isDigit b = true

instance (s : Bytes) : Decidable (IsDecimal s) :=
  decidable_of_iff (s ≠ [] ∧ s.all Bytes.isDigit = true)
    ⟨fun h => ⟨h.1, List.all_eq_true.mp h.2⟩, fun h => ⟨h.ne_nil, List.all_eq_true.mpr h.digits⟩⟩

theorem isDigit_iff {b : UInt8} : Bytes.isDigit b = true ↔ 48 ≤ b.toNat ∧ b.toNat ≤ 57 := by
  simp [Bytes.isDigit, UInt8.le_iff_toNat_le]

theorem le_valueFrom (acc : Nat) (s : Bytes) : acc ≤ valueFrom acc s := by
  induction s generalizing acc with
  | nil => exact Nat.le_refl _
  | cons b s ih =>
    have hstep := ih (acc * 10 + (b.toNat - 0x30))
    show acc ≤ valueFrom (acc * 10 + (b.toNat - 0x30)) s
    omega

/-- Digits are read onto a value as long as it stays in range, and what is read so far never
exceeds the value in the end. -/
theorem digits_eq {bound : Nat} (s : Bytes) (hdigits : ∀ b ∈ s, Bytes.isDigit b = true) (acc : Nat)
    (hbound : valueFrom acc s < bound) : digits 10 bound acc s = .ok (valueFrom acc s) := by
  induction s generalizing acc with
  | nil => rfl
  | cons b s ih =>
    have hb := hdigits b List.mem_cons_self
    have hrange := isDigit_iff.mp hb
    have hstep : acc * 10 + (b.toNat - 0x30) ≤ valueFrom (acc * 10 + (b.toNat - 0x30)) s :=
      le_valueFrom _ s
    have hvalue : valueFrom acc (b :: s) = valueFrom (acc * 10 + (b.toNat - 0x30)) s := rfl
    rw [hvalue] at hbound ⊢
    have hdigit : digit? b = some (b.toNat - 0x30) := by simp [digit?, hb]
    rw [digits, hdigit]
    simp only
    rw [if_neg (by omega), if_neg (by omega)]
    exact ih (fun c hc => hdigits c (List.mem_cons_of_mem _ hc)) _ hbound

theorem magnitude_of_digits {s : Bytes} (h : IsDecimal s) (bits : Nat) (hbits : value s < 2 ^ bits) :
    magnitude 10 bits s = .ok (value s) := by
  have hempty : s.isEmpty = false := by simp [h.ne_nil]
  unfold magnitude
  rw [hempty, if_neg Bool.false_ne_true]
  exact digits_eq s h.digits 0 (by rwa [Nat.one_shiftLeft])

theorem splitSign_of_digits {s : Bytes} (h : IsDecimal s) : splitSign s = (false, s) := by
  cases s with
  | nil => rfl
  | cons b s =>
    have hb := isDigit_iff.mp (h.digits b List.mem_cons_self)
    unfold splitSign
    split
    · rename_i heq
      cases heq
      simp at hb
    · rename_i heq
      cases heq
      simp at hb
    · rfl

/-- **Digits are read as their value.** -/
theorem read_of_digits {s : Bytes} (h : IsDecimal s) (hvalue : value s < 2 ^ 63) :
    read 10 64 s = .ok (value s : Int) := by
  have hmagnitude := magnitude_of_digits h 64 (by omega)
  unfold read
  rw [splitSign_of_digits h]
  simp only [hmagnitude]
  show signed 64 false (value s) = _
  unfold signed
  rw [if_neg Bool.false_ne_true, if_pos (by simpa [Nat.one_shiftLeft] using hvalue)]

/-! ### Numerals that are written -/

theorem valueFrom_append (acc : Nat) (s t : Bytes) :
    valueFrom acc (s ++ t) = valueFrom (valueFrom acc s) t := List.foldl_append

theorem isDecimal_ofNat (n : Nat) : IsDecimal (Bytes.ofNat n) where
  ne_nil := by
    unfold Bytes.ofNat
    simp [Nat.toDigits_ne_nil]
  digits := fun _ hb => isDigit_iff.mpr (Bytes.mem_ofNat hb)

theorem value_digit : ∀ n < 10, n.digitChar.toNat.toUInt8.toNat - 0x30 = n := by decide

theorem value_ofNat (n : Nat) : value (Bytes.ofNat n) = n := by
  induction n using Nat.strongRecOn with
  | _ n ih =>
    unfold Bytes.ofNat
    rw [Nat.toDigits_eq_if (by decide)]
    split_ifs with hsmall
    · show 0 * 10 + (n.digitChar.toNat.toUInt8.toNat - 0x30) = n
      rw [value_digit n hsmall]
      omega
    · have hrest := ih (n / 10) (by omega)
      unfold Bytes.ofNat at hrest
      have hlast := value_digit (n % 10) (by omega)
      rw [List.map_append, value, valueFrom_append]
      show valueFrom (value _) _ = n
      rw [hrest]
      show n / 10 * 10 + ((n % 10).digitChar.toNat.toUInt8.toNat - 0x30) = n
      omega

/-- **The numeral of a word is read as this word.** -/
theorem read_ofInt {i : Int} (h : -2 ^ 63 ≤ i ∧ i < 2 ^ 63) : read 10 64 (Bytes.ofInt i) = .ok i := by
  cases i with
  | ofNat n =>
    have hvalue : value (Bytes.ofNat n) < 2 ^ 63 := by
      rw [value_ofNat]
      have hn := h.2
      simp only [Int.ofNat_eq_natCast] at hn
      omega
    show read 10 64 (Bytes.ofNat n) = _
    rw [read_of_digits (isDecimal_ofNat n) hvalue, value_ofNat]
    rfl
  | negSucc n =>
    have hn : n + 1 ≤ 2 ^ 63 := by
      have hlow := h.1
      omega
    have hmagnitude := magnitude_of_digits (isDecimal_ofNat (n + 1)) 64
      (by rw [value_ofNat]; omega)
    rw [value_ofNat] at hmagnitude
    show (do signed 64 true (← magnitude 10 64 (Bytes.ofNat (n + 1)))) = _
    rw [hmagnitude]
    show signed 64 true (n + 1) = _
    unfold signed
    rw [if_pos rfl, if_pos (by simpa [Nat.one_shiftLeft] using hn)]
    rfl

end Numeral

end PatchAudit
