import Mathlib.Data.List.DropRight
import PatchAudit.Proofs.Characters
import PatchAudit.Text.Truncate

/-!
# Texts cut to a number of characters

Cutting from the front and cutting from the end differ only in what is shown of a text that is too long
(`shortenTo`): an end of it and the ellipsis, one mirrored in the other.  Both show as many characters as
there is room for, so a text that was cut is not cut again (`shortenTo_shortenTo`).
`shortened_texts_keep_an_end` says this of both cuts, for all texts, stray bytes in them or not.
-/

namespace PatchAudit

namespace Bytes

/-- The first characters of a text before an ellipsis, `n` characters in all. -/
def front (n : Nat) (cs : List Char) : List Char := cs.take (n - 1) ++ [ellipsis]

/-- The last characters of a text behind an ellipsis, `n` characters in all. -/
def back (n : Nat) (cs : List Char) : List Char := ellipsis :: cs.rtake (n - 1)

/-- A text of at most `n` characters; one that is longer as what is shown of it. -/
def shortenTo (n : Nat) (shown : List Char → List Char) (s : Bytes) : Bytes :=
  if n < s.charCount then ofChars (shown s.chars) else s

variable {most : Int} {n : Nat} {cs : List Char} {shown : List Char → List Char}

/-! ### What is shown -/

theorem length_front (hn : 0 < n) (hlong : n < cs.length) : (front n cs).length = n := by
  rw [front, List.length_append, List.length_take, List.length_singleton]
  omega

/-- **The end of a text is the mirror image of the front of its mirror image.** -/
theorem back_reverse (n : Nat) (cs : List Char) : back n cs.reverse = (front n cs).reverse := by
  rw [back, front, List.rtake_eq_reverse_take_reverse, List.reverse_reverse, List.reverse_append,
    List.reverse_singleton, List.singleton_append]

theorem length_back (hn : 0 < n) (hlong : n < cs.length) : (back n cs).length = n := by
  rw [← List.reverse_reverse cs, back_reverse, List.length_reverse]
  exact length_front hn (by rwa [List.length_reverse])

/-! ### Cutting -/

theorem truncate_eq_shortenTo (hmost : 1 ≤ most) (s : Bytes) :
    truncate most s = shortenTo most.toNat (front most.toNat) s := if_neg (by omega)

theorem truncateLeft_eq_shortenTo (hmost : 1 ≤ most) (s : Bytes) :
    truncateLeft most s = shortenTo most.toNat (back most.toNat) s := if_neg (by omega)

theorem chars_shortenTo (n : Nat) (shown : List Char → List Char) (s : Bytes) :
    (shortenTo n shown s).chars = if n < s.charCount then shown s.chars else s.chars := by
  rw [shortenTo, apply_ite chars, chars_ofChars]

theorem charCount_shortenTo (hshown : ∀ cs, n < cs.length → (shown cs).length = n) (s : Bytes) :
    (shortenTo n shown s).charCount = min n s.charCount := by
  rw [charCount, chars_shortenTo]
  split_ifs with hlong
  · rw [hshown s.chars hlong]
    omega
  · rw [← charCount]
    omega

/-- **A text that was cut is not cut again.** -/
theorem shortenTo_shortenTo (hshown : ∀ cs, n < cs.length → (shown cs).length = n) (s : Bytes) :
    shortenTo n shown (shortenTo n shown s) = shortenTo n shown s := by
  have hcount := charCount_shortenTo hshown s
  exact if_neg (by omega)

/-- Cutting the mirror images of texts shows the mirror images of what is shown of the texts. -/
theorem chars_shortenTo_reverse {mirrored : List Char → List Char}
    (hmirrored : ∀ cs, mirrored cs.reverse = (shown cs).reverse) {s s' : Bytes}
    (hs : s'.chars = s.chars.reverse) :
    (shortenTo n mirrored s').chars = (shortenTo n shown s).chars.reverse := by
  have hcount : s'.charCount = s.charCount := by rw [charCount, hs, List.length_reverse, charCount]
  rw [chars_shortenTo, chars_shortenTo, hcount, hs, hmirrored, apply_ite List.reverse]

/-- A text within a number of characters that stands for another one: the other one itself if this is
within the number too, and what is shown of it otherwise. -/
structure StandsFor (most : Int) (shown : List Char) (s t : Bytes) : Prop where
  within : (t.charCount : Int) ≤ most
  same : (s.charCount : Int) ≤ most → t = s
  cut : most < s.charCount →
    (t.charCount : Int) = most ∧ t.chars = shown ∧ t = ofChars shown ∧ t.isUtf8 = true

theorem standsFor_shortenTo (hmost : 1 ≤ most)
    (hshown : ∀ cs, most.toNat < cs.length → (shown cs).length = most.toNat) (s : Bytes) :
    StandsFor most (shown s.chars) s (shortenTo most.toNat shown s) := by
  have hcount := charCount_shortenTo hshown s
  refine ⟨by omega, fun hshort => if_neg (by omega), fun hlong => ?_⟩
  have hcut : shortenTo most.toNat shown s = ofChars (shown s.chars) := if_pos (by omega)
  refine ⟨by omega, ?_, hcut, ?_⟩
  · rw [hcut, chars_ofChars]
  · rw [hcut, isUtf8_ofChars]

end Bytes

open Bytes in
/-- **A text that is cut keeps an end.**  Within any number of characters, a text that fits stays as it is,
and of one that does not fit the front is shown before an ellipsis, or the end behind one, with not a
character less than there is room for.  Cutting twice is cutting once, and cutting from one side is cutting
the mirror image from the other. -/
theorem shortened_texts_keep_an_end {most : Int} (hmost : 1 ≤ most) (s : Bytes) :
    StandsFor most (s.chars.take (most.toNat - 1) ++ ['…']) s (truncate most s) ∧
      StandsFor most ('…' :: s.chars.rtake (most.toNat - 1)) s (truncateLeft most s) ∧
      truncate most (truncate most s) = truncate most s ∧
      truncateLeft most (truncateLeft most s) = truncateLeft most s ∧
      ∀ s' : Bytes, s'.chars = s.chars.reverse →
        (truncateLeft most s').chars = (truncate most s).chars.reverse := by
  have hpos : 0 < most.toNat := by omega
  have hfront : ∀ cs, most.toNat < cs.length → (front most.toNat cs).length = most.toNat :=
    fun _ => length_front hpos
  have hback : ∀ cs, most.toNat < cs.length → (back most.toNat cs).length = most.toNat :=
    fun _ => length_back hpos
  simp only [truncate_eq_shortenTo hmost, truncateLeft_eq_shortenTo hmost]
  exact ⟨standsFor_shortenTo hmost hfront s, standsFor_shortenTo hmost hback s,
    shortenTo_shortenTo hfront s, shortenTo_shortenTo hback s,
    fun s' hs => chars_shortenTo_reverse (back_reverse most.toNat) hs⟩

open Bytes in
/-- Three characters of a text of four, one of them a stray byte and one of two bytes. -/
theorem shortened_texts_keep_an_end_of_stray_bytes :
    let s : Bytes := [0x61, 0xFF, 0xC3, 0xBC, 0x62]
    1 ≤ (3 : Int) ∧ (3 : Int) < s.charCount ∧
      (truncate 3 s).chars = ['a', Char.ofNat 0xFFFD, '…'] ∧
      (truncateLeft 3 s).chars = ['…', 'ü', 'b'] ∧
      truncate 3 (truncate 3 s) = truncate 3 s ∧
      (truncateLeft 3 ("bü\uFFFDa" : Bytes)).chars = (truncate 3 s).chars.reverse := by
  intro s
  have hmost : 1 ≤ (3 : Int) := by decide
  have hlong : (3 : Int) < s.charCount := by decide
  obtain ⟨htruncate, hleft, htwice, -, hmirror⟩ := shortened_texts_keep_an_end hmost s
  exact ⟨hmost, hlong, (htruncate.cut hlong).2.1, (hleft.cut hlong).2.1, htwice,
    hmirror "bü\uFFFDa" (by decide)⟩

end PatchAudit
