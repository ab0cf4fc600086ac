import Mathlib.Data.List.Basic
import PatchAudit.Text.Utf8

/-!
# Characters and their spelling

Reading a text as characters undoes the spelling of characters (`chars_ofChars_append`), and the
pieces of a text spell it again (`flatMap_bytes_pieces`).  So a well-formed text is the spelling of
its characters, and every other one becomes so when its stray bytes are replaced (`scrub_scrub`).
-/

namespace PatchAudit

namespace Bytes

theorem toNat_ofNat {n : Nat} (h : n.isValidChar) : (Char.ofNat n).toNat = n := by
  unfold Char.ofNat
  rw [dif_pos h]
  rfl

theorem toNat_byte {n : Nat} (h : n < 256) : (UInt8.ofNat n).toNat = n := by
  rw [UInt8.toNat_ofNat']
  omega

theorem isTail_iff {b : UInt8} : isTail b = true ↔ 0x80 ≤ b.toNat ∧ b.toNat < 0xC0 := by
  simp [isTail, UInt8.le_iff_toNat_le, UInt8.lt_iff_toNat_lt]

theorem isTail_ofNat (n : Nat) : isTail (UInt8.ofNat (n % 64 + 128)) = true := by
  rw [isTail_iff, toNat_byte (by omega)]
  omega

/-- The value of tail bytes is a character. -/
theorem scalar?_eq_some {least high : Nat} {tails : Bytes} {c : Char} :
    scalar? least high tails = some c ↔
      tails.all isTail = true ∧
        tails.foldl (fun acc t => acc * 64 + (t.toNat - 0x80)) high = c.toNat ∧ least ≤ c.toNat := by
  unfold scalar?
  simp only [Option.ite_none_right_eq_some, Option.some.injEq]
  constructor
  · rintro ⟨⟨htails, hleast, hvalid⟩, rfl⟩
    rw [toNat_ofNat hvalid]
    exact ⟨htails, rfl, hleast⟩
  · rintro ⟨htails, hvalue, hleast⟩
    rw [hvalue]
    exact ⟨⟨htails, hleast, c.valid⟩, Char.ofNat_toNat c⟩

/-! ### From characters to bytes and back -/

/-- **The spelling of a character is read as this character**, whatever follows it. -/
theorem front?_utf8EncodeChar (c : Char) (r : Bytes) :
    ∃ b tails, String.utf8EncodeChar c = b :: tails ∧
      front? b (tails ++ r) = some (c, tails.length) := by
  have hvalid : c.toNat.isValidChar := c.valid
  have hval : c.val.toNat = c.toNat := rfl
  unfold String.utf8EncodeChar
  simp only [hval]
  split_ifs with h1 h2 h3
  · refine ⟨_, _, rfl, ?_⟩
    have hb := toNat_byte (n := c.toNat) (by omega)
    simp [front?, UInt8.lt_iff_toNat_lt, hb, show c.toNat < 128 by omega]
  · refine ⟨_, _, rfl, ?_⟩
    have hb := toNat_byte (n := c.toNat / 64 % 32 + 192) (by omega)
    have hx := toNat_byte (n := c.toNat % 64 + 128) (by omega)
    have hscalar : scalar? 0x80 (c.toNat / 64 % 32) [UInt8.ofNat (c.toNat % 64 + 128)] = some c := by
      rw [scalar?_eq_some]
      refine ⟨by simp only [List.all_cons, List.all_nil, isTail_ofNat, Bool.and_self], ?_, by omega⟩
      simp only [List.foldl_cons, List.foldl_nil, hx]
      omega
    simp only [front?, UInt8.lt_iff_toNat_lt, hb, UInt8.reduceToNat, List.cons_append,
      List.nil_append, Nat.add_sub_cancel, hscalar]
    rw [if_neg (by omega), if_neg (by omega), if_pos (by omega)]
    rfl
  · refine ⟨_, _, rfl, ?_⟩
    have hb := toNat_byte (n := c.toNat / 4096 % 16 + 224) (by omega)
    have hx := toNat_byte (n := c.toNat / 64 % 64 + 128) (by omega)
    have hy := toNat_byte (n := c.toNat % 64 + 128) (by omega)
    have hscalar : scalar? 0x800 (c.toNat / 4096 % 16)
        [UInt8.ofNat (c.toNat / 64 % 64 + 128), UInt8.ofNat (c.toNat % 64 + 128)] = some c := by
      rw [scalar?_eq_some]
      refine ⟨by simp only [List.all_cons, List.all_nil, isTail_ofNat, Bool.and_self], ?_, by omega⟩
      simp only [List.foldl_cons, List.foldl_nil, hx, hy]
      omega
    simp only [front?, UInt8.lt_iff_toNat_lt, hb, UInt8.reduceToNat, List.cons_append,
      List.nil_append, Nat.add_sub_cancel, hscalar]
    rw [if_neg (by omega), if_neg (by omega), if_neg (by omega), if_pos (by omega)]
    rfl
  · refine ⟨_, _, rfl, ?_⟩
    have hb := toNat_byte (n := c.toNat / 262144 % 8 + 240) (by omega)
    have hx := toNat_byte (n := c.toNat / 4096 % 64 + 128) (by omega)
    have hy := toNat_byte (n := c.toNat / 64 % 64 + 128) (by omega)
    have hz := toNat_byte (n := c.toNat % 64 + 128) (by omega)
    have hscalar : scalar? 0x10000 (c.toNat / 262144 % 8)
        [UInt8.ofNat (c.toNat / 4096 % 64 + 128), UInt8.ofNat (c.toNat / 64 % 64 + 128),
          UInt8.ofNat (c.toNat % 64 + 128)] = some c := by
      rw [scalar?_eq_some]
      refine ⟨by simp only [List.all_cons, List.all_nil, isTail_ofNat, Bool.and_self], ?_, by omega⟩
      simp only [List.foldl_cons, List.foldl_nil, hx, hy, hz]
      omega
    simp only [front?, UInt8.lt_iff_toNat_lt, hb, UInt8.reduceToNat, List.cons_append,
      List.nil_append, Nat.add_sub_cancel, hscalar]
    rw [if_neg (by omega), if_neg (by omega), if_neg (by omega), if_neg (by omega),
      if_pos (by omega)]
    rfl

theorem piecesFrom_append (s r : Bytes) : piecesFrom s.length (s ++ r) = pieces r := by
  induction s with
  | nil => rfl
  | cons b s ih => exact ih

theorem pieces_utf8EncodeChar_append (c : Char) (r : Bytes) :
    pieces (String.utf8EncodeChar c ++ r) = .char c :: pieces r := by
  obtain ⟨b, tails, hspell, hfront⟩ := front?_utf8EncodeChar c r
  rw [hspell, List.cons_append, pieces, piecesFrom, hfront]
  exact congrArg (Piece.char c :: ·) (piecesFrom_append tails r)

theorem ofChars_cons (c : Char) (cs : List Char) :
    ofChars (c :: cs) = String.utf8EncodeChar c ++ ofChars cs := rfl

theorem ofChars_append (cs ds : List Char) : ofChars (cs ++ ds) = ofChars cs ++ ofChars ds :=
  List.flatMap_append

theorem pieces_ofChars_append (cs : List Char) (r : Bytes) :
    pieces (ofChars cs ++ r) = cs.map .char ++ pieces r := by
  induction cs with
  | nil => rfl
  | cons c cs ih =>
    rw [ofChars_cons, List.append_assoc, pieces_utf8EncodeChar_append, ih, List.map_cons,
      List.cons_append]

theorem pieces_ofChars (cs : List Char) : pieces (ofChars cs) = cs.map Piece.char := by
  have happend := pieces_ofChars_append cs []
  rw [List.append_nil] at happend
  exact happend.trans (List.append_nil _)

/-- What is spelled is well-formed. -/
theorem isUtf8_ofChars (cs : List Char) : isUtf8 (ofChars cs) = true := by
  simp [isUtf8, pieces_ofChars]

/-- **Reading undoes spelling.** -/
theorem chars_ofChars_append (cs : List Char) (r : Bytes) :
    chars (ofChars cs ++ r) = cs ++ chars r := by
  rw [chars, pieces_ofChars_append, List.map_append, List.map_map, chars]
  exact congrArg (· ++ _) (List.map_id cs)

theorem chars_ofChars (cs : List Char) : chars (ofChars cs) = cs := by
  have h := chars_ofChars_append cs []
  rw [List.append_nil] at h
  rw [h]
  exact List.append_nil cs

theorem chars_scrub (s : Bytes) : chars (scrub s) = chars s := chars_ofChars _

theorem scrub_scrub (s : Bytes) : scrub (scrub s) = scrub s := congrArg ofChars (chars_scrub s)

theorem scrub_ofChars (cs : List Char) : scrub (ofChars cs) = ofChars cs :=
  congrArg ofChars (chars_ofChars cs)

theorem scrub_ofString (s : String) : scrub (ofString s) = ofString s := scrub_ofChars s.toList

/-! ### From bytes to characters and back -/

theorem bounds_of_scalar? {least high : Nat} {tails : Bytes} {c : Char}
    (h : scalar? least high tails = some c) :
    (∀ t ∈ tails, 0x80 ≤ t.toNat ∧ t.toNat < 0xC0) ∧
      tails.foldl (fun acc t => acc * 64 + (t.toNat - 0x80)) high = c.val.toNat ∧
      least ≤ c.val.toNat := by
  obtain ⟨htails, hvalue, hleast⟩ := scalar?_eq_some.mp h
  exact ⟨fun t ht => isTail_iff.mp (List.all_eq_true.mp htails t ht), hvalue, hleast⟩

theorem eq_byte {b : UInt8} {n : Nat} (h : b.toNat = n) : UInt8.ofNat n = b := by
  rw [← h, UInt8.ofNat_toNat]

/-- A character at the front of a text is spelled by the bytes that it takes. -/
theorem utf8EncodeChar_of_front? {b : UInt8} {r : Bytes} {c : Char} {n : Nat}
    (h : front? b r = some (c, n)) : String.utf8EncodeChar c = b :: r.take n := by
  unfold front? at h
  simp only [UInt8.lt_iff_toNat_lt, UInt8.reduceToNat] at h
  split_ifs at h with h1 h2 h3 h4 h5
  · simp only [Option.some.injEq, Prod.mk.injEq] at h
    obtain ⟨rfl, rfl⟩ := h
    have hval : (Char.ofNat b.toNat).val.toNat = b.toNat := toNat_ofNat (Or.inl (by omega))
    unfold String.utf8EncodeChar
    simp only [hval]
    rw [if_pos (by omega), eq_byte rfl]
    rfl
  · split at h
    · rename_i x r'
      obtain ⟨c', hscalar, heq⟩ := Option.map_eq_some_iff.mp h
      obtain ⟨rfl, rfl⟩ := Prod.mk.inj heq
      obtain ⟨htails, hvalue, hleast⟩ := bounds_of_scalar? hscalar
      have hx := htails x (by simp)
      simp only [List.foldl_cons, List.foldl_nil] at hvalue
      unfold String.utf8EncodeChar
      simp only
      rw [if_neg (by omega), if_pos (by omega), eq_byte (b := b) (by omega),
        eq_byte (b := x) (by omega)]
      rfl
    · cases h
  · split at h
    · rename_i x y r'
      obtain ⟨c', hscalar, heq⟩ := Option.map_eq_some_iff.mp h
      obtain ⟨rfl, rfl⟩ := Prod.mk.inj heq
      obtain ⟨htails, hvalue, hleast⟩ := bounds_of_scalar? hscalar
      have hx := htails x (by simp)
      have hy := htails y (by simp)
      simp only [List.foldl_cons, List.foldl_nil] at hvalue
      unfold String.utf8EncodeChar
      simp only
      rw [if_neg (by omega), if_neg (by omega), if_pos (by omega), eq_byte (b := b) (by omega),
        eq_byte (b := x) (by omega), eq_byte (b := y) (by omega)]
      rfl
    · cases h
  · split at h
    · rename_i x y z r'
      obtain ⟨c', hscalar, heq⟩ := Option.map_eq_some_iff.mp h
      obtain ⟨rfl, rfl⟩ := Prod.mk.inj heq
      obtain ⟨htails, hvalue, hleast⟩ := bounds_of_scalar? hscalar
      have hx := htails x (by simp)
      have hy := htails y (by simp)
      have hz := htails z (by simp)
      have hvalid : c'.val.toNat.isValidChar := c'.valid
      simp only [List.foldl_cons, List.foldl_nil] at hvalue
      unfold String.utf8EncodeChar
      simp only
      rw [if_neg (by omega), if_neg (by omega), if_neg (by omega), eq_byte (b := b) (by omega),
        eq_byte (b := x) (by omega), eq_byte (b := y) (by omega), eq_byte (b := z) (by omega)]
      rfl
    · cases h

theorem flatMap_bytes_piecesFrom (n : Nat) (s : Bytes) :
    (piecesFrom n s).flatMap Piece.bytes = s.drop n := by
  induction s generalizing n with
  | nil => simp [piecesFrom]
  | cons b s ih =>
    cases n with
    | succ n => exact ih n
    | zero =>
      rw [piecesFrom, List.drop_zero]
      cases hfront : front? b s with
      | none =>
        have hrest := ih 0
        simp only [List.flatMap_cons, Piece.bytes, hrest, List.drop_zero, List.singleton_append]
      | some found =>
        obtain ⟨c, k⟩ := found
        simp only [List.flatMap_cons, Piece.bytes, ih, utf8EncodeChar_of_front? hfront,
          List.cons_append, List.take_append_drop]

/-- The pieces of a text spell it again. -/
theorem flatMap_bytes_pieces (s : Bytes) : (pieces s).flatMap Piece.bytes = s :=
  flatMap_bytes_piecesFrom 0 s

/-- **A well-formed text is the spelling of its characters.** -/
theorem scrub_of_isUtf8 {s : Bytes} (h : isUtf8 s = true) : scrub s = s := by
  conv_rhs => rw [← flatMap_bytes_pieces s]
  rw [scrub, ofChars, chars, List.flatMap_map]
  refine congrArg List.flatten (List.map_congr_left fun p hp => ?_)
  have hchar := List.all_eq_true.mp h p hp
  cases p with
  | char c => rfl
  | stray b => cases hchar

theorem scrub_ne_nil {s : Bytes} (h : s ≠ []) : scrub s ≠ [] := by
  intro hnil
  have hchars : chars s = [] := by
    rw [← chars_scrub, hnil]
    rfl
  have hpieces : pieces s = [] := List.map_eq_nil_iff.mp hchars
  exact h (by rw [← flatMap_bytes_pieces s, hpieces]; rfl)

/-- Replacing stray bytes brings in no byte but those of U+FFFD. -/
theorem mem_of_mem_scrub {s : Bytes} {b : UInt8} (h : b ∈ scrub s)
    (hb : b ∉ String.utf8EncodeChar (Char.ofNat 0xFFFD)) : b ∈ s := by
  rw [scrub, ofChars, chars, List.flatMap_map, List.mem_flatMap] at h
  obtain ⟨p, hp, hmem⟩ := h
  rw [← flatMap_bytes_pieces s, List.mem_flatMap]
  cases p with
  | char c => exact ⟨_, hp, hmem⟩
  | stray x => exact absurd hmem hb

/-! ### Texts put together -/

theorem scalar?_of_not_tail {least high : Nat} {tails : Bytes} {b : UInt8} (hb : b.toNat < 0x80)
    (h : b ∈ tails) : scalar? least high tails = none := by
  cases hscalar : scalar? least high tails with
  | none => rfl
  | some c =>
    have htail := (bounds_of_scalar? hscalar).1 b h
    omega

/-- Whether a character begins a text does not depend on a byte of ASCII after the text. -/
theorem front?_append_ascii {b : UInt8} (hb : b.toNat < 0x80) (first : UInt8) (s r : Bytes) :
    front? first (s ++ b :: r) = front? first s := by
  unfold front?
  split_ifs
  · rfl
  · rfl
  · cases s with
    | nil => simp [scalar?_of_not_tail hb]
    | cons x s => rfl
  · rcases s with _ | ⟨x, _ | ⟨y, s⟩⟩
    · cases r with
      | nil => rfl
      | cons y r => simp [scalar?_of_not_tail hb]
    · simp [scalar?_of_not_tail hb]
    · rfl
  · rcases s with _ | ⟨x, _ | ⟨y, _ | ⟨z, s⟩⟩⟩
    · rcases r with _ | ⟨y, _ | ⟨z, r⟩⟩
      · rfl
      · rfl
      · simp [scalar?_of_not_tail hb]
    · cases r with
      | nil => rfl
      | cons z r => simp [scalar?_of_not_tail hb]
    · simp [scalar?_of_not_tail hb]
    · rfl
  · rfl

theorem le_length_of_front? {b : UInt8} {r : Bytes} {c : Char} {n : Nat}
    (h : front? b r = some (c, n)) : n ≤ r.length := by
  unfold front? at h
  split_ifs at h
  · cases h
    exact Nat.zero_le _
  · cases r with
    | nil => cases h
    | cons x r =>
      obtain ⟨c', -, heq⟩ := Option.map_eq_some_iff.mp h
      cases heq
      simp
  · rcases r with _ | ⟨x, _ | ⟨y, r⟩⟩
    · cases h
    · cases h
    · obtain ⟨c', -, heq⟩ := Option.map_eq_some_iff.mp h
      cases heq
      simp
  · rcases r with _ | ⟨x, _ | ⟨y, _ | ⟨z, r⟩⟩⟩
    · cases h
    · cases h
    · cases h
    · obtain ⟨c', -, heq⟩ := Option.map_eq_some_iff.mp h
      cases heq
      simp

theorem piecesFrom_append_ascii {b : UInt8} (hb : b.toNat < 0x80) (s r : Bytes) {n : Nat}
    (hn : n ≤ s.length) : piecesFrom n (s ++ b :: r) = piecesFrom n s ++ pieces (b :: r) := by
  induction s generalizing n with
  | nil =>
    obtain rfl : n = 0 := by simpa using hn
    rfl
  | cons first s ih =>
    cases n with
    | succ n => exact ih (by simpa using hn)
    | zero =>
      rw [List.cons_append, piecesFrom, piecesFrom, front?_append_ascii hb]
      cases hfront : front? first s with
      | none => simp [ih]
      | some found =>
        obtain ⟨c, k⟩ := found
        simp [ih (le_length_of_front? hfront)]

/-- A byte of ASCII is never a part of the character before it. -/
theorem chars_append_ascii {b : UInt8} (hb : b.toNat < 0x80) (s r : Bytes) :
    chars (s ++ b :: r) = chars s ++ chars (b :: r) := by
  rw [chars, pieces, piecesFrom_append_ascii hb s r (Nat.zero_le _), List.map_append]
  rfl

theorem pieces_cons_ascii {b : UInt8} (hb : b.toNat < 0x80) (r : Bytes) :
    pieces (b :: r) = .char (Char.ofNat b.toNat) :: pieces r := by
  have hfront : front? b r = some (Char.ofNat b.toNat, 0) := by
    unfold front?
    exact if_pos hb
  rw [pieces, piecesFrom, hfront]
  rfl

/-- A text with a byte of ASCII in it is well-formed just when both sides of the byte are. -/
theorem isUtf8_append_ascii {b : UInt8} (hb : b.toNat < 0x80) (s r : Bytes) :
    isUtf8 (s ++ b :: r) = (isUtf8 s && isUtf8 r) := by
  rw [isUtf8, pieces, piecesFrom_append_ascii hb s r (Nat.zero_le _), pieces_cons_ascii hb,
    List.all_append, List.all_cons]
  rfl

theorem isUtf8_cons_ascii {b : UInt8} (hb : b.toNat < 0x80) (r : Bytes) :
    isUtf8 (b :: r) = isUtf8 r :=
  isUtf8_append_ascii hb [] r

end Bytes

end PatchAudit
