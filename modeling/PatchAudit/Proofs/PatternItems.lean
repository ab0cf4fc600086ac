import PatchAudit.Proofs.Characters
import PatchAudit.Proofs.PlainFolder

/-!
# The items of a pattern

A pattern is cut at its stars before its segments are read item by item, and both steps have to agree
on where a bracket is closed.  A row of items is a text in which no cut is made and which is read by
itself, whatever follows it (`Row`).  If the first segment of a pattern can be read, what stands in
front of its first free star is such a row (`FirstBody.front`), so patterns that can be read can be put
one below the other (`opens_below`).
-/

namespace PatchAudit

namespace Bytes

variable {b : UInt8} {r : Bytes} {c : Char} {n : Nat}

/-- A character is read from its own bytes, whatever follows them. -/
theorem front?_take (h : front? b r = some (c, n)) (q : Bytes) :
    front? b (r.take n ++ q) = some (c, n) := by
  obtain ⟨first, tails, hspell, hfront⟩ := front?_utf8EncodeChar c q
  rw [utf8EncodeChar_of_front? h] at hspell
  obtain ⟨rfl, rfl⟩ := List.cons.inj hspell
  rw [hfront, List.length_take, Nat.min_eq_left (le_length_of_front? h)]

/-- The bytes of a character after its first one are not in ASCII. -/
theorem tail_of_front? (h : front? b r = some (c, n)) : ∀ t ∈ r.take n, 0x80 ≤ t.toNat := by
  unfold front? at h
  split_ifs at h with h1 h2 h3 h4 h5
  · cases h
    simp
  all_goals
    split at h
    · obtain ⟨c', hscalar, heq⟩ := Option.map_eq_some_iff.mp h
      obtain ⟨rfl, rfl⟩ := Prod.mk.inj heq
      exact fun t ht => ((bounds_of_scalar? hscalar).1 t (by simpa using ht)).1
    · cases h

end Bytes

namespace Pattern

/-! ### Inside of brackets -/

/-- A text that goes to the segment as a whole when it stands inside of brackets. -/
def PassesInside (t : Bytes) : Prop :=
  ∀ starred acc q, cutAtStars starred true acc (t ++ q) = cutAtStars starred true (t.reverse ++ acc) q

theorem passesInside_nil : PassesInside [] := fun _ _ _ => rfl

theorem PassesInside.append {t u : Bytes} (ht : PassesInside t) (hu : PassesInside u) :
    PassesInside (t ++ u) := by
  intro starred acc q
  rw [List.append_assoc, ht, hu, List.reverse_append, List.append_assoc]

theorem passesInside_byte {b : UInt8} (hescape : b ≠ 0x5C) (hclose : b ≠ 0x5D) : PassesInside [b] := by
  intro starred acc q
  rw [List.singleton_append, cutAtStars]
  · by_cases hopen : b = 0x5B <;> simp [hopen, hclose]
  · rintro c r rfl
    exact absurd rfl hescape

theorem passesInside_escape (c : UInt8) : PassesInside [0x5C, c] := fun _ _ _ => rfl

theorem passesInside_wide {t : Bytes} (h : ∀ b ∈ t, 0x80 ≤ b.toNat) : PassesInside t := by
  induction t with
  | nil => exact passesInside_nil
  | cons b t ih =>
    obtain ⟨hb, ht⟩ := List.forall_mem_cons.mp h
    have hbyte : PassesInside [b] := by
      refine passesInside_byte ?_ ?_ <;>
      · rintro rfl
        simp at hb
    exact hbyte.append (ih ht)

/-- The character of a set that begins with a byte, and what follows it. -/
def charThen (b : UInt8) (r : Bytes) : Except Fault (Char × Bytes) :=
  match Bytes.front? b r with
  | none => .error .malformed
  | some (c, n) => if (r.drop n).isEmpty then .error .malformed else .ok (c, r.drop n)

theorem setChar_escape (b : UInt8) (r : Bytes) : setChar (0x5C :: b :: r) = charThen b r := rfl

theorem setChar_cons {b : UInt8} (hdash : b ≠ 0x2D) (hclose : b ≠ 0x5D) (hescape : b ≠ 0x5C)
    (r : Bytes) : setChar (b :: r) = charThen b r := by
  rw [setChar]
  simp only [hdash, hclose, hescape, or_self, if_false]
  rfl

theorem charThen_ok {b : UInt8} {r rest : Bytes} {c : Char} (h : charThen b r = .ok (c, rest)) :
    ∃ t, r = t ++ rest ∧ rest ≠ [] ∧ PassesInside t ∧ ∀ q, q ≠ [] → charThen b (t ++ q) = .ok (c, q) := by
  unfold charThen at h
  cases hfront : Bytes.front? b r with
  | none =>
    rw [hfront] at h
    cases h
  | some found =>
    obtain ⟨x, n⟩ := found
    rw [hfront] at h
    simp only at h
    split_ifs at h with hmore
    obtain ⟨rfl, rfl⟩ := Prod.mk.inj (Except.ok.inj h)
    have hlength : (r.take n).length = n := by
      rw [List.length_take, Nat.min_eq_left (Bytes.le_length_of_front? hfront)]
    refine ⟨r.take n, (List.take_append_drop n r).symm, by simpa using hmore,
      passesInside_wide (Bytes.tail_of_front? hfront), fun q hq => ?_⟩
    have hdrop : (r.take n ++ q).drop n = q := List.drop_left' hlength
    rw [charThen, Bytes.front?_take hfront]
    simp only [hdrop]
    rw [if_neg (by simpa using hq)]

theorem setChar_ok {s rest : Bytes} {c : Char} (h : setChar s = .ok (c, rest)) :
    ∃ t, s = t ++ rest ∧ t ≠ [] ∧ rest ≠ [] ∧ PassesInside t ∧
      ∀ q, q ≠ [] → setChar (t ++ q) = .ok (c, q) := by
  cases s with
  | nil => cases h
  | cons b r =>
    by_cases hmark : b = 0x2D ∨ b = 0x5D
    · rw [setChar, if_pos hmark] at h
      cases h
    obtain ⟨hdash, hclose⟩ := not_or.mp hmark
    by_cases hescape : b = 0x5C
    · subst hescape
      cases r with
      | nil => cases h
      | cons x r =>
        obtain ⟨t, rfl, hrest, hpass, hread⟩ := charThen_ok (setChar_escape x r ▸ h)
        exact ⟨0x5C :: x :: t, rfl, by simp, hrest, (passesInside_escape x).append hpass, hread⟩
    · rw [setChar_cons hdash hclose hescape] at h
      obtain ⟨t, rfl, hrest, hpass, hread⟩ := charThen_ok h
      refine ⟨b :: t, rfl, by simp, hrest, (passesInside_byte hescape hclose).append hpass, ?_⟩
      intro q hq
      rw [List.cons_append, setChar_cons hdash hclose hescape, hread q hq]

/-- A range is read in the same way if what follows it begins with the same byte. -/
theorem setRange_ok {s rest : Bytes} {range : Char × Char} (h : setRange s = .ok (range, rest)) :
    ∃ t, s = t ++ rest ∧ t ≠ [] ∧ PassesInside t ∧
      ∀ q, q.head? = rest.head? → setRange (t ++ q) = .ok (range, q) := by
  obtain ⟨⟨lo, afterLow⟩, hlow, hmore⟩ := Diff.ok_of_bind h
  obtain ⟨t, rfl, htne, hne, hpass, hread⟩ := setChar_ok hlow
  cases afterLow with
  | nil => exact absurd rfl hne
  | cons b r =>
    by_cases hdash : b = 0x2D
    · subst hdash
      obtain ⟨⟨hi, afterHigh⟩, hhigh, hdone⟩ := Diff.ok_of_bind hmore
      obtain ⟨rfl, rfl⟩ := Prod.mk.inj (Except.ok.inj hdone)
      obtain ⟨u, rfl, -, hrest, hpassHigh, hreadHigh⟩ := setChar_ok hhigh
      have hdashes : PassesInside [0x2D] := passesInside_byte (by decide) (by decide)
      refine ⟨t ++ 0x2D :: u, by simp, by simp, hpass.append (hdashes.append hpassHigh), ?_⟩
      intro q hq
      have hqne : q ≠ [] := by
        rintro rfl
        exact hrest (List.head?_eq_none_iff.mp hq.symm)
      rw [List.append_assoc, List.cons_append, setRange, hread _ (by simp)]
      simp only [bind, Except.bind, hreadHigh q hqne]
      rfl
    · have hlone : ∀ x r', x ≠ 0x2D → setChar (t ++ x :: r') = .ok (lo, x :: r') →
          setRange (t ++ x :: r') = .ok ((lo, lo), x :: r') := by
        intro x r' hx hchar
        rw [setRange, hchar]
        simp only [bind, Except.bind]
        split
        · rename_i heq
          exact absurd (List.cons.inj heq).1 hx
        · rfl
      have hthis := hlone b r hdash (hread _ (by simp))
      rw [h] at hthis
      obtain ⟨rfl, rfl⟩ := Prod.mk.inj (Except.ok.inj hthis)
      refine ⟨t, rfl, htne, hpass, fun q hq => ?_⟩
      obtain ⟨r', rfl⟩ : ∃ r', q = b :: r' := by
        cases q with
        | nil => cases hq
        | cons x r' => exact ⟨r', by rw [Option.some.inj hq]⟩
      exact hlone b r' hdash (hread _ (by simp))

theorem setRange_close (r : Bytes) : setRange (0x5D :: r) = .error .malformed := rfl

theorem moreRanges_close (fuel : Nat) (r : Bytes) : moreRanges fuel (0x5D :: r) = .ok ([], r) := by
  cases fuel <;> rfl

theorem moreRanges_step {fuel : Nat} {s rest after : Bytes} {range : Char × Char}
    {ranges : List (Char × Char)} (hrange : setRange s = .ok (range, rest))
    (hmore : moreRanges fuel rest = .ok (ranges, after)) :
    moreRanges (fuel + 1) s = .ok (range :: ranges, after) := by
  rw [moreRanges]
  · rw [hrange]
    simp only [bind, Except.bind, hmore]
    rfl
  · rintro r rfl
    rw [setRange_close] at hrange
    cases hrange

/-- The first byte of a text that goes on after its front. -/
theorem head?_replaced {t u r q : Bytes} {b : UInt8} (h : t = u ++ b :: r) :
    (u ++ b :: q).head? = t.head? := by
  subst h
  cases u <;> rfl

theorem moreRanges_ok {fuel : Nat} {s rest : Bytes} {ranges : List (Char × Char)}
    (h : moreRanges fuel s = .ok (ranges, rest)) :
    ∃ u, s = u ++ 0x5D :: rest ∧ PassesInside u ∧
      ∀ q n, u.length ≤ n → moreRanges n (u ++ 0x5D :: q) = .ok (ranges, q) := by
  fun_induction moreRanges fuel s generalizing ranges with
  | case1 =>
    obtain ⟨rfl, rfl⟩ := Prod.mk.inj (Except.ok.inj h)
    exact ⟨[], rfl, passesInside_nil, fun q n _ => moreRanges_close n q⟩
  | case2 => cases h
  | case3 fuel s hclose ih =>
    obtain ⟨⟨range, after⟩, hrange, hmore⟩ := Diff.ok_of_bind h
    obtain ⟨⟨others, last⟩, hothers, hdone⟩ := Diff.ok_of_bind hmore
    obtain ⟨rfl, rfl⟩ := Prod.mk.inj (Except.ok.inj hdone)
    obtain ⟨t, rfl, htne, hpass, hread⟩ := setRange_ok hrange
    obtain ⟨u, hsplit, hpassMore, hreadMore⟩ := ih _ hothers
    refine ⟨t ++ u, by rw [hsplit, List.append_assoc], hpass.append hpassMore, ?_⟩
    intro q n hn
    have htpos : 0 < t.length := List.length_pos_iff.mpr htne
    rw [List.length_append] at hn
    obtain ⟨n, rfl⟩ : ∃ m, n = m + 1 := ⟨n - 1, by omega⟩
    rw [List.append_assoc]
    exact moreRanges_step (hread _ (head?_replaced hsplit)) (hreadMore q n (by omega))

/-- A set after the mark that may negate it. -/
def setRanges (negated : Bool) (s : Bytes) : Except Fault (Item × Bytes) := do
  let (range, rest) ← setRange s
  let (ranges, rest) ← moreRanges s.length rest
  return (.oneOf negated (range :: ranges), rest)

theorem setItem_negated (r : Bytes) : setItem (0x5E :: r) = setRanges true r := rfl

theorem setItem_plain {s : Bytes} (h : s.head? ≠ some 0x5E) : setItem s = setRanges false s := by
  rw [setItem]
  · rfl
  · rintro r rfl
    exact h rfl

theorem setRanges_ok {negated : Bool} {s rest : Bytes} {item : Item}
    (h : setRanges negated s = .ok (item, rest)) :
    ∃ u, s = u ++ 0x5D :: rest ∧ PassesInside u ∧
      ∀ q, setRanges negated (u ++ 0x5D :: q) = .ok (item, q) := by
  obtain ⟨⟨range, after⟩, hrange, hmore⟩ := Diff.ok_of_bind h
  obtain ⟨⟨others, last⟩, hothers, hdone⟩ := Diff.ok_of_bind hmore
  obtain ⟨rfl, rfl⟩ := Prod.mk.inj (Except.ok.inj hdone)
  obtain ⟨t, rfl, -, hpass, hread⟩ := setRange_ok hrange
  obtain ⟨u, hsplit, hpassMore, hreadMore⟩ := moreRanges_ok hothers
  refine ⟨t ++ u, by rw [hsplit, List.append_assoc], hpass.append hpassMore, fun q => ?_⟩
  rw [List.append_assoc, setRanges, hread _ (head?_replaced hsplit)]
  simp only [bind, Except.bind]
  rw [hreadMore q _ (by simp only [List.length_append]; omega)]
  rfl

/-- **A set ends at the first bracket that closes it**, whatever stands behind. -/
theorem setItem_ok {s rest : Bytes} {item : Item} (h : setItem s = .ok (item, rest)) :
    ∃ u, s = u ++ 0x5D :: rest ∧ PassesInside u ∧ ∀ q, setItem (u ++ 0x5D :: q) = .ok (item, q) := by
  by_cases hnegated : s.head? = some 0x5E
  · obtain ⟨r, rfl⟩ : ∃ r, s = 0x5E :: r := List.head?_eq_some_iff.mp hnegated
    obtain ⟨u, rfl, hpass, hread⟩ := setRanges_ok (setItem_negated r ▸ h)
    have hmark : PassesInside [0x5E] := passesInside_byte (by decide) (by decide)
    exact ⟨0x5E :: u, rfl, hmark.append hpass, hread⟩
  · rw [setItem_plain hnegated] at h
    obtain ⟨u, hsplit, hpass, hread⟩ := setRanges_ok h
    refine ⟨u, hsplit, hpass, fun q => ?_⟩
    rw [setItem_plain (by rwa [head?_replaced hsplit]), hread]

/-! ### Reading item by item -/

theorem readItems_set (fuel : Nat) (r : Bytes) : readItems (fuel + 1) (0x5B :: r) = (do
    let (item, rest) ← setItem r
    return item :: (← readItems fuel rest)) := by
  cases r <;> rfl

theorem readItems_any (fuel : Nat) (r : Bytes) :
    readItems (fuel + 1) (0x3F :: r) = (readItems fuel r).map (Item.any :: ·) := by
  cases r <;> rfl

theorem readItems_escape (fuel : Nat) (c : UInt8) (r : Bytes) :
    readItems (fuel + 1) (0x5C :: c :: r) = (readItems fuel r).map (Item.byte c :: ·) := rfl

/-- As much fuel as there are bytes is enough. -/
theorem readItems_eq {fuel : Nat} {s : Bytes} (h : s.length ≤ fuel) : readItems fuel s = items s := by
  induction hn : s.length using Nat.strong_induction_on generalizing s fuel with
  | _ n ih =>
    cases s with
    | nil => cases fuel <;> rfl
    | cons b r =>
      obtain ⟨fuel, rfl⟩ : ∃ k, fuel = k + 1 := ⟨fuel - 1, by simp at h; omega⟩
      -- what is left of the text is shorter, so both sides read it alike
      have hrest : ∀ t : Bytes, t.length ≤ r.length → readItems fuel t = readItems r.length t := by
        intro t ht
        rw [List.length_cons] at h hn
        rw [ih t.length (by omega) (by omega) rfl, ih t.length (by omega) ht rfl]
      rw [items, List.length_cons]
      by_cases hopen : b = 0x5B
      · subst hopen
        rw [readItems_set, readItems_set]
        cases hset : setItem r with
        | error => rfl
        | ok found =>
          obtain ⟨item, rest⟩ := found
          obtain ⟨u, rfl, -⟩ := setItem_ok hset
          simp only [bind, Except.bind]
          rw [hrest rest (by simp; omega)]
      by_cases hany : b = 0x3F
      · subst hany
        rw [readItems_any, readItems_any, hrest r (Nat.le_refl _)]
      by_cases hescape : b = 0x5C
      · subst hescape
        cases r with
        | nil => rfl
        | cons c r => rw [readItems_escape, readItems_escape, hrest r (by simp)]
      · rw [readItems_plain hopen hany hescape, readItems_plain hopen hany hescape,
          hrest r (Nat.le_refl _)]

theorem items_set {r rest : Bytes} {item : Item} (h : setItem r = .ok (item, rest)) :
    items (0x5B :: r) = (items rest).map (item :: ·) := by
  obtain ⟨u, rfl, -⟩ := setItem_ok h
  rw [items, List.length_cons, readItems_set, h]
  simp only [bind, Except.bind]
  rw [readItems_eq (by simp; omega)]
  rfl

theorem items_any (r : Bytes) : items (0x3F :: r) = (items r).map (Item.any :: ·) :=
  readItems_any r.length r

theorem items_escape (c : UInt8) (r : Bytes) :
    items (0x5C :: c :: r) = (items r).map (Item.byte c :: ·) := by
  rw [items, List.length_cons, readItems_escape, readItems_eq (by simp)]

theorem items_byte {b : UInt8} (hopen : b ≠ 0x5B) (hany : b ≠ 0x3F) (hescape : b ≠ 0x5C) (r : Bytes) :
    items (b :: r) = (items r).map (Item.byte b :: ·) := by
  rw [items, List.length_cons, readItems_plain hopen hany hescape, items]

/-! ### Rows of items -/

/-- A row of items: no cut is made in it, and it is read by itself, whatever follows. -/
structure Row (x : Bytes) : Prop where
  cut : ∀ starred acc q,
    cutAtStars starred false acc (x ++ q) = cutAtStars starred false (x.reverse ++ acc) q
  read : ∃ is, ∀ q, items (x ++ q) = (items q).map (is ++ ·)

theorem row_nil : Row [] where
  cut _ _ _ := rfl
  read := ⟨[], fun q => by cases h : items q <;> simp [h, Except.map]⟩

theorem Row.append {x y : Bytes} (hx : Row x) (hy : Row y) : Row (x ++ y) where
  cut starred acc q := by
    rw [List.append_assoc, hx.cut, hy.cut, List.reverse_append, List.append_assoc]
  read := by
    obtain ⟨is, his⟩ := hx.read
    obtain ⟨js, hjs⟩ := hy.read
    refine ⟨is ++ js, fun q => ?_⟩
    rw [List.append_assoc, his, hjs]
    cases items q <;> simp [Except.map]

theorem row_set {r rest : Bytes} {item : Item} (h : setItem r = .ok (item, rest)) :
    ∃ u, r = u ++ 0x5D :: rest ∧ Row (0x5B :: (u ++ [0x5D])) := by
  obtain ⟨u, hsplit, hpass, hread⟩ := setItem_ok h
  refine ⟨u, hsplit, ⟨fun starred acc q => ?_, [item], fun q => ?_⟩⟩
  · have hopen : cutAtStars starred false acc (0x5B :: (u ++ 0x5D :: q)) =
        cutAtStars starred true (0x5B :: acc) (u ++ 0x5D :: q) := rfl
    have hclose : ∀ acc, cutAtStars starred true acc (0x5D :: q) =
        cutAtStars starred false (0x5D :: acc) q := fun _ => rfl
    simp only [List.cons_append, List.append_assoc, List.nil_append]
    rw [hopen, hpass, hclose]
    simp
  · simp only [List.cons_append, List.append_assoc, List.nil_append]
    rw [items_set (hread q)]

theorem row_escape (c : UInt8) : Row [0x5C, c] where
  cut _ _ _ := rfl
  read := ⟨[.byte c], items_escape c⟩

theorem row_any : Row [0x3F] where
  cut _ _ _ := rfl
  read := ⟨[.any], items_any⟩

theorem row_byte {b : UInt8} (hstar : b ≠ 0x2A) (hopen : b ≠ 0x5B) (hany : b ≠ 0x3F)
    (hescape : b ≠ 0x5C) : Row [b] where
  cut starred acc q := by
    rw [List.singleton_append, cutAtStars]
    · by_cases hclose : b = 0x5D <;> simp [hstar, hopen, hclose]
    · rintro c r rfl
      exact absurd rfl hescape
  read := ⟨[.byte b], items_byte hopen hany hescape⟩

/-! ### In front of the first free star -/

/-- What stands in front of the first free star of a pattern is a row of items. -/
def Front (p : Bytes) : Prop := ∃ x, Row x ∧ (p = x ∨ ∃ r, p = x ++ 0x2A :: r)

theorem front_nil : Front [] := ⟨[], row_nil, .inl rfl⟩

theorem front_star (r : Bytes) : Front (0x2A :: r) := ⟨[], row_nil, .inr ⟨r, rfl⟩⟩

theorem Row.front_append {x p : Bytes} (hx : Row x) (hp : Front p) : Front (x ++ p) := by
  obtain ⟨y, hy, hend | ⟨r, hstar⟩⟩ := hp
  · exact ⟨x ++ y, hx.append hy, .inl (by rw [hend])⟩
  · exact ⟨x ++ y, hx.append hy, .inr ⟨r, by rw [hstar, List.append_assoc]⟩⟩

theorem Front.below {p q : Bytes} (hp : Front p) (hq : Front q) : Front (p ++ Path.slash :: q) := by
  obtain ⟨x, hx, rfl | ⟨r, rfl⟩⟩ := hp
  · have hslash : Row [Path.slash] :=
      row_byte (by decide) (by decide) (by decide) (by decide)
    exact hx.front_append (hslash.front_append hq)
  · exact ⟨x, hx, .inr ⟨r ++ Path.slash :: q, by simp⟩⟩

/-- The first segment of a pattern takes up what is before it and then has this text. -/
def FirstBody (p body : Bytes) : Prop :=
  ∃ more, ∀ starred acc, acc.reverse ++ body ≠ [] →
    cutAtStars starred false acc p = ⟨starred, acc.reverse ++ body⟩ :: more

theorem exists_firstBody (p : Bytes) : ∃ body, FirstBody p body := hasFirst false p

theorem FirstBody.unique {p body body' : Bytes} (h : FirstBody p body) (h' : FirstBody p body') :
    body = body' := by
  obtain ⟨more, hmore⟩ := h
  obtain ⟨more', hmore'⟩ := h'
  have hboth := (hmore false [0] (by simp)).symm.trans (hmore' false [0] (by simp))
  simpa using congrArg Segment.body (List.cons.inj hboth).1

/-- A row in front of a pattern is the front of its first segment. -/
theorem Row.firstBody {x p body : Bytes} (hx : Row x) (h : FirstBody p body) :
    FirstBody (x ++ p) (x ++ body) := by
  obtain ⟨more, hmore⟩ := h
  refine ⟨more, fun starred acc hne => ?_⟩
  have hacc : (x.reverse ++ acc).reverse ++ body = acc.reverse ++ (x ++ body) := by simp
  rw [hx.cut, hmore starred _ (by rwa [hacc]), hacc]

/-- What a segment takes up stands in the pattern. -/
theorem body_isPrefix {starred inBracket : Bool} {acc p : Bytes} {seg : Segment} {more : List Segment}
    (hacc : acc ≠ []) (h : cutAtStars starred inBracket acc p = seg :: more) :
    seg.body <+: acc.reverse ++ p := by
  fun_induction cutAtStars starred inBracket acc p with
  | case1 starred inBracket acc hsome =>
    obtain ⟨rfl, -⟩ := List.cons.inj h
    simp
  | case2 => cases h
  | case3 starred inBracket acc c r ih => simpa using ih (by simp) h
  | case4 starred inBracket acc b r _ hstar hempty ih => exact absurd (List.isEmpty_iff.mp hempty) hacc
  | case5 starred inBracket acc b r _ hstar hempty ih =>
    obtain ⟨rfl, -⟩ := List.cons.inj h
    exact List.prefix_append _ _
  | case6 starred inBracket acc r _ hstar ih => simpa using ih (by simp) h
  | case7 starred inBracket acc r _ hstar hopen ih => simpa using ih (by simp) h
  | case8 starred inBracket acc b r _ hstar hopen hclose ih => simpa using ih (by simp) h

/-- The first segment of a pattern that begins with a bracket is the bracket and the front of what
follows it. -/
theorem firstBody_bracket (r : Bytes) :
    ∃ body after, r = body ++ after ∧ FirstBody (0x5B :: r) (0x5B :: body) := by
  obtain ⟨body, more, hfirst⟩ := hasFirst true r
  have hcut : FirstBody (0x5B :: r) (0x5B :: body) := by
    refine ⟨more, fun starred acc _ => ?_⟩
    have hopen : cutAtStars starred false acc (0x5B :: r) =
        cutAtStars starred true (0x5B :: acc) r := rfl
    rw [hopen, hfirst starred _ (by simp)]
    simp
  have hbegins := body_isPrefix (by simp) (hfirst false [0x5B] (by simp))
  obtain ⟨after, hafter⟩ := hbegins
  exact ⟨body, after, by simpa using hafter.symm, hcut⟩

theorem isOk_of_map {α β : Type} {f : α → β} {x : Except Fault α} (h : (x.map f).isOk = true) :
    x.isOk = true := by
  cases x with
  | error => cases h
  | ok => rfl

/-- **If the first segment of a pattern can be read, the pattern begins with a row of items** that
goes on to its first free star or its end. -/
theorem FirstBody.front {p body : Bytes} (h : FirstBody p body) (hread : (items body).isOk = true) :
    Front p := by
  induction hn : p.length using Nat.strong_induction_on generalizing p body with
  | _ n ih =>
    subst hn
    -- behind a row of items the rest of the pattern is shorter and its first segment can be read
    have hbehind : ∀ {x r : Bytes}, x ≠ [] → Row x → p = x ++ r → Front p := by
      rintro x r hne hx rfl
      obtain ⟨rest, hrest⟩ := exists_firstBody r
      obtain ⟨is, his⟩ := hx.read
      rw [h.unique (hx.firstBody hrest), his] at hread
      have hlength : 0 < x.length := List.length_pos_iff.mpr hne
      exact hx.front_append (ih r.length (by simp; omega) hrest (isOk_of_map hread) rfl)
    cases p with
    | nil => exact front_nil
    | cons b r =>
      by_cases hstar : b = 0x2A
      · exact hstar ▸ front_star r
      by_cases hescape : b = 0x5C
      · subst hescape
        cases r with
        | nil =>
          have hlone : FirstBody [0x5C] [0x5C] := ⟨[], fun starred acc _ => by simp [cutAtStars]⟩
          rw [h.unique hlone] at hread
          cases hread
        | cons c r => exact hbehind (by simp) (row_escape c) rfl
      by_cases hopen : b = 0x5B
      · subst hopen
        obtain ⟨inner, after, rfl, hcut⟩ := firstBody_bracket r
        rw [h.unique hcut] at hread
        cases hset : setItem inner with
        | error =>
          rw [items, List.length_cons, readItems_set, hset] at hread
          cases hread
        | ok found =>
          obtain ⟨u, rfl, hrow⟩ := row_set hset
          exact hbehind (r := found.2 ++ after) (by simp) hrow (by simp)
      by_cases hany : b = 0x3F
      · exact hany ▸ hbehind (r := r) (by simp) row_any (by simp [hany])
      · exact hbehind (by simp) (row_byte hstar hopen hany hescape) (List.singleton_append).symm

/-! ### Patterns that can be read -/

/-- The first segment of a pattern, behind a star or not, can be read. -/
def Reads (starred : Bool) (p : Bytes) : Prop :=
  ∃ hit, layAgainst (cutAtStars starred false [] p) [] = .ok hit

/-- A pattern that is accepted when it is tried on the empty name. -/
def Opens (p : Bytes) : Prop := ∃ hit, matchName p [] = .ok hit

theorem opens_iff_isOk {p : Bytes} : Opens p ↔ (matchName p []).isOk = true := by
  unfold Opens
  cases matchName p [] <;> simp [Except.isOk, Except.toBool]

theorem reads_star {starred : Bool} {p : Bytes} : Reads starred (0x2A :: p) ↔ Reads true p := Iff.rfl

theorem reads_of_front {starred : Bool} {p : Bytes} (hstar : p.head? ≠ some 0x2A) (h : Front p) :
    Reads starred p := by
  obtain ⟨x, hx, hp⟩ := h
  obtain ⟨is, his⟩ := hx.read
  have hread : items x = .ok (is ++ []) := by
    have hnil := his []
    rwa [List.append_nil] at hnil
  by_cases hempty : x = []
  · subst hempty
    rcases hp with rfl | ⟨r, rfl⟩
    · cases starred <;> exact ⟨true, rfl⟩
    · exact absurd rfl hstar
  · have hfirst : ∃ more, cutAtStars starred false [] p = ⟨starred, x⟩ :: more := by
      rcases hp with rfl | ⟨r, rfl⟩
      · have hcut := hx.cut starred [] []
        rw [List.append_nil, List.append_nil] at hcut
        exact ⟨[], by rw [hcut]; simp [cutAtStars, hempty]⟩
      · refine ⟨cutAtStars true false [] r, ?_⟩
        rw [hx.cut, List.append_nil, cutAtStars]
        · simp [hempty]
        · simp
    obtain ⟨more, hmore⟩ := hfirst
    rw [Reads, hmore]
    exact ⟨false, layAgainst_nil hempty hread more⟩

theorem Reads.isOk_items {starred : Bool} {p body : Bytes} (h : Reads starred p)
    (hbody : FirstBody p body) : (items body).isOk = true := by
  by_cases hempty : body = []
  · rw [hempty]
    rfl
  · obtain ⟨more, hmore⟩ := hbody
    obtain ⟨hit, hhit⟩ := h
    rw [hmore starred [] hempty] at hhit
    obtain ⟨is, his⟩ := items_of_layAgainst hempty hhit
    have hread : items body = .ok is := his
    rw [hread]
    rfl

theorem Reads.front {starred : Bool} {p : Bytes} (h : Reads starred p) : Front p := by
  obtain ⟨body, hbody⟩ := exists_firstBody p
  exact hbody.front (h.isOk_items hbody)

theorem Opens.front {p : Bytes} (h : Opens p) : Front p := @Reads.front false p h

theorem Reads.below {starred : Bool} {p q : Bytes} (hp : Reads starred p) (hq : Opens q) :
    Reads starred (p ++ Path.slash :: q) := by
  induction p generalizing starred with
  | nil => exact reads_of_front (by simp [Path.slash]) (front_nil.below hq.front)
  | cons b p ih =>
    by_cases hstar : b = 0x2A
    · subst hstar
      exact reads_star.mpr (ih (reads_star.mp hp))
    · exact reads_of_front (by simpa using hstar) (hp.front.below hq.front)

/-- **A pattern that can be read below one that can be read can be read**: no bracket and no escape
goes on over a slash. -/
theorem opens_below {p q : Bytes} (hp : Opens p) (hq : Opens q) : Opens (p ++ Path.slash :: q) :=
  @Reads.below false p q hp hq

theorem row_plain {p : Bytes} (hp : hasMeta p = false) : Row p := by
  induction p with
  | nil => exact row_nil
  | cons b p ih =>
    obtain ⟨⟨hstar, hany, hopen, hescape⟩, hrest⟩ := hasMeta_cons hp
    exact (row_byte hstar hopen hany hescape).append (ih hrest)

/-- Behind other bytes a pattern is read from its first byte on, and if this is a star not at all. -/
theorem opens_behind_iff {front p : Bytes} (hfront : hasMeta front = false) (hne : front ≠ []) :
    Opens (front ++ p) ↔ Opens p ∨ p.head? = some 0x2A := by
  have hrow := row_plain hfront
  constructor
  · intro h
    by_cases hstar : p.head? = some 0x2A
    · exact .inr hstar
    obtain ⟨body, hbody⟩ := exists_firstBody p
    obtain ⟨is, his⟩ := hrow.read
    have hread : (items (front ++ body)).isOk = true :=
      @Reads.isOk_items false _ _ h (hrow.firstBody hbody)
    rw [his] at hread
    exact .inl (@reads_of_front false p hstar (hbody.front (isOk_of_map hread)))
  · intro h
    have hp : Front p := by
      rcases h with h | hstar
      · exact h.front
      · obtain ⟨r, rfl⟩ := List.head?_eq_some_iff.mp hstar
        exact front_star r
    refine @reads_of_front false _ ?_ (hrow.front_append hp)
    cases front with
    | nil => exact absurd rfl hne
    | cons b front => simpa using (hasMeta_cons hfront).1.1

end Pattern

end PatchAudit
