import Mathlib.Data.List.TakeWhile
import PatchAudit.Proofs.InertText

/-!
# Tags and the texts behind them

A page is read as its tags, each with the text up to the next one (`read`).  The tags of a page that is
put together are those of its parts, as long as each part begins and ends in text (`Reads.append`), and
what is put together from tags and texts that are no markup is read back as these
(`read_append_flatMap`).
-/

namespace PatchAudit

theorem Bytes.ofString_append (s t : String) : ofString (s ++ t) = ofString s ++ ofString t := by
  unfold ofString
  rw [String.toList_append, List.flatMap_append]

theorem Bytes.ofString_eq {s : String} {cs : List Char} (h : s = String.ofList cs) :
    ofString s = cs.flatMap String.utf8EncodeChar := by
  rw [ofString, h, String.toList_ofList]

namespace Markup

/-! ### Tags -/

/-- A text begins and ends in text, and these are its tags. -/
structure Reads (s : Bytes) (ts : List Bytes) : Prop where
  closed : Closed s
  tags : tags s = ts

instance (s : Bytes) (ts : List Bytes) : Decidable (Reads s ts) :=
  decidable_of_iff (Closed s ∧ tags s = ts)
    ⟨fun ⟨hclosed, htags⟩ => ⟨hclosed, htags⟩, fun h => ⟨h.closed, h.tags⟩⟩

namespace Reads

theorem append {s r : Bytes} {ts us : List Bytes} (hs : Reads s ts) (hr : Reads r us) :
    Reads (s ++ r) (ts ++ us) := by
  refine ⟨hs.closed.append hr.closed, ?_⟩
  rw [Markup.tags, lexemes_append hs.closed, List.filter_append]
  exact congrArg₂ (· ++ ·) hs.tags hr.tags

theorem of_eq {s : Bytes} {ts us : List Bytes} (h : Reads s ts) (heq : ts = us) : Reads s us := heq ▸ h

theorem of_inert {s : Bytes} (h : Inert s) : Reads s [] :=
  ⟨h.closed, List.filter_eq_nil_iff.mpr fun l hl => by simp [h.noTag l hl]⟩

theorem flatMap {α : Type} {f : α → Bytes} {g : α → List Bytes} {l : List α}
    (h : ∀ a ∈ l, Reads (f a) (g a)) : Reads (l.flatMap f) (l.flatMap g) := by
  induction l with
  | nil => exact ⟨rfl, rfl⟩
  | cons a l ih =>
    obtain ⟨ha, hl⟩ := List.forall_mem_cons.mp h
    exact ha.append (ih hl)

theorem of_plain {s : Bytes} (h : ∀ b ∈ s, IsPlain b) : Reads s [] := of_inert (inert_of_plain h)

/-- A literal, read by its characters. -/
theorem literal {s : String} {cs : List Char} (hs : s = String.ofList cs)
    (h : Closed (cs.flatMap String.utf8EncodeChar)) :
    Reads s (Markup.tags (cs.flatMap String.utf8EncodeChar)) := by
  rw [Bytes.ofString_eq hs]
  exact ⟨h, rfl⟩

end Reads

/-! ### Tags and the texts behind them -/

/-- A tag and the text up to the next one. -/
structure TaggedText where
  tag : Bytes
  text : Bytes
  deriving DecidableEq, Repr

/-- The tags among lexemes, each with the text up to the next one. -/
def taggedTexts : List Bytes → List TaggedText
  | [] => []
  | l :: rest =>
    if isTag l then ⟨l, (rest.takeWhile fun x => !isTag x).flatten⟩ :: taggedTexts rest
    else taggedTexts rest

/-- The tags of a page, each with the text behind it. -/
def read (page : Bytes) : List TaggedText := taggedTexts (lexemes page)

theorem map_tag_read (page : Bytes) : (read page).map TaggedText.tag = tags page := by
  unfold read tags
  induction lexemes page with
  | nil => rfl
  | cons l rest ih =>
    unfold taggedTexts
    by_cases htag : isTag l = true
    · rw [if_pos htag, List.filter_cons_of_pos htag, List.map_cons, ih]
    · rw [if_neg htag, List.filter_cons_of_neg htag, ih]

/-- Lexemes that do not go on with text. -/
def StartsTag (ls : List Bytes) : Prop := ∀ l ∈ ls.head?, isTag l = true

theorem takeWhile_append_of_startsTag {ys : List Bytes} (h : StartsTag ys) (xs : List Bytes) :
    (xs ++ ys).takeWhile (fun x => !isTag x) = xs.takeWhile fun x => !isTag x := by
  induction xs with
  | nil =>
    cases ys with
    | nil => rfl
    | cons y ys =>
      rw [List.nil_append, List.takeWhile_cons, h y rfl]
      rfl
  | cons x xs ih => rw [List.cons_append, List.takeWhile_cons, List.takeWhile_cons, ih]

theorem taggedTexts_append {ys : List Bytes} (h : StartsTag ys) (xs : List Bytes) :
    taggedTexts (xs ++ ys) = taggedTexts xs ++ taggedTexts ys := by
  induction xs with
  | nil => rfl
  | cons x xs ih =>
    rw [List.cons_append, taggedTexts, taggedTexts, ih, takeWhile_append_of_startsTag h]
    split_ifs <;> rfl

/-- A text that is read as one tag. -/
structure IsWholeTag (s : Bytes) : Prop where
  lexemes_eq : lexemes s = [s]
  closed : Closed s
  isTag : isTag s = true

instance (s : Bytes) : Decidable (IsWholeTag s) :=
  decidable_of_iff (lexemes s = [s] ∧ Closed s ∧ isTag s = true)
    ⟨fun ⟨hread, hclosed, htag⟩ => ⟨hread, hclosed, htag⟩,
      fun h => ⟨h.lexemes_eq, h.closed, h.isTag⟩⟩

theorem IsWholeTag.reads {s : Bytes} (h : IsWholeTag s) : Reads s [s] :=
  ⟨h.closed, by rw [tags, h.lexemes_eq, List.filter_cons_of_pos h.isTag, List.filter_nil]⟩

namespace TaggedText

/-- A tag and its text as they are written. -/
def bytes (t : TaggedText) : Bytes := t.tag ++ t.text

/-- The tag is one, and the text is no markup. -/
structure Sound (t : TaggedText) : Prop where
  tag : IsWholeTag t.tag
  text : Inert t.text

theorem forall_sound {ts : List TaggedText} (htags : ∀ s ∈ ts.map tag, IsWholeTag s)
    (htexts : ∀ s ∈ ts.map text, Inert s) : ∀ t ∈ ts, t.Sound := fun _ ht =>
  ⟨htags _ (List.mem_map_of_mem ht), htexts _ (List.mem_map_of_mem ht)⟩

theorem Sound.reads {t : TaggedText} (h : t.Sound) : Reads t.bytes [t.tag] :=
  h.tag.reads.append (.of_inert h.text)

theorem Sound.lexemes_bytes {t : TaggedText} (h : t.Sound) :
    lexemes t.bytes = t.tag :: lexemes t.text := by
  rw [bytes, lexemes_append h.tag.closed, h.tag.lexemes_eq]
  rfl

theorem Sound.read_bytes {t : TaggedText} (h : t.Sound) : read t.bytes = [t] := by
  have hall : ∀ x ∈ lexemes t.text, (!Markup.isTag x) = true := fun x hx => by
    rw [h.text.noTag x hx]
    rfl
  have hnone : taggedTexts (lexemes t.text) = [] := by
    have hmap := map_tag_read t.text
    rw [(Reads.of_inert h.text).tags] at hmap
    exact List.map_eq_nil_iff.mp hmap
  rw [read, h.lexemes_bytes, taggedTexts, if_pos h.tag.isTag, hnone,
    List.takeWhile_eq_self_iff.mpr hall, flatten_lexemes]

end TaggedText

open TaggedText (bytes)

/-- What is put together from tags and texts is read back as these, behind anything that ends in
text. -/
theorem read_append_flatMap {s : Bytes} (hs : Closed s) {ts : List TaggedText}
    (h : ∀ t ∈ ts, t.Sound) : read (s ++ ts.flatMap bytes) = read s ++ ts := by
  induction ts generalizing s with
  | nil => simp
  | cons t ts ih =>
    obtain ⟨ht, hts⟩ := List.forall_mem_cons.mp h
    have hfirst : read (s ++ t.bytes) = read s ++ [t] := by
      have hstart : StartsTag (lexemes t.bytes) := by
        rw [ht.lexemes_bytes]
        rintro _ ⟨⟩
        exact ht.tag.isTag
      rw [read, lexemes_append hs, taggedTexts_append hstart]
      exact congrArg (read s ++ ·) ht.read_bytes
    rw [List.flatMap_cons, ← List.append_assoc, ih (hs.append ht.reads.closed) hts, hfirst,
      List.append_assoc]
    rfl

end Markup

end PatchAudit
