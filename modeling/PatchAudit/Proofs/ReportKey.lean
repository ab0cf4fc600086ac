import Mathlib.Data.List.Basic
import PatchAudit.Check.Linter
import PatchAudit.Proofs.Text
import PatchAudit.Store.Entry

/-!
# What a key stands for

The bytes that a key is the digest of can be taken apart again once it is known how many zero bytes
each part holds (`fields_of_preimage`).  If no part holds any, they give back the name, the text and
all options, the checks to skip up to their order (`preimage_injective`).  The stored form of a
report depends on nothing else (`ofReport_congr`).
-/

namespace PatchAudit

/-- Options without a zero byte whose checks to skip are all known. -/
structure LintOptions.Clear (o : LintOptions) : Prop where
  oldTerms : ∀ t ∈ o.branding.oldTerms, 0 ∉ t
  replacement : 0 ∉ o.branding.replacement
  fileFilter : 0 ∉ o.branding.fileFilter
  commentMarks : ∀ m ∈ o.commentMarks, 0 ∉ m
  skip : o.unknownSkip? = none

/-- A document without a zero byte in its name and text. -/
structure Document.Clear (d : Document) : Prop where
  name : 0 ∉ d.name
  text : 0 ∉ d.text

namespace StoreKey

/-! ### Taking parts off the front -/

theorem part_append (x s : Bytes) : part x ++ s = x ++ 0 :: s := by
  simp [part]

/-- A part ends at the zero byte behind it once it is known how many zero bytes it holds. -/
theorem part_inj_of_count {x y s t : Bytes} (hcount : x.count 0 = y.count 0)
    (h : part x ++ s = part y ++ t) : x = y ∧ s = t := by
  rw [part_append, part_append] at h
  induction x generalizing y with
  | nil =>
    cases y with
    | nil => exact ⟨rfl, by simpa using h⟩
    | cons b y =>
      obtain ⟨rfl, -⟩ : 0 = b ∧ _ := by simpa using h
      simp at hcount
  | cons a x ih =>
    cases y with
    | nil =>
      obtain ⟨rfl, -⟩ : a = 0 ∧ _ := by simpa using h
      simp at hcount
    | cons b y =>
      simp only [List.cons_append, List.cons.injEq] at h
      obtain ⟨rfl, h⟩ := h
      have hrest : x.count 0 = y.count 0 := by simpa [List.count_cons] using hcount
      obtain ⟨hxy, hst⟩ := ih hrest h
      exact ⟨by rw [hxy], hst⟩

theorem part_inj {x y s t : Bytes} (hx : 0 ∉ x) (hy : 0 ∉ y) (h : part x ++ s = part y ++ t) :
    x = y ∧ s = t :=
  part_inj_of_count (by rw [List.count_eq_zero.mpr hx, List.count_eq_zero.mpr hy]) h

theorem flatMap_part_inj {l m : List Bytes} {s t : Bytes} (hlength : l.length = m.length)
    (hcount : ∀ p ∈ l.zip m, p.1.count 0 = p.2.count 0)
    (h : l.flatMap part ++ s = m.flatMap part ++ t) : l = m ∧ s = t := by
  induction l generalizing m with
  | nil =>
    obtain rfl : m = [] := List.length_eq_zero_iff.mp hlength.symm
    exact ⟨rfl, h⟩
  | cons x l ih =>
    cases m with
    | nil => simp at hlength
    | cons y m =>
      rw [List.flatMap_cons, List.flatMap_cons, List.append_assoc, List.append_assoc] at h
      rw [List.zip_cons_cons, List.forall_mem_cons] at hcount
      obtain ⟨hxy, hrest⟩ := part_inj_of_count hcount.1 h
      obtain ⟨hlm, hst⟩ := ih (by simpa using hlength) hcount.2 hrest
      exact ⟨by rw [show x = y from hxy, hlm], hst⟩

theorem zero_not_mem_ofNat (n : Nat) : 0 ∉ Bytes.ofNat n := by
  intro h
  have hdigit := (Bytes.mem_ofNat h).1
  simp at hdigit

/-- The length in front tells where a list ends. -/
theorem listParts_inj {l m : List Bytes} {s t : Bytes}
    (hcount : ∀ p ∈ l.zip m, p.1.count 0 = p.2.count 0)
    (h : listParts l ++ s = listParts m ++ t) : l = m ∧ s = t := by
  rw [listParts, listParts, List.append_assoc, List.append_assoc] at h
  obtain ⟨hlength, hrest⟩ := part_inj (zero_not_mem_ofNat _) (zero_not_mem_ofNat _) h
  exact flatMap_part_inj (Bytes.ofNat_injective hlength) hcount hrest

/-- Two patches with their options hold equally many zero bytes wherever one field stands for the
other. -/
structure ZerosAgree (text text' : Bytes) (o o' : LintOptions) : Prop where
  text : text.count 0 = text'.count 0
  oldTerms : ∀ p ∈ o.branding.oldTerms.zip o'.branding.oldTerms, p.1.count 0 = p.2.count 0
  replacement : o.branding.replacement.count 0 = o'.branding.replacement.count 0
  fileFilter : o.branding.fileFilter.count 0 = o'.branding.fileFilter.count 0
  commentMarks : ∀ p ∈ o.commentMarks.zip o'.commentMarks, p.1.count 0 = p.2.count 0

theorem counts_zip_self (l : List Bytes) : ∀ p ∈ l.zip l, p.1.count 0 = p.2.count 0 := by
  induction l with
  | nil => simp
  | cons x l ih =>
    rw [List.zip_cons_cons, List.forall_mem_cons]
    exact ⟨rfl, ih⟩

/-- Options without zero bytes leave only the texts to agree. -/
theorem ZerosAgree.of_clear {text text' : Bytes} {o o' : LintOptions}
    (htext : text.count 0 = text'.count 0) (ho : o.Clear) (ho' : o'.Clear) :
    ZerosAgree text text' o o' := by
  have hsame : ∀ {x y : Bytes}, 0 ∉ x → 0 ∉ y → x.count 0 = y.count 0 := by
    intro x y hx hy
    rw [List.count_eq_zero.mpr hx, List.count_eq_zero.mpr hy]
  have hlists : ∀ {l m : List Bytes}, (∀ x ∈ l, 0 ∉ x) → (∀ x ∈ m, 0 ∉ x) →
      ∀ p ∈ l.zip m, p.1.count 0 = p.2.count 0 := by
    intro l m hl hm p hp
    obtain ⟨h₁, h₂⟩ := List.of_mem_zip hp
    exact hsame (hl _ h₁) (hm _ h₂)
  exact ⟨htext, hlists ho.oldTerms ho'.oldTerms, hsame ho.replacement ho'.replacement,
    hsame ho.fileFilter ho'.fileFilter, hlists ho.commentMarks ho'.commentMarks⟩

end StoreKey

namespace LintOptions

/-! ### The checks to skip -/

theorem mem_names_of_mem_skip {o : LintOptions} (h : o.unknownSkip? = none) {name : Bytes}
    (hname : name ∈ o.skip) : name ∈ Check.names := by
  have hfind : o.skip.find? (fun s => !Check.names.contains s) = none := by
    simpa [unknownSkip?] using h
  have hknown := List.find?_eq_none.mp hfind name hname
  simpa using hknown

/-- The name of a check has something in it and no comma. -/
theorem names_plain : ∀ name ∈ Check.names, name ≠ [] ∧ 0x2C ∉ name := by
  decide

theorem sorted_skip_plain {o : LintOptions} (h : o.unknownSkip? = none) :
    ∀ name ∈ Bytes.sort o.skip, name ≠ [] ∧ 0x2C ∉ name := fun name hname =>
  names_plain name (mem_names_of_mem_skip h ((Bytes.sort_perm o.skip).mem_iff.mp hname))

/-- The text of the checks to skip gives them back, up to their order. -/
theorem skip_perm_of_skipText {o o' : LintOptions} (h : o.unknownSkip? = none)
    (h' : o'.unknownSkip? = none)
    (heq : Bytes.join "," (Bytes.sort o.skip) = Bytes.join "," (Bytes.sort o'.skip)) :
    o.skip.Perm o'.skip := by
  have hback : ∀ {o : LintOptions}, o.unknownSkip? = none →
      (Bytes.join "," (Bytes.sort o.skip)).splitOn 0x2C =
        if Bytes.sort o.skip = [] then [[]] else Bytes.sort o.skip := by
    intro o h
    split_ifs with hnil
    · rw [hnil]
      rfl
    · exact List.splitOn_intercalate 0x2C (fun c hc => (sorted_skip_plain h c hc).2) hnil
  have hsort : Bytes.sort o.skip = Bytes.sort o'.skip := by
    have hsplit := (hback h).symm.trans (heq ▸ hback h')
    have hne : ∀ {o : LintOptions}, o.unknownSkip? = none → Bytes.sort o.skip ≠ [[]] :=
      fun h hs => (sorted_skip_plain h [] (by simp [hs])).1 rfl
    split_ifs at hsplit with hnil hnil' hnil'
    · rw [hnil, hnil']
    · exact absurd hsplit.symm (hne h')
    · exact absurd hsplit (hne h)
    · exact hsplit
  exact (Bytes.sort_perm o.skip).symm.trans (hsort ▸ Bytes.sort_perm o'.skip)

theorem enabled_eq_of_perm {o o' : LintOptions} (h : o.skip.Perm o'.skip) :
    o.enabled = o'.enabled := by
  unfold enabled
  congr 1
  funext c
  rw [Bool.eq_iff_iff]
  simp [h.mem_iff]

end LintOptions

/-! ### Keys and reports -/

/-- The bytes of a key can be taken apart field by field if zero bytes agree in all fields. -/
theorem StoreKey.fields_of_preimage {name name' text text' : Bytes} {o o' : LintOptions}
    (hname : 0 ∉ name) (hname' : 0 ∉ name') (hzeros : ZerosAgree text text' o o')
    (h : preimage name text o = preimage name' text' o') :
    name = name' ∧ text = text' ∧ o.branding = o'.branding ∧ o.commentMarks = o'.commentMarks ∧
      Bytes.join "," (Bytes.sort o.skip) = Bytes.join "," (Bytes.sort o'.skip) := by
  unfold preimage at h
  simp only [List.append_assoc] at h
  have hversion : 0 ∉ (Bytes.ofString "v" ++ Bytes.ofNat storeVersion) := by decide
  obtain ⟨-, h⟩ := part_inj hversion hversion h
  obtain ⟨hname, h⟩ := part_inj hname hname' h
  obtain ⟨htext, h⟩ := part_inj_of_count hzeros.text h
  obtain ⟨hterms, h⟩ := listParts_inj hzeros.oldTerms h
  obtain ⟨hreplacement, h⟩ := part_inj_of_count hzeros.replacement h
  obtain ⟨hfilter, h⟩ := part_inj_of_count hzeros.fileFilter h
  obtain ⟨hmarks, h⟩ := listParts_inj hzeros.commentMarks h
  have hskip := List.append_cancel_right h
  have hbranding : o.branding = o'.branding := by
    obtain ⟨⟨_, _, _⟩, _, _⟩ := o
    obtain ⟨⟨_, _, _⟩, _, _⟩ := o'
    simp only at hterms hreplacement hfilter
    rw [hterms, hreplacement, hfilter]
  exact ⟨hname, htext, hbranding, hmarks, hskip⟩

/-- **A key's bytes give back what they were made of**: the name, the text and the options, the
checks to skip up to their order. -/
theorem StoreKey.preimage_injective {d d' : Document} {o o' : LintOptions} (hd : d.Clear)
    (hd' : d'.Clear) (ho : o.Clear) (ho' : o'.Clear)
    (h : preimage d.name d.text o = preimage d'.name d'.text o') :
    d.name = d'.name ∧ d.text = d'.text ∧ o.branding = o'.branding ∧
      o.commentMarks = o'.commentMarks ∧ o.enabled = o'.enabled := by
  have htext : d.text.count 0 = d'.text.count 0 := by
    rw [List.count_eq_zero.mpr hd.text, List.count_eq_zero.mpr hd'.text]
  have hzeros := ZerosAgree.of_clear htext ho ho'
  obtain ⟨hname, htext, hbranding, hmarks, hskip⟩ := fields_of_preimage hd.name hd'.name hzeros h
  have hperm := LintOptions.skip_perm_of_skipText ho.skip ho'.skip hskip
  exact ⟨hname, htext, hbranding, hmarks, LintOptions.enabled_eq_of_perm hperm⟩

/-- Under the same options it takes only names without zero bytes, since nothing but the text is
left between them and the options. -/
theorem StoreKey.preimage_injective_of_options {name name' text text' : Bytes} {o : LintOptions}
    (hname : 0 ∉ name) (hname' : 0 ∉ name') (h : preimage name text o = preimage name' text' o) :
    name = name' ∧ text = text' := by
  unfold preimage at h
  simp only [List.append_assoc] at h
  have hversion : 0 ∉ (Bytes.ofString "v" ++ Bytes.ofNat storeVersion) := by decide
  obtain ⟨-, h⟩ := part_inj hversion hversion h
  obtain ⟨heq, h⟩ := part_inj hname hname' h
  exact ⟨heq, List.append_cancel_right (List.append_cancel_right h)⟩

/-- The stored form of a report depends only on the name and the text of the patch, on the rules and
on the checks that are enabled. -/
theorem LintOptions.ofReport_congr {d d' : Document} {o o' : LintOptions} (hname : d.name = d'.name)
    (htext : d.text = d'.text) (hbranding : o.branding = o'.branding)
    (hmarks : o.commentMarks = o'.commentMarks) (henabled : o.enabled = o'.enabled) :
    StoredReport.ofReport (o.report d) = StoredReport.ofReport (o'.report d') := by
  have hlines : d.classified = d'.classified := by
    simp only [Document.classified, Document.lines, htext]
  have hissues : Check.issues o d = Check.issues o' d' := by
    funext c
    cases c with
    | shape => simp only [Check.issues, htext]
    | braces => simp only [Check.issues, hmarks, hlines]
    | branding => simp only [Check.issues, hbranding, hname, hlines]
  have hstats : d.stats = d'.stats := by
    simp only [Document.stats, htext]
  simp only [StoredReport.ofReport, report, hissues, henabled, hstats]

/-! ### When two inputs share their bytes -/

/-- Options that say the same, the checks to skip in any order. -/
structure LintOptions.SameUpToOrder (o o' : LintOptions) : Prop where
  branding : o.branding = o'.branding
  commentMarks : o.commentMarks = o'.commentMarks
  skip : o.skip.Perm o'.skip

namespace StoreKey

variable {name name' text text' : Bytes} {o o' : LintOptions}

/-- The order of the checks to skip leaves no trace in the bytes of a key. -/
theorem preimage_congr (name text : Bytes) (h : o.SameUpToOrder o') :
    preimage name text o = preimage name text o' := by
  unfold preimage
  rw [h.branding, h.commentMarks, Bytes.sort_eq_of_perm h.skip]

theorem ZerosAgree.of_sameUpToOrder (text : Bytes) (h : o.SameUpToOrder o') :
    ZerosAgree text text o o' := by
  have hterms : o.branding.oldTerms = o'.branding.oldTerms := by rw [h.branding]
  refine ⟨rfl, ?_, by rw [h.branding], by rw [h.branding], ?_⟩
  · rw [hterms]
    exact counts_zip_self _
  · rw [h.commentMarks]
    exact counts_zip_self _

/-- With zero bytes agreeing in all fields the bytes of a key stand for one input only. -/
theorem preimage_eq_iff (hname : 0 ∉ name) (hname' : 0 ∉ name') (ho : o.unknownSkip? = none)
    (ho' : o'.unknownSkip? = none) (hzeros : ZerosAgree text text' o o') :
    preimage name text o = preimage name' text' o' ↔
      name = name' ∧ text = text' ∧ o.SameUpToOrder o' := by
  constructor
  · intro h
    obtain ⟨hn, ht, hbranding, hmarks, hskip⟩ := fields_of_preimage hname hname' hzeros h
    exact ⟨hn, ht, hbranding, hmarks, LintOptions.skip_perm_of_skipText ho ho' hskip⟩
  · rintro ⟨rfl, rfl, hsame⟩
    exact preimage_congr name text hsame

end StoreKey

/-- **The bytes of a key separate its fields** as far as zero bytes let them.  Two inputs with known
checks to skip are the same, up to the order of these, exactly if their bytes are equal and zero
bytes agree field by field; so it is enough that the options hold none and the texts equally many,
and under the same options texts may hold any bytes. -/
theorem key_bytes_separate_fields {name name' text text' : Bytes} {o o' : LintOptions}
    (hname : 0 ∉ name) (hname' : 0 ∉ name') (ho : o.unknownSkip? = none)
    (ho' : o'.unknownSkip? = none) :
    (StoreKey.preimage name text o = StoreKey.preimage name' text' o' ∧
        StoreKey.ZerosAgree text text' o o' ↔
      name = name' ∧ text = text' ∧ o.SameUpToOrder o') ∧
    (o.Clear → o'.Clear → text.count 0 = text'.count 0 →
      (StoreKey.preimage name text o = StoreKey.preimage name' text' o' ↔
        name = name' ∧ text = text' ∧ o.SameUpToOrder o')) ∧
    (o.SameUpToOrder o' →
      (StoreKey.preimage name text o = StoreKey.preimage name' text' o' ↔
        name = name' ∧ text = text')) := by
  refine ⟨⟨?_, ?_⟩, ?_, ?_⟩
  · rintro ⟨heq, hzeros⟩
    exact (StoreKey.preimage_eq_iff hname hname' ho ho' hzeros).mp heq
  · rintro ⟨rfl, rfl, hsame⟩
    exact ⟨StoreKey.preimage_congr name text hsame, .of_sameUpToOrder text hsame⟩
  · intro hclear hclear' htext
    exact StoreKey.preimage_eq_iff hname hname' ho ho' (.of_clear htext hclear hclear')
  · intro hsame
    constructor
    · intro heq
      rw [StoreKey.preimage_congr name text hsame] at heq
      exact StoreKey.preimage_injective_of_options hname hname' heq
    · rintro ⟨rfl, rfl⟩
      exact StoreKey.preimage_congr name text hsame

/-- A term cannot pass for a comment mark, and skipped checks may change places, also around a text
that holds a zero byte. -/
theorem key_bytes_separate_fields_shifted :
    let text : Bytes := [0x78, 0, 0x79]
    let terms : LintOptions := ⟨⟨["A", "B"], "C", "D"⟩, ["E"], ["braces", "structure"]⟩
    let marks : LintOptions := ⟨⟨["A"], "C", "D"⟩, ["B", "E"], ["braces", "structure"]⟩
    let turned : LintOptions := ⟨⟨["A", "B"], "C", "D"⟩, ["E"], ["structure", "braces"]⟩
    StoreKey.preimage "a.patch" text terms ≠ StoreKey.preimage "a.patch" text marks ∧
      StoreKey.preimage "a.patch" text terms = StoreKey.preimage "a.patch" text turned := by
  intro text terms marks turned
  have hname : 0 ∉ Bytes.ofString "a.patch" := by decide
  constructor
  · intro h
    have hterms : terms.Clear := ⟨by decide, by decide, by decide, by decide, by decide⟩
    have hmarks : marks.Clear := ⟨by decide, by decide, by decide, by decide, by decide⟩
    have hsame := ((key_bytes_separate_fields hname hname hterms.skip hmarks.skip).2.1 hterms hmarks
      rfl).mp h
    exact absurd hsame.2.2.branding (by decide)
  · have hturned : terms.SameUpToOrder turned := ⟨rfl, rfl, .swap _ _ _⟩
    exact ((key_bytes_separate_fields hname hname (by decide) (by decide)).2.2 hturned).mpr
      ⟨rfl, rfl⟩

/-- A text with zero bytes can hold the ends of the parts behind it: these two inputs share their
bytes, but neither their texts nor their options. -/
theorem key_bytes_mix_text_and_lists :
    let text : Bytes := [0x78]
    let text' : Bytes := [0x78, 0, 0x30, 0, 0x61, 0, 0x62, 0, 0x34]
    let o : LintOptions := ⟨⟨[], "a", "b"⟩, ["0", "r", "f", "0"], []⟩
    let o' : LintOptions := ⟨⟨[], "r", "f"⟩, [], []⟩
    o.unknownSkip? = none ∧ o'.unknownSkip? = none ∧
      StoreKey.preimage "a.patch" text o = StoreKey.preimage "a.patch" text' o' ∧
      text ≠ text' ∧ o.branding ≠ o'.branding ∧ o.commentMarks ≠ o'.commentMarks := by
  decide

end PatchAudit
