import Mathlib.Data.List.Basic
import PatchAudit.Proofs.Characters
import PatchAudit.Settings.File

/-!
# Where the settings of a file lead

The directory of loaded settings comes from the field `dir` of their file.  A key fills that field
in any case of its letters (`find?_topNames_eq_dir_iff`), but only the exact spelling makes a
relative directory start from the folder of the file.  Fields of a table have no order of their own,
so what is said of the directory holds for every order in which they are filled in
(`loaded_settings_placed`).
-/

namespace PatchAudit

/-! ### Names without regard to case -/

namespace Bytes

/-- A character whose spelling begins with a byte outside ASCII is not one of ASCII. -/
theorem le_toNat_of_front? {b : UInt8} {r : Bytes} {c : Char} {n : Nat} (hb : 0x80 ≤ b.toNat)
    (h : front? b r = some (c, n)) : 0x80 ≤ c.toNat := by
  by_contra hlow
  have hspell := utf8EncodeChar_of_front? h
  have hval : c.val.toNat = c.toNat := rfl
  unfold String.utf8EncodeChar at hspell
  simp only [hval] at hspell
  rw [if_pos (by omega)] at hspell
  have hbyte := congrArg UInt8.toNat (List.cons.inj hspell).1
  rw [toNat_byte (by omega)] at hbyte
  omega

/-- What a text that begins outside ASCII begins with as a character. -/
theorem exists_chars_cons {b : UInt8} (hb : 0x80 ≤ b.toNat) (r : Bytes) :
    ∃ c rest, chars (b :: r) = c :: rest ∧ 0x80 ≤ c.toNat := by
  unfold chars pieces
  rw [piecesFrom]
  cases hfront : front? b r with
  | none => exact ⟨Char.ofNat 0xFFFD, _, rfl, by decide⟩
  | some found => exact ⟨_, _, rfl, le_toNat_of_front? hb hfront⟩

theorem chars_cons_ascii {b : UInt8} (hb : b.toNat < 0x80) (r : Bytes) :
    chars (b :: r) = Char.ofNat b.toNat :: chars r := by
  rw [chars, pieces_cons_ascii hb]
  rfl

end Bytes

namespace FieldName

/-- A letter of a name in lower case that no letter outside ASCII folds to. -/
def IsPlainLetter (b : UInt8) : Prop := 0x61 ≤ b.toNat ∧ b.toNat ≤ 0x7A ∧ b ≠ 0x6B ∧ b ≠ 0x73

/-- Characters of ASCII are folded as their bytes are put in lower case. -/
theorem foldChar_ascii : ∀ n < 128,
    foldChar (Char.ofNat n) = Char.ofNat (Bytes.asciiLower (UInt8.ofNat n)).toNat := by
  decide

/-- No character outside ASCII is folded to a plain letter. -/
theorem foldChar_wide {c : Char} {x : UInt8} (hc : 0x80 ≤ c.toNat) (hx : IsPlainLetter x) :
    foldChar c ≠ Char.ofNat x.toNat := by
  obtain ⟨hlow, hhigh, hk, hs⟩ := hx
  have hletter : (Char.ofNat x.toNat).toNat = x.toNat := Bytes.toNat_ofNat (Or.inl (by omega))
  intro heq
  have hvalue := congrArg Char.toNat heq
  rw [hletter] at hvalue
  unfold foldChar at hvalue
  split_ifs at hvalue
  · exact hs (UInt8.toNat_inj.mp hvalue.symm)
  · exact hk (UInt8.toNat_inj.mp hvalue.symm)
  · have hsame : c.toLower = c := by
      unfold Char.toLower
      rw [dif_neg]
      rintro ⟨-, hupper⟩
      have hnat : c.toNat ≤ 90 := hupper
      omega
    rw [hsame] at hvalue
    omega

theorem foldChar_plain {x : UInt8} (hx : IsPlainLetter x) :
    foldChar (Char.ofNat x.toNat) = Char.ofNat x.toNat := by
  have hlow := hx.1
  have hhigh := hx.2.1
  rw [foldChar_ascii _ (by omega), UInt8.ofNat_toNat, Bytes.asciiLower, if_neg]
  simp only [UInt8.le_iff_toNat_le, UInt8.reduceToNat]
  omega

/-- A byte outside ASCII is its own lower case. -/
theorem asciiLower_wide {b : UInt8} (hb : 0x80 ≤ b.toNat) : Bytes.asciiLower b = b := by
  rw [Bytes.asciiLower, if_neg]
  simp only [UInt8.le_iff_toNat_le, UInt8.reduceToNat]
  omega

/-- The characters of a text begin with a plain letter exactly if the text begins with that letter in
one of its cases. -/
theorem fold_cons_iff {x : UInt8} (hx : IsPlainLetter x) (b : UInt8) (r : Bytes)
    (rest : List Char) :
    (Bytes.chars (b :: r)).map foldChar = Char.ofNat x.toNat :: rest ↔
      Bytes.asciiLower b = x ∧ (Bytes.chars r).map foldChar = rest := by
  have hletter := hx.2.1
  by_cases hb : b.toNat < 0x80
  · have hfold := foldChar_ascii b.toNat hb
    rw [UInt8.ofNat_toNat] at hfold
    rw [Bytes.chars_cons_ascii hb, List.map_cons, List.cons.injEq, hfold]
    refine and_congr_left fun _ => ⟨fun h => ?_, fun h => by rw [h]⟩
    have hlower : (Bytes.asciiLower b).toNat < 256 := UInt8.toNat_lt _
    have hsame := congrArg Char.toNat h
    rw [Bytes.toNat_ofNat (Or.inl (by omega : (Bytes.asciiLower b).toNat < 0xD800)),
      Bytes.toNat_ofNat (Or.inl (by omega : x.toNat < 0xD800))] at hsame
    exact UInt8.toNat_inj.mp hsame
  · obtain ⟨c, more, hchars, hc⟩ := Bytes.exists_chars_cons (b := b) (by omega) r
    rw [hchars, List.map_cons, List.cons.injEq, asciiLower_wide (by omega)]
    refine ⟨fun h => absurd h.1 (foldChar_wide hc hx), fun h => ?_⟩
    have hvalue := congrArg UInt8.toNat h.1
    omega

/-- A key is a name of plain letters without regard to case exactly if it is that name in lower
case. -/
theorem same_iff {name : Bytes} (hname : ∀ b ∈ name, IsPlainLetter b) (key : Bytes) :
    same name key = true ↔ key.map Bytes.asciiLower = name := by
  unfold same
  rw [beq_iff_eq]
  induction name generalizing key with
  | nil =>
    cases key with
    | nil => exact ⟨fun _ => rfl, fun _ => rfl⟩
    | cons b r =>
      refine ⟨fun h => ?_, fun h => by cases h⟩
      have hpieces : Bytes.pieces (b :: r) = [] := List.map_eq_nil_iff.mp (List.map_eq_nil_iff.mp h)
      have hspell := Bytes.flatMap_bytes_pieces (b :: r)
      rw [hpieces] at hspell
      cases hspell
  | cons x name ih =>
    have hx := hname x List.mem_cons_self
    have hletter := hx.2.1
    rw [Bytes.chars_cons_ascii (b := x) (by omega), List.map_cons, foldChar_plain hx]
    cases key with
    | nil => exact ⟨fun h => (List.cons_ne_nil _ _ h.symm).elim, fun h => by cases h⟩
    | cons b r =>
      rw [fold_cons_iff hx, List.map_cons, List.cons.injEq,
        ih fun y hy => hname y (List.mem_cons_of_mem _ hy)]

theorem find?_mem {α : Type} {names : List (Bytes × α)} {key : Bytes} {f : α}
    (h : find? names key = some f) :
    ∃ name, (name, f) ∈ names ∧ (name = key ∨ same name key = true) := by
  unfold find? at h
  split at h
  · rename_i g hlookup
    cases h
    obtain ⟨before, after, hnames, -⟩ := List.lookup_eq_some_iff.mp hlookup
    exact ⟨key, by simp [hnames], Or.inl rfl⟩
  · obtain ⟨⟨name, g⟩, hfound, hg⟩ := Option.map_eq_some_iff.mp h
    cases hg
    have hsame : same name key = true := by
      simpa only using List.find?_some hfound
    exact ⟨name, List.mem_of_find?_eq_some hfound, Or.inr hsame⟩

end FieldName

/-! ### The field of the directory -/

namespace SettingsFile

/-- A key of a settings file is that of the directory exactly if it is `dir` in some case of its
letters. -/
theorem find?_topNames_eq_dir_iff (key : Bytes) :
    FieldName.find? topNames key = some .dir ↔
      key.map Bytes.asciiLower = Bytes.ofString "dir" := by
  have hplain : ∀ b ∈ Bytes.ofString "dir", FieldName.IsPlainLetter b := by
    have hletters : Bytes.ofString "dir" = [0x64, 0x69, 0x72] := by decide
    simp [hletters, FieldName.IsPlainLetter]
  have hsame := FieldName.same_iff hplain key
  constructor
  · intro hfound
    obtain ⟨name, hmem, hname⟩ := FieldName.find?_mem hfound
    have hdir : name = Bytes.ofString "dir" := by
      simpa [topNames] using hmem
    subst hdir
    rcases hname with rfl | hname
    · decide
    · exact hsame.mp hname
  · intro hkey
    unfold FieldName.find?
    cases hlookup : topNames.lookup key with
    | some f =>
      -- no other name is `dir` in another case
      obtain ⟨before, after, hnames, -⟩ := List.lookup_eq_some_iff.mp hlookup
      have hmem : (key, f) ∈ topNames := by simp [hnames]
      have hothers : ∀ name g, (name, g) ∈ topNames →
          name.map Bytes.asciiLower = Bytes.ofString "dir" → g = .dir := by
        simp only [topNames, List.mem_cons, Prod.mk.injEq, List.not_mem_nil, or_false]
        rintro name g (⟨rfl, rfl⟩ | ⟨rfl, rfl⟩ | ⟨rfl, rfl⟩ | ⟨rfl, rfl⟩ | ⟨rfl, rfl⟩ | ⟨rfl, rfl⟩)
          hname
        · rfl
        all_goals exact absurd hname (by decide)
      rw [hothers key f hmem hkey]
    | none =>
      simp only [topNames, List.find?_cons, hsame.mpr hkey]
      rfl

/-- A key for the directory: `dir` in some case of its letters. -/
def NamesDir (key : Bytes) : Prop := key.map Bytes.asciiLower = Bytes.ofString "dir"

theorem text?_eq_some_iff {value : TomlValue} {v : Bytes} :
    text? value = some v ↔ value = .string v := by
  cases value <;> simp [text?]

/-- What one field does to the directory. -/
theorem fill_dir {s s' : Settings} {key : Bytes} {value : TomlValue}
    (h : fill s (key, value) = some s') :
    (NamesDir key ∧ value = .string s'.dir) ∨ (¬ NamesDir key ∧ s'.dir = s.dir) := by
  unfold NamesDir
  rw [← find?_topNames_eq_dir_iff]
  cases hfound : FieldName.find? topNames key with
  | none =>
    simp only [fill, hfound, Option.some.injEq] at h
    exact Or.inr ⟨nofun, by rw [h]⟩
  | some field =>
    cases field with
    | dir =>
      simp only [fill, hfound, Option.bind_eq_bind, Option.pure_def] at h
      obtain ⟨v, hv, hs⟩ := Option.bind_eq_some_iff.mp h
      cases hs
      exact Or.inl ⟨rfl, text?_eq_some_iff.mp hv⟩
    | jobs =>
      refine Or.inr ⟨nofun, ?_⟩
      cases value <;> simp only [fill, hfound, Option.some.injEq, reduceCtorEq] at h
      rw [← h]
    | pattern | skip =>
      simp only [fill, hfound, Option.bind_eq_bind, Option.pure_def] at h
      obtain ⟨v, -, hs⟩ := Option.bind_eq_some_iff.mp h
      cases hs
      exact Or.inr ⟨nofun, rfl⟩
    | branding | braces =>
      refine Or.inr ⟨nofun, ?_⟩
      cases value <;> simp only [fill, hfound, reduceCtorEq, Option.bind_eq_bind,
        Option.pure_def] at h
      obtain ⟨v, -, hs⟩ := Option.bind_eq_some_iff.mp h
      cases hs
      rfl

/-- A directory that the fields of a table assign. -/
def Assigns (fields : TomlTable) (v : Bytes) : Prop :=
  ∃ key, (key, TomlValue.string v) ∈ fields ∧ NamesDir key

/-- The directory after some fields have been filled in is one that they assign, and what it was
before if none of them names it. -/
theorem foldlM_fill_dir {fields : TomlTable} {s s' : Settings} (h : fields.foldlM fill s = some s') :
    Assigns fields s'.dir ∨ ((∀ field ∈ fields, ¬ NamesDir field.1) ∧ s'.dir = s.dir) := by
  induction fields generalizing s with
  | nil =>
    cases h
    exact Or.inr ⟨nofun, rfl⟩
  | cons field rest ih =>
    obtain ⟨key, value⟩ := field
    rw [List.foldlM_cons] at h
    obtain ⟨mid, hmid, hrest⟩ := Option.bind_eq_some_iff.mp h
    rcases ih hrest with ⟨other, hmem, hname⟩ | ⟨hnone, hkeep⟩
    · exact Or.inl ⟨other, List.mem_cons_of_mem _ hmem, hname⟩
    · rcases fill_dir hmid with ⟨hname, hvalue⟩ | ⟨hother, hsame⟩
      · refine Or.inl ⟨key, ?_, hname⟩
        rw [hkeep, ← hvalue]
        exact List.mem_cons_self
      · exact Or.inr ⟨List.forall_mem_cons.mpr ⟨hother, hnone⟩, hkeep.trans hsame⟩

end SettingsFile

/-! ### The settings of a document -/

theorem Settings.eq_of_validate {s t : Settings} (h : s.validate = .ok t) : t = s := by
  unfold Settings.validate at h
  split at h
  · cases h
  · cases h
    rfl

namespace SettingsFile

theorem settle_eq_ok {path : Bytes} {doc : TomlDocument} {s : Settings}
    (h : settle path doc = .ok s) :
    ∃ filled, ofDocument? doc = some filled ∧ s = { placeDir path doc filled with path := path } ∧
      s.validate = .ok s := by
  unfold settle at h
  split at h
  · cases h
  · rename_i filled hfilled
    split at h
    · split at h
      · rename_i valid hvalid
        cases h
        obtain rfl := Settings.eq_of_validate hvalid
        exact ⟨filled, hfilled, rfl, hvalid⟩
      · cases h
    · cases h

/-- Whether a table has the key `dir` in exactly this spelling. -/
def Spelled (fields : TomlTable) : Prop := ∃ v, (Bytes.ofString "dir", v) ∈ fields

theorem definesDir_iff (doc : TomlDocument) : definesDir doc = true ↔ Spelled doc.root := by
  unfold definesDir Spelled
  rw [← Option.ne_none_iff_isSome, ne_eq, List.lookup_eq_none_iff]
  simp only [bne_iff_ne, ne_eq, not_forall, not_not]
  constructor
  · rintro ⟨⟨key, v⟩, hmem, rfl⟩
    exact ⟨v, hmem⟩
  · rintro ⟨v, hmem⟩
    exact ⟨_, hmem, rfl⟩

/-- Where a directory that is written in the file at a path leads: to itself if it is absolute, and
else to the directory below the folder of the file. -/
def resolved (path v : Bytes) : Bytes :=
  if Path.isAbsolute v then v else Path.join [Path.parent path, v]

/-- The settings from the fields of the file at a path: they are usable and name the file, and their
directory is the standard one if no field assigns it.  Else it is one that a field assigns; if the
table has the key `dir` itself, it leads where a directory written in that file leads, and if it only
has other spellings of that key, it stays as it is written. -/
structure Placed (path : Bytes) (fields : TomlTable) (s : Settings) : Prop where
  path_eq : s.path = path
  usable : s.validate = .ok s
  standard : (∀ field ∈ fields, ¬ NamesDir field.1) → s.dir = Bytes.ofString "patches"
  assigned : (∃ field ∈ fields, NamesDir field.1) → ∃ v, Assigns fields v ∧
    (Spelled fields → s.dir = resolved path v) ∧ (¬ Spelled fields → s.dir = v) ∧
    (s.dir = resolved path v ↔
      Spelled fields ∨ Path.isAbsolute v = true ∨ Path.join [Path.parent path, v] = v)

theorem placeDir_dir (path : Bytes) (doc : TomlDocument) (s : Settings) :
    (placeDir path doc s).dir = if definesDir doc then resolved path s.dir else s.dir := by
  unfold placeDir resolved
  cases hdef : definesDir doc <;> cases habs : Path.isAbsolute s.dir <;> simp

theorem resolved_eq_self_iff (path v : Bytes) :
    v = resolved path v ↔ Path.isAbsolute v = true ∨ Path.join [Path.parent path, v] = v := by
  unfold resolved
  split_ifs with habs
  · simp [habs]
  · simp only [habs, false_or, Bool.false_eq_true]
    exact eq_comm

theorem NamesDir.dir : NamesDir (Bytes.ofString "dir") := by
  unfold NamesDir
  decide

theorem placed_of_settle {path : Bytes} {doc : TomlDocument} {s : Settings}
    (h : settle path doc = .ok s) : Placed path doc.root s := by
  obtain ⟨filled, hfilled, hs, husable⟩ := settle_eq_ok h
  have hdir : s.dir = if definesDir doc then resolved path filled.dir else filled.dir := by
    rw [hs]
    exact placeDir_dir path doc filled
  refine ⟨by rw [hs], husable, fun hnone => ?_, fun ⟨field, hmem, hname⟩ => ?_⟩
  · have hundefined : ¬ definesDir doc = true := by
      rw [definesDir_iff]
      rintro ⟨v, hmem⟩
      exact hnone _ hmem NamesDir.dir
    rw [if_neg hundefined] at hdir
    rcases foldlM_fill_dir hfilled with ⟨key, hmem, hname⟩ | ⟨-, hstandard⟩
    · exact absurd hname (hnone _ hmem)
    · rw [hdir, hstandard]
  · rcases foldlM_fill_dir hfilled with hassigns | ⟨hnone, -⟩
    · rw [← definesDir_iff]
      refine ⟨filled.dir, hassigns, fun hspelled => ?_, fun hother => ?_, ?_⟩
      · rw [hdir, if_pos hspelled]
      · rw [hdir, if_neg hother]
      · by_cases hspelled : definesDir doc = true
        · simp [hdir, hspelled]
        · rw [hdir, if_neg hspelled, resolved_eq_self_iff]
          simp [hspelled]
    · exact absurd hname (hnone _ hmem)

/-- What is said of settings does not depend on the order of the fields. -/
theorem Placed.perm {path : Bytes} {fields fields' : TomlTable} {s : Settings}
    (h : Placed path fields s) (hperm : fields.Perm fields') : Placed path fields' s where
  path_eq := h.path_eq
  usable := h.usable
  standard := by simpa only [hperm.mem_iff] using h.standard
  assigned := by simpa only [Assigns, Spelled, hperm.mem_iff] using h.assigned

end SettingsFile

open SettingsFile in
/-- The settings loaded from a path name it, are usable, and have the directory that their file
gives, whatever the order in which the fields of the file are filled in. -/
theorem loaded_settings_placed {d : Disk} {path : Bytes} {s : Settings}
    (h : d.loadSettings path = .ok s) :
    ∃ text doc, d.fileData path = .ok text ∧ TomlDocument.read? text = some doc ∧
      Placed path doc.root s ∧
      ∀ fields, fields.Perm doc.root → ∀ s', settle path ⟨fields, doc.keys⟩ = .ok s' →
        Placed path doc.root s' := by
  unfold Disk.loadSettings at h
  split at h
  · cases h
  · rename_i text htext
    unfold parse at h
    split at h
    · cases h
    · rename_i doc hdoc
      exact ⟨text, doc, htext, hdoc, placed_of_settle h, fun fields hperm s' hs' =>
        (placed_of_settle hs').perm hperm⟩

/-- A disk with just a settings file, one folder down. -/
def settingsDisk (text : Bytes) : Disk :=
  ⟨[(["sub"], .folder), (["sub", ".patchlint.toml"], .file text)], []⟩

open SettingsFile in
theorem loaded_settings_placed_below :
    let d := settingsDisk "jobs = 2\ndir = \"../p\"\n"
    let s : Settings := { dir := "p", jobs := 2, path := "sub/.patchlint.toml" }
    d.loadSettings "sub/.patchlint.toml" = .ok s ∧
      ∃ text doc, d.fileData "sub/.patchlint.toml" = .ok text ∧
        TomlDocument.read? text = some doc ∧ Placed "sub/.patchlint.toml" doc.root s ∧
        s.dir = resolved "sub/.patchlint.toml" "../p" := by
  intro d s
  have h : d.loadSettings "sub/.patchlint.toml" = .ok s := by decide +kernel
  obtain ⟨text, doc, htext, hdoc, hplaced, -⟩ := loaded_settings_placed h
  exact ⟨h, text, doc, htext, hdoc, hplaced, by decide +kernel⟩

/-- With another spelling of the key, a relative directory does not start from the folder of the
file. -/
theorem capital_dir_stays_as_written :
    SettingsFile.NamesDir "Dir" ∧
      SettingsFile.resolved "sub/.patchlint.toml" "x" = "sub/x" ∧
      (settingsDisk "dir = \"x\"\n").loadSettings "sub/.patchlint.toml" =
        .ok { dir := "sub/x", path := "sub/.patchlint.toml" } ∧
      (settingsDisk "Dir = \"x\"\n").loadSettings "sub/.patchlint.toml" =
        .ok { dir := "x", path := "sub/.patchlint.toml" } := by
  unfold SettingsFile.NamesDir
  decide +kernel

end PatchAudit
