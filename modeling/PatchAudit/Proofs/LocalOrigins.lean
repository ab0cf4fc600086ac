import Mathlib.Data.Bool.AllAny
import Mathlib.Data.List.TakeDrop
import Mathlib.Data.List.TakeWhile
import PatchAudit.Proofs.Text
import PatchAudit.Service.Origin

/-!
# Who is let in

An address with an authority has one reading: its scheme ends at the first colon, its authority at the
first `/`, `?` or `#` (`Address.Parts.Cut`).  Reading it comes down to reading the authority
(`hostOfAuthority?_of_host?`), and there a host is what stands behind the last `@` with neither port
nor brackets (`names_of_hostOfAuthority?`).  So an origin is let in only if exactly there one of the
three names of the local machine is written, and the plain spellings of them are all let in
(`local_names_alone_are_let_in`).
-/

namespace PatchAudit

theorem Bytes.forall_byte {p : UInt8 → Prop} (h : ∀ n < 256, p (UInt8.ofNat n)) (b : UInt8) : p b := by
  have hb := h b.toNat b.toNat_lt
  rwa [UInt8.ofNat_toNat] at hb

namespace Address

/-! ### Cutting at a byte -/

theorem cutAt_append {b : UInt8} {x : Bytes} (h : b ∉ x) (y : Bytes) :
    cutAt b (x ++ y) = (x ++ (cutAt b y).1, (cutAt b y).2) := by
  have hall : ∀ c ∈ x, (c != b) = true := fun c hc => bne_iff_ne.mpr (ne_of_mem_of_not_mem hc h)
  rw [cutAt, List.takeWhile_append_of_pos hall, List.dropWhile_append_of_pos hall, cutAt]

/-- The part in front of the cut has no such byte, and what follows it is nothing or begins with it. -/
theorem exists_of_cutAt (b : UInt8) (s : Bytes) : ∃ tail, s = (cutAt b s).1 ++ tail ∧
    b ∉ (cutAt b s).1 ∧ ∀ c ∈ tail.head?, c = b := by
  refine ⟨s.dropWhile (· != b), List.takeWhile_append_dropWhile.symm, ?_, ?_⟩
  · intro hmem
    simpa using List.mem_takeWhile_imp hmem
  · intro c hc
    have hstop := List.head?_dropWhile_not (· != b) s
    rw [Option.mem_def.mp hc] at hstop
    simpa using hstop

theorem cutAtLast_of_not_mem {b : UInt8} {s : Bytes} (h : b ∉ s) : cutAtLast b s = (none, s) := by
  rw [cutAtLast, if_neg (by simpa using h)]

theorem cutAtLast_append {b : UInt8} (x : Bytes) {y : Bytes} (h : b ∉ y) :
    cutAtLast b (x ++ b :: y) = (some x, y) := by
  have hall : ∀ c ∈ y.reverse, (c != b) = true := fun c hc =>
    bne_iff_ne.mpr (ne_of_mem_of_not_mem (List.mem_reverse.mp hc) h)
  have hreverse : (x ++ b :: y).reverse = y.reverse ++ b :: x.reverse := by simp
  rw [cutAtLast, if_pos (by simp), hreverse, List.dropWhile_append_of_pos hall,
    List.takeWhile_append_of_pos hall]
  simp

/-- There is no such byte, or the cut is at the last one. -/
theorem cutAtLast_cases (b : UInt8) (s : Bytes) : (b ∉ s ∧ cutAtLast b s = (none, s)) ∨
    ∃ x y, s = x ++ b :: y ∧ b ∉ y ∧ cutAtLast b s = (some x, y) := by
  by_cases hmem : b ∈ s
  · obtain ⟨y, x, hs, hy⟩ := List.eq_append_cons_of_mem (List.mem_reverse.mpr hmem)
    have hsplit : s = x.reverse ++ b :: y.reverse := by
      rw [← List.reverse_reverse s, hs]
      simp
    have hnot : b ∉ y.reverse := fun h => hy (List.mem_reverse.mp h)
    exact .inr ⟨x.reverse, y.reverse, hsplit, hnot, by rw [hsplit, cutAtLast_append _ hnot]⟩
  · exact .inl ⟨hmem, cutAtLast_of_not_mem hmem⟩

/-! ### Schemes -/

/-- Whether a text may stand in front of the colon that begins an address. -/
def isScheme : Bytes → Bool
  | [] => false
  | b :: r => Percent.isLetter b && r.all isSchemeByte

/-- A byte that no address may hold in front of its part. -/
def isControl (b : UInt8) : Bool := b < 0x20 || b == 0x7F

theorem plain_of_isSchemeByte (b : UInt8) : isSchemeByte b = true →
    isControl b = false ∧ b ≠ 0x2F ∧ b ≠ 0x3A ∧ b ≠ 0x3F ∧ b ≠ 0x23 :=
  Bytes.forall_byte (p := fun b => isSchemeByte b = true →
    isControl b = false ∧ b ≠ 0x2F ∧ b ≠ 0x3A ∧ b ≠ 0x3F ∧ b ≠ 0x23) (by decide +kernel) b

theorem all_of_isScheme {s : Bytes} (h : isScheme s = true) : ∀ b ∈ s, isSchemeByte b = true := by
  cases s with
  | nil => cases h
  | cons b r =>
    obtain ⟨hletter, hrest⟩ := Bool.and_eq_true_iff.mp h
    refine List.forall_mem_cons.mpr ⟨?_, List.all_eq_true.mp hrest⟩
    rw [isSchemeByte, hletter, Bool.true_or, Bool.true_or]

theorem splitScheme_of_isScheme {s : Bytes} (h : isScheme s = true) (rest : Bytes) :
    splitScheme (s ++ 0x3A :: rest) = some (s, rest) := by
  have hall := all_of_isScheme h
  have hcolon : isSchemeByte 0x3A = false := by decide
  cases s with
  | nil => cases h
  | cons b r =>
    have hletter := (Bool.and_eq_true_iff.mp h).1
    rw [splitScheme, List.span_eq_takeWhile_dropWhile, List.takeWhile_append_of_pos hall,
      List.dropWhile_append_of_pos hall, List.takeWhile_cons_of_neg (by simp [hcolon]),
      List.dropWhile_cons_of_neg (by simp [hcolon]), List.append_nil]
    simp only [hletter, if_true]

theorem splitScheme_slash (rest : Bytes) : splitScheme (0x2F :: rest) = some ([], 0x2F :: rest) := by
  have hslash : ¬ isSchemeByte 0x2F = true := by decide
  rw [splitScheme, List.span_eq_takeWhile_dropWhile, List.takeWhile_cons_of_neg hslash,
    List.dropWhile_cons_of_neg hslash]
  rfl

theorem splitScheme_cases {s front rest : Bytes} (h : splitScheme s = some (front, rest)) :
    (front = [] ∧ rest = s) ∨ (isScheme front = true ∧ s = front ++ 0x3A :: rest) := by
  have hsplit := List.takeWhile_append_dropWhile (p := isSchemeByte) (l := s)
  have hall : ∀ b ∈ s.takeWhile isSchemeByte, isSchemeByte b = true := fun b hb =>
    List.mem_takeWhile_imp hb
  rw [splitScheme, List.span_eq_takeWhile_dropWhile] at h
  generalize s.takeWhile isSchemeByte = x at hsplit hall h
  generalize s.dropWhile isSchemeByte = y at hsplit h
  simp only at h
  split at h
  · cases h
  · rename_i b r rest
    split_ifs at h with hletter
    · cases h
      refine .inr ⟨?_, hsplit.symm⟩
      rw [isScheme, hletter, Bool.true_and]
      exact List.all_eq_true.mpr fun c hc => hall c (List.mem_cons_of_mem _ hc)
    · cases h
      exact .inl ⟨rfl, rfl⟩
  · cases h
    exact .inl ⟨rfl, rfl⟩

/-! ### Addresses with an authority -/

/-- The bytes that end an authority: a slash, a question mark and a number sign. -/
def authorityEnds : Bytes := [0x2F, 0x3F, 0x23]

/-- An address in which an authority is written. -/
structure Parts where
  scheme : Option Bytes
  authority : Bytes
  /-- What follows the authority, with the byte that ends it. -/
  rest : Bytes

namespace Parts

/-- What stands in front of the two slashes. -/
def front (p : Parts) : Bytes :=
  match p.scheme with
  | none => []
  | some s => s ++ [0x3A]

/-- The address as it is written. -/
def bytes (p : Parts) : Bytes := p.front ++ 0x2F :: 0x2F :: (p.authority ++ p.rest)

/-- The parts are cut where a reader cuts them. -/
structure Cut (p : Parts) : Prop where
  scheme : ∀ s, p.scheme = some s → isScheme s = true
  authority : ∀ b ∈ p.authority, b ∉ authorityEnds
  rest : ∀ b ∈ p.rest.head?, b ∈ authorityEnds

/-- What follows the authority up to a query or a part. -/
def path (p : Parts) : Bytes := (cutAt 0x3F (cutAt 0x23 p.rest).1).1

variable {p : Parts}

theorem Cut.not_mem_authority (hp : p.Cut) {b : UInt8} (hb : b ∈ authorityEnds) : b ∉ p.authority :=
  fun h => hp.authority b h hb

theorem Cut.plain_front (hp : p.Cut) : ∀ b ∈ p.front, isControl b = false ∧ b ≠ 0x3F ∧ b ≠ 0x23 := by
  intro b hb
  unfold front at hb
  split at hb
  · cases hb
  · rename_i s hs
    rcases List.mem_append.mp hb with hb | hb
    · obtain ⟨hcontrol, -, -, hquery, hpart⟩ :=
        plain_of_isSchemeByte b (all_of_isScheme (hp.scheme s hs) b hb)
      exact ⟨hcontrol, hquery, hpart⟩
    · obtain rfl := List.mem_singleton.mp hb
      decide

theorem head?_append_of_mem {x y : Bytes} {b : UInt8} (h : b ∈ x.head?) : b ∈ (x ++ y).head? := by
  cases x with
  | nil => cases h
  | cons c x => exact h

/-- A path is empty or begins with a slash. -/
theorem Cut.head?_path (hp : p.Cut) : ∀ b ∈ p.path.head?, b = 0x2F := by
  intro b hb
  obtain ⟨tail, hrest, hpart, -⟩ := exists_of_cutAt 0x23 p.rest
  obtain ⟨tail', hplace, hquery, -⟩ := exists_of_cutAt 0x3F (cutAt 0x23 p.rest).1
  have hplacehead : b ∈ ((cutAt 0x23 p.rest).1).head? := by
    rw [hplace]
    exact head?_append_of_mem hb
  have hend : b ∈ authorityEnds := by
    refine hp.rest b ?_
    rw [hrest]
    exact head?_append_of_mem hplacehead
  have hnotquery : b ≠ 0x3F := by
    rintro rfl
    exact hquery (List.mem_of_mem_head? hb)
  have hnotpart : b ≠ 0x23 := by
    rintro rfl
    exact hpart (List.mem_of_mem_head? hplacehead)
  simpa [authorityEnds, hnotquery, hnotpart] using hend

end Parts

end Address

namespace Origin

open Address

/-! ### Reading an address -/

theorem hostOfRest?_authority (hasScheme : Bool) {authority path : Bytes} (hslash : 0x2F ∉ authority)
    (hne : authority ≠ []) (hpath : ∀ b ∈ path.head?, b = 0x2F) :
    hostOfRest? hasScheme (0x2F :: 0x2F :: (authority ++ path)) =
      if Percent.isWellFormed path then hostOfAuthority? authority else none := by
  have hall : ∀ c ∈ authority, (c != 0x2F) = true := fun c hc =>
    bne_iff_ne.mpr (ne_of_mem_of_not_mem hc hslash)
  have hhead : ((authority ++ path).head? == some 0x2F) = false := by
    cases authority with
    | nil => exact absurd rfl hne
    | cons c authority => simpa using hall c List.mem_cons_self
  have hspan : (authority ++ path).span (· != 0x2F) = (authority, path) := by
    rw [List.span_eq_takeWhile_dropWhile, List.takeWhile_append_of_pos hall,
      List.dropWhile_append_of_pos hall]
    cases path with
    | nil => simp
    | cons c path =>
      obtain rfl : c = 0x2F := hpath c rfl
      simp
  unfold hostOfRest?
  simp only [hhead, hspan, Bool.and_false, Bool.false_eq_true, if_false]

/-- Without an authority there is no host. -/
theorem hostOfRest?_nil (hasScheme : Bool) {path host : Bytes} (hpath : ∀ b ∈ path.head?, b = 0x2F)
    (h : hostOfRest? hasScheme (0x2F :: 0x2F :: path) = some host) : host = [] := by
  have hspan : path.span (· != 0x2F) = ([], path) := by
    rw [List.span_eq_takeWhile_dropWhile]
    cases path with
    | nil => rfl
    | cons c path =>
      obtain rfl : c = 0x2F := hpath c rfl
      simp
  have hnone : hostOfAuthority? [] = some [] := rfl
  unfold hostOfRest? at h
  simp only [hspan, hnone] at h
  split_ifs at h <;> cases h <;> rfl

/-- An address is read as one with its authority where it is cut. -/
theorem host?_bytes {p : Parts} (hp : p.Cut) :
    host? p.bytes =
      if (p.authority ++ (cutAt 0x23 p.rest).1).any isControl ||
          !Percent.isWellFormed (cutAt 0x23 p.rest).2 then none
      else hostOfRest? p.scheme.isSome (0x2F :: 0x2F :: (p.authority ++ p.path)) := by
  have hfront := hp.plain_front
  have hpart : (0x23 : UInt8) ∉ p.front ++ 0x2F :: 0x2F :: p.authority := by
    have h := hp.not_mem_authority (b := 0x23) (by decide)
    simpa [h] using fun hmem => (hfront _ hmem).2.2 rfl
  have hquery : (0x3F : UInt8) ∉ 0x2F :: 0x2F :: p.authority := by
    have h := hp.not_mem_authority (b := 0x3F) (by decide)
    simpa using h
  have hcut : cutAt 0x23 p.bytes = (p.front ++ 0x2F :: 0x2F :: (p.authority ++ (cutAt 0x23 p.rest).1),
      (cutAt 0x23 p.rest).2) := by
    rw [Parts.bytes, ← List.cons_append, ← List.cons_append, ← List.append_assoc, cutAt_append hpart]
    simp
  have hany : (p.front ++ 0x2F :: 0x2F :: (p.authority ++ (cutAt 0x23 p.rest).1)).any isControl =
      (p.authority ++ (cutAt 0x23 p.rest).1).any isControl := by
    have hnone : p.front.any isControl = false :=
      List.any_eq_false.mpr fun b hb => by simp [(hfront b hb).1]
    have hslash : isControl 0x2F = false := by decide
    rw [List.any_append, hnone, List.any_cons, List.any_cons, hslash]
    rfl
  have hscheme : splitScheme (p.front ++ 0x2F :: 0x2F :: (p.authority ++ (cutAt 0x23 p.rest).1)) =
      some (p.scheme.getD [], 0x2F :: 0x2F :: (p.authority ++ (cutAt 0x23 p.rest).1)) := by
    unfold Parts.front
    cases hs : p.scheme with
    | none => exact splitScheme_slash _
    | some s =>
      simp only [List.append_assoc, List.singleton_append]
      exact splitScheme_of_isScheme (hp.scheme s hs) _
  have hsome : (!(p.scheme.getD []).isEmpty) = p.scheme.isSome := by
    cases hs : p.scheme with
    | none => rfl
    | some s =>
      have hne : s ≠ [] := by
        rintro rfl
        exact absurd (hp.scheme _ hs) (by decide)
      simpa using hne
  have hpath : (cutAt 0x3F (0x2F :: 0x2F :: (p.authority ++ (cutAt 0x23 p.rest).1))).1 =
      0x2F :: 0x2F :: (p.authority ++ p.path) := by
    rw [← List.cons_append, ← List.cons_append, cutAt_append hquery]
    rfl
  unfold host?
  simp only [hcut, hscheme, hsome, hpath]
  rw [← hany]
  rfl

theorem hostOfAuthority?_of_host? {p : Parts} (hp : p.Cut) {host : Bytes}
    (h : host? p.bytes = some host) (hne : host ≠ []) : hostOfAuthority? p.authority = some host := by
  rw [host?_bytes hp] at h
  split_ifs at h
  by_cases hempty : p.authority = []
  · rw [hempty] at h
    exact absurd (hostOfRest?_nil _ hp.head?_path h) hne
  · rw [hostOfRest?_authority _ (hp.not_mem_authority (by decide)) hempty hp.head?_path] at h
    split_ifs at h
    exact h

/-- Only an address with an authority has a host. -/
theorem exists_parts_of_host? {origin host : Bytes} (h : host? origin = some host) (hne : host ≠ []) :
    ∃ p : Parts, p.Cut ∧ p.bytes = origin := by
  obtain ⟨part, horigin, hnopart, hpart⟩ := exists_of_cutAt 0x23 origin
  unfold host? at h
  simp only at h
  generalize (cutAt 0x23 origin).1 = address at h horigin hnopart
  split_ifs at h
  cases hsplit : splitScheme address with
  | none =>
    rw [hsplit] at h
    cases h
  | some found =>
    obtain ⟨scheme, rest⟩ := found
    rw [hsplit] at h
    simp only at h
    obtain ⟨query, hrest, hnoquery, hquery⟩ := exists_of_cutAt 0x3F rest
    generalize (cutAt 0x3F rest).1 = place at h hrest hnoquery
    obtain ⟨r, rfl⟩ : ∃ r, place = 0x2F :: 0x2F :: r := by
      unfold hostOfRest? at h
      split at h
      · rename_i r
        exact ⟨r, rfl⟩
      -- without two slashes in front there is no host, or an empty one
      · split_ifs at h
        cases h
        exact absurd rfl hne
      · split_ifs at h <;> cases h <;> exact absurd rfl hne
    obtain ⟨path, hr, hnoslash, hpath⟩ := exists_of_cutAt 0x2F r
    generalize (cutAt 0x2F r).1 = authority at hr hnoslash
    have haddress : ∃ s : Option Bytes, (∀ t, s = some t → isScheme t = true) ∧
        address = (⟨s, authority, path ++ query⟩ : Parts).bytes := by
      rcases splitScheme_cases hsplit with ⟨-, hwhole⟩ | ⟨hscheme, hwhole⟩
      · exact ⟨none, nofun, by simp [Parts.bytes, Parts.front, ← hwhole, hrest, hr]⟩
      · refine ⟨some scheme, ?_, by simp [Parts.bytes, Parts.front, hwhole, hrest, hr]⟩
        rintro _ ⟨⟩
        exact hscheme
    obtain ⟨s, hscheme, haddress⟩ := haddress
    refine ⟨⟨s, authority, path ++ query ++ part⟩, ⟨hscheme, ?_, ?_⟩, ?_⟩
    · intro b hb hend
      rcases List.mem_cons.mp hend with rfl | hend
      · exact hnoslash hb
      rcases List.mem_cons.mp hend with rfl | hend
      · exact hnoquery (by simp [hr, hb])
      · obtain rfl := List.mem_singleton.mp hend
        exact hnopart (by simp [haddress, Parts.bytes, hb])
    · intro b hb
      rw [List.head?_append, List.head?_append] at hb
      simp only [Option.mem_def, Option.or_eq_some_iff] at hb
      rcases hb with (hb | ⟨-, hb⟩) | ⟨-, hb⟩
      · rw [hpath b hb]
        decide
      · rw [hquery b hb]
        decide
      · rw [hpart b hb]
        decide
    · rw [horigin, haddress]
      simp [Parts.bytes, Parts.front]

/-! ### Reading an authority -/

/-- The authorities with a host: a user may stand in front of it, brackets around it and a port
behind it, a colon and any number of digits. -/
def Names (host authority : Bytes) : Prop :=
  ∃ user place port, authority = user ++ place ++ port ∧ (user = [] ∨ ∃ u, user = u ++ [0x40]) ∧
    0x40 ∉ place ++ port ∧ isPort port = true ∧ (place = host ∨ place = 0x5B :: host ++ [0x5D])

theorem exists_of_bareHost? {s host : Bytes} (h : bareHost? s = some host) :
    ∃ place port, s = place ++ port ∧ isPort port = true ∧
      (place = host ∨ place = 0x5B :: host ++ [0x5D]) := by
  unfold bareHost? at h
  split at h
  · rename_i r
    rcases cutAtLast_cases 0x5D r with ⟨-, hcut⟩ | ⟨inner, port, hr, -, hcut⟩
    · rw [hcut] at h
      cases h
    · rw [hcut] at h
      simp only at h
      split_ifs at h with hport
      cases h
      exact ⟨0x5B :: host ++ [0x5D], port, by simp [hr], hport, .inr rfl⟩
  · rcases cutAtLast_cases 0x3A s with ⟨-, hcut⟩ | ⟨name, digits, hs, -, hcut⟩
    · rw [hcut] at h
      cases h
      exact ⟨s, [], (List.append_nil s).symm, rfl, .inl rfl⟩
    · rw [hcut] at h
      simp only at h
      split_ifs at h with hdigits
      cases h
      exact ⟨host, 0x3A :: digits, hs, by simpa [isPort] using hdigits, .inl rfl⟩

/-- A host that is read from an authority is what the authority names. -/
theorem names_of_hostOfAuthority? {authority host : Bytes}
    (h : hostOfAuthority? authority = some host) : Names host authority := by
  unfold hostOfAuthority? at h
  rcases cutAtLast_cases 0x40 authority with ⟨hnot, hcut⟩ | ⟨u, bare, hauthority, hnot, hcut⟩
  · rw [hcut] at h
    obtain ⟨place, port, hbare, hport, hplace⟩ := exists_of_bareHost? h
    exact ⟨[], place, port, hbare, .inl rfl, hbare ▸ hnot, hport, hplace⟩
  · rw [hcut] at h
    simp only at h
    split_ifs at h
    obtain ⟨place, port, hbare, hport, hplace⟩ := exists_of_bareHost? h
    refine ⟨u ++ [0x40], place, port, ?_, .inr ⟨u, rfl⟩, hbare ▸ hnot, hport, hplace⟩
    rw [hauthority, hbare]
    simp

/-- A port ends neither a user, nor brackets, nor an authority. -/
theorem plain_of_mem_port {port : Bytes} (h : isPort port = true) {b : UInt8} (hb : b ∈ port) :
    isControl b = false ∧ b ∉ authorityEnds ∧ b ≠ 0x40 ∧ b ≠ 0x5D := by
  have hdigit : b = 0x3A ∨ Bytes.isDigit b = true := by
    cases port with
    | nil => cases hb
    | cons c r =>
      obtain ⟨hc, hr⟩ := Bool.and_eq_true_iff.mp h
      rcases List.mem_cons.mp hb with rfl | hb
      · exact .inl (beq_iff_eq.mp hc)
      · exact .inr (List.all_eq_true.mp hr b hb)
  revert hdigit
  exact Bytes.forall_byte (p := fun b => b = 0x3A ∨ Bytes.isDigit b = true →
    isControl b = false ∧ b ∉ authorityEnds ∧ b ≠ 0x40 ∧ b ≠ 0x5D) (by decide +kernel) b

theorem bareHost?_plain {host port : Bytes} (hport : isPort port = true) (hcolon : 0x3A ∉ host)
    (hne : host ≠ []) (hhead : 0x5B ∉ host) : bareHost? (host ++ port) = some host := by
  have hstart : ∀ r, host ++ port ≠ 0x5B :: r := by
    intro r heq
    cases host with
    | nil => exact hne rfl
    | cons c host => exact hhead ((List.cons.inj heq).1 ▸ List.mem_cons_self)
  unfold bareHost?
  split
  · rename_i r heq
    exact absurd heq (hstart r)
  · cases port with
    | nil =>
      rw [List.append_nil, cutAtLast_of_not_mem hcolon]
    | cons c digits =>
      obtain ⟨hc, hdigits⟩ := Bool.and_eq_true_iff.mp hport
      obtain rfl := beq_iff_eq.mp hc
      have hnot : (0x3A : UInt8) ∉ digits := fun hmem =>
        absurd (List.all_eq_true.mp hdigits _ hmem) (by decide)
      rw [cutAtLast_append _ hnot]
      simp only [hdigits, if_true]

theorem bareHost?_bracketed (host : Bytes) {port : Bytes} (hport : isPort port = true) :
    bareHost? (0x5B :: host ++ 0x5D :: port) = some host := by
  have hnot : (0x5D : UInt8) ∉ port := fun hmem => (plain_of_mem_port hport hmem).2.2.2 rfl
  unfold bareHost?
  simp only [List.cons_append, cutAtLast_append host hnot, hport, if_true]

/-- The plain spellings of the local machine. -/
def localPlaces : List Bytes := ["localhost", "127.0.0.1", "[::1]"]

theorem plain_of_mem_localPlace {place port : Bytes} (hplace : place ∈ localPlaces)
    (hport : isPort port = true) :
    ∀ b ∈ place ++ port, isControl b = false ∧ b ∉ authorityEnds ∧ b ≠ 0x40 := by
  have hplaces : ∀ place ∈ localPlaces,
      (place.all fun b => isControl b = false ∧ b ∉ authorityEnds ∧ b ≠ 0x40) = true := by decide
  intro b hb
  rcases List.mem_append.mp hb with hb | hb
  · exact List.all_iff_forall_prop.mp (hplaces place hplace) b hb
  · obtain ⟨hcontrol, hend, hat, -⟩ := plain_of_mem_port hport hb
    exact ⟨hcontrol, hend, hat⟩

theorem hostOfAuthority?_localPlace {place port : Bytes} (hplace : place ∈ localPlaces)
    (hport : isPort port = true) :
    ∃ host ∈ localHosts, hostOfAuthority? (place ++ port) = some host := by
  have hat : (0x40 : UInt8) ∉ place ++ port := fun hmem =>
    (plain_of_mem_localPlace hplace hport _ hmem).2.2 rfl
  unfold hostOfAuthority?
  rw [cutAtLast_of_not_mem hat]
  rcases List.mem_cons.mp hplace with rfl | hplace
  · exact ⟨"localhost", by decide, bareHost?_plain hport (by decide) (by decide) (by decide)⟩
  rcases List.mem_cons.mp hplace with rfl | hplace
  · exact ⟨"127.0.0.1", by decide, bareHost?_plain hport (by decide) (by decide) (by decide)⟩
  · obtain rfl := List.mem_singleton.mp hplace
    refine ⟨"::1", by decide, ?_⟩
    have hbytes : (Bytes.ofString "[::1]") ++ port = 0x5B :: Bytes.ofString "::1" ++ 0x5D :: port := by
      show Bytes.ofString "[::1]" ++ port = 0x5B :: Bytes.ofString "::1" ++ ([0x5D] ++ port)
      rw [← List.append_assoc]
      rfl
    rw [hbytes]
    exact bareHost?_bracketed _ hport

/-! ### Origins -/

theorem isLocal_iff {origin : Bytes} (hne : origin ≠ []) :
    isLocal origin = true ↔ ∃ host ∈ localHosts, host? origin = some host := by
  unfold isLocal
  rw [List.isEmpty_eq_false_iff.mpr hne, Bool.false_or]
  cases host? origin with
  | none => simp
  | some host => simp

theorem ne_nil_of_mem_localHosts {host : Bytes} (h : host ∈ localHosts) : host ≠ [] := by
  have hall : ∀ host ∈ localHosts, host ≠ [] := by decide
  exact hall host h

/-- An address that is nothing but scheme and authority is read as its authority is. -/
theorem host?_scheme {scheme authority : Bytes} (hscheme : isScheme scheme = true)
    (hplain : ∀ b ∈ authority, isControl b = false ∧ b ∉ authorityEnds) (hne : authority ≠ []) :
    host? (scheme ++ "://" ++ authority) = hostOfAuthority? authority := by
  have hcut : (⟨some scheme, authority, []⟩ : Parts).Cut := by
    refine ⟨?_, fun b hb => (hplain b hb).2, nofun⟩
    rintro _ ⟨⟩
    exact hscheme
  have hbytes : scheme ++ "://" ++ authority = (⟨some scheme, authority, []⟩ : Parts).bytes := by
    have hmarks : Bytes.ofString "://" = [0x3A, 0x2F, 0x2F] := by decide
    rw [hmarks]
    simp [Parts.bytes, Parts.front]
  have hcontrol : (authority ++ (cutAt 0x23 []).1).any isControl = false := by
    show (authority ++ []).any isControl = false
    rw [List.append_nil]
    exact List.any_eq_false.mpr fun b hb => by simp [(hplain b hb).1]
  have hslash : (0x2F : UInt8) ∉ authority := hcut.not_mem_authority (by decide)
  rw [hbytes, host?_bytes hcut, hcontrol, hostOfRest?_authority _ hslash hne hcut.head?_path]
  rfl

/-- **Only local names are let in.**  A named origin that is let in is an address with an authority,
its scheme in front or not, and wherever an address is cut into scheme, authority and rest as a reader
cuts it, the authority names exactly a host of the local machine: nothing that only begins with,
ends with or contains such a name is let in, and no name in front of an `@`, in a port or behind the
authority counts.  The three plain spellings are let in with any scheme and any port. -/
theorem local_names_alone_are_let_in :
    (∀ origin, origin ≠ [] → isLocal origin = true → (∃ p : Parts, p.Cut ∧ p.bytes = origin) ∧
      ∀ p : Parts, p.Cut → p.bytes = origin → ∃ host ∈ localHosts, Names host p.authority) ∧
    ∀ scheme place port, isScheme scheme = true → place ∈ localPlaces → isPort port = true →
      isLocal (scheme ++ "://" ++ place ++ port) = true := by
  refine ⟨?_, ?_⟩
  · intro origin hne hlocal
    obtain ⟨host, hhost, hread⟩ := (isLocal_iff hne).mp hlocal
    have hnonempty := ne_nil_of_mem_localHosts hhost
    refine ⟨exists_parts_of_host? hread hnonempty, ?_⟩
    rintro p hp rfl
    exact ⟨host, hhost, names_of_hostOfAuthority? (hostOfAuthority?_of_host? hp hread hnonempty)⟩
  · intro scheme place port hscheme hplace hport
    obtain ⟨host, hhost, hread⟩ := hostOfAuthority?_localPlace hplace hport
    have hplain := plain_of_mem_localPlace hplace hport
    have hauthority : place ++ port ≠ [] := by
      have hplaces : ∀ place ∈ localPlaces, place ≠ [] := by decide
      exact fun h => hplaces place hplace (List.append_eq_nil_iff.mp h).1
    rw [List.append_assoc (scheme ++ _), isLocal_iff (List.append_ne_nil_of_right_ne_nil _ hauthority)]
    refine ⟨host, hhost, ?_⟩
    rw [host?_scheme hscheme (fun b hb => ⟨(hplain b hb).1, (hplain b hb).2.1⟩) hauthority]
    exact hread

/-- An address with a user, brackets, a port and a path, and one that has a local name in front of the
`@` only. -/
theorem local_names_alone_are_let_in_user :
    isLocal "http://me@[::1]:8080/x?y#z" = true ∧
      (∃ host ∈ localHosts, Names host "me@[::1]:8080") ∧
      isLocal "http://localhost@evil.org" = false ∧
      isScheme "https" = true ∧ isPort ":443" = true ∧ isLocal "https://[::1]:443" = true := by
  have hlocal : isLocal "http://me@[::1]:8080/x?y#z" = true := by decide +kernel
  have hcut : (⟨some "http", "me@[::1]:8080", "/x?y#z"⟩ : Parts).Cut :=
    ⟨by rintro _ ⟨⟩; decide, List.all_iff_forall_prop.mp (by decide), by rintro _ ⟨⟩; decide⟩
  have hscheme : isScheme "https" = true := by decide
  have hport : isPort ":443" = true := by decide
  refine ⟨hlocal, ?_, by decide +kernel, hscheme, hport, ?_⟩
  · exact (local_names_alone_are_let_in.1 _ (by decide) hlocal).2 _ hcut (by decide)
  · exact local_names_alone_are_let_in.2 "https" "[::1]" ":443" hscheme (by decide) hport

end Origin

end PatchAudit
