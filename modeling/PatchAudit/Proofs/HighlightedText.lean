import Mathlib.Data.List.Forall2
import PatchAudit.Patch.Highlight
import PatchAudit.Proofs.Characters
import PatchAudit.Proofs.ClassifiedLines
import PatchAudit.Proofs.PlainPatch

/-!
# The text of highlighted lines

Cutting tokens at newlines gives lines whose texts are those of the whole text cut at its newlines
(`plain_splitTokens`).  The lines of a target are joined, lexed, cut and dealt out in their order, so
every line of a patch gets the one of its own place (`forall₂_deal`).  A lexer turns a carriage
return into a newline: without any, all lines come back as they were, and a line that holds one
never does (`highlight_is_parallel`).
-/

namespace PatchAudit

namespace Bytes

/-! ### Well-formed texts and their lines -/

theorem isUtf8_join {parts : List Bytes} :
    isUtf8 (join "\n" parts) = true ↔ ∀ part ∈ parts, isUtf8 part = true := by
  induction parts with
  | nil => simp [join, isUtf8, pieces, piecesFrom]
  | cons part rest ih =>
    cases rest with
    | nil => simp [join]
    | cons next rest =>
      have hjoin : join "\n" (part :: next :: rest) = part ++ 0x0A :: join "\n" (next :: rest) := by
        rw [join, List.intercalate_cons_cons, List.append_assoc]
        rfl
      rw [hjoin, isUtf8_append_ascii (by decide), Bool.and_eq_true, ih,
        List.forall_mem_cons (a := part)]

/-- Newlines behind joined lines give empty parts behind the lines. -/
theorem splitOn_join_fill {lines : List Bytes} (hempty : lines ≠ [])
    (hnewline : ∀ line ∈ lines, 0x0A ∉ line) (extra : Nat) :
    (join "\n" lines ++ fill extra 0x0A).splitOn 0x0A = lines ++ List.replicate extra [] := by
  induction extra with
  | zero =>
    have hjoined : join "\n" lines ++ fill 0 0x0A = join "\n" lines := List.append_nil _
    rw [hjoined, List.replicate_zero, List.append_nil]
    exact List.splitOn_intercalate 0x0A hnewline hempty
  | succ extra ih =>
    have hlast : fill (extra + 1) 0x0A = fill extra 0x0A ++ [0x0A] := List.replicate_succ'
    rw [hlast, ← List.append_assoc, List.splitOn_append_cons_self, ih, List.splitOn_nil,
      List.replicate_succ', List.append_assoc]

/-- Making the line ends plain keeps a text well-formed. -/
theorem isUtf8_plainEnds {s : Bytes} (h : isUtf8 s = true) : isUtf8 (plainEnds s) = true := by
  by_cases hmem : 0x0A ∈ s
  · obtain ⟨l, r, rfl, hl⟩ := List.eq_append_cons_of_mem hmem
    obtain ⟨m, hm, -, hplain⟩ := plainEnds_append hl r
    rw [isUtf8_append_ascii (by decide), Bool.and_eq_true] at h
    rw [hplain, isUtf8_append_ascii (by decide), Bool.and_eq_true]
    refine ⟨?_, isUtf8_plainEnds h.2⟩
    rcases hm with rfl | rfl
    · exact h.1
    · rw [isUtf8_append_ascii (by decide), Bool.and_eq_true] at h
      exact h.1.1
  · rwa [plainEnds_of_not_mem hmem]
termination_by s.length

end Bytes

namespace PatchLine

/-- The payloads of a well-formed text are well-formed and hold no newline. -/
theorem payload_of_mem_classified {doc : Document} (h : doc.text.isUtf8 = true) {l : PatchLine}
    (hl : l ∈ doc.classified) : l.payload.isUtf8 = true ∧ 0x0A ∉ l.payload := by
  obtain ⟨raw, hraw, above, hpayload⟩ := exists_sortOut_of_mem hl
  have hnewline : 0x0A ∉ raw := Bytes.not_mem_of_mem_splitOn hraw
  have hutf8 : raw.isUtf8 = true := by
    have hjoin : Bytes.join "\n" doc.lines = doc.text := List.intercalate_splitOn 0x0A
    rw [← hjoin] at h
    exact Bytes.isUtf8_join.mp h raw hraw
  rw [hpayload]
  rcases sortOut_payload above raw with hempty | hwhole | ⟨sign, hsign, hrest⟩
  · rw [hempty]
    exact ⟨rfl, by simp⟩
  · rw [hwhole]
    exact ⟨hutf8, hnewline⟩
  · rw [hrest] at hutf8 hnewline
    rw [Bytes.isUtf8_cons_ascii hsign] at hutf8
    exact ⟨hutf8, fun hmem => hnewline (List.mem_cons_of_mem _ hmem)⟩

end PatchLine

namespace Highlight

open HighlightedLine (plain)

/-! ### Plain newlines -/

theorem not_mem_plainNewlines (s : Bytes) : 0x0D ∉ plainNewlines s := by
  fun_induction plainNewlines s with
  | case1 r ih => simpa using ih
  | case2 b r hnot ih =>
    rw [List.mem_cons, not_or]
    refine ⟨?_, ih⟩
    split_ifs with hb
    · decide
    · exact Ne.symm hb
  | case3 => simp

theorem plainNewlines_of_not_mem {s : Bytes} (h : 0x0D ∉ s) : plainNewlines s = s := by
  fun_induction plainNewlines s with
  | case1 r ih => simp at h
  | case2 b r hnot ih =>
    rw [List.mem_cons, not_or] at h
    rw [ih h.2, if_neg (Ne.symm h.1)]
  | case3 => rfl

/-! ### Cutting tokens -/

theorem plain_ofText (s : Bytes) : (HighlightedLine.ofText s).plain = s := List.append_nil s

/-- The text of tokens. -/
def textOf (ts : List Token) : Bytes := ts.flatMap Token.text

theorem tokenParts_text (t : Token) : (tokenParts t).map textOf = t.text.splitOn 0x0A := by
  rw [tokenParts, List.map_map]
  refine (List.map_congr_left fun part _ => ?_).trans (List.map_id _)
  cases part with
  | nil => rfl
  | cons b part => simp [textOf]

/-- **Cut lines spell the cut text.** -/
theorem plain_splitTokens {current : List Token} (h : 0x0A ∉ textOf current) (ts : List Token) :
    (splitTokens current ts).map plain = (textOf current ++ textOf ts).splitOn 0x0A := by
  induction ts generalizing current with
  | nil =>
    have hnil : textOf current ++ textOf [] = textOf current := List.append_nil _
    rw [hnil, List.splitOn_eq_singleton h]
    rfl
  | cons t rest ih =>
    have hparts := tokenParts_text t
    rw [splitTokens]
    cases htoken : tokenParts t with
    | nil =>
      rw [htoken] at hparts
      exact absurd hparts.symm (List.splitOn_ne_nil _ _)
    | cons first more =>
      -- the lines up to the last one are done, and the last one goes on with the next token
      obtain ⟨parts, last, hlast, hsplit, happend⟩ :=
        Bytes.exists_splitOn_append 0x0A (textOf current ++ t.text)
      have hwhole : ((current ++ first) :: more).map textOf = parts ++ [last] := by
        rw [htoken] at hparts
        rw [← hsplit, Bytes.splitOn_append_of_not_mem h, ← hparts]
        simp [textOf]
      obtain ⟨done, final, heq, hdone, hfinal⟩ := List.map_eq_append_iff.mp hwhole
      obtain ⟨goes, rfl, hgoes⟩ : ∃ goes, final = [goes] ∧ textOf goes = last := by
        simpa [List.map_eq_singleton_iff] using hfinal
      have htext : textOf current ++ textOf (t :: rest) =
          (textOf current ++ t.text) ++ textOf rest := by
        simp [textOf]
      simp only [heq, List.dropLast_concat, List.map_append, List.map_map]
      rw [List.getLastD_concat, ih (by rwa [hgoes]), htext, happend, hgoes, ← hdone]
      rfl

/-! ### The lines of one file -/

/-- Lexers whose tokens spell a well-formed text with its newlines made plain, and at most one
newline more. -/
def Spelling (lexers : Lexers) : Prop :=
  ∀ name lexer, lexers name = some lexer → ∀ s : Bytes, s.isUtf8 = true →
    textOf (lexer s) = plainNewlines s ∨ textOf (lexer s) = plainNewlines s ++ [0x0A]

theorem spelling_standard : Spelling standard := by
  intro name lexer hlexer s _
  have hplain : lexer = plainLexer := by
    simp only [standard] at hlexer
    split_ifs at hlexer
    exact (Option.some.inj hlexer).symm
  rw [hplain]
  exact .inl (by simp [textOf, plainLexer])

theorem length_exactly (n : Nat) (lines : List HighlightedLine) : (exactly n lines).length = n := by
  rw [exactly, List.length_take, List.length_append, List.length_replicate]
  omega

theorem length_fileLines (lexers : Lexers) (name : Bytes) (lines : List Bytes) :
    (fileLines lexers name lines).length = lines.length := by
  unfold fileLines
  split
  · exact length_exactly _ _
  · exact List.length_map ..

theorem mem_exactly {n : Nat} {lines : List HighlightedLine} {h : HighlightedLine}
    (hmem : h ∈ exactly n lines) : h ∈ lines ∨ h = .ofText [] := by
  rcases List.mem_append.mp (List.mem_of_mem_take hmem) with hline | hfill
  · exact .inl hline
  · exact .inr (List.eq_of_mem_replicate hfill)

variable {lexers : Lexers}

/-- What a lexer has seen holds no carriage return. -/
theorem not_mem_plain_of_lexer (hlexers : Spelling lexers) {name : Bytes} {lexer : Lexer}
    (hlexer : lexers name = some lexer) {lines : List Bytes}
    (hutf8 : ∀ line ∈ lines, line.isUtf8 = true) {h : HighlightedLine}
    (hmem : h ∈ fileLines lexers name lines) : 0x0D ∉ h.plain := by
  simp only [fileLines, hlexer] at hmem
  rcases mem_exactly hmem with hline | rfl
  · have hplain := List.mem_map_of_mem (f := plain) hline
    rw [plain_splitTokens (by simp [textOf])] at hplain
    have htext : 0x0D ∉ textOf (lexer (Bytes.join "\n" lines)) := by
      rcases hlexers name lexer hlexer _ (Bytes.isUtf8_join.mpr hutf8) with heq | heq
      · rw [heq]
        exact not_mem_plainNewlines _
      · rw [heq, List.mem_append, not_or]
        exact ⟨not_mem_plainNewlines _, by decide⟩
    exact fun hcr => htext ((Bytes.infix_of_mem_splitOn hplain).subset hcr)
  · decide

/-- Tokens that spell joined lines are cut where the lines were joined. -/
theorem plain_splitTokens_join {lines : List Bytes} (hempty : lines ≠ [])
    (hnewline : ∀ line ∈ lines, 0x0A ∉ line) {ts : List Token} (extra : Nat)
    (htext : textOf ts = Bytes.join "\n" lines ++ Bytes.fill extra 0x0A) :
    (splitTokens [] ts).map plain = lines ++ List.replicate extra [] := by
  have hstart : textOf [] ++ textOf ts = textOf ts := rfl
  rw [plain_splitTokens (by simp [textOf]), hstart, htext]
  exact Bytes.splitOn_join_fill hempty hnewline extra

/-- Joined lines without a carriage return are cut where they were joined. -/
theorem exists_plain_lexed (hlexers : Spelling lexers) {name : Bytes} {lexer : Lexer}
    (hlexer : lexers name = some lexer) {lines : List Bytes} (hempty : lines ≠ [])
    (hutf8 : ∀ line ∈ lines, line.isUtf8 = true) (hnewline : ∀ line ∈ lines, 0x0A ∉ line)
    (hreturn : ∀ line ∈ lines, 0x0D ∉ line) :
    ∃ more, (splitTokens [] (lexer (Bytes.join "\n" lines))).map plain = lines ++ more := by
  have hjoined : 0x0D ∉ Bytes.join "\n" lines := by
    intro hmem
    rcases Bytes.mem_join hmem with hsep | ⟨line, hline, hmem⟩
    · exact absurd hsep (by decide)
    · exact hreturn line hline hmem
  have hspelled := hlexers name lexer hlexer _ (Bytes.isUtf8_join.mpr hutf8)
  rw [plainNewlines_of_not_mem hjoined] at hspelled
  rcases hspelled with heq | heq
  · exact ⟨_, plain_splitTokens_join hempty hnewline 0 (heq.trans (List.append_nil _).symm)⟩
  · exact ⟨_, plain_splitTokens_join hempty hnewline 1 heq⟩

theorem plain_exactly {lines more : List Bytes} {shown : List HighlightedLine}
    (h : shown.map plain = lines ++ more) : (exactly lines.length shown).map plain = lines := by
  have hlength : lines.length ≤ shown.length := by
    have hcount := congrArg List.length h
    rw [List.length_map, List.length_append] at hcount
    omega
  rw [exactly, List.take_append_of_le_length hlength, List.map_take, h, List.take_left]

/-- Lines without a carriage return come back as they were. -/
theorem plain_fileLines (hlexers : Spelling lexers) (name : Bytes) {lines : List Bytes}
    (hutf8 : ∀ line ∈ lines, line.isUtf8 = true) (hnewline : ∀ line ∈ lines, 0x0A ∉ line)
    (hreturn : lexers name = none ∨ ∀ line ∈ lines, 0x0D ∉ line) :
    (fileLines lexers name lines).map plain = lines := by
  unfold fileLines
  cases hlexer : lexers name with
  | none =>
    rw [List.map_map]
    exact (List.map_congr_left fun line _ => plain_ofText line).trans (List.map_id _)
  | some lexer =>
    by_cases hempty : lines = []
    · rw [hempty]
      rfl
    have hclear := hreturn.resolve_left (by simp [hlexer])
    obtain ⟨more, hplain⟩ := exists_plain_lexed hlexers hlexer hempty hutf8 hnewline hclear
    exact plain_exactly hplain

/-! ### Dealing the lines out -/

theorem length_deal (queues : Bytes → List HighlightedLine) (lines : List (PatchLine × Bytes)) :
    (deal queues lines).length = lines.length := by
  induction lines generalizing queues with
  | nil => rfl
  | cons line rest ih =>
    obtain ⟨l, t⟩ := line
    rw [deal]
    split_ifs
    · split <;> simp [ih]
    · simp [ih]

theorem length_scan (current : Bytes) (lines : List PatchLine) :
    (Target.scan current lines).length = lines.length := by
  induction lines generalizing current with
  | nil => rfl
  | cons l rest ih => simp [Target.scan, ih]

/-- Every line of a patch gets its tokens. -/
theorem length_patchLines (lexers : Lexers) (lines : List PatchLine) :
    (patchLines lexers lines).length = lines.length := by
  simp only [patchLines, length_deal, List.length_zip, Target.ofLines, length_scan, Nat.min_self]

theorem payloadsOf_own {l : PatchLine} (h : l.isContent = true) (t : Bytes)
    (rest : List (PatchLine × Bytes)) :
    payloadsOf t ((l, t) :: rest) = l.payload :: payloadsOf t rest := by
  simp [payloadsOf, h]

theorem payloadsOf_other {l : PatchLine} {t u : Bytes} (h : ¬ (l.isContent = true ∧ t = u))
    (rest : List (PatchLine × Bytes)) : payloadsOf u ((l, t) :: rest) = payloadsOf u rest := by
  simp [payloadsOf, h]

/-- **Every content line gets the line of its own place.** -/
theorem forall₂_deal {R : Bytes → Bytes → HighlightedLine → Prop}
    {queues : Bytes → List HighlightedLine} {lines : List (PatchLine × Bytes)}
    (h : ∀ t, List.Forall₂ (R t) (payloadsOf t lines) (queues t)) :
    List.Forall₂ (fun p shown =>
        if p.1.isContent then R p.2 p.1.payload shown else shown = .ofText p.1.raw)
      lines (deal queues lines) := by
  induction lines generalizing queues with
  | nil => exact .nil
  | cons line rest ih =>
    obtain ⟨l, t⟩ := line
    rw [deal]
    by_cases hcontent : l.isContent = true
    · have hfirst := h t
      rw [payloadsOf_own hcontent] at hfirst
      rw [if_pos hcontent]
      cases hqueue : queues t with
      | nil =>
        rw [hqueue] at hfirst
        cases hfirst
      | cons shown more =>
        rw [hqueue] at hfirst
        obtain ⟨hshown, hmore⟩ := List.forall₂_cons.mp hfirst
        refine .cons (by simpa [hcontent] using hshown) (ih fun u => ?_)
        by_cases hu : u = t
        · rw [hu, if_pos rfl]
          exact hmore
        · rw [if_neg hu, ← payloadsOf_other fun hboth => hu hboth.2.symm]
          exact h u
    · rw [if_neg hcontent]
      refine .cons (by simp [hcontent]) (ih fun u => ?_)
      rw [← payloadsOf_other fun hboth => hcontent hboth.1]
      exact h u

theorem mem_payloadsOf {t payload : Bytes} {lines : List (PatchLine × Bytes)} :
    payload ∈ payloadsOf t lines ↔
      ∃ l, (l, t) ∈ lines ∧ l.isContent = true ∧ l.payload = payload := by
  simp only [payloadsOf, List.mem_map, List.mem_filter, Bool.and_eq_true, beq_iff_eq]
  constructor
  · rintro ⟨⟨l, u⟩, ⟨hmem, hcontent, rfl⟩, hpayload⟩
    exact ⟨l, hmem, hcontent, hpayload⟩
  · rintro ⟨l, hmem, hcontent, hpayload⟩
    exact ⟨(l, t), ⟨hmem, hcontent, rfl⟩, hpayload⟩

/-- The queue of a target: its payloads, highlighted as one file. -/
theorem queue_eq {highlight : Bytes → List Bytes → List HighlightedLine}
    (hnil : ∀ t, highlight t [] = []) (aimed : List (PatchLine × Bytes)) (t : Bytes) :
    (((contentTargets aimed).map fun t => (t, highlight t (payloadsOf t aimed))).lookup t).getD [] =
      highlight t (payloadsOf t aimed) := by
  by_cases ht : t ∈ contentTargets aimed
  · rw [List.lookup_graph _ ht]
    rfl
  · have hnone : payloadsOf t aimed = [] := by
      rw [List.eq_nil_iff_forall_not_mem]
      intro payload hpayload
      obtain ⟨l, hmem, hcontent, -⟩ := mem_payloadsOf.mp hpayload
      refine ht (List.mem_eraseDups.mpr (List.mem_map.mpr ⟨(l, t), ?_, rfl⟩))
      exact List.mem_filter.mpr ⟨hmem, hcontent⟩
    have hlookup : ((contentTargets aimed).map fun t =>
        (t, highlight t (payloadsOf t aimed))).lookup t = none := by
      rw [List.lookup_eq_none_iff]
      rintro p hp
      obtain ⟨u, hu, rfl⟩ := List.mem_map.mp hp
      simp only [bne_iff_ne]
      rintro rfl
      exact ht hu
    rw [hlookup, hnone, hnil]
    rfl

/-- What is known of the line shown for a payload: it is the payload if no carriage return is in the
way, and never holds one if it was lexed. -/
structure Rendered (lexers : Lexers) (aimed : List (PatchLine × Bytes)) (t payload : Bytes)
    (h : HighlightedLine) : Prop where
  same : lexers t = none ∨ (∀ p ∈ payloadsOf t aimed, 0x0D ∉ p) → h.plain = payload
  clear : (lexers t).isSome = true → 0x0D ∉ h.plain

theorem rendered_fileLines (hlexers : Spelling lexers) {aimed : List (PatchLine × Bytes)}
    (t : Bytes) (hutf8 : ∀ p ∈ payloadsOf t aimed, p.isUtf8 = true)
    (hnewline : ∀ p ∈ payloadsOf t aimed, 0x0A ∉ p) :
    List.Forall₂ (Rendered lexers aimed t) (payloadsOf t aimed)
      (fileLines lexers t (payloadsOf t aimed)) := by
  rw [List.forall₂_iff_zip]
  refine ⟨(length_fileLines lexers t _).symm, fun {payload h} hmem => ⟨fun hgood => ?_, ?_⟩⟩
  · have hall := plain_fileLines hlexers t hutf8 hnewline hgood
    have hsame : List.Forall₂ (fun payload (h : HighlightedLine) => payload = h.plain)
        (payloadsOf t aimed) (fileLines lexers t (payloadsOf t aimed)) := by
      rw [← List.forall₂_map_right_iff, hall]
      exact List.forall₂_refl _
    exact ((List.forall₂_iff_zip.mp hsame).2 hmem).symm
  · intro hlexer
    obtain ⟨lexer, hsome⟩ := Option.isSome_iff_exists.mp hlexer
    exact not_mem_plain_of_lexer hlexers hsome hutf8 (List.of_mem_zip hmem).2

/-- Every line of a patch is shown as a line of its file, or as it stands. -/
theorem rendered_patchLines (hlexers : Spelling lexers) {doc : Document}
    (hdoc : doc.text.isUtf8 = true) :
    List.Forall₂ (fun p h =>
        if p.1.isContent then
          Rendered lexers (doc.classified.zip (Target.ofLines doc.classified)) p.2 p.1.payload h
        else h = .ofText p.1.raw)
      (doc.classified.zip (Target.ofLines doc.classified)) (patchLines lexers doc.classified) := by
  refine forall₂_deal fun t => ?_
  have hpayload : ∀ p ∈ payloadsOf t (doc.classified.zip (Target.ofLines doc.classified)),
      p.isUtf8 = true ∧ 0x0A ∉ p := by
    intro p hp
    obtain ⟨l, hmem, -, rfl⟩ := mem_payloadsOf.mp hp
    exact PatchLine.payload_of_mem_classified hdoc (List.of_mem_zip hmem).1
  have hnil : ∀ u, fileLines lexers u [] = [] := fun u =>
    List.length_eq_zero_iff.mp (length_fileLines lexers u [])
  rw [queue_eq hnil]
  exact rendered_fileLines hlexers t (fun p hp => (hpayload p hp).1) fun p hp => (hpayload p hp).2

end Highlight

open Highlight in
/-- **Highlighting is parallel to the patch** as far as carriage returns let it.  Every line gets one
entry; those that are no content show their raw text, and those of a target without a lexer, or
without a carriage return in its payloads, show their payload.  So every entry is right exactly if no
payload that is lexed holds a carriage return. -/
theorem highlight_is_parallel {lexers : Lexers} (hlexers : Spelling lexers) (path : Bytes)
    {text : Bytes} (htext : text.isUtf8 = true) :
    let lines := (Document.ofText path text).classified
    let aimed := lines.zip (Target.ofLines lines)
    let shown := patchLines lexers lines
    shown.length = lines.length ∧
      List.Forall₂ (fun p h =>
          if p.1.isContent then
            lexers p.2 = none ∨ (∀ payload ∈ payloadsOf p.2 aimed, 0x0D ∉ payload) →
              h.plain = p.1.payload
          else h.plain = p.1.raw) aimed shown ∧
      (shown.map HighlightedLine.plain = lines.map (fun l => if l.isContent then l.payload else l.raw) ↔
        ∀ p ∈ aimed, p.1.isContent = true → (lexers p.2).isSome = true → 0x0D ∉ p.1.payload) := by
  intro lines aimed shown
  have hdoc : (Document.ofText path text).text.isUtf8 = true := Bytes.isUtf8_plainEnds htext
  have hall := rendered_patchLines hlexers hdoc
  refine ⟨length_patchLines lexers lines, ?_, ?_⟩
  · refine hall.imp fun p h hp => ?_
    split_ifs at hp ⊢ with hcontent
    · exact hp.same
    · rw [hp, plain_ofText]
  · have hlines : aimed.map Prod.fst = lines :=
      List.map_fst_zip (by rw [Target.ofLines, length_scan])
    obtain ⟨hlength, hzip⟩ := List.forall₂_iff_zip.mp hall
    rw [← hlines, List.map_map, eq_comm, ← List.forall₂_eq_eq_eq, List.forall₂_map_left_iff,
      List.forall₂_map_right_iff, List.forall₂_iff_zip]
    constructor
    · rintro ⟨-, hequal⟩ p hp hcontent hlexer
      have hfst : aimed = (aimed.zip shown).map Prod.fst := (List.map_fst_zip hlength.le).symm
      rw [hfst] at hp
      obtain ⟨⟨p, h⟩, hmem, rfl⟩ := List.mem_map.mp hp
      have hrendered := hzip hmem
      have hpayload := hequal hmem
      simp only [Function.comp_apply, if_pos hcontent] at hrendered hpayload
      rw [hpayload]
      exact hrendered.clear hlexer
    · intro hclear
      refine ⟨hlength, fun {p h} hmem => ?_⟩
      have hrendered := hzip hmem
      simp only [Function.comp_apply]
      split_ifs at hrendered ⊢ with hcontent
      · refine (hrendered.same ?_).symm
        -- every payload of the target is one of a content line with the same lexer
        cases hlexer : lexers p.2 with
        | none => exact .inl rfl
        | some lexer =>
          refine .inr fun payload hpayload => ?_
          obtain ⟨l, hl, hcontent', rfl⟩ := mem_payloadsOf.mp hpayload
          exact hclear (l, p.2) hl hcontent' (by simp [hlexer])
      · rw [hrendered, plain_ofText]

open Highlight in
/-- The carriage return of a line end is gone before the lexer sees it. -/
theorem highlight_is_parallel_line_end :
    (standard "a.go").isSome = true ∧
      (patchLines standard
          (Document.ofText "a.patch" "+++ b/a.go\n@@\n+a\r\n b").classified).map
        HighlightedLine.plain = ["+++ b/a.go", "@@", "a", "b"] := by
  have hlexer : (standard "a.go").isSome = true := by decide
  have htext : Bytes.isUtf8 "+++ b/a.go\n@@\n+a\r\n b" = true := by decide
  have hparallel := (highlight_is_parallel spelling_standard "a.patch" htext).2.2.mpr (by decide)
  exact ⟨hlexer, hparallel.trans (by decide)⟩

open Highlight in
/-- A carriage return inside a line cuts it in two, and the lines after it show the one before. -/
theorem highlight_shifts_after_return :
    let lines := (Document.ofText "a.patch" "+++ b/a.go\n@@\n+a\rb\n+c").classified
    Bytes.isUtf8 "+++ b/a.go\n@@\n+a\rb\n+c" = true ∧ Spelling standard ∧
      lines.map (fun l => if l.isContent then l.payload else l.raw) =
        ["+++ b/a.go", "@@", "a\rb", "c"] ∧
      (patchLines standard lines).map HighlightedLine.plain = ["+++ b/a.go", "@@", "a", "b"] := by
  refine ⟨by decide, spelling_standard, by decide, by decide⟩

end PatchAudit
