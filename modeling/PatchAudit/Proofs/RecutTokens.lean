import PatchAudit.Proofs.HighlightedText

/-!
# Tokens cut into lines again

A lexer sees the lines of a file joined, and its tokens are cut at the newlines in them, wherever the tokens
begin and end.  As many lines come out as went in, whatever the tokens are, and each is the part of their
text at its place (`getElem?_plain_withLexer`).  So tokens that spell the joined lines, with newlines behind
or not, give back the lines (`cut_tokens_show_their_lines`).
-/

namespace PatchAudit

namespace Highlight

open HighlightedLine (plain)

/-- A line is the part of the text of the tokens at its place, and nothing if there is no such part. -/
theorem getElem?_plain_withLexer (lexer : Lexer) {lines : List Bytes} {i : Nat}
    (hi : i < lines.length) :
    (withLexer lexer lines)[i]?.map plain =
      some (((textOf (lexer (Bytes.join "\n" lines))).splitOn 0x0A)[i]?.getD []) := by
  have hparts : (splitTokens [] (lexer (Bytes.join "\n" lines))).map plain =
      (textOf (lexer (Bytes.join "\n" lines))).splitOn 0x0A := plain_splitTokens (by simp [textOf]) _
  rw [← hparts, List.getElem?_map, withLexer, exactly, List.getElem?_take_of_lt hi]
  set shown := splitTokens [] (lexer (Bytes.join "\n" lines))
  rcases Nat.lt_or_ge i shown.length with hshown | hbeyond
  · rw [List.getElem?_append_left hshown, List.getElem?_eq_getElem hshown]
    rfl
  · rw [List.getElem?_append_right hbeyond, List.getElem?_replicate_of_lt (by omega),
      List.getElem?_eq_none hbeyond]
    rfl

end Highlight

open Highlight in
/-- **Cut tokens show their lines.**  A lexer may be any function, so its tokens are any list of texts: some of
them empty, some with many newlines in them or next to one.  There is one line for each line of the file, and
where the tokens spell the joined lines, with newlines behind or not, the lines read as those of the file. -/
theorem cut_tokens_show_their_lines (lexer : Lexer) (lines : List Bytes) :
    let tokens := lexer (Bytes.join "\n" lines)
    let shown := withLexer lexer lines
    shown.length = lines.length ∧
      (∀ i < lines.length, shown[i]?.map HighlightedLine.plain =
        some (((textOf tokens).splitOn 0x0A)[i]?.getD [])) ∧
      ((∀ line ∈ lines, 0x0A ∉ line) →
        ∀ extra, textOf tokens = Bytes.join "\n" lines ++ Bytes.fill extra 0x0A →
          shown.map HighlightedLine.plain = lines) := by
  intro tokens shown
  refine ⟨length_exactly _ _, fun i hi => getElem?_plain_withLexer lexer hi, ?_⟩
  intro hnewline extra htext
  by_cases hempty : lines = []
  · subst hempty
    rfl
  · exact plain_exactly (plain_splitTokens_join hempty hnewline extra htext)

open Highlight in
/-- Tokens that begin and end inside lines and at newlines, one of them empty. -/
theorem cut_tokens_show_their_lines_across :
    let lexer : Lexer := fun _ =>
      [{ text := "a" }, { text := "", colour := some "#fff" }, { text := "b\n\nc" }, { text := "\n\n" }]
    let lines : List Bytes := ["ab", "", "c"]
    (∀ line ∈ lines, 0x0A ∉ line) ∧
      textOf (lexer (Bytes.join "\n" lines)) = Bytes.join "\n" lines ++ Bytes.fill 2 0x0A ∧
      (withLexer lexer lines).map HighlightedLine.plain = lines := by
  intro lexer lines
  have hnewline : ∀ line ∈ lines, 0x0A ∉ line := by decide
  have htext : textOf (lexer (Bytes.join "\n" lines)) =
      Bytes.join "\n" lines ++ Bytes.fill 2 0x0A := by decide
  exact ⟨hnewline, htext, (cut_tokens_show_their_lines lexer lines).2.2 hnewline 2 htext⟩

end PatchAudit
