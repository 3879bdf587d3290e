import Mathlib.Data.List.DropRight
import PromptScript.Proofs.Paragraphs
import PromptScript.Proofs.Positions

/-! # Dedented texts

A dedent takes off the indentation that all lines share and the blanks at both ends, and nothing else. So it does not
matter how far a text is indented as a whole, and a text that was dedented stays as it is. -/
namespace PromptScript.Text

/-! ## Letters of lines -/

theorem letters_eq_nil_iff {text : List Char} : letters text = [] ↔ allBlank text = true := by
  simp [letters, allBlank]

theorem letters_joinWith (parts : List (List Char)) : letters (joinWith ['\n'] parts) = parts.flatMap letters := by
  have newline : letters ['\n'] = [] := rfl
  induction parts with
  | nil => rfl
  | cons part more ih =>
    cases more with
    | nil => simp [joinWith]
    | cons next more =>
      have cut : joinWith ['\n'] (part :: next :: more) = part ++ ['\n'] ++ joinWith ['\n'] (next :: more) := rfl
      rw [cut, letters_append, letters_append, newline, ih, List.append_nil]
      rfl

theorem joinWith_lines (text : List Char) : joinWith ['\n'] (lines text) = text := joinWith_splitAtChar '\n' text

theorem letters_eq_flatMap_lines (text : List Char) : letters text = (lines text).flatMap letters := by
  rw [← letters_joinWith, joinWith_lines]

/-- Some line of a text that has letters has letters. -/
theorem exists_line_of_letters {text : List Char} (some : letters text ≠ []) : ∃ line ∈ lines text, allBlank line = false := by
  by_contra none
  apply some
  rw [letters_eq_flatMap_lines, List.flatMap_eq_nil_iff]
  intro line member
  rw [letters_eq_nil_iff]
  by_contra letter
  exact none ⟨line, member, by simpa using letter⟩

/-- **A dedent keeps all letters.** -/
theorem letters_dedent (text : List Char) : letters (dedent text) = letters text := by
  have kept := Passage.letters_kept [.literal (String.ofList text)]
  have whole : Passage.characters [.literal (String.ofList text)] = text := by
    simp [Passage.characters, Segment.text]
  rw [Passage.characters_marks] at kept
  rw [← whole, ← Passage.map_fst_kept]
  refine kept.trans ?_
  simp [Passage.letters, Passage.characters, Segment.letters, Segment.text]

/-! ## Blanks at the ends -/

/-- What is left between the blanks at the ends starts with a letter. -/
theorem trim_eq_nil_or_letter (text : List Char) : trim text = [] ∨ ∃ c r, trim text = c :: r ∧ isBlank c = false := by
  cases start : trimStart text with
  | nil =>
    left
    rw [trim, start]
    rfl
  | cons c r =>
    have letter : isBlank c = false := by
      rw [trimStart_eq_dropWhile] at start
      simpa [start] using List.dropWhile_get_zero_not isBlank text (by simp [start])
    right
    refine ⟨c, trimEnd r, ?_, letter⟩
    rw [trim, start, trimEnd]
    cases trimEnd r with
    | nil => simp [letter]
    | cons _ _ => rfl

theorem trimEnd_trimEnd (text : List Char) : trimEnd (trimEnd text) = trimEnd text := by
  rw [trimEnd_eq (trimEnd text), trimEnd_eq text, List.reverse_reverse, List.dropWhile_idempotent]

theorem trim_trim (text : List Char) : trim (trim text) = trim text := by
  rcases trim_eq_nil_or_letter text with none | ⟨c, r, first, letter⟩
  · rw [none]
    rfl
  · have start : trimStart (trim text) = trim text := by simp [first, trimStart, letter]
    rw [trim, start, trim, trimEnd_trimEnd]

theorem dedent_eq_nil_iff {text : List Char} : dedent text = [] ↔ letters text = [] := by
  rw [← letters_dedent text]
  rcases trim_eq_nil_or_letter (joinWith ['\n'] ((lines text).map (List.drop (commonIndent text)))) with none | some
  · simp [dedent, none, letters]
  · obtain ⟨c, r, first, letter⟩ := some
    simp [dedent, first, letters, letter]

/-- A text that starts with a letter shares no indentation. -/
theorem commonIndent_of_letter {c : Char} (letter : isBlank c = false) (text : List Char) : commonIndent (c :: text) = 0 := by
  obtain ⟨line, more, -, cut⟩ := lines_cons c text
  have other : c ≠ '\n' := by
    rintro rfl
    cases letter
  rw [if_neg other] at cut
  have first : c :: line ∈ lines (c :: text) := by simp [cut]
  have within := blank_of_commonIndent first
  cases shared : commonIndent (c :: text) with
  | zero => rfl
  | succ n =>
    have blank := within c (by simp [shared])
    rw [letter] at blank
    cases blank

/-- **A dedented text stays as it is.** -/
theorem dedent_dedent (text : List Char) : dedent (dedent text) = dedent text := by
  have apart : trim (dedent text) = dedent text := trim_trim _
  rcases trim_eq_nil_or_letter (joinWith ['\n'] ((lines text).map (List.drop (commonIndent text)))) with none | some
  · rw [show dedent text = [] from none]
    rfl
  · obtain ⟨c, r, first, letter⟩ := some
    have whole : (lines (dedent text)).map (List.drop 0) = lines (dedent text) := List.map_id _
    have flush : commonIndent (dedent text) = 0 := by
      rw [show dedent text = c :: r from first]
      exact commonIndent_of_letter letter r
    rw [dedent, flush, whole, joinWith_lines, apart]

/-! ## Margins -/

/-- The text with a margin before each of its lines. -/
def indented (margin text : List Char) : List Char := joinWith ['\n'] ((lines text).map (margin ++ ·))

section Margin

variable {margin : List Char} (blank : allBlank margin = true)

include blank

theorem allBlank_margin (line : List Char) : allBlank (margin ++ line) = allBlank line := by
  rw [allBlank_append, blank, Bool.true_and]

theorem indentOf_margin (line : List Char) : indentOf (margin ++ line) = margin.length + indentOf line := by
  rw [indentOf, List.takeWhile_append_of_pos (List.all_eq_true.mp blank), List.length_append, indentOf]

theorem letters_indented (text : List Char) : letters (indented margin text) = letters text := by
  have line (line : List Char) : letters (margin ++ line) = letters line := by
    rw [letters_append, letters_eq_nil_iff.mpr blank, List.nil_append]
  rw [indented, letters_joinWith, List.flatMap_map, letters_eq_flatMap_lines text]
  simp only [line]

end Margin

theorem lines_indented {margin : List Char} (free : '\n' ∉ margin) (text : List Char) :
    lines (indented margin text) = (lines text).map (margin ++ ·) := by
  apply lines_joinWith
  · obtain ⟨line, more, cut⟩ := exists_lines_eq_cons text
    simp [cut]
  · intro part member
    obtain ⟨line, there, rfl⟩ := List.mem_map.mp member
    simpa using ⟨free, newline_not_mem_line there⟩

theorem min?_map_add (n : Nat) {ns : List Nat} (some : ns ≠ []) :
    (ns.map (n + ·)).min?.getD 0 = n + ns.min?.getD 0 := by
  obtain ⟨least, found⟩ := Option.ne_none_iff_exists'.mp (mt List.min?_eq_none_iff.mp some)
  obtain ⟨member, below⟩ := List.min?_eq_some_iff.mp found
  have shifted : (ns.map (n + ·)).min? = Option.some (n + least) := by
    refine List.min?_eq_some_iff.mpr ⟨List.mem_map_of_mem member, fun m there => ?_⟩
    obtain ⟨k, inside, rfl⟩ := List.mem_map.mp there
    exact Nat.add_le_add_left (below k inside) n
  rw [shifted, found]
  rfl

/-- A margin is shared by all lines, those of nothing but blanks too. -/
theorem commonIndent_indented {margin text : List Char} (blank : allBlank margin = true) (free : '\n' ∉ margin)
    (some : letters text ≠ []) : commonIndent (indented margin text) = margin.length + commonIndent text := by
  obtain ⟨line, member, letter⟩ := exists_line_of_letters some
  have counted : ((lines text).filter fun line => !allBlank line).map indentOf ≠ [] := by
    intro none
    have gone := List.filter_eq_nil_iff.mp (List.map_eq_nil_iff.mp none) line member
    simp [letter] at gone
  rw [commonIndent, lines_indented free, List.filter_map, List.map_map]
  have same : (fun line => !allBlank line) ∘ (margin ++ ·) = fun line => !allBlank line := by
    funext line
    simp [allBlank_margin blank]
  have further : indentOf ∘ (margin ++ ·) = (margin.length + ·) ∘ indentOf := by
    funext line
    simp [indentOf_margin blank]
  rw [same, further, ← List.map_map, min?_map_add margin.length counted, commonIndent]

/-- **How far a text is indented as a whole does not matter to a dedent, and a dedented text stays as it is.** -/
theorem dedent_of_indented {margin : List Char} (blank : allBlank margin = true) (free : '\n' ∉ margin) (text : List Char) :
    dedent (indented margin text) = dedent text ∧ dedent (dedent text) = dedent text := by
  refine ⟨?_, dedent_dedent text⟩
  by_cases some : letters text = []
  · rw [dedent_eq_nil_iff.mpr some, dedent_eq_nil_iff, letters_indented blank, some]
  · have cut (line : List Char) :
        (margin ++ line).drop (margin.length + commonIndent text) = line.drop (commonIndent text) := by
      rw [← List.drop_drop, List.drop_left]
    rw [dedent, commonIndent_indented blank free some, lines_indented free, List.map_map, dedent]
    congr 2
    exact List.map_congr_left fun line _ => cut line

/-- A margin of a tab before lines that are indented by different blanks, and one of nothing but blanks. -/
theorem dedent_of_tabbed :
    let text := "  one\n\t  two\n \n".toList
    allBlank ['\t'] = true ∧ '\n' ∉ ['\t'] ∧ indented ['\t'] text = "\t  one\n\t\t  two\n\t \n\t".toList ∧
      dedent text = "one\n two".toList ∧ dedent (indented ['\t'] text) = "one\n two".toList ∧
      dedent (dedent text) = "one\n two".toList := by
  intro text
  have plain : dedent text = "one\n two".toList := by decide +kernel
  have free : '\n' ∉ ['\t'] := by decide
  have blank : allBlank ['\t'] = true := rfl
  obtain ⟨same, still⟩ := dedent_of_indented blank free text
  exact ⟨blank, free, by decide +kernel, plain, same.trans plain, still.trans plain⟩

end PromptScript.Text
