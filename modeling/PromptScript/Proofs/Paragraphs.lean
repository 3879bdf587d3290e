import Mathlib.Data.List.Induction
import PromptScript.Proofs.Letters

/-! # Paragraphs and the values in them

What a text loses when it becomes a paragraph is said of each character by what stands before and behind it: the
indentation that all lines share, and the blanks at both ends. So it can be said of each piece of a passage what is kept
of it, whatever the pieces are. The paragraph is all that is kept, and it tells where the values stand in it. -/
namespace PromptScript

namespace Text

/-- The number of characters in the last line of a text. -/
def column (text : List Char) : Nat := text.foldl (fun n c => if c = '\n' then 0 else n + 1) 0

/-- Whether a character is no part of the indentation of its line, given the text before it. -/
def isPast (indent : Nat) (before : List Char) (c : Char) : Bool := c == '\n' || decide (indent ≤ column before)

/-- Whether a character is kept, given the text before and behind it: it is no part of the indentation of its line, nor
of the blanks at either end. -/
def isKept (indent : Nat) (before : List Char) (c : Char) (after : List Char) : Bool :=
  (isPast indent before c && !allBlank (before ++ [c])) && !allBlank (c :: after)

section Select

variable {α β : Type}

/-- What is kept of a part of a text, given the text before and behind it. -/
def select (char : α → Char) (keep : List Char → Char → List Char → Bool) (before : List Char) :
    List α → List Char → List α
  | [], _ => []
  | a :: part, after =>
    if keep before (char a) (part.map char ++ after) then a :: select char keep (before ++ [char a]) part after
    else select char keep (before ++ [char a]) part after

variable {char : α → Char} {keep keep' : List Char → Char → List Char → Bool} {before after : List Char}

theorem select_append (a b : List α) : select char keep before (a ++ b) after =
    select char keep before a (b.map char ++ after) ++ select char keep (before ++ a.map char) b after := by
  induction a generalizing before with
  | nil => simp [select]
  | cons c r ih =>
    simp only [List.cons_append, select, List.map_append, List.append_assoc, ih, List.map_cons]
    split <;> rfl

theorem select_map (f : β → α) (part : List β) :
    select char keep before (part.map f) after = (select (char ∘ f) keep before part after).map f := by
  induction part generalizing before with
  | nil => rfl
  | cons b r ih =>
    simp only [List.map_cons, select, List.map_map, ih, Function.comp_apply]
    split <;> rfl

theorem select_sublist (part : List α) : (select char keep before part after).Sublist part := by
  induction part generalizing before with
  | nil => exact .slnil
  | cons a r ih =>
    unfold select
    split
    · exact ih.cons_cons a
    · exact ih.cons a

/-- Two rules that agree on each character of the part keep the same. -/
theorem select_congr {part : List α} (same : ∀ pre a post, part = pre ++ a :: post →
      keep (before ++ pre.map char) (char a) (post.map char ++ after) =
        keep' (before ++ pre.map char) (char a) (post.map char ++ after)) :
    select char keep before part after = select char keep' before part after := by
  induction part generalizing before with
  | nil => rfl
  | cons a r ih =>
    have here := same [] a r rfl
    have later : select char keep (before ++ [char a]) r after = select char keep' (before ++ [char a]) r after := by
      apply ih
      intro pre b post cut
      simpa using same (a :: pre) b post (by rw [cut]; rfl)
    simp only [List.map_nil, List.append_nil] at here
    simp only [select, here, later]

/-- The rule keeps all letters of the part. -/
def KeepsLetters (char : α → Char) (keep : List Char → Char → List Char → Bool) (before : List Char) (part : List α)
    (after : List Char) : Prop :=
  ∀ pre a post, part = pre ++ a :: post → isBlank (char a) = false →
    keep (before ++ pre.map char) (char a) (post.map char ++ after) = true

theorem KeepsLetters.tail {a : α} {part : List α} (h : KeepsLetters char keep before (a :: part) after) :
    KeepsLetters char keep (before ++ [char a]) part after := by
  intro pre b post cut letter
  simpa using h (a :: pre) b post (by rw [cut]; rfl) letter

theorem KeepsLetters.init {a : α} {part : List α} (h : KeepsLetters char keep before (part ++ [a]) after) :
    KeepsLetters char keep before part (char a :: after) := by
  intro pre b post cut letter
  simpa using h pre b (post ++ [a]) (by simp [cut]) letter

theorem letters_select {part : List α} (h : KeepsLetters char keep before part after) :
    letters ((select char keep before part after).map char) = letters (part.map char) := by
  induction part generalizing before with
  | nil => rfl
  | cons a r ih =>
    have rest := ih h.tail
    unfold select
    split
    · exact letters_cons_congr (char a) rest
    · next dropped =>
      cases letter : isBlank (char a) with
      | true => rw [rest, List.map_cons, letters_cons_of_blank letter]
      | false =>
        apply absurd _ dropped
        simpa using h [] a r rfl letter

theorem allBlank_append (a b : List Char) : allBlank (a ++ b) = (allBlank a && allBlank b) := List.all_append

/-- To leave out the blanks at the start of what is kept is to keep nothing before the first letter. -/
theorem dropWhile_select {part : List α} (blank : allBlank before = true)
    (h : KeepsLetters char keep before part after) :
    (select char keep before part after).dropWhile (fun a => isBlank (char a)) =
      select char (fun before c after => keep before c after && !allBlank (before ++ [c])) before part after := by
  induction part generalizing before with
  | nil => rfl
  | cons a r ih =>
    cases letter : isBlank (char a) with
    | true =>
      have still : allBlank (before ++ [char a]) = true := by
        rw [allBlank_append, blank]
        simpa [allBlank] using letter
      have rest := ih still h.tail
      simp only [select, still, Bool.not_true, Bool.and_false, Bool.false_eq_true, if_false, ← rest]
      split
      · exact List.dropWhile_cons_of_pos letter
      · rfl
    | false =>
      have kept : keep before (char a) (r.map char ++ after) = true := by simpa using h [] a r rfl letter
      have seen : allBlank (before ++ [char a]) = false := by simp [allBlank, letter]
      -- Behind the first letter the two rules agree.
      have rest : select char keep (before ++ [char a]) r after =
          select char (fun before c after => keep before c after && !allBlank (before ++ [c])) (before ++ [char a]) r after := by
        apply select_congr
        intro pre b post _
        simp [allBlank, letter]
      simp only [select, kept, seen, Bool.not_false, Bool.and_true, if_true, ← rest]
      rw [List.dropWhile_cons_of_neg (by simp [letter])]

/-- To leave out the blanks at the end is to keep nothing behind the last letter. -/
theorem dropWhile_reverse_select {part : List α} (blank : allBlank after = true)
    (h : KeepsLetters char keep before part after) :
    ((select char keep before part after).reverse.dropWhile fun a => isBlank (char a)).reverse =
      select char (fun before c after => keep before c after && !allBlank (c :: after)) before part after := by
  induction part using List.reverseRecOn generalizing after with
  | nil => rfl
  | append_singleton r a ih =>
    cases letter : isBlank (char a) with
    | true =>
      have still : allBlank (char a :: after) = true := by
        rw [allBlank, List.all_cons, letter]
        exact blank
      have rest := ih still h.init
      simp only [select_append, List.map_cons, List.map_nil, List.singleton_append, select, still, Bool.not_true,
        Bool.and_false, Bool.false_eq_true, if_false, List.append_nil, ← rest, List.nil_append]
      split
      · rw [List.reverse_append, List.reverse_singleton, List.singleton_append]
        exact congrArg List.reverse (List.dropWhile_cons_of_pos letter)
      · rw [List.append_nil]
    | false =>
      have kept : keep (before ++ r.map char) (char a) after = true := by simpa using h r a [] rfl letter
      have rest : select char keep before r (char a :: after) =
          select char (fun before c after => keep before c after && !allBlank (c :: after)) before r (char a :: after) := by
        apply select_congr
        intro pre b post _
        simp [allBlank, letter]
      have seen : allBlank (char a :: after) = false := by simp [allBlank, letter]
      simp only [select_append, List.map_cons, List.map_nil, List.singleton_append, select, kept, seen, Bool.not_false,
        Bool.and_true, if_true, List.nil_append, ← rest, List.reverse_append, List.reverse_singleton]
      rw [List.dropWhile_cons_of_neg (by simp [letter])]
      simp

end Select

/-! ## Columns -/

theorem column_concat (before : List Char) (c : Char) :
    column (before ++ [c]) = if c = '\n' then 0 else column before + 1 := by
  simp [column, List.foldl_append]

/-- A character stands in a line of the text, behind as many characters as its column says. -/
theorem exists_line_of_mem {c : Char} (other : c ≠ '\n') (before after : List Char) :
    ∃ pre post, pre ++ c :: post ∈ lines (before ++ c :: after) ∧ pre.length = column before := by
  suffices h : ∀ before : List Char, ∃ line more, lines (before ++ c :: after) = line :: more ∧
      ((∃ post, line = before ++ c :: post ∧
          ∀ n, before.foldl (fun n c => if c = '\n' then 0 else n + 1) n = n + before.length) ∨
        ∃ pre post, pre ++ c :: post ∈ more ∧
          ∀ n, before.foldl (fun n c => if c = '\n' then 0 else n + 1) n = pre.length) by
    obtain ⟨line, more, cut, ⟨post, rfl, length⟩ | ⟨pre, post, member, length⟩⟩ := h before
    · exact ⟨before, post, by simp [cut], by simp [column, length]⟩
    · exact ⟨pre, post, by simp [cut, member], (length 0).symm⟩
  intro before
  induction before with
  | nil =>
    obtain ⟨line, more, -, cut⟩ := lines_cons c after
    rw [if_neg other] at cut
    exact ⟨c :: line, more, cut, .inl ⟨line, rfl, fun n => rfl⟩⟩
  | cons x r ih =>
    obtain ⟨line, more, cut, found⟩ := ih
    obtain ⟨line', more', cut', whole⟩ := lines_cons x (r ++ c :: after)
    obtain ⟨rfl, rfl⟩ := List.cons.inj (cut.symm.trans cut')
    by_cases newline : x = '\n'
    · rw [if_pos newline] at whole
      refine ⟨[], line :: more, whole, .inr ?_⟩
      rcases found with ⟨post, rfl, length⟩ | ⟨pre, post, member, length⟩
      · exact ⟨r, post, by simp, fun n => by simp [newline, length]⟩
      · exact ⟨pre, post, by simp [member], fun n => by simp [length]⟩
    · rw [if_neg newline] at whole
      refine ⟨x :: line, more, whole, ?_⟩
      rcases found with ⟨post, rfl, length⟩ | ⟨pre, post, member, length⟩
      · exact .inl ⟨post, rfl, fun n => by simp only [List.foldl_cons, newline, if_false, length, List.length_cons]; omega⟩
      · exact .inr ⟨pre, post, member, fun n => by simp [length]⟩

/-- No letter is part of the shared indentation. -/
theorem isPast_of_letter {c : Char} (letter : isBlank c = false) (before after : List Char) :
    isPast (commonIndent (before ++ c :: after)) before c = true := by
  have other : c ≠ '\n' := by
    rintro rfl
    cases letter
  obtain ⟨pre, post, member, length⟩ := exists_line_of_mem other before after
  have within := blank_of_commonIndent member
  have le : commonIndent (before ++ c :: after) ≤ column before := by
    by_contra less
    rw [Nat.not_le, ← length] at less
    have blank := within c (by
      rw [List.take_append, List.mem_append]
      right
      rw [show commonIndent (before ++ c :: after) - pre.length =
        commonIndent (before ++ c :: after) - pre.length - 1 + 1 by omega, List.take_succ_cons]
      exact List.mem_cons_self)
    rw [letter] at blank
    cases blank
  simp [isPast, le]

/-- No letter of a part is part of the indentation. -/
theorem keepsLetters_isPast {α : Type} (char : α → Char) (before : List Char) (part : List α) (after : List Char) :
    KeepsLetters char (fun b c _ => isPast (commonIndent (before ++ (part.map char ++ after))) b c) before part after := by
  rintro pre a post rfl letter
  simpa using isPast_of_letter letter (before ++ pre.map char) (post.map char ++ after)

/-- All letters of a part are kept. -/
theorem keepsLetters_isKept {α : Type} (char : α → Char) (before : List Char) (part : List α) (after : List Char) :
    KeepsLetters char (isKept (commonIndent (before ++ (part.map char ++ after)))) before part after := by
  intro pre a post cut letter
  have past := keepsLetters_isPast char before part after pre a post cut letter
  simp only [isKept, past, Bool.true_and]
  simp [allBlank, letter]

theorem trimEnd_eq (text : List Char) : trimEnd text = (text.reverse.dropWhile isBlank).reverse := by
  induction text with
  | nil => rfl
  | cons c r ih =>
    unfold trimEnd
    rw [ih, List.reverse_cons, List.dropWhile_append]
    cases kept : r.reverse.dropWhile isBlank with
    | nil =>
      by_cases blank : isBlank c = true <;> simp [blank]
    | cons d more => simp

end Text

namespace Passage

open Text

/-- All characters of a passage. -/
def characters (p : Passage) : List Char := p.flatMap fun s => s.text.toList

/-- The pieces of a passage with what is kept of each, given the text before them. -/
def keptFrom (indent : Nat) (before : List Char) : Passage → List (Segment × List Char)
  | [] => []
  | s :: r => (s, select id (isKept indent) before s.text.toList (characters r)) ::
      keptFrom indent (before ++ s.text.toList) r

/-- The pieces of a passage with what is kept of each. -/
def keptPieces (p : Passage) : List (Segment × List Char) := keptFrom (commonIndent p.characters) [] p

/-- The values of which something is kept, each with the variable it was read from. -/
def keptValues : List (Segment × List Char) → List (Option String × List Char)
  | [] => []
  | (.literal _, _) :: r => keptValues r
  | (.value _ identifier, kept) :: r => if kept = [] then keptValues r else (identifier, kept) :: keptValues r

/-! ## The text of a paragraph -/

theorem characters_marks (n : Nat) (p : Passage) : (marks n p).map Prod.fst = p.characters := by
  induction p generalizing n with
  | nil => rfl
  | cons s r ih =>
    have here : (s.text.toList.map (·, n)).map Prod.fst = s.text.toList := by simp [Function.comp_def]
    simp only [marks, List.map_append, here, ih]
    rfl

/-- Leaving out columns, line by line. -/
theorem dropColumns_eq_joinWith (indent : Nat) (ms : List Mark) (n : Nat) {line : List Char} {more : List (List Char)}
    (cut : lines (ms.map Prod.fst) = line :: more) : (dropColumns indent n ms).map Prod.fst =
      joinWith ['\n'] (line.drop (indent - n) :: more.map (List.drop indent)) := by
  induction ms generalizing n line more with
  | nil =>
    cases cut
    simp [dropColumns, joinWith]
  | cons m r ih =>
    obtain ⟨c, owner⟩ := m
    obtain ⟨line', more', rest, whole⟩ := lines_cons c (r.map Prod.fst)
    rw [List.map_cons, whole] at cut
    unfold dropColumns
    by_cases newline : c = '\n'
    · rw [if_pos newline] at cut ⊢
      cases cut
      simp only [List.map_cons, ih 0 rest, Nat.sub_zero, List.drop_nil, newline]
      rfl
    · rw [if_neg newline] at cut ⊢
      cases cut
      by_cases inside : n < indent
      · rw [if_pos inside, ih (n + 1) rest, show indent - n = indent - (n + 1) + 1 by omega, List.drop_succ_cons]
      · have none : indent - n = 0 := by omega
        rw [if_neg inside, List.map_cons, ih n rest, none, List.drop_zero, List.drop_zero]
        cases more <;> rfl

/-- Leaving out columns, character by character. -/
theorem dropColumns_eq_select (indent : Nat) (before after : List Char) (ms : List Mark) :
    dropColumns indent (min indent (column before)) ms =
      select Prod.fst (fun before c _ => isPast indent before c) before ms after := by
  induction ms generalizing before with
  | nil => rfl
  | cons m r ih =>
    obtain ⟨c, owner⟩ := m
    have rest := ih (before ++ [c])
    rw [column_concat] at rest
    unfold dropColumns select
    by_cases newline : c = '\n'
    · rw [if_pos newline, Nat.min_zero] at rest
      simp [newline, isPast, rest]
    · rw [if_neg newline] at rest
      by_cases inside : column before < indent
      · rw [show min indent (column before + 1) = min indent (column before) + 1 by omega] at rest
        rw [if_neg newline, if_pos (by omega), rest, if_neg (by simp [isPast, newline]; omega)]
      · rw [show min indent (column before + 1) = min indent (column before) by omega] at rest
        rw [if_neg newline, if_neg (by omega), rest, if_pos (by simp [isPast]; omega)]

/-- The characters that a paragraph is made of. -/
def kept (p : Passage) : List Mark := trimMarks (dropColumns (commonIndent p.characters) 0 (marks 0 p))

theorem kept_eq_select (p : Passage) :
    p.kept = select Prod.fst (isKept (commonIndent p.characters)) [] (marks 0 p) [] := by
  have past := keepsLetters_isPast Prod.fst [] (marks 0 p) []
  rw [characters_marks, List.append_nil, List.nil_append] at past
  have columns := dropColumns_eq_select (commonIndent p.characters) [] [] (marks 0 p)
  rw [show column [] = 0 from rfl, Nat.min_zero] at columns
  -- What is left after the first trimming still has all letters.
  have trimmed : KeepsLetters Prod.fst (fun before c _ => isPast (commonIndent p.characters) before c &&
      !allBlank (before ++ [c])) [] (marks 0 p) [] := by
    intro pre m post cut letter
    exact Bool.and_eq_true_iff.mpr ⟨past pre m post cut letter, by simp [allBlank, letter]⟩
  unfold kept trimMarks
  rw [columns]
  dsimp only
  rw [dropWhile_select rfl past, dropWhile_reverse_select rfl trimmed]
  rfl

/-- **A paragraph says what a dedent leaves of its passage.** -/
theorem map_fst_kept (p : Passage) : p.kept.map Prod.fst = dedent p.characters := by
  obtain ⟨line, more, cut⟩ := exists_lines_eq_cons p.characters
  have columns := dropColumns_eq_joinWith (commonIndent p.characters) (marks 0 p) 0 (by rw [characters_marks]; exact cut)
  unfold kept trimMarks dedent trim
  simp only [List.map_reverse, map_dropWhile_blank, columns, trimEnd_eq, trimStart_eq_dropWhile, cut, Nat.sub_zero,
    List.map_cons]

/-! ## The pieces of a paragraph -/

/-- What is kept of pieces, each character with the number of its piece, the first of which is `n`. -/
def tagged (n : Nat) : List (Segment × List Char) → List Mark
  | [] => []
  | (_, k) :: r => k.map (·, n) ++ tagged (n + 1) r

theorem select_marks (indent : Nat) (before : List Char) (n : Nat) (p : Passage) :
    select Prod.fst (isKept indent) before (marks n p) [] = tagged n (keptFrom indent before p) := by
  induction p generalizing before n with
  | nil => rfl
  | cons s r ih =>
    have here : (s.text.toList.map (·, n)).map Prod.fst = s.text.toList := by simp [Function.comp_def]
    rw [marks, select_append, select_map, here, ih, characters_marks, List.append_nil]
    rfl

theorem map_fst_tagged (n : Nat) (pieces : List (Segment × List Char)) :
    (tagged n pieces).map Prod.fst = pieces.flatMap Prod.snd := by
  induction pieces generalizing n with
  | nil => rfl
  | cons e r ih => simp [tagged, ih, Function.comp_def]

theorem le_of_mem_tagged {n : Nat} {pieces : List (Segment × List Char)} {m : Mark} (h : m ∈ tagged n pieces) : n ≤ m.2 := by
  induction pieces generalizing n with
  | nil => cases h
  | cons e r ih =>
    rcases List.mem_append.mp h with here | later
    · obtain ⟨c, -, rfl⟩ := List.mem_map.mp here
      exact Nat.le_refl n
    · exact Nat.le_of_succ_le (ih later)

/-- The place of a piece that lies between others. -/
theorem placeOf?_between {n : Nat} {before after : List Mark} (first : ∀ m ∈ before, m.2 ≠ n) (last : ∀ m ∈ after, m.2 ≠ n)
    (k : List Char) : placeOf? n (before ++ (k.map (·, n) ++ after)) =
      if k = [] then none else some (before.length, before.length + k.length) := by
  have absent : ∀ ms : List Mark, (∀ m ∈ ms, m.2 ≠ n) → ms.findIdx? (·.2 == n) = none := by
    intro ms other
    rw [List.findIdx?_eq_none_iff]
    intro m member
    simpa using other m member
  cases k with
  | nil =>
    rw [if_pos rfl]
    unfold placeOf?
    rw [absent _ (by simpa using fun c i h => h.elim (first (c, i)) (last (c, i)))]
    rfl
  | cons c r =>
    rw [if_neg (List.cons_ne_nil c r)]
    unfold placeOf?
    have reversed : (before ++ ((c :: r).map (·, n) ++ after)).reverse =
        after.reverse ++ (((c :: r).reverse.map (·, n)) ++ before.reverse) := by simp
    obtain ⟨d, s, same⟩ := List.exists_cons_of_ne_nil (show (c :: r).reverse ≠ [] by simp)
    have start : (before ++ ((c :: r).map (·, n) ++ after)).findIdx? (·.2 == n) = some before.length := by
      simp [List.findIdx?_append, absent _ first, List.findIdx?_cons]
    have stop : (before ++ ((c :: r).map (·, n) ++ after)).reverse.findIdx? (·.2 == n) = some after.length := by
      rw [reversed, same, List.findIdx?_append, absent after.reverse (by simpa using fun c i => last (c, i))]
      simp [List.findIdx?_cons]
    rw [start, stop]
    simp
    omega

/-- The places of values among pieces of which something is kept, from an offset on. -/
def placesFrom (offset : Nat) : List (Segment × List Char) → List SourceRef
  | [] => []
  | (.literal _, k) :: r => placesFrom (offset + k.length) r
  | (.value _ identifier, k) :: r =>
    if k = [] then placesFrom offset r
    else ⟨offset, offset + k.length, identifier⟩ :: placesFrom (offset + k.length) r

theorem sourcesIn_tagged (indent : Nat) (text : List Char) (before : List Mark) (n : Nat) (p : Passage)
    (first : ∀ m ∈ before, m.2 < n) :
    sourcesIn (before ++ tagged n (keptFrom indent text p)) n p = placesFrom before.length (keptFrom indent text p) := by
  induction p generalizing text before n with
  | nil => rfl
  | cons s r ih =>
    have later (m : Mark) (member : m ∈ tagged (n + 1) (keptFrom indent (text ++ s.text.toList) r)) : m.2 ≠ n :=
      Nat.ne_of_gt (le_of_mem_tagged member : n + 1 ≤ m.2)
    have place := placeOf?_between (fun m member => Nat.ne_of_lt (first m member)) later
      (select id (isKept indent) text s.text.toList (characters r))
    have rest := ih (text ++ s.text.toList)
      (before ++ (select id (isKept indent) text s.text.toList (characters r)).map (·, n)) (n + 1) (by
        intro m member
        rcases List.mem_append.mp member with member | member
        · exact Nat.lt_succ_of_lt (first m member)
        · obtain ⟨c, -, rfl⟩ := List.mem_map.mp member
          exact Nat.lt_succ_self n)
    rw [List.append_assoc, List.length_append, List.length_map] at rest
    cases s with
    | literal s => exact rest
    | value s identifier =>
      rw [keptFrom, tagged, sourcesIn, placesFrom, place]
      generalize select id (isKept indent) text (Segment.value s identifier).text.toList (characters r) = k at rest ⊢
      cases k with
      | nil => exact rest
      | cons c k => exact congrArg (⟨before.length, before.length + (c :: k).length, identifier⟩ :: ·) rest

/-! ## The places of values -/

theorem placesFrom_within {offset : Nat} {pieces : List (Segment × List Char)} {r : SourceRef}
    (member : r ∈ placesFrom offset pieces) :
    offset ≤ r.start ∧ r.start < r.stop ∧ r.stop ≤ offset + (pieces.flatMap Prod.snd).length := by
  induction pieces generalizing offset with
  | nil => cases member
  | cons e rest ih =>
    obtain ⟨s, k⟩ := e
    rw [List.flatMap_cons, List.length_append]
    have later : r ∈ placesFrom (offset + k.length) rest → offset ≤ r.start ∧ r.start < r.stop ∧
        r.stop ≤ offset + (k.length + (rest.flatMap Prod.snd).length) := by
      intro member
      obtain ⟨start, inside, stop⟩ := ih member
      omega
    cases s with
    | literal text => exact later member
    | value text identifier =>
      unfold placesFrom at member
      split at member
      · next none => exact later (by rw [none]; exact member)
      · next some =>
        rcases List.mem_cons.mp member with rfl | member
        · have := List.length_pos_iff.mpr some
          dsimp only
          omega
        · exact later member

theorem placesFrom_ordered (offset : Nat) (pieces : List (Segment × List Char)) :
    (placesFrom offset pieces).Pairwise fun a b => a.stop ≤ b.start := by
  induction pieces generalizing offset with
  | nil => exact .nil
  | cons e rest ih =>
    obtain ⟨_ | _, k⟩ := e
    · exact ih _
    · unfold placesFrom
      split
      · exact ih _
      · exact List.pairwise_cons.mpr ⟨fun r member => (placesFrom_within member).1, ih _⟩

/-- The places tell the variables of values, and what is kept of them. -/
theorem placesFrom_values (before : List Char) (pieces : List (Segment × List Char)) :
    List.Forall₂ (fun (r : SourceRef) v => r.identifier = v.1 ∧
        ((before ++ pieces.flatMap Prod.snd).take r.stop).drop r.start = v.2)
      (placesFrom before.length pieces) (keptValues pieces) := by
  induction pieces generalizing before with
  | nil => exact .nil
  | cons e rest ih =>
    obtain ⟨s, k⟩ := e
    have later := ih (before ++ k)
    rw [List.length_append, List.append_assoc] at later
    cases s with
    | literal text => exact later
    | value text identifier =>
      unfold placesFrom keptValues
      split
      · next none =>
        subst none
        exact later
      · refine .cons ⟨rfl, ?_⟩ later
        rw [List.flatMap_cons, ← List.append_assoc, ← List.length_append, List.take_left, List.drop_left]

end Passage

/-! ## Paragraphs -/

/-- The characters at a place in a paragraph. -/
def Paragraph.under (q : Paragraph) (r : SourceRef) : List Char := (q.text.toList.take r.stop).drop r.start

/-- A paragraph says what a dedent leaves of a passage. It tells the place of each value of which something is kept, one
after the other: the characters there are those that are kept of the value. -/
structure Paragraph.Shows (q : Paragraph) (p : Passage) : Prop where
  text : q.text.toList = Text.dedent p.characters
  whole : q.text.toList = p.keptPieces.flatMap Prod.snd
  values : List.Forall₂ (fun r v => r.identifier = v.1 ∧ q.under r = v.2) q.sources (Passage.keptValues p.keptPieces)
  within : ∀ r ∈ q.sources, r.start < r.stop ∧ r.stop ≤ q.text.length
  ordered : q.sources.Pairwise fun a b => a.stop ≤ b.start

/-- What is kept of a piece: all but some of its blanks, and so all of it if it has none. -/
structure Segment.Keeps (s : Segment) (k : List Char) : Prop where
  sublist : k.Sublist s.text.toList
  letters : Text.letters k = Text.letters s.text.toList
  verbatim : Text.letters s.text.toList = s.text.toList → k = s.text.toList

namespace Passage

theorem keeps_of_mem {before : List Char} {p : Passage} {e : Segment × List Char}
    (member : e ∈ keptFrom (Text.commonIndent (before ++ p.characters)) before p) : e.1.Keeps e.2 := by
  induction p generalizing before with
  | nil => cases member
  | cons s r ih =>
    rcases List.mem_cons.mp member with rfl | later
    · have all := Text.letters_select (Text.keepsLetters_isKept id before s.text.toList (characters r))
      rw [List.map_id, List.map_id] at all
      have part : (Text.select id (Text.isKept (Text.commonIndent (before ++ characters (s :: r)))) before s.text.toList
        (characters r)).Sublist s.text.toList := Text.select_sublist _
      refine ⟨part, all, fun plain => part.eq_of_length_le ?_⟩
      calc s.text.toList.length = (Text.letters s.text.toList).length := by rw [plain]
        _ = (Text.letters _).length := congrArg List.length all.symm
        _ ≤ _ := List.length_filter_le ..
    · have inside : e ∈ keptFrom (Text.commonIndent (before ++ s.text.toList ++ characters r)) (before ++ s.text.toList) r := by
        rwa [List.append_assoc]
      exact ih inside

theorem map_fst_keptFrom (indent : Nat) (before : List Char) (p : Passage) :
    (keptFrom indent before p).map Prod.fst = p := by
  induction p generalizing before with
  | nil => rfl
  | cons s r ih => exact congrArg (s :: ·) (ih _)

theorem kept_eq_tagged (p : Passage) : p.kept = tagged 0 p.keptPieces := by
  rw [kept_eq_select, select_marks]
  rfl

theorem paragraph?_eq_ite (p : Passage) : p.paragraph? =
    if p.kept = [] then none else some ⟨String.ofList (p.kept.map Prod.fst), sourcesIn p.kept 0 p⟩ := by
  unfold kept
  rw [← characters_marks 0 p]
  rfl

/-- **A passage becomes the dedent of its text, with the places of its values**; if nothing is left of it, it becomes
nothing. Only blanks are left out. -/
theorem paragraph_shows (p : Passage) :
    (p.paragraph? = none ↔ Text.dedent p.characters = []) ∧ (∀ q, p.paragraph? = some q → q.Shows p) ∧
      p.keptPieces.map Prod.fst = p ∧ ∀ e ∈ p.keptPieces, e.1.Keeps e.2 := by
  have text := map_fst_kept p
  have whole : p.kept.map Prod.fst = p.keptPieces.flatMap Prod.snd := by rw [kept_eq_tagged, map_fst_tagged]
  have places : sourcesIn p.kept 0 p = placesFrom 0 p.keptPieces := by
    rw [kept_eq_tagged]
    exact sourcesIn_tagged _ _ [] 0 p nofun
  refine ⟨?_, ?_, map_fst_keptFrom _ _ p, fun e member => ?_⟩
  · rw [paragraph?_eq_ite, ← text, List.map_eq_nil_iff]
    split <;> simp [*]
  · intro q shown
    rw [paragraph?_eq_ite] at shown
    split at shown
    · cases shown
    · obtain rfl := Option.some.inj shown
      refine ⟨?_, ?_, ?_, fun r member => ?_, ?_⟩
      · rw [String.toList_ofList, text]
      · rw [String.toList_ofList, whole]
      · have values := placesFrom_values [] p.keptPieces
        rw [List.nil_append, ← whole, List.length_nil, ← places] at values
        simpa only [Paragraph.under, String.toList_ofList] using values
      · rw [places] at member
        obtain ⟨-, inside, stop⟩ := placesFrom_within member
        refine ⟨inside, ?_⟩
        rw [String.length_ofList, whole]
        omega
      · rw [places]
        exact placesFrom_ordered 0 p.keptPieces
  · have inside : e ∈ keptFrom (Text.commonIndent ([] ++ p.characters)) [] p := member
    exact keeps_of_mem inside

/-- The lines of a value are dedented with the text around them, and the blanks at its end are left out. -/
theorem paragraph_of_greeting :
    let p : Passage := [.literal "\n  Hello ", .value "Ada" (some "name"), .literal "\n\n", .value "  36\n " none]
    p.paragraph? = some ⟨"Hello Ada\n\n36", [⟨6, 9, some "name"⟩, ⟨11, 13, none⟩]⟩ ∧
      Paragraph.Shows ⟨"Hello Ada\n\n36", [⟨6, 9, some "name"⟩, ⟨11, 13, none⟩]⟩ p ∧
      Segment.Keeps (.value "Ada" (some "name")) ['A', 'd', 'a'] := by
  intro p
  have shown : p.paragraph? = some ⟨"Hello Ada\n\n36", [⟨6, 9, some "name"⟩, ⟨11, 13, none⟩]⟩ := by decide +kernel
  have member : (.value "Ada" (some "name"), ['A', 'd', 'a']) ∈ p.keptPieces := .tail _ (.head _)
  obtain ⟨-, shows, -, keeps⟩ := paragraph_shows p
  exact ⟨shown, shows _ shown, keeps _ member⟩

end Passage
end PromptScript
