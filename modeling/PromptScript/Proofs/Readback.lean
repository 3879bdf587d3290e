import PromptScript.Proofs.Legible

/-! # JSON texts that are read

The text of a value is read again just if its arrays and objects lie no deeper than a reader goes. What is read is the
value, but for names that an object repeats, which come together; that numbers are read as they are written is asked
for. It is so of the text on one line and of that over several: they differ in blanks. -/
namespace PromptScript
namespace Json

mutual

/-- What is read of the text of a value: an object that repeats a name has it once, with its last entry. -/
def merged : Json → Json
  | arr items => arr (mergedItems items)
  | obj fields => obj (Fields.ofList (mergedFields fields))
  | j => j

def mergedItems : List Json → List Json
  | [] => []
  | j :: r => merged j :: mergedItems r

def mergedFields : List (String × Json) → List (String × Json)
  | [] => []
  | (k, j) :: r => (k, merged j) :: mergedFields r

end

mutual

/-- The numbers in a value. -/
def numbers : Json → List Json
  | int n => [int n]
  | float x => [float x]
  | arr items => numbersItems items
  | obj fields => numbersFields fields
  | _ => []

def numbersItems : List Json → List Json
  | [] => []
  | j :: r => numbers j ++ numbersItems r

def numbersFields : List (String × Json) → List Json
  | [] => []
  | (_, j) :: r => numbers j ++ numbersFields r

end

theorem skipSpace_cons {c : Char} (h : isSpace c = false) (r : List Char) : skipSpace (c :: r) = c :: r :=
  List.dropWhile_cons_of_neg (by rw [h]; exact Bool.false_ne_true)

theorem skipSpace_blanks {blanks : List Char} (all : ∀ c ∈ blanks, isSpace c = true) (r : List Char) :
    skipSpace (blanks ++ r) = skipSpace r := by
  induction blanks with
  | nil => rfl
  | cons c cs ih =>
    obtain ⟨here, later⟩ := List.forall_mem_cons.mp all
    exact (List.dropWhile_cons_of_pos here).trans (ih later)

theorem skipSpace_skipSpace (r : List Char) : skipSpace (skipSpace r) = skipSpace r := by
  induction r with
  | nil => rfl
  | cons c r ih =>
    cases blank : isSpace c with
    | true => rw [show skipSpace (c :: r) = skipSpace r from List.dropWhile_cons_of_pos blank, ih]
    | false => rw [skipSpace_cons blank, skipSpace_cons blank]

/-- Blanks before a value do not count. -/
theorem readValue?_congr {cs cs' : List Char} (same : skipSpace cs = skipSpace cs') (fuel levels : Nat) :
    readValue? fuel levels cs = readValue? fuel levels cs' := by
  cases fuel with
  | zero => rfl
  | succ fuel => rw [readValue?, readValue?, same]

theorem readItems?_congr {cs cs' : List Char} (same : skipSpace cs = skipSpace cs') (fuel levels : Nat) :
    readItems? fuel levels cs = readItems? fuel levels cs' := by
  cases fuel with
  | zero => rfl
  | succ fuel => rw [readItems?, readItems?, readValue?_congr same]

theorem readFields?_congr {cs cs' : List Char} (same : skipSpace cs = skipSpace cs') (fuel levels : Nat) :
    readFields? fuel levels cs = readFields? fuel levels cs' := by
  cases fuel with
  | zero => rfl
  | succ fuel => rw [readFields?, readFields?, same]

section Numbers

variable {j : Json} (exact_ : j.Exact)
include exact_

theorem lead_of_exact : ∃ c r, scalar j = c :: r ∧ isSpace c = false ∧ ∀ d, d ≠ '-' ∧ d.isDigit = false → c ≠ d := by
  obtain ⟨c, r, same, lead⟩ := lead_of_readNumber? (exact_ [] ends_nil)
  have other (d : Char) (h : d ≠ '-' ∧ d.isDigit = false) : c ≠ d := by
    rintro rfl
    rcases lead with sign | digit
    · exact h.1 sign
    · rw [h.2] at digit
      cases digit
  rw [List.append_nil] at same
  refine ⟨c, r, same, ?_, other⟩
  simp [isSpace, other ' ' (by decide), other '\n' (by decide), other '\t' (by decide), other '\r' (by decide)]

theorem readValue?_of_exact {rest : List Char} (ends : Ends rest) (fuel levels : Nat) :
    readValue? (fuel + 1) levels (scalar j ++ rest) = some (j, rest) := by
  have read := exact_ rest ends
  obtain ⟨c, r, text, solid, other⟩ := lead_of_exact exact_
  rw [text, List.cons_append] at read ⊢
  rw [readValue?, skipSpace_cons solid]
  simp [other '[' (by decide), other '\x7b' (by decide), other '"' (by decide), Text.dropLead?, read,
    (other 'n' (by decide)).symm, (other 't' (by decide)).symm, (other 'f' (by decide)).symm]

end Numbers

theorem readValue?_quote (s : String) (rest : List Char) (fuel levels : Nat) :
    readValue? (fuel + 1) levels (quote s ++ rest) = some (str s, rest) := by
  have read := readQuoted?_quote s rest
  rw [quote, List.cons_append] at read ⊢
  rw [readValue?, skipSpace_cons rfl]
  exact congrArg (Option.map fun r => (str r.1, r.2)) read

/-- What is not empty between brackets is read as items, if there is a level left for them. -/
theorem readValue?_bracket {r : List Char} (full : ∀ r', skipSpace r ≠ ']' :: r') (fuel levels : Nat) :
    readValue? (fuel + 1) levels ('[' :: r) =
      if levels = 0 then none else (readItems? fuel (levels - 1) r).map fun p => (arr p.1, p.2) := by
  rw [readValue?, skipSpace_cons rfl]
  by_cases deep : levels = 0
  · rw [if_pos deep]
    exact if_pos deep
  · rw [if_neg deep, ← readItems?_congr (skipSpace_skipSpace r)]
    refine (if_neg deep).trans ?_
    split
    · next r' empty => exact absurd empty (full r')
    · rfl

theorem readValue?_brace {r : List Char} (full : ∀ r', skipSpace r ≠ '\x7d' :: r') (fuel levels : Nat) :
    readValue? (fuel + 1) levels ('\x7b' :: r) =
      if levels = 0 then none else (readFields? fuel (levels - 1) r).map fun p => (obj (Fields.ofList p.1), p.2) := by
  rw [readValue?, skipSpace_cons rfl]
  by_cases deep : levels = 0
  · rw [if_pos deep]
    exact if_pos deep
  · rw [if_neg deep, ← readFields?_congr (skipSpace_skipSpace r)]
    refine (if_neg deep).trans ?_
    split
    · next r' empty => exact absurd empty (full r')
    · rfl

/-- Empty brackets are a level, too. -/
theorem readValue?_empty (fuel levels : Nat) (rest : List Char) :
    readValue? (fuel + 1) levels ('[' :: ']' :: rest) = (if 1 ≤ levels then some (arr [], rest) else none) ∧
    readValue? (fuel + 1) levels ('\x7b' :: '\x7d' :: rest) = if 1 ≤ levels then some (obj [], rest) else none := by
  rw [readValue?, skipSpace_cons rfl, readValue?, skipSpace_cons rfl]
  cases levels with
  | zero => exact ⟨rfl, rfl⟩
  | succ levels => exact ⟨rfl, rfl⟩

/-! ### Items and fields -/

section Parts

variable {fuel levels d : Nat} {cs r r' : List Char} {j : Json}

theorem readItems?_last (read : readValue? fuel levels cs = if d ≤ levels then some (j, r) else none)
    (ends : skipSpace r = ']' :: r') :
    readItems? (fuel + 1) levels cs = if max d 0 ≤ levels then some ([j], r') else none := by
  rw [Nat.max_zero]
  by_cases fits : d ≤ levels
  · rw [if_pos fits] at read ⊢
    simp only [readItems?, read, ends]
  · rw [if_neg fits] at read ⊢
    exact readItems?_of_none read

theorem readItems?_more {d' : Nat} {items : List Json} {rest : List Char}
    (read : readValue? fuel levels cs = if d ≤ levels then some (j, r) else none) (more : skipSpace r = ',' :: r')
    (later : readItems? fuel levels r' = if d' ≤ levels then some (items, rest) else none) :
    readItems? (fuel + 1) levels cs = if max d d' ≤ levels then some (j :: items, rest) else none := by
  by_cases fits : d ≤ levels
  · rw [if_pos fits] at read
    simp only [readItems?, read, more, later]
    by_cases fits' : d' ≤ levels
    · rw [if_pos fits', if_pos (Nat.max_le.mpr ⟨fits, fits'⟩)]
      rfl
    · rw [if_neg fits', if_neg fun both => fits' (Nat.max_le.mp both).2]
      rfl
  · rw [if_neg fits] at read
    rw [if_neg fun both => fits (Nat.max_le.mp both).1]
    exact readItems?_of_none read

variable {k : String} {value : List Char} (named : readQuoted? (skipSpace cs) = some (k, r))
  (colon : skipSpace r = ':' :: value)
include named colon

theorem readFields?_last {after : List Char}
    (read : readValue? fuel levels value = if d ≤ levels then some (j, after) else none) (ends : skipSpace after = '\x7d' :: r') :
    readFields? (fuel + 1) levels cs = if max d 0 ≤ levels then some ([(k, j)], r') else none := by
  rw [Nat.max_zero]
  by_cases fits : d ≤ levels
  · rw [if_pos fits] at read ⊢
    simp only [readFields?, named, colon, read, ends]
  · rw [if_neg fits] at read ⊢
    exact readFields?_of_none named colon read

theorem readFields?_more {d' : Nat} {fields : List (String × Json)} {after rest : List Char}
    (read : readValue? fuel levels value = if d ≤ levels then some (j, after) else none) (more : skipSpace after = ',' :: r')
    (later : readFields? fuel levels r' = if d' ≤ levels then some (fields, rest) else none) :
    readFields? (fuel + 1) levels cs = if max d d' ≤ levels then some ((k, j) :: fields, rest) else none := by
  by_cases fits : d ≤ levels
  · rw [if_pos fits] at read
    simp only [readFields?, named, colon, read, more, later]
    by_cases fits' : d' ≤ levels
    · rw [if_pos fits', if_pos (Nat.max_le.mpr ⟨fits, fits'⟩)]
      rfl
    · rw [if_neg fits', if_neg fun both => fits' (Nat.max_le.mp both).2]
      rfl
  · rw [if_neg fits] at read
    rw [if_neg fun both => fits (Nat.max_le.mp both).1]
    exact readFields?_of_none named colon read

end Parts

theorem ends_comma (r : List Char) : Ends (',' :: r) := ends_cons (by decide) r

/-- A reader that has to go deeper than it may gives up. -/
theorem ite_levels {α β : Type} (f : α → β) (inner levels : Nat) (a : α) :
    (if levels = 0 then none else (if inner ≤ levels - 1 then some a else none).map f) =
      if 1 + inner ≤ levels then some (f a) else none := by
  by_cases none_ : levels = 0
  · rw [if_pos none_, if_neg (by omega)]
  · by_cases fits : inner ≤ levels - 1
    · rw [if_neg none_, if_pos fits, if_pos (by omega)]
      rfl
    · rw [if_neg none_, if_neg fits, if_neg (by omega)]
      rfl

/-! ### Layouts -/

/-- The blanks of a text, which its layout decides. -/
structure Spacing where
  /-- Before an item or a field, and before the end, at a level. -/
  line : Nat → List Char
  /-- Before the value of a field. -/
  gap : List Char
  line_blank : ∀ level, ∀ c ∈ line level, isSpace c = true
  gap_blank : ∀ c ∈ gap, isSpace c = true

namespace Spacing

/-- On one line. -/
def oneLine : Spacing := ⟨fun _ => [], [], nofun, nofun⟩

/-- Over several lines. -/
def severalLines : Spacing where
  line := newline
  gap := [' ']
  line_blank level c there := by
    rcases List.mem_cons.mp there with rfl | there
    · rfl
    · rw [List.eq_of_mem_replicate there]
      rfl
  gap_blank c there := by
    rw [List.mem_singleton.mp there]
    rfl

variable (s : Spacing)

mutual

/-- The text of a value at a level. -/
def textAt (level : Nat) : Json → List Char
  | arr (j :: r) => '[' :: (itemsAt (level + 1) (j :: r) ++ s.line level ++ [']'])
  | obj (f :: r) => '\x7b' :: (fieldsAt (level + 1) (f :: r) ++ s.line level ++ ['\x7d'])
  | j => scalar j

def itemsAt (level : Nat) : List Json → List Char
  | [] => []
  | [j] => s.line level ++ textAt level j
  | j :: r => s.line level ++ textAt level j ++ ',' :: itemsAt level r

def fieldsAt (level : Nat) : List (String × Json) → List Char
  | [] => []
  | [(k, j)] => s.line level ++ quote k ++ ':' :: (s.gap ++ textAt level j)
  | (k, j) :: r => s.line level ++ quote k ++ ':' :: (s.gap ++ (textAt level j ++ ',' :: fieldsAt level r))

end

mutual

theorem prettyAt_eq (level : Nat) : ∀ j : Json, prettyAt level j = severalLines.textAt level j
  | null | bool _ | int _ | float _ | str _ | arr [] | obj [] => rfl
  | arr (j :: r) => by
    rw [prettyAt, textAt, prettyItems_eq (level + 1) (j :: r)]
    rfl
  | obj (f :: r) => by
    rw [prettyAt, textAt, prettyFields_eq (level + 1) (f :: r)]
    rfl

theorem prettyItems_eq (level : Nat) : ∀ items : List Json, prettyItems level items = severalLines.itemsAt level items
  | [] => rfl
  | [j] => by
    rw [prettyItems, itemsAt, prettyAt_eq level j]
    rfl
  | j :: j' :: r => by
    rw [prettyItems, itemsAt, prettyAt_eq level j, prettyItems_eq level (j' :: r)]
    · rfl
    · exact nofun
    · exact nofun

theorem prettyFields_eq (level : Nat) : ∀ fields : List (String × Json),
    prettyFields level fields = severalLines.fieldsAt level fields
  | [] => rfl
  | [(k, j)] => by
    rw [prettyFields, fieldsAt, prettyAt_eq level j]
    rfl
  | (k, j) :: f :: r => by
    rw [prettyFields, fieldsAt, prettyAt_eq level j, prettyFields_eq level (f :: r)]
    · rfl
    · exact nofun
    · exact nofun

end

mutual

theorem compact_eq (level : Nat) : ∀ j : Json, compact j = oneLine.textAt level j
  | null | bool _ | int _ | float _ | str _ | arr [] | obj [] => rfl
  | arr (j :: r) => by
    rw [compact, textAt, compactItems_eq (level + 1) (j :: r), show oneLine.line level = [] from rfl, List.append_nil]
  | obj (f :: r) => by
    rw [compact, textAt, compactFields_eq (level + 1) (f :: r), show oneLine.line level = [] from rfl, List.append_nil]

theorem compactItems_eq (level : Nat) : ∀ items : List Json, compactItems items = oneLine.itemsAt level items
  | [] => rfl
  | [j] => by
    rw [compactItems, itemsAt, compact_eq level j]
    rfl
  | j :: j' :: r => by
    rw [compactItems, itemsAt, compact_eq level j, compactItems_eq level (j' :: r)]
    · rfl
    · exact nofun
    · exact nofun

theorem compactFields_eq (level : Nat) : ∀ fields : List (String × Json),
    compactFields fields = oneLine.fieldsAt level fields
  | [] => rfl
  | [(k, j)] => by
    rw [compactFields, fieldsAt, compact_eq level j]
    rfl
  | (k, j) :: f :: r => by
    rw [compactFields, fieldsAt, compact_eq level j, compactFields_eq level (f :: r)]
    · rfl
    · exact nofun
    · exact nofun

end

/-- Blanks before a text that is read do not count. -/
theorem skipSpace_line (level : Nat) (r : List Char) : skipSpace (s.line level ++ r) = skipSpace r :=
  skipSpace_blanks (s.line_blank level) r

theorem skipSpace_gap (r : List Char) : skipSpace (s.gap ++ r) = skipSpace r := skipSpace_blanks s.gap_blank r

/-- Nor does a number go on at them. -/
theorem ends_line (level : Nat) {c : Char} (h : c.isDigit = false ∧ c ≠ '.' ∧ c ≠ 'e' ∧ c ≠ 'E') (r : List Char) :
    Ends (s.line level ++ c :: r) := by
  have blank := s.line_blank level
  cases line : s.line level with
  | nil => exact ends_cons h r
  | cons d ds =>
    have space : isSpace d = true := blank d (line ▸ List.mem_cons_self)
    have solid : d = ' ' ∨ d = '\n' ∨ d = '\t' ∨ d = '\r' := by simpa [isSpace, or_assoc] using space
    refine ends_cons ?_ (ds ++ c :: r)
    rcases solid with rfl | rfl | rfl | rfl <;> decide

/-- Whatever a value is, its text begins with something else than a blank or the end of an array. -/
theorem lead_textAt (level : Nat) {j : Json} (exact_ : ∀ n ∈ j.numbers, n.Exact) :
    ∃ c r, s.textAt level j = c :: r ∧ isSpace c = false ∧ c ≠ ']' := by
  have number (exact_ : j.Exact) : ∃ c r, scalar j = c :: r ∧ isSpace c = false ∧ c ≠ ']' := by
    obtain ⟨c, r, text, solid, other⟩ := lead_of_exact exact_
    exact ⟨c, r, text, solid, other ']' (by decide)⟩
  cases j with
  | null => exact ⟨_, _, rfl, rfl, by decide⟩
  | bool b => cases b <;> exact ⟨_, _, rfl, rfl, by decide⟩
  | int n => exact number (exact_ _ List.mem_cons_self)
  | float x => exact number (exact_ _ List.mem_cons_self)
  | str s => exact ⟨_, _, rfl, rfl, by decide⟩
  | arr items => cases items <;> exact ⟨_, _, rfl, rfl, by decide⟩
  | obj fields => cases fields <;> exact ⟨_, _, rfl, rfl, by decide⟩

theorem itemsAt_last (level : Nat) (j : Json) (tail : List Char) :
    s.itemsAt level [j] ++ tail = s.line level ++ (s.textAt level j ++ tail) := by simp [itemsAt]

theorem itemsAt_more (level : Nat) (j j' : Json) (r : List Json) (tail : List Char) :
    s.itemsAt level (j :: j' :: r) ++ tail =
      s.line level ++ (s.textAt level j ++ ',' :: (s.itemsAt level (j' :: r) ++ tail)) := by simp [itemsAt]

theorem fieldsAt_last (level : Nat) (k : String) (j : Json) (tail : List Char) :
    s.fieldsAt level [(k, j)] ++ tail = s.line level ++ (quote k ++ ':' :: (s.gap ++ (s.textAt level j ++ tail))) := by
  simp [fieldsAt]

theorem fieldsAt_more (level : Nat) (k : String) (j : Json) (f : String × Json) (r : List (String × Json))
    (tail : List Char) : s.fieldsAt level ((k, j) :: f :: r) ++ tail =
      s.line level ++
        (quote k ++ ':' :: (s.gap ++ (s.textAt level j ++ ',' :: (s.fieldsAt level (f :: r) ++ tail)))) := by
  simp [fieldsAt]

theorem itemsAt_full (level : Nat) {j : Json} (r : List Json) (tail : List Char) (exact_ : ∀ n ∈ j.numbers, n.Exact)
    (r' : List Char) : skipSpace (s.itemsAt level (j :: r) ++ tail) ≠ ']' :: r' := by
  obtain ⟨c, text, same, solid, other⟩ := s.lead_textAt level exact_
  cases r with
  | nil =>
    rw [itemsAt_last, skipSpace_line, same, List.cons_append, skipSpace_cons solid]
    exact fun equal => other (List.cons.inj equal).1
  | cons j' r =>
    rw [itemsAt_more, skipSpace_line, same, List.cons_append, skipSpace_cons solid]
    exact fun equal => other (List.cons.inj equal).1

theorem fieldsAt_full (level : Nat) (k : String) (j : Json) (r : List (String × Json)) (tail r' : List Char) :
    skipSpace (s.fieldsAt level ((k, j) :: r) ++ tail) ≠ '\x7d' :: r' := by
  have other : '"' ≠ '\x7d' := by decide
  cases r with
  | nil =>
    rw [fieldsAt_last, skipSpace_line, quote, List.cons_append, skipSpace_cons rfl]
    exact fun equal => other (List.cons.inj equal).1
  | cons f r =>
    rw [fieldsAt_more, skipSpace_line, quote, List.cons_append, skipSpace_cons rfl]
    exact fun equal => other (List.cons.inj equal).1

mutual

/-- **A written value is read** just if it is not too deep, and what is read is the merged value. -/
theorem readValue?_textAt : ∀ (j : Json) (level levels : Nat) (rest : List Char) {fuel : Nat},
    (∀ n ∈ j.numbers, n.Exact) → Ends rest → 2 * (s.textAt level j).length ≤ fuel →
      readValue? fuel levels (s.textAt level j ++ rest) = if j.depth ≤ levels then some (j.merged, rest) else none
  | j, level, _, _, 0, exact_, _, enough => by
    obtain ⟨c, r, text, -⟩ := s.lead_textAt level exact_
    rw [text, List.length_cons] at enough
    omega
  | null, _, levels, rest, fuel + 1, _, _, _ =>
    (readValue?_word fuel levels rest).1.trans (if_pos (Nat.zero_le _)).symm
  | bool true, _, levels, rest, fuel + 1, _, _, _ =>
    (readValue?_word fuel levels rest).2.1.trans (if_pos (Nat.zero_le _)).symm
  | bool false, _, levels, rest, fuel + 1, _, _, _ =>
    (readValue?_word fuel levels rest).2.2.trans (if_pos (Nat.zero_le _)).symm
  | int n, _, levels, _, fuel + 1, exact_, ends, _ =>
    (readValue?_of_exact (exact_ _ List.mem_cons_self) ends fuel levels).trans (if_pos (Nat.zero_le _)).symm
  | float x, _, levels, _, fuel + 1, exact_, ends, _ =>
    (readValue?_of_exact (exact_ _ List.mem_cons_self) ends fuel levels).trans (if_pos (Nat.zero_le _)).symm
  | str s, _, levels, rest, fuel + 1, _, _, _ =>
    (readValue?_quote s rest fuel levels).trans (if_pos (Nat.zero_le _)).symm
  | arr [], _, levels, rest, fuel + 1, _, _, _ => (readValue?_empty fuel levels rest).1
  | obj [], _, levels, rest, fuel + 1, _, _, _ => (readValue?_empty fuel levels rest).2
  | arr (j :: r), level, levels, rest, fuel + 1, exact_, _, enough => by
    have text : s.textAt level (arr (j :: r)) ++ rest =
        '[' :: (s.itemsAt (level + 1) (j :: r) ++ (s.line level ++ ']' :: rest)) := by simp [textAt]
    have inside : 2 * (s.itemsAt (level + 1) (j :: r)).length + 1 ≤ fuel := by
      simp only [textAt, List.length_cons, List.length_append] at enough
      omega
    have full := s.itemsAt_full (level + 1) r (s.line level ++ ']' :: rest)
      fun n member => exact_ n (List.mem_append_left _ member)
    rw [text, readValue?_bracket full,
      readItems?_itemsAt (j :: r) (level + 1) level (levels - 1) rest (List.cons_ne_nil _ _) exact_ inside, ite_levels]
    rfl
  | obj ((k, j) :: r), level, levels, rest, fuel + 1, exact_, _, enough => by
    have text : s.textAt level (obj ((k, j) :: r)) ++ rest =
        '\x7b' :: (s.fieldsAt (level + 1) ((k, j) :: r) ++ (s.line level ++ '\x7d' :: rest)) := by simp [textAt]
    have inside : 2 * (s.fieldsAt (level + 1) ((k, j) :: r)).length + 1 ≤ fuel := by
      simp only [textAt, List.length_cons, List.length_append] at enough
      omega
    have full := s.fieldsAt_full (level + 1) k j r (s.line level ++ '\x7d' :: rest)
    rw [text, readValue?_brace full,
      readFields?_fieldsAt ((k, j) :: r) (level + 1) level (levels - 1) rest (List.cons_ne_nil _ _) exact_ inside,
      ite_levels]
    rfl

theorem readItems?_itemsAt : ∀ (items : List Json) (level close levels : Nat) (rest : List Char) {fuel : Nat}, items ≠ [] →
    (∀ n ∈ numbersItems items, n.Exact) → 2 * (s.itemsAt level items).length + 1 ≤ fuel →
      readItems? fuel levels (s.itemsAt level items ++ (s.line close ++ ']' :: rest)) =
        if depthItems items ≤ levels then some (mergedItems items, rest) else none
  | [], _, _, _, _, _, full, _, _ => absurd rfl full
  | _ :: _, _, _, _, _, 0, _, _, enough => absurd enough (Nat.not_succ_le_zero _)
  | [j], level, close, levels, rest, fuel + 1, _, exact_, enough => by
    simp only [itemsAt, List.length_append] at enough
    have here : 2 * (s.textAt level j).length ≤ fuel := by omega
    have read := readValue?_textAt j level levels (s.line close ++ ']' :: rest)
      (fun n member => exact_ n (List.mem_append_left _ member)) (s.ends_line close (by decide) rest) here
    rw [itemsAt_last, readItems?_congr (s.skipSpace_line level _), readItems?_last read (s.skipSpace_line close _)]
    rfl
  | j :: j' :: r, level, close, levels, rest, fuel + 1, _, exact_, enough => by
    simp only [itemsAt, List.length_append, List.length_cons] at enough
    have here : 2 * (s.textAt level j).length ≤ fuel := by omega
    have there : 2 * (s.itemsAt level (j' :: r)).length + 1 ≤ fuel := by omega
    have read := readValue?_textAt j level levels (',' :: (s.itemsAt level (j' :: r) ++ (s.line close ++ ']' :: rest)))
      (fun n member => exact_ n (List.mem_append_left _ member)) (ends_comma _) here
    have later := readItems?_itemsAt (j' :: r) level close levels rest (List.cons_ne_nil _ _)
      (fun n member => exact_ n (List.mem_append_right _ member)) there
    rw [itemsAt_more, readItems?_congr (s.skipSpace_line level _), readItems?_more read (skipSpace_cons rfl _) later]
    rfl

theorem readFields?_fieldsAt : ∀ (fields : List (String × Json)) (level close levels : Nat) (rest : List Char) {fuel : Nat},
    fields ≠ [] → (∀ n ∈ numbersFields fields, n.Exact) → 2 * (s.fieldsAt level fields).length + 1 ≤ fuel →
      readFields? fuel levels (s.fieldsAt level fields ++ (s.line close ++ '\x7d' :: rest)) =
        if depthFields fields ≤ levels then some (mergedFields fields, rest) else none
  | [], _, _, _, _, _, full, _, _ => absurd rfl full
  | _ :: _, _, _, _, _, 0, _, _, enough => absurd enough (Nat.not_succ_le_zero _)
  | [(k, j)], level, close, levels, rest, fuel + 1, _, exact_, enough => by
    simp only [fieldsAt, List.length_append, List.length_cons] at enough
    have here : 2 * (s.textAt level j).length ≤ fuel := by omega
    have read := (readValue?_congr (s.skipSpace_gap _) fuel levels).trans
      (readValue?_textAt j level levels (s.line close ++ '\x7d' :: rest)
        (fun n member => exact_ n (List.mem_append_left _ member)) (s.ends_line close (by decide) rest) here)
    rw [fieldsAt_last, readFields?_congr (s.skipSpace_line level _),
      readFields?_last (readQuoted?_quote k _) (skipSpace_cons rfl _) read (s.skipSpace_line close _)]
    rfl
  | (k, j) :: f :: r, level, close, levels, rest, fuel + 1, _, exact_, enough => by
    simp only [fieldsAt, List.length_append, List.length_cons] at enough
    have here : 2 * (s.textAt level j).length ≤ fuel := by omega
    have there : 2 * (s.fieldsAt level (f :: r)).length + 1 ≤ fuel := by omega
    have read := (readValue?_congr (s.skipSpace_gap _) fuel levels).trans
      (readValue?_textAt j level levels (',' :: (s.fieldsAt level (f :: r) ++ (s.line close ++ '\x7d' :: rest)))
        (fun n member => exact_ n (List.mem_append_left _ member)) (ends_comma _) here)
    have later := readFields?_fieldsAt (f :: r) level close levels rest (List.cons_ne_nil _ _)
      (fun n member => exact_ n (List.mem_append_right _ member)) there
    rw [fieldsAt_more, readFields?_congr (s.skipSpace_line level _),
      readFields?_more (readQuoted?_quote k _) (skipSpace_cons rfl _) read (skipSpace_cons rfl _) later]
    rfl

end

/-- **The text of a value is read** just if it is not too deep, whatever its layout. -/
theorem parse?_textAt {j : Json} (exact_ : ∀ n ∈ j.numbers, n.Exact) :
    parse? (String.ofList (s.textAt 0 j)) = if j.depth ≤ depthLimit then some j.merged else none := by
  have enough : 2 * (s.textAt 0 j).length ≤ 2 * (s.textAt 0 j).length + 2 := by omega
  have read := s.readValue?_textAt j 0 depthLimit [] exact_ ends_nil enough
  rw [List.append_nil] at read
  rw [parse?, parseWithin?, String.toList_ofList, read]
  by_cases fits : j.depth ≤ depthLimit
  · rw [if_pos fits, if_pos fits]
    rfl
  · rw [if_neg fits, if_neg fits]

end Spacing

theorem parse?_pretty {j : Json} (exact_ : ∀ n ∈ j.numbers, n.Exact) :
    parse? j.pretty = if j.depth ≤ depthLimit then some j.merged else none := by
  rw [pretty, Spacing.prettyAt_eq]
  exact Spacing.severalLines.parse?_textAt exact_

theorem parse?_toText {j : Json} (exact_ : ∀ n ∈ j.numbers, n.Exact) :
    parse? j.toText = if j.depth ≤ depthLimit then some j.merged else none := by
  rw [toText, Spacing.compact_eq 0]
  exact Spacing.oneLine.parse?_textAt exact_

end Json
end PromptScript
