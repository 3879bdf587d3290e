import PromptScript.Proofs.Unseen

/-! # Letters

The characters of a text that are no blanks. When a passage becomes a paragraph, what its lines share of indentation
and the blanks at its ends are left out, and all letters stay, in their order. So do they in the item that a content
tag makes of its text, unless the tag is a tool call, which makes nothing of it. -/
namespace PromptScript

namespace Text

/-- The letters of a text. -/
def letters (text : List Char) : List Char := text.filter fun c => !isBlank c

theorem letters_append (a b : List Char) : letters (a ++ b) = letters a ++ letters b := List.filter_append ..

theorem letters_cons_of_blank {c : Char} (h : isBlank c = true) (text : List Char) :
    letters (c :: text) = letters text :=
  List.filter_cons_of_neg (by simp [h])

theorem letters_cons_congr (c : Char) {a b : List Char} (h : letters a = letters b) :
    letters (c :: a) = letters (c :: b) := by
  rw [← List.singleton_append, ← List.singleton_append (l := b), letters_append, letters_append, h]

theorem letters_dropWhile (text : List Char) : letters (text.dropWhile isBlank) = letters text := by
  induction text with
  | nil => rfl
  | cons c r ih =>
    rw [List.dropWhile_cons]
    split
    · next h => rw [ih, letters_cons_of_blank h]
    · rfl

theorem letters_reverse (text : List Char) : letters text.reverse = (letters text).reverse := List.filter_reverse ..

/-- Every text has a first line. -/
theorem exists_lines_eq_cons (text : List Char) : ∃ line more, lines text = line :: more := by
  apply List.exists_cons_of_ne_nil
  cases text with
  | nil => exact List.cons_ne_nil _ _
  | cons c r =>
    unfold lines splitAtChar
    split <;> split <;> exact List.cons_ne_nil _ _

/-- The lines of a text that starts with a character. -/
theorem lines_cons (c : Char) (text : List Char) : ∃ line more, lines text = line :: more ∧
    lines (c :: text) = if c = '\n' then [] :: line :: more else (c :: line) :: more := by
  obtain ⟨line, more, h⟩ := exists_lines_eq_cons text
  refine ⟨line, more, h, ?_⟩
  unfold lines at h ⊢
  rw [splitAtChar, h]

/-- What all lines share of indentation is blank in each of them. -/
theorem blank_of_commonIndent {text line : List Char} (h : line ∈ lines text) :
    ∀ c ∈ line.take (commonIndent text), isBlank c = true := by
  intro c member
  by_cases blank : allBlank line = true
  · exact List.all_eq_true.mp blank c (List.mem_of_mem_take member)
  · have counts : indentOf line ∈ ((lines text).filter fun line => !allBlank line).map indentOf :=
      List.mem_map_of_mem (List.mem_filter.mpr ⟨h, by simpa using blank⟩)
    have le : commonIndent text ≤ indentOf line := List.min?_getD_le_of_mem counts
    rw [← List.takeWhile_append_dropWhile (p := isBlank) (l := line), List.take_append_of_le_length le] at member
    exact List.all_eq_true.mp List.all_takeWhile c (List.mem_of_mem_take member)

end Text

/-! ## Passages -/

/-- The letters of a piece. -/
def Segment.letters (s : Segment) : List Char := Text.letters s.text.toList

namespace Passage

/-- The letters of all pieces. -/
def letters (p : Passage) : List Char := p.flatMap Segment.letters

theorem letters_marks (n : Nat) (p : Passage) : Text.letters ((marks n p).map Prod.fst) = p.letters := by
  induction p generalizing n with
  | nil => rfl
  | cons s r ih =>
    have here : (s.text.toList.map fun c => (c, n)).map Prod.fst = s.text.toList := by
      rw [List.map_map]
      exact List.map_id _
    show Text.letters ((s.text.toList.map (·, n) ++ marks (n + 1) r).map Prod.fst) = s.letters ++ letters r
    rw [List.map_append, Text.letters_append, ih (n + 1), here]
    rfl

/-- Leaving out the first characters of lines keeps all letters if those are blanks. -/
theorem letters_dropColumns (indent : Nat) (ms : List Mark) :
    ∀ (column : Nat) (line : List Char) (more : List (List Char)),
    Text.lines (ms.map Prod.fst) = line :: more →
    (∀ c ∈ line.take (indent - column), Text.isBlank c = true) →
    (∀ line ∈ more, ∀ c ∈ line.take indent, Text.isBlank c = true) →
    Text.letters ((dropColumns indent column ms).map Prod.fst) = Text.letters (ms.map Prod.fst) := by
  induction ms with
  | nil => exact fun _ _ _ _ _ _ => rfl
  | cons m r ih =>
    obtain ⟨c, n⟩ := m
    intro column line more split_ here later
    obtain ⟨line', more', rest, cut⟩ := Text.lines_cons c (r.map Prod.fst)
    rw [List.map_cons, cut] at split_
    unfold dropColumns
    by_cases newline : c = '\n'
    · rw [if_pos newline] at split_ ⊢
      obtain ⟨-, rfl⟩ := List.cons.inj split_
      obtain ⟨first, others⟩ := List.forall_mem_cons.mp later
      exact Text.letters_cons_congr c (ih 0 line' more' rest first others)
    · rw [if_neg newline] at split_ ⊢
      obtain ⟨rfl, rfl⟩ := List.cons.inj split_
      by_cases inside : column < indent
      · rw [if_pos inside]
        rw [show indent - column = (indent - (column + 1)) + 1 by omega, List.take_succ_cons] at here
        obtain ⟨blank, others⟩ := List.forall_mem_cons.mp here
        rw [List.map_cons, Text.letters_cons_of_blank blank]
        exact ih (column + 1) line' more' rest others later
      · rw [if_neg inside]
        refine Text.letters_cons_congr c (ih column line' more' rest ?_ later)
        rw [Nat.sub_eq_zero_of_le (Nat.le_of_not_lt inside)]
        exact fun _ member => absurd member List.not_mem_nil

theorem map_dropWhile_blank (ms : List Mark) :
    (ms.dropWhile fun m => Text.isBlank m.1).map Prod.fst = (ms.map Prod.fst).dropWhile Text.isBlank := by
  rw [List.dropWhile_map]
  rfl

theorem letters_trimMarks (ms : List Mark) :
    Text.letters ((trimMarks ms).map Prod.fst) = Text.letters (ms.map Prod.fst) := by
  simp only [trimMarks, List.map_reverse, map_dropWhile_blank, Text.letters_reverse, Text.letters_dropWhile,
    List.reverse_reverse]

/-- What a paragraph keeps of the pieces of its passage. -/
theorem letters_kept (p : Passage) :
    Text.letters ((trimMarks (dropColumns (Text.commonIndent ((marks 0 p).map Prod.fst)) 0 (marks 0 p))).map Prod.fst) =
      p.letters := by
  obtain ⟨line, more, cut⟩ := Text.exists_lines_eq_cons ((marks 0 p).map Prod.fst)
  have blank := fun line => @Text.blank_of_commonIndent ((marks 0 p).map Prod.fst) line
  rw [cut] at blank
  obtain ⟨first, others⟩ := List.forall_mem_cons.mp blank
  rw [letters_trimMarks, letters_dropColumns (Text.commonIndent _) _ 0 line more cut first others, letters_marks]

end Passage

/-- The letters of a text that may be missing. -/
def Paragraph.lettersOf (p : Option Paragraph) : List Char := p.elim [] fun p => Text.letters p.text.toList

/-- **A paragraph keeps all letters of its passage**, in their order; a passage without a paragraph has none. -/
theorem Passage.letters_paragraph? (p : Passage) : Paragraph.lettersOf p.paragraph? = p.letters := by
  rw [← letters_kept p]
  unfold paragraph?
  dsimp only
  split
  · next empty => rw [empty]; rfl
  · show Text.letters (String.ofList _).toList = _
    rw [String.toList_ofList]

/-! ## Content -/

/-- The letters of an item: those of its text, or of the address that a tag for an image or a file is about. -/
def Content.letters : Content → List Char
  | text s _ _ => Text.letters s.toList
  | image url _ => Text.letters url.toList
  | file url _ _ => Text.letters url.toList
  | toolCall .. => []
  | toolResult .. => []

/-- The letters of items, one after the other. -/
def Content.lettersOf (items : List Content) : List Char := items.flatMap letters

namespace Pass

variable {σ : Type} (options : Options)

/-- The item of a content tag has the letters of the text in it; a tool call has none. -/
theorem letters_itemOf (span : Span) (kind : ContentKind) (p : Option Paragraph) (attributes : Attributes) :
    Yields (fun item => Content.lettersOf item.toList = if kind = .toolCall then [] else Paragraph.lettersOf p)
      (itemOf options span kind p attributes : Pass σ (Option Content)) := by
  have needed : Yields (fun q => p = some q) (need p .emptyContentTag span : Pass σ Paragraph) := View.yields_need _ _
  unfold itemOf
  cases kind with
  | text =>
    refine yields_pure ?_
    cases p with
    | none => rfl
    | some p => exact List.append_nil _
  | image =>
    refine needed.bind fun q same => yields_pure ?_
    subst same
    exact List.append_nil _
  | file =>
    refine needed.bind fun q same => Yields.bind (View.yields_need _ _) fun _ _ => yields_pure ?_
    subst same
    exact List.append_nil _
  | toolCall =>
    refine Yields.bind (View.yields_need _ _) fun _ _ => Yields.bind (View.yields_need _ _) fun _ _ => ?_
    have any : Yields (fun _ => True) (argumentsOf span attributes : Pass σ Value) := fun _ _ _ _ => trivial
    exact any.bind fun _ _ => yields_pure rfl

end Pass
end PromptScript

/-! ## The pieces of a passage

How the text of a document is cut into pieces does not matter to the paragraph of a passage: it depends on the characters
and on the values they come from. An empty line before a passage does not matter either. -/
namespace PromptScript.Passage

/-- The characters of a passage with the numbers of their values, the first of which is `n`. Text of the document has
the number zero. -/
def stream (n : Nat) : Passage → List Mark
  | [] => []
  | .literal s :: r => s.toList.map (·, 0) ++ stream n r
  | .value s _ :: r => s.toList.map (·, n) ++ stream (n + 1) r

/-- The variables that the values of a passage were read from. -/
def identifiers : Passage → List (Option String)
  | [] => []
  | .literal _ :: r => identifiers r
  | .value _ identifier :: r => identifier :: identifiers r

/-- The places of values in characters, the first of which has the number `n`. -/
def placesIn (ms : List Mark) : Nat → List (Option String) → List SourceRef
  | _, [] => []
  | n, identifier :: r =>
    match placeOf? n ms with
    | some (start, stop) => ⟨start, stop, identifier⟩ :: placesIn ms (n + 1) r
    | none => placesIn ms (n + 1) r

/-- The paragraph of characters, given the variables of their values. -/
def paragraphOf (ms : List Mark) (ids : List (Option String)) : Option Paragraph :=
  let kept := trimMarks (dropColumns (Text.commonIndent (ms.map Prod.fst)) 0 ms)
  if kept = [] then none else some ⟨String.ofList (kept.map Prod.fst), placesIn kept 1 ids⟩

/-! ### From pieces to values -/

/-- The number of the value that a piece is, where the first value has the number `n`; text of the document has none. -/
def rank (n : Nat) : Passage → Nat → Nat
  | [], _ => 0
  | .literal _ :: _, 0 => 0
  | .literal _ :: r, i + 1 => rank n r i
  | .value _ _ :: _, 0 => n
  | .value _ _ :: r, i + 1 => rank (n + 1) r i

/-- Marks with other numbers. -/
def renumber (f : Nat → Nat) (ms : List Mark) : List Mark := ms.map fun m => (m.1, f m.2)

theorem renumber_append (f : Nat → Nat) (ms ms' : List Mark) : renumber f (ms ++ ms') = renumber f ms ++ renumber f ms' :=
  List.map_append

theorem map_fst_renumber (f : Nat → Nat) (ms : List Mark) : (renumber f ms).map Prod.fst = ms.map Prod.fst := by
  simp only [renumber, List.map_map, Function.comp_def]

theorem dropColumns_renumber (f : Nat → Nat) (indent column : Nat) (ms : List Mark) :
    dropColumns indent column (renumber f ms) = renumber f (dropColumns indent column ms) := by
  induction ms generalizing column with
  | nil => rfl
  | cons m r ih =>
    obtain ⟨c, n⟩ := m
    show dropColumns indent column ((c, f n) :: renumber f r) = _
    unfold dropColumns
    split
    · exact congrArg ((c, f n) :: ·) (ih 0)
    · split
      · exact ih _
      · exact congrArg ((c, f n) :: ·) (ih column)

theorem trimMarks_renumber (f : Nat → Nat) (ms : List Mark) : trimMarks (renumber f ms) = renumber f (trimMarks ms) := by
  simp only [trimMarks, renumber, List.dropWhile_map, ← List.map_reverse, Function.comp_def]

theorem placeOf?_renumber {f : Nat → Nat} {i : Nat} (only : ∀ j, f j = f i ↔ j = i) (ms : List Mark) :
    placeOf? (f i) (renumber f ms) = placeOf? i ms := by
  have same (j : Nat) : (f j == f i) = (j == i) := Bool.eq_iff_iff.mpr (by simp only [beq_iff_eq, only])
  simp only [placeOf?, renumber, ← List.map_reverse, List.findIdx?_map, Function.comp_def, same, List.length_map]

theorem rank_eq_zero_or (n : Nat) (p : Passage) (i : Nat) : rank n p i = 0 ∨ n ≤ rank n p i := by
  induction p generalizing n i with
  | nil => exact .inl (rank.eq_1 n i)
  | cons segment r ih =>
    cases segment <;> cases i
    · exact .inl rfl
    · exact ih ..
    · exact .inr (Nat.le_refl _)
    · next i => exact (ih (n + 1) i).imp_right Nat.le_of_succ_le

/-- The number of a value tells it apart. -/
theorem rank_inj {n : Nat} (positive : 0 < n) {p : Passage} {i j : Nat} (value : rank n p i ≠ 0) (same : rank n p j = rank n p i) :
    j = i := by
  induction p generalizing n i j with
  | nil => exact (value (rank.eq_1 n i)).elim
  | cons segment r ih =>
    cases segment <;> cases i <;> cases j
    · rfl
    · exact (value rfl).elim
    · exact (value same.symm).elim
    · exact congrArg (· + 1) (ih positive value same)
    · rfl
    · next j =>
      have := rank_eq_zero_or (n + 1) r j
      simp only [rank] at same
      omega
    · next i =>
      have := rank_eq_zero_or (n + 1) r i
      simp only [rank] at same
      omega
    · exact congrArg (· + 1) (ih (Nat.succ_pos n) value same)

/-- The pieces of a passage, from number `m` on, in terms of its values. -/
theorem renumber_marks {f : Nat → Nat} (n m : Nat) (p : Passage) (ranks : ∀ i, f (m + i) = rank n p i) :
    renumber f (marks m p) = stream n p := by
  induction p generalizing n m with
  | nil => rfl
  | cons segment r ih =>
    have first := ranks 0
    have later (i : Nat) := Nat.add_right_comm m 1 i ▸ ranks (i + 1)
    rw [marks, renumber_append]
    cases segment with
    | literal s =>
      rw [ih n (m + 1) later]
      simp only [renumber, List.map_map, Function.comp_def, Segment.text, Nat.add_zero] at first ⊢
      rw [first]
      rfl
    | value s identifier =>
      rw [ih (n + 1) (m + 1) later]
      simp only [renumber, List.map_map, Function.comp_def, Segment.text, Nat.add_zero] at first ⊢
      rw [first]
      rfl

theorem sourcesIn_renumber {f : Nat → Nat} (ms : List Mark) (n m : Nat) (p : Passage) (positive : 0 < n)
    (only : ∀ i j, f i ≠ 0 → f j = f i → j = i) (ranks : ∀ i, f (m + i) = rank n p i) :
    sourcesIn ms m p = placesIn (renumber f ms) n p.identifiers := by
  induction p generalizing n m with
  | nil => rfl
  | cons segment r ih =>
    have first := ranks 0
    have later (i : Nat) := Nat.add_right_comm m 1 i ▸ ranks (i + 1)
    cases segment with
    | literal s => exact ih n (m + 1) positive later
    | value s identifier =>
      have this : f m = n := first
      have place : placeOf? n (renumber f ms) = placeOf? m ms := by
        rw [← this]
        exact placeOf?_renumber (fun j => ⟨only m j (by omega), fun same => same ▸ rfl⟩) ms
      have rest := ih (n + 1) (m + 1) (Nat.succ_pos n) later
      cases known : placeOf? m ms <;> simp only [sourcesIn, identifiers, placesIn, place, rest, known]

/-- **A paragraph depends on characters and values alone.** -/
theorem paragraph?_eq (p : Passage) : paragraph? p = paragraphOf (stream 1 p) p.identifiers := by
  have only (i j : Nat) : rank 1 p i ≠ 0 → rank 1 p j = rank 1 p i → j = i := rank_inj Nat.one_pos
  have ranks (i : Nat) : rank 1 p (0 + i) = rank 1 p i := by rw [Nat.zero_add]
  have whole := renumber_marks 1 0 p ranks
  have kept : trimMarks (dropColumns (Text.commonIndent ((stream 1 p).map Prod.fst)) 0 (stream 1 p)) =
      renumber (rank 1 p) (trimMarks (dropColumns (Text.commonIndent ((marks 0 p).map Prod.fst)) 0 (marks 0 p))) := by
    rw [← whole, map_fst_renumber, dropColumns_renumber, trimMarks_renumber]
  unfold paragraph? paragraphOf
  dsimp only
  rw [kept, map_fst_renumber, ← sourcesIn_renumber _ 1 0 p Nat.one_pos only ranks]
  simp only [renumber, List.map_eq_nil_iff]

/-! ### Passages that read the same -/

theorem stream_append (n : Nat) (p q : Passage) : stream n (p ++ q) = stream n p ++ stream (n + p.identifiers.length) q := by
  induction p generalizing n with
  | nil => rfl
  | cons segment r ih =>
    cases segment with
    | literal s => simp only [List.cons_append, stream, ih, identifiers, List.append_assoc]
    | value s identifier =>
      simp only [List.cons_append, stream, ih, identifiers, List.append_assoc, List.length_cons, Nat.add_assoc, Nat.add_comm 1]

theorem identifiers_append (p q : Passage) : (p ++ q).identifiers = p.identifiers ++ q.identifiers := by
  induction p with
  | nil => rfl
  | cons segment r ih =>
    cases segment with
    | literal s => exact ih
    | value s identifier => exact congrArg (identifier :: ·) ih

/-- An empty line first makes no difference. -/
theorem paragraphOf_newline (n : Nat) (ms : List Mark) (ids : List (Option String)) :
    paragraphOf (('\n', n) :: ms) ids = paragraphOf ms ids := by
  have indent : Text.commonIndent ('\n' :: ms.map Prod.fst) = Text.commonIndent (ms.map Prod.fst) := by
    obtain ⟨line, more, same⟩ := Text.exists_lines_eq_cons (ms.map Prod.fst)
    have lines : Text.lines ('\n' :: ms.map Prod.fst) = [] :: Text.lines (ms.map Prod.fst) := by
      rw [Text.lines, Text.splitAtChar, ← Text.lines, same]
      rfl
    unfold Text.commonIndent
    rw [lines]
    rfl
  have trim (r : List Mark) : trimMarks (('\n', n) :: r) = trimMarks r := rfl
  simp only [paragraphOf, List.map_cons, indent, dropColumns, ↓reduceIte, trim]

/-- The second passage has the characters and values of the first, cut into other pieces, and perhaps an empty line before
them. -/
structure Reads (p q : Passage) : Prop where
  stream : q.stream 1 = p.stream 1 ∨ q.stream 1 = ('\n', 0) :: p.stream 1
  identifiers : q.identifiers = p.identifiers

namespace Reads

variable {p q r r' : Passage}

theorem refl (p : Passage) : p.Reads p := ⟨.inl rfl, rfl⟩

theorem paragraph?_eq (h : p.Reads q) : p.paragraph? = q.paragraph? := by
  rw [Passage.paragraph?_eq, Passage.paragraph?_eq, h.identifiers]
  rcases h.stream with same | same
  · rw [same]
  · rw [same, paragraphOf_newline]

/-- The passages go on with the same characters and values. -/
theorem append (h : p.Reads q) (same : ∀ n, r'.stream n = r.stream n) (ids : r'.identifiers = r.identifiers) :
    (p ++ r).Reads (q ++ r') where
  stream := by
    rw [stream_append, stream_append, h.identifiers, same]
    exact h.stream.imp (congrArg (· ++ _)) (congrArg (· ++ _))
  identifiers := by rw [identifiers_append, identifiers_append, h.identifiers, ids]

end Reads
end PromptScript.Passage
