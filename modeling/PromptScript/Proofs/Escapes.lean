import PromptScript.Proofs.Derived
import PromptScript.Proofs.Faithful

/-! # Every text can be written

With a backslash before each of its characters a text stands for itself, as a text of a document and as a quoted
attribute. In a string a backslash is needed only before a backslash, a quote of the same kind and a newline. None of the
marks of the grammar is met on the way, because the character after a backslash is never looked at. -/
namespace PromptScript

/-- The quotes around a string or an attribute. -/
inductive Quote where
  | single | double
  deriving DecidableEq, Repr

namespace Quote

/-- The character of a quote. -/
def mark : Quote → Char
  | single => '\''
  | double => '"'

/-- A text between two quotes. -/
def around (q : Quote) (text : List Char) : List Char := q.mark :: (text ++ [q.mark])

theorem backslash_ne_mark (q : Quote) : '\\' ≠ q.mark := by cases q <;> decide

end Quote

namespace Text

/-- A text with a backslash before each character. -/
def backslashed (s : List Char) : List Char := s.flatMap fun c => ['\\', c]

@[simp] theorem backslashed_nil : backslashed [] = [] := rfl

@[simp] theorem backslashed_cons (c : Char) (r : List Char) : backslashed (c :: r) = '\\' :: c :: backslashed r := rfl

theorem length_le_backslashed (s : List Char) : s.length ≤ (backslashed s).length := by
  induction s with
  | nil => exact Nat.le_refl _
  | cons c r ih =>
    rw [backslashed_cons, List.length_cons, List.length_cons, List.length_cons]
    omega

/-- A character of a string between quotes, with a backslash if it needs one. A newline is written as a letter, or as
itself. -/
def spelled (q : Quote) (newline : Char) (c : Char) : List Char :=
  if c = '\\' ∨ c = q.mark then ['\\', c] else if c = '\n' then ['\\', newline] else [c]

end Text

namespace Grammar

open Text

variable {rest : List Char}

/-! ## Texts of a document -/

theorem scanText_backslashed (content : Bool) (s : List Char) (blank : Bool) (o : Nat) {state : TextState}
    (outside : state ≠ .escaped) :
    scanText content state blank o (backslashed s) = (s, ⟨o + byteLength (backslashed s), []⟩) := by
  -- Behind a character that was escaped the scan is in no state of a header mark, so any state has to be allowed for.
  induction s generalizing state blank o with
  | nil => cases state with
    | escaped => exact absurd rfl outside
    | first | dashes | inside => rfl
  | cons c r ih =>
    have step : scanText content state blank o ('\\' :: c :: backslashed r) =
        scanText content .escaped blank (o + '\\'.utf8Size) (c :: backslashed r) := by
      cases state with
      | escaped => exact absurd rfl outside
      | first | dashes | inside => rfl
    rw [backslashed_cons, step, scanText, ih _ _ (by decide)]
    simp only [byteLength, Nat.add_assoc]

/-- Where a backslash stands there is text. -/
theorem leadOf_backslash (root : Bool) (seen : Seen) (r : List Char) : leadOf root seen ('\\' :: r) = .text := by
  simp [leadOf, startsWith, dropLead?, tagMarkAt?, atHeaderMark]

/-! ## Quoted attributes -/

/-- A quoted text goes on to the closing quote, which no backslash stands before. -/
theorem gives_readQuoted (q : Quote) (s : List Char) {opening start n : Nat} (enough : s.length < n) (data : List Char) (k : Nat) :
    Gives (readQuoted opening q.mark n start data) ⟨k, backslashed s ++ q.mark :: rest⟩
      (attributeText start (k + byteLength (backslashed s)) (data.reverse ++ s))
      ⟨k + byteLength (backslashed s), q.mark :: rest⟩ := by
  induction s generalizing n data k with
  | nil =>
    obtain ⟨n, rfl⟩ := Nat.exists_eq_succ_of_ne_zero (Nat.ne_of_gt enough)
    refine .rest ?_
    show Gives (if q.mark = q.mark then _ else _) _ _ _
    rw [if_pos rfl, List.append_nil]
    exact .offset (gives_pure.mpr ⟨rfl, rfl⟩)
  | cons c r ih =>
    obtain ⟨n, rfl⟩ := Nat.exists_eq_succ_of_ne_zero (Nat.ne_of_gt (Nat.lt_of_le_of_lt (Nat.zero_le _) enough))
    have more := ih (Nat.lt_of_succ_lt_succ enough) (c :: data) (k + byteLength ['\\', c])
    rw [Nat.add_assoc, ← byteLength_append, List.reverse_cons, List.append_assoc] at more
    refine .rest ?_
    show Gives (if '\\' = q.mark then _ else if '\\' = '\\' then _ else _) _ _ _
    rw [if_neg q.backslash_ne_mark, if_pos rfl]
    refine .skipTo (Cursor.skip_append ['\\', c] (backslashed r ++ q.mark :: rest) k) ?_
    exact more

theorem gives_readQuotedValue (q : Quote) (s : List Char) (k : Nat) :
    Gives (readQuotedValue q.mark) ⟨k, q.around (backslashed s) ++ rest⟩
      [.text ⟨k + q.mark.utf8Size, k + q.mark.utf8Size + byteLength (backslashed s)⟩ (String.ofList s) none]
      ⟨k + byteLength (q.around (backslashed s)), rest⟩ := by
  have text : q.around (backslashed s) ++ rest = q.mark :: (backslashed s ++ q.mark :: rest) := by simp [Quote.around]
  have enough : s.length < (backslashed s ++ q.mark :: rest).length + 1 := by
    have := length_le_backslashed s
    rw [List.length_append]
    omega
  rw [text]
  refine .offset (.skip (.offset (.rest (.bind (gives_readQuoted q s enough [] _) ?_))))
  refine .offset (.skip (gives_pure.mpr ⟨?_, ?_⟩))
  · unfold attributeText
    cases s <;> rfl
  · show (⟨k + q.mark.utf8Size + byteLength (backslashed s) + q.mark.utf8Size, rest⟩ : Cursor) = _
    simp only [Quote.around, byteLength, byteLength_append, Nat.add_assoc, Nat.add_zero]

/-- A name that an attribute may have. -/
structure IsAttributeName (name : List Char) : Prop where
  some : name ≠ []
  all : ∀ c ∈ name, isAttributeChar c = true

/-- An attribute with a text between quotes. -/
def attributeOf (name : List Char) (q : Quote) (s : List Char) : List Char := name ++ '=' :: q.around (backslashed s)

/-- What such an attribute is read into at an offset. -/
def attributeAt (k : Nat) (name : List Char) (q : Quote) (s : List Char) : Attribute :=
  let start := k + byteLength (name ++ ['=', q.mark])
  .mk ⟨k, k + byteLength (attributeOf name q s)⟩ (String.ofList name)
    (.nodes [.text ⟨start, start + byteLength (backslashed s)⟩ (String.ofList s) none])

variable {name : List Char}

theorem gives_readAttribute (named : IsAttributeName name) (q : Quote) (s : List Char) (k : Nat) :
    Gives readAttribute ⟨k, attributeOf name q s ++ rest⟩ (attributeAt k name q s)
      ⟨k + byteLength (attributeOf name q s), rest⟩ := by
  obtain ⟨parts, stop, value, here, there⟩ : ∃ parts stop, Gives (readQuotedValue q.mark)
      ⟨k + byteLength name + '='.utf8Size, q.around (backslashed s) ++ rest⟩ parts stop ∧ parts = _ ∧ stop = _ :=
    ⟨_, _, gives_readQuotedValue q s _, rfl, rfl⟩
  rw [attributeOf, List.append_assoc]
  refine .offset (.bind (gives_takeWhile_append named.all (by rintro _ ⟨⟩; rfl) k) ?_)
  rw [if_neg named.some]
  refine .bind (gives_get.mpr ⟨rfl, rfl⟩) (.skipSpaces (skipWhile_solid (by rintro _ ⟨⟩; rfl)) (.current? ?_))
  show Gives (if some '=' ≠ some '=' then _ else _) _ _ _
  rw [if_neg (not_not_intro rfl)]
  refine .skip (.skipSpaces (skipWhile_solid (by cases q <;> (rintro _ ⟨⟩; rfl))) ?_)
  refine gives_bind.mpr ⟨parts, stop, ?value, .offset (gives_pure.mpr ⟨?node, ?stop⟩)⟩
  case value => cases q <;> exact .rest value
  case node =>
    rw [here, there]
    simp only [attributeAt, attributeOf, Quote.around, byteLength, byteLength_append, Nat.add_assoc, Nat.add_zero]
  case stop =>
    rw [there]
    simp only [Quote.around, byteLength, byteLength_append, Nat.add_assoc]

theorem gives_readAttributes (named : IsAttributeName name) (q : Quote) (s : List Char) (start n k : Nat) :
    Gives (readAttributes start (n + 2) []) ⟨k, ' ' :: (attributeOf name q s ++ ['/', '>'])⟩ ([attributeAt (k + 1) name q s], true)
      ⟨k + 1 + byteLength (attributeOf name q s) + 2, []⟩ := by
  have reads : Gives readAttribute ⟨k + 1, attributeOf name q s ++ ['/', '>']⟩ (attributeAt (k + 1) name q s)
      ⟨k + 1 + byteLength (attributeOf name q s), ['/', '>']⟩ := gives_readAttribute named q s (k + 1)
  obtain ⟨c, r, rfl⟩ := List.exists_cons_of_ne_nil named.some
  have first : isAttributeChar c = true := named.all c List.mem_cons_self
  have solid : isSpace c = false :=
    Bool.eq_false_iff.mpr fun blank => by
      rw [not_of_isSpace (p := isAttributeChar) (by decide) blank] at first
      cases first
  have past : (⟨k, ' ' :: (attributeOf (c :: r) q s ++ ['/', '>'])⟩ : Cursor).skipWhile isSpace =
      ⟨k + 1, attributeOf (c :: r) q s ++ ['/', '>']⟩ :=
    skipWhile_solid (c := ⟨k + 1, attributeOf (c :: r) q s ++ ['/', '>']⟩) (by rintro _ ⟨⟩; exact solid)
  refine .skipSpaces past (.rest ?_)
  split
  · next none => cases none
  · next closes =>
    obtain rfl := (List.cons.inj closes).1
    cases first
  · next closes =>
    obtain rfl := (List.cons.inj closes).1
    cases first
  · refine .bind reads ?_
    rw [List.any_nil, if_neg Bool.false_ne_true]
    exact .skipSpaces (skipWhile_solid (by rintro _ ⟨⟩; rfl)) (.rest (.skip (gives_pure.mpr ⟨rfl, rfl⟩)))

/-- Where a tag opens there is nothing else. -/
theorem leadOf_tag (root : Bool) (seen : Seen) (tag : Tag) (r : List Char) :
    leadOf root seen ('<' :: (tag.name.toList ++ ' ' :: r)) = .tag tag := by
  rcases tag with (_ | role) | (_ | kind) | _ | _ | _
  · rfl
  · cases role <;> rfl
  · rfl
  · cases kind <;> rfl
  · rfl
  · rfl
  · rfl

/-- A tag with one attribute, which closes itself. -/
def elementOf (tag : Tag) (name : List Char) (q : Quote) (s : List Char) : List Char :=
  '<' :: (tag.name.toList ++ ' ' :: (attributeOf name q s ++ ['/', '>']))

/-! ## Strings -/

theorem spells_spelled (q : Quote) {newline : Char} (either : newline = 'n' ∨ newline = '\n') (c : Char) :
    Spells q.mark c (spelled q newline c) := by
  unfold spelled
  split
  · next here =>
    refine .escape ?_ ?_
    · rcases here with rfl | rfl
      · rfl
      · cases q <;> rfl
    · rcases here with rfl | rfl
      · decide
      · cases q <;> decide
  · next other =>
    rw [not_or] at other
    split
    · next here =>
      subst here
      rcases either with rfl | rfl <;> exact .escape rfl (by decide)
    · next newline => exact .plain other.2 other.1 newline

end Grammar

/-! ## Whole sources -/

open Text Grammar

theorem Document.parse_backslashed {s : List Char} (some : s ≠ []) : Document.parse (backslashed s) =
    .ok ⟨⟨0, byteLength (backslashed s)⟩, [.text ⟨0, byteLength (backslashed s)⟩ (String.ofList s) none], none⟩ := by
  obtain ⟨c, r, rfl⟩ := List.exists_cons_of_ne_nil some
  have outside : TextState.first ≠ .escaped := by decide
  have scans : scanned false (.start (backslashed (c :: r))) = (c :: r, ⟨byteLength (backslashed (c :: r)), []⟩) := by
    rw [scanned, Cursor.start, scanText_backslashed false (c :: r) true 0 outside, Nat.zero_add]
  have reads : Gives (readText false) (.start (backslashed (c :: r)))
      (.text ⟨0, byteLength (backslashed (c :: r))⟩ (String.ofList (c :: r)) none, !allBlank (c :: r))
      ⟨byteLength (backslashed (c :: r)), []⟩ := by
    refine gives_readText.mpr ?_
    rw [scans]
    exact ⟨rfl, rfl⟩
  exact parse_of_reads (.more (.text (leadOf_backslash ..) reads) (.done (.source rfl)))

theorem Document.parse_elementOf {name : List Char} (tag : Tag) (named : IsAttributeName name) (q : Quote) (s : List Char) :
    Document.parse (elementOf tag name q s) = .ok ⟨⟨0, byteLength (elementOf tag name q s)⟩,
      [.element ⟨0, byteLength (elementOf tag name q s)⟩ tag
        [attributeAt (byteLength ('<' :: (tag.name.toList ++ [' ']))) name q s] [] none], none⟩ := by
  have name_end : afterName tag (.start (elementOf tag name q s)) =
      ⟨byteLength ('<' :: tag.name.toList), ' ' :: (attributeOf name q s ++ ['/', '>'])⟩ := by
    have skips := Cursor.skip_append ('<' :: tag.name.toList) (' ' :: (attributeOf name q s ++ ['/', '>'])) 0
    rw [List.length_cons, Nat.zero_add, Nat.add_comm] at skips
    exact skips
  have start : byteLength ('<' :: (tag.name.toList ++ [' '])) = byteLength ('<' :: tag.name.toList) + 1 := by
    rw [← List.cons_append, byteLength_append]
    rfl
  have stop : byteLength (elementOf tag name q s) =
      byteLength ('<' :: tag.name.toList) + 1 + byteLength (attributeOf name q s) + 2 := by
    have behind : byteLength (' ' :: (attributeOf name q s ++ ['/', '>'])) = 1 + (byteLength (attributeOf name q s) + 2) := by
      rw [byteLength, byteLength_append]
      rfl
    rw [elementOf, ← List.cons_append, byteLength_append, behind, ← Nat.add_assoc, ← Nat.add_assoc]
  have head : HasAttributes tag (.start (elementOf tag name q s))
      [attributeAt (byteLength ('<' :: tag.name.toList) + 1) name q s] true ⟨byteLength (elementOf tag name q s), []⟩ := by
    unfold HasAttributes
    rw [name_end, stop]
    exact gives_readAttributes named q s _ _ _
  rw [start]
  exact parse_of_reads (.more (.tag (leadOf_tag ..) (.alone head)) (.done (.source rfl)))

theorem Expr.parse_spelled (q : Quote) {newline : Char} (either : newline = 'n' ∨ newline = '\n') (s : List Char) :
    ∃ span, Expr.parse (q.around (s.flatMap (spelled q newline))) = .ok (.literal span (.string (String.ofList s))) := by
  have stands : Grammar.Standing (fun e => ∃ span, e = .literal span (.string (String.ofList s)))
      (q.around (s.flatMap (spelled q newline))) := by
    refine .of_primary (fun rest _ => ?_) fun rest _ k => ?_
    · cases q <;> exact ⟨by rintro _ ⟨⟩; rfl, rfl, rfl⟩
    · have reads := @gives_readString rest _ _ q.backslash_ne_mark s (fun c _ => spells_spelled q either c) k
      refine ⟨1, .literal ⟨k, k + byteLength (q.around (s.flatMap (spelled q newline)))⟩ (.string (String.ofList s)), ⟨_, rfl⟩, ?_⟩
      rw [Quote.around, List.cons_append, List.append_assoc]
      refine .skipSpaces (skipWhile_solid (by cases q <;> (rintro _ ⟨⟩; rfl))) (.offset (.rest ?_))
      cases q <;> exact .bind reads (.offset (gives_pure.mpr ⟨rfl, rfl⟩))
  obtain ⟨e, parsed, span, rfl⟩ := stands.parse
  exact ⟨span, parsed⟩

/-- **Every text can be written.** With a backslash before each character a text is one text of a document, and a quoted
attribute of any tag has it as its static text; with a backslash before each backslash, quote and newline it is a string. -/
theorem Text.written (s : List Char) :
    (s ≠ [] → Document.parse (backslashed s) = .ok ⟨⟨0, byteLength (backslashed s)⟩,
      [.text ⟨0, byteLength (backslashed s)⟩ (String.ofList s) none], none⟩) ∧
    (∀ (q : Quote) (name : List Char), IsAttributeName name →
      (∀ k, (attributeAt k name q s).value.staticText? = some (String.ofList s)) ∧
      (∀ k rest, Gives readAttribute ⟨k, attributeOf name q s ++ rest⟩ (attributeAt k name q s)
        ⟨k + byteLength (attributeOf name q s), rest⟩) ∧
      ∀ tag : Tag, Document.parse (elementOf tag name q s) = .ok ⟨⟨0, byteLength (elementOf tag name q s)⟩,
        [.element ⟨0, byteLength (elementOf tag name q s)⟩ tag
          [attributeAt (byteLength ('<' :: (tag.name.toList ++ [' ']))) name q s] [] none], none⟩) ∧
    ∀ (q : Quote) (newline : Char), newline = 'n' ∨ newline = '\n' →
      ∃ span, Expr.parse (q.around (s.flatMap (spelled q newline))) = .ok (.literal span (.string (String.ofList s))) := by
  refine ⟨Document.parse_backslashed, fun q name named => ⟨fun k => ?_, fun k rest => gives_readAttribute named q s k,
    fun tag => Document.parse_elementOf tag named q s⟩, fun q newline either => Expr.parse_spelled q either s⟩
  show (some (String.ofList s ++ "") : Option String) = some (String.ofList s)
  rw [String.append_empty]

/-- Marks of every kind, a newline, a letter of an escape and a letter of several bytes. -/
theorem Text.written_marks :
    let s := "--- \x7b\x7bn\x7d\x7d /* <!-- <step> \\u00e9 \"'\n é".toList
    let name := "a-b:c".toList
    (s ≠ [] ∧ IsAttributeName name ∧ ('n' = 'n' ∨ 'n' = '\n')) ∧
      Document.parse (backslashed s) = .ok ⟨⟨0, byteLength (backslashed s)⟩,
        [.text ⟨0, byteLength (backslashed s)⟩ (String.ofList s) none], none⟩ ∧
      Document.parse (elementOf .step name .single s) = .ok ⟨⟨0, byteLength (elementOf .step name .single s)⟩,
        [.element ⟨0, byteLength (elementOf .step name .single s)⟩ .step [attributeAt 6 name .single s] [] none],
        none⟩ ∧
      ∃ span, Expr.parse (Quote.double.around (s.flatMap (spelled .double 'n'))) =
        .ok (.literal span (.string (String.ofList s))) := by
  intro s name
  have some : s ≠ [] := List.cons_ne_nil _ _
  have named : IsAttributeName name := ⟨List.cons_ne_nil _ _, List.all_eq_true.mp (by decide +kernel)⟩
  obtain ⟨text, quoted, string⟩ := Text.written s
  exact ⟨⟨some, named, .inl rfl⟩, text some, (quoted .single name named).2.2 .step, string .double 'n' (.inl rfl)⟩

end PromptScript
