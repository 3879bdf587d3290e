import PromptScript.Proofs.Nested
import PromptScript.Proofs.Restored
import PromptScript.Proofs.Splices

/-! # What nodes say of their source

A text node holds what its span covers with the escapes undone, a comment and a header hold it without their marks.
Expressions, bindings and attributes lie within what they are part of, and the parts of an attribute one after the
other. So a document that has been read says all that its source does. -/
namespace PromptScript

namespace Text

/-- A text without its escapes: of a backslash and the character after it the character is left, a backslash at the
end stays. -/
def unescaped : List Char → List Char
  | [] => []
  | [c] => [c]
  | c :: d :: r => if c = '\\' then d :: unescaped r else c :: unescaped (d :: r)

theorem unescaped_cons {c : Char} (plain : c ≠ '\\') (r : List Char) : unescaped (c :: r) = c :: unescaped r := by
  cases r with
  | nil => rfl
  | cons d r => rw [unescaped, if_neg plain]

theorem unescaped_escape (c : Char) (r : List Char) : unescaped ('\\' :: c :: r) = c :: unescaped r := by
  rw [unescaped, if_pos rfl]

theorem unescaped_eq_nil {text : List Char} (h : unescaped text = []) : text = [] := by
  match text with
  | [] => rfl
  | [_] => cases h
  | c :: d :: r =>
    simp only [unescaped] at h
    split at h <;> cases h

end Text

/-- What lies between two cursors is what was read. -/
theorem Cursor.slice_eq {source read : List Char} {c d : Cursor} (on : (Cursor.start source).Ahead c)
    (rest : c.rest = read ++ d.rest) (offset : d.offset = c.offset + Text.byteLength read) :
    Text.slice source ⟨c.offset, d.offset⟩ = read := by
  obtain ⟨before, whole, here⟩ := on
  rw [rest] at whole
  replace here : c.offset = Text.byteLength before := by rw [here]; exact Nat.zero_add _
  rw [offset, here, ← Text.byteLength_append]
  exact Text.slice_eq (whole.trans (List.append_assoc ..).symm)

namespace Node

/-- The marks of comments. -/
def commentMarks : List (List Char × List Char) :=
  [("/*".toList, "*/".toList), ("<!--".toList, "-->".toList)]

/-- The marks of a header. -/
def headerMark : List Char := "---".toList

/-- The spans of nodes lie one after the other between two offsets. -/
def Adjoin (source : List Char) : Nat → List Node → Nat → Prop
  | a, [], b => a = b
  | a, n :: r, b =>
    n.span.start = a ∧ n.span.start ≤ n.span.stop ∧ Text.Boundary source n.span.start ∧
      Text.Boundary source n.span.stop ∧ Adjoin source n.span.stop r b

mutual

/-- A node says what its span covers, and so does all that is in it. -/
def Faithful (source : List Char) : Node → Prop
  | text span data _ => data.toList = Text.unescaped (Text.slice source span)
  | comment span data _ => ∃ marks ∈ commentMarks, Text.slice source span = marks.1 ++ data.toList ++ marks.2
  | config span data _ => Text.slice source span = headerMark ++ data.toList ++ headerMark
  | interpolation span e _ => e.Placed source span.start span.stop
  | choice span test body none _ => test.Placed source span.start span.stop ∧ FaithfulAll source body
  | choice span test body (some other) _ =>
    test.Placed source span.start span.stop ∧ FaithfulAll source body ∧ FaithfulAll source other
  | loop span items item index body none _ =>
    items.Placed source span.start span.stop ∧ item.span.Within source span.start span.stop ∧
      (∀ b ∈ index, b.span.Within source span.start span.stop) ∧ FaithfulAll source body
  | loop span items item index body (some other) _ =>
    items.Placed source span.start span.stop ∧ item.span.Within source span.start span.stop ∧
      (∀ b ∈ index, b.span.Within source span.start span.stop) ∧ FaithfulAll source body ∧ FaithfulAll source other
  | element span _ attributes body _ =>
    FaithfulAttributes source span.start span.stop attributes ∧ FaithfulAll source body
  | group _ body _ => FaithfulAll source body

def FaithfulAll (source : List Char) : List Node → Prop
  | [] => True
  | n :: r => Faithful source n ∧ FaithfulAll source r

/-- Attributes lie between two offsets, and their parts one after the other in them. -/
def FaithfulAttributes (source : List Char) (lo hi : Nat) : List Attribute → Prop
  | [] => True
  | .mk span _ .flag :: r => span.Within source lo hi ∧ FaithfulAttributes source lo hi r
  | .mk span _ (.nodes parts) :: r =>
    span.Within source lo hi ∧ (∃ a b, span.start ≤ a ∧ b ≤ span.stop ∧ Adjoin source a parts b) ∧
      FaithfulAll source parts ∧ FaithfulAttributes source lo hi r

end

variable {source : List Char} {lo hi : Nat}

theorem faithfulAll_append {a b : List Node} : FaithfulAll source (a ++ b) ↔ FaithfulAll source a ∧ FaithfulAll source b := by
  induction a with
  | nil => exact ⟨fun h => ⟨trivial, h⟩, And.right⟩
  | cons n r ih => rw [List.cons_append, FaithfulAll, FaithfulAll, ih, and_assoc]

theorem adjoin_append {a b c : Nat} {l r : List Node} (first : Adjoin source a l b) (rest : Adjoin source b r c) :
    Adjoin source a (l ++ r) c := by
  induction l generalizing a with
  | nil =>
    obtain rfl : a = b := first
    exact rest
  | cons n l ih =>
    obtain ⟨start, forward, one, two, later⟩ := first
    exact ⟨start, forward, one, two, ih later⟩

theorem FaithfulAttributes.mono {lo' hi' : Nat} {attributes : List Attribute}
    (h : FaithfulAttributes source lo hi attributes) (start : lo' ≤ lo) (stop : hi ≤ hi') :
    FaithfulAttributes source lo' hi' attributes := by
  induction attributes with
  | nil => trivial
  | cons a r ih =>
    obtain ⟨span, name, _ | parts⟩ := a
    · exact ⟨h.1.mono start stop, ih h.2⟩
    · exact ⟨h.1.mono start stop, h.2.1, h.2.2.1, ih h.2.2.2⟩

theorem FaithfulAttributes.append {a b : List Attribute} (first : FaithfulAttributes source lo hi a)
    (rest : FaithfulAttributes source lo hi b) : FaithfulAttributes source lo hi (a ++ b) := by
  induction a with
  | nil => exact rest
  | cons x r ih =>
    obtain ⟨span, name, _ | parts⟩ := x
    · exact ⟨first.1, ih first.2⟩
    · exact ⟨first.1, first.2.1, first.2.2.1, ih first.2.2.2⟩

end Node

namespace Grammar

variable {source : List Char} {c c' : Cursor}

/-! ## Leaves -/

/-- The scan of a text undoes the escapes of what it moves over. -/
theorem scanText_eq (content : Bool) (state : TextState) (blank : Bool) (o : Nat) (text : List Char) :
    ∃ read, text = read ++ (scanText content state blank o text).2.rest ∧
      (scanText content state blank o text).2.offset = o + Text.byteLength read ∧
      (scanText content state blank o text).1 =
        Text.unescaped (if state = .escaped then '\\' :: read else read) := by
  induction text generalizing state blank o with
  | nil => exact ⟨[], by cases state <;> exact ⟨rfl, rfl, rfl⟩⟩
  | cons d r ih =>
    have on : ∀ (next : TextState) (blank : Bool), next ≠ .escaped → ∀ kept : List Char → List Char,
        (∀ read, kept (Text.unescaped read) = Text.unescaped (if state = .escaped then '\\' :: d :: read else d :: read)) →
        ∃ read, d :: r = read ++ (scanText content next blank (o + d.utf8Size) r).2.rest ∧
          (scanText content next blank (o + d.utf8Size) r).2.offset = o + Text.byteLength read ∧
          kept (scanText content next blank (o + d.utf8Size) r).1 =
            Text.unescaped (if state = .escaped then '\\' :: read else read) := by
      intro next blank plain kept same
      obtain ⟨read, rest, offset, data⟩ := ih next blank (o + d.utf8Size)
      refine ⟨d :: read, congrArg (d :: ·) rest, by rw [offset, Text.byteLength, Nat.add_assoc], ?_⟩
      rw [data, if_neg plain]
      exact same read
    cases state with
    | escaped =>
      exact on .inside (blank && Text.isBlank d) (by rintro ⟨⟩) (d :: ·) fun read => (Text.unescaped_escape d read).symm
    | _ =>
      unfold scanText
      dsimp only
      split
      · next backslash =>
        subst backslash
        obtain ⟨read, rest, offset, data⟩ := ih .escaped blank (o + '\\'.utf8Size)
        exact ⟨'\\' :: read, congrArg ('\\' :: ·) rest, by rw [offset, Text.byteLength, Nat.add_assoc], data⟩
      · next plain =>
        split
        · exact ⟨[], rfl, rfl, rfl⟩
        · split
          · exact ⟨[], rfl, rfl, rfl⟩
          · refine on _ _ ?_ (d :: ·) fun read => (Text.unescaped_cons plain read).symm
            split <;> rintro ⟨⟩

theorem readText_faithful {content content' : Bool} {node : Node} (on : (Cursor.start source).Ahead c)
    (h : Gives (readText content) c (node, content') c') : node.Faithful source := by
  obtain ⟨_, c₁, look, h⟩ := gives_bind.mp h
  obtain ⟨rfl, rfl⟩ := gives_get.mp look
  obtain ⟨_, c₁, stops, h⟩ := gives_bind.mp h
  obtain rfl := gives_set.mp stops
  obtain ⟨same, rfl⟩ := gives_pure.mp h
  cases same
  obtain ⟨read, rest, offset, data⟩ := scanText_eq content .first true c.offset c.rest
  show (String.ofList _).toList = _
  rw [String.toList_ofList, Cursor.slice_eq on rest offset]
  exact data

theorem before?_eq {mark text data : List Char} (h : before? mark text = some data) :
    ∃ r, text = data ++ mark ++ r := by
  induction text generalizing data with
  | nil =>
    unfold before? at h
    split at h
    · next none =>
      cases h
      exact ⟨[], by rw [none]; rfl⟩
    · cases h
  | cons d r ih =>
    unfold before? at h
    split at h
    · next here =>
      cases h
      obtain ⟨rest, found⟩ := Option.isSome_iff_exists.mp here
      exact ⟨rest, Text.dropLead?_eq_some.mp found⟩
    · obtain ⟨data', found, rfl⟩ := Option.map_eq_some_iff.mp h
      obtain ⟨rest, same⟩ := ih found
      exact ⟨rest, congrArg (d :: ·) same⟩

theorem atHeaderMark_eq {text : List Char} (h : atHeaderMark text = true) : ∃ r, text = Node.headerMark ++ r := by
  unfold atHeaderMark at h
  split at h
  · cases h
  · exact ⟨_, rfl⟩
  · cases h

theorem beforeHeaderMark?_eq {fresh : Bool} {text data : List Char} (h : beforeHeaderMark? fresh text = some data) :
    ∃ r, text = data ++ Node.headerMark ++ r := by
  induction text generalizing fresh data with
  | nil => cases h
  | cons d r ih =>
    unfold beforeHeaderMark? at h
    split at h
    · next here =>
      cases h
      exact atHeaderMark_eq (Bool.and_eq_true_iff.mp here).2
    · obtain ⟨data', found, rfl⟩ := Option.map_eq_some_iff.mp h
      obtain ⟨rest, same⟩ := ih found
      exact ⟨rest, congrArg (d :: ·) same⟩

/-- Two marks and what stands between them are moved over. -/
theorem slice_between {o data k r : List Char} (on : (Cursor.start source).Ahead c)
    (text : c.rest = o ++ r) (found : ∃ r', r = data ++ k ++ r') :
    Text.slice source ⟨c.offset, (((c.skip o.length).skip (data.length + k.length))).offset⟩ =
      o ++ data ++ k := by
  obtain ⟨r', rfl⟩ := found
  have first : c.skip o.length = ⟨c.offset + Text.byteLength o, data ++ k ++ r'⟩ := by
    rw [show c = ⟨c.offset, o ++ (data ++ k ++ r')⟩ by rw [← text]]
    exact Cursor.skip_append ..
  have second := Cursor.skip_append (data ++ k) r' (c.offset + Text.byteLength o)
  rw [List.length_append] at second
  rw [first, second]
  refine Cursor.slice_eq (d := ⟨_, r'⟩) on (by rw [text]; simp) ?_
  simp only [Text.byteLength_append, Nat.add_assoc]

theorem leadOf_comment_eq {root : Bool} {seen : Seen} {text opening closing : List Char}
    (h : leadOf root seen text = .comment opening closing) :
    (opening, closing) ∈ Node.commentMarks ∧ ∃ r, text = opening ++ r := by
  have starts : ∀ {lead : List Char}, Text.startsWith lead text = true → ∃ r, text = lead ++ r := fun found => by
    obtain ⟨r, found⟩ := Option.isSome_iff_exists.mp found
    exact ⟨r, Text.dropLead?_eq_some.mp found⟩
  unfold leadOf at h
  repeat' split at h
  all_goals cases h
  · exact ⟨List.mem_cons_self, starts ‹_›⟩
  · exact ⟨List.mem_cons_of_mem _ List.mem_cons_self, starts ‹_›⟩

theorem readComment_faithful {opening closing r : List Char} {node : Node} (on : (Cursor.start source).Ahead c)
    (marks : (opening, closing) ∈ Node.commentMarks) (text : c.rest = opening ++ r)
    (h : Gives (readComment opening closing) c node c') : node.Faithful source := by
  obtain ⟨_, c₁, look, h⟩ := gives_bind.mp h
  obtain ⟨rfl, rfl⟩ := gives_offset.mp look
  obtain ⟨_, c₁, look, h⟩ := gives_bind.mp h
  obtain ⟨rfl, rfl⟩ := gives_sourceEnd.mp look
  obtain ⟨_, c₁, skips, h⟩ := gives_bind.mp h
  obtain rfl := gives_skip.mp skips
  obtain ⟨_, c₁, look, h⟩ := gives_bind.mp h
  obtain ⟨rfl, rfl⟩ := gives_rest.mp look
  split at h
  · exact (not_gives_failAt h).elim
  · next data found =>
    obtain ⟨_, c₁, skips, h⟩ := gives_bind.mp h
    obtain rfl := gives_skip.mp skips
    obtain ⟨_, c₁, look, h⟩ := gives_bind.mp h
    obtain ⟨rfl, rfl⟩ := gives_offset.mp look
    obtain ⟨rfl, rfl⟩ := gives_pure.mp h
    refine ⟨(opening, closing), marks, ?_⟩
    rw [String.toList_ofList]
    refine slice_between on text ?_
    have behind : (c.skip opening.length).rest = r := by
      rw [show c = ⟨c.offset, opening ++ r⟩ by rw [← text], Cursor.skip_append]
    rw [behind] at found
    exact before?_eq found

theorem readHeader_faithful {r : List Char} {node : Node} (on : (Cursor.start source).Ahead c)
    (text : c.rest = Node.headerMark ++ r) (h : Gives readHeader c node c') : node.Faithful source := by
  obtain ⟨_, c₁, look, h⟩ := gives_bind.mp h
  obtain ⟨rfl, rfl⟩ := gives_offset.mp look
  obtain ⟨_, c₁, look, h⟩ := gives_bind.mp h
  obtain ⟨rfl, rfl⟩ := gives_sourceEnd.mp look
  obtain ⟨_, c₁, skips, h⟩ := gives_bind.mp h
  obtain rfl := gives_skip.mp skips
  obtain ⟨_, c₁, look, h⟩ := gives_bind.mp h
  obtain ⟨rfl, rfl⟩ := gives_rest.mp look
  split at h
  · exact (not_gives_failAt h).elim
  · next data found =>
    obtain ⟨_, c₁, skips, h⟩ := gives_bind.mp h
    obtain rfl := gives_skip.mp skips
    obtain ⟨_, c₁, look, h⟩ := gives_bind.mp h
    obtain ⟨rfl, rfl⟩ := gives_offset.mp look
    obtain ⟨rfl, rfl⟩ := gives_pure.mp h
    show Text.slice source _ = _
    rw [String.toList_ofList]
    refine slice_between (o := Node.headerMark) (k := Node.headerMark) on text ?_
    have behind : (c.skip 3).rest = r := by
      rw [show c = ⟨c.offset, Node.headerMark ++ r⟩ by rw [← text]]
      exact congrArg Cursor.rest (Cursor.skip_append Node.headerMark r c.offset)
    rw [behind] at found
    exact beforeHeaderMark?_eq found

/-- An interpolation reaches from where it starts to the cursor, and its expression lies in it. -/
theorem readInterpolation_faithful {start : Nat} {node : Node} (on : (Cursor.start source).Ahead c) (before : start ≤ c.offset)
    (h : Gives (readInterpolation start) c node c') : node.span = ⟨start, c'.offset⟩ ∧ node.Faithful source := by
  obtain ⟨_, c₁, skips, h⟩ := gives_bind.mp h
  have on₁ := Advances.skipSpaces _ _ _ skips
  obtain ⟨e, c₂, reads, h⟩ := gives_bind.mp h
  obtain ⟨_, c₃, closes, h⟩ := gives_bind.mp h
  have on₃ := Advances.expectClose _ _ _ closes
  obtain ⟨_, c₄, look, h⟩ := gives_bind.mp h
  obtain ⟨rfl, rfl⟩ := gives_offset.mp look
  obtain ⟨rfl, rfl⟩ := gives_pure.mp h
  exact ⟨rfl, (readExpr_placed (on.trans on₁) reads).mono (Nat.le_trans before on₁.offset_le) on₃.offset_le⟩

theorem readChoiceHead_placed {test : Expr} (on : (Cursor.start source).Ahead c) (h : Gives readChoiceHead c test c') :
    test.Placed source c.offset c'.offset := by
  obtain ⟨_, c₁, skips, h⟩ := gives_bind.mp h
  have on₁ := Advances.skipSpaces _ _ _ skips
  obtain ⟨e, c₂, reads, h⟩ := gives_bind.mp h
  obtain ⟨_, c₃, closes, h⟩ := gives_bind.mp h
  have on₃ := Advances.expectClose _ _ _ closes
  obtain ⟨rfl, rfl⟩ := gives_pure.mp h
  exact (readExpr_placed (on.trans on₁) reads).mono on₁.offset_le on₃.offset_le

theorem readBinding_within {b : Binding} (on : (Cursor.start source).Ahead c) (h : Gives readBinding c b c') :
    b.span.Within source c.offset c'.offset := by
  obtain ⟨_, c₁, look, h⟩ := gives_bind.mp h
  obtain ⟨rfl, rfl⟩ := gives_offset.mp look
  obtain ⟨found, c₁, look, h⟩ := gives_bind.mp h
  obtain ⟨-, rfl⟩ := gives_current?.mp look
  split at h
  · exact (not_gives_failHere h).elim
  · split at h
    · obtain ⟨name, c₁, reads, h⟩ := gives_bind.mp h
      obtain ⟨_, c₂, look, h⟩ := gives_bind.mp h
      obtain ⟨rfl, rfl⟩ := gives_offset.mp look
      obtain ⟨rfl, rfl⟩ := gives_pure.mp h
      exact .ofCursors on (Advances.readName _ _ _ reads) (readName_lt reads) (Nat.le_refl _) (Nat.le_refl _)
    · exact (not_gives_failHere h).elim

theorem readLoopHead_within {head : LoopHead} (on : (Cursor.start source).Ahead c) (h : Gives readLoopHead c head c') :
    head.items.Placed source c.offset c'.offset ∧ head.item.span.Within source c.offset c'.offset ∧
      ∀ b ∈ head.index, b.span.Within source c.offset c'.offset := by
  obtain ⟨_, c₁, skips, h⟩ := gives_bind.mp h
  have on₁ := Advances.skipSpaces _ _ _ skips
  obtain ⟨item, c₂, reads, h⟩ := gives_bind.mp h
  have on₂ := Advances.readBinding _ _ _ reads
  have first := readBinding_within (on.trans on₁) reads
  obtain ⟨_, c₃, skips, h⟩ := gives_bind.mp h
  have on₃ := Advances.skipSpaces _ _ _ skips
  obtain ⟨index, c₄, more, h⟩ := gives_bind.mp h
  have to₃ := ((on.trans on₁).trans on₂).trans on₃
  have second : c₃.Ahead c₄ ∧ ∀ b ∈ index, b.span.Within source c₃.offset c₄.offset := by
    obtain ⟨_, c₅, look, more⟩ := gives_bind.mp more
    obtain ⟨-, rfl⟩ := gives_current?.mp look
    split at more
    · obtain ⟨_, c₅, skips, more⟩ := gives_bind.mp more
      have on₅ := Advances.skip _ _ _ _ skips
      obtain ⟨_, c₆, skips, more⟩ := gives_bind.mp more
      have on₆ := Advances.skipSpaces _ _ _ skips
      obtain ⟨b, c₇, reads, more⟩ := gives_bind.mp more
      obtain ⟨rfl, rfl⟩ := gives_pure.mp more
      have there := readBinding_within ((to₃.trans on₅).trans on₆) reads
      refine ⟨(on₅.trans on₆).trans (Advances.readBinding _ _ _ reads), fun b' same => ?_⟩
      rw [← Option.mem_some.mp same]
      exact there.mono (on₅.trans on₆).offset_le (Nat.le_refl _)
    · obtain ⟨rfl, rfl⟩ := gives_pure.mp more
      exact ⟨.refl _, nofun⟩
  obtain ⟨on₄, second⟩ := second
  obtain ⟨_, c₅, skips, h⟩ := gives_bind.mp h
  have on₅ := Advances.skipSpaces _ _ _ skips
  obtain ⟨_, c₆, word, h⟩ := gives_bind.mp h
  have on₆ := Advances.lookingAtWord _ _ _ _ word
  split at h
  · obtain ⟨_, c₇, skips, h⟩ := gives_bind.mp h
    have on₇ := Advances.skip _ _ _ _ skips
    obtain ⟨_, c₈, skips, h⟩ := gives_bind.mp h
    have on₈ := Advances.skipSpaces _ _ _ skips
    obtain ⟨items, c₉, reads, h⟩ := gives_bind.mp h
    have on₉ := Advances.readExpr _ _ _ reads
    obtain ⟨_, c₁₀, closes, h⟩ := gives_bind.mp h
    have on₁₀ := Advances.expectClose _ _ _ closes
    obtain ⟨rfl, rfl⟩ := gives_pure.mp h
    have between := ((on₄.trans on₅).trans on₆).trans (on₇.trans on₈)
    have last := on₉.trans on₁₀
    have early := (on₁.trans on₂).trans on₃
    refine ⟨(readExpr_placed (to₃.trans between) reads).mono (early.trans between).offset_le on₁₀.offset_le,
      first.mono on₁.offset_le (on₃.trans (between.trans last)).offset_le, fun b there => ?_⟩
    exact (second b there).mono early.offset_le
      ((on₅.trans on₆).trans ((on₇.trans on₈).trans last)).offset_le
  · exact (not_gives_failHere h).elim

/-! ## Attributes -/

/-- The text at a cursor is what has been read of it since a start, without its escapes. The escapes are all whole:
what follows adds what it would by itself. -/
structure Unescaping (source : List Char) (start : Nat) (data : List Char) (c : Cursor) : Prop where
  on : (Cursor.start source).Ahead c
  read : ∃ (from_ : Cursor) (seg : List Char), (Cursor.start source).Ahead from_ ∧ from_.offset = start ∧
    from_.rest = seg ++ c.rest ∧ c.offset = start + Text.byteLength seg ∧
    ∀ more, Text.unescaped (seg ++ more) = data.reverse ++ Text.unescaped more

namespace Unescaping

variable {start : Nat} {data : List Char}

/-- Nothing has been read at first. -/
theorem first (on : (Cursor.start source).Ahead c) : Unescaping source c.offset [] c :=
  ⟨on, c, [], on, rfl, rfl, rfl, fun _ => rfl⟩

theorem slice (h : Unescaping source start data c) :
    Text.unescaped (Text.slice source ⟨start, c.offset⟩) = data.reverse ∧ start ≤ c.offset ∧ Text.Boundary source start := by
  obtain ⟨-, from_, seg, on, rfl, rest, offset, whole⟩ := h
  rw [Cursor.slice_eq on rest offset]
  have same := whole []
  rw [List.append_nil] at same
  exact ⟨same.trans (List.append_nil _), by omega, Cursor.boundary on⟩

/-- More is read that adds to the text what it would by itself. -/
theorem further {n a r : List Char} (h : Unescaping source start data c) (rest : c.rest = n ++ r)
    (adds : ∀ more, Text.unescaped (n ++ more) = a ++ Text.unescaped more) :
    Unescaping source start (a.reverse ++ data) (c.skip n.length) := by
  obtain ⟨on, from_, seg, fromOn, rfl, before, offset, whole⟩ := h
  have here : c.skip n.length = ⟨c.offset + Text.byteLength n, r⟩ := by
    rw [show c = ⟨c.offset, n ++ r⟩ by rw [← rest], Cursor.skip_append]
  refine ⟨on.trans (c.ahead_skip _), from_, seg ++ n, fromOn, rfl, ?_, ?_, fun more => ?_⟩
  · rw [here, before, rest, List.append_assoc]
  · rw [here, offset, Text.byteLength_append, Nat.add_assoc]
  · rw [List.append_assoc, whole, adds]
    simp

/-- The text node of what was read, left out if that is nothing. -/
theorem attributeText (h : Unescaping source start data c) :
    Node.Adjoin source start (attributeText start c.offset data.reverse) c.offset ∧
      Node.FaithfulAll source (attributeText start c.offset data.reverse) := by
  obtain ⟨same, le, boundary⟩ := h.slice
  unfold Grammar.attributeText
  split
  · next none =>
    refine ⟨?_, trivial⟩
    obtain ⟨-, from_, seg, on, rfl, rest, offset, whole⟩ := h
    show from_.offset = c.offset
    have empty := whole []
    rw [none, List.append_nil] at empty
    rw [offset, Text.unescaped_eq_nil empty]
    rfl
  · refine ⟨⟨rfl, le, boundary, Cursor.boundary h.on, rfl⟩, ?_, trivial⟩
    show (String.ofList _).toList = _
    rw [String.toList_ofList, same]

end Unescaping

/-- The parts of a quoted value lie one after the other, up to the closing quote. -/
theorem readQuoted_faithful {opening : Nat} {quote : Char} {fuel start : Nat} {data : List Char} {parts : List Node}
    (text : Unescaping source start data c)
    (h : Gives (readQuoted opening quote fuel start data) c parts c') :
    Node.Adjoin source start parts c'.offset ∧ Node.FaithfulAll source parts ∧ c'.rest.head? = some quote := by
  induction fuel generalizing start data c parts with
  | zero => exact (not_gives_failEnd h).elim
  | succ fuel ih =>
    obtain ⟨_, c₁, look, h⟩ := gives_bind.mp h
    obtain ⟨here, rfl⟩ := gives_rest.mp look
    split at h
    · obtain ⟨_, _, _, h⟩ := gives_bind.mp h
      exact (not_gives_failAt h).elim
    · next d r =>
      split at h
      · next closes =>
        obtain ⟨_, c₁, look, h⟩ := gives_bind.mp h
        obtain ⟨rfl, rfl⟩ := gives_offset.mp look
        obtain ⟨rfl, rfl⟩ := gives_pure.mp h
        obtain ⟨adjoin, faithful⟩ := text.attributeText
        exact ⟨adjoin, faithful, by rw [here, closes]; rfl⟩
      · split at h
        · next backslash =>
          subst backslash
          split at h
          · -- A backslash at the end of the source is followed by no quote.
            obtain ⟨_, c₁, skips, h⟩ := gives_bind.mp h
            obtain rfl := gives_skip.mp skips
            have none : (c.skip 1).rest = [] := by
              rw [show c = ⟨c.offset, ['\\']⟩ by rw [← here]]
              rfl
            cases fuel with
            | zero => exact (not_gives_failEnd h).elim
            | succ fuel =>
              obtain ⟨_, c₁, look, h⟩ := gives_bind.mp h
              obtain ⟨here, rfl⟩ := gives_rest.mp look
              rw [none] at here
              subst here
              obtain ⟨_, _, _, h⟩ := gives_bind.mp h
              exact (not_gives_failAt h).elim
          · next e r =>
            obtain ⟨_, c₁, skips, h⟩ := gives_bind.mp h
            obtain rfl := gives_skip.mp skips
            exact ih (text.further (n := ['\\', e]) (a := [e]) here fun more => Text.unescaped_escape e more) h
        · next unescaped =>
          split at h
          · obtain ⟨_, c₁, look, h⟩ := gives_bind.mp h
            obtain ⟨rfl, rfl⟩ := gives_offset.mp look
            obtain ⟨_, c₂, skips, h⟩ := gives_bind.mp h
            have on₂ := Advances.skip _ _ _ _ skips
            obtain ⟨value, c₃, reads, h⟩ := gives_bind.mp h
            have on₃ := Advances.readInterpolation _ _ _ _ reads
            have to₃ := (text.on.trans on₂).trans on₃
            obtain ⟨span, faithful⟩ := readInterpolation_faithful (text.on.trans on₂) on₂.offset_le reads
            obtain ⟨_, c₄, look, h⟩ := gives_bind.mp h
            obtain ⟨rfl, rfl⟩ := gives_offset.mp look
            obtain ⟨more, c₅, later, h⟩ := gives_bind.mp h
            obtain ⟨rfl, rfl⟩ := gives_pure.mp h
            obtain ⟨adjoin, faithfulMore, closes⟩ := ih (.first to₃) later
            obtain ⟨before, faithfulBefore⟩ := text.attributeText
            refine ⟨Node.adjoin_append before ?_, Node.faithfulAll_append.mpr ⟨faithfulBefore, faithful, faithfulMore⟩,
              closes⟩
            rw [Node.Adjoin, span]
            exact ⟨rfl, (on₂.trans on₃).offset_le, Cursor.boundary text.on, Cursor.boundary to₃, adjoin⟩
          · obtain ⟨_, c₁, skips, h⟩ := gives_bind.mp h
            obtain rfl := gives_skip.mp skips
            exact ih (text.further (n := [d]) (a := [d]) here fun more => Text.unescaped_cons unescaped more) h

theorem readQuotedValue_faithful {quote : Char} {parts : List Node} (on : (Cursor.start source).Ahead c)
    (h : Gives (readQuotedValue quote) c parts c') :
    (∃ a b, c.offset ≤ a ∧ b ≤ c'.offset ∧ Node.Adjoin source a parts b) ∧ Node.FaithfulAll source parts := by
  obtain ⟨_, c₁, look, h⟩ := gives_bind.mp h
  obtain ⟨rfl, rfl⟩ := gives_offset.mp look
  obtain ⟨_, c₁, skips, h⟩ := gives_bind.mp h
  have on₁ := Advances.skip _ _ _ _ skips
  obtain ⟨_, c₂, look, h⟩ := gives_bind.mp h
  obtain ⟨rfl, rfl⟩ := gives_offset.mp look
  obtain ⟨_, c₂, look, h⟩ := gives_bind.mp h
  obtain ⟨-, rfl⟩ := gives_rest.mp look
  obtain ⟨parts', c₂, reads, h⟩ := gives_bind.mp h
  have on₂ := Advances.readQuoted _ _ _ _ _ _ _ _ reads
  obtain ⟨adjoin, faithful, -⟩ := readQuoted_faithful (.first (on.trans on₁)) reads
  obtain ⟨_, c₃, look, h⟩ := gives_bind.mp h
  obtain ⟨rfl, rfl⟩ := gives_offset.mp look
  obtain ⟨_, c₃, skips, h⟩ := gives_bind.mp h
  have on₃ := Advances.skip _ _ _ _ skips
  obtain ⟨rfl, rfl⟩ := gives_pure.mp h
  split
  · next empty =>
    obtain rfl := List.isEmpty_iff.mp empty
    have same : c₁.offset = c₂.offset := adjoin
    refine ⟨⟨c₁.offset, c₂.offset, on₁.offset_le, on₃.offset_le, rfl, on₂.offset_le, Cursor.boundary (on.trans on₁),
      Cursor.boundary ((on.trans on₁).trans on₂), rfl⟩, ?_, trivial⟩
    show [] = Text.unescaped (Text.slice source ⟨c₁.offset, c₂.offset⟩)
    rw [← same, Cursor.slice_eq (d := c₁) (on.trans on₁) (List.nil_append _).symm rfl]
    rfl
  · exact ⟨⟨_, _, on₁.offset_le, on₃.offset_le, adjoin⟩, faithful⟩

theorem readAttribute_faithful {a : Attribute} (on : (Cursor.start source).Ahead c) (h : Gives readAttribute c a c') :
    Node.FaithfulAttributes source c.offset c'.offset [a] := by
  have whole := Advances.readAttribute _ _ _ h
  obtain ⟨_, c₁, look, h⟩ := gives_bind.mp h
  obtain ⟨rfl, rfl⟩ := gives_offset.mp look
  obtain ⟨name, c₁, takes, h⟩ := gives_bind.mp h
  obtain ⟨found, rfl⟩ := gives_takeWhile.mp takes
  split at h
  · obtain ⟨_, _, _, h⟩ := gives_bind.mp h
    exact (not_gives_failHere h).elim
  · next named =>
    -- A name is not empty.
    have past : c.offset < (c.skipWhile isAttributeChar).offset := by
      rw [Cursor.skipWhile_eq, found]
      cases name with
      | nil => exact (named rfl).elim
      | cons d r =>
        have := d.utf8Size_pos
        rw [Text.byteLength]
        dsimp only
        omega
    have on₁ := c.ahead_skipWhile isAttributeChar
    obtain ⟨bare, c₂, look, h⟩ := gives_bind.mp h
    obtain ⟨rfl, rfl⟩ := gives_get.mp look
    obtain ⟨_, c₂, skips, h⟩ := gives_bind.mp h
    have on₂ := Advances.skipSpaces _ _ _ skips
    obtain ⟨_, c₃, look, h⟩ := gives_bind.mp h
    obtain ⟨-, rfl⟩ := gives_current?.mp look
    split at h
    · obtain ⟨_, c₃, back, h⟩ := gives_bind.mp h
      obtain rfl := gives_set.mp back
      obtain ⟨rfl, rfl⟩ := gives_pure.mp h
      exact ⟨.ofCursors on on₁ past (Nat.le_refl _) (Nat.le_refl _), trivial⟩
    · obtain ⟨_, c₃, skips, h⟩ := gives_bind.mp h
      have on₃ := Advances.skip _ _ _ _ skips
      obtain ⟨_, c₄, skips, h⟩ := gives_bind.mp h
      have on₄ := Advances.skipSpaces _ _ _ skips
      obtain ⟨parts, c₅, reads, h⟩ := gives_bind.mp h
      obtain ⟨_, c₆, look, h⟩ := gives_bind.mp h
      obtain ⟨rfl, rfl⟩ := gives_offset.mp look
      obtain ⟨rfl, rfl⟩ := gives_pure.mp h
      have before := on₁.trans (on₂.trans (on₃.trans on₄))
      have to₄ := on.trans before
      have value : c₄.Ahead c₅ ∧ (∃ a b, c₄.offset ≤ a ∧ b ≤ c₅.offset ∧ Node.Adjoin source a parts b) ∧
          Node.FaithfulAll source parts := by
        obtain ⟨_, c₆, look, reads⟩ := gives_bind.mp reads
        obtain ⟨-, rfl⟩ := gives_rest.mp look
        split at reads
        · obtain ⟨_, _, _, reads⟩ := gives_bind.mp reads
          exact (not_gives_failAt reads).elim
        · exact ⟨Advances.readQuotedValue _ _ _ _ reads, readQuotedValue_faithful to₄ reads⟩
        · exact ⟨Advances.readQuotedValue _ _ _ _ reads, readQuotedValue_faithful to₄ reads⟩
        · obtain ⟨_, c₆, look, reads⟩ := gives_bind.mp reads
          obtain ⟨rfl, rfl⟩ := gives_offset.mp look
          obtain ⟨_, c₆, skips, reads⟩ := gives_bind.mp reads
          have on₆ := Advances.skip _ _ _ _ skips
          obtain ⟨value, c₇, inner, reads⟩ := gives_bind.mp reads
          have on₇ := Advances.readInterpolation _ _ _ _ inner
          obtain ⟨rfl, rfl⟩ := gives_pure.mp reads
          obtain ⟨span, faithful⟩ := readInterpolation_faithful (to₄.trans on₆) on₆.offset_le inner
          refine ⟨on₆.trans on₇, ⟨_, _, Nat.le_refl _, Nat.le_refl _, ?_⟩, faithful, trivial⟩
          rw [Node.Adjoin, span]
          exact ⟨rfl, (on₆.trans on₇).offset_le, Cursor.boundary to₄, Cursor.boundary (to₄.trans (on₆.trans on₇)), rfl⟩
        · exact (not_gives_failHere reads).elim
      obtain ⟨on₅, ⟨a, b, first, last, adjoin⟩, faithful⟩ := value
      refine ⟨.ofCursors on whole (Nat.lt_of_lt_of_le past ((on₂.trans (on₃.trans on₄)).trans on₅).offset_le)
        (Nat.le_refl _) (Nat.le_refl _), ⟨a, b, Nat.le_trans before.offset_le first, last, adjoin⟩, faithful, trivial⟩

theorem readAttributes_faithful {start lo fuel : Nat} {found attributes : List Attribute} {alone : Bool}
    (on : (Cursor.start source).Ahead c) (from_ : lo ≤ c.offset)
    (before : Node.FaithfulAttributes source lo c.offset found)
    (h : Gives (readAttributes start fuel found) c (attributes, alone) c') :
    Node.FaithfulAttributes source lo c'.offset attributes := by
  induction fuel generalizing c found with
  | zero => exact (not_gives_failEnd h).elim
  | succ fuel ih =>
    obtain ⟨_, c₁, skips, h⟩ := gives_bind.mp h
    have on₁ := Advances.skipSpaces _ _ _ skips
    obtain ⟨_, c₂, look, h⟩ := gives_bind.mp h
    obtain ⟨-, rfl⟩ := gives_rest.mp look
    have ends : ∀ {n : Nat} {flag : Bool}, Gives (do skip n; return (found, flag)) c₁ (attributes, alone) c' →
        Node.FaithfulAttributes source lo c'.offset attributes := by
      intro n flag h
      obtain ⟨_, c₂, skips, h⟩ := gives_bind.mp h
      have on₂ := Advances.skip _ _ _ _ skips
      obtain ⟨same, rfl⟩ := gives_pure.mp h
      cases same
      exact before.mono (Nat.le_refl _) (on₁.trans on₂).offset_le
    split at h
    · obtain ⟨_, _, _, h⟩ := gives_bind.mp h
      exact (not_gives_failAt h).elim
    · exact ends h
    · exact ends h
    · obtain ⟨next, c₂, reads, h⟩ := gives_bind.mp h
      have on₂ := Advances.readAttribute _ _ _ reads
      split at h
      · exact (not_gives_failAt h).elim
      · have both := on₁.trans on₂
        exact ih (on.trans both) (Nat.le_trans from_ both.offset_le)
          ((before.mono (Nat.le_refl _) both.offset_le).append
            ((readAttribute_faithful (on.trans on₁) reads).mono (Nat.le_trans from_ on₁.offset_le) (Nat.le_refl _))) h

/-! ## Documents -/

/-- What is read says what its source does. -/
def Part.Faithful (source : List Char) : Part → Cursor → Prop
  | .nodes _ _ body _ _, _ => Node.FaithfulAll source body
  | .next _ _ (.node n _), _ => n.Faithful source
  | .next _ _ (.ending _), _ => True
  | .block _ start _ n _, c => start ≤ c.offset → n.Faithful source
  | .branches _ _ body none _, _ => Node.FaithfulAll source body
  | .branches _ _ body (some other) _, _ => Node.FaithfulAll source body ∧ Node.FaithfulAll source other
  | .element _ _ n _, _ => n.Faithful source

theorem HasAttributes.faithful {tag : Tag} {attributes : List Attribute} {alone : Bool}
    (on : (Cursor.start source).Ahead c) (h : HasAttributes tag c attributes alone c') {hi : Nat}
    (last : c'.offset ≤ hi) : Node.FaithfulAttributes source c.offset hi attributes :=
  have none : Node.FaithfulAttributes source c.offset (afterName tag c).offset [] := trivial
  (readAttributes_faithful (on.trans (c.ahead_skip _)) (c.ahead_skip _).offset_le none h).mono (Nat.le_refl _) last

theorem leadOf_header_eq {root : Bool} {seen : Seen} {text : List Char} (h : leadOf root seen text = .header) :
    ∃ r, text = Node.headerMark ++ r := by
  unfold leadOf at h
  repeat' split at h
  all_goals cases h
  next mark => exact atHeaderMark_eq (by simp only [Bool.and_eq_true] at mark; exact mark.1.1.1)

theorem Reads.faithful {part : Part} (h : Reads part c c') (on : (Cursor.start source).Ahead c) :
    part.Faithful source c := by
  induction h with
  | done => trivial
  | more first _ ih ih' => exact ⟨ih on, ih' (on.trans first.ahead)⟩
  | source | mark | close => trivial
  | block _ _ _ ih => exact ih (on.trans (ahead_afterBraces ..)) (ahead_afterBraces ..).offset_le
  | value _ _ reads =>
    exact (readInterpolation_faithful (on.trans (ahead_afterBraces ..)) (ahead_afterBraces ..).offset_le reads).2
  | comment lead reads =>
    obtain ⟨marks, r, text⟩ := leadOf_comment_eq lead
    exact readComment_faithful on marks text reads
  | tag _ _ ih => exact ih on
  | header lead reads =>
    obtain ⟨r, text⟩ := leadOf_header_eq lead
    exact readHeader_faithful on text reads
  | text _ reads => exact readText_faithful on reads
  | @choice start _ _ test body otherwise c c₁ c' head reads ih =>
    intro before
    have on₁ := Advances.readChoiceHead _ _ _ head
    have placed := (readChoiceHead_placed on head).mono before reads.ahead.offset_le
    have inside := ih (on.trans on₁)
    cases otherwise with
    | none => exact ⟨placed, inside⟩
    | some other => exact ⟨placed, inside⟩
  | @loop start _ _ body otherwise c c₁ c' head heads reads ih =>
    intro before
    have on₁ := Advances.readLoopHead _ _ _ heads
    obtain ⟨items, item, index⟩ := readLoopHead_within on heads
    have last := reads.ahead.offset_le
    have inside := ih (on.trans on₁)
    cases otherwise with
    | none => exact ⟨items.mono before last, item.mono before last, fun b there => (index b there).mono before last, inside⟩
    | some other =>
      exact ⟨items.mono before last, item.mono before last, fun b there => (index b there).mono before last, inside⟩
  | single _ _ ih => exact ih on
  | double reads _ _ ih ih' => exact ⟨ih on, ih' (on.trans reads.ahead)⟩
  | alone head => exact ⟨head.faithful on (Nat.le_refl _), trivial⟩
  | around head reads ih => exact ⟨head.faithful on reads.ahead.offset_le, ih (on.trans head.ahead)⟩

/-- **A document that has been read says what its source does.** -/
theorem faithfulAll_of_parse {source : List Char} {d : Document} (h : Document.parse source = .ok d) :
    Node.FaithfulAll source d.body := by
  obtain ⟨seen, c, reads, -, -⟩ := reads_of_parse h
  exact reads.faithful (.refl _)

end Grammar

/-! ## Literals -/

namespace Node

variable {source : List Char}

mutual

/-- The literals of a document that has been read are single values. -/
theorem Faithful.isSingle : ∀ {n : Node}, n.Faithful source → ∀ v ∈ n.literals, v.isSingle = true
  | .text .., _ | .comment .., _ | .config .., _ => fun _ none => (List.not_mem_nil none).elim
  | .interpolation .., h => h.laid.isSingle
  | .choice _ _ _ none _, h => List.forall_mem_append.mpr ⟨h.1.laid.isSingle, FaithfulAll.isSingle h.2⟩
  | .choice _ _ _ (some _) _, h => List.forall_mem_append.mpr
    ⟨List.forall_mem_append.mpr ⟨h.1.laid.isSingle, FaithfulAll.isSingle h.2.1⟩, FaithfulAll.isSingle h.2.2⟩
  | .loop _ _ _ _ _ none _, h => List.forall_mem_append.mpr ⟨h.1.laid.isSingle, FaithfulAll.isSingle h.2.2.2⟩
  | .loop _ _ _ _ _ (some _) _, h => List.forall_mem_append.mpr
    ⟨List.forall_mem_append.mpr ⟨h.1.laid.isSingle, FaithfulAll.isSingle h.2.2.2.1⟩, FaithfulAll.isSingle h.2.2.2.2⟩
  | .element .., h => List.forall_mem_append.mpr ⟨FaithfulAttributes.isSingle h.1, FaithfulAll.isSingle h.2⟩
  | .group .., h => FaithfulAll.isSingle h

theorem FaithfulAll.isSingle : ∀ {nodes : List Node}, FaithfulAll source nodes →
    ∀ v ∈ literalsOfAll nodes, v.isSingle = true
  | [], _ => fun _ none => (List.not_mem_nil none).elim
  | _ :: _, h => List.forall_mem_append.mpr ⟨Faithful.isSingle h.1, FaithfulAll.isSingle h.2⟩

theorem FaithfulAttributes.isSingle {lo hi : Nat} : ∀ {attributes : List Attribute},
    FaithfulAttributes source lo hi attributes → ∀ v ∈ literalsOfAttributes attributes, v.isSingle = true
  | [], _ => fun _ none => (List.not_mem_nil none).elim
  | .mk _ _ .flag :: r, h =>
    have later : FaithfulAttributes source lo hi r := h.2
    fun v there => FaithfulAttributes.isSingle later v there
  | .mk _ _ (.nodes _) :: _, h => List.forall_mem_append.mpr
    ⟨FaithfulAll.isSingle h.2.2.1, FaithfulAttributes.isSingle h.2.2.2⟩

end

end Node

/-- **The literals of a document are single values.** -/
theorem Document.isSingle_of_parse {source : List Char} {d : Document} (h : parse source = .ok d) :
    ∀ v ∈ d.literals, v.isSingle = true :=
  (Grammar.faithfulAll_of_parse h).isSingle

end PromptScript
