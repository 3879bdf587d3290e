import PromptScript.Proofs.Derivations

/-! # Where nodes stand

The nodes of a document that has been read lie one after the other in its source, each between two characters, and
those in a block or tag lie within it. None of them is empty, and none has marks. -/
namespace PromptScript

/-- An offset between two characters of a text, or at one of its ends. -/
def Text.Boundary (text : List Char) (o : Nat) : Prop := ∃ a b, text = a ++ b ∧ byteLength a = o

namespace Node

mutual

/-- The nodes in a node lie within its span; of two branches the other lies behind the body. -/
def Laid (source : List Char) : Node → Prop
  | text _ _ _ | comment _ _ _ | config _ _ _ | interpolation _ _ _ => True
  | choice span _ body none _ => ∃ a b, span.start ≤ a ∧ b ≤ span.stop ∧ LaidAll source a body b
  | choice span _ body (some other) _ =>
    ∃ a b c d, span.start ≤ a ∧ b ≤ c ∧ d ≤ span.stop ∧ LaidAll source a body b ∧ LaidAll source c other d
  | loop span _ _ _ body none _ => ∃ a b, span.start ≤ a ∧ b ≤ span.stop ∧ LaidAll source a body b
  | loop span _ _ _ body (some other) _ =>
    ∃ a b c d, span.start ≤ a ∧ b ≤ c ∧ d ≤ span.stop ∧ LaidAll source a body b ∧ LaidAll source c other d
  | element span _ _ body _ => ∃ a b, span.start ≤ a ∧ b ≤ span.stop ∧ LaidAll source a body b
  | group span body _ => ∃ a b, span.start ≤ a ∧ b ≤ span.stop ∧ LaidAll source a body b

/-- Nodes lie one after the other between two offsets. -/
def LaidAll (source : List Char) : Nat → List Node → Nat → Prop
  | a, [], b => a = b
  | a, n :: r, b =>
    n.span.start = a ∧ n.span.start < n.span.stop ∧ Text.Boundary source n.span.start ∧
      Text.Boundary source n.span.stop ∧ Laid source n ∧ LaidAll source n.span.stop r b

end

end Node

namespace Cursor

variable {c c' : Cursor} {source : List Char}

theorem boundary (h : (Cursor.start source).Ahead c) : Text.Boundary source c.offset := by
  obtain ⟨read, rest, offset⟩ := h
  exact ⟨read, c.rest, rest, by rw [offset]; simp [Cursor.start]⟩

theorem offset_lt_skip {n : Nat} (some : c.rest ≠ []) (positive : 0 < n) : c.offset < (c.skip n).offset := by
  obtain ⟨offset, _ | ⟨d, r⟩⟩ := c
  · exact (some rfl).elim
  · obtain ⟨n, rfl⟩ := Nat.exists_eq_add_of_lt positive
    have further := (ahead_skip (0 + n) ⟨offset + d.utf8Size, r⟩).offset_le
    have size := d.utf8Size_pos
    show offset < (skip (0 + n) ⟨offset + d.utf8Size, r⟩).offset
    dsimp only at further
    omega

end Cursor

namespace Grammar

/-! ## Derivations go forward -/

theorem ahead_afterBraces (c : Cursor) (n : Nat) : c.Ahead ((afterBraces c).skip n) :=
  .trans (.trans (c.ahead_skip 2) (Cursor.ahead_skipWhile ..)) (Cursor.ahead_skip ..)

theorem HasAttributes.ahead {tag : Tag} {c c' : Cursor} {attributes : List Attribute} {alone : Bool}
    (h : HasAttributes tag c attributes alone c') : c.Ahead c' :=
  .trans (c.ahead_skip _) (Advances.readAttributes _ _ _ _ _ _ h)

theorem Reads.ahead {part : Part} {c c' : Cursor} (h : Reads part c c') : c.Ahead c' := by
  induction h with
  | done _ ih => exact ih
  | more _ _ ih ih' => exact ih.trans ih'
  | source => exact .refl _
  | mark _ _ closes => exact (ahead_afterBraces ..).trans (Advances.expectClose _ _ _ closes)
  | close _ closes => exact Advances.readClosing _ _ _ _ closes
  | block _ _ _ ih => exact (ahead_afterBraces ..).trans ih
  | value _ _ reads => exact (ahead_afterBraces ..).trans (Advances.readInterpolation _ _ _ _ reads)
  | comment _ reads => exact Advances.readComment _ _ _ _ _ reads
  | tag _ _ ih => exact ih
  | header _ reads => exact Advances.readHeader _ _ _ reads
  | text _ reads => exact Advances.readText _ _ _ _ reads
  | choice head _ ih => exact (Advances.readChoiceHead _ _ _ head).trans ih
  | loop heads _ ih => exact (Advances.readLoopHead _ _ _ heads).trans ih
  | single _ _ ih => exact ih
  | double _ _ _ ih ih' => exact ih.trans ih'
  | alone head => exact head.ahead
  | around head _ ih => exact head.ahead.trans ih

/-! ## Leaves -/

theorem rest_ne_nil {root : Bool} {seen : Seen} {text : List Char} (h : leadOf root seen text ≠ .nothing) :
    text ≠ [] := by
  rintro rfl
  exact h rfl

theorem leadOf_comment {root : Bool} {seen : Seen} {text opening closing : List Char}
    (h : leadOf root seen text = .comment opening closing) : opening ≠ [] := by
  unfold leadOf at h
  repeat' split at h
  all_goals cases h
  all_goals decide

theorem readComment_gives {opening closing : List Char} {c c' : Cursor} {node : Node}
    (h : Gives (readComment opening closing) c node c') :
    ∃ data, node = .comment ⟨c.offset, c'.offset⟩ data none ∧ (c.skip opening.length).Ahead c' := by
  obtain ⟨_, c₁, here, h⟩ := gives_bind.mp h
  obtain ⟨rfl, rfl⟩ := gives_offset.mp here
  obtain ⟨_, c₁, here, h⟩ := gives_bind.mp h
  obtain ⟨rfl, rfl⟩ := gives_sourceEnd.mp here
  obtain ⟨_, c₁, skips, h⟩ := gives_bind.mp h
  obtain rfl := gives_skip.mp skips
  obtain ⟨_, c₁, here, h⟩ := gives_bind.mp h
  obtain ⟨rfl, rfl⟩ := gives_rest.mp here
  split at h
  · exact (not_gives_failAt h).elim
  · next data _ =>
    obtain ⟨_, c₁, skips, h⟩ := gives_bind.mp h
    obtain rfl := gives_skip.mp skips
    obtain ⟨_, c₁, here, h⟩ := gives_bind.mp h
    obtain ⟨rfl, rfl⟩ := gives_offset.mp here
    obtain ⟨rfl, rfl⟩ := gives_pure.mp h
    exact ⟨_, rfl, Cursor.ahead_skip ..⟩

theorem readHeader_gives {c c' : Cursor} {node : Node} (h : Gives readHeader c node c') :
    ∃ data, node = .config ⟨c.offset, c'.offset⟩ data none ∧ (c.skip 3).Ahead c' := by
  obtain ⟨_, c₁, here, h⟩ := gives_bind.mp h
  obtain ⟨rfl, rfl⟩ := gives_offset.mp here
  obtain ⟨_, c₁, here, h⟩ := gives_bind.mp h
  obtain ⟨rfl, rfl⟩ := gives_sourceEnd.mp here
  obtain ⟨_, c₁, skips, h⟩ := gives_bind.mp h
  obtain rfl := gives_skip.mp skips
  obtain ⟨_, c₁, here, h⟩ := gives_bind.mp h
  obtain ⟨rfl, rfl⟩ := gives_rest.mp here
  split at h
  · exact (not_gives_failAt h).elim
  · obtain ⟨_, c₁, skips, h⟩ := gives_bind.mp h
    obtain rfl := gives_skip.mp skips
    obtain ⟨_, c₁, here, h⟩ := gives_bind.mp h
    obtain ⟨rfl, rfl⟩ := gives_offset.mp here
    obtain ⟨rfl, rfl⟩ := gives_pure.mp h
    exact ⟨_, rfl, Cursor.ahead_skip ..⟩

theorem readInterpolation_gives {start : Nat} {c c' : Cursor} {node : Node}
    (h : Gives (readInterpolation start) c node c') : ∃ e, node = .interpolation ⟨start, c'.offset⟩ e none := by
  obtain ⟨_, c₁, -, h⟩ := gives_bind.mp h
  obtain ⟨e, c₂, -, h⟩ := gives_bind.mp h
  obtain ⟨_, c₃, -, h⟩ := gives_bind.mp h
  obtain ⟨_, c₄, here, h⟩ := gives_bind.mp h
  obtain ⟨rfl, rfl⟩ := gives_offset.mp here
  obtain ⟨rfl, rfl⟩ := gives_pure.mp h
  exact ⟨e, rfl⟩

/-- A text is not empty: what stands at its start belongs to it. -/
theorem readText_gives {content content' : Bool} {c c' : Cursor} {node : Node} (some : c.rest ≠ [])
    (h : Gives (readText content) c (node, content') c') :
    ∃ data, node = .text ⟨c.offset, c'.offset⟩ data none ∧ c.offset < c'.offset := by
  obtain ⟨same, rfl⟩ := gives_readText.mp h
  cases same
  refine ⟨_, rfl, ?_⟩
  obtain ⟨offset, _ | ⟨d, r⟩⟩ := c
  · exact (some rfl).elim
  · have past (state : TextState) (blank : Bool) :
        offset < (scanText content state blank (offset + d.utf8Size) r).2.offset := by
      have further := (Advances.ahead_scanText content state blank (offset + d.utf8Size) r).offset_le
      have size := d.utf8Size_pos
      dsimp only at further
      omega
    show offset < (scanText content .first true offset (d :: r)).2.offset
    unfold scanText
    dsimp only
    split
    · exact past ..
    · exact past ..

/-! ## Derivations lay nodes out -/

/-- What is read lies between the cursors; a node takes up all that is read for it. -/
def Part.Laid (source : List Char) : Part → Cursor → Cursor → Prop
  | .nodes _ _ body e _, c, c' =>
    ∃ b, Node.LaidAll source c.offset body b ∧ b ≤ c'.offset ∧ (e = .source → b = c'.offset)
  | .next _ _ (.node n _), c, c' =>
    n.span = ⟨c.offset, c'.offset⟩ ∧ c.offset < c'.offset ∧ n.Laid source
  | .next _ _ (.ending e), c, c' => e = .source → c = c'
  | .block _ start _ n _, c, c' => start ≤ c.offset → n.span = ⟨start, c'.offset⟩ ∧ n.Laid source
  | .branches _ _ body none _, c, c' => ∃ a b, c.offset ≤ a ∧ b ≤ c'.offset ∧ Node.LaidAll source a body b
  | .branches _ _ body (some other) _, c, c' =>
    ∃ a b d e, c.offset ≤ a ∧ b ≤ d ∧ e ≤ c'.offset ∧ Node.LaidAll source a body b ∧ Node.LaidAll source d other e
  | .element _ _ n _, c, c' => c.rest ≠ [] → n.span = ⟨c.offset, c'.offset⟩ ∧ c.offset < c'.offset ∧ n.Laid source

theorem Reads.laid {source : List Char} {part : Part} {c c' : Cursor} (h : Reads part c c')
    (inside : (Cursor.start source).Ahead c) : part.Laid source c c' := by
  induction h with
  | done last ih =>
    exact ⟨_, rfl, last.ahead.offset_le, fun same => congrArg Cursor.offset (ih inside same)⟩
  | @more _ _ _ _ _ _ _ c c₁ c₂ first rest ih ih' =>
    obtain ⟨span, positive, laid⟩ := ih inside
    have next := inside.trans first.ahead
    obtain ⟨b, laidAll, le, stop⟩ := ih' next
    refine ⟨b, ?_, le, stop⟩
    rw [Node.LaidAll, span]
    exact ⟨rfl, positive, Cursor.boundary inside, Cursor.boundary next, laid, laidAll⟩
  | source => exact fun _ => rfl
  | mark _ opens _ =>
    intro same
    rcases openingAt_ending opens with rfl | rfl | rfl <;> cases same
  | close _ _ => exact nofun
  | @block _ _ _ _ length _ c _ lead _ reads ih =>
    have past : c.offset < (c.skip 2).offset :=
      Cursor.offset_lt_skip (rest_ne_nil (by rw [lead]; exact nofun)) (by decide)
    have on : (c.skip 2).Ahead ((afterBraces c).skip length) :=
      .trans (Cursor.ahead_skipWhile ..) (Cursor.ahead_skip ..)
    obtain ⟨span, laid⟩ := ih (inside.trans (ahead_afterBraces c length)) (ahead_afterBraces c length).offset_le
    exact ⟨span, Nat.lt_of_lt_of_le past (on.trans reads.ahead).offset_le, laid⟩
  | @value _ _ length _ c _ lead _ reads =>
    have past : c.offset < (c.skip 2).offset :=
      Cursor.offset_lt_skip (rest_ne_nil (by rw [lead]; exact nofun)) (by decide)
    have on : (c.skip 2).Ahead ((afterBraces c).skip length) :=
      .trans (Cursor.ahead_skipWhile ..) (Cursor.ahead_skip ..)
    obtain ⟨e, rfl⟩ := readInterpolation_gives reads
    exact ⟨rfl, Nat.lt_of_lt_of_le past (on.trans (Advances.readInterpolation _ _ _ _ reads)).offset_le, trivial⟩
  | comment lead reads =>
    obtain ⟨data, rfl, on⟩ := readComment_gives reads
    have past := Cursor.offset_lt_skip (rest_ne_nil (by rw [lead]; exact nofun))
      (List.length_pos_iff.mpr (leadOf_comment lead))
    exact ⟨rfl, Nat.lt_of_lt_of_le past on.offset_le, trivial⟩
  | tag lead _ ih => exact ih inside (rest_ne_nil (by rw [lead]; exact nofun))
  | header lead reads =>
    obtain ⟨data, rfl, on⟩ := readHeader_gives reads
    have past := Cursor.offset_lt_skip (n := 3) (rest_ne_nil (by rw [lead]; exact nofun)) (by decide)
    exact ⟨rfl, Nat.lt_of_lt_of_le past on.offset_le, trivial⟩
  | text lead reads =>
    obtain ⟨data, rfl, past⟩ := readText_gives (rest_ne_nil (by rw [lead]; exact nofun)) reads
    exact ⟨rfl, past, trivial⟩
  | @choice _ _ _ _ _ otherwise _ _ _ head _ ih =>
    intro before
    have on := Advances.readChoiceHead _ _ _ head
    have branches := ih (inside.trans on)
    have before := Nat.le_trans before on.offset_le
    refine ⟨rfl, ?_⟩
    cases otherwise with
    | none =>
      obtain ⟨a, b, first, last, laid⟩ := branches
      exact ⟨a, b, Nat.le_trans before first, last, laid⟩
    | some other =>
      obtain ⟨a, b, d, e, first, between, last, laid⟩ := branches
      exact ⟨a, b, d, e, Nat.le_trans before first, between, last, laid⟩
  | @loop _ _ _ _ otherwise _ _ _ _ heads _ ih =>
    intro before
    have on := Advances.readLoopHead _ _ _ heads
    have branches := ih (inside.trans on)
    have before := Nat.le_trans before on.offset_le
    refine ⟨rfl, ?_⟩
    cases otherwise with
    | none =>
      obtain ⟨a, b, first, last, laid⟩ := branches
      exact ⟨a, b, Nat.le_trans before first, last, laid⟩
    | some other =>
      obtain ⟨a, b, d, e, first, between, last, laid⟩ := branches
      exact ⟨a, b, d, e, Nat.le_trans before first, between, last, laid⟩
  | single _ _ ih =>
    obtain ⟨b, laid, le, -⟩ := ih inside
    exact ⟨_, b, Nat.le_refl _, le, laid⟩
  | double reads _ _ ih ih' =>
    obtain ⟨b, laid, le, -⟩ := ih inside
    obtain ⟨e, laid', le', -⟩ := ih' (inside.trans reads.ahead)
    exact ⟨_, b, _, e, Nat.le_refl _, le, le', laid, laid'⟩
  | alone head =>
    intro some
    have on := Advances.readAttributes _ _ _ _ _ _ head
    have past := Nat.lt_of_lt_of_le (Cursor.offset_lt_skip some (by omega)) on.offset_le
    exact ⟨rfl, past, _, _, Nat.le_of_lt past, Nat.le_refl _, rfl⟩
  | around head reads ih =>
    intro some
    have on := Advances.readAttributes _ _ _ _ _ _ head
    have past := Nat.lt_of_lt_of_le (Cursor.offset_lt_skip some (by omega)) on.offset_le
    obtain ⟨b, laid, last, -⟩ := ih (inside.trans head.ahead)
    exact ⟨rfl, Nat.lt_of_lt_of_le past reads.ahead.offset_le, _, b, Nat.le_of_lt past, last, laid⟩

/-- **The nodes of a document tile its source.** -/
theorem laidAll_of_parse {source : List Char} {d : Document} (h : Document.parse source = .ok d) :
    d.span = ⟨0, Text.byteLength source⟩ ∧ Node.LaidAll source 0 d.body (Text.byteLength source) := by
  obtain ⟨seen, c, reads, span, -⟩ := reads_of_parse h
  obtain ⟨read, rest, offset⟩ := reads.ahead
  have whole : c.offset = Text.byteLength source := by
    rw [reads.rest_eq_nil, List.append_nil] at rest
    rw [offset, show source = read from rest]
    simp [Cursor.start]
  obtain ⟨b, laid, -, stop⟩ := reads.laid (.refl _)
  rw [stop rfl, whole] at laid
  exact ⟨by rw [span, whole], laid⟩

/-! ## No marks -/

/-- What is read has no marks. -/
def Part.Unmarked : Part → Prop
  | .nodes _ _ body _ _ => Node.clearedAll body = body
  | .next _ _ (.node n _) => n.cleared = n
  | .next _ _ (.ending _) => True
  | .block _ _ _ n _ | .element _ _ n _ => n.cleared = n
  | .branches _ _ body none _ => Node.clearedAll body = body
  | .branches _ _ body (some other) _ => Node.clearedAll body = body ∧ Node.clearedAll other = other

theorem Reads.unmarked {part : Part} {c c' : Cursor} (h : Reads part c c') : part.Unmarked := by
  induction h with
  | done | source | mark | close => first | exact trivial | rfl
  | more _ _ ih ih' => exact List.cons_eq_cons.mpr ⟨ih, ih'⟩
  | block _ _ _ ih => exact ih
  | value _ _ reads =>
    obtain ⟨e, rfl⟩ := readInterpolation_gives reads
    rfl
  | comment _ reads =>
    obtain ⟨data, rfl, -⟩ := readComment_gives reads
    rfl
  | tag _ _ ih => exact ih
  | header _ reads =>
    obtain ⟨data, rfl, -⟩ := readHeader_gives reads
    rfl
  | text lead reads =>
    obtain ⟨data, rfl, -⟩ := readText_gives (rest_ne_nil (by rw [lead]; exact nofun)) reads
    rfl
  | @choice _ _ _ _ _ otherwise _ _ _ _ _ ih =>
    cases otherwise with
    | none => exact congrArg (Node.choice _ _ · none none) ih
    | some other =>
      obtain ⟨body, other⟩ := ih
      simp only [Part.Unmarked, Node.cleared, body, other]
  | @loop _ _ _ _ otherwise _ _ _ _ _ _ ih =>
    cases otherwise with
    | none => exact congrArg (Node.loop _ _ _ _ · none none) ih
    | some other =>
      obtain ⟨body, other⟩ := ih
      simp only [Part.Unmarked, Node.cleared, body, other]
  | single _ _ ih => exact ih
  | double _ _ _ ih ih' => exact ⟨ih, ih'⟩
  | alone _ => rfl
  | around _ _ ih => exact congrArg (Node.element _ _ _ · none) ih

/-- A document that has just been read has no marks. -/
theorem unmarked_of_parse {source : List Char} {d : Document} (h : Document.parse source = .ok d) :
    Node.clearedAll d.body = d.body ∧ d.progress = none := by
  obtain ⟨seen, c, reads, -, progress⟩ := reads_of_parse h
  exact ⟨reads.unmarked, progress⟩

end Grammar
end PromptScript
