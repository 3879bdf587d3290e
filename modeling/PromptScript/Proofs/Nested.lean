import PromptScript.Proofs.Layout
import PromptScript.Proofs.Stored

/-! # Where expressions stand

An expression that has been read lies between the cursors of its reading, no part of it is outside its span, and none
is empty. A literal in it is a single value. As an operand is never empty, a reading of one moves the cursor. -/
namespace PromptScript

/-- A span between two offsets of a source that is not empty. -/
structure Span.Within (source : List Char) (lo hi : Nat) (s : Span) : Prop where
  start : lo ≤ s.start
  forward : s.start < s.stop
  stop : s.stop ≤ hi
  first : Text.Boundary source s.start
  last : Text.Boundary source s.stop

theorem Span.Within.mono {source : List Char} {lo hi lo' hi' : Nat} {s : Span} (h : s.Within source lo hi)
    (start : lo' ≤ lo) (stop : hi ≤ hi') : s.Within source lo' hi' :=
  { h with start := Nat.le_trans start h.start, stop := Nat.le_trans h.stop stop }

theorem Span.hull_eq {a b : Span} (start : a.start ≤ b.start) (stop : a.stop ≤ b.stop) :
    a.hull b = ⟨a.start, b.stop⟩ := by
  unfold hull
  rw [Nat.min_eq_left start, Nat.max_eq_right stop]

/-- Values that a literal may have. -/
def Value.isSingle : Value → Bool
  | undefined | null | bool _ | number _ | string _ => true
  | _ => false

/-- The expressions in a key. -/
def Key.parts : Key → List Expr
  | named _ => []
  | computed e => [e]

namespace Expr

/-- The expressions in the fields of an object. -/
def partsOfFields (fields : List (Key × Expr)) : List Expr := fields.flatMap fun field => field.1.parts ++ [field.2]

/-- The expressions that an expression is made of. -/
def parts : Expr → List Expr
  | literal _ _ | identifier _ _ => []
  | array _ items | sequence _ items => items
  | object _ fields => partsOfFields fields
  | unary _ _ e | update _ _ _ e | chain _ e => [e]
  | binary _ _ a b | logical _ _ a b | assignment _ _ a b => [a, b]
  | member _ base key _ => base :: key.parts
  | conditional _ test a b => [test, a, b]
  | call _ callee arguments _ => callee :: arguments

/-- The parts of an expression lie within its span, at every depth; its literals are single values. -/
inductive Laid (source : List Char) : Expr → Prop
  | intro {e : Expr} (single : ∀ span v, e = literal span v → v.isSingle = true)
      (within : ∀ p ∈ e.parts, p.span.Within source e.span.start e.span.stop)
      (laid : ∀ p ∈ e.parts, Laid source p) : Laid source e

/-- An expression that lies between two offsets, with all that is in it. -/
structure Placed (source : List Char) (lo hi : Nat) (e : Expr) : Prop where
  within : e.span.Within source lo hi
  laid : e.Laid source

variable {source : List Char} {lo hi : Nat} {e : Expr}

theorem Placed.mono {lo' hi' : Nat} (h : e.Placed source lo hi) (start : lo' ≤ lo) (stop : hi ≤ hi') :
    e.Placed source lo' hi' := ⟨h.within.mono start stop, h.laid⟩

/-- An expression without parts. -/
theorem Placed.leaf (within : e.span.Within source lo hi) (single : ∀ span v, e = literal span v → v.isSingle = true)
    (none : e.parts = []) : e.Placed source lo hi :=
  ⟨within, .intro single (by simp [none]) (by simp [none])⟩

theorem Placed.name {span : Span} {name : String} (within : span.Within source lo hi) :
    (identifier span name).Placed source lo hi :=
  .leaf within (by rintro _ _ ⟨⟩) rfl

/-- An expression made of parts that lie in its span. -/
theorem Placed.of_parts (within : e.span.Within source lo hi)
    (parts : ∀ p ∈ e.parts, p.Placed source e.span.start e.span.stop) (made : e.parts ≠ []) :
    e.Placed source lo hi := by
  refine ⟨within, .intro ?_ (fun p there => (parts p there).within) fun p there => (parts p there).laid⟩
  rintro span v rfl
  exact (made rfl).elim

end Expr

/-! ## Places of cursors -/

section Cursors

variable {source : List Char} {c c' : Cursor}

theorem Cursor.Ahead.length_le (h : c.Ahead c') : c'.rest.length ≤ c.rest.length := by
  obtain ⟨read, rest, -⟩ := h
  rw [rest, List.length_append]
  omega

/-- A cursor with a greater offset has less text before it. -/
theorem Cursor.Ahead.length_lt (h : c.Ahead c') (further : c.offset < c'.offset) :
    c'.rest.length < c.rest.length := by
  obtain ⟨read, rest, offset⟩ := h
  cases read with
  | nil => simp [Text.byteLength] at offset; omega
  | cons d read => rw [rest, List.length_append, List.length_cons]; omega

/-- A span between two cursors that are not one. -/
theorem Span.Within.ofCursors {lo hi : Nat} (on : (Cursor.start source).Ahead c) (ahead : c.Ahead c')
    (further : c.offset < c'.offset) (start : lo ≤ c.offset) (stop : c'.offset ≤ hi) :
    (Span.mk c.offset c'.offset).Within source lo hi :=
  ⟨start, further, stop, Cursor.boundary on, Cursor.boundary (on.trans ahead)⟩

end Cursors

namespace Grammar

variable {source : List Char}

/-! ## Strict readings -/

theorem Cursor.skipWhile_lt {p : Char → Bool} {c : Cursor} {d : Char} (here : c.rest.head? = some d) (holds : p d) :
    c.offset < (c.skipWhile p).offset := by
  obtain ⟨offset, _ | ⟨d', r⟩⟩ := c
  · cases here
  · obtain rfl := Option.some.inj here
    rw [Cursor.skipWhile_eq]
    dsimp only
    rw [List.takeWhile_cons, if_pos holds, Text.byteLength]
    have := d'.utf8Size_pos
    omega

theorem rest_ne_nil_of_head {c : Cursor} {d : Char} (here : c.rest.head? = some d) : c.rest ≠ [] := by
  intro none
  rw [none] at here
  cases here

theorem expect_gives {d : Char} {c c' : Cursor} {u : Unit} (h : Gives (expect d) c u c') :
    c.rest.head? = some d ∧ c' = c.skip 1 := by
  obtain ⟨found, c₁, look, h⟩ := gives_bind.mp h
  obtain ⟨here, rfl⟩ := gives_current?.mp look
  cases found with
  | none => exact (not_gives_failEnd h).elim
  | some found =>
    dsimp only at h
    split at h
    · next same => exact ⟨by rw [here, same], (gives_skip.mp h).symm⟩
    · exact (not_gives_failHere h).elim

theorem readName_lt {c c' : Cursor} {name : String} (h : Gives readName c name c') : c.offset < c'.offset := by
  obtain ⟨found, c₁, look, h⟩ := gives_bind.mp h
  obtain ⟨here, rfl⟩ := gives_current?.mp look
  cases found with
  | none => exact (not_gives_failEnd h).elim
  | some d =>
    dsimp only at h
    split at h
    · next starts =>
      obtain ⟨_, c₂, takes, h⟩ := gives_bind.mp h
      obtain ⟨-, rfl⟩ := gives_takeWhile.mp takes
      obtain ⟨-, rfl⟩ := gives_pure.mp h
      exact Cursor.skipWhile_lt here (by simp [isNameChar, starts])
    · exact (not_gives_failHere h).elim

theorem readString_lt {quote d : Char} {c c' : Cursor} {s : String} (here : c.rest.head? = some d)
    (h : Gives (readString quote) c s c') : c.offset < c'.offset := by
  obtain ⟨_, c₁, skips, h⟩ := gives_bind.mp h
  obtain rfl := gives_skip.mp skips
  have on : (c.skip 1).Ahead c' :=
    Advances.bind .rest (fun _ => .bind (.readStringBody _ _) fun _ => .pure _) _ _ _ h
  exact Nat.lt_of_lt_of_le (Cursor.offset_lt_skip (rest_ne_nil_of_head here) (by decide)) on.offset_le

theorem readPlaces_lt {c c' : Cursor} {d : Char} {r places : List Char} (here : c.rest = '.' :: d :: r)
    (digit : d.isDigit = true) (h : Gives readPlaces c places c') : c.offset < c'.offset := by
  obtain ⟨_, c₁, look, h⟩ := gives_bind.mp h
  obtain ⟨rfl, rfl⟩ := gives_rest.mp look
  rw [here] at h
  simp only [digit, ↓reduceIte] at h
  obtain ⟨_, c₁, skips, h⟩ := gives_bind.mp h
  obtain rfl := gives_skip.mp skips
  have on := Advances.bind (.takeWhile _) (fun _ => .pure _) _ _ _ h
  exact Nat.lt_of_lt_of_le (Cursor.offset_lt_skip (by rw [here]; exact nofun) (by decide)) on.offset_le

theorem readNumber_lt {c c' : Cursor} {d : Char} {r : List Char} {x : Float} (here : c.rest = d :: r)
    (starts : (d.isDigit || (d == '.' && r.head?.any Char.isDigit)) = true) (h : Gives readNumber c x c') :
    c.offset < c'.offset := by
  have hex : Gives readHexLiteral c x c' → c.offset < c'.offset := by
    intro h
    obtain ⟨_, c₁, skips, h⟩ := gives_bind.mp h
    obtain rfl := gives_skip.mp skips
    have on : (c.skip 2).Ahead c' := by
      refine Advances.bind (.takeWhile _) (fun digits => ?_) _ _ _ h
      split
      · exact .ite (.pure _) (.failHere _)
      · exact .failHere _
    exact Nat.lt_of_lt_of_le (Cursor.offset_lt_skip (by rw [here]; exact nofun) (by decide)) on.offset_le
  obtain ⟨_, c₁, look, h⟩ := gives_bind.mp h
  obtain ⟨rfl, rfl⟩ := gives_rest.mp look
  split at h
  · exact hex h
  · exact hex h
  · obtain ⟨_, c₁, look, h⟩ := gives_bind.mp h
    obtain ⟨rfl, rfl⟩ := gives_offset.mp look
    obtain ⟨whole, c₂, takes, h⟩ := gives_bind.mp h
    obtain ⟨-, rfl⟩ := gives_takeWhile.mp takes
    obtain ⟨places, c₃, reads, h⟩ := gives_bind.mp h
    have later : c₃.Ahead c' := by
      refine Advances.bind .readPower (fun power => ?_) _ _ _ h
      split
      · exact .pure _
      · exact .bind .offset fun _ => .failAt _ _
    have middle := (Advances.readPlaces _ _ _ reads).offset_le
    rcases Bool.or_eq_true_iff.mp starts with digit | point
    · have first := Cursor.skipWhile_lt (p := fun c => c.isDigit || c == '_') (congrArg List.head? here)
        (by simp [digit])
      exact Nat.lt_of_lt_of_le first (Nat.le_trans middle later.offset_le)
    · obtain ⟨dot, digits⟩ := Bool.and_eq_true_iff.mp point
      obtain rfl := beq_iff_eq.mp dot
      -- No digit stands before the point.
      have stays : c.skipWhile (fun c => c.isDigit || c == '_') = c := by
        obtain ⟨offset, rest⟩ := c
        obtain rfl : rest = '.' :: r := here
        rfl
      rw [stays] at reads middle
      cases r with
      | nil => cases digits
      | cons d r => exact Nat.lt_of_lt_of_le (readPlaces_lt here (by simpa using digits) reads) later.offset_le

theorem readWord_placed {c c' : Cursor} {e : Expr} (on : (Cursor.start source).Ahead c)
    (h : Gives readWord c e c') : e.Placed source c.offset c'.offset := by
  obtain ⟨_, c₁, look, h⟩ := gives_bind.mp h
  obtain ⟨rfl, rfl⟩ := gives_offset.mp look
  obtain ⟨word, c₁, reads, h⟩ := gives_bind.mp h
  obtain ⟨_, c₂, look, h⟩ := gives_bind.mp h
  obtain ⟨rfl, rfl⟩ := gives_offset.mp look
  have within : (Span.mk c.offset c₁.offset).Within source c.offset c₁.offset :=
    .ofCursors on (Advances.readName _ _ _ reads) (readName_lt reads) (Nat.le_refl _) (Nat.le_refl _)
  dsimp only at h
  split at h
  · next v found =>
    obtain ⟨rfl, rfl⟩ := gives_pure.mp h
    refine .leaf within (fun span v' same => ?_) rfl
    obtain ⟨-, rfl⟩ := Expr.literal.inj same
    unfold wordValue? at found
    split at found <;> cases found <;> rfl
  · split at h
    · exact (not_gives_failAt h).elim
    · obtain ⟨rfl, rfl⟩ := gives_pure.mp h
      exact .name within

/-! ## Compound expressions -/

theorem infixAt?_length {text : List Char} {symbol : String} {op : Infix} (h : infixAt? text = some (symbol, op)) :
    0 < symbol.length ∧ text ≠ [] := by
  refine ⟨?_, ?_⟩
  · have lengths : ∀ entry ∈ infixSymbols, 0 < entry.1.length := by decide
    unfold infixAt? at h
    repeat' split at h
    · cases h
      decide
    · cases h
    · exact lengths _ (List.mem_of_find?_eq_some h)
  · rintro rfl
    rw [show infixAt? [] = none by decide] at h
    cases h

/-- The expression of an operator lies where its operands do. -/
theorem Infix.apply_placed {lo middle hi : Nat} (op : Infix) {left right : Expr}
    (before : left.Placed source lo middle) (after : right.Placed source middle hi) :
    (op.apply left right).Placed source lo hi := by
  have start := before.within.start
  have a := before.within.forward
  have between := Nat.le_trans before.within.stop after.within.start
  have b := after.within.forward
  have hull := Span.hull_eq (a := left.span) (b := right.span) (by omega) (by omega)
  have within : (Span.mk left.span.start right.span.stop).Within source lo hi :=
    ⟨start, by show left.span.start < right.span.stop; omega, after.within.stop, before.within.first, after.within.last⟩
  have parts : ∀ p ∈ [left, right], p.Placed source left.span.start right.span.stop :=
    List.forall_mem_cons.mpr ⟨⟨{ before.within with start := Nat.le_refl _, stop := by omega }, before.laid⟩,
      List.forall_mem_singleton.mpr ⟨{ after.within with start := by omega, stop := Nat.le_refl _ }, after.laid⟩⟩
  cases op with
  | binary op =>
    unfold Infix.apply
    dsimp only
    rw [hull]
    exact .of_parts within parts nofun
  | logical op =>
    unfold Infix.apply
    dsimp only
    rw [hull]
    exact .of_parts within parts nofun

/-- A link ends where the cursor is; its base and what else it holds lie before. -/
theorem linked {lo middle hi : Nat} {e x : Expr} {l : List Expr} {c c' : Cursor}
    (there : (Cursor.start source).Ahead c') (before : e.Placed source lo c.offset) (on : c.Ahead c')
    (span : x.span = ⟨e.span.start, c'.offset⟩) (parts : x.parts = e :: l) (between : c.offset ≤ middle)
    (after : ∀ p ∈ l, p.Placed source middle hi) (last : hi ≤ c'.offset) : x.Placed source lo c'.offset := by
  have f := before.within.forward
  have g := Nat.le_trans before.within.stop on.offset_le
  refine .of_parts ?_ ?_ (by rw [parts]; exact nofun)
  · rw [span]
    exact ⟨before.within.start, Nat.lt_of_lt_of_le f g, Nat.le_refl _, before.within.first,
      Cursor.boundary there⟩
  · rw [span, parts]
    refine List.forall_mem_cons.mpr ⟨⟨{ before.within with start := Nat.le_refl _, stop := g }, before.laid⟩,
      fun p held => (after p held).mono (Nat.le_trans (Nat.le_of_lt f) (Nat.le_trans before.within.stop between)) last⟩

/-- The readings of expressions up to a bound on their depth place what they read between their cursors. -/
structure Places (source : List Char) (fuel : Nat) : Prop where
  sequence {c e c'} (on : (Cursor.start source).Ahead c) (h : Gives (readSequence fuel) c e c') :
    e.Placed source c.offset c'.offset
  more {c es c'} (on : (Cursor.start source).Ahead c) (h : Gives (readMore fuel) c es c') :
    ∀ e ∈ es, e.Placed source c.offset c'.offset
  assignment {c e c'} (on : (Cursor.start source).Ahead c) (h : Gives (readAssignment fuel) c e c') :
    e.Placed source c.offset c'.offset
  conditional {c e c'} (on : (Cursor.start source).Ahead c) (h : Gives (readConditional fuel) c e c') :
    e.Placed source c.offset c'.offset
  operation {least c e c'} (on : (Cursor.start source).Ahead c) (h : Gives (readOperation fuel least) c e c') :
    e.Placed source c.offset c'.offset
  operators {least left lo c e c'} (on : (Cursor.start source).Ahead c) (before : left.Placed source lo c.offset)
    (h : Gives (readOperators fuel least left) c e c') : e.Placed source lo c'.offset
  unary {c e c'} (on : (Cursor.start source).Ahead c) (h : Gives (readUnary fuel) c e c') :
    e.Placed source c.offset c'.offset
  postfixed {c e c'} (on : (Cursor.start source).Ahead c) (h : Gives (readPostfix fuel) c e c') :
    e.Placed source c.offset c'.offset
  links {optional e lo c e' c'} (on : (Cursor.start source).Ahead c) (before : e.Placed source lo c.offset)
    (h : Gives (readLinks fuel e.span.start optional e) c e' c') : e'.Placed source lo c'.offset
  computed {c e c'} (on : (Cursor.start source).Ahead c) (h : Gives (readComputed fuel) c e c') :
    e.Placed source c.offset c'.offset
  arguments {c es c'} (on : (Cursor.start source).Ahead c) (h : Gives (readArguments fuel) c es c') :
    ∀ e ∈ es, e.Placed source c.offset c'.offset
  items {close message c es c'} (on : (Cursor.start source).Ahead c) (h : Gives (readItems fuel close message) c es c') :
    ∀ e ∈ es, e.Placed source c.offset c'.offset
  primary {c e c'} (on : (Cursor.start source).Ahead c) (h : Gives (readPrimary fuel) c e c') :
    e.Placed source c.offset c'.offset
  fields {c fields c'} (on : (Cursor.start source).Ahead c) (h : Gives (readFields fuel) c fields c') :
    ∀ e ∈ Expr.partsOfFields fields, e.Placed source c.offset c'.offset
  key {c key c'} (on : (Cursor.start source).Ahead c) (h : Gives (readKey fuel) c key c') :
    (∀ e ∈ key.parts, e.Placed source c.offset c'.offset) ∧ c.offset < c'.offset

namespace Places

variable {fuel : Nat} (ih : Places source fuel) {c c' : Cursor} (on : (Cursor.start source).Ahead c)

include ih on

theorem readSequence {e : Expr} (h : Gives (Grammar.readSequence (fuel + 1)) c e c') :
    e.Placed source c.offset c'.offset := by
  obtain ⟨first, c₁, reads, h⟩ := gives_bind.mp h
  have placed := ih.assignment on reads
  have on₁ := on.trans ((Advances.expressions fuel).assignment _ _ _ reads)
  obtain ⟨_, c₂, skips, h⟩ := gives_bind.mp h
  have on₂ := Advances.skipSpaces _ _ _ skips
  obtain ⟨_, c₃, look, h⟩ := gives_bind.mp h
  obtain ⟨-, rfl⟩ := gives_current?.mp look
  split at h
  · obtain ⟨more, c₃, later, h⟩ := gives_bind.mp h
    have after := ih.more (on₁.trans on₂) later
    have on₃ := (Advances.expressions fuel).more _ _ _ later
    obtain ⟨_, c₄, look, h⟩ := gives_bind.mp h
    obtain ⟨rfl, rfl⟩ := gives_offset.mp look
    obtain ⟨rfl, rfl⟩ := gives_pure.mp h
    have further := Nat.le_trans placed.within.stop (on₂.trans on₃).offset_le
    refine .of_parts ⟨placed.within.start, Nat.lt_of_lt_of_le placed.within.forward further, Nat.le_refl _,
      placed.within.first, Cursor.boundary ((on₁.trans on₂).trans on₃)⟩ (List.forall_mem_cons.mpr ⟨?_, ?_⟩) nofun
    · exact ⟨{ placed.within with start := Nat.le_refl _, stop := further }, placed.laid⟩
    · exact fun p there => (after p there).mono
        (Nat.le_trans (Nat.le_of_lt placed.within.forward) (Nat.le_trans placed.within.stop on₂.offset_le))
        (Nat.le_refl _)
  · obtain ⟨rfl, rfl⟩ := gives_pure.mp h
    exact placed.mono (Nat.le_refl _) on₂.offset_le

theorem readMore {es : List Expr} (h : Gives (Grammar.readMore (fuel + 1)) c es c') :
    ∀ e ∈ es, e.Placed source c.offset c'.offset := by
  obtain ⟨_, c₁, look, h⟩ := gives_bind.mp h
  obtain ⟨-, rfl⟩ := gives_current?.mp look
  split at h
  · obtain ⟨_, c₁, skips, h⟩ := gives_bind.mp h
    have on₁ := Advances.skip _ _ _ _ skips
    obtain ⟨e, c₂, reads, h⟩ := gives_bind.mp h
    have on₂ := (Advances.expressions fuel).assignment _ _ _ reads
    obtain ⟨_, c₃, skips, h⟩ := gives_bind.mp h
    have on₃ := Advances.skipSpaces _ _ _ skips
    obtain ⟨es, c₄, later, h⟩ := gives_bind.mp h
    have on₄ := (Advances.expressions fuel).more _ _ _ later
    obtain ⟨rfl, rfl⟩ := gives_pure.mp h
    refine List.forall_mem_cons.mpr ⟨?_, fun p there => ?_⟩
    · exact (ih.assignment (on.trans on₁) reads).mono on₁.offset_le (on₃.trans on₄).offset_le
    · exact (ih.more (((on.trans on₁).trans on₂).trans on₃) later p there).mono
        ((on₁.trans on₂).trans on₃).offset_le (Nat.le_refl _)
  · obtain ⟨rfl, rfl⟩ := gives_pure.mp h
    exact fun _ none => (List.not_mem_nil none).elim

theorem readAssignment {e : Expr} (h : Gives (Grammar.readAssignment (fuel + 1)) c e c') :
    e.Placed source c.offset c'.offset := by
  obtain ⟨target, c₁, reads, h⟩ := gives_bind.mp h
  have placed := ih.conditional on reads
  have on₁ := (Advances.expressions fuel).conditional _ _ _ reads
  obtain ⟨_, c₂, skips, h⟩ := gives_bind.mp h
  have on₂ := Advances.skipSpaces _ _ _ skips
  obtain ⟨_, c₃, look, h⟩ := gives_bind.mp h
  obtain ⟨-, rfl⟩ := gives_rest.mp look
  split at h
  · obtain ⟨rfl, rfl⟩ := gives_pure.mp h
    exact placed.mono (Nat.le_refl _) on₂.offset_le
  · next symbol op _ =>
    obtain ⟨_, c₃, skips, h⟩ := gives_bind.mp h
    have on₃ := Advances.skip _ _ _ _ skips
    obtain ⟨_, c₄, checks, h⟩ := gives_bind.mp h
    have on₄ := Advances.checkAssignTarget _ _ _ _ checks
    obtain ⟨value, c₅, later, h⟩ := gives_bind.mp h
    obtain ⟨rfl, rfl⟩ := gives_pure.mp h
    have between := (on₂.trans on₃).trans on₄
    have after := ih.assignment ((on.trans on₁).trans between) later
    -- An assignment lies as an operation does.
    have both := Infix.apply_placed (.logical .and) placed (after.mono between.offset_le (Nat.le_refl _))
    exact ⟨both.within, .intro nofun (by cases both.laid with | intro _ within _ => exact within)
      (by cases both.laid with | intro _ _ laid => exact laid)⟩

theorem readConditional {e : Expr} (h : Gives (Grammar.readConditional (fuel + 1)) c e c') :
    e.Placed source c.offset c'.offset := by
  obtain ⟨test, c₁, reads, h⟩ := gives_bind.mp h
  have placed := ih.operation on reads
  have on₁ := (Advances.expressions fuel).operation _ _ _ _ reads
  obtain ⟨_, c₂, skips, h⟩ := gives_bind.mp h
  have on₂ := Advances.skipSpaces _ _ _ skips
  have alone : ∀ {x : Expr} {d : Cursor}, Gives (pure test) c₂ x d → x.Placed source c.offset d.offset := by
    intro x d h
    obtain ⟨rfl, rfl⟩ := gives_pure.mp h
    exact placed.mono (Nat.le_refl _) on₂.offset_le
  obtain ⟨_, c₃, look, h⟩ := gives_bind.mp h
  obtain ⟨-, rfl⟩ := gives_rest.mp look
  split at h
  · exact alone h
  · exact alone h
  · obtain ⟨_, c₃, skips, h⟩ := gives_bind.mp h
    have on₃ := Advances.skip _ _ _ _ skips
    obtain ⟨a, c₄, first, h⟩ := gives_bind.mp h
    have on₄ := (Advances.expressions fuel).assignment _ _ _ first
    obtain ⟨_, c₅, skips, h⟩ := gives_bind.mp h
    have on₅ := Advances.skipSpaces _ _ _ skips
    obtain ⟨_, c₆, colon, h⟩ := gives_bind.mp h
    have on₆ := Advances.expect _ _ _ _ colon
    obtain ⟨b, c₇, second, h⟩ := gives_bind.mp h
    obtain ⟨rfl, rfl⟩ := gives_pure.mp h
    have to₃ := ((on.trans on₁).trans on₂).trans on₃
    have placedA := ih.assignment to₃ first
    have placedB := ih.assignment (((to₃.trans on₄).trans on₅).trans on₆) second
    have f := placed.within.forward
    have g := placed.within.stop
    have i := (on₂.trans on₃).offset_le
    have j := placedA.within.start
    have k := placedA.within.forward
    have l := placedA.within.stop
    have m := (on₅.trans on₆).offset_le
    have n := placedB.within.start
    have o := placedB.within.forward
    have hull := Span.hull_eq (a := test.span) (b := b.span) (by omega) (by omega)
    rw [hull]
    refine .of_parts ⟨placed.within.start, by show test.span.start < b.span.stop; omega, placedB.within.stop,
      placed.within.first, placedB.within.last⟩ (List.forall_mem_cons.mpr ⟨?_, List.forall_mem_cons.mpr ⟨?_,
        List.forall_mem_singleton.mpr ?_⟩⟩) nofun
    · exact ⟨{ placed.within with start := Nat.le_refl _, stop := by show _ ≤ b.span.stop; omega }, placed.laid⟩
    · exact placedA.mono (by show test.span.start ≤ _; omega) (by show _ ≤ b.span.stop; omega)
    · exact ⟨{ placedB.within with start := by show test.span.start ≤ _; omega, stop := Nat.le_refl _ },
        placedB.laid⟩
  · exact alone h

theorem readOperation {least : Nat} {e : Expr} (h : Gives (Grammar.readOperation (fuel + 1) least) c e c') :
    e.Placed source c.offset c'.offset := by
  obtain ⟨left, c₁, reads, h⟩ := gives_bind.mp h
  exact ih.operators (on.trans ((Advances.expressions fuel).unary _ _ _ reads)) (ih.unary on reads) h

theorem readOperators {least lo : Nat} {left e : Expr} (before : left.Placed source lo c.offset)
    (h : Gives (Grammar.readOperators (fuel + 1) least left) c e c') : e.Placed source lo c'.offset := by
  obtain ⟨_, c₁, skips, h⟩ := gives_bind.mp h
  have on₁ := Advances.skipSpaces _ _ _ skips
  have alone : ∀ {x : Expr} {d : Cursor}, Gives (pure left) c₁ x d → x.Placed source lo d.offset := by
    intro x d h
    obtain ⟨rfl, rfl⟩ := gives_pure.mp h
    exact before.mono (Nat.le_refl _) on₁.offset_le
  obtain ⟨_, c₂, look, h⟩ := gives_bind.mp h
  obtain ⟨-, rfl⟩ := gives_rest.mp look
  split at h
  · exact alone h
  · split at h
    · exact alone h
    · obtain ⟨_, c₂, skips, h⟩ := gives_bind.mp h
      have on₂ := Advances.skip _ _ _ _ skips
      obtain ⟨right, c₃, reads, h⟩ := gives_bind.mp h
      have to₂ := (on.trans on₁).trans on₂
      have after := ih.operation to₂ reads
      exact ih.operators (to₂.trans ((Advances.expressions fuel).operation _ _ _ _ reads))
        (Infix.apply_placed _ before (after.mono (on₁.trans on₂).offset_le (Nat.le_refl _))) h

theorem readUnary {e : Expr} (h : Gives (Grammar.readUnary (fuel + 1)) c e c') :
    e.Placed source c.offset c'.offset := by
  obtain ⟨_, c₁, skips, h⟩ := gives_bind.mp h
  have on₁ := Advances.skipSpaces _ _ _ skips
  obtain ⟨_, c₂, look, h⟩ := gives_bind.mp h
  obtain ⟨rfl, rfl⟩ := gives_offset.mp look
  obtain ⟨_, c₂, look, h⟩ := gives_bind.mp h
  obtain ⟨-, rfl⟩ := gives_rest.mp look
  -- An operator stands in front of its operand.
  have ahead : ∀ {c₂ c₃ : Cursor} {argument : Expr}, c₁.Ahead c₂ → Gives (Grammar.readUnary fuel) c₂ argument c₃ →
      (Span.mk c₁.offset argument.span.stop).Within source c.offset c₃.offset ∧
        argument.Placed source c₁.offset argument.span.stop := by
    intro c₂ c₃ argument on₂ reads
    have placed := ih.unary ((on.trans on₁).trans on₂) reads
    have further := Nat.le_trans on₂.offset_le placed.within.start
    exact ⟨⟨on₁.offset_le, Nat.lt_of_le_of_lt further placed.within.forward, placed.within.stop,
      Cursor.boundary (on.trans on₁), placed.within.last⟩,
      { placed.within with start := further, stop := Nat.le_refl _ }, placed.laid⟩
  split at h
  · obtain ⟨_, c₂, skips, h⟩ := gives_bind.mp h
    obtain ⟨argument, c₃, reads, h⟩ := gives_bind.mp h
    obtain ⟨_, c₄, checks, h⟩ := gives_bind.mp h
    have on₄ := Advances.checkUpdateTarget _ _ _ _ checks
    obtain ⟨rfl, rfl⟩ := gives_pure.mp h
    obtain ⟨within, placed⟩ := ahead (Advances.skip _ _ _ _ skips) reads
    exact .of_parts (within.mono (Nat.le_refl _) on₄.offset_le)
      (fun p there => List.mem_singleton.mp there ▸ placed) nofun
  · split at h
    · obtain ⟨_, c₂, skips, h⟩ := gives_bind.mp h
      obtain ⟨argument, c₃, reads, h⟩ := gives_bind.mp h
      obtain ⟨rfl, rfl⟩ := gives_pure.mp h
      obtain ⟨within, placed⟩ := ahead (Advances.skip _ _ _ _ skips) reads
      exact .of_parts within (fun p there => List.mem_singleton.mp there ▸ placed) nofun
    · exact (ih.postfixed (on.trans on₁) h).mono on₁.offset_le (Nat.le_refl _)

theorem readPostfix {e : Expr} (h : Gives (Grammar.readPostfix (fuel + 1)) c e c') :
    e.Placed source c.offset c'.offset := by
  obtain ⟨first, c₁, reads, h⟩ := gives_bind.mp h
  have on₁ := (Advances.expressions fuel).primary _ _ _ reads
  obtain ⟨argument, c₂, later, h⟩ := gives_bind.mp h
  have on₂ := (Advances.expressions fuel).links _ _ _ _ _ _ later
  have placed := ih.links (on.trans on₁) (ih.primary on reads) later
  obtain ⟨_, c₃, look, h⟩ := gives_bind.mp h
  obtain ⟨-, rfl⟩ := gives_rest.mp look
  split at h
  · obtain ⟨_, c₃, checks, h⟩ := gives_bind.mp h
    have on₃ := Advances.checkUpdateTarget _ _ _ _ checks
    obtain ⟨_, c₄, skips, h⟩ := gives_bind.mp h
    have on₄ := Advances.skip _ _ _ _ skips
    obtain ⟨_, c₅, look, h⟩ := gives_bind.mp h
    obtain ⟨rfl, rfl⟩ := gives_offset.mp look
    obtain ⟨rfl, rfl⟩ := gives_pure.mp h
    have further := Nat.le_trans placed.within.stop (on₃.trans on₄).offset_le
    refine .of_parts ⟨placed.within.start, Nat.lt_of_lt_of_le placed.within.forward further, Nat.le_refl _,
      placed.within.first, Cursor.boundary (((on.trans on₁).trans on₂).trans (on₃.trans on₄))⟩ ?_ nofun
    intro p there
    obtain rfl := List.mem_singleton.mp there
    exact ⟨{ placed.within with start := Nat.le_refl _, stop := further }, placed.laid⟩
  · obtain ⟨rfl, rfl⟩ := gives_pure.mp h
    exact placed

theorem readLinks {optional : Bool} {lo : Nat} {e x : Expr} (before : e.Placed source lo c.offset)
    (h : Gives (Grammar.readLinks (fuel + 1) e.span.start optional e) c x c') : x.Placed source lo c'.offset := by
  obtain ⟨_, c₁, skips, h⟩ := gives_bind.mp h
  have on₁ := Advances.skipSpaces _ _ _ skips
  obtain ⟨_, c₂, look, h⟩ := gives_bind.mp h
  obtain ⟨-, rfl⟩ := gives_rest.mp look
  have before := before.mono (Nat.le_refl _) on₁.offset_le
  have to₁ := on.trans on₁
  have ends : ∀ {x : Expr} {d : Cursor}, Gives (pure (Grammar.readLinks.finish optional e)) c₁ x d →
      x.Placed source lo d.offset := by
    intro x d h
    obtain ⟨rfl, rfl⟩ := gives_pure.mp h
    unfold Grammar.readLinks.finish
    split
    · exact .of_parts before.within (List.forall_mem_singleton.mpr
        ⟨{ before.within with start := Nat.le_refl _, stop := Nat.le_refl _ }, before.laid⟩) nofun
    · exact before
  have called : ∀ {c₂ c₃ : Cursor} {arguments : List Expr} {opt : Bool}, c₁.Ahead c₂ →
      Gives (Grammar.readArguments fuel) c₂ arguments c₃ → (Cursor.start source).Ahead c₃ ∧
        (Expr.call ⟨e.span.start, c₃.offset⟩ e arguments opt).Placed source lo c₃.offset := by
    intro c₂ c₃ arguments opt on₂ reads
    have on₃ := (Advances.expressions fuel).arguments _ _ _ reads
    have to₃ := (to₁.trans on₂).trans on₃
    exact ⟨to₃, linked to₃ before (on₂.trans on₃) rfl rfl on₂.offset_le (ih.arguments (to₁.trans on₂) reads)
      (Nat.le_refl _)⟩
  have keyed : ∀ {c₂ c₃ : Cursor} {key : Expr} {opt : Bool}, c₁.Ahead c₂ →
      Gives (Grammar.readComputed fuel) c₂ key c₃ → (Cursor.start source).Ahead c₃ ∧
        (Expr.member ⟨e.span.start, c₃.offset⟩ e (.computed key) opt).Placed source lo c₃.offset := by
    intro c₂ c₃ key opt on₂ reads
    have on₃ := (Advances.expressions fuel).computed _ _ _ reads
    have to₃ := (to₁.trans on₂).trans on₃
    exact ⟨to₃, linked to₃ before (on₂.trans on₃) rfl rfl on₂.offset_le
      (List.forall_mem_singleton.mpr (ih.computed (to₁.trans on₂) reads)) (Nat.le_refl _)⟩
  have named : ∀ {c₂ c₃ : Cursor} {name : String} {opt : Bool}, c₁.Ahead c₂ →
      Gives Grammar.readName c₂ name c₃ → (Cursor.start source).Ahead c₃ ∧
        (Expr.member ⟨e.span.start, c₃.offset⟩ e (.named name) opt).Placed source lo c₃.offset := by
    intro c₂ c₃ name opt on₂ reads
    have on₃ := Advances.readName _ _ _ reads
    have to₃ := (to₁.trans on₂).trans on₃
    exact ⟨to₃, linked (l := []) to₃ before (on₂.trans on₃) rfl rfl on₂.offset_le
      (fun _ none => (List.not_mem_nil none).elim) (Nat.le_refl c₃.offset)⟩
  split at h
  · obtain ⟨_, c₂, skips, h⟩ := gives_bind.mp h
    have on₂ := Advances.skip _ _ _ _ skips
    obtain ⟨_, c₃, skips, h⟩ := gives_bind.mp h
    have on₃ := on₂.trans (Advances.skipSpaces _ _ _ skips)
    obtain ⟨_, c₄, look, h⟩ := gives_bind.mp h
    obtain ⟨-, rfl⟩ := gives_current?.mp look
    split at h
    · obtain ⟨arguments, c₄, reads, h⟩ := gives_bind.mp h
      obtain ⟨_, c₅, look, h⟩ := gives_bind.mp h
      obtain ⟨rfl, rfl⟩ := gives_offset.mp look
      obtain ⟨to₄, placed⟩ := called on₃ reads
      exact ih.links to₄ placed h
    · obtain ⟨key, c₄, reads, h⟩ := gives_bind.mp h
      obtain ⟨_, c₅, look, h⟩ := gives_bind.mp h
      obtain ⟨rfl, rfl⟩ := gives_offset.mp look
      obtain ⟨to₄, placed⟩ := keyed on₃ reads
      exact ih.links to₄ placed h
    · obtain ⟨name, c₄, reads, h⟩ := gives_bind.mp h
      obtain ⟨_, c₅, look, h⟩ := gives_bind.mp h
      obtain ⟨rfl, rfl⟩ := gives_offset.mp look
      obtain ⟨to₄, placed⟩ := named on₃ reads
      exact ih.links to₄ placed h
  · split at h
    · exact ends h
    · obtain ⟨_, c₂, skips, h⟩ := gives_bind.mp h
      have on₂ := Advances.skip _ _ _ _ skips
      obtain ⟨_, c₃, skips, h⟩ := gives_bind.mp h
      have on₃ := on₂.trans (Advances.skipSpaces _ _ _ skips)
      obtain ⟨name, c₄, reads, h⟩ := gives_bind.mp h
      obtain ⟨_, c₅, look, h⟩ := gives_bind.mp h
      obtain ⟨rfl, rfl⟩ := gives_offset.mp look
      obtain ⟨to₄, placed⟩ := named on₃ reads
      exact ih.links to₄ placed h
    · obtain ⟨key, c₄, reads, h⟩ := gives_bind.mp h
      obtain ⟨_, c₅, look, h⟩ := gives_bind.mp h
      obtain ⟨rfl, rfl⟩ := gives_offset.mp look
      obtain ⟨to₄, placed⟩ := keyed (.refl _) reads
      exact ih.links to₄ placed h
    · obtain ⟨arguments, c₄, reads, h⟩ := gives_bind.mp h
      obtain ⟨_, c₅, look, h⟩ := gives_bind.mp h
      obtain ⟨rfl, rfl⟩ := gives_offset.mp look
      obtain ⟨to₄, placed⟩ := called (.refl _) reads
      exact ih.links to₄ placed h
    · exact ends h

theorem readComputed {e : Expr} (h : Gives (Grammar.readComputed (fuel + 1)) c e c') :
    e.Placed source c.offset c'.offset := by
  obtain ⟨_, c₁, opens, h⟩ := gives_bind.mp h
  have on₁ := Advances.expect _ _ _ _ opens
  obtain ⟨key, c₂, reads, h⟩ := gives_bind.mp h
  obtain ⟨_, c₃, skips, h⟩ := gives_bind.mp h
  have on₃ := Advances.skipSpaces _ _ _ skips
  obtain ⟨_, c₄, closes, h⟩ := gives_bind.mp h
  have on₄ := Advances.expect _ _ _ _ closes
  obtain ⟨rfl, rfl⟩ := gives_pure.mp h
  exact (ih.sequence (on.trans on₁) reads).mono on₁.offset_le (on₃.trans on₄).offset_le

theorem readArguments {es : List Expr} (h : Gives (Grammar.readArguments (fuel + 1)) c es c') :
    ∀ e ∈ es, e.Placed source c.offset c'.offset := by
  obtain ⟨_, c₁, opens, h⟩ := gives_bind.mp h
  have on₁ := Advances.expect _ _ _ _ opens
  exact fun e there => (ih.items (on.trans on₁) h e there).mono on₁.offset_le (Nat.le_refl _)

theorem readItems {close : Char} {message : String} {es : List Expr}
    (h : Gives (Grammar.readItems (fuel + 1) close message) c es c') : ∀ e ∈ es, e.Placed source c.offset c'.offset := by
  obtain ⟨_, c₁, skips, h⟩ := gives_bind.mp h
  have on₁ := Advances.skipSpaces _ _ _ skips
  obtain ⟨_, c₂, look, h⟩ := gives_bind.mp h
  obtain ⟨-, rfl⟩ := gives_current?.mp look
  split at h
  · obtain ⟨_, c₂, skips, h⟩ := gives_bind.mp h
    obtain ⟨rfl, rfl⟩ := gives_pure.mp h
    exact fun _ none => (List.not_mem_nil none).elim
  · obtain ⟨e, c₂, reads, h⟩ := gives_bind.mp h
    have on₂ := (Advances.expressions fuel).assignment _ _ _ reads
    obtain ⟨_, c₃, skips, h⟩ := gives_bind.mp h
    have on₃ := Advances.skipSpaces _ _ _ skips
    obtain ⟨_, c₄, look, h⟩ := gives_bind.mp h
    obtain ⟨-, rfl⟩ := gives_current?.mp look
    have rest : ∀ {c₃ : Cursor}, c₂.Ahead c₃ →
        Gives (do return e :: (← Grammar.readItems fuel close message)) c₃ es c' →
        ∀ e ∈ es, e.Placed source c.offset c'.offset := by
      intro c₃ on₃ h
      obtain ⟨es, c₄, later, h⟩ := gives_bind.mp h
      have on₄ := (Advances.expressions fuel).items _ _ _ _ _ later
      obtain ⟨rfl, rfl⟩ := gives_pure.mp h
      refine List.forall_mem_cons.mpr ⟨?_, fun p there => ?_⟩
      · exact (ih.assignment (on.trans on₁) reads).mono on₁.offset_le (on₃.trans on₄).offset_le
      · exact (ih.items (((on.trans on₁).trans on₂).trans on₃) later p there).mono
          ((on₁.trans on₂).trans on₃).offset_le (Nat.le_refl _)
    split at h
    · exact (not_gives_failEnd h).elim
    · split at h
      · obtain ⟨_, c₄, skips, h⟩ := gives_bind.mp h
        exact rest (on₃.trans (Advances.skip _ _ _ _ skips)) h
      · split at h
        · obtain ⟨_, _, fails, _⟩ := gives_bind.mp h
          exact (not_gives_failHere fails).elim
        · exact rest on₃ h

theorem readPrimary {e : Expr} (h : Gives (Grammar.readPrimary (fuel + 1)) c e c') :
    e.Placed source c.offset c'.offset := by
  obtain ⟨_, c₁, skips, h⟩ := gives_bind.mp h
  have on₁ := Advances.skipSpaces _ _ _ skips
  obtain ⟨_, c₂, look, h⟩ := gives_bind.mp h
  obtain ⟨rfl, rfl⟩ := gives_offset.mp look
  obtain ⟨_, c₂, look, h⟩ := gives_bind.mp h
  obtain ⟨here, rfl⟩ := gives_rest.mp look
  have to₁ := on.trans on₁
  split at h
  · exact (not_gives_failEnd h).elim
  · next d r =>
    have some : c₁.rest ≠ [] := by rw [here]; exact nofun
    have wide : ∀ {x : Expr} {d : Cursor}, x.Placed source c₁.offset d.offset → x.Placed source c.offset d.offset :=
      fun placed => placed.mono on₁.offset_le (Nat.le_refl _)
    -- What follows an opening character, up to where the cursor is then.
    have opened : ∀ {c₂ c₃ : Cursor}, c₁.skip 1 = c₂ → c₂.Ahead c₃ →
        (Span.mk c₁.offset c₃.offset).Within source c₁.offset c₃.offset := by
      rintro c₂ c₃ rfl on₃
      exact .ofCursors to₁ ((c₁.ahead_skip 1).trans on₃)
        (Nat.lt_of_lt_of_le (Cursor.offset_lt_skip some (by decide)) on₃.offset_le) (Nat.le_refl _) (Nat.le_refl _)
    have holds : ∀ {c₂ c₃ : Cursor} {x : Expr}, c₁.skip 1 = c₂ → c₂.Ahead c₃ → x.span = ⟨c₁.offset, c₃.offset⟩ →
        (∀ span v, x ≠ .literal span v) → (∀ p ∈ x.parts, p.Placed source c₂.offset c₃.offset) →
        x.Placed source c.offset c₃.offset := by
      rintro c₂ c₃ x rfl on₃ span other parts
      refine wide ⟨by rw [span]; exact opened rfl on₃, .intro (fun at_ v same => (other at_ v same).elim) ?_
        fun p there => (parts p there).laid⟩
      · rw [span]
        exact fun p there => (parts p there).within.mono (c₁.ahead_skip 1).offset_le (Nat.le_refl _)
    split at h
    · next starts =>
      obtain ⟨x, c₂, reads, h⟩ := gives_bind.mp h
      obtain ⟨_, c₃, look, h⟩ := gives_bind.mp h
      obtain ⟨rfl, rfl⟩ := gives_offset.mp look
      obtain ⟨rfl, rfl⟩ := gives_pure.mp h
      refine wide (.leaf (.ofCursors to₁ (Advances.readNumber _ _ _ reads) (readNumber_lt here starts reads)
        (Nat.le_refl _) (Nat.le_refl _)) (fun span v same => ?_) rfl)
      obtain ⟨-, rfl⟩ := Expr.literal.inj same
      rfl
    · split at h
      · obtain ⟨s, c₂, reads, h⟩ := gives_bind.mp h
        obtain ⟨_, c₃, look, h⟩ := gives_bind.mp h
        obtain ⟨rfl, rfl⟩ := gives_offset.mp look
        obtain ⟨rfl, rfl⟩ := gives_pure.mp h
        refine wide (.leaf (.ofCursors to₁ (Advances.readString _ _ _ _ reads)
          (readString_lt (congrArg List.head? here) reads) (Nat.le_refl _) (Nat.le_refl _)) (fun span v same => ?_) rfl)
        obtain ⟨-, rfl⟩ := Expr.literal.inj same
        rfl
      · split at h
        · obtain ⟨_, c₂, skips, h⟩ := gives_bind.mp h
          have on₂ := Advances.skip _ _ _ _ skips
          obtain ⟨inner, c₃, reads, h⟩ := gives_bind.mp h
          obtain ⟨_, c₄, skips, h⟩ := gives_bind.mp h
          have on₄ := Advances.skipSpaces _ _ _ skips
          obtain ⟨_, c₅, closes, h⟩ := gives_bind.mp h
          have on₅ := Advances.expect _ _ _ _ closes
          obtain ⟨rfl, rfl⟩ := gives_pure.mp h
          exact (ih.sequence (to₁.trans on₂) reads).mono (on₁.trans on₂).offset_le (on₄.trans on₅).offset_le
        · split at h
          · obtain ⟨_, c₂, skips, h⟩ := gives_bind.mp h
            have on₂ := Advances.skip _ _ _ _ skips
            obtain ⟨items, c₃, reads, h⟩ := gives_bind.mp h
            have on₃ := (Advances.expressions fuel).items _ _ _ _ _ reads
            obtain ⟨_, c₄, look, h⟩ := gives_bind.mp h
            obtain ⟨rfl, rfl⟩ := gives_offset.mp look
            obtain ⟨rfl, rfl⟩ := gives_pure.mp h
            exact holds (gives_skip.mp skips) on₃ rfl nofun (ih.items (to₁.trans on₂) reads)
          · split at h
            · obtain ⟨_, c₂, skips, h⟩ := gives_bind.mp h
              have on₂ := Advances.skip _ _ _ _ skips
              obtain ⟨fields, c₃, reads, h⟩ := gives_bind.mp h
              have on₃ := (Advances.expressions fuel).fields _ _ _ reads
              obtain ⟨_, c₄, look, h⟩ := gives_bind.mp h
              obtain ⟨rfl, rfl⟩ := gives_offset.mp look
              obtain ⟨rfl, rfl⟩ := gives_pure.mp h
              exact holds (gives_skip.mp skips) on₃ rfl nofun (ih.fields (to₁.trans on₂) reads)
            · split at h
              · exact wide (readWord_placed to₁ h)
              · exact (not_gives_failHere h).elim

theorem readKey {key : Key} (h : Gives (Grammar.readKey (fuel + 1)) c key c') :
    (∀ e ∈ key.parts, e.Placed source c.offset c'.offset) ∧ c.offset < c'.offset := by
  obtain ⟨found, c₁, look, h⟩ := gives_bind.mp h
  obtain ⟨here, rfl⟩ := gives_current?.mp look
  have named : ∀ {r : Reading String} {f : String → Reading Key}, Gives (r >>= f) c key c' → (∀ s, f s = pure (.named s)) →
      (∀ {s c₁}, Gives r c s c₁ → c.offset < c₁.offset) →
      (∀ e ∈ key.parts, e.Placed source c.offset c'.offset) ∧ c.offset < c'.offset := by
    intro r f h same past
    obtain ⟨s, c₁, reads, h⟩ := gives_bind.mp h
    rw [same] at h
    obtain ⟨rfl, rfl⟩ := gives_pure.mp h
    exact ⟨fun _ none => (List.not_mem_nil none).elim, past reads⟩
  cases found with
  | none => exact (not_gives_failEnd h).elim
  | some d =>
    dsimp only at h
    split at h
    · obtain ⟨_, c₁, skips, h⟩ := gives_bind.mp h
      have past := Cursor.offset_lt_skip (n := 1) (rest_ne_nil_of_head here) (by decide)
      rw [gives_skip.mp skips] at past
      have on₁ := Advances.skip _ _ _ _ skips
      obtain ⟨e, c₂, reads, h⟩ := gives_bind.mp h
      have on₂ := (Advances.expressions fuel).assignment _ _ _ reads
      obtain ⟨_, c₃, skips, h⟩ := gives_bind.mp h
      have on₃ := Advances.skipSpaces _ _ _ skips
      obtain ⟨_, c₄, closes, h⟩ := gives_bind.mp h
      have on₄ := Advances.expect _ _ _ _ closes
      obtain ⟨rfl, rfl⟩ := gives_pure.mp h
      exact ⟨List.forall_mem_singleton.mpr ((ih.assignment (on.trans on₁) reads).mono on₁.offset_le
        (on₃.trans on₄).offset_le), Nat.lt_of_lt_of_le past ((on₂.trans on₃).trans on₄).offset_le⟩
    · split at h
      · exact named h (fun _ => rfl) (readString_lt here)
      · split at h
        · next digit =>
          obtain ⟨x, c₁, reads, h⟩ := gives_bind.mp h
          obtain ⟨rfl, rfl⟩ := gives_pure.mp h
          obtain ⟨r, rest⟩ : ∃ r, c.rest = d :: r := List.head?_eq_some_iff.mp here
          exact ⟨fun _ none => (List.not_mem_nil none).elim, readNumber_lt rest (by simp [digit]) reads⟩
        · exact named h (fun _ => rfl) readName_lt

theorem readFields {fields : List (Key × Expr)} (h : Gives (Grammar.readFields (fuel + 1)) c fields c') :
    ∀ e ∈ Expr.partsOfFields fields, e.Placed source c.offset c'.offset := by
  obtain ⟨_, c₁, skips, h⟩ := gives_bind.mp h
  have on₁ := Advances.skipSpaces _ _ _ skips
  obtain ⟨_, c₂, look, h⟩ := gives_bind.mp h
  obtain ⟨rfl, rfl⟩ := gives_offset.mp look
  obtain ⟨_, c₂, look, h⟩ := gives_bind.mp h
  obtain ⟨-, rfl⟩ := gives_rest.mp look
  have to₁ := on.trans on₁
  split at h
  · obtain ⟨_, c₂, skips, h⟩ := gives_bind.mp h
    obtain ⟨rfl, rfl⟩ := gives_pure.mp h
    exact fun _ none => (List.not_mem_nil none).elim
  · obtain ⟨key, c₂, keys, h⟩ := gives_bind.mp h
    have on₂ := (Advances.expressions fuel).key _ _ _ keys
    obtain ⟨inKey, past⟩ := ih.key to₁ keys
    have to₂ := to₁.trans on₂
    obtain ⟨_, c₃, look, h⟩ := gives_bind.mp h
    obtain ⟨rfl, rfl⟩ := gives_offset.mp look
    obtain ⟨_, c₃, skips, h⟩ := gives_bind.mp h
    have on₃ := Advances.skipSpaces _ _ _ skips
    obtain ⟨value, c₄, reads, h⟩ := gives_bind.mp h
    have both : c₃.Ahead c₄ ∧ value.Placed source c₁.offset c₄.offset := by
      obtain ⟨_, c₅, look, reads⟩ := gives_bind.mp reads
      obtain ⟨-, rfl⟩ := gives_current?.mp look
      split at reads
      · obtain ⟨_, c₅, skips, reads⟩ := gives_bind.mp reads
        have on₅ := Advances.skip _ _ _ _ skips
        exact ⟨on₅.trans ((Advances.expressions fuel).assignment _ _ _ reads),
          (ih.assignment ((to₂.trans on₃).trans on₅) reads).mono ((on₂.trans on₃).trans on₅).offset_le
            (Nat.le_refl _)⟩
      · split at reads
        · split at reads
          · obtain ⟨rfl, rfl⟩ := gives_pure.mp reads
            exact ⟨.refl _, .name (.ofCursors to₁ on₂ past (Nat.le_refl _) on₃.offset_le)⟩
          · exact (not_gives_failHere reads).elim
        · exact (not_gives_failHere reads).elim
    obtain ⟨on₄, placed⟩ := both
    obtain ⟨_, c₅, skips, h⟩ := gives_bind.mp h
    have on₅ := Advances.skipSpaces _ _ _ skips
    obtain ⟨_, c₆, look, h⟩ := gives_bind.mp h
    obtain ⟨-, rfl⟩ := gives_current?.mp look
    have before := (on₂.trans on₃).trans (on₄.trans on₅)
    have rest : ∀ {c₆ : Cursor}, c₅.Ahead c₆ →
        Gives (do return (key, value) :: (← Grammar.readFields fuel)) c₆ fields c' →
        ∀ e ∈ Expr.partsOfFields fields, e.Placed source c.offset c'.offset := by
      intro c₆ on₆ h
      obtain ⟨fields, c₇, later, h⟩ := gives_bind.mp h
      have on₇ := (Advances.expressions fuel).fields _ _ _ later
      obtain ⟨rfl, rfl⟩ := gives_pure.mp h
      refine List.forall_mem_append.mpr ⟨List.forall_mem_append.mpr ⟨fun p there => ?_, ?_⟩, fun p there => ?_⟩
      · exact (inKey p there).mono on₁.offset_le (((on₃.trans on₄).trans on₅).trans (on₆.trans on₇)).offset_le
      · exact List.forall_mem_singleton.mpr (placed.mono on₁.offset_le (on₅.trans (on₆.trans on₇)).offset_le)
      · exact (ih.fields ((to₁.trans before).trans on₆) later p there).mono
          (on₁.trans (before.trans on₆)).offset_le (Nat.le_refl _)
    split at h
    · exact (not_gives_failEnd h).elim
    · split at h
      · obtain ⟨_, c₆, skips, h⟩ := gives_bind.mp h
        exact rest (Advances.skip _ _ _ _ skips) h
      · split at h
        · obtain ⟨_, _, fails, _⟩ := gives_bind.mp h
          exact (not_gives_failHere fails).elim
        · exact rest (.refl _) h

omit on in
theorem succ : Places source (fuel + 1) where
  sequence on h := ih.readSequence on h
  more on h := ih.readMore on h
  assignment on h := ih.readAssignment on h
  conditional on h := ih.readConditional on h
  operation on h := ih.readOperation on h
  operators on before h := ih.readOperators on before h
  unary on h := ih.readUnary on h
  postfixed on h := ih.readPostfix on h
  links on before h := ih.readLinks on before h
  computed on h := ih.readComputed on h
  arguments on h := ih.readArguments on h
  items on h := ih.readItems on h
  primary on h := ih.readPrimary on h
  fields on h := ih.readFields on h
  key on h := ih.readKey on h

end Places

theorem places (source : List Char) (fuel : Nat) : Places source fuel := by
  induction fuel with
  | zero => constructor <;> intros <;> exact (not_gives_failEnd ‹_›).elim
  | succ fuel ih => exact ih.succ

/-- **What is read as an expression lies between the cursors of its reading, with all its parts.** -/
theorem readExpr_placed {c c' : Cursor} {e : Expr} (on : (Cursor.start source).Ahead c) (h : Gives readExpr c e c') :
    e.Placed source c.offset c'.offset := by
  obtain ⟨_, c₁, look, h⟩ := gives_bind.mp h
  obtain ⟨-, rfl⟩ := gives_rest.mp look
  exact (places source _).sequence on h

end Grammar

/-! ## Literals -/

namespace Expr

/-- The literals of an expression are those of its parts, if it is none itself. -/
theorem literalsOfItems_eq (items : List Expr) : literalsOfItems items = items.flatMap literals := by
  induction items with
  | nil => rfl
  | cons e r ih => rw [literalsOfItems, List.flatMap_cons, ih]

theorem literalsOfKey_eq (key : Key) : literalsOfKey key = key.parts.flatMap literals := by
  cases key <;> simp [literalsOfKey, Key.parts]

theorem literalsOfFields_eq (fields : List (Key × Expr)) :
    literalsOfFields fields = (partsOfFields fields).flatMap literals := by
  induction fields with
  | nil => rfl
  | cons field r ih =>
    obtain ⟨key, e⟩ := field
    rw [literalsOfFields, ih, literalsOfKey_eq]
    simp [partsOfFields]

theorem literals_eq (e : Expr) : (∃ span v, e = literal span v ∧ e.literals = [v]) ∨ e.literals = e.parts.flatMap literals := by
  cases e with
  | literal span v => exact .inl ⟨span, v, rfl, rfl⟩
  | array | sequence => exact .inr (literalsOfItems_eq _)
  | object => exact .inr (literalsOfFields_eq _)
  | _ => exact .inr (by simp [literals, parts, literalsOfItems_eq, literalsOfKey_eq])

/-- The literals of what has been read are single values. -/
theorem Laid.isSingle {source : List Char} {e : Expr} (h : e.Laid source) : ∀ v ∈ e.literals, v.isSingle = true := by
  induction h with
  | @intro e single _ _ ih =>
    intro v there
    rcases e.literals_eq with ⟨span, w, same, one⟩ | all
    · rw [one] at there
      rw [List.mem_singleton.mp there]
      exact single span w same
    · rw [all] at there
      obtain ⟨p, part, inPart⟩ := List.mem_flatMap.mp there
      exact ih p part v inPart

end Expr
end PromptScript
