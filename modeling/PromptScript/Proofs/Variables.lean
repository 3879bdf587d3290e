import PromptScript.Proofs.Attributes
import PromptScript.Proofs.Reprinted

/-! # Names of variables

What holds of each expression as far as it holds of its parts holds of all that is read, and of every expression in a
document. One such thing is that variables have names that are no words; only a field of an object that has no value of
its own can name something else. -/
namespace PromptScript

namespace Grammar

/-- A name that a variable may have. -/
def IsVariable (name : String) : Prop := isName name.toList = true ∧ name ∉ Expr.words

/-- What is no name of a variable, and is taken for one in a field without a value: a word that means something else, or
a number that is written as it is formatted. -/
def IsOdd (name : String) : Prop :=
  name ∈ Expr.words ∨ ∃ x d r, name = Number.format x ∧ name.toList = d :: r ∧ d.isDigit = true

/-- No name of a variable is odd. -/
theorem IsVariable.not_isOdd {name : String} (h : IsVariable name) : ¬ IsOdd name := by
  rintro (word | ⟨x, d, r, -, here, digit⟩)
  · exact h.2 word
  · have named := h.1
    rw [here] at named
    have letter := not_isDigit_of_isNameStart (Bool.and_eq_true_iff.mp named).1
    rw [digit] at letter
    cases letter

/-- A field without a value of its own: the value is the variable that its key names. -/
inductive IsShort : Key × Expr → Prop
  | intro (span : Span) {name : String} (named : IsVariable name ∨ IsOdd name) :
      IsShort (.named name, .identifier span name)

/-- What holds of all expressions that are read, as far as it holds of the parts they are made of. -/
structure Composed (good : Expr → Prop) : Prop where
  name (span : Span) {name : String} (named : IsVariable name) : good (.identifier span name)
  compound {e : Expr} (other : e.name? = none) (parts : ∀ p ∈ e.parts, good p) : good e
  object (span : Span) {fields : List (Key × Expr)}
    (parts : ∀ field ∈ fields, (∀ p ∈ field.1.parts, good p) ∧ (good field.2 ∨ IsShort field)) :
    good (.object span fields)

/-! ## Keys -/

/-- A string is shorter than what it is read from. -/
theorem length_readStringBody {quote : Char} {n : Nat} {c c' : Cursor} {s : List Char}
    (h : Gives (readStringBody quote n) c s c') : s.length + c'.rest.length < c.rest.length := by
  have skip_lt {c : Cursor} {d : Char} (here : c.rest.head? = some d) : (c.skip 1).rest.length < c.rest.length :=
    (Cursor.ahead_skip 1 c).length_lt (Cursor.offset_lt_skip (rest_ne_nil_of_head here) (by decide))
  induction n generalizing c s with
  | zero => exact (not_gives_failEnd h).elim
  | succ n ih =>
    obtain ⟨found, _, look, h⟩ := gives_bind.mp h
    obtain ⟨here, rfl⟩ := gives_current?.mp look
    cases found with
    | none => exact (not_gives_failEnd h).elim
    | some d =>
      obtain ⟨_, _, skips, h⟩ := gives_bind.mp h
      obtain rfl := gives_skip.mp skips
      have less := skip_lt here
      split at h
      · obtain ⟨rfl, rfl⟩ := gives_pure.mp h
        simpa using less
      · split at h
        · obtain ⟨found, _, look, h⟩ := gives_bind.mp h
          obtain ⟨here', rfl⟩ := gives_current?.mp look
          cases found with
          | none => exact (not_gives_failEnd h).elim
          | some e =>
            obtain ⟨_, _, skips, h⟩ := gives_bind.mp h
            obtain rfl := gives_skip.mp skips
            have less' := skip_lt here'
            have more {value : Char} {c₁ : Cursor} (on : ((c.skip 1).skip 1).Ahead c₁)
                (h : Gives (do return value :: (← readStringBody quote n)) c₁ s c') :
                s.length + c'.rest.length < c.rest.length := by
              obtain ⟨tail, _, reads, h⟩ := gives_bind.mp h
              obtain ⟨rfl, rfl⟩ := gives_pure.mp h
              have := ih reads
              have := on.length_le
              rw [List.length_cons]
              omega
            split at h
            · obtain ⟨value, c₁, reads, h⟩ := gives_bind.mp h
              exact more (Advances.readUnicodeEscape _ _ _ reads) h
            · obtain ⟨value, c₁, reads, h⟩ := gives_bind.mp h
              obtain ⟨-, rfl⟩ := gives_pure.mp reads
              exact more (.refl _) h
        · split at h
          · exact (not_gives_failHere h).elim
          · obtain ⟨more, _, reads, h⟩ := gives_bind.mp h
            obtain ⟨rfl, rfl⟩ := gives_pure.mp h
            have := ih reads
            rw [List.length_cons]
            omega

/-- What a key was read from. -/
theorem takeBytes_of_ahead {c c' : Cursor} (ahead : c.Ahead c') :
    c.rest = Text.takeBytes (c'.offset - c.offset) c.rest ++ c'.rest := by
  obtain ⟨read, rest, offset⟩ := ahead
  rw [rest, offset, Nat.add_sub_cancel_left, Text.takeBytes_append]

/-- A string is no text that it is read from. -/
theorem readString_ne {quote d : Char} {c c' : Cursor} {s : String} (here : c.rest.head? = some d)
    (h : Gives (readString quote) c s c') : Text.takeBytes (c'.offset - c.offset) c.rest ≠ s.toList := by
  intro same
  obtain ⟨_, _, skips, h⟩ := gives_bind.mp h
  obtain rfl := gives_skip.mp skips
  obtain ⟨_, _, look, h⟩ := gives_bind.mp h
  obtain ⟨-, rfl⟩ := gives_rest.mp look
  obtain ⟨body, _, reads, h⟩ := gives_bind.mp h
  obtain ⟨rfl, rfl⟩ := gives_pure.mp h
  have skips := Cursor.ahead_skip 1 c
  have whole := congrArg List.length (takeBytes_of_ahead (skips.trans (Advances.readStringBody _ _ _ _ _ reads)))
  have shorter := length_readStringBody reads
  have first := skips.length_lt (Cursor.offset_lt_skip (rest_ne_nil_of_head here) (by decide))
  rw [same, String.toList_ofList, List.length_append] at whole
  omega

/-- A key that is written as what it names names a variable, or is a word or a number. -/
theorem readKey_named {n : Nat} {c c' : Cursor} {name : String} (h : Gives (readKey n) c (.named name) c')
    (written : Text.takeBytes (c'.offset - c.offset) c.rest = name.toList) : IsVariable name ∨ IsOdd name := by
  cases n with
  | zero => exact (not_gives_failEnd h).elim
  | succ n =>
    obtain ⟨found, _, look, h⟩ := gives_bind.mp h
    obtain ⟨here, rfl⟩ := gives_current?.mp look
    cases found with
    | none => exact (not_gives_failEnd h).elim
    | some d =>
      dsimp only at h
      split at h
      · obtain ⟨_, _, -, h⟩ := gives_bind.mp h
        obtain ⟨_, _, -, h⟩ := gives_bind.mp h
        obtain ⟨_, _, -, h⟩ := gives_bind.mp h
        obtain ⟨_, _, -, h⟩ := gives_bind.mp h
        obtain ⟨same, -⟩ := gives_pure.mp h
        cases same
      · split at h
        · obtain ⟨s, _, reads, h⟩ := gives_bind.mp h
          obtain ⟨same, rfl⟩ := gives_pure.mp h
          cases same
          exact absurd written (readString_ne here reads)
        · split at h
          · next digit =>
            obtain ⟨x, _, reads, h⟩ := gives_bind.mp h
            obtain ⟨same, rfl⟩ := gives_pure.mp h
            cases same
            obtain ⟨r, text⟩ : ∃ r, c.rest = d :: r := List.head?_eq_some_iff.mp here
            have moves := readNumber_lt text (by simp [digit]) reads
            have whole := takeBytes_of_ahead (Advances.readNumber _ _ _ reads)
            rw [written, text] at whole
            cases first : (Number.format x).toList with
            | nil =>
              -- The cursor moves, so that something is written.
              have less := (Advances.readNumber _ _ _ reads).length_lt moves
              rw [first, List.nil_append] at whole
              rw [text, whole] at less
              exact absurd less (Nat.lt_irrefl _)
            | cons e tail =>
              rw [first] at whole
              obtain ⟨rfl, -⟩ := List.cons.inj whole
              exact .inr (.inr ⟨x, d, tail, rfl, first, digit⟩)
          · obtain ⟨name', _, reads, h⟩ := gives_bind.mp h
            obtain ⟨same, rfl⟩ := gives_pure.mp h
            cases same
            have named := makes_readName _ _ _ reads
            by_cases word : name ∈ Expr.words
            · exact .inr (.inl word)
            · exact .inl ⟨named, word⟩

/-! ## Expressions -/

/-- The readings of expressions, up to a bound on their depth, make what is good. -/
structure Composes (good : Expr → Prop) (n : Nat) : Prop where
  sequence : Makes (readSequence n) good
  more : Makes (readMore n) fun es => ∀ e ∈ es, good e
  assignment : Makes (readAssignment n) good
  conditional : Makes (readConditional n) good
  operation (least : Nat) : Makes (readOperation n least) good
  operators (least : Nat) {left : Expr} (holds : good left) : Makes (readOperators n least left) good
  unary : Makes (readUnary n) good
  postfixed : Makes (readPostfix n) good
  links (start : Nat) (optional : Bool) {e : Expr} (holds : good e) : Makes (readLinks n start optional e) good
  computed : Makes (readComputed n) good
  arguments : Makes (readArguments n) fun es => ∀ e ∈ es, good e
  items (close : Char) (message : String) : Makes (readItems n close message) fun es => ∀ e ∈ es, good e
  primary : Makes (readPrimary n) good
  fields : Makes (readFields n) fun fields =>
    ∀ field ∈ fields, (∀ p ∈ field.1.parts, good p) ∧ (good field.2 ∨ IsShort field)
  key : Makes (readKey n) fun key => ∀ p ∈ key.parts, good p

section Composes

variable {good : Expr → Prop} (made : Composed good)

include made

theorem Composed.one {e p : Expr} (other : e.name? = none) (parts : e.parts = [p]) (holds : good p) : good e :=
  made.compound other (by simpa [parts] using holds)

theorem Composed.two {e p q : Expr} (other : e.name? = none) (parts : e.parts = [p, q]) (holds : good p) (holds' : good q) :
    good e :=
  made.compound other (by simpa [parts] using ⟨holds, holds'⟩)

theorem Composed.literal (span : Span) (v : Value) : good (.literal span v) :=
  made.compound rfl (List.forall_mem_nil _)

theorem Composed.apply (op : Infix) {left right : Expr} (hl : good left) (hr : good right) : good (op.apply left right) := by
  cases op <;> exact made.two rfl rfl hl hr

theorem Composed.member (span : Span) {base : Expr} {key : Key} (optional : Bool) (holds : good base)
    (inside : ∀ p ∈ key.parts, good p) : good (.member span base key optional) :=
  made.compound rfl (List.forall_mem_cons.mpr ⟨holds, inside⟩)

theorem Composed.call (span : Span) {callee : Expr} {arguments : List Expr} (optional : Bool) (holds : good callee)
    (inside : ∀ p ∈ arguments, good p) : good (.call span callee arguments optional) :=
  made.compound rfl (List.forall_mem_cons.mpr ⟨holds, inside⟩)

theorem Composed.finish (optional : Bool) {e : Expr} (holds : good e) : good (readLinks.finish optional e) := by
  cases optional with
  | false => exact holds
  | true => exact made.one rfl rfl holds

theorem Composed.readWord : Makes readWord good := by
  refine .past fun _ => .bind makes_readName fun word named => .past fun _ => ?_
  dsimp only
  split
  · exact .pure (made.literal _ _)
  · next none =>
    unfold wordValue? at none
    split at none <;> try cases none
    next notTrue notFalse notNull notUndefined =>
      split
      · exact .failAt
      · next free =>
        refine .pure (made.name _ ⟨named, ?_⟩)
        simp only [reservedWords, List.mem_cons, List.not_mem_nil, or_false, not_or] at free
        simp only [Expr.words, List.mem_cons, List.not_mem_nil, or_false, not_or]
        exact ⟨notTrue, notFalse, notNull, notUndefined, free⟩

end Composes

namespace Composes

variable {good : Expr → Prop} (made : Composed good) {n : Nat} (ih : Composes good n)

include made ih

theorem readSequence : Makes (readSequence (n + 1)) good := by
  refine .bind ih.assignment fun first holds => .past fun _ => .past fun next => .ite ?_ (.pure holds)
  refine .bind ih.more fun more rest => .past fun _ => .pure ?_
  exact made.compound rfl (List.forall_mem_cons.mpr ⟨holds, rest⟩)

omit made in
theorem readMore : Makes (readMore (n + 1)) fun es => ∀ e ∈ es, good e := by
  refine .past fun _ => .ite ?_ (.pure (List.forall_mem_nil _))
  exact .past fun _ => .bind ih.assignment fun e holds => .past fun _ => .bind ih.more fun more rest =>
    .pure (List.forall_mem_cons.mpr ⟨holds, rest⟩)

theorem readAssignment : Makes (readAssignment (n + 1)) good := by
  refine .bind ih.conditional fun target holds => .past fun _ => .past fun text => ?_
  split
  · exact .pure holds
  · exact .past fun _ => .past fun _ => .bind ih.assignment fun value later => .pure (made.two rfl rfl holds later)

theorem readConditional : Makes (readConditional (n + 1)) good := by
  rw [readConditional_succ]
  refine .bind (ih.operation 0) fun test holds => .past fun _ => .past fun text => .ite ?_ (.pure holds)
  refine .past fun _ => .bind ih.assignment fun consequent holds₁ => .past fun _ => .past fun _ => ?_
  refine .bind ih.assignment fun alternate holds₂ => .pure (made.compound rfl ?_)
  simpa [Expr.parts] using ⟨holds, holds₁, holds₂⟩

omit made in
theorem readOperation (least : Nat) : Makes (readOperation (n + 1) least) good :=
  .bind ih.unary fun _ holds => ih.operators least holds

theorem readOperators (least : Nat) {left : Expr} (holds : good left) : Makes (readOperators (n + 1) least left) good := by
  refine .past fun _ => .past fun text => ?_
  split
  · exact .pure holds
  · refine .ite (.pure holds) (.past fun _ => .bind (ih.operation _) fun right later => ?_)
    exact ih.operators least (made.apply _ holds later)

theorem readUnary : Makes (readUnary (n + 1)) good := by
  refine .past fun _ => .past fun _ => .past fun text => ?_
  split
  · exact .past fun _ => .bind ih.unary fun argument holds => .past fun _ => .pure (made.one rfl rfl holds)
  · split
    · exact .past fun _ => .bind ih.unary fun argument holds => .pure (made.one rfl rfl holds)
    · exact ih.postfixed

theorem readPostfix : Makes (readPostfix (n + 1)) good := by
  refine .bind ih.primary fun first holds => .bind (ih.links _ _ holds) fun argument holds => .past fun text => ?_
  split
  · exact .past fun _ => .past fun _ => .past fun _ => .pure (made.one rfl rfl holds)
  · exact .pure holds

theorem readLink (start : Nat) {e : Expr} (holds : good e) (l : LinkStart) : Makes (readLink n start e l) good := by
  have named (name : String) : ∀ p ∈ (Key.named name).parts, good p := List.forall_mem_nil _
  have computed {key : Expr} (h : good key) : ∀ p ∈ (Key.computed key).parts, good p := List.forall_mem_singleton.mpr h
  cases l with
  | optional =>
    refine .past fun _ => .past fun _ => .past fun d => ?_
    split
    · exact .bind ih.arguments fun arguments rest => .past fun _ => .pure (made.call _ _ holds rest)
    · exact .bind ih.computed fun key h => .past fun _ => .pure (made.member _ _ holds (computed h))
    · exact .past fun name => .past fun _ => .pure (made.member _ _ holds (named name))
  | member => exact .past fun _ => .past fun _ => .past fun name => .past fun _ => .pure (made.member _ _ holds (named name))
  | computed => exact .bind ih.computed fun key h => .past fun _ => .pure (made.member _ _ holds (computed h))
  | call => exact .bind ih.arguments fun arguments rest => .past fun _ => .pure (made.call _ _ holds rest)

theorem readLinks (start : Nat) (optional : Bool) {e : Expr} (holds : good e) :
    Makes (readLinks (n + 1) start optional e) good := by
  rw [readLinks_succ]
  refine .past fun _ => .past fun text => ?_
  split
  · exact .pure (made.finish optional holds)
  · exact .bind (ih.readLink made start holds _) fun e h => ih.links start _ h

omit made in
theorem readComputed : Makes (readComputed (n + 1)) good :=
  .past fun _ => .bind ih.sequence fun _ holds => .past fun _ => .past fun _ => .pure holds

omit made in
theorem readArguments : Makes (readArguments (n + 1)) fun es => ∀ e ∈ es, good e := .past fun _ => ih.items _ _

omit made in
theorem readItems (close : Char) (message : String) :
    Makes (readItems (n + 1) close message) fun es => ∀ e ∈ es, good e := by
  refine .past fun _ => .past fun _ => .ite (.past fun _ => .pure (List.forall_mem_nil _)) ?_
  refine .bind ih.assignment fun e holds => .past fun _ => .past fun d => ?_
  have rest : Makes (do return e :: (← Grammar.readItems n close message)) fun es => ∀ e ∈ es, good e :=
    .bind (ih.items close message) fun items h => .pure (List.forall_mem_cons.mpr ⟨holds, h⟩)
  split
  · exact .failEnd
  · exact .ite (.past fun _ => rest) (.ite (.past fun _ => rest) rest)

theorem readPrimary : Makes (readPrimary (n + 1)) good := by
  refine .past fun _ => .past fun _ => .past fun text => ?_
  split
  · exact .failEnd
  · refine .ite (.past fun _ => .past fun _ => .pure (made.literal _ _)) (.ite ?_ (.ite ?_ (.ite ?_ (.ite ?_ ?_))))
    · exact .past fun _ => .past fun _ => .pure (made.literal _ _)
    · exact .past fun _ => .bind ih.sequence fun _ holds => .past fun _ => .past fun _ => .pure holds
    · exact .past fun _ => .bind (ih.items _ _) fun _ holds => .past fun _ => .pure (made.compound rfl holds)
    · exact .past fun _ => .bind ih.fields fun _ holds => .past fun _ => .pure (made.object _ holds)
    · exact .ite made.readWord .failHere

omit made in
/-- What a field without a value stands for is known from its key and from how that is written. -/
theorem fieldValue {c c₁ : Cursor} {key : Key} (span : Span) (h : Gives (Grammar.readKey n) c key c₁) :
    Makes (Grammar.fieldValue n (Text.takeBytes (c₁.offset - c.offset) c.rest) span key) fun value =>
      good value ∨ IsShort (key, value) := by
  refine .past fun _ => .ite (.past fun _ _ value _ reads => .inl (ih.assignment _ value _ reads)) ?_
  cases key with
  | computed e => exact .failHere
  | named name =>
    dsimp only
    split
    · next written => exact .pure (.inr (.intro span (readKey_named h written)))
    · exact .failHere

omit made in
theorem readFields : Makes (readFields (n + 1)) fun fields =>
    ∀ field ∈ fields, (∀ p ∈ field.1.parts, good p) ∧ (good field.2 ∨ IsShort field) := by
  rw [readFields_succ]
  intro c fields c' h
  obtain ⟨_, c, -, h⟩ := gives_bind.mp h
  obtain ⟨_, _, look, h⟩ := gives_bind.mp h
  obtain ⟨rfl, rfl⟩ := gives_offset.mp look
  obtain ⟨_, _, look, h⟩ := gives_bind.mp h
  obtain ⟨rfl, rfl⟩ := gives_rest.mp look
  split at h
  · obtain ⟨_, _, -, h⟩ := gives_bind.mp h
    obtain ⟨rfl, -⟩ := gives_pure.mp h
    exact List.forall_mem_nil _
  · obtain ⟨key, c₁, reads, h⟩ := gives_bind.mp h
    obtain ⟨_, _, look, h⟩ := gives_bind.mp h
    obtain ⟨rfl, rfl⟩ := gives_offset.mp look
    obtain ⟨_, _, -, h⟩ := gives_bind.mp h
    obtain ⟨value, _, found, h⟩ := gives_bind.mp h
    obtain ⟨_, _, -, h⟩ := gives_bind.mp h
    have here := And.intro (ih.key _ _ _ reads) (ih.fieldValue _ reads _ _ _ found)
    have rest : Makes (do return (key, value) :: (← Grammar.readFields n)) fun fields =>
        ∀ field ∈ fields, (∀ p ∈ field.1.parts, good p) ∧ (good field.2 ∨ IsShort field) :=
      .bind ih.fields fun fields later => .pure (List.forall_mem_cons.mpr ⟨here, later⟩)
    obtain ⟨d, _, -, h⟩ := gives_bind.mp h
    cases d with
    | none => exact (not_gives_failEnd h).elim
    | some d => exact (Makes.ite (.past fun _ => rest) (.ite (.past fun _ => rest) rest)) _ _ _ h

omit made in
theorem readKey : Makes (readKey (n + 1)) fun key => ∀ p ∈ key.parts, good p := by
  have named (name : String) : ∀ p ∈ (Key.named name).parts, good p := List.forall_mem_nil _
  refine .past fun d => ?_
  split
  · exact .failEnd
  · refine .ite ?_ (.ite ?_ (.ite ?_ ?_))
    · refine .past fun _ => .bind ih.assignment fun e holds => .past fun _ => .past fun _ => .pure ?_
      exact List.forall_mem_singleton.mpr holds
    · exact .past fun _ => .pure (named _)
    · exact .past fun _ => .pure (named _)
    · exact .past fun _ => .pure (named _)

theorem succ : Composes good (n + 1) where
  sequence := ih.readSequence made
  more := ih.readMore
  assignment := ih.readAssignment made
  conditional := ih.readConditional made
  operation := ih.readOperation
  operators least _ holds := ih.readOperators made least holds
  unary := ih.readUnary made
  postfixed := ih.readPostfix made
  links start optional _ holds := ih.readLinks made start optional holds
  computed := ih.readComputed
  arguments := ih.readArguments
  items := ih.readItems
  primary := ih.readPrimary made
  fields := ih.readFields
  key := ih.readKey

end Composes

theorem composes {good : Expr → Prop} (made : Composed good) (n : Nat) : Composes good n := by
  induction n with
  | zero => constructor <;> intros <;> exact .failEnd
  | succ n ih => exact ih.succ made

/-- **What is composed of good parts is good in all that is read.** -/
theorem Composed.makes_readExpr {good : Expr → Prop} (made : Composed good) : Makes readExpr good :=
  .past fun _ => (composes made _).sequence

end Grammar

theorem Expr.holds_of_parse {good : Expr → Prop} (made : Grammar.Composed good) {source : List Char} {e : Expr}
    (parsed : parse source = .ok e) : good e := by
  unfold parse at parsed
  split at parsed
  · next found c' reads =>
    cases parsed
    have whole : Makes Grammar.readWhole good :=
      .bind made.makes_readExpr fun e holds => .past fun _ => .past fun _ => .ite (.pure holds) .failHere
    exact whole _ _ _ reads
  · cases parsed

/-! ## Documents -/

/-- The nodes in an attribute. -/
def Attribute.parts : Attribute → List Node
  | .mk _ _ .flag => []
  | .mk _ _ (.nodes parts) => parts

namespace Node

/-- The expressions of a node itself. -/
def exprs : Node → List Expr
  | interpolation _ e _ | choice _ e _ _ _ | loop _ e _ _ _ _ _ => [e]
  | text _ _ _ | comment _ _ _ | config _ _ _ | element _ _ _ _ _ | group _ _ _ => []

/-- The nodes in a node, those in its attributes among them. -/
def parts : Node → List Node
  | choice _ _ body other _ | loop _ _ _ _ body other _ => body ++ other.getD []
  | element _ _ attributes body _ => attributes.flatMap Attribute.parts ++ body
  | group _ body _ => body
  | text _ _ _ | comment _ _ _ | config _ _ _ | interpolation _ _ _ => []

/-- An expression stands in a node, at any depth. -/
inductive Contains (e : Expr) : Node → Prop
  | own {n : Node} (there : e ∈ n.exprs) : Contains e n
  | inside {m n : Node} (there : m ∈ n.parts) (deeper : Contains e m) : Contains e n

/-- All expressions in a node are fine. -/
def AllFine (fine : Expr → Prop) (n : Node) : Prop := ∀ e, Contains e n → fine e

variable {fine : Expr → Prop}

theorem AllFine.of_parts {n : Node} (own : ∀ e ∈ n.exprs, fine e) (inside : ∀ m ∈ n.parts, m.AllFine fine) :
    n.AllFine fine := by
  intro e found
  cases found with
  | own there => exact own e there
  | inside there deeper => exact inside _ there e deeper

theorem AllFine.leaf {n : Node} (own : ∀ e ∈ n.exprs, fine e) (none : n.parts = []) : n.AllFine fine :=
  .of_parts own (by simp [none])

theorem allFine_branches {body : List Node} {other : Option (List Node)} (inside : ∀ n ∈ body, AllFine fine n)
    (beside : ∀ nodes, other = some nodes → ∀ n ∈ nodes, AllFine fine n) :
    ∀ n ∈ body ++ other.getD [], AllFine fine n := by
  refine List.forall_mem_append.mpr ⟨inside, ?_⟩
  cases other with
  | none => exact List.forall_mem_nil _
  | some nodes => exact beside nodes rfl

/-- The expressions of a document are fine if all are that are read. -/
theorem builtFrom_allFine : Grammar.BuiltFrom fine (AllFine fine) (AllFine fine) where
  text _ _ := .leaf (List.forall_mem_nil _) rfl
  value _ _ holds := .leaf (List.forall_mem_singleton.mpr holds) rfl
  words _ _ := .leaf (List.forall_mem_nil _) rfl
  comment _ _ := .leaf (List.forall_mem_nil _) rfl
  header _ _ := .leaf (List.forall_mem_nil _) rfl
  interpolation _ _ holds := .leaf (List.forall_mem_singleton.mpr holds) rfl
  choice _ _ holds _ _ inside beside := .of_parts (List.forall_mem_singleton.mpr holds) (allFine_branches inside beside)
  loop _ _ holds _ _ _ _ inside beside := .of_parts (List.forall_mem_singleton.mpr holds) (allFine_branches inside beside)
  element _ _ _ _ parts _ inside := by
    refine .of_parts (List.forall_mem_nil _) (List.forall_mem_append.mpr ⟨fun n member => ?_, inside⟩)
    obtain ⟨⟨_, _, value⟩, there, member⟩ := List.mem_flatMap.mp member
    cases value with
    | flag => exact absurd member List.not_mem_nil
    | nodes => exact parts _ there n member

end Node

theorem Document.holds_of_parse {good : Expr → Prop} (made : Grammar.Composed good) {source : List Char} {d : Document}
    (parsed : parse source = .ok d) : ∀ n ∈ d.body, n.AllFine good :=
  Node.builtFrom_allFine.of_parse made.makes_readExpr parsed

/-! ## Variables -/

namespace Expr

/-- Every variable in an expression has the name of one, or else it is the value of a field that has none of its own. -/
def WellNamed (e : Expr) : Prop :=
  ∀ span name, (identifier span name).Within e → Grammar.IsVariable name ∨
    Grammar.IsOdd name ∧ ∃ span' fields, (object span' fields).Within e ∧ (.named name, identifier span name) ∈ fields

theorem WellNamed.mono {p e : Expr} (named : p.WellNamed) (there : p ∈ e.parts) {span : Span} {name : String}
    (within : (identifier span name).Within p) : Grammar.IsVariable name ∨ Grammar.IsOdd name ∧
      ∃ span' fields, (object span' fields).Within e ∧ (.named name, identifier span name) ∈ fields := by
  refine (named span name within).imp_right fun ⟨odd, span', fields, deeper, listed⟩ => ?_
  exact ⟨odd, span', fields, .inside there deeper, listed⟩

/-- All that is read is well named. -/
theorem composed_wellNamed : Grammar.Composed WellNamed where
  name span name named span' name' within := by
    cases within with
    | self => exact .inl named
    | inside there => cases there
  compound other parts span name within := by
    cases within with
    | self => cases other
    | inside there deeper => exact (parts _ there).mono there deeper
  object span fields parts span' name within := by
    cases within with
    | inside there deeper =>
      have whole := there
      obtain ⟨⟨key, value⟩, field, there⟩ := List.mem_flatMap.mp there
      obtain ⟨computed, named⟩ := parts _ field
      rcases List.mem_append.mp there with inKey | isValue
      · exact (computed _ inKey).mono whole deeper
      · obtain rfl := List.mem_singleton.mp isValue
        rcases named with named | short
        · exact named.mono whole deeper
        · cases short with
          | intro _ named =>
            cases deeper with
            | self => exact named.imp_right fun odd => ⟨odd, span, fields, .self, field⟩
            | inside there => cases there

/-- Every variable in an expression has the name of one. -/
def NamesVariables (e : Expr) : Prop := ∀ span name, (identifier span name).Within e → Grammar.IsVariable name

/-- No object in an expression has a field without a value that is named by a word or a number. -/
def NoOddField (e : Expr) : Prop :=
  ∀ span fields, (object span fields).Within e → ∀ span' name, (.named name, identifier span' name) ∈ fields →
    ¬ Grammar.IsOdd name

theorem Within.trans {a b e : Expr} (inner : a.Within b) (outer : b.Within e) : a.Within e := by
  induction outer with
  | self => exact inner
  | inside there _ ih => exact .inside there ih

theorem WellNamed.namesVariables_iff {e : Expr} (named : e.WellNamed) : e.NamesVariables ↔ e.NoOddField := by
  refine ⟨fun all span fields object span' name field => ?_, fun none span name within => ?_⟩
  · have part : identifier span' name ∈ (Expr.object span fields).parts :=
      List.mem_flatMap.mpr ⟨_, field, List.mem_append_right _ (List.mem_singleton_self _)⟩
    exact (all span' name (Within.trans (.inside part .self) object)).not_isOdd
  · obtain proper | ⟨odd, span', fields, object, field⟩ := named span name within
    · exact proper
    · exact absurd odd (none span' fields object span name field)

/-- **Only variables and fields without a value are read as names**: in every source that is read, an expression or a
document, each variable has a name that is no word, or else it is the value of a field of an object, whose key is the
same text: a word, or a number as it is written. So all its variables have names of variables just if there is no such
field. -/
theorem variables_named (source : List Char) :
    (∀ e, parse source = .ok e → e.WellNamed ∧ (e.NamesVariables ↔ e.NoOddField)) ∧
      ∀ d, Document.parse source = .ok d → ∀ n ∈ d.body,
        n.AllFine fun e => e.WellNamed ∧ (e.NamesVariables ↔ e.NoOddField) := by
  refine ⟨fun e parsed => ?_, fun d parsed n there e within => ?_⟩
  · have named := holds_of_parse composed_wellNamed parsed
    exact ⟨named, named.namesVariables_iff⟩
  · have named := Document.holds_of_parse composed_wellNamed parsed n there e within
    exact ⟨named, named.namesVariables_iff⟩

/-- A variable, and a word in a field without a value, in an expression and in an attribute of a document. -/
theorem variables_named_of_short :
    let e (o : Nat) : Expr := .object ⟨o, o + 9⟩
      [(.named "a", .identifier ⟨o + 2, o + 3⟩ "a"), (.named "in", .identifier ⟨o + 5, o + 7⟩ "in")]
    let n : Node := .element ⟨0, 26⟩ .step
      [.mk ⟨6, 23⟩ "x" (.nodes [.interpolation ⟨8, 23⟩ (e 11) none])] [] none
    parse "\x7b a, in \x7d".toList = .ok (e 0) ∧ (e 0).WellNamed ∧ ((e 0).NamesVariables ↔ (e 0).NoOddField) ∧
      Document.parse "<step x=\x7b\x7b \x7b a, in \x7d \x7d\x7d />".toList = .ok ⟨⟨0, 26⟩, [n], none⟩ ∧
      n.AllFine fun e => e.WellNamed ∧ (e.NamesVariables ↔ e.NoOddField) := by
  intro e n
  have parsed : parse "\x7b a, in \x7d".toList = .ok (e 0) := rfl
  have parsed' : Document.parse "<step x=\x7b\x7b \x7b a, in \x7d \x7d\x7d />".toList = .ok ⟨⟨0, 26⟩, [n], none⟩ := rfl
  obtain ⟨named, iff⟩ := (variables_named _).1 _ parsed
  exact ⟨parsed, named, iff, parsed', (variables_named _).2 _ parsed' n (List.mem_singleton_self n)⟩

/-- In a field without a value a number is taken for a variable, and so is a word. -/
theorem number_is_variable : ¬ ∀ source e, parse source = .ok e → e.NamesVariables := by
  intro all
  have parsed : parse "\x7b 5, true \x7d".toList = .ok (.object ⟨0, 11⟩
      [(.named "5", .identifier ⟨2, 3⟩ "5"), (.named "true", .identifier ⟨5, 9⟩ "true")]) := rfl
  have five := all _ _ parsed ⟨2, 3⟩ "5" (.inside (.head _) .self)
  exact absurd five.1 (by decide)

end Expr
end PromptScript
