import PromptScript.Proofs.Branches
import PromptScript.Proofs.Pointed

/-! # Choices without blanks

A choice whose first branch starts with a point and a digit is refused if no blank parts the two from its question mark: its
test is read to the end, the link is left alone because of the digit, and the choice because of the point. With blanks the
same parts are a choice. -/
namespace PromptScript
namespace Grammar

variable {α β : Type} {behind : List Char} {c : Cursor}

namespace Undisturbed

theorem checkUpdateTarget {target : Expr} : Undisturbed behind (checkUpdateTarget target) c := by
  unfold Grammar.checkUpdateTarget
  split
  · exact pure
  · exact pure
  · exact failAt

theorem checkAssignTarget {target : Expr} : Undisturbed behind (checkAssignTarget target) c := by
  unfold Grammar.checkAssignTarget
  split
  · exact pure
  · exact pure
  · exact failAt
  · exact failAt

theorem separated {close : Char} {message : String} {next : Reading β}
    (rest : ∀ c, Undisturbed behind next c) : Undisturbed behind (separated close message next) c := by
  refine peek (fun _ _ _ => not_gives_failEnd) ?_
  cases here : c.rest.head? with
  | none => exact failEnd
  | some d =>
    dsimp only
    split
    · next comma => exact skipHead here (by rw [comma]; decide) (rest _)
    · split
      · exact none (not_gives_first fun _ _ => not_gives_failHere)
      · exact rest _

variable (pointed : IsPointed behind)

include pointed

theorem readUpdate {argument : Expr} : Undisturbed behind (readUpdate argument) c := by
  refine rest (fun unasked => by rw [updateAt?_before pointed unasked]) ?_
  split
  · next op here =>
    refine checkUpdateTarget.bind fun _ c₁ checks => ?_
    obtain rfl := (checkUpdateTarget_gives checks).1
    have twice : ∃ d r, c.rest = [d, d] ++ r ∧ d ≠ '?' := by
      unfold updateAt? at here
      split at here <;> cases here
      · next text => exact ⟨'+', _, text, by decide⟩
      · next text => exact ⟨'-', _, text, by decide⟩
    obtain ⟨d, r, text, apart⟩ := twice
    exact skipLead [d, d] text (fun mark => apart (Option.some.inj mark)) (offset pure)
  · exact pure

end Undisturbed

/-- The readings of expressions up to a bound on their depth. -/
structure Undisturbeds (behind : List Char) (n : Nat) : Prop where
  sequence (c : Cursor) : Undisturbed behind (readSequence n) c
  more (c : Cursor) : Undisturbed behind (readMore n) c
  assignment (c : Cursor) : Undisturbed behind (readAssignment n) c
  conditional (c : Cursor) : Undisturbed behind (readConditional n) c
  operation (least : Nat) (c : Cursor) : Undisturbed behind (readOperation n least) c
  operators (least : Nat) (left : Expr) (c : Cursor) : Undisturbed behind (readOperators n least left) c
  unary (c : Cursor) : Undisturbed behind (readUnary n) c
  postfixed (c : Cursor) : Undisturbed behind (readPostfix n) c
  links (start : Nat) (optional : Bool) (e : Expr) (c : Cursor) : Undisturbed behind (readLinks n start optional e) c
  computed (c : Cursor) : Undisturbed behind (readComputed n) c
  arguments (c : Cursor) : Undisturbed behind (readArguments n) c
  items {close : Char} (closing : close ≠ '?') (message : String) (c : Cursor) :
    Undisturbed behind (readItems n close message) c
  primary (c : Cursor) : Undisturbed behind (readPrimary n) c
  fields (c : Cursor) : Undisturbed behind (readFields n) c
  key (c : Cursor) : Undisturbed behind (readKey n) c

namespace Undisturbeds

variable {n : Nat} (pointed : IsPointed behind) (ih : Undisturbeds behind n) (c : Cursor)

include pointed ih

theorem readSequence : Undisturbed behind (readSequence (n + 1)) c := by
  refine (ih.assignment c).bind fun first c₁ _ => .skipSpaces pointed (.current? pointed (fun _ => rfl) ?_)
  exact .ite (fun _ => (ih.more _).bind fun _ _ _ => .offset .pure) fun _ => .pure

theorem readMore : Undisturbed behind (readMore (n + 1)) c := by
  refine .current? pointed (fun _ => rfl) (.ite (fun comma => .skipHead comma (by decide) ?_) fun _ => .pure)
  exact (ih.assignment _).bind fun e c₁ _ => .skipSpaces pointed ((ih.more _).bind fun _ _ _ => .pure)

theorem readAssignment : Undisturbed behind (readAssignment (n + 1)) c := by
  refine (ih.conditional c).bind fun target c₁ _ => .skipSpaces pointed ?_
  refine .rest (fun unasked => by rw [assignAt?_before pointed unasked]) ?_
  split
  · exact .pure
  · refine .skipTo (fun e c' empty h => ?_) ?_
    · obtain ⟨_, _, checks, h⟩ := gives_bind.mp h
      have some := (Advances.checkAssignTarget target _ _ _ checks).rest_ne_nil fun empty =>
        not_gives_first (fun _ _ => not_gives_readAssignment empty) e c' h
      exact some empty
    · exact Undisturbed.checkAssignTarget.bind fun _ c₂ _ => (ih.assignment _).bind fun _ _ _ => .pure

theorem readConditional : Undisturbed behind (readConditional (n + 1)) c := by
  rw [readConditional_succ]
  refine (ih.operation 0 c).bind fun test c₁ _ => .skipSpaces pointed ?_
  refine .rest (fun unasked => by rw [choiceAt_before pointed unasked]) (.ite (fun _ => ?_) fun _ => .pure)
  refine .skipTo (fun _ _ empty => not_gives_first (fun _ _ => not_gives_readAssignment empty) _ _) ?_
  refine (ih.assignment _).bind fun first c₂ _ => .skipSpaces pointed (.bind (.expect (by decide)) fun _ c₃ _ => ?_)
  exact (ih.assignment _).bind fun _ _ _ => .pure

omit pointed in
theorem readOperation (least : Nat) : Undisturbed behind (readOperation (n + 1) least) c :=
  (ih.unary c).bind fun left c₁ _ => ih.operators least left c₁

theorem readOperators (least : Nat) (left : Expr) : Undisturbed behind (readOperators (n + 1) least left) c := by
  refine .skipSpaces pointed (.rest (fun unasked => by rw [infixAt?_before pointed unasked]) ?_)
  split
  · exact .pure
  · refine .ite (fun _ => .pure) fun _ => ?_
    refine .skipTo (fun _ _ empty => not_gives_first (fun _ _ => not_gives_readOperation empty) _ _) ?_
    exact (ih.operation _ _).bind fun _ _ _ => ih.operators _ _ _

theorem readUnary : Undisturbed behind (readUnary (n + 1)) c := by
  refine .skipSpaces pointed (.offset (.rest (fun unasked => ?_) ?_))
  · rw [updateAt?_before pointed unasked, unaryAt?_before pointed unasked]
  · split
    · refine .skipTo (fun _ _ empty => not_gives_first (fun _ _ => not_gives_readUnary empty) _ _) ?_
      exact (ih.unary _).bind fun argument c₁ _ => Undisturbed.checkUpdateTarget.bind fun _ _ _ => .pure
    · split
      · refine .skipTo (fun _ _ empty => not_gives_first (fun _ _ => not_gives_readUnary empty) _ _) ?_
        exact (ih.unary _).bind fun _ _ _ => .pure
      · exact ih.postfixed _

theorem readPostfix : Undisturbed behind (readPostfix (n + 1)) c := by
  rw [readPostfix_succ]
  exact (ih.primary c).bind fun first c₁ _ => (ih.links _ _ _ c₁).bind fun _ _ _ => Undisturbed.readUpdate pointed

theorem readLink (start : Nat) (e : Expr) (l : LinkStart) : Undisturbed behind (readLink n start e l) c := by
  have name (optional : Bool) (c : Cursor) : Undisturbed behind
      (do let name ← readName; return Expr.member ⟨start, ← Grammar.offset⟩ e (.named name) optional) c :=
    (Undisturbed.readName pointed).bind fun _ _ _ => .offset .pure
  cases l with
  | optional =>
    refine .skipTo (not_gives_blanks fun c x c' empty h => ?_) (.skipSpaces pointed (.peek (fun x c' empty => ?_) ?_))
    · obtain ⟨_, _, look, h⟩ := gives_bind.mp h
      obtain ⟨rfl, rfl⟩ := gives_current?.mp look
      rw [empty] at h
      exact not_gives_first (fun _ _ => not_gives_readName empty) x c' h
    · exact not_gives_first (fun _ _ => not_gives_readName empty) x c'
    · split
      · exact (ih.arguments _).bind fun _ _ _ => .offset .pure
      · exact (ih.computed _).bind fun _ _ _ => .offset .pure
      · exact name true _
  | member =>
    refine .skipTo (not_gives_blanks fun c x c' empty => ?_) (.skipSpaces pointed (name false _))
    exact not_gives_first (fun _ _ => not_gives_readName empty) x c'
  | computed => exact (ih.computed _).bind fun _ _ _ => .offset .pure
  | call => exact (ih.arguments _).bind fun _ _ _ => .offset .pure

theorem readLinks (start : Nat) (optional : Bool) (e : Expr) : Undisturbed behind (readLinks (n + 1) start optional e) c := by
  rw [readLinks_succ]
  refine .skipSpaces pointed (.rest (fun unasked => by rw [linkAt?_before pointed unasked]) ?_)
  split
  · exact .pure
  · exact (ih.readLink pointed _ _ _ _).bind fun _ _ _ => ih.links _ _ _ _

theorem readComputed : Undisturbed behind (readComputed (n + 1)) c :=
  .bind (.expect (by decide)) fun _ c₁ _ => (ih.sequence c₁).bind fun key c₂ _ =>
    .skipSpaces pointed (.bind (.expect (by decide)) fun _ _ _ => .pure)

omit pointed in
theorem readArguments : Undisturbed behind (readArguments (n + 1)) c :=
  .bind (.expect (by decide)) fun _ c₁ _ => ih.items (by decide) _ c₁

theorem readItems {close : Char} (closing : close ≠ '?') (message : String) :
    Undisturbed behind (readItems (n + 1) close message) c := by
  refine .skipSpaces pointed (.peek (fun _ _ empty => ?_) (.ite (fun here => .skipHead here closing .pure) fun _ => ?_))
  · exact not_gives_first (fun _ _ => not_gives_readAssignment empty) _ _
  · refine (ih.assignment _).bind fun e c₁ _ => .skipSpaces pointed ?_
    exact Undisturbed.separated fun c => (ih.items closing message c).bind fun _ _ _ => .pure

theorem readPrimary : Undisturbed behind (readPrimary (n + 1)) c := by
  refine .skipSpaces pointed (.offset ?_)
  cases here : (c.skipWhile isSpace).rest with
  | nil =>
    refine .none fun e c' h => ?_
    obtain ⟨_, _, look, h⟩ := gives_bind.mp h
    obtain ⟨rfl, rfl⟩ := gives_rest.mp look
    rw [here] at h
    exact not_gives_failEnd h
  | cons d r =>
    have head : (c.skipWhile isSpace).rest.head? = some d := by rw [here]; rfl
    refine .rest (fun unasked => ?_) ?_
    · have numeral := numeralAt_before pointed unasked
      rw [here, List.cons_append] at numeral ⊢
      simp only [numeralAt] at numeral
      simp only [numeral]
    · rw [here]
      refine .ite (fun _ => (Undisturbed.readNumber pointed).bind fun _ _ _ => .offset .pure) fun _ => .ite (fun quote => ?_) fun _ =>
        .ite (fun opening => ?_) fun _ => .ite (fun opening => ?_) fun _ => .ite (fun opening => ?_) fun _ =>
        .ite (fun _ => Undisturbed.readWord pointed) fun _ => .failHere
      · have closing : d ≠ '?' := by rcases quote with rfl | rfl <;> decide
        exact (Undisturbed.readString closing head).bind fun _ _ _ => .offset .pure
      · refine .skipHead head (by rw [opening]; decide) ((ih.sequence _).bind fun inner c₁ _ => .skipSpaces pointed ?_)
        exact .bind (.expect (by decide)) fun _ _ _ => .pure
      · exact .skipHead head (by rw [opening]; decide) ((ih.items (by decide) _ _).bind fun _ _ _ => .offset .pure)
      · exact .skipHead head (by rw [opening]; decide) ((ih.fields _).bind fun _ _ _ => .offset .pure)

theorem restOfFields (written : List Char) (span : Span) (key : Key) :
    Undisturbed behind (restOfFields n written span key) c := by
  refine .skipSpaces pointed (.bind (.current? pointed (fun _ => rfl) ?_) fun value c₁ _ => .skipSpaces pointed ?_)
  · refine .ite (fun colon => .skipHead colon (by decide) (ih.assignment _)) fun _ => ?_
    cases key with
    | named name => exact .ite (fun _ => .pure) fun _ => .failHere
    | computed e => exact .failHere
  · exact Undisturbed.separated fun c => (ih.fields c).bind fun _ _ _ => .pure

theorem fieldsHere : Undisturbed behind (fieldsHere n) c := by
  by_cases empty : c.rest = []
  · refine .none fun fields c' h => ?_
    change Gives (if c.rest.head? = some '\x7d' then _ else _) c fields c' at h
    rw [empty] at h
    exact not_gives_first (fun _ _ => not_gives_readKey empty) fields c' h
  · intro fields c' h unasked
    change Gives (if c.rest.head? = some '\x7d' then _ else _) c fields c' at h
    show _ ∧ Gives (if (c.before behind).rest.head? = some '\x7d' then _ else _) (c.before behind) fields (c'.before behind)
    rw [Cursor.head?_before empty]
    split at h
    · next close =>
      rw [if_pos close]
      exact Undisturbed.skipHead (f := fun _ => Pure.pure []) close (by decide) .pure fields c' h unasked
    · next more =>
      rw [if_neg more]
      obtain ⟨key, c₁, reads, h⟩ := gives_bind.mp h
      have later := ih.restOfFields pointed c₁ (Text.takeBytes (c₁.offset - c.offset) c.rest) ⟨c.offset, c₁.offset⟩ key
      obtain ⟨unasked, later⟩ := later fields c' h unasked
      obtain ⟨unasked, first⟩ := ih.key c key c₁ reads unasked
      -- What is written of the key is what has been passed over, in both texts.
      obtain ⟨read, rest, offset⟩ := (Advances.expressions n).key _ _ _ reads
      have written (behind : List Char) : Text.takeBytes (c₁.offset - c.offset) (c.rest ++ behind) = read := by
        rw [rest, List.append_assoc, offset, Nat.add_sub_cancel_left, Text.takeBytes_append]
      have alone := written []
      rw [List.append_nil] at alone
      rw [alone, ← written behind] at later
      exact ⟨unasked, .bind first later⟩

theorem readFields : Undisturbed behind (readFields (n + 1)) c := .skipSpaces pointed (ih.fieldsHere pointed _)

theorem readKey : Undisturbed behind (readKey (n + 1)) c := by
  refine .peek (fun _ _ _ => not_gives_failEnd) ?_
  cases here : c.rest.head? with
  | none => exact .failEnd
  | some d =>
    refine .ite (fun opening => ?_) fun _ => .ite (fun quote => ?_) fun _ => .ite (fun _ => ?_) fun _ => ?_
    · refine .skipHead here (by rw [opening]; decide) ((ih.assignment _).bind fun key c₁ _ => .skipSpaces pointed ?_)
      exact .bind (.expect (by decide)) fun _ _ _ => .pure
    · have closing : d ≠ '?' := by rcases quote with rfl | rfl <;> decide
      exact (Undisturbed.readString closing here).bind fun _ _ _ => .pure
    · exact (Undisturbed.readNumber pointed).bind fun _ _ _ => .pure
    · exact (Undisturbed.readName pointed).bind fun _ _ _ => .pure

theorem succ : Undisturbeds behind (n + 1) where
  sequence := ih.readSequence pointed
  more := ih.readMore pointed
  assignment := ih.readAssignment pointed
  conditional := ih.readConditional pointed
  operation least c := ih.readOperation c least
  operators least left c := ih.readOperators pointed c least left
  unary := ih.readUnary pointed
  postfixed := ih.readPostfix pointed
  links start optional e c := ih.readLinks pointed c start optional e
  computed := ih.readComputed pointed
  arguments := ih.readArguments
  items closing message c := ih.readItems pointed c closing message
  primary := ih.readPrimary pointed
  fields := ih.readFields pointed
  key := ih.readKey pointed

end Undisturbeds

theorem undisturbeds (pointed : IsPointed behind) (n : Nat) : Undisturbeds behind n := by
  induction n with
  | zero => constructor <;> intros <;> exact .failEnd
  | succ n ih => exact ih.succ pointed

/-! ## Choices that are refused -/

theorem IsPointed.stops (pointed : IsPointed behind) : Stops behind := by
  obtain ⟨d, r, digit, rfl⟩ := pointed
  refine ⟨⟨by rintro _ ⟨⟩; rfl, ?_, rfl⟩, rfl, rfl, rfl⟩
  show (if (true && !d.isDigit) = true then some LinkStart.optional else none) = none
  rw [digit]
  rfl

/-- Behind a test that is read to its end, nothing is made of a mark and a point. -/
theorem parse_of_pointed {t : List Char} {test : Expr} (tests : ReadsWhole (readOperation · 0) t test)
    (pointed : IsPointed behind) : Expr.parse (t ++ behind) = .error (Diagnostic.of (t ++ behind)
      ⟨.syntaxFault "Unexpected token after expression", ⟨Text.byteLength t, Text.byteLength t + 1⟩⟩) := by
  obtain ⟨n, reads⟩ := tests
  obtain ⟨-, reads⟩ := (undisturbeds pointed n).operation 0 (.start t) test _ reads nofun
  have stops := pointed.stops
  have comma : behind.head? ≠ some ',' := by
    obtain ⟨d, r, -, rfl⟩ := pointed
    nofun
  have whole := gives_readSequence (gives_readAssignment (gives_readConditional reads stops.solid stops.choice)
    stops.solid stops.assign) stops.solid comma
  refine parse_of_unended whole stops.solid ?_
  obtain ⟨d, r, -, rfl⟩ := pointed
  nofun

/-- The text of a choice without blanks around its marks. -/
def tightChoice (test first second : List Char) : List Char := test ++ '?' :: (first ++ ':' :: second)

end Grammar

open Grammar

/-- **A choice whose first branch starts with a point and a digit needs a blank before it.** Its parts are read as the same
choice with blanks around the marks; without blanks the text is refused at its question mark, whatever the parts are. -/
theorem Expr.choice_before_point {t a b : List Char} {test first second : Expr}
    (tests : ReadsWhole (readOperation · 0) t test) (firsts : ReadsWhole readAssignment a first)
    (seconds : ReadsWhole readAssignment b second) :
    (∃ x, parse (spacedChoice t a b) = .ok x ∧ x.unplaced = (conditional ⟨0, 0⟩ test first second).unplaced) ∧
      ∀ d r, d.isDigit = true → a = '.' :: d :: r → parse (tightChoice t a b) = .error (Diagnostic.of (tightChoice t a b)
        ⟨.syntaxFault "Unexpected token after expression", ⟨Text.byteLength t, Text.byteLength t + 1⟩⟩) := by
  refine ⟨?_, ?_⟩
  · obtain ⟨x, ⟨n, reads⟩, same⟩ := readsWhole_spacedChoice tests firsts seconds
    have stops := stops_nil
    have whole := gives_readSequence (gives_readAssignment reads stops.solid stops.assign) stops.solid nofun
    exact ⟨x, parse_of_ended whole, same⟩
  · rintro d r digit rfl
    exact parse_of_pointed tests ⟨d, _, digit, rfl⟩

/-- The choice between a half and one. -/
theorem Expr.choice_before_half : ∃ test first second : Expr,
    ReadsWhole (readOperation · 0) "a".toList test ∧ ReadsWhole readAssignment ".5".toList first ∧
    ReadsWhole readAssignment "1".toList second ∧
    (∃ x, parse "a ? .5 : 1".toList = .ok x ∧ x.unplaced = (conditional ⟨0, 0⟩ test first second).unplaced) ∧
    parse "a?.5:1".toList = .error (Diagnostic.of "a?.5:1".toList
      ⟨.syntaxFault "Unexpected token after expression", ⟨1, 2⟩⟩) := by
  have tests : ReadsWhole (readOperation · 0) "a".toList (.identifier ⟨0, 1⟩ "a") := ⟨32, rfl⟩
  have firsts : ReadsWhole readAssignment ".5".toList (.literal ⟨0, 2⟩ (.number 0.5)) := ⟨32, rfl⟩
  have seconds : ReadsWhole readAssignment "1".toList (.literal ⟨0, 1⟩ (.number 1)) := ⟨32, rfl⟩
  obtain ⟨spaced, tight⟩ := choice_before_point tests firsts seconds
  exact ⟨_, _, _, tests, firsts, seconds, spaced, tight '5' [] rfl rfl⟩

/-- Without blanks it is no choice. -/
theorem Expr.half_is_no_choice : ∃ test first second x : Expr,
    ReadsWhole (readOperation · 0) "a".toList test ∧ ReadsWhole readAssignment ".5".toList first ∧
    ReadsWhole readAssignment "1".toList second ∧ parse (spacedChoice "a".toList ".5".toList "1".toList) = .ok x ∧
    ¬ ∃ y, parse (tightChoice "a".toList ".5".toList "1".toList) = .ok y ∧ y.unplaced = x.unplaced := by
  refine ⟨.identifier ⟨0, 1⟩ "a", .literal ⟨0, 2⟩ (.number 0.5), .literal ⟨0, 1⟩ (.number 1), _, ⟨32, rfl⟩, ⟨32, rfl⟩,
    ⟨32, rfl⟩, rfl, ?_⟩
  rintro ⟨y, parsed, -⟩
  have refused : parse (tightChoice "a".toList ".5".toList "1".toList) = .error (Diagnostic.of "a?.5:1".toList
    ⟨.syntaxFault "Unexpected token after expression", ⟨1, 2⟩⟩) := rfl
  rw [refused] at parsed
  cases parsed

end PromptScript
