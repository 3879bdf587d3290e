import PromptScript.Proofs.Standing

/-! # Tests and branches of a choice

A text that is read whole as the test of a choice, or as one of its branches, is read so where it has the marks of the choice
behind it, with blanks between: an expression goes over the blanks after it, and ends somewhere in them. `Resumes` is for
what starts with blanks, and so may take them up anywhere. -/
namespace PromptScript.Grammar

variable {α β γ δ : Type} {w : Surroundings} {c : Cursor} {n m : Nat}

/-- A text that is read to its end. -/
def ReadsWhole (read : Nat → Reading Expr) (text : List Char) (e : Expr) : Prop :=
  ∃ n, Gives (read n) (.start text) e ⟨Text.byteLength text, []⟩

/-- What one reading gives at a cursor another gives in surroundings, wherever it starts in the blanks there, up to the blanks
after it. -/
def Resumes (w : Surroundings) (move : α → β) (x : Reading α) (y : Reading β) (c : Cursor) : Prop :=
  ∀ d, d.skipWhile isSpace = (c.amid w).skipWhile isSpace → ∀ a c', Gives x c a c' →
    ∃ d', Gives y d (move a) d' ∧ d'.skipWhile isSpace = (c'.amid w).skipWhile isSpace

namespace Reaches

variable {move : α → γ} {later : β → δ} {x : Reading α} {y : Reading γ} {f : α → Reading β} {g : γ → Reading δ}

theorem pure {a : α} {b : γ} (same : move a = b) : Reaches w move (Pure.pure a) (Pure.pure b) c := by
  intro a' c' h
  obtain ⟨rfl, rfl⟩ := gives_pure.mp h
  exact ⟨_, gives_pure.mpr ⟨same.symm, rfl⟩, rfl⟩

/-- A reading after blanks in which the one before it may have ended. -/
theorem onward (first : Reaches w move x y c) (rest : ∀ a c₁, Resumes w later (f a) (g (move a)) c₁) :
    Reaches w later (x >>= f) (y >>= g) c := by
  intro b c' h
  obtain ⟨a, c₁, hx, hf⟩ := gives_bind.mp h
  obtain ⟨d₁, hy, same⟩ := first a c₁ hx
  obtain ⟨d', hg, same'⟩ := rest a c₁ d₁ same b c' hf
  exact ⟨d', .bind hy hg, same'⟩

/-- A reading after one that ends before the end of the text. -/
theorem within (first : Stays w false move x y c) (some : ∀ a c₁ b c', Gives (f a) c₁ b c' → c₁.rest ≠ [])
    (rest : ∀ a c₁, Reaches w later (f a) (g (move a)) c₁) : Reaches w later (x >>= f) (y >>= g) c := by
  intro b c' h
  obtain ⟨a, c₁, hx, hf⟩ := gives_bind.mp h
  have stays := (first a c₁ hx).2 fun _ => .inr (some a c₁ b c' hf)
  obtain ⟨d', hg, same⟩ := rest a c₁ b c' hf
  exact ⟨d', .bind stays hg, same⟩

/-- Characters are skipped before something that has to be there. -/
theorem skipTo {f : Unit → Reading β} {g : Unit → Reading δ} {k : Nat}
    (some : ∀ b c', Gives (f ()) (c.skip k) b c' → (c.skip k).rest ≠ [])
    (rest : Reaches w later (f ()) (g ()) (c.skip k)) :
    Reaches w later (Grammar.skip k >>= f) (Grammar.skip k >>= g) c := by
  intro b c' h
  obtain ⟨_, _, skips, reads⟩ := gives_bind.mp h
  obtain rfl := gives_skip.mp skips
  exact Reaches.skip (Cursor.le_of_skip (some b c' reads)) rest b c' h

end Reaches

/-- A look at what follows blanks: at the end of the text it is at what goes on behind it. -/
theorem Resumes.look {later : β → δ} {f : List Char → Reading β} {g : List Char → Reading δ}
    (ended : ∃ b, f [] = pure b ∧ g (w.behind.dropWhile isSpace) = pure (later b))
    (inside : ∀ c : Cursor, Reaches w later (f c.rest) (g (c.rest ++ w.behind)) c) :
    Resumes w later (skipSpaces >>= fun _ => rest >>= f) (skipSpaces >>= fun _ => rest >>= g) c := by
  intro d same b c' h
  obtain ⟨_, _, skips, h⟩ := gives_bind.mp h
  obtain rfl := gives_skipSpaces.mp skips
  obtain ⟨_, _, look, h⟩ := gives_bind.mp h
  obtain ⟨rfl, rfl⟩ := gives_rest.mp look
  by_cases ends : (c.skipWhile isSpace).rest = []
  · -- In the longer text the blanks go on behind this one, and the look is at what comes after them.
    obtain ⟨b', here, there⟩ := ended
    rw [ends, here] at h
    obtain ⟨rfl, rfl⟩ := gives_pure.mp h
    refine ⟨d.skipWhile isSpace, .skipSpaces rfl (.rest ?_), ?_⟩
    · rw [same, w.rest_skipWhile ends, there]
      exact gives_pure.mpr ⟨rfl, rfl⟩
    · rw [Cursor.skipWhile_skipWhile, same, Cursor.skipWhile_amid_skipWhile]
  · obtain ⟨d', reads, same'⟩ := inside (c.skipWhile isSpace) b c' h
    refine ⟨d', .skipSpaces (same.trans (Cursor.skipWhile_amid (.inl ends)).1) (.rest ?_), same'⟩
    exact reads

/-! ## Operations -/

/-- Surroundings that go on, after blanks, with nothing that an operation might take. -/
structure Surroundings.Calm (w : Surroundings) : Prop extends w.Quiet where
  operator : infixAt? (w.behind.dropWhile isSpace) = none

/-- Operations, and the operators after an operand, where the text goes on with no operator. -/
theorem reaches_operations (calm : w.Calm) (le : n ≤ m) :
    (∀ least c, Reaches w (Expr.shifted w.before) (readOperation n least) (readOperation m least) c) ∧
      ∀ least left c, Resumes w (Expr.shifted w.before) (readOperators n least left)
        (readOperators m least (left.shifted w.before)) c := by
  -- An operation is an operand with operators after it, and what follows an operator is an operation: both at once.
  induction n generalizing m with
  | zero => exact ⟨fun _ _ _ _ h => (not_gives_failEnd h).elim, fun _ _ _ _ _ _ _ h => (not_gives_failEnd h).elim⟩
  | succ n ih =>
    cases m with
    | zero => cases le
    | succ m =>
      obtain ⟨operation, operators⟩ := ih (Nat.le_of_succ_le_succ le)
      refine ⟨fun least c => ?_, fun least left c => ?_⟩
      · exact .onward (reaches_readUnary calm.toQuiet (Nat.le_of_succ_le_succ le)) fun left c₁ => operators least left c₁
      · refine .look ⟨left, rfl, ?_⟩ fun c => ?_
        · rw [calm.operator]
        · rw [w.infixAt?_append]
          split
          · exact .pure rfl
          · split
            · exact .pure rfl
            · refine .skipTo (fun e c' h empty => ?_) (.onward (operation _ _) fun right c₁ => ?_)
              · exact not_gives_first (fun _ _ => not_gives_readOperation empty) e c' h
              · rw [← Infix.shifted_apply]
                exact operators _ _ _

/-! ## Choices and assignments -/

/-- Surroundings that go on, after blanks, with nothing that an expression without commas might take. -/
def Surroundings.Final (w : Surroundings) : Prop := Stops (w.behind.dropWhile isSpace)

theorem Surroundings.Final.calm (final : w.Final) : w.Calm := ⟨⟨final.link, final.update⟩, final.operator⟩

namespace Reaches

theorem readConditional (final : w.Final) (le : n ≤ m)
    (assignment : ∀ c, Reaches w (Expr.shifted w.before) (readAssignment n) (readAssignment m) c) :
    Reaches w (Expr.shifted w.before) (readConditional (n + 1)) (readConditional (m + 1)) c := by
  rw [readConditional_succ, readConditional_succ]
  refine .onward ((reaches_operations final.calm le).1 0 c) fun test c₁ => .look ⟨test, rfl, ?_⟩ fun c => ?_
  · rw [final.choice]
    rfl
  · rw [w.choiceAt_append]
    split
    · refine .skipTo (fun e c' h empty => ?_) ?_
      · exact not_gives_first (fun _ _ => not_gives_readAssignment empty) e c' h
      · -- The first branch ends before its colon, and so it is none that what is behind the text could add to.
        refine .within ((embeds w le).assignment _) (fun a c₁ b c' h empty => ?_) fun first c₁ => ?_
        · exact not_gives_blanks (fun _ _ _ empty => not_gives_expect empty) b c' empty h
        · refine .skipSpaces (fun b c' h empty => not_gives_expect empty h) ?_
          refine .within (.expect ':') (fun _ c₁ b c' h empty => ?_) fun _ c₁ => ?_
          · exact not_gives_first (fun _ _ => not_gives_readAssignment empty) b c' h
          · refine .still (assignment c₁) fun second c₁ b c' h => ?_
            obtain ⟨rfl, rfl⟩ := gives_pure.mp h
            refine ⟨rfl, fun d => gives_pure.mpr ⟨?_, rfl⟩⟩
            rw [Expr.shifted, Expr.span_shifted, Expr.span_shifted, Span.hull_shifted]
    · exact .pure rfl

theorem readAssignment (final : w.Final)
    (conditional : ∀ c, Reaches w (Expr.shifted w.before) (Grammar.readConditional n) (Grammar.readConditional m) c)
    (assignment : ∀ c, Reaches w (Expr.shifted w.before) (readAssignment n) (readAssignment m) c) :
    Reaches w (Expr.shifted w.before) (readAssignment (n + 1)) (readAssignment (m + 1)) c := by
  refine .onward (conditional c) fun target c₁ => .look ⟨target, rfl, ?_⟩ fun c => ?_
  · rw [final.assign]
  · rw [w.assignAt?_append]
    split
    · exact .pure rfl
    · refine .skipTo (fun e c' h => ?_) ?_
      · obtain ⟨_, _, checks, h⟩ := gives_bind.mp h
        obtain ⟨_, _, reads, -⟩ := gives_bind.mp h
        exact (Advances.checkAssignTarget target _ _ _ checks).rest_ne_nil fun empty => not_gives_readAssignment empty reads
      · refine .within .checkAssignTarget (fun _ c₁ b c' h empty => ?_) fun _ c₁ => ?_
        · exact not_gives_first (fun _ _ => not_gives_readAssignment empty) b c' h
        · refine .still (assignment c₁) fun value c₁ b c' h => ?_
          obtain ⟨rfl, rfl⟩ := gives_pure.mp h
          refine ⟨rfl, fun d => gives_pure.mpr ⟨?_, rfl⟩⟩
          rw [Expr.shifted, Expr.span_shifted, Expr.span_shifted, Span.hull_shifted]

end Reaches

/-- Choices and assignments, where the text goes on with nothing that they might take. -/
theorem reaches_branches (final : w.Final) (le : n ≤ m) :
    (∀ c, Reaches w (Expr.shifted w.before) (readConditional n) (readConditional m) c) ∧
      ∀ c, Reaches w (Expr.shifted w.before) (readAssignment n) (readAssignment m) c := by
  induction n generalizing m with
  | zero => exact ⟨fun _ _ _ h => (not_gives_failEnd h).elim, fun _ _ _ h => (not_gives_failEnd h).elim⟩
  | succ n ih =>
    cases m with
    | zero => cases le
    | succ m =>
      replace le := Nat.le_of_succ_le_succ le
      obtain ⟨conditional, assignment⟩ := ih le
      exact ⟨fun c => .readConditional final le assignment, fun c => .readAssignment final conditional assignment⟩

/-! ## Blanks before an expression -/

/-- A reading that goes over the blanks before what it reads. -/
def Indented (x : Reading α) : Prop :=
  ∀ c d a c', c.skipWhile isSpace = d.skipWhile isSpace → Gives x d a c' → Gives x c a c'

namespace Indented

theorem blanks {f : Unit → Reading α} : Indented (skipSpaces >>= f) := by
  intro c d a c' same h
  obtain ⟨_, _, skips, h⟩ := gives_bind.mp h
  obtain rfl := gives_skipSpaces.mp skips
  exact .skipSpaces same h

theorem first {x : Reading α} {f : α → Reading β} (h : Indented x) : Indented (x >>= f) := by
  intro c d b c' same reads
  obtain ⟨a, c₁, hx, hf⟩ := gives_bind.mp reads
  exact .bind (h c d a c₁ same hx) hf

theorem failEnd : Indented (failEnd : Reading α) := fun _ _ _ _ _ h => (not_gives_failEnd h).elim

theorem readUnary (n : Nat) : Indented (readUnary n) := by
  cases n with
  | zero => exact failEnd
  | succ n => exact blanks

theorem readOperation (n least : Nat) : Indented (readOperation n least) := by
  cases n with
  | zero => exact failEnd
  | succ n => exact (readUnary n).first

theorem readConditional (n : Nat) : Indented (readConditional n) := by
  cases n with
  | zero => exact failEnd
  | succ n => exact (readOperation n 0).first

theorem readAssignment (n : Nat) : Indented (readAssignment n) := by
  cases n with
  | zero => exact failEnd
  | succ n => exact (readConditional n).first

end Indented

/-! ## Choices with blanks around their marks -/

/-- The text of a choice with a blank around each of its marks. -/
def spacedChoice (test first second : List Char) : List Char :=
  test ++ ' ' :: '?' :: ' ' :: (first ++ ' ' :: ':' :: ' ' :: second)

theorem byteLength_spacedChoice (test first second : List Char) : Text.byteLength (spacedChoice test first second) =
    Text.byteLength test + 3 + Text.byteLength first + 3 + Text.byteLength second := by
  have blank : ' '.utf8Size = 1 := rfl
  have mark : '?'.utf8Size = 1 := rfl
  have colon : ':'.utf8Size = 1 := rfl
  simp only [spacedChoice, Text.byteLength_append, Text.byteLength, blank, mark, colon]
  omega

variable {t a b : List Char} {test first second : Expr}

/-- A choice with blanks around its marks is read as the choice of what its parts are read as. -/
theorem readsWhole_spacedChoice (tests : ReadsWhole (readOperation · 0) t test) (firsts : ReadsWhole readAssignment a first)
    (seconds : ReadsWhole readAssignment b second) : ∃ x, ReadsWhole readConditional (spacedChoice t a b) x ∧
      x.unplaced = (Expr.conditional ⟨0, 0⟩ test first second).unplaced := by
  obtain ⟨n₀, tests⟩ := tests
  obtain ⟨n₁, firsts⟩ := firsts
  obtain ⟨n₂, seconds⟩ := seconds
  -- Each part in its surroundings: the test before the rest, the first branch after the test, the second at the end.
  let behind : Surroundings := ⟨0, ' ' :: '?' :: ' ' :: (a ++ ' ' :: ':' :: ' ' :: b), by rintro _ ⟨⟩; rfl⟩
  let between : Surroundings := ⟨Text.byteLength t + 3, ' ' :: ':' :: ' ' :: b, by rintro _ ⟨⟩; rfl⟩
  have calm : behind.Calm := ⟨⟨rfl, rfl⟩, rfl⟩
  have final : between.Final := stops_cons (.inr (.inr (.inr (.inr rfl)))) _
  let m := n₀ + n₁ + n₂
  obtain ⟨d₀, tests, at₀⟩ := (reaches_operations calm (show n₀ ≤ m by omega)).1 0 _ test _ tests
  obtain ⟨d₁, firsts, at₁⟩ := (reaches_branches final (show n₁ ≤ m by omega)).2 _ first _ firsts
  let past := Text.byteLength t + 3 + Text.byteLength a + 3
  have seconds := ((embeds (.ahead past) (show n₂ ≤ m by omega)).assignment _ second _ seconds).2 fun _ => .inl rfl
  refine ⟨.conditional ((test.shifted 0).span.hull (second.shifted past).span) (test.shifted 0)
    (first.shifted (Text.byteLength t + 3)) (second.shifted past), ⟨m + 1, ?_⟩, ?_⟩
  · rw [readConditional_succ]
    refine .bind tests (.skipSpaces at₀ (.rest ?_))
    refine .skip (.bind (Indented.readAssignment m _ _ _ _ ?_ firsts) (.skipSpaces at₁ ?_))
    · show Cursor.skipWhile isSpace ⟨Text.byteLength t + 3, _⟩ = Cursor.skipWhile isSpace ⟨0 + (Text.byteLength t + 3), _⟩
      rw [Nat.zero_add]
      rfl
    · refine .bind (gives_expect ':' _) (.bind (Indented.readAssignment m _ _ _ _ ?_ seconds) (gives_pure.mpr ⟨rfl, ?_⟩))
      · show Cursor.skipWhile isSpace ⟨Text.byteLength a + (Text.byteLength t + 3) + 3, b⟩ =
          Cursor.skipWhile isSpace ⟨0 + past, b ++ []⟩
        rw [List.append_nil, show Text.byteLength a + (Text.byteLength t + 3) + 3 = 0 + past by omega]
      · show (⟨Text.byteLength b + past, []⟩ : Cursor) = ⟨Text.byteLength (spacedChoice t a b), []⟩
        rw [byteLength_spacedChoice, show Text.byteLength b + past = past + Text.byteLength b from Nat.add_comm ..]
  · simp only [Expr.unplaced, Expr.unplaced_shifted]

end PromptScript.Grammar
