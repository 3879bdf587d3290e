import PromptScript.Proofs.Embedded
import PromptScript.Proofs.Groupings

/-! # Precedence climbing

From operands with operators between them the ordered grouping is read. The operands are given by their texts: each is one
that is read as an operand when it stands alone. -/

/-! ## Operands at the end of their text

An operand goes over the blanks after it. Where it is the end of its text and there is text behind it that goes on with no
link and no update, it ends somewhere in the blanks between. -/
namespace PromptScript

namespace Cursor

variable {p : Char → Bool}

theorem skipWhile_cons (p : Char → Bool) (offset : Nat) (d : Char) (r : List Char) :
    (⟨offset, d :: r⟩ : Cursor).skipWhile p =
      if p d then (⟨offset + d.utf8Size, r⟩ : Cursor).skipWhile p else ⟨offset, d :: r⟩ := rfl

@[simp] theorem skipWhile_skipWhile (p : Char → Bool) (c : Cursor) : (c.skipWhile p).skipWhile p = c.skipWhile p := by
  obtain ⟨offset, rest⟩ := c
  induction rest generalizing offset with
  | nil => rfl
  | cons d r ih =>
    rw [skipWhile_cons]
    split
    · exact ih _
    · next last => rw [skipWhile_cons, if_neg last]

/-- What a text is passed over up to is passed over to the same place when it is put into surroundings. -/
theorem skipWhile_amid_skipWhile (p : Char → Bool) (c : Cursor) (w : Grammar.Surroundings) :
    ((c.skipWhile p).amid w).skipWhile p = (c.amid w).skipWhile p := by
  obtain ⟨offset, rest⟩ := c
  induction rest generalizing offset with
  | nil => rfl
  | cons d r ih =>
    rw [skipWhile_cons]
    split
    · next holds =>
      rw [ih]
      show _ = (⟨offset + w.before, d :: (r ++ w.behind)⟩ : Cursor).skipWhile p
      rw [skipWhile_cons, if_pos holds, Nat.add_right_comm]
      rfl
    · rfl

end Cursor

namespace Grammar

/-- Surroundings that go on, after blanks, with nothing that an operand might take. -/
structure Surroundings.Quiet (w : Surroundings) : Prop where
  link : linkAt? (w.behind.dropWhile isSpace) = none
  update : updateAt? (w.behind.dropWhile isSpace) = none

variable {α β γ δ : Type} {w : Surroundings}

theorem Surroundings.rest_skipWhile (w : Surroundings) {c : Cursor} (ends : (c.skipWhile isSpace).rest = []) :
    ((c.amid w).skipWhile isSpace).rest = w.behind.dropWhile isSpace := by
  rw [← Cursor.skipWhile_amid_skipWhile, Cursor.skipWhile_eq]
  show List.dropWhile isSpace ((c.skipWhile isSpace).rest ++ w.behind) = _
  rw [ends, List.nil_append]

/-- What one reading gives at a cursor another gives in surroundings, up to the blanks after it. -/
def Reaches (w : Surroundings) (move : α → β) (x : Reading α) (y : Reading β) (c : Cursor) : Prop :=
  ∀ a c', Gives x c a c' → ∃ d, Gives y (c.amid w) (move a) d ∧ d.skipWhile isSpace = (c'.amid w).skipWhile isSpace

variable {c : Cursor} {n m : Nat}

/-- The links after an expression, and the blanks after them, where the text goes on with no further link. -/
theorem gives_readLinks (quiet : w.Quiet) (le : n ≤ m) (start : Nat) (optional : Bool) {e x : Expr} {c' : Cursor}
    (h : Gives (readLinks n start optional e) c x c') :
    Gives (readLinks m (start + w.before) optional (e.shifted w.before)) (c.amid w) (x.shifted w.before)
      ((c'.amid w).skipWhile isSpace) := by
  induction n generalizing m c optional e with
  | zero => exact (not_gives_failEnd h).elim
  | succ n ih =>
    cases m with
    | zero => cases le
    | succ m =>
      replace le := Nat.le_of_succ_le_succ le
      rw [readLinks_succ] at h ⊢
      obtain ⟨_, _, skips, h⟩ := gives_bind.mp h
      obtain rfl := gives_skipSpaces.mp skips
      obtain ⟨_, _, look, h⟩ := gives_bind.mp h
      obtain ⟨rfl, rfl⟩ := gives_rest.mp look
      refine .skipSpaces rfl (.rest ?_)
      by_cases ends : (c.skipWhile isSpace).rest = []
      · -- What is next in the longer text is behind its blanks, and is no link.
        rw [ends] at h
        obtain ⟨rfl, rfl⟩ := gives_pure.mp h
        rw [w.rest_skipWhile ends, quiet.link]
        exact gives_pure.mpr ⟨(shifted_finish ..).symm, (Cursor.skipWhile_amid_skipWhile ..).symm⟩
      · have there := (Cursor.skipWhile_amid (w := w) (.inl ends)).1
        rw [there]
        rw [Cursor.rest_amid, w.linkAt?_append]
        cases here : linkAt? (c.skipWhile isSpace).rest with
        | none =>
          rw [here] at h
          obtain ⟨rfl, rfl⟩ := gives_pure.mp h
          refine gives_pure.mpr ⟨(shifted_finish ..).symm, ?_⟩
          rw [← there, Cursor.skipWhile_skipWhile]
        | some l =>
          rw [here] at h
          obtain ⟨e', c₁, reads, h⟩ := gives_bind.mp h
          exact .bind (((embeds w le).readLink _ start e l here e' c₁ reads).2 nofun) (ih le _ h)

/-- An operand with an update after it, or links, where the text goes on with nothing that it might take. -/
theorem reaches_readPostfix (quiet : w.Quiet) (le : n ≤ m) :
    Reaches w (Expr.shifted w.before) (readPostfix n) (readPostfix m) c := by
  intro x c' h
  cases n with
  | zero => exact (not_gives_failEnd h).elim
  | succ n =>
    cases m with
    | zero => cases le
    | succ m =>
      replace le := Nat.le_of_succ_le_succ le
      rw [readPostfix_succ] at h ⊢
      obtain ⟨first, c₁, primary, h⟩ := gives_bind.mp h
      obtain ⟨argument, c₂, links, update⟩ := gives_bind.mp h
      have primary := ((embeds w le).primary c first c₁ primary).2 nofun
      by_cases ends : c₂.rest = []
      · obtain ⟨_, _, look, update⟩ := gives_bind.mp update
        obtain ⟨rfl, rfl⟩ := gives_rest.mp look
        rw [ends] at update
        obtain ⟨rfl, rfl⟩ := gives_pure.mp update
        refine ⟨_, .bind primary ?_, Cursor.skipWhile_skipWhile ..⟩
        rw [Expr.span_shifted]
        refine .bind (gives_readLinks quiet le _ _ links) (.rest ?_)
        rw [w.rest_skipWhile (by rw [Cursor.skipWhile_eq, ends]; rfl), quiet.update]
        exact gives_pure.mpr ⟨rfl, rfl⟩
      · have links := ((embeds w le).links _ _ _ c₁ argument c₂ links).2 fun _ => .inr ends
        have update := (Stays.readUpdate (w := w) x c' update).2 nofun
        refine ⟨_, .bind primary ?_, rfl⟩
        rw [Expr.span_shifted]
        exact .bind links update

namespace Reaches

variable {move : α → γ} {later : β → δ} {x : Reading α} {y : Reading γ}

theorem skipSpaces {f : Unit → Reading β} {g : Unit → Reading δ}
    (some : ∀ b c', Gives (f ()) (c.skipWhile isSpace) b c' → (c.skipWhile isSpace).rest ≠ [])
    (rest : Reaches w later (f ()) (g ()) (c.skipWhile isSpace)) :
    Reaches w later (Grammar.skipSpaces >>= f) (Grammar.skipSpaces >>= g) c := by
  intro b c' h
  obtain ⟨_, _, skips, h⟩ := gives_bind.mp h
  obtain rfl := gives_skipSpaces.mp skips
  obtain ⟨d, reads, same⟩ := rest b c' h
  have there := (Cursor.skipWhile_amid (w := w) (.inl (some b c' h))).1
  exact ⟨d, .skipSpaces there reads, same⟩

theorem offset {f : Nat → Reading β} {g : Nat → Reading δ} (rest : Reaches w later (f c.offset) (g (c.offset + w.before)) c) :
    Reaches w later (Grammar.offset >>= f) (Grammar.offset >>= g) c := rest

theorem rest {f : List Char → Reading β} {g : List Char → Reading δ}
    (rest : Reaches w later (f c.rest) (g (c.rest ++ w.behind)) c) :
    Reaches w later (Grammar.rest >>= f) (Grammar.rest >>= g) c := rest

theorem skip {f : Unit → Reading β} {g : Unit → Reading δ} (some : n ≤ c.rest.length)
    (rest : Reaches w later (f ()) (g ()) (c.skip n)) :
    Reaches w later (Grammar.skip n >>= f) (Grammar.skip n >>= g) c := by
  intro b c' h
  obtain ⟨_, _, skips, h⟩ := gives_bind.mp h
  obtain rfl := gives_skip.mp skips
  obtain ⟨d, reads, same⟩ := rest b c' h
  exact ⟨d, .skipTo (Cursor.skip_amid (.inr some)) reads, same⟩

/-- What follows a reading without going on. -/
theorem still {f : α → Reading β} {g : γ → Reading δ} (first : Reaches w move x y c)
    (rest : ∀ a c₁ b c', Gives (f a) c₁ b c' → c₁ = c' ∧ ∀ d, Gives (g (move a)) d (later b) d) :
    Reaches w later (x >>= f) (y >>= g) c := by
  intro b c' h
  obtain ⟨a, c₁, hx, hf⟩ := gives_bind.mp h
  obtain ⟨d, reads, same⟩ := first a c₁ hx
  obtain ⟨rfl, still⟩ := rest a c₁ b c' hf
  exact ⟨d, .bind reads (still d), same⟩

end Reaches

/-- An operand where the text goes on, after blanks, with nothing that it might take. -/
theorem reaches_readUnary (quiet : w.Quiet) (le : n ≤ m) :
    Reaches w (Expr.shifted w.before) (readUnary n) (readUnary m) c := by
  induction n generalizing m c with
  | zero => exact fun _ _ h => (not_gives_failEnd h).elim
  | succ n ih =>
    cases m with
    | zero => cases le
    | succ m =>
      replace le := Nat.le_of_succ_le_succ le
      refine .skipSpaces (fun x c' h ends => ?_) ?_
      · obtain ⟨_, _, look, h⟩ := gives_bind.mp h
        obtain ⟨rfl, rfl⟩ := gives_offset.mp look
        obtain ⟨_, _, look, h⟩ := gives_bind.mp h
        obtain ⟨rfl, rfl⟩ := gives_rest.mp look
        rw [ends] at h
        exact not_gives_readPostfix ends h
      · refine .offset (.rest ?_)
        rw [w.updateAt?_append, w.unaryAt?_append]
        split
        · next op here =>
          refine .skip (length_of_updateAt? here) (.still (ih le) fun argument c₁ x c' h => ?_)
          obtain ⟨_, _, checks, h⟩ := gives_bind.mp h
          obtain ⟨rfl, everywhere⟩ := checkUpdateTarget_gives checks
          obtain ⟨rfl, rfl⟩ := gives_pure.mp h
          refine ⟨rfl, fun d => gives_bind.mpr ⟨(), d, everywhere _ d, gives_pure.mpr ⟨?_, rfl⟩⟩⟩
          rw [Expr.shifted, Expr.span_shifted]
          rfl
        · split
          · next symbol op here =>
            refine .skip (length_of_unaryAt? here) (.still (ih le) fun argument c₁ x c' h => ?_)
            obtain ⟨rfl, rfl⟩ := gives_pure.mp h
            refine ⟨rfl, fun d => gives_pure.mpr ⟨?_, rfl⟩⟩
            rw [Expr.shifted, Expr.span_shifted]
            rfl
          · exact reaches_readPostfix quiet le

end Grammar
end PromptScript

/-! ## Groupings that are read -/
namespace PromptScript.Grammar

/-! ### Operators and operands ahead -/

/-- Operators with an operand after each, ahead of a cursor up to another. -/
inductive Terms : Cursor → List (Infix × Expr) → Cursor → Prop
  | done {c : Cursor} (ends : infixAt? (c.skipWhile isSpace).rest = none) : Terms c [] (c.skipWhile isSpace)
  | more {c c₁ c' : Cursor} {symbol : String} {op : Infix} {e : Expr} {r : List (Infix × Expr)} {n : Nat}
    (here : infixAt? (c.skipWhile isSpace).rest = some (symbol, op))
    (operand : Gives (readUnary n) ((c.skipWhile isSpace).skip symbol.length) e c₁) (further : Terms c₁ r c') :
    Terms c ((op, e) :: r) c'

/-- What stands before operators does not matter but for blanks. -/
theorem Terms.blank {c d c' : Cursor} {terms : List (Infix × Expr)} (h : Terms c terms c')
    (same : d.skipWhile isSpace = c.skipWhile isSpace) : Terms d terms c' := by
  cases h with
  | done ends =>
    rw [← same] at ends ⊢
    exact .done ends
  | more here operand further =>
    rw [← same] at here operand
    exact .more here operand further

/-- Operators and operands as they are read from left to right. -/
def readingOf (terms : List (Infix × Expr)) : List (Expr ⊕ Infix) := terms.flatMap fun term => [.inr term.1, .inl term.2]

/-- What the operators that bind tighter than `least` make of an operand and the operators and operands after it: `rest` of
these is left at the cursor `c'`. -/
structure Climbed (least : Nat) (left t : Grouping) (c : Cursor) (terms rest : List (Infix × Expr)) (c' : Cursor) : Prop where
  reading : t.reading ++ readingOf rest = left.reading ++ readingOf terms
  ordered : t.Ordered
  tight : ∀ q ∈ t.root?, least < q.precedence
  stops : ∀ term ∈ rest.head?, term.1.precedence ≤ least
  blank : c'.skipWhile isSpace = c'
  gives : ∃ n, Gives (readOperators n least left.expr) c t.expr c'

theorem readingOf_cons (op : Infix) (e : Expr) (r : List (Infix × Expr)) :
    readingOf ((op, e) :: r) = .inr op :: .inl e :: readingOf r := rfl

/-- An operator that the right side of another has left may have that other to its left. -/
theorem Infix.allowsLeft_of_rightBound {op root : Infix} (h : op.precedence ≤ root.rightBound) : op.AllowsLeft root := by
  unfold AllowsLeft
  split
  · next power =>
    subst power
    exact absurd (Nat.lt_of_le_of_lt h root.rightBound_lt) (by decide)
  · exact Nat.le_trans h root.rightBound_le

theorem Infix.allowsRight_of_rightBound {op root : Infix} (h : op.rightBound < root.precedence) : op.AllowsRight root := by
  unfold rightBound at h
  unfold AllowsRight
  split at h
  · next power =>
    rw [if_pos power]
    exact Nat.le_of_pred_lt h
  · next other =>
    rw [if_neg other]
    exact h

/-- Nothing is read where the next operator does not bind tighter than `least`. -/
theorem gives_readOperators_stop {least : Nat} (left : Expr) (c : Cursor)
    (stops : ∀ found ∈ infixAt? (c.skipWhile isSpace).rest, found.2.precedence ≤ least) :
    Gives (readOperators 1 least left) c left (c.skipWhile isSpace) := by
  refine .skipSpaces rfl (.rest ?_)
  split
  · exact gives_pure.mpr ⟨rfl, rfl⟩
  · next symbol op here =>
    rw [if_pos (stops _ here)]
    exact gives_pure.mpr ⟨rfl, rfl⟩

/-- An operator that binds tighter is read with the right operand that its own precedence leaves to it. -/
theorem gives_readOperators_more {n least : Nat} {left right e : Expr} {c c₁ c' : Cursor} {symbol : String} {op : Infix}
    (here : infixAt? (c.skipWhile isSpace).rest = some (symbol, op)) (tighter : least < op.precedence)
    (operand : Gives (readOperation n op.rightBound) ((c.skipWhile isSpace).skip symbol.length) right c₁)
    (further : Gives (readOperators n least (op.apply left right)) c₁ e c') :
    Gives (readOperators (n + 1) least left) c e c' := by
  refine .skipSpaces rfl (.rest ?_)
  rw [here]
  show Gives (if op.precedence ≤ least then _ else _) _ _ _
  rw [if_neg (Nat.not_le_of_lt tighter)]
  exact .skip (.bind operand further)

/-- The operators that bind tighter than `least` group as they should, if the next one may have what is on its left there. -/
theorem climb (least : Nat) (left : Grouping) {c c' : Cursor} (terms : List (Infix × Expr)) (ahead : Terms c terms c')
    (ordered : left.Ordered) (tight : ∀ q ∈ left.root?, least < q.precedence)
    (fits : ∀ q ∈ left.root?, ∀ term ∈ terms.head?, term.1.precedence ≤ q.rightBound) :
    ∃ t rest d, Climbed least left t c terms rest d ∧ Terms d rest c' ∧ rest.length ≤ terms.length := by
  -- A right operand takes some of the operators, and what is left of them comes after it: by how many there are.
  induction size : terms.length using Nat.strongRecOn generalizing terms least left c with
  | _ size ih =>
    subst size
    have stopped (loose : ∀ found ∈ infixAt? (c.skipWhile isSpace).rest, found.2.precedence ≤ least)
        (stops : ∀ term ∈ terms.head?, term.1.precedence ≤ least) :
        ∃ t rest d, Climbed least left t c terms rest d ∧ Terms d rest c' ∧ rest.length ≤ terms.length :=
      ⟨left, terms, c.skipWhile isSpace,
        ⟨rfl, ordered, tight, stops, Cursor.skipWhile_skipWhile .., 1, gives_readOperators_stop _ _ loose⟩,
        ahead.blank (Cursor.skipWhile_skipWhile ..), Nat.le_refl _⟩
    cases ahead with
    | done ends => exact stopped (by rw [ends]; nofun) nofun
    | @more _ c₁ _ symbol op e r n here operand further =>
      by_cases loose : op.precedence ≤ least
      · exact stopped (by rw [here]; rintro _ ⟨⟩; exact loose) (by rintro _ ⟨⟩; exact loose)
      · -- The right operand takes what binds tighter than the operator allows to its left.
        obtain ⟨right, rest, d, climbed, ahead, shorter⟩ :=
          ih r.length (Nat.lt_succ_self _) op.rightBound (.operand e) r further trivial nofun nofun rfl
        have between : (Grouping.node op left right).Ordered := by
          refine ⟨ordered, climbed.ordered, fun q root => ?_, fun q root => ?_⟩
          · exact Infix.allowsLeft_of_rightBound (fits q root _ rfl)
          · exact Infix.allowsRight_of_rightBound (climbed.tight q root)
        obtain ⟨t, rest', d', climbed', ahead', shorter'⟩ :=
          ih rest.length (Nat.lt_succ_of_le shorter) least (.node op left right) rest ahead between
            (by rintro _ ⟨⟩; exact Nat.lt_of_not_le loose) (by rintro _ ⟨⟩; exact climbed.stops) rfl
        refine ⟨t, rest', d', ⟨?_, climbed'.ordered, climbed'.tight, climbed'.stops, climbed'.blank, ?_⟩, ahead',
          Nat.le_succ_of_le (Nat.le_trans shorter' shorter)⟩
        · rw [climbed'.reading, readingOf_cons, Grouping.reading, List.append_assoc, List.cons_append, climbed.reading]
          rfl
        · obtain ⟨k, reads⟩ := climbed.gives
          obtain ⟨k', reads'⟩ := climbed'.gives
          have later := (refuels (show k' ≤ n + k + k' + 1 by omega)).operators reads'
          refine ⟨n + k + k' + 2, gives_readOperators_more here (Nat.lt_of_not_le loose) ?_ later⟩
          exact .bind ((refuels (by omega)).unary operand) ((refuels (by omega)).operators reads)

/-- An operation takes all operators after its first operand. -/
theorem gives_readOperation {n : Nat} {c₀ c c' : Cursor} {e : Expr} {terms : List (Infix × Expr)}
    (operand : Gives (readUnary n) c₀ e c) (ahead : Terms c terms c') :
    ∃ t : Grouping, t.reading = .inl e :: readingOf terms ∧ t.Ordered ∧ ∃ m, Gives (readOperation m 0) c₀ t.expr c' := by
  obtain ⟨t, rest, d, climbed, ahead, -⟩ := climb 0 (.operand e) terms ahead trivial nofun nofun
  cases ahead with
  | more here _ _ => exact absurd (climbed.stops _ rfl) (Nat.not_le_of_lt (Infix.precedence_pos _))
  | done ends =>
    refine ⟨t, ?_, climbed.ordered, ?_⟩
    · have reading := climbed.reading
      rw [show readingOf [] = [] from rfl, List.append_nil] at reading
      exact reading
    · obtain ⟨m, reads⟩ := climbed.gives
      rw [climbed.blank]
      exact ⟨n + m + 1, .bind ((refuels (by omega)).unary operand) ((refuels (by omega)).operators reads)⟩

/-! ### Texts of operations -/

/-- How an operator is written. -/
def Infix.symbol : Infix → String
  | .binary op => op.symbol
  | .logical op => op.symbol

/-- A text that is an operand: it is read as one to its end. -/
structure Operand where
  text : List Char
  expr : Expr
  reads : ∃ n, Gives (readUnary n) (.start text) expr ⟨Text.byteLength text, []⟩

/-- Blanks between an operator and an operand. -/
structure Gap where
  text : List Char
  some : text ≠ []
  blank : ∀ d ∈ text, isSpace d = true

/-- An operator between blanks, and the operand after it. -/
structure Term where
  before : Gap
  op : Infix
  after : Gap
  operand : Operand

/-- What stands before the operand of a term. -/
def Term.lead (t : Term) : List Char := t.before.text ++ (t.op.symbol.toList ++ t.after.text)

def Term.text (t : Term) : List Char := t.lead ++ t.operand.text

/-- The text of an operation. -/
def operationText (first : Operand) (terms : List Term) : List Char := first.text ++ terms.flatMap Term.text

/-- The operators and operands of terms, each at its place in a text where the terms start at an offset. -/
def placedFrom (offset : Nat) : List Term → List (Infix × Expr)
  | [] => []
  | t :: r =>
    (t.op, t.operand.expr.shifted (offset + Text.byteLength t.lead)) :: placedFrom (offset + Text.byteLength t.text) r

/-- The operators and operands of an operation from left to right. -/
def operationReading (first : Operand) (terms : List Term) : List (Expr ⊕ Infix) :=
  .inl first.expr :: readingOf (placedFrom (Text.byteLength first.text) terms)

/-- After the symbol of an operator, a blank tells that it is this operator, and no link and no update. -/
theorem Infix.symbol_at (op : Infix) {d : Char} (blank : isSpace d = true) (r : List Char) :
    infixAt? (op.symbol.toList ++ d :: r) = some (op.symbol, op) ∧ linkAt? (op.symbol.toList ++ d :: r) = none ∧
      updateAt? (op.symbol.toList ++ d :: r) = none := by
  rcases isSpace_eq_true blank with rfl | rfl | rfl | rfl | rfl <;> rcases op with op | op <;> cases op <;>
    exact ⟨rfl, rfl, rfl⟩

/-- No operator starts with a blank. -/
theorem Infix.symbol_solid (op : Infix) (r : List Char) :
    (op.symbol.toList ++ r).dropWhile isSpace = op.symbol.toList ++ r ∧ (op.symbol.toList ++ r).takeWhile isSpace = [] := by
  rcases op with op | op <;> cases op <;> exact ⟨rfl, rfl⟩

namespace Gap

variable (g : Gap) (r : List Char)

theorem head_blank : ∃ d t, g.text = d :: t ∧ isSpace d = true := by
  obtain ⟨text, some, blank⟩ := g
  cases text with
  | nil => exact (some rfl).elim
  | cons d t => exact ⟨d, t, rfl, blank d List.mem_cons_self⟩

theorem dropWhile_append : (g.text ++ r).dropWhile isSpace = r.dropWhile isSpace :=
  List.dropWhile_append_of_pos g.blank

theorem skipWhile_append (offset : Nat) : (⟨offset, g.text ++ r⟩ : Cursor).skipWhile isSpace =
    (⟨offset + Text.byteLength g.text, r⟩ : Cursor).skipWhile isSpace := by
  rw [Cursor.skipWhile_eq, Cursor.skipWhile_eq, dropWhile_append, List.takeWhile_append_of_pos g.blank,
    Text.byteLength_append, Nat.add_assoc]

end Gap

/-- An operand is read the same from the blanks before it. -/
theorem gives_readUnary_blank {n : Nat} {c d c' : Cursor} {e : Expr} (same : c.skipWhile isSpace = d.skipWhile isSpace)
    (h : Gives (readUnary n) d e c') : Gives (readUnary n) c e c' := by
  cases n with
  | zero => exact (not_gives_failEnd h).elim
  | succ n =>
    obtain ⟨_, _, skips, h⟩ := gives_bind.mp h
    obtain rfl := gives_skipSpaces.mp skips
    exact .skipSpaces same h

/-- The text of further terms as what is behind an operand. -/
def termsBehind (offset : Nat) (terms : List Term) : Surroundings where
  before := offset
  behind := terms.flatMap Term.text
  apart := by
    cases terms with
    | nil => exact nofun
    | cons t r =>
      obtain ⟨d, rest, here, blank⟩ := t.before.head_blank
      rw [List.flatMap_cons, Term.text, Term.lead, here]
      rintro _ ⟨⟩
      exact blank

theorem termsBehind_quiet (offset : Nat) (terms : List Term) : (termsBehind offset terms).Quiet := by
  show Surroundings.Quiet ⟨offset, terms.flatMap Term.text, _⟩
  cases terms with
  | nil => exact ⟨rfl, rfl⟩
  | cons t r =>
    obtain ⟨d, rest, here, blank⟩ := t.after.head_blank
    have ahead : List.dropWhile isSpace ((t :: r).flatMap Term.text) =
        t.op.symbol.toList ++ d :: (rest ++ (t.operand.text ++ r.flatMap Term.text)) := by
      rw [List.flatMap_cons, Term.text, Term.lead, here]
      simp only [List.append_assoc]
      rw [Gap.dropWhile_append, (t.op.symbol_solid _).1, List.cons_append]
    obtain ⟨-, link, update⟩ := t.op.symbol_at blank (rest ++ (t.operand.text ++ r.flatMap Term.text))
    constructor
    · rw [ahead]
      exact link
    · rw [ahead]
      exact update

/-- Where an operand stands before further terms, it is read with the spans of its place, up to the blanks after it. -/
theorem Operand.gives (o : Operand) (offset : Nat) (terms : List Term) : ∃ n d,
    Gives (readUnary n) ⟨offset, o.text ++ terms.flatMap Term.text⟩ (o.expr.shifted offset) d ∧
      d.skipWhile isSpace = (⟨offset + Text.byteLength o.text, terms.flatMap Term.text⟩ : Cursor).skipWhile isSpace := by
  obtain ⟨n, reads⟩ := o.reads
  obtain ⟨d, reads, same⟩ := reaches_readUnary (termsBehind_quiet offset terms) (Nat.le_refl n) _ _ reads
  refine ⟨n, d, ?_, ?_⟩
  · rw [Cursor.amid, Cursor.start, Nat.zero_add] at reads
    exact reads
  · rw [same, Cursor.amid, List.nil_append, Nat.add_comm]
    rfl

/-- Terms in a text are operators and operands ahead. -/
theorem terms_ahead (terms : List Term) (offset : Nat) {c : Cursor}
    (here : c.skipWhile isSpace = (⟨offset, terms.flatMap Term.text⟩ : Cursor).skipWhile isSpace) :
    Terms c (placedFrom offset terms) ⟨offset + Text.byteLength (terms.flatMap Term.text), []⟩ := by
  induction terms generalizing offset c with
  | nil =>
    have ends : c.skipWhile isSpace = ⟨offset, []⟩ := here
    rw [show (⟨offset + Text.byteLength ([].flatMap Term.text), []⟩ : Cursor) = c.skipWhile isSpace from ends.symm]
    exact .done (by rw [ends]; rfl)
  | cons t r ih =>
    have at_symbol : c.skipWhile isSpace = ⟨offset + Text.byteLength t.before.text,
        t.op.symbol.toList ++ (t.after.text ++ (t.operand.text ++ r.flatMap Term.text))⟩ := by
      rw [here, List.flatMap_cons, Term.text, Term.lead]
      simp only [List.append_assoc]
      rw [Gap.skipWhile_append, Cursor.skipWhile_eq, (t.op.symbol_solid _).1, (t.op.symbol_solid _).2]
      rfl
    obtain ⟨n, d, reads, same⟩ := t.operand.gives (offset + Text.byteLength t.lead) r
    have past : offset + Text.byteLength t.lead + Text.byteLength t.operand.text = offset + Text.byteLength t.text := by
      rw [Term.text, Text.byteLength_append, Nat.add_assoc]
    rw [past] at same
    rw [List.flatMap_cons, Text.byteLength_append, ← Nat.add_assoc]
    refine .more (n := n) (show infixAt? _ = some (t.op.symbol, t.op) from ?_) ?_ (ih _ same)
    · obtain ⟨a, rest, blank⟩ := t.after.head_blank
      rw [at_symbol, blank.1]
      exact (t.op.symbol_at blank.2 _).1
    · rw [at_symbol, ← String.length_toList, Cursor.skip_append]
      refine gives_readUnary_blank ?_ reads
      rw [Gap.skipWhile_append, Term.lead, Text.byteLength_append, Text.byteLength_append]
      simp only [Nat.add_assoc]

/-- **Precedence climbing builds the grouping that the precedences dictate**: of operands with operators between blanks after
them, all of it is read, into the only ordered grouping of these operands and operators. -/
theorem readOperation_ordered (first : Operand) (terms : List Term) :
    ∃ t : Grouping, (t.reading = operationReading first terms ∧ t.Ordered) ∧
      (∀ other : Grouping, other.reading = operationReading first terms → other.Ordered → other = t) ∧
      ∀ n, boundFor (operationText first terms) ≤ n → Gives (readOperation n 0) (.start (operationText first terms)) t.expr
        ⟨Text.byteLength (operationText first terms), []⟩ := by
  obtain ⟨n, d, operand, same⟩ := first.gives 0 terms
  rw [Expr.shifted_zero] at operand
  rw [Nat.zero_add] at same
  obtain ⟨t, reading, ordered, m, reads⟩ := gives_readOperation operand (terms_ahead terms _ same)
  refine ⟨t, ⟨reading, ordered⟩, fun other same order => order.unique ordered (same.trans reading.symm), fun k le => ?_⟩
  rw [operationText, Text.byteLength_append]
  have settled : Settled (readOperation · 0) (.start (operationText first terms)) (boundFor (operationText first terms)) :=
    settled_of_same fun n le => (settles _ n).operation ⟨.refl _, by
      show 16 * (operationText first terms).length + 5 ≤ n
      unfold boundFor at le
      omega⟩
  have enough := (refuels (Nat.le_max_left m k)).operation reads
  exact (settled k le).trans ((settled _ (Nat.le_trans le (Nat.le_max_right m k))).symm.trans enough)

/-- One blank. -/
def Gap.space : Gap := ⟨[' '], List.cons_ne_nil _ _, List.forall_mem_cons.mpr ⟨rfl, nofun⟩⟩

/-- A variable as an operand. -/
def Operand.x : Operand := ⟨['x'], .identifier ⟨0, 1⟩ "x", 4, rfl⟩

def Term.x (op : BinaryOp) : Term := ⟨.space, .binary op, .space, .x⟩

def Grouping.x (offset : Nat) : Grouping := .operand (.identifier ⟨offset, offset + 1⟩ "x")

/-- Of `x - x ** x ** x` the powers group from the right, and below the difference. -/
theorem readOperation_ordered_powers :
    Gives (readOperation (boundFor "x - x ** x ** x".toList) 0) (.start "x - x ** x ** x".toList)
      (.binary ⟨0, 15⟩ .sub (.identifier ⟨0, 1⟩ "x")
        (.binary ⟨4, 15⟩ .pow (.identifier ⟨4, 5⟩ "x")
          (.binary ⟨9, 15⟩ .pow (.identifier ⟨9, 10⟩ "x") (.identifier ⟨14, 15⟩ "x")))) ⟨15, []⟩ := by
  obtain ⟨t, -, unique, reads⟩ := readOperation_ordered .x [.x .sub, .x .pow, .x .pow]
  have ordered : (Grouping.node (.binary .sub) (.x 0)
      (.node (.binary .pow) (.x 4) (.node (.binary .pow) (.x 9) (.x 14)))).Ordered :=
    ⟨trivial, ⟨trivial, ⟨trivial, trivial, nofun, nofun⟩, nofun, by rintro _ ⟨⟩; decide⟩, nofun, by rintro _ ⟨⟩; decide⟩
  obtain rfl := unique _ rfl ordered
  rw [show operationText .x [.x .sub, .x .pow, .x .pow] = "x - x ** x ** x".toList from rfl] at reads
  exact reads _ (Nat.le_refl _)

end PromptScript.Grammar
